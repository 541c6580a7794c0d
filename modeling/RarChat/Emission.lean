import RarChat.Driver

/-!
# Emission records

The typed records of `emission.rs`, one for each observable fact.  The bus that
carries them is not part of this module: a function of the model that emits
returns the list of records it emits, in order.

Instants and durations elsewhere in the model are nanoseconds; the records
carry the milliseconds and whole seconds that the source computes from them.
-/

namespace RarChat

/-- Identifier of one concurrent stream. -/
abbrev StreamId := ℕ

def captureFormatVersion : UInt32 := 2

inductive InstallmentKind
  | data
  | comment
deriving DecidableEq, Repr

inductive InstallmentStatus
  | complete
  | recoveredTail
deriving DecidableEq, Repr

inductive StreamEndCause
  | doneSentinelConsumed
  | peerClosed
  | closedWithNoContent
  | stallTimeout (windowSecs : ℕ)
  | throughputStarved (floorBps sustainedSecs : ℕ)
  | overallDeadline (limitSecs : ℕ)
  | firstByteBackstop (windowSecs : ℕ)
  | transportError (detail : String)
  | handlerDirected (directive : String)
  | bufferOverflow (limitBytes : ℕ)
  | httpError (status : ℕ) (body : String)
  | notAnEventStream (contentType bodyPrefix : String)
  | connectError (detail : String)
  | multipleChoicesUnsupported (n : ℕ)
  | cancelled
deriving DecidableEq, Repr

inductive WireNote
  | ttft (ms : ℕ)
  | interReadGap (ms bytes : ℕ)
  | keepAliveComment
  | eofWithoutDoneSentinel
  | readPacingEngaged
  | unhandledChannel (channel : String)
deriving DecidableEq, Repr

inductive SchedNote
  | contentThroughput (bytesPerSec activeStreams : ℕ)
  | selectWake (arm : String)
  | emitLatencyUs (us : ℕ)
deriving DecidableEq, Repr

inductive LedgerEntry
  | sendBucketSpent (availableAfter : UInt32)
  | sendBucketReturned (availableAfter : UInt32)
  | sendBucketDenied
  | retryAllowanceGranted (total : UInt32)
  | retryAllowanceSpent (remaining : UInt32)
deriving DecidableEq, Repr

inductive TurnVerdictRecord
  | committed (finishReason : String) (chars : ℕ)
      (usage : Option (UInt32 × UInt32 × UInt32))
  | failed (fault : String)
  | failoverDirected (afterAttempts : UInt32)
deriving DecidableEq, Repr

inductive EmissionRecord
  | read (stream : StreamId) (attempt : UInt32)
      (seq atMs wallUnixMs bytes gapMs : ℕ)
  | installment (stream : StreamId) (attempt : UInt32)
      (seq firstRead lastRead bytes : ℕ) (kind : InstallmentKind)
      (payload : String) (status : InstallmentStatus)
  | normalizedEvent (stream : StreamId) (attempt : UInt32)
      (installmentSeq : ℕ) (event : DriverEvent)
  | normalizationError (stream : StreamId) (attempt : UInt32)
      (installmentSeq : ℕ) (detail : String)
  | undecodableInstallment (stream : StreamId) (attempt : UInt32)
      (seq bytes : ℕ) (error hexPrefix : String)
  | residue (stream : StreamId) (attempt : UInt32) (bytes : ℕ)
      (lossyText : String)
  | streamEnd (stream : StreamId) (attempt : UInt32) (cause : StreamEndCause)
      (unconsumedBufferBytes : ℕ)
  | wire (stream : StreamId) (attempt : UInt32) (note : WireNote)
  | ledger (stream : StreamId) (attempt : UInt32) (entry : LedgerEntry)
  | anomaly (stream : StreamId) (attempt : UInt32) (note : String)
  | scheduler (stream : StreamId) (attempt : UInt32) (note : SchedNote)
  | turnTrailer (stream : StreamId) (formatVersion attempts : UInt32)
      (verdict : TurnVerdictRecord)
      (reads installments events normalizationErrors selectPolls : ℕ)
      (capturePolicy : String)
  | captureDrop (dropped : ℕ)
deriving DecidableEq, Repr

end RarChat
