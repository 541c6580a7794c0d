import RarChat.Library.EarlyExit
import RarChat.OpenAi
import RarChat.Sse
import RarChat.Throughput

/-!
# The read loop

The part of `run_attempt` that starts once a response has been accepted as an
event stream: the `select!` loop over the body, the loop over the frames a read
completes, and the recovered tail behind the last read.

What the `select!` returns is an input.  A `Wakeup` is one that lets the loop go
on, a `WaitEnd` one that leaves it.  Ticks, reads, cancellation and the peer take
the time they take; the two timers never fire before the instant they are armed
for, and how much later they do is an input.  `frameStep`, `readStep` and
`tickStep` are passes of loops with early exits, so `return` is `Outcome.stop`.
-/

namespace RarChat

open EarlyExit

/-! ## Inputs -/

/-- A wakeup of the `select!` after which the loop goes on, if nothing in its
handling returns. -/
inductive Wakeup
  | tick (after activeStreams : ℕ)
  | read (after wallUnixMs : ℕ) (item : List UInt8)
deriving DecidableEq, Repr

/-- The wakeup that leaves the loop at the `select!` itself. -/
inductive WaitEnd
  | cancelled (after : ℕ)
  | overallDeadline (late : ℕ)
  | stall (late : ℕ)
  | closed (after : ℕ)
  | transportError (after : ℕ) (detail : String)
deriving DecidableEq, Repr

/-- What happens while a body is read. -/
structure BodyTrace where
  wakeups : List Wakeup
  last : WaitEnd
deriving DecidableEq, Repr

/-! ## State -/

/-- The locals of the loop.  `now` is the instant of the last wakeup. -/
structure ReadLoop where
  parser : SseParser
  st : StreamState
  now : ℕ
  turnStart : ℕ
  lastReadAt : ℕ
  firstByteAt : Option ℕ
  readSeq : ℕ
  instSeq : ℕ
  spanStart : ℕ
  ttftEmitted : Bool
  emaBps : ℚ
  starvedDur : Option ℕ
  contentBytesThisSec : ℕ
  selectPolls : ℕ
deriving DecidableEq, Repr

/-- What a pass of the loop leaves. -/
abbrev LoopOutcome := Outcome ReadLoop EmissionRecord AttemptEnd

/-- What a `return` leaves. -/
structure LoopEnd where
  state : ReadLoop
  records : List EmissionRecord
  ended : AttemptEnd

/-- Prepend records that were emitted earlier. -/
def LoopEnd.after (earlier : List EmissionRecord) (e : LoopEnd) : LoopEnd :=
  { e with records := earlier ++ e.records }

/-- A `return` inside a pass leaves the loop. -/
def LoopEnd.returned (e : LoopEnd) : LoopOutcome := ⟨e.state, e.records, some e.ended⟩

namespace ReadLoop

def start (st : StreamState) (now selectPolls : ℕ) : ReadLoop where
  parser := SseParser.withLimit defaultBufLimit
  st := st
  now := now
  turnStart := now
  lastReadAt := now
  firstByteAt := none
  readSeq := 0
  instSeq := 0
  spanStart := 1
  ttftEmitted := false
  emaBps := 0
  starvedDur := none
  contentBytesThisSec := 0
  selectPolls := selectPolls

/-- The window in force: the backstop until the first read. -/
def stallWindow (cfg : OpenAiConfig) (s : ReadLoop) : ℕ :=
  if s.readSeq = 0 then cfg.firstByteBackstop else cfg.stallTimeout

/-- The absolute instant the stall timer is armed for. -/
def stallDeadline (cfg : OpenAiConfig) (s : ReadLoop) : ℕ :=
  s.lastReadAt + s.stallWindow cfg

/-- What is left of the overall deadline, saturating. -/
def overallRemaining (cfg : OpenAiConfig) (s : ReadLoop) : ℕ :=
  cfg.overallDeadline - (s.now - s.turnStart)

def streamEnd (s : ReadLoop) (cause : StreamEndCause) (unconsumed : ℕ) :
    EmissionRecord :=
  .streamEnd s.st.streamId s.st.attempt cause unconsumed

def wake (s : ReadLoop) (arm : String) : EmissionRecord :=
  .scheduler s.st.streamId s.st.attempt (.selectWake arm)

/-- `return AttemptEnd::Wire(cause)`, behind its `StreamEnd` record. -/
def endWire (s : ReadLoop) (cause : StreamEndCause) : LoopEnd :=
  ⟨s, [s.streamEnd cause s.parser.buffered], .wire cause⟩

/-- `return AttemptEnd::Complete(finalize_attempt(..))`, behind its `StreamEnd`
record. -/
def endComplete (s : ReadLoop) (cause : StreamEndCause) (endCause : EndCause) :
    LoopEnd :=
  let fin := finalizeAttempt s.st endCause
  ⟨{ s with st := fin.state },
    s.streamEnd cause s.parser.buffered :: fin.records,
    .complete fin.resolution⟩

/-- The instant of a wakeup; every pass counts one poll. -/
def wakeAt (s : ReadLoop) (instant : ℕ) : ReadLoop :=
  { s with now := instant, selectPolls := s.selectPolls + 1 }

end ReadLoop

/-! ## Frames -/

def hexByte (b : UInt8) : String :=
  String.ofList [Nat.digitChar (b.toNat / 16), Nat.digitChar (b.toNat % 16)]

/-- The first bytes of an undecodable frame. -/
def hexPrefix (raw : List UInt8) : String :=
  " ".intercalate ((raw.take 16).map hexByte)

/-- The `Installment` record of a frame. -/
def ReadLoop.installment (s : ReadLoop) (ev : SseEvent) (kind : InstallmentKind)
    (payload : String) (status : InstallmentStatus) : EmissionRecord :=
  .installment s.st.streamId s.st.attempt (s.instSeq + 1) s.spanStart s.readSeq
    ev.rawByteLen kind payload status

def ReadLoop.undecodable (s : ReadLoop) (raw : List UInt8) (error : String) :
    EmissionRecord :=
  .undecodableInstallment s.st.streamId s.st.attempt (s.instSeq + 1) raw.length
    error (hexPrefix raw)

def ReadLoop.note (s : ReadLoop) (note : WireNote) : EmissionRecord :=
  .wire s.st.streamId s.st.attempt note

/-- The records of a data frame, up to those of its refinement. -/
def ReadLoop.dataRecords (s : ReadLoop) (gap : ℕ) (ev : SseEvent) (text : String)
    (refinement : List EmissionRecord) : List EmissionRecord :=
  s.installment ev .data text .complete ::
    (if s.ttftEmitted then []
      else [s.note (.ttft (asMillis (s.lastReadAt - s.turnStart)))]) ++
    s.note (.interReadGap (asMillis gap) ev.rawByteLen) :: refinement

/-- Follow what `on_installment` returned; `gained` is the content it added. -/
def ReadLoop.follow (s : ReadLoop) (gained : ℕ) :
    Except DriverFault FlowDirective → LoopOutcome
  | .ok .proceed =>
      ⟨{ s with contentBytesThisSec := s.contentBytesThisSec + gained }, [], none⟩
  | .ok .stopComplete => (s.endComplete .doneSentinelConsumed .streamEnded).returned
  | .ok .abort => (s.endComplete (.handlerDirected "abort") .handlerAbort).returned
  -- the fault itself is dropped: the machine resolves as for an abort
  | .error _ =>
      (s.endComplete (.handlerDirected "protocol_error") .handlerAbort).returned

variable (cfg : OpenAiConfig) (serde : SerdeJson)

/-- One pass of the loop over the frames of a read; `gap` is the time since the
read before. -/
def frameStep (gap : ℕ) (s : ReadLoop) (ev : SseEvent) : LoopOutcome :=
  let counted := { s with instSeq := s.instSeq + 1, spanStart := s.readSeq }
  match ev.payload with
  | .undecodable raw error => ⟨counted, [s.undecodable raw error], none⟩
  | .comment text =>
      ⟨counted, [s.installment ev .comment text .complete, s.note .keepAliveComment],
        none⟩
  | .data text =>
      let step := onInstallment serde s.st (s.instSeq + 1) .data text .complete
      (ReadLoop.follow { counted with st := step.state, ttftEmitted := true }
        (step.state.contentBytes - s.st.contentBytes) step.result).after
          (s.dataRecords gap ev text step.records)

/-! ## Wakeups -/

/-- The bookkeeping of a read, up to its `Read` record. -/
def ReadLoop.beginRead (s : ReadLoop) (instant : ℕ) : ReadLoop :=
  { s.wakeAt instant with
    st := { s.st with reads := s.st.reads + 1 }
    readSeq := s.readSeq + 1
    firstByteAt := s.firstByteAt.or (some instant)
    lastReadAt := instant }

/-- The `Read` record of a read of `bytes` bytes. -/
def ReadLoop.readRecord (s : ReadLoop) (instant wallUnixMs bytes : ℕ) :
    EmissionRecord :=
  .read s.st.streamId s.st.attempt (s.readSeq + 1) (asMillis (instant - s.turnStart))
    wallUnixMs bytes (asMillis (instant - s.lastReadAt))

def readStep (s : ReadLoop) (after wallUnixMs : ℕ) (item : List UInt8) :
    LoopOutcome :=
  let instant := s.now + after
  let gap := instant - s.lastReadAt
  let record := s.readRecord instant wallUnixMs item.length
  match s.parser.push item with
  -- `Err` carries no frames: those cut before the overflow are lost with it
  | (parser, .error o) =>
      ((ReadLoop.endWire { s.beginRead instant with parser }
        (.bufferOverflow o.limitBytes)).after [record]).returned
  | (parser, .ok frames) =>
      (run (frameStep serde gap) { s.beginRead instant with parser } frames).after
        [record]

/-- The throughput tick; before the first byte it does nothing. -/
def tickStep (s : ReadLoop) (after activeStreams : ℕ) : LoopOutcome :=
  let instant := s.now + after
  let woken := s.wakeAt instant
  match s.firstByteAt with
  | none => ⟨woken, [], none⟩
  | some fb =>
      -- the floor is in force from one second behind the first byte
      let eval := evalThroughputWith Binary64.round s.emaBps s.contentBytesThisSec
        cfg.throughputFloorBps (nanosPerSec ≤ instant - fb) s.starvedDur
        (instant - s.turnStart) cfg.throughputSustained
      let ticked :=
        { woken with
          emaBps := eval.ema
          starvedDur := eval.starvedSince
          contentBytesThisSec := 0 }
      let record : EmissionRecord :=
        .scheduler s.st.streamId s.st.attempt
          (.contentThroughput (saturatingU64 eval.ema) activeStreams)
      if eval.starved then
        ((ticked.endWire (.throughputStarved cfg.throughputFloorBps
          (asSecs cfg.throughputSustained))).after [record]).returned
      else ⟨ticked, [record], none⟩

/-- One pass of the read loop. -/
def wakeupStep (s : ReadLoop) : Wakeup → LoopOutcome
  | .tick after activeStreams => tickStep cfg s after activeStreams
  | .read after wallUnixMs item => readStep serde s after wallUnixMs item

/-! ## The end of the body -/

/-- One pass of the loop over the recovered tail, whose directive is ignored. -/
def tailStep (s : ReadLoop) (ev : SseEvent) : LoopOutcome :=
  let counted := { s with instSeq := s.instSeq + 1 }
  match ev.payload with
  | .undecodable raw error => ⟨counted, [s.undecodable raw error], none⟩
  -- `on_installment` is called here too, and does nothing with a comment
  | .comment text =>
      ⟨counted, [s.installment ev .comment text .recoveredTail], none⟩
  | .data text =>
      let step := onInstallment serde s.st (s.instSeq + 1) .data text .recoveredTail
      ⟨{ counted with st := step.state },
        s.installment ev .data text .recoveredTail :: step.records, none⟩

/-- The record of what assembled into no frame, if anything is left. -/
def residueRecords (stream : StreamId) (attempt : UInt32) (residue : List UInt8) :
    List EmissionRecord :=
  if residue.isEmpty then []
  else [.residue stream attempt residue.length (fromUtf8Lossy residue)]

/-- The note on a commit whose stream ended without the sentinel. -/
def ReadLoop.eofNote (s : ReadLoop) : TurnResolution → List EmissionRecord
  | .committed _ => [s.note .eofWithoutDoneSentinel]
  | .fault _ => []

/-- The peer closed: the tail, the residue, the `StreamEnd`, and the verdict. -/
def peerClosed (s : ReadLoop) : LoopEnd :=
  let flushed := s.parser.finishWithResidue
  let tail := run (tailStep serde) s flushed.1
  let closed := tail.state
  let cause : StreamEndCause :=
    if closed.st.sawAnyContent then .peerClosed else .closedWithNoContent
  let fin := finalizeAttempt closed.st .streamEnded
  ⟨{ closed with st := fin.state },
    tail.out ++ residueRecords s.st.streamId s.st.attempt flushed.2 ++
      closed.streamEnd cause 0 :: fin.records ++ closed.eofNote fin.resolution,
    .complete fin.resolution⟩

/-- The wait that leaves the loop. -/
def lastWait (s : ReadLoop) : WaitEnd → LoopEnd
  | .cancelled after =>
      let woken := s.wakeAt (s.now + after)
      (woken.endWire .cancelled).after [s.wake "cancel"]
  -- slept for what was left at the last wakeup
  | .overallDeadline late =>
      let woken := s.wakeAt (s.now + s.overallRemaining cfg + late)
      (woken.endWire (.overallDeadline (asSecs cfg.overallDeadline))).after
        [s.wake "overall_deadline"]
  -- armed for an absolute instant, which may lie behind the last wakeup
  | .stall late =>
      let woken := s.wakeAt (max s.now (s.stallDeadline cfg) + late)
      let window := asSecs (s.stallWindow cfg)
      (woken.endWire
        (if s.readSeq = 0 then .firstByteBackstop window
          else .stallTimeout window)).after [s.wake "stall"]
  | .closed after => peerClosed serde (s.wakeAt (s.now + after))
  -- the arm of the body notes no `SelectWake`
  | .transportError after detail =>
      (s.wakeAt (s.now + after)).endWire (.transportError detail)

/-- The read loop over a body, to its end. -/
def readLoop (s : ReadLoop) (body : BodyTrace) : LoopEnd :=
  let looped := run (wakeupStep cfg serde) s body.wakeups
  match looped.stop with
  | some ended => ⟨looped.state, looped.out, ended⟩
  | none => (lastWait cfg serde looped.state body.last).after looped.out

theorem readLoop_of_stop {s : ReadLoop} {body : BodyTrace} {ended : AttemptEnd}
    (h : (run (wakeupStep cfg serde) s body.wakeups).stop = some ended) :
    readLoop cfg serde s body =
      ⟨(run (wakeupStep cfg serde) s body.wakeups).state,
        (run (wakeupStep cfg serde) s body.wakeups).out, ended⟩ := by
  simp only [readLoop, h]

theorem readLoop_of_running {s : ReadLoop} {body : BodyTrace}
    (h : (run (wakeupStep cfg serde) s body.wakeups).stop = none) :
    readLoop cfg serde s body =
      (lastWait cfg serde (run (wakeupStep cfg serde) s body.wakeups).state
        body.last).after (run (wakeupStep cfg serde) s body.wakeups).out := by
  simp only [readLoop, h]

end RarChat
