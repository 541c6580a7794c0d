import RarChat.Emission
import RarChat.Machine
import RarChat.Normalize

/-!
# The Event Handler

The second half of `event_handler.rs`: the state of one stream, the Send Bucket
pool, the wire-fault strategy, and the two entry points through which the Driver
forwards installments and closes an attempt.

The handler's fields other than the bucket counter never change after `new`; the
counter is atomic and shared between turns, so the functions that touch it take
the value they find and return the value they leave.  An emitting function
returns its records.
-/

namespace RarChat

inductive FlowDirective
  | proceed
  | stopComplete
  | abort
deriving DecidableEq, Repr

inductive FaultDirective
  | retrySameEndpoint
  | failover
  | giveUp
deriving DecidableEq, Repr

/-! ## Per-stream state -/

/-- Per-stream refinement state.  The `u64` counters are natural numbers. -/
structure StreamState where
  streamId : StreamId
  attempt : UInt32
  machine : StreamMachine
  installments : ℕ
  events : ℕ
  normErrors : ℕ
  reads : ℕ
  contentBytes : ℕ
  sawAnyContent : Bool
deriving DecidableEq, Repr

namespace StreamState

def new (streamId : StreamId) : StreamState :=
  ⟨streamId, 0, StreamMachine.new, 0, 0, 0, 0, 0, false⟩

/-- Count the attempt and start it with a fresh machine.  The `u32` counter
wraps, as in the release build that the repository documents. -/
def beginAttempt (st : StreamState) : StreamState :=
  { st with attempt := st.attempt + 1, machine := StreamMachine.new }

end StreamState

inductive TurnResolution
  | committed (outcome : ChatOutcome)
  | fault (f : DriverFault)
deriving DecidableEq, Repr

/-- The fields of the handler that never change. -/
structure EventHandler where
  retryAllowancePerTurn : UInt32
  knowsFailoverExists : Bool
deriving DecidableEq, Repr

/-! ## Strategy -/

/-- `u32::checked_sub`. -/
def checkedSub (v w : UInt32) : Option UInt32 :=
  if w ≤ v then some (v - w) else none

/-- What touching the bucket counter leaves: the answer, the counter, and the
ledger record. -/
structure BucketStep where
  granted : Bool
  available : UInt32
  records : List EmissionRecord
deriving DecidableEq, Repr

namespace EventHandler

/-- The new stream's state and its allowance ledger. -/
def beginStream (h : EventHandler) (streamId : StreamId) :
    StreamState × List EmissionRecord :=
  (StreamState.new streamId,
    [.ledger streamId 0 (.retryAllowanceGranted h.retryAllowancePerTurn)])

end EventHandler

/-- Spend one Send Bucket, or be denied. -/
def acquireSendBucket (stream : StreamId) (attempt available : UInt32) : BucketStep :=
  match checkedSub available 1 with
  | some left => ⟨true, left, [.ledger stream attempt (.sendBucketSpent left)]⟩
  | none => ⟨false, available, [.ledger stream attempt .sendBucketDenied]⟩

/-- `fetch_add(1)`, which wraps. -/
def returnSendBucket (stream : StreamId) (attempt available : UInt32) : BucketStep :=
  ⟨true, available + 1,
    [.ledger stream attempt (.sendBucketReturned (available + 1))]⟩

/-- What the wire-fault strategy leaves: the directive, the remaining allowance,
and the ledger records. -/
structure StrategyStep where
  directive : FaultDirective
  remainingAllowance : UInt32
  records : List EmissionRecord
deriving DecidableEq, Repr

def EventHandler.onWireFault (h : EventHandler) (stream : StreamId)
    (attempt remainingAllowance : UInt32) : StrategyStep :=
  if 0 < remainingAllowance then
    ⟨.retrySameEndpoint, remainingAllowance - 1,
      [.ledger stream attempt (.retryAllowanceSpent (remainingAllowance - 1))]⟩
  else if h.knowsFailoverExists then ⟨.failover, remainingAllowance, []⟩
  else ⟨.giveUp, remainingAllowance, []⟩

/-! ## Refinement -/

/-- What refining one installment leaves. -/
structure InstallmentStep where
  state : StreamState
  records : List EmissionRecord
  result : Except DriverFault FlowDirective

/-- The loop over the normalized events: the machine is fed and the content is
counted. -/
def StreamState.absorb (st : StreamState) (ev : DriverEvent) : StreamState :=
  match ev with
  | .textDelta t =>
      { st with
        machine := st.machine.feed ev
        contentBytes := st.contentBytes + t.utf8ByteSize
        sawAnyContent := true }
  | _ => { st with machine := st.machine.feed ev }

def onInstallment (serde : SerdeJson) (st : StreamState) (installmentSeq : ℕ)
    (kind : InstallmentKind) (payload : String) (_status : InstallmentStatus) :
    InstallmentStep :=
  if kind = .comment then ⟨st, [], .ok .proceed⟩
  else
    match normalize serde payload with
    | .error detail =>
        ⟨{ st with normErrors := st.normErrors + 1 },
          [.normalizationError st.streamId st.attempt installmentSeq detail],
          .error (.protocol detail)⟩
    | .ok norm =>
        match norm.multipleChoices with
        | some n =>
            let detail := s!"multiple choices (n={n}) not supported"
            ⟨st, [.normalizationError st.streamId st.attempt installmentSeq detail],
              .error (.protocol detail)⟩
        | none =>
            let st' :=
              norm.events.foldl StreamState.absorb
                { st with
                  installments := st.installments + 1
                  events := st.events + norm.events.length }
            ⟨st',
              norm.unhandledChannels.map (fun ch =>
                  .wire st.streamId st.attempt (.unhandledChannel ch)) ++
                norm.events.map (fun ev =>
                  .normalizedEvent st.streamId st.attempt installmentSeq ev),
              .ok (if .done ∈ norm.events then .stopComplete else .proceed)⟩

/-- What closing an attempt leaves. -/
structure FinalizeStep where
  state : StreamState
  records : List EmissionRecord
  resolution : TurnResolution

/-- The machine's verdict as the resolution of the attempt. -/
def StreamMachine.resolve (m : StreamMachine) (cause : EndCause) : TurnResolution :=
  match m.finalize cause with
  | .ok outcome => .committed outcome
  | .error fault => .fault fault

/-- Drain machine anomalies and resolve this attempt. -/
def finalizeAttempt (st : StreamState) (cause : EndCause) : FinalizeStep :=
  ⟨{ st with machine := StreamMachine.new },
    st.machine.anomalies.map fun note => .anomaly st.streamId st.attempt note,
    st.machine.resolve cause⟩

/-! ## What refinement does to the stream's state -/

/-- The bytes of text a list of events carries. -/
def textBytes (events : List DriverEvent) : ℕ :=
  ((events.filterMap DriverEvent.text?).map String.utf8ByteSize).sum

/-- Some event carries text. -/
def carriesText (events : List DriverEvent) : Bool :=
  events.any fun ev => ev.text?.isSome

/-- **The loop over normalized events** feeds the machine and counts the text. -/
theorem foldl_absorb (st : StreamState) (events : List DriverEvent) :
    events.foldl StreamState.absorb st =
      { st with
        machine := st.machine.feedAll events
        contentBytes := st.contentBytes + textBytes events
        sawAnyContent := st.sawAnyContent || carriesText events } := by
  induction events generalizing st with
  | nil => simp [textBytes, carriesText]
  | cons ev events ih =>
      rw [List.foldl_cons, ih]
      cases ev <;>
        simp [StreamState.absorb, textBytes, carriesText, List.filterMap_cons,
          DriverEvent.text?, Nat.add_assoc]

/-- What `onInstallment` makes of a data payload: what it carries, or the detail
it is rejected with. -/
def refined (serde : SerdeJson) (payload : String) : Except String Normalized :=
  match normalize serde payload with
  | .error detail => .error detail
  | .ok norm =>
      match norm.multipleChoices with
      | some n => .error s!"multiple choices (n={n}) not supported"
      | none => .ok norm

/-- What is taken in has been normalized, and is of one choice at most. -/
theorem normalize_of_refined {serde : SerdeJson} {payload : String} {norm : Normalized}
    (ok : refined serde payload = .ok norm) :
    normalize serde payload = .ok norm ∧ norm.multipleChoices = none := by
  unfold refined at ok
  cases hnorm : normalize serde payload with
  | error detail => simp [hnorm] at ok
  | ok norm' =>
      cases hchoices : norm'.multipleChoices with
      | some n => simp [hnorm, hchoices] at ok
      | none =>
          obtain rfl : norm' = norm := by simpa [hnorm, hchoices] using ok
          exact ⟨rfl, hchoices⟩

/-- A data payload that `onInstallment` takes in, with what it carries. -/
def accepted (serde : SerdeJson) (payload : String) : Option Normalized :=
  (refined serde payload).toOption

/-- **A rejected payload** leaves everything but the error count, reports one
normalization error and returns a protocol fault. -/
theorem onInstallment_of_error {serde : SerdeJson} {payload detail : String}
    (rejected : refined serde payload = .error detail) (st : StreamState) (seq : ℕ)
    (status : InstallmentStatus) :
    ∃ n,
      onInstallment serde st seq .data payload status =
        ⟨{ st with normErrors := n },
          [.normalizationError st.streamId st.attempt seq detail],
          .error (.protocol detail)⟩ := by
  unfold onInstallment
  unfold refined at rejected
  cases hnorm : normalize serde payload with
  | error detail' =>
      obtain rfl : detail' = detail := by simpa [hnorm] using rejected
      exact ⟨st.normErrors + 1, by simp⟩
  | ok norm =>
      cases hmulti : norm.multipleChoices with
      | none => simp [hnorm, hmulti] at rejected
      | some n =>
          refine ⟨st.normErrors, ?_⟩
          simp only [hnorm, hmulti, Except.error.injEq] at rejected
          simp [hmulti, ← rejected]

/-- **An accepted payload** is fed to the machine event by event, and every event
is reported under the installment it came from. -/
theorem onInstallment_of_ok {serde : SerdeJson} {payload : String}
    {norm : Normalized} (ok : refined serde payload = .ok norm)
    (st : StreamState) (seq : ℕ) (status : InstallmentStatus) :
    onInstallment serde st seq .data payload status =
      ⟨{ st with
          machine := st.machine.feedAll norm.events
          installments := st.installments + 1
          events := st.events + norm.events.length
          contentBytes := st.contentBytes + textBytes norm.events
          sawAnyContent := st.sawAnyContent || carriesText norm.events },
        norm.unhandledChannels.map (fun ch =>
            .wire st.streamId st.attempt (.unhandledChannel ch)) ++
          norm.events.map (fun ev =>
            .normalizedEvent st.streamId st.attempt seq ev),
        .ok (if .done ∈ norm.events then .stopComplete else .proceed)⟩ := by
  unfold refined at ok
  unfold onInstallment
  cases hnorm : normalize serde payload with
  | error detail => simp [hnorm] at ok
  | ok norm' =>
      cases hmulti : norm'.multipleChoices with
      | some n => simp [hnorm, hmulti] at ok
      | none =>
          obtain rfl : norm' = norm := by simpa [hnorm, hmulti] using ok
          simp [hmulti, foldl_absorb]

theorem accepted_eq_none_iff {serde : SerdeJson} {payload : String} :
    accepted serde payload = none ↔ ∃ detail, refined serde payload = .error detail := by
  unfold accepted
  cases refined serde payload <;> simp [Except.toOption]

theorem accepted_eq_some_iff {serde : SerdeJson} {payload : String}
    {norm : Normalized} :
    accepted serde payload = some norm ↔ refined serde payload = .ok norm := by
  unfold accepted
  cases refined serde payload <;> simp [Except.toOption]

/-- The machine is fed what accepted payloads carry, and nothing else. -/
theorem onInstallment_data_machine (serde : SerdeJson) (st : StreamState) (seq : ℕ)
    (payload : String) (status : InstallmentStatus) :
    (onInstallment serde st seq .data payload status).state.machine =
      match accepted serde payload with
      | some norm => st.machine.feedAll norm.events
      | none => st.machine := by
  cases hacc : accepted serde payload with
  | none =>
      obtain ⟨detail, hdetail⟩ := accepted_eq_none_iff.mp hacc
      obtain ⟨n, heq⟩ := onInstallment_of_error hdetail st seq status
      rw [heq]
  | some norm =>
      rw [onInstallment_of_ok (accepted_eq_some_iff.mp hacc) st seq status]

end RarChat
