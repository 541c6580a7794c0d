import RarChat.AttemptEnding
import RarChat.AttemptRecords

/-!
# One turn on one endpoint

`execute_turn`: the loop that acquires a Send Bucket, makes an attempt, returns
the bucket, and either closes the turn or asks the wire-fault strategy.  `Dial` is
what one pass of that loop meets: the bucket counter, which other turns share,
where it is acquired and where it is returned, and the wire between them.

A turn leaves a trace.  Besides the records it emits, the trace has one event for
each call of `run_attempt`, with the state the call found, so that what a turn
emits, when it dials and what each attempt came to can be read off it.

The laws of one pass are one for each way through it: denied, settled, retried,
exhausted.
-/

namespace RarChat

open EarlyExit

/-! ## Inputs and state -/

/-- What one pass of the loop meets. -/
structure Dial where
  available : UInt32
  wire : Wire
  availableAtReturn : UInt32
deriving DecidableEq, Repr

/-- The locals of `execute_turn`, and the instant. -/
structure TurnState where
  st : StreamState
  remainingAllowance : UInt32
  selectPolls : ℕ
  now : ℕ
deriving DecidableEq, Repr

/-- A record of the turn, or a whole attempt with the state it was begun in. -/
inductive TurnEvent
  | emitted (record : EmissionRecord)
  | attempt (begun : TurnState) (wire : Wire) (run : AttemptRun)
deriving DecidableEq, Repr

/-- The records an event puts on the bus. -/
def TurnEvent.records : TurnEvent → List EmissionRecord
  | .emitted record => [record]
  | .attempt _ _ run => run.records

/-- The wire of a call of `run_attempt`. -/
def TurnEvent.dialed? : TurnEvent → Option Wire
  | .attempt _ wire _ => some wire
  | .emitted _ => none

/-- What a pass of the loop leaves. -/
abbrev TurnOutcome := Outcome TurnState TurnEvent TurnVerdict

/-! ## The loop -/

variable (cfg : OpenAiConfig) (serde : SerdeJson) (h : EventHandler)

/-- Ask the wire-fault strategy and follow its directive. -/
def followStrategy (stream : StreamId) (attempt : UInt32) (t : TurnState)
    (fault : DriverFault) : TurnOutcome :=
  let step := h.onWireFault stream attempt t.remainingAllowance
  ⟨{ t with remainingAllowance := step.remainingAllowance },
    step.records.map .emitted,
    match step.directive with
    | .retrySameEndpoint => none
    | .failover => some (.failover attempt)
    | .giveUp => some (.failed fault)⟩

/-- The `match` on how an attempt ended. -/
def settle (stream : StreamId) (attempt : UInt32) (t : TurnState) :
    AttemptEnd → TurnOutcome
  | .complete (.committed o) => ⟨t, [], some (.committed o)⟩
  | .complete (.fault f) => followStrategy h stream attempt t f
  -- a cancellation is the one ending on the wire that asks no strategy
  | .wire cause =>
      if cause = .cancelled then ⟨t, [], some (.failed (.protocol "cancelled"))⟩
      else followStrategy h stream attempt t (wireFault cause)

/-- The state an attempt of the turn is begun in. -/
def TurnState.begun (t : TurnState) : TurnState := { t with st := t.st.beginAttempt }

/-- Every attempt starts with a fresh machine. -/
theorem TurnState.begun_fresh (t : TurnState) :
    t.begun.st.machine = StreamMachine.new := rfl

/-- The state an attempt leaves. -/
def TurnState.attempted (t : TurnState) (run : AttemptRun) : TurnState :=
  { t with st := run.state, selectPolls := run.selectPolls, now := run.now }

/-- The attempt begun in `t`. -/
def attemptOf (messages : List Message) (t : TurnState) (wire : Wire) : AttemptRun :=
  runAttempt cfg serde messages t.st t.selectPolls t.now wire

/-- One pass of the loop. -/
def turnPass (messages : List Message) (t : TurnState) (d : Dial) : TurnOutcome :=
  let begun := t.begun
  let stream := begun.st.streamId
  let attempt := begun.st.attempt
  let acquired := acquireSendBucket stream attempt d.available
  if acquired.granted = false then
    ⟨begun, acquired.records.map .emitted,
      some (.failed (.protocol "no send bucket available (admission denied)"))⟩
  else
    let run := attemptOf cfg serde messages begun d.wire
    -- other turns may have moved the counter meanwhile
    let returned := returnSendBucket stream attempt d.availableAtReturn
    (settle h stream attempt (begun.attempted run) run.ended).after
      (acquired.records.map .emitted ++
        .attempt begun d.wire run :: returned.records.map .emitted)

/-- The trailer of a turn. -/
def TurnState.trailer (t : TurnState) (verdict : TurnVerdict) : EmissionRecord :=
  .turnTrailer t.st.streamId captureFormatVersion t.st.attempt verdict.record
    t.st.reads t.st.installments t.st.events t.st.normErrors t.selectPolls "full"

/-- What a call of `execute_turn` leaves; a turn whose dials run out has no verdict
yet. -/
structure TurnRun where
  state : TurnState
  trace : List TurnEvent
  verdict : Option TurnVerdict
deriving DecidableEq, Repr

/-- The state the loop is entered in. -/
def EventHandler.enter (streamId : StreamId) (now : ℕ) : TurnState where
  st := (h.beginStream streamId).1
  remainingAllowance := h.retryAllowancePerTurn
  selectPolls := 0
  now := now

def executeTurn (messages : List Message) (streamId : StreamId) (now : ℕ)
    (dials : List Dial) : TurnRun :=
  let looped := run (turnPass cfg serde h messages) (h.enter streamId now) dials
  let trailer :=
    looped.stop.toList.map fun verdict => .emitted (looped.state.trailer verdict)
  ⟨looped.state,
    (h.beginStream streamId).2.map .emitted ++ looped.out ++ trailer,
    looped.stop⟩

/-! ## The laws of one pass -/

/-- A bucket is there. -/
def Dial.Admitted (d : Dial) : Prop := 0 < d.available

instance : DecidablePred Dial.Admitted := fun d =>
  inferInstanceAs (Decidable (0 < d.available))

/-- The attempt of this dial ends in a fault. -/
def Dial.Faulting (d : Dial) : Prop := (attemptEnding cfg serde d.wire).Faulting

instance : DecidablePred (Dial.Faulting cfg serde) := fun d =>
  inferInstanceAs (Decidable (attemptEnding cfg serde d.wire).Faulting)

/-- `checked_sub(1)` refuses zero alone. -/
theorem checkedSub_one (v : UInt32) :
    checkedSub v 1 = if 0 < v then some (v - 1) else none := by
  have hle : 1 ≤ v ↔ 0 < v := by
    rw [UInt32.le_iff_toNat_le, UInt32.lt_iff_toNat_lt]
    exact Nat.succ_le_iff
  simp only [checkedSub, hle]

theorem toNat_sub_one {v : UInt32} (pos : 0 < v) : (v - 1).toNat = v.toNat - 1 :=
  UInt32.toNat_sub_of_le v 1
    (UInt32.le_iff_toNat_le.mpr (UInt32.lt_iff_toNat_lt.mp pos))

theorem acquireSendBucket_of_pos {v : UInt32} (some : 0 < v) (stream : StreamId)
    (attempt : UInt32) :
    acquireSendBucket stream attempt v =
      ⟨true, v - 1, [.ledger stream attempt (.sendBucketSpent (v - 1))]⟩ := by
  simp only [acquireSendBucket, checkedSub_one, if_pos some]

/-- A denied acquire changes nothing. -/
theorem acquireSendBucket_of_not_pos {v : UInt32} (empty : ¬0 < v) (stream : StreamId)
    (attempt : UInt32) :
    acquireSendBucket stream attempt v =
      ⟨false, v, [.ledger stream attempt .sendBucketDenied]⟩ := by
  simp only [acquireSendBucket, checkedSub_one, if_neg empty]

theorem pos_of_granted {stream : StreamId} {attempt v : UInt32}
    (granted : (acquireSendBucket stream attempt v).granted = true) : 0 < v := by
  by_contra empty
  rw [acquireSendBucket_of_not_pos empty] at granted
  cases granted

theorem not_pos_of_refused {stream : StreamId} {attempt v : UInt32}
    (refused : (acquireSendBucket stream attempt v).granted = false) : ¬0 < v := by
  intro some
  rw [acquireSendBucket_of_pos some] at refused
  cases refused

/-- **The verdict of a settled turn**: a commit is kept, a cancellation fails the
turn, and a fault fails it over when another endpoint is known. -/
def EventHandler.settled (attempts : UInt32) (ended : AttemptEnd) : TurnVerdict :=
  match ended with
  | .complete (.committed o) => .committed o
  | .complete (.fault f) =>
      if h.knowsFailoverExists then .failover attempts else .failed f
  | .wire cause =>
      if cause = .cancelled then .failed (.protocol "cancelled")
      else if h.knowsFailoverExists then .failover attempts
      else .failed (wireFault cause)

variable {cfg serde h}

/-- The state behind a draw on the allowance. -/
def TurnState.drawn (t : TurnState) : TurnState :=
  { t with remainingAllowance := t.remainingAllowance - 1 }

@[simp] theorem TurnState.drawn_st (t : TurnState) : t.drawn.st = t.st := rfl

@[simp] theorem TurnState.drawn_now (t : TurnState) : t.drawn.now = t.now := rfl

@[simp] theorem TurnState.drawn_remainingAllowance (t : TurnState) :
    t.drawn.remainingAllowance = t.remainingAllowance - 1 := rfl

theorem followStrategy_of_allowance {t : TurnState} (left : 0 < t.remainingAllowance)
    (stream : StreamId) (attempt : UInt32) (fault : DriverFault) :
    followStrategy h stream attempt t fault =
      ⟨t.drawn, [.emitted (.ledger stream attempt
        (.retryAllowanceSpent (t.remainingAllowance - 1)))], none⟩ := by
  simp [followStrategy, EventHandler.onWireFault, left, TurnState.drawn]

theorem followStrategy_of_exhausted {t : TurnState} (spent : ¬0 < t.remainingAllowance)
    (stream : StreamId) (attempt : UInt32) (fault : DriverFault) :
    followStrategy h stream attempt t fault =
      ⟨t, [], some (if h.knowsFailoverExists then .failover attempt
        else .failed fault)⟩ := by
  cases hknows : h.knowsFailoverExists <;>
    simp [followStrategy, EventHandler.onWireFault, spent, hknows]

/-- A faulting attempt with allowance left is followed by another pass. -/
theorem settle_of_retry {t : TurnState} {e : AttemptEnd} (faulting : e.Faulting)
    (left : 0 < t.remainingAllowance) (stream : StreamId) (attempt : UInt32) :
    settle h stream attempt t e =
      ⟨t.drawn, [.emitted (.ledger stream attempt
        (.retryAllowanceSpent (t.remainingAllowance - 1)))], none⟩ := by
  unfold settle
  -- the two endings that fault ask the strategy with faults of their own
  match e, faulting with
  | .complete (.fault f), _ => exact followStrategy_of_allowance left _ _ _
  | .wire cause, faulting =>
      have hcause : cause ≠ .cancelled := by
        rintro rfl
        exact absurd faulting (by decide)
      simp only [hcause, if_false, followStrategy_of_allowance left]

/-- Otherwise the attempt settles the turn. -/
theorem settle_of_settled {t : TurnState} {e : AttemptEnd}
    (last : e.Faulting → ¬0 < t.remainingAllowance) (stream : StreamId)
    (attempt : UInt32) :
    settle h stream attempt t e = ⟨t, [], some (h.settled attempt e)⟩ := by
  unfold settle EventHandler.settled
  match e, last with
  | .complete (.committed o), _ => rfl
  | .complete (.fault f), last => exact followStrategy_of_exhausted (last rfl) _ _ _
  | .wire cause, last =>
      by_cases hcause : cause = .cancelled
      · simp only [hcause, if_true]
      · have hfault : (AttemptEnd.wire cause).Faulting := by
          simp [AttemptEnd.Faulting, AttemptEnd.fault, hcause]
        simp only [hcause, if_false, followStrategy_of_exhausted (last hfault)]

variable (cfg serde)

/-- How the attempt ended is what its wire says. -/
theorem attemptOf_ended (messages : List Message) (t : TurnState) (wire : Wire) :
    (attemptOf cfg serde messages t.begun wire).ended = attemptEnding cfg serde wire :=
  (runAttempt_ending cfg serde messages t.begun_fresh _ _ wire).1

/-- The state behind an attempt on this wire. -/
def TurnState.tried (messages : List Message) (t : TurnState) (wire : Wire) :
    TurnState :=
  t.begun.attempted (attemptOf cfg serde messages t.begun wire)

@[simp] theorem TurnState.tried_remainingAllowance (messages : List Message)
    (t : TurnState) (wire : Wire) :
    (t.tried cfg serde messages wire).remainingAllowance = t.remainingAllowance := rfl

@[simp] theorem TurnState.tried_now (messages : List Message) (t : TurnState)
    (wire : Wire) :
    (t.tried cfg serde messages wire).now = t.now + attemptDuration cfg serde wire :=
  (runAttempt_ending cfg serde messages t.begun_fresh _ _ wire).2

@[simp] theorem TurnState.tried_streamId (messages : List Message) (t : TurnState)
    (wire : Wire) : (t.tried cfg serde messages wire).st.streamId = t.st.streamId :=
  (runAttempt_records cfg serde messages t.begun.st _ _ wire).1.1

@[simp] theorem TurnState.tried_attempt (messages : List Message) (t : TurnState)
    (wire : Wire) : (t.tried cfg serde messages wire).st.attempt = t.st.attempt + 1 :=
  (runAttempt_records cfg serde messages t.begun.st _ _ wire).1.2

/-- The events of an admitted dial, up to the `match` on its ending. -/
def dialEvents (messages : List Message) (t : TurnState) (d : Dial) : List TurnEvent :=
  [.emitted (.ledger t.st.streamId (t.st.attempt + 1)
      (.sendBucketSpent (d.available - 1))),
    .attempt t.begun d.wire (attemptOf cfg serde messages t.begun d.wire),
    .emitted (.ledger t.st.streamId (t.st.attempt + 1)
      (.sendBucketReturned (d.availableAtReturn + 1)))]

variable {cfg serde}

theorem attempt_mem_dialEvents {messages : List Message} {t : TurnState} {d : Dial}
    {begun : TurnState} {wire : Wire} {run : AttemptRun} :
    .attempt begun wire run ∈ dialEvents cfg serde messages t d ↔
      begun = t.begun ∧ wire = d.wire ∧
        run = attemptOf cfg serde messages t.begun d.wire := by
  simp [dialEvents]

/-- **Denied**: the turn fails without an attempt. -/
theorem turnPass_of_denied {d : Dial} (denied : ¬d.Admitted) (messages : List Message)
    (t : TurnState) :
    turnPass cfg serde h messages t d =
      ⟨t.begun, [.emitted (.ledger t.st.streamId (t.st.attempt + 1) .sendBucketDenied)],
        some (.failed (.protocol "no send bucket available (admission denied)"))⟩ := by
  simp only [turnPass, acquireSendBucket_of_not_pos denied, if_true]
  rfl

theorem turnPass_of_admitted {d : Dial} (admitted : d.Admitted) (messages : List Message)
    (t : TurnState) :
    turnPass cfg serde h messages t d =
      (settle h t.st.streamId (t.st.attempt + 1) (t.tried cfg serde messages d.wire)
        (attemptEnding cfg serde d.wire)).after (dialEvents cfg serde messages t d) := by
  simp only [turnPass, acquireSendBucket_of_pos admitted, Bool.true_eq_false, if_false,
    attemptOf_ended]
  rfl

/-- **Retried**: an attempt faults while allowance is left. -/
theorem turnPass_of_retry {d : Dial} {t : TurnState} (admitted : d.Admitted)
    (faulting : d.Faulting cfg serde) (left : 0 < t.remainingAllowance)
    (messages : List Message) :
    turnPass cfg serde h messages t d =
      ⟨(t.tried cfg serde messages d.wire).drawn,
        dialEvents cfg serde messages t d ++
          [.emitted (.ledger t.st.streamId (t.st.attempt + 1)
            (.retryAllowanceSpent (t.remainingAllowance - 1)))],
        none⟩ := by
  rw [turnPass_of_admitted admitted,
    settle_of_retry (t := t.tried cfg serde messages d.wire) faulting left]
  rfl

/-- **Settled**: the attempt does not fault, or no allowance is left. -/
theorem turnPass_of_settled {d : Dial} {t : TurnState} (admitted : d.Admitted)
    (last : d.Faulting cfg serde → ¬0 < t.remainingAllowance)
    (messages : List Message) :
    turnPass cfg serde h messages t d =
      ⟨t.tried cfg serde messages d.wire, dialEvents cfg serde messages t d,
        some (h.settled (t.st.attempt + 1) (attemptEnding cfg serde d.wire))⟩ := by
  rw [turnPass_of_admitted admitted,
    settle_of_settled (t := t.tried cfg serde messages d.wire) last]
  simp only [Outcome.after, List.append_nil]

/-! ## Runs of the loop -/

/-- **Induction over a turn**: the dials run out, or the next one is denied, or its
attempt settles the turn, or it is retried. -/
theorem turn_induction (cfg : OpenAiConfig) (serde : SerdeJson)
    {motive : TurnState → List Dial → Prop} (messages : List Message)
    (nil : ∀ t, motive t [])
    (denied : ∀ t d rest, ¬d.Admitted → motive t (d :: rest))
    (settled : ∀ t d rest, d.Admitted →
      (d.Faulting cfg serde → ¬0 < t.remainingAllowance) → motive t (d :: rest))
    (retried : ∀ t d rest, d.Admitted → d.Faulting cfg serde →
      0 < t.remainingAllowance →
      motive (t.tried cfg serde messages d.wire).drawn rest → motive t (d :: rest))
    (t : TurnState) (dials : List Dial) : motive t dials := by
  induction dials generalizing t with
  | nil => exact nil t
  | cons d rest ih =>
      by_cases hadmitted : d.Admitted
      · by_cases hretry : d.Faulting cfg serde ∧ 0 < t.remainingAllowance
        · exact retried t d rest hadmitted hretry.1 hretry.2 (ih _)
        · exact settled t d rest hadmitted fun hf hleft => hretry ⟨hf, hleft⟩
      · exact denied t d rest hadmitted

/-- The loop of a turn. -/
abbrev turnLoop (cfg : OpenAiConfig) (serde : SerdeJson) (h : EventHandler)
    (messages : List Message) : TurnState → List Dial → TurnOutcome :=
  run (turnPass cfg serde h messages)

theorem turnLoop_of_denied {d : Dial} (denied : ¬d.Admitted) (messages : List Message)
    (t : TurnState) (rest : List Dial) :
    turnLoop cfg serde h messages t (d :: rest) =
      ⟨t.begun, [.emitted (.ledger t.st.streamId (t.st.attempt + 1) .sendBucketDenied)],
        some (.failed (.protocol "no send bucket available (admission denied)"))⟩ := by
  have hpass : turnPass cfg serde h messages t d = _ := turnPass_of_denied denied messages t
  rw [turnLoop, run_cons_of_stop _ (by rw [hpass]), hpass]

theorem turnLoop_of_settled {d : Dial} {t : TurnState} (admitted : d.Admitted)
    (last : d.Faulting cfg serde → ¬0 < t.remainingAllowance)
    (messages : List Message) (rest : List Dial) :
    turnLoop cfg serde h messages t (d :: rest) =
      ⟨t.tried cfg serde messages d.wire, dialEvents cfg serde messages t d,
        some (h.settled (t.st.attempt + 1) (attemptEnding cfg serde d.wire))⟩ := by
  have hpass := turnPass_of_settled (h := h) admitted last messages
  rw [turnLoop, run_cons_of_stop _ (by rw [hpass]), hpass]

theorem turnLoop_of_retry {d : Dial} {t : TurnState} (admitted : d.Admitted)
    (faulting : d.Faulting cfg serde) (left : 0 < t.remainingAllowance)
    (messages : List Message) (rest : List Dial) :
    turnLoop cfg serde h messages t (d :: rest) =
      (turnLoop cfg serde h messages (t.tried cfg serde messages d.wire).drawn
        rest).after
        (dialEvents cfg serde messages t d ++
          [.emitted (.ledger t.st.streamId (t.st.attempt + 1)
            (.retryAllowanceSpent (t.remainingAllowance - 1)))]) := by
  have hpass := turnPass_of_retry (h := h) admitted faulting left messages
  rw [turnLoop, run_cons_of_running _ (by rw [hpass]), hpass]

/-- **The attempts of a turn** are calls of `run_attempt`, each in a state that
`begin_attempt` has just left. -/
theorem turnLoop_attempt {messages : List Message} {t : TurnState} {dials : List Dial}
    {begun : TurnState} {wire : Wire} {run : AttemptRun}
    (mem : .attempt begun wire run ∈ (turnLoop cfg serde h messages t dials).out) :
    ∃ before : TurnState, begun = before.begun ∧
      run = attemptOf cfg serde messages before.begun wire := by
  induction t, dials using turn_induction cfg serde messages with
  | nil t => exact absurd mem List.not_mem_nil
  | denied t d rest denied =>
      rw [turnLoop_of_denied denied] at mem
      cases List.mem_singleton.mp mem
  | settled t d rest hd last =>
      rw [turnLoop_of_settled hd last] at mem
      obtain ⟨rfl, rfl, rfl⟩ := attempt_mem_dialEvents.mp mem
      exact ⟨t, rfl, rfl⟩
  | retried t d rest hd faulting left ih =>
      rw [turnLoop_of_retry hd faulting left] at mem
      simp only [Outcome.after_out, List.mem_append, List.mem_singleton, reduceCtorEq,
        or_false] at mem
      rcases mem with mem | mem
      · obtain ⟨rfl, rfl, rfl⟩ := attempt_mem_dialEvents.mp mem
        exact ⟨t, rfl, rfl⟩
      · exact ih mem

/-- The first dial, once admitted, is attempted. -/
theorem attempt_mem_turnLoop {d : Dial} (admitted : d.Admitted) (messages : List Message)
    (t : TurnState) (rest : List Dial) :
    .attempt t.begun d.wire (attemptOf cfg serde messages t.begun d.wire) ∈
      (turnLoop cfg serde h messages t (d :: rest)).out := by
  have hmem : .attempt t.begun d.wire (attemptOf cfg serde messages t.begun d.wire) ∈
      dialEvents cfg serde messages t d := attempt_mem_dialEvents.mpr ⟨rfl, rfl, rfl⟩
  by_cases hretry : d.Faulting cfg serde ∧ 0 < t.remainingAllowance
  · rw [turnLoop_of_retry admitted hretry.1 hretry.2]
    exact List.mem_append_left _ (List.mem_append_left _ hmem)
  · rw [turnLoop_of_settled admitted fun hf hleft => hretry ⟨hf, hleft⟩]
    exact hmem

/-- The attempts of a turn are those of its loop. -/
theorem attempt_mem_executeTurn {messages : List Message} {streamId : StreamId}
    {now : ℕ} {dials : List Dial} {begun : TurnState} {wire : Wire} {run : AttemptRun} :
    .attempt begun wire run ∈
        (executeTurn cfg serde h messages streamId now dials).trace ↔
      .attempt begun wire run ∈
        (turnLoop cfg serde h messages (h.enter streamId now) dials).out := by
  simp [executeTurn, EventHandler.beginStream]

end RarChat
