import RarChat.RetryLoop

/-!
# The terminal loop

`main`: it reads lines, issues each user message as a turn on the primary endpoint,
re-issues it on the failover endpoint when the verdict says so, and commits or pops
the history.  Both endpoints share one Event Handler, which knows that a failover
exists whichever of them is asking.

The last `match` of the loop takes a failover verdict to be impossible.  It is, on
every line but those on which both endpoints exhaust the allowance
(`mainLoop_unreachable_iff`): the second turn then directs a failover as well
(`both_refused_unreachable`).

Wires that run out leave a turn without a verdict, and `main` awaiting it.
-/

namespace RarChat

open EarlyExit

/-! ## Inputs and state -/

/-- What `main` has read from its environment. -/
structure MainEnv where
  primary : OpenAiConfig
  failover : Option OpenAiConfig
  retryAllowance : UInt32
  sendBuckets : UInt32
deriving DecidableEq, Repr

/-- A line of input, and what the endpoints do if a message is issued to them. -/
structure UserInput where
  line : String
  primary : List Wire
  failover : List Wire
deriving DecidableEq, Repr

structure MainState where
  history : List Message
  streamId : StreamId
  now : ℕ
deriving DecidableEq, Repr

/-- A turn on an endpoint, or a line on `stderr`. -/
inductive MainEvent
  | turn (cfg : OpenAiConfig) (run : TurnRun)
  | stderr (text : String)
deriving DecidableEq, Repr

/-- How the loop is left: by a command, in the `unreachable!` arm, or not yet,
because a turn is still awaited. -/
inductive MainStop
  | quit
  | unreachable
  | awaiting
deriving DecidableEq, Repr

abbrev MainOutcome := Outcome MainState MainEvent MainStop

/-! ## The loop -/

/-- The one handler of both drivers. -/
def MainEnv.handler (env : MainEnv) : EventHandler where
  retryAllowancePerTurn := env.retryAllowance
  knowsFailoverExists := env.failover.isSome

/-- The dials of a turn that no other turn runs beside: the counter is where the
acquires and returns of the turn itself leave it. -/
def soloDials (stream : StreamId) : UInt32 → List Wire → List Dial
  | _, [] => []
  | available, wire :: rest =>
      let acquired := (acquireSendBucket stream 0 available).available
      let returned := (returnSendBucket stream 0 acquired).available
      ⟨available, wire, acquired⟩ :: soloDials stream returned rest

variable (serde : SerdeJson) (env : MainEnv)

/-- Issue the history on an endpoint, as the next stream. -/
def issue (cfg : OpenAiConfig) (s : MainState) (wires : List Wire) : TurnRun :=
  executeTurn cfg serde env.handler s.history (s.streamId + 1) s.now
    (soloDials (s.streamId + 1) env.sendBuckets wires)

/-- The state behind a turn. -/
def MainState.issued (s : MainState) (turn : TurnRun) : MainState :=
  { s with streamId := s.streamId + 1, now := turn.state.now }

/-- The last `match` on the verdict. -/
def conclude (s : MainState) : TurnVerdict → MainOutcome
  | .committed outcome =>
      ⟨{ s with history := s.history ++ [⟨"assistant", outcome.content⟩] }, [], none⟩
  | .failed fault =>
      ⟨{ s with history := s.history.dropLast },
        [.stderr s!"\n[TURN FAILED] {fault.display} — turn not committed to history"],
        none⟩
  | .failover _ => ⟨s, [], some .unreachable⟩

/-- The turn is directed away from the primary endpoint. -/
def reissue (s : MainState) (attemptsHere : UInt32) (wires : List Wire) : MainOutcome :=
  match env.failover with
  -- the handler directs no failover that it does not know of
  | none =>
      conclude s (.failed
        (.protocol "failover directed but no alternative configured"))
  | some fd =>
      let notice :=
        s!"\n[FAILOVER] primary exhausted after {attemptsHere} attempt(s); re-issuing on {fd.baseUrl}"
      let turn := issue serde env fd s wires
      let behind : MainOutcome :=
        match turn.verdict with
        | none => ⟨s.issued turn, [], some .awaiting⟩
        | some verdict => conclude (s.issued turn) verdict
      behind.after [.stderr notice, .turn fd turn]

/-- A user message is issued on the primary endpoint. -/
def userTurn (s : MainState) (primary failover : List Wire) : MainOutcome :=
  let turn := issue serde env env.primary s primary
  let behind : MainOutcome :=
    match turn.verdict with
    | none => ⟨s.issued turn, [], some .awaiting⟩
    | some (.failover attemptsHere) =>
        reissue serde env (s.issued turn) attemptsHere failover
    | some verdict => conclude (s.issued turn) verdict
  behind.after [.turn env.primary turn]

/-- One pass of the loop, with the line that was read. -/
def mainStep (s : MainState) (input : UserInput) : MainOutcome :=
  let line := trim input.line
  if line = "" then ⟨s, [], none⟩
  else if line = "/quit" ∨ line = "/exit" then ⟨s, [], some .quit⟩
  -- a reset keeps the system prompt
  else if line = "/reset" then
    ⟨{ s with history := s.history.filter fun m => m.role = "system" },
      [.stderr "(history cleared)"], none⟩
  else
    userTurn serde env { s with history := s.history ++ [⟨"user", line⟩] }
      input.primary input.failover

/-- The state the loop is entered in. -/
def MainEnv.enter (env : MainEnv) : MainState where
  history := env.primary.systemPrompt.toList.map fun sys => ⟨"system", sys⟩
  streamId := 0
  now := 0

/-- The loop over the lines that can be read. -/
def mainLoop (lines : List UserInput) : MainOutcome :=
  run (mainStep serde env) env.enter lines

/-! ## Which turns fail over -/

variable {serde env}

/-- The allowance lasts for no further attempt: the first `allowance + 1` dials are
admitted and fault. -/
def Exhausts (cfg : OpenAiConfig) (serde : SerdeJson) (allowance : ℕ)
    (dials : List Dial) : Prop :=
  allowance < dials.length ∧
    ∀ d ∈ dials.take (allowance + 1), d.Admitted ∧ d.Faulting cfg serde

theorem settled_failover_iff (h : EventHandler) (attempts : UInt32) (e : AttemptEnd) :
    (∃ n, h.settled attempts e = .failover n) ↔
      e.Faulting ∧ h.knowsFailoverExists = true := by
  unfold EventHandler.settled AttemptEnd.Faulting AttemptEnd.fault
  match e with
  | .complete (.committed o) => simp
  | .complete (.fault f) => cases h.knowsFailoverExists <;> simp
  | .wire cause =>
      by_cases hcause : cause = .cancelled
      · simp [hcause]
      · cases h.knowsFailoverExists <;> simp [hcause]

/-- **A turn fails over** exactly when its handler knows an alternative and its
attempts exhaust the allowance. -/
theorem turnLoop_failover_iff {cfg : OpenAiConfig} {h : EventHandler}
    (messages : List Message) (t : TurnState) (dials : List Dial) :
    (∃ n, (turnLoop cfg serde h messages t dials).stop = some (.failover n)) ↔
      h.knowsFailoverExists = true ∧
        Exhausts cfg serde t.remainingAllowance.toNat dials := by
  induction t, dials using turn_induction cfg serde messages with
  | nil t => simp [Exhausts]
  | denied t d rest denied =>
      rw [turnLoop_of_denied denied]
      refine iff_of_false (by simp) fun h => denied ?_
      exact (h.2.2 d (by simp)).1
  | settled t d rest hd last =>
      -- the verdict is that of a last attempt, so it fails over if that one faults
      rw [turnLoop_of_settled hd last]
      simp only [Option.some.injEq]
      rw [settled_failover_iff, and_comm]
      refine and_congr_right fun _ => ?_
      constructor
      · intro hf
        have hspent : t.remainingAllowance.toNat = 0 := by
          have := last hf
          rw [UInt32.lt_iff_toNat_lt, UInt32.toNat_zero] at this
          omega
        rw [Exhausts, hspent]
        exact ⟨by simp, by simp [hd, Dial.Faulting, hf]⟩
      · exact fun h => (h.2 d (by simp)).2
  | retried t d rest hd faulting left ih =>
      -- one dial and one draw fewer on both sides
      have hpos : 0 < t.remainingAllowance.toNat := UInt32.lt_iff_toNat_lt.mp left
      rw [turnLoop_of_retry hd faulting left, Outcome.after_stop, ih,
        TurnState.drawn_remainingAllowance, TurnState.tried_remainingAllowance,
        toNat_sub_one left]
      refine and_congr_right fun _ => ?_
      unfold Exhausts
      rw [Nat.sub_add_cancel hpos, List.length_cons, List.take_succ_cons,
        List.forall_mem_cons]
      simp only [hd, faulting, and_self, true_and]
      exact and_congr_left fun _ => by omega

/-- A turn alone finds the counter as it was before each of its acquires. -/
theorem soloDials_of_pos {available : UInt32} (some : 0 < available) (stream : StreamId)
    (wires : List Wire) :
    soloDials stream available wires =
      wires.map fun wire => ⟨available, wire, available - 1⟩ := by
  induction wires with
  | nil => rfl
  | cons wire rest ih =>
      simp only [soloDials, acquireSendBucket_of_pos some, returnSendBucket,
        UInt32.sub_add_cancel, ih, List.map_cons]

/-- The attempts on the first `allowance + 1` wires fault. -/
def AllFault (cfg : OpenAiConfig) (serde : SerdeJson) (allowance : ℕ)
    (wires : List Wire) : Prop :=
  allowance < wires.length ∧
    ∀ wire ∈ wires.take (allowance + 1), (attemptEnding cfg serde wire).Faulting

theorem soloDials_exhausts_iff (cfg : OpenAiConfig) (allowance : ℕ) (stream : StreamId)
    (available : UInt32) (wires : List Wire) :
    Exhausts cfg serde allowance (soloDials stream available wires) ↔
      0 < available ∧ AllFault cfg serde allowance wires := by
  by_cases hpos : 0 < available
  · simp [soloDials_of_pos hpos, Exhausts, AllFault, Dial.Admitted, Dial.Faulting, hpos,
      ← List.map_take]
  · refine iff_of_false (fun h => hpos ?_) fun h => hpos h.1
    cases wires with
    | nil => exact absurd h.1 (Nat.not_lt_zero _)
    | cons wire rest =>
        exact (h.2 ⟨available, wire, _⟩ (List.mem_of_mem_head? rfl)).1

variable (serde env)

/-- **An endpoint directs a failover** when it is told of one, has a bucket, and
faults as often as the allowance lets it. -/
theorem issue_failover_iff (cfg : OpenAiConfig) (s : MainState) (wires : List Wire) :
    (∃ n, (issue serde env cfg s wires).verdict = some (.failover n)) ↔
      env.failover.isSome = true ∧ 0 < env.sendBuckets ∧
        AllFault cfg serde env.retryAllowance.toNat wires := by
  rw [← soloDials_exhausts_iff]
  exact turnLoop_failover_iff s.history _ _

/-! ## The `unreachable!` arm -/

variable {serde env}

/-- The line is a user message. -/
def UserInput.Asks (input : UserInput) : Prop :=
  trim input.line ∉ ["", "/quit", "/exit", "/reset"]

/-- **Both endpoints exhaust the allowance** on this line. -/
def BothExhausted (serde : SerdeJson) (env : MainEnv) (input : UserInput) : Prop :=
  input.Asks ∧ 0 < env.sendBuckets ∧
    AllFault env.primary serde env.retryAllowance.toNat input.primary ∧
    ∃ fd, env.failover = some fd ∧
      AllFault fd serde env.retryAllowance.toNat input.failover

theorem conclude_unreachable_iff (s : MainState) (verdict : TurnVerdict) :
    (conclude s verdict).stop = some .unreachable ↔ ∃ n, verdict = .failover n := by
  cases verdict <;> simp [conclude]

theorem reissue_unreachable_iff (s : MainState) (attemptsHere : UInt32)
    (wires : List Wire) :
    (reissue serde env s attemptsHere wires).stop = some .unreachable ↔
      ∃ fd, env.failover = some fd ∧ 0 < env.sendBuckets ∧
        AllFault fd serde env.retryAllowance.toNat wires := by
  unfold reissue
  cases hfailover : env.failover with
  | none => simp [conclude]
  | some fd =>
      have hissue := issue_failover_iff serde env fd s wires
      simp only [hfailover, Option.isSome_some, true_and] at hissue
      simp only [Outcome.after_stop, Option.some.injEq, exists_eq_left']
      rw [← hissue]
      cases hverdict : (issue serde env fd s wires).verdict with
      | none => simp
      | some verdict => simpa using conclude_unreachable_iff _ verdict

theorem userTurn_unreachable_iff (s : MainState) (primary failover : List Wire) :
    (userTurn serde env s primary failover).stop = some .unreachable ↔
      0 < env.sendBuckets ∧ AllFault env.primary serde env.retryAllowance.toNat primary ∧
        ∃ fd, env.failover = some fd ∧
          AllFault fd serde env.retryAllowance.toNat failover := by
  have hissue := issue_failover_iff serde env env.primary s primary
  unfold userTurn
  dsimp only
  cases hverdict : (issue serde env env.primary s primary).verdict with
  | none =>
      rw [hverdict] at hissue
      refine iff_of_false (by simp) ?_
      rintro ⟨hpos, hprimary, fd, hfd, -⟩
      -- exhausted, the primary directs a failover; but its verdict is still awaited
      have hdirected := hissue.mpr ⟨by rw [hfd]; rfl, hpos, hprimary⟩
      simp at hdirected
  | some verdict =>
      rw [hverdict] at hissue
      by_cases hfailover : ∃ n, verdict = .failover n
      · obtain ⟨n, rfl⟩ := hfailover
        obtain ⟨-, hpos, hprimary⟩ := hissue.mp ⟨n, rfl⟩
        simp only [Outcome.after_stop, reissue_unreachable_iff, hpos, hprimary, true_and]
      · have hdirected : ¬∃ n, some verdict = some (.failover n) := by
          simpa using hfailover
        refine iff_of_false ?_ ?_
        · cases verdict with
          | committed o => simp [conclude]
          | failed f => simp [conclude]
          | failover n => exact absurd ⟨n, rfl⟩ hfailover
        · rintro ⟨hpos, hprimary, fd, hfd, -⟩
          exact hdirected (hissue.mpr ⟨by rw [hfd]; rfl, hpos, hprimary⟩)

theorem mainStep_unreachable_iff (s : MainState) (input : UserInput) :
    (mainStep serde env s input).stop = some .unreachable ↔
      BothExhausted serde env input := by
  unfold mainStep BothExhausted UserInput.Asks
  dsimp only
  split_ifs with hempty hquit hreset
  · simp [hempty]
  · refine iff_of_false (by simp) fun h => h.1 ?_
    rcases hquit with hquit | hquit <;> simp [hquit]
  · simp [hreset]
  · have hasks : trim input.line ∉ ["", "/quit", "/exit", "/reset"] := by
      rw [not_or] at hquit
      simp [hempty, hquit.1, hquit.2, hreset]
    rw [userTurn_unreachable_iff]
    simp only [hasks, not_false_eq_true, true_and]

variable (serde env)

/-- **The `unreachable!` arm is never reached** exactly when `main` comes to no line on
which both endpoints exhaust the allowance. -/
theorem mainLoop_unreachable_iff (lines : List UserInput) :
    (mainLoop serde env lines).stop ≠ some .unreachable ↔
      Along (mainStep serde env) (fun _ input => ¬BothExhausted serde env input)
        env.enter lines := by
  have hstop : (mainLoop serde env lines).stop ≠ some .unreachable ↔
      ∀ e, (mainLoop serde env lines).stop = some e → e ≠ .unreachable := by
    constructor
    · intro h e he heq
      exact h (by rw [he, heq])
    · intro h heq
      exact h _ heq rfl
  rw [hstop, mainLoop, run_stop_iff_along]
  refine along_congr_of_invariant (mainStep serde env) (I := fun _ => True)
    (fun _ _ _ => trivial) (fun s input _ => ?_) trivial lines
  rw [← mainStep_unreachable_iff s]
  constructor
  · intro h heq
    exact h _ heq rfl
  · intro h e he heq
    exact h (by rw [he, heq])

/-- **Two endpoints that refuse the connection** panic `main`, with the defaults of
one retry and one bucket. -/
theorem both_refused_unreachable :
    (mainLoop (.ofTable []) ⟨exampleConfig, some exampleConfig, 1, 1⟩
      [⟨"hi",
        [.connectError 0 "connection refused", .connectError 0 "connection refused"],
        [.connectError 0 "connection refused",
          .connectError 0 "connection refused"]⟩]).stop = some .unreachable := by
  decide +kernel

end RarChat
