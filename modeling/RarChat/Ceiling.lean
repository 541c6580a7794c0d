import Mathlib.Algebra.Group.Action.Defs
import Mathlib.Algebra.Order.BigOperators.Group.List
import Mathlib.Algebra.Order.Group.Nat
import RarChat.Clocks
import RarChat.MainLoop

/-!
# How long a line can take

The README calls the overall deadline an absolute turn ceiling.  It is the limit of one
body: the headers come in front of it under the first-byte backstop, the text of a
refusal has the stall timeout, and a line is worth `allowance + 1` attempts on each of
the endpoints.  Together these do make a ceiling for a line (`MainEnv.lineCeiling`), and
so for a session (`session_within`).

The timers of the `select!` fire late, and its arms are polled in no fixed order, so
that a wakeup can win against a timer that is due.  `Wire.lateness` is what this comes
to on a wire, by the times alone: how much later than the first timer that was due each
wait was over.  No attempt passes its ceiling by more than that.

The clock of the model goes on in the awaits of an attempt; the time at the prompt is not
in it.
-/

namespace RarChat

open EarlyExit

variable (cfg : OpenAiConfig) (serde : SerdeJson)

/-! ## Lateness -/

/-- The instant at which the pass behind these wakeups is over, unless a timer is late:
the first of the two it arms, or its own when that has gone by. -/
def dueBehind (origin : ℕ) (wakeups : List Wakeup) : ℕ :=
  max (clockBehind origin wakeups)
    (min (origin + cfg.overallDeadline)
      (lastReadBehind origin wakeups + windowBehind cfg origin wakeups))

/-- The instant of the wait that leaves the loop, behind these wakeups. -/
def WaitEnd.instant (origin : ℕ) (wakeups : List Wakeup) : WaitEnd → ℕ
  | .cancelled after => clockBehind origin wakeups + after
  | .overallDeadline late =>
      max (clockBehind origin wakeups) (origin + cfg.overallDeadline) + late
  | .stall late =>
      max (clockBehind origin wakeups)
        (lastReadBehind origin wakeups + windowBehind cfg origin wakeups) + late
  | .closed after => clockBehind origin wakeups + after
  | .transportError after _ => clockBehind origin wakeups + after

/-- What a wakeup is late by, behind the wakeups `earlier`. -/
def Wakeup.lateness (origin : ℕ) (earlier : List Wakeup) (w : Wakeup) : ℕ :=
  clockBehind origin (earlier ++ [w]) - dueBehind cfg origin earlier

/-- What the wakeups and the last wait of a body are late by. -/
def BodyTrace.lateness (origin : ℕ) (body : BodyTrace) : ℕ :=
  costBehind (Wakeup.lateness cfg origin) [] body.wakeups +
    (body.last.instant cfg origin body.wakeups - dueBehind cfg origin body.wakeups)

/-- What a text is late by that is read under the stall timeout. -/
def TextRead.lateness : TextRead → ℕ
  | .text after _ => after - cfg.stallTimeout
  | .failed after => after - cfg.stallTimeout
  | .elapsed late => late

/-- **What an attempt on this wire is late by**: its headers, and what is read behind
them. -/
def Wire.lateness : Wire → ℕ
  | .cancelled after => after - cfg.firstByteBackstop
  | .elapsed late => late
  | .connectError after _ => after - cfg.firstByteBackstop
  | .response after resp =>
      after - cfg.firstByteBackstop +
        if isSuccess resp.status ∧
            contains (resp.contentType.getD "") "text/event-stream" then
          resp.stream.lateness cfg after
        else resp.text.lateness cfg

/-! ## An attempt -/

/-- The most an attempt takes: the headers, and then a stream or a text. -/
def OpenAiConfig.attemptCeiling : ℕ :=
  cfg.firstByteBackstop + max cfg.overallDeadline cfg.stallTimeout

/-- As long as the limit has not gone by, no pass is due behind it. -/
theorem dueBehind_le {origin limit : ℕ} {wakeups : List Wakeup}
    (deadline : origin + cfg.overallDeadline ≤ limit)
    (clock : clockBehind origin wakeups ≤ limit) :
    dueBehind cfg origin wakeups ≤ limit :=
  Nat.max_le.mpr ⟨clock, (Nat.min_le_left _ _).trans deadline⟩

/-- **Each pass goes past the deadline by its own lateness at most**, and so does the
run. -/
theorem run_wakeupStep_within {origin : ℕ} {s : ReadLoop} (h : s.Timed origin [])
    (wakeups : List Wakeup) :
    (run (wakeupStep cfg serde) s wakeups).state.now ≤
      origin + cfg.overallDeadline +
        costBehind (Wakeup.lateness cfg origin) [] wakeups := by
  have hrun := run_measure_le (wakeupStep cfg serde) (fun earlier s => s.Timed origin earlier)
    (fun s => max s.now (origin + cfg.overallDeadline)) (Wakeup.lateness cfg origin)
    (fun earlier s w hs => ?_) h wakeups
  · have hnow : s.now = origin := h.now
    rw [hnow, Nat.max_eq_right (Nat.le_add_right _ _)] at hrun
    exact (Nat.le_max_left _ _).trans hrun
  · have hstep := wakeupStep_timed cfg serde hs w
    have hdue : dueBehind cfg origin earlier ≤ max s.now (origin + cfg.overallDeadline) :=
      dueBehind_le cfg (Nat.le_max_right _ _) (hs.now ▸ Nat.le_max_left _ _)
    refine ⟨hstep, ?_⟩
    rw [hstep.now]
    unfold Wakeup.lateness
    omega

/-- The tail takes no time. -/
theorem peerClosed_now (s : ReadLoop) : (peerClosed serde s).state.now = s.now := by
  refine run_state_of_invariant (tailStep serde) (I := fun t => t.now = s.now)
    (fun t ev h => ?_) rfl s.parser.finishWithResidue.1
  unfold tailStep
  cases ev.payload <;> exact h

theorem lastWait_now {origin : ℕ} {wakeups : List Wakeup} {s : ReadLoop}
    (h : s.Timed origin wakeups) (last : WaitEnd) :
    (lastWait cfg serde s last).state.now = last.instant cfg origin wakeups := by
  have harmed := h.armed cfg
  cases last with
  | cancelled after => exact congrArg (· + after) h.now
  | overallDeadline late => exact congrArg (· + late) harmed.overall
  | stall late =>
      have hnow : (lastWait cfg serde s (.stall late)).state.now =
          max s.now (s.stallDeadline cfg) + late := rfl
      rw [hnow, harmed.stall, h.now]
      rfl
  | closed after => exact (peerClosed_now serde _).trans (congrArg (· + after) h.now)
  | transportError after detail => exact congrArg (· + after) h.now

/-- **A body takes no longer than the overall deadline**, but for what its waits are
late by. -/
theorem readLoop_within (st : StreamState) (origin selectPolls : ℕ) (body : BodyTrace) :
    (readLoop cfg serde (ReadLoop.start st origin selectPolls) body).state.now ≤
      origin + cfg.overallDeadline + body.lateness cfg origin := by
  have hstart := timed_start st origin selectPolls
  have hrun := run_wakeupStep_within cfg serde hstart body.wakeups
  unfold BodyTrace.lateness
  rw [← Nat.add_assoc]
  cases hstop : (run (wakeupStep cfg serde) (ReadLoop.start st origin selectPolls)
      body.wakeups).stop with
  | some e =>
      rw [readLoop_of_stop cfg serde hstop]
      exact Nat.le_add_right_of_le hrun
  | none =>
      have htimed := run_wakeupStep_timed cfg serde hstart hstop
      rw [List.nil_append] at htimed
      have hdue := dueBehind_le cfg (Nat.le_add_right _ _) (htimed.now ▸ hrun)
      have hlast := lastWait_now cfg serde htimed body.last
      rw [readLoop_of_running cfg serde hstop]
      refine hlast.trans_le ?_
      omega

theorem TextRead.result_within (instant : ℕ) (text : TextRead) :
    (text.result cfg instant).1 ≤ instant + cfg.stallTimeout + text.lateness cfg := by
  cases text with
  | text after body => simp only [TextRead.result, TextRead.lateness]; omega
  | failed after => simp only [TextRead.result, TextRead.lateness]; omega
  | elapsed late => exact Nat.le_refl _

/-- **An attempt takes no longer than its ceiling**, but for what it is late by. -/
theorem attemptDuration_within (wire : Wire) :
    attemptDuration cfg serde wire ≤ cfg.attemptCeiling + wire.lateness cfg := by
  unfold attemptDuration OpenAiConfig.attemptCeiling
  cases wire with
  | cancelled after =>
      simp only [runAttempt, endUnframed, Wire.lateness]
      omega
  | elapsed late =>
      simp only [runAttempt, endUnframed, Wire.lateness]
      omega
  | connectError after detail =>
      simp only [runAttempt, endUnframed, Wire.lateness]
      omega
  | response after resp =>
      have htext := resp.text.result_within cfg (0 + after)
      have hstream := readLoop_within cfg serde (StreamState.new 0) (0 + after) 0 resp.stream
      simp only [Nat.zero_add] at htext hstream
      simp only [runAttempt, Wire.lateness, Nat.zero_add]
      cases hstatus : isSuccess resp.status with
      | false =>
          simp only [if_true, endUnframed, Bool.false_eq_true, false_and, if_false]
          omega
      | true =>
          cases hctype : contains (resp.contentType.getD "") "text/event-stream" with
          | false =>
              simp only [Bool.true_eq_false, if_false, if_true, endUnframed,
                Bool.false_eq_true, and_false]
              omega
          | true =>
              simp only [Bool.true_eq_false, if_false, and_self, if_true]
              omega

/-- A peer that sends a comment whenever the stall timer is due. -/
def keepAliveWire (comments : ℕ) : Wire :=
  .response (120 * nanosPerSec) ⟨200, some "text/event-stream", .failed 0,
    ⟨List.replicate comments (.read (30 * nanosPerSec) 0 (asBytes ":\n\n")),
      .overallDeadline 0⟩⟩

/-- It holds an attempt for all of its ceiling, with nothing late. -/
example :
    (keepAliveWire 19).lateness exampleConfig = 0 ∧
      attemptDuration exampleConfig (.ofTable []) (keepAliveWire 19) =
        exampleConfig.attemptCeiling := by
  decide +kernel

/-! ## A turn -/

/-- **How long a turn can take** on these wires: a ceiling for each attempt that its
allowance lasts for, and what those attempts are late by. -/
def turnLimit (allowance : ℕ) (wires : List Wire) : ℕ :=
  (allowance + 1) * cfg.attemptCeiling +
    ((wires.take (allowance + 1)).map (Wire.lateness cfg)).sum

/-- With a draw left, an attempt leaves the limit of one draw fewer. -/
theorem turnLimit_cons (allowance : ℕ) (wire : Wire) (wires : List Wire) :
    turnLimit cfg (allowance + 1) (wire :: wires) =
      cfg.attemptCeiling + wire.lateness cfg + turnLimit cfg allowance wires := by
  simp only [turnLimit, List.take_succ_cons, List.map_cons, List.sum_cons]
  rw [Nat.succ_mul]
  omega

theorem le_turnLimit (allowance : ℕ) (wire : Wire) (wires : List Wire) :
    cfg.attemptCeiling + wire.lateness cfg ≤ turnLimit cfg allowance (wire :: wires) := by
  have hone : cfg.attemptCeiling ≤ (allowance + 1) * cfg.attemptCeiling :=
    Nat.le_mul_of_pos_left _ (Nat.succ_pos _)
  simp only [turnLimit, List.take_succ_cons, List.map_cons, List.sum_cons]
  omega

/-- **No turn takes longer than its limit.** -/
theorem turnLoop_within (h : EventHandler) (messages : List Message) (t : TurnState)
    (dials : List Dial) :
    (turnLoop cfg serde h messages t dials).state.now ≤
      t.now + turnLimit cfg t.remainingAllowance.toNat (dials.map Dial.wire) := by
  induction t, dials using turn_induction cfg serde messages with
  | nil t => exact Nat.le_add_right _ _
  | denied t d rest denied =>
      rw [turnLoop_of_denied denied]
      exact Nat.le_add_right _ _
  | settled t d rest hd last =>
      rw [turnLoop_of_settled hd last, TurnState.tried_now, List.map_cons]
      exact Nat.add_le_add_left ((attemptDuration_within cfg serde d.wire).trans
        (le_turnLimit cfg _ _ _)) _
  | retried t d rest hd faulting left ih =>
      have hpos : 0 < t.remainingAllowance.toNat := UInt32.lt_iff_toNat_lt.mp left
      obtain ⟨allowance, hallowance⟩ := Nat.exists_eq_succ_of_ne_zero hpos.ne'
      have hattempt := attemptDuration_within cfg serde d.wire
      rw [TurnState.drawn_now, TurnState.drawn_remainingAllowance, TurnState.tried_now,
        TurnState.tried_remainingAllowance, toNat_sub_one left, hallowance,
        Nat.succ_sub_one] at ih
      rw [turnLoop_of_retry hd faulting left, Outcome.after_state, hallowance,
        List.map_cons, turnLimit_cons]
      omega

/-! ## A line and a session -/

variable (env : MainEnv)

/-- **How long a line can take**: a turn on the primary endpoint, and then one on the
failover endpoint.  What is no user message takes no time. -/
def UserInput.limit (input : UserInput) : ℕ :=
  if trim input.line ∈ ["", "/quit", "/exit", "/reset"] then 0
  else
    turnLimit env.primary env.retryAllowance.toNat input.primary +
      env.failover.elim 0 fun fd => turnLimit fd env.retryAllowance.toNat input.failover

theorem soloDials_wire (stream : StreamId) (available : UInt32) (wires : List Wire) :
    (soloDials stream available wires).map Dial.wire = wires := by
  induction wires generalizing available with
  | nil => rfl
  | cons wire rest ih => simp only [soloDials, List.map_cons, ih]

theorem issue_within (s : MainState) (wires : List Wire) :
    (issue serde env cfg s wires).state.now ≤
      s.now + turnLimit cfg env.retryAllowance.toNat wires := by
  have hturn := turnLoop_within cfg serde env.handler s.history
    (env.handler.enter (s.streamId + 1) s.now)
    (soloDials (s.streamId + 1) env.sendBuckets wires)
  rwa [soloDials_wire] at hturn

theorem conclude_now (s : MainState) (verdict : TurnVerdict) :
    (conclude s verdict).state.now = s.now := by
  cases verdict <;> rfl

theorem reissue_within (s : MainState) (attemptsHere : UInt32) (wires : List Wire) :
    (reissue serde env s attemptsHere wires).state.now ≤
      s.now + env.failover.elim 0 fun fd => turnLimit fd env.retryAllowance.toNat wires := by
  unfold reissue
  cases env.failover with
  | none => exact (conclude_now s _).le
  | some fd =>
      have hissue := issue_within fd serde env s wires
      dsimp only
      rw [Outcome.after_state]
      cases (issue serde env fd s wires).verdict with
      | none => exact hissue
      | some verdict => exact (conclude_now _ verdict).trans_le hissue

theorem userTurn_within (s : MainState) (primary failover : List Wire) :
    (userTurn serde env s primary failover).state.now ≤
      s.now + (turnLimit env.primary env.retryAllowance.toNat primary +
        env.failover.elim 0 fun fd =>
          turnLimit fd env.retryAllowance.toNat failover) := by
  have hissue := issue_within env.primary serde env s primary
  have hprimary := Nat.le_add_right_of_le (k := env.failover.elim 0 fun fd =>
    turnLimit fd env.retryAllowance.toNat failover) hissue
  rw [← Nat.add_assoc]
  unfold userTurn
  dsimp only
  rw [Outcome.after_state]
  cases (issue serde env env.primary s primary).verdict with
  | none => exact hprimary
  | some verdict =>
      cases verdict with
      | committed outcome => exact hprimary
      | failed fault => exact hprimary
      | failover attemptsHere =>
          exact (reissue_within serde env _ attemptsHere failover).trans
            (Nat.add_le_add_right hissue _)

/-- **No line takes longer than its limit.** -/
theorem mainStep_within (s : MainState) (input : UserInput) :
    (mainStep serde env s input).state.now ≤ s.now + input.limit env := by
  unfold mainStep UserInput.limit
  dsimp only
  by_cases hempty : trim input.line = ""
  · rw [if_pos hempty]
    exact Nat.le_add_right _ _
  by_cases hquit : trim input.line = "/quit" ∨ trim input.line = "/exit"
  · rw [if_neg hempty, if_pos hquit]
    exact Nat.le_add_right _ _
  by_cases hreset : trim input.line = "/reset"
  · rw [if_neg hempty, if_neg hquit, if_pos hreset]
    exact Nat.le_add_right _ _
  · have hasks : trim input.line ∉ ["", "/quit", "/exit", "/reset"] := by
      rw [not_or] at hquit
      simp [hempty, hquit.1, hquit.2, hreset]
    rw [if_neg hempty, if_neg hquit, if_neg hreset, if_neg hasks]
    exact userTurn_within serde env _ input.primary input.failover

/-- Costs that do not depend on what went before add up. -/
theorem costBehind_eq_sum {ι : Type} (cost : ι → ℕ) (earlier is : List ι) :
    costBehind (fun _ => cost) earlier is = (is.map cost).sum := by
  induction is generalizing earlier with
  | nil => rfl
  | cons i rest ih => rw [costBehind, ih, List.map_cons, List.sum_cons]

theorem mainLoop_within (lines : List UserInput) :
    (mainLoop serde env lines).state.now ≤ (lines.map (UserInput.limit env)).sum := by
  have hrun : (mainLoop serde env lines).state.now ≤
      env.enter.now + costBehind (fun _ => UserInput.limit env) [] lines :=
    run_measure_le (mainStep serde env) (fun _ _ => True) MainState.now _
      (fun _ s input _ => ⟨trivial, mainStep_within serde env s input⟩) trivial lines
  have henter : env.enter.now = 0 := rfl
  rwa [costBehind_eq_sum, henter, Nat.zero_add] at hrun

/-! ## With nothing late -/

/-- The most a line takes when nothing is late: every attempt on the primary endpoint,
and then every one on the failover endpoint. -/
def MainEnv.lineCeiling : ℕ :=
  (env.retryAllowance.toNat + 1) *
    (env.primary.attemptCeiling + env.failover.elim 0 OpenAiConfig.attemptCeiling)

/-- No wait on the wires of this line is late. -/
structure UserInput.OnTime (input : UserInput) : Prop where
  primary : ∀ wire ∈ input.primary, wire.lateness env.primary = 0
  failover : ∀ fd, env.failover = some fd → ∀ wire ∈ input.failover, wire.lateness fd = 0

theorem turnLimit_of_onTime {wires : List Wire}
    (onTime : ∀ wire ∈ wires, wire.lateness cfg = 0) (allowance : ℕ) :
    turnLimit cfg allowance wires = (allowance + 1) * cfg.attemptCeiling := by
  have hnone : ∀ late ∈ (wires.take (allowance + 1)).map (Wire.lateness cfg), late = 0 := by
    intro late hlate
    obtain ⟨wire, hwire, rfl⟩ := List.mem_map.mp hlate
    exact onTime wire (List.mem_of_mem_take hwire)
  rw [turnLimit, List.sum_eq_zero hnone, Nat.add_zero]

theorem UserInput.OnTime.limit_le {input : UserInput} (h : input.OnTime env) :
    input.limit env ≤ env.lineCeiling := by
  unfold UserInput.limit
  split_ifs with hcommand
  · exact Nat.zero_le _
  · rw [MainEnv.lineCeiling, Nat.mul_add, turnLimit_of_onTime _ h.primary]
    refine Nat.add_le_add_left ?_ _
    cases hfailover : env.failover with
    | none => exact Nat.zero_le _
    | some fd => exact (turnLimit_of_onTime fd (h.failover fd hfailover) _).le

/-- **How long a session can take**, over all lines and wires: an attempt takes no longer
than its ceiling, and a turn no longer than its attempts, but for what they are late by; a
line takes no longer than its limit, so that a session takes no longer than all of them; and
when nothing is late, each takes no longer than the ceiling of a line. -/
theorem session_within (lines : List UserInput) :
    (∀ cfg wire, attemptDuration cfg serde wire ≤ cfg.attemptCeiling + wire.lateness cfg) ∧
      (∀ cfg h messages t dials, (turnLoop cfg serde h messages t dials).state.now ≤
        t.now + turnLimit cfg t.remainingAllowance.toNat (dials.map Dial.wire)) ∧
      (∀ s input, (mainStep serde env s input).state.now ≤ s.now + input.limit env) ∧
      (mainLoop serde env lines).state.now ≤ (lines.map (UserInput.limit env)).sum ∧
      ((∀ input ∈ lines, input.OnTime env) →
        (mainLoop serde env lines).state.now ≤ lines.length * env.lineCeiling) := by
  have hsession := mainLoop_within serde env lines
  refine ⟨fun cfg => attemptDuration_within cfg serde, fun cfg => turnLoop_within cfg serde,
    mainStep_within serde env, hsession, fun onTime => hsession.trans ?_⟩
  have hsum := List.sum_le_card_nsmul (lines.map (UserInput.limit env)) env.lineCeiling
    fun limit hlimit => by
      obtain ⟨input, hinput, rfl⟩ := List.mem_map.mp hlimit
      exact (onTime input hinput).limit_le
  rwa [List.length_map, smul_eq_mul] at hsum

/-- With one retry and no failover endpoint, two such peers hold a line for twenty-four
minutes, which is its ceiling. -/
theorem session_within_keepAlive :
    let env : MainEnv := ⟨exampleConfig, none, 1, 1⟩
    let hi : UserInput := ⟨"hi", List.replicate 2 (keepAliveWire 19), []⟩
    hi.OnTime env ∧
      (mainLoop (.ofTable []) env [hi]).state.now ≤ [hi].length * env.lineCeiling ∧
      (mainLoop (.ofTable []) env [hi]).state.now = 24 * 60 * nanosPerSec := by
  intro env hi
  have honTime : hi.OnTime env := ⟨by decide +kernel, fun fd hfd => by cases hfd⟩
  refine ⟨honTime, (session_within (.ofTable []) env [hi]).2.2.2.2 ?_, by decide +kernel⟩
  intro input hinput
  obtain rfl := List.mem_singleton.mp hinput
  exact honTime

end RarChat
