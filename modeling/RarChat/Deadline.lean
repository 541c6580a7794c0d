import RarChat.Dialing

/-!
# The overall deadline and the turn

The README calls the overall deadline an absolute turn ceiling.  Its clock starts
inside an attempt, when the body begins to be framed, and its ending goes through
the wire-fault strategy like any other.  So a turn keeps within the ceiling only as
far as its retried attempts happen to be short
(`executeTurn_withinDeadline_iff`); a turn whose first attempt ends at the deadline
is retried behind it (`retried_behind_deadline`).
-/

namespace RarChat

open EarlyExit

variable (cfg : OpenAiConfig) (serde : SerdeJson) (h : EventHandler)

/-! ## An attempt that ends at the deadline takes that long -/

/-- The clock of the loop was started at `origin` and has not gone back. -/
def ReadLoop.StartedAt (origin : ℕ) (s : ReadLoop) : Prop :=
  s.turnStart = origin ∧ origin ≤ s.now

theorem ReadLoop.StartedAt.framed {origin : ℕ} {s s' : ReadLoop}
    (h : s.StartedAt origin) (framed : s.Framed s') : s'.StartedAt origin := by
  obtain ⟨_, _, _, _, _, rfl⟩ := framed
  exact h

/-- A wakeup keeps the clock going, and does not end the attempt at the deadline. -/
theorem wakeupStep_startedAt {origin : ℕ} (s : ReadLoop) (w : Wakeup)
    (h : s.StartedAt origin) : (wakeupStep cfg serde s w).state.StartedAt origin := by
  have hlater : ∀ after, origin ≤ s.now + after := fun after =>
    Nat.le_add_right_of_le h.2
  cases w with
  | tick after activeStreams =>
      unfold wakeupStep tickStep
      cases s.firstByteAt with
      | none => exact ⟨h.1, hlater after⟩
      | some fb =>
          dsimp only
          split_ifs <;> exact ⟨h.1, hlater after⟩
  | read after wallUnixMs item =>
      have hpushed : (s.afterPush (s.now + after) item).StartedAt origin :=
        ⟨h.1, hlater after⟩
      exact hpushed.framed (readStep_framed serde s after wallUnixMs item)

theorem wakeupStep_stop_ne_overallDeadline (s : ReadLoop) (w : Wakeup) (e : AttemptEnd)
    (stop : (wakeupStep cfg serde s w).stop = some e) (limit : ℕ) :
    e ≠ .wire (.overallDeadline limit) := by
  rcases wakeupStep_stop_cases cfg serde stop with ⟨resolution, rfl⟩ | rfl | rfl <;> simp

/-- The timer of the deadline fires no earlier than it is armed for. -/
theorem lastWait_overallDeadline {origin : ℕ} {s : ReadLoop} (h : s.StartedAt origin)
    (last : WaitEnd) (limit : ℕ)
    (ended : (lastWait cfg serde s last).ended = .wire (.overallDeadline limit)) :
    origin + cfg.overallDeadline ≤ (lastWait cfg serde s last).state.now := by
  cases last with
  | overallDeadline late =>
      -- `now + (limit - (now - origin))` is no earlier than `origin + limit`
      have horigin := h.2
      simp only [lastWait, LoopEnd.after, ReadLoop.endWire, ReadLoop.wakeAt,
        ReadLoop.overallRemaining, h.1]
      omega
  | cancelled after => cases ended
  | stall late =>
      simp only [lastWait, LoopEnd.after, ReadLoop.endWire, AttemptEnd.wire.injEq] at ended
      split_ifs at ended
  | closed after => cases ended
  | transportError after detail => cases ended

theorem readLoop_overallDeadline {origin : ℕ} {s : ReadLoop} (h : s.StartedAt origin)
    (body : BodyTrace) (limit : ℕ)
    (ended : (readLoop cfg serde s body).ended = .wire (.overallDeadline limit)) :
    origin + cfg.overallDeadline ≤ (readLoop cfg serde s body).state.now := by
  cases hstop : (run (wakeupStep cfg serde) s body.wakeups).stop with
  | some e =>
      rw [readLoop_of_stop cfg serde hstop] at ended
      exact absurd ended (run_stop_of_each (wakeupStep cfg serde)
        (wakeupStep_stop_ne_overallDeadline cfg serde) hstop limit)
  | none =>
      have hstate := run_state_of_invariant (wakeupStep cfg serde)
        (fun s w => wakeupStep_startedAt cfg serde s w) h body.wakeups
      rw [readLoop_of_running cfg serde hstop] at ended ⊢
      exact lastWait_overallDeadline cfg serde hstate body.last limit ended

/-- **An attempt that ends at the overall deadline** has taken at least that long. -/
theorem runAttempt_overallDeadline (messages : List Message) (st : StreamState)
    (selectPolls now : ℕ) (wire : Wire) (limit : ℕ)
    (ended : (runAttempt cfg serde messages st selectPolls now wire).ended =
      .wire (.overallDeadline limit)) :
    now + cfg.overallDeadline ≤
      (runAttempt cfg serde messages st selectPolls now wire).now := by
  cases hframed : wire.framed with
  | none =>
      exfalso
      cases wire with
      | cancelled after => cases ended
      | elapsed late => cases ended
      | connectError after detail => cases ended
      | response after resp =>
          simp only [Wire.framed] at hframed
          simp only [runAttempt] at ended
          split_ifs at ended with hstatus hctype
          · cases ended
          · cases ended
          · simp [hstatus, hctype] at hframed
  | some framed =>
      obtain ⟨after, body⟩ := framed
      rw [runAttempt_of_framed cfg serde hframed] at ended ⊢
      have hstart : (ReadLoop.start st (now + after) selectPolls).StartedAt (now + after) :=
        ⟨rfl, Nat.le_refl _⟩
      exact Nat.le_trans (by omega)
        (readLoop_overallDeadline cfg serde hstart body limit ended)

/-! ## When the attempts of a turn are begun -/

/-- How long the attempts on these dials take together. -/
def totalDuration (dials : List Dial) : ℕ :=
  (dials.map fun d => attemptDuration cfg serde d.wire).sum

variable {cfg serde h}

/-- The trace has an attempt begun at this instant. -/
def BegunAt (trace : List TurnEvent) (instant : ℕ) : Prop :=
  ∃ begun wire run, .attempt begun wire run ∈ trace ∧ begun.now = instant

variable (cfg serde h)

/-- **An attempt is begun when those before it are over**: at the instant the loop
was entered, plus what the retried attempts took. -/
theorem turnLoop_begunAt_iff (messages : List Message) (t : TurnState)
    (dials : List Dial) (instant : ℕ) :
    BegunAt (turnLoop cfg serde h messages t dials).out instant ↔
      ∃ retried last, ComesTo cfg serde t.remainingAllowance.toNat dials retried last ∧
        instant = t.now + totalDuration cfg serde retried := by
  simp only [BegunAt, attempt_mem_turnLoop_iff]
  constructor
  · rintro ⟨begun, wire, run, ⟨retried, last, hcomes, rfl, rfl, rfl⟩, rfl⟩
    exact ⟨retried, last, hcomes, TurnState.behind_now messages t retried⟩
  · rintro ⟨retried, last, hcomes, rfl⟩
    exact ⟨_, _, _, ⟨retried, last, hcomes, rfl, rfl, rfl⟩,
      TurnState.behind_now messages t retried⟩

/-- Of two attempts, the second is begun when the first is over. -/
def TurnEvent.Before (e e' : TurnEvent) : Prop :=
  ∀ begun wire run begun' wire' run', e = .attempt begun wire run →
    e' = .attempt begun' wire' run' → run.now ≤ begun'.now

theorem TurnEvent.before_of_emitted (record : EmissionRecord) (e : TurnEvent) :
    (TurnEvent.emitted record).Before e := by
  rintro _ _ _ _ _ _ ⟨⟩

theorem TurnEvent.before_emitted (e : TurnEvent) (record : EmissionRecord) :
    e.Before (.emitted record) := by
  rintro _ _ _ _ _ _ - ⟨⟩

theorem dialEvents_inOrder (messages : List Message) (t : TurnState) (d : Dial) :
    (dialEvents cfg serde messages t d).Pairwise TurnEvent.Before := by
  simp [dialEvents, TurnEvent.before_of_emitted, TurnEvent.before_emitted]

/-- The attempts of a turn do not overlap. -/
theorem turnLoop_inOrder (messages : List Message) (t : TurnState) (dials : List Dial) :
    (turnLoop cfg serde h messages t dials).out.Pairwise TurnEvent.Before := by
  induction t, dials using turn_induction cfg serde messages with
  | nil t => exact .nil
  | denied t d rest denied =>
      rw [turnLoop_of_denied denied]
      exact List.pairwise_singleton _ _
  | settled t d rest hd last =>
      rw [turnLoop_of_settled hd last]
      exact dialEvents_inOrder cfg serde messages t d
  | retried t d rest hd faulting left ih =>
      rw [turnLoop_of_retry hd faulting left, Outcome.after_out]
      refine List.pairwise_append.mpr ⟨List.pairwise_append.mpr
        ⟨dialEvents_inOrder cfg serde messages t d, List.pairwise_singleton _ _, ?_⟩,
        ih, ?_⟩
      · intro e _ e' he'
        obtain rfl := List.mem_singleton.mp he'
        exact TurnEvent.before_emitted e _
      · intro e he e' he' begun wire run begun' wire' run' hattempt hattempt'
        subst hattempt hattempt'
        rcases List.mem_append.mp he with he | he
        · -- what is begun behind this attempt is begun when the attempt is over
          obtain ⟨rfl, rfl, rfl⟩ := attempt_mem_dialEvents.mp he
          obtain ⟨retried, last, -, hnow⟩ :=
            (turnLoop_begunAt_iff cfg serde h messages _ rest begun'.now).mp
              ⟨begun', wire', run', he', rfl⟩
          rw [hnow]
          exact Nat.le_add_right _ _
        · cases List.mem_singleton.mp he

/-! ## The ceiling -/

/-- **The turn keeps within the overall deadline**: no attempt is begun when the
deadline has passed since the turn was entered, and none is begun behind an attempt
that ended at the deadline. -/
structure TurnRun.WithinDeadline (cfg : OpenAiConfig) (entered : ℕ) (turn : TurnRun) :
    Prop where
  begun : ∀ begun wire run, .attempt begun wire run ∈ turn.trace →
    begun.now - entered < cfg.overallDeadline
  last : ∀ earlier begun wire run later limit,
    turn.trace = earlier ++ .attempt begun wire run :: later →
      run.ended = .wire (.overallDeadline limit) →
        later.filterMap TurnEvent.dialed? = []

theorem executeTurn_inOrder (messages : List Message) (streamId : StreamId) (now : ℕ)
    (dials : List Dial) :
    (executeTurn cfg serde h messages streamId now dials).trace.Pairwise
      TurnEvent.Before := by
  refine List.pairwise_append.mpr ⟨?_, ?_, ?_⟩
  · exact List.pairwise_cons.mpr ⟨fun e _ => TurnEvent.before_of_emitted _ e,
      turnLoop_inOrder cfg serde h messages _ dials⟩
  · cases (turnLoop cfg serde h messages (h.enter streamId now) dials).stop with
    | none => exact .nil
    | some verdict => exact List.pairwise_singleton _ _
  · intro e _ e' he'
    obtain ⟨verdict, -, rfl⟩ := List.mem_map.mp he'
    exact TurnEvent.before_emitted e _

/-- **When a turn keeps within the overall deadline**: exactly when the attempts
that it retries, up to the one before its last, take less than the deadline
together. -/
theorem executeTurn_withinDeadline_iff (messages : List Message) (streamId : StreamId)
    (now : ℕ) (dials : List Dial) :
    (executeTurn cfg serde h messages streamId now dials).WithinDeadline cfg now ↔
      ∀ retried last,
        ComesTo cfg serde h.retryAllowancePerTurn.toNat dials retried last →
          totalDuration cfg serde retried < cfg.overallDeadline := by
  have hbegun := turnLoop_begunAt_iff cfg serde h messages (h.enter streamId now) dials
  constructor
  · intro within retried last hcomes
    obtain ⟨begun, wire, run, mem, hnow⟩ := (hbegun _).mpr ⟨retried, last, hcomes, rfl⟩
    have hlt := within.begun begun wire run (attempt_mem_executeTurn.mpr mem)
    rw [hnow] at hlt
    exact Nat.lt_of_le_of_lt (by simp [EventHandler.enter]) hlt
  · intro short
    have hlate : ∀ begun wire run, .attempt begun wire run ∈
        (executeTurn cfg serde h messages streamId now dials).trace →
          now ≤ begun.now ∧ begun.now - now < cfg.overallDeadline := by
      intro begun wire run mem
      obtain ⟨retried, last, hcomes, hnow⟩ :=
        (hbegun _).mp ⟨begun, wire, run, attempt_mem_executeTurn.mp mem, rfl⟩
      have hshort := short retried last hcomes
      have hentered : (h.enter streamId now).now = now := rfl
      omega
    refine ⟨fun begun wire run mem => (hlate begun wire run mem).2, ?_⟩
    intro earlier begun wire run later limit htrace hended
    rw [List.filterMap_eq_nil_iff]
    intro e he
    match e, he with
    | .emitted record, _ => rfl
    | .attempt begun' wire' run', he =>
        -- it would be begun when the first one is over, a whole deadline later
        exfalso
        have hmem : ∀ e ∈ .attempt begun wire run :: later, e ∈
            (executeTurn cfg serde h messages streamId now dials).trace := fun e he =>
          htrace ▸ List.mem_append_right _ he
        have horder := executeTurn_inOrder cfg serde h messages streamId now dials
        rw [htrace] at horder
        have hbefore := (List.pairwise_cons.mp (List.pairwise_append.mp horder).2.1).1
          _ he begun wire run begun' wire' run' rfl rfl
        obtain ⟨before, rfl, rfl⟩ := turnLoop_attempt
          (attempt_mem_executeTurn.mp (hmem _ (List.mem_cons_self ..)))
        have htook := runAttempt_overallDeadline cfg serde messages before.begun.st
          before.begun.selectPolls before.begun.now wire limit hended
        have hfirst := hlate _ _ _ (hmem _ (List.mem_cons_self ..))
        have hsecond := hlate _ _ _ (hmem _ (List.mem_cons_of_mem _ he))
        unfold attemptOf at hbefore
        omega

/-- A deadline of two seconds. -/
def hurriedConfig : OpenAiConfig := { exampleConfig with overallDeadline := 2 * nanosPerSec }

/-- A response whose body brings nothing, while the throughput timer ticks, until
the deadline. -/
def silentWire : Wire :=
  .response 0 ⟨200, some "text/event-stream; charset=utf-8", .failed 0,
    ⟨[.tick 0 1, .tick nanosPerSec 1], .overallDeadline 0⟩⟩

/-- With one retry allowed, an attempt that ends at the deadline is followed by
another one, begun when the two seconds of the turn are over. -/
theorem retried_behind_deadline :
    attemptEnding hurriedConfig (.ofTable []) silentWire = .wire (.overallDeadline 2) ∧
      ¬(executeTurn hurriedConfig (.ofTable []) ⟨1, false⟩ [] 1 0
          [⟨1, silentWire, 0⟩, ⟨1, silentWire, 0⟩]).WithinDeadline hurriedConfig 0 := by
  have hended : attemptEnding hurriedConfig (.ofTable []) silentWire =
      .wire (.overallDeadline 2) := by
    decide +kernel
  have hduration : attemptDuration hurriedConfig (.ofTable []) silentWire =
      2 * nanosPerSec := by
    decide +kernel
  refine ⟨hended, fun within => ?_⟩
  have hcomes : ComesTo hurriedConfig (.ofTable []) 1
      [⟨1, silentWire, 0⟩, ⟨1, silentWire, 0⟩] [⟨1, silentWire, 0⟩] ⟨1, silentWire, 0⟩ :=
    { made := List.prefix_rfl
      within := Nat.le_refl _
      faulted := by
        intro d hd
        obtain rfl := List.mem_singleton.mp hd
        refine ⟨by decide, ?_⟩
        unfold Dial.Faulting
        rw [hended]
        decide
      admitted := by decide }
  obtain ⟨begun, wire, run, mem, hnow⟩ := (turnLoop_begunAt_iff hurriedConfig (.ofTable [])
    ⟨1, false⟩ [] (EventHandler.enter ⟨1, false⟩ 1 0) _ _).mpr ⟨_, _, hcomes, rfl⟩
  have hlt := within.begun begun wire run (attempt_mem_executeTurn.mpr mem)
  rw [hnow] at hlt
  simp only [totalDuration, List.map_cons, List.map_nil, hduration] at hlt
  revert hlt
  decide

end RarChat
