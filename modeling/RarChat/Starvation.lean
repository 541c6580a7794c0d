import RarChat.Bookkeeping

/-!
# A tick and a read at the same wakeup

The throughput guard counts a window of content bytes at every tick.  The comment at the
`select!` asks that a tick is not evaluated ahead of the bytes of a read that would clear
the starvation.  The arms are polled in no fixed order, so when both are ready either may
be taken first (`bothReady`).  Behind the read the tick counts its bytes
(`readStep_credits`); ahead of it the tick counts the window without them, and ends the
attempt if it is the last one of the sustained time (`tickStep_starves_iff`).
-/

namespace RarChat

open EarlyExit

/-! ## Polls -/

/-- The arm that `select!` picks when the tick and the read are both ready. -/
inductive Arm
  | tick
  | read
deriving DecidableEq, Repr

instance (P : Arm → Prop) [DecidablePred P] : Decidable (∀ arm, P arm) :=
  decidable_of_iff (P .tick ∧ P .read)
    ⟨fun h arm => Arm.casesOn arm h.1 h.2, fun h => ⟨h .tick, h .read⟩⟩

/-- What a poll of the `select!` finds ready. -/
inductive Poll
  | alone (w : Wakeup)
  | both (after activeStreams wallUnixMs : ℕ) (item : List UInt8) (picked : Arm)
deriving DecidableEq, Repr

/-- The arm that is not picked is still ready at the next poll. -/
def bothReady (after activeStreams wallUnixMs : ℕ) (item : List UInt8) :
    Arm → List Wakeup
  | .tick => [.tick after activeStreams, .read 0 wallUnixMs item]
  | .read => [.read after wallUnixMs item, .tick 0 activeStreams]

variable (cfg : OpenAiConfig) (serde : SerdeJson)

/-- The loop behind what a poll found ready. -/
def pollStep (s : ReadLoop) : Poll → LoopOutcome
  | .alone w => wakeupStep cfg serde s w
  | .both after activeStreams wallUnixMs item picked =>
      run (wakeupStep cfg serde) s (bothReady after activeStreams wallUnixMs item picked)

/-! ## What is counted -/

/-- The content bytes that a read brings. -/
def readContent (s : ReadLoop) (item : List UInt8) : ℕ :=
  ((takenFrames serde s item).map fun ev => textBytes (ev.events serde)).sum

/-- The average at a tick, if `more` content bytes were in its window. -/
def ReadLoop.emaWith (s : ReadLoop) (more : ℕ) : ℚ :=
  nextEma Binary64.round s.emaBps (s.contentBytesThisSec + more)

/-- How an attempt ends that is taken to be starved. -/
def starvedEnd : AttemptEnd :=
  .wire (.throughputStarved cfg.throughputFloorBps (asSecs cfg.throughputSustained))

/-- **A tick at this instant is the last one**: the floor is in force, the window is below
it, and starvation has lasted for the sustained time. -/
structure LastTick (s : ReadLoop) (instant : ℕ) : Prop where
  warmed : ∃ fb, s.firstByteAt = some fb ∧ nanosPerSec ≤ instant - fb
  below : s.emaWith 0 < Binary64.round cfg.throughputFloorBps
  sustained : cfg.throughputSustained ≤
    instant - s.turnStart - s.starvedDur.getD (instant - s.turnStart)

/-- **A tick ends the attempt** exactly when it is the last one. -/
theorem tickStep_starves_iff (s : ReadLoop) (after activeStreams : ℕ) :
    (tickStep cfg s after activeStreams).stop = some (starvedEnd cfg) ↔
      LastTick cfg s (s.now + after) := by
  unfold tickStep
  cases hfirst : s.firstByteAt with
  | none =>
      refine iff_of_false (by simp) fun h => ?_
      obtain ⟨fb, hfb, -⟩ := h.warmed
      rw [hfirst] at hfb
      cases hfb
  | some fb =>
      have hlast : LastTick cfg s (s.now + after) ↔
          decide (nanosPerSec ≤ s.now + after - fb) = true ∧
            nextEma Binary64.round s.emaBps s.contentBytesThisSec <
              Binary64.round cfg.throughputFloorBps ∧
            cfg.throughputSustained ≤ s.now + after - s.turnStart -
              s.starvedDur.getD (s.now + after - s.turnStart) := by
        rw [decide_eq_true_iff]
        constructor
        · rintro ⟨⟨fb', hfb', hwarmed⟩, hbelow, hsustained⟩
          obtain rfl := Option.some.inj (hfirst.symm.trans hfb')
          exact ⟨hwarmed, hbelow, hsustained⟩
        · rintro ⟨hwarmed, hbelow, hsustained⟩
          exact ⟨⟨fb, hfirst, hwarmed⟩, hbelow, hsustained⟩
      rw [hlast, ← evalThroughputWith_starved_iff]
      dsimp only
      split_ifs with hstarved
      · exact iff_of_true rfl hstarved
      · exact iff_of_false (by simp) hstarved

/-- A tick that is not the last one lets the loop go on. -/
theorem tickStep_running {s : ReadLoop} {after activeStreams : ℕ}
    (more : ¬LastTick cfg s (s.now + after)) :
    (tickStep cfg s after activeStreams).stop = none := by
  obtain ⟨s', notes, -, hstep | hstep⟩ := tickStep_cases cfg s after activeStreams
  · rw [hstep]
  · refine absurd ((tickStep_starves_iff cfg s after activeStreams).mp ?_) more
    rw [hstep]
    rfl

/-! ## What a read credits -/

/-- A frame that lets the loop go on credits its content to the window. -/
theorem frameStep_credits {gap : ℕ} {s : ReadLoop} {ev : SseEvent}
    (running : (frameStep serde gap s ev).stop = none) :
    (frameStep serde gap s ev).state.contentBytesThisSec =
      s.contentBytesThisSec + textBytes (ev.events serde) := by
  cases hpayload : ev.payload with
  | undecodable raw error => simp [frameStep, hpayload, SseEvent.events, textBytes]
  | comment text => simp [frameStep, hpayload, SseEvent.events, textBytes]
  | data text =>
      rw [frameStep_of_data serde hpayload] at running ⊢
      cases hrefined : refined serde text with
      | error detail =>
          obtain ⟨n, hstep⟩ :=
            onInstallment_of_error hrefined s.st (s.instSeq + 1) .complete
          rw [hstep] at running
          cases running
      | ok norm =>
          have hstep := onInstallment_of_ok hrefined s.st (s.instSeq + 1) .complete
          have hevents : ev.events serde = norm.events := by
            simp only [SseEvent.events, hpayload, payloadEvents,
              accepted_eq_some_iff.mpr hrefined, Option.map_some, Option.getD_some]
          rw [hstep] at running ⊢
          by_cases hdone : .done ∈ norm.events
          · simp [ReadLoop.dataOutcome, ReadLoop.follow, hdone, LoopEnd.returned] at running
          · rw [hevents]
            simp [ReadLoop.dataOutcome, ReadLoop.follow, hdone, ReadLoop.refinedTo]

theorem run_frameStep_credits {gap : ℕ} {s : ReadLoop} {evs : List SseEvent}
    (running : (run (frameStep serde gap) s evs).stop = none) :
    (run (frameStep serde gap) s evs).state.contentBytesThisSec =
      s.contentBytesThisSec + (evs.map fun ev => textBytes (ev.events serde)).sum := by
  induction evs generalizing s with
  | nil => rfl
  | cons ev evs ih =>
      obtain ⟨hstop, hrest, hstate⟩ := run_cons_running _ running
      rw [hstate, ih hrest, frameStep_credits serde hstop, List.map_cons, List.sum_cons,
        Nat.add_assoc]

/-- No read touches the average or the starvation clock. -/
theorem readStep_average (s : ReadLoop) (after wallUnixMs : ℕ) (item : List UInt8) :
    (readStep serde s after wallUnixMs item).state.emaBps = s.emaBps ∧
      (readStep serde s after wallUnixMs item).state.starvedDur = s.starvedDur := by
  obtain ⟨_, _, _, _, _, hframed⟩ := readStep_framed serde s after wallUnixMs item
  rw [hframed]
  exact ⟨rfl, rfl⟩

/-- **A read that lets the loop go on** credits its content to the window. -/
theorem readStep_window {s : ReadLoop} {after wallUnixMs : ℕ} {item : List UInt8}
    (running : (readStep serde s after wallUnixMs item).stop = none) :
    (readStep serde s after wallUnixMs item).state.contentBytesThisSec =
      s.contentBytesThisSec + readContent serde s item := by
  have htaken := (wakeupStep_read_of_running exampleConfig serde running).1
  by_cases hlong : s.parser.limitBytes < (frameRest (s.parser.buf ++ item)).length
  · rw [readStep_of_overflow serde hlong] at running
    cases running
  · rw [readStep_of_fits serde hlong, Outcome.after_stop] at running
    rw [readStep_of_fits serde hlong, Outcome.after_state,
      run_frameStep_credits serde running, readContent, htaken]
    rfl

/-- The tick behind a read has the content of the read in its average. -/
theorem readStep_credits {s : ReadLoop} {after wallUnixMs : ℕ} {item : List UInt8}
    (running : (readStep serde s after wallUnixMs item).stop = none) :
    (readStep serde s after wallUnixMs item).state.emaWith 0 =
      s.emaWith (readContent serde s item) := by
  rw [ReadLoop.emaWith, ReadLoop.emaWith, (readStep_average serde s after wallUnixMs item).1,
    readStep_window serde running]
  rfl

/-! ## Either arm first -/

/-- **A ready read is not outrun**: if its content brings the average to the floor, the
attempt is not ended as starved, whichever arm is picked. -/
def NeverOutrun (s : ReadLoop) : Poll → Prop
  | .alone _ => True
  | .both after activeStreams wallUnixMs item _ =>
      Binary64.round cfg.throughputFloorBps ≤ s.emaWith (readContent serde s item) →
        ∀ arm, (run (wakeupStep cfg serde) s
          (bothReady after activeStreams wallUnixMs item arm)).stop ≠ some (starvedEnd cfg)

instance (s : ReadLoop) : DecidablePred (NeverOutrun cfg serde s)
  | .alone _ => inferInstanceAs (Decidable True)
  | .both after activeStreams wallUnixMs item _ =>
      inferInstanceAs (Decidable (Binary64.round cfg.throughputFloorBps ≤
        s.emaWith (readContent serde s item) → ∀ arm, (run (wakeupStep cfg serde) s
          (bothReady after activeStreams wallUnixMs item arm)).stop ≠
            some (starvedEnd cfg)))

/-- No read ends the attempt as starved. -/
theorem readStep_stop_ne_starved (s : ReadLoop) (after wallUnixMs : ℕ)
    (item : List UInt8) :
    (readStep serde s after wallUnixMs item).stop ≠ some (starvedEnd cfg) := by
  intro hstop
  by_cases hlong : s.parser.limitBytes < (frameRest (s.parser.buf ++ item)).length
  · rw [readStep_of_overflow serde hlong] at hstop
    simp [LoopEnd.returned, LoopEnd.after, ReadLoop.endWire, starvedEnd] at hstop
  · rw [readStep_of_fits serde hlong] at hstop
    obtain ⟨resolution, hcomplete⟩ := (run_frameStep_cases serde _ _ _).2 _ hstop
    simp [starvedEnd] at hcomplete

/-- The tick first: it ends the attempt when it is the last one. -/
theorem tick_then_read_starves_iff (s : ReadLoop)
    (after activeStreams wallUnixMs : ℕ) (item : List UInt8) :
    (run (wakeupStep cfg serde) s
        (bothReady after activeStreams wallUnixMs item .tick)).stop =
          some (starvedEnd cfg) ↔ LastTick cfg s (s.now + after) := by
  have hticked : (wakeupStep cfg serde s (.tick after activeStreams)).stop =
      some (starvedEnd cfg) ↔ LastTick cfg s (s.now + after) :=
    tickStep_starves_iff cfg s after activeStreams
  by_cases hlast : LastTick cfg s (s.now + after)
  · rw [bothReady, run_cons_of_stop _ (hticked.mpr hlast)]
    exact hticked
  · have hrunning : (wakeupStep cfg serde s (.tick after activeStreams)).stop = none :=
      tickStep_running cfg hlast
    rw [bothReady, run_cons_of_running _ hrunning]
    refine iff_of_false (fun hstop => ?_) hlast
    rw [Outcome.after_stop, run_singleton] at hstop
    exact readStep_stop_ne_starved cfg serde _ _ _ _ hstop

/-- The read first: the tick behind it counts the content of the read. -/
theorem below_of_read_then_tick {s : ReadLoop} {after activeStreams wallUnixMs : ℕ}
    {item : List UInt8}
    (starved : (run (wakeupStep cfg serde) s
      (bothReady after activeStreams wallUnixMs item .read)).stop =
        some (starvedEnd cfg)) :
    s.emaWith (readContent serde s item) < Binary64.round cfg.throughputFloorBps := by
  rw [bothReady] at starved
  cases hstop : (wakeupStep cfg serde s (.read after wallUnixMs item)).stop with
  | some e =>
      rw [run_cons_of_stop _ hstop] at starved
      exact absurd starved (readStep_stop_ne_starved cfg serde _ _ _ _)
  | none =>
      rw [run_cons_of_running _ hstop, Outcome.after_stop, run_singleton, wakeupStep,
        tickStep_starves_iff] at starved
      have hbelow := starved.below
      rwa [wakeupStep, readStep_credits serde hstop] at hbelow

/-- **A ready read is outrun** exactly when the tick is the last one and the read would
have cleared it. -/
theorem neverOutrun_both_iff (s : ReadLoop) (after activeStreams wallUnixMs : ℕ)
    (item : List UInt8) (picked : Arm) :
    NeverOutrun cfg serde s (.both after activeStreams wallUnixMs item picked) ↔
      (LastTick cfg s (s.now + after) →
        s.emaWith (readContent serde s item) < Binary64.round cfg.throughputFloorBps) := by
  constructor
  · intro law hlast
    by_contra hcleared
    exact law (Rat.not_lt.mp hcleared) .tick
      ((tick_then_read_starves_iff cfg serde s after activeStreams wallUnixMs item).mpr hlast)
  · intro condition hcleared arm hstarved
    cases arm with
    | tick =>
        have hlast := (tick_then_read_starves_iff cfg serde s after activeStreams
          wallUnixMs item).mp hstarved
        exact absurd (condition hlast) (Rat.not_lt.mpr hcleared)
    | read =>
        exact absurd (below_of_read_then_tick cfg serde hstarved) (Rat.not_lt.mpr hcleared)

end RarChat
