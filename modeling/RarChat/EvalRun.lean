import RarChat.Library.Smoothing
import RarChat.Library.Stretch
import RarChat.Throughput

/-!
# The throughput evaluator over a sequence of calls

`run_attempt` holds the average and the starvation clock between two ticks, and hands both
to the next call.  Over a sequence of calls the average is exponential smoothing of the
windows (`evalRun_ema`), and the clock is the clock of one condition, that the call is
warmed and its average below the floor (`evalRun_starvedSince`).  What the evaluator
declares at a call is therefore a statement about the stretch of such calls that ends there
(`starves_iff_stretch`), and more content never lengthens that stretch (`starves_of_less`).
-/

namespace RarChat

open Smoothing Stretch

/-! ## Threaded calls -/

/-- What one call is given besides what is threaded through. -/
structure Call where
  bytesThisWindow : ℕ
  warmed : Bool
  nowSinceStart : ℕ
deriving DecidableEq, Repr

/-- The times of the calls. -/
def callTimes (calls : ℕ → Call) (n : ℕ) : ℕ := (calls n).nowSinceStart

/-- The windows of the calls. -/
def windows (calls : ℕ → Call) (n : ℕ) : ℚ := ((calls n).bytesThisWindow : ℚ)

/-- Warmed calls at equal distances, with the same content in each window. -/
def steadyCalls (bytes apart n : ℕ) : Call := ⟨bytes, true, (n + 1) * apart⟩

theorem monotone_steadyCalls (bytes apart : ℕ) :
    Monotone (callTimes (steadyCalls bytes apart)) := by
  intro m n hmn
  exact Nat.mul_le_mul_right apart (Nat.succ_le_succ hmn)

variable (floorBps sustained : ℕ)

/-- One more call, with the average and the clock that the last one left. -/
def ThroughputStep.next (s : ThroughputStep) (call : Call) : ThroughputStep :=
  evalThroughput s.ema call.bytesThisWindow floorBps call.warmed s.starvedSince
    call.nowSinceStart sustained

/-- What the first `n` calls leave. -/
def evalRun (start : ThroughputStep) (calls : ℕ → Call) : ℕ → ThroughputStep
  | 0 => start
  | n + 1 => (evalRun start calls n).next floorBps sustained (calls n)

/-- Call number `n` returns `starved`. -/
def Starves (start : ThroughputStep) (calls : ℕ → Call) (n : ℕ) : Prop :=
  (evalRun floorBps sustained start calls (n + 1)).starved = true

instance (start : ThroughputStep) (calls : ℕ → Call) :
    DecidablePred (Starves floorBps sustained start calls) :=
  fun n => inferInstanceAs (Decidable
    ((evalRun floorBps sustained start calls (n + 1)).starved = true))

/-- Call number `n` is warmed, and the average it leaves is below the floor. -/
def BelowFloor (start : ThroughputStep) (calls : ℕ → Call) (n : ℕ) : Prop :=
  (calls n).warmed = true ∧
    (evalRun floorBps sustained start calls (n + 1)).ema < (floorBps : ℚ)

instance (start : ThroughputStep) (calls : ℕ → Call) :
    DecidablePred (BelowFloor floorBps sustained start calls) :=
  fun _ => inferInstanceAs (Decidable (_ ∧ _))

section

variable {floorBps sustained : ℕ} {start : ThroughputStep} {calls : ℕ → Call} {n : ℕ}

theorem ThroughputStep.next_ema (s : ThroughputStep) (call : Call) :
    (s.next floorBps sustained call).ema =
      3 / 5 * s.ema + 2 / 5 * (call.bytesThisWindow : ℚ) := by
  unfold ThroughputStep.next evalThroughput
  dsimp only
  split_ifs <;> rfl

/-- A call below the floor holds the clock, or arms it; every other call disarms it. -/
theorem ThroughputStep.next_starvedSince (s : ThroughputStep) (call : Call) :
    (s.next floorBps sustained call).starvedSince =
      if call.warmed = true ∧ (s.next floorBps sustained call).ema < (floorBps : ℚ) then
        some (s.starvedSince.getD call.nowSinceStart)
      else none := by
  rw [ThroughputStep.next_ema]
  unfold ThroughputStep.next evalThroughput
  dsimp only
  split_ifs <;> rfl

/-- **The average is exponential smoothing** of the windows. -/
theorem evalRun_ema (floorBps sustained : ℕ) (start : ThroughputStep) (calls : ℕ → Call)
    (n : ℕ) : (evalRun floorBps sustained start calls n).ema =
      smooth (3 / 5) start.ema (windows calls) n := by
  induction n with
  | zero => rfl
  | succ n ih =>
      show ((evalRun floorBps sustained start calls n).next floorBps sustained
        (calls n)).ema = _
      rw [ThroughputStep.next_ema, ih, smooth, windows]
      norm_num

/-- **The clock is that of the calls below the floor.** -/
theorem evalRun_starvedSince (floorBps sustained : ℕ) (start : ThroughputStep)
    (calls : ℕ → Call) (n : ℕ) : (evalRun floorBps sustained start calls n).starvedSince =
      clock (BelowFloor floorBps sustained start calls) (callTimes calls)
        start.starvedSince n := by
  induction n with
  | zero => rfl
  | succ n ih =>
      show ((evalRun floorBps sustained start calls n).next floorBps sustained
        (calls n)).starvedSince = _
      rw [ThroughputStep.next_starvedSince, ih]
      rfl

/-- **A call starves** exactly when the clock it leaves shows a time that is `sustained`
ago. -/
theorem starves_iff_clock :
    Starves floorBps sustained start calls n ↔
      ∃ t ∈ clock (BelowFloor floorBps sustained start calls) (callTimes calls)
        start.starvedSince (n + 1), sustained ≤ callTimes calls n - t := by
  have heval : Starves floorBps sustained start calls n ↔
      BelowFloor floorBps sustained start calls n ∧ sustained ≤ callTimes calls n -
        (evalRun floorBps sustained start calls n).starvedSince.getD (callTimes calls n) := by
    unfold Starves BelowFloor
    rw [evalRun, ThroughputStep.next_ema]
    unfold ThroughputStep.next
    rw [evalThroughput_starved_iff, and_assoc]
    rfl
  rw [heval, evalRun_starvedSince]
  constructor
  · rintro ⟨hbelow, hlasted⟩
    exact ⟨_, clock_succ_of_holds hbelow, hlasted⟩
  · rintro ⟨t, ht, hlasted⟩
    by_cases hbelow : BelowFloor floorBps sustained start calls n
    · rw [clock_succ_of_holds hbelow] at ht
      obtain rfl := Option.some.inj ht
      exact ⟨hbelow, hlasted⟩
    · rw [clock_succ_of_not hbelow] at ht
      cases ht

end

/-! ## One unbroken stretch -/

/-- **The clock measures one unbroken stretch.**  From a disarmed clock, a call starves
exactly when the maximal run of calls below the floor that ends at it began at a call at
least `sustained` ago.  A call that is not warmed or not below the floor disarms the clock. -/
theorem starves_iff_stretch (ema : ℚ) {calls : ℕ → Call} (mono : Monotone (callTimes calls))
    (n : ℕ) :
    (Starves floorBps sustained ⟨ema, false, none⟩ calls n ↔
      ∃ s, IsLeast (stretch (BelowFloor floorBps sustained ⟨ema, false, none⟩ calls) n) s ∧
        callTimes calls s + sustained ≤ callTimes calls n) ∧
    (¬BelowFloor floorBps sustained ⟨ema, false, none⟩ calls n →
      (evalRun floorBps sustained ⟨ema, false, none⟩ calls (n + 1)).starvedSince = none) := by
  constructor
  · rw [starves_iff_clock]
    constructor
    · rintro ⟨t, ht, hlasted⟩
      obtain ⟨s, hs, rfl⟩ := clock_none_eq_some_iff.mp ht
      have hpast : callTimes calls s ≤ callTimes calls n := mono hs.1.1
      exact ⟨s, hs, by omega⟩
    · rintro ⟨s, hs, hlasted⟩
      exact ⟨_, clock_none_of_isLeast hs, by omega⟩
  · intro hnot
    rw [evalRun_starvedSince]
    exact clock_succ_of_not hnot

/-- Three calls in silence, one time unit apart. -/
theorem silent_stretch :
    ∃ s, IsLeast (stretch (BelowFloor 1 2 ⟨0, false, none⟩ (steadyCalls 0 1)) 2) s ∧
      callTimes (steadyCalls 0 1) s + 2 ≤ callTimes (steadyCalls 0 1) 2 :=
  (starves_iff_stretch 1 2 0 (monotone_steadyCalls 0 1) 2).1.mp (by decide +kernel)

/-! ## More content -/

/-- The same ticks, with at least as much content in each window. -/
structure MoreContent (calls calls' : ℕ → Call) : Prop where
  windows_le : ∀ n, windows calls' n ≤ windows calls n
  warmed_eq : ∀ n, (calls n).warmed = (calls' n).warmed
  times_eq : callTimes calls = callTimes calls'

variable {floorBps sustained}

theorem MoreContent.belowFloor {calls calls' : ℕ → Call} {start start' : ThroughputStep}
    (more : MoreContent calls calls') (ema_le : start'.ema ≤ start.ema) {n : ℕ}
    (h : BelowFloor floorBps sustained start calls n) :
    BelowFloor floorBps sustained start' calls' n := by
  obtain ⟨hwarmed, hbelow⟩ := h
  rw [evalRun_ema] at hbelow
  refine ⟨(more.warmed_eq n).symm.trans hwarmed, ?_⟩
  rw [evalRun_ema]
  apply lt_of_le_of_lt _ hbelow
  exact smooth_mono (by norm_num) (by norm_num) ema_le more.windows_le (n + 1)

/-- **More content never starves a stream sooner.**  If the run with more content, from an
average at least as high and a clock that is armed no earlier, starves at a call, so does
the other run. -/
theorem starves_of_less {calls calls' : ℕ → Call} {start start' : ThroughputStep}
    (more : MoreContent calls calls') (mono : Monotone (callTimes calls))
    (ema_le : start'.ema ≤ start.ema)
    (armed : ∀ t ∈ start.starvedSince, ∃ t' ∈ start'.starvedSince, t' ≤ t)
    (past : ∀ t ∈ start'.starvedSince, t ≤ callTimes calls 0) {n : ℕ}
    (h : Starves floorBps sustained start calls n) :
    Starves floorBps sustained start' calls' n := by
  obtain ⟨t, ht, hlasted⟩ := starves_iff_clock.mp h
  obtain ⟨t', ht', hle⟩ := clock_mono mono
    (fun k => more.belowFloor (n := k) ema_le) past armed (n + 1) t ht
  refine starves_iff_clock.mpr ⟨t', ?_, ?_⟩
  · rw [← more.times_eq]
    exact ht'
  · rw [← more.times_eq]
    omega

/-- Silence in place of one byte a call. -/
theorem starves_in_silence : Starves 1 2 ⟨0, false, none⟩ (steadyCalls 0 1) 2 := by
  have more : MoreContent (steadyCalls 1 1) (steadyCalls 0 1) :=
    ⟨fun n => Nat.cast_le.mpr (Nat.zero_le 1), fun n => rfl, rfl⟩
  have hone : Starves 1 2 ⟨0, false, none⟩ (steadyCalls 1 1) 2 := by decide +kernel
  exact starves_of_less more (monotone_steadyCalls 1 1) le_rfl (by simp) (by simp) hone

end RarChat
