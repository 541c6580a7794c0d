import RarChat.Settings

/-!
# What the clocks can be armed for

`Clocks.lean` adds times without a bound, and the program adds instants.  Ahead of the
`select!` the stall time is computed by `Instant + Duration`, which panics when the sum is no
instant, so that no arm is armed at all; the overall arm is a `tokio::time::sleep`, which
falls back on a far future.  The windows and the deadline are accepted up to `u64::MAX`
seconds.

`ReadLoop.arms` is what a pass arms, with both of this in it.  The law of the clocks
(`ClocksKept`) holds of every run while the clock reads at most `horizon` exactly when
`horizon` leaves room for both windows and for the deadline (`clocksKept_iff`).
-/

namespace RarChat

open EarlyExit

/-! ## Arms -/

/-- How far ahead `sleep` puts a deadline that is no instant: thirty years. -/
def farFuture : ℕ := 30 * 365 * 86400 * nanosPerSec

/-- The instant for which `tokio::time::sleep` is armed; `none` is a panic. -/
def sleepUntil (now d : ℕ) : Option ℕ :=
  match instantAdd now d with
  | some instant => some instant
  | none => instantAdd now farFuture

/-- The instants for which the two timers of a pass are armed. -/
structure Arms where
  stall : ℕ
  overall : ℕ
deriving DecidableEq, Repr

/-- The head of the read loop and the timers of its `select!`. -/
def ReadLoop.arms (cfg : OpenAiConfig) (s : ReadLoop) : Option Arms := do
  let stall ← s.checkedStallDeadline cfg
  let overall ← sleepUntil s.now (s.overallRemaining cfg)
  some ⟨stall, overall⟩

variable {cfg : OpenAiConfig} {serde : SerdeJson}

theorem instantAdd_eq_some_iff {instant d sum : ℕ} :
    instantAdd instant d = some sum ↔
      sum = instant + d ∧ instant + d < 2 ^ 63 * nanosPerSec := by
  rw [← instantAdd_isSome_iff]
  unfold instantAdd
  split_ifs with h
  · simp [eq_comm]
  · simp

/-- **Sleep is armed for the sum** exactly when that is an instant: what it falls back on is
one, and the sum is none. -/
theorem sleepUntil_eq_sum_iff {now d : ℕ} :
    sleepUntil now d = some (now + d) ↔ now + d < 2 ^ 63 * nanosPerSec := by
  unfold sleepUntil
  cases hsum : instantAdd now d with
  | some instant =>
      obtain ⟨rfl, hfits⟩ := instantAdd_eq_some_iff.mp hsum
      exact iff_of_true rfl hfits
  | none =>
      have hover : ¬now + d < 2 ^ 63 * nanosPerSec := by
        intro hfits
        rw [instantAdd_eq_some_iff.mpr ⟨rfl, hfits⟩] at hsum
        cases hsum
      refine iff_of_false (fun hfar => hover ?_) hover
      obtain ⟨heq, hfits⟩ := instantAdd_eq_some_iff.mp hfar
      omega

theorem ReadLoop.arms_eq_some_iff {s : ReadLoop} {arms : Arms} :
    s.arms cfg = some arms ↔ s.checkedStallDeadline cfg = some arms.stall ∧
      sleepUntil s.now (s.overallRemaining cfg) = some arms.overall := by
  unfold ReadLoop.arms
  cases s.checkedStallDeadline cfg with
  | none => simp
  | some stall =>
      cases sleepUntil s.now (s.overallRemaining cfg) with
      | none => simp
      | some overall =>
          obtain ⟨stall', overall'⟩ := arms
          simp

/-! ## Runs -/

/-- What the timers of a pass behind these wakeups are due for, by the times alone. -/
def dueArms (cfg : OpenAiConfig) (origin : ℕ) (wakeups : List Wakeup) : Arms where
  stall := lastReadBehind origin wakeups + windowBehind cfg origin wakeups
  overall := max (clockBehind origin wakeups) (origin + cfg.overallDeadline)

/-- **A pass arms what is due** exactly when both times are instants. -/
theorem ReadLoop.Timed.arms_eq_dueArms_iff {origin : ℕ} {wakeups : List Wakeup}
    {s : ReadLoop} (h : s.Timed origin wakeups) :
    s.arms cfg = some (dueArms cfg origin wakeups) ↔
      (dueArms cfg origin wakeups).stall < 2 ^ 63 * nanosPerSec ∧
        (dueArms cfg origin wakeups).overall < 2 ^ 63 * nanosPerSec := by
  have harmed := h.armed cfg
  have hstall : s.lastReadAt + s.stallWindow cfg = (dueArms cfg origin wakeups).stall :=
    harmed.stall
  have hoverall : s.now + s.overallRemaining cfg = (dueArms cfg origin wakeups).overall :=
    harmed.overall
  rw [ReadLoop.arms_eq_some_iff, ReadLoop.checkedStallDeadline, instantAdd_eq_some_iff,
    ← hoverall, sleepUntil_eq_sum_iff, hstall]
  exact and_congr_left fun _ => and_iff_right rfl

/-- **The law of the clocks**, for every run of a loop in which the clock reads at most
`horizon` at its passes: each pass arms the stall timer for the last read, or the start,
plus the window in force, and the overall timer for the later of now and the start plus the
deadline; so no wakeup moves the overall time but past what it was, and no tick moves the
stall time; and the verdicts of the clocks are justified. -/
structure ClocksKept (cfg : OpenAiConfig) (serde : SerdeJson) (horizon : ℕ) : Prop where
  armed : ∀ (st : StreamState) (origin selectPolls : ℕ) (wakeups : List Wakeup)
    (pass : ReadLoop), clockBehind origin wakeups ≤ horizon →
      PassBehind cfg serde (ReadLoop.start st origin selectPolls) wakeups pass →
        pass.arms cfg = some (dueArms cfg origin wakeups)
  kept : ∀ (st : StreamState) (origin selectPolls : ℕ) (wakeups more : List Wakeup)
    (pass pass' : ReadLoop), clockBehind origin (wakeups ++ more) ≤ horizon →
      PassBehind cfg serde (ReadLoop.start st origin selectPolls) wakeups pass →
      PassBehind cfg serde (ReadLoop.start st origin selectPolls) (wakeups ++ more) pass' →
        ∃ arms arms', pass.arms cfg = some arms ∧ pass'.arms cfg = some arms' ∧
          arms'.overall = max pass'.now arms.overall ∧
          ((∀ w ∈ more, ∃ after activeStreams, w = .tick after activeStreams) →
            arms'.stall = arms.stall)
  verdicts : ∀ (st : StreamState) (origin selectPolls : ℕ) (body : BodyTrace),
    clockBehind origin body.wakeups ≤ horizon → ClockVerdict cfg origin body
      (readLoop cfg serde (ReadLoop.start st origin selectPolls) body)

theorem clockBehind_append (origin : ℕ) (wakeups more : List Wakeup) :
    clockBehind origin wakeups ≤ clockBehind origin (wakeups ++ more) := by
  simp only [clockBehind, List.map_append, List.sum_append]
  omega

/-- With room above `horizon`, both times are instants at every pass. -/
theorem dueArms_fit {horizon origin : ℕ} {wakeups : List Wakeup}
    (firstByte : horizon + cfg.firstByteBackstop < 2 ^ 63 * nanosPerSec)
    (stall : horizon + cfg.stallTimeout < 2 ^ 63 * nanosPerSec)
    (overall : horizon + cfg.overallDeadline < 2 ^ 63 * nanosPerSec)
    (clock : clockBehind origin wakeups ≤ horizon) :
    (dueArms cfg origin wakeups).stall < 2 ^ 63 * nanosPerSec ∧
      (dueArms cfg origin wakeups).overall < 2 ^ 63 * nanosPerSec := by
  have hlast := lastReadBehind_le_clockBehind origin wakeups
  have horigin : origin ≤ clockBehind origin wakeups := Nat.le_add_right _ _
  unfold dueArms windowBehind
  dsimp only
  split_ifs <;> omega

variable (cfg serde)

/-- **When the clocks are kept**: exactly when the clock, as far as it goes, leaves room for
both windows and for the deadline. -/
theorem clocksKept_iff (horizon : ℕ) :
    ClocksKept cfg serde horizon ↔
      horizon + cfg.firstByteBackstop < 2 ^ 63 * nanosPerSec ∧
        horizon + cfg.stallTimeout < 2 ^ 63 * nanosPerSec ∧
          horizon + cfg.overallDeadline < 2 ^ 63 * nanosPerSec := by
  constructor
  · intro law
    -- the first pass of a loop that starts at the horizon
    have hstart := timed_start (StreamState.new 1) horizon 0
    have hfirst := hstart.arms_eq_dueArms_iff.mp
      (law.armed (StreamState.new 1) horizon 0 [] _ (Nat.le_refl _) ⟨rfl, rfl⟩)
    -- and the pass behind a read at the horizon
    obtain ⟨pass, hpass⟩ := passBehind_firstRead cfg serde (StreamState.new 1) horizon 0
    have hread := hpass.timed.arms_eq_dueArms_iff.mp
      (law.armed _ _ _ _ _ (Nat.le_refl _) hpass)
    exact ⟨hfirst.1, hread.1, Nat.lt_of_le_of_lt (Nat.le_max_right _ _) hfirst.2⟩
  · rintro ⟨hfirstByte, hstall, hoverall⟩
    have harmed : ∀ (st : StreamState) (origin selectPolls : ℕ) (wakeups : List Wakeup)
        (pass : ReadLoop), clockBehind origin wakeups ≤ horizon →
        PassBehind cfg serde (ReadLoop.start st origin selectPolls) wakeups pass →
          pass.arms cfg = some (dueArms cfg origin wakeups) := by
      intro st origin selectPolls wakeups pass hclock hpass
      exact hpass.timed.arms_eq_dueArms_iff.mpr
        (dueArms_fit hfirstByte hstall hoverall hclock)
    refine ⟨harmed, ?_, fun st origin selectPolls body _ =>
      readLoop_clockVerdict cfg serde body⟩
    intro st origin selectPolls wakeups more pass pass' hclock hpass hpass'
    have hearlier := (clockBehind_append origin wakeups more).trans hclock
    obtain ⟨hoverallKept, hstallKept⟩ :=
      (readLoop_clocks cfg serde st origin selectPolls).2.1 _ _ _ _ hpass hpass'
    have hdue := hpass.timed.armed cfg
    have hdue' := hpass'.timed.armed cfg
    rw [hdue.overall, hdue'.overall] at hoverallKept
    rw [hdue.stall, hdue'.stall] at hstallKept
    exact ⟨_, _, harmed _ _ _ _ _ hearlier hpass, harmed _ _ _ _ _ hclock hpass',
      hoverallKept, hstallKept⟩

/-- A backstop of 2⁶³ seconds is accepted, and the first pass of the first loop panics ahead
of its `select!`. -/
theorem backstop_arms_nothing :
    ∃ s, settings .processOnly
        (exampleEnv [("OPENAI_FIRST_BYTE_BACKSTOP_SECS", "9223372036854775808")]) = .ok s ∧
      (ReadLoop.start (StreamState.new 1).beginAttempt 0 0).arms s.main.primary = none ∧
      ¬ClocksKept s.main.primary (.ofTable []) 0 := by
  refine ⟨_, rfl, by decide, fun law => ?_⟩
  have harms := law.armed (StreamState.new 1) 0 0 [] _ (Nat.le_refl _) ⟨rfl, rfl⟩
  revert harms
  decide

end RarChat
