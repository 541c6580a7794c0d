import Mathlib.Order.Bounds.Basic
import Mathlib.Order.Monotone.Basic
import Mathlib.Tactic.Common

/-!
# A clock for one unbroken stretch

A clock watches a condition at the moments `0`, `1`, `2` and so on.  At a moment at which
the condition holds the clock is armed with the time of that moment, unless it is armed
already; at any other moment it is disarmed.

From a disarmed clock, what it shows behind a moment is the time of the first moment of
the stretch that has lasted until then (`clock_none_eq_some_iff`).  A condition that holds
more often arms its clock no later (`clock_mono`).
-/

namespace Stretch

universe u

/-! ## Stretches -/

/-- The moments from which `P` has held without a break until moment `n`. -/
def stretch (P : ℕ → Prop) (n : ℕ) : Set ℕ := {s | s ≤ n ∧ ∀ k, s ≤ k → k ≤ n → P k}

section Stretches

variable {P : ℕ → Prop} {s n : ℕ}

theorem holds_of_mem (h : s ∈ stretch P n) : P n := h.2 n h.1 le_rfl

theorem mem_stretch_self (h : P n) : n ∈ stretch P n := by
  refine ⟨le_rfl, fun k hk hkn => ?_⟩
  rwa [le_antisymm hkn hk]

theorem mem_stretch_succ (h : P (n + 1)) :
    s ∈ stretch P (n + 1) ↔ s = n + 1 ∨ s ∈ stretch P n := by
  constructor
  · rintro ⟨hs, hall⟩
    rcases Nat.of_le_succ hs with hle | heq
    · exact .inr ⟨hle, fun k hk hkn => hall k hk (Nat.le_succ_of_le hkn)⟩
    · exact .inl heq
  · rintro (rfl | ⟨hs, hall⟩)
    · exact mem_stretch_self h
    · refine ⟨Nat.le_succ_of_le hs, fun k hk hkn => ?_⟩
      rcases Nat.of_le_succ hkn with hle | rfl
      · exact hall k hk hle
      · exact h

/-- A stretch goes on. -/
theorem isLeast_stretch_succ (h : P (n + 1)) (least : IsLeast (stretch P n) s) :
    IsLeast (stretch P (n + 1)) s := by
  refine ⟨(mem_stretch_succ h).mpr (.inr least.1), fun r hr => ?_⟩
  rcases (mem_stretch_succ h).mp hr with rfl | hr
  · exact Nat.le_succ_of_le least.1.1
  · exact least.2 hr

/-- A stretch begins behind a break. -/
theorem isLeast_stretch_of_break (h : P n) (break_ : n = 0 ∨ ¬P (n - 1)) :
    IsLeast (stretch P n) n := by
  refine ⟨mem_stretch_self h, fun r hr => ?_⟩
  by_contra hlt
  rcases break_ with rfl | hbroken
  · exact hlt (Nat.zero_le r)
  · exact hbroken (hr.2 (n - 1) (by omega) (Nat.sub_le n 1))

/-- **Where the stretch began.** -/
theorem exists_isLeast_stretch (h : P n) : ∃ s, IsLeast (stretch P n) s := by
  induction n with
  | zero => exact ⟨0, isLeast_stretch_of_break h (.inl rfl)⟩
  | succ n ih =>
      by_cases hn : P n
      · obtain ⟨s, hs⟩ := ih hn
        exact ⟨s, isLeast_stretch_succ h hs⟩
      · exact ⟨n + 1, isLeast_stretch_of_break h (.inr hn)⟩

end Stretches

/-! ## The clock -/

variable {τ : Type u}

/-- What the clock shows ahead of moment `n`, if it shows `start` ahead of moment `0`. -/
def clock (P : ℕ → Prop) [DecidablePred P] (time : ℕ → τ) (start : Option τ) :
    ℕ → Option τ
  | 0 => start
  | n + 1 => if P n then some ((clock P time start n).getD (time n)) else none

section Clock

variable {P Q : ℕ → Prop} [DecidablePred P] [DecidablePred Q] {time : ℕ → τ}
variable {start start' : Option τ} {n : ℕ}

theorem clock_succ_of_holds (h : P n) :
    clock P time start (n + 1) = some ((clock P time start n).getD (time n)) :=
  if_pos h

/-- A break disarms the clock. -/
theorem clock_succ_of_not (h : ¬P n) : clock P time start (n + 1) = none :=
  if_neg h

/-- The clock depends on the moments that have passed. -/
theorem clock_congr {time' : ℕ → τ} (same : ∀ k < n, (P k ↔ Q k) ∧ time k = time' k) :
    clock P time start n = clock Q time' start n := by
  induction n with
  | zero => rfl
  | succ n ih =>
      obtain ⟨hP, htime⟩ := same n (Nat.lt_succ_self n)
      have hearlier := ih fun k hk => same k (Nat.lt_succ_of_lt hk)
      simp only [clock, hP, htime, hearlier]

/-- **The clock shows where the stretch began.** -/
theorem clock_none_of_isLeast {s : ℕ} (least : IsLeast (stretch P n) s) :
    clock P time none (n + 1) = some (time s) := by
  induction n generalizing s with
  | zero =>
      have hs : s = 0 := Nat.le_zero.mp least.1.1
      rw [clock_succ_of_holds (holds_of_mem least.1), hs]
      rfl
  | succ n ih =>
      have h : P (n + 1) := holds_of_mem least.1
      rw [clock_succ_of_holds h]
      by_cases hn : P n
      · obtain ⟨r, hr⟩ := exists_isLeast_stretch hn
        rw [ih hr, (isLeast_stretch_succ h hr).unique least]
        rfl
      · rw [clock_succ_of_not hn, (isLeast_stretch_of_break h (.inr hn)).unique least]
        rfl

theorem clock_none_eq_some_iff {t : τ} :
    clock P time none (n + 1) = some t ↔ ∃ s, IsLeast (stretch P n) s ∧ time s = t := by
  constructor
  · intro hclock
    have h : P n := by
      by_contra hn
      rw [clock_succ_of_not hn] at hclock
      cases hclock
    obtain ⟨s, hs⟩ := exists_isLeast_stretch h
    rw [clock_none_of_isLeast hs] at hclock
    exact ⟨s, hs, Option.some.inj hclock⟩
  · rintro ⟨s, hs, rfl⟩
    exact clock_none_of_isLeast hs

variable [Preorder τ]

/-- The clock shows no time that is still to come. -/
theorem clock_le (mono : Monotone time) (past : ∀ t ∈ start, t ≤ time 0) (n : ℕ) :
    ∀ t ∈ clock P time start n, t ≤ time n := by
  induction n with
  | zero => exact past
  | succ n ih =>
      intro t ht
      by_cases h : P n
      · rw [clock_succ_of_holds h] at ht
        obtain rfl := Option.some.inj ht
        apply le_trans _ (mono (Nat.le_succ n))
        cases hclock : clock P time start n with
        | none => exact le_rfl
        | some t => exact ih t hclock
      · rw [clock_succ_of_not h] at ht
        cases ht

/-- **A condition that holds more often** arms its clock no later. -/
theorem clock_mono (mono : Monotone time) (weaker : ∀ n, P n → Q n)
    (past : ∀ t ∈ start', t ≤ time 0) (earlier : ∀ t ∈ start, ∃ t' ∈ start', t' ≤ t)
    (n : ℕ) : ∀ t ∈ clock P time start n, ∃ t' ∈ clock Q time start' n, t' ≤ t := by
  induction n with
  | zero => exact earlier
  | succ n ih =>
      intro t ht
      by_cases h : P n
      · rw [clock_succ_of_holds h] at ht
        obtain rfl := Option.some.inj ht
        refine ⟨_, clock_succ_of_holds (weaker n h), ?_⟩
        cases hclock : clock P time start n with
        | some t =>
            obtain ⟨t', ht', hle⟩ := ih t hclock
            rw [Option.mem_def.mp ht']
            exact hle
        | none =>
            -- `P` arms now, `Q` did at some time before or does so now
            cases hclock' : clock Q time start' n with
            | none => exact le_rfl
            | some t' => exact clock_le mono past n t' hclock'
      · rw [clock_succ_of_not h] at ht
        cases ht

end Clock

end Stretch
