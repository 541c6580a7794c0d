import Mathlib.Algebra.BigOperators.Ring.Finset
import Mathlib.Algebra.Order.Archimedean.Basic
import Mathlib.Algebra.Order.BigOperators.Ring.Finset
import Mathlib.Tactic.Linarith
import Mathlib.Tactic.Ring

/-!
# Exponential smoothing

An average that keeps the fraction `r` of itself at every input and takes the fraction
`1 - r` of the input.  It is the sum of its inputs with geometric weights and of what is
left of where it started (`smooth_eq`): it grows with its inputs (`smooth_mono`), stays at a
level that its inputs keep up with (`le_smooth_of_le`), and without input it decays below
every level (`exists_pow_mul_lt`).
-/

namespace Smoothing

open Finset

universe u

variable {K : Type u} [Field K]

/-- The average behind the first `n` inputs. -/
def smooth (r start : K) (xs : ℕ → K) : ℕ → K
  | 0 => start
  | n + 1 => r * smooth r start xs n + (1 - r) * xs n

/-- What the first `n` inputs contribute to the average. -/
def weighted (r : K) (xs : ℕ → K) (n : ℕ) : K :=
  (1 - r) * ∑ k ∈ range n, r ^ (n - 1 - k) * xs k

theorem weighted_succ (r : K) (xs : ℕ → K) (n : ℕ) :
    weighted r xs (n + 1) = r * weighted r xs n + (1 - r) * xs n := by
  have hterm : ∀ k ∈ range n, r ^ (n + 1 - 1 - k) * xs k = r * (r ^ (n - 1 - k) * xs k) := by
    intro k hk
    have hlt : k < n := mem_range.mp hk
    rw [show n + 1 - 1 - k = n - 1 - k + 1 by omega, pow_succ]
    ring
  rw [weighted, weighted, sum_range_succ, sum_congr rfl hterm, ← mul_sum,
    show n + 1 - 1 - n = 0 by omega, pow_zero]
  ring

/-- **The average in closed form.** -/
theorem smooth_eq (r start : K) (xs : ℕ → K) (n : ℕ) :
    smooth r start xs n = r ^ n * start + weighted r xs n := by
  induction n with
  | zero => simp [smooth, weighted]
  | succ n ih =>
      rw [smooth, ih, weighted_succ, pow_succ]
      ring

/-- Without input, only what is left of the start is there. -/
theorem smooth_zero (r start : K) (n : ℕ) : smooth r start (fun _ => 0) n = r ^ n * start := by
  rw [smooth_eq]
  simp [weighted]

variable [LinearOrder K] [IsStrictOrderedRing K] {r start start' : K} {xs ys : ℕ → K}

theorem smooth_mono (hr : 0 ≤ r) (hr' : r ≤ 1) (hstart : start ≤ start')
    (hxs : ∀ n, xs n ≤ ys n) (n : ℕ) : smooth r start xs n ≤ smooth r start' ys n := by
  induction n with
  | zero => exact hstart
  | succ n ih =>
      apply add_le_add
      · exact mul_le_mul_of_nonneg_left ih hr
      · exact mul_le_mul_of_nonneg_left (hxs n) (sub_nonneg.mpr hr')

/-- **A level that is reached is kept** by inputs at this level. -/
theorem le_smooth_succ (hr : 0 ≤ r) (hr' : r ≤ 1) {level : K} {n : ℕ}
    (reached : level ≤ smooth r start xs n) (h : level ≤ xs n) :
    level ≤ smooth r start xs (n + 1) := by
  have hkept : r * level ≤ r * smooth r start xs n := mul_le_mul_of_nonneg_left reached hr
  have htaken : (1 - r) * level ≤ (1 - r) * xs n :=
    mul_le_mul_of_nonneg_left h (sub_nonneg.mpr hr')
  rw [smooth]
  linarith

theorem le_smooth_of_le (hr : 0 ≤ r) (hr' : r ≤ 1) {level : K} (h : ∀ n, level ≤ xs n)
    {m n : ℕ} (hmn : m ≤ n) (reached : level ≤ smooth r start xs m) :
    level ≤ smooth r start xs n := by
  induction n, hmn using Nat.le_induction with
  | base => exact reached
  | succ n hmn ih => exact le_smooth_succ hr hr' ih (h n)

/-- **Without input the average decays** below every level. -/
theorem exists_pow_mul_lt [Archimedean K] (hr' : r < 1) {level : K} (hlevel : 0 < level)
    (start : K) : ∃ n, r ^ n * start < level := by
  rcases le_or_gt start 0 with hle | hpos
  · refine ⟨0, ?_⟩
    rw [pow_zero, one_mul]
    exact lt_of_le_of_lt hle hlevel
  · obtain ⟨n, hn⟩ := exists_pow_lt_of_lt_one (div_pos hlevel hpos) hr'
    exact ⟨n, (lt_div_iff₀ hpos).mp hn⟩

/-- Once below a level, it is below at every later input. -/
theorem pow_mul_lt_of_le (hr : 0 ≤ r) (hr' : r ≤ 1) (hstart : 0 ≤ start) {level : K}
    {m n : ℕ} (hmn : m ≤ n) (below : r ^ m * start < level) : r ^ n * start < level := by
  have hpow : r ^ n ≤ r ^ m := pow_le_pow_of_le_one hr hr' hmn
  exact lt_of_le_of_lt (mul_le_mul_of_nonneg_right hpow hstart) below

end Smoothing
