import Mathlib.Algebra.Order.Field.Rat
import Mathlib.Data.Int.Log
import Mathlib.Data.Rat.Floor
import Mathlib.Tactic.Linarith
import Mathlib.Tactic.NormNum
import Mathlib.Tactic.Ring

/-!
# Rounding to binary64

A finite binary64 number is a rational number.  An operation on two of them returns the
exact result, rounded to the nearest such number, and to the one with the even significand
if two are equally near.  `round` is that rounding, with 53 significant bits and with the
gradual underflow below the normal range.  There is no overflow here: a result that is
too large for the format stays what it is to 53 bits.  A result is rounded by at most
`unitRoundoff`, in the scale of its size or of one (`round_error`).
-/

namespace Binary64

/-- The integer nearest to `x`, and the even one of two. -/
def roundHalfEven (x : ℚ) : ℤ :=
  if x - ⌊x⌋ < 1 / 2 ∨ x - ⌊x⌋ = 1 / 2 ∧ ⌊x⌋ % 2 = 0 then ⌊x⌋ else ⌊x⌋ + 1

/-- The distance of neighbouring numbers of the format around `x`. -/
def quantum (x : ℚ) : ℚ := 2 ^ max (Int.log 2 |x| - 52) (-1074)

/-- The number of the format that is nearest to `x`. -/
def round (x : ℚ) : ℚ := roundHalfEven (x / quantum x) * quantum x

/-- `0.6` is not in the format. -/
example : round (3 / 5) = 5404319552844595 / 2 ^ 53 := by decide +kernel

/-! ## How far a result is rounded -/

theorem roundHalfEven_error (x : ℚ) : |(roundHalfEven x : ℚ) - x| ≤ 1 / 2 := by
  have hfloor : (⌊x⌋ : ℚ) ≤ x := Int.floor_le x
  have hnext : x < ⌊x⌋ + 1 := Int.lt_floor_add_one x
  unfold roundHalfEven
  split_ifs with hdown
  · have hhalf : x - ⌊x⌋ ≤ 1 / 2 := hdown.elim le_of_lt fun h => h.1.le
    rw [abs_sub_comm, abs_of_nonneg (sub_nonneg.mpr hfloor)]
    exact hhalf
  · have hhalf : 1 / 2 ≤ x - ⌊x⌋ := not_lt.mp fun h => hdown (.inl h)
    rw [Int.cast_add, Int.cast_one, abs_of_nonneg (by linarith)]
    linarith

theorem quantum_pos (x : ℚ) : 0 < quantum x := zpow_pos two_pos _

/-- The binade of a number begins at most there. -/
theorem two_zpow_log_le (x : ℚ) : (2 : ℚ) ^ Int.log 2 |x| ≤ |x| + 1 := by
  rcases eq_or_ne x 0 with rfl | hx
  · simp
  · have hlog : ((2 : ℕ) : ℚ) ^ Int.log 2 |x| ≤ |x| :=
      Int.zpow_log_le_self one_lt_two (abs_pos.mpr hx)
    push_cast at hlog
    linarith

/-- Half the distance of two neighbours, relative to their size or to one. -/
def unitRoundoff : ℚ := 1 / 2 ^ 53

theorem quantum_le (x : ℚ) : quantum x ≤ 2 * unitRoundoff * (|x| + 1) := by
  have hunit : (2 : ℚ) * unitRoundoff = 2 ^ (-52 : ℤ) := by
    rw [unitRoundoff]
    norm_num
  have hsize : 1 ≤ |x| + 1 := le_add_of_nonneg_left (abs_nonneg x)
  have hpos : (0 : ℚ) < 2 ^ (-52 : ℤ) := zpow_pos two_pos _
  rw [quantum, hunit]
  rcases max_choice (Int.log 2 |x| - 52) (-1074) with hmax | hmax
  · rw [hmax, sub_eq_add_neg, zpow_add₀ two_ne_zero, mul_comm]
    exact mul_le_mul_of_nonneg_left (two_zpow_log_le x) hpos.le
  · rw [hmax]
    calc (2 : ℚ) ^ (-1074 : ℤ) ≤ 2 ^ (-52 : ℤ) := zpow_le_zpow_right₀ one_le_two (by norm_num)
      _ ≤ 2 ^ (-52 : ℤ) * (|x| + 1) := le_mul_of_one_le_right hpos.le hsize

/-- **How far a result is rounded.** -/
theorem round_error (x : ℚ) : |round x - x| ≤ unitRoundoff * (|x| + 1) := by
  have hq := quantum_pos x
  have hoff : round x - x = ((roundHalfEven (x / quantum x) : ℚ) - x / quantum x) * quantum x := by
    rw [round, sub_mul, div_mul_cancel₀ x hq.ne']
  calc |round x - x|
      = |(roundHalfEven (x / quantum x) : ℚ) - x / quantum x| * quantum x := by
        rw [hoff, abs_mul, abs_of_pos hq]
    _ ≤ 1 / 2 * quantum x :=
        mul_le_mul_of_nonneg_right (roundHalfEven_error _) hq.le
    _ ≤ 1 / 2 * (2 * unitRoundoff * (|x| + 1)) :=
        mul_le_mul_of_nonneg_left (quantum_le x) (by norm_num)
    _ = unitRoundoff * (|x| + 1) := by ring

end Binary64
