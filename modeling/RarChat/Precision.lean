import RarChat.Ticks

/-!
# Rounding and verdicts

The read loop evaluates its throughput in binary64, and what is proved of the moving
average (`EvalRun`, `Ticks`) is proved in exact arithmetic.  The two agree but for averages
that come very close to the floor.  A call is six roundings away from exact arithmetic
(`nextEma_error`); of what an average was off before, it keeps three fifths, so over a run
the error stays bounded (`Together`), and as long as no exact average of a warmed call
comes that near to the floor, clock and verdict are the same (`Together.next`).

So an attempt is declared starved exactly when exact arithmetic declares its last call
starved (`attempt_starves_iff_starves`), and the results on `Starves` are results on
attempts; for a silent one, whatever the floor is (`silent_attempt_starves_iff`).
-/

namespace RarChat

open EarlyExit

/-! ## One call -/

section

variable {u : ℚ} {round : ℚ → ℚ} (near : ∀ x, |round x - x| ≤ u * (|x| + 1))
variable (small : u ≤ 1 / 128) {m : ℚ} (large : 1 ≤ m)
include near

theorem roundoff_nonneg : 0 ≤ u := by
  have hzero := (abs_nonneg _).trans (near 0)
  rwa [abs_zero, zero_add, mul_one] at hzero

/-- One rounding, in the scale of `m`. -/
theorem round_within {x k : ℚ} (hx : |x| ≤ k * m) (large : 1 ≤ m) :
    |round x - x| ≤ (k + 1) * (u * m) := by
  have hu := roundoff_nonneg near
  calc |round x - x| ≤ u * (|x| + 1) := near x
    _ ≤ u * (k * m + m) := mul_le_mul_of_nonneg_left (add_le_add hx large) hu
    _ = (k + 1) * (u * m) := by ring

include small large

/-- One of the two weighted terms: the weight, the value and the product are rounded. -/
theorem weighted_within {w x x' : ℚ} (nonneg : 0 ≤ w) (le : w ≤ 3 / 5) (hx : |x| ≤ m)
    (hoff : |x' - x| ≤ 2 * (u * m)) : |round (round w * x') - w * x| ≤ 7 * (u * m) := by
  have hu := roundoff_nonneg near
  have hm : 0 ≤ m := zero_le_one.trans large
  have hum : u * m ≤ 1 / 128 * m := mul_le_mul_of_nonneg_right small hm
  have hweight : |round w - w| ≤ 2 * u := by
    have hnear := near w
    rw [abs_of_nonneg nonneg] at hnear
    have hone : u * (w + 1) ≤ u * 2 := mul_le_mul_of_nonneg_left (by linarith) hu
    linarith
  have hfactor : |round w| ≤ 1 := by
    have htriangle := abs_add_le (round w - w) w
    rw [sub_add_cancel, abs_of_nonneg nonneg] at htriangle
    linarith
  have hvalue : |x'| ≤ 2 * m := by
    have htriangle := abs_add_le (x' - x) x
    rw [sub_add_cancel] at htriangle
    linarith
  have hproduct : |round w * x'| ≤ 2 * m := by
    rw [abs_mul]
    calc |round w| * |x'| ≤ 1 * (2 * m) :=
          mul_le_mul hfactor hvalue (abs_nonneg _) zero_le_one
      _ = 2 * m := one_mul _
  have hexact : |round w * x' - w * x| ≤ 4 * (u * m) := by
    have hsplit : round w * x' - w * x = round w * (x' - x) + (round w - w) * x := by ring
    have hleft : |round w * (x' - x)| ≤ 1 * (2 * (u * m)) := by
      rw [abs_mul]
      exact mul_le_mul hfactor hoff (abs_nonneg _) zero_le_one
    have hright : |(round w - w) * x| ≤ 2 * u * m := by
      rw [abs_mul]
      exact mul_le_mul hweight hx (abs_nonneg _) (by linarith)
    rw [hsplit]
    linarith [abs_add_le (round w * (x' - x)) ((round w - w) * x)]
  have hround := round_within near hproduct large
  have htriangle := abs_sub_le (round (round w * x')) (round w * x') (w * x)
  linarith

/-- **How far one call is from exact arithmetic**: six roundings, in the scale of the
average and the window. -/
theorem nextEma_error {p : ℚ} {b : ℕ} (hp : |p| ≤ m) (hb : (b : ℚ) ≤ m) :
    |nextEma round p b - nextEma id p b| ≤ 17 * (u * m) := by
  have hu := roundoff_nonneg near
  have hm : 0 ≤ m := zero_le_one.trans large
  have hum : u * m ≤ 1 / 128 * m := mul_le_mul_of_nonneg_right small hm
  have hbytes : |(b : ℚ)| ≤ m := by rwa [Nat.abs_cast]
  have hkept : |round (round (3 / 5) * p) - 3 / 5 * p| ≤ 7 * (u * m) := by
    refine weighted_within near small large (by norm_num) le_rfl hp ?_
    rw [sub_self, abs_zero]
    exact mul_nonneg zero_le_two (mul_nonneg hu hm)
  have htaken : |round (round (2 / 5) * round (b : ℚ)) - 2 / 5 * (b : ℚ)| ≤ 7 * (u * m) := by
    refine weighted_within near small large (by norm_num) (by norm_num) hbytes ?_
    have hround := round_within (k := 1) near (by rwa [one_mul]) large
    linarith
  have hexact : |3 / 5 * p + 2 / 5 * (b : ℚ)| ≤ m := by
    have hterms := abs_add_le (3 / 5 * p) (2 / 5 * (b : ℚ))
    rw [abs_mul, abs_mul, abs_of_nonneg (by norm_num : (0 : ℚ) ≤ 3 / 5),
      abs_of_nonneg (by norm_num : (0 : ℚ) ≤ 2 / 5)] at hterms
    linarith
  have hoff : |round (round (3 / 5) * p) + round (round (2 / 5) * round (b : ℚ)) -
      (3 / 5 * p + 2 / 5 * (b : ℚ))| ≤ 14 * (u * m) := by
    rw [add_sub_add_comm]
    have htriangle := abs_add_le (round (round (3 / 5) * p) - 3 / 5 * p)
      (round (round (2 / 5) * round (b : ℚ)) - 2 / 5 * (b : ℚ))
    linarith
  have hsum : |round (round (3 / 5) * p) + round (round (2 / 5) * round (b : ℚ))| ≤ 2 * m := by
    have htriangle := abs_add_le (round (round (3 / 5) * p) +
      round (round (2 / 5) * round (b : ℚ)) - (3 / 5 * p + 2 / 5 * (b : ℚ)))
      (3 / 5 * p + 2 / 5 * (b : ℚ))
    rw [sub_add_cancel] at htriangle
    linarith
  have hround := round_within near hsum large
  have htriangle := abs_sub_le (nextEma round p b)
    (round (round (3 / 5) * p) + round (round (2 / 5) * round (b : ℚ)))
    (3 / 5 * p + 2 / 5 * (b : ℚ))
  show |nextEma round p b - (3 / 5 * p + 2 / 5 * (b : ℚ))| ≤ 17 * (u * m)
  rw [nextEma] at htriangle ⊢
  linarith

end

/-! ## A run of calls -/

section

variable (cfg : OpenAiConfig) (u top : ℚ)

/-- Two evaluators stand together: their averages are `128 * u` apart, in the scale of the
largest window, and clock and verdict are the same. -/
structure Together (rounded exact : ThroughputStep) : Prop where
  average : |rounded.ema - exact.ema| ≤ 128 * (u * (top + 1))
  bounded : |exact.ema| ≤ top
  clock : rounded.starvedSince = exact.starvedSince
  verdict : rounded.starved = exact.starved

/-- The average is further from the floor than rounding can carry it. -/
def Decided (average : ℚ) : Prop :=
  256 * (u * (top + 1)) < |average - cfg.throughputFloorBps|

variable {cfg u top} {round : ℚ → ℚ} (near : ∀ x, |round x - x| ≤ u * (|x| + 1))
variable (floorLe : (cfg.throughputFloorBps : ℚ) ≤ top)
include near floorLe

/-- On a decided average, both evaluators find the same of the floor. -/
theorem below_iff {rounded exact : ℚ} (close : |rounded - exact| ≤ 128 * (u * (top + 1)))
    (decided : Decided cfg u top exact) :
    rounded < round cfg.throughputFloorBps ↔ exact < cfg.throughputFloorBps := by
  have hu := roundoff_nonneg near
  have hfloor : |round cfg.throughputFloorBps - cfg.throughputFloorBps| ≤ u * (top + 1) := by
    refine (near _).trans (mul_le_mul_of_nonneg_left ?_ hu)
    rw [Nat.abs_cast]
    exact add_le_add_left floorLe 1
  have hscale : 0 ≤ u * (top + 1) :=
    mul_nonneg hu (add_nonneg ((Nat.cast_nonneg _).trans floorLe) zero_le_one)
  rw [abs_le] at close hfloor
  rw [Decided, lt_abs] at decided
  constructor
  · intro h
    rcases decided with h' | h' <;> linarith
  · intro h
    rcases decided with h' | h' <;> linarith

variable (small : u ≤ 1 / 128)
include small

theorem Together.next {rounded exact : ThroughputStep} (h : Together u top rounded exact)
    {call : Call} (le : (call.bytesThisWindow : ℚ) ≤ top)
    (decided : call.warmed = true → Decided cfg u top (exact.nextWith cfg id call).ema) :
    Together u top (rounded.nextWith cfg round call) (exact.nextWith cfg id call) := by
  have hu := roundoff_nonneg near
  have htop : 0 ≤ top := (Nat.cast_nonneg _).trans floorLe
  have hut : u * (top + 1) ≤ 1 / 128 * (top + 1) :=
    mul_le_mul_of_nonneg_right small (by linarith)
  have hexact : |nextEma id exact.ema call.bytesThisWindow| ≤ top := by
    show |3 / 5 * exact.ema + 2 / 5 * (call.bytesThisWindow : ℚ)| ≤ top
    have hbounded := abs_le.mp h.bounded
    have hbytes : (0 : ℚ) ≤ call.bytesThisWindow := Nat.cast_nonneg _
    exact abs_le.mpr ⟨by linarith, by linarith⟩
  have hrounded : |rounded.ema| ≤ 2 * top + 1 := by
    have htriangle := abs_add_le (rounded.ema - exact.ema) exact.ema
    rw [sub_add_cancel] at htriangle
    linarith [h.average, h.bounded]
  have herror := nextEma_error near small (by linarith : 1 ≤ 2 * top + 1) hrounded
    (by linarith : (call.bytesThisWindow : ℚ) ≤ 2 * top + 1)
  have hcarried : |nextEma id rounded.ema call.bytesThisWindow -
      nextEma id exact.ema call.bytesThisWindow| = 3 / 5 * |rounded.ema - exact.ema| := by
    have hdifference : nextEma id rounded.ema call.bytesThisWindow -
        nextEma id exact.ema call.bytesThisWindow = 3 / 5 * (rounded.ema - exact.ema) := by
      simp only [nextEma, id_eq]
      ring
    rw [hdifference, abs_mul, abs_of_nonneg (by norm_num : (0 : ℚ) ≤ 3 / 5)]
  have haverage : |nextEma round rounded.ema call.bytesThisWindow -
      nextEma id exact.ema call.bytesThisWindow| ≤ 128 * (u * (top + 1)) := by
    have htriangle := abs_sub_le (nextEma round rounded.ema call.bytesThisWindow)
      (nextEma id rounded.ema call.bytesThisWindow) (nextEma id exact.ema call.bytesThisWindow)
    have hscale : u * (2 * top + 1) ≤ u * (2 * (top + 1)) :=
      mul_le_mul_of_nonneg_left (by linarith) hu
    have hnonneg : 0 ≤ u * (top + 1) := mul_nonneg hu (by linarith)
    linarith [h.average]
  have hbelow : (call.warmed = true ∧ nextEma round rounded.ema call.bytesThisWindow <
        round cfg.throughputFloorBps) ↔
      (call.warmed = true ∧ nextEma id exact.ema call.bytesThisWindow <
        id (cfg.throughputFloorBps : ℚ)) := by
    refine and_congr_right fun warmed => below_iff near floorLe haverage ?_
    have hdecided := decided warmed
    rwa [ThroughputStep.nextWith, evalThroughputWith_ema] at hdecided
  refine ⟨?_, ?_, ?_, ?_⟩
  · rw [ThroughputStep.nextWith, ThroughputStep.nextWith, evalThroughputWith_ema,
      evalThroughputWith_ema]
    exact haverage
  · rw [ThroughputStep.nextWith, evalThroughputWith_ema]
    exact hexact
  · rw [ThroughputStep.nextWith, ThroughputStep.nextWith, evalThroughputWith_starvedSince,
      evalThroughputWith_starvedSince, h.clock]
    simp only [hbelow]
  · rw [ThroughputStep.nextWith, ThroughputStep.nextWith, Bool.eq_iff_iff,
      evalThroughputWith_starved_iff, evalThroughputWith_starved_iff, h.clock, ← and_assoc,
      ← and_assoc]
    exact and_congr_left fun _ => hbelow

/-- **Decided averages are evaluated as in exact arithmetic**, run by run. -/
theorem evalRun_together {calls : ℕ → Call} {n : ℕ}
    (le : ∀ k < n, ((calls k).bytesThisWindow : ℚ) ≤ top)
    (decided : ∀ k < n, (calls k).warmed = true → Decided cfg u top
      (evalRun cfg.throughputFloorBps cfg.throughputSustained ⟨0, false, none⟩ calls (k + 1)).ema) :
    Together u top
      (evalCalls cfg round ⟨0, false, none⟩ ((List.range n).map calls))
      (evalRun cfg.throughputFloorBps cfg.throughputSustained ⟨0, false, none⟩ calls n) := by
  have hu := roundoff_nonneg near
  have htop : 0 ≤ top := (Nat.cast_nonneg _).trans floorLe
  induction n with
  | zero =>
      refine ⟨?_, ?_, rfl, rfl⟩
      · show |(0 : ℚ) - 0| ≤ 128 * (u * (top + 1))
        rw [sub_self, abs_zero]
        exact mul_nonneg (by norm_num) (mul_nonneg hu (by linarith))
      · show |(0 : ℚ)| ≤ top
        rwa [abs_zero]
  | succ n ih =>
      have hearlier := ih (fun k hk => le k (Nat.lt_succ_of_lt hk))
        fun k hk => decided k (Nat.lt_succ_of_lt hk)
      rw [List.range_succ, List.map_append, evalCalls_append]
      exact hearlier.next near floorLe small (le n n.lt_succ_self) (decided n n.lt_succ_self)

end

/-! ## An attempt -/

/-- **An attempt starves as in exact arithmetic** unless, at one of its calls, the exact
average lies within the reach of rounding around the floor. -/
theorem attempt_starves_iff_starves (cfg : OpenAiConfig) (serde : SerdeJson) {st : StreamState}
    {now selectPolls : ℕ} {ws : List Wakeup} {calls : ℕ → Call} {n : ℕ}
    (made : callsOf cfg serde (ReadLoop.start st now selectPolls) ws =
      (List.range (n + 1)).map calls) {top : ℚ}
    (floorLe : (cfg.throughputFloorBps : ℚ) ≤ top)
    (le : ∀ k ≤ n, ((calls k).bytesThisWindow : ℚ) ≤ top)
    (decided : ∀ k ≤ n, (calls k).warmed = true → Decided cfg Binary64.unitRoundoff top
      (evalRun cfg.throughputFloorBps cfg.throughputSustained ⟨0, false, none⟩ calls (k + 1)).ema) :
    (run (wakeupStep cfg serde) (ReadLoop.start st now selectPolls) ws).stop =
        some (starvedEnd cfg) ↔
      Starves cfg.throughputFloorBps cfg.throughputSustained ⟨0, false, none⟩ calls n := by
  have hsmall : Binary64.unitRoundoff ≤ 1 / 128 := by
    rw [Binary64.unitRoundoff]
    norm_num
  have htogether := evalRun_together Binary64.round_error floorLe hsmall
    (fun k hk => le k (Nat.le_of_lt_succ hk)) fun k hk => decided k (Nat.le_of_lt_succ hk)
  rw [attempt_starves_iff, made, htogether.verdict]
  rfl

/-- Silence is always decided: without content the exact average is zero, which is the whole
floor away from it. -/
theorem silent_attempt_starves_iff (cfg : OpenAiConfig) (serde : SerdeJson) {st : StreamState}
    {now selectPolls : ℕ} {ws : List Wakeup} {calls : ℕ → Call} {n : ℕ}
    (made : callsOf cfg serde (ReadLoop.start st now selectPolls) ws =
      (List.range (n + 1)).map calls)
    (silent : ∀ k ≤ n, (calls k).bytesThisWindow = 0) (floored : 0 < cfg.throughputFloorBps) :
    (run (wakeupStep cfg serde) (ReadLoop.start st now selectPolls) ws).stop =
        some (starvedEnd cfg) ↔
      Starves cfg.throughputFloorBps cfg.throughputSustained ⟨0, false, none⟩ calls n := by
  have hone : (1 : ℚ) ≤ cfg.throughputFloorBps := by exact_mod_cast floored
  refine attempt_starves_iff_starves cfg serde made le_rfl (fun k hk => ?_) fun k hk _ => ?_
  · rw [silent k hk, Nat.cast_zero]
    exact Nat.cast_nonneg _
  · have hzero : (evalRun cfg.throughputFloorBps cfg.throughputSustained ⟨0, false, none⟩ calls
        (k + 1)).ema = 0 := by
      rw [ema_of_zero, Smoothing.weighted, Finset.sum_eq_zero, mul_zero]
      intro j hj
      rw [windows, silent j ((Nat.le_of_lt_succ (Finset.mem_range.mp hj)).trans hk),
        Nat.cast_zero, mul_zero]
    rw [Decided, hzero, zero_sub, abs_neg, Nat.abs_cast, Binary64.unitRoundoff]
    linarith

end RarChat
