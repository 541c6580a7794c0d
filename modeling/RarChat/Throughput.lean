import Mathlib.Tactic.Common
import RarChat.Library.Binary64

/-!
# The throughput evaluator

`eval_throughput`, evaluated once a second on the content bytes of the last
window.  The source computes with `f64`: `evalThroughputWith` takes the rounding
that each operation does to its exact result, and the read loop runs it with
`Binary64.round`.  `evalThroughput` is the evaluator without rounding, on which
the properties of the moving average itself are stated; `Precision` says how far
apart the two are.
-/

namespace RarChat

/-- The average, the verdict, and the instant at which starvation began. -/
structure ThroughputStep where
  ema : ℚ
  starved : Bool
  starvedSince : Option ℕ
deriving DecidableEq, Repr

/-- `0.6 * prev_ema + 0.4 * bytes_this_window as f64`; the two literals, the
conversion, the products and the sum are rounded. -/
def nextEma (round : ℚ → ℚ) (prevEma : ℚ) (bytesThisWindow : ℕ) : ℚ :=
  round (round (round (3 / 5) * prevEma) +
    round (round (2 / 5) * round (bytesThisWindow : ℚ)))

def evalThroughputWith (round : ℚ → ℚ) (prevEma : ℚ) (bytesThisWindow floorBps : ℕ)
    (warmed : Bool) (starvedSince : Option ℕ) (nowSinceStart sustained : ℕ) :
    ThroughputStep :=
  let ema := nextEma round prevEma bytesThisWindow
  if warmed = true ∧ ema < round (floorBps : ℚ) then
    let since := starvedSince.getD nowSinceStart
    ⟨ema, sustained ≤ nowSinceStart - since, some since⟩
  else ⟨ema, false, none⟩

/-- The evaluator without rounding. -/
def evalThroughput (prevEma : ℚ) (bytesThisWindow floorBps : ℕ) (warmed : Bool)
    (starvedSince : Option ℕ) (nowSinceStart sustained : ℕ) : ThroughputStep :=
  let ema := 3 / 5 * prevEma + 2 / 5 * (bytesThisWindow : ℚ)
  if warmed = true ∧ ema < (floorBps : ℚ) then
    let since := starvedSince.getD nowSinceStart
    ⟨ema, sustained ≤ nowSinceStart - since, some since⟩
  else ⟨ema, false, none⟩

theorem evalThroughputWith_id : evalThroughputWith id = evalThroughput := rfl

/-- Rounding keeps an average below a floor that it would have come back to: one
window of 15 bytes, one of a single byte, and then the floor itself, forty times. -/
example : (15 :: 1 :: List.replicate 40 4).foldl (nextEma Binary64.round) 0 < 4 ∧
    (15 :: 1 :: List.replicate 40 4).foldl (nextEma id) 0 = 4 := by
  decide +kernel

section

variable {round : ℚ → ℚ} {prevEma : ℚ} {bytesThisWindow floorBps : ℕ} {warmed : Bool}
variable {starvedSince : Option ℕ} {nowSinceStart sustained : ℕ}

@[simp] theorem evalThroughputWith_ema :
    (evalThroughputWith round prevEma bytesThisWindow floorBps warmed starvedSince
        nowSinceStart sustained).ema = nextEma round prevEma bytesThisWindow := by
  unfold evalThroughputWith
  dsimp only
  split_ifs <;> rfl

/-- A call below the floor holds the clock, or arms it; every other call disarms it. -/
theorem evalThroughputWith_starvedSince :
    (evalThroughputWith round prevEma bytesThisWindow floorBps warmed starvedSince
        nowSinceStart sustained).starvedSince =
      if warmed = true ∧ nextEma round prevEma bytesThisWindow < round (floorBps : ℚ) then
        some (starvedSince.getD nowSinceStart)
      else none := by
  unfold evalThroughputWith
  dsimp only
  split_ifs <;> rfl

/-- **When the evaluator declares starvation.** -/
theorem evalThroughputWith_starved_iff :
    (evalThroughputWith round prevEma bytesThisWindow floorBps warmed starvedSince
        nowSinceStart sustained).starved = true ↔
      warmed = true ∧ nextEma round prevEma bytesThisWindow < round (floorBps : ℚ) ∧
        sustained ≤ nowSinceStart - starvedSince.getD nowSinceStart := by
  unfold evalThroughputWith
  dsimp only
  split_ifs with hbelow
  · rw [decide_eq_true_iff, ← and_assoc]
    exact (and_iff_right hbelow).symm
  · refine iff_of_false (by simp) fun h => hbelow ⟨h.1, h.2.1⟩

theorem evalThroughput_starved_iff :
    (evalThroughput prevEma bytesThisWindow floorBps warmed starvedSince nowSinceStart
        sustained).starved = true ↔
      warmed = true ∧ 3 / 5 * prevEma + 2 / 5 * (bytesThisWindow : ℚ) < (floorBps : ℚ) ∧
        sustained ≤ nowSinceStart - starvedSince.getD nowSinceStart := by
  rw [← evalThroughputWith_id]
  exact evalThroughputWith_starved_iff

end

/-- A float as `u64`: truncated, and saturated at both ends. -/
def saturatingU64 (x : ℚ) : ℕ := min x.floor.toNat 18446744073709551615

end RarChat
