import Mathlib.Data.List.Basic
import Mathlib.Tactic.Common

/-!
# Positions in a chunked stream

A stream that arrives in chunks, numbered from one.  `Holds chunks i pos` says that the
`i`-th chunk holds the symbol at position `pos` of the stream; each position is held by
one chunk, and later positions by no earlier one.  When no chunk is empty, a stretch of
the stream draws on exactly the chunks from the one that holds its first position to the
one that holds its last (`draws_iff`).
-/

universe u

namespace Chunks

variable {α : Type u}

/-- How many symbols the first `n` chunks have. -/
def offset (chunks : List (List α)) (n : ℕ) : ℕ := (chunks.take n).flatten.length

/-- The `i`-th chunk, counted from one, holds the position. -/
def Holds (chunks : List (List α)) (i pos : ℕ) : Prop :=
  ∃ n, i = n + 1 ∧ offset chunks n ≤ pos ∧ pos < offset chunks (n + 1)

/-- The stretch from `start` up to `stop` has a symbol of the `i`-th chunk. -/
def Draws (chunks : List (List α)) (start stop i : ℕ) : Prop :=
  ∃ pos, start ≤ pos ∧ pos < stop ∧ Holds chunks i pos

variable {chunks : List (List α)} {i j k pos : ℕ}

theorem offset_length (chunks : List (List α)) :
    offset chunks chunks.length = chunks.flatten.length := by
  rw [offset, List.take_length]

theorem offset_succ (chunks : List (List α)) (n : ℕ) :
    offset chunks (n + 1) = offset chunks n + (chunks[n]?.getD []).length := by
  rw [offset, offset, List.take_add_one, List.flatten_append, List.length_append]
  cases chunks[n]? <;> simp

theorem offset_mono {m n : ℕ} (h : m ≤ n) : offset chunks m ≤ offset chunks n := by
  induction h with
  | refl => exact Nat.le_refl _
  | step _ ih =>
      rw [offset_succ]
      exact Nat.le_add_right_of_le ih

/-- A chunk that is there and not empty moves the offset on. -/
theorem offset_lt_succ (nonempty : ∀ chunk ∈ chunks, chunk ≠ []) {n : ℕ}
    (h : n < chunks.length) : offset chunks n < offset chunks (n + 1) := by
  have hpos := List.length_pos_iff.mpr (nonempty _ (List.getElem_mem h))
  rw [offset_succ, List.getElem?_eq_getElem h, Option.getD_some]
  omega

/-- The chunks up to the `n`-th are there before the later ones arrive. -/
theorem offset_append_of_le (more : List (List α)) {n : ℕ} (h : n ≤ chunks.length) :
    offset (chunks ++ more) n = offset chunks n := by
  rw [offset, List.take_append_of_le_length h, offset]

/-- A chunk that holds a position is there. -/
theorem Holds.le_length (h : Holds chunks i pos) : i ≤ chunks.length := by
  obtain ⟨n, rfl, hstart, hstop⟩ := h
  by_contra hlong
  have hn : chunks[n]? = none := List.getElem?_eq_none (by omega)
  rw [offset_succ, hn, Option.getD_none, List.length_nil] at hstop
  omega

/-- A position that is held lies in the stream. -/
theorem Holds.lt_length (h : Holds chunks i pos) : pos < chunks.flatten.length := by
  have hthere := h.le_length
  obtain ⟨n, rfl, hstart, hstop⟩ := h
  rw [← offset_length]
  exact Nat.lt_of_lt_of_le hstop (offset_mono hthere)

/-- Later chunks do not matter to a chunk that is there. -/
theorem Holds.append (h : Holds chunks i pos) (more : List (List α)) :
    Holds (chunks ++ more) i pos := by
  have hthere := h.le_length
  obtain ⟨n, rfl, hstart, hstop⟩ := h
  refine ⟨n, rfl, ?_, ?_⟩
  · rwa [offset_append_of_le more (by omega)]
  · rwa [offset_append_of_le more hthere]

/-- Later positions are held by no earlier chunk. -/
theorem Holds.mono {pos' : ℕ} (h : Holds chunks i pos) (h' : Holds chunks j pos')
    (le : pos ≤ pos') : i ≤ j := by
  obtain ⟨m, rfl, hstart, hstop⟩ := h
  obtain ⟨n, rfl, hstart', hstop'⟩ := h'
  by_contra hgt
  have hoffset : offset chunks (n + 1) ≤ offset chunks m := offset_mono (by omega)
  omega

theorem Holds.unique (h : Holds chunks i pos) (h' : Holds chunks j pos) : i = j :=
  Nat.le_antisymm (h.mono h' (Nat.le_refl _)) (h'.mono h (Nat.le_refl _))

/-- Every position of the stream is held by a chunk. -/
theorem exists_holds (h : pos < chunks.flatten.length) : ∃ i, Holds chunks i pos := by
  have hbelow : ∀ n, pos < offset chunks n → ∃ i, Holds chunks i pos := by
    intro n
    induction n with
    | zero => exact fun hpos => absurd hpos (Nat.not_lt_zero _)
    | succ n ih =>
        intro hpos
        by_cases hearlier : pos < offset chunks n
        · exact ih hearlier
        · exact ⟨n + 1, n, rfl, Nat.not_lt.mp hearlier, hpos⟩
  exact hbelow chunks.length (by rwa [offset_length])

/-- The first chunk holds the first position. -/
theorem holds_first (nonempty : ∀ chunk ∈ chunks, chunk ≠ []) (h : chunks ≠ []) :
    Holds chunks 1 0 :=
  ⟨0, rfl, Nat.le_refl _, offset_lt_succ nonempty (List.length_pos_iff.mpr h)⟩

/-- The last of several chunks holds the positions behind the others. -/
theorem holds_concat (chunk : List α) (h : chunks.flatten.length ≤ pos)
    (h' : pos < (chunks ++ [chunk]).flatten.length) :
    Holds (chunks ++ [chunk]) (chunks.length + 1) pos := by
  refine ⟨chunks.length, rfl, ?_, ?_⟩
  · rwa [offset_append_of_le [chunk] (Nat.le_refl _), offset_length]
  · have hlength : (chunks ++ [chunk]).length = chunks.length + 1 := by simp
    rwa [← hlength, offset_length]

/-- **What a stretch draws on**: the chunks from the one that holds its first position to
the one that holds its last. -/
theorem draws_iff (nonempty : ∀ chunk ∈ chunks, chunk ≠ []) {start stop : ℕ}
    (first : Holds chunks i start) (last : Holds chunks j (stop - 1)) (h : start < stop) :
    Draws chunks start stop k ↔ i ≤ k ∧ k ≤ j := by
  constructor
  · rintro ⟨pos, hstart, hstop, hholds⟩
    exact ⟨first.mono hholds hstart, hholds.mono last (by omega)⟩
  · rintro ⟨hi, hj⟩
    have hthere := last.le_length
    obtain ⟨m, rfl, hm, hm'⟩ := first
    obtain ⟨n, rfl, hn, hn'⟩ := last
    obtain ⟨k, rfl⟩ : ∃ k', k = k' + 1 := ⟨k - 1, by omega⟩
    have hfrom : offset chunks (m + 1) ≤ offset chunks (k + 1) := offset_mono (by omega)
    have hupTo : offset chunks k ≤ offset chunks n := offset_mono (by omega)
    have hchunk := offset_lt_succ nonempty (n := k) (by omega)
    -- its first symbol, or the first one of the stretch
    exact ⟨max start (offset chunks k), by omega, by omega, k, rfl, by omega, by omega⟩

/-- A stretch draws on exactly the chunks from the `i`-th one on when that one holds its
first position. -/
theorem draws_exactly_iff (nonempty : ∀ chunk ∈ chunks, chunk ≠ []) {start stop : ℕ}
    (last : Holds chunks j (stop - 1)) (h : start < stop) :
    (∀ k, Draws chunks start stop k ↔ i ≤ k ∧ k ≤ j) ↔ Holds chunks i start := by
  constructor
  · intro exactly
    have hinside := last.lt_length
    have hstart : start < chunks.flatten.length := by omega
    obtain ⟨m, hm⟩ := exists_holds hstart
    have hrange := fun k => (draws_iff nonempty hm last h).symm.trans (exactly k)
    have hmj := hm.mono last (by omega)
    have him := ((hrange m).mp ⟨Nat.le_refl m, hmj⟩).1
    have hmi := ((hrange i).mpr ⟨Nat.le_refl i, by omega⟩).1
    rwa [Nat.le_antisymm him hmi]
  · intro first k
    exact draws_iff nonempty first last h

end Chunks
