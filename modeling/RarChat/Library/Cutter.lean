import Mathlib.Data.List.Basic
import Mathlib.Tactic.Common

/-!
# Cutting a stream into frames

A stream of symbols is cut at terminators.  `Cutter.next` looks at a buffer and
says where its first frame ends and how long the terminator there is.  What a
reassembly loop needs of it is one law, `Cutter.stable`: **a cut found in a
buffer is the cut found in every longer buffer**.  From it, cutting is
independent of how the stream is delivered (`cut_append`): what the first part
cuts off stays cut off, and the rest of the first part continues with the
second one.
-/

universe u

/-- A rule that finds the first frame of a buffer: the length of the frame and
the length of the terminator behind it. -/
structure Cutter (α : Type u) where
  next : List α → Option (ℕ × ℕ)
  /-- A terminator is not empty. -/
  sep_pos : ∀ {xs e k}, next xs = some (e, k) → 0 < k
  /-- The frame and its terminator lie in the buffer. -/
  fits : ∀ {xs e k}, next xs = some (e, k) → e + k ≤ xs.length
  /-- Later symbols never change a cut. -/
  stable : ∀ {xs c}, next xs = some c → ∀ ys, next (xs ++ ys) = some c

namespace Cutter

variable {α : Type u} (C : Cutter α)

/-- A frame as it was cut off: its symbols and its terminator. -/
structure Piece (α : Type u) where
  block : List α
  sep : List α
deriving DecidableEq, Repr

/-- All symbols of a piece. -/
def Piece.symbols (p : Piece α) : List α := p.block ++ p.sep

/-- Cut at most `fuel` frames off a buffer. -/
def cutFuel : ℕ → List α → List (Piece α) × List α
  | 0, xs => ([], xs)
  | fuel + 1, xs =>
      match C.next xs with
      | none => ([], xs)
      | some (e, k) =>
          let later := cutFuel fuel (xs.drop (e + k))
          (⟨xs.take e, (xs.drop e).take k⟩ :: later.1, later.2)

/-- Cut a buffer: the frames in it, in order, and the rest without a frame. -/
def cut (xs : List α) : List (Piece α) × List α := C.cutFuel xs.length xs

/-- The frames of a buffer. -/
def frames (xs : List α) : List (Piece α) := (C.cut xs).1

/-- What is left behind the last frame. -/
def rest (xs : List α) : List α := (C.cut xs).2

theorem drop_length_lt {xs : List α} {e k : ℕ} (h : C.next xs = some (e, k)) :
    (xs.drop (e + k)).length < xs.length := by
  have pos := C.sep_pos h
  have fits := C.fits h
  rw [List.length_drop]
  omega

/-- Fuel beyond the length of the buffer changes nothing. -/
theorem cutFuel_eq_cut (fuel : ℕ) (xs : List α) (enough : xs.length ≤ fuel) :
    C.cutFuel fuel xs = C.cut xs := by
  induction fuel using Nat.strongRecOn generalizing xs with
  | ind fuel ih =>
      rw [cut]
      cases hnext : C.next xs with
      | none => cases fuel <;> cases xs <;> simp [cutFuel, hnext]
      | some c =>
          obtain ⟨e, k⟩ := c
          have shorter := C.drop_length_lt hnext
          obtain ⟨f, rfl⟩ : ∃ f, fuel = f + 1 := ⟨fuel - 1, by omega⟩
          obtain ⟨n, hn⟩ : ∃ n, xs.length = n + 1 := ⟨xs.length - 1, by omega⟩
          have hf := ih f (by omega) (xs.drop (e + k)) (by omega)
          have hlen : C.cutFuel n (xs.drop (e + k)) = C.cut (xs.drop (e + k)) := by
            rcases Nat.lt_or_ge n (f + 1) with lt | ge
            · exact ih n lt _ (by omega)
            · have : n = f := by omega
              rw [this, hf]
          rw [hn]
          simp [cutFuel, hnext, hf, hlen]

theorem cut_of_none {xs : List α} (h : C.next xs = none) : C.cut xs = ([], xs) := by
  rw [cut]
  cases xs <;> simp [cutFuel, h]

theorem cut_of_some {xs : List α} {e k : ℕ} (h : C.next xs = some (e, k)) :
    C.cut xs =
      (⟨xs.take e, (xs.drop e).take k⟩ :: C.frames (xs.drop (e + k)),
        C.rest (xs.drop (e + k))) := by
  have shorter := C.drop_length_lt h
  obtain ⟨n, hn⟩ : ∃ n, xs.length = n + 1 := ⟨xs.length - 1, by omega⟩
  rw [cut, hn]
  simp only [cutFuel, h, C.cutFuel_eq_cut n (xs.drop (e + k)) (by omega)]
  rfl

theorem frames_of_none {xs : List α} (h : C.next xs = none) : C.frames xs = [] := by
  rw [frames, C.cut_of_none h]

theorem rest_of_none {xs : List α} (h : C.next xs = none) : C.rest xs = xs := by
  rw [rest, C.cut_of_none h]

theorem frames_of_some {xs : List α} {e k : ℕ} (h : C.next xs = some (e, k)) :
    C.frames xs = ⟨xs.take e, (xs.drop e).take k⟩ :: C.frames (xs.drop (e + k)) := by
  rw [frames, C.cut_of_some h]

theorem rest_of_some {xs : List α} {e k : ℕ} (h : C.next xs = some (e, k)) :
    C.rest xs = C.rest (xs.drop (e + k)) := by
  rw [rest, C.cut_of_some h]

/-- **Induction along the cuts of a buffer.** -/
theorem cut_induction {motive : List α → Prop}
    (done : ∀ xs, C.next xs = none → motive xs)
    (step : ∀ xs e k, C.next xs = some (e, k) → motive (xs.drop (e + k)) → motive xs)
    (xs : List α) : motive xs := by
  induction hn : xs.length using Nat.strongRecOn generalizing xs with
  | ind n ih =>
      cases h : C.next xs with
      | none => exact done xs h
      | some c =>
          obtain ⟨e, k⟩ := c
          have shorter := C.drop_length_lt h
          exact step xs e k h (ih _ (by omega) _ rfl)

/-- Nothing is left to cut in the rest. -/
theorem next_rest (xs : List α) : C.next (C.rest xs) = none := by
  induction xs using C.cut_induction with
  | done xs h => rw [C.rest_of_none h, h]
  | step xs e k h ih => rw [C.rest_of_some h, ih]

@[simp] theorem frames_rest (xs : List α) : C.frames (C.rest xs) = [] :=
  C.frames_of_none (C.next_rest xs)

@[simp] theorem rest_rest (xs : List α) : C.rest (C.rest xs) = C.rest xs :=
  C.rest_of_none (C.next_rest xs)

/-- **Cutting loses nothing**: the pieces and the rest, in order, are the
buffer. -/
theorem symbols_append_rest (xs : List α) :
    ((C.frames xs).map Piece.symbols).flatten ++ C.rest xs = xs := by
  induction xs using C.cut_induction with
  | done xs h => simp [C.frames_of_none h, C.rest_of_none h]
  | step xs e k h ih =>
      have split : xs.take e ++ ((xs.drop e).take k ++ xs.drop (e + k)) = xs := by
        rw [← List.drop_drop, List.take_append_drop, List.take_append_drop]
      rw [C.frames_of_some h, C.rest_of_some h]
      simp only [List.map_cons, List.flatten_cons, Piece.symbols, List.append_assoc]
      rw [← List.append_assoc, List.append_assoc, ih]
      exact split

/-- **Cutting is independent of delivery.**  The frames of a concatenation are
those of its first part followed by those found once the second part arrives
behind the first part's rest. -/
theorem cut_append (xs ys : List α) :
    C.frames (xs ++ ys) = C.frames xs ++ C.frames (C.rest xs ++ ys) ∧
      C.rest (xs ++ ys) = C.rest (C.rest xs ++ ys) := by
  induction xs using C.cut_induction with
  | done xs h => simp [C.frames_of_none h, C.rest_of_none h]
  | step xs e k h ih =>
      have fits := C.fits h
      have hlong := C.stable h ys
      have hdrop : (xs ++ ys).drop (e + k) = xs.drop (e + k) ++ ys :=
        List.drop_append_of_le_length fits
      have htake : (xs ++ ys).take e = xs.take e :=
        List.take_append_of_le_length (by omega)
      have hsep : ((xs ++ ys).drop e).take k = (xs.drop e).take k := by
        rw [List.drop_append_of_le_length (by omega)]
        exact List.take_append_of_le_length (by rw [List.length_drop]; omega)
      rw [C.frames_of_some hlong, C.rest_of_some hlong, C.frames_of_some h,
        C.rest_of_some h, hdrop, htake, hsep, ih.1, ih.2]
      exact ⟨rfl, rfl⟩

theorem frames_append (xs ys : List α) :
    C.frames (xs ++ ys) = C.frames xs ++ C.frames (C.rest xs ++ ys) :=
  (C.cut_append xs ys).1

theorem rest_append (xs ys : List α) :
    C.rest (xs ++ ys) = C.rest (C.rest xs ++ ys) :=
  (C.cut_append xs ys).2

/-! ## Where the pieces lie -/

/-- Each piece with its position, the first of them at `n`. -/
def locate (n : ℕ) : List (Piece α) → List (ℕ × Piece α)
  | [] => []
  | p :: ps => (n, p) :: locate (n + p.symbols.length) ps

theorem locate_append (n : ℕ) (ps qs : List (Piece α)) :
    locate n (ps ++ qs) =
      locate n ps ++ locate (n + (ps.map Piece.symbols).flatten.length) qs := by
  induction ps generalizing n with
  | nil => rfl
  | cons p ps ih =>
      rw [List.cons_append, locate, ih, locate, List.map_cons, List.flatten_cons,
        List.length_append, Nat.add_assoc, List.cons_append]

theorem map_locate_snd (n : ℕ) (ps : List (Piece α)) : (locate n ps).map Prod.snd = ps := by
  induction ps generalizing n with
  | nil => rfl
  | cons p ps ih => rw [locate, List.map_cons, ih]

/-- The pieces and the rest are as long as the buffer. -/
theorem length_frames_add_rest (xs : List α) :
    ((C.frames xs).map Piece.symbols).flatten.length + (C.rest xs).length = xs.length := by
  rw [← List.length_append, C.symbols_append_rest]

theorem locate_within {n m : ℕ} {ps : List (Piece α)} {p : Piece α}
    (mem : (m, p) ∈ locate n ps) :
    n ≤ m ∧ m + p.symbols.length ≤ n + (ps.map Piece.symbols).flatten.length := by
  induction ps generalizing n with
  | nil => cases mem
  | cons q ps ih =>
      rw [List.map_cons, List.flatten_cons, List.length_append]
      rcases List.mem_cons.mp mem with heq | mem
      · obtain ⟨rfl, rfl⟩ := Prod.mk.inj heq
        omega
      · have hlater := ih mem
        omega

theorem symbols_length_of_cut {xs : List α} {e k : ℕ} (h : C.next xs = some (e, k)) :
    (Piece.symbols ⟨xs.take e, (xs.drop e).take k⟩).length = e + k := by
  have fits := C.fits h
  simp only [Piece.symbols, List.length_append, List.length_take, List.length_drop]
  omega

/-- A piece is not empty: its terminator is not. -/
theorem symbols_pos {xs : List α} {p : Piece α} (mem : p ∈ C.frames xs) :
    0 < p.symbols.length := by
  induction xs using C.cut_induction with
  | done xs h =>
      rw [C.frames_of_none h] at mem
      cases mem
  | step xs e k h ih =>
      rw [C.frames_of_some h] at mem
      rcases List.mem_cons.mp mem with rfl | mem
      · rw [C.symbols_length_of_cut h]
        exact Nat.add_pos_right e (C.sep_pos h)
      · exact ih mem

/-- **New pieces end in what is new**, if that holds of the first cut. -/
theorem locate_late {xs ys : List α}
    (late : ∀ e k, C.next (xs ++ ys) = some (e, k) → xs.length < e + k) {n m : ℕ}
    {p : Piece α} (mem : (m, p) ∈ locate n (C.frames (xs ++ ys))) :
    n + xs.length < m + p.symbols.length := by
  cases hnext : C.next (xs ++ ys) with
  | none =>
      rw [C.frames_of_none hnext] at mem
      cases mem
  | some c =>
      obtain ⟨e, k⟩ := c
      have hlate := late e k hnext
      have hlength := C.symbols_length_of_cut hnext
      rw [C.frames_of_some hnext] at mem
      rcases List.mem_cons.mp mem with heq | mem
      · obtain ⟨rfl, rfl⟩ := Prod.mk.inj heq
        omega
      · have hlater := (locate_within mem).1
        omega

end Cutter
