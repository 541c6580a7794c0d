import Mathlib.Data.List.Infix
import Mathlib.Tactic.Common

/-!
# A log behind a buffer

A writer that appends to a file through a buffer.  What it is given waits in the buffer
until that is full or is flushed, so the file is behind: a process that is killed leaves
the file, and the buffer is lost with it.

The file and the buffer together are always what was given (`text_performAll`), so
whatever a crash leaves is a prefix of it, and it reaches at least up to the last flush
(`given_isPrefix_file`).  When lines were given, each closed by a symbol that no line has,
the lines that are complete in a prefix are the first ones
(`completeLines_of_isPrefix`): a torn line costs no other.
-/

namespace AppendLog

universe u

variable {α : Type u}

/-! ## The buffer -/

/-- What the file holds, and what waits in the buffer. -/
structure Writer (α : Type u) where
  capacity : ℕ
  file : List α
  buffer : List α
  fits : buffer.length ≤ capacity

namespace Writer

def create (capacity : ℕ) : Writer α := ⟨capacity, [], [], Nat.zero_le _⟩

/-- All that was given to the writer. -/
def text (w : Writer α) : List α := w.file ++ w.buffer

def flush (w : Writer α) : Writer α := ⟨w.capacity, w.text, [], Nat.zero_le _⟩

/-- Flush if there is no room for so many symbols. -/
def makeRoom (w : Writer α) (n : ℕ) : Writer α :=
  if w.capacity - w.buffer.length < n then w.flush else w

theorem makeRoom_fits (w : Writer α) {n : ℕ} (small : n < w.capacity) :
    (w.makeRoom n).buffer.length + n ≤ w.capacity := by
  have hfits := w.fits
  unfold makeRoom
  split_ifs with h
  · show 0 + n ≤ w.capacity
    rw [Nat.zero_add]
    exact Nat.le_of_lt small
  · omega

/-- Behind making room for as much as the buffer holds, it is empty. -/
theorem makeRoom_empty (w : Writer α) {n : ℕ} (large : w.capacity ≤ n) :
    (w.makeRoom n).buffer = [] := by
  have hfits := w.fits
  unfold makeRoom
  split_ifs with h
  · rfl
  · exact List.eq_nil_of_length_eq_zero (by omega)

/-- Append: into the buffer, or past it when it could not hold so much. -/
def append (w : Writer α) (xs : List α) : Writer α :=
  if small : xs.length < w.capacity then
    ⟨w.capacity, (w.makeRoom xs.length).file, (w.makeRoom xs.length).buffer ++ xs, by
      rw [List.length_append]
      exact w.makeRoom_fits small⟩
  else ⟨w.capacity, (w.makeRoom xs.length).file ++ xs, [], Nat.zero_le _⟩

end Writer

/-- What is done to a writer. -/
inductive Op (α : Type u)
  | append (xs : List α)
  | flush
deriving DecidableEq, Repr

/-- What an operation gives. -/
def Op.given : Op α → List α
  | .append xs => xs
  | .flush => []

/-- What operations give, in order. -/
def given (ops : List (Op α)) : List α := ops.flatMap Op.given

theorem given_append (ops more : List (Op α)) : given (ops ++ more) = given ops ++ given more :=
  List.flatMap_append

namespace Writer

def perform (w : Writer α) : Op α → Writer α
  | .append xs => w.append xs
  | .flush => w.flush

def performAll (w : Writer α) (ops : List (Op α)) : Writer α := ops.foldl perform w

theorem performAll_append (w : Writer α) (ops more : List (Op α)) :
    w.performAll (ops ++ more) = (w.performAll ops).performAll more := List.foldl_append

theorem text_makeRoom (w : Writer α) (n : ℕ) : (w.makeRoom n).text = w.text := by
  unfold makeRoom
  split_ifs
  · exact List.append_nil _
  · rfl

theorem text_perform (w : Writer α) (op : Op α) : (w.perform op).text = w.text ++ op.given := by
  cases op with
  | flush => rfl
  | append xs =>
      have htext := w.text_makeRoom xs.length
      simp only [perform, append, Op.given]
      split_ifs with small
      · rw [← htext]
        exact (List.append_assoc _ _ _).symm
      · rw [text, w.makeRoom_empty (Nat.not_lt.mp small), List.append_nil] at htext
        rw [← htext]
        exact List.append_nil _

/-- **File and buffer together are what was given.** -/
theorem text_performAll (w : Writer α) (ops : List (Op α)) :
    (w.performAll ops).text = w.text ++ given ops := by
  induction ops generalizing w with
  | nil => exact (List.append_nil _).symm
  | cons op ops ih =>
      show ((w.perform op).performAll ops).text = _
      rw [ih, text_perform, List.append_assoc]
      rfl

theorem file_isPrefix_text (w : Writer α) : w.file <+: w.text := List.prefix_append _ _

theorem file_isPrefix_makeRoom (w : Writer α) (n : ℕ) : w.file <+: (w.makeRoom n).file := by
  unfold makeRoom
  split_ifs
  · exact w.file_isPrefix_text
  · exact List.prefix_rfl

theorem file_isPrefix_perform (w : Writer α) (op : Op α) : w.file <+: (w.perform op).file := by
  cases op with
  | flush => exact w.file_isPrefix_text
  | append xs =>
      have hroom := w.file_isPrefix_makeRoom xs.length
      simp only [perform, append]
      split_ifs
      · exact hroom
      · exact hroom.trans (List.prefix_append _ _)

/-- **The file only grows.** -/
theorem file_isPrefix_performAll (w : Writer α) (ops : List (Op α)) :
    w.file <+: (w.performAll ops).file := by
  induction ops generalizing w with
  | nil => exact List.prefix_rfl
  | cons op ops ih => exact (w.file_isPrefix_perform op).trans (ih _)

/-- **What was given before a flush is in the file** behind it. -/
theorem given_isPrefix_file (w : Writer α) (before after : List (Op α)) :
    w.text ++ given before <+: (w.performAll (before ++ .flush :: after)).file := by
  rw [performAll_append, ← text_performAll]
  exact ((w.performAll before).flush).file_isPrefix_performAll after

/-- The file is never ahead of what was given. -/
theorem file_isPrefix_given (w : Writer α) (ops : List (Op α)) :
    (w.performAll ops).file <+: w.text ++ given ops :=
  w.text_performAll ops ▸ file_isPrefix_text _

end Writer

/-! ## Lines -/

/-- The lines, each closed by the symbol. -/
def writeLines (feed : α) (lines : List (List α)) : List α := lines.flatMap (· ++ [feed])

theorem writeLines_append (feed : α) (lines more : List (List α)) :
    writeLines feed (lines ++ more) = writeLines feed lines ++ writeLines feed more :=
  List.flatMap_append

variable [DecidableEq α]

/-- The complete lines of a text whose first line has begun already. -/
def linesFrom (feed : α) : List α → List α → List (List α)
  | _, [] => []
  | begun, a :: text =>
      if a = feed then begun :: linesFrom feed [] text else linesFrom feed (begun ++ [a]) text

/-- The complete lines of a text; what stands behind the last symbol is none. -/
def completeLines (feed : α) (text : List α) : List (List α) := linesFrom feed [] text

variable {feed : α}

theorem linesFrom_of_notMem {text : List α} (unclosed : feed ∉ text) (begun : List α) :
    linesFrom feed begun text = [] := by
  induction text generalizing begun with
  | nil => rfl
  | cons a text ih =>
      rw [List.mem_cons, not_or] at unclosed
      rw [linesFrom, if_neg (Ne.symm unclosed.1), ih unclosed.2]

theorem linesFrom_append {line : List α} (clean : feed ∉ line) (begun text : List α) :
    linesFrom feed begun (line ++ feed :: text) = (begun ++ line) :: linesFrom feed [] text := by
  induction line generalizing begun with
  | nil => rw [List.nil_append, linesFrom, if_pos rfl, List.append_nil]
  | cons a line ih =>
      rw [List.mem_cons, not_or] at clean
      rw [List.cons_append, linesFrom, if_neg (Ne.symm clean.1), ih clean.2,
        List.append_assoc, List.singleton_append]

/-- **The complete lines of a prefix are the first ones**: at least those that it
contains. -/
theorem completeLines_of_isPrefix {lines : List (List α)} (clean : ∀ l ∈ lines, feed ∉ l)
    {text : List α} (start : text <+: writeLines feed lines) :
    ∃ k ≤ lines.length, completeLines feed text = lines.take k ∧
      ∀ m ≤ lines.length, writeLines feed (lines.take m) <+: text → m ≤ k := by
  induction lines generalizing text with
  | nil =>
      obtain rfl := List.prefix_nil.mp start
      exact ⟨0, Nat.le_refl _, rfl, fun m hm _ => hm⟩
  | cons l lines ih =>
      obtain ⟨hl, hlines⟩ := List.forall_mem_cons.mp clean
      have hwrite : writeLines feed (l :: lines) = l ++ feed :: writeLines feed lines := by
        simp [writeLines]
      rw [hwrite] at start
      by_cases hinside : text.length ≤ l.length
      · -- the text ends inside the first line
        have htext := (List.isPrefix_append_of_length hinside).mp start
        refine ⟨0, Nat.zero_le _, ?_, fun m hm hcontains => ?_⟩
        · exact linesFrom_of_notMem (fun hmem => hl (htext.subset hmem)) []
        · cases m with
          | zero => exact Nat.le_refl _
          | succ m =>
              have hlength := hcontains.length_le
              simp only [List.take_succ_cons, writeLines, List.flatMap_cons, List.length_append,
                List.length_singleton] at hlength
              omega
      · have hfirst : l ++ [feed] <+: text := by
          refine List.prefix_of_prefix_length_le ?_ start ?_
          · exact ⟨writeLines feed lines, by rw [List.append_assoc, List.singleton_append]⟩
          · rw [List.length_append, List.length_singleton]
            omega
        obtain ⟨rest, rfl⟩ := hfirst
        rw [List.append_assoc, List.singleton_append] at start ⊢
        have hrest : rest <+: writeLines feed lines := by
          have := (List.prefix_append_right_inj l).mp start
          exact (List.cons_prefix_cons.mp this).2
        obtain ⟨k, hk, hcomplete, hmost⟩ := ih hlines hrest
        refine ⟨k + 1, Nat.succ_le_succ hk, ?_, fun m hm hcontains => ?_⟩
        · rw [completeLines, linesFrom_append hl, List.take_succ_cons, ← hcomplete]
          rfl
        · cases m with
          | zero => exact Nat.zero_le _
          | succ m =>
              refine Nat.succ_le_succ (hmost m (Nat.le_of_succ_le_succ hm) ?_)
              have htake : writeLines feed ((l :: lines).take (m + 1)) =
                  l ++ feed :: writeLines feed (lines.take m) := by
                simp [writeLines]
              rw [htake] at hcontains
              exact (List.cons_prefix_cons.mp
                ((List.prefix_append_right_inj l).mp hcontains)).2

end AppendLog
