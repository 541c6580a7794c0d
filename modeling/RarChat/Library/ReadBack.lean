import Mathlib.Data.List.Basic
import Mathlib.Tactic.Common

/-!
# Reading back what was written

A reader takes a value from the front of a text and leaves what stands behind it.  It
`ReadsBack` the text that was written for a value when it returns this value and the
rest, whatever the rest is.  A text that does not show by itself where it ends, as that of
a number does not, needs a condition on what follows.

A sequence is written with separators between its items and a symbol that closes it.
When the items read back in front of both symbols, so does the sequence
(`ReadsBack.sequence`).
-/

namespace ReadBack

universe u v w

variable {α : Type u} {β : Type v} {γ : Type w}

/-- Takes a value from the front of a text, and leaves the rest. -/
abbrev Reader (α : Type u) (β : Type v) := List α → Option (β × List α)

/-- **The reader gets the value back** from its text, in front of anything that may
follow. -/
def ReadsBack (follows : List α → Prop) (read : Reader α β) (text : List α) (b : β) : Prop :=
  ∀ rest, follows rest → read (text ++ rest) = some (b, rest)

/-- Read a value and change it. -/
def Reader.map (f : β → γ) (read : Reader α β) : Reader α γ := fun text =>
  (read text).map fun p => (f p.1, p.2)

/-- Read a value, and go on behind it. -/
def Reader.andThen (read : Reader α β) (next : β → Reader α γ) : Reader α γ := fun text =>
  (read text).bind fun p => next p.1 p.2

/-- Read this word and no other. -/
def expect [DecidableEq α] : List α → Reader α Unit
  | [], text => some ((), text)
  | _ :: _, [] => none
  | a :: word, b :: text => if a = b then expect word text else none

variable {follows follows' : List α → Prop} {read : Reader α β} {text text' : List α} {b : β}

theorem ReadsBack.map (h : ReadsBack follows read text b) (f : β → γ) :
    ReadsBack follows (read.map f) text (f b) := by
  intro rest hrest
  rw [Reader.map, h rest hrest, Option.map_some]

/-- One text behind another, which may follow the first. -/
theorem ReadsBack.andThen {next : β → Reader α γ} {c : γ} (h : ReadsBack follows read text b)
    (h' : ReadsBack follows' (next b) text' c)
    (behind : ∀ rest, follows' rest → follows (text' ++ rest)) :
    ReadsBack follows' (read.andThen next) (text ++ text') c := by
  intro rest hrest
  rw [Reader.andThen, List.append_assoc, h _ (behind rest hrest), Option.bind_some]
  exact h' rest hrest

theorem ReadsBack.weaken (h : ReadsBack follows read text b)
    (stronger : ∀ rest, follows' rest → follows rest) : ReadsBack follows' read text b :=
  fun rest hrest => h rest (stronger rest hrest)

variable [DecidableEq α]

theorem readsBack_expect (word : List α) : ReadsBack (fun _ => True) (expect word) word () := by
  intro rest _
  induction word with
  | nil => rfl
  | cons a word ih =>
      rw [List.cons_append, expect, if_pos rfl]
      exact ih

/-! ## Sequences -/

/-- The texts with separators between them, and the closing symbol. -/
def writeSequence (sep close : α) (texts : List (List α)) : List α :=
  [sep].intercalate texts ++ [close]

omit [DecidableEq α] in
/-- A sequence has room for each of its items and a symbol for every item. -/
theorem length_writeSequence (sep close : α) {texts : List (List α)} {text : List α}
    (mem : text ∈ texts) :
    text.length + texts.length ≤ (writeSequence sep close texts).length := by
  induction texts generalizing text with
  | nil => cases mem
  | cons x texts ih =>
      cases texts with
      | nil =>
          obtain rfl := List.mem_singleton.mp mem
          simp [writeSequence]
      | cons y texts =>
          have hlength : (writeSequence sep close (x :: y :: texts)).length =
              x.length + 1 + (writeSequence sep close (y :: texts)).length := by
            simp only [writeSequence, List.intercalate_cons_cons, List.length_append,
              List.length_singleton]
            omega
          have hfirst : y.length + (y :: texts).length ≤
              (writeSequence sep close (y :: texts)).length := ih List.mem_cons_self
          rw [hlength]
          simp only [List.length_cons] at hfirst ⊢
          rcases List.mem_cons.mp mem with rfl | hmem
          · omega
          · have hlater := ih hmem
            simp only [List.length_cons] at hlater
            omega

omit [DecidableEq α] in
/-- The symbols of a sequence are those of its items and the two of its own. -/
theorem mem_writeSequence {sep close : α} {texts : List (List α)} {a : α}
    (mem : a ∈ writeSequence sep close texts) :
    a = sep ∨ a = close ∨ ∃ text ∈ texts, a ∈ text := by
  rcases List.mem_append.mp mem with mem | mem
  · induction texts with
    | nil => cases mem
    | cons x texts ih =>
        cases texts with
        | nil => exact .inr (.inr ⟨x, List.mem_cons_self, by simpa using mem⟩)
        | cons y texts =>
            rw [List.intercalate_cons_cons, List.append_assoc, List.mem_append,
              List.mem_append, List.mem_singleton] at mem
            rcases mem with hx | hsep | hrest
            · exact .inr (.inr ⟨x, List.mem_cons_self, hx⟩)
            · exact .inl hsep
            · rcases ih (List.mem_append_left _ hrest) hrest with h | h | ⟨text, htext, h⟩
              · exact .inl h
              · exact .inr (.inl h)
              · exact .inr (.inr ⟨text, List.mem_cons_of_mem _ htext, h⟩)
  · exact .inr (.inl (List.mem_singleton.mp mem))

/-- At least one more item; the number bounds how many. -/
def readItems (item : Reader α β) (sep close : α) : ℕ → Reader α (List β)
  | 0, _ => none
  | n + 1, text =>
      match item text with
      | none => none
      | some (_, []) => none
      | some (b, c :: rest) =>
          if c = close then some ([b], rest)
          else if c = sep then ((readItems item sep close n).map (b :: ·)) rest
          else none

/-- The items up to the closing symbol. -/
def readSequence (item : Reader α β) (sep close : α) (bound : ℕ) : Reader α (List β)
  | [] => none
  | c :: rest =>
      if c = close then some ([], rest) else readItems item sep close bound (c :: rest)

/-- One of the two symbols follows. -/
def Delimited (sep close : α) (rest : List α) : Prop :=
  rest.head? = some sep ∨ rest.head? = some close

variable {item : Reader α β} {sep close : α} {write : β → List α} {bs : List β}

theorem ReadsBack.items (distinct : sep ≠ close) {n : ℕ} (bound : bs.length ≤ n)
    (nonempty : bs ≠ [])
    (items : ∀ b ∈ bs, ReadsBack (Delimited sep close) item (write b) b) :
    ReadsBack (fun _ => True) (readItems item sep close n)
      (writeSequence sep close (bs.map write)) bs := by
  intro rest _
  induction bs generalizing n with
  | nil => exact absurd rfl nonempty
  | cons b bs ih =>
      obtain ⟨hb, hbs⟩ := List.forall_mem_cons.mp items
      cases n with
      | zero => exact absurd bound (Nat.not_succ_le_zero _)
      | succ n =>
          cases bs with
          | nil =>
              have hitem := hb (close :: rest) (.inr rfl)
              have htext : writeSequence sep close ([b].map write) ++ rest =
                  write b ++ close :: rest := by
                simp [writeSequence]
              rw [htext, readItems, hitem]
              exact if_pos rfl
          | cons b' bs =>
              have hmore := ih (Nat.le_of_succ_le_succ bound) (List.cons_ne_nil _ _) hbs
              have htext : writeSequence sep close ((b :: b' :: bs).map write) ++ rest =
                  write b ++ sep :: (writeSequence sep close ((b' :: bs).map write) ++ rest) := by
                simp [writeSequence, List.intercalate_cons_cons]
              have hitem := hb (sep :: (writeSequence sep close ((b' :: bs).map write) ++ rest))
                (.inl rfl)
              rw [htext, readItems, hitem]
              simp only [if_neg distinct, if_true, Reader.map, hmore, Option.map_some]

/-- **A sequence reads back** when its items do, in front of either symbol, and no item
opens with the closing one. -/
theorem ReadsBack.sequence (distinct : sep ≠ close) {n : ℕ} (bound : bs.length ≤ n)
    (items : ∀ b ∈ bs, ReadsBack (Delimited sep close) item (write b) b)
    (opens : ∀ b ∈ bs, ∃ c cs, write b = c :: cs ∧ c ≠ close) :
    ReadsBack (fun _ => True) (readSequence item sep close n)
      (writeSequence sep close (bs.map write)) bs := by
  intro rest _
  cases bs with
  | nil => simp [writeSequence, readSequence]
  | cons b bs =>
      obtain ⟨c, cs, hwrite, hopen⟩ := opens b List.mem_cons_self
      have hitems := ReadsBack.items distinct bound (List.cons_ne_nil b bs) items rest trivial
      obtain ⟨more, htext⟩ : ∃ more,
          writeSequence sep close ((b :: bs).map write) ++ rest = c :: more := by
        cases bs <;> simp [writeSequence, List.intercalate_cons_cons, hwrite]
      rw [htext] at hitems ⊢
      rw [readSequence, if_neg hopen]
      exact hitems

end ReadBack
