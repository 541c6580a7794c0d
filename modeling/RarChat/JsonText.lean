import RarChat.Library.ReadBack
import RarChat.Normalize

/-!
# JSON text

The compact text that `serde_json::to_string` writes for a value, and a reader of such
texts.  The crate itself is outside the repository; that it writes a value of strings and
unsigned numbers on one line, from which the value can be read again, is `WritesLines`.

`compactJson` is a writer that can be run, with the escapes of the crate, and `readCompact`
reads back what it writes (`readCompact_compact`).  Both recurse over the same structure, so
the proofs are inductions over the value.
-/

namespace RarChat

open ReadBack

/-! ## Values without signs and fractions -/

/-- The numbers of the value are unsigned integers, as all numbers are that the program
writes. -/
inductive Json.Plain : Json → Prop
  | null : Plain .null
  | bool (b : Bool) : Plain (.bool b)
  | number (n : ℕ) : Plain (.number (.posInt n))
  | string (s : String) : Plain (.string s)
  | array {items : List Json} (all : ∀ j ∈ items, Plain j) : Plain (.array items)
  | object {fields : List (String × Json)} (all : ∀ f ∈ fields, Plain f.2) :
      Plain (.object fields)

/-- **A writer and a reader agree** on plain values: each is written on one line, and read
back from it. -/
def WritesLines (write : Json → Except String String) (read : String → Option Json) : Prop :=
  ∀ j : Json, j.Plain →
    ∃ text, write j = .ok text ∧ '\n' ∉ text.toList ∧ read text = some j

/-! ## The writer -/

def quote : Char := '\x22'

def backslash : Char := '\x5c'

/-- The digits of a control character in its escape. -/
def controlDigits (n : ℕ) : List Char := ['0', '0', Nat.digitChar (n / 16), Nat.digitChar (n % 16)]

/-- A character inside a string. -/
def escapeChar (c : Char) : List Char :=
  if c = quote then [backslash, quote]
  else if c = backslash then [backslash, backslash]
  else if c = '\x08' then [backslash, 'b']
  else if c = '\x0c' then [backslash, 'f']
  else if c = '\n' then [backslash, 'n']
  else if c = '\r' then [backslash, 'r']
  else if c = '\t' then [backslash, 't']
  else if c.toNat < 32 then backslash :: 'u' :: controlDigits c.toNat
  else [c]

def compactString (s : String) : List Char := quote :: (s.toList.flatMap escapeChar ++ [quote])

def JsonNumber.compact : JsonNumber → List Char
  | .posInt n => Nat.toDigits 10 n
  | .negInt n => '-' :: Nat.toDigits 10 n
  | .float text => text.toList

mutual

/-- The text of a value, without blanks. -/
def Json.compact : Json → List Char
  | .null => ['n', 'u', 'l', 'l']
  | .bool true => ['t', 'r', 'u', 'e']
  | .bool false => ['f', 'a', 'l', 's', 'e']
  | .number n => n.compact
  | .string s => compactString s
  | .array items => '[' :: writeSequence ',' ']' (compactItems items)
  | .object fields => '\x7b' :: writeSequence ',' '\x7d' (compactFields fields)

def compactItems : List Json → List (List Char)
  | [] => []
  | j :: items => j.compact :: compactItems items

def compactFields : List (String × Json) → List (List Char)
  | [] => []
  | (key, j) :: fields => (compactString key ++ ':' :: j.compact) :: compactFields fields

end

def compactJson (j : Json) : String := String.ofList j.compact

/-- The text of one field. -/
def compactField (f : String × Json) : List Char := compactString f.1 ++ ':' :: f.2.compact

theorem compactItems_eq (items : List Json) : compactItems items = items.map Json.compact := by
  induction items with
  | nil => rfl
  | cons j items ih => rw [compactItems, ih, List.map_cons]

theorem compactFields_eq (fields : List (String × Json)) :
    compactFields fields = fields.map compactField := by
  induction fields with
  | nil => rfl
  | cons f fields ih => rw [compactFields, ih, List.map_cons, compactField]

/-! ## The reader -/

/-- What an escape of one letter stands for. -/
def unescape : Char → Option Char
  | 'b' => some '\x08'
  | 'f' => some '\x0c'
  | 'n' => some '\n'
  | 'r' => some '\r'
  | 't' => some '\t'
  | c => if c = quote ∨ c = backslash then some c else none

def hexDigit (c : Char) : ℕ := if c.isDigit then c.toNat - '0'.toNat else c.toNat - 'a'.toNat + 10

/-- Where a reader stands inside a string: between two characters, behind a backslash, or
with this many hexadecimal digits to come. -/
inductive InString
  | between
  | escaped
  | hex (owed value : ℕ)
deriving DecidableEq, Repr

/-- One more character in front of what was read. -/
def prepend (c : Char) (read : Option (List Char × List Char)) : Option (List Char × List Char) :=
  read.map fun p => (c :: p.1, p.2)

/-- The characters up to the closing quote. -/
def readChars : InString → Reader Char (List Char)
  | _, [] => none
  | .between, c :: text =>
      if c = quote then some ([], text)
      else if c = backslash then readChars .escaped text
      else prepend c (readChars .between text)
  | .escaped, c :: text =>
      if c = 'u' then readChars (.hex 4 0) text
      else (unescape c).bind fun u => prepend u (readChars .between text)
  | .hex owed value, c :: text =>
      let value := value * 16 + hexDigit c
      if owed = 1 then prepend (Char.ofNat value) (readChars .between text)
      else readChars (.hex (owed - 1) value) text

def readString : Reader Char String :=
  (expect [quote]).andThen fun _ => (readChars .between).map String.ofList

def readNumber : Reader Char Json := fun text =>
  match text.takeWhile Char.isDigit with
  | [] => none
  | digits =>
      some (.number (.posInt (Nat.ofDigitChars 10 digits 0)), text.dropWhile Char.isDigit)

def readField (value : Reader Char Json) : Reader Char (String × Json) :=
  readString.andThen fun key => (expect [':']).andThen fun _ => value.map fun j => (key, j)

/-- A value; the number bounds how deep it is and how many items it has. -/
def readValue : ℕ → Reader Char Json
  | 0, _ => none
  | _ + 1, [] => none
  | n + 1, c :: text =>
      if c = quote then readString.map Json.string (c :: text)
      else if c = '[' then (readSequence (readValue n) ',' ']' n).map Json.array text
      else if c = '\x7b' then
        (readSequence (readField (readValue n)) ',' '\x7d' n).map Json.object text
      else if c = 'n' then (expect ['u', 'l', 'l']).map (fun _ => Json.null) text
      else if c = 't' then (expect ['r', 'u', 'e']).map (fun _ => Json.bool true) text
      else if c = 'f' then (expect ['a', 'l', 's', 'e']).map (fun _ => Json.bool false) text
      else readNumber (c :: text)

/-- A text that spells one value and nothing else. -/
def readCompact (text : String) : Option Json :=
  match readValue text.toList.length text.toList with
  | some (j, []) => some j
  | _ => none

/-! ## Strings -/

theorem hexDigit_controlDigits : ∀ n < 32,
    ((hexDigit '0' * 16 + hexDigit '0') * 16 + hexDigit (Nat.digitChar (n / 16))) * 16 +
      hexDigit (Nat.digitChar (n % 16)) = n := by
  decide

/-- An escape of one letter. -/
theorem readChars_letter {e u : Char} (letter : e ≠ 'u') (stands : unescape e = some u)
    (text : List Char) :
    readChars .between (backslash :: e :: text) =
      prepend u (readChars .between text) := by
  have hquote : backslash ≠ quote := by decide
  rw [readChars, if_neg hquote, if_pos rfl, readChars, if_neg letter, stands,
    Option.bind_some]

/-- The escape of a control character. -/
theorem readChars_control {n : ℕ} (control : n < 32) (text : List Char) :
    readChars .between (backslash :: 'u' :: (controlDigits n ++ text)) =
      prepend (Char.ofNat n) (readChars .between text) := by
  have hquote : backslash ≠ quote := by decide
  rw [readChars, if_neg hquote, if_pos rfl, readChars, if_pos rfl]
  simp [controlDigits, readChars, hexDigit_controlDigits n control]

/-- **An escaped character is read as itself.** -/
theorem readChars_escapeChar (c : Char) (text : List Char) :
    readChars .between (escapeChar c ++ text) = prepend c (readChars .between text) := by
  unfold escapeChar
  split_ifs with hquote hback hb hf hn hr ht hcontrol
  · subst hquote
    exact readChars_letter (by decide) (by decide) text
  · subst hback
    exact readChars_letter (by decide) (by decide) text
  · subst hb
    exact readChars_letter (by decide) rfl text
  · subst hf
    exact readChars_letter (by decide) rfl text
  · subst hn
    exact readChars_letter (by decide) rfl text
  · subst hr
    exact readChars_letter (by decide) rfl text
  · subst ht
    exact readChars_letter (by decide) rfl text
  · rw [List.cons_append, List.cons_append, readChars_control hcontrol, Char.ofNat_toNat]
  · rw [List.singleton_append, readChars, if_neg hquote, if_neg hback]

theorem readsBack_chars (cs : List Char) :
    ReadsBack (fun _ => True) (readChars .between) (cs.flatMap escapeChar ++ [quote]) cs := by
  intro rest hrest
  induction cs with
  | nil => simp [readChars]
  | cons c cs ih =>
      rw [List.flatMap_cons, List.append_assoc, List.append_assoc, readChars_escapeChar,
        ← List.append_assoc, ih, prepend, Option.map_some]

theorem readsBack_string (s : String) :
    ReadsBack (fun _ => True) readString (compactString s) s := by
  have hchars := (readsBack_chars s.toList).map String.ofList
  rw [String.ofList_toList] at hchars
  exact (readsBack_expect [quote]).andThen hchars fun _ _ => trivial

/-! ## Numbers -/

/-- What follows is no digit. -/
def EndsNumber (rest : List Char) : Prop := ∀ c, rest.head? = some c → c.isDigit = false

theorem readsBack_number (n : ℕ) :
    ReadsBack EndsNumber readNumber (Nat.toDigits 10 n) (.number (.posInt n)) := by
  intro rest hrest
  have hdigits : ∀ c ∈ Nat.toDigits 10 n, c.isDigit = true := fun c hc =>
    Nat.isDigit_of_mem_toDigits (by decide) (by decide) hc
  have htake : (Nat.toDigits 10 n ++ rest).takeWhile Char.isDigit = Nat.toDigits 10 n := by
    rw [List.takeWhile_append_of_pos hdigits]
    cases rest with
    | nil => rw [List.takeWhile_nil, List.append_nil]
    | cons c rest => simp [hrest c rfl]
  have hdrop : (Nat.toDigits 10 n ++ rest).dropWhile Char.isDigit = rest := by
    rw [List.dropWhile_append_of_pos hdigits]
    cases rest with
    | nil => rfl
    | cons c rest => simp [hrest c rfl]
  obtain ⟨d, ds, hcons⟩ := List.exists_cons_of_ne_nil (Nat.toDigits_ne_nil (n := n) (b := 10))
  have hread : Nat.ofDigitChars 10 (d :: ds) 0 = n := by
    rw [← hcons, Nat.ofDigitChars_ten_toDigits]
  rw [readNumber, htake, hdrop, hcons]
  simp only [hread]

/-! ## Values -/

/-- How the text of a value opens. -/
theorem Json.Plain.compact_opens {j : Json} (plain : j.Plain) :
    ∃ c cs, j.compact = c :: cs ∧ c ≠ ']' := by
  cases plain with
  | null => exact ⟨_, _, rfl, by decide⟩
  | bool b => cases b <;> exact ⟨_, _, rfl, by decide⟩
  | number n =>
      obtain ⟨d, ds, hcons⟩ :=
        List.exists_cons_of_ne_nil (Nat.toDigits_ne_nil (n := n) (b := 10))
      refine ⟨d, ds, hcons, ?_⟩
      rintro rfl
      have hdigit := Nat.isDigit_of_mem_toDigits (n := n) (by decide) (by decide)
        (hcons ▸ List.mem_cons_self)
      cases hdigit
  | string s => exact ⟨_, _, rfl, by decide⟩
  | array all => exact ⟨_, _, rfl, by decide⟩
  | object all => exact ⟨_, _, rfl, by decide⟩

theorem Delimited.endsNumber {close : Char} (symbol : close.isDigit = false) {rest : List Char}
    (h : Delimited ',' close rest) : EndsNumber rest := by
  intro c hc
  rcases h with h | h
  · rw [hc] at h
    exact Option.some.inj h ▸ rfl
  · rw [hc] at h
    exact Option.some.inj h ▸ symbol

/-- A field reads back where its value does. -/
theorem readsBack_field {f : String × Json} {value : Reader Char Json}
    (reads : ReadsBack EndsNumber value f.2.compact f.2) :
    ReadsBack EndsNumber (readField value) (compactField f) f := by
  have hvalue := reads.map fun j => (f.1, j)
  have hcolon : ReadsBack EndsNumber
      ((expect [':']).andThen fun _ => value.map fun j => (f.1, j))
      ([':'] ++ f.2.compact) f :=
    (readsBack_expect [':']).andThen hvalue fun _ _ => trivial
  exact (readsBack_string f.1).andThen hcolon fun _ _ => trivial

/-- **A plain value reads back** with any bound that its text keeps to. -/
theorem Json.Plain.readsBack {j : Json} (plain : j.Plain) :
    ∀ n, j.compact.length ≤ n → ReadsBack EndsNumber (readValue n) j.compact j := by
  -- the texts of what a value contains are shorter than its own
  induction plain with
  | null =>
      intro n hn rest _
      cases n with
      | zero => cases hn
      | succ n => simp [readValue, compact, quote, expect, Reader.map]
  | bool b =>
      intro n hn rest _
      cases n with
      | zero => cases b <;> cases hn
      | succ n => cases b <;> simp [readValue, compact, quote, expect, Reader.map]
  | number m =>
      intro n hn rest hrest
      obtain ⟨d, ds, hcons⟩ :=
        List.exists_cons_of_ne_nil (Nat.toDigits_ne_nil (n := m) (b := 10))
      have hdigit : d.isDigit = true := Nat.isDigit_of_mem_toDigits (n := m) (by decide)
        (by decide) (hcons ▸ List.mem_cons_self)
      have hread := readsBack_number m rest hrest
      have hother : ∀ c : Char, c.isDigit = false → d ≠ c := by
        rintro c hc rfl
        rw [hdigit] at hc
        cases hc
      simp only [compact, JsonNumber.compact, hcons, List.cons_append] at hn hread ⊢
      cases n with
      | zero => cases hn
      | succ n =>
          rw [readValue, if_neg (hother _ (by decide)), if_neg (hother _ rfl),
            if_neg (hother _ rfl), if_neg (hother _ rfl), if_neg (hother _ rfl),
            if_neg (hother _ rfl)]
          exact hread
  | string s =>
      intro n hn rest _
      cases n with
      | zero => cases hn
      | succ n =>
          have hread := (readsBack_string s).map Json.string rest trivial
          simpa [readValue, compact, compactString] using hread
  | @array items all ih =>
      intro n hn rest _
      cases n with
      | zero => cases hn
      | succ n =>
          rw [compact, List.length_cons, compactItems_eq] at hn
          have hroom : ∀ j ∈ items, j.compact.length + items.length ≤ n := fun j hj => by
            have := length_writeSequence ',' ']'
              (List.mem_map_of_mem (f := compact) hj)
            rw [List.length_map] at this
            omega
          have hbound : items.length ≤ n := by
            cases items with
            | nil => exact Nat.zero_le _
            | cons j items => exact Nat.le_trans (Nat.le_add_left _ _) (hroom j List.mem_cons_self)
          have hitems : ReadsBack (fun _ => True) (readSequence (readValue n) ',' ']' n)
              (writeSequence ',' ']' (items.map compact)) items :=
            .sequence (by decide) hbound
            (fun j hj => (ih j hj n (Nat.le_trans (Nat.le_add_right _ _) (hroom j hj))).weaken
              fun _ => Delimited.endsNumber rfl)
            (fun j hj => (all j hj).compact_opens)
          have hread := hitems.map Json.array rest trivial
          simpa [readValue, compact, compactItems_eq, quote] using hread
  | @object fields all ih =>
      intro n hn rest _
      cases n with
      | zero => cases hn
      | succ n =>
          rw [compact, List.length_cons, compactFields_eq] at hn
          have hroom : ∀ f ∈ fields, (compactField f).length + fields.length ≤ n := fun f hf => by
            have := length_writeSequence ',' '\x7d'
              (List.mem_map_of_mem (f := compactField) hf)
            rw [List.length_map] at this
            omega
          have hbound : fields.length ≤ n := by
            cases fields with
            | nil => exact Nat.zero_le _
            | cons f fields =>
                exact Nat.le_trans (Nat.le_add_left _ _) (hroom f List.mem_cons_self)
          have hvalue : ∀ f ∈ fields, f.2.compact.length ≤ n := fun f hf => by
            have := hroom f hf
            rw [compactField, List.length_append, List.length_cons] at this
            omega
          have hfields : ReadsBack (fun _ => True)
              (readSequence (readField (readValue n)) ',' '\x7d' n)
              (writeSequence ',' '\x7d' (fields.map compactField)) fields :=
            .sequence (by decide) hbound
            (fun f hf => (readsBack_field (ih f hf n (hvalue f hf))).weaken
              fun _ => Delimited.endsNumber rfl)
            (fun f hf => ⟨_, _, rfl, by decide⟩)
          have hread := hfields.map Json.object rest trivial
          simpa [readValue, compact, compactFields_eq, quote] using hread

/-- **What the writer writes, the reader reads.** -/
theorem readCompact_compact {j : Json} (plain : j.Plain) :
    readCompact (compactJson j) = some j := by
  have hread := plain.readsBack _ (Nat.le_refl _) [] nofun
  rw [List.append_nil] at hread
  simp only [readCompact, compactJson, String.toList_ofList, hread]

/-! ## One line -/

theorem feed_notMem_escapeChar (c : Char) : '\n' ∉ escapeChar c := by
  unfold escapeChar
  split_ifs with hquote hback hb hf hn hr ht hcontrol
  · decide
  · decide
  · decide
  · decide
  · decide
  · decide
  · decide
  · have hdigits : ∀ n < 32, '\n' ∉ controlDigits n := by decide
    simpa [backslash] using hdigits _ hcontrol
  · simpa using Ne.symm hn

theorem feed_notMem_compactString (s : String) : '\n' ∉ compactString s := by
  intro hmem
  rcases List.mem_cons.mp hmem with hquote | hmem
  · cases hquote
  · rcases List.mem_append.mp hmem with hmem | hquote
    · obtain ⟨c, -, hc⟩ := List.mem_flatMap.mp hmem
      exact feed_notMem_escapeChar c hc
    · cases List.mem_singleton.mp hquote

/-- **The text of a value is one line.** -/
theorem Json.Plain.feed_notMem_compact {j : Json} (plain : j.Plain) : '\n' ∉ j.compact := by
  induction plain with
  | null => decide
  | bool b => cases b <;> decide
  | number n =>
      intro hmem
      cases Nat.isDigit_of_mem_toDigits (by decide) (by decide) hmem
  | string s => exact feed_notMem_compactString s
  | @array items all ih =>
      rw [compact, compactItems_eq]
      intro hmem
      rcases List.mem_cons.mp hmem with hopen | hmem
      · cases hopen
      · rcases mem_writeSequence hmem with hsep | hclose | ⟨text, htext, hmem⟩
        · cases hsep
        · cases hclose
        · obtain ⟨j, hj, rfl⟩ := List.mem_map.mp htext
          exact ih j hj hmem
  | @object fields all ih =>
      rw [compact, compactFields_eq]
      intro hmem
      rcases List.mem_cons.mp hmem with hopen | hmem
      · cases hopen
      · rcases mem_writeSequence hmem with hsep | hclose | ⟨text, htext, hmem⟩
        · cases hsep
        · cases hclose
        · obtain ⟨f, hf, rfl⟩ := List.mem_map.mp htext
          rcases List.mem_append.mp hmem with hkey | hmem
          · exact feed_notMem_compactString f.1 hkey
          · rcases List.mem_cons.mp hmem with hcolon | hmem
            · cases hcolon
            · exact ih f hf hmem

/-- The two above are such a writer and reader. -/
theorem writesLines_compact : WritesLines (fun j => .ok (compactJson j)) readCompact := by
  intro j plain
  refine ⟨compactJson j, rfl, ?_, readCompact_compact plain⟩
  rw [compactJson, String.toList_ofList]
  exact plain.feed_notMem_compact

end RarChat
