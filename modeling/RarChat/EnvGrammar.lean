import RarChat.EnvFile

/-!
# The grammar of an env file

What a line may look like is stated without the parser: `LineHolds` is a line that is neither
blank nor a comment, with what it holds less an optional `export `; `Assigns` splits that at
its first equals sign into a key and a value, and `Faulty` says what else it may be.  Every
line is of exactly one kind, and `parseLine` tells which (`parseLine_eq_some_iff`,
`parseLine_eq_error_iff`).  A file is loaded when no line is faulty, and what it then says
of a key is what its last line for the key says (`fromFile_grammar`).
-/

namespace RarChat

/-! ## The grammar -/

/-- Only whitespace. -/
def Blank (raw : List Char) : Prop := trimChars raw = []

def IsComment (raw : List Char) : Prop := (trimChars raw).head? = some '#'

/-- The line is neither blank nor a comment, and `body` is what it holds, less an optional
leading `export `. -/
structure LineHolds (raw body : List Char) : Prop where
  notBlank : ¬Blank raw
  noComment : ¬IsComment raw
  lessExport : trimChars raw = exportWord ++ body ∨
    (¬exportWord <+: trimChars raw ∧ trimChars raw = body)

/-- A key is not empty, and free of whitespace. -/
structure IsKey (key : List Char) : Prop where
  nonempty : key ≠ []
  unbroken : ∀ c ∈ key, isWhitespace c = false

instance : DecidablePred IsKey := fun key =>
  decidable_of_iff (key ≠ [] ∧ key.all (fun c => !isWhitespace c) = true)
    ⟨fun h => ⟨h.1, by simpa using h.2⟩, fun h => ⟨h.nonempty, by simpa using h.unbroken⟩⟩

/-- A line holds a key and a value, with the first equals sign between them. -/
structure Splits (raw key value : List Char) : Prop where
  holds : LineHolds raw (key ++ '=' :: value)
  first : '=' ∉ key

/-- One layer of quotes that match at both ends is not part of the value. -/
inductive Unquotes : List Char → List Char → Prop
  | quoted {q : Char} (isQuote : q = doubleQuote ∨ q = singleQuote) (v : List Char) :
      Unquotes (q :: (v ++ [q])) v
  | bare {v : List Char} (unquoted : ∀ q w, (q = doubleQuote ∨ q = singleQuote) →
      v ≠ q :: (w ++ [q])) : Unquotes v v

/-- The line assigns `v` to `k`. -/
def Assigns (raw : List Char) (k v : String) : Prop :=
  ∃ key value w, Splits raw key value ∧ IsKey (trimChars key) ∧ Unquotes (trimChars value) w ∧
    k = String.ofList (trimChars key) ∧ v = String.ofList w

/-- **The grammar of a line.** -/
def InGrammar (raw : List Char) : Prop :=
  Blank raw ∨ IsComment raw ∨ ∃ key value, Splits raw key value ∧ IsKey (trimChars key)

/-- What is wrong with a line that is not in the grammar. -/
inductive Faulty (raw : List Char) : LineFault → Prop
  | notAPair {body : List Char} (holds : LineHolds raw body) (noEquals : '=' ∉ body) :
      Faulty raw .notAPair
  | malformedKey {key value : List Char} (splits : Splits raw key value)
      (noKey : ¬IsKey (trimChars key)) : Faulty raw .malformedKey

/-! ## What the functions of a line do -/

theorem trimChars_trimStart (text : List Char) : trimChars (trimStart text) = trimChars text := by
  show ((text.dropWhile _).dropWhile _).rdropWhile _ = (text.dropWhile _).rdropWhile _
  rw [List.dropWhile_idempotent]

/-- No whitespace is lost between the two parts of a split. -/
theorem splitOnce_trimStart {c : Char} (h : isWhitespace c = false) (text : List Char) :
    splitOnce c (trimStart text) = (splitOnce c text).map fun p => (trimStart p.1, p.2) := by
  induction text with
  | nil => rfl
  | cons x xs ih =>
      by_cases hx : isWhitespace x = true
      · have hne : x ≠ c := by
          rintro rfl
          rw [hx] at h
          cases h
        have hstart : trimStart (x :: xs) = trimStart xs := List.dropWhile_cons_of_pos hx
        rw [hstart, ih, splitOnce, if_neg hne, Option.map_map]
        congr 1
        funext p
        exact congrArg (·, p.2) (List.dropWhile_cons_of_pos hx).symm
      · have hstart : trimStart (x :: xs) = x :: xs := List.dropWhile_cons_of_neg hx
        rw [hstart]
        by_cases hxc : x = c
        · rw [splitOnce, if_pos hxc]
          rfl
        · rw [splitOnce, if_neg hxc, Option.map_map]
          congr 1
          funext p
          exact congrArg (·, p.2) (List.dropWhile_cons_of_neg hx).symm

theorem stripExport_of_lessExport {line body : List Char}
    (h : line = exportWord ++ body ∨ (¬exportWord <+: line ∧ line = body)) :
    stripExport line = body := by
  unfold stripExport
  rcases h with rfl | ⟨hno, rfl⟩
  · rw [if_pos (List.prefix_append _ _), List.drop_left]
  · exact if_neg hno

theorem lessExport_stripExport (line : List Char) :
    line = exportWord ++ stripExport line ∨
      (¬exportWord <+: line ∧ line = stripExport line) := by
  unfold stripExport
  by_cases h : exportWord <+: line
  · obtain ⟨body, rfl⟩ := h
    refine .inl ?_
    rw [if_pos (List.prefix_append _ _), List.drop_left]
  · refine .inr ⟨h, ?_⟩
    rw [if_neg h]

/-- **One layer of quotes**, exactly when it matches. -/
theorem unquotes_stripMatchingQuotes (v : List Char) : Unquotes v (stripMatchingQuotes v) := by
  unfold stripMatchingQuotes
  split_ifs with h
  · obtain ⟨hlength, hopen, hclose⟩ := h
    cases v with
    | nil => simp at hlength
    | cons q rest =>
        obtain ⟨inner, q', rfl⟩ : ∃ inner q', rest = inner ++ [q'] := by
          refine ⟨rest.dropLast, _, (List.dropLast_append_getLast ?_).symm⟩
          rintro rfl
          simp at hlength
        obtain rfl : q' = q := by
          rw [← List.cons_append, List.getLast?_concat] at hclose
          exact Option.some.inj hclose
        rw [List.tail_cons, List.dropLast_concat]
        exact .quoted (hopen.imp Option.some.inj Option.some.inj) inner
  · refine .bare ?_
    rintro q w hq rfl
    refine h ⟨by simp, hq.imp (congrArg some) (congrArg some), ?_⟩
    rw [← List.cons_append, List.getLast?_concat, List.cons_append, List.head?_cons]

theorem Unquotes.unique {v w w' : List Char} (h : Unquotes v w) (h' : Unquotes v w') :
    w = w' := by
  cases h with
  | quoted isQuote w =>
      generalize hv : _ :: (w ++ [_]) = v at h'
      cases h' with
      | quoted isQuote' w' =>
          obtain ⟨rfl, htail⟩ := List.cons.inj hv
          exact (List.append_inj' htail rfl).1
      | bare unquoted => exact absurd hv.symm (unquoted _ _ isQuote)
  | bare unquoted =>
      cases h' with
      | quoted isQuote' w' => exact absurd rfl (unquoted _ _ isQuote')
      | bare unquoted' => rfl

/-! ## Every line is of one kind -/

theorem parseLine_of_skipped {raw : List Char} (h : Blank raw ∨ IsComment raw) :
    parseLine raw = .ok none := by
  unfold Blank IsComment at h
  exact if_pos h

/-- What is made of a line that holds something. -/
theorem parseLine_of_holds {raw body : List Char} (h : LineHolds raw body) :
    parseLine raw =
      ((splitOnce '=' body).elim (.error .notAPair) fun p =>
        if IsKey (trimChars p.1) then
          .ok (some (String.ofList (trimChars p.1),
            String.ofList (stripMatchingQuotes (trimChars p.2))))
        else .error .malformedKey) := by
  have hcontent : ¬(trimChars raw = [] ∨ (trimChars raw).head? = some '#') := by
    rintro (hblank | hcomment)
    · exact h.notBlank hblank
    · exact h.noComment hcomment
  rw [parseLine, if_neg hcontent, stripExport_of_lessExport h.lessExport,
    splitOnce_trimStart (by decide)]
  cases splitOnce '=' body with
  | none => rfl
  | some p =>
      have hkey : IsKey (trimChars p.1) ↔
          ¬(trimChars p.1 = [] ∨ (trimChars p.1).any isWhitespace = true) := by
        rw [not_or, Bool.not_eq_true, List.any_eq_false]
        constructor
        · intro hk
          exact ⟨hk.nonempty, fun c hc => by simp [hk.unbroken c hc]⟩
        · rintro ⟨hne, hall⟩
          exact ⟨hne, fun c hc => Bool.eq_false_iff.mpr (hall c hc)⟩
      simp only [Option.map_some, Option.elim_some, trimChars_trimStart]
      by_cases hk : IsKey (trimChars p.1)
      · rw [if_pos hk, if_neg (hkey.mp hk)]
      · rw [if_neg hk, if_pos (not_not.mp fun hno => hk (hkey.mpr hno))]

theorem parseLine_of_splits {raw key value : List Char} (h : Splits raw key value) :
    parseLine raw =
      if IsKey (trimChars key) then
        .ok (some (String.ofList (trimChars key),
          String.ofList (stripMatchingQuotes (trimChars value))))
      else .error .malformedKey := by
  rw [parseLine_of_holds h.holds, splitOnce_append h.first]
  rfl

theorem parseLine_of_assigns {raw : List Char} {k v : String} (h : Assigns raw k v) :
    parseLine raw = .ok (some (k, v)) := by
  obtain ⟨key, value, w, hsplits, hkey, hquotes, rfl, rfl⟩ := h
  rw [parseLine_of_splits hsplits, if_pos hkey,
    (unquotes_stripMatchingQuotes (trimChars value)).unique hquotes]

theorem parseLine_of_faulty {raw : List Char} {fault : LineFault} (h : Faulty raw fault) :
    parseLine raw = .error fault := by
  cases h with
  | notAPair holds noEquals =>
      rw [parseLine_of_holds holds, splitOnce_of_notMem noEquals]
      rfl
  | malformedKey splits noKey => rw [parseLine_of_splits splits, if_neg noKey]

/-- **Every line** is skipped, assigns, or is faulty. -/
theorem line_cases (raw : List Char) :
    (Blank raw ∨ IsComment raw) ∨ (∃ k v, Assigns raw k v) ∨ ∃ fault, Faulty raw fault := by
  by_cases hskipped : Blank raw ∨ IsComment raw
  · exact .inl hskipped
  rw [not_or] at hskipped
  have hholds : LineHolds raw (stripExport (trimChars raw)) :=
    ⟨hskipped.1, hskipped.2, lessExport_stripExport _⟩
  by_cases hequals : '=' ∈ stripExport (trimChars raw)
  · obtain ⟨key, value, hbody, hfirst⟩ := List.eq_append_cons_of_mem hequals
    rw [hbody] at hholds
    have hsplits : Splits raw key value := ⟨hholds, hfirst⟩
    by_cases hkey : IsKey (trimChars key)
    · exact .inr (.inl ⟨_, _, key, value, _, hsplits, hkey,
        unquotes_stripMatchingQuotes _, rfl, rfl⟩)
    · exact .inr (.inr ⟨_, .malformedKey hsplits hkey⟩)
  · exact .inr (.inr ⟨_, .notAPair hholds hequals⟩)

theorem parseLine_eq_some_iff {raw : List Char} {k v : String} :
    parseLine raw = .ok (some (k, v)) ↔ Assigns raw k v := by
  refine ⟨fun h => ?_, parseLine_of_assigns⟩
  rcases line_cases raw with hskipped | ⟨k', v', hassigns⟩ | ⟨fault, hfaulty⟩
  · rw [parseLine_of_skipped hskipped] at h
    cases h
  · rw [parseLine_of_assigns hassigns] at h
    cases h
    exact hassigns
  · rw [parseLine_of_faulty hfaulty] at h
    cases h

theorem parseLine_eq_error_iff {raw : List Char} {fault : LineFault} :
    parseLine raw = .error fault ↔ Faulty raw fault := by
  refine ⟨fun h => ?_, parseLine_of_faulty⟩
  rcases line_cases raw with hskipped | ⟨k', v', hassigns⟩ | ⟨fault', hfaulty⟩
  · rw [parseLine_of_skipped hskipped] at h
    cases h
  · rw [parseLine_of_assigns hassigns] at h
    cases h
  · rw [parseLine_of_faulty hfaulty] at h
    cases h
    exact hfaulty

theorem Assigns.inGrammar {raw : List Char} {k v : String} (h : Assigns raw k v) :
    InGrammar raw := by
  obtain ⟨key, value, -, hsplits, hkey, -⟩ := h
  exact .inr (.inr ⟨key, value, hsplits, hkey⟩)

/-- **The grammar is what is not faulty.** -/
theorem inGrammar_iff {raw : List Char} : InGrammar raw ↔ ∀ fault, ¬Faulty raw fault := by
  constructor
  · intro h fault hfaulty
    have herror := parseLine_of_faulty hfaulty
    rcases h with hblank | hcomment | ⟨key, value, hsplits, hkey⟩
    · rw [parseLine_of_skipped (.inl hblank)] at herror
      cases herror
    · rw [parseLine_of_skipped (.inr hcomment)] at herror
      cases herror
    · rw [parseLine_of_splits hsplits, if_pos hkey] at herror
      cases herror
  · intro h
    rcases line_cases raw with (hblank | hcomment) | ⟨k, v, hassigns⟩ | ⟨fault, hfaulty⟩
    · exact .inl hblank
    · exact .inr (.inl hcomment)
    · exact hassigns.inGrammar
    · exact absurd hfaulty (h fault)

/-! ## Files -/

/-- The entry that a line makes, if it makes one. -/
def lineEntry (raw : List Char) : Option (String × String) :=
  match parseLine raw with
  | .ok entry => entry
  | .error _ => none

theorem lineEntry_eq_some_iff {raw : List Char} {k v : String} :
    lineEntry raw = some (k, v) ↔ Assigns raw k v := by
  rw [← parseLine_eq_some_iff, lineEntry]
  cases parseLine raw with
  | error fault => simp
  | ok entry => simp

/-- Lines of the grammar add their entries, the latest one first. -/
theorem loadLines_of_grammar (path : String) {ls : List (List Char)}
    (grammar : ∀ l ∈ ls, InGrammar l) (idx : ℕ) (entries : List (String × String))
    (rest : List (List Char)) :
    loadLines path idx entries (ls ++ rest) =
      loadLines path (idx + ls.length) ((ls.filterMap lineEntry).reverse ++ entries) rest := by
  induction ls generalizing idx entries with
  | nil => rfl
  | cons l ls ih =>
      obtain ⟨hl, hls⟩ := List.forall_mem_cons.mp grammar
      rw [List.cons_append, loadLines, List.filterMap_cons, lineEntry, List.length_cons,
        show idx + (ls.length + 1) = idx + 1 + ls.length by omega]
      cases hline : parseLine l with
      | error fault => exact absurd (parseLine_eq_error_iff.mp hline) (inGrammar_iff.mp hl fault)
      | ok entry =>
          cases entry with
          | none => exact ih hls (idx + 1) entries
          | some entry =>
              show loadLines path (idx + 1) (entry :: entries) (ls ++ rest) = _
              rw [ih hls, List.reverse_cons, List.append_assoc]
              rfl

/-- The first faulty line of the text is line `n`, counted from zero, and this is its fault. -/
def FirstFault (text : String) (n : ℕ) (fault : LineFault) : Prop :=
  ∃ before line after, lines text.toList = before ++ line :: after ∧ before.length = n ∧
    (∀ l ∈ before, InGrammar l) ∧ Faulty line fault

theorem fromFile_of_grammar (path : String) {text : String}
    (grammar : ∀ l ∈ lines text.toList, InGrammar l) :
    fromFile path (some text) =
      .ok ⟨((lines text.toList).filterMap lineEntry).reverse, some path⟩ := by
  have hload := loadLines_of_grammar path grammar 0 [] []
  rw [List.append_nil] at hload
  simp only [fromFile, hload, loadLines, List.append_nil]

/-- **A line that assigns a value**, in a file: its entry stands between those of the later
lines and those of the earlier ones. -/
theorem fromFile_of_line (path : String) {text : String} {before after : List (List Char)}
    {line : List Char} {k v : String} (grammar : ∀ l ∈ before ++ after, InGrammar l)
    (assigns : Assigns line k v) (split : lines text.toList = before ++ line :: after) :
    fromFile path (some text) =
      .ok ⟨(after.filterMap lineEntry).reverse ++
        (k, v) :: (before.filterMap lineEntry).reverse, some path⟩ := by
  have hgrammar : ∀ l ∈ lines text.toList, InGrammar l := by
    intro l hl
    rw [split, List.mem_append, List.mem_cons] at hl
    rcases hl with hl | rfl | hl
    · exact grammar l (List.mem_append_left _ hl)
    · exact assigns.inGrammar
    · exact grammar l (List.mem_append_right _ hl)
  rw [fromFile_of_grammar path hgrammar, split, List.filterMap_append, List.filterMap_cons,
    lineEntry_eq_some_iff.mpr assigns]
  simp

theorem fromFile_of_firstFault (path : String) {text : String} {n : ℕ} {fault : LineFault}
    (h : FirstFault text n fault) :
    fromFile path (some text) = .error (fault.message path (n + 1)) := by
  obtain ⟨before, line, after, hlines, rfl, hbefore, hfaulty⟩ := h
  have hload := loadLines_of_grammar path hbefore 0 [] (line :: after)
  simp only [loadLines, parseLine_of_faulty hfaulty, Nat.zero_add] at hload
  simp only [fromFile, hlines, hload]

/-- A text whose lines are not all of the grammar has a first fault. -/
theorem exists_firstFault {text : String} (h : ¬∀ l ∈ lines text.toList, InGrammar l) :
    ∃ n fault, FirstFault text n fault := by
  unfold FirstFault
  generalize lines text.toList = ls at h ⊢
  induction ls with
  | nil => exact absurd (fun l hl => by cases hl) h
  | cons l ls ih =>
      by_cases hl : InGrammar l
      · obtain ⟨n, fault, before, line, after, rfl, -, hbefore, hfaulty⟩ :=
          ih fun hls => h (List.forall_mem_cons.mpr ⟨hl, hls⟩)
        exact ⟨_, fault, l :: before, line, after, rfl, rfl,
          List.forall_mem_cons.mpr ⟨hl, hbefore⟩, hfaulty⟩
      · obtain ⟨fault, hfaulty⟩ : ∃ fault, Faulty l fault := by
          by_contra hno
          exact hl (inGrammar_iff.mpr fun fault hf => hno ⟨fault, hf⟩)
        refine ⟨0, fault, [], l, ls, rfl, rfl, ?_, hfaulty⟩
        intro l' hl'
        cases hl'

/-- Nothing is found for a key that no line assigns. -/
theorem lookup_entries_eq_none {ls : List (List Char)} {key : String}
    (h : ∀ l ∈ ls, ∀ v, ¬Assigns l key v) :
    (ls.filterMap lineEntry).reverse.lookup key = none := by
  apply List.lookup_eq_none_iff.mpr
  rintro ⟨k, v⟩ hentry
  obtain ⟨l, hl, hline⟩ := List.mem_filterMap.mp (List.mem_reverse.mp hentry)
  rw [bne_iff_ne]
  rintro rfl
  exact h l hl v (lineEntry_eq_some_iff.mp hline)

/-- **The last line for a key** is what is found for it. -/
theorem lookup_entries_of_last {before after : List (List Char)} {line : List Char}
    {key value : String} (assigns : Assigns line key value)
    (last : ∀ l ∈ after, ∀ v, ¬Assigns l key v) :
    ((before ++ line :: after).filterMap lineEntry).reverse.lookup key = some value := by
  rw [List.filterMap_append, List.filterMap_cons, lineEntry_eq_some_iff.mpr assigns]
  show ((before.filterMap lineEntry) ++ (key, value) :: after.filterMap lineEntry).reverse.lookup
    key = some value
  rw [List.reverse_append, List.reverse_cons, List.lookup_append, List.lookup_append,
    lookup_entries_eq_none last, List.lookup_cons_self]
  rfl

/-- **Env files are accepted exactly by their grammar.**  A file is loaded when all its lines
are of the grammar.  A key then has the value of the last line that assigns it, else that of
the process environment.  A file that is not loaded is reported by the number of its first
faulty line and the kind of the fault, and texts that agree in both are not told apart. -/
theorem fromFile_grammar (path text : String) :
    ((∃ src, fromFile path (some text) = .ok src) ↔ ∀ l ∈ lines text.toList, InGrammar l) ∧
    (∀ src, fromFile path (some text) = .ok src → ∀ process key,
      (∀ before line after value, lines text.toList = before ++ line :: after →
        Assigns line key value → (∀ l ∈ after, ∀ v, ¬Assigns l key v) →
          src.get process key = some value) ∧
      ((∀ l ∈ lines text.toList, ∀ v, ¬Assigns l key v) →
        src.get process key = process key)) ∧
    (∀ e, fromFile path (some text) = .error e →
      ∃ n fault, FirstFault text n fault ∧ e = fault.message path (n + 1)) ∧
    ∀ text' n fault, FirstFault text n fault → FirstFault text' n fault →
      fromFile path (some text) = fromFile path (some text') := by
  have hrejected : ¬(∀ l ∈ lines text.toList, InGrammar l) → ∃ n fault,
      FirstFault text n fault ∧ fromFile path (some text) = .error (fault.message path (n + 1)) := by
    intro h
    obtain ⟨n, fault, hfirst⟩ := exists_firstFault h
    exact ⟨n, fault, hfirst, fromFile_of_firstFault path hfirst⟩
  have hloaded : ∀ src, fromFile path (some text) = .ok src →
      ∀ l ∈ lines text.toList, InGrammar l := by
    intro src hsrc
    by_contra h
    obtain ⟨n, fault, -, herror⟩ := hrejected h
    rw [herror] at hsrc
    cases hsrc
  refine ⟨?_, ?_, ?_, ?_⟩
  · constructor
    · rintro ⟨src, hsrc⟩
      exact hloaded src hsrc
    · intro h
      exact ⟨_, fromFile_of_grammar path h⟩
  · intro src hsrc process key
    rw [fromFile_of_grammar path (hloaded src hsrc)] at hsrc
    obtain rfl := Except.ok.inj hsrc
    constructor
    · intro before line after value hlines assigns last
      simp only [EnvSource.get, hlines, lookup_entries_of_last assigns last]
    · intro hnone
      simp only [EnvSource.get, lookup_entries_eq_none hnone]
  · intro e herror
    have hfaulty : ¬∀ l ∈ lines text.toList, InGrammar l := by
      intro h
      rw [fromFile_of_grammar path h] at herror
      cases herror
    obtain ⟨n, fault, hfirst, hmessage⟩ := hrejected hfaulty
    exact ⟨n, fault, hfirst, Except.error.inj (herror.symm.trans hmessage)⟩
  · intro text' n fault h h'
    rw [fromFile_of_firstFault path h, fromFile_of_firstFault path h']

end RarChat
