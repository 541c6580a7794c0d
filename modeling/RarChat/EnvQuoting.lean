import RarChat.EnvGrammar

/-!
# What quotes protect, and what is not a comment

A value between quotes reaches the parser with nothing but blanks around the quotes, and
trimming takes only these (`trimChars_of_tight`); so every value of one line comes back
unchanged, whatever it looks like (`quoting_protects`).  The exception is in the key: a key
`export` with a space behind it is read as the keyword.

A comment is a whole line.  Behind a value it is part of the value
(`comment_in_value`).
-/

namespace RarChat

/-! ## Trimming -/

/-- Nothing but spaces and tabs. -/
abbrev Blanks := {cs : List Char // ∀ c ∈ cs, c = ' ' ∨ c = '\t'}

theorem Blanks.isWhitespace (bs : Blanks) : ∀ c ∈ bs.1, RarChat.isWhitespace c = true := by
  intro c hc
  rcases bs.2 c hc with rfl | rfl <;> decide

theorem Blanks.notMem (bs : Blanks) {c : Char} (hspace : c ≠ ' ') (htab : c ≠ '\t') :
    c ∉ bs.1 := by
  intro h
  rcases bs.2 c h with rfl | rfl
  · exact hspace rfl
  · exact htab rfl

theorem isWhitespace_of_isQuote {q : Char} (h : q = doubleQuote ∨ q = singleQuote) :
    isWhitespace q = false := by
  rcases h with rfl | rfl <;> decide

/-- No whitespace at either end. -/
structure Tight (cs : List Char) : Prop where
  first : ∀ c ∈ cs.head?, isWhitespace c = false
  last : ∀ c ∈ cs.getLast?, isWhitespace c = false

theorem Tight.dropWhile_append {cs : List Char} (h : Tight cs) (nonempty : cs ≠ [])
    (more : List Char) : (cs ++ more).dropWhile isWhitespace = cs ++ more := by
  cases cs with
  | nil => exact absurd rfl nonempty
  | cons c cs =>
      have hc := h.first c rfl
      exact List.dropWhile_cons_of_neg (by rw [hc]; simp)

/-- **Trimming takes the whitespace at both ends**, and nothing else. -/
theorem trimChars_of_tight {lead cs trail : List Char}
    (hlead : ∀ c ∈ lead, isWhitespace c = true) (tight : Tight cs) (nonempty : cs ≠ [])
    (htrail : ∀ c ∈ trail, isWhitespace c = true) : trimChars (lead ++ (cs ++ trail)) = cs := by
  have hreverse : Tight cs.reverse := by
    refine ⟨?_, ?_⟩
    · rw [List.head?_reverse]
      exact tight.last
    · rw [List.getLast?_reverse]
      exact tight.first
  have htrail' : ∀ c ∈ trail.reverse, isWhitespace c = true := by
    intro c hc
    exact htrail c (List.mem_reverse.mp hc)
  unfold trimChars trimStart List.rdropWhile
  rw [List.dropWhile_append_of_pos hlead, tight.dropWhile_append nonempty,
    List.reverse_append, List.dropWhile_append_of_pos htrail']
  have hkept := hreverse.dropWhile_append (by simpa using nonempty) []
  rw [List.append_nil] at hkept
  rw [hkept, List.reverse_reverse]

theorem trimChars_tight {cs : List Char} (tight : Tight cs) (nonempty : cs ≠ []) :
    trimChars cs = cs := by
  have htrim := @trimChars_of_tight [] cs [] (by simp) tight nonempty (by simp)
  rwa [List.nil_append, List.append_nil] at htrim

/-! ## Keys -/

/-- A key that a line can assign: a key without an equals sign that opens no comment. -/
structure PlainKey (key : List Char) : Prop extends IsKey key where
  noEquals : '=' ∉ key
  noHash : key.head? ≠ some '#'

theorem IsKey.notMem {key : List Char} (h : IsKey key) {c : Char}
    (hc : isWhitespace c = true) : c ∉ key := by
  intro hmem
  rw [h.unbroken c hmem] at hc
  cases hc

theorem IsKey.tight {key : List Char} (h : IsKey key) : Tight key :=
  ⟨fun c hc => h.unbroken c (List.mem_of_mem_head? hc),
    fun c hc => h.unbroken c (List.mem_of_getLast? hc)⟩

/-- A word, and behind it text that does not end in whitespace. -/
theorem IsKey.tight_append {word more : List Char} (h : IsKey word) (nonempty : more ≠ [])
    (last : ∀ c ∈ more.getLast?, isWhitespace c = false) : Tight (word ++ more) := by
  refine ⟨?_, ?_⟩
  · intro c hc
    obtain ⟨c', word', rfl⟩ := List.exists_cons_of_ne_nil h.nonempty
    obtain rfl : c' = c := Option.some.inj hc
    exact h.unbroken _ List.mem_cons_self
  · intro c hc
    rw [List.getLast?_append_of_ne_nil _ nonempty] at hc
    exact last c hc

/-- What ends a key: a blank, or the equals sign. -/
def endsKey (c : Char) : Bool := c = ' ' || c = '\t' || c = '='

/-- **A line that begins with `export `** begins with the key `export` and a space. -/
theorem exportKey_of_begins {key rest : List Char} (plain : PlainKey key) (bs : Blanks)
    (h : exportWord <+: key ++ (bs.1 ++ '=' :: rest)) :
    key = ['e', 'x', 'p', 'o', 'r', 't'] ∧ bs.1.head? = some ' ' := by
  have hkey : ∀ c ∈ key, (!endsKey c) = true := by
    intro c hc
    have hspace : c ≠ ' ' := by
      rintro rfl
      exact plain.notMem (by decide) hc
    have htab : c ≠ '\t' := by
      rintro rfl
      exact plain.notMem (by decide) hc
    have hequals : c ≠ '=' := by
      rintro rfl
      exact plain.noEquals hc
    simp [endsKey, hspace, htab, hequals]
  have hrest : (bs.1 ++ '=' :: rest).takeWhile (fun c => !endsKey c) = [] := by
    obtain ⟨bs, hbs⟩ := bs
    cases bs with
    | nil => rfl
    | cons b bs =>
        rcases hbs b List.mem_cons_self with rfl | rfl <;> rfl
  obtain ⟨more, hmore⟩ := h
  -- the first word of the line, read off both ways
  have hword := congrArg (List.takeWhile fun c => !endsKey c) hmore
  rw [List.takeWhile_append_of_pos hkey, hrest, List.append_nil] at hword
  have hexport : (exportWord ++ more).takeWhile (fun c => !endsKey c) =
      ['e', 'x', 'p', 'o', 'r', 't'] := rfl
  rw [hexport] at hword
  subst hword
  refine ⟨rfl, ?_⟩
  have htail : ' ' :: more = bs.1 ++ '=' :: rest :=
    @List.append_cancel_left _ ['e', 'x', 'p', 'o', 'r', 't'] _ _ hmore
  obtain ⟨bs, hbs⟩ := bs
  cases bs with
  | nil => exact absurd (List.cons.inj htail).1 (by decide)
  | cons b bs => exact congrArg some (List.cons.inj htail).1.symm

/-! ## Quoted values -/

/-- A line that assigns a quoted value: blanks wherever the grammar lets them stand. -/
structure QuotedLine where
  lead : Blanks
  /-- The blanks behind `export `, if that is there. -/
  exported : Option Blanks
  key : List Char
  behindKey : Blanks
  behindEquals : Blanks
  quote : Char
  value : List Char
  trail : Blanks
  plain : PlainKey key
  isQuote : quote = doubleQuote ∨ quote = singleQuote
  oneLine : '\n' ∉ value

namespace QuotedLine

variable (l : QuotedLine)

/-- What stands before the key. -/
def opening : List Char :=
  match l.exported with
  | some gap => exportWord ++ gap.1
  | none => []

/-- The value in its quotes. -/
def quoted : List Char := l.quote :: (l.value ++ [l.quote])

/-- The key and the quoted value. -/
def pair : List Char := l.key ++ (l.behindKey.1 ++ '=' :: (l.behindEquals.1 ++ l.quoted))

def text : List Char := l.lead.1 ++ ((l.opening ++ l.pair) ++ l.trail.1)

/-- The key is read as the keyword: `export` without the keyword before it, and with a
space behind it. -/
def ReadAsExport : Prop :=
  l.exported = none ∧ l.key = ['e', 'x', 'p', 'o', 'r', 't'] ∧ l.behindKey.1.head? = some ' '

theorem quoted_tight : Tight l.quoted := by
  refine ⟨fun c hc => ?_, fun c hc => ?_⟩
  · obtain rfl : l.quote = c := Option.some.inj hc
    exact isWhitespace_of_isQuote l.isQuote
  · rw [quoted, ← List.cons_append, List.getLast?_concat] at hc
    obtain rfl : l.quote = c := Option.some.inj hc
    exact isWhitespace_of_isQuote l.isQuote

theorem quote_ne {c : Char} (hc : isWhitespace c = true) : l.quote ≠ c := by
  rintro rfl
  rw [isWhitespace_of_isQuote l.isQuote] at hc
  cases hc

/-- The first character is one of the key, or of `export `. -/
theorem exists_head : ∃ c, (l.opening ++ l.pair).head? = some c ∧ isWhitespace c = false ∧
    c ≠ '#' := by
  unfold opening
  cases l.exported with
  | some gap => exact ⟨'e', rfl, by decide, by decide⟩
  | none =>
      obtain ⟨c, key, hkey⟩ := List.exists_cons_of_ne_nil l.plain.nonempty
      refine ⟨c, by rw [pair, hkey]; rfl, ?_, ?_⟩
      · apply l.plain.unbroken
        rw [hkey]
        exact List.mem_cons_self
      · rintro rfl
        exact l.plain.noHash (by rw [hkey]; rfl)

/-- **Trimming leaves the line** but for its ends. -/
theorem trimChars_text : trimChars l.text = l.opening ++ l.pair := by
  obtain ⟨c, hhead, hc, -⟩ := l.exists_head
  have hnonempty : l.opening ++ l.pair ≠ [] := by
    intro h
    rw [h] at hhead
    cases hhead
  have hlast : (l.opening ++ l.pair).getLast? = l.quoted.getLast? := by
    rw [pair, ← List.append_assoc, ← List.append_assoc, ← List.cons_append,
      ← List.append_assoc, quoted, ← List.cons_append, ← List.append_assoc,
      List.getLast?_concat, List.getLast?_concat]
  refine trimChars_of_tight l.lead.isWhitespace ⟨?_, ?_⟩ hnonempty l.trail.isWhitespace
  · intro c' hc'
    obtain rfl := Option.some.inj (hhead.symm.trans hc')
    exact hc
  · rw [hlast]
    exact l.quoted_tight.last

/-- The key as the parser meets it, with the blanks around it. -/
def spacedKey : List Char :=
  match l.exported with
  | some gap => gap.1 ++ (l.key ++ l.behindKey.1)
  | none => l.key ++ l.behindKey.1

theorem trimChars_spacedKey : trimChars l.spacedKey = l.key := by
  unfold spacedKey
  cases l.exported with
  | some gap =>
      exact trimChars_of_tight gap.isWhitespace l.plain.tight l.plain.nonempty
        l.behindKey.isWhitespace
  | none =>
      exact @trimChars_of_tight [] l.key l.behindKey.1 (by simp) l.plain.tight
        l.plain.nonempty l.behindKey.isWhitespace

theorem equals_notMem_spacedKey : '=' ∉ l.spacedKey := by
  have hblanks : ∀ bs : Blanks, '=' ∉ bs.1 := by
    intro bs
    exact bs.notMem (by decide) (by decide)
  unfold spacedKey
  cases l.exported with
  | some gap =>
      simp [hblanks, l.plain.noEquals]
  | none => simp [hblanks, l.plain.noEquals]

/-- **A quoted line assigns its value.** -/
theorem assigns (clear : ¬l.ReadAsExport) :
    Assigns l.text (String.ofList l.key) (String.ofList l.value) := by
  obtain ⟨c, hhead, hc, hhash⟩ := l.exists_head
  have hholds : LineHolds l.text (l.spacedKey ++ '=' :: (l.behindEquals.1 ++ l.quoted)) := by
    refine ⟨?_, ?_, ?_⟩
    · intro hblank
      rw [Blank, l.trimChars_text] at hblank
      rw [hblank] at hhead
      cases hhead
    · intro hcomment
      rw [IsComment, l.trimChars_text, hhead] at hcomment
      exact hhash (Option.some.inj hcomment)
    · rw [l.trimChars_text]
      unfold opening spacedKey pair
      cases hexported : l.exported with
      | some gap => exact .inl (by simp)
      | none =>
          refine .inr ⟨fun hkeyword => clear ?_, by simp⟩
          obtain ⟨hkey, hspace⟩ := exportKey_of_begins l.plain l.behindKey hkeyword
          exact ⟨hexported, hkey, hspace⟩
  have hvalue : trimChars (l.behindEquals.1 ++ l.quoted) = l.quoted := by
    have htrim := @trimChars_of_tight l.behindEquals.1 l.quoted [] l.behindEquals.isWhitespace
      l.quoted_tight (by simp [quoted]) (by simp)
    rwa [List.append_nil] at htrim
  refine ⟨l.spacedKey, _, l.value, ⟨hholds, l.equals_notMem_spacedKey⟩, ?_, ?_, ?_, rfl⟩
  · rw [l.trimChars_spacedKey]
    exact l.plain.toIsKey
  · rw [hvalue]
    exact .quoted l.isQuote l.value
  · rw [l.trimChars_spacedKey]

theorem feed_notMem_text : '\n' ∉ l.text := by
  have hblanks : ∀ bs : Blanks, '\n' ∉ bs.1 := by
    intro bs
    exact bs.notMem (by decide) (by decide)
  have hkey : '\n' ∉ l.key := l.plain.notMem (by decide)
  have hquote : '\n' ≠ l.quote := (l.quote_ne (by decide)).symm
  have hopening : '\n' ∉ l.opening := by
    unfold opening
    cases l.exported with
    | some gap => simp [exportWord, hblanks gap]
    | none => simp
  simp [text, pair, quoted, hblanks, hkey, hquote, hopening, l.oneLine]

/-- A line ends in a quote or a blank. -/
theorem getLast?_text_ne : l.text.getLast? ≠ some '\r' := by
  intro h
  have hlast : l.text.getLast? = l.trail.1.getLast?.or (some l.quote) := by
    rw [text, pair, quoted]
    simp only [← List.append_assoc, ← List.cons_append]
    rw [List.getLast?_append, List.getLast?_concat]
  rw [hlast] at h
  cases htrail : l.trail.1.getLast? with
  | some c =>
      rw [htrail] at h
      obtain rfl : c = '\r' := Option.some.inj h
      exact l.trail.notMem (by decide) (by decide) (List.mem_of_getLast? htrail)
  | none =>
      rw [htrail] at h
      exact l.quote_ne (by decide) (Option.some.inj h)

end QuotedLine

/-! ## Files of quoted values -/

/-- Lines as a file, each on its own line; the last one may lack its line feed. -/
def fileText (closed : Bool) : List (List Char) → List Char
  | [] => []
  | [line] => line ++ if closed then ['\n'] else []
  | line :: rest => line ++ '\n' :: fileText closed rest

/-- What is written line by line is read line by line. -/
theorem lines_fileText (closed : Bool) {ls : List (List Char)}
    (h : ∀ l ∈ ls, l ≠ [] ∧ '\n' ∉ l ∧ l.getLast? ≠ some '\r') :
    lines (fileText closed ls) = ls := by
  induction ls with
  | nil => rfl
  | cons l ls ih =>
      obtain ⟨⟨hne, hfeed, hreturn⟩, hls⟩ := List.forall_mem_cons.mp h
      have hstrip : (stripSuffix '\r' l).getD l = l := by
        rw [stripSuffix, if_neg hreturn]
        rfl
      cases ls with
      | nil =>
          cases closed with
          | true =>
              show lines (l ++ '\n' :: []) = [l]
              rw [lines_append_newline hfeed, hstrip]
              rfl
          | false =>
              show lines (l ++ []) = [l]
              rw [List.append_nil, lines_of_not_mem hfeed, if_neg hne]
      | cons l' ls =>
          show lines (l ++ '\n' :: fileText closed (l' :: ls)) = l :: l' :: ls
          rw [lines_append_newline hfeed, hstrip, ih hls]

theorem QuotedLine.text_ne_nil (l : QuotedLine) : l.text ≠ [] := by
  simp [QuotedLine.text, QuotedLine.pair]

/-- **Quoting protects every value of one line.**  A file of quoted lines with distinct keys
is loaded, and each key has its value, unless a key `export` is read as the keyword. -/
theorem quoting_protects (path : String) (closed : Bool) {ls : List QuotedLine}
    (distinct : (ls.map QuotedLine.key).Nodup) (clear : ∀ l ∈ ls, ¬l.ReadAsExport) :
    ∃ src, fromFile path
        (some (String.ofList (fileText closed (ls.map QuotedLine.text)))) = .ok src ∧
      ∀ l ∈ ls, ∀ process,
        src.get process (String.ofList l.key) = some (String.ofList l.value) := by
  have hlines : lines (String.ofList (fileText closed (ls.map QuotedLine.text))).toList =
      ls.map QuotedLine.text := by
    rw [String.toList_ofList]
    apply lines_fileText
    intro raw hraw
    obtain ⟨l, -, rfl⟩ := List.mem_map.mp hraw
    exact ⟨l.text_ne_nil, l.feed_notMem_text, l.getLast?_text_ne⟩
  have hgrammar : ∀ raw ∈ ls.map QuotedLine.text, InGrammar raw := by
    intro raw hraw
    obtain ⟨l, hl, rfl⟩ := List.mem_map.mp hraw
    exact (l.assigns (clear l hl)).inGrammar
  rw [← hlines] at hgrammar
  refine ⟨_, fromFile_of_grammar path hgrammar, fun l hl process => ?_⟩
  obtain ⟨before, after, rfl⟩ := List.append_of_mem hl
  have hlast : ∀ raw ∈ after.map QuotedLine.text, ∀ v,
      ¬Assigns raw (String.ofList l.key) v := by
    intro raw hraw v hassigns
    obtain ⟨l', hl', rfl⟩ := List.mem_map.mp hraw
    have hmem : l' ∈ before ++ l :: after := by simp [hl']
    -- a line assigns one key only
    have hone := (parseLine_of_assigns hassigns).symm.trans
      (parseLine_of_assigns (l'.assigns (clear l' hmem)))
    have hkeys : l.key = l'.key ∧ v = String.ofList l'.value := by
      simpa [String.ofList_inj] using hone
    rw [List.map_append, List.map_cons] at distinct
    have hnotMem := (List.nodup_cons.mp (List.nodup_append.mp distinct).2.1).1
    exact hnotMem (hkeys.1 ▸ List.mem_map_of_mem hl')
  have hlookup := @lookup_entries_of_last (before.map QuotedLine.text) _ _ _ _
    (l.assigns (clear l hl)) hlast
  rw [← List.map_cons, ← List.map_append, ← hlines] at hlookup
  simp only [EnvSource.get, hlookup]

/-- `export ="v"`, on a line of its own. -/
def exportLine : QuotedLine where
  lead := ⟨[], by simp⟩
  exported := none
  key := ['e', 'x', 'p', 'o', 'r', 't']
  behindKey := ⟨[' '], by simp⟩
  behindEquals := ⟨[], by simp⟩
  quote := doubleQuote
  value := ['v']
  trail := ⟨[], by simp⟩
  plain := ⟨by decide, by decide, by decide⟩
  isQuote := .inl rfl
  oneLine := by decide

/-- The same key behind the keyword, with a value of characters that the parser looks for. -/
def exportedLine : QuotedLine :=
  { exportLine with
    exported := some exportLine.lead
    value := [' ', doubleQuote, '=', '#', '\r']
    oneLine := by decide }

theorem quoting_protects_exported :
    ∃ src, fromFile "env" (some (String.ofList (fileText true [exportedLine.text]))) = .ok src ∧
      ∀ l ∈ [exportedLine], ∀ process,
        src.get process (String.ofList l.key) = some (String.ofList l.value) := by
  have distinct : ([exportedLine].map QuotedLine.key).Nodup := List.pairwise_singleton _ _
  refine quoting_protects "env" true distinct ?_
  intro l hl hread
  obtain rfl := List.mem_singleton.mp hl
  cases hread.1

/-- The line is rejected: what is left behind the keyword has no key. -/
theorem exportLine_rejected :
    String.ofList exportLine.text = "export =\"v\"" ∧
      fromFile "env" (some (String.ofList (fileText true [exportLine.text]))) =
        .error "env:1: malformed key" := by
  refine ⟨by rfl, by rfl⟩

/-! ## Comments behind a value -/

/-- A value that is one word: not empty, and without whitespace or `#`. -/
structure IsWord (v : List Char) : Prop extends IsKey v where
  noHash : '#' ∉ v

/-- The line `K=v`. -/
def assignment (key value : List Char) : List Char := key ++ '=' :: value

theorem trimChars_assignment {key value : List Char} (plain : PlainKey key)
    (tight : Tight value) (nonempty : value ≠ []) {trail : List Char}
    (htrail : ∀ c ∈ trail, isWhitespace c = true) :
    trimChars (assignment key value ++ trail) = assignment key value := by
  have hends : Tight (assignment key value) := by
    apply plain.tight_append (List.cons_ne_nil _ _)
    intro c hc
    apply tight.last
    rwa [List.getLast?_cons_of_ne_nil nonempty] at hc
  exact @trimChars_of_tight [] (assignment key value) trail (by simp) hends
    (by simp [assignment]) htrail

/-- **An unquoted line assigns the rest of it**, whatever that is. -/
theorem assignment_assigns {key value : List Char} (plain : PlainKey key)
    (tight : Tight value) (nonempty : value ≠ []) {trail : List Char}
    (htrail : ∀ c ∈ trail, isWhitespace c = true) :
    Assigns (assignment key value ++ trail) (String.ofList key)
      (String.ofList (stripMatchingQuotes value)) := by
  have htrim := trimChars_assignment plain tight nonempty htrail
  have hholds : LineHolds (assignment key value ++ trail) (key ++ '=' :: value) := by
    refine ⟨?_, ?_, .inr ⟨?_, htrim⟩⟩
    · intro hblank
      rw [Blank, htrim] at hblank
      simp [assignment] at hblank
    · intro hcomment
      rw [IsComment, htrim, assignment] at hcomment
      obtain ⟨c, key', rfl⟩ := List.exists_cons_of_ne_nil plain.nonempty
      exact plain.noHash hcomment
    · intro hkeyword
      rw [htrim] at hkeyword
      have hspace := (exportKey_of_begins plain ⟨[], by simp⟩ hkeyword).2
      cases hspace
  have hkey := trimChars_tight plain.tight plain.nonempty
  have hvalue := trimChars_tight tight nonempty
  refine ⟨key, value, stripMatchingQuotes value, ⟨hholds, plain.noEquals⟩, ?_, ?_, ?_, rfl⟩
  · rw [hkey]
    exact plain.toIsKey
  · rw [hvalue]
    exact unquotes_stripMatchingQuotes value
  · rw [hkey]

/-- A character ahead of any text, and the text without the whitespace at its end. -/
theorem exists_trimmed {c : Char} (hc : isWhitespace c = false) (text : List Char) :
    ∃ kept trail, text = kept ++ trail ∧ (∀ x ∈ trail, isWhitespace x = true) ∧
      ∀ x ∈ (c :: kept).getLast?, isWhitespace x = false := by
  induction text using List.reverseRecOn with
  | nil =>
      refine ⟨[], [], rfl, by simp, ?_⟩
      intro x hx
      obtain rfl : c = x := Option.some.inj hx
      exact hc
  | append_singleton text x ih =>
      by_cases hx : isWhitespace x = true
      · obtain ⟨kept, trail, rfl, htrail, hlast⟩ := ih
        refine ⟨kept, trail ++ [x], by rw [List.append_assoc], ?_, hlast⟩
        intro y hy
        rcases List.mem_append.mp hy with hy | hy
        · exact htrail y hy
        · rwa [List.mem_singleton.mp hy]
      · refine ⟨text ++ [x], [], by rw [List.append_nil], by simp, ?_⟩
        intro y hy
        rw [← List.cons_append, List.getLast?_concat] at hy
        obtain rfl : x = y := Option.some.inj hy
        exact Bool.eq_false_iff.mpr hx

/-- A layer of quotes takes no `#`. -/
theorem hash_mem_unquoted_iff (value : List Char) :
    '#' ∈ stripMatchingQuotes value ↔ '#' ∈ value := by
  have hquotes := unquotes_stripMatchingQuotes value
  generalize stripMatchingQuotes value = w at hquotes
  cases hquotes with
  | quoted isQuote w =>
      rcases isQuote with rfl | rfl
      · simp [doubleQuote]
      · simp [singleQuote]
  | bare unquoted => exact Iff.rfl

/-- **A comment behind a value is part of the value.**  For no key, value, blanks and comment
is the entry the one of the line without the comment: whatever the file says besides, the
one has no `#` in it, and the other one has. -/
theorem comment_in_value {key v comment : List Char} (plain : PlainKey key) (word : IsWord v)
    (blanks : Blanks) :
    ∃ entry value, '#' ∉ entry.toList ∧ '#' ∈ value.toList ∧ entry ≠ value ∧
      ∀ (path text text' : String) (before after : List (List Char)),
        (∀ l ∈ before ++ after, InGrammar l) →
        lines text.toList = before ++ assignment key v :: after →
        lines text'.toList =
          before ++ (assignment key v ++ (blanks.1 ++ '#' :: comment)) :: after →
        ∃ later earlier,
          fromFile path (some text) =
            .ok ⟨later ++ (String.ofList key, entry) :: earlier, some path⟩ ∧
          fromFile path (some text') =
            .ok ⟨later ++ (String.ofList key, value) :: earlier, some path⟩ := by
  obtain ⟨kept, trail, rfl, htrail, hlast⟩ :=
    exists_trimmed (by decide : isWhitespace '#' = false) comment
  have hline := assignment_assigns plain word.tight word.nonempty
    (fun c (hc : c ∈ []) => by cases hc)
  rw [List.append_nil] at hline
  have htight : Tight (v ++ (blanks.1 ++ '#' :: kept)) := by
    apply word.tight_append (by simp)
    intro c hc
    rw [List.getLast?_append_of_ne_nil _ (by simp)] at hc
    exact hlast c hc
  have hcommented := assignment_assigns plain htight (by simp) htrail
  have hsplit : assignment key (v ++ (blanks.1 ++ '#' :: kept)) ++ trail =
      assignment key v ++ (blanks.1 ++ '#' :: (kept ++ trail)) := by
    simp [assignment]
  rw [hsplit] at hcommented
  have hentry : '#' ∉ (String.ofList (stripMatchingQuotes v)).toList := by
    rw [String.toList_ofList, hash_mem_unquoted_iff]
    exact word.noHash
  have hvalue : '#' ∈ (String.ofList
      (stripMatchingQuotes (v ++ (blanks.1 ++ '#' :: kept)))).toList := by
    rw [String.toList_ofList, hash_mem_unquoted_iff]
    simp
  refine ⟨_, _, hentry, hvalue, ?_, ?_⟩
  · intro hsame
    rw [hsame] at hentry
    exact hentry hvalue
  · intro path text text' before after grammar hbare hcomment
    exact ⟨_, _, fromFile_of_line path grammar hline hbare,
      fromFile_of_line path grammar hcommented hcomment⟩

/-- The option of the shipped example, and the comment behind it. -/
def usageKey : List Char := "OPENAI_INCLUDE_USAGE".toList

def usageComment : List Char := " set 0 if a given model rejects stream_options".toList

theorem plainKey_usageKey : PlainKey usageKey :=
  ⟨by decide +kernel, by decide +kernel, by decide +kernel⟩

theorem usageComment_in_value :
    ∃ entry value later earlier, '#' ∉ entry.toList ∧ '#' ∈ value.toList ∧ entry ≠ value ∧
      fromFile "nvidia.env" (some "OPENAI_INCLUDE_USAGE=1\n") =
        .ok ⟨later ++ (String.ofList usageKey, entry) :: earlier, some "nvidia.env"⟩ ∧
      fromFile "nvidia.env" (some
          "OPENAI_INCLUDE_USAGE=1     # set 0 if a given model rejects stream_options\n") =
        .ok ⟨later ++ (String.ofList usageKey, value) :: earlier, some "nvidia.env"⟩ := by
  obtain ⟨entry, value, hentry, hvalue, hne, hfiles⟩ := @comment_in_value usageKey ['1']
    usageComment plainKey_usageKey ⟨by decide, by decide⟩ ⟨[' ', ' ', ' ', ' ', ' '], by simp⟩
  obtain ⟨later, earlier, hbare, hcommented⟩ := hfiles "nvidia.env" "OPENAI_INCLUDE_USAGE=1\n"
    "OPENAI_INCLUDE_USAGE=1     # set 0 if a given model rejects stream_options\n" [] []
    (by simp) (by rfl) (by rfl)
  exact ⟨entry, value, later, earlier, hentry, hvalue, hne, hbare, hcommented⟩

/-- The line of the shipped example, uncommented. -/
theorem exampleLine_value :
    fromFile "nvidia.env" (some
        "OPENAI_INCLUDE_USAGE=1     # set 0 if a given model rejects stream_options\n") =
      .ok ⟨[("OPENAI_INCLUDE_USAGE",
        "1     # set 0 if a given model rejects stream_options")], some "nvidia.env"⟩ ∧
    fromFile "nvidia.env" (some "OPENAI_INCLUDE_USAGE=1\n") =
      .ok ⟨[("OPENAI_INCLUDE_USAGE", "1")], some "nvidia.env"⟩ := by
  refine ⟨by rfl, by rfl⟩

end RarChat
