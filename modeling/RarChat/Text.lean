import RarChat.Library.EarlyExit

/-!
# The `std::str` functions the program uses

Bytes are `List UInt8`; decoded text is a `String`, and the functions that walk
over text do so on its characters, as a `List Char`.

* `fromUtf8` is `std::str::from_utf8`, one byte at a time: `utf8Step` is the
  body of the validation loop, and `Utf8Error` reports how many bytes were valid
  and how long the offending sequence is (`none` when the input ends inside a
  character), with the standard library's wording.  `fromUtf8Lossy` is
  `String::from_utf8_lossy`.
* `asBytes`, `lines`, `splitOnce`, `stripPrefix`, `stripSuffix`, `trim` are the methods of
  `str` of the same name.
-/

namespace RarChat

open EarlyExit

/-! ## Strict UTF-8 decoding -/

/-- `std::str::Utf8Error`. -/
structure Utf8Error where
  validUpTo : ℕ
  errorLen : Option ℕ
deriving DecidableEq, Repr

/-- `impl fmt::Display for Utf8Error`. -/
def Utf8Error.display (e : Utf8Error) : String :=
  match e.errorLen with
  | some len =>
      s!"invalid utf-8 sequence of {len} bytes from index {e.validUpTo}"
  | none => s!"incomplete utf-8 byte sequence from index {e.validUpTo}"

/-- A character of which only the first bytes have been read: its code bits so
far, how many bytes were seen and are owed, and the range of the next one. -/
structure Utf8Pending where
  code : ℕ
  seen : ℕ
  owed : ℕ
  low : UInt8
  high : UInt8
deriving DecidableEq, Repr

structure Utf8State where
  validUpTo : ℕ
  pending : Option Utf8Pending
deriving DecidableEq, Repr

/-- What a first byte beyond ASCII announces, if it may start a character. -/
def utf8Lead (b : UInt8) : Option Utf8Pending :=
  if 0xC2 ≤ b ∧ b ≤ 0xDF then some ⟨b.toNat % 32, 1, 1, 0x80, 0xBF⟩
  else if b = 0xE0 then some ⟨b.toNat % 16, 1, 2, 0xA0, 0xBF⟩
  else if b = 0xED then some ⟨b.toNat % 16, 1, 2, 0x80, 0x9F⟩
  else if 0xE1 ≤ b ∧ b ≤ 0xEF then some ⟨b.toNat % 16, 1, 2, 0x80, 0xBF⟩
  else if b = 0xF0 then some ⟨b.toNat % 8, 1, 3, 0x90, 0xBF⟩
  else if 0xF1 ≤ b ∧ b ≤ 0xF3 then some ⟨b.toNat % 8, 1, 3, 0x80, 0xBF⟩
  else if b = 0xF4 then some ⟨b.toNat % 8, 1, 3, 0x80, 0x8F⟩
  else none

/-- One byte of the validation loop; the characters completed are the output. -/
def utf8Step (s : Utf8State) (b : UInt8) : Outcome Utf8State Char Utf8Error :=
  match s.pending with
  | none =>
      if b < 0x80 then ⟨⟨s.validUpTo + 1, none⟩, [Char.ofNat b.toNat], none⟩
      else
        match utf8Lead b with
        | some p => ⟨⟨s.validUpTo, some p⟩, [], none⟩
        | none => ⟨s, [], some ⟨s.validUpTo, some 1⟩⟩
  | some p =>
      if p.low ≤ b ∧ b ≤ p.high then
        let code := p.code * 64 + b.toNat % 64
        if p.owed = 1 then
          ⟨⟨s.validUpTo + p.seen + 1, none⟩, [Char.ofNat code], none⟩
        else
          ⟨⟨s.validUpTo, some ⟨code, p.seen + 1, p.owed - 1, 0x80, 0xBF⟩⟩, [],
            none⟩
      else ⟨s, [], some ⟨s.validUpTo, some p.seen⟩⟩

/-- The validation loop from between two characters. -/
def utf8Run (bytes : List UInt8) : Outcome Utf8State Char Utf8Error :=
  run utf8Step ⟨0, none⟩ bytes

theorem utf8Run_append (xs ys : List UInt8) :
    utf8Run (xs ++ ys) = (utf8Run xs).andThen fun s => run utf8Step s ys :=
  run_append utf8Step _ xs ys

/-- `std::str::from_utf8`. -/
def fromUtf8 (bytes : List UInt8) : Except Utf8Error String :=
  match (utf8Run bytes).stop, (utf8Run bytes).state.pending with
  | some e, _ => .error e
  | none, some _ => .error ⟨(utf8Run bytes).state.validUpTo, none⟩
  | none, none => .ok (String.ofList (utf8Run bytes).out)

theorem fromUtf8_eq_ok_iff {bytes : List UInt8} {text : String} :
    fromUtf8 bytes = .ok text ↔
      (utf8Run bytes).stop = none ∧ (utf8Run bytes).state.pending = none ∧
        text = String.ofList (utf8Run bytes).out := by
  unfold fromUtf8
  cases hstop : (utf8Run bytes).stop with
  | some e => simp
  | none =>
      cases hpend : (utf8Run bytes).state.pending with
      | some p => simp
      | none => simp [eq_comm]

/-- The characters of a list of ASCII bytes. -/
def asciiText (bytes : List UInt8) : List Char :=
  bytes.map fun b => Char.ofNat b.toNat

/-- Between characters, ASCII bytes are their own characters. -/
theorem run_utf8Step_ascii (bytes : List UInt8) (ascii : ∀ b ∈ bytes, b < 0x80)
    (n : ℕ) :
    run utf8Step ⟨n, none⟩ bytes =
      ⟨⟨n + bytes.length, none⟩, asciiText bytes, none⟩ := by
  induction bytes generalizing n with
  | nil => rfl
  | cons b bytes ih =>
      have hb : b < 0x80 := ascii b List.mem_cons_self
      have hstep : utf8Step ⟨n, none⟩ b =
          ⟨⟨n + 1, none⟩, [Char.ofNat b.toNat], none⟩ := by
        simp [utf8Step, hb]
      rw [run_cons_of_running _ (by rw [hstep]), hstep,
        ih (fun b' h => ascii b' (List.mem_cons_of_mem b h))]
      simp only [Outcome.after, asciiText, List.map_cons, List.length_cons,
        List.cons_append, List.nil_append]
      congr 2
      omega

/-- ASCII bytes behind decodable bytes are decoded as they stand. -/
theorem fromUtf8_append_ascii_of_ok {bytes : List UInt8} {text : String}
    (decoded : fromUtf8 bytes = .ok text) {more : List UInt8}
    (ascii : ∀ b ∈ more, b < 0x80) :
    fromUtf8 (bytes ++ more) = .ok (text ++ String.ofList (asciiText more)) := by
  obtain ⟨hstop, hpend, rfl⟩ := fromUtf8_eq_ok_iff.mp decoded
  have hrun : utf8Run (bytes ++ more) =
      ⟨⟨(utf8Run bytes).state.validUpTo + more.length, none⟩,
        (utf8Run bytes).out ++ asciiText more, none⟩ := by
    have hstate : (utf8Run bytes).state =
        ⟨(utf8Run bytes).state.validUpTo, none⟩ := by
      rw [← hpend]
    rw [utf8Run_append, Outcome.andThen_of_running hstop, hstate,
      run_utf8Step_ascii more ascii]
    rfl
  rw [fromUtf8_eq_ok_iff, hrun]
  simp

/-- A continuation byte is never ASCII, in any state of the loop. -/
def Utf8State.Continues (s : Utf8State) : Prop :=
  ∀ p, s.pending = some p → 0x80 ≤ p.low

theorem utf8Lead_low {b : UInt8} {p : Utf8Pending} (h : utf8Lead b = some p) :
    0x80 ≤ p.low := by
  unfold utf8Lead at h
  split_ifs at h <;> cases h <;> simp

theorem utf8Step_continues (s : Utf8State) (b : UInt8) (h : s.Continues) :
    (utf8Step s b).state.Continues := by
  intro p hp
  unfold utf8Step at hp
  cases hpend : s.pending with
  | none =>
      simp only [hpend] at hp
      by_cases hb : b < 0x80
      · simp [hb] at hp
      · cases hlead : utf8Lead b with
        | none => exact h p (by simpa [hb, hlead] using hp)
        | some q =>
            obtain rfl : q = p := by simpa [hb, hlead] using hp
            exact utf8Lead_low hlead
  | some q =>
      simp only [hpend] at hp
      by_cases hb : q.low ≤ b ∧ b ≤ q.high
      · by_cases hone : q.owed = 1
        · simp [hb, hone] at hp
        · simp only [hb, hone, and_self, if_true, if_false, Option.some.injEq] at hp
          subst hp
          simp
      · exact h p (by simpa [hb] using hp)

theorem utf8Run_continues (bytes : List UInt8) :
    (utf8Run bytes).state.Continues :=
  run_state_of_invariant utf8Step utf8Step_continues
    (fun _ h => by cases h) bytes

/-- ASCII bytes never repair bytes that do not decode. -/
theorem fromUtf8_append_ascii_of_error {bytes : List UInt8} {e : Utf8Error}
    (failed : fromUtf8 bytes = .error e) {more : List UInt8}
    (ascii : ∀ b ∈ more, b < 0x80) :
    ∃ e', fromUtf8 (bytes ++ more) = .error e' := by
  cases hdec : fromUtf8 (bytes ++ more) with
  | error e' => exact ⟨e', rfl⟩
  | ok text =>
      exfalso
      obtain ⟨hstop, hpend, -⟩ := fromUtf8_eq_ok_iff.mp hdec
      cases hs : (utf8Run bytes).stop with
      | some e' =>
          rw [utf8Run_append, Outcome.andThen_of_stop hs, hs] at hstop
          cases hstop
      | none =>
          rw [utf8Run_append, Outcome.andThen_of_running hs] at hstop hpend
          cases hp : (utf8Run bytes).state.pending with
          | none =>
              rw [fromUtf8_eq_ok_iff.mpr ⟨hs, hp, rfl⟩] at failed
              cases failed
          | some p =>
              simp only [Outcome.after_stop, Outcome.after_state] at hstop hpend
              cases more with
              | nil => exact absurd (hp.symm.trans hpend) (by simp)
              | cons b more =>
                  -- the sequence that is open expects a continuation byte
                  have hlow := utf8Run_continues bytes p hp
                  have hb : b < 0x80 := ascii b List.mem_cons_self
                  have hbad : ¬(p.low ≤ b ∧ b ≤ p.high) := fun hr =>
                    absurd (UInt8.lt_of_lt_of_le hb (UInt8.le_trans hlow hr.1))
                      (UInt8.lt_irrefl b)
                  have hstep : (utf8Step (utf8Run bytes).state b).stop =
                      some ⟨(utf8Run bytes).state.validUpTo, some p.seen⟩ := by
                    simp [utf8Step, hp, hbad]
                  rw [run_cons_of_stop _ hstep, hstep] at hstop
                  cases hstop

/-! ## Lossy decoding -/

/-- The replacement character. -/
def replacementChar : Char := '\uFFFD'

/-- `String::from_utf8_lossy`, decoding at most `fuel` valid stretches: what the
validation loop rejects is one replacement character. -/
def lossyFuel : ℕ → List UInt8 → List Char
  | 0, _ => []
  | fuel + 1, bytes =>
      (utf8Run bytes).out ++
        match (utf8Run bytes).stop, (utf8Run bytes).state.pending with
        | some e, _ =>
            replacementChar ::
              lossyFuel fuel (bytes.drop (e.validUpTo + e.errorLen.getD 1))
        | none, some _ => [replacementChar]
        | none, none => []

def fromUtf8Lossy (bytes : List UInt8) : String :=
  String.ofList (lossyFuel (bytes.length + 1) bytes)

/-! ## Methods of `str` -/

/-- `str::as_bytes`. -/
def asBytes (text : String) : List UInt8 := text.toList.flatMap String.utf8EncodeChar

/-- `str::split_inclusive('\n')`. -/
def splitInclusive : List Char → List (List Char)
  | [] => []
  | c :: cs =>
      if c = '\n' then [c] :: splitInclusive cs
      else
        match splitInclusive cs with
        | [] => [[c]]
        | line :: lines => (c :: line) :: lines

/-- `str::strip_suffix`, for one character. -/
def stripSuffix (c : Char) (text : List Char) : Option (List Char) :=
  if text.getLast? = some c then some text.dropLast else none

/-- `str::strip_prefix`, for one character. -/
def stripPrefix (c : Char) : List Char → Option (List Char)
  | [] => none
  | x :: xs => if x = c then some xs else none

/-- `str::lines`: a line ends at a line feed, and a carriage return directly
before the line feed belongs to the line ending. -/
def lines (text : List Char) : List (List Char) :=
  (splitInclusive text).map fun line =>
    match stripSuffix '\n' line with
    | none => line
    | some body => (stripSuffix '\r' body).getD body

/-- **Induction along the lines of a text.** -/
theorem lines_induction {motive : List Char → Prop}
    (last : ∀ line, '\n' ∉ line → motive line)
    (line : ∀ line rest, '\n' ∉ line → motive rest → motive (line ++ '\n' :: rest))
    (text : List Char) : motive text := by
  induction hn : text.length using Nat.strongRecOn generalizing text with
  | ind n ih =>
      by_cases hmem : '\n' ∈ text
      · obtain ⟨first, rest, rfl, hfirst⟩ := List.eq_append_cons_of_mem hmem
        refine line first rest hfirst (ih _ ?_ rest rfl)
        rw [← hn, List.length_append, List.length_cons]
        omega
      · exact last text hmem

theorem splitInclusive_of_not_mem {line : List Char} (h : '\n' ∉ line) :
    splitInclusive line = if line = [] then [] else [line] := by
  induction line with
  | nil => rfl
  | cons c cs ih =>
      obtain ⟨hc, hcs⟩ : '\n' ≠ c ∧ '\n' ∉ cs := by simpa using h
      rw [splitInclusive, if_neg (Ne.symm hc), ih hcs]
      cases cs <;> simp

theorem splitInclusive_append_newline {line : List Char} (h : '\n' ∉ line)
    (rest : List Char) :
    splitInclusive (line ++ '\n' :: rest) =
      (line ++ ['\n']) :: splitInclusive rest := by
  induction line with
  | nil => simp [splitInclusive]
  | cons c cs ih =>
      obtain ⟨hc, hcs⟩ : '\n' ≠ c ∧ '\n' ∉ cs := by simpa using h
      rw [List.cons_append, splitInclusive, if_neg (Ne.symm hc), ih hcs]
      rfl

/-- What is behind the last line feed is a line if it is not empty. -/
theorem lines_of_not_mem {line : List Char} (h : '\n' ∉ line) :
    lines line = if line = [] then [] else [line] := by
  have hstrip : stripSuffix '\n' line = none := by
    unfold stripSuffix
    rw [if_neg fun hlast => h (List.mem_of_getLast? hlast)]
  unfold lines
  rw [splitInclusive_of_not_mem h]
  cases line with
  | nil => rfl
  | cons c cs => simp [hstrip]

/-- A line ends at a line feed, and loses one carriage return before it. -/
theorem lines_append_newline {line : List Char} (h : '\n' ∉ line)
    (rest : List Char) :
    lines (line ++ '\n' :: rest) =
      (stripSuffix '\r' line).getD line :: lines rest := by
  have hstrip : stripSuffix '\n' (line ++ ['\n']) = some line := by
    simp [stripSuffix]
  unfold lines
  rw [splitInclusive_append_newline h, List.map_cons, hstrip]

/-- `str::split_once`, for one character. -/
def splitOnce (c : Char) : List Char → Option (List Char × List Char)
  | [] => none
  | x :: xs =>
      if x = c then some ([], xs)
      else (splitOnce c xs).map fun p => (x :: p.1, p.2)

theorem splitOnce_of_notMem {c : Char} {cs : List Char} (h : c ∉ cs) :
    splitOnce c cs = none := by
  induction cs with
  | nil => rfl
  | cons x xs ih =>
      obtain ⟨hx, hxs⟩ : c ≠ x ∧ c ∉ xs := by simpa using h
      rw [splitOnce, if_neg (Ne.symm hx), ih hxs]
      rfl

/-- The split is at the first occurrence. -/
theorem splitOnce_append {c : Char} {cs : List Char} (h : c ∉ cs) (rest : List Char) :
    splitOnce c (cs ++ c :: rest) = some (cs, rest) := by
  induction cs with
  | nil => simp [splitOnce]
  | cons x xs ih =>
      obtain ⟨hx, hxs⟩ : c ≠ x ∧ c ∉ xs := by simpa using h
      rw [List.cons_append, splitOnce, if_neg (Ne.symm hx), ih hxs]
      rfl

/-- `char::is_whitespace`: the Unicode property White_Space. -/
def isWhitespace (c : Char) : Bool :=
  (0x09 ≤ c.toNat && c.toNat ≤ 0x0D) || c.toNat == 0x20 || c.toNat == 0x85 ||
    c.toNat == 0xA0 || c.toNat == 0x1680 ||
    (0x2000 ≤ c.toNat && c.toNat ≤ 0x200A) || c.toNat == 0x2028 ||
    c.toNat == 0x2029 || c.toNat == 0x202F || c.toNat == 0x205F ||
    c.toNat == 0x3000

/-- `str::trim`. -/
def trim (text : String) : String :=
  String.ofList
    ((text.toList.dropWhile isWhitespace).reverse.dropWhile isWhitespace).reverse

end RarChat
