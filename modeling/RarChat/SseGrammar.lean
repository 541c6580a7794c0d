import Mathlib.Data.List.TakeWhile
import RarChat.SseFraming
import RarChat.Utf8

/-!
# The grammar of frames

What a peer writes: frames of lines, with a line ending behind each line and behind a
closing blank line.  The ending is `LF` in one frame and `CR LF` in the next, as the peer
likes.  Lines are not empty and hold no line break, which `FrameLine` carries, so that the
only blank line is the closing one, and no terminator starts inside a frame
(`block_leftmost`).

The parser returns of such frames what the grammar says they carry (`parser_accepts`).
-/

namespace RarChat

open EarlyExit

/-! ## Lines -/

/-- A line of a frame: not empty, and without a line break. -/
structure FrameLine where
  text : List Char
  nonempty : text ≠ []
  noLf : '\n' ∉ text
  noCr : '\r' ∉ text

namespace FrameLine

def bytes (l : FrameLine) : List UInt8 := l.text.flatMap String.utf8EncodeChar

/-- A comment line. -/
def IsComment (l : FrameLine) : Prop := l.text.head? = some ':'

instance : DecidablePred IsComment := fun l =>
  inferInstanceAs (Decidable (l.text.head? = some ':'))

/-- The field name: what is in front of the first colon. -/
def field (l : FrameLine) : List Char := l.text.takeWhile (· ≠ ':')

/-- The value: what is behind the first colon, less one leading space. -/
def value (l : FrameLine) : List Char :=
  let behind := (l.text.dropWhile (· ≠ ':')).tail
  if behind.head? = some ' ' then behind.tail else behind

/-- A line whose field name is `data`. -/
def IsData (l : FrameLine) : Prop := l.field = ['d', 'a', 't', 'a']

instance : DecidablePred IsData := fun l =>
  inferInstanceAs (Decidable (l.field = ['d', 'a', 't', 'a']))

end FrameLine

theorem splitOnce_of_mem {c : Char} {cs : List Char} (h : c ∈ cs) :
    splitOnce c cs = some (cs.takeWhile (· ≠ c), (cs.dropWhile (· ≠ c)).tail) := by
  induction cs with
  | nil => cases h
  | cons x xs ih =>
      rw [splitOnce]
      by_cases hx : x = c
      · simp [hx]
      · rw [if_neg hx, ih ((List.mem_cons.mp h).resolve_left (Ne.symm hx))]
        simp [hx]

theorem stripPrefix_space (cs : List Char) :
    (stripPrefix ' ' cs).getD cs = if cs.head? = some ' ' then cs.tail else cs := by
  cases cs with
  | nil => rfl
  | cons x xs => by_cases hx : x = ' ' <;> simp [stripPrefix, hx]

/-- A line without a colon is a field name without a value. -/
theorem FrameLine.of_no_colon {l : FrameLine} (h : ':' ∉ l.text) :
    l.field = l.text ∧ l.value = [] := by
  have hall : ∀ c ∈ l.text, decide (c ≠ ':') = true := by
    intro c hc
    simpa using fun heq : c = ':' => h (heq ▸ hc)
  unfold field value
  rw [List.takeWhile_eq_self_iff.mpr hall, List.dropWhile_eq_nil_iff.mpr hall]
  exact ⟨rfl, rfl⟩

/-- A comment line has an empty field name. -/
theorem FrameLine.IsComment.not_isData {l : FrameLine} (h : l.IsComment) : ¬l.IsData := by
  unfold IsComment at h
  unfold IsData field
  cases htext : l.text with
  | nil => simp
  | cons c rest =>
      obtain rfl : c = ':' := by simpa [htext] using h
      simp

/-- **The field split of the code** is the one of the grammar. -/
theorem dataValue_eq (l : FrameLine) :
    dataValue l.text = if l.IsData then some l.value else none := by
  unfold dataValue
  by_cases hcomment : l.text.head? = some ':'
  · rw [if_pos hcomment, if_neg (FrameLine.IsComment.not_isData hcomment)]
  · rw [if_neg hcomment]
    by_cases hcolon : ':' ∈ l.text
    · have hvalue : l.value = (stripPrefix ' ' (l.text.dropWhile (· ≠ ':')).tail).getD
          (l.text.dropWhile (· ≠ ':')).tail := (stripPrefix_space _).symm
      rw [splitOnce_of_mem hcolon, hvalue]
      by_cases hdata : l.IsData
      · rw [if_pos hdata]
        exact if_pos hdata
      · rw [if_neg hdata]
        exact if_neg hdata
    · obtain ⟨hfield, hvalue⟩ := FrameLine.of_no_colon hcolon
      rw [splitOnce_of_notMem hcolon, hvalue]
      by_cases hdata : l.IsData
      · rw [if_pos hdata]
        exact if_pos (hfield ▸ hdata)
      · rw [if_neg hdata]
        exact if_neg fun htext => hdata (hfield.trans htext)

/-! ## Frames -/

/-- A line ending. -/
inductive Eol
  | lf
  | crlf
deriving DecidableEq, Repr

def Eol.text : Eol → List Char
  | .lf => ['\n']
  | .crlf => ['\r', '\n']

def Eol.bytes : Eol → List UInt8
  | .lf => [10]
  | .crlf => [13, 10]

/-- A frame, with the line ending it is written with. -/
structure Frame where
  lines : List FrameLine
  nonempty : lines ≠ []
  eol : Eol

namespace Frame

/-- As it is written: an ending behind every line, and one for the blank line. -/
def bytes (f : Frame) : List UInt8 :=
  f.lines.flatMap (fun l => l.bytes ++ f.eol.bytes) ++ f.eol.bytes

/-- The text in front of the terminator. -/
def text (f : Frame) : List Char := f.eol.text.intercalate (f.lines.map FrameLine.text)

/-- The bytes in front of the terminator. -/
def block (f : Frame) : List UInt8 := f.eol.bytes.intercalate (f.lines.map FrameLine.bytes)

/-- The frame does not open with a comment line.  The parser looks at the first character of
a block to tell a comment from data, and takes the whole block for a comment if it is a
colon, whatever its other lines are. -/
def Opens (f : Frame) : Prop := ∀ l, f.lines.head? = some l → ¬l.IsComment

/-- The values of its data lines, in order. -/
def values (f : Frame) : List (List Char) :=
  (f.lines.filter (·.IsData)).map FrameLine.value

/-- What the frame carries, if it has a data line: the values joined by `LF`. -/
def payload (f : Frame) : Option String :=
  if f.values = [] then none else some (String.ofList (['\n'].intercalate f.values))

/-- The event of the frame. -/
def event (f : Frame) : Option SseEvent :=
  f.payload.map fun text => ⟨.data text, f.block.length⟩

end Frame

/-! ## Bytes and text -/

theorem Eol.bytes_eq (e : Eol) : e.bytes = e.text.flatMap String.utf8EncodeChar := by
  cases e <;> rfl

/-- The bytes of a text that is joined are the bytes joined. -/
theorem flatMap_intercalate {α β : Type} (f : α → List β) (sep : List α)
    (xs : List (List α)) :
    (sep.intercalate xs).flatMap f =
      (sep.flatMap f).intercalate (xs.map fun x => x.flatMap f) := by
  induction xs with
  | nil => rfl
  | cons x xs ih =>
      cases xs with
      | nil => simp
      | cons y ys => simp_all [List.intercalate_cons_cons]

theorem Frame.block_eq (f : Frame) : f.block = f.text.flatMap String.utf8EncodeChar := by
  rw [block, text, flatMap_intercalate, Eol.bytes_eq, List.map_map]
  rfl

/-- A frame is its block and its terminator. -/
theorem Frame.bytes_eq (f : Frame) : f.bytes = f.block ++ (f.eol.bytes ++ f.eol.bytes) := by
  have h : ∀ ls : List FrameLine, ls ≠ [] →
      ls.flatMap (fun l => l.bytes ++ f.eol.bytes) =
        f.eol.bytes.intercalate (ls.map FrameLine.bytes) ++ f.eol.bytes := by
    intro ls hne
    induction ls with
    | nil => exact absurd rfl hne
    | cons l ls ih =>
        cases ls with
        | nil => simp
        | cons l' ls =>
            rw [List.flatMap_cons, ih (by simp)]
            simp [List.intercalate_cons_cons]
  rw [bytes, h f.lines f.nonempty, block, List.append_assoc]

theorem Frame.isSep (f : Frame) :
    f.eol.bytes ++ f.eol.bytes = lfLf ∨ f.eol.bytes ++ f.eol.bytes = crlfCrlf := by
  cases f.eol with
  | lf => exact .inl rfl
  | crlf => exact .inr rfl

theorem FrameLine.bytes_ne_nil (l : FrameLine) : l.bytes ≠ [] := by
  obtain ⟨c, cs, htext⟩ := List.exists_cons_of_ne_nil l.nonempty
  rw [bytes, htext, List.flatMap_cons]
  intro hnil
  exact String.utf8EncodeChar_ne_nil (List.append_eq_nil_iff.mp hnil).1

/-- No byte of a line is a line break. -/
theorem FrameLine.break_notMem (l : FrameLine) : 10 ∉ l.bytes ∧ 13 ∉ l.bytes := by
  constructor
  · intro hmem
    obtain ⟨c, hc, hbyte⟩ := List.mem_flatMap.mp hmem
    obtain rfl := ofNat_of_mem_encode hbyte (by decide)
    exact l.noLf hc
  · intro hmem
    obtain ⟨c, hc, hbyte⟩ := List.mem_flatMap.mp hmem
    obtain rfl := ofNat_of_mem_encode hbyte (by decide)
    exact l.noCr hc

/-! ## No terminator starts inside a frame -/

/-- A terminator starts with a line break. -/
theorem TerminatorAt.break {bytes : List UInt8} {i n : ℕ} (h : TerminatorAt bytes i n) :
    bytes[i]? = some 10 ∨ bytes[i]? = some 13 := by
  rcases h with ⟨-, hocc⟩ | ⟨-, hocc⟩
  · exact .inl (hocc.getElem? (k := 0) rfl)
  · exact .inr (hocc.getElem? (k := 0) rfl)

theorem occursAt_append_right {needle xs ys : List UInt8} {i : ℕ} :
    OccursAt needle (xs ++ ys) (xs.length + i) ↔ OccursAt needle ys i := by
  unfold OccursAt
  rw [List.drop_length_add_append]

theorem terminatorAt_append_right {xs ys : List UInt8} {i n : ℕ} :
    TerminatorAt (xs ++ ys) (xs.length + i) n ↔ TerminatorAt ys i n := by
  unfold TerminatorAt
  rw [occursAt_append_right, occursAt_append_right]

/-- None starts in a line. -/
theorem FrameLine.no_terminator (l : FrameLine) (more : List UInt8) {i : ℕ}
    (inside : i < l.bytes.length) (n : ℕ) : ¬TerminatorAt (l.bytes ++ more) i n := by
  intro h
  obtain ⟨hlf, hcr⟩ := l.break_notMem
  rcases h.break with hbreak | hbreak
  · rw [List.getElem?_append_left inside] at hbreak
    exact hlf (List.mem_of_getElem? hbreak)
  · rw [List.getElem?_append_left inside] at hbreak
    exact hcr (List.mem_of_getElem? hbreak)

/-- None starts in the ending of a line that another line follows. -/
theorem Eol.no_terminator (e : Eol) {c : UInt8} (text : c ≠ 10 ∧ c ≠ 13)
    (more : List UInt8) {i : ℕ} (inside : i < e.bytes.length) (n : ℕ) :
    ¬TerminatorAt (e.bytes ++ c :: more) i n := by
  obtain ⟨hlf, hcr⟩ := text
  rintro (⟨-, hocc⟩ | ⟨-, hocc⟩)
  · have h0 := hocc.getElem? (k := 0) rfl
    have h1 := hocc.getElem? (k := 1) rfl
    cases e with
    | lf =>
        obtain rfl : i = 0 := Nat.lt_one_iff.mp inside
        exact hlf (by simpa [Eol.bytes] using h1)
    | crlf =>
        match i, inside with
        | 0, _ => simp [Eol.bytes] at h0
        | 1, _ => exact hlf (by simpa [Eol.bytes] using h1)
  · have h0 := hocc.getElem? (k := 0) rfl
    have h2 := hocc.getElem? (k := 2) rfl
    cases e with
    | lf =>
        obtain rfl : i = 0 := Nat.lt_one_iff.mp inside
        simp [Eol.bytes] at h0
    | crlf =>
        match i, inside with
        | 0, _ => exact hcr (by simpa [Eol.bytes] using h2)
        | 1, _ => simp [Eol.bytes] at h0

/-- **No terminator starts inside a frame**, whatever follows it. -/
theorem block_leftmost (e : Eol) (ls : List FrameLine) (more : List UInt8) {i : ℕ}
    (inside : i < (e.bytes.intercalate (ls.map FrameLine.bytes)).length) (n : ℕ) :
    ¬TerminatorAt (e.bytes.intercalate (ls.map FrameLine.bytes) ++ more) i n := by
  induction ls generalizing i with
  | nil => simp at inside
  | cons l ls ih =>
      cases ls with
      | nil =>
          simp only [List.map_cons, List.map_nil, List.intercalate_singleton] at inside ⊢
          exact l.no_terminator more inside n
      | cons l' ls =>
          obtain ⟨c, rest, hrest⟩ := List.exists_cons_of_ne_nil l'.bytes_ne_nil
          have hc : c ≠ 10 ∧ c ≠ 13 := by
            obtain ⟨hlf, hcr⟩ := l'.break_notMem
            rw [hrest] at hlf hcr
            exact ⟨fun h => hlf (h ▸ List.mem_cons_self), fun h => hcr (h ▸ List.mem_cons_self)⟩
          simp only [List.map_cons, List.intercalate_cons_cons, List.append_assoc,
            List.length_append] at inside ih ⊢
          -- in the line, in its ending, or in what is behind them
          by_cases hline : i < l.bytes.length
          · exact l.no_terminator _ hline n
          obtain ⟨j, rfl⟩ := Nat.exists_eq_add_of_le (Nat.le_of_not_lt hline)
          rw [terminatorAt_append_right]
          by_cases hend : j < e.bytes.length
          · obtain ⟨more', hmore⟩ : ∃ more', e.bytes.intercalate
                (l'.bytes :: ls.map FrameLine.bytes) ++ more = c :: more' := by
              cases ls with
              | nil => simp [hrest]
              | cons l'' ls => simp [hrest, List.intercalate_cons_cons]
            rw [hmore]
            exact e.no_terminator hc more' hend n
          · obtain ⟨k, rfl⟩ := Nat.exists_eq_add_of_le (Nat.le_of_not_lt hend)
            rw [terminatorAt_append_right]
            exact ih (by omega)

/-- **What is written is cut where it was joined.** -/
theorem decomposes_frames_bytes (frames : List Frame) :
    Decomposes (frames.flatMap Frame.bytes) (frames.map Frame.block) [] := by
  induction frames with
  | nil =>
      refine .rest fun i n h => ?_
      rcases h.break with hbreak | hbreak <;> simp at hbreak
  | cons f frames ih =>
      rw [List.flatMap_cons, Frame.bytes_eq, List.append_assoc, List.map_cons]
      exact .frame f.isSep (fun i hi n => block_leftmost f.eol f.lines _ hi n) ih

/-! ## What a frame is parsed to -/

theorem stripSuffix_of_notMem {c : Char} {cs : List Char} (h : c ∉ cs) :
    stripSuffix c cs = none :=
  if_neg fun hlast => h (List.mem_of_getLast? hlast)

/-- A line with its ending is one line of the text, without its ending. -/
theorem FrameLine.lines_append (l : FrameLine) (e : Eol) (more : List Char) :
    lines (l.text ++ (e.text ++ more)) = l.text :: lines more := by
  cases e with
  | lf =>
      have hlines := lines_append_newline l.noLf more
      rw [stripSuffix_of_notMem l.noCr] at hlines
      exact hlines
  | crlf =>
      have hnoLf : '\n' ∉ l.text ++ ['\r'] := by
        simp [l.noLf]
      have hstrip : stripSuffix '\r' (l.text ++ ['\r']) = some l.text := by
        simp [stripSuffix]
      have hlines := lines_append_newline hnoLf more
      rw [hstrip, List.append_assoc] at hlines
      exact hlines

/-- **The lines of a frame are its lines.** -/
theorem lines_intercalate (e : Eol) (ls : List FrameLine) :
    lines (e.text.intercalate (ls.map FrameLine.text)) = ls.map FrameLine.text := by
  induction ls with
  | nil => rfl
  | cons l ls ih =>
      cases ls with
      | nil =>
          rw [List.map_singleton, List.intercalate_singleton, lines_of_not_mem l.noLf,
            if_neg l.nonempty]
      | cons l' ls =>
          simp only [List.map_cons, List.intercalate_cons_cons] at ih ⊢
          rw [List.append_assoc, l.lines_append, ih]

theorem Frame.dataValues_eq (f : Frame) : dataValues (String.ofList f.text) = f.values := by
  rw [dataValues, String.toList_ofList, text, lines_intercalate, List.filterMap_map, values]
  induction f.lines with
  | nil => rfl
  | cons l ls ih =>
      rw [List.filterMap_cons, Function.comp_apply, dataValue_eq, ih]
      by_cases hdata : l.IsData
      · rw [if_pos hdata, List.filter_cons_of_pos (by simpa using hdata)]
        rfl
      · rw [if_neg hdata, List.filter_cons_of_neg (by simpa using hdata)]

theorem Frame.head?_text (f : Frame) :
    f.text.head? = f.lines.head?.bind fun l => l.text.head? := by
  obtain ⟨l, ls, hlines⟩ := List.exists_cons_of_ne_nil f.nonempty
  obtain ⟨c, cs, htext⟩ := List.exists_cons_of_ne_nil l.nonempty
  rw [text, hlines]
  cases ls with
  | nil => simp [htext]
  | cons l' ls => simp [htext, List.intercalate_cons_cons]

theorem Frame.opens_iff (f : Frame) : f.Opens ↔ f.text.head? ≠ some ':' := by
  rw [f.head?_text, Opens]
  obtain ⟨l, ls, hlines⟩ := List.exists_cons_of_ne_nil f.nonempty
  simp [hlines, FrameLine.IsComment]

/-- **What a frame is parsed to**: the comment it opens with, or what its data lines
carry. -/
theorem Frame.parseBlock_eq (f : Frame) :
    parseBlock f.block =
      if f.text.head? = some ':' then
        some ⟨.comment (String.ofList f.text), f.block.length⟩
      else f.event := by
  have hdecoded : fromUtf8 f.block = .ok (String.ofList f.text) := by
    rw [fromUtf8_eq_ok_iff_asBytes, asBytes, String.toList_ofList, f.block_eq]
  unfold parseBlock
  simp only [hdecoded, String.toList_ofList, f.dataValues_eq]
  by_cases hcomment : f.text.head? = some ':'
  · rw [if_pos hcomment, if_pos hcomment]
  · rw [if_neg hcomment, if_neg hcomment, event, payload]
    by_cases hnone : f.values = []
    · simp [hnone]
    · simp [hnone]

/-! ## Acceptance -/

/-- **The parser accepts its grammar.**  Frames that do not open with a comment line,
written with any line endings and delivered in any division without an overflow, come
out as what their data lines carry, in order, and nothing else does; no byte is left
over. -/
theorem parser_accepts (frames : List Frame) (opens : ∀ f ∈ frames, f.Opens) (limit : ℕ)
    (chunks : List (List UInt8)) (whole : chunks.flatten = frames.flatMap Frame.bytes)
    (fits : ((SseParser.withLimit limit).pushAll chunks).stop = none) :
    ((SseParser.withLimit limit).pushAll chunks).out = frames.filterMap Frame.event ∧
      ((SseParser.withLimit limit).pushAll chunks).state.buf = [] := by
  have hdecomposes := decomposes_frames_bytes frames
  rw [← whole] at hdecomposes
  obtain ⟨hout, hbuf⟩ := pushAll_decomposes fits hdecomposes
  rw [hout, hbuf, List.filterMap_map]
  refine ⟨List.filterMap_congr fun f hf => ?_, rfl⟩
  rw [Function.comp_apply, f.parseBlock_eq, if_neg (f.opens_iff.mp (opens f hf))]

/-- A frame of two data lines, one without any, and one of a bare field name. -/
def exampleFrames : List Frame :=
  [⟨[⟨"event: chunk".toList, by decide, by decide, by decide⟩,
      ⟨"data: one".toList, by decide, by decide, by decide⟩,
      ⟨"data:  two".toList, by decide, by decide, by decide⟩], by simp, .lf⟩,
    ⟨[⟨"id: 7".toList, by decide, by decide, by decide⟩], by simp, .crlf⟩,
    ⟨[⟨"data".toList, by decide, by decide, by decide⟩], by simp, .crlf⟩]

theorem parser_accepts_exampleFrames :
    ((SseParser.withLimit 40).pushAll [asBytes "event: chunk\ndata: one\ndata:  two\n",
        asBytes "\nid: 7\r", asBytes "\n\r\ndata\r\n\r\n"]).out.map SseEvent.payload =
      [.data "one\n two", .data ""] := by
  have hopens : ∀ f ∈ exampleFrames, f.text.head? ≠ some ':' := by decide
  rw [(parser_accepts exampleFrames (fun f hf => f.opens_iff.mpr (hopens f hf)) 40 _
    (by decide +kernel) (by decide +kernel)).1]
  decide +kernel

end RarChat
