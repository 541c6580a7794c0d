import RarChat.Library.Cutter
import RarChat.Text

/-!
# Incremental SSE reassembly

The parser of `sse.rs`: bytes are buffered until a frame terminator is there,
complete frames are decoded strictly, and a rest longer than the bound is a
typed overflow.

`SseParser.push` is the source's loop (`pushLoop`), which looks for both
terminators in the whole buffer on every pass.  `sseCutter` is the same decision
as a `Cutter`; that it is one, that is, that no later byte can change a cut, is
the overlap argument between `LF LF` and `CR LF CR LF` (`terminator_stable`),
and `push_eq` reads the loop off the cutter.
-/

namespace RarChat

/-! ## Frames -/

/-- What one complete frame contained. -/
inductive SsePayload
  | comment (text : String)
  | data (text : String)
  | undecodable (raw : List UInt8) (error : String)
deriving DecidableEq, Repr

structure SseEvent where
  payload : SsePayload
  rawByteLen : ℕ
deriving DecidableEq, Repr

structure SseOverflow where
  limitBytes : ℕ
deriving DecidableEq, Repr

structure SseParser where
  buf : List UInt8
  limitBytes : ℕ
deriving DecidableEq, Repr

def defaultBufLimit : ℕ := 1048576

/-- `windows(needle.len()).position(|w| w == needle)`. -/
def position (needle : List UInt8) : List UInt8 → Option ℕ
  | [] => none
  | b :: bs =>
      if needle.isPrefixOf (b :: bs) then some 0
      else (position needle bs).map (· + 1)

def find (hay needle : List UInt8) : Option ℕ :=
  if needle.isEmpty || hay.length < needle.length then none
  else position needle hay

/-- `b"\n\n"`. -/
def lfLf : List UInt8 := [10, 10]

/-- `b"\r\n\r\n"`. -/
def crlfCrlf : List UInt8 := [13, 10, 13, 10]

/-- The value of a `data` line; `none` for comment lines and other fields. -/
def dataValue (line : List Char) : Option (List Char) :=
  if line.head? = some ':' then none
  else
    match splitOnce ':' line with
    | some (field, value) =>
        if field = ['d', 'a', 't', 'a'] then
          some ((stripPrefix ' ' value).getD value)
        else none
    | none => if line = ['d', 'a', 't', 'a'] then some [] else none

/-- The values of the `data` lines of a frame, in order. -/
def dataValues (text : String) : List (List Char) :=
  (lines text.toList).filterMap dataValue

/-- Parse one complete frame's bytes, terminator excluded. -/
def parseBlock (bytes : List UInt8) : Option SseEvent :=
  match fromUtf8 bytes with
  | .error e => some ⟨.undecodable bytes e.display, bytes.length⟩
  | .ok text =>
      if text.toList.head? = some ':' then some ⟨.comment text, bytes.length⟩
      else if (dataValues text).isEmpty then none
      else
        some ⟨.data (String.ofList (['\n'].intercalate (dataValues text))),
          bytes.length⟩

namespace SseParser

def withLimit (limitBytes : ℕ) : SseParser := ⟨[], limitBytes⟩

def buffered (p : SseParser) : ℕ := p.buf.length

end SseParser

/-- Where the first frame of a buffer ends, and how long its terminator is. -/
def terminator (buf : List UInt8) : Option (ℕ × ℕ) :=
  match find buf lfLf, find buf crlfCrlf with
  | some a, some b => if b < a then some (b, 4) else some (a, 2)
  | some a, none => some (a, 2)
  | none, some b => some (b, 4)
  | none, none => none

/-- The loop of `push`: cut the first frame off the buffer while there is one.
Every pass removes bytes, so the length of the buffer bounds the passes. -/
def pushLoop : ℕ → List UInt8 → List SseEvent → List UInt8 × List SseEvent
  | 0, buf, out => (buf, out)
  | fuel + 1, buf, out =>
      match terminator buf with
      | none => (buf, out)
      | some (stop, sepLen) =>
          let block := buf.take (stop + sepLen)
          pushLoop fuel (buf.drop (stop + sepLen))
            (match parseBlock (block.take stop) with
              | some ev => out ++ [ev]
              | none => out)

namespace SseParser

/-- Feed raw network bytes; receive every frame completed by them. -/
def push (p : SseParser) (chunk : List UInt8) :
    SseParser × Except SseOverflow (List SseEvent) :=
  let buf := p.buf ++ chunk
  let drained := pushLoop buf.length buf []
  let p' := { p with buf := drained.1 }
  if p.limitBytes < drained.1.length then (p', .error ⟨p.limitBytes⟩)
  else (p', .ok drained.2)

/-- Flush the unterminated tail, and return what assembled into no frame. -/
def finishWithResidue (p : SseParser) : List SseEvent × List UInt8 :=
  if p.buf.isEmpty then ([], [])
  else
    match parseBlock p.buf with
    | some ev => ([ev], [])
    | none => ([], p.buf)

end SseParser

theorem parseBlock_nil : parseBlock [] = none := by decide

/-- **What is flushed**: the frame the tail parses to, if there is one, else the tail. -/
theorem SseParser.finishWithResidue_eq (p : SseParser) :
    p.finishWithResidue =
      ((parseBlock p.buf).toList, if (parseBlock p.buf).isSome then [] else p.buf) := by
  unfold SseParser.finishWithResidue
  cases hbuf : p.buf with
  | nil =>
      rw [parseBlock_nil]
      rfl
  | cons b bytes =>
      simp only [List.isEmpty_cons, Bool.false_eq_true, if_false]
      cases parseBlock (b :: bytes) <;> rfl

/-! ## What `find` finds -/

/-- `needle` stands in `hay` at position `i`. -/
def OccursAt (needle hay : List UInt8) (i : ℕ) : Prop := needle <+: hay.drop i

instance (needle hay : List UInt8) (i : ℕ) : Decidable (OccursAt needle hay i) :=
  inferInstanceAs (Decidable (needle <+: hay.drop i))

theorem OccursAt.fits {needle hay : List UInt8} {i : ℕ} (h : OccursAt needle hay i)
    (nonempty : needle ≠ []) : i + needle.length ≤ hay.length := by
  have hlen := h.length_le
  have hpos := List.length_pos_iff.mpr nonempty
  rw [List.length_drop] at hlen
  omega

/-- More bytes behind the buffer do not disturb an occurrence. -/
theorem OccursAt.append {needle hay : List UInt8} {i : ℕ}
    (h : OccursAt needle hay i) (nonempty : needle ≠ []) (more : List UInt8) :
    OccursAt needle (hay ++ more) i := by
  have hfits := h.fits nonempty
  unfold OccursAt
  rw [List.drop_append_of_le_length (by omega)]
  exact h.trans (List.prefix_append _ _)

/-- An occurrence in a longer buffer that ends inside the shorter one is an
occurrence there. -/
theorem OccursAt.of_append {needle hay more : List UInt8} {i : ℕ}
    (h : OccursAt needle (hay ++ more) i) (inside : i + needle.length ≤ hay.length) :
    OccursAt needle hay i := by
  unfold OccursAt at h ⊢
  rw [List.drop_append_of_le_length (by omega)] at h
  refine List.prefix_of_prefix_length_le h (List.prefix_append _ _) ?_
  rw [List.length_drop]
  omega

theorem OccursAt.getElem? {needle hay : List UInt8} {i : ℕ}
    (h : OccursAt needle hay i) {k : ℕ} {b : UInt8} (hb : needle[k]? = some b) :
    hay[i + k]? = some b := by
  obtain ⟨tail, htail⟩ := h
  have hk : k < needle.length := (List.getElem?_eq_some_iff.mp hb).1
  rw [← List.getElem?_drop, ← htail, List.getElem?_append_left hk, hb]

theorem position_eq_some_iff {needle hay : List UInt8} (nonempty : needle ≠ [])
    {i : ℕ} :
    position needle hay = some i ↔
      OccursAt needle hay i ∧ ∀ j < i, ¬OccursAt needle hay j := by
  induction hay generalizing i with
  | nil => simp [position, OccursAt, nonempty]
  | cons b bs ih =>
      unfold position
      by_cases hhere : needle <+: b :: bs
      · rw [if_pos (List.isPrefixOf_iff_prefix.mpr hhere)]
        constructor
        · rintro ⟨⟩
          exact ⟨hhere, by simp⟩
        · rintro ⟨-, hleast⟩
          rcases Nat.eq_zero_or_pos i with rfl | hpos
          · rfl
          · exact absurd hhere (hleast 0 hpos)
      · rw [if_neg (by simpa using hhere), Option.map_eq_some_iff]
        constructor
        · rintro ⟨j, hj, rfl⟩
          obtain ⟨hocc, hleast⟩ := ih.mp hj
          refine ⟨by simpa [OccursAt] using hocc, fun k hk => ?_⟩
          cases k with
          | zero => exact hhere
          | succ k => simpa [OccursAt] using hleast k (by omega)
        · rintro ⟨hocc, hleast⟩
          cases i with
          | zero => exact absurd hocc hhere
          | succ i =>
              refine ⟨i, ih.mpr ⟨by simpa [OccursAt] using hocc, fun j hj => ?_⟩, rfl⟩
              simpa [OccursAt] using hleast (j + 1) (by omega)

/-- **`find` is the leftmost occurrence.** -/
theorem find_eq_some_iff {hay needle : List UInt8} (nonempty : needle ≠ []) {i : ℕ} :
    find hay needle = some i ↔
      OccursAt needle hay i ∧ ∀ j < i, ¬OccursAt needle hay j := by
  unfold find
  by_cases hshort : hay.length < needle.length
  · have hnone : ¬OccursAt needle hay i := fun h => by
      have := h.fits nonempty
      omega
    simp [hshort, hnone]
  · simp [hshort, nonempty, position_eq_some_iff nonempty]

theorem find_eq_none_iff {hay needle : List UInt8} (nonempty : needle ≠ []) :
    find hay needle = none ↔ ∀ i, ¬OccursAt needle hay i := by
  constructor
  · intro hnone i
    induction i using Nat.strongRecOn with
    | ind i ih =>
        intro hocc
        rw [(find_eq_some_iff nonempty).mpr ⟨hocc, ih⟩] at hnone
        cases hnone
  · intro h
    cases hfind : find hay needle with
    | none => rfl
    | some i => exact absurd ((find_eq_some_iff nonempty).mp hfind).1 (h i)

theorem find_append_of_some {hay needle : List UInt8} (nonempty : needle ≠ [])
    {i : ℕ} (h : find hay needle = some i) (more : List UInt8) :
    find (hay ++ more) needle = some i := by
  obtain ⟨hocc, hleast⟩ := (find_eq_some_iff nonempty).mp h
  have hfits := hocc.fits nonempty
  refine (find_eq_some_iff nonempty).mpr ⟨hocc.append nonempty more, ?_⟩
  intro j hj hocc'
  exact hleast j hj (hocc'.of_append (by omega))

/-- What is found only once more bytes have arrived ends among them. -/
theorem find_append_of_none {hay needle more : List UInt8} (nonempty : needle ≠ [])
    (h : find hay needle = none) {i : ℕ}
    (later : find (hay ++ more) needle = some i) :
    hay.length < i + needle.length := by
  by_contra hinside
  obtain ⟨hocc, -⟩ := (find_eq_some_iff nonempty).mp later
  exact (find_eq_none_iff nonempty).mp h i (hocc.of_append (by omega))

theorem lfLf_ne_nil : lfLf ≠ [] := by decide

theorem crlfCrlf_ne_nil : crlfCrlf ≠ [] := by decide

/-- Two terminators that start one byte apart would need a byte that is both a
carriage return and a line feed. -/
theorem not_crlf_before_lf {hay : List UInt8} {i : ℕ}
    (hlf : OccursAt lfLf hay (i + 1)) : ¬OccursAt crlfCrlf hay i := by
  intro hcrlf
  have h1 : hay[i + 1 + 1]? = some 10 := hlf.getElem? (k := 1) rfl
  have h2 : hay[i + 2]? = some 13 := hcrlf.getElem? (k := 2) rfl
  rw [show i + 1 + 1 = i + 2 from rfl, h2] at h1
  exact absurd h1 (by decide)

/-- **The overlap argument**: a terminator found in a buffer is the one found in
every longer buffer. -/
theorem terminator_stable {buf : List UInt8} {c : ℕ × ℕ}
    (h : terminator buf = some c) (more : List UInt8) :
    terminator (buf ++ more) = some c := by
  unfold terminator at h ⊢
  cases hlf : find buf lfLf with
  | some a =>
      have hlf' := find_append_of_some lfLf_ne_nil hlf more
      have hoccA := ((find_eq_some_iff lfLf_ne_nil).mp hlf').1
      have hfitsA : a + 2 ≤ buf.length :=
        (((find_eq_some_iff lfLf_ne_nil).mp hlf).1).fits lfLf_ne_nil
      cases hcr : find buf crlfCrlf with
      | some b =>
          rw [hlf, hcr] at h
          rw [hlf', find_append_of_some crlfCrlf_ne_nil hcr more]
          exact h
      | none =>
          rw [hlf, hcr] at h
          rw [hlf']
          cases hcr' : find (buf ++ more) crlfCrlf with
          | none => exact h
          | some b =>
              -- it would start right before `a`, where the bytes contradict
              have hlate : buf.length < b + 4 :=
                find_append_of_none crlfCrlf_ne_nil hcr hcr'
              have hoccB := ((find_eq_some_iff crlfCrlf_ne_nil).mp hcr').1
              have hge : ¬b < a := fun hlt => by
                obtain rfl : a = b + 1 := by omega
                exact not_crlf_before_lf hoccA hoccB
              simpa [hge] using h
  | none =>
      cases hcr : find buf crlfCrlf with
      | none =>
          rw [hlf, hcr] at h
          cases h
      | some b =>
          have hfitsB : b + 4 ≤ buf.length :=
            (((find_eq_some_iff crlfCrlf_ne_nil).mp hcr).1).fits crlfCrlf_ne_nil
          rw [hlf, hcr] at h
          rw [find_append_of_some crlfCrlf_ne_nil hcr more]
          cases hlf' : find (buf ++ more) lfLf with
          | none => exact h
          | some a =>
              have hlate : buf.length < a + 2 :=
                find_append_of_none lfLf_ne_nil hlf hlf'
              have hlt : b < a := by omega
              simpa [hlt] using h

/-- The two ways a terminator is found. -/
theorem terminator_cases {buf : List UInt8} {stop sepLen : ℕ}
    (h : terminator buf = some (stop, sepLen)) :
    (sepLen = 2 ∧ OccursAt lfLf buf stop) ∨
      (sepLen = 4 ∧ OccursAt crlfCrlf buf stop) := by
  unfold terminator at h
  cases hlf : find buf lfLf with
  | some a =>
      have hoccA := ((find_eq_some_iff lfLf_ne_nil).mp hlf).1
      cases hcr : find buf crlfCrlf with
      | some b =>
          have hoccB := ((find_eq_some_iff crlfCrlf_ne_nil).mp hcr).1
          simp only [hlf, hcr] at h
          split_ifs at h
          · cases h
            exact .inr ⟨rfl, hoccB⟩
          · cases h
            exact .inl ⟨rfl, hoccA⟩
      | none =>
          rw [hlf, hcr] at h
          cases h
          exact .inl ⟨rfl, hoccA⟩
  | none =>
      cases hcr : find buf crlfCrlf with
      | some b =>
          have hoccB := ((find_eq_some_iff crlfCrlf_ne_nil).mp hcr).1
          rw [hlf, hcr] at h
          cases h
          exact .inr ⟨rfl, hoccB⟩
      | none =>
          rw [hlf, hcr] at h
          cases h

/-- The terminators of the event stream as a rule for cutting. -/
def sseCutter : Cutter UInt8 where
  next := terminator
  sep_pos h := by
    rcases terminator_cases h with ⟨rfl, -⟩ | ⟨rfl, -⟩ <;> decide
  fits h := by
    rcases terminator_cases h with ⟨rfl, hocc⟩ | ⟨rfl, hocc⟩
    · exact hocc.fits lfLf_ne_nil
    · exact hocc.fits crlfCrlf_ne_nil
  stable h more := terminator_stable h more

@[simp] theorem sseCutter_next (buf : List UInt8) :
    sseCutter.next buf = terminator buf := rfl

/-- The events of a buffer's complete frames, in order. -/
def frameEvents (buf : List UInt8) : List SseEvent :=
  (sseCutter.frames buf).filterMap fun piece => parseBlock piece.block

/-- What a buffer holds behind its last complete frame. -/
def frameRest (buf : List UInt8) : List UInt8 := sseCutter.rest buf

theorem pushLoop_eq (fuel : ℕ) (buf : List UInt8) (out : List SseEvent)
    (enough : buf.length ≤ fuel) :
    pushLoop fuel buf out = (frameRest buf, out ++ frameEvents buf) := by
  induction fuel generalizing buf out with
  | zero =>
      obtain rfl : buf = [] := by simpa using enough
      have hnone : sseCutter.next [] = none := by decide
      simp [pushLoop, frameRest, frameEvents, sseCutter.frames_of_none hnone,
        sseCutter.rest_of_none hnone]
  | succ fuel ih =>
      unfold pushLoop
      cases hnext : terminator buf with
      | none =>
          simp [frameRest, frameEvents, sseCutter.frames_of_none hnext,
            sseCutter.rest_of_none hnext]
      | some c =>
          obtain ⟨stop, sepLen⟩ := c
          have hnext' : sseCutter.next buf = some (stop, sepLen) := hnext
          have shorter := sseCutter.drop_length_lt hnext'
          have hblock : (buf.take (stop + sepLen)).take stop = buf.take stop := by
            rw [List.take_take, Nat.min_eq_left (by omega)]
          simp only [hblock]
          rw [ih _ _ (by omega), frameRest, frameRest, frameEvents, frameEvents,
            sseCutter.rest_of_some hnext', sseCutter.frames_of_some hnext',
            List.filterMap_cons]
          cases parseBlock (buf.take stop) <;> simp

/-- **What a push does**, read off the cutter: cut the buffer and the chunk
together, keep the rest, and report an overflow when the rest is too long. -/
theorem SseParser.push_eq (p : SseParser) (chunk : List UInt8) :
    p.push chunk =
      ({ p with buf := frameRest (p.buf ++ chunk) },
        if p.limitBytes < (frameRest (p.buf ++ chunk)).length then
          .error ⟨p.limitBytes⟩
        else .ok (frameEvents (p.buf ++ chunk))) := by
  unfold push
  simp only [pushLoop_eq _ _ _ (Nat.le_refl _), List.nil_append]
  split_ifs <;> rfl

@[simp] theorem frameEvents_nil : frameEvents [] = [] := by decide

@[simp] theorem frameRest_nil : frameRest [] = [] := by decide

theorem frameRest_idem (buf : List UInt8) : frameRest (frameRest buf) = frameRest buf :=
  sseCutter.rest_rest buf

/-- A buffer that is its own rest, as every buffer is between reads, holds no
complete frame. -/
theorem frameEvents_of_rest {buf : List UInt8} (between : frameRest buf = buf) :
    frameEvents buf = [] := by
  rw [frameEvents, ← between, frameRest, sseCutter.frames_rest, List.filterMap_nil]

theorem frameEvents_append (xs ys : List UInt8) :
    frameEvents (xs ++ ys) = frameEvents xs ++ frameEvents (frameRest xs ++ ys) := by
  rw [frameEvents, sseCutter.frames_append, List.filterMap_append]
  rfl

theorem frameRest_append (xs ys : List UInt8) :
    frameRest (xs ++ ys) = frameRest (frameRest xs ++ ys) :=
  sseCutter.rest_append xs ys

end RarChat
