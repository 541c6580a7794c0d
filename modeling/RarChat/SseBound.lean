import Mathlib.Order.Bounds.Defs
import RarChat.SseFraming

/-!
# The bound of the parser is exact

`push` measures its buffer behind the cutting loop.  What it measures is the rest of
everything pushed so far, an overflow included: the bytes stay in the buffer, and the next
push goes on with them (`pushEach_getElem?`).  Whether a push overflows is therefore a
question about the bytes alone, and a division into smaller pushes asks it more often
(`overflowsAt_of_pieces`).
-/

namespace RarChat

/-! ## Pushes that go on behind an overflow -/

/-- Push the chunks one after the other, whatever the pushes return: the parser behind
each push, with what the push returned. -/
def SseParser.pushEach (p : SseParser) :
    List (List UInt8) → List (SseParser × Except SseOverflow (List SseEvent))
  | [] => []
  | chunk :: chunks => p.push chunk :: SseParser.pushEach (p.push chunk).1 chunks

/-- Push number `n` of a parser with this limit returns `SseOverflow`. -/
def OverflowsAt (limit : ℕ) (chunks : List (List UInt8)) (n : ℕ) : Prop :=
  ∃ q overflow,
    ((SseParser.withLimit limit).pushEach chunks)[n]? = some (q, .error overflow)

/-- The bytes of the first `n` pushes leave `rest` behind their last terminator. -/
def Leaves (chunks : List (List UInt8)) (n : ℕ) (rest : List UInt8) : Prop :=
  ∃ blocks, Decomposes (chunks.take n).flatten blocks rest

/-- Behind push number `n`, more bytes are left than the limit. -/
def ExceedsAt (limit : ℕ) (chunks : List (List UInt8)) (n : ℕ) : Prop :=
  n < chunks.length ∧ ∃ rest, Leaves chunks (n + 1) rest ∧ limit < rest.length

theorem leaves_iff {chunks : List (List UInt8)} {n : ℕ} {rest : List UInt8} :
    Leaves chunks n rest ↔ rest = frameRest (chunks.take n).flatten := by
  constructor
  · rintro ⟨blocks, h⟩
    exact (decomposes_iff.mp h).2
  · rintro rfl
    exact ⟨_, decomposes_frames _⟩

theorem SseParser.length_pushEach (p : SseParser) (chunks : List (List UInt8)) :
    (p.pushEach chunks).length = chunks.length := by
  induction chunks generalizing p with
  | nil => rfl
  | cons chunk chunks ih =>
      show (SseParser.pushEach (p.push chunk).1 chunks).length + 1 = chunks.length + 1
      rw [ih]

/-- The parser behind a push: the rest of its bytes, at the same limit. -/
theorem SseParser.push_fst (p : SseParser) (chunk : List UInt8) :
    (p.push chunk).1 = { p with buf := frameRest (p.buf ++ chunk) } := by
  rw [SseParser.push_eq]

/-- **Each push meets the rest of everything before it**, also behind an overflow. -/
theorem SseParser.pushEach_getElem? {p : SseParser} (between : frameRest p.buf = p.buf)
    (chunks : List (List UInt8)) (n : ℕ) :
    (p.pushEach chunks)[n]? = chunks[n]?.map fun chunk =>
      SseParser.push { p with buf := frameRest (p.buf ++ (chunks.take n).flatten) } chunk := by
  induction chunks generalizing p n with
  | nil => rfl
  | cons chunk chunks ih =>
      cases n with
      | zero =>
          show some (p.push chunk) = _
          simp [between]
      | succ n =>
          show (SseParser.pushEach (p.push chunk).1 chunks)[n]? = _
          rw [SseParser.push_fst, ih (frameRest_idem _), List.getElem?_cons_succ,
            List.take_succ_cons, List.flatten_cons, ← List.append_assoc,
            frameRest_append (p.buf ++ chunk)]

/-- What push number `n` leaves behind, and when it overflows. -/
theorem pushEach_withLimit_getElem? (limit : ℕ) (chunks : List (List UInt8)) (n : ℕ) :
    ((SseParser.withLimit limit).pushEach chunks)[n]? = chunks[n]?.map fun chunk =>
      (⟨frameRest (chunks.take (n + 1)).flatten, limit⟩,
        if limit < (frameRest (chunks.take (n + 1)).flatten).length then .error ⟨limit⟩
        else .ok (frameEvents (frameRest (chunks.take n).flatten ++ chunk))) := by
  rw [SseParser.pushEach_getElem? frameRest_nil]
  cases hchunk : chunks[n]? with
  | none => rfl
  | some chunk =>
      have hsplit : (chunks.take (n + 1)).flatten = (chunks.take n).flatten ++ chunk := by
        rw [List.take_add_one, hchunk, List.flatten_append]
        simp
      rw [Option.map_some, Option.map_some, SseParser.push_eq, hsplit,
        frameRest_append (chunks.take n).flatten]
      rfl

/-- **A push overflows exactly when its bytes leave more than the limit.** -/
theorem overflowsAt_iff {limit : ℕ} {chunks : List (List UInt8)} {n : ℕ} :
    OverflowsAt limit chunks n ↔ ExceedsAt limit chunks n := by
  unfold OverflowsAt ExceedsAt
  rw [pushEach_withLimit_getElem?]
  constructor
  · rintro ⟨q, overflow, h⟩
    obtain ⟨chunk, hchunk, hresult⟩ := Option.map_eq_some_iff.mp h
    refine ⟨(List.getElem?_eq_some_iff.mp hchunk).1, _, leaves_iff.mpr rfl, ?_⟩
    by_contra hfits
    rw [if_neg hfits] at hresult
    cases hresult
  · rintro ⟨hn, rest, hleaves, hlong⟩
    obtain rfl := leaves_iff.mp hleaves
    refine ⟨⟨frameRest (chunks.take (n + 1)).flatten, limit⟩, ⟨limit⟩, ?_⟩
    rw [List.getElem?_eq_getElem hn, Option.map_some, if_pos hlong]

/-! ## Smaller pushes -/

/-- The pieces of the first `k` pushes are the first ones of all pieces. -/
theorem take_flatten (pieces : List (List (List UInt8))) (k : ℕ) :
    pieces.flatten.take (pieces.take k).flatten.length = (pieces.take k).flatten := by
  have hsplit : (pieces.take k).flatten ++ (pieces.drop k).flatten = pieces.flatten := by
    rw [← List.flatten_append, List.take_append_drop]
  rw [← hsplit]
  exact List.take_left

/-- **Splitting keeps an overflow**: what a push exceeds the limit by is still there
behind the last piece of it. -/
theorem overflowsAt_of_pieces {limit : ℕ} {pieces : List (List (List UInt8))} {k : ℕ}
    (h : OverflowsAt limit (pieces.map List.flatten) k) :
    OverflowsAt limit pieces.flatten ((pieces.take (k + 1)).flatten.length - 1) := by
  obtain ⟨-, rest, hleaves, hlong⟩ := overflowsAt_iff.mp h
  have hbytes : ((pieces.map List.flatten).take (k + 1)).flatten =
      (pieces.take (k + 1)).flatten.flatten := by
    rw [← List.map_take, List.flatten_flatten]
  rw [leaves_iff, hbytes] at hleaves
  -- a rest beyond the limit needs a byte, hence a piece
  have hpos : 0 < (pieces.take (k + 1)).flatten.length := by
    apply List.length_pos_iff.mpr
    intro hnone
    rw [hleaves, hnone, List.flatten_nil, frameRest_nil] at hlong
    exact absurd hlong (Nat.not_lt_zero limit)
  have hlast : (pieces.take (k + 1)).flatten.length - 1 + 1 =
      (pieces.take (k + 1)).flatten.length := by omega
  apply overflowsAt_iff.mpr
  refine ⟨?_, rest, ?_, hlong⟩
  · have hle := congrArg List.length (take_flatten pieces (k + 1))
    rw [List.length_take] at hle
    omega
  · rw [leaves_iff, hlast, take_flatten]
    exact hleaves

/-! ## The bound -/

/-- **The bound is exact.**  The first push that overflows is the first one behind which
more than the limit is left.  Behind every push the buffer is what is left, without a
terminator in it, and within the limit unless the push overflowed.  If a push overflows, so
does the piece that ends where it ends, however the pushes are split. -/
theorem overflow_bound_exact (limit : ℕ) (chunks : List (List UInt8)) :
    (∀ n, IsLeast {m | OverflowsAt limit chunks m} n ↔
      IsLeast {m | ExceedsAt limit chunks m} n) ∧
    (((SseParser.withLimit limit).pushEach chunks).length = chunks.length ∧
      ∀ n q result,
        ((SseParser.withLimit limit).pushEach chunks)[n]? = some (q, result) →
          Leaves chunks (n + 1) q.buf ∧
            (∀ i, ¬OccursAt lfLf q.buf i) ∧ (∀ i, ¬OccursAt crlfCrlf q.buf i) ∧
            ∀ events, result = .ok events → q.buf.length ≤ limit) ∧
    ∀ pieces : List (List (List UInt8)), pieces.map List.flatten = chunks →
      ∀ k, OverflowsAt limit chunks k →
        OverflowsAt limit pieces.flatten ((pieces.take (k + 1)).flatten.length - 1) := by
  have hsets : {m | OverflowsAt limit chunks m} = {m | ExceedsAt limit chunks m} := by
    ext m
    exact overflowsAt_iff
  refine ⟨fun n => by rw [hsets], ⟨SseParser.length_pushEach _ _, ?_⟩, ?_⟩
  · intro n q result h
    rw [pushEach_withLimit_getElem?] at h
    obtain ⟨chunk, -, hresult⟩ := Option.map_eq_some_iff.mp h
    obtain ⟨rfl, rfl⟩ := Prod.mk.inj hresult
    have hfree := terminator_eq_none_iff.mp
      (sseCutter.next_rest (chunks.take (n + 1)).flatten)
    refine ⟨leaves_iff.mpr rfl, ?_, ?_, ?_⟩
    · intro i hocc
      exact hfree i 2 (.inl ⟨rfl, hocc⟩)
    · intro i hocc
      exact hfree i 4 (.inr ⟨rfl, hocc⟩)
    · intro events hok
      by_contra hlong
      rw [if_pos (Nat.lt_of_not_le hlong)] at hok
      cases hok
  · rintro pieces rfl k h
    exact overflowsAt_of_pieces h

/-- Four bytes without a terminator, at a limit of three, in one push and in two. -/
theorem overflow_bound_exact_split : OverflowsAt 3 [[97], [98, 99, 100]] 1 :=
  (overflow_bound_exact 3 [[97, 98, 99, 100]]).2.2 [[[97], [98, 99, 100]]] rfl 0
    ⟨⟨[97, 98, 99, 100], 3⟩, ⟨3⟩, by rfl⟩

end RarChat
