import RarChat.SseFraming
import RarChat.Utf8

/-!
# Undecodable frames

Decoding happens on complete frames, so an `undecodable` event should accuse the peer,
not the reads or the framing.  It does: terminators are ASCII, and cutting at ASCII bytes
cuts between characters, so a byte sequence is well-formed exactly when all its frames
and its unterminated tail are (`Decomposes.wellFormed_iff`).  A stream received in any
pushes has an undecodable event exactly when it is ill-formed as a whole, and each such
event carries the bytes of its frame (`undecodable_iff_illFormed`).
-/

namespace RarChat

/-- **The events of a whole stream**: those of its pushes, and at the end those of the
flushed tail. -/
def SseParser.received (p : SseParser) (chunks : List (List UInt8)) : List SseEvent :=
  (p.pushAll chunks).out ++ (p.pushAll chunks).state.finishWithResidue.1

/-! ## One frame -/

/-- **What is undecodable**: a frame that is no text, and the event carries its bytes. -/
theorem parseBlock_eq_undecodable_iff {block raw : List UInt8} {error : String} {n : ℕ} :
    parseBlock block = some ⟨.undecodable raw error, n⟩ ↔
      (∃ e, fromUtf8 block = .error e ∧ e.display = error) ∧
        raw = block ∧ n = block.length := by
  unfold parseBlock
  cases fromUtf8 block with
  | error e =>
      constructor
      · rintro ⟨⟩
        exact ⟨⟨e, rfl, rfl⟩, rfl, rfl⟩
      · rintro ⟨⟨_, ⟨⟩, rfl⟩, rfl, rfl⟩
        rfl
  | ok text =>
      refine iff_of_false (fun h => ?_) (fun ⟨⟨_, he, _⟩, _⟩ => nomatch he)
      dsimp only at h
      split_ifs at h <;> cases h

theorem not_wellFormed_iff {bytes : List UInt8} :
    ¬WellFormed bytes ↔ ∃ e, fromUtf8 bytes = .error e := by
  rw [wellFormed_iff]
  cases fromUtf8 bytes <;> simp

theorem exists_undecodable_iff {block : List UInt8} :
    (∃ raw error n, parseBlock block = some ⟨.undecodable raw error, n⟩) ↔
      ¬WellFormed block := by
  simp only [parseBlock_eq_undecodable_iff]
  constructor
  · rintro ⟨raw, error, n, ⟨e, he, -⟩, -⟩
    exact not_wellFormed_iff.mpr ⟨e, he⟩
  · intro illFormed
    obtain ⟨e, he⟩ := not_wellFormed_iff.mp illFormed
    exact ⟨block, e.display, block.length, ⟨e, he, rfl⟩, rfl, rfl⟩

/-! ## All frames -/

theorem ascii_of_isSep {sep : List UInt8} (isSep : sep = lfLf ∨ sep = crlfCrlf) :
    (∀ b ∈ sep, b < 0x80) ∧ sep ≠ [] := by
  rcases isSep with rfl | rfl
  · exact ⟨by simp [lfLf], lfLf_ne_nil⟩
  · exact ⟨by simp [crlfCrlf], crlfCrlf_ne_nil⟩

/-- **Terminators cut between characters**: a byte sequence is well-formed exactly when
its blocks and its rest are. -/
theorem Decomposes.wellFormed_iff {bytes : List UInt8} {blocks : List (List UInt8)}
    {rest : List UInt8} (h : Decomposes bytes blocks rest) :
    WellFormed bytes ↔ ∀ block ∈ blocks ++ [rest], WellFormed block := by
  induction h with
  | rest free => simp
  | frame isSep leftmost later ih =>
      obtain ⟨ascii, nonempty⟩ := ascii_of_isSep isSep
      rw [wellFormed_append_iff ascii nonempty, ih, List.cons_append, List.forall_mem_cons]

/-- A stream that never overflows is received as the events of its frames, the
unterminated tail among them. -/
theorem received_eq {limit : ℕ} {chunks : List (List UInt8)} {blocks : List (List UInt8)}
    {rest : List UInt8} (fits : ((SseParser.withLimit limit).pushAll chunks).stop = none)
    (h : Decomposes chunks.flatten blocks rest) :
    (SseParser.withLimit limit).received chunks = (blocks ++ [rest]).filterMap parseBlock := by
  obtain ⟨hdelivered, htail⟩ := pushAll_decomposes fits h
  rw [SseParser.received, SseParser.finishWithResidue_eq, hdelivered, htail,
    List.filterMap_append, List.filterMap_cons]
  cases parseBlock rest <;> rfl

/-- **Strict decoding blames only the peer.**  However a byte sequence is divided into
pushes, some event is undecodable exactly when the whole sequence is not well-formed
UTF-8, and every undecodable event is that of a frame and carries exactly its bytes. -/
theorem undecodable_iff_illFormed (limit : ℕ) (chunks : List (List UInt8))
    (fits : ((SseParser.withLimit limit).pushAll chunks).stop = none) :
    ((∃ ev ∈ (SseParser.withLimit limit).received chunks, ∃ raw error,
        ev.payload = .undecodable raw error) ↔ ¬WellFormed chunks.flatten) ∧
      ∃ blocks rest, Decomposes chunks.flatten blocks rest ∧
        (SseParser.withLimit limit).received chunks =
          (blocks ++ [rest]).filterMap parseBlock ∧
        ∀ block raw error n, parseBlock block = some ⟨.undecodable raw error, n⟩ →
          raw = block ∧ n = block.length := by
  have hframes := decomposes_frames chunks.flatten
  refine ⟨?_, _, _, hframes, received_eq fits hframes, ?_⟩
  · rw [received_eq fits hframes, hframes.wellFormed_iff]
    push Not
    constructor
    · rintro ⟨⟨payload, n⟩, hev, raw, error, rfl⟩
      obtain ⟨block, hblock, hparse⟩ := List.mem_filterMap.mp hev
      exact ⟨block, hblock, exists_undecodable_iff.mp ⟨raw, error, n, hparse⟩⟩
    · rintro ⟨block, hblock, illFormed⟩
      obtain ⟨raw, error, n, hparse⟩ := exists_undecodable_iff.mpr illFormed
      exact ⟨_, List.mem_filterMap.mpr ⟨block, hblock, hparse⟩, raw, error, rfl⟩
  · intro block raw error n hparse
    exact (parseBlock_eq_undecodable_iff.mp hparse).2

/-- `data: café`, cut inside its last character: nothing is undecodable. -/
theorem undecodable_iff_illFormed_split :
    ¬∃ ev ∈ (SseParser.withLimit 64).received
        [[100, 97, 116, 97, 58, 32, 99, 97, 102, 0xC3], [0xA9, 10, 10]],
      ∃ raw error, ev.payload = .undecodable raw error := by
  have hiff := (undecodable_iff_illFormed 64
    [[100, 97, 116, 97, 58, 32, 99, 97, 102, 0xC3], [0xA9, 10, 10]] (by decide)).1
  intro hundecodable
  exact hiff.mp hundecodable ⟨"data: café\n\n", by decide +kernel⟩

end RarChat
