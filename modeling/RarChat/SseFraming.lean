import RarChat.Sse

/-!
# Framing is independent of delivery

What a byte sequence contains is stated without the parser: `Decomposes` cuts at
the leftmost terminator, again and again, until none is left.  A sequence has
exactly one decomposition (`decomposes_iff`), and every division of it into
pushes that never overflow returns the events of its blocks and ends with its
rest in the buffer (`push_framing_independent`).
-/

namespace RarChat

open EarlyExit

/-! ## The decomposition of a byte sequence -/

/-- A frame terminator, `LF LF` or `CR LF CR LF`, of `n` bytes starts at `i`. -/
def TerminatorAt (bytes : List UInt8) (i n : ℕ) : Prop :=
  (n = 2 ∧ OccursAt lfLf bytes i) ∨ (n = 4 ∧ OccursAt crlfCrlf bytes i)

/-- **Cut repeatedly at the leftmost terminator**: `bytes` is the blocks with a
terminator behind each, followed by a rest without a terminator. -/
inductive Decomposes : List UInt8 → List (List UInt8) → List UInt8 → Prop
  | rest {bytes : List UInt8} (free : ∀ i n, ¬TerminatorAt bytes i n) :
      Decomposes bytes [] bytes
  | frame {block sep tail : List UInt8} {blocks : List (List UInt8)}
      {rest : List UInt8} (isSep : sep = lfLf ∨ sep = crlfCrlf)
      (leftmost : ∀ i < block.length, ∀ n,
        ¬TerminatorAt (block ++ (sep ++ tail)) i n)
      (later : Decomposes tail blocks rest) :
      Decomposes (block ++ (sep ++ tail)) (block :: blocks) rest

/-- `CR LF CR LF` and `LF LF` never start at the same byte. -/
theorem not_both_at {bytes : List UInt8} {i : ℕ} (hlf : OccursAt lfLf bytes i) :
    ¬OccursAt crlfCrlf bytes i := by
  intro hcrlf
  have h1 : bytes[i + 0]? = some 10 := hlf.getElem? (k := 0) rfl
  have h2 : bytes[i + 0]? = some 13 := hcrlf.getElem? (k := 0) rfl
  rw [h2] at h1
  exact absurd h1 (by decide)

theorem terminator_eq_none_iff {bytes : List UInt8} :
    terminator bytes = none ↔ ∀ i n, ¬TerminatorAt bytes i n := by
  have hfind : terminator bytes = none ↔
      find bytes lfLf = none ∧ find bytes crlfCrlf = none := by
    unfold terminator
    cases find bytes lfLf with
    | none => cases find bytes crlfCrlf <;> simp
    | some a =>
        cases find bytes crlfCrlf with
        | none => simp
        | some b =>
            dsimp only
            split_ifs <;> simp
  rw [hfind, find_eq_none_iff lfLf_ne_nil, find_eq_none_iff crlfCrlf_ne_nil]
  constructor
  · rintro ⟨hlf, hcr⟩ i n (⟨-, hocc⟩ | ⟨-, hocc⟩)
    · exact hlf i hocc
    · exact hcr i hocc
  · intro h
    exact ⟨fun i hocc => h i 2 (.inl ⟨rfl, hocc⟩), fun i hocc => h i 4 (.inr ⟨rfl, hocc⟩)⟩

/-- No terminator starts before the one that `terminator` finds. -/
theorem terminator_leftmost {bytes : List UInt8} {i n : ℕ}
    (h : terminator bytes = some (i, n)) : ∀ j < i, ∀ m, ¬TerminatorAt bytes j m := by
  intro j hj m hm
  unfold terminator at h
  cases hlf : find bytes lfLf with
  | none =>
      have hnoLf := (find_eq_none_iff lfLf_ne_nil).mp hlf
      cases hcr : find bytes crlfCrlf with
      | none => simp [hlf, hcr] at h
      | some b =>
          obtain ⟨-, hleast⟩ := (find_eq_some_iff crlfCrlf_ne_nil).mp hcr
          simp only [hlf, hcr, Option.some.injEq, Prod.mk.injEq] at h
          rcases hm with ⟨-, hocc⟩ | ⟨-, hocc⟩
          · exact hnoLf j hocc
          · exact hleast j (by omega) hocc
  | some a =>
      obtain ⟨-, hleastA⟩ := (find_eq_some_iff lfLf_ne_nil).mp hlf
      cases hcr : find bytes crlfCrlf with
      | none =>
          have hnoCr := (find_eq_none_iff crlfCrlf_ne_nil).mp hcr
          simp only [hlf, hcr, Option.some.injEq, Prod.mk.injEq] at h
          rcases hm with ⟨-, hocc⟩ | ⟨-, hocc⟩
          · exact hleastA j (by omega) hocc
          · exact hnoCr j hocc
      | some b =>
          obtain ⟨-, hleastB⟩ := (find_eq_some_iff crlfCrlf_ne_nil).mp hcr
          simp only [hlf, hcr] at h
          have hle : j < a ∧ j < b := by
            split_ifs at h <;> cases h <;> omega
          rcases hm with ⟨-, hocc⟩ | ⟨-, hocc⟩
          · exact hleastA j hle.1 hocc
          · exact hleastB j hle.2 hocc

/-- Terminators at the same byte are of the same kind. -/
theorem TerminatorAt.unique {bytes : List UInt8} {i n m : ℕ} (hn : TerminatorAt bytes i n)
    (hm : TerminatorAt bytes i m) : n = m := by
  rcases hn with ⟨rfl, hocc⟩ | ⟨rfl, hocc⟩ <;> rcases hm with ⟨rfl, hocc'⟩ | ⟨rfl, hocc'⟩
  · rfl
  · exact absurd hocc' (not_both_at hocc)
  · exact absurd hocc (not_both_at hocc')
  · rfl

/-- **`terminator` finds the terminator before which none starts.** -/
theorem terminator_eq_some_iff {bytes : List UInt8} {i n : ℕ} :
    terminator bytes = some (i, n) ↔
      TerminatorAt bytes i n ∧ ∀ j < i, ∀ m, ¬TerminatorAt bytes j m := by
  constructor
  · intro h
    exact ⟨terminator_cases h, terminator_leftmost h⟩
  · rintro ⟨hat, hleast⟩
    cases hterm : terminator bytes with
    | none => exact absurd hat (terminator_eq_none_iff.mp hterm i n)
    | some c =>
        -- whatever is found is leftmost as well
        obtain ⟨j, m⟩ := c
        have hat' : TerminatorAt bytes j m := terminator_cases hterm
        rcases Nat.lt_trichotomy j i with lt | rfl | gt
        · exact absurd hat' (hleast j lt m)
        · rw [hat.unique hat']
        · exact absurd hat (terminator_leftmost hterm i gt n)

/-- A terminator of `n` bytes at `i` is what stands there. -/
theorem TerminatorAt.take_drop {bytes : List UInt8} {i n : ℕ}
    (h : TerminatorAt bytes i n) :
    (bytes.drop i).take n = lfLf ∨ (bytes.drop i).take n = crlfCrlf := by
  rcases h with ⟨rfl, hocc⟩ | ⟨rfl, hocc⟩
  · exact .inl (List.prefix_iff_eq_take.mp hocc).symm
  · exact .inr (List.prefix_iff_eq_take.mp hocc).symm

theorem terminatorAt_append {block sep tail : List UInt8}
    (isSep : sep = lfLf ∨ sep = crlfCrlf) :
    TerminatorAt (block ++ (sep ++ tail)) block.length sep.length := by
  rcases isSep with rfl | rfl
  · exact .inl ⟨rfl, by simp [OccursAt]⟩
  · exact .inr ⟨rfl, by simp [OccursAt]⟩

/-- The cutter's blocks and rest are a decomposition. -/
theorem decomposes_frames (bytes : List UInt8) :
    Decomposes bytes ((sseCutter.frames bytes).map Cutter.Piece.block)
      (frameRest bytes) := by
  induction bytes using sseCutter.cut_induction with
  | done bytes h =>
      rw [sseCutter.frames_of_none h, frameRest, sseCutter.rest_of_none h]
      exact .rest (terminator_eq_none_iff.mp h)
  | step bytes i n h ih =>
      obtain ⟨hat, hleast⟩ := terminator_eq_some_iff.mp h
      have hfits := sseCutter.fits h
      have split : bytes.take i ++ ((bytes.drop i).take n ++ bytes.drop (i + n)) =
          bytes := by
        rw [← List.drop_drop, List.take_append_drop, List.take_append_drop]
      have hlen : (bytes.take i).length = i := by
        rw [List.length_take]
        omega
      rw [sseCutter.frames_of_some h, frameRest, sseCutter.rest_of_some h]
      have hleast' : ∀ j < (bytes.take i).length, ∀ m, ¬TerminatorAt
          (bytes.take i ++ ((bytes.drop i).take n ++ bytes.drop (i + n))) j m := by
        intro j hj m
        rw [split]
        exact hleast j (by omega) m
      have hframe := Decomposes.frame hat.take_drop hleast' ih
      rwa [split] at hframe

/-- **A byte sequence has exactly one decomposition**, the cutter's. -/
theorem decomposes_iff {bytes : List UInt8} {blocks : List (List UInt8)}
    {rest : List UInt8} :
    Decomposes bytes blocks rest ↔
      blocks = (sseCutter.frames bytes).map Cutter.Piece.block ∧
        rest = frameRest bytes := by
  constructor
  · intro h
    induction h with
    | rest free =>
        have hnone : sseCutter.next _ = none := terminator_eq_none_iff.mpr free
        rw [sseCutter.frames_of_none hnone, frameRest, sseCutter.rest_of_none hnone]
        exact ⟨rfl, rfl⟩
    | @frame block sep tail blocks rest isSep leftmost later ih =>
        have hnext : sseCutter.next (block ++ (sep ++ tail)) =
            some (block.length, sep.length) :=
          terminator_eq_some_iff.mpr ⟨terminatorAt_append isSep, leftmost⟩
        have hdrop : (block ++ (sep ++ tail)).drop (block.length + sep.length) =
            tail := by
          rw [← List.drop_drop, List.drop_left, List.drop_left]
        rw [sseCutter.frames_of_some hnext, frameRest, sseCutter.rest_of_some hnext,
          hdrop, ih.1, ih.2]
        simp [frameRest]
  · rintro ⟨rfl, rfl⟩
    exact decomposes_frames bytes

/-- The events of a byte sequence are those of its blocks. -/
theorem Decomposes.events {bytes : List UInt8} {blocks : List (List UInt8)}
    {rest : List UInt8} (h : Decomposes bytes blocks rest) :
    frameEvents bytes = blocks.filterMap parseBlock := by
  rw [(decomposes_iff.mp h).1, List.filterMap_map]
  rfl

/-! ## Delivering a byte sequence in pushes -/

/-- One push, as a pass of a loop that an overflow leaves. -/
def pushStep (p : SseParser) (chunk : List UInt8) :
    Outcome SseParser SseEvent SseOverflow :=
  match p.push chunk with
  | (p', .ok events) => ⟨p', events, none⟩
  | (p', .error overflow) => ⟨p', [], some overflow⟩

/-- Push the chunks one after the other: the events of all pushes, the parser
left behind, and the overflow that ended it, if one did. -/
def SseParser.pushAll (p : SseParser) (chunks : List (List UInt8)) :
    Outcome SseParser SseEvent SseOverflow :=
  run pushStep p chunks

theorem pushStep_running {p : SseParser} {chunk : List UInt8}
    (h : (pushStep p chunk).stop = none) :
    (pushStep p chunk).state = { p with buf := frameRest (p.buf ++ chunk) } ∧
      (pushStep p chunk).out = frameEvents (p.buf ++ chunk) := by
  unfold pushStep at h ⊢
  rw [SseParser.push_eq] at h ⊢
  by_cases hlong : p.limitBytes < (frameRest (p.buf ++ chunk)).length
  · simp [hlong] at h
  · simp [hlong]

theorem pushAll_running {p : SseParser} (between : frameRest p.buf = p.buf)
    {chunks : List (List UInt8)} (h : (p.pushAll chunks).stop = none) :
    (p.pushAll chunks).out = frameEvents (p.buf ++ chunks.flatten) ∧
      (p.pushAll chunks).state.buf = frameRest (p.buf ++ chunks.flatten) := by
  induction chunks generalizing p with
  | nil =>
      simp [SseParser.pushAll, frameEvents_of_rest between, between]
  | cons chunk chunks ih =>
      unfold SseParser.pushAll at h ⊢
      cases hstep : (pushStep p chunk).stop with
      | some e =>
          rw [run_cons_of_stop _ hstep, hstep] at h
          cases h
      | none =>
          -- the rest of this push is a buffer between two frames again
          obtain ⟨hstate, hout⟩ := pushStep_running hstep
          rw [run_cons_of_running _ hstep] at h ⊢
          rw [hstate] at h ⊢
          obtain ⟨hout', hbuf'⟩ :=
            ih (p := { p with buf := frameRest (p.buf ++ chunk) })
              (frameRest_idem _) h
          simp only [SseParser.pushAll] at hout' hbuf'
          rw [Outcome.after_out, Outcome.after_state, hout, hout', hbuf',
            List.flatten_cons, ← List.append_assoc,
            frameEvents_append (p.buf ++ chunk), frameRest_append (p.buf ++ chunk)]
          exact ⟨rfl, rfl⟩

/-- Pushes without an overflow return the events of the blocks of what was pushed, and the
buffer holds its rest. -/
theorem pushAll_decomposes {limit : ℕ} {chunks blocks : List (List UInt8)}
    {rest : List UInt8} (fits : ((SseParser.withLimit limit).pushAll chunks).stop = none)
    (h : Decomposes chunks.flatten blocks rest) :
    ((SseParser.withLimit limit).pushAll chunks).out = blocks.filterMap parseBlock ∧
      ((SseParser.withLimit limit).pushAll chunks).state.buf = rest := by
  obtain ⟨hout, hbuf⟩ :=
    pushAll_running (p := SseParser.withLimit limit) frameRest_nil fits
  exact ⟨hout.trans h.events, hbuf.trans (decomposes_iff.mp h).2.symm⟩

/-- **Framing is independent of how the network splits the bytes.**  A byte
sequence `B` determines its blocks and its rest, and every division of it into
pushes without an overflow, at any bound, returns the events of the blocks, in
order, and leaves the rest in the buffer. -/
theorem push_framing_independent (B : List UInt8) :
    ∃ blocks rest, Decomposes B blocks rest ∧
      (∀ blocks' rest', Decomposes B blocks' rest' →
        blocks' = blocks ∧ rest' = rest) ∧
      ∀ (limit : ℕ) (chunks : List (List UInt8)), chunks.flatten = B →
        ((SseParser.withLimit limit).pushAll chunks).stop = none →
          ((SseParser.withLimit limit).pushAll chunks).out =
              blocks.filterMap parseBlock ∧
            ((SseParser.withLimit limit).pushAll chunks).state.buf = rest := by
  refine ⟨_, _, decomposes_frames B, ?_, ?_⟩
  · intro blocks' rest' h
    exact decomposes_iff.mp h
  · rintro limit chunks rfl hstop
    exact pushAll_decomposes hstop (decomposes_frames _)

/-- A frame ended by `CR LF CR LF`, delivered in one push and cut inside its
terminator: `data: a`, then the unterminated `d`. -/
theorem push_framing_independent_split :
    ((SseParser.withLimit 16).pushAll
        [[100, 97, 116, 97, 58, 32, 97, 13, 10], [13], [10, 100]]).out =
      ((SseParser.withLimit 16).pushAll
        [[100, 97, 116, 97, 58, 32, 97, 13, 10, 13, 10, 100]]).out := by
  obtain ⟨blocks, rest, -, -, deliver⟩ := push_framing_independent
    [100, 97, 116, 97, 58, 32, 97, 13, 10, 13, 10, 100]
  exact (deliver 16 _ rfl (by decide)).1.trans
    (deliver 16 _ rfl (by decide)).1.symm

end RarChat
