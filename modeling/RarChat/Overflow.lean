import RarChat.SseFraming

/-!
# Frames behind an overflow

`push` cuts all complete frames off its buffer and only then measures what is left.  The
events of these frames are in a local vector at that time, and the error returns without
it: a push that overflows discards the frames it completed (`pushStep_out`).  A sequence
of pushes up to its first overflow therefore delivers every completed frame exactly when
the push that overflows completes no frame with an event (`deliversAll_iff`).
-/

namespace RarChat

open EarlyExit

/-- **Every completed frame is delivered**: the pushes return the events of all the frames
that their bytes complete, in order; a frame of ignored fields has none. -/
def SseParser.DeliversAll (p : SseParser) (chunks : List (List UInt8)) : Prop :=
  ∀ blocks rest, Decomposes chunks.flatten blocks rest →
    (p.pushAll chunks).out = blocks.filterMap parseBlock

/-- The frames of more bytes are found behind the rest of the earlier ones. -/
theorem Decomposes.append {xs ys : List UInt8} {blocks cut : List (List UInt8)}
    {rest residue : List UInt8} (earlier : Decomposes xs blocks rest)
    (later : Decomposes (rest ++ ys) cut residue) :
    Decomposes (xs ++ ys) (blocks ++ cut) residue := by
  obtain ⟨rfl, rfl⟩ := decomposes_iff.mp earlier
  obtain ⟨rfl, rfl⟩ := decomposes_iff.mp later
  refine decomposes_iff.mpr ⟨?_, (frameRest_append xs ys).symm⟩
  rw [sseCutter.frames_append xs ys, List.map_append]
  rfl

/-! ## What an overflowing push returns -/

theorem pushStep_limitBytes (p : SseParser) (chunk : List UInt8) :
    (pushStep p chunk).state.limitBytes = p.limitBytes := by
  unfold pushStep
  rw [SseParser.push_eq]
  split_ifs <;> rfl

theorem pushAll_limitBytes (p : SseParser) (chunks : List (List UInt8)) :
    (p.pushAll chunks).state.limitBytes = p.limitBytes := by
  apply run_state_of_invariant pushStep (I := fun q => q.limitBytes = p.limitBytes)
  · intro q chunk hq
    exact (pushStep_limitBytes q chunk).trans hq
  · rfl

/-- **The error discards the frames of its push.** -/
theorem pushStep_out (p : SseParser) (chunk : List UInt8) :
    (pushStep p chunk).out =
      if p.limitBytes < (frameRest (p.buf ++ chunk)).length then []
      else frameEvents (p.buf ++ chunk) := by
  unfold pushStep
  rw [SseParser.push_eq]
  split_ifs <;> rfl

theorem pushAll_concat {p : SseParser} {before : List (List UInt8)} (last : List UInt8)
    (running : (p.pushAll before).stop = none) :
    p.pushAll (before ++ [last]) =
      (pushStep (p.pushAll before).state last).after (p.pushAll before).out := by
  have happend : p.pushAll (before ++ [last]) =
      (p.pushAll before).andThen fun q => run pushStep q [last] :=
    run_append pushStep p before [last]
  rw [happend, Outcome.andThen_of_running running, run_singleton]

/-- What is returned up to and including a push whose predecessors did not overflow. -/
theorem pushAll_concat_out {limit : ℕ} {before : List (List UInt8)} {last : List UInt8}
    {blocks cut : List (List UInt8)} {rest residue : List UInt8}
    (running : ((SseParser.withLimit limit).pushAll before).stop = none)
    (earlier : Decomposes before.flatten blocks rest)
    (later : Decomposes (rest ++ last) cut residue) :
    ((SseParser.withLimit limit).pushAll (before ++ [last])).out =
      blocks.filterMap parseBlock ++
        if limit < residue.length then [] else cut.filterMap parseBlock := by
  obtain ⟨hdelivered, hrest⟩ := pushAll_decomposes running earlier
  have hresidue : frameRest (rest ++ last) = residue := (decomposes_iff.mp later).2.symm
  have hlimit := pushAll_limitBytes (SseParser.withLimit limit) before
  rw [pushAll_concat last running, Outcome.after_out, pushStep_out, hdelivered, hrest,
    hlimit, hresidue, later.events]
  rfl

/-- **When an overflow loses no completed frame.**  Behind pushes without an overflow,
every completed frame is delivered exactly when the next push leaves a residue within the
bound, or completes ignored frames only. -/
theorem deliversAll_iff {limit : ℕ} {before : List (List UInt8)} {last : List UInt8}
    {blocks cut : List (List UInt8)} {rest residue : List UInt8}
    (running : ((SseParser.withLimit limit).pushAll before).stop = none)
    (earlier : Decomposes before.flatten blocks rest)
    (later : Decomposes (rest ++ last) cut residue) :
    (SseParser.withLimit limit).DeliversAll (before ++ [last]) ↔
      residue.length ≤ limit ∨ ∀ block ∈ cut, parseBlock block = none := by
  have hwhole : Decomposes (before ++ [last]).flatten (blocks ++ cut) residue := by
    rw [List.flatten_append, List.flatten_singleton]
    exact earlier.append later
  have hdelivers : (SseParser.withLimit limit).DeliversAll (before ++ [last]) ↔
      (if limit < residue.length then [] else cut.filterMap parseBlock) =
        cut.filterMap parseBlock := by
    constructor
    · intro delivers
      have hall := delivers _ _ hwhole
      rw [pushAll_concat_out running earlier later, List.filterMap_append] at hall
      exact List.append_cancel_left hall
    · intro hcut blocks' rest' h
      rw [(decomposes_iff.mp h).1, ← (decomposes_iff.mp hwhole).1,
        pushAll_concat_out running earlier later, List.filterMap_append, hcut]
  rw [hdelivers, ← List.filterMap_eq_nil_iff]
  by_cases hlong : limit < residue.length
  · rw [if_pos hlong]
    exact ⟨fun h => .inr h.symm, fun h => (h.resolve_left (by omega)).symm⟩
  · rw [if_neg hlong]
    exact iff_of_true rfl (.inl (by omega))

/-- A frame `data: a`, and behind it, in the same push, more bytes than the parser holds. -/
def floodedFrame : List UInt8 :=
  [100, 97, 116, 97, 58, 32, 97] ++ (lfLf ++ List.replicate 17 120)

/-- The same bytes in two pushes: the frame is delivered before the overflow. -/
theorem deliversAll_split :
    (SseParser.withLimit 16).DeliversAll [floodedFrame.take 9, floodedFrame.drop 9] := by
  have hframe := decomposes_frames [floodedFrame.take 9].flatten
  have hflood := decomposes_frames
    (frameRest [floodedFrame.take 9].flatten ++ floodedFrame.drop 9)
  exact (deliversAll_iff (by decide) hframe hflood).mpr (.inr (by decide))

/-- In one push, the overflow is all that is returned. -/
theorem overflow_discards_frame :
    ((SseParser.withLimit 16).push floodedFrame).2 = .error ⟨16⟩ ∧
      frameEvents floodedFrame = [⟨.data "a", 7⟩] ∧
      ¬(SseParser.withLimit 16).DeliversAll [floodedFrame] := by
  have hevents : frameEvents floodedFrame = [⟨.data "a", 7⟩] := by decide +kernel
  refine ⟨by rfl, hevents, fun delivers => ?_⟩
  have hall := delivers _ _ (decomposes_frames [floodedFrame].flatten)
  rw [← (decomposes_frames [floodedFrame].flatten).events, List.flatten_singleton,
    hevents] at hall
  have hnone : ((SseParser.withLimit 16).pushAll [floodedFrame]).out = [] := by
    decide +kernel
  rw [hnone] at hall
  cases hall

end RarChat
