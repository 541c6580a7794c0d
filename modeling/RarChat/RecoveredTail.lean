import RarChat.Delivery
import RarChat.SseFraming

/-!
# The recovered tail and the complete frame

A peer may omit the last terminator.  The read loop then takes the last frame in
from `finish_with_residue` instead of from `push`, in a separate piece of code
that ignores what `on_installment` returns.  `runAttempt_terminator_omission_iff` says
when this makes no difference to the resolution: the attempt was over before the last
frame, or the last frame is not one that `on_installment` rejects.

A last frame that ends in `CR LF CR` is cut earlier than it seems once `LF LF`
follows it: its last three bytes and the first `LF` are a terminator.  What it
carries is the same (`blockText_append_crlf`).
-/

namespace RarChat

open EarlyExit

/-! ## What a frame carries -/

/-- The text of a data frame. -/
def SseEvent.text? (ev : SseEvent) : Option String :=
  match ev.payload with
  | .data text => some text
  | _ => none

/-- The data a block of bytes carries, if it is a data frame. -/
def blockText (block : List UInt8) : Option String :=
  (parseBlock block).bind SseEvent.text?

variable (serde : SerdeJson)

/-- The block is a data frame that `on_installment` rejects: an unparseable
chunk, an error object, or several choices.  In the loop such a frame stops the attempt; the
result of the tail is discarded, so the same frame without its terminator does not. -/
def RejectedFrame (block : List UInt8) : Prop :=
  ∃ text, blockText block = some text ∧ accepted serde text = none

instance (block : List UInt8) : Decidable (RejectedFrame serde block) :=
  decidable_of_iff
    ((blockText block).any (fun text => (accepted serde text).isNone) = true) <| by
    simp [RejectedFrame, Option.any_eq_true]

/-- The block, as a complete frame, stops the attempt.  Behind such a frame there is no tail
to recover: the loop returns before the peer's close is seen. -/
def StoppingFrame (block : List UInt8) : Prop :=
  ∃ ev, parseBlock block = some ev ∧ frameVerdict serde ev ≠ none

/-- The machine after a frame that carries `text`. -/
def StreamMachine.afterText (m : StreamMachine) (text : Option String) :
    StreamMachine :=
  match text.bind (accepted serde) with
  | some norm => m.feedAll norm.events
  | none => m

theorem Digest.take_machine (status : InstallmentStatus) (d : Digest) (ev : SseEvent) :
    (Digest.take serde status d ev).state.machine =
      d.machine.afterText serde ev.text? := by
  unfold Digest.take SseEvent.text? StreamMachine.afterText
  cases ev.payload with
  | undecodable raw error => rfl
  | comment text => rfl
  | data text =>
      simp only [Option.bind_some, accepted]
      cases refined serde text <;> rfl

/-- A frame that carries nothing rejected is closed as a stream that ended. -/
theorem frameVerdict_of_not_rejected {ev : SseEvent}
    (taken : ∀ text, ev.text? = some text → accepted serde text ≠ none) :
    frameVerdict serde ev = none ∨
      frameVerdict serde ev = some (.doneSentinelConsumed, .streamEnded) := by
  unfold frameVerdict
  unfold SseEvent.text? at taken
  cases hpayload : ev.payload with
  | undecodable raw error => exact .inl rfl
  | comment text => exact .inl rfl
  | data text =>
      simp only [hpayload, Option.some.injEq, forall_eq'] at taken
      cases hrefined : refined serde text with
      | error detail => exact absurd (accepted_eq_none_iff.mpr ⟨detail, hrefined⟩) taken
      | ok norm =>
          simp only [hrefined]
          split_ifs
          · exact .inr rfl
          · exact .inl rfl

theorem frameVerdict_of_rejected {ev : SseEvent} {text : String}
    (htext : ev.text? = some text) (rejected : accepted serde text = none) :
    frameVerdict serde ev =
      some (.handlerDirected "protocol_error", .handlerAbort) := by
  unfold SseEvent.text? at htext
  obtain ⟨detail, hrefined⟩ := accepted_eq_none_iff.mp rejected
  unfold frameVerdict
  cases hpayload : ev.payload with
  | undecodable raw error => simp [hpayload] at htext
  | comment text' => simp [hpayload] at htext
  | data text' =>
      obtain rfl : text' = text := by simpa [hpayload] using htext
      simp only [hrefined]

/-! ## Resolving with a last frame -/

/-- The recovered tail always resolves as a stream that ended. -/
theorem Digest.finish_stop (d : Digest) (rest : List UInt8) :
    (d.finish serde rest).stop =
      some (.complete ((d.machine.afterText serde (blockText rest)).resolve
        .streamEnded)) := by
  unfold Digest.finish
  rw [Outcome.andThen_of_running
    (run_stop_eq_none _ (Digest.take_running serde .recoveredTail) d _)]
  unfold SseParser.finishWithResidue blockText
  cases rest with
  | nil => rfl
  | cons b bytes =>
      cases hparse : parseBlock (b :: bytes) with
      | none => rfl
      | some ev =>
          simp only [List.isEmpty_cons, Bool.false_eq_true, if_false,
            run_cons_of_running _ (Digest.take_running serde .recoveredTail d ev),
            run_nil, Outcome.after_state, Outcome.after_stop, Option.bind_some,
            ← Digest.take_machine serde .recoveredTail]
          rfl

/-- A last complete frame, and a rest behind it that carries nothing. -/
def Digest.lastFrame (d : Digest) (block rest : List UInt8) : DigestOutcome :=
  (run (Digest.step serde) d (parseBlock block).toList).andThen fun d' =>
    d'.finish serde rest

theorem Digest.lastFrame_of_not_rejected {block : List UInt8}
    (taken : ¬RejectedFrame serde block) (d : Digest) {rest : List UInt8}
    (nothing : blockText rest = none) :
    (d.lastFrame serde block rest).stop =
      some (.complete ((d.machine.afterText serde (blockText block)).resolve
        .streamEnded)) := by
  unfold Digest.lastFrame
  unfold RejectedFrame blockText at taken
  unfold blockText
  cases hparse : parseBlock block with
  | none =>
      simp only [Option.toList_none, run_nil, Outcome.andThen, Outcome.after_stop,
        Digest.finish_stop, nothing, Option.bind_none]
  | some ev =>
      have htaken : ∀ text, ev.text? = some text → accepted serde text ≠ none :=
        fun text htext hnone => taken ⟨text, by simp [hparse, htext], hnone⟩
      have hmachine := Digest.take_machine serde .complete d ev
      have htake := Digest.take_running serde .complete d ev
      simp only [Option.toList_some, Option.bind_some, ← hmachine]
      have hstep : Digest.step serde d ev = _ := Outcome.andThen_of_running htake _
      -- either the loop goes on to the rest, or this frame is the sentinel
      rcases frameVerdict_of_not_rejected serde htaken with hverdict | hverdict
      · rw [hverdict] at hstep
        rw [run_cons_of_running _ (by rw [hstep]; rfl), hstep]
        simp only [run_nil, Outcome.andThen, Outcome.after_stop, Outcome.after_state,
          Digest.finish_stop, nothing]
        rfl
      · rw [hverdict] at hstep
        rw [run_cons_of_stop (e := .complete
            ((Digest.take serde .complete d ev).state.machine.resolve .streamEnded))
          _ (by rw [hstep]; rfl), hstep]
        rfl

theorem Digest.lastFrame_of_rejected {block : List UInt8}
    (rejected : RejectedFrame serde block) (d : Digest) (rest : List UInt8) :
    (d.lastFrame serde block rest).stop =
      some (.complete (.fault (.aborted d.machine.content.length))) := by
  obtain ⟨text, htext, hnone⟩ := rejected
  unfold blockText at htext
  obtain ⟨ev, hparse, hev⟩ := Option.bind_eq_some_iff.mp htext
  have hmachine := Digest.take_machine serde .complete d ev
  -- what is rejected is not fed
  have hafter : d.machine.afterText serde ev.text? = d.machine := by
    simp [StreamMachine.afterText, hev, hnone]
  have hstep : (Digest.step serde d ev).stop =
      some (.complete (.fault (.aborted d.machine.content.length))) := by
    unfold Digest.step
    rw [Outcome.andThen_of_running (Digest.take_running serde .complete d ev)]
    simp only [frameVerdict_of_rejected serde hev hnone, Outcome.after_stop,
      Digest.close, hmachine, hafter]
    rfl
  unfold Digest.lastFrame
  rw [hparse, Option.toList_some, run_cons_of_stop _ hstep,
    Outcome.andThen_of_stop hstep, hstep]

/-! ## Where an appended terminator cuts -/

/-- `b"\r\n\r"`. -/
def crLfCr : List UInt8 := [13, 10, 13]

theorem asciiText_crLfCr : asciiText crLfCr = ['\r', '\n', '\r'] := by decide

/-- A trailing line ending and a carriage return are no data. -/
theorem filterMap_dataValue_append_crlf (text : List Char) :
    (lines (text ++ ['\r', '\n', '\r'])).filterMap dataValue =
      (lines text).filterMap dataValue := by
  induction text using lines_induction with
  | last line h =>
      have hcr : '\n' ∉ line ++ ['\r'] := by simpa using h
      have hsplit : line ++ ['\r', '\n', '\r'] = (line ++ ['\r']) ++ '\n' :: ['\r'] := by
        simp
      have hstrip : stripSuffix '\r' (line ++ ['\r']) = some line := by
        simp [stripSuffix]
      have hlast : (lines ['\r']).filterMap dataValue = [] := by decide
      rw [hsplit, lines_append_newline hcr, lines_of_not_mem h, hstrip,
        Option.getD_some, List.filterMap_cons, hlast]
      cases line with
      | nil => rfl
      | cons c cs => rw [if_neg (by simp), List.filterMap_cons, List.filterMap_nil]
  | line line rest h ih =>
      rw [List.append_assoc, List.cons_append, lines_append_newline h,
        lines_append_newline h, List.filterMap_cons, List.filterMap_cons, ih]

/-- **A frame carries the same** with `CR LF CR` behind it. -/
theorem blockText_append_crlf (block : List UInt8) :
    blockText (block ++ crLfCr) = blockText block := by
  have hascii : ∀ b ∈ crLfCr, b < 0x80 := by simp [crLfCr]
  cases hdec : fromUtf8 block with
  | error e =>
      obtain ⟨e', hdec'⟩ := fromUtf8_append_ascii_of_error hdec hascii
      unfold blockText parseBlock
      rw [hdec, hdec']
      rfl
  | ok text =>
      have hdec' := fromUtf8_append_ascii_of_ok hdec hascii
      have htext : (text ++ String.ofList (asciiText crLfCr)).toList =
          text.toList ++ ['\r', '\n', '\r'] := by
        rw [asciiText_crLfCr]
        simp
      have hvalues : dataValues (text ++ String.ofList (asciiText crLfCr)) =
          dataValues text := by
        unfold dataValues
        rw [htext, filterMap_dataValue_append_crlf]
      have hcomment : (text.toList ++ ['\r', '\n', '\r']).head? = some ':' ↔
          text.toList.head? = some ':' := by
        cases text.toList <;> simp
      unfold blockText parseBlock
      simp only [hdec, hdec', htext, hvalues, hcomment]
      split_ifs <;> rfl

/-- A terminator in a longer sequence that ends inside the shorter one. -/
theorem TerminatorAt.of_append {bytes more : List UInt8} {i n : ℕ}
    (h : TerminatorAt (bytes ++ more) i n) (inside : i + n ≤ bytes.length) :
    TerminatorAt bytes i n := by
  rcases h with ⟨rfl, hocc⟩ | ⟨rfl, hocc⟩
  · exact .inl ⟨rfl, hocc.of_append inside⟩
  · exact .inr ⟨rfl, hocc.of_append inside⟩

theorem TerminatorAt.length_le {bytes : List UInt8} {i n : ℕ}
    (h : TerminatorAt bytes i n) : i + n ≤ bytes.length := by
  rcases h with ⟨rfl, hocc⟩ | ⟨rfl, hocc⟩
  · exact hocc.fits lfLf_ne_nil
  · exact hocc.fits crlfCrlf_ne_nil

theorem getElem?_append_lfLf (frame : List UInt8) {i : ℕ} (h : frame.length ≤ i)
    {b : UInt8} (hb : (frame ++ lfLf)[i]? = some b) : b = 10 := by
  rw [List.getElem?_append_right h] at hb
  match hi : i - frame.length with
  | 0 => rw [hi] at hb; exact (Option.some.inj hb).symm
  | 1 => rw [hi] at hb; exact (Option.some.inj hb).symm
  | _ + 2 => rw [hi] at hb; cases hb

/-- An appended `LF LF` is where a frame ends, unless the frame ends in
`CR LF CR`: then a terminator starts there. -/
theorem terminator_append_lfLf {frame : List UInt8}
    (free : ∀ i n, ¬TerminatorAt frame i n) (noLf : frame.getLast? ≠ some 10) :
    terminator (frame ++ lfLf) = some (frame.length, 2) ∨
      ∃ block, frame = block ++ crLfCr ∧
        terminator (frame ++ lfLf) = some (block.length, 4) := by
  -- `CR LF CR` and the first appended `LF` make a terminator that starts earlier
  by_cases hcr : ∃ block, frame = block ++ crLfCr
  · obtain ⟨block, rfl⟩ := hcr
    right
    refine ⟨block, rfl, terminator_eq_some_iff.mpr ⟨?_, fun j hj m hat => ?_⟩⟩
    · have hsplit : block ++ crLfCr ++ lfLf = block ++ (crlfCrlf ++ [10]) := by
        rw [List.append_assoc]
        rfl
      rw [hsplit]
      exact terminatorAt_append (.inr rfl)
    · have hm : m ≤ 4 := by rcases hat with ⟨rfl, -⟩ | ⟨rfl, -⟩ <;> decide
      have hlen : (block ++ crLfCr).length = block.length + 3 := by simp [crLfCr]
      exact free j m (hat.of_append (by omega))
  · left
    refine terminator_eq_some_iff.mpr ⟨?_, fun j hj m hat => ?_⟩
    · have hat : TerminatorAt (frame ++ (lfLf ++ [])) frame.length 2 :=
        terminatorAt_append (.inl rfl)
      rwa [List.append_nil] at hat
    · have hlen : (frame ++ lfLf).length = frame.length + 2 := by simp [lfLf]
      have hfits := hat.length_le
      have houtside : ¬j + m ≤ frame.length := fun inside =>
        free j m (hat.of_append inside)
      rcases hat with ⟨rfl, hocc⟩ | ⟨rfl, hocc⟩
      · -- it starts at the last byte of the frame
        have hbyte : (frame ++ lfLf)[j + 0]? = some 10 := hocc.getElem? rfl
        rw [Nat.add_zero, List.getElem?_append_left hj] at hbyte
        rw [List.getLast?_eq_getElem?, show frame.length - 1 = j by omega] at noLf
        exact noLf hbyte
      · rcases Nat.lt_or_ge (j + 2) frame.length with hshort | hlong
        · -- its first three bytes end the frame
          have hbytes : frame.drop j = crLfCr := by
            have hprefix : crLfCr <+: (frame ++ lfLf).drop j :=
              (show crLfCr <+: crlfCrlf by decide).trans hocc
            rw [List.drop_append_of_le_length (by omega)] at hprefix
            refine ((List.prefix_of_prefix_length_le hprefix
              (List.prefix_append _ _) ?_).eq_of_length ?_).symm
            · rw [List.length_drop, show crLfCr.length = 3 from rfl]
              omega
            · rw [List.length_drop, show crLfCr.length = 3 from rfl]
              omega
          exact hcr ⟨frame.take j, by rw [← hbytes, List.take_append_drop]⟩
        · -- its third byte is a `CR`, and those behind the frame are `LF`
          have hbyte : (frame ++ lfLf)[j + 2]? = some 13 := hocc.getElem? rfl
          exact absurd (getElem?_append_lfLf frame hlong hbyte) (by decide)

/-- Cutting the first frame off. -/
theorem frameEvents_cut {block sep tail : List UInt8}
    (h : terminator (block ++ (sep ++ tail)) = some (block.length, sep.length)) :
    frameEvents (block ++ (sep ++ tail)) =
        (parseBlock block).toList ++ frameEvents tail ∧
      frameRest (block ++ (sep ++ tail)) = frameRest tail := by
  have hnext : sseCutter.next (block ++ (sep ++ tail)) =
      some (block.length, sep.length) := h
  have hdrop : (block ++ (sep ++ tail)).drop (block.length + sep.length) = tail := by
    rw [← List.drop_drop, List.drop_left, List.drop_left]
  refine ⟨?_, ?_⟩
  · rw [frameEvents, sseCutter.frames_of_some hnext, List.filterMap_cons, hdrop,
      List.take_left]
    cases parseBlock block <;> rfl
  · rw [frameRest, sseCutter.rest_of_some hnext, hdrop]
    rfl

/-- **What an appended `LF LF` completes** carries what the frame carries, and
nothing that carries data is left behind it. -/
theorem frame_append_lfLf {frame : List UInt8}
    (free : ∀ i n, ¬TerminatorAt frame i n) (noLf : frame.getLast? ≠ some 10) :
    ∃ block, frameEvents (frame ++ lfLf) = (parseBlock block).toList ∧
      blockText block = blockText frame ∧
      blockText (frameRest (frame ++ lfLf)) = none := by
  rcases terminator_append_lfLf free noLf with hterm | ⟨block, rfl, hterm⟩
  · have hsplit : frame ++ lfLf = frame ++ (lfLf ++ []) := by simp
    rw [hsplit] at hterm ⊢
    obtain ⟨hevents, hrest⟩ := frameEvents_cut hterm
    refine ⟨frame, ?_, rfl, ?_⟩
    · rw [hevents, frameEvents_nil, List.append_nil]
    · rw [hrest, frameRest_nil]
      rfl
  · have hsplit : block ++ crLfCr ++ lfLf = block ++ (crlfCrlf ++ [10]) := by
      rw [List.append_assoc]
      rfl
    rw [hsplit] at hterm ⊢
    obtain ⟨hevents, hrest⟩ := frameEvents_cut hterm
    refine ⟨block, ?_, (blockText_append_crlf block).symm, ?_⟩
    · rw [hevents, show frameEvents [10] = [] by decide, List.append_nil]
    · rw [hrest]
      decide

/-! ## Omitting the last terminator -/

theorem StreamMachine.resolve_streamEnded_ne_aborted (m : StreamMachine) (n : ℕ) :
    m.resolve .streamEnded ≠ .fault (.aborted n) := by
  have hne := m.finalize_streamEnded_ne_aborted n
  unfold StreamMachine.resolve
  cases hfin : m.finalize .streamEnded with
  | ok outcome => simp
  | error fault => simpa [hfin] using hne

/-- Complete frames come first; what follows them is a body of its own. -/
theorem Digest.ofBytes_append (d : Digest) {complete : List UInt8}
    {blocks : List (List UInt8)} (whole : Decomposes complete blocks [])
    (tail : List UInt8) :
    d.ofBytes serde (complete ++ tail) =
      (run (Digest.step serde) d (blocks.filterMap parseBlock)).andThen
        fun d' => d'.ofBytes serde tail := by
  obtain ⟨hblocks, hrest⟩ := decomposes_iff.mp whole
  have hevents : frameEvents complete = blocks.filterMap parseBlock := by
    rw [hblocks, List.filterMap_map]
    rfl
  unfold Digest.ofBytes
  rw [frameEvents_append, frameRest_append, ← hrest, List.nil_append, hevents,
    run_append, Outcome.andThen_assoc]

/-- Alone, a frame with a terminator and one without resolve alike exactly when
the frame is not rejected. -/
theorem Digest.ofBytes_frame_iff (d : Digest) {frame : List UInt8}
    (free : ∀ i n, ¬TerminatorAt frame i n) (noLf : frame.getLast? ≠ some 10) :
    (d.ofBytes serde (frame ++ lfLf)).stop = (d.ofBytes serde frame).stop ↔
      ¬RejectedFrame serde frame := by
  obtain ⟨block, hevents, htext, hnothing⟩ := frame_append_lfLf free noLf
  have hnone : sseCutter.next frame = none := terminator_eq_none_iff.mpr free
  have hcomplete : d.ofBytes serde (frame ++ lfLf) =
      d.lastFrame serde block (frameRest (frame ++ lfLf)) := by
    rw [Digest.ofBytes, hevents]
    rfl
  have hopen : d.ofBytes serde frame = d.finish serde frame := by
    rw [Digest.ofBytes, frameEvents, frameRest, sseCutter.frames_of_none hnone,
      sseCutter.rest_of_none hnone]
    rfl
  have hsame : RejectedFrame serde block ↔ RejectedFrame serde frame := by
    unfold RejectedFrame
    rw [htext]
  rw [hcomplete, hopen, Digest.finish_stop]
  by_cases hrejected : RejectedFrame serde block
  · -- in the loop the attempt is aborted, in the tail the rejection is ignored
    rw [Digest.lastFrame_of_rejected serde hrejected]
    refine iff_of_false (fun heq => ?_) (fun h => h (hsame.mp hrejected))
    have hresolve := AttemptEnd.complete.inj (Option.some.inj heq)
    exact StreamMachine.resolve_streamEnded_ne_aborted _ _ hresolve.symm
  · rw [Digest.lastFrame_of_not_rejected serde hrejected d hnothing, htext]
    exact iff_of_true rfl (fun h => hrejected (hsame.mpr h))

/-- A complete frame of `blocks` stops the attempt exactly when the run over them
is left. -/
theorem Digest.run_blocks_running_iff (d : Digest) (blocks : List (List UInt8)) :
    (run (Digest.step serde) d (blocks.filterMap parseBlock)).stop = none ↔
      ¬∃ block ∈ blocks, StoppingFrame serde block := by
  rw [run_running_iff _ (Digest.step_running_iff serde)]
  unfold StoppingFrame
  constructor
  · rintro hnone ⟨block, hmem, ev, hparse, hstops⟩
    exact hstops (hnone ev (List.mem_filterMap.mpr ⟨block, hmem, hparse⟩))
  · intro hnone ev hev
    obtain ⟨block, hmem, hparse⟩ := List.mem_filterMap.mp hev
    by_contra hstops
    exact hnone ⟨block, hmem, ev, hparse, hstops⟩

variable (cfg : OpenAiConfig)

/-- **When omitting the last terminator changes the resolution.**  Two attempts
begun in `st` are delivered complete frames and one last frame, once with its
terminator and once without.  They resolve alike exactly when one of the complete
frames stops the attempt, or the last frame is not rejected. -/
theorem runAttempt_terminator_omission_iff (messages : List Message)
    (st : StreamState) {complete frame : List UInt8} {blocks : List (List UInt8)}
    (whole : Decomposes complete blocks [])
    (free : ∀ i n, ¬TerminatorAt frame i n) (noLf : frame.getLast? ≠ some 10)
    {selectPolls selectPolls' now now' : ℕ} {wire wire' : Wire}
    (terminated : Delivers cfg serde st selectPolls now wire
      (complete ++ (frame ++ lfLf)))
    (omitted : Delivers cfg serde st selectPolls' now' wire' (complete ++ frame)) :
    (runAttempt cfg serde messages st selectPolls now wire).ended =
        (runAttempt cfg serde messages st selectPolls' now' wire').ended ↔
      (∃ block ∈ blocks, StoppingFrame serde block) ∨ ¬RejectedFrame serde frame := by
  obtain ⟨hended, -⟩ := runAttempt_of_delivers cfg serde terminated messages
  obtain ⟨hended', -⟩ := runAttempt_of_delivers cfg serde omitted messages
  rw [← Option.some_inj, hended, hended', Digest.ofBytes_append serde _ whole,
    Digest.ofBytes_append serde _ whole]
  generalize (⟨st.streamId, st.attempt, 0, st.machine, st.sawAnyContent⟩ : Digest) = d
  have hrunning := Digest.run_blocks_running_iff serde d blocks
  cases hstop : (run (Digest.step serde) d (blocks.filterMap parseBlock)).stop with
  | some e =>
      have hstops : ∃ block ∈ blocks, StoppingFrame serde block := by
        by_contra hnone
        rw [hrunning.mpr hnone] at hstop
        cases hstop
      rw [Outcome.andThen_of_stop hstop, Outcome.andThen_of_stop hstop]
      exact iff_of_true rfl (.inl hstops)
  | none =>
      rw [Outcome.andThen_of_running hstop, Outcome.andThen_of_running hstop,
        Outcome.after_stop, Outcome.after_stop, Digest.ofBytes_frame_iff serde _ free noLf,
        or_iff_right (hrunning.mp hstop)]

/-- A chunk that finishes the reply `hi`, and an error object. -/
def overloadedSerde : SerdeJson :=
  .ofTable
    [("\x7b\"choices\":[\x7b\"delta\":\x7b\"content\":\"hi\"\x7d,\"finish_reason\":\"stop\"\x7d]\x7d",
      .object [("choices", .array [.object [("delta", .object [("content",
        .string "hi")]), ("finish_reason", .string "stop")]])]),
      ("\x7b\"error\":\x7b\"message\":\"overloaded\"\x7d\x7d",
      .object [("error", .object [("message", .string "overloaded")])])]

/-- The complete frame of the finishing chunk. -/
def finishedFrame : List UInt8 :=
  asBytes
    "data: \x7b\"choices\":[\x7b\"delta\":\x7b\"content\":\"hi\"\x7d,\"finish_reason\":\"stop\"\x7d]\x7d\n\n"

/-- The error object as a frame, without its terminator. -/
def overloadedFrame : List UInt8 :=
  asBytes "data: \x7b\"error\":\x7b\"message\":\"overloaded\"\x7d\x7d"

theorem finishedFrame_whole :
    Decomposes finishedFrame [finishedFrame.dropLast.dropLast] [] :=
  decomposes_iff.mpr ⟨by decide +kernel, by decide +kernel⟩

/-- A comment behind a finished reply resolves alike with and without its
terminator. -/
theorem runAttempt_terminator_omission_iff_comment :
    (runAttempt exampleConfig overloadedSerde [] (StreamState.new 1) 0 0
        (streamOf [finishedFrame ++ ([58] ++ lfLf)])).ended =
      (runAttempt exampleConfig overloadedSerde [] (StreamState.new 1) 0 0
        (streamOf [finishedFrame ++ [58]])).ended := by
  have free : ∀ i n, ¬TerminatorAt [58] i n :=
    terminator_eq_none_iff.mp (by decide +kernel)
  have noLf : [58].getLast? ≠ some (10 : UInt8) := by decide
  have terminated : Delivers exampleConfig overloadedSerde (StreamState.new 1) 0 0
      (streamOf [finishedFrame ++ ([58] ++ lfLf)]) (finishedFrame ++ ([58] ++ lfLf)) :=
    ⟨0, _, 0, streamOf_framed _, by decide +kernel, by decide +kernel⟩
  have omitted : Delivers exampleConfig overloadedSerde (StreamState.new 1) 0 0
      (streamOf [finishedFrame ++ [58]]) (finishedFrame ++ [58]) :=
    ⟨0, _, 0, streamOf_framed _, by decide +kernel, by decide +kernel⟩
  exact (runAttempt_terminator_omission_iff overloadedSerde exampleConfig []
    (StreamState.new 1) finishedFrame_whole free noLf terminated omitted).mpr
      (.inr (by decide +kernel))

/-- **An unterminated error object commits.**  Behind a finished reply, an error
object with its terminator aborts the attempt; without it the reply is
committed. -/
theorem unterminated_error_commits :
    (Decomposes finishedFrame [finishedFrame.dropLast.dropLast] [] ∧
      overloadedFrame ≠ [] ∧ (∀ i n, ¬TerminatorAt overloadedFrame i n) ∧
      overloadedFrame.getLast? ≠ some 10) ∧
    (Delivers exampleConfig overloadedSerde (StreamState.new 1) 0 0
        (streamOf [finishedFrame ++ (overloadedFrame ++ lfLf)])
        (finishedFrame ++ (overloadedFrame ++ lfLf)) ∧
      Delivers exampleConfig overloadedSerde (StreamState.new 1) 0 0
        (streamOf [finishedFrame ++ overloadedFrame])
        (finishedFrame ++ overloadedFrame)) ∧
    (runAttempt exampleConfig overloadedSerde [] (StreamState.new 1) 0 0
        (streamOf [finishedFrame ++ (overloadedFrame ++ lfLf)])).ended =
      .complete (.fault (.aborted 2)) ∧
    (runAttempt exampleConfig overloadedSerde [] (StreamState.new 1) 0 0
        (streamOf [finishedFrame ++ overloadedFrame])).ended =
      .complete (.committed ⟨"hi", "stop", none⟩) := by
  refine ⟨⟨finishedFrame_whole,
    by decide +kernel, terminator_eq_none_iff.mp (by decide +kernel),
    by decide +kernel⟩, ⟨?_, ?_⟩, by decide +kernel, by decide +kernel⟩
  · exact ⟨0, _, 0, streamOf_framed _, by decide +kernel, by decide +kernel⟩
  · exact ⟨0, _, 0, streamOf_framed _, by decide +kernel, by decide +kernel⟩

end RarChat
