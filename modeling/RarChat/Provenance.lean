import RarChat.Capture
import RarChat.Library.Chunks
import RarChat.SseFraming

/-!
# Where the installments come from

An `Installment` record names the reads that its frame drew on.  The last of them is the
read in which the frame was completed, and that is right.  The first is the read in which
the frame recorded before it was completed, so it is right exactly when no read ends
between the two (`runAttempt_spans_exact_iff`).

The bytes of a body have positions, and so have its frames (`bodyFrames`); `ActsBehind`
says in which order reads bring them, and `spans` what the loop notes down about them.
-/

namespace RarChat

open EarlyExit LabelledRun Chunks

/-! ## Frames and their positions -/

/-- A frame of a body, with the positions from its first byte up to behind its
terminator. -/
structure FrameAt where
  event : SseEvent
  start : ℕ
  stop : ℕ
deriving DecidableEq, Repr

/-- The events of pieces that lie at `n`. -/
def framesAt (n : ℕ) (pieces : List (Cutter.Piece UInt8)) : List FrameAt :=
  (Cutter.locate n pieces).filterMap fun located =>
    (parseBlock located.2.block).map fun ev =>
      ⟨ev, located.1, located.1 + located.2.symbols.length⟩

/-- The complete frames of a body. -/
def completeFrames (body : List UInt8) : List FrameAt := framesAt 0 (sseCutter.frames body)

/-- The frame without a terminator behind them. -/
def tailFrames (body : List UInt8) : List FrameAt :=
  ((parseBlock (frameRest body)).map fun ev =>
    ⟨ev, body.length - (frameRest body).length, body.length⟩).toList

/-- The frames of a body, complete or not. -/
def bodyFrames (body : List UInt8) : List FrameAt := completeFrames body ++ tailFrames body

/-- The frames that a read completes. -/
def newFrames (body item : List UInt8) : List FrameAt :=
  framesAt (body.length - (frameRest body).length)
    (sseCutter.frames (frameRest body ++ item))

theorem framesAt_append (n : ℕ) (ps qs : List (Cutter.Piece UInt8)) :
    framesAt n (ps ++ qs) = framesAt n ps ++
      framesAt (n + (ps.map Cutter.Piece.symbols).flatten.length) qs := by
  rw [framesAt, Cutter.locate_append, List.filterMap_append]
  rfl

theorem map_event_framesAt (n : ℕ) (pieces : List (Cutter.Piece UInt8)) :
    (framesAt n pieces).map FrameAt.event =
      pieces.filterMap fun piece => parseBlock piece.block := by
  have hlocate := Cutter.map_locate_snd n pieces
  conv_rhs => rw [← hlocate, List.filterMap_map]
  rw [framesAt, List.map_filterMap]
  refine List.filterMap_congr fun located _ => ?_
  cases hparse : parseBlock located.2.block <;> simp [hparse]

theorem map_event_newFrames (body item : List UInt8) :
    (newFrames body item).map FrameAt.event = frameEvents (frameRest body ++ item) :=
  map_event_framesAt _ _

/-- **A read adds the frames that it completes.** -/
theorem completeFrames_append (body item : List UInt8) :
    completeFrames (body ++ item) = completeFrames body ++ newFrames body item := by
  have hlength := sseCutter.length_frames_add_rest body
  rw [completeFrames, sseCutter.frames_append, framesAt_append, Nat.zero_add, newFrames,
    frameRest, ← hlength, Nat.add_sub_cancel]
  rfl

/-- A terminator that was not there before ends in what has arrived since. -/
theorem terminator_late {buf more : List UInt8} {i n : ℕ} (before : terminator buf = none)
    (later : terminator (buf ++ more) = some (i, n)) : buf.length < i + n := by
  by_contra hinside
  refine terminator_eq_none_iff.mp before i n ?_
  rcases (terminator_eq_some_iff.mp later).1 with ⟨rfl, hocc⟩ | ⟨rfl, hocc⟩
  · exact .inl ⟨rfl, hocc.of_append (Nat.not_lt.mp hinside)⟩
  · exact .inr ⟨rfl, hocc.of_append (Nat.not_lt.mp hinside)⟩

/-- **A frame ends in the read that completes it.** -/
theorem newFrames_within {body item : List UInt8} {f : FrameAt}
    (mem : f ∈ newFrames body item) :
    f.start < f.stop ∧ body.length < f.stop ∧ f.stop ≤ (body ++ item).length := by
  obtain ⟨⟨m, piece⟩, hlocated, hframe⟩ := List.mem_filterMap.mp mem
  obtain ⟨ev, -, rfl⟩ := Option.map_eq_some_iff.mp hframe
  have hpiece : piece ∈ sseCutter.frames (frameRest body ++ item) := by
    rw [← Cutter.map_locate_snd _ (sseCutter.frames _)]
    exact List.mem_map_of_mem hlocated
  have hlate := sseCutter.locate_late
    (fun _ _ => terminator_late (sseCutter.next_rest body)) hlocated
  have hwithin := (Cutter.locate_within hlocated).2
  have hbody := sseCutter.length_frames_add_rest body
  have hnew := sseCutter.length_frames_add_rest (frameRest body ++ item)
  have hpos := sseCutter.symbols_pos hpiece
  simp only [frameRest, List.length_append] at hlate hwithin hnew ⊢
  omega

/-- The tail lies at the end of the body. -/
theorem tailFrames_within {body : List UInt8} {f : FrameAt} (mem : f ∈ tailFrames body) :
    f.start < f.stop ∧ f.stop = body.length := by
  obtain ⟨ev, hparse, rfl⟩ := Option.map_eq_some_iff.mp (Option.mem_toList.mp mem)
  have hrest : frameRest body ≠ [] := fun hnil => by
    rw [hnil, parseBlock_nil] at hparse
    cases hparse
  have hpos := List.length_pos_iff.mpr hrest
  have hbody := sseCutter.length_frames_add_rest body
  refine ⟨?_, rfl⟩
  simp only [frameRest] at hpos ⊢
  omega

/-- What the parser recovers is the tail. -/
theorem finishWithResidue_tail (body : List UInt8) (limitBytes : ℕ) :
    (SseParser.finishWithResidue ⟨frameRest body, limitBytes⟩).1 =
      (tailFrames body).map FrameAt.event := by
  rw [SseParser.finishWithResidue_eq, tailFrames]
  cases parseBlock (frameRest body) <;> rfl

/-! ## The order of delivery -/

/-- **In which order reads bring the frames of a body**, behind the given reads: each read
is followed by the frames that it completes, up to one that stops the attempt, and the
close by the tail. -/
inductive ActsBehind : List (List UInt8) → List Act → Prop
  | nil {reads : List (List UInt8)} : ActsBehind reads []
  | read {reads : List (List UInt8)} {item : List UInt8} {acts : List Act}
      (more : ActsBehind (reads ++ [item]) acts) :
      ActsBehind reads (.read item ::
        (((newFrames reads.flatten item).map FrameAt.event).map (.frame .complete) ++ acts))
  | last {reads : List (List UInt8)} {item : List UInt8} {frames : List FrameAt}
      (part : frames <+: newFrames reads.flatten item) :
      ActsBehind reads (.read item :: (frames.map FrameAt.event).map (.frame .complete))
  | closed {reads : List (List UInt8)} :
      ActsBehind reads (.close ::
        ((tailFrames reads.flatten).map FrameAt.event).map (.frame .recoveredTail))

variable (cfg : OpenAiConfig) (serde : SerdeJson)

/-- Part of the events of frames are the events of part of the frames. -/
theorem exists_part {evs : List SseEvent} {frames : List FrameAt}
    (part : evs <+: frames.map FrameAt.event) :
    ∃ some, some <+: frames ∧ some.map FrameAt.event = evs := by
  refine ⟨frames.take evs.length, List.take_prefix _ _, ?_⟩
  rw [List.map_take]
  exact (List.prefix_iff_eq_take.mp part).symm

/-- **The acts of a body** are delivered in order. -/
theorem bodyActs_behind {s : ReadLoop} {reads : List (List UInt8)}
    (buffered : s.parser.buf = frameRest reads.flatten) (body : BodyTrace) :
    ActsBehind reads (bodyActs cfg serde s body) := by
  obtain ⟨wakeups, last⟩ := body
  unfold bodyActs
  induction wakeups generalizing s reads with
  | nil =>
      simp only [gather_nil, run_nil, if_true, List.nil_append]
      cases last with
      | closed after =>
          have htail := finishWithResidue_tail reads.flatten s.parser.limitBytes
          rw [← buffered] at htail
          rw [ReadLoop.lastActs, htail]
          exact .closed
      | cancelled after => exact .nil
      | overallDeadline late => exact .nil
      | stall late => exact .nil
      | transportError after detail => exact .nil
  | cons w wakeups ih =>
      cases w with
      | tick after activeStreams =>
          cases hstop : (wakeupStep cfg serde s (.tick after activeStreams)).stop with
          | some ended =>
              rw [gather_cons_of_stop _ _ hstop, run_cons_of_stop _ hstop, hstop]
              exact .nil
          | none =>
              rw [gather_cons_of_running _ _ hstop, run_cons_of_running _ hstop]
              exact ih (by rw [parser_wakeupStep_tick, buffered])
      | read after wallUnixMs item =>
          have hevents : frameEvents (s.parser.buf ++ item) =
              (newFrames reads.flatten item).map FrameAt.event := by
            rw [map_event_newFrames, buffered]
          cases hstop : (wakeupStep cfg serde s (.read after wallUnixMs item)).stop with
          | some ended =>
              have htaken := takenFrames_isPrefix serde s item
              rw [hevents] at htaken
              obtain ⟨part, hpart, hframes⟩ := exists_part htaken
              rw [gather_cons_of_stop _ _ hstop, run_cons_of_stop _ hstop, hstop,
                wakeupActs, ← hframes]
              simp only [reduceCtorEq, if_false, List.append_nil]
              exact .last hpart
          | none =>
              obtain ⟨htaken, hbuffered⟩ := wakeupStep_read_of_running cfg serde hstop
              rw [buffered, ← frameRest_append] at hbuffered
              rw [gather_cons_of_running _ _ hstop, run_cons_of_running _ hstop, wakeupActs,
                htaken, hevents, List.append_assoc, List.cons_append]
              exact .read (ih (by rw [hbuffered]; simp))

/-- **The acts of an attempt** are delivered in order. -/
theorem wireActs_behind (wire : Wire) : ActsBehind [] (wireActs cfg serde wire) := by
  unfold wireActs
  cases wire.framed with
  | none => exact .nil
  | some framed => exact bodyActs_behind cfg serde rfl framed.2

/-! ## What the loop notes down -/

/-- A frame with the read at which its span starts and the read that completed it, as the
loop notes them down. -/
structure SpanOf where
  event : SseEvent
  first : ℕ
  last : ℕ
deriving DecidableEq, Repr

/-- The reads so far, and the one at which the next span starts. -/
structure Cursor where
  reads : ℕ
  start : ℕ
deriving DecidableEq, Repr

/-- The cursor behind an act. -/
def Cursor.step (c : Cursor) : Act → Cursor
  | .read _ => { c with reads := c.reads + 1 }
  | .frame .complete _ => { c with start := c.reads }
  | .frame .recoveredTail _ => c
  | .close => c

/-- The span of an act, if it is a frame. -/
def Cursor.span (c : Cursor) : Act → Option SpanOf
  | .frame _ ev => some ⟨ev, c.start, c.reads⟩
  | _ => none

/-- The spans of the frames that are taken in. -/
def spans : Cursor → List Act → List SpanOf
  | _, [] => []
  | c, act :: acts => (c.span act).toList ++ spans (c.step act) acts

theorem spans_append (c : Cursor) (xs ys : List Act) :
    spans c (xs ++ ys) = spans c xs ++ spans (xs.foldl Cursor.step c) ys := by
  induction xs generalizing c with
  | nil => rfl
  | cons act xs ih =>
      rw [List.cons_append, spans, spans, ih, List.append_assoc, List.foldl_cons]

theorem length_spans (c : Cursor) (acts : List Act) :
    (spans c acts).length = (acts.filterMap Act.frame?).length := by
  induction acts generalizing c with
  | nil => rfl
  | cons act acts ih =>
      rw [spans, List.length_append, ih]
      cases act with
      | read item => exact Nat.zero_add _
      | frame status ev => exact Nat.add_comm 1 _
      | close => exact Nat.zero_add _

/-- **Spans are chained**: each starts at the read that completed the frame before, and
that read holds the last byte of the frame. -/
inductive Chained (reads : List (List UInt8)) : ℕ → List FrameAt → List SpanOf → Prop
  | nil {n : ℕ} : Chained reads n [] []
  | cons {f : FrameAt} {span : SpanOf} {fs : List FrameAt} {spans : List SpanOf}
      (event : span.event = f.event) (within : f.start < f.stop)
      (completed : Holds reads span.last (f.stop - 1))
      (later : Chained reads span.last fs spans) :
      Chained reads span.first (f :: fs) (span :: spans)

/-- The frames of one read are chained in front of later ones. -/
theorem chained_of_read {reads : List (List UInt8)} {n start : ℕ} {frames : List FrameAt}
    (completed : ∀ f ∈ frames, f.start < f.stop ∧ Holds reads n (f.stop - 1))
    {acts : List Act} {later : List FrameAt}
    (rest : ∀ start, Chained reads start later (spans ⟨n, start⟩ acts)) :
    Chained reads start (frames ++ later)
      (spans ⟨n, start⟩ ((frames.map FrameAt.event).map (.frame .complete) ++ acts)) := by
  induction frames generalizing start with
  | nil => exact rest start
  | cons f frames ih =>
      obtain ⟨⟨hwithin, hf⟩, hframes⟩ := List.forall_mem_cons.mp completed
      exact @Chained.cons _ f ⟨f.event, start, n⟩ _ _ rfl hwithin hf (ih hframes)

/-- The reads of a delivery that begins with a read. -/
theorem filterMap_item_read (item : List UInt8) (evs : List SseEvent) (acts : List Act) :
    (Act.read item :: (evs.map (.frame .complete) ++ acts)).filterMap Act.item? =
      item :: acts.filterMap Act.item? := by
  have hframes : (evs.map (Act.frame .complete)).filterMap Act.item? = [] := by
    rw [List.filterMap_map, List.filterMap_eq_nil_iff]
    exact fun _ _ => rfl
  have hread : Act.item? (.read item) = some item := rfl
  rw [List.filterMap_cons_some hread, List.filterMap_append, hframes, List.nil_append]

/-- The last byte of a frame lies in the read that completes it. -/
theorem newFrames_completed {reads : List (List UInt8)} {item : List UInt8} {f : FrameAt}
    (mem : f ∈ newFrames reads.flatten item) (more : List (List UInt8)) :
    f.start < f.stop ∧
      Holds (reads ++ [item] ++ more) (reads.length + 1) (f.stop - 1) := by
  obtain ⟨hwithin, hlate, hstop⟩ := newFrames_within mem
  refine ⟨hwithin, (holds_concat item ?_ ?_).append more⟩
  · omega
  · rw [List.flatten_append, List.flatten_singleton]
    omega

/-- The last byte of the tail lies in the last read. -/
theorem tailFrames_completed {reads : List (List UInt8)}
    (nonempty : ∀ item ∈ reads, item ≠ []) {f : FrameAt}
    (mem : f ∈ tailFrames reads.flatten) :
    f.start < f.stop ∧ Holds reads reads.length (f.stop - 1) := by
  obtain ⟨hwithin, hstop⟩ := tailFrames_within mem
  refine ⟨hwithin, ?_⟩
  rcases List.eq_nil_or_concat' reads with rfl | ⟨earlier, item, rfl⟩
  · rw [List.flatten_nil, List.length_nil] at hstop
    omega
  · have hitem := List.length_pos_iff.mpr (nonempty item (by simp))
    rw [List.flatten_append, List.flatten_singleton, List.length_append] at hstop
    rw [List.length_append, List.length_singleton]
    refine holds_concat item ?_ ?_
    · omega
    · rw [List.flatten_append, List.flatten_singleton, List.length_append]
      omega

/-- **The spans of what is delivered in order are chained**, and its frames are the next
ones of the body. -/
theorem ActsBehind.chained {reads : List (List UInt8)} {acts : List Act}
    (h : ActsBehind reads acts)
    (nonempty : ∀ item ∈ reads ++ acts.filterMap Act.item?, item ≠ []) :
    ∃ frames, completeFrames reads.flatten ++ frames <+:
        bodyFrames (reads ++ acts.filterMap Act.item?).flatten ∧
      ∀ start, Chained (reads ++ acts.filterMap Act.item?) start frames
        (spans ⟨reads.length, start⟩ acts) := by
  induction h with
  | @nil reads =>
      refine ⟨[], ?_, fun start => .nil⟩
      rw [List.append_nil, List.filterMap_nil, List.append_nil]
      exact List.prefix_append _ _
  | @read reads item acts more ih =>
      rw [filterMap_item_read, List.append_cons] at nonempty ⊢
      obtain ⟨frames, hframes, hchained⟩ := ih nonempty
      rw [List.flatten_append, List.flatten_singleton, completeFrames_append,
        List.append_assoc] at hframes
      refine ⟨newFrames reads.flatten item ++ frames, hframes, fun start => ?_⟩
      rw [List.length_append, List.length_singleton] at hchained
      exact chained_of_read (fun f hf => newFrames_completed hf _) hchained
  | @last reads item frames part =>
      have hitems := filterMap_item_read item (frames.map FrameAt.event) []
      rw [List.append_nil, List.filterMap_nil] at hitems
      rw [hitems]
      refine ⟨frames, ?_, fun start => ?_⟩
      · -- they are among the complete frames
        rw [bodyFrames, List.flatten_append, List.flatten_singleton, completeFrames_append,
          List.append_assoc]
        exact (List.prefix_append_right_inj _).mpr (part.trans (List.prefix_append _ _))
      · have hspans := @chained_of_read _ (reads.length + 1) start frames
          (fun f hf => newFrames_completed (part.subset hf) []) [] [] (fun _ => .nil)
        rwa [List.append_nil, List.append_nil, List.append_nil] at hspans
  | @closed reads =>
      have hitems : (Act.close :: ((tailFrames reads.flatten).map FrameAt.event).map
          (.frame .recoveredTail)).filterMap Act.item? = [] := by
        rw [List.filterMap_cons_none rfl, List.map_map, List.filterMap_map,
          List.filterMap_eq_nil_iff]
        exact fun _ _ => rfl
      rw [hitems, List.append_nil] at nonempty ⊢
      refine ⟨tailFrames reads.flatten, List.prefix_refl _, fun start => ?_⟩
      have hcompleted := fun f => @tailFrames_completed reads nonempty f
      unfold tailFrames at hcompleted ⊢
      -- the tail is one frame, or there is none
      cases hparse : parseBlock (frameRest reads.flatten) with
      | none => exact .nil
      | some ev =>
          rw [hparse] at hcompleted
          obtain ⟨hwithin, hlast⟩ := hcompleted _ (List.mem_singleton.mpr rfl)
          exact @Chained.cons _ _ ⟨ev, start, reads.length⟩ _ _ rfl hwithin hlast .nil

/-! ## What is recorded -/

/-- A payload of the kind. -/
def InstallmentKind.payload : InstallmentKind → String → SsePayload
  | .comment => .comment
  | .data => .data

/-- The span of an installment, with its number. -/
def EmissionRecord.span? : EmissionRecord → Option (SpanOf × ℕ)
  | .installment _ _ seq first last bytes kind payload _ =>
      some (⟨⟨kind.payload payload, bytes⟩, first, last⟩, seq)
  | _ => none

/-- A frame that is recorded with its span: an undecodable one is not. -/
def SseEvent.decodable (ev : SseEvent) : Bool :=
  match ev.payload with
  | .undecodable _ _ => false
  | _ => true

/-- The cursor of the loop. -/
def ReadLoop.cursor (s : ReadLoop) : Cursor := ⟨s.readSeq, s.spanStart⟩

/-- **Spans are recorded** from one state of the loop to another, each under the number of
its frame. -/
structure Provenance (s : ReadLoop) (acts : List Act) (records : List EmissionRecord)
    (s' : ReadLoop) : Prop where
  cursor : s'.cursor = acts.foldl Cursor.step s.cursor
  count : s'.instSeq = s.instSeq + (spans s.cursor acts).length
  recorded : records.filterMap EmissionRecord.span? =
    ((spans s.cursor acts).zipIdx (s.instSeq + 1)).filter (·.1.event.decodable)

theorem Provenance.append {s s' s'' : ReadLoop} {acts acts' : List Act}
    {records records' : List EmissionRecord} (h : Provenance s acts records s')
    (h' : Provenance s' acts' records' s'') :
    Provenance s (acts ++ acts') (records ++ records') s'' where
  cursor := by rw [h'.cursor, h.cursor, List.foldl_append]
  count := by
    rw [h'.count, h.count, h.cursor, spans_append, List.length_append, Nat.add_assoc]
  recorded := by
    have hstart : s.instSeq + 1 + (spans s.cursor acts).length = s'.instSeq + 1 := by
      rw [h.count]
      omega
    rw [List.filterMap_append, h.recorded, h'.recorded, spans_append, ← h.cursor,
      List.zipIdx_append, List.filter_append, hstart]

/-- An act without a frame records no span. -/
theorem Provenance.quiet {s s' : ReadLoop} {acts : List Act}
    {records : List EmissionRecord}
    (cursor : s'.cursor = acts.foldl Cursor.step s.cursor) (count : s'.instSeq = s.instSeq)
    (unframed : spans s.cursor acts = [])
    (quiet : records.filterMap EmissionRecord.span? = []) :
    Provenance s acts records s' where
  cursor := cursor
  count := by rw [count, unframed]; rfl
  recorded := by rw [quiet, unframed]; rfl

theorem frameRecord_span (s : ReadLoop) (status : InstallmentStatus) (ev : SseEvent) :
    (s.frameRecord status ev).span? =
      if ev.decodable then some (⟨ev, s.spanStart, s.readSeq⟩, s.instSeq + 1) else none := by
  obtain ⟨payload, rawByteLen⟩ := ev
  cases payload <;> rfl

variable {serde}

/-- **A small step records the span of its frame.** -/
theorem Move.provenance {s s' : ReadLoop} {acts : List Act} {records : List EmissionRecord}
    (h : Move serde s acts records s') : Provenance s acts records s' := by
  cases h with
  | tick ticked notes =>
      obtain ⟨_, _, _, _, _, rfl⟩ := ticked
      exact .quiet rfl rfl rfl (filterMap_map_eq_nil (fun _ => rfl) notes)
  | read after wallUnixMs item => exact .quiet rfl rfl rfl rfl
  | close after => exact .quiet rfl rfl rfl rfl
  | frame status ev notes ttft content =>
      have hrest : (notes.map s.note ++
          s.st.refinement serde (s.instSeq + 1) status ev).filterMap
            EmissionRecord.span? = [] :=
        filterMap_behind_frame (fun _ _ _ => rfl) (fun _ _ _ _ => rfl)
          (fun _ _ _ _ => rfl) s notes status ev
      refine ⟨?_, rfl, ?_⟩
      · cases status <;> rfl
      · have hspans : spans s.cursor [.frame status ev] =
            [⟨ev, s.spanStart, s.readSeq⟩] := rfl
        rw [hspans, List.zipIdx_singleton, List.filterMap_cons, hrest,
          frameRecord_span, List.filter_singleton]
        cases ev.decodable <;> rfl

/-- A run of small steps records the spans of its frames. -/
theorem Moves.provenance {s s' : ReadLoop} {acts : List Act} {records : List EmissionRecord}
    (h : Moves serde s acts records s') : Provenance s acts records s' :=
  Run.invariant (I := fun acts records s' => Provenance s acts records s')
    (.quiet rfl rfl rfl rfl)
    (fun _ _ _ _ _ _ hprovenance move => hprovenance.append (Move.provenance move)) h

variable (serde)

theorem EmissionRecord.span_of_unnumbered {r : EmissionRecord}
    (unnumbered : r.installmentSeq? = none) : r.span? = none := by
  cases r with
  | installment => cases unnumbered
  | _ => rfl

/-- **The spans an attempt records** are those of its decodable frames. -/
theorem runAttempt_spans (messages : List Message) {st : StreamState}
    (fresh : st.machine = StreamMachine.new) (selectPolls now : ℕ) (wire : Wire) :
    (runAttempt cfg serde messages st selectPolls now wire).records.filterMap
        EmissionRecord.span? =
      ((spans ⟨0, 1⟩ (wireActs cfg serde wire)).zipIdx 1).filter
        (·.1.event.decodable) := by
  obtain ⟨instant, polls, records, s, e, hmoves, hends, hrecords, -, -⟩ :=
    runAttempt_unfolds cfg serde messages fresh selectPolls now wire
  rw [hrecords, List.filterMap_append, hmoves.provenance.recorded]
  have hend : e.records.filterMap EmissionRecord.span? = [] :=
    List.filterMap_eq_nil_iff.mpr fun r hr => EmissionRecord.span_of_unnumbered
      (List.filterMap_eq_nil_iff.mp hends.quiet.2.1 r hr)
  rw [hend, List.append_nil]
  rfl

/-! ## Exact spans -/

/-- **The recorded spans are exact**: each installment is a frame of the body, and its
span is the range of the reads that the frame and its terminator have a byte of. -/
def SpansExact (reads : List (List UInt8)) (records : List EmissionRecord) : Prop :=
  ∀ stream attempt seq first last bytes kind payload status,
    .installment stream attempt seq first last bytes kind payload status ∈ records →
    ∃ n f, seq = n + 1 ∧ (bodyFrames reads.flatten)[n]? = some f ∧
      f.event = ⟨kind.payload payload, bytes⟩ ∧
      ∀ i, Draws reads f.start f.stop i ↔ first ≤ i ∧ i ≤ last

/-- **No read ends in front of a frame**: each decodable frame begins in the read that
holds the last byte of the frame before, the first one in that of the position `pos`.
Behind a frame `span_start` is set to the number of the current read, so the span of the
next frame opens with that read although its first byte may come with a later one.  A frame
that is not decodable has no installment and hence no span to be wrong, but it moves
`span_start` all the same: it counts as the frame before. -/
def Aligned (reads : List (List UInt8)) : ℕ → List FrameAt → Prop
  | _, [] => True
  | pos, f :: frames =>
      (f.event.decodable → ∃ i, Holds reads i pos ∧ Holds reads i f.start) ∧
        Aligned reads (f.stop - 1) frames

/-- A span is chained to a frame with its event. -/
theorem Chained.frame {reads : List (List UInt8)} {start : ℕ} {frames : List FrameAt}
    {spans : List SpanOf} (h : Chained reads start frames spans) {n : ℕ} {span : SpanOf}
    (hspan : spans[n]? = some span) :
    ∃ f, frames[n]? = some f ∧ span.event = f.event := by
  induction h generalizing n with
  | nil => cases hspan
  | @cons f _ frames _ event within completed later ih =>
      cases n with
      | zero =>
          obtain rfl := Option.some.inj hspan
          exact ⟨f, rfl, event⟩
      | succ n => exact ih hspan

theorem Chained.length_eq {reads : List (List UInt8)} {start : ℕ} {frames : List FrameAt}
    {spans : List SpanOf} (h : Chained reads start frames spans) :
    frames.length = spans.length := by
  induction h with
  | nil => rfl
  | cons event within completed later ih => rw [List.length_cons, ih, List.length_cons]

/-- Behind no reads there is no frame. -/
theorem Chained.reads_ne_nil {reads : List (List UInt8)} {start : ℕ}
    {frames : List FrameAt} {spans : List SpanOf} (h : Chained reads start frames spans)
    (some : frames ≠ []) : reads ≠ [] := by
  intro hreads
  cases h with
  | nil => exact some rfl
  | cons event within completed later =>
      rw [hreads] at completed
      exact absurd completed.lt_length (Nat.not_lt_zero _)

/-- **Chained spans are exact** for frames in front of which no read ends, and for no
others. -/
theorem Chained.exact_iff {reads : List (List UInt8)} {start : ℕ} {frames : List FrameAt}
    {spans : List SpanOf} (h : Chained reads start frames spans)
    (nonempty : ∀ item ∈ reads, item ≠ []) {pos : ℕ}
    (begins : frames ≠ [] → Holds reads start pos) :
    (∀ (n : ℕ) (span : SpanOf) (f : FrameAt), spans[n]? = some span →
      frames[n]? = some f → span.event.decodable →
        ∀ i, Draws reads f.start f.stop i ↔ span.first ≤ i ∧ i ≤ span.last) ↔
        Aligned reads pos frames := by
  induction h generalizing pos with
  | nil => exact ⟨fun _ => trivial, fun _ _ _ _ hspan => by cases hspan⟩
  | @cons f span frames spans event within completed later ih =>
      have hfirst := begins (List.cons_ne_nil _ _)
      have hexact := @draws_exactly_iff _ reads span.first span.last nonempty f.start f.stop
        completed within
      have hlater := ih (fun _ => completed)
      rw [Aligned, ← hlater, ← event]
      constructor
      · intro exact_spans
        refine ⟨fun decodable => ⟨span.first, hfirst, ?_⟩, fun n => exact_spans (n + 1)⟩
        exact hexact.mp (exact_spans 0 span f rfl rfl decodable)
      · rintro ⟨aligned, exact_later⟩ (_ | n) span' f' hspan hf decodable
        · obtain rfl := Option.some.inj hspan
          obtain rfl := Option.some.inj hf
          obtain ⟨i, hi, hstart⟩ := aligned decodable
          rw [hi.unique hfirst] at hstart
          exact hexact.mpr hstart
        · exact exact_later n span' f' hspan hf decodable

/-! ## The attempt -/

/-- The reads that an attempt takes in. -/
def readsOf (wire : Wire) : List (List UInt8) :=
  (wireActs cfg serde wire).filterMap Act.item?

/-- The frames that an attempt takes in. -/
def framesOf (wire : Wire) : List FrameAt :=
  (bodyFrames (readsOf cfg serde wire).flatten).take
    ((wireActs cfg serde wire).filterMap Act.frame?).length

/-- **A recorded span** is that of a decodable frame, under the number of the frame. -/
theorem runAttempt_span_iff (messages : List Message) {st : StreamState}
    (fresh : st.machine = StreamMachine.new) (selectPolls now : ℕ) (wire : Wire)
    (span : SpanOf) (seq : ℕ) :
    (∃ r ∈ (runAttempt cfg serde messages st selectPolls now wire).records,
        r.span? = some (span, seq)) ↔
      ∃ n, seq = n + 1 ∧ (spans ⟨0, 1⟩ (wireActs cfg serde wire))[n]? = some span ∧
        span.event.decodable := by
  rw [← List.mem_filterMap, runAttempt_spans cfg serde messages fresh, List.mem_filter,
    List.mem_zipIdx_iff_le_and_getElem?_sub]
  constructor
  · rintro ⟨⟨hseq, hspan⟩, decodable⟩
    exact ⟨seq - 1, by omega, hspan, decodable⟩
  · rintro ⟨n, rfl, hspan, decodable⟩
    exact ⟨⟨Nat.le_add_left 1 n, hspan⟩, decodable⟩

/-- The frames that an attempt takes in are chained to the spans it notes down. -/
theorem framesOf_chained (wire : Wire)
    (nonempty : ∀ item ∈ readsOf cfg serde wire, item ≠ []) :
    framesOf cfg serde wire <+: bodyFrames (readsOf cfg serde wire).flatten ∧
      Chained (readsOf cfg serde wire) 1 (framesOf cfg serde wire)
        (spans ⟨0, 1⟩ (wireActs cfg serde wire)) := by
  obtain ⟨frames, hframes, hchained⟩ := (wireActs_behind cfg serde wire).chained nonempty
  have hnone : completeFrames ([] : List (List UInt8)).flatten = [] := by decide
  rw [hnone, List.nil_append, List.nil_append] at hframes
  have htaken : framesOf cfg serde wire = frames := by
    have hlength := (hchained 1).length_eq
    rw [length_spans] at hlength
    rw [framesOf, ← hlength]
    exact (List.prefix_iff_eq_take.mp hframes).symm
  rw [htaken]
  exact ⟨hframes, hchained 1⟩

/-- **When the spans of an attempt are exact**: each frame that it records begins in the
read in which the frame before it ends. -/
theorem runAttempt_spans_exact_iff (messages : List Message) {st : StreamState}
    (fresh : st.machine = StreamMachine.new) (selectPolls now : ℕ) (wire : Wire)
    (nonempty : ∀ item ∈ readsOf cfg serde wire, item ≠ []) :
    SpansExact (readsOf cfg serde wire)
        (runAttempt cfg serde messages st selectPolls now wire).records ↔
      Aligned (readsOf cfg serde wire) 0 (framesOf cfg serde wire) := by
  obtain ⟨hframes, hchained⟩ := framesOf_chained cfg serde wire nonempty
  have hrecorded := runAttempt_span_iff cfg serde messages fresh selectPolls now wire
  have hbegins : framesOf cfg serde wire ≠ [] → Holds (readsOf cfg serde wire) 1 0 :=
    fun some => holds_first nonempty (hchained.reads_ne_nil some)
  have hbody : ∀ {n : ℕ} {f : FrameAt}, (framesOf cfg serde wire)[n]? = some f →
      (bodyFrames (readsOf cfg serde wire).flatten)[n]? = some f := by
    intro n f hf
    obtain ⟨hn, rfl⟩ := List.getElem?_eq_some_iff.mp hf
    exact List.prefix_iff_getElem?.mp hframes n hn
  rw [← hchained.exact_iff nonempty hbegins]
  constructor
  · intro hexact n span f hspan hf decodable
    obtain ⟨r, hr, hr'⟩ := (hrecorded span (n + 1)).mpr ⟨n, rfl, hspan, decodable⟩
    cases r with
    | installment stream attempt seq first last bytes kind payload status =>
        obtain ⟨rfl, rfl⟩ := Prod.mk.inj (Option.some.inj hr')
        obtain ⟨m, g, hseq, hg, -, hdraws⟩ := hexact _ _ _ _ _ _ _ _ _ hr
        obtain rfl : n = m := Nat.succ.inj hseq
        obtain rfl := Option.some.inj ((hbody hf).symm.trans hg)
        exact hdraws
    | _ => cases hr'
  · intro hexact stream attempt seq first last bytes kind payload status hr
    obtain ⟨n, hseq, hspan, decodable⟩ := (hrecorded _ seq).mp ⟨_, hr, rfl⟩
    obtain ⟨f, hf, hevent⟩ := hchained.frame hspan
    exact ⟨n, f, hseq, hbody hf, hevent.symm,
      hexact n _ f hspan hf decodable⟩

/-- The spans of a comment over two reads, and of a tail in the second of them. -/
theorem runAttempt_spans_exact_comment :
    let reads := [asBytes ": a\n", asBytes "\n: b"]
    SpansExact reads (runAttempt exampleConfig (.ofTable []) [] (StreamState.new 1) 0 0
      (streamOf reads)).records := by
  intro reads
  have hreads : readsOf exampleConfig (.ofTable []) (streamOf reads) = reads := by
    decide +kernel
  have hframes : framesOf exampleConfig (.ofTable []) (streamOf reads) =
      [⟨⟨.comment ": a", 3⟩, 0, 5⟩, ⟨⟨.comment ": b", 3⟩, 5, 8⟩] := by
    decide +kernel
  have hfresh : (StreamState.new 1).machine = StreamMachine.new := rfl
  have hexact := runAttempt_spans_exact_iff exampleConfig (.ofTable []) [] hfresh 0 0
    (streamOf reads) (by rw [hreads]; decide)
  rw [hreads, hframes] at hexact
  refine hexact.mpr ⟨fun _ => ⟨1, ?_, ?_⟩, fun _ => ⟨2, ?_, ?_⟩, trivial⟩
  · exact ⟨0, rfl, by decide, by decide⟩
  · exact ⟨0, rfl, by decide, by decide⟩
  · exact ⟨1, rfl, by decide, by decide⟩
  · exact ⟨1, rfl, by decide, by decide⟩

/-- **A frame that begins with a read** is recorded from the read before: the second of
two frames, each the whole of a read. -/
theorem reply_spans_inexact :
    (∀ item ∈ readsOf exampleConfig replySerde replyWire, item ≠ []) ∧
      ¬ SpansExact (readsOf exampleConfig replySerde replyWire)
        (runAttempt exampleConfig replySerde [] (StreamState.new 1) 0 0
          replyWire).records := by
  have hreads : readsOf exampleConfig replySerde replyWire = [hiFrame, stopFrame] := by
    decide +kernel
  have hstart : ((bodyFrames [hiFrame, stopFrame].flatten)[1]?).map FrameAt.start =
      some 48 := by
    decide +kernel
  have hrecord : ∃ payload, .installment 1 0 2 1 2 55 .data payload .complete ∈
      (runAttempt exampleConfig replySerde [] (StreamState.new 1) 0 0 replyWire).records :=
    ⟨"\x7b\"choices\":[\x7b\"delta\":\x7b\x7d,\"finish_reason\":\"stop\"\x7d]\x7d",
      by decide +kernel⟩
  rw [hreads]
  refine ⟨by decide, fun hexact => ?_⟩
  obtain ⟨payload, hrecord⟩ := hrecord
  obtain ⟨n, f, hn, hf, -, hdraws⟩ := hexact _ _ _ _ _ _ _ _ _ hrecord
  obtain rfl : n = 1 := (Nat.succ.inj hn).symm
  rw [hf] at hstart
  -- the first read ends where the second frame begins
  obtain ⟨pos, hstart', -, m, hm, -, hpos⟩ := (hdraws 1).mpr (by decide)
  obtain rfl : m = 0 := (Nat.succ.inj hm).symm
  have hoffset : offset [hiFrame, stopFrame] 1 = 48 := by decide
  have hbegins : f.start = 48 := Option.some.inj hstart
  rw [Nat.zero_add, hoffset] at hpos
  omega

end RarChat
