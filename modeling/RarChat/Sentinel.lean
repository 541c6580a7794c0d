import RarChat.ChoiceMerge
import RarChat.CommittedReply

/-!
# The note on a missing sentinel

DEC-CHAT-04: an attempt that meets the criterion without a `[DONE]` commits, and the
missing sentinel is noted.  A `[DONE]` can be consumed in two places, in a complete
frame, which leaves the loop over the body, and in the tail recovered behind it, whose
directive is ignored.  The note is decided behind the second one and does not look at
it (`runAttempt_notesEof_iff`): a committed attempt is noted exactly when the peer
closed it, so that an unterminated `[DONE]` is noted as missing
(`runAttempt_eofNote_iff`).
-/

namespace RarChat

open EarlyExit LabelledRun

/-- The record notes that the stream ended without the sentinel. -/
def EmissionRecord.IsEofNote (r : EmissionRecord) : Prop :=
  ∃ stream attempt, r = .wire stream attempt .eofWithoutDoneSentinel

/-- The attempt emits the note. -/
def AttemptRun.NotesEof (run : AttemptRun) : Prop := ∃ r ∈ run.records, r.IsEofNote

/-- The attempt commits. -/
def AttemptEnd.Commits (e : AttemptEnd) : Prop := ∃ o, e = .complete (.committed o)

variable (cfg : OpenAiConfig) (serde : SerdeJson)

/-- **A `[DONE]` is consumed** in an attempt on this wire, in a complete frame or in the
recovered tail.  Both have an installment in the records and both are fed to the machine,
so a reader of the capture sees the sentinel either way, whatever the note says. -/
def ConsumesDone (wire : Wire) : Prop :=
  ∃ status ev, .frame status ev ∈ wireActs cfg serde wire ∧ .done ∈ ev.events serde

/-- **A body that ends in an unterminated `[DONE]`**, behind frames that bring a finish
reason and none of which stops the attempt.  The directive of a recovered installment is
discarded, so the attempt goes on to its commit at the close, where the note is emitted
with every commit.  Without a finish reason the close commits nothing, and a frame that
stops the attempt keeps the tail from being recovered. -/
structure DoneUnterminated (body : List UInt8) : Prop where
  passing : ∀ ev ∈ frameEvents body, frameVerdict serde ev = none
  finished : ∃ ev ∈ frameEvents body, ∃ reason, .finish reason ∈ ev.events serde
  done : ∃ ev, parseBlock (frameRest body) = some ev ∧ .done ∈ ev.events serde

/-! ## Who emits the note -/

/-- What refines a payload does not emit the note. -/
theorem onInstallment_noEofNote (st : StreamState) (seq : ℕ) (text : String)
    (status : InstallmentStatus) :
    ∀ r ∈ (onInstallment serde st seq .data text status).records, ¬r.IsEofNote := by
  rintro r hr ⟨stream, attempt, rfl⟩
  cases hrefined : refined serde text with
  | error detail =>
      obtain ⟨n, hstep⟩ := onInstallment_of_error hrefined st seq status
      rw [hstep] at hr
      simp at hr
  | ok norm =>
      rw [onInstallment_of_ok hrefined] at hr
      simp at hr

theorem endComplete_noEofNote (s : ReadLoop) (cause : StreamEndCause)
    (endCause : EndCause) : ∀ r ∈ (s.endComplete cause endCause).records, ¬r.IsEofNote := by
  rintro r hr ⟨stream, attempt, rfl⟩
  simp [ReadLoop.endComplete, ReadLoop.streamEnd, finalizeAttempt] at hr

theorem follow_noEofNote (s : ReadLoop) (gained : ℕ)
    (result : Except DriverFault FlowDirective) :
    ∀ r ∈ (s.follow gained result).out, ¬r.IsEofNote := by
  unfold ReadLoop.follow
  split
  · exact fun r hr => absurd hr List.not_mem_nil
  all_goals exact endComplete_noEofNote _ _ _

/-- The notes on a data frame are about its timing. -/
theorem dataRecords_noEofNote (s : ReadLoop) (gap : ℕ) (ev : SseEvent) (text : String)
    {refinement : List EmissionRecord} (quiet : ∀ r ∈ refinement, ¬r.IsEofNote) :
    ∀ r ∈ s.dataRecords gap ev text refinement, ¬r.IsEofNote := by
  have htimings : ∀ note ∈ s.dataNotes gap ev, note ≠ .eofWithoutDoneSentinel := by
    rintro note hnote rfl
    unfold ReadLoop.dataNotes at hnote
    split_ifs at hnote <;> simp at hnote
  have hrecords : s.dataRecords gap ev text refinement =
      s.installment ev .data text .complete ::
        ((s.dataNotes gap ev).map s.note ++ refinement) := by
    unfold ReadLoop.dataRecords ReadLoop.dataNotes
    split_ifs <;> rfl
  intro r hr
  rw [hrecords, List.mem_cons, List.mem_append, List.mem_map] at hr
  rcases hr with rfl | ⟨note, hnote, rfl⟩ | hr
  · rintro ⟨stream, attempt, heof⟩
    cases heof
  · rintro ⟨stream, attempt, heof⟩
    exact htimings note hnote (EmissionRecord.wire.inj heof).2.2
  · exact quiet r hr

theorem frameStep_noEofNote (gap : ℕ) (s : ReadLoop) (ev : SseEvent) :
    ∀ r ∈ (frameStep serde gap s ev).out, ¬r.IsEofNote := by
  cases hpayload : ev.payload with
  | undecodable raw error =>
      rintro r hr ⟨stream, attempt, rfl⟩
      simp [frameStep, hpayload, ReadLoop.undecodable] at hr
  | comment text =>
      rintro r hr ⟨stream, attempt, rfl⟩
      simp [frameStep, hpayload, ReadLoop.installment, ReadLoop.note] at hr
  | data text =>
      rw [frameStep_of_data serde hpayload]
      intro r hr
      rcases List.mem_append.mp hr with hr | hr
      · exact dataRecords_noEofNote s gap ev text
          (onInstallment_noEofNote serde _ _ _ _) r hr
      · exact follow_noEofNote _ _ _ r hr

/-- **No wakeup emits the note.** -/
theorem wakeupStep_noEofNote (s : ReadLoop) (w : Wakeup) :
    ∀ r ∈ (wakeupStep cfg serde s w).out, ¬r.IsEofNote := by
  cases w with
  | tick after activeStreams =>
      obtain ⟨s', notes, -, hstep | hstep⟩ := tickStep_cases cfg s after activeStreams
      · rw [wakeupStep, hstep]
        rintro r hr ⟨stream, attempt, rfl⟩
        simp at hr
      · rw [wakeupStep, hstep]
        rintro r hr ⟨stream, attempt, rfl⟩
        simp [LoopEnd.after, LoopEnd.returned, ReadLoop.endWire, ReadLoop.streamEnd] at hr
  | read after wallUnixMs item =>
      rw [wakeupStep]
      by_cases hlong : s.parser.limitBytes < (frameRest (s.parser.buf ++ item)).length
      · rw [readStep_of_overflow serde hlong]
        rintro r hr ⟨stream, attempt, rfl⟩
        simp [LoopEnd.after, LoopEnd.returned, ReadLoop.endWire, ReadLoop.streamEnd,
          ReadLoop.readRecord] at hr
      · rw [readStep_of_fits serde hlong]
        intro r hr
        rcases List.mem_cons.mp hr with rfl | hr
        · rintro ⟨stream, attempt, hnote⟩
          cases hnote
        · exact run_out_of_each _ (I := fun _ => True)
            (fun s ev _ => ⟨trivial, frameStep_noEofNote serde _ s ev⟩) trivial _ r hr

theorem run_wakeupStep_noEofNote (s : ReadLoop) (wakeups : List Wakeup) :
    ∀ r ∈ (run (wakeupStep cfg serde) s wakeups).out, ¬r.IsEofNote :=
  run_out_of_each _ (I := fun _ => True)
    (fun s w _ => ⟨trivial, wakeupStep_noEofNote cfg serde s w⟩) trivial wakeups

theorem tailStep_noEofNote (s : ReadLoop) (ev : SseEvent) :
    ∀ r ∈ (tailStep serde s ev).out, ¬r.IsEofNote := by
  unfold tailStep
  cases ev.payload with
  | undecodable raw error =>
      rintro r hr ⟨stream, attempt, rfl⟩
      simp [ReadLoop.undecodable] at hr
  | comment text =>
      rintro r hr ⟨stream, attempt, rfl⟩
      simp [ReadLoop.installment] at hr
  | data text =>
      intro r hr
      rcases List.mem_cons.mp hr with rfl | hr
      · rintro ⟨stream, attempt, hnote⟩
        cases hnote
      · exact onInstallment_noEofNote serde _ _ _ _ r hr

/-- **A peer close emits the note exactly when the attempt commits.** -/
theorem peerClosed_eofNote_iff (s : ReadLoop) :
    (∃ r ∈ (peerClosed serde s).records, r.IsEofNote) ↔
      (peerClosed serde s).ended.Commits := by
  have htail : ∀ r ∈ (run (tailStep serde) s s.parser.finishWithResidue.1).out,
      ¬r.IsEofNote :=
    run_out_of_each _ (I := fun _ => True)
      (fun s ev _ => ⟨trivial, tailStep_noEofNote serde s ev⟩) trivial _
  have hresidue : ∀ r ∈ residueRecords s.st.streamId s.st.attempt
      s.parser.finishWithResidue.2, ¬r.IsEofNote := by
    unfold residueRecords
    rintro r hr ⟨stream, attempt, rfl⟩
    split_ifs at hr <;> simp at hr
  generalize hclosed : (run (tailStep serde) s s.parser.finishWithResidue.1).state = closed
  constructor
  · rintro ⟨r, hr, hnote⟩
    simp only [peerClosed, hclosed, List.append_assoc, List.mem_append,
      List.cons_append, List.mem_cons] at hr
    rcases hr with hr | hr | rfl | hr | hr
    · exact absurd hnote (htail r hr)
    · exact absurd hnote (hresidue r hr)
    · obtain ⟨stream, attempt, hend⟩ := hnote
      cases hend
    · obtain ⟨stream, attempt, rfl⟩ := hnote
      simp [finalizeAttempt] at hr
    · simp only [peerClosed, hclosed, AttemptEnd.Commits]
      cases hresolution : (finalizeAttempt closed.st .streamEnded).resolution with
      | committed o => exact ⟨o, rfl⟩
      | fault f =>
          rw [hresolution] at hr
          cases hr
  · rintro ⟨o, ho⟩
    simp only [peerClosed, hclosed] at ho ⊢
    rw [AttemptEnd.complete.inj ho]
    exact ⟨_, List.mem_append_right _ (List.mem_singleton_self _), _, _, rfl⟩

/-- The last wait emits the note exactly when the peer closes and the attempt commits. -/
theorem lastWait_eofNote_iff (s : ReadLoop) (last : WaitEnd) :
    (∃ r ∈ (lastWait cfg serde s last).records, r.IsEofNote) ↔
      (lastWait cfg serde s last).ended.Commits ∧ .close ∈ s.lastActs last := by
  have hwire : ∀ (woken : ReadLoop) cause (earlier : List EmissionRecord),
      (∀ r ∈ earlier, ¬r.IsEofNote) →
        ¬∃ r ∈ ((woken.endWire cause).after earlier).records, r.IsEofNote := by
    rintro woken cause earlier hearlier ⟨r, hr, hnote⟩
    rcases List.mem_append.mp hr with hr | hr
    · exact hearlier r hr hnote
    · obtain ⟨stream, attempt, rfl⟩ := hnote
      simp [ReadLoop.endWire, ReadLoop.streamEnd] at hr
  have hwake : ∀ arm, ∀ r ∈ [s.wake arm], ¬r.IsEofNote := by
    rintro arm r hr ⟨stream, attempt, rfl⟩
    simp [ReadLoop.wake] at hr
  cases last with
  | cancelled after => exact iff_of_false (hwire _ _ _ (hwake _)) fun h => by cases h.2
  | overallDeadline late => exact iff_of_false (hwire _ _ _ (hwake _)) fun h => by cases h.2
  | stall late => exact iff_of_false (hwire _ _ _ (hwake _)) fun h => by cases h.2
  | closed after =>
      exact (peerClosed_eofNote_iff serde _).trans
        (and_iff_left List.mem_cons_self).symm
  | transportError after detail =>
      exact iff_of_false (hwire _ _ [] fun r hr => absurd hr List.not_mem_nil)
        fun h => by cases h.2

/-! ## Where a `[DONE]` is consumed -/

/-- A payload that brings `[DONE]` brings nothing else. -/
theorem payloadEvents_of_done {text : String} (done : .done ∈ payloadEvents serde text) :
    payloadEvents serde text = [.done] := by
  unfold payloadEvents at done ⊢
  cases hacc : accepted serde text with
  | none => simp [hacc] at done
  | some norm =>
      have hnorm := (normalize_of_refined (accepted_eq_some_iff.mp hacc)).1
      simp only [hacc, Option.map_some, Option.getD_some] at done ⊢
      exact normalize_of_done hnorm done

/-- A frame that brings `[DONE]` brings no finish reason. -/
theorem SseEvent.finish_of_done {ev : SseEvent} (done : .done ∈ ev.events serde)
    (reason : String) : .finish reason ∉ ev.events serde := by
  unfold SseEvent.events at done ⊢
  cases hpayload : ev.payload with
  | comment text => simp
  | undecodable raw error => simp
  | data text =>
      simp only [hpayload] at done ⊢
      rw [payloadEvents_of_done serde done]
      simp

/-- What ends an attempt without aborting it brings `[DONE]`. -/
theorem SseEvent.done_of_streamEnded {ev : SseEvent} {cause : StreamEndCause}
    (stops : frameVerdict serde ev = some (cause, .streamEnded)) :
    .done ∈ ev.events serde := by
  unfold SseEvent.events
  cases hpayload : ev.payload with
  | comment text => simp [frameVerdict, hpayload] at stops
  | undecodable raw error => simp [frameVerdict, hpayload] at stops
  | data text =>
      obtain ⟨norm, hnorm⟩ := refined_of_streamEnded stops hpayload
      rw [frameVerdict_of_ok serde hpayload hnorm] at stops
      simp only [payloadEvents, accepted_eq_some_iff.mpr hnorm, Option.map_some,
        Option.getD_some]
      by_contra hdone
      rw [if_neg hdone] at stops
      cases stops

/-- A frame that stops nothing brings no `[DONE]`. -/
theorem SseEvent.done_of_passing {ev : SseEvent}
    (passes : frameVerdict serde ev = none) : .done ∉ ev.events serde := by
  unfold SseEvent.events
  cases hpayload : ev.payload with
  | comment text => simp
  | undecodable raw error => simp
  | data text =>
      obtain ⟨norm, hnorm⟩ := refined_of_passing passes hpayload
      rw [frameVerdict_of_ok serde hpayload hnorm] at passes
      simp only [payloadEvents, accepted_eq_some_iff.mpr hnorm, Option.map_some,
        Option.getD_some]
      intro hdone
      rw [if_pos hdone] at passes
      cases passes

/-- The events taken in are those of the frames. -/
theorem mem_actEvents_iff {acts : List Act} {event : DriverEvent} :
    event ∈ actEvents serde acts ↔
      ∃ status ev, .frame status ev ∈ acts ∧ event ∈ ev.events serde := by
  simp only [actEvents, List.mem_flatMap, List.mem_filterMap]
  constructor
  · rintro ⟨ev, ⟨act, hact, hframe⟩, hevent⟩
    cases act with
    | frame status ev' =>
        obtain rfl := Option.some.inj hframe
        exact ⟨status, ev', hact, hevent⟩
    | read item => cases hframe
    | close => cases hframe
  · rintro ⟨status, ev, hact, hevent⟩
    exact ⟨ev, ⟨_, hact, rfl⟩, hevent⟩

/-- A machine has a finish reason exactly when it was fed one. -/
theorem finishReason_feedAll_new_iff {events : List DriverEvent} :
    (∃ reason, (StreamMachine.new.feedAll events).finishReason = some reason) ↔
      ∃ reason, .finish reason ∈ events := by
  rw [StreamMachine.feedAll_finishReason]
  show (∃ reason, (none : Option String).or _ = some reason) ↔ _
  rw [Option.none_or, ← Option.isSome_iff_exists, List.isSome_head?, ne_eq,
    List.filterMap_eq_nil_iff]
  push Not
  constructor
  · rintro ⟨event, hevent, hfinish⟩
    cases event with
    | finish reason => exact ⟨reason, hevent⟩
    | textDelta text => exact absurd rfl hfinish
    | usage p c t => exact absurd rfl hfinish
    | done => exact absurd rfl hfinish
  · rintro ⟨reason, hreason⟩
    exact ⟨_, hreason, by simp [DriverEvent.finish?]⟩

variable {serde}

/-- A commit that no peer close brought about was brought about by a `[DONE]`. -/
theorem Ends.done_of_commits {s : ReadLoop} {acts : List Act} {e : LoopEnd}
    (h : Ends serde s acts e) (commits : e.ended.Commits) (unclosed : .close ∉ acts) :
    ∃ ev, .frame .complete ev ∈ acts ∧ .done ∈ ev.events serde := by
  obtain ⟨o, ho⟩ := commits
  cases h with
  | wire cause goes => cases ho
  | closed tail residue split goes => simp [split] at unclosed
  | @stopped acts' ev cause endCause split goes stops =>
      cases endCause with
      | streamEnded => exact ⟨ev, by simp [split], ev.done_of_streamEnded serde stops⟩
      | handlerAbort =>
          -- an aborted machine commits nothing
          obtain ⟨hcause, -⟩ := (finalizeAttempt_committed_iff s.st .handlerAbort o).mp
            (AttemptEnd.complete.inj ho)
          cases hcause

/-- A closed attempt commits exactly when its machine has a finish reason. -/
theorem endClosed_commits_iff (s : ReadLoop) (residue : List UInt8) :
    (s.endClosed residue).ended.Commits ↔
      ∃ reason, s.st.machine.finishReason = some reason := by
  constructor
  · rintro ⟨o, ho⟩
    obtain ⟨-, reason, hreason, -⟩ :=
      (finalizeAttempt_committed_iff s.st .streamEnded o).mp (AttemptEnd.complete.inj ho)
    exact ⟨reason, hreason⟩
  · rintro ⟨reason, hreason⟩
    exact ⟨_, congrArg AttemptEnd.complete
      ((finalizeAttempt_committed_iff s.st .streamEnded _).mpr ⟨rfl, reason, hreason, rfl⟩)⟩

variable (serde)

/-! ## The acts of a body that is delivered -/

/-- The acts of an attempt, as those of its own read loop. -/
theorem wireActs_of_framed {wire : Wire} {after : ℕ} {body : BodyTrace}
    (framed : wire.framed = some (after, body)) {st : StreamState}
    (fresh : st.machine = StreamMachine.new) (selectPolls now : ℕ) :
    wireActs cfg serde wire =
      bodyActs cfg serde (ReadLoop.start st (now + after) selectPolls) body := by
  rw [wireActs, framed]
  exact (bodyActs_shifted cfg serde
    (ReadLoop.shifted_start fresh after selectPolls now) body).symm

/-- Wakeups bring neither a close nor a recovered tail. -/
theorem goesOn_gather (s : ReadLoop) (wakeups : List Wakeup) :
    ∀ act ∈ gather (wakeupStep cfg serde) (wakeupActs serde) s wakeups,
      act ≠ .close ∧ ∀ ev, act ≠ .frame .recoveredTail ev := by
  refine gather_of_each (wakeupStep cfg serde) (fun s w act hact => ?_) s wakeups
  cases w with
  | tick after activeStreams => cases hact
  | read after wallUnixMs item =>
      rcases List.mem_cons.mp hact with rfl | hact
      · simp
      · obtain ⟨ev, -, rfl⟩ := List.mem_map.mp hact
        simp

/-- **An attempt is closed by the peer** exactly when the wire delivers a body to it that
no frame of stops it. -/
theorem close_mem_wireActs_iff {st : StreamState} (fresh : st.machine = StreamMachine.new)
    (selectPolls now : ℕ) (wire : Wire) :
    .close ∈ wireActs cfg serde wire ↔
      ∃ body, Delivers cfg serde st selectPolls now wire body ∧
        ∀ ev ∈ frameEvents body, frameVerdict serde ev = none := by
  constructor
  · intro hclose
    cases hframed : wire.framed with
    | none => simp [wireActs, hframed] at hclose
    | some framed =>
        obtain ⟨after, wakeups, last⟩ := framed
        rw [wireActs_of_framed cfg serde hframed fresh selectPolls now, bodyActs,
          List.mem_append] at hclose
        have hlast := hclose.resolve_left fun hmem =>
          (goesOn_gather cfg serde _ _ .close hmem).1 rfl
        split_ifs at hlast with hstop
        · obtain ⟨hquiet, hpassing⟩ :=
            (run_wakeupStep_running_iff cfg serde rfl wakeups).mp hstop
          cases last with
          | closed late => exact ⟨_, ⟨after, wakeups, late, hframed, rfl, hquiet⟩, hpassing⟩
          | cancelled after => cases hlast
          | overallDeadline late => cases hlast
          | stall late => cases hlast
          | transportError after detail => cases hlast
        · cases hlast
  · rintro ⟨body, ⟨after, wakeups, late, hframed, rfl, hquiet⟩, hpassing⟩
    have hstop := (run_wakeupStep_running_iff cfg serde rfl wakeups).mpr ⟨hquiet, hpassing⟩
    rw [wireActs_of_framed cfg serde hframed fresh selectPolls now, bodyActs, if_pos hstop]
    exact List.mem_append_right _ List.mem_cons_self

theorem frame_complete_mem_iff {acts : List Act} {ev : SseEvent} :
    .frame .complete ev ∈ acts ↔ ev ∈ acts.filterMap Act.complete? := by
  rw [List.mem_filterMap]
  constructor
  · intro hmem
    exact ⟨_, hmem, rfl⟩
  · rintro ⟨act, hmem, hact⟩
    unfold Act.complete? at hact
    split at hact
    · obtain rfl := Option.some.inj hact
      exact hmem
    · cases hact

/-- **What such an attempt takes in**: the frames of the body, and the tail behind them. -/
theorem frame_mem_wireActs_iff {st : StreamState} (fresh : st.machine = StreamMachine.new)
    {selectPolls now : ℕ} {wire : Wire} {body : List UInt8}
    (delivers : Delivers cfg serde st selectPolls now wire body)
    (passing : ∀ ev ∈ frameEvents body, frameVerdict serde ev = none) (ev : SseEvent) :
    (.frame .complete ev ∈ wireActs cfg serde wire ↔ ev ∈ frameEvents body) ∧
      (.frame .recoveredTail ev ∈ wireActs cfg serde wire ↔
        parseBlock (frameRest body) = some ev) := by
  obtain ⟨after, wakeups, late, hframed, rfl, hquiet⟩ := delivers
  have hstop := (run_wakeupStep_running_iff cfg serde rfl wakeups).mpr ⟨hquiet, passing⟩
  have hbuf : (run (wakeupStep cfg serde) (ReadLoop.start st (now + after) selectPolls)
      wakeups).state.parser.buf = frameRest (bodyBytes wakeups) :=
    (run_wakeupStep_agrees cfg serde frameRest_nil hquiet).2 hstop
  have hframes : (gather (wakeupStep cfg serde) (wakeupActs serde)
      (ReadLoop.start st (now + after) selectPolls) wakeups).filterMap Act.complete? =
        frameEvents (bodyBytes wakeups) :=
    (gather_wakeupActs_complete cfg serde frameRest_nil hquiet).trans
      (framesUpTo_eq_self serde passing)
  rw [wireActs_of_framed cfg serde hframed fresh selectPolls now, bodyActs, if_pos hstop,
    List.mem_append, List.mem_append, frame_complete_mem_iff, hframes]
  constructor
  · simp [ReadLoop.lastActs]
  · rw [or_iff_right fun hmem => (goesOn_gather cfg serde _ _ _ hmem).2 ev rfl]
    simp [ReadLoop.lastActs, SseParser.finishWithResidue_eq, hbuf]

/-! ## The note -/

/-- **The note is emitted** exactly when the attempt commits and the peer closed it. -/
theorem runAttempt_notesEof_iff (messages : List Message) {st : StreamState}
    (fresh : st.machine = StreamMachine.new) (selectPolls now : ℕ) (wire : Wire) :
    (runAttempt cfg serde messages st selectPolls now wire).NotesEof ↔
      (runAttempt cfg serde messages st selectPolls now wire).ended.Commits ∧
        .close ∈ wireActs cfg serde wire := by
  cases hframed : wire.framed with
  | none =>
      obtain ⟨instant, cause, hrun⟩ :=
        runAttempt_of_unframed cfg serde hframed messages st selectPolls now
      rw [hrun, wireActs, hframed]
      refine iff_of_false ?_ fun h => by cases h.2
      rintro ⟨r, hr, stream, attempt, rfl⟩
      simp [endUnframed] at hr
  | some framed =>
      obtain ⟨after, wakeups, last⟩ := framed
      rw [runAttempt_of_framed cfg serde hframed,
        wireActs_of_framed cfg serde hframed fresh selectPolls now]
      generalize ReadLoop.start st (now + after) selectPolls = s
      have hlooped := run_wakeupStep_noEofNote cfg serde s wakeups
      simp only [AttemptRun.NotesEof, bodyActs, List.mem_append]
      rw [or_iff_right fun hmem => (goesOn_gather cfg serde _ _ .close hmem).1 rfl]
      cases hstop : (run (wakeupStep cfg serde) s wakeups).stop with
      | some ended =>
          rw [readLoop_of_stop cfg serde hstop, if_neg (by simp)]
          refine iff_of_false ?_ fun h => by cases h.2
          rintro ⟨r, hr, hnote⟩
          exact hlooped r hr hnote
      | none =>
          rw [readLoop_of_running cfg serde hstop, if_pos rfl]
          simp only [LoopEnd.after, List.mem_append, or_and_right, exists_or]
          rw [or_iff_right (by
            rintro ⟨r, hr, hnote⟩
            exact hlooped r hr hnote)]
          exact lastWait_eofNote_iff cfg serde _ last

/-- A wire delivers one body. -/
theorem Delivers.unique {st : StreamState} {selectPolls now : ℕ} {wire : Wire}
    {body body' : List UInt8} (one : Delivers cfg serde st selectPolls now wire body)
    (other : Delivers cfg serde st selectPolls now wire body') : body = body' := by
  obtain ⟨after, wakeups, late, hframed, rfl, -⟩ := one
  obtain ⟨after', wakeups', late', hframed', rfl, -⟩ := other
  rw [hframed] at hframed'
  obtain ⟨-, hbody⟩ := Prod.mk.inj (Option.some.inj hframed')
  rw [(BodyTrace.mk.inj hbody).1]

/-- **A closed attempt that commits has consumed a `[DONE]`** exactly when the body it was
delivered ends in an unterminated one. -/
theorem commits_consumesDone_iff {st : StreamState} (fresh : st.machine = StreamMachine.new)
    {selectPolls now : ℕ} {wire : Wire} {body : List UInt8}
    (delivers : Delivers cfg serde st selectPolls now wire body)
    (passing : ∀ ev ∈ frameEvents body, frameVerdict serde ev = none) :
    (∃ reason, .finish reason ∈ actEvents serde (wireActs cfg serde wire)) ∧
        ConsumesDone cfg serde wire ↔ DoneUnterminated serde body := by
  have hacts := frame_mem_wireActs_iff cfg serde fresh delivers passing
  constructor
  · rintro ⟨⟨reason, hreason⟩, status, ev, hev, hdone⟩
    obtain ⟨status', ev', hev', hfinish⟩ := (mem_actEvents_iff serde).mp hreason
    -- the sentinel is in the tail, and the reason is not
    have htail : parseBlock (frameRest body) = some ev := by
      cases status with
      | recoveredTail => exact (hacts ev).2.mp hev
      | complete =>
          exact absurd hdone (ev.done_of_passing serde (passing ev ((hacts ev).1.mp hev)))
    refine ⟨passing, ⟨ev', ?_, reason, hfinish⟩, ev, htail, hdone⟩
    cases status' with
    | complete => exact (hacts ev').1.mp hev'
    | recoveredTail =>
        obtain rfl := Option.some.inj (htail.symm.trans ((hacts ev').2.mp hev'))
        exact absurd hfinish (ev.finish_of_done serde hdone reason)
  · rintro ⟨-, ⟨ev, hev, reason, hfinish⟩, ev', htail, hdone⟩
    exact ⟨⟨reason, (mem_actEvents_iff serde).mpr ⟨_, _, (hacts ev).1.mpr hev, hfinish⟩⟩,
      _, _, (hacts ev').2.mpr htail, hdone⟩

/-- **Exactly when the note is right**: it tells a commit without a `[DONE]` from one
with, unless the body that is delivered ends in an unterminated `[DONE]`. -/
theorem runAttempt_eofNote_iff (messages : List Message) (st : StreamState)
    (selectPolls now : ℕ) (wire : Wire) :
    ((runAttempt cfg serde messages st.beginAttempt selectPolls now wire).NotesEof ↔
        (runAttempt cfg serde messages st.beginAttempt selectPolls now wire).ended.Commits ∧
          ¬ConsumesDone cfg serde wire) ↔
      ∀ body, Delivers cfg serde st.beginAttempt selectPolls now wire body →
        ¬DoneUnterminated serde body := by
  have hfresh : st.beginAttempt.machine = StreamMachine.new := rfl
  have hunfolds := runAttempt_unfolds cfg serde messages hfresh selectPolls now wire
  obtain ⟨instant, polls, records, s, e, hmoves, hends, -, hended, -⟩ := hunfolds
  have hclose := close_mem_wireActs_iff cfg serde hfresh selectPolls now wire
  rw [runAttempt_notesEof_iff cfg serde messages hfresh, hended]
  by_cases hclosed : .close ∈ wireActs cfg serde wire
  · obtain ⟨body, hdelivers, hpassing⟩ := hclose.mp hclosed
    obtain ⟨residue, rfl⟩ := hends.of_close hclosed
    have hcommits := endClosed_commits_iff s residue
    have hmachine : s.st.machine =
        StreamMachine.new.feedAll (actEvents serde (wireActs cfg serde wire)) :=
      hmoves.kept.2
    rw [hmachine, finishReason_feedAll_new_iff] at hcommits
    have hdone : ((s.endClosed residue).ended.Commits ∧ ConsumesDone cfg serde wire) ↔
        DoneUnterminated serde body := by
      rw [hcommits]
      exact commits_consumesDone_iff cfg serde hfresh hdelivers hpassing
    have hbody : (∀ body, Delivers cfg serde st.beginAttempt selectPolls now wire body →
        ¬DoneUnterminated serde body) ↔ ¬DoneUnterminated serde body := by
      constructor
      · exact fun h => h body hdelivers
      · intro h body' hdelivers'
        rwa [← hdelivers.unique cfg serde hdelivers']
    rw [hbody, ← hdone, and_iff_left hclosed]
    tauto
  · -- not closed by the peer: a commit has met the sentinel
    constructor
    · intro _ body hdelivers hdone
      exact hclosed (hclose.mpr ⟨body, hdelivers, hdone.passing⟩)
    · intro _
      refine iff_of_false (fun h => hclosed h.2) fun ⟨hcommits, hconsumes⟩ => hconsumes ?_
      obtain ⟨ev, hev, hdone⟩ := hends.done_of_commits hcommits hclosed
      exact ⟨.complete, ev, hev, hdone⟩

/-- A reply that the peer closes behind an unterminated `[DONE]`. -/
def doneTailWire : Wire := streamOf [stopFrame, asBytes "data: [DONE]"]

/-- The sentinel is consumed, and noted as missing. -/
theorem done_in_tail_noted :
    let run := runAttempt exampleConfig replySerde [] (StreamState.new 1).beginAttempt 0 0
      doneTailWire
    ¬(run.NotesEof ↔
      run.ended.Commits ∧ ¬ConsumesDone exampleConfig replySerde doneTailWire) := by
  intro run law
  have hnote : .wire 1 1 .eofWithoutDoneSentinel ∈ run.records := by decide +kernel
  have hconsumes : ConsumesDone exampleConfig replySerde doneTailWire :=
    ⟨.recoveredTail, ⟨.data "[DONE]", 12⟩, by decide +kernel, by decide +kernel⟩
  exact (law.mp ⟨_, hnote, _, _, rfl⟩).2 hconsumes

end RarChat
