import RarChat.Finalization
import RarChat.SmallSteps

/-!
# The books of an attempt

What an attempt emits and what it counts, as functions of the acts it takes in.  The
events reported are those of the accepted frames, in order (`actEvents`); the machine
was fed them, the flag for content says whether one of them carried text, and the
counters have moved by what was recorded, but for the rejections that nothing counts
(`multiples`).

`Kept` is this relation between two states of a stream.  Each small step keeps the
books, so does each end, and so do the attempt (`AttemptRun.Unfolds.kept`) and the turn
(`turnLoop_kept`).
-/

namespace RarChat

open EarlyExit LabelledRun

/-! ## What is read off records -/

/-- The number of a read. -/
def EmissionRecord.readSeq? : EmissionRecord → Option ℕ
  | .read _ _ seq _ _ _ _ => some seq
  | _ => none

/-- The detail of a normalization error. -/
def EmissionRecord.error? : EmissionRecord → Option String
  | .normalizationError _ _ _ detail => some detail
  | _ => none

/-- The cause a record reports for the end of a stream. -/
def EmissionRecord.endCause? : EmissionRecord → Option StreamEndCause
  | .streamEnd _ _ cause _ => some cause
  | _ => none

/-- The causes that were reported. -/
def endCausesOf (records : List EmissionRecord) : List StreamEndCause :=
  records.filterMap EmissionRecord.endCause?

/-- The stream a record is emitted under. -/
def EmissionRecord.stream? : EmissionRecord → Option StreamId
  | .read s _ _ _ _ _ _ => some s
  | .installment s _ _ _ _ _ _ _ _ => some s
  | .normalizedEvent s _ _ _ => some s
  | .normalizationError s _ _ _ => some s
  | .undecodableInstallment s _ _ _ _ _ => some s
  | .residue s _ _ _ => some s
  | .streamEnd s _ _ _ => some s
  | .wire s _ _ => some s
  | .ledger s _ _ => some s
  | .anomaly s _ _ => some s
  | .scheduler s _ _ => some s
  | .turnTrailer s _ _ _ _ _ _ _ _ _ => some s
  | .captureDrop _ => none

/-- The records emitted under a stream. -/
def recordsUnder (stream : StreamId) (records : List EmissionRecord) :
    List EmissionRecord :=
  records.filter fun r => r.stream? = some stream

/-- The numbers of the reads that were reported. -/
def readSeqs (records : List EmissionRecord) : List ℕ :=
  records.filterMap EmissionRecord.readSeq?

/-- The normalization errors that were reported. -/
def errorsOf (records : List EmissionRecord) : List String :=
  records.filterMap EmissionRecord.error?

@[simp] theorem readSeqs_append (xs ys : List EmissionRecord) :
    readSeqs (xs ++ ys) = readSeqs xs ++ readSeqs ys := List.filterMap_append

@[simp] theorem errorsOf_append (xs ys : List EmissionRecord) :
    errorsOf (xs ++ ys) = errorsOf xs ++ errorsOf ys := List.filterMap_append

/-! ## What is read off acts -/

variable (cfg : OpenAiConfig) (serde : SerdeJson)

/-- The events a data payload brings: those it carries, if it is accepted. -/
def payloadEvents (text : String) : List DriverEvent :=
  ((accepted serde text).map Normalized.events).getD []

/-- The payload is rejected for its choices, an error that is not counted. -/
def isMultiple (text : String) : Bool :=
  match normalize serde text with
  | .ok norm => norm.multipleChoices.isSome
  | .error _ => false

/-- The events a frame brings. -/
def SseEvent.events (ev : SseEvent) : List DriverEvent :=
  match ev.payload with
  | .data text => payloadEvents serde text
  | _ => []

/-- The frame is a data frame that is rejected for its choices. -/
def SseEvent.isMultiple (ev : SseEvent) : Bool :=
  match ev.payload with
  | .data text => RarChat.isMultiple serde text
  | _ => false

/-- The events of the frames taken in. -/
def actEvents (acts : List Act) : List DriverEvent :=
  (acts.filterMap Act.frame?).flatMap (SseEvent.events serde)

/-- How many of the frames taken in are rejected for their choices. -/
def multiples (acts : List Act) : ℕ :=
  (acts.filterMap Act.frame?).countP (SseEvent.isMultiple serde)

@[simp] theorem actEvents_append (xs ys : List Act) :
    actEvents serde (xs ++ ys) = actEvents serde xs ++ actEvents serde ys := by
  simp [actEvents]

@[simp] theorem multiples_append (xs ys : List Act) :
    multiples serde (xs ++ ys) = multiples serde xs + multiples serde ys := by
  simp [multiples]

/-- The text of events, in order. -/
def textOf (events : List DriverEvent) : String :=
  String.join (events.filterMap DriverEvent.text?)

theorem textOf_append (xs ys : List DriverEvent) :
    textOf (xs ++ ys) = textOf xs ++ textOf ys := by
  simp [textOf]

theorem carriesText_append (xs ys : List DriverEvent) :
    carriesText (xs ++ ys) = (carriesText xs || carriesText ys) := List.any_append

/-- A choice with empty content brings no text. -/
theorem Choice.text_ne_empty {choice : Choice} {ev : DriverEvent}
    (mem : ev ∈ choice.events) : ev.text? ≠ some "" := by
  rw [choice.events_eq] at mem
  rcases List.mem_append.mp mem with mem | mem
  · obtain ⟨text, htext, rfl⟩ := List.mem_map.mp mem
    have hne : text ≠ "" := by simpa using (List.mem_filter.mp htext).2
    intro hempty
    exact hne (Option.some.inj hempty)
  · obtain ⟨reason, -, rfl⟩ := List.mem_map.mp mem
    nofun

theorem normalize_text_ne_empty {text : String} {norm : Normalized}
    (ok : normalize serde text = .ok norm) {ev : DriverEvent} (mem : ev ∈ norm.events) :
    ev.text? ≠ some "" := by
  rcases normalize_cases ok with ⟨-, rfl⟩ | ⟨-, chunk, -, -, rfl⟩
  · obtain rfl := List.mem_singleton.mp mem
    nofun
  · rcases List.mem_append.mp mem with mem | mem
    · obtain ⟨choice, -, hchoice⟩ := List.mem_flatMap.mp mem
      exact Choice.text_ne_empty hchoice
    · obtain ⟨usage, -, rfl⟩ := Option.map_eq_some_iff.mp (Option.mem_toList.mp mem)
      nofun

/-- No event that is taken in carries an empty text. -/
theorem actEvents_text_ne_empty {acts : List Act} {ev : DriverEvent}
    (mem : ev ∈ actEvents serde acts) : ev.text? ≠ some "" := by
  obtain ⟨frame, -, hframe⟩ := List.mem_flatMap.mp mem
  unfold SseEvent.events at hframe
  cases hpayload : frame.payload with
  | comment text => simp [hpayload] at hframe
  | undecodable raw error => simp [hpayload] at hframe
  | data text =>
      rw [hpayload] at hframe
      unfold payloadEvents accepted refined at hframe
      cases hnorm : normalize serde text with
      | error detail => simp [hnorm, Except.toOption] at hframe
      | ok norm =>
          have hevent : ev ∈ norm.events := by
            cases hchoices : norm.multipleChoices <;>
              simp [hnorm, hchoices, Except.toOption] at hframe
            exact hframe
          exact normalize_text_ne_empty serde hnorm hevent

/-- Text is carried exactly when there is any: the deltas are not empty. -/
theorem carriesText_eq_false_iff {events : List DriverEvent}
    (nonempty : ∀ ev ∈ events, ev.text? ≠ some "") :
    carriesText events = false ↔ textOf events = "" := by
  induction events with
  | nil => simp [carriesText, textOf]
  | cons ev events ih =>
      obtain ⟨hev, hevents⟩ := List.forall_mem_cons.mp nonempty
      rw [← List.singleton_append, carriesText_append, textOf_append, Bool.or_eq_false_iff,
        ih hevents, String.append_eq_empty_iff]
      refine and_congr_left fun _ => ?_
      cases htext : ev.text? with
      | none => simp [carriesText, textOf, htext]
      | some t =>
          rw [htext] at hev
          simp only [carriesText, textOf, List.any_cons, List.any_nil, htext,
            Option.isSome_some, Bool.or_false, List.filterMap_cons, List.filterMap_nil]
          refine iff_of_false (by simp) fun hempty => hev ?_
          simpa using hempty

/-- An attempt on this wire takes in text: some data frame, complete or recovered, is
accepted and carries it.  Only then has the attempt sent deltas to the screen and set
`saw_any_content`, and neither is taken back when a fault is retried: the machine of the
next attempt begins anew, the screen and the flag do not. -/
def TakesText (wire : Wire) : Prop :=
  carriesText (actEvents serde (wireActs cfg serde wire)) = true

instance : DecidablePred (TakesText cfg serde) := fun wire =>
  inferInstanceAs
    (Decidable (carriesText (actEvents serde (wireActs cfg serde wire)) = true))

/-- Attempts bring no text together exactly when none of them does. -/
theorem carriesText_flatMap_eq_false_iff (wires : List Wire) :
    carriesText (actEvents serde (wires.flatMap (wireActs cfg serde))) = false ↔
      ∀ wire ∈ wires, ¬TakesText cfg serde wire := by
  induction wires with
  | nil => simp [actEvents, carriesText]
  | cons wire wires ih =>
      rw [List.flatMap_cons, actEvents_append, carriesText_append, Bool.or_eq_false_iff, ih,
        List.forall_mem_cons]
      exact and_congr_left fun _ => Bool.not_eq_true _ |>.symm.to_iff

/-! ## The books -/

/-- **The books are kept** between two states of a stream, with what was taken in and
what was emitted between them. -/
structure Kept (st : StreamState) (acts : List Act) (records : List EmissionRecord)
    (st' : StreamState) : Prop where
  streamId : st'.streamId = st.streamId
  reported : eventsOf records = actEvents serde acts
  content : st'.sawAnyContent = (st.sawAnyContent || carriesText (actEvents serde acts))
  reads : st'.reads = st.reads + (readSeqs records).length
  events : st'.events = st.events + (eventsOf records).length
  errors : st'.normErrors + multiples serde acts =
    st.normErrors + (errorsOf records).length

variable {serde}

theorem Kept.append {st st' st'' : StreamState} {acts acts' : List Act}
    {records records' : List EmissionRecord} (h : Kept serde st acts records st')
    (h' : Kept serde st' acts' records' st'') :
    Kept serde st (acts ++ acts') (records ++ records') st'' where
  streamId := h'.streamId.trans h.streamId
  reported := by rw [eventsOf_append, h.reported, h'.reported, actEvents_append]
  content := by
    rw [h'.content, h.content, actEvents_append, carriesText_append, Bool.or_assoc]
  reads := by rw [h'.reads, h.reads, readSeqs_append, List.length_append, Nat.add_assoc]
  events := by
    rw [h'.events, h.events, eventsOf_append, List.length_append, Nat.add_assoc]
  errors := by
    have hfirst := h.errors
    have hsecond := h'.errors
    rw [multiples_append, errorsOf_append, List.length_append]
    omega

/-- Records that report neither reads nor events nor errors leave the books as they
are. -/
theorem Kept.quiet {st st' : StreamState} {records : List EmissionRecord}
    (same : st' = { st with attempt := st'.attempt, machine := st'.machine })
    (events : eventsOf records = []) (reads : readSeqs records = [])
    (errors : errorsOf records = []) :
    Kept serde st [] records st' := by
  rw [same]
  exact
    { streamId := rfl
      reported := events
      content := (Bool.or_false _).symm
      reads := by rw [reads]; rfl
      events := by rw [events]; rfl
      errors := by rw [errors]; rfl }

variable (serde)

/-- An accepted payload is not rejected for its choices. -/
theorem isMultiple_of_ok {text : String} {norm : Normalized}
    (ok : refined serde text = .ok norm) : isMultiple serde text = false := by
  unfold refined at ok
  unfold isMultiple
  cases hnorm : normalize serde text with
  | error detail => rfl
  | ok norm' =>
      cases hchoices : norm'.multipleChoices with
      | none => simp [hchoices]
      | some n => simp [hnorm, hchoices] at ok

/-- **The error of a rejected payload is counted**, unless it is rejected for its
choices. -/
theorem normErrors_of_error {text detail : String}
    (rejected : refined serde text = .error detail) (st : StreamState) (seq : ℕ)
    (status : InstallmentStatus) :
    (onInstallment serde st seq .data text status).state.normErrors +
      (if isMultiple serde text then 1 else 0) = st.normErrors + 1 := by
  unfold refined at rejected
  unfold onInstallment isMultiple
  cases hnorm : normalize serde text with
  | error detail' => simp
  | ok norm =>
      cases hchoices : norm.multipleChoices with
      | none => simp [hnorm, hchoices] at rejected
      | some n => simp [hchoices]

/-- **Refinement keeps the books**: a payload is accepted with its events, or rejected
with one error. -/
theorem onInstallment_kept (st : StreamState) (seq : ℕ) (text : String)
    (status : InstallmentStatus) (ev : SseEvent) (payload : ev.payload = .data text) :
    let step := onInstallment serde st seq .data text status
    Kept serde st [.frame status ev] step.records step.state ∧
      step.state.machine = st.machine.feedAll (ev.events serde) := by
  have hevents : actEvents serde [.frame status ev] = payloadEvents serde text := by
    simp [actEvents, Act.frame?, SseEvent.events, payload]
  have hmultiples : multiples serde [.frame status ev] =
      if isMultiple serde text then 1 else 0 := by
    simp [multiples, Act.frame?, SseEvent.isMultiple, payload, List.countP_singleton]
  have hev : ev.events serde = payloadEvents serde text := by
    simp only [SseEvent.events, payload]
  rw [hev]
  cases hrefined : refined serde text with
  | error detail =>
      have hpayload : payloadEvents serde text = [] := by
        simp [payloadEvents, accepted, hrefined, Except.toOption]
      have herrors := normErrors_of_error serde hrefined st seq status
      obtain ⟨n, hstep⟩ := onInstallment_of_error hrefined st seq status
      rw [hstep] at herrors ⊢
      refine ⟨⟨rfl, ?_, ?_, rfl, rfl, ?_⟩, ?_⟩
      · rw [hevents, hpayload]; rfl
      · rw [hevents, hpayload]; exact (Bool.or_false _).symm
      · rw [hmultiples]; exact herrors
      · rw [hpayload, StreamMachine.feedAll_nil]
  | ok norm =>
      have hpayload : payloadEvents serde text = norm.events := by
        simp [payloadEvents, accepted, hrefined, Except.toOption]
      have hmulti := isMultiple_of_ok serde hrefined
      have hreported : eventsOf (norm.unhandledChannels.map (fun ch =>
            .wire st.streamId st.attempt (.unhandledChannel ch)) ++
          norm.events.map (fun event =>
            .normalizedEvent st.streamId st.attempt seq event)) = norm.events := by
        rw [eventsOf_append, eventsOf, filterMap_map_eq_nil (fun _ => rfl),
          List.nil_append, eventsOf, List.filterMap_map]
        exact List.filterMap_some
      rw [onInstallment_of_ok hrefined]
      refine ⟨⟨rfl, ?_, ?_, ?_, ?_, ?_⟩, ?_⟩
      · rw [hevents, hpayload, hreported]
      · rw [hevents, hpayload]
      · rw [readSeqs_append, readSeqs, filterMap_map_eq_nil (fun _ => rfl), readSeqs,
          filterMap_map_eq_nil (fun _ => rfl)]
        rfl
      · rw [hreported]
      · rw [hmultiples, hmulti, errorsOf_append, errorsOf,
          filterMap_map_eq_nil (fun _ => rfl), errorsOf,
          filterMap_map_eq_nil (fun _ => rfl)]
        rfl
      · rw [hpayload]

/-- A frame without events leaves the books as they are. -/
theorem Kept.ignored (st : StreamState) (status : InstallmentStatus) {ev : SseEvent}
    (silent : ev.events serde = []) (single : ev.isMultiple serde = false) :
    Kept serde st [.frame status ev] [] st := by
  have hevents : actEvents serde [.frame status ev] = [] := by
    simp [actEvents, Act.frame?, silent]
  have hmultiples : multiples serde [.frame status ev] = 0 := by
    simp [multiples, Act.frame?, single]
  exact
    { streamId := rfl
      reported := hevents.symm
      content := by rw [hevents]; exact (Bool.or_false _).symm
      reads := rfl
      events := rfl
      errors := by rw [hmultiples]; rfl }

/-- The books of a frame, with its record in front of what the handler emits. -/
theorem frame_kept (s : ReadLoop) (status : InstallmentStatus) (ev : SseEvent)
    (notes : List WireNote) :
    Kept serde s.st [.frame status ev]
        (s.frameRecord status ev ::
          (notes.map s.note ++ s.st.refinement serde (s.instSeq + 1) status ev))
        (s.st.refine serde (s.instSeq + 1) status ev) ∧
      (s.st.refine serde (s.instSeq + 1) status ev).machine =
        s.st.machine.feedAll (ev.events serde) := by
  -- the record of the frame and the notes on it are quiet
  have hquiet : Kept serde s.st [] (s.frameRecord status ev :: notes.map s.note) s.st := by
    refine Kept.quiet rfl ?_ ?_ ?_
    all_goals
      have hrecord : ∀ {α : Type} (f : EmissionRecord → Option α),
          f (s.frameRecord status ev) = none → (∀ note, f (s.note note) = none) →
            (s.frameRecord status ev :: notes.map s.note).filterMap f = [] := by
        intro α f hframe hnote
        rw [List.filterMap_cons_none hframe]
        exact filterMap_map_eq_nil hnote notes
      refine hrecord _ ?_ fun _ => rfl
      unfold ReadLoop.frameRecord
      cases ev.payload <;> rfl
  rw [← List.cons_append]
  have hframe : ∀ records st', Kept serde s.st [.frame status ev] records st' →
      Kept serde s.st [.frame status ev]
        ((s.frameRecord status ev :: notes.map s.note) ++ records) st' :=
    fun _ _ h => hquiet.append h
  cases hpayload : ev.payload with
  | data text =>
      obtain ⟨hkept, hmachine⟩ :=
        onInstallment_kept serde s.st (s.instSeq + 1) text status ev hpayload
      simp only [StreamState.refine, StreamState.refinement, hpayload]
      exact ⟨hframe _ _ hkept, hmachine⟩
  | comment text =>
      have hsilent : ev.events serde = [] := by simp only [SseEvent.events, hpayload]
      have hsingle : ev.isMultiple serde = false := by
        simp only [SseEvent.isMultiple, hpayload]
      simp only [StreamState.refine, StreamState.refinement, hpayload, hsilent]
      exact ⟨hframe _ _ (.ignored serde s.st status hsilent hsingle), rfl⟩
  | undecodable raw error =>
      have hsilent : ev.events serde = [] := by simp only [SseEvent.events, hpayload]
      have hsingle : ev.isMultiple serde = false := by
        simp only [SseEvent.isMultiple, hpayload]
      simp only [StreamState.refine, StreamState.refinement, hpayload, hsilent]
      exact ⟨hframe _ _ (.ignored serde s.st status hsilent hsingle), rfl⟩

variable {serde}

/-- **A small step keeps the books**, and feeds the machine what it takes in. -/
theorem Move.kept {s s' : ReadLoop} {acts : List Act} {records : List EmissionRecord}
    (h : Move serde s acts records s') :
    Kept serde s.st acts records s'.st ∧
      s'.st.machine = s.st.machine.feedAll (actEvents serde acts) := by
  cases h with
  | tick ticked notes =>
      obtain ⟨_, _, _, _, _, rfl⟩ := ticked
      exact ⟨Kept.quiet rfl (filterMap_map_eq_nil (fun _ => rfl) notes)
        (filterMap_map_eq_nil (fun _ => rfl) notes)
        (filterMap_map_eq_nil (fun _ => rfl) notes), rfl⟩
  | read after wallUnixMs item =>
      exact ⟨⟨rfl, rfl, (Bool.or_false _).symm, rfl, rfl, rfl⟩, rfl⟩
  | close after =>
      exact ⟨⟨rfl, rfl, (Bool.or_false _).symm, rfl, rfl, rfl⟩, rfl⟩
  | frame status ev notes ttft content =>
      obtain ⟨hkept, hmachine⟩ := frame_kept serde s status ev notes
      refine ⟨hkept, ?_⟩
      simpa [ReadLoop.takeIn, actEvents, Act.frame?] using hmachine

/-- **A run of small steps keeps the books.** -/
theorem Moves.kept {s s' : ReadLoop} {acts : List Act} {records : List EmissionRecord}
    (h : Moves serde s acts records s') :
    Kept serde s.st acts records s'.st ∧
      s'.st.machine = s.st.machine.feedAll (actEvents serde acts) := by
  refine Run.invariant (I := fun acts records s' => Kept serde s.st acts records s'.st ∧
    s'.st.machine = s.st.machine.feedAll (actEvents serde acts)) ?_ ?_ h
  · exact ⟨Kept.quiet rfl rfl rfl rfl, rfl⟩
  · intro acts records s₁ acts' records' s₂ ⟨hkept, hmachine⟩ move
    obtain ⟨hkept', hmachine'⟩ := Move.kept move
    refine ⟨hkept.append hkept', ?_⟩
    rw [hmachine', hmachine, actEvents_append, StreamMachine.feedAll_append]

theorem Move.endCauses {s s' : ReadLoop} {acts : List Act} {records : List EmissionRecord}
    (h : Move serde s acts records s') : endCausesOf records = [] := by
  cases h with
  | tick ticked notes => exact filterMap_map_eq_nil (fun _ => rfl) notes
  | read after wallUnixMs item => rfl
  | close after => rfl
  | frame status ev notes ttft content =>
      have hframe : (s.frameRecord status ev).endCause? = none := by
        unfold ReadLoop.frameRecord
        cases ev.payload <;> rfl
      rw [endCausesOf, List.filterMap_cons_none hframe]
      exact filterMap_behind_frame (fun _ _ _ => rfl) (fun _ _ _ _ => rfl)
        (fun _ _ _ _ => rfl) s notes status ev

/-- No stream ends while the loop runs. -/
theorem Moves.endCauses {s s' : ReadLoop} {acts : List Act}
    {records : List EmissionRecord} (h : Moves serde s acts records s') :
    endCausesOf records = [] := by
  refine Run.invariant (I := fun _ records _ => endCausesOf records = []) rfl ?_ h
  intro acts records s acts' records' s' hearlier move
  rw [endCausesOf, List.filterMap_append]
  exact List.append_eq_nil_iff.mpr ⟨hearlier, Move.endCauses move⟩

/-! ## The end of an attempt -/

theorem anomalies_kept (st : StreamState) (cause : EndCause) :
    Kept serde st [] (finalizeAttempt st cause).records (finalizeAttempt st cause).state :=
  Kept.quiet rfl (filterMap_map_eq_nil (fun _ => rfl) _)
    (filterMap_map_eq_nil (fun _ => rfl) _) (filterMap_map_eq_nil (fun _ => rfl) _)

/-- **An end keeps the books**: it only replaces the machine. -/
theorem Ends.kept {s : ReadLoop} {acts : List Act} {e : LoopEnd}
    (h : Ends serde s acts e) : Kept serde s.st [] e.records e.state.st := by
  have hend : ∀ cause n, Kept serde s.st [] [s.streamEnd cause n] s.st := fun _ _ =>
    Kept.quiet rfl rfl rfl rfl
  cases h with
  | wire cause goes => exact hend cause _
  | @stopped _ _ cause endCause split goes stops =>
      exact (hend cause s.parser.buffered).append (anomalies_kept s.st endCause)
  | closed tail residue split goes =>
      have hresidue : Kept serde s.st []
          (residueRecords s.st.streamId s.st.attempt residue) s.st := by
        unfold residueRecords
        split_ifs <;> exact Kept.quiet rfl rfl rfl rfl
      have hnote : ∀ st resolution, Kept serde st [] (s.eofNote resolution) st := by
        intro st resolution
        cases resolution <;> exact Kept.quiet rfl rfl rfl rfl
      exact (hresidue.append ((hend s.closeCause 0).append
        (anomalies_kept s.st .streamEnded))).append (hnote _ _)

/-- **The books of an attempt.** -/
theorem AttemptRun.Unfolds.kept {st : StreamState} {acts : List Act} {run : AttemptRun}
    (h : run.Unfolds serde st acts) : Kept serde st acts run.records run.state := by
  obtain ⟨instant, selectPolls, records, s, e, hmoves, hends, hrecords, -, hstate⟩ := h
  have hkept := hmoves.kept.1.append hends.kept
  rw [List.append_nil] at hkept
  rw [hrecords, hstate]
  exact hkept

/-- A commit is the verdict of the machine on what was taken in. -/
theorem AttemptRun.Unfolds.committed {st : StreamState} {acts : List Act}
    {run : AttemptRun} (h : run.Unfolds serde st acts)
    (fresh : st.machine = StreamMachine.new) {o : ChatOutcome}
    (committed : run.ended = .complete (.committed o)) :
    (StreamMachine.new.feedAll (actEvents serde acts)).finalize .streamEnded = .ok o := by
  obtain ⟨instant, selectPolls, records, s, e, hmoves, hends, -, hended, -⟩ := h
  have hmachine := hmoves.kept.2
  have hstart : (ReadLoop.start st instant selectPolls).st.machine = StreamMachine.new :=
    fresh
  rw [hstart] at hmachine
  rw [← hmachine]
  have hresolved : ∀ endCause, s.st.machine.resolve endCause = .committed o →
      s.st.machine.finalize .streamEnded = .ok o := by
    intro endCause hresolve
    unfold StreamMachine.resolve at hresolve
    cases endCause with
    | handlerAbort => simp [StreamMachine.finalize_handlerAbort] at hresolve
    | streamEnded =>
        cases hfinal : s.st.machine.finalize .streamEnded with
        | ok o' => rw [hfinal] at hresolve; rw [TurnResolution.committed.inj hresolve]
        | error f => rw [hfinal] at hresolve; cases hresolve
  rw [hended] at committed
  cases hends with
  | wire cause goes => cases committed
  | @stopped _ _ cause endCause split goes stops =>
      exact hresolved endCause (AttemptEnd.complete.inj committed)
  | closed tail residue split goes =>
      exact hresolved .streamEnded (AttemptEnd.complete.inj committed)

/-! ## The turn -/

variable (serde)

/-- The wires of the attempts in a trace. -/
def dialedWires (trace : List TurnEvent) : List Wire :=
  trace.filterMap TurnEvent.dialed?

/-- What the attempts in a trace take in. -/
def turnActs (trace : List TurnEvent) : List Act :=
  (dialedWires trace).flatMap (wireActs cfg serde)

/-- The records of a trace. -/
def traceRecords (trace : List TurnEvent) : List EmissionRecord :=
  trace.flatMap TurnEvent.records

@[simp] theorem turnActs_append (xs ys : List TurnEvent) :
    turnActs cfg serde (xs ++ ys) = turnActs cfg serde xs ++ turnActs cfg serde ys := by
  simp [turnActs, dialedWires]

@[simp] theorem traceRecords_append (xs ys : List TurnEvent) :
    traceRecords (xs ++ ys) = traceRecords xs ++ traceRecords ys := by
  simp [traceRecords]

@[simp] theorem turnActs_emitted (record : EmissionRecord) :
    turnActs cfg serde [.emitted record] = [] := rfl

@[simp] theorem turnActs_dialEvents (messages : List Message) (t : TurnState) (d : Dial) :
    turnActs cfg serde (dialEvents cfg serde messages t d) = wireActs cfg serde d.wire :=
  List.append_nil _

@[simp] theorem traceRecords_emitted (record : EmissionRecord) :
    traceRecords [.emitted record] = [record] := rfl

theorem emitted_kept {record : EmissionRecord} (ledger : ∃ stream attempt entry,
    record = .ledger stream attempt entry) {st st' : StreamState}
    (same : st' = { st with attempt := st'.attempt, machine := st'.machine }) :
    Kept serde st [] [record] st' := by
  obtain ⟨_, _, _, rfl⟩ := ledger
  exact Kept.quiet same rfl rfl rfl

/-- The attempt of an admitted dial keeps the books of the turn. -/
theorem dialEvents_kept (messages : List Message) (t : TurnState) (d : Dial) :
    Kept serde t.st (wireActs cfg serde d.wire)
      (traceRecords (dialEvents cfg serde messages t d))
      (t.tried cfg serde messages d.wire).st := by
  have hattempt : Kept serde t.begun.st (wireActs cfg serde d.wire)
      (attemptOf cfg serde messages t.begun d.wire).records
      (t.tried cfg serde messages d.wire).st :=
    (runAttempt_unfolds cfg serde messages t.begun_fresh _ _ d.wire).kept
  have hspent : Kept serde t.st [] [.ledger t.st.streamId (t.st.attempt + 1)
      (.sendBucketSpent (d.available - 1))] t.begun.st :=
    emitted_kept serde ⟨_, _, _, rfl⟩ rfl
  have hreturned : Kept serde (t.tried cfg serde messages d.wire).st []
      [.ledger t.st.streamId (t.st.attempt + 1)
        (.sendBucketReturned (d.availableAtReturn + 1))]
      (t.tried cfg serde messages d.wire).st :=
    emitted_kept serde ⟨_, _, _, rfl⟩ rfl
  have hkept := hspent.append (hattempt.append hreturned)
  rwa [List.append_nil, List.nil_append] at hkept

/-- **A turn keeps the books**, over all its attempts. -/
theorem turnLoop_kept (h : EventHandler) (messages : List Message) (t : TurnState)
    (dials : List Dial) :
    Kept serde t.st (turnActs cfg serde (turnLoop cfg serde h messages t dials).out)
      (traceRecords (turnLoop cfg serde h messages t dials).out)
      (turnLoop cfg serde h messages t dials).state.st := by
  induction t, dials using turn_induction cfg serde messages with
  | nil t => exact Kept.quiet rfl rfl rfl rfl
  | denied t d rest denied =>
      rw [turnLoop_of_denied denied]
      exact emitted_kept serde ⟨_, _, _, rfl⟩ rfl
  | settled t d rest hd last =>
      rw [turnLoop_of_settled hd last, turnActs_dialEvents]
      exact dialEvents_kept cfg serde messages t d
  | retried t d rest hd faulting left ih =>
      rw [turnLoop_of_retry hd faulting left]
      have hspent : Kept serde (t.tried cfg serde messages d.wire).st []
          [.ledger t.st.streamId (t.st.attempt + 1)
            (.retryAllowanceSpent (t.remainingAllowance - 1))]
          (t.tried cfg serde messages d.wire).drawn.st :=
        emitted_kept serde ⟨_, _, _, rfl⟩ rfl
      have hkept := ((dialEvents_kept cfg serde messages t d).append hspent).append ih
      rw [List.append_nil, ← turnActs_dialEvents cfg serde messages t d] at hkept
      simpa only [Outcome.after_state, Outcome.after_out, turnActs_append,
        turnActs_emitted, traceRecords_append, traceRecords_emitted, List.append_nil]
        using hkept

/-- A record of an attempt is emitted under its stream. -/
theorem EmissionRecord.OfAttempt.stream {stream : StreamId} {attempt : UInt32}
    {r : EmissionRecord} (h : r.OfAttempt stream attempt) : r.stream? = some stream := by
  cases r <;> first | exact congrArg some h.1 | exact absurd h id

/-- The loop of a turn emits under the stream of the turn. -/
theorem turnLoop_stream (h : EventHandler) (messages : List Message) (t : TurnState)
    (dials : List Dial) :
    ∀ r ∈ traceRecords (turnLoop cfg serde h messages t dials).out,
      r.stream? = some t.st.streamId := by
  have hdial : ∀ (t : TurnState) (d : Dial),
      ∀ r ∈ traceRecords (dialEvents cfg serde messages t d),
        r.stream? = some t.st.streamId := by
    intro t d r hr
    have hattempt := (runAttempt_records cfg serde messages t.begun.st t.begun.selectPolls
      t.begun.now d.wire).2
    simp only [dialEvents, traceRecords, List.flatMap_cons, TurnEvent.records,
      List.flatMap_nil, List.append_nil, List.mem_append, List.mem_singleton] at hr
    rcases hr with rfl | hr | rfl
    · rfl
    · exact (hattempt r hr).stream
    · rfl
  induction t, dials using turn_induction cfg serde messages with
  | nil t => exact fun r hr => absurd hr List.not_mem_nil
  | denied t d rest denied =>
      rw [turnLoop_of_denied denied]
      intro r hr
      obtain rfl := List.mem_singleton.mp hr
      rfl
  | settled t d rest hd last =>
      rw [turnLoop_of_settled hd last]
      exact hdial t d
  | retried t d rest hd faulting left ih =>
      rw [turnLoop_of_retry hd faulting left]
      intro r hr
      simp only [Outcome.after_out, traceRecords_append, traceRecords_emitted,
        List.mem_append, List.mem_singleton] at hr
      rcases hr with (hr | rfl) | hr
      · exact hdial t d r hr
      · rfl
      · rw [ih r hr, TurnState.drawn_st, TurnState.tried_streamId]

/-- The records of a turn: the grant, those of its loop, and its trailer. -/
theorem traceRecords_executeTurn (h : EventHandler) (messages : List Message)
    (streamId : StreamId) (now : ℕ) (dials : List Dial) :
    let looped := turnLoop cfg serde h messages (h.enter streamId now) dials
    traceRecords (executeTurn cfg serde h messages streamId now dials).trace =
      .ledger streamId 0 (.retryAllowanceGranted h.retryAllowancePerTurn) ::
        (traceRecords looped.out ++ looped.stop.toList.map looped.state.trailer) := by
  intro looped
  have htrailer : ∀ verdicts : List TurnVerdict, traceRecords (verdicts.map fun verdict =>
      .emitted (looped.state.trailer verdict)) = verdicts.map looped.state.trailer := by
    intro verdicts
    rw [traceRecords, List.flatMap_map]
    exact List.flatMap_pure_eq_map _ _
  rw [← htrailer]
  simp only [executeTurn, EventHandler.beginStream, List.map_cons, List.map_nil,
    List.cons_append, List.nil_append]
  rw [← traceRecords_append]
  rfl

/-- A turn dials in its loop. -/
theorem turnActs_executeTurn (h : EventHandler) (messages : List Message)
    (streamId : StreamId) (now : ℕ) (dials : List Dial) :
    turnActs cfg serde (executeTurn cfg serde h messages streamId now dials).trace =
      turnActs cfg serde (turnLoop cfg serde h messages (h.enter streamId now) dials).out := by
  have htrailer : ∀ (looped : TurnOutcome), turnActs cfg serde
      (looped.stop.toList.map fun verdict => .emitted (looped.state.trailer verdict)) =
        [] := by
    intro looped
    cases looped.stop <;> rfl
  simp only [executeTurn, turnActs_append, htrailer, List.append_nil]
  rfl

/-- **All records of a turn** are emitted under its stream. -/
theorem executeTurn_recordsUnder (h : EventHandler) (messages : List Message)
    (streamId : StreamId) (now : ℕ) (dials : List Dial) :
    recordsUnder streamId
        (traceRecords (executeTurn cfg serde h messages streamId now dials).trace) =
      traceRecords (executeTurn cfg serde h messages streamId now dials).trace := by
  have hloop := turnLoop_stream cfg serde h messages (h.enter streamId now) dials
  have hstream := (turnLoop_kept cfg serde h messages (h.enter streamId now) dials).streamId
  rw [recordsUnder, List.filter_eq_self, traceRecords_executeTurn]
  intro r hr
  rw [List.mem_cons, List.mem_append, List.mem_map] at hr
  rcases hr with rfl | hr | ⟨verdict, -, rfl⟩
  · exact decide_eq_true rfl
  · exact decide_eq_true (hloop r hr)
  · exact decide_eq_true (congrArg some hstream)

/-- **The events of a turn** are those of the frames that its attempts take in. -/
theorem executeTurn_reported (h : EventHandler) (messages : List Message)
    (streamId : StreamId) (now : ℕ) (dials : List Dial) :
    eventsOf (traceRecords (executeTurn cfg serde h messages streamId now dials).trace) =
      actEvents serde
        (turnActs cfg serde (executeTurn cfg serde h messages streamId now dials).trace) := by
  have hkept := turnLoop_kept cfg serde h messages (h.enter streamId now) dials
  have htrailer : ∀ (t : TurnState) (verdicts : List TurnVerdict),
      eventsOf (verdicts.map t.trailer) = [] := fun _ _ =>
    filterMap_map_eq_nil (fun _ => rfl) _
  rw [traceRecords_executeTurn, turnActs_executeTurn, ← hkept.reported, eventsOf,
    List.filterMap_cons_none rfl, List.filterMap_append]
  exact (congrArg _ (htrailer _ _)).trans (List.append_nil _)

/-! ## A short reply -/

/-- Reads the two chunks of a short reply. -/
def replySerde : SerdeJson :=
  .ofTable
    [("\x7b\"choices\":[\x7b\"delta\":\x7b\"content\":\"hi\"\x7d\x7d]\x7d",
      .object [("choices", .array [.object [("delta", .object [("content",
        .string "hi")])]])]),
      ("\x7b\"choices\":[\x7b\"delta\":\x7b\x7d,\"finish_reason\":\"stop\"\x7d]\x7d",
      .object [("choices", .array [.object [("delta", .object []),
        ("finish_reason", .string "stop")]])])]

/-- The frame that brings the text. -/
def hiFrame : List UInt8 :=
  asBytes "data: \x7b\"choices\":[\x7b\"delta\":\x7b\"content\":\"hi\"\x7d\x7d]\x7d\n\n"

/-- The frame that brings the finish reason. -/
def stopFrame : List UInt8 :=
  asBytes
    "data: \x7b\"choices\":[\x7b\"delta\":\x7b\x7d,\"finish_reason\":\"stop\"\x7d]\x7d\n\n"

/-- A connection that is reset behind the given reads. -/
def resetBehind (reads : List (List UInt8)) : Wire :=
  .response 0 ⟨200, some "text/event-stream; charset=utf-8", .failed 0,
    ⟨reads.map (.read 0 0), .transportError 0 "connection reset"⟩⟩

/-- The whole reply, which the peer then closes. -/
def replyWire : Wire := streamOf [hiFrame, stopFrame]

theorem attemptEnding_replyWire :
    attemptEnding exampleConfig replySerde replyWire =
      .complete (.committed ⟨"hi", "stop", none⟩) := by
  decide +kernel

end RarChat
