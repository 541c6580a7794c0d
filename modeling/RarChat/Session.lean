import RarChat.History
import RarChat.Replay

/-!
# Replaying a session

The records of a whole session of `main`, and the session played again from them.  `main`
numbers its turns, so the records of each can be told from those of all others
(`mainLoop_recordsUnder`), and each turn can be replayed.  `replayMain` is given the lines
that were typed and a capture, and asks no endpoint: where `main` issues a turn, it takes
the verdict that the capture replays to.

It comes to the same history and leaves the loop the same way, whatever else is in the
capture, as long as the records of each turn are (`replayMain_tracks`).
-/

namespace RarChat

open EarlyExit

/-! ## The records and the requests of a session -/

/-- The records of a turn. -/
def MainEvent.records : MainEvent → List EmissionRecord
  | .turn _ run => traceRecords run.trace
  | .stderr _ => []

/-- The stream of a turn. -/
def MainEvent.stream? : MainEvent → Option StreamId
  | .turn _ run => some run.state.st.streamId
  | .stderr _ => none

/-- **What a session emits**, in order. -/
def sessionRecords (events : List MainEvent) : List EmissionRecord :=
  events.flatMap MainEvent.records

theorem sessionRecords_append (xs ys : List MainEvent) :
    sessionRecords (xs ++ ys) = sessionRecords xs ++ sessionRecords ys := by
  simp only [sessionRecords, List.flatMap_append]

def TurnEvent.post? : TurnEvent → Option Post
  | .attempt _ _ run => some run.post
  | .emitted _ => none

/-- The requests of a turn. -/
def MainEvent.posts : MainEvent → List Post
  | .turn _ run => run.trace.filterMap TurnEvent.post?
  | .stderr _ => []

variable (serde : SerdeJson) (env : MainEnv)

/-- A turn keeps the number it was issued under. -/
theorem issue_streamId (cfg : OpenAiConfig) (s : MainState) (wires : List Wire) :
    (issue serde env cfg s wires).state.st.streamId = s.streamId + 1 :=
  (turnLoop_kept cfg serde env.handler s.history _ _).streamId

/-- The records of a turn are under its stream. -/
theorem issue_recordsUnder (cfg : OpenAiConfig) (s : MainState) (wires : List Wire) :
    recordsUnder (s.streamId + 1) (traceRecords (issue serde env cfg s wires).trace) =
      traceRecords (issue serde env cfg s wires).trace :=
  executeTurn_recordsUnder cfg serde env.handler _ _ _ _

/-! ## The numbers of turns -/

/-- **Turns are numbered on** behind this many, as they are issued. -/
structure Numbered (earlier : StreamId) (o : MainOutcome) : Prop where
  streams : ∃ n, o.out.filterMap MainEvent.stream? = List.range' (earlier + 1) n ∧
    o.state.streamId = earlier + n
  issued : ∀ cfg turn, .turn cfg turn ∈ o.out →
    ∃ s wires, turn = issue serde env cfg s wires

variable {serde env}

/-- A pass that issues nothing takes no number. -/
theorem Numbered.idle {earlier : StreamId} {o : MainOutcome}
    (streamId : o.state.streamId = earlier)
    (none_issued : ∀ cfg turn, .turn cfg turn ∉ o.out) : Numbered serde env earlier o where
  streams := by
    refine ⟨0, List.filterMap_eq_nil_iff.mpr fun e he => ?_, streamId⟩
    cases e with
    | turn cfg turn => exact absurd he (none_issued cfg turn)
    | stderr text => rfl
  issued := fun cfg turn mem => absurd mem (none_issued cfg turn)

/-- What comes behind is numbered on. -/
theorem Numbered.andThen {earlier : StreamId} {o : MainOutcome} (h : Numbered serde env earlier o)
    {o' : MainOutcome} (h' : Numbered serde env o.state.streamId o') :
    Numbered serde env earlier (o'.after o.out) where
  streams := by
    obtain ⟨n, hout, hstate⟩ := h.streams
    obtain ⟨n', hout', hstate'⟩ := h'.streams
    refine ⟨n + n', ?_, ?_⟩
    · rw [Outcome.after_out, List.filterMap_append, hout, hout', hstate, ← List.range'_append_1,
        Nat.add_right_comm]
    · rw [Outcome.after_state, hstate', hstate, Nat.add_assoc]
  issued := by
    intro cfg turn mem
    rcases List.mem_append.mp mem with mem | mem
    · exact h.issued cfg turn mem
    · exact h'.issued cfg turn mem

theorem conclude_numbered (s : MainState) (verdict : TurnVerdict) :
    Numbered serde env s.streamId (conclude s verdict) := by
  cases verdict with
  | committed outcome => exact .idle rfl fun _ _ => List.not_mem_nil
  | failed fault => exact .idle rfl fun _ _ => by simp [conclude]
  | failover attempts => exact .idle rfl fun _ _ => List.not_mem_nil

/-- A turn takes the next number. -/
theorem issue_numbered (cfg : OpenAiConfig) (s : MainState) (wires : List Wire) :
    Numbered serde env s.streamId ⟨s.issued (issue serde env cfg s wires),
      [.turn cfg (issue serde env cfg s wires)], none⟩ where
  streams := by
    refine ⟨1, ?_, rfl⟩
    simp only [List.filterMap_cons, List.filterMap_nil, MainEvent.stream?, issue_streamId]
    rfl
  issued := by
    intro cfg' turn mem
    obtain ⟨rfl, rfl⟩ := MainEvent.turn.inj (List.mem_singleton.mp mem)
    exact ⟨s, wires, rfl⟩

theorem awaiting_numbered (s : MainState) :
    Numbered serde env s.streamId ⟨s, [], some .awaiting⟩ :=
  .idle rfl fun _ _ => List.not_mem_nil

theorem reissue_numbered (s : MainState) (attemptsHere : UInt32) (wires : List Wire) :
    Numbered serde env s.streamId (reissue serde env s attemptsHere wires) := by
  unfold reissue
  cases env.failover with
  | none => exact conclude_numbered s _
  | some fd =>
      have hissued := @issue_numbered serde env fd s wires
      -- the notice takes no number
      have hnotice : ∀ {o : MainOutcome} (text : String), Numbered serde env s.streamId o →
          Numbered serde env s.streamId (o.after [.stderr text]) := fun text h =>
        @Numbered.andThen serde env s.streamId ⟨s, [.stderr text], none⟩ (.idle rfl (by simp)) _ h
      dsimp only
      cases (issue serde env fd s wires).verdict with
      | none => exact hnotice _ (hissued.andThen (awaiting_numbered _))
      | some verdict => exact hnotice _ (hissued.andThen (conclude_numbered _ verdict))

theorem userTurn_numbered (s : MainState) (primary failover : List Wire) :
    Numbered serde env s.streamId (userTurn serde env s primary failover) := by
  have hissued := @issue_numbered serde env env.primary s primary
  unfold userTurn
  dsimp only
  refine hissued.andThen ?_
  split
  · exact awaiting_numbered _
  · exact reissue_numbered _ _ _
  · exact conclude_numbered _ _

/-- **A pass numbers its turns on.** -/
theorem mainStep_numbered (s : MainState) (input : UserInput) :
    Numbered serde env s.streamId (mainStep serde env s input) := by
  unfold mainStep
  dsimp only
  split_ifs
  · exact .idle rfl fun _ _ => List.not_mem_nil
  · exact .idle rfl fun _ _ => List.not_mem_nil
  · exact .idle rfl (by simp)
  · exact userTurn_numbered { s with history := s.history ++ [⟨"user", trim input.line⟩] }
      input.primary input.failover

/-- **A session numbers its turns**, from one on without a gap. -/
theorem run_numbered (s : MainState) (lines : List UserInput) :
    Numbered serde env s.streamId (run (mainStep serde env) s lines) := by
  induction lines generalizing s with
  | nil => exact .idle rfl fun _ _ => List.not_mem_nil
  | cons input rest ih =>
      have hpass := @mainStep_numbered serde env s input
      cases hstop : (mainStep serde env s input).stop with
      | some stop =>
          rw [run_cons_of_stop _ hstop]
          exact hpass
      | none =>
          rw [run_cons_of_running _ hstop]
          exact hpass.andThen (ih _)

/-- **The records of a turn are told apart** from those of all others in a session. -/
theorem recordsUnder_sessionRecords {events : List MainEvent}
    (distinct : (events.filterMap MainEvent.stream?).Nodup)
    (issued : ∀ cfg turn, .turn cfg turn ∈ events →
      ∃ s wires, turn = issue serde env cfg s wires)
    {cfg : OpenAiConfig} {turn : TurnRun} (mem : .turn cfg turn ∈ events) :
    recordsUnder turn.state.st.streamId (sessionRecords events) = traceRecords turn.trace := by
  have hown : ∀ cfg turn, .turn cfg turn ∈ events →
      recordsUnder turn.state.st.streamId (traceRecords turn.trace) =
        traceRecords turn.trace := by
    intro cfg turn mem
    obtain ⟨s, wires, rfl⟩ := issued cfg turn mem
    rw [issue_streamId, issue_recordsUnder]
  obtain ⟨before, after, rfl⟩ := List.append_of_mem mem
  rw [List.filterMap_append, List.filterMap_cons, List.nodup_append] at distinct
  obtain ⟨-, hafter, hapart⟩ := distinct
  -- another turn is under another stream
  have hothers : ∀ others : List MainEvent, (∀ e ∈ others, e ∈ before ++ .turn cfg turn :: after) →
      (∀ e ∈ others, e.stream? ≠ some turn.state.st.streamId) →
        recordsUnder turn.state.st.streamId (sessionRecords others) = [] := by
    intro others hmem hother
    refine List.filter_eq_nil_iff.mpr fun r hr hunder => ?_
    obtain ⟨e, he, hr⟩ := List.mem_flatMap.mp hr
    cases e with
    | stderr text => cases hr
    | turn cfg' turn' =>
        have hunder' := hown cfg' turn' (hmem _ he)
        rw [recordsUnder, List.filter_eq_self] at hunder'
        refine hother _ he ?_
        rw [← of_decide_eq_true hunder, of_decide_eq_true (hunder' r hr)]
        rfl
  have hbefore := hothers before (fun e he => List.mem_append_left _ he) fun e he hstream => by
    exact hapart _ (List.mem_filterMap.mpr ⟨e, he, hstream⟩) _ List.mem_cons_self rfl
  have hbehind := hothers after
    (fun e he => List.mem_append_right _ (List.mem_cons_of_mem _ he)) fun e he hstream => by
    exact (List.nodup_cons.mp hafter).1 (List.mem_filterMap.mpr ⟨e, he, hstream⟩)
  rw [← List.singleton_append, sessionRecords_append, sessionRecords_append, recordsUnder,
    List.filter_append, List.filter_append]
  have hturn : sessionRecords [.turn cfg turn] = traceRecords turn.trace := List.append_nil _
  rw [hturn]
  refine (congrArg₂ (· ++ ·) hbefore (congrArg₂ (· ++ ·) (hown cfg turn mem) hbehind)).trans ?_
  rw [List.nil_append, List.append_nil]

/-! ## The session played again -/

variable (serde)

/-- The verdict of the next turn, as the capture replays it. -/
def nextVerdict (capture : List EmissionRecord) (s : MainState) : Option TurnVerdict :=
  replayTurn serde (s.streamId + 1) (recordsUnder (s.streamId + 1) capture)

/-- The state behind a turn that is replayed: a capture does not say how long it took. -/
def MainState.replayed (s : MainState) : MainState := { s with streamId := s.streamId + 1 }

/-- The last verdict on a user message, which may be that of a second turn. -/
def replayMessage (capture : List EmissionRecord) (s : MainState) : MainOutcome :=
  match nextVerdict serde capture s with
  | none => ⟨s.replayed, [], some .awaiting⟩
  | some (.failover _) =>
      match nextVerdict serde capture s.replayed with
      | none => ⟨s.replayed.replayed, [], some .awaiting⟩
      | some verdict => conclude s.replayed.replayed verdict
  | some verdict => conclude s.replayed verdict

/-- One pass over the lines that were typed. -/
def replayStep (capture : List EmissionRecord) (s : MainState) (line : String) :
    MainOutcome :=
  let line := trim line
  if line = "" then ⟨s, [], none⟩
  else if line = "/quit" ∨ line = "/exit" then ⟨s, [], some .quit⟩
  else if line = "/reset" then
    ⟨{ s with history := s.history.filter fun m => m.role = "system" }, [], none⟩
  else replayMessage serde capture { s with history := s.history ++ [⟨"user", line⟩] }

/-- **The session played again** from the lines that were typed and a capture. -/
def replayMain (systemPrompt : Option String) (capture : List EmissionRecord)
    (lines : List String) : MainOutcome :=
  run (replayStep serde capture)
    ⟨systemPrompt.toList.map fun sys => ⟨"system", sys⟩, 0, 0⟩ lines

/-- The replay stands where `main` does, but for the time. -/
def Follows (s r : MainState) : Prop := r.history = s.history ∧ r.streamId = s.streamId

/-- It leaves the loop, or stays in it, with `main`. -/
structure Tracks (o o' : MainOutcome) : Prop where
  state : Follows o.state o'.state
  stop : o'.stop = o.stop

/-- The capture has the records of these turns. -/
def Holding (capture : List EmissionRecord) (events : List MainEvent) : Prop :=
  ∀ cfg turn, .turn cfg turn ∈ events →
    recordsUnder turn.state.st.streamId capture = traceRecords turn.trace

variable {serde} {capture : List EmissionRecord}

theorem Holding.left {xs ys : List MainEvent} (h : Holding capture (xs ++ ys)) :
    Holding capture xs :=
  fun cfg turn mem => h cfg turn (List.mem_append_left _ mem)

theorem Holding.right {xs ys : List MainEvent} (h : Holding capture (xs ++ ys)) :
    Holding capture ys :=
  fun cfg turn mem => h cfg turn (List.mem_append_right _ mem)

/-- **The verdict of a turn is replayed** if the capture has its records. -/
theorem nextVerdict_eq {cfg : OpenAiConfig} {s r : MainState} {wires : List Wire}
    (holding : Holding capture [.turn cfg (issue serde env cfg s wires)])
    (follows : Follows s r) :
    nextVerdict serde capture r = (issue serde env cfg s wires).verdict := by
  have hrecords := holding cfg _ (List.mem_singleton.mpr rfl)
  rw [issue_streamId] at hrecords
  rw [nextVerdict, follows.2, hrecords]
  exact executeTurn_replay cfg serde env.handler s.history (s.streamId + 1) s.now _

theorem Follows.issued {s r : MainState} (h : Follows s r) (turn : TurnRun) :
    Follows (s.issued turn) r.replayed :=
  ⟨h.1, congrArg (· + 1) h.2⟩

theorem conclude_tracks {s r : MainState} (h : Follows s r) (verdict : TurnVerdict) :
    Tracks (conclude s verdict) (conclude r verdict) := by
  obtain ⟨hhistory, hstream⟩ := h
  cases verdict with
  | committed outcome => exact ⟨⟨congrArg (· ++ _) hhistory, hstream⟩, rfl⟩
  | failed fault => exact ⟨⟨congrArg List.dropLast hhistory, hstream⟩, rfl⟩
  | failover attempts => exact ⟨⟨hhistory, hstream⟩, rfl⟩

theorem awaiting_tracks {s r : MainState} (h : Follows s r) :
    Tracks ⟨s, [], some .awaiting⟩ ⟨r, [], some .awaiting⟩ := ⟨h, rfl⟩

/-- What `main` says in front of a pass is not replayed. -/
theorem Tracks.after {o o' : MainOutcome} (h : Tracks o o') (earlier : List MainEvent) :
    Tracks (o.after earlier) o' := ⟨h.state, h.stop⟩

/-- A handler that knows of no alternative directs no failover. -/
theorem failover_configured {cfg : OpenAiConfig} {s : MainState} {wires : List Wire}
    {attempts : UInt32}
    (directed : (issue serde env cfg s wires).verdict = some (.failover attempts)) :
    ∃ fd, env.failover = some fd := by
  obtain ⟨hknown, -⟩ := (issue_failover_iff serde env cfg s wires).mp ⟨attempts, directed⟩
  exact Option.isSome_iff_exists.mp hknown

/-- **A user message is replayed** as it was answered. -/
theorem replayMessage_tracks {s r : MainState} (h : Follows s r) (primary failover : List Wire)
    (holding : Holding capture (userTurn serde env s primary failover).out) :
    Tracks (userTurn serde env s primary failover) (replayMessage serde capture r) := by
  have hfirst := nextVerdict_eq (Holding.left holding) h
  unfold userTurn at holding ⊢
  unfold replayMessage
  dsimp only at holding ⊢
  rw [hfirst]
  cases hverdict : (issue serde env env.primary s primary).verdict with
  | none => exact (awaiting_tracks (h.issued _)).after _
  | some verdict =>
      rw [hverdict] at holding
      cases verdict with
      | committed outcome => exact (conclude_tracks (h.issued _) _).after _
      | failed fault => exact (conclude_tracks (h.issued _) _).after _
      | failover attempts =>
          obtain ⟨fd, hfd⟩ := failover_configured hverdict
          refine Tracks.after ?_ _
          have hrest := Holding.right holding
          unfold reissue at hrest ⊢
          simp only [hfd] at hrest ⊢
          -- the turn stands behind the notice
          have hsecond : Holding capture [.turn fd (issue serde env fd
              (s.issued (issue serde env env.primary s primary)) failover)] := by
            intro cfg turn mem
            refine hrest cfg turn (List.mem_append_left _ ?_)
            exact List.mem_cons_of_mem _ mem
          rw [nextVerdict_eq hsecond (h.issued _)]
          refine Tracks.after ?_ _
          cases (issue serde env fd (s.issued (issue serde env env.primary s primary))
            failover).verdict with
          | none => exact awaiting_tracks ((h.issued _).issued _)
          | some verdict => exact conclude_tracks ((h.issued _).issued _) verdict

/-- **A pass is replayed** as `main` made it. -/
theorem replayStep_tracks {s r : MainState} (h : Follows s r) (input : UserInput)
    (holding : Holding capture (mainStep serde env s input).out) :
    Tracks (mainStep serde env s input) (replayStep serde capture r input.line) := by
  unfold mainStep at holding ⊢
  unfold replayStep
  dsimp only at holding ⊢
  split_ifs at holding ⊢ with hempty hquit hreset
  · exact ⟨h, rfl⟩
  · exact ⟨h, rfl⟩
  · exact ⟨⟨congrArg (List.filter _) h.1, h.2⟩, rfl⟩
  · have hasked : Follows { s with history := s.history ++ [⟨"user", trim input.line⟩] }
        { r with history := r.history ++ [⟨"user", trim input.line⟩] } :=
      ⟨congrArg (· ++ [⟨"user", trim input.line⟩]) h.1, h.2⟩
    exact replayMessage_tracks hasked _ _ holding

theorem run_replayStep_tracks {s r : MainState} (h : Follows s r) (lines : List UserInput)
    (holding : Holding capture (run (mainStep serde env) s lines).out) :
    Tracks (run (mainStep serde env) s lines)
      (run (replayStep serde capture) r (lines.map UserInput.line)) := by
  induction lines generalizing s r with
  | nil => exact ⟨h, rfl⟩
  | cons input rest ih =>
      rw [List.map_cons]
      cases hstop : (mainStep serde env s input).stop with
      | some stop =>
          rw [run_cons_of_stop _ hstop] at holding ⊢
          have hpass := replayStep_tracks h input holding
          rw [run_cons_of_stop _ (hpass.stop.trans hstop)]
          exact hpass
      | none =>
          rw [run_cons_of_running _ hstop] at holding ⊢
          have hpass := replayStep_tracks h input holding.left
          have hrest := ih hpass.state holding.right
          rw [run_cons_of_running _ (hpass.stop.trans hstop)]
          refine ⟨?_, ?_⟩
          · rw [Outcome.after_state, Outcome.after_state]
            exact hrest.state
          · rw [Outcome.after_stop, Outcome.after_stop]
            exact hrest.stop

variable (serde env)

/-- The turns of a session are issued by it, under numbers from one on. -/
theorem mainLoop_issued (lines : List UserInput) {cfg : OpenAiConfig} {turn : TurnRun}
    (mem : .turn cfg turn ∈ (mainLoop serde env lines).out) :
    (∃ s wires, turn = issue serde env cfg s wires) ∧ 0 < turn.state.st.streamId := by
  obtain ⟨⟨n, hstreams, -⟩, hissued⟩ := @run_numbered serde env env.enter lines
  have hstream : turn.state.st.streamId ∈ List.range' (env.enter.streamId + 1) n :=
    hstreams ▸ List.mem_filterMap.mpr ⟨.turn cfg turn, mem, rfl⟩
  exact ⟨hissued cfg turn mem,
    Nat.lt_of_lt_of_le (Nat.succ_pos _) (List.mem_range'_1.mp hstream).1⟩

/-- The records of each turn can be told apart in those of the session. -/
theorem mainLoop_recordsUnder (lines : List UserInput) :
    Holding (sessionRecords (mainLoop serde env lines).out) (mainLoop serde env lines).out := by
  obtain ⟨⟨n, hstreams, -⟩, hissued⟩ := @run_numbered serde env env.enter lines
  have hdistinct : ((mainLoop serde env lines).out.filterMap MainEvent.stream?).Nodup := by
    rw [show (mainLoop serde env lines).out.filterMap MainEvent.stream? = _ from hstreams]
    exact List.nodup_range'
  intro cfg turn mem
  exact recordsUnder_sessionRecords hdistinct hissued mem

/-- **The session is played again** from any capture that has, under each stream, what the
session emitted under it. -/
theorem replayMain_tracks (lines : List UserInput) {capture : List EmissionRecord}
    (faithful : ∀ stream, 0 < stream → recordsUnder stream capture =
      recordsUnder stream (sessionRecords (mainLoop serde env lines).out)) :
    Tracks (mainLoop serde env lines)
      (replayMain serde env.primary.systemPrompt capture (lines.map UserInput.line)) := by
  refine run_replayStep_tracks (s := env.enter) ⟨rfl, rfl⟩ lines fun cfg turn mem => ?_
  rw [faithful _ (mainLoop_issued serde env lines mem).2]
  exact mainLoop_recordsUnder serde env lines cfg turn mem

/-- One endpoint, no retries, one bucket. -/
def singleEnv : MainEnv := ⟨exampleConfig, none, 0, 1⟩

end RarChat
