import RarChat.Bus
import RarChat.CaptureSink
import RarChat.Session

/-!
# What a capture file is good for

The ways of a record put together: a turn of `main` emits it, the bus queues it among those
of other producers, the writer task hands it to the capture sink, the sink writes a line,
and the file is read back and replayed.

Between the turn and the sink a record can only be dropped, and drops are counted.  So if
none was, what the sink is handed is what was emitted, up to the samples that the bus adds
under a stream of its own (`EmissionBus.Fed.recordsUnder`).  A session whose writer came to
its end is then rebuilt from its capture file and the lines that were typed
(`capture_rebuilds_history`).  A session that is killed leaves a file with a torn end;
every turn whose trailer was handed to the sink is in it whole (`crash_keeps_turns`).
-/

namespace RarChat

open AppendLog EarlyExit Interleaving

/-! ## What the writer hands on -/

/-- The record that the sinks are handed. -/
def Queued.record : Queued → EmissionRecord
  | .emitted record => record
  | .sample us => .scheduler 0 0 (.emitLatencyUs us)

/-- The record that the sinks are handed, or told of drops with. -/
def Written.record : Written → EmissionRecord
  | .passed entry => entry.record
  | .captureDrop dropped => .captureDrop dropped

/-- **Under the stream of a turn**, a sink is handed what was emitted. -/
theorem recordsUnder_written {stream : StreamId} (turn : 0 < stream) (sink : List Written) :
    recordsUnder stream (sink.map Written.record) = recordsUnder stream (emittedOf sink) := by
  have hzero : ¬some (0 : StreamId) = some stream := fun h =>
    absurd (Option.some.inj h) (Nat.ne_of_lt turn)
  induction sink with
  | nil => rfl
  | cons w sink ih =>
      unfold recordsUnder emittedOf at ih ⊢
      rw [List.map_cons, List.filter_cons, ih]
      match w with
      | .passed (.emitted record) =>
          have hrecord : (Written.passed (.emitted record)).emitted? = some record := rfl
          rw [List.filterMap_cons_some hrecord, List.filter_cons]
          rfl
      | .passed (.sample us) =>
          rw [List.filterMap_cons_none rfl, if_neg]
          exact fun h => hzero (of_decide_eq_true h)
      | .captureDrop dropped =>
          rw [List.filterMap_cons_none rfl, if_neg]
          exact fun h => nomatch of_decide_eq_true h

namespace EmissionBus

variable {b : EmissionBus}

/-- **Without drops a sink is handed the log**, up to what is still queued. -/
theorem Fed.lossless {sink : List Written} (h : b.Fed sink) (lossless : b.dropped = 0) :
    emittedOf sink ++ b.pending = b.log := by
  have hcounted := h.counted
  refine h.order.eq_of_length ?_
  rw [List.length_append]
  omega

/-- The writer has left its loop only behind a drained channel. -/
def Drained (b : EmissionBus) : Prop := b.closed = true → b.queue = []

end EmissionBus

/-- **Each move keeps a channel drained** that the writer has left. -/
theorem BusMove.drained {b b' : EmissionBus} {p p' : Party} (move : BusMove b p b' p')
    (h : b.Accounted) (held : p.handles ≤ b.senders) (drained : b.Drained) : b'.Drained := by
  -- who holds a handle finds the receiver there
  have hreceiving : p.handles = 1 → b.closed = false := by
    intro hone
    cases hclosed : b.closed with
    | false => rfl
    | true =>
        have hnone := h.closed hclosed
        omega
  cases move with
  | emit record =>
      intro hclosed
      have hsame : (b.emit record).closed = b.closed := by
        unfold EmissionBus.emit EmissionBus.trySend
        split_ifs <;> rfl
      rw [hsame, hreceiving rfl] at hclosed
      cases hclosed
  | sample us =>
      intro hclosed
      have hsame : (b.emitSample us).closed = b.closed := by
        unfold EmissionBus.emitSample EmissionBus.trySend
        split_ifs <;> rfl
      rw [hsame, hreceiving rfl] at hclosed
      cases hclosed
  | time us => exact drained
  | count => exact drained
  | peak => exact drained
  | clone other => exact drained
  | drop => exact drained
  | receive queued =>
      intro hclosed
      have hsame : ∀ entry rest, (b.receive entry rest).closed = b.closed := by
        intro entry rest
        unfold EmissionBus.receive
        split_ifs <;> rfl
      rw [hsame] at hclosed
      have hempty := drained hclosed
      rw [queued] at hempty
      cases hempty
  | finish empty dropped => exact fun _ => empty

/-- **Whatever is reached** keeps accounts, and is drained once the writer has left. -/
theorem spawned_reaches {sinks capacity others : ℕ} (room : 0 < capacity)
    {c : Config EmissionBus Party}
    (reached : Reaches BusMove (spawned sinks capacity others) c) :
    c.shared.Accounted ∧ c.shared.Drained := by
  have hload : (spawned sinks capacity others).load Party.handles = 1 := by
    simp [spawned, Config.load, Party.handles]
  refine (reached.counted (I := fun b => b.Accounted ∧ b.Drained) EmissionBus.senders
    Party.handles (fun _ _ _ _ move h held => ?_)
    ⟨EmissionBus.spawn_accounted sinks room, fun hclosed => by cases hclosed⟩ hload.symm).1
  obtain ⟨haccounted, hsenders⟩ := move.keeps h.1 held
  exact ⟨⟨haccounted, move.drained h.1 held h.2⟩, hsenders⟩

/-! ## A session that came to its end -/

variable (serde : SerdeJson) (env : MainEnv) {toStr : Json → Except String String}
variable {read : String → Option Json}

/-- The records that are read off a file. -/
def capturedIn (read : String → Option Json) (file : List UInt8) : List EmissionRecord :=
  (readCapture read file).reduceOption

/-- The file of a capture sink that was handed all this and dropped. -/
def captureFile (toStr : Json → Except String String) (sink : List Written) : List UInt8 :=
  ((sink.map Written.record).foldl (CaptureSink.write toStr) CaptureSink.create).drop

theorem reduceOption_map_some (records : List EmissionRecord) :
    (records.map some).reduceOption = records := by
  show (records.map some).filterMap id = records
  rw [List.filterMap_map]
  exact List.filterMap_some

theorem capturedIn_captureFile (agree : WritesLines toStr read) (sink : List Written) :
    capturedIn read (captureFile toStr sink) = sink.map Written.record := by
  rw [capturedIn, captureFile, CaptureSink.readCapture_drop agree, reduceOption_map_some]

/-- **A session is rebuilt from its capture file.**  However the writer task and the
producers were interleaved, if the channel was never full and the writer came to its end,
then the capture file and the lines that were typed give the history of the session, and
the way in which its loop was left. -/
theorem capture_rebuilds_history (agree : WritesLines toStr read) (lines : List UserInput)
    (sinks capacity others : ℕ) (room : 0 < capacity) {c : Config EmissionBus Party}
    (reached : Reaches BusMove (spawned sinks capacity others) c)
    (emitted : c.shared.log = sessionRecords (mainLoop serde env lines).out)
    (finished : c.shared.closed = true) (lossless : c.shared.dropped = 0) :
    ∀ sink ∈ c.shared.sinks,
      let rebuilt := replayMain serde env.primary.systemPrompt
        (capturedIn read (captureFile toStr sink)) (lines.map UserInput.line)
      rebuilt.state.history = (mainLoop serde env lines).state.history ∧
        rebuilt.stop = (mainLoop serde env lines).stop := by
  intro sink hsink
  obtain ⟨haccounted, hdrained⟩ := spawned_reaches room reached
  have hpending : c.shared.pending = [] := by
    rw [EmissionBus.pending, hdrained finished]
    rfl
  have hemitted : emittedOf sink = sessionRecords (mainLoop serde env lines).out := by
    have hlog := (haccounted.fed sink hsink).lossless lossless
    rwa [hpending, List.append_nil, emitted] at hlog
  have htracks := @replayMain_tracks serde env lines
    (capturedIn read (captureFile toStr sink)) fun stream hstream => by
      rw [capturedIn_captureFile agree, recordsUnder_written hstream, hemitted]
  exact ⟨htracks.state.1, htracks.stop⟩

/-- The bus behind records that the writer took one by one. -/
def taken (capacity : ℕ) (records : List EmissionRecord) : EmissionBus :=
  { EmissionBus.spawn 1 capacity with
    emitCount := records.length
    sinks := [records.map fun r => .passed (.emitted r)]
    log := records }

/-- **A bus that is never full** is reached with whatever is emitted. -/
theorem taken_reached {capacity : ℕ} (room : 0 < capacity) {records : List EmissionRecord}
    (few : records.length < 256) :
    Reaches BusMove (spawned 1 capacity 0) ⟨taken capacity records, [.writer, .idle]⟩ := by
  induction records using List.reverseRecOn with
  | nil => exact .refl
  | append_singleton records r ih =>
      rw [List.length_append, List.length_singleton] at few
      -- the record is emitted and received, then its latency is taken
      have hemit : Step BusMove ⟨taken capacity records, [.writer, .idle]⟩ _ :=
        Step.move [Party.writer] [] (BusMove.emit _ r)
      have hqueue : ((taken capacity records).emit r).queue = [.emitted r] := by
        simp [EmissionBus.emit, EmissionBus.trySend, taken, EmissionBus.spawn, room]
      have hreceive : Step BusMove ⟨(taken capacity records).emit r, [.writer, .sent]⟩ _ :=
        Step.move [] [Party.sent] (BusMove.receive hqueue)
      have htime : Step BusMove ⟨((taken capacity records).emit r).receive (.emitted r) [],
          [.writer, .sent]⟩ _ :=
        Step.move [Party.writer] [] (BusMove.time _ 0)
      have hcount := Step.move [Party.writer] [] (BusMove.count
        { ((taken capacity records).emit r).receive (.emitted r) [] with
          emitMaxUs := max (((taken capacity records).emit r).receive (.emitted r) []).emitMaxUs 0 })
      have hbehind := (((ih (by omega)).tail hemit).tail hreceive).tail htime |>.tail hcount
      have hidle : (records.length + 1) % 256 ≠ 0 := by omega
      simpa [taken, EmissionBus.emit, EmissionBus.trySend, EmissionBus.receive,
        EmissionBus.write, EmissionBus.spawn, room, hidle] using hbehind

/-- A message that is answered. -/
def answeredInput : UserInput := ⟨"hi", [replyWire], []⟩

/-- The capture of one answered message gives back the exchange. -/
theorem capture_rebuilds_history_answered :
    let records := sessionRecords (mainLoop replySerde singleEnv [answeredInput]).out
    let sink : List Written := records.map fun r => .passed (.emitted r)
    (replayMain replySerde none (capturedIn readCompact
        (captureFile (fun j => .ok (compactJson j)) sink)) ["hi"]).state.history =
      [⟨"user", "hi"⟩, ⟨"assistant", "hi"⟩] := by
  intro records sink
  have hemitted : records =
      sessionRecords (mainLoop replySerde singleEnv [answeredInput]).out := rfl
  obtain ⟨hfew, hhistory⟩ : records.length < 256 ∧
      (mainLoop replySerde singleEnv [answeredInput]).state.history =
        [⟨"user", "hi"⟩, ⟨"assistant", "hi"⟩] := by decide +kernel
  clear_value records
  have hdropped : Step BusMove ⟨taken 1 records, [.writer, .idle]⟩ _ :=
    Step.move [Party.writer] [] (BusMove.drop _)
  have hfinished : Step BusMove ⟨{ taken 1 records with senders := 0 }, [.writer, .without]⟩ _ :=
    Step.move [] [Party.without] (BusMove.finish rfl rfl)
  have hreached := ((taken_reached Nat.one_pos hfew).tail hdropped).tail hfinished
  have hrebuilt := capture_rebuilds_history replySerde singleEnv writesLines_compact
    [answeredInput] 1 1 0 Nat.one_pos hreached hemitted rfl rfl sink
    (List.mem_singleton.mpr rfl)
  exact hrebuilt.1.trans hhistory

/-! ## A session that was killed -/

/-- Of the records of a turn, the trailer alone closes it, and is the last. -/
theorem issue_boundary (cfg : OpenAiConfig) (s : MainState) (wires : List Wire) :
    ∃ front : List EmissionRecord, (∀ r ∈ front, r.isBoundary = false) ∧
      (traceRecords (issue serde env cfg s wires).trace = front ∨
        ∃ trailer, traceRecords (issue serde env cfg s wires).trace = front ++ [trailer]) := by
  have hrecords := traceRecords_executeTurn cfg serde env.handler s.history (s.streamId + 1)
    s.now (soloDials (s.streamId + 1) env.sendBuckets wires)
  have hclosings := turnLoop_closings cfg serde env.handler s.history
    (env.handler.enter (s.streamId + 1) s.now)
    (soloDials (s.streamId + 1) env.sendBuckets wires)
  dsimp only at hrecords
  rw [issue, hrecords]
  generalize turnLoop cfg serde env.handler s.history _ _ = looped at hclosings ⊢
  refine ⟨.ledger (s.streamId + 1) 0
    (.retryAllowanceGranted env.handler.retryAllowancePerTurn) :: traceRecords looped.out,
    List.forall_mem_cons.mpr ⟨rfl, fun r hr => ?_⟩, ?_⟩
  · have hopen := List.filterMap_eq_nil_iff.mp hclosings r hr
    cases r with
    | turnTrailer => cases hopen
    | _ => rfl
  · cases looped.stop with
    | none => exact .inl (congrArg _ (List.append_nil _))
    | some verdict => exact .inr ⟨_, rfl⟩

/-- A prefix that contains the last one is the whole. -/
theorem eq_of_isPrefix_of_boundary {front : List EmissionRecord} {whole part : List EmissionRecord}
    (open_front : ∀ r ∈ front, r.isBoundary = false)
    (shape : whole = front ∨ ∃ trailer, whole = front ++ [trailer]) (start : part <+: whole)
    {r : EmissionRecord} (mem : r ∈ part) (closes : r.isBoundary = true) : part = whole := by
  have hnot : r ∉ front := fun h => by
    rw [open_front r h] at closes
    cases closes
  rcases shape with rfl | ⟨trailer, rfl⟩
  · exact absurd (start.subset mem) hnot
  · rcases List.prefix_concat_iff.mp start with rfl | hfront
    · rfl
    · exact absurd (hfront.subset mem) hnot

/-- Under a stream, a prefix is a prefix. -/
theorem recordsUnder_isPrefix (stream : StreamId) {part whole : List EmissionRecord}
    (start : part <+: whole) : recordsUnder stream part <+: recordsUnder stream whole := by
  obtain ⟨rest, rfl⟩ := start
  exact ⟨recordsUnder stream rest, (List.filter_append ..).symm⟩

/-- **The turns of a session** replay from any part of its records that holds their
trailers. -/
theorem replayTurn_of_part (lines : List UserInput) {cfg : OpenAiConfig} {turn : TurnRun}
    (issued : .turn cfg turn ∈ (mainLoop serde env lines).out) {part : List EmissionRecord}
    (start : recordsUnder turn.state.st.streamId part <+:
      recordsUnder turn.state.st.streamId
        (sessionRecords (mainLoop serde env lines).out))
    {trailer : EmissionRecord} (mem : trailer ∈ part)
    (under : trailer.stream? = some turn.state.st.streamId)
    (closes : trailer.isBoundary = true) :
    replayTurn serde turn.state.st.streamId (recordsUnder turn.state.st.streamId part) =
      turn.verdict := by
  obtain ⟨⟨s, wires, rfl⟩, -⟩ := mainLoop_issued serde env lines issued
  obtain ⟨front, hfront, hshape⟩ := issue_boundary serde env cfg s wires
  rw [mainLoop_recordsUnder serde env lines cfg _ issued] at start
  have hmem : trailer ∈ recordsUnder (issue serde env cfg s wires).state.st.streamId part :=
    List.mem_filter.mpr ⟨mem, decide_eq_true under⟩
  rw [eq_of_isPrefix_of_boundary hfront hshape start hmem closes, issue_streamId]
  exact executeTurn_replay cfg serde env.handler s.history (s.streamId + 1) s.now _

/-- **A crash loses no turn that was closed.**  The session is killed while the capture sink
writes the next record, with whatever part of it on the disk.  If the channel was never full
up to then, every turn whose trailer the sink was handed before replays to its verdict from
what is left of the file. -/
theorem crash_keeps_turns (agree : WritesLines toStr read) (lines : List UserInput)
    (sinks capacity others : ℕ) (room : 0 < capacity) {c : Config EmissionBus Party}
    (reached : Reaches BusMove (spawned sinks capacity others) c)
    (emitted : c.shared.log <+: sessionRecords (mainLoop serde env lines).out)
    (lossless : c.shared.dropped = 0) {entry : Queued} {rest : List Queued}
    (queued : c.shared.queue = entry :: rest) {sink : List Written}
    (fed : sink ∈ c.shared.sinks) {disk : List UInt8}
    (crash : LeftByCrash toStr (sink.map Written.record) entry.record disk) :
    ∀ cfg turn, .turn cfg turn ∈ (mainLoop serde env lines).out →
      ∀ trailer ∈ sink.map Written.record,
        trailer.stream? = some turn.state.st.streamId → trailer.isBoundary = true →
          replayTurn serde turn.state.st.streamId
              (recordsUnder turn.state.st.streamId (capturedIn read disk)) =
            turn.verdict := by
  intro cfg turn hissued trailer hmem hunder hcloses
  obtain ⟨haccounted, -⟩ := spawned_reaches room reached
  -- the records that the sink was handed, and the one it is handed, are the first emitted
  have hstream := (mainLoop_issued serde env lines hissued).2
  have hlog := (haccounted.fed sink fed).lossless lossless
  have hpending : c.shared.pending = entry.emitted?.toList ++
      rest.filterMap Queued.emitted? := EmissionBus.pending_of_queued queued
  have hemitted : emittedOf (sink ++ [Written.passed entry]) <+:
      sessionRecords (mainLoop serde env lines).out := by
    refine List.IsPrefix.trans ⟨rest.filterMap Queued.emitted?, ?_⟩ emitted
    rw [← hlog, hpending, ← List.append_assoc]
    refine congrArg (· ++ _) ?_
    rw [emittedOf, List.filterMap_append]
    cases entry <;> rfl
  obtain ⟨k, hread, safe, late, hsafe, hkept, -, hwithin⟩ := crash.survivors agree
  have hcaptured : capturedIn read disk =
      ((sink ++ [Written.passed entry]).map Written.record).take k := by
    rw [capturedIn, hread, reduceOption_map_some, List.map_append]
    rfl
  refine replayTurn_of_part serde env lines hissued ?_ ?_ hunder hcloses
  · rw [hcaptured]
    refine (recordsUnder_isPrefix _ (List.take_prefix k _)).trans ?_
    rw [recordsUnder_written hstream]
    exact recordsUnder_isPrefix _ hemitted
  · -- the trailer is among the lines that survive
    obtain ⟨before, after, hsplit⟩ := List.append_of_mem hmem
    have hlength := length_lt_of_boundary (hsafe.symm.trans hsplit) hwithin hcloses
    rw [hcaptured, List.map_append, hsplit, List.append_assoc, List.cons_append,
      List.take_append]
    refine List.mem_append_right _ ?_
    obtain ⟨n, hn⟩ : ∃ n, k - before.length = n + 1 := ⟨k - before.length - 1, by omega⟩
    rw [hn, List.take_succ_cons]
    exact List.mem_cons_self

/-- An answered message, and a crash in front of the first record of the next turn. -/
theorem crash_keeps_turns_answered :
    let events := (mainLoop replySerde singleEnv [answeredInput, ⟨"bye", [.cancelled 0], []⟩]).out
    let first := traceRecords (issue replySerde singleEnv exampleConfig
      { singleEnv.enter with history := [⟨"user", "hi"⟩] } answeredInput.primary).trace
    let disk := (CaptureSink.create.w.performAll
      (captureOps (fun j => .ok (compactJson j)) 0 first)).file
    first <+: sessionRecords events ∧
      replayTurn replySerde 1 (recordsUnder 1 (capturedIn readCompact disk)) =
        some (.committed ⟨"hi", "stop", none⟩) := by
  intro events first disk
  obtain ⟨hfew, hturn, hverdict, hemitted, trailer, htrailer, hunder, hcloses⟩ :
      first.length < 256 ∧
        .turn exampleConfig (issue replySerde singleEnv exampleConfig
          { singleEnv.enter with history := [⟨"user", "hi"⟩] } answeredInput.primary) ∈
            events ∧
        (issue replySerde singleEnv exampleConfig
          { singleEnv.enter with history := [⟨"user", "hi"⟩] } answeredInput.primary).verdict =
            some (.committed ⟨"hi", "stop", none⟩) ∧
        first ++ [.ledger 2 0 (.retryAllowanceGranted 0)] <+: sessionRecords events ∧
        ∃ trailer ∈ first, trailer.stream? = some 1 ∧ trailer.isBoundary = true := by
    decide +kernel
  clear_value first
  refine ⟨(List.prefix_append _ _).trans hemitted, ?_⟩
  -- the sink has the records of the first turn, and the grant of the second is queued
  have hemit : Step BusMove ⟨taken 1 first, [.writer, .idle]⟩ _ :=
    Step.move [Party.writer] [] (BusMove.emit _ (.ledger 2 0 (.retryAllowanceGranted 0)))
  have hreached := (taken_reached Nat.one_pos hfew).tail hemit
  have hsink : (first.map fun r => Written.passed (.emitted r)).map Written.record = first := by
    rw [List.map_map]
    exact List.map_id _
  have hcrash : LeftByCrash (fun j => .ok (compactJson j))
      ((first.map fun r => Written.passed (.emitted r)).map Written.record)
      (Queued.record (.emitted (.ledger 2 0 (.retryAllowanceGranted 0)))) disk := by
    rw [hsink]
    refine ⟨[], _, _, rfl, ?_, ?_⟩
    · rw [List.append_nil]
    · rw [Writer.performAll_append]
      exact Writer.file_isPrefix_performAll _ _
  have hkept := crash_keeps_turns replySerde singleEnv writesLines_compact
    [answeredInput, ⟨"bye", [.cancelled 0], []⟩] 1 1 0 Nat.one_pos hreached hemitted rfl rfl
    (List.mem_singleton.mpr rfl) hcrash exampleConfig _ hturn trailer (by rwa [hsink]) hunder
    hcloses
  exact hkept.trans hverdict

end RarChat
