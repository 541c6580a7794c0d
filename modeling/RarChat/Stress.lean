import RarChat.ActiveStreams
import RarChat.Recovery

/-!
# The stress harness

`stress.rs`: as many turns as it is told to, one task for each, on one handler with a bucket
for each of them, no retries and no failover, and a sink that counts what the bus feeds it.

The totals are printed behind the last turn, after a wait for the writer that may run out.
At any such moment the sink has counted what the bus has not dropped and does not hold
back any more, and what it should have counted in the end is what the trailers of the turns
say (`stress_totals`).  So if the writer has finished, each total falls short by no more
than the drops that the sink itself reports, and a run without drops prints the sums of the
turns' own accounts.
-/

namespace RarChat

open EarlyExit Interleaving

/-! ## The counting sink -/

structure CountingSink where
  reads : ℕ
  events : ℕ
  trailers : ℕ
  maxActive : ℕ
  drops : ℕ
deriving DecidableEq, Repr

namespace CountingSink

def new : CountingSink := ⟨0, 0, 0, 0, 0⟩

def write (s : CountingSink) : EmissionRecord → CountingSink
  | .read .. => { s with reads := s.reads + 1 }
  | .normalizedEvent .. => { s with events := s.events + 1 }
  | .turnTrailer .. => { s with trailers := s.trailers + 1 }
  | .scheduler _ _ (.contentThroughput _ activeStreams) =>
      { s with maxActive := max s.maxActive activeStreams }
  | .captureDrop dropped => { s with drops := dropped }
  | _ => s

end CountingSink

/-- The reads and the events that a trailer accounts for. -/
def EmissionRecord.accounts? : EmissionRecord → Option (ℕ × ℕ)
  | .turnTrailer _ _ _ _ reads _ events _ _ _ => some (reads, events)
  | _ => none

/-- What the trailers account for. -/
def accountsOf (records : List EmissionRecord) : List (ℕ × ℕ) :=
  records.filterMap EmissionRecord.accounts?

def EmissionRecord.dropped? : EmissionRecord → Option ℕ
  | .captureDrop dropped => some dropped
  | _ => none

/-- A total that each record may raise by one is the number of those that do. -/
theorem foldl_total {σ ρ β : Type} {write : σ → ρ → σ} {total : σ → ℕ} {observe : ρ → Option β}
    (each : ∀ s r, total (write s r) = total s + (observe r).toList.length) (s : σ)
    (records : List ρ) :
    total (records.foldl write s) = total s + (records.filterMap observe).length := by
  induction records generalizing s with
  | nil => rfl
  | cons r records ih =>
      rw [List.foldl_cons, ih, each, Nat.add_assoc]
      cases hr : observe r with
      | none => rw [List.filterMap_cons_none hr, Option.toList_none, List.length_nil, Nat.zero_add]
      | some b =>
          rw [List.filterMap_cons_some hr, Option.toList_some, List.length_singleton,
            List.length_cons, Nat.add_comm 1]

namespace CountingSink

/-- **What is counted.** -/
theorem foldl_write (records : List EmissionRecord) :
    let counted := records.foldl write new
    counted.reads = (readSeqs records).length ∧
      counted.events = (eventsOf records).length ∧
      counted.trailers = (accountsOf records).length := by
  have hreads := @foldl_total _ _ _ write reads EmissionRecord.readSeq? (fun s r => by
    cases r with
    | scheduler _ _ note => cases note <;> rfl
    | _ => rfl) new records
  have hevents := @foldl_total _ _ _ write events EmissionRecord.event? (fun s r => by
    cases r with
    | scheduler _ _ note => cases note <;> rfl
    | _ => rfl) new records
  have htrailers := @foldl_total _ _ _ write trailers EmissionRecord.accounts? (fun s r => by
    cases r with
    | scheduler _ _ note => cases note <;> rfl
    | _ => rfl) new records
  exact ⟨hreads.trans (Nat.zero_add _), hevents.trans (Nat.zero_add _),
    htrailers.trans (Nat.zero_add _)⟩

/-- The last count of drops is kept. -/
theorem foldl_drops (s : CountingSink) (records : List EmissionRecord) :
    (records.foldl write s).drops =
      ((records.filterMap EmissionRecord.dropped?).getLast?).getD s.drops := by
  induction records generalizing s with
  | nil => rfl
  | cons r records ih =>
      rw [List.foldl_cons, ih]
      cases r with
      | captureDrop dropped =>
          have hdropped : EmissionRecord.dropped? (.captureDrop dropped) = some dropped := rfl
          rw [List.filterMap_cons_some hdropped, List.getLast?_cons]
          rfl
      | scheduler _ _ note => cases note <;> rfl
      | _ => rfl

/-- The peak is one of those reported, if it is not what it was. -/
theorem foldl_maxActive {n : ℕ} (s : CountingSink) (start : s.maxActive ≤ n)
    {records : List EmissionRecord}
    (bounded : ∀ r ∈ records, ∀ m, r.shared? = some (.activeStreams m) → m ≤ n) :
    (records.foldl write s).maxActive ≤ n := by
  induction records generalizing s with
  | nil => exact start
  | cons r records ih =>
      obtain ⟨hr, hrest⟩ := List.forall_mem_cons.mp bounded
      refine ih (s.write r) ?_ hrest
      cases r with
      | scheduler _ _ note =>
          cases note with
          | contentThroughput bytesPerSec m => exact Nat.max_le.mpr ⟨start, hr m rfl⟩
          | _ => exact start
      | _ => exact start

end CountingSink

/-! ## What a turn accounts for -/

variable (cfg : OpenAiConfig) (serde : SerdeJson) (h : EventHandler)

/-- What is observed of a turn, if grants are hidden: its loop, and its trailer. -/
theorem filterMap_executeTurn {β : Type} {observe : EmissionRecord → Option β}
    (hides : ∀ stream attempt entry, observe (.ledger stream attempt entry) = none)
    (messages : List Message) (streamId : StreamId) (now : ℕ) (dials : List Dial)
    {verdict : TurnVerdict}
    (closed : (executeTurn cfg serde h messages streamId now dials).verdict = some verdict) :
    let looped := turnLoop cfg serde h messages (h.enter streamId now) dials
    (traceRecords (executeTurn cfg serde h messages streamId now dials).trace).filterMap
        observe =
      (traceRecords looped.out).filterMap observe ++
        (observe (looped.state.trailer verdict)).toList := by
  intro looped
  have hrecords := traceRecords_executeTurn cfg serde h messages streamId now dials
  have hstop : looped.stop = some verdict := closed
  dsimp only at hrecords
  rw [hrecords, List.filterMap_cons_none (hides _ _ _), List.filterMap_append, hstop]
  cases hobserve : observe (looped.state.trailer verdict) with
  | none => exact congrArg _ (List.filterMap_cons_none hobserve)
  | some b => exact congrArg _ (List.filterMap_cons_some hobserve)

/-- **A trailer accounts for its turn**: it tells the number of the reads and of the events
that the turn has reported. -/
theorem executeTurn_accounts (messages : List Message) (streamId : StreamId) (now : ℕ)
    (dials : List Dial) {verdict : TurnVerdict}
    (closed : (executeTurn cfg serde h messages streamId now dials).verdict = some verdict) :
    let records := traceRecords (executeTurn cfg serde h messages streamId now dials).trace
    accountsOf records = [((readSeqs records).length, (eventsOf records).length)] := by
  have hkept := turnLoop_kept cfg serde h messages (h.enter streamId now) dials
  have hclosings := turnLoop_closings cfg serde h messages (h.enter streamId now) dials
  have haccounts : (traceRecords (turnLoop cfg serde h messages (h.enter streamId now)
      dials).out).filterMap EmissionRecord.accounts? = [] := by
    refine List.filterMap_eq_nil_iff.mpr fun r hr => ?_
    have hclosing := List.filterMap_eq_nil_iff.mp hclosings r hr
    cases r with
    | turnTrailer => cases hclosing
    | _ => rfl
  intro records
  rw [accountsOf, readSeqs, eventsOf,
    filterMap_executeTurn cfg serde h (fun _ _ _ => rfl) messages streamId now dials closed,
    filterMap_executeTurn cfg serde h (fun _ _ _ => rfl) messages streamId now dials closed,
    filterMap_executeTurn cfg serde h (fun _ _ _ => rfl) messages streamId now dials closed,
    haccounts]
  set looped := turnLoop cfg serde h messages (h.enter streamId now) dials
  have htrailer : (looped.state.trailer verdict).readSeq? = none ∧
      (looped.state.trailer verdict).event? = none := ⟨rfl, rfl⟩
  have hentered : (h.enter streamId now).st.reads = 0 ∧ (h.enter streamId now).st.events = 0 :=
    ⟨rfl, rfl⟩
  have hreads := hkept.reads
  have hevents := hkept.events
  rw [hentered.1, Nat.zero_add, readSeqs] at hreads
  rw [hentered.2, Nat.zero_add, eventsOf] at hevents
  rw [htrailer.1, htrailer.2, Option.toList_none, Option.toList_none, List.append_nil,
    List.append_nil, ← hreads, ← hevents]
  rfl

variable {cfg serde h} {g : Gauges} {tasks : List StreamTask}
variable {trace : List (ℕ × EmissionRecord)} {c : Config Gauges StreamTask}

/-- **The trailers account for the run**: there is one for each task, and together they tell
the number of all reads and of all events that were reported. -/
theorem tasks_accounts (spawned : Spawned tasks)
    (runs : Runs (TaskStep serde h) ⟨g, tasks⟩ trace c)
    (ended : ∀ p ∈ c.parties, ∃ verdict, p.stage = .ended verdict) :
    let emitted := trace.map Prod.snd
    (accountsOf emitted).length = tasks.length ∧
      ((accountsOf emitted).map Prod.fst).sum = (readSeqs emitted).length ∧
      ((accountsOf emitted).map Prod.snd).sum = (eventsOf emitted).length := by
  intro emitted
  have hplaces : ∀ noted ∈ trace, noted.1 < tasks.length := by
    rintro ⟨i, r⟩ hnoted
    obtain ⟨p, hp⟩ := runs.place hnoted
    have hlt := (List.getElem?_eq_some_iff.mp hp).1
    rwa [runs.length_parties] at hlt
  -- each place is that of a whole turn
  have hwhole : ∀ i ∈ Finset.range tasks.length, accountsOf (doneBy i trace) =
      [((readSeqs (doneBy i trace)).length, (eventsOf (doneBy i trace)).length)] := by
    intro i hi
    have hlt : i < c.parties.length := by
      rw [runs.length_parties]
      exact Finset.mem_range.mp hi
    obtain ⟨verdict, hverdict⟩ := ended c.parties[i] (List.getElem_mem hlt)
    obtain ⟨now, dials, hrecords, hclosed⟩ :=
      doneBy_whole spawned runs (List.getElem?_eq_getElem hlt) hverdict
    rw [← hrecords]
    exact executeTurn_accounts _ serde h _ _ now dials hclosed
  have hlength : ∀ {β : Type} (observe : EmissionRecord → Option β),
      ∑ i ∈ Finset.range tasks.length, ((doneBy i trace).filterMap observe).length =
        (emitted.filterMap observe).length := fun observe =>
    sum_doneBy (φ := fun records => (records.filterMap observe).length)
      (fun xs ys => by rw [List.filterMap_append, List.length_append]) hplaces
  have hsum : ∀ total : ℕ × ℕ → ℕ, ∑ i ∈ Finset.range tasks.length,
      ((accountsOf (doneBy i trace)).map total).sum =
        ((accountsOf emitted).map total).sum := fun total =>
    sum_doneBy (φ := fun records => ((accountsOf records).map total).sum)
      (fun xs ys => by rw [accountsOf, List.filterMap_append, List.map_append, List.sum_append]
                       rfl) hplaces
  refine ⟨?_, ?_, ?_⟩
  · have hones := Finset.sum_congr rfl fun i hi => congrArg List.length (hwhole i hi)
    rw [accountsOf, ← hlength]
    exact hones.trans (by simp)
  · rw [← hsum, readSeqs, ← hlength]
    refine Finset.sum_congr rfl fun i hi => ?_
    rw [hwhole i hi]
    rfl
  · rw [← hsum, eventsOf, ← hlength]
    refine Finset.sum_congr rfl fun i hi => ?_
    rw [hwhole i hi]
    rfl

/-! ## The totals -/

/-- What the sink counts of records that the bus does not write of its own. -/
theorem filterMap_written {β : Type} {observe : EmissionRecord → Option β}
    (hidesNotes : ∀ stream attempt note, observe (.scheduler stream attempt note) = none)
    (hidesDrops : ∀ dropped, observe (.captureDrop dropped) = none) (sink : List Written) :
    (sink.map Written.record).filterMap observe = (emittedOf sink).filterMap observe := by
  rw [List.filterMap_map, emittedOf, List.filterMap_filterMap]
  refine List.filterMap_congr fun w _ => ?_
  cases w with
  | captureDrop dropped => exact hidesDrops dropped
  | passed entry =>
      cases entry with
      | emitted record => rfl
      | sample us => exact hidesNotes _ _ _

/-- The sink is told of drops by the writer alone. -/
theorem dropped_written {sink : List Written}
    (turns : ∀ r ∈ emittedOf sink, r.dropped? = none) :
    (sink.map Written.record).filterMap EmissionRecord.dropped? = dropReports sink := by
  rw [List.filterMap_map, dropReports]
  refine List.filterMap_congr fun w hw => ?_
  cases w with
  | captureDrop dropped => rfl
  | passed entry =>
      cases entry with
      | emitted record => exact turns record (List.mem_filterMap.mpr ⟨_, hw, rfl⟩)
      | sample us => rfl

/-- A total falls short by no more than what was dropped and what is still pending. -/
theorem EmissionBus.Fed.total {b : EmissionBus} {sink : List Written} (fed : b.Fed sink)
    {β : Type} (observe : EmissionRecord → Option β) :
    ((emittedOf sink).filterMap observe).length ≤ (b.log.filterMap observe).length ∧
      (b.log.filterMap observe).length ≤
        ((emittedOf sink).filterMap observe).length + (b.pending.length + b.dropped) := by
  have hcount := fed.order.le_countP fun r => (observe r).isSome
  rw [← List.length_filterMap_eq_countP, ← List.length_filterMap_eq_countP,
    List.filterMap_append] at hcount
  simp only [List.length_append] at hcount
  have hcounted := fed.counted
  have hpending := List.length_filterMap_le observe b.pending
  refine ⟨?_, by omega⟩
  have hsub := ((List.sublist_append_left _ _).trans fed.order).filterMap observe
  exact hsub.length_le

/-- What is reported of drops are drops. -/
theorem reported_le {b : EmissionBus} (accounted : b.Accounted) {sink : List Written}
    (mem : sink ∈ b.sinks) : (dropReports sink).getLast?.getD 0 ≤ b.dropped := by
  cases hlast : (dropReports sink).getLast? with
  | none => exact Nat.zero_le _
  | some d =>
      have hle := (accounted.fed sink mem).upTo d (List.mem_of_getLast? hlast)
      exact hle.trans accounted.reported

/-- What was reported of drops is what was dropped, once the writer has left. -/
theorem lastReport {b : EmissionBus} (accounted : b.Accounted) (empty : b.queue = [])
    {sink : List Written} (mem : sink ∈ b.sinks) :
    (dropReports sink).getLast?.getD 0 = b.dropped := by
  have hfed := accounted.fed sink mem
  rw [← accounted.behind empty]
  rcases Nat.eq_zero_or_pos b.lastDropReport with hzero | hpos
  · rw [hzero]
    cases hlast : (dropReports sink).getLast? with
    | none => rfl
    | some d =>
        have hle := hfed.upTo d (List.mem_of_getLast? hlast)
        exact Nat.le_zero.mp (hzero ▸ hle)
  · rw [hfed.last hpos]
    rfl

/-- `EventHandler::new(bus, n as u32, 0, false)`: no retries, and no failover. -/
def stressHandler : EventHandler := ⟨0, false⟩

/-- The turns of the harness. -/
def stressTasks (cfg : OpenAiConfig) (n : ℕ) : List StreamTask :=
  (List.range' 1 n).map (.spawn cfg [⟨"user", "hello"⟩])

theorem stressTasks_spawned (cfg : OpenAiConfig) (n : ℕ) : Spawned (stressTasks cfg n) := by
  refine ⟨fun p hp => ?_, ?_⟩
  · obtain ⟨i, -, rfl⟩ := List.mem_map.mp hp
    rfl
  · rw [stressTasks, List.map_map]
    exact (List.map_id _).symm ▸ List.nodup_range'

/-- **What the harness prints.**  Its turns have ended, and the writer may have finished or
not.  The sink reports no more drops than there were, and as the peak no more streams than
there were turns.  Its trailers are as many as the turns, and its reads and events as many
as these trailers account for, but for what the bus has dropped or still holds.  Once the
writer has finished the bus holds nothing, and the drops are those that are reported. -/
theorem stress_totals (cfg : OpenAiConfig) (n : ℕ)
    (runs : Runs (TaskStep serde stressHandler) ⟨⟨UInt32.ofNat n, 0⟩, stressTasks cfg n⟩
      trace c)
    (ended : ∀ p ∈ c.parties, ∃ verdict, p.stage = .ended verdict) {others : ℕ}
    {bus : Config EmissionBus Party} (reached : Reaches BusMove (spawned 1 8192 others) bus)
    (emitted : bus.shared.log = trace.map Prod.snd) :
    ∀ sink ∈ bus.shared.sinks,
      let counted := (sink.map Written.record).foldl CountingSink.write CountingSink.new
      let missing := bus.shared.pending.length + bus.shared.dropped
      let accounts := accountsOf bus.shared.log
      (counted.drops ≤ bus.shared.dropped ∧ counted.maxActive ≤ n) ∧
        (counted.trailers ≤ n ∧ n ≤ counted.trailers + missing) ∧
        (counted.reads ≤ (accounts.map Prod.fst).sum ∧
          (accounts.map Prod.fst).sum ≤ counted.reads + missing) ∧
        (counted.events ≤ (accounts.map Prod.snd).sum ∧
          (accounts.map Prod.snd).sum ≤ counted.events + missing) ∧
        (bus.shared.closed = true →
          bus.shared.pending = [] ∧ counted.drops = bus.shared.dropped) := by
  intro sink hsink counted missing accounts
  have hspawned := stressTasks_spawned cfg n
  obtain ⟨haccounted, hdrained⟩ := spawned_reaches (by decide) reached
  have hfed := haccounted.fed sink hsink
  obtain ⟨htrailers, hreads, hevents⟩ := tasks_accounts hspawned runs ended
  rw [← emitted] at htrailers hreads hevents
  have hn : (stressTasks cfg n).length = n := by simp [stressTasks]
  rw [hn] at htrailers
  have hlog : ∀ r ∈ emittedOf sink, r ∈ trace.map Prod.snd := fun r hr =>
    emitted ▸ hfed.order.subset (List.mem_append_left _ hr)
  have hturns : ∀ r ∈ emittedOf sink, r.dropped? = none := by
    intro r hr
    obtain ⟨⟨i, r⟩, hnoted, rfl⟩ := List.mem_map.mp (hlog r hr)
    obtain ⟨p, hp⟩ := runs.place hnoted
    -- a record of a turn is under a stream
    have hunder := doneBy_stream hspawned runs hp r (mem_doneBy.mpr hnoted)
    cases r with
    | captureDrop dropped => cases hunder
    | _ => rfl
  have hdrops : counted.drops = (dropReports sink).getLast?.getD 0 := by
    rw [← dropped_written hturns]
    exact CountingSink.foldl_drops _ _
  have hpeak : counted.maxActive ≤ n := by
    refine CountingSink.foldl_maxActive _ (Nat.zero_le _) fun r hr m reports => ?_
    obtain ⟨w, hw, rfl⟩ := List.mem_map.mp hr
    cases w with
    | captureDrop dropped => cases reports
    | passed entry =>
        cases entry with
        | emitted record =>
            have hmem := hlog record (List.mem_filterMap.mpr ⟨_, hw, rfl⟩)
            exact hn ▸ (activeStreams_bounded hspawned runs hmem reports).2
        | sample us => cases reports
  obtain ⟨hcountedReads, hcountedEvents, hcountedTrailers⟩ :=
    CountingSink.foldl_write (sink.map Written.record)
  rw [readSeqs, filterMap_written (fun _ _ _ => rfl) (fun _ => rfl)] at hcountedReads
  rw [eventsOf, filterMap_written (fun _ _ _ => rfl) (fun _ => rfl)] at hcountedEvents
  rw [accountsOf, filterMap_written (fun _ _ _ => rfl) (fun _ => rfl)] at hcountedTrailers
  refine ⟨⟨?_, hpeak⟩, ?_, ?_, ?_, fun finished => ⟨?_, ?_⟩⟩
  · rw [hdrops]
    exact reported_le haccounted hsink
  · rw [hcountedTrailers, ← htrailers]
    exact hfed.total _
  · rw [hcountedReads, hreads]
    exact hfed.total _
  · rw [hcountedEvents, hevents]
    exact hfed.total _
  · rw [EmissionBus.pending, hdrained finished]
    rfl
  · rw [hdrops]
    exact lastReport haccounted (hdrained finished) hsink

/-- Two turns of the harness, one of which is reset, on a bus that the writer keeps empty:
all their reads and events are counted, and nothing was dropped. -/
theorem stress_totals_sideBySide :
    ∃ trace c, Runs (TaskStep replySerde stressHandler) ⟨⟨UInt32.ofNat 2, 0⟩,
        stressTasks exampleConfig 2⟩ trace c ∧
      ∃ bus : Config EmissionBus Party, bus.shared.log = trace.map Prod.snd ∧
        bus.shared.sinks ≠ [] ∧ ∀ sink ∈ bus.shared.sinks,
          let counted := (sink.map Written.record).foldl CountingSink.write CountingSink.new
          let accounts := accountsOf bus.shared.log
          counted.trailers = 2 ∧ counted.reads = (accounts.map Prod.fst).sum ∧
            counted.events = (accounts.map Prod.snd).sum ∧ counted.drops = 0 := by
  obtain ⟨trace, c, hruns, hparties, -, hlength⟩ := sideBySide_runs
  have hended : ∀ p ∈ c.parties, ∃ verdict, p.stage = .ended verdict := by
    rw [hparties]
    intro p hp
    rcases List.mem_pair.mp hp with rfl | rfl
    · exact ⟨_, rfl⟩
    · exact ⟨_, rfl⟩
  have hfew : (trace.map Prod.snd).length < 256 := by
    rw [List.length_map, hlength]
    decide
  have hdropped : Step BusMove ⟨taken 8192 (trace.map Prod.snd), [.writer, .idle]⟩ _ :=
    .move [Party.writer] [] (BusMove.drop _)
  let bus : Config EmissionBus Party :=
    ⟨{ taken 8192 (trace.map Prod.snd) with senders := 0, closed := true },
      [.writer, .without]⟩
  have hfinished : Step BusMove
      ⟨{ taken 8192 (trace.map Prod.snd) with senders := 0 }, [.writer, .without]⟩ bus :=
    .move [] [Party.without] (BusMove.finish rfl rfl)
  have hreached := ((taken_reached (by decide) hfew).tail hdropped).tail hfinished
  refine ⟨trace, c, hruns, bus, rfl, List.cons_ne_nil _ _, fun sink hsink => ?_⟩
  obtain ⟨⟨hdrops, -⟩, ⟨hle, hge⟩, ⟨hreads, hreads'⟩, ⟨hevents, hevents'⟩, -⟩ :=
    stress_totals exampleConfig 2 hruns hended hreached rfl sink hsink
  exact ⟨Nat.le_antisymm hle hge, Nat.le_antisymm hreads hreads',
    Nat.le_antisymm hevents hevents', Nat.le_zero.mp hdrops⟩

end RarChat
