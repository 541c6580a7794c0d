import RarChat.Emission
import RarChat.Library.Interleaving

/-!
# The emission bus

The bounded channel of `emission.rs`, its producers, and the writer task that feeds the
sinks.  A record that finds the channel full is dropped and counted, and the writer
reports the count behind the next record that it receives.

Producers and writer move in any order (`BusMove`); each atomic operation of the source
is one move, but for the two that the counter of drops belongs to: a failed `try_send` is
counted at once, and the writer reads the counter with the record it receives.  Counters
are natural numbers.

A drop leaves a full channel behind, so what is not reported yet has a record in front
of it (`Accounted`).  Whatever the order, nothing is lost that is not counted, and behind
a drained channel nothing is counted that is not reported (`emissionBus_accounted`).
-/

namespace RarChat

open Interleaving

/-! ## The bus -/

/-- What is queued: a record that was emitted, or an `EmitLatencyUs` of the bus itself. -/
inductive Queued
  | emitted (record : EmissionRecord)
  | sample (us : ℕ)
deriving DecidableEq, Repr

/-- The record that was emitted, if it is no sample. -/
def Queued.emitted? : Queued → Option EmissionRecord
  | .emitted record => some record
  | .sample _ => none

/-- What the writer task writes: an entry that it received, or its report of drops. -/
inductive Written
  | passed (entry : Queued)
  | captureDrop (dropped : ℕ)
deriving DecidableEq, Repr

def Written.emitted? : Written → Option EmissionRecord
  | .passed entry => entry.emitted?
  | .captureDrop _ => none

def Written.dropped? : Written → Option ℕ
  | .passed _ => none
  | .captureDrop dropped => some dropped

/-- The channel, the counters that all handles share, and the locals of the writer task.
`sinks` holds what was written to each of them, `log` what was emitted. -/
structure EmissionBus where
  capacity : ℕ
  queue : List Queued
  senders : ℕ
  dropped : ℕ
  emitMaxUs : ℕ
  emitCount : ℕ
  closed : Bool
  lastDropReport : ℕ
  sinks : List (List Written)
  log : List EmissionRecord
deriving DecidableEq, Repr

namespace EmissionBus

/-- `spawn` hands out one handle. -/
def spawn (sinks capacity : ℕ) : EmissionBus where
  capacity := capacity
  queue := []
  senders := 1
  dropped := 0
  emitMaxUs := 0
  emitCount := 0
  closed := false
  lastDropReport := 0
  sinks := List.replicate sinks []
  log := []

/-- `try_send` fails on a full channel, and on one whose receiver is gone. -/
def trySend (b : EmissionBus) (entry : Queued) : Option EmissionBus :=
  if b.closed = false ∧ b.queue.length < b.capacity then
    some { b with queue := b.queue ++ [entry] }
  else none

/-- The first step of `emit`: the record is queued, or dropped and counted. -/
def emit (b : EmissionBus) (record : EmissionRecord) : EmissionBus :=
  { (b.trySend (.emitted record)).getD { b with dropped := b.dropped + 1 } with
    log := b.log ++ [record] }

/-- Its last step, on every 256th call: a sample that finds no room is not counted. -/
def emitSample (b : EmissionBus) (us : ℕ) : EmissionBus :=
  (b.trySend (.sample us)).getD b

/-- Write to every sink. -/
def write (b : EmissionBus) (w : Written) : EmissionBus :=
  { b with sinks := b.sinks.map (· ++ [w]) }

/-- One pass of the writer's loop. -/
def receive (b : EmissionBus) (entry : Queued) (rest : List Queued) : EmissionBus :=
  let passed := ({ b with queue := rest }).write (.passed entry)
  if b.dropped ≠ b.lastDropReport then
    ({ passed with lastDropReport := b.dropped }).write (.captureDrop b.dropped)
  else passed

end EmissionBus

/-! ## Producers and the writer -/

/-- The writer task, or where a holder of a handle stands in `emit`. -/
inductive Party
  | writer
  | idle
  | sent
  | timed
  | peaking
  | sampling (us : ℕ)
  | without
deriving DecidableEq, Repr

/-- The handles a party holds. -/
def Party.handles : Party → ℕ
  | .writer => 0
  | .without => 0
  | _ => 1

/-- **One step of a producer or of the writer.** -/
inductive BusMove : EmissionBus → Party → EmissionBus → Party → Prop
  | emit (b : EmissionBus) (record : EmissionRecord) :
      BusMove b .idle (b.emit record) .sent
  | time (b : EmissionBus) (us : ℕ) :
      BusMove b .sent { b with emitMaxUs := max b.emitMaxUs us } .timed
  | count (b : EmissionBus) :
      BusMove b .timed { b with emitCount := b.emitCount + 1 }
        (if (b.emitCount + 1) % 256 = 0 then .peaking else .idle)
  | peak (b : EmissionBus) :
      BusMove b .peaking { b with emitMaxUs := 0 } (.sampling b.emitMaxUs)
  | sample (b : EmissionBus) (us : ℕ) : BusMove b (.sampling us) (b.emitSample us) .idle
  -- another handle is there to be cloned
  | clone {b : EmissionBus} (held : 0 < b.senders) :
      BusMove b .without { b with senders := b.senders + 1 } .idle
  | drop (b : EmissionBus) :
      BusMove b .idle { b with senders := b.senders - 1 } .without
  | receive {b : EmissionBus} {entry : Queued} {rest : List Queued}
      (queued : b.queue = entry :: rest) : BusMove b .writer (b.receive entry rest) .writer
  -- `recv` returns `None`
  | finish {b : EmissionBus} (drained : b.queue = []) (dropped : b.senders = 0) :
      BusMove b .writer { b with closed := true } .writer

/-- The configuration behind `spawn`, with any number of parties to clone the handle. -/
def spawned (sinks capacity others : ℕ) : Config EmissionBus Party :=
  ⟨.spawn sinks capacity, .writer :: .idle :: List.replicate others .without⟩

/-! ## What a sink is fed -/

/-- The emitted records among what was written. -/
def emittedOf (sink : List Written) : List EmissionRecord := sink.filterMap Written.emitted?

/-- The counts among what was written. -/
def dropReports (sink : List Written) : List ℕ := sink.filterMap Written.dropped?

/-- The emitted records that are still queued. -/
def EmissionBus.pending (b : EmissionBus) : List EmissionRecord :=
  b.queue.filterMap Queued.emitted?

/-- **A sink is fed from the log**: what it has not got is pending or dropped, and what
it was told of drops is what the writer reported. -/
structure EmissionBus.Fed (b : EmissionBus) (sink : List Written) : Prop where
  order : List.Sublist (emittedOf sink ++ b.pending) b.log
  counted : (emittedOf sink).length + b.pending.length + b.dropped = b.log.length
  increasing : (dropReports sink).Pairwise (· < ·)
  upTo : ∀ d ∈ dropReports sink, d ≤ b.lastDropReport
  last : 0 < b.lastDropReport → (dropReports sink).getLast? = some b.lastDropReport

/-- **The bus keeps accounts.** -/
structure EmissionBus.Accounted (b : EmissionBus) : Prop where
  room : 0 < b.capacity
  closed : b.closed = true → b.senders = 0
  reported : b.lastDropReport ≤ b.dropped
  behind : b.queue = [] → b.lastDropReport = b.dropped
  fed : ∀ sink ∈ b.sinks, b.Fed sink

/-! ## Each operation keeps them -/

namespace EmissionBus

variable {b : EmissionBus}

/-- **What `emit` does** while the receiver is there: with room it queues the record, and
on a full channel it counts it. -/
theorem emit_cases (receiving : b.closed = false) (record : EmissionRecord) :
    (b.emit record =
        { b with queue := b.queue ++ [.emitted record], log := b.log ++ [record] }) ∨
      (b.capacity ≤ b.queue.length ∧
        b.emit record =
          { b with dropped := b.dropped + 1, log := b.log ++ [record] }) := by
  by_cases hroom : b.queue.length < b.capacity
  · refine .inl ?_
    simp only [emit, trySend, receiving, hroom, and_self, if_true, Option.getD_some]
  · refine .inr ⟨Nat.not_lt.mp hroom, ?_⟩
    simp only [emit, trySend, hroom, and_false, if_false, Option.getD_none]

/-- A sample is queued or forgotten. -/
theorem emitSample_cases (us : ℕ) :
    b.emitSample us = b ∨ b.emitSample us = { b with queue := b.queue ++ [.sample us] } := by
  unfold emitSample trySend
  split_ifs
  · exact .inr rfl
  · exact .inl rfl

theorem pending_of_queued {entry : Queued} {rest : List Queued}
    (queued : b.queue = entry :: rest) :
    b.pending = entry.emitted?.toList ++ rest.filterMap Queued.emitted? := by
  rw [pending, queued]
  cases entry <;> rfl

/-- A record that is queued is pending. -/
theorem Fed.queued {sink : List Written} (h : b.Fed sink) (record : EmissionRecord) :
    Fed { b with queue := b.queue ++ [.emitted record], log := b.log ++ [record] } sink := by
  have hpending : pending { b with
      queue := b.queue ++ [.emitted record], log := b.log ++ [record] } =
        b.pending ++ [record] := List.filterMap_append
  refine ⟨?_, ?_, h.increasing, h.upTo, h.last⟩
  · rw [hpending, ← List.append_assoc]
    exact h.order.append (List.Sublist.refl _)
  · have hcounted := h.counted
    rw [hpending, List.length_append, List.length_append]
    simp only [List.length_singleton]
    omega

/-- A record that is dropped is counted. -/
theorem Fed.dropped {sink : List Written} (h : b.Fed sink) (record : EmissionRecord) :
    Fed { b with dropped := b.dropped + 1, log := b.log ++ [record] } sink := by
  refine ⟨h.order.trans (List.sublist_append_left _ _), ?_, h.increasing, h.upTo, h.last⟩
  have hcounted := h.counted
  rw [List.length_append, List.length_singleton, ← hcounted]
  exact (Nat.add_assoc _ _ _).symm

/-- An entry that is passed on is pending no more. -/
theorem Fed.passed {sink : List Written} (h : b.Fed sink) {entry : Queued}
    {rest : List Queued} (queued : b.queue = entry :: rest) :
    Fed { b with queue := rest } (sink ++ [.passed entry]) := by
  have hemitted : emittedOf (sink ++ [.passed entry]) =
      emittedOf sink ++ entry.emitted?.toList := by
    rw [emittedOf, List.filterMap_append]
    cases entry <;> rfl
  have hreports : dropReports (sink ++ [.passed entry]) = dropReports sink := by
    rw [dropReports, List.filterMap_append]
    exact List.append_nil _
  have hpending := pending_of_queued queued
  have hrest : pending { b with queue := rest } = rest.filterMap Queued.emitted? := rfl
  refine ⟨?_, ?_, hreports ▸ h.increasing, hreports ▸ h.upTo, fun hlast => ?_⟩
  · rw [hemitted, List.append_assoc, hrest, ← hpending]
    exact h.order
  · have hcounted := h.counted
    rw [hpending, List.length_append] at hcounted
    rw [hemitted, List.length_append, hrest]
    show _ + _ + b.dropped = b.log.length
    omega
  · rw [hreports]
    exact h.last hlast

/-- A count that is reported is the last one, and larger than those before. -/
theorem Fed.told {sink : List Written} (h : b.Fed sink) (more : b.lastDropReport < b.dropped) :
    Fed { b with lastDropReport := b.dropped } (sink ++ [.captureDrop b.dropped]) := by
  have hemitted : emittedOf (sink ++ [.captureDrop b.dropped]) = emittedOf sink := by
    rw [emittedOf, List.filterMap_append]
    exact List.append_nil _
  have hreports : dropReports (sink ++ [.captureDrop b.dropped]) =
      dropReports sink ++ [b.dropped] := List.filterMap_append
  refine ⟨hemitted ▸ h.order, hemitted ▸ h.counted, ?_, ?_, fun _ => ?_⟩
  · rw [hreports, List.pairwise_append]
    refine ⟨h.increasing, List.pairwise_singleton _ _, fun d hd d' hd' => ?_⟩
    rw [List.mem_singleton.mp hd']
    exact Nat.lt_of_le_of_lt (h.upTo d hd) more
  · intro d hd
    rw [hreports, List.mem_append, List.mem_singleton] at hd
    rcases hd with hd | rfl
    · exact Nat.le_of_lt (Nat.lt_of_le_of_lt (h.upTo d hd) more)
    · exact Nat.le_refl _
  · rw [hreports, List.getLast?_concat]

/-- **`emit` keeps accounts.** -/
theorem Accounted.emit (h : b.Accounted) (receiving : b.closed = false)
    (record : EmissionRecord) : (b.emit record).Accounted := by
  rcases emit_cases receiving record with hemit | ⟨hfull, hemit⟩
  · rw [hemit]
    exact ⟨h.room, h.closed, h.reported, fun hempty => by simp at hempty,
      fun sink hsink => (h.fed sink hsink).queued record⟩
  · rw [hemit]
    refine ⟨h.room, h.closed, Nat.le_succ_of_le h.reported, fun hempty => ?_,
      fun sink hsink => (h.fed sink hsink).dropped record⟩
    -- a full channel is not empty
    have hlength : b.queue.length = 0 := congrArg List.length hempty
    exact absurd h.room (by omega)

theorem Accounted.emitSample (h : b.Accounted) (us : ℕ) : (b.emitSample us).Accounted := by
  rcases emitSample_cases us with hsample | hsample
  · rwa [hsample]
  · rw [hsample]
    refine ⟨h.room, h.closed, h.reported, fun hempty => by simp at hempty,
      fun sink hsink => ?_⟩
    have hfed := h.fed sink hsink
    have hpending : pending { b with queue := b.queue ++ [.sample us] } = b.pending := by
      rw [pending, List.filterMap_append]
      exact List.append_nil _
    exact ⟨hpending ▸ hfed.order, hpending ▸ hfed.counted, hfed.increasing, hfed.upTo,
      hfed.last⟩

/-- **The writer keeps accounts**: it reports what is new behind the record it passes. -/
theorem Accounted.receive (h : b.Accounted) {entry : Queued} {rest : List Queued}
    (queued : b.queue = entry :: rest) : (b.receive entry rest).Accounted := by
  unfold EmissionBus.receive
  by_cases hnew : b.dropped ≠ b.lastDropReport
  · have hmore : b.lastDropReport < b.dropped :=
      Nat.lt_of_le_of_ne h.reported (Ne.symm hnew)
    simp only [hnew, if_true, ne_eq, not_false_eq_true, write]
    refine ⟨h.room, h.closed, Nat.le_refl _, fun _ => rfl, fun sink hsink => ?_⟩
    simp only [List.map_map, List.mem_map, Function.comp_apply] at hsink
    obtain ⟨before, hbefore, rfl⟩ := hsink
    have htold := ((h.fed before hbefore).passed queued).told hmore
    exact ⟨htold.order, htold.counted, htold.increasing, htold.upTo, htold.last⟩
  · have hsame : b.lastDropReport = b.dropped := (not_not.mp hnew).symm
    simp only [hnew, if_false, write]
    refine ⟨h.room, h.closed, h.reported, fun _ => hsame, fun sink hsink => ?_⟩
    obtain ⟨before, hbefore, rfl⟩ := List.mem_map.mp hsink
    have hpassed := (h.fed before hbefore).passed queued
    exact ⟨hpassed.order, hpassed.counted, hpassed.increasing, hpassed.upTo, hpassed.last⟩

/-- Neither the handles nor the latencies nor the end of the receiver matter to a sink. -/
theorem Accounted.same (h : b.Accounted) {b' : EmissionBus}
    (same : b' = { b with
      senders := b'.senders
      emitMaxUs := b'.emitMaxUs
      emitCount := b'.emitCount
      closed := b'.closed })
    (closed : b'.closed = true → b'.senders = 0) : b'.Accounted := by
  refine ⟨?_, closed, ?_, ?_, ?_⟩
  all_goals rw [same]
  · exact h.room
  · exact h.reported
  · exact h.behind
  · intro sink hsink
    have hfed := h.fed sink hsink
    exact ⟨hfed.order, hfed.counted, hfed.increasing, hfed.upTo, hfed.last⟩

theorem emit_senders (record : EmissionRecord) : (b.emit record).senders = b.senders := by
  unfold emit trySend
  split_ifs <;> rfl

theorem emitSample_senders (us : ℕ) : (b.emitSample us).senders = b.senders := by
  unfold emitSample trySend
  split_ifs <;> rfl

theorem receive_senders (entry : Queued) (rest : List Queued) :
    (b.receive entry rest).senders = b.senders := by
  unfold receive
  split_ifs <;> rfl

theorem spawn_accounted (sinks : ℕ) {capacity : ℕ} (room : 0 < capacity) :
    (spawn sinks capacity).Accounted := by
  refine ⟨room, (fun hclosed => by cases hclosed), Nat.le_refl _, fun _ => rfl,
    fun sink hsink => ?_⟩
  obtain rfl := List.eq_of_mem_replicate hsink
  exact ⟨List.Sublist.refl _, rfl, List.Pairwise.nil, by simp [dropReports],
    fun hlast => absurd hlast (Nat.lt_irrefl 0)⟩

end EmissionBus

/-! ## Any interleaving -/

/-- **Each move keeps accounts**, and the count of the handles. -/
theorem BusMove.keeps {b b' : EmissionBus} {p p' : Party} (move : BusMove b p b' p')
    (h : b.Accounted) (held : p.handles ≤ b.senders) :
    b'.Accounted ∧ b'.senders + p.handles = b.senders + p'.handles := by
  -- the receiver is gone only when all handles are
  have hreceiving : p.handles = 1 → b.closed = false := by
    intro hone
    cases hclosed : b.closed with
    | false => rfl
    | true =>
        have hnone := h.closed hclosed
        omega
  cases move with
  | emit record =>
      exact ⟨h.emit (hreceiving rfl) record, by rw [EmissionBus.emit_senders]; rfl⟩
  | time us => exact ⟨h.same rfl h.closed, rfl⟩
  | count =>
      refine ⟨h.same rfl h.closed, ?_⟩
      split_ifs <;> rfl
  | peak => exact ⟨h.same rfl h.closed, rfl⟩
  | sample us =>
      exact ⟨h.emitSample us, by rw [EmissionBus.emitSample_senders]; rfl⟩
  | clone other =>
      refine ⟨h.same rfl fun hclosed => ?_, rfl⟩
      exact absurd (h.closed hclosed) (Nat.ne_of_gt other)
  | drop =>
      refine ⟨h.same rfl fun hclosed => ?_, ?_⟩
      · show b.senders - 1 = 0
        rw [h.closed hclosed]
      · exact Nat.sub_add_cancel held
  | receive queued =>
      exact ⟨h.receive queued, by rw [EmissionBus.receive_senders]⟩
  | finish drained dropped =>
      exact ⟨h.same rfl fun _ => dropped, rfl⟩

/-- **The bus loses nothing that it does not count**, whatever producers and writer do in
whatever order.  Each sink gets the emitted records in the order of their emission, and
growing counts of those dropped; behind a drained channel what it has not got is what was
dropped, and it has been told the number. -/
theorem emissionBus_accounted (sinks capacity others : ℕ) (room : 0 < capacity)
    {c : Config EmissionBus Party}
    (reached : Reaches BusMove (spawned sinks capacity others) c) :
    ∀ sink ∈ c.shared.sinks,
      List.Sublist (emittedOf sink) c.shared.log ∧
        (dropReports sink).Pairwise (· < ·) ∧
          (c.shared.queue = [] →
            (emittedOf sink).length + c.shared.dropped = c.shared.log.length ∧
              (0 < c.shared.dropped →
                (dropReports sink).getLast? = some c.shared.dropped)) := by
  have hload : (spawned sinks capacity others).load Party.handles = 1 := by
    simp [spawned, Config.load, Party.handles]
  have haccounted : c.shared.Accounted :=
    (reached.counted EmissionBus.senders Party.handles
      (fun _ _ _ _ move h held => move.keeps h held)
      (EmissionBus.spawn_accounted sinks room) hload.symm).1
  intro sink hsink
  have hfed := haccounted.fed sink hsink
  refine ⟨(List.sublist_append_left _ _).trans hfed.order, hfed.increasing, fun hdrained => ?_⟩
  have hreported := haccounted.behind hdrained
  have hpending : c.shared.pending = [] := by rw [EmissionBus.pending, hdrained]; rfl
  constructor
  · have hcounted := hfed.counted
    rwa [hpending, List.length_nil, Nat.add_zero] at hcounted
  · intro hdropped
    rw [← hreported] at hdropped ⊢
    exact hfed.last hdropped

/-- A channel with one place, behind one record, with two handles. -/
def filled (record : EmissionRecord) : EmissionBus :=
  { (EmissionBus.spawn 1 1).emit record with senders := 2 }

/-- The second record is dropped, and the first is received. -/
def overrun (record : EmissionRecord) : EmissionBus :=
  ((filled record).emit record).receive (.emitted record) []

theorem overrun_reached (record : EmissionRecord) :
    Reaches BusMove (spawned 1 1 1) ⟨overrun record, [.writer, .sent, .sent]⟩ := by
  have hemit : Step BusMove (spawned 1 1 1) _ :=
    Step.move [Party.writer] [Party.without] (BusMove.emit _ record)
  have hclone : Step BusMove ⟨(EmissionBus.spawn 1 1).emit record, _⟩ ⟨filled record, _⟩ :=
    Step.move [Party.writer, Party.sent] [] (BusMove.clone Nat.one_pos)
  have hdrop : Step BusMove ⟨filled record, _⟩ _ :=
    Step.move [Party.writer, Party.sent] [] (BusMove.emit _ record)
  have hreceive : Step BusMove ⟨(filled record).emit record, _⟩ ⟨overrun record, _⟩ :=
    Step.move [] [Party.sent, Party.sent] (BusMove.receive rfl)
  exact (((Relation.ReflTransGen.single hemit).tail hclone).tail hdrop).tail hreceive

/-- Two records into one place: the sink gets the first, and is told of the second. -/
theorem emissionBus_accounted_overrun :
    let bus := overrun (.captureDrop 0)
    let sink := bus.sinks.headD []
    (emittedOf sink).length + bus.dropped = 2 ∧ (dropReports sink).getLast? = some 1 := by
  intro bus sink
  have hsink : sink ∈ bus.sinks := List.mem_singleton.mpr rfl
  obtain ⟨-, -, hdrained⟩ := emissionBus_accounted 1 1 1 Nat.one_pos
    (overrun_reached (.captureDrop 0)) sink hsink
  obtain ⟨hcounted, htold⟩ := hdrained rfl
  exact ⟨hcounted, htold Nat.one_pos⟩

end RarChat
