import RarChat.StreamTasks

/-!
# What tasks report of each other, and leave to each other

A task sees two things of the other tasks: the gauge of active streams, which a throughput
tick reports, and the counter of send buckets.

The gauge is what the guards make it, one for each task between the first step of its
future and the last, so a tick reports between one stream and all of them
(`activeStreams_reported`).  A task holds one bucket at most, so with a bucket for each of
them no turn is denied, in whatever order they acquire, and behind all of them the counter is
what it was (`enough_buckets`).
-/

namespace RarChat

open EarlyExit Interleaving

/-! ## What is reported -/

/-- What a record tells of a counter that tasks share. -/
inductive SharedReport
  | activeStreams (n : ℕ)
  | denied
deriving DecidableEq, Repr

def EmissionRecord.shared? : EmissionRecord → Option SharedReport
  | .scheduler _ _ (.contentThroughput _ activeStreams) => some (.activeStreams activeStreams)
  | .ledger _ _ .sendBucketDenied => some .denied
  | _ => none

/-- The records tell nothing of the counters. -/
def Unmetered (records : List EmissionRecord) : Prop := ∀ r ∈ records, r.shared? = none

theorem Unmetered.append {xs ys : List EmissionRecord} (hxs : Unmetered xs)
    (hys : Unmetered ys) : Unmetered (xs ++ ys) := fun r hr =>
  (List.mem_append.mp hr).elim (hxs r) (hys r)

theorem Unmetered.cons {r : EmissionRecord} {records : List EmissionRecord}
    (hr : r.shared? = none) (hrecords : Unmetered records) :
    Unmetered (r :: records) :=
  List.forall_mem_cons.mpr ⟨hr, hrecords⟩

theorem Unmetered.nil : Unmetered [] := List.forall_mem_nil _

theorem Unmetered.single {r : EmissionRecord} (hr : r.shared? = none) :
    Unmetered [r] := .cons hr .nil

theorem Unmetered.map {α : Type} {f : α → EmissionRecord}
    (each : ∀ a, (f a).shared? = none) (xs : List α) : Unmetered (xs.map f) := by
  intro r hr
  obtain ⟨a, -, rfl⟩ := List.mem_map.mp hr
  exact each a

variable (cfg : OpenAiConfig) (serde : SerdeJson)

theorem endComplete_unmetered (s : ReadLoop) (cause : StreamEndCause) (endCause : EndCause) :
    Unmetered (s.endComplete cause endCause).records :=
  .cons rfl (.map (fun _ => rfl) _)

theorem follow_unmetered (s : ReadLoop) (gained : ℕ)
    (result : Except DriverFault FlowDirective) :
    Unmetered (s.follow gained result).out := by
  unfold ReadLoop.follow
  split
  · exact .nil
  all_goals exact endComplete_unmetered _ _ _

theorem onInstallment_unmetered (st : StreamState) (seq : ℕ) (text : String)
    (status : InstallmentStatus) :
    Unmetered (onInstallment serde st seq .data text status).records := by
  cases hrefined : refined serde text with
  | error detail =>
      obtain ⟨n, hstep⟩ := onInstallment_of_error hrefined st seq status
      rw [hstep]
      exact .single rfl
  | ok norm =>
      rw [onInstallment_of_ok hrefined]
      exact .append (.map (fun _ => rfl) _) (.map (fun _ => rfl) _)

theorem frameStep_unmetered (gap : ℕ) (s : ReadLoop) (ev : SseEvent) :
    Unmetered (frameStep serde gap s ev).out := by
  cases hpayload : ev.payload with
  | undecodable raw error =>
      simp only [frameStep, hpayload]
      exact .single rfl
  | comment text =>
      simp only [frameStep, hpayload]
      exact .cons rfl (.single rfl)
  | data text =>
      rw [frameStep_of_data serde hpayload]
      refine .append ?_ (follow_unmetered _ _ _)
      unfold ReadLoop.dataRecords
      refine .append (.cons rfl ?_) (.cons rfl (onInstallment_unmetered serde _ _ _ _))
      split_ifs
      · exact .nil
      · exact .single rfl

theorem tailStep_unmetered (s : ReadLoop) (ev : SseEvent) :
    Unmetered (tailStep serde s ev).out := by
  unfold tailStep
  cases ev.payload with
  | undecodable raw error => exact .single rfl
  | comment text => exact .single rfl
  | data text => exact .cons rfl (onInstallment_unmetered serde _ _ _ _)

theorem run_unmetered {ι : Type} {step : ReadLoop → ι → LoopOutcome}
    (each : ∀ s i, Unmetered (step s i).out) (s : ReadLoop) (is : List ι) :
    Unmetered (run step s is).out :=
  run_out_of_each step (I := fun _ => True) (fun s i _ => ⟨trivial, each s i⟩) trivial is

/-- **A wakeup reports what its tick has loaded.** -/
theorem wakeupStep_shared {s : ReadLoop} {w : Wakeup} {active : ℕ} (sees : w.Sees active)
    {r : EmissionRecord} (mem : r ∈ (wakeupStep cfg serde s w).out) {report : SharedReport}
    (reports : r.shared? = some report) : report = .activeStreams active := by
  cases w with
  | tick after activeStreams =>
      obtain rfl : activeStreams = active := sees
      simp only [wakeupStep, tickStep] at mem
      cases hfirst : s.firstByteAt with
      | none => simp [hfirst] at mem
      | some fb =>
          simp only [hfirst] at mem
          split_ifs at mem with hstarved
          · rcases List.mem_cons.mp mem with rfl | mem
            · exact (Option.some.inj reports).symm
            · rw [List.mem_singleton.mp mem] at reports
              cases reports
          · rw [List.mem_singleton.mp mem] at reports
            exact (Option.some.inj reports).symm
  | read after wallUnixMs item =>
      have hunmetered : Unmetered (readStep serde s after wallUnixMs item).out := by
        by_cases hlong : s.parser.limitBytes < (frameRest (s.parser.buf ++ item)).length
        · rw [readStep_of_overflow serde hlong]
          exact .cons rfl (.single rfl)
        · rw [readStep_of_fits serde hlong]
          exact .cons rfl (run_unmetered (frameStep_unmetered serde _) _ _)
      rw [hunmetered r mem] at reports
      cases reports

theorem lastWait_unmetered (s : ReadLoop) (last : WaitEnd) :
    Unmetered (lastWait cfg serde s last).records := by
  cases last with
  | cancelled after => exact .cons rfl (.single rfl)
  | overallDeadline late => exact .cons rfl (.single rfl)
  | stall late => exact .cons rfl (.single rfl)
  | transportError after detail => exact .single rfl
  | closed after =>
      have hresidue : ∀ residue, Unmetered (residueRecords s.st.streamId s.st.attempt residue) := by
        intro residue
        unfold residueRecords
        split_ifs
        · exact .nil
        · exact .single rfl
      have hnote : ∀ (closed : ReadLoop) resolution, Unmetered (closed.eofNote resolution) := by
        intro closed resolution
        cases resolution with
        | committed outcome => exact .single rfl
        | fault f => exact .nil
      rw [lastWait, peerClosed]
      refine .append (.append (.append (run_unmetered (tailStep_unmetered serde) _ _) ?_)
        (.cons rfl (.map (fun _ => rfl) _))) (hnote _ _)
      exact hresidue _

/-! ## Guards -/

/-- The guards a task holds: one between the first step of its future and the last. -/
def StreamTask.guards (p : StreamTask) : ℕ :=
  match p.stage with
  | .spawned => 0
  | .ended _ => 0
  | _ => 1

/-- The send buckets a task holds. -/
def StreamTask.held (p : StreamTask) : ℕ :=
  match p.stage with
  | .dialing _ => 1
  | .reading _ _ => 1
  | .returning _ _ => 1
  | _ => 0

variable {serde} {h : EventHandler} {g g' : Gauges} {p p' : StreamTask}
variable {events : List EmissionRecord}

/-- **A step keeps the gauge**, which counts the guard of the task that moves. -/
theorem TaskStep.keeps_active (step : TaskStep serde h g p events g' p')
    (counted : p.guards ≤ g.active) : g'.active + p.guards = g.active + p'.guards := by
  cases step with
  | leave quiet stage =>
      have hguards : p.guards = 1 := by simp only [StreamTask.guards, stage]
      rw [hguards] at counted ⊢
      exact Nat.sub_add_cancel counted
  | enter quiet stage => simp [StreamTask.guards, stage, StreamTask.to]
  | @acquire t quiet stage acquired acquires =>
      cases hgranted : acquired.granted <;>
        simp [StreamTask.guards, stage, StreamTask.to, Stage.admitted, hgranted]
  | @wake begun loop quiet stage w sees woken wakes =>
      cases hstop : woken.stop <;>
        simp [StreamTask.guards, stage, StreamTask.to, Stage.woken, hstop]
  | @settle t ended quiet stage settled settles =>
      cases hstop : settled.stop <;>
        simp [StreamTask.guards, stage, StreamTask.to, Stage.settled, hstop]
  | emit outbox => rfl
  | _ => simp_all [StreamTask.guards, StreamTask.to]

/-- **A step keeps the balance of buckets**, and a return does not wrap. -/
theorem TaskStep.keeps_buckets {B : UInt32} (step : TaskStep serde h g p events g' p')
    (fits : g.buckets.toNat + p.held ≤ B.toNat) :
    g'.buckets.toNat + p'.held = g.buckets.toNat + p.held := by
  have hB := B.toNat_lt
  cases step with
  | @acquire t quiet stage acquired acquires =>
      have hheld : p.held = 0 := by simp only [StreamTask.held, stage]
      subst acquires
      by_cases hpos : 0 < g.buckets
      · rw [acquireSendBucket_of_pos hpos]
        have hbuckets := UInt32.lt_iff_toNat_lt.mp hpos
        rw [UInt32.toNat_zero] at hbuckets
        show (g.buckets - 1).toNat + 1 = _
        rw [toNat_sub_one hpos, hheld]
        omega
      · rw [acquireSendBucket_of_not_pos hpos, hheld]
        rfl
  | giveBack quiet stage returns =>
      have hheld : p.held = 1 := by simp only [StreamTask.held, stage]
      subst returns
      rw [hheld] at fits ⊢
      show (g.buckets + 1).toNat + 0 = _
      rw [UInt32.toNat_add, UInt32.toNat_one, Nat.mod_eq_of_lt (by omega)]
  | @wake begun loop quiet stage w sees woken wakes =>
      cases hstop : woken.stop <;>
        simp [StreamTask.held, stage, StreamTask.to, Stage.woken, hstop]
  | @settle t ended quiet stage settled settles =>
      cases hstop : settled.stop <;>
        simp [StreamTask.held, stage, StreamTask.to, Stage.settled, hstop]
  | emit outbox => rfl
  | _ => simp_all [StreamTask.held, StreamTask.to]

theorem settle_unmetered (stream : StreamId) (attempt : UInt32) (t : TurnState)
    (e : AttemptEnd) : Unmetered (traceRecords (settle h stream attempt t e).out) := by
  by_cases hretry : e.Faulting ∧ 0 < t.remainingAllowance
  · rw [settle_of_retry hretry.1 hretry.2]
    exact .single rfl
  · rw [settle_of_settled fun hfaulting hleft => hretry ⟨hfaulting, hleft⟩]
    exact .nil

/-- **What a step reports**: what was to be emitted, the gauge, while the task holds a guard,
or that the task, which holds no bucket, found none. -/
theorem TaskStep.reports (step : TaskStep serde h g p events g' p') {r : EmissionRecord}
    (mem : r ∈ events ++ p'.outbox) {report : SharedReport}
    (reports : r.shared? = some report) :
    r ∈ p.outbox ∨ (report = .activeStreams g.active ∧ p.guards = 1) ∨
      (report = .denied ∧ p.held = 0 ∧ ¬0 < g.buckets) := by
  have hnew : ∀ records : List EmissionRecord, Unmetered records →
      r ∈ [] ++ records → False := by
    intro records hunmetered hr
    rw [hunmetered r hr] at reports
    cases reports
  cases step with
  | emit outbox =>
      rw [outbox]
      exact .inl mem
  | enter quiet stage => exact absurd mem List.not_mem_nil
  | begin quiet stage now => exact (hnew _ (.single rfl) mem).elim
  | @acquire t quiet stage acquired acquires =>
      subst acquires
      by_cases hpos : 0 < g.buckets
      · rw [acquireSendBucket_of_pos hpos] at mem
        exact (hnew _ (.single rfl) mem).elim
      · rw [acquireSendBucket_of_not_pos hpos] at mem
        obtain rfl := List.mem_singleton.mp mem
        refine .inr (.inr ⟨(Option.some.inj reports).symm, ?_, hpos⟩)
        simp only [StreamTask.held, stage]
  | @refuse begun quiet stage wire unframed run attempts =>
      subst attempts
      obtain ⟨instant, cause, hrun⟩ := runAttempt_of_unframed p.cfg serde unframed p.messages
        begun.st begun.selectPolls begun.now
      rw [attemptOf, hrun] at mem
      exact (hnew _ (.single rfl) mem).elim
  | accept quiet stage after => exact absurd mem List.not_mem_nil
  | wake quiet stage sees wakes =>
      subst wakes
      refine .inr (.inl ⟨wakeupStep_shared p.cfg serde sees mem reports, ?_⟩)
      simp only [StreamTask.guards, stage]
  | wait quiet stage leaves =>
      subst leaves
      exact (hnew _ (lastWait_unmetered p.cfg serde _ _) mem).elim
  | giveBack quiet stage returns =>
      subst returns
      exact (hnew _ (.single rfl) mem).elim
  | settle quiet stage settles =>
      subst settles
      exact (hnew _ (settle_unmetered _ _ _ _) mem).elim
  | close quiet stage => exact (hnew _ (.single rfl) mem).elim
  | leave quiet stage => exact absurd mem List.not_mem_nil

/-! ## Over a whole run -/

variable {B : UInt32} {tasks : List StreamTask} {trace : List (ℕ × EmissionRecord)}
variable {c : Config Gauges StreamTask}

theorem guards_le_one (p : StreamTask) : p.guards ≤ 1 := by
  unfold StreamTask.guards
  split <;> omega

theorem StreamTask.held_le_one (p : StreamTask) : p.held ≤ 1 := by
  unfold StreamTask.held
  split <;> omega

/-- **The gauge counts the guards**, and the counter of buckets with those that are held is
what it was. -/
theorem tasks_counted (spawned : Spawned tasks)
    (runs : Runs (TaskStep serde h) ⟨⟨B, 0⟩, tasks⟩ trace c) :
    c.shared.active = c.load StreamTask.guards ∧
      c.shared.buckets.toNat + c.load StreamTask.held = B.toNat := by
  have hreaches : Reaches (fun g p g' p' => ∃ events, TaskStep serde h g p events g' p')
      ⟨⟨B, 0⟩, tasks⟩ c := runs.reaches fun _ _ events _ _ step => ⟨events, step⟩
  have hguards : Config.load StreamTask.guards ⟨(⟨B, 0⟩ : Gauges), tasks⟩ = 0 :=
    load_eq_zero fun p hp => by
      rw [spawned.fresh p hp]
      rfl
  have hheld : Config.load StreamTask.held ⟨(⟨B, 0⟩ : Gauges), tasks⟩ = 0 :=
    load_eq_zero fun p hp => by
      rw [spawned.fresh p hp]
      rfl
  constructor
  · refine (hreaches.counted (I := fun _ => True) Gauges.active StreamTask.guards ?_ trivial
      hguards.symm).2
    rintro g p g' p' ⟨events, step⟩ - counted
    exact ⟨trivial, step.keeps_active counted⟩
  · refine hreaches.balance (fun g => g.buckets.toNat) StreamTask.held ?_ ?_
    · rintro g p g' p' ⟨events, step⟩ fits
      exact step.keeps_buckets fits
    · rw [hheld, Nat.add_zero]

/-- What holds of the counters whenever a task may report them holds of all reports. -/
theorem tasks_report {Q : SharedReport → Prop} (spawned : Spawned tasks)
    (sound : ∀ {trace' c'}, Runs (TaskStep serde h) ⟨⟨B, 0⟩, tasks⟩ trace' c' →
      ∀ p ∈ c'.parties, (p.guards = 1 → Q (.activeStreams c'.shared.active)) ∧
        (p.held = 0 → ¬0 < c'.shared.buckets → Q .denied))
    (runs : Runs (TaskStep serde h) ⟨⟨B, 0⟩, tasks⟩ trace c) {r : EmissionRecord}
    (mem : r ∈ trace.map Prod.snd) {report : SharedReport}
    (reports : r.shared? = some report) : Q report := by
  obtain ⟨⟨i, r⟩, hnoted, rfl⟩ := List.mem_map.mp mem
  obtain ⟨p, hp⟩ := runs.place hnoted
  have hunder := runs.under (J := fun g p => (p.guards = 1 → Q (.activeStreams g.active)) ∧
    (p.held = 0 → ¬0 < g.buckets → Q .denied)) sound
  refine hunder.own (I := fun done p => ∀ r ∈ done ++ p.outbox, ∀ report,
      r.shared? = some report → Q report) (fun p hp => ?_) ?_ hp _
    (List.mem_append_left _ (mem_doneBy.mpr hnoted)) report reports
  · rw [spawned.fresh p hp]
    exact fun r hr => absurd hr List.not_mem_nil
  · rintro done g p events g' p' hdone ⟨⟨hactive, hdenied⟩, step⟩ r hr report reports
    rw [List.append_assoc] at hr
    rcases List.mem_append.mp hr with hr | hr
    · exact hdone r (List.mem_append_left _ hr) report reports
    · obtain hr | ⟨rfl, hguards⟩ | ⟨rfl, hheld, hnone⟩ := step.reports hr reports
      · exact hdone r (List.mem_append_right _ hr) report reports
      · exact hactive hguards
      · exact hdenied hheld hnone

/-- A tick reports one stream at least, and all tasks at most. -/
theorem activeStreams_bounded (spawned : Spawned tasks)
    (runs : Runs (TaskStep serde h) ⟨⟨B, 0⟩, tasks⟩ trace c) {r : EmissionRecord}
    (mem : r ∈ trace.map Prod.snd) {n : ℕ} (reports : r.shared? = some (.activeStreams n)) :
    1 ≤ n ∧ n ≤ tasks.length := by
  refine tasks_report (Q := fun report => ∀ n, report = .activeStreams n →
    1 ≤ n ∧ n ≤ tasks.length) spawned ?_ runs mem reports n rfl
  intro trace' c' runs' p hp
  refine ⟨fun hguards n hn => ?_, fun _ _ n hn => nomatch hn⟩
  obtain rfl := SharedReport.activeStreams.inj hn
  have hlength : c'.parties.length = tasks.length := runs'.length_parties
  rw [(tasks_counted spawned runs').1, ← hlength]
  exact ⟨hguards ▸ weight_le_load _ hp, load_le_length guards_le_one c'⟩

/-- **The gauge of active streams.**  Under every interleaving it counts the tasks that hold
a guard; what a throughput tick reports is one stream at least and all of them at most; and
once all tasks have ended it is back at zero. -/
theorem activeStreams_reported (spawned : Spawned tasks)
    (runs : Runs (TaskStep serde h) ⟨⟨B, 0⟩, tasks⟩ trace c) :
    c.shared.active = c.load StreamTask.guards ∧
      (∀ r ∈ trace.map Prod.snd, ∀ n, r.shared? = some (.activeStreams n) →
        1 ≤ n ∧ n ≤ tasks.length) ∧
      ((∀ p ∈ c.parties, ∃ verdict, p.stage = .ended verdict) → c.shared.active = 0) := by
  have hcounted := (tasks_counted spawned runs).1
  refine ⟨hcounted, fun r hr n reports => activeStreams_bounded spawned runs hr reports,
    fun hended => ?_⟩
  rw [hcounted]
  refine load_eq_zero fun p hp => ?_
  obtain ⟨verdict, hverdict⟩ := hended p hp
  simp only [StreamTask.guards, hverdict]

/-- The tick in the second of two turns, which both hold their guards, reports two; behind
both of them the gauge is at zero. -/
theorem activeStreams_reported_sideBySide :
    ∃ trace c, Runs (TaskStep replySerde ⟨0, false⟩) ⟨⟨2, 0⟩, sideBySide⟩ trace c ∧
      (∃ r ∈ trace.map Prod.snd, r.shared? = some (.activeStreams 2)) ∧
      (∀ r ∈ trace.map Prod.snd, ∀ n, r.shared? = some (.activeStreams n) →
        1 ≤ n ∧ n ≤ 2) ∧
      c.shared.active = 0 := by
  obtain ⟨trace, c, hruns, hparties, htick, -⟩ := sideBySide_runs
  obtain ⟨-, hreported, hback⟩ := activeStreams_reported sideBySide_spawned hruns
  refine ⟨trace, c, hruns, ⟨_, List.mem_map_of_mem htick, rfl⟩, hreported, hback ?_⟩
  rw [hparties]
  intro p hp
  rcases List.mem_pair.mp hp with rfl | rfl
  · exact ⟨_, rfl⟩
  · exact ⟨_, rfl⟩

/-- **All buckets come back** once all tasks have ended. -/
theorem buckets_back (spawned : Spawned tasks)
    (runs : Runs (TaskStep serde h) ⟨⟨B, 0⟩, tasks⟩ trace c)
    (ended : ∀ p ∈ c.parties, ∃ verdict, p.stage = .ended verdict) : c.shared.buckets = B := by
  have hbalance := (tasks_counted spawned runs).2
  have hnone : c.load StreamTask.held = 0 := load_eq_zero fun p hp => by
    obtain ⟨verdict, hverdict⟩ := ended p hp
    simp only [StreamTask.held, hverdict]
  rw [hnone, Nat.add_zero] at hbalance
  exact UInt32.toNat_inj.mp hbalance

/-- **With a bucket for each task no turn is denied**, and all buckets come back. -/
theorem enough_buckets (spawned : Spawned tasks) (enough : tasks.length ≤ B.toNat)
    (runs : Runs (TaskStep serde h) ⟨⟨B, 0⟩, tasks⟩ trace c) :
    (∀ stream attempt, .ledger stream attempt .sendBucketDenied ∉ trace.map Prod.snd) ∧
      ((∀ p ∈ c.parties, ∃ verdict, p.stage = .ended verdict) → c.shared.buckets = B) := by
  refine ⟨fun stream attempt hdenied => ?_, buckets_back spawned runs⟩
  refine tasks_report (Q := fun report => report ≠ .denied) spawned ?_ runs hdenied rfl rfl
  intro trace' c' runs' p hp
  refine ⟨fun _ => by simp, fun hheld hnone => (hnone ?_).elim⟩
  have hbalance := (tasks_counted spawned runs').2
  have hspare := load_lt_length StreamTask.held_le_one hp hheld
  have hlength : c'.parties.length = tasks.length := runs'.length_parties
  rw [hlength] at hspare
  rw [UInt32.lt_iff_toNat_lt, UInt32.toNat_zero]
  omega

/-- Two tasks with two buckets, the second of which acquires first. -/
theorem enough_buckets_two :
    ∃ trace c, Runs (TaskStep (.ofTable []) ⟨0, false⟩) ⟨⟨2, 0⟩,
        [.spawn exampleConfig [] 1, .spawn exampleConfig [] 2]⟩ trace c ∧
      c.shared.buckets = 1 ∧ .ledger 2 1 .sendBucketDenied ∉ trace.map Prod.snd := by
  have hspawned : Spawned [.spawn exampleConfig [] 1, .spawn exampleConfig [] 2] :=
    ⟨by simp [StreamTask.origin, StreamTask.spawn], by simp [StreamTask.spawn]⟩
  have entered : Runs (TaskStep (.ofTable []) ⟨0, false⟩) ⟨⟨2, 0⟩,
      [.spawn exampleConfig [] 1, .spawn exampleConfig [] 2]⟩ _ _ :=
    .tail (.tail .refl (.move [] _ (.enter rfl rfl))) (.move [_] [] (.enter rfl rfl))
  have granted := Runs.tail (.tail entered (.move [_] _ (.begin rfl rfl 0)))
    (.move [_] _ (.emit rfl))
  have acquired := Runs.tail (.tail granted (.move [_] _ (.acquire rfl rfl rfl)))
    (.move [_] _ (.emit rfl))
  exact ⟨_, _, acquired, rfl, (enough_buckets hspawned (by decide) acquired).1 2 1⟩

end RarChat
