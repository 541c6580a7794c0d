import RarChat.Replay
import RarChat.SendBuckets

/-!
# Streams that run side by side

Tasks that each run one turn, as the stress harness spawns them: every task holds an
`ActiveGuard` while it lives, and all of them share one Event Handler and one bus.  A task
is cut here wherever another one can come between: at each record it emits, at each wakeup
of its read loop, and where it touches a shared counter (`TaskStep`).  What it computes in
one piece goes to its outbox, and leaves it record by record.

What a task has emitted is always a turn that is under way (`Progress`), so a task that has
ended has run `execute_turn` as if it were alone, on dials that were there for it
(`turns_isolated`).
-/

namespace RarChat

open EarlyExit Interleaving

/-! ## Tasks -/

/-- Where a task stands. -/
inductive Stage
  | spawned
  | entered
  | atLoop (t : TurnState)
  | dialing (begun : TurnState)
  | reading (begun : TurnState) (loop : ReadLoop)
  | returning (t : TurnState) (ended : AttemptEnd)
  | deciding (t : TurnState) (ended : AttemptEnd)
  | closing (t : TurnState) (verdict : TurnVerdict)
  | leaving (verdict : TurnVerdict)
  | ended (verdict : TurnVerdict)
deriving DecidableEq, Repr

/-- A task, with the records that it has to emit before it goes on. -/
structure StreamTask where
  cfg : OpenAiConfig
  messages : List Message
  streamId : StreamId
  stage : Stage
  outbox : List EmissionRecord
deriving DecidableEq, Repr

/-- The counters that tasks share. -/
structure Gauges where
  buckets : UInt32
  active : ℕ
deriving DecidableEq, Repr

/-- The task at another stage, with these records to emit. -/
def StreamTask.to (p : StreamTask) (stage : Stage) (outbox : List EmissionRecord) :
    StreamTask :=
  { p with stage := stage, outbox := outbox }

@[simp] theorem StreamTask.to_outbox (p : StreamTask) (stage : Stage)
    (outbox : List EmissionRecord) : (p.to stage outbox).outbox = outbox := rfl

/-- The turn behind a read loop that was left in this state. -/
def TurnState.left (begun : TurnState) (loop : ReadLoop) : TurnState :=
  { begun with st := loop.st, selectPolls := loop.selectPolls, now := loop.now }

/-- The stage behind a request for a bucket. -/
def Stage.admitted (begun : TurnState) (acquired : BucketStep) : Stage :=
  if acquired.granted then .dialing begun
  else .closing begun
    (.failed (.protocol "no send bucket available (admission denied)"))

/-- The stage behind a wakeup. -/
def Stage.woken (begun : TurnState) (o : LoopOutcome) : Stage :=
  match o.stop with
  | none => .reading begun o.state
  | some attemptEnd => .returning (begun.left o.state) attemptEnd

/-- The stage behind the `match` on how an attempt ended. -/
def Stage.settled (o : TurnOutcome) : Stage :=
  match o.stop with
  | none => .atLoop o.state
  | some verdict => .closing o.state verdict

/-- A tick loads the gauge. -/
def Wakeup.Sees (active : ℕ) : Wakeup → Prop
  | .tick _ activeStreams => activeStreams = active
  | .read _ _ _ => True

/-- **One step of a task**, with the record that it emits, if it does. -/
inductive TaskStep (serde : SerdeJson) (h : EventHandler) :
    Gauges → StreamTask → List EmissionRecord → Gauges → StreamTask → Prop
  | emit {g : Gauges} {p : StreamTask} {record : EmissionRecord}
      {rest : List EmissionRecord} (outbox : p.outbox = record :: rest) :
      TaskStep serde h g p [record] g (p.to p.stage rest)
  | enter {g : Gauges} {p : StreamTask} (quiet : p.outbox = [])
      (stage : p.stage = .spawned) :
      TaskStep serde h g p [] { g with active := g.active + 1 } (p.to .entered [])
  | begin {g : Gauges} {p : StreamTask} (quiet : p.outbox = [])
      (stage : p.stage = .entered) (now : ℕ) :
      TaskStep serde h g p [] g
        (p.to (.atLoop (h.enter p.streamId now)) (h.beginStream p.streamId).2)
  | acquire {g : Gauges} {p : StreamTask} {t : TurnState} (quiet : p.outbox = [])
      (stage : p.stage = .atLoop t) {acquired : BucketStep}
      (acquires : acquireSendBucket t.begun.st.streamId t.begun.st.attempt g.buckets =
        acquired) :
      TaskStep serde h g p [] { g with buckets := acquired.available }
        (p.to (.admitted t.begun acquired) acquired.records)
  -- no event stream comes back
  | refuse {g : Gauges} {p : StreamTask} {begun : TurnState} (quiet : p.outbox = [])
      (stage : p.stage = .dialing begun) {wire : Wire} (unframed : wire.framed = none)
      {run : AttemptRun} (attempts : attemptOf p.cfg serde p.messages begun wire = run) :
      TaskStep serde h g p [] g
        (p.to (.returning (begun.attempted run) run.ended) run.records)
  | accept {g : Gauges} {p : StreamTask} {begun : TurnState} (quiet : p.outbox = [])
      (stage : p.stage = .dialing begun) (after : ℕ) :
      TaskStep serde h g p [] g
        (p.to (.reading begun
          (ReadLoop.start begun.st (begun.now + after) begun.selectPolls)) [])
  | wake {g : Gauges} {p : StreamTask} {begun : TurnState} {loop : ReadLoop}
      (quiet : p.outbox = []) (stage : p.stage = .reading begun loop) {w : Wakeup}
      (sees : w.Sees g.active) {woken : LoopOutcome}
      (wakes : wakeupStep p.cfg serde loop w = woken) :
      TaskStep serde h g p [] g (p.to (.woken begun woken) woken.out)
  | wait {g : Gauges} {p : StreamTask} {begun : TurnState} {loop : ReadLoop}
      (quiet : p.outbox = []) (stage : p.stage = .reading begun loop) {last : WaitEnd}
      {left : LoopEnd} (leaves : lastWait p.cfg serde loop last = left) :
      TaskStep serde h g p [] g
        (p.to (.returning (begun.left left.state) left.ended) left.records)
  | giveBack {g : Gauges} {p : StreamTask} {t : TurnState} {ended : AttemptEnd}
      (quiet : p.outbox = []) (stage : p.stage = .returning t ended) {returned : BucketStep}
      (returns : returnSendBucket t.st.streamId t.st.attempt g.buckets = returned) :
      TaskStep serde h g p [] { g with buckets := returned.available }
        (p.to (.deciding t ended) returned.records)
  | settle {g : Gauges} {p : StreamTask} {t : TurnState} {ended : AttemptEnd}
      (quiet : p.outbox = []) (stage : p.stage = .deciding t ended) {settled : TurnOutcome}
      (settles : RarChat.settle h t.st.streamId t.st.attempt t ended = settled) :
      TaskStep serde h g p [] g (p.to (.settled settled) (traceRecords settled.out))
  | close {g : Gauges} {p : StreamTask} {t : TurnState} {verdict : TurnVerdict}
      (quiet : p.outbox = []) (stage : p.stage = .closing t verdict) :
      TaskStep serde h g p [] g (p.to (.leaving verdict) [t.trailer verdict])
  | leave {g : Gauges} {p : StreamTask} {verdict : TurnVerdict} (quiet : p.outbox = [])
      (stage : p.stage = .leaving verdict) :
      TaskStep serde h g p [] { g with active := g.active - 1 } (p.to (.ended verdict) [])

/-- A task that is spawned. -/
def StreamTask.spawn (cfg : OpenAiConfig) (messages : List Message) (streamId : StreamId) :
    StreamTask :=
  ⟨cfg, messages, streamId, .spawned, []⟩

/-! ## Playing a schedule -/

/-- What a task is told when its turn comes: to go on by itself, or what happens to it. -/
inductive Cue
  | go
  | begin (now : ℕ)
  | refuse (wire : Wire)
  | accept (after : ℕ)
  | tick (after : ℕ)
  | read (after wallUnixMs : ℕ) (item : List UInt8)
  | wait (last : WaitEnd)
deriving DecidableEq, Repr

/-- The step that a task makes on a cue.  Told to go on, it emits what is left in its outbox
first. -/
def StreamTask.fire (serde : SerdeJson) (h : EventHandler) (g : Gauges) (p : StreamTask)
    (cue : Cue) : Option (List EmissionRecord × Gauges × StreamTask) :=
  match p.outbox, p.stage, cue with
  | record :: rest, stage, .go => some ([record], g, p.to stage rest)
  | [], .spawned, .go => some ([], { g with active := g.active + 1 }, p.to .entered [])
  | [], .entered, .begin now =>
      some ([], g, p.to (.atLoop (h.enter p.streamId now)) (h.beginStream p.streamId).2)
  | [], .atLoop t, .go =>
      let acquired := acquireSendBucket t.begun.st.streamId t.begun.st.attempt g.buckets
      some ([], { g with buckets := acquired.available },
        p.to (.admitted t.begun acquired) acquired.records)
  | [], .dialing begun, .refuse wire =>
      let run := attemptOf p.cfg serde p.messages begun wire
      if wire.framed = none then
        some ([], g, p.to (.returning (begun.attempted run) run.ended) run.records)
      else none
  | [], .dialing begun, .accept after =>
      some ([], g, p.to (.reading begun
        (ReadLoop.start begun.st (begun.now + after) begun.selectPolls)) [])
  | [], .reading begun loop, .tick after =>
      let woken := wakeupStep p.cfg serde loop (.tick after g.active)
      some ([], g, p.to (.woken begun woken) woken.out)
  | [], .reading begun loop, .read after wallUnixMs item =>
      let woken := wakeupStep p.cfg serde loop (.read after wallUnixMs item)
      some ([], g, p.to (.woken begun woken) woken.out)
  | [], .reading begun loop, .wait last =>
      let left := lastWait p.cfg serde loop last
      some ([], g, p.to (.returning (begun.left left.state) left.ended) left.records)
  | [], .returning t attemptEnd, .go =>
      let returned := returnSendBucket t.st.streamId t.st.attempt g.buckets
      some ([], { g with buckets := returned.available },
        p.to (.deciding t attemptEnd) returned.records)
  | [], .deciding t attemptEnd, .go =>
      let settled := RarChat.settle h t.st.streamId t.st.attempt t attemptEnd
      some ([], g, p.to (.settled settled) (traceRecords settled.out))
  | [], .closing t verdict, .go => some ([], g, p.to (.leaving verdict) [t.trailer verdict])
  | [], .leaving verdict, .go =>
      some ([], { g with active := g.active - 1 }, p.to (.ended verdict) [])
  | _, _, _ => none

/-- **A cue makes a step.** -/
theorem StreamTask.fire_step {serde : SerdeJson} {h : EventHandler} (g : Gauges)
    (p : StreamTask) (cue : Cue) (events : List EmissionRecord) (g' : Gauges)
    (p' : StreamTask) (fired : p.fire serde h g cue = some (events, g', p')) :
    TaskStep serde h g p events g' p' := by
  unfold StreamTask.fire at fired
  split at fired
  case h_5 quiet stage =>
    split_ifs at fired with unframed
    cases fired
    exact .refuse quiet stage unframed rfl
  all_goals cases fired
  case h_1 outbox => exact .emit outbox
  case h_2 quiet stage => exact .enter quiet stage
  case h_3 now quiet stage => exact .begin quiet stage now
  case h_4 quiet stage => exact .acquire quiet stage rfl
  case h_6 after quiet stage => exact .accept quiet stage after
  case h_7 after quiet stage => exact .wake quiet stage (w := .tick after g.active) rfl rfl
  case h_8 after wallUnixMs item quiet stage =>
    exact .wake quiet stage (w := .read after wallUnixMs item) trivial rfl
  case h_9 quiet stage => exact .wait quiet stage rfl
  case h_10 quiet stage => exact .giveBack quiet stage rfl
  case h_11 quiet stage => exact .settle quiet stage rfl
  case h_12 quiet stage => exact .close quiet stage
  case h_13 quiet stage => exact .leave quiet stage

/-! ## A turn under way -/

variable (serde : SerdeJson) (h : EventHandler) (cfg : OpenAiConfig) (messages : List Message)
variable (streamId : StreamId)

/-- The loop of the turn stands here, behind these records. -/
def Looped (t : TurnState) (records : List EmissionRecord) (stop : Option TurnVerdict) : Prop :=
  ∃ now dials, turnLoop cfg serde h messages (h.enter streamId now) dials =
    ⟨t, (turnLoop cfg serde h messages (h.enter streamId now) dials).out, stop⟩ ∧
      (h.beginStream streamId).2 ++ traceRecords
        (turnLoop cfg serde h messages (h.enter streamId now) dials).out = records

/-- The record of the bucket that an attempt begun behind `t` spends. -/
def TurnState.bucketSpent (t : TurnState) (available : UInt32) : EmissionRecord :=
  .ledger t.st.streamId (t.st.attempt + 1) (.sendBucketSpent (available - 1))

/-- The read loop that is entered when an event stream is accepted. -/
def TurnState.accepted (t : TurnState) (after : ℕ) : ReadLoop :=
  ReadLoop.start t.begun.st (t.begun.now + after) t.begun.selectPolls

/-- **A turn under way**: what a task at this stage has emitted. -/
inductive Progress : Stage → List EmissionRecord → Prop
  | spawned : Progress .spawned []
  | entered : Progress .entered []
  | atLoop {t : TurnState} {records : List EmissionRecord}
      (looped : Looped serde h cfg messages streamId t records none) :
      Progress (.atLoop t) records
  | dialing {t : TurnState} {records : List EmissionRecord}
      (looped : Looped serde h cfg messages streamId t records none) {available : UInt32}
      (some : 0 < available) :
      Progress (.dialing t.begun) (records ++ [t.bucketSpent available])
  | reading {t : TurnState} {records : List EmissionRecord}
      (looped : Looped serde h cfg messages streamId t records none) {available : UInt32}
      (some : 0 < available) {after : ℕ} {wakeups : List Wakeup}
      (running : (run (wakeupStep cfg serde) (t.accepted after) wakeups).stop = none) :
      Progress (.reading t.begun (run (wakeupStep cfg serde) (t.accepted after) wakeups).state)
        (records ++ t.bucketSpent available ::
          (run (wakeupStep cfg serde) (t.accepted after) wakeups).out)
  | returning {t : TurnState} {records : List EmissionRecord}
      (looped : Looped serde h cfg messages streamId t records none) {available : UInt32}
      (some : 0 < available) (wire : Wire) :
      Progress (.returning (t.tried cfg serde messages wire) (attemptEnding cfg serde wire))
        (records ++ t.bucketSpent available ::
          (attemptOf cfg serde messages t.begun wire).records)
  | deciding {t : TurnState} {records : List EmissionRecord}
      (looped : Looped serde h cfg messages streamId t records none) {d : Dial}
      (admitted : d.Admitted) :
      Progress (.deciding (t.tried cfg serde messages d.wire) (attemptEnding cfg serde d.wire))
        (records ++ traceRecords (dialEvents cfg serde messages t d))
  | closing {t : TurnState} {records : List EmissionRecord} {verdict : TurnVerdict}
      (looped : Looped serde h cfg messages streamId t records (some verdict)) :
      Progress (.closing t verdict) records
  | leaving {t : TurnState} {records : List EmissionRecord} {verdict : TurnVerdict}
      (looped : Looped serde h cfg messages streamId t records (some verdict)) :
      Progress (.leaving verdict) (records ++ [t.trailer verdict])
  | ended {t : TurnState} {records : List EmissionRecord} {verdict : TurnVerdict}
      (looped : Looped serde h cfg messages streamId t records (some verdict)) :
      Progress (.ended verdict) (records ++ [t.trailer verdict])

variable {serde h cfg messages streamId}

/-- A turn that is entered has been granted its allowance. -/
theorem Looped.enter (now : ℕ) :
    Looped serde h cfg messages streamId (h.enter streamId now)
      (h.beginStream streamId).2 none :=
  ⟨now, [], rfl, List.append_nil _⟩

/-- **One more pass** of the loop. -/
theorem Looped.pass {t : TurnState} {records : List EmissionRecord}
    (looped : Looped serde h cfg messages streamId t records none) {d : Dial}
    {pass : TurnOutcome} (passes : turnPass cfg serde h messages t d = pass) :
    Looped serde h cfg messages streamId pass.state (records ++ traceRecords pass.out)
      pass.stop := by
  obtain ⟨now, dials, hlooped, rfl⟩ := looped
  have hstop : (turnLoop cfg serde h messages (h.enter streamId now) dials).stop = none :=
    congrArg Outcome.stop hlooped
  have hstate : (turnLoop cfg serde h messages (h.enter streamId now) dials).state = t :=
    congrArg Outcome.state hlooped
  have hrun : turnLoop cfg serde h messages (h.enter streamId now) (dials ++ [d]) =
      pass.after (turnLoop cfg serde h messages (h.enter streamId now) dials).out := by
    rw [turnLoop, run_append, Outcome.andThen_of_running hstop, run_singleton, hstate, passes]
  refine ⟨now, dials ++ [d], ?_, ?_⟩
  · rw [hrun]
    rfl
  · rw [hrun, Outcome.after_out, traceRecords_append, List.append_assoc]

/-- A turn whose loop is left is a call of `execute_turn`, up to its trailer. -/
theorem Looped.closed {t : TurnState} {records : List EmissionRecord}
    {verdict : TurnVerdict}
    (looped : Looped serde h cfg messages streamId t records (some verdict)) :
    ∃ now dials,
      traceRecords (executeTurn cfg serde h messages streamId now dials).trace =
          records ++ [t.trailer verdict] ∧
        (executeTurn cfg serde h messages streamId now dials).verdict =
          some verdict := by
  obtain ⟨now, dials, hlooped, rfl⟩ := looped
  have hrecords := traceRecords_executeTurn cfg serde h messages streamId now dials
  have hstop : (executeTurn cfg serde h messages streamId now dials).verdict =
      some verdict := congrArg Outcome.stop hlooped
  dsimp only at hrecords
  rw [hlooped] at hrecords
  exact ⟨now, dials, hrecords, hstop⟩

/-! ## A step continues its turn -/

/-- An event stream that is accepted after this time. -/
def eventStream (after : ℕ) (body : BodyTrace) : Wire :=
  .response after ⟨200, some "text/event-stream; charset=utf-8", .failed 0, body⟩

theorem eventStream_framed (after : ℕ) (body : BodyTrace) :
    (eventStream after body).framed = some (after, body) := by
  have haccepted : isSuccess 200 ∧
      contains "text/event-stream; charset=utf-8" "text/event-stream" := by
    decide +kernel
  exact if_pos haccepted

/-- An attempt on an event stream leaves what its read loop leaves. -/
theorem tried_eventStream (t : TurnState) (after : ℕ) (body : BodyTrace) :
    t.tried cfg serde messages (eventStream after body) =
        t.begun.left (readLoop cfg serde (t.accepted after) body).state ∧
      attemptEnding cfg serde (eventStream after body) =
        (readLoop cfg serde (t.accepted after) body).ended ∧
      (attemptOf cfg serde messages t.begun (eventStream after body)).records =
        (readLoop cfg serde (t.accepted after) body).records := by
  have hrun : attemptOf cfg serde messages t.begun (eventStream after body) = _ :=
    runAttempt_of_framed cfg serde (eventStream_framed after body) messages t.begun.st
      t.begun.selectPolls t.begun.now
  refine ⟨?_, ?_, ?_⟩
  · rw [TurnState.tried, hrun]
    rfl
  · rw [← attemptOf_ended cfg serde messages t, hrun]
    rfl
  · rw [hrun]
    rfl

/-- A read loop that is left behind these wakeups leaves its attempt. -/
theorem Progress.left {t : TurnState} {records : List EmissionRecord}
    (looped : Looped serde h cfg messages streamId t records none) {available : UInt32}
    (some : 0 < available) {after : ℕ} {body : BodyTrace} {left : LoopEnd}
    (ends : readLoop cfg serde (t.accepted after) body = left) :
    Progress serde h cfg messages streamId
      (.returning (t.begun.left left.state) left.ended)
      (records ++ t.bucketSpent available :: left.records) := by
  obtain ⟨hstate, hended, hrecords⟩ := @tried_eventStream serde cfg messages t after body
  rw [← ends, ← hstate, ← hended, ← hrecords]
  exact .returning looped some _

/-- Behind a request for a bucket. -/
theorem Progress.acquired {t : TurnState} {records : List EmissionRecord}
    (looped : Looped serde h cfg messages streamId t records none) (available : UInt32) :
    let acquired := acquireSendBucket t.begun.st.streamId t.begun.st.attempt available
    Progress serde h cfg messages streamId (.admitted t.begun acquired)
      (records ++ acquired.records) := by
  by_cases hadmitted : 0 < available
  · rw [acquireSendBucket_of_pos hadmitted]
    exact .dialing looped hadmitted
  · -- a dial that finds no bucket is a pass of its own
    have hdenied : ¬(Dial.mk available (.cancelled 0) available).Admitted := hadmitted
    rw [acquireSendBucket_of_not_pos hadmitted]
    exact .closing (looped.pass (turnPass_of_denied hdenied messages t))

/-- Behind a wakeup. -/
theorem Progress.woken {t : TurnState} {records : List EmissionRecord}
    (looped : Looped serde h cfg messages streamId t records none) {available : UInt32}
    (some : 0 < available) {after : ℕ} {wakeups : List Wakeup}
    (running : (run (wakeupStep cfg serde) (t.accepted after) wakeups).stop = none)
    (w : Wakeup) :
    let loop := run (wakeupStep cfg serde) (t.accepted after) wakeups
    let woken := wakeupStep cfg serde loop.state w
    Progress serde h cfg messages streamId (.woken t.begun woken)
      (records ++ t.bucketSpent available :: (loop.out ++ woken.out)) := by
  intro loop woken
  have hrun : run (wakeupStep cfg serde) (t.accepted after) (wakeups ++ [w]) =
      woken.after loop.out := by
    rw [run_append, Outcome.andThen_of_running running, run_singleton]
  cases hstop : woken.stop with
  | none =>
      have hrunning : (run (wakeupStep cfg serde) (t.accepted after) (wakeups ++ [w])).stop =
          none := by rw [hrun]; exact hstop
      have hprogress := Progress.reading looped some hrunning
      rw [hrun] at hprogress
      rw [Stage.woken, hstop]
      exact hprogress
  | some ended =>
      rw [Stage.woken, hstop]
      -- what the body does behind this wakeup makes no difference
      have hends := @readLoop_of_stop cfg serde (t.accepted after)
        ⟨wakeups ++ [w], .closed 0⟩ ended (by rw [hrun]; exact hstop)
      rw [hrun] at hends
      exact Progress.left looped some hends

/-- Behind the wait that leaves the loop. -/
theorem Progress.waited {t : TurnState} {records : List EmissionRecord}
    (looped : Looped serde h cfg messages streamId t records none) {available : UInt32}
    (some : 0 < available) {after : ℕ} {wakeups : List Wakeup}
    (running : (run (wakeupStep cfg serde) (t.accepted after) wakeups).stop = none)
    (last : WaitEnd) :
    let loop := run (wakeupStep cfg serde) (t.accepted after) wakeups
    let left := lastWait cfg serde loop.state last
    Progress serde h cfg messages streamId
      (.returning (t.begun.left left.state) left.ended)
      (records ++ t.bucketSpent available :: (loop.out ++ left.records)) := by
  intro loop left
  have hends := @readLoop_of_running cfg serde (t.accepted after) ⟨wakeups, last⟩ running
  exact Progress.left looped some hends

/-- Behind the return of the bucket. -/
theorem Progress.returned {t : TurnState} {records : List EmissionRecord}
    (looped : Looped serde h cfg messages streamId t records none) {available : UInt32}
    (some : 0 < available) (wire : Wire) (availableAtReturn : UInt32) :
    let tried := t.tried cfg serde messages wire
    Progress serde h cfg messages streamId (.deciding tried (attemptEnding cfg serde wire))
      (records ++ t.bucketSpent available ::
        ((attemptOf cfg serde messages t.begun wire).records ++
          (returnSendBucket tried.st.streamId tried.st.attempt availableAtReturn).records)) := by
  intro tried
  have hprogress := Progress.deciding looped (d := ⟨available, wire, availableAtReturn⟩) some
  have hrecords : traceRecords (dialEvents cfg serde messages t
      ⟨available, wire, availableAtReturn⟩) = t.bucketSpent available ::
        ((attemptOf cfg serde messages t.begun wire).records ++
          (returnSendBucket tried.st.streamId tried.st.attempt availableAtReturn).records) := by
    rw [traceRecords_dialEvents_eq, TurnState.tried_streamId, TurnState.tried_attempt]
    rfl
  rwa [hrecords] at hprogress

/-- Behind the `match` on how the attempt ended. -/
theorem Progress.settled {t : TurnState} {records : List EmissionRecord}
    (looped : Looped serde h cfg messages streamId t records none) {d : Dial}
    (admitted : d.Admitted) :
    let tried := t.tried cfg serde messages d.wire
    let settled := settle h tried.st.streamId tried.st.attempt tried
      (attemptEnding cfg serde d.wire)
    Progress serde h cfg messages streamId (.settled settled)
      (records ++ (traceRecords (dialEvents cfg serde messages t d) ++
        traceRecords settled.out)) := by
  intro tried settled
  have hpass : turnPass cfg serde h messages t d =
      settled.after (dialEvents cfg serde messages t d) := by
    rw [turnPass_of_admitted admitted]
    simp only [settled, tried, TurnState.tried_streamId, TurnState.tried_attempt]
  have hlooped := looped.pass hpass
  rw [Outcome.after_out, traceRecords_append, Outcome.after_state,
    Outcome.after_stop] at hlooped
  cases hstop : settled.stop with
  | none =>
      rw [hstop] at hlooped
      rw [Stage.settled, hstop]
      exact .atLoop hlooped
  | some verdict =>
      rw [hstop] at hlooped
      rw [Stage.settled, hstop]
      exact .closing hlooped

/-- **A step of a task continues its turn.** -/
theorem TaskStep.progress {g g' : Gauges} {p p' : StreamTask} {done events : List EmissionRecord}
    (step : TaskStep serde h g p events g' p')
    (progress : Progress serde h p.cfg p.messages p.streamId p.stage (done ++ p.outbox)) :
    Progress serde h p'.cfg p'.messages p'.streamId p'.stage
      (done ++ events ++ p'.outbox) := by
  cases step with
  | emit outbox =>
      rw [outbox] at progress
      simpa only [StreamTask.to, List.append_assoc, List.singleton_append] using progress
  | enter quiet stage =>
      rw [quiet, stage, List.append_nil] at progress
      cases progress with
      | spawned => exact .entered
  | begin quiet stage now =>
      rw [quiet, stage, List.append_nil] at progress
      cases progress with
      | entered => exact .atLoop (.enter now)
  | acquire quiet stage acquires =>
      subst acquires
      rw [quiet, stage, List.append_nil] at progress
      cases progress with
      | atLoop looped =>
          rw [List.append_nil]
          exact .acquired looped g.buckets
  | @refuse begun quiet stage wire unframed run attempts =>
      subst attempts
      rw [quiet, stage, List.append_nil] at progress
      cases progress with
      | @dialing t _ looped _ some =>
          rw [List.append_nil, List.append_assoc, attemptOf_ended]
          exact .returning looped some wire
  | accept quiet stage after =>
      rw [quiet, stage, List.append_nil] at progress
      cases progress with
      | dialing looped some =>
          rw [List.append_nil, StreamTask.to_outbox, List.append_nil]
          exact @Progress.reading _ _ _ _ _ _ _ looped _ some after [] rfl
  | @wake begun loop quiet stage w sees woken wakes =>
      subst wakes
      rw [quiet, stage, List.append_nil] at progress
      cases progress with
      | reading looped some running =>
          rw [List.append_nil, List.append_assoc]
          exact .woken looped some running w
  | @wait begun loop quiet stage last left leaves =>
      subst leaves
      rw [quiet, stage, List.append_nil] at progress
      cases progress with
      | reading looped some running =>
          rw [List.append_nil, List.append_assoc]
          exact .waited looped some running last
  | giveBack quiet stage returns =>
      subst returns
      rw [quiet, stage, List.append_nil] at progress
      cases progress with
      | returning looped some wire =>
          rw [List.append_nil, List.append_assoc]
          exact .returned looped some wire g.buckets
  | settle quiet stage settles =>
      subst settles
      rw [quiet, stage, List.append_nil] at progress
      cases progress with
      | deciding looped admitted =>
          rw [List.append_nil, List.append_assoc]
          exact .settled looped admitted
  | close quiet stage =>
      rw [quiet, stage, List.append_nil] at progress
      cases progress with
      | closing looped =>
          rw [List.append_nil]
          exact .leaving looped
  | leave quiet stage =>
      rw [quiet, stage, List.append_nil] at progress
      cases progress with
      | leaving looped =>
          rw [List.append_nil, StreamTask.to_outbox, List.append_nil]
          exact .ended looped

/-- The task as it was spawned. -/
def StreamTask.origin (p : StreamTask) : StreamTask := .spawn p.cfg p.messages p.streamId

theorem TaskStep.origin {g g' : Gauges} {p p' : StreamTask} {events : List EmissionRecord}
    (step : TaskStep serde h g p events g' p') : p'.origin = p.origin := by
  cases step <;> rfl

theorem TaskStep.keeps_streamId {g g' : Gauges} {p p' : StreamTask} {events : List EmissionRecord}
    (step : TaskStep serde h g p events g' p') : p'.streamId = p.streamId := by
  cases step <;> rfl

/-- A task that has ended has nothing left to emit. -/
def StreamTask.Quiet (p : StreamTask) : Prop := ∀ verdict, p.stage = .ended verdict → p.outbox = []

theorem TaskStep.quiet {g g' : Gauges} {p p' : StreamTask} {events : List EmissionRecord}
    (step : TaskStep serde h g p events g' p') (quiet : p.Quiet) : p'.Quiet := by
  cases step with
  | emit outbox =>
      intro verdict hstage
      have hnil := quiet verdict hstage
      rw [outbox] at hnil
      cases hnil
  | @acquire t quiet stage acquired acquires =>
      intro verdict hstage
      cases hgranted : acquired.granted <;> simp [StreamTask.to, Stage.admitted, hgranted] at hstage
  | @wake begun loop quiet stage w sees woken wakes =>
      intro verdict hstage
      cases hstop : woken.stop <;> simp [StreamTask.to, Stage.woken, hstop] at hstage
  | @settle t ended quiet stage settled settles =>
      intro verdict hstage
      cases hstop : settled.stop <;> simp [StreamTask.to, Stage.settled, hstop] at hstage
  | leave quiet stage => exact fun _ _ => rfl
  | _ => exact fun _ hstage => nomatch hstage

/-- What the loop of a turn has emitted is a part of a whole turn. -/
theorem Looped.isPrefix {t : TurnState} {records : List EmissionRecord}
    {stop : Option TurnVerdict}
    (looped : Looped serde h cfg messages streamId t records stop) :
    ∃ now dials,
      records <+: traceRecords (executeTurn cfg serde h messages streamId now dials).trace := by
  obtain ⟨now, dials, -, rfl⟩ := looped
  refine ⟨now, dials, ?_⟩
  rw [traceRecords_executeTurn]
  exact List.cons_prefix_cons.mpr ⟨rfl, List.prefix_append _ _⟩

/-- So is what it has emitted of one more attempt. -/
theorem Looped.dialing_isPrefix {t : TurnState} {records more : List EmissionRecord}
    (looped : Looped serde h cfg messages streamId t records none) {d : Dial}
    (admitted : d.Admitted) (part : more <+: traceRecords (dialEvents cfg serde messages t d)) :
    ∃ now dials, records ++ more <+:
      traceRecords (executeTurn cfg serde h messages streamId now dials).trace := by
  have hpass := looped.pass (turnPass_of_admitted (h := h) admitted messages t)
  rw [Outcome.after_out, traceRecords_append] at hpass
  obtain ⟨now, dials, hwhole⟩ := hpass.isPrefix
  refine ⟨now, dials, List.IsPrefix.trans ?_ hwhole⟩
  rw [List.prefix_append_right_inj]
  exact part.trans (List.prefix_append _ _)

/-- **A turn under way is a part of a whole one.** -/
theorem Progress.isPrefix {stage : Stage} {records : List EmissionRecord}
    (progress : Progress serde h cfg messages streamId stage records) :
    ∃ now dials,
      records <+: traceRecords (executeTurn cfg serde h messages streamId now dials).trace := by
  cases progress with
  | spawned => exact ⟨0, [], List.nil_prefix⟩
  | entered => exact ⟨0, [], List.nil_prefix⟩
  | atLoop looped => exact looped.isPrefix
  | @dialing t records looped available some =>
      refine looped.dialing_isPrefix (d := ⟨available, .cancelled 0, 0⟩) some ?_
      rw [traceRecords_dialEvents_eq]
      exact List.cons_prefix_cons.mpr ⟨rfl, List.nil_prefix⟩
  | @reading t records looped available some after wakeups running =>
      refine looped.dialing_isPrefix
        (d := ⟨available, eventStream after ⟨wakeups, .closed 0⟩, 0⟩) some ?_
      have hends := @readLoop_of_running cfg serde (t.accepted after)
        ⟨wakeups, .closed 0⟩ running
      rw [traceRecords_dialEvents_eq, (tried_eventStream t after _).2.2, hends]
      refine List.cons_prefix_cons.mpr ⟨rfl, List.IsPrefix.trans ?_ (List.prefix_append _ _)⟩
      exact List.prefix_append _ _
  | @returning t records looped available some wire =>
      refine looped.dialing_isPrefix (d := ⟨available, wire, 0⟩) some ?_
      rw [traceRecords_dialEvents_eq]
      exact List.cons_prefix_cons.mpr ⟨rfl, List.prefix_append _ _⟩
  | deciding looped admitted => exact looped.dialing_isPrefix admitted (List.prefix_refl _)
  | closing looped => exact looped.isPrefix
  | leaving looped =>
      obtain ⟨now, dials, hrecords, -⟩ := looped.closed
      exact ⟨now, dials, hrecords ▸ List.prefix_refl _⟩
  | ended looped =>
      obtain ⟨now, dials, hrecords, -⟩ := looped.closed
      exact ⟨now, dials, hrecords ▸ List.prefix_refl _⟩

/-- **A turn that has ended is a whole one.** -/
theorem Progress.whole {verdict : TurnVerdict} {records : List EmissionRecord}
    (progress : Progress serde h cfg messages streamId (.ended verdict) records) :
    ∃ now dials,
      traceRecords (executeTurn cfg serde h messages streamId now dials).trace = records ∧
        (executeTurn cfg serde h messages streamId now dials).verdict = some verdict := by
  cases progress with
  | ended looped => exact looped.closed

/-! ## Turns side by side -/

/-- Tasks that were spawned under ids of their own. -/
structure Spawned (tasks : List StreamTask) : Prop where
  fresh : ∀ p ∈ tasks, p = p.origin
  distinct : (tasks.map StreamTask.streamId).Nodup

variable {g : Gauges} {tasks : List StreamTask} {trace : List (ℕ × EmissionRecord)}
variable {c : Config Gauges StreamTask}

/-- **What a task has emitted is its turn**, whatever the others do in between. -/
theorem tasks_progress (spawned : Spawned tasks)
    (runs : Runs (TaskStep serde h) ⟨g, tasks⟩ trace c) {i : ℕ} {p : StreamTask}
    (at_i : c.parties[i]? = some p) :
    Progress serde h p.cfg p.messages p.streamId p.stage (doneBy i trace ++ p.outbox) ∧
      p.Quiet := by
  refine runs.own (I := fun done p => Progress serde h p.cfg p.messages p.streamId p.stage
    (done ++ p.outbox) ∧ p.Quiet) (fun p hp => ?_) (fun _ _ _ _ _ _ hI step => ?_) at_i
  · rw [spawned.fresh p hp]
    exact ⟨.spawned, fun _ hstage => nomatch hstage⟩
  · exact ⟨step.progress hI.1, step.quiet hI.2⟩

/-- What a task has emitted is a part of its turn. -/
theorem doneBy_isPrefix (spawned : Spawned tasks)
    (runs : Runs (TaskStep serde h) ⟨g, tasks⟩ trace c) {i : ℕ} {p : StreamTask}
    (at_i : c.parties[i]? = some p) :
    ∃ now dials, doneBy i trace <+:
      traceRecords (executeTurn p.cfg serde h p.messages p.streamId now dials).trace := by
  obtain ⟨now, dials, hpart⟩ := (tasks_progress spawned runs at_i).1.isPrefix
  exact ⟨now, dials, (List.prefix_append _ _).trans hpart⟩

/-- All that a task emits is under its id. -/
theorem doneBy_stream (spawned : Spawned tasks)
    (runs : Runs (TaskStep serde h) ⟨g, tasks⟩ trace c) {i : ℕ} {p : StreamTask}
    (at_i : c.parties[i]? = some p) :
    ∀ r ∈ doneBy i trace, r.stream? = some p.streamId := by
  intro r hr
  obtain ⟨now, dials, hpart⟩ := doneBy_isPrefix spawned runs at_i
  have hunder := executeTurn_recordsUnder p.cfg serde h p.messages p.streamId now dials
  rw [← hunder] at hpart
  exact of_decide_eq_true (List.mem_filter.mp (hpart.subset hr)).2

/-- No two tasks have the same id. -/
theorem streamId_inj (spawned : Spawned tasks)
    (runs : Runs (TaskStep serde h) ⟨g, tasks⟩ trace c) {i j : ℕ} {p q : StreamTask}
    (at_i : c.parties[i]? = some p) (at_j : c.parties[j]? = some q)
    (same : p.streamId = q.streamId) : i = j := by
  have hids : c.parties.map StreamTask.streamId = tasks.map StreamTask.streamId :=
    runs.unchanged _ fun _ _ _ _ _ step => step.keeps_streamId
  have hi : (c.parties.map StreamTask.streamId)[i]? = some p.streamId := by
    rw [List.getElem?_map, at_i, Option.map_some]
  have hj : (c.parties.map StreamTask.streamId)[j]? = some q.streamId := by
    rw [List.getElem?_map, at_j, Option.map_some]
  obtain ⟨hlt, -⟩ := List.getElem?_eq_some_iff.mp hi
  refine (List.getElem?_inj hlt (hids ▸ spawned.distinct)).mp ?_
  rw [hi, hj, same]

/-- **In the order of the bus**, the records under a task's id are those that it emitted. -/
theorem recordsUnder_trace (spawned : Spawned tasks)
    (runs : Runs (TaskStep serde h) ⟨g, tasks⟩ trace c) {i : ℕ} {p : StreamTask}
    (at_i : c.parties[i]? = some p) :
    recordsUnder p.streamId (trace.map Prod.snd) = doneBy i trace := by
  refine filter_eq_doneBy (fun r hr => ?_) (fun j hj r hr => ?_)
  · exact decide_eq_true (doneBy_stream spawned runs at_i r hr)
  · obtain ⟨q, hq⟩ := runs.place (mem_doneBy.mp hr)
    rw [doneBy_stream spawned runs hq r hr]
    refine decide_eq_false fun hsame => hj ?_
    exact streamId_inj spawned runs hq at_i (Option.some.inj hsame)

/-- What a task that has ended has emitted is its turn. -/
theorem doneBy_whole (spawned : Spawned tasks)
    (runs : Runs (TaskStep serde h) ⟨g, tasks⟩ trace c) {i : ℕ} {p : StreamTask}
    (at_i : c.parties[i]? = some p) {verdict : TurnVerdict} (ended : p.stage = .ended verdict) :
    ∃ now dials,
      traceRecords (executeTurn p.cfg serde h p.messages p.streamId now dials).trace =
          doneBy i trace ∧
        (executeTurn p.cfg serde h p.messages p.streamId now dials).verdict =
          some verdict := by
  obtain ⟨hprogress, hquiet⟩ := tasks_progress spawned runs at_i
  rw [hquiet verdict ended, List.append_nil, ended] at hprogress
  exact hprogress.whole

/-- **Turns side by side are as each alone.**  Any number of turns run on one handler, under
ids of their own, and under every interleaving of their steps.  In the order of the bus, the
records under the id of a turn are a part of what `execute_turn` emits when it is called
alone, on dials that it may meet; once the turn has ended they are all of it, and they
replay to its verdict. -/
theorem turns_isolated (spawned : Spawned tasks)
    (runs : Runs (TaskStep serde h) ⟨g, tasks⟩ trace c) (i : ℕ) (p : StreamTask)
    (at_i : c.parties[i]? = some p) :
    tasks[i]? = some p.origin ∧
      (∃ now dials, recordsUnder p.streamId (trace.map Prod.snd) <+:
        traceRecords (executeTurn p.cfg serde h p.messages p.streamId now dials).trace) ∧
      ∀ verdict, p.stage = .ended verdict →
        (∃ now dials,
          let alone := executeTurn p.cfg serde h p.messages p.streamId now dials
          traceRecords alone.trace = recordsUnder p.streamId (trace.map Prod.snd) ∧
            alone.verdict = some verdict) ∧
          replayTurn serde p.streamId (recordsUnder p.streamId (trace.map Prod.snd)) =
            some verdict := by
  rw [recordsUnder_trace spawned runs at_i]
  refine ⟨?_, doneBy_isPrefix spawned runs at_i, fun verdict hended => ?_⟩
  · have horigins : c.parties.map StreamTask.origin = tasks.map StreamTask.origin :=
      runs.unchanged _ fun _ _ _ _ _ step => step.origin
    have hself : tasks.map StreamTask.origin = tasks :=
      (List.map_congr_left fun q hq => (spawned.fresh q hq).symm).trans (List.map_id _)
    rw [← hself, ← horigins, List.getElem?_map, at_i, Option.map_some]
  · obtain ⟨now, dials, hrecords, hverdict⟩ := doneBy_whole spawned runs at_i hended
    refine ⟨⟨now, dials, hrecords, hverdict⟩, ?_⟩
    rw [← hrecords, executeTurn_replay, hverdict]

/-! ## Two turns side by side -/

/-- Two tasks with a question each. -/
def sideBySide : List StreamTask :=
  [.spawn exampleConfig [⟨"user", "hello"⟩] 1, .spawn exampleConfig [⟨"user", "hello"⟩] 2]

/-- Both attempts are begun before either reads, and their records take turns.  The first
turn commits; the second one has a tick in the middle, and is reset. -/
def sideBySideCues : List (ℕ × Cue) :=
  [(0, .go), (1, .go), (0, .begin 0), (1, .begin 0), (1, .go), (0, .go),
    (1, .go), (1, .go), (0, .go), (0, .go), (1, .accept 0), (0, .accept 0),
    (0, .read 0 0 hiFrame), (1, .read 0 0 hiFrame), (0, .go), (0, .go),
    (1, .go), (1, .go), (1, .go), (0, .go), (0, .go), (0, .go), (1, .go), (1, .go),
    (1, .tick nanosPerSec), (1, .go), (0, .read 0 0 stopFrame),
    (0, .go), (0, .go), (0, .go), (0, .go), (0, .wait (.closed 0)),
    (1, .wait (.transportError 0 "connection reset")), (0, .go), (0, .go), (1, .go),
    (0, .go), (0, .go), (0, .go), (1, .go), (1, .go), (1, .go), (0, .go), (0, .go),
    (1, .go), (1, .go), (0, .go), (1, .go)]

theorem sideBySide_spawned : Spawned sideBySide :=
  ⟨by simp [sideBySide, StreamTask.origin, StreamTask.spawn],
    by simp [sideBySide, StreamTask.spawn]⟩

/-- How the two of them end, and what the tick reported. -/
theorem sideBySide_runs :
    ∃ trace c, Runs (TaskStep replySerde ⟨0, false⟩) ⟨⟨2, 0⟩, sideBySide⟩ trace c ∧
      c.parties =
        [(StreamTask.spawn exampleConfig [⟨"user", "hello"⟩] 1).to
            (.ended (.committed ⟨"hi", "stop", none⟩)) [],
          (StreamTask.spawn exampleConfig [⟨"user", "hello"⟩] 2).to
            (.ended (.failed (.protocol "connection reset"))) []] ∧
      (1, .scheduler 2 1 (.contentThroughput 0 2)) ∈ trace ∧ trace.length = 26 := by
  have hplayed : ∃ played ∈ play (StreamTask.fire replySerde ⟨0, false⟩)
      ⟨⟨2, 0⟩, sideBySide⟩ [] sideBySideCues, played.2.parties =
        [(StreamTask.spawn exampleConfig [⟨"user", "hello"⟩] 1).to
            (.ended (.committed ⟨"hi", "stop", none⟩)) [],
          (StreamTask.spawn exampleConfig [⟨"user", "hello"⟩] 2).to
            (.ended (.failed (.protocol "connection reset"))) []] ∧
      (1, .scheduler 2 1 (.contentThroughput 0 2)) ∈ played.1 ∧ played.1.length = 26 := by
    decide +kernel
  obtain ⟨⟨trace, c⟩, hplay, hfacts⟩ := hplayed
  exact ⟨trace, c, play_runs StreamTask.fire_step .refl hplay, hfacts⟩

/-- What each of them has emitted replays to its own verdict. -/
theorem turns_isolated_sideBySide :
    ∃ trace c, Runs (TaskStep replySerde ⟨0, false⟩) ⟨⟨2, 0⟩, sideBySide⟩ trace c ∧
      replayTurn replySerde 1 (recordsUnder 1 (trace.map Prod.snd)) =
        some (.committed ⟨"hi", "stop", none⟩) ∧
      replayTurn replySerde 2 (recordsUnder 2 (trace.map Prod.snd)) =
        some (.failed (.protocol "connection reset")) := by
  obtain ⟨trace, c, hruns, hparties, -⟩ := sideBySide_runs
  refine ⟨trace, c, hruns, ?_, ?_⟩
  · have hfirst := turns_isolated sideBySide_spawned hruns 0 _ (by rw [hparties]; rfl)
    exact (hfirst.2.2 _ rfl).2
  · have hsecond := turns_isolated sideBySide_spawned hruns 1 _ (by rw [hparties]; rfl)
    exact (hsecond.2.2 _ rfl).2

end RarChat
