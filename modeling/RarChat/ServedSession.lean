import RarChat.Reply
import RarChat.Session
import RarChat.TerminalSink

/-!
# A session is a conversation

What the program is for.  A conversation with a server needs no network: a line is put
behind what was said so far, the server is asked for a reply to that, and the reply is put
behind it (`converse`).

A session is that conversation when the endpoint is such a server: whenever it is sent a
request, it reads the JSON of the body, and writes the reply to it as an event stream, which
arrives in whatever pieces and in time (`Answers`), and when the handler has a bucket.  Then
the requests it reads are those of the conversation, `main` remembers the same, and the
screen shows the replies (`session_converses`).
-/

namespace RarChat

open EarlyExit

/-! ## A conversation -/

/-- What is remembered, and what the server was asked. -/
structure Talk where
  history : List Message
  requests : List ChatRequest
deriving DecidableEq, Repr

variable (cfg : OpenAiConfig) (serve : ChatRequest → Reply)

/-- What a reply says in all. -/
def Reply.content (r : Reply) : String := String.join r.texts

/-- **The conversation** that the lines lead to. -/
def converse : List Message → List String → Talk
  | history, [] => ⟨history, []⟩
  | history, line :: lines =>
      if trim line = "" then converse history lines
      else if trim line = "/quit" ∨ trim line = "/exit" then ⟨history, []⟩
      else if trim line = "/reset" then
        converse (history.filter fun m => m.role = "system") lines
      else
        let asked := history ++ [⟨"user", trim line⟩]
        let request := (cfg.post asked).json
        let talk := converse (asked ++ [⟨"assistant", (serve request).content⟩]) lines
        { talk with requests := request :: talk.requests }

/-! ## The server -/

variable (serde : SerdeJson) (write : Json → Except String String) (read : String → Option Json)

/-- **The server answers a request**: it reads the body that it was sent, and the wire delivers
frames that write its reply.  So the response is accepted as an event stream, no tick finds
it starved, no read leaves more than the buffer holds, and the peer closes in the end. -/
def Answers (post : Post) (begun : TurnState) (wire : Wire) : Prop :=
  ∃ text request frames, write post.json.toJson = .ok text ∧
    (read text).bind ChatRequest.ofJson = some request ∧
    Writes serde (serve request) frames ∧
    Delivers cfg serde begun.st begun.selectPolls begun.now wire (frames.flatMap Frame.bytes)

/-- Every request of these turns is answered. -/
def Served (events : List MainEvent) : Prop :=
  ∀ cfg turn begun wire run, .turn cfg turn ∈ events → .attempt begun wire run ∈ turn.trace →
    Answers cfg serve serde write read run.post begun wire

variable {cfg serve serde write read}

theorem Served.left {xs ys : List MainEvent} (served : Served serve serde write read (xs ++ ys)) :
    Served serve serde write read xs :=
  fun cfg turn begun wire run mem => served cfg turn begun wire run (List.mem_append_left _ mem)

theorem Served.right {xs ys : List MainEvent}
    (served : Served serve serde write read (xs ++ ys)) : Served serve serde write read ys :=
  fun cfg turn begun wire run mem => served cfg turn begun wire run (List.mem_append_right _ mem)

/-- The sentinel brings no text. -/
theorem textOf_filter_done (events : List DriverEvent) :
    textOf (events.filter (· ≠ .done)) = textOf events := by
  rw [textOf, textOf, List.filterMap_filter]
  refine congrArg String.join (List.filterMap_congr fun event _ => ?_)
  cases event <;> rfl

theorem Reply.textOf_events (r : Reply) : textOf (r.chunks.flatMap Said.events) = r.content := by
  have htokens : (r.tokens.toList.map fun u => DriverEvent.usage u.1 u.2.1 u.2.2).filterMap
      DriverEvent.text? = [] := by
    cases r.tokens <;> rfl
  have htexts : ((r.texts.filter (· ≠ "")).map DriverEvent.textDelta).filterMap
      DriverEvent.text? = r.texts.filter (· ≠ "") := by
    rw [List.filterMap_map]
    exact List.filterMap_some
  rw [r.events_eq, textOf, List.filterMap_append, htexts, List.filterMap_cons_none rfl, htokens,
    List.append_nil, join_filter_ne_empty, content]

/-- **An attempt that is answered** commits the reply to its own request. -/
theorem Answers.committed (agree : WritesLines write read) {messages : List Message}
    {begun : TurnState} {wire : Wire} (fresh : begun.st.machine = .new)
    (answers : Answers cfg serve serde write read (cfg.post messages) begun wire) :
    let reply := serve (cfg.post messages).json
    let run := attemptOf cfg serde messages begun wire
    run.ended = .complete (.committed reply.outcome) ∧ screen run.records = reply.content ∧
      ∀ rec ∈ run.records, ¬rec.Troubled := by
  intro reply run
  obtain ⟨text, request, frames, hwrite, hread, hwrites, hdelivers⟩ := answers
  obtain ⟨text', hwrite', -, hread'⟩ := agree _ (cfg.post messages).json.toJson_plain
  obtain rfl : text = text' := Except.ok.inj (hwrite.symm.trans hwrite')
  obtain rfl : (cfg.post messages).json = request := by
    rw [hread', Option.bind_some, ChatRequest.ofJson_toJson] at hread
    exact Option.some.inj hread
  obtain ⟨hended, hevents, hcalm⟩ := runAttempt_of_writes fresh hdelivers hwrites messages
  refine ⟨hended, ?_, hcalm⟩
  rw [screen_eq, ← textOf_filter_done]
  exact (congrArg textOf hevents).trans (Reply.textOf_events _)

/-! ## A turn -/

/-- The first attempt of a turn that is admitted. -/
theorem first_attempt_mem {h : EventHandler} {messages : List Message}
    {streamId : StreamId} {now : ℕ} {d : Dial} (admitted : d.Admitted) (rest : List Dial) :
    .attempt (h.enter streamId now).begun d.wire
        (attemptOf cfg serde messages (h.enter streamId now).begun d.wire) ∈
      (executeTurn cfg serde h messages streamId now (d :: rest)).trace := by
  have hdial : .attempt (h.enter streamId now).begun d.wire
      (attemptOf cfg serde messages (h.enter streamId now).begun d.wire) ∈
        dialEvents cfg serde messages (h.enter streamId now) d :=
    attempt_mem_dialEvents.mpr ⟨rfl, rfl, rfl⟩
  rw [attempt_mem_executeTurn]
  by_cases hretry : d.Faulting cfg serde ∧ 0 < (h.enter streamId now).remainingAllowance
  · rw [turnLoop_of_retry admitted hretry.1 hretry.2, Outcome.after_out]
    exact List.mem_append_left _ (List.mem_append_left _ hdial)
  · rw [turnLoop_of_settled admitted fun hf hleft => hretry ⟨hf, hleft⟩]
    exact hdial

/-- **A turn whose requests are answered** makes one request, and commits the reply to it. -/
theorem executeTurn_answered (agree : WritesLines write read) {h : EventHandler}
    {messages : List Message} {streamId : StreamId} {now : ℕ} {d : Dial} {rest : List Dial}
    (admitted : d.Admitted)
    (answered : ∀ begun wire run,
      .attempt begun wire run ∈ (executeTurn cfg serde h messages streamId now (d :: rest)).trace →
        Answers cfg serve serde write read run.post begun wire) :
    let reply := serve (cfg.post messages).json
    let turn := executeTurn cfg serde h messages streamId now (d :: rest)
    turn.verdict = some (.committed reply.outcome) ∧
      turn.trace.filterMap TurnEvent.post? = [cfg.post messages] ∧
        screen (traceRecords turn.trace) = reply.content ∧
          ∀ rec ∈ traceRecords turn.trace, ¬rec.Troubled := by
  intro reply turn
  have hanswers := answered _ _ _ (first_attempt_mem admitted rest)
  have hpost : (attemptOf cfg serde messages (h.enter streamId now).begun d.wire).post =
      cfg.post messages := runAttempt_post serde cfg messages _ _ _ d.wire
  rw [hpost] at hanswers
  obtain ⟨hended, hscreen, hcalm⟩ := hanswers.committed agree (h.enter streamId now).begun_fresh
  have hending : attemptEnding cfg serde d.wire = .complete (.committed reply.outcome) := by
    rw [← attemptOf_ended cfg serde messages (h.enter streamId now)]
    exact hended
  have hloop : turnLoop cfg serde h messages (h.enter streamId now) (d :: rest) =
      ⟨(h.enter streamId now).tried cfg serde messages d.wire,
        dialEvents cfg serde messages (h.enter streamId now) d,
        some (.committed reply.outcome)⟩ := by
    rw [turnLoop_of_settled admitted fun hfaulting =>
      absurd hfaulting (not_faulting_of_committed hending), hending]
    rfl
  obtain ⟨trailer, htrailer, htrace⟩ : ∃ trailer : TurnState, turn.verdict =
        some (.committed reply.outcome) ∧
      turn.trace = .emitted (.ledger streamId 0
          (.retryAllowanceGranted h.retryAllowancePerTurn)) ::
        (dialEvents cfg serde messages (h.enter streamId now) d ++
          [.emitted (trailer.trailer (.committed reply.outcome))]) := by
    refine ⟨(h.enter streamId now).tried cfg serde messages d.wire, ?_, ?_⟩
    · exact congrArg Outcome.stop hloop
    · show (executeTurn cfg serde h messages streamId now (d :: rest)).trace = _
      simp only [executeTurn, hloop]
      rfl
  have hrecords : traceRecords turn.trace =
      [.ledger streamId 0 (.retryAllowanceGranted h.retryAllowancePerTurn),
          .ledger streamId 1 (.sendBucketSpent (d.available - 1))] ++
        ((attemptOf cfg serde messages (h.enter streamId now).begun d.wire).records ++
          [.ledger streamId 1 (.sendBucketReturned (d.availableAtReturn + 1)),
            trailer.trailer (.committed reply.outcome)]) := by
    rw [htrace]
    simp [traceRecords, dialEvents, TurnEvent.records]
    exact ⟨rfl, rfl⟩
  refine ⟨htrailer, ?_, ?_, ?_⟩
  · rw [htrace]
    simp only [dialEvents, List.filterMap_cons, List.cons_append, List.nil_append,
      List.filterMap_nil, TurnEvent.post?, hpost]
  · rw [hrecords, screen_append, screen_append, hscreen]
    exact String.empty_append.trans String.append_empty
  · rw [hrecords]
    simp only [List.forall_mem_append, List.forall_mem_cons, List.not_mem_nil, false_implies,
      implies_true, and_true]
    exact ⟨⟨id, id⟩, hcalm, id, id⟩

/-! ## A session -/

/-- **A part of a session is a part of the conversation**, and nothing went wrong in it. -/
structure Converses (serve : ChatRequest → Reply) (o : MainOutcome) (talk : Talk) : Prop where
  history : o.state.history = talk.history
  requests : (o.out.flatMap MainEvent.posts).map Post.json = talk.requests
  screen : screen (sessionRecords o.out) =
    String.join (talk.requests.map fun request => (serve request).content)
  calm : ∀ rec ∈ sessionRecords o.out, ¬rec.Troubled

theorem Converses.after {xs : List MainEvent} {o : MainOutcome} {talk : Talk}
    {requests : List ChatRequest} (behind : Converses serve o talk)
    (asked : (xs.flatMap MainEvent.posts).map Post.json = requests)
    (shown : RarChat.screen (sessionRecords xs) =
      String.join (requests.map fun request => (serve request).content))
    (quiet : ∀ rec ∈ sessionRecords xs, ¬rec.Troubled) :
    Converses serve (o.after xs) { talk with requests := requests ++ talk.requests } := by
  refine ⟨behind.history, ?_, ?_, ?_⟩
  · rw [Outcome.after_out, List.flatMap_append, List.map_append, asked, behind.requests]
  · rw [Outcome.after_out, sessionRecords_append, screen_append, shown, behind.screen,
      List.map_append, String.join_append]
  · rw [Outcome.after_out, sessionRecords_append]
    exact List.forall_mem_append.mpr ⟨quiet, behind.calm⟩

variable {env : MainEnv}

/-- A turn of `main` that is answered. -/
theorem issue_answered (agree : WritesLines write read) (buckets : 0 < env.sendBuckets)
    (s : MainState) (wire : Wire) (wires : List Wire)
    (served : ∀ begun wire' run,
      .attempt begun wire' run ∈ (issue serde env cfg s (wire :: wires)).trace →
        Answers cfg serve serde write read run.post begun wire') :
    (issue serde env cfg s (wire :: wires)).verdict =
        some (.committed (serve (cfg.post s.history).json).outcome) ∧
      (issue serde env cfg s (wire :: wires)).trace.filterMap TurnEvent.post? =
          [cfg.post s.history] ∧
        screen (traceRecords (issue serde env cfg s (wire :: wires)).trace) =
            (serve (cfg.post s.history).json).content ∧
          ∀ rec ∈ traceRecords (issue serde env cfg s (wire :: wires)).trace, ¬rec.Troubled :=
  executeTurn_answered agree (d := ⟨env.sendBuckets, wire, _⟩) buckets served

/-- **A message is answered**: it is one more request, and its reply is remembered. -/
theorem userTurn_answered (agree : WritesLines write read) (buckets : 0 < env.sendBuckets)
    (s : MainState) (primary failover : List Wire)
    (served : Served serve serde write read (userTurn serde env s primary failover).out)
    (finished : (userTurn serde env s primary failover).stop ≠ some .awaiting) :
    let request := (env.primary.post s.history).json
    (userTurn serde env s primary failover).stop = none ∧
      Converses serve (userTurn serde env s primary failover)
        ⟨s.history ++ [⟨"assistant", (serve request).content⟩], [request]⟩ := by
  intro request
  cases primary with
  | nil => exact absurd rfl finished
  | cons wire wires =>
      obtain ⟨hverdict, hposts, hscreen, hcalm⟩ := issue_answered agree buckets s wire wires
        fun begun wire' run => served env.primary _ begun wire' run
          (List.mem_append_left _ (List.mem_singleton.mpr rfl))
      have hturn : userTurn serde env s (wire :: wires) failover =
          ⟨{ (s.issued (issue serde env env.primary s (wire :: wires))) with
              history := s.history ++ [⟨"assistant", (serve request).content⟩] },
            [.turn env.primary (issue serde env env.primary s (wire :: wires))], none⟩ := by
        simp only [userTurn, hverdict]
        rfl
      have hone : sessionRecords
          [.turn env.primary (issue serde env env.primary s (wire :: wires))] =
            traceRecords (issue serde env env.primary s (wire :: wires)).trace :=
        List.append_nil _
      rw [hturn]
      refine ⟨rfl, rfl, ?_, ?_, ?_⟩
      · rw [List.flatMap_singleton, MainEvent.posts, hposts]
        rfl
      · rw [hone, hscreen]
        exact String.empty_append.symm
      · rw [hone]
        exact hcalm

/-- **From any state on**, the rest of the session is the rest of the conversation. -/
theorem run_mainStep_converses (agree : WritesLines write read) (buckets : 0 < env.sendBuckets)
    (s : MainState) (lines : List UserInput)
    (served : Served serve serde write read (run (mainStep serde env) s lines).out)
    (finished : (run (mainStep serde env) s lines).stop ≠ some .awaiting) :
    Converses serve (run (mainStep serde env) s lines)
      (converse env.primary serve s.history (lines.map UserInput.line)) := by
  induction lines generalizing s with
  | nil => exact ⟨rfl, rfl, rfl, by simp [sessionRecords]⟩
  | cons input lines ih =>
      rw [List.map_cons, converse]
      by_cases hempty : trim input.line = ""
      · have hpass : mainStep serde env s input = ⟨s, [], none⟩ := by
          simp only [mainStep, hempty, if_true]
        rw [run, hpass, Outcome.andThen_of_running rfl] at served finished ⊢
        rw [if_pos hempty]
        exact (ih s served finished).after rfl rfl (by simp [sessionRecords])
      rw [if_neg hempty]
      by_cases hquit : trim input.line = "/quit" ∨ trim input.line = "/exit"
      · have hpass : mainStep serde env s input = ⟨s, [], some .quit⟩ := by
          simp only [mainStep, if_neg hempty, if_pos hquit]
        rw [run, hpass, Outcome.andThen_of_stop rfl, if_pos hquit]
        exact ⟨rfl, rfl, rfl, by simp [sessionRecords]⟩
      rw [if_neg hquit]
      by_cases hreset : trim input.line = "/reset"
      · have hpass : mainStep serde env s input =
            ⟨{ s with history := s.history.filter fun m => m.role = "system" },
              [.stderr "(history cleared)"], none⟩ := by
          simp only [mainStep, if_neg hempty, if_neg hquit, if_pos hreset]
        rw [run, hpass, Outcome.andThen_of_running rfl] at served finished ⊢
        rw [if_pos hreset]
        exact (ih _ served.right finished).after rfl rfl (by simp [sessionRecords, MainEvent.records])
      rw [if_neg hreset]
      obtain ⟨asked, hasked, hpass⟩ : ∃ asked : MainState,
          asked.history = s.history ++ [⟨"user", trim input.line⟩] ∧
            mainStep serde env s input =
              userTurn serde env asked input.primary input.failover := by
        refine ⟨{ s with history := s.history ++ [⟨"user", trim input.line⟩] }, rfl, ?_⟩
        simp only [mainStep, if_neg hempty, if_neg hquit, if_neg hreset]
      rw [run, hpass] at served finished ⊢
      rw [← hasked]
      cases hstop : (userTurn serde env asked input.primary input.failover).stop with
      | some e =>
          rw [Outcome.andThen_of_stop hstop] at served finished
          obtain ⟨hnone, -⟩ := userTurn_answered agree buckets asked _ _ served finished
          rw [hstop] at hnone
          cases hnone
      | none =>
          rw [Outcome.andThen_of_running hstop] at served finished ⊢
          obtain ⟨-, hturn⟩ := userTurn_answered agree buckets asked _ _ served.left
            (by rw [hstop]; simp)
          have hrest := ih _ served.right finished
          rw [hturn.history] at hrest
          exact hrest.after hturn.requests hturn.screen hturn.calm

/-- Reads and writes compact JSON. -/
def compactSerde : SerdeJson where
  fromStr := readCompact
  chunkError _ := "expected value at line 1 column 1"
  display := compactJson

def echo (request : ChatRequest) : Reply :=
  ⟨[(request.messages.getLast?.map Message.content).getD ""], "stop", none⟩

/-- The chunks of a server that says no more than it has to. -/
def plainEnvelope : Envelope where
  chunk := []
  choice := []
  delta := []
  nullUsage := false
  chunkForeign := nofun
  choiceForeign := nofun
  deltaForeign := nofun

/-- A text that is written on a line. -/
def lineFrame (text : String) (noLf : '\n' ∉ text.toList) (noCr : '\r' ∉ text.toList) : Frame where
  lines := [⟨"data: ".toList ++ text.toList, by simp, by simp [noLf], by simp [noCr]⟩]
  nonempty := by simp
  eol := .lf

/-- The reply to a message, with a comment in front and the sentinel behind it. -/
def echoFrames : List Frame :=
  [⟨[⟨": wait".toList, by decide, by decide, by decide⟩], by simp, .crlf⟩,
    lineFrame (compactJson (plainEnvelope.toJson (.text "hi"))) (by decide +kernel)
      (by decide +kernel),
    lineFrame (compactJson (plainEnvelope.toJson (.reason "stop"))) (by decide +kernel)
      (by decide +kernel),
    lineFrame "[DONE]" (by decide) (by decide)]

/-- Two reads, cut inside a frame. -/
def echoWire : Wire :=
  let body := echoFrames.flatMap Frame.bytes
  streamOf [body.take 40, body.drop 40]

/-- Their values have no numbers at all. -/
theorem plain_choices {delta : List (String × Json)} {finishReason : Json}
    (content : ∀ f ∈ delta, f.2.Plain) (reason : finishReason.Plain) :
    (plainEnvelope.choices delta finishReason).Plain := by
  refine .array (List.forall_mem_singleton.mpr (.object ?_))
  exact List.forall_mem_cons.mpr ⟨.object content, List.forall_mem_singleton.mpr reason⟩

/-- What they are written as is read back. -/
theorem spells_plain {said : Said} (plain : (plainEnvelope.toJson said).Plain)
    (chunk : trim (compactJson (plainEnvelope.toJson said)) ≠ "[DONE]") :
    Spells compactSerde (compactJson (plainEnvelope.toJson said)) said :=
  ⟨chunk, plainEnvelope, readCompact_compact plain⟩

theorem echoFrames_write : Writes compactSerde ⟨["hi"], "stop", none⟩ echoFrames := by
  have htext : (plainEnvelope.toJson (.text "hi")).Plain :=
    .object (List.forall_mem_singleton.mpr
      (plain_choices (List.forall_mem_singleton.mpr (.string _)) .null))
  have hreason : (plainEnvelope.toJson (.reason "stop")).Plain :=
    .object (List.forall_mem_singleton.mpr (plain_choices nofun (.string _)))
  have hopens : ∀ f ∈ echoFrames, f.payload ≠ none → f.text.head? ≠ some ':' := by
    decide +kernel
  refine ⟨fun f hf hdata => f.opens_iff.mpr (hopens f hf hdata), _, ["[DONE]"], ?_,
    .cons (spells_plain htext ?_) (.cons (spells_plain hreason ?_) .nil), ?_⟩
  all_goals decide +kernel

def TurnEvent.call? : TurnEvent → Option (Post × TurnState × Wire)
  | .attempt begun wire run => some (run.post, begun, wire)
  | .emitted _ => none

/-- The calls of `run_attempt` in a session, with the endpoint. -/
def MainEvent.calls : MainEvent → List (OpenAiConfig × Post × TurnState × Wire)
  | .turn cfg run => (run.trace.filterMap TurnEvent.call?).map fun call => (cfg, call)
  | .stderr _ => []

/-- A session of one message: there is one request, and the lines run out. -/
theorem echo_session :
    let session := mainLoop compactSerde singleEnv [⟨"hi", [echoWire], []⟩]
    session.out.flatMap MainEvent.calls = [(exampleConfig,
        exampleConfig.post [⟨"user", "hi"⟩], (singleEnv.handler.enter 1 0).begun, echoWire)] ∧
      session.stop = none := by
  decide +kernel

theorem served_echo :
    Served echo compactSerde (fun j => .ok (compactJson j)) readCompact
      (mainLoop compactSerde singleEnv [⟨"hi", [echoWire], []⟩]).out := by
  have hdelivers : Delivers exampleConfig compactSerde (singleEnv.handler.enter 1 0).begun.st 0 0
      echoWire (echoFrames.flatMap Frame.bytes) :=
    ⟨0, _, 0, streamOf_framed _, by decide +kernel, by decide +kernel⟩
  intro cfg turn begun wire run hturn hattempt
  have hmem : (cfg, run.post, begun, wire) ∈ (mainLoop compactSerde singleEnv
      [⟨"hi", [echoWire], []⟩]).out.flatMap MainEvent.calls :=
    List.mem_flatMap.mpr ⟨_, hturn, List.mem_map_of_mem
      (List.mem_filterMap.mpr ⟨_, hattempt, rfl⟩)⟩
  rw [echo_session.1, List.mem_singleton] at hmem
  obtain ⟨rfl, hrest⟩ := Prod.mk.inj hmem
  obtain ⟨hpost, hrest⟩ := Prod.mk.inj hrest
  obtain ⟨rfl, rfl⟩ := Prod.mk.inj hrest
  rw [hpost]
  refine ⟨_, (exampleConfig.post [⟨"user", "hi"⟩]).json, echoFrames, rfl, ?_, echoFrames_write,
    hdelivers⟩
  rw [readCompact_compact (ChatRequest.toJson_plain _), Option.bind_some,
    ChatRequest.ofJson_toJson]

end RarChat
