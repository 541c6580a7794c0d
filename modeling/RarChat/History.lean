import RarChat.Bookkeeping
import RarChat.MainLoop

/-!
# The conversation

What the history of `main` stands for: the system prompt, and the exchanges that were
committed since the last reset (`Conversation`).  The user message is pushed before its
turn is issued and popped again when the turn fails, so the history is the conversation
whenever a line is read, and every turn is issued with it and the message that was typed,
on both endpoints (`mainLoop_transactional`).
-/

namespace RarChat

open EarlyExit

/-! ## What is said -/

/-- A user message and the reply that was committed to it. -/
structure Exchange where
  asked : String
  replied : String
deriving DecidableEq, Repr

def Exchange.messages (x : Exchange) : List Message :=
  [⟨"user", x.asked⟩, ⟨"assistant", x.replied⟩]

/-- **A conversation**: the system prompt, and what was exchanged since the last reset. -/
structure Conversation where
  system : Option String
  exchanges : List Exchange
deriving DecidableEq, Repr

/-- The reply a turn commits. -/
def TurnVerdict.reply? : TurnVerdict → Option String
  | .committed outcome => some outcome.content
  | _ => none

/-- The reply a turn committed. -/
def MainEvent.reply? : MainEvent → Option String
  | .turn _ run => run.verdict.bind TurnVerdict.reply?
  | .stderr _ => none

namespace Conversation

def messages (c : Conversation) : List Message :=
  c.system.toList.map (fun sys => ⟨"system", sys⟩) ++
    c.exchanges.flatMap Exchange.messages

/-- The messages of a turn on a new user message. -/
def asking (c : Conversation) (line : String) : List Message :=
  c.messages ++ [⟨"user", line⟩]

def reset (c : Conversation) : Conversation := { c with exchanges := [] }

/-- The replies that were committed to a message. -/
def exchanged (c : Conversation) (line : String) (replies : List String) : Conversation :=
  { c with exchanges := c.exchanges ++ replies.map fun reply => ⟨line, reply⟩ }

/-- What becomes of the conversation with a line and the events of its pass. -/
def hear (c : Conversation) (line : String) (events : List MainEvent) : Conversation :=
  if line = "/reset" then c.reset else c.exchanged line (events.filterMap MainEvent.reply?)

@[simp] theorem exchanged_nil (c : Conversation) (line : String) :
    c.exchanged line [] = c := by
  simp only [exchanged, List.map_nil, List.append_nil]

/-- A committed reply is pushed behind the user message. -/
theorem exchanged_messages (c : Conversation) (line reply : String) :
    (c.exchanged line [reply]).messages = c.asking line ++ [⟨"assistant", reply⟩] := by
  simp only [exchanged, messages, asking, List.map_cons, List.map_nil, List.flatMap_append,
    List.flatMap_cons, List.flatMap_nil, Exchange.messages, List.append_assoc,
    List.cons_append, List.nil_append]

/-- The pop takes back the user message. -/
theorem asking_dropLast (c : Conversation) (line : String) :
    (c.asking line).dropLast = c.messages := by
  rw [asking, List.dropLast_concat]

/-- What `/reset` retains are the messages of the conversation that was reset. -/
theorem messages_retain (c : Conversation) :
    c.messages.filter (fun m => m.role = "system") = c.reset.messages := by
  have hexchanges : (c.exchanges.flatMap Exchange.messages).filter
      (fun m => m.role = "system") = [] := by
    rw [List.filter_eq_nil_iff]
    intro m hm
    obtain ⟨x, -, hx⟩ := List.mem_flatMap.mp hm
    rcases List.mem_pair.mp hx with rfl | rfl <;> simp
  have hsystem : (c.system.toList.map fun sys => (⟨"system", sys⟩ : Message)).filter
      (fun m => m.role = "system") = c.system.toList.map fun sys => ⟨"system", sys⟩ := by
    rw [List.filter_eq_self]
    intro m hm
    obtain ⟨sys, -, rfl⟩ := List.mem_map.mp hm
    rfl
  rw [messages, List.filter_append, hexchanges, hsystem]
  rfl

end Conversation

variable (serde : SerdeJson) (env : MainEnv)

/-- The conversation that `main` starts with. -/
def MainEnv.conversation (env : MainEnv) : Conversation := ⟨env.primary.systemPrompt, []⟩

/-- The conversation behind lines that were read in state `s`. -/
def Conversation.behind (c : Conversation) (s : MainState) (lines : List UserInput) :
    Conversation :=
  (gather (mainStep serde env) (fun s input =>
    [(trim input.line, (mainStep serde env s input).out)]) s lines).foldl
      (fun c pass => c.hear pass.1 pass.2) c

theorem Conversation.behind_cons_of_running (c : Conversation) {s : MainState}
    {input : UserInput} (goes : (mainStep serde env s input).stop = none)
    (rest : List UserInput) :
    c.behind serde env s (input :: rest) =
      (c.hear (trim input.line) (mainStep serde env s input).out).behind serde env
        (mainStep serde env s input).state rest := by
  unfold Conversation.behind
  rw [gather_cons_of_running _ _ goes, List.foldl_append, List.foldl_cons, List.foldl_nil]

/-! ## Turns and their messages -/

theorem runAttempt_post (cfg : OpenAiConfig) (messages : List Message) (st : StreamState)
    (selectPolls now : ℕ) (wire : Wire) :
    (runAttempt cfg serde messages st selectPolls now wire).post = cfg.post messages := by
  cases hframed : wire.framed with
  | none =>
      obtain ⟨instant, cause, hrun⟩ :=
        runAttempt_of_unframed cfg serde hframed messages st selectPolls now
      rw [hrun]
      rfl
  | some framed => rw [runAttempt_of_framed cfg serde hframed]

/-- **The turn is issued with these messages**: they are what `execute_turn` is called
with, and what each of its attempts posts. -/
structure IssuedWith (cfg : OpenAiConfig) (messages : List Message) (turn : TurnRun) :
    Prop where
  call : ∃ s : MainState, ∃ wires, s.history = messages ∧ turn = issue serde env cfg s wires
  posts : ∀ begun wire attempted, .attempt begun wire attempted ∈ turn.trace →
    attempted.post = cfg.post messages

/-- **A pass is a transaction** on the conversation: it issues turns with it and the line,
and leaves it behind with what was committed. -/
structure Transacts (c : Conversation) (line : String) (pass : MainOutcome) : Prop where
  issued : ∀ cfg turn, .turn cfg turn ∈ pass.out →
    IssuedWith serde env cfg (c.asking line) turn
  kept : pass.stop = none →
    pass.state.history = (c.exchanged line (pass.out.filterMap MainEvent.reply?)).messages

variable {serde env}

theorem issuedWith_issue {s : MainState} {messages : List Message}
    (history : s.history = messages) (cfg : OpenAiConfig) (wires : List Wire) :
    IssuedWith serde env cfg messages (issue serde env cfg s wires) := by
  refine ⟨⟨s, wires, history, rfl⟩, fun begun wire attempted mem => ?_⟩
  obtain ⟨before, rfl, rfl⟩ := turnLoop_attempt (attempt_mem_executeTurn.mp mem)
  rw [attemptOf, runAttempt_post, history]

/-! ## One pass -/

variable {c : Conversation} {line : String}

/-- What is in front of a transaction may issue turns that commit nothing. -/
theorem Transacts.after {pass : MainOutcome} (h : Transacts serde env c line pass)
    {earlier : List MainEvent} (issued : ∀ cfg turn, .turn cfg turn ∈ earlier →
      IssuedWith serde env cfg (c.asking line) turn)
    (unanswered : earlier.filterMap MainEvent.reply? = []) :
    Transacts serde env c line (pass.after earlier) where
  issued := by
    intro cfg turn mem
    rcases List.mem_append.mp mem with mem | mem
    · exact issued cfg turn mem
    · exact h.issued cfg turn mem
  kept := by
    intro running
    rw [Outcome.after_out, List.filterMap_append, unanswered]
    exact h.kept running

/-- The last `match` commits the reply, or pops the user message. -/
theorem conclude_kept {s : MainState} (history : s.history = c.asking line)
    (verdict : TurnVerdict) :
    (∀ cfg turn, .turn cfg turn ∉ (conclude s verdict).out) ∧
      ((conclude s verdict).stop = none → (conclude s verdict).state.history =
        (c.exchanged line verdict.reply?.toList).messages) := by
  cases verdict with
  | committed outcome =>
      refine ⟨fun _ _ => List.not_mem_nil, fun _ => ?_⟩
      simp only [conclude, TurnVerdict.reply?, Option.toList_some, c.exchanged_messages,
        history]
  | failed fault =>
      refine ⟨by simp [conclude], fun _ => ?_⟩
      simp only [conclude, TurnVerdict.reply?, Option.toList_none, c.exchanged_nil, history,
        c.asking_dropLast]
  | failover attempts => exact ⟨fun _ _ => List.not_mem_nil, fun h => by cases h⟩

/-- Without a turn in it, a pass reports no reply. -/
theorem replies_eq_nil {events : List MainEvent}
    (idle : ∀ cfg turn, .turn cfg turn ∉ events) :
    events.filterMap MainEvent.reply? = [] := by
  rw [List.filterMap_eq_nil_iff]
  intro e he
  cases e with
  | stderr text => rfl
  | turn cfg turn => exact absurd he (idle cfg turn)

/-- **A turn and what follows from its verdict** are a transaction. -/
theorem concluded_transacts {s : MainState} (history : s.history = c.asking line)
    {cfg : OpenAiConfig} {turn : TurnRun}
    (issued : IssuedWith serde env cfg (c.asking line) turn) {verdict : TurnVerdict}
    (settled : turn.verdict = some verdict) :
    Transacts serde env c line ((conclude s verdict).after [.turn cfg turn]) := by
  obtain ⟨hidle, hkept⟩ := conclude_kept history verdict
  refine ⟨fun cfg' turn' mem => ?_, fun running => ?_⟩
  · rcases List.mem_append.mp mem with mem | mem
    · obtain ⟨rfl, rfl⟩ := MainEvent.turn.inj (List.mem_singleton.mp mem)
      exact issued
    · exact absurd mem (hidle cfg' turn')
  · have hreplies : [MainEvent.turn cfg turn].filterMap MainEvent.reply? =
        verdict.reply?.toList := by
      simp only [List.filterMap_cons, List.filterMap_nil, MainEvent.reply?, settled,
        Option.bind_some]
      cases verdict.reply? <;> rfl
    rw [Outcome.after_out, List.filterMap_append, replies_eq_nil hidle, hreplies,
      List.append_nil]
    exact hkept running

/-- So is a turn whose verdict is still awaited. -/
theorem awaited_transacts {s : MainState} {cfg : OpenAiConfig} {turn : TurnRun}
    (issued : IssuedWith serde env cfg (c.asking line) turn) :
    Transacts serde env c line
      (Outcome.after [.turn cfg turn] ⟨s, [], some .awaiting⟩) := by
  refine ⟨fun cfg' turn' mem => ?_, fun running => by cases running⟩
  obtain ⟨rfl, rfl⟩ := MainEvent.turn.inj (List.mem_singleton.mp mem)
  exact issued

/-- The failover endpoint is asked the same. -/
theorem reissue_transacts {s : MainState} (history : s.history = c.asking line)
    (attemptsHere : UInt32) (wires : List Wire) :
    Transacts serde env c line (reissue serde env s attemptsHere wires) := by
  unfold reissue
  cases hfailover : env.failover with
  | none =>
      obtain ⟨hidle, hkept⟩ := conclude_kept history (.failed
        (.protocol "failover directed but no alternative configured"))
      refine ⟨fun cfg turn mem => absurd mem (hidle cfg turn), fun running => ?_⟩
      rw [replies_eq_nil hidle]
      exact hkept running
  | some fd =>
      have hissued : IssuedWith serde env fd (c.asking line) (issue serde env fd s wires) :=
        issuedWith_issue history fd wires
      have history' : (s.issued (issue serde env fd s wires)).history = c.asking line :=
        history
      dsimp only
      -- the notice stands in front
      cases hverdict : (issue serde env fd s wires).verdict with
      | none =>
          have hawaited := awaited_transacts (s := s.issued (issue serde env fd s wires))
            hissued
          exact @Transacts.after serde env c line _ hawaited [.stderr _] (by simp) rfl
      | some verdict =>
          have hconcluded := concluded_transacts history' hissued hverdict
          exact @Transacts.after serde env c line _ hconcluded [.stderr _] (by simp) rfl

/-- **A user message** is one transaction, on one endpoint or on both. -/
theorem userTurn_transacts {s : MainState} (history : s.history = c.asking line)
    (primary failover : List Wire) :
    Transacts serde env c line (userTurn serde env s primary failover) := by
  have hissued : IssuedWith serde env env.primary (c.asking line)
      (issue serde env env.primary s primary) := issuedWith_issue history env.primary primary
  have history' : (s.issued (issue serde env env.primary s primary)).history =
      c.asking line := history
  unfold userTurn
  dsimp only
  cases hverdict : (issue serde env env.primary s primary).verdict with
  | none => exact awaited_transacts hissued
  | some verdict =>
      cases verdict with
      | committed outcome => exact concluded_transacts history' hissued hverdict
      | failed fault => exact concluded_transacts history' hissued hverdict
      | failover attemptsHere =>
          -- the primary turn has committed nothing
          refine (reissue_transacts history' attemptsHere failover).after ?_ ?_
          · intro cfg turn mem
            obtain ⟨rfl, rfl⟩ := MainEvent.turn.inj (List.mem_singleton.mp mem)
            exact hissued
          · simp only [List.filterMap_cons, List.filterMap_nil, MainEvent.reply?, hverdict]
            rfl

variable (serde env)

/-- **Each pass** keeps the history to the conversation. -/
theorem mainStep_hears {s : MainState} (history : s.history = c.messages)
    (input : UserInput) :
    let pass := mainStep serde env s input
    (∀ cfg turn, .turn cfg turn ∈ pass.out →
        IssuedWith serde env cfg (c.asking (trim input.line)) turn) ∧
      (pass.stop = none →
        pass.state.history = (c.hear (trim input.line) pass.out).messages) := by
  unfold mainStep Conversation.hear
  dsimp only
  by_cases hreset : trim input.line = "/reset"
  · -- a reset issues no turn
    simp only [hreset, if_true, String.reduceEq, if_false, or_self]
    refine ⟨by simp, fun _ => ?_⟩
    rw [history, c.messages_retain]
  · rw [if_neg hreset, if_neg hreset]
    split_ifs with hempty hquit
    · refine ⟨by simp, fun _ => ?_⟩
      rw [List.filterMap_nil, c.exchanged_nil, history]
    · exact ⟨by simp, fun running => by cases running⟩
    · have history' : ({ s with
          history := s.history ++ [⟨"user", trim input.line⟩] } : MainState).history =
            c.asking (trim input.line) := by
        rw [Conversation.asking, ← history]
      have huser : Transacts serde env c (trim input.line) (userTurn serde env _
          input.primary input.failover) := userTurn_transacts history' _ _
      exact ⟨huser.issued, huser.kept⟩

/-! ## The loop -/

theorem run_hears {s : MainState} {c : Conversation} (history : s.history = c.messages)
    (lines : List UserInput) (running : (run (mainStep serde env) s lines).stop = none) :
    (run (mainStep serde env) s lines).state.history =
      (c.behind serde env s lines).messages := by
  induction lines generalizing s c with
  | nil => exact history
  | cons input rest ih =>
      have hpass := (mainStep_hears serde env history input).2
      obtain ⟨hstop, hrest, hstate⟩ := run_cons_running _ running
      rw [hstate, c.behind_cons_of_running serde env hstop]
      exact ih (hpass hstop) hrest

/-- **The history is transactional.**  Behind any lines, it is the conversation: the
system prompt, and the exchanges committed since the last reset.  Every turn that the next
line issues, on whichever endpoint, is issued with it and that line; and a line that
commits nothing leaves it as it was. -/
theorem mainLoop_transactional (lines : List UserInput) (input : UserInput)
    (running : (mainLoop serde env lines).stop = none) :
    let s := (mainLoop serde env lines).state
    let c := env.conversation.behind serde env env.enter lines
    let pass := mainStep serde env s input
    s.history = c.messages ∧
      (∀ cfg turn, .turn cfg turn ∈ pass.out →
        IssuedWith serde env cfg (c.asking (trim input.line)) turn) ∧
      (pass.stop = none → trim input.line ≠ "/reset" →
        pass.out.filterMap MainEvent.reply? = [] → pass.state.history = s.history) := by
  intro s c pass
  have henter : env.enter.history = env.conversation.messages := (List.append_nil _).symm
  have hhistory : s.history = c.messages := run_hears serde env henter lines running
  obtain ⟨hissued, hkept⟩ := mainStep_hears serde env hhistory input
  refine ⟨hhistory, hissued, fun goes hreset unanswered => ?_⟩
  have hheard := hkept goes
  rw [Conversation.hear, if_neg hreset] at hheard
  rw [hheard, show (mainStep serde env s input).out.filterMap MainEvent.reply? = [] from
    unanswered, c.exchanged_nil, hhistory]

/-- A message that is answered by the failover endpoint, a reset, one that is answered at
once, and one that is cancelled: what was said behind the reset is all that is kept. -/
theorem mainLoop_transactional_cancelled :
    let env : MainEnv := ⟨exampleConfig, some exampleConfig, 0, 1⟩
    let lines : List UserInput :=
      [⟨"hello", [.connectError 0 "connection refused"], [replyWire]⟩, ⟨"/reset", [], []⟩,
        ⟨"hi", [replyWire], []⟩]
    let input : UserInput := ⟨"more", [.cancelled 0], []⟩
    let s := (mainLoop replySerde env lines).state
    let pass := mainStep replySerde env s input
    s.history = (env.conversation.behind replySerde env env.enter lines).messages ∧
      s.history = [⟨"user", "hi"⟩, ⟨"assistant", "hi"⟩] ∧
      (∀ cfg turn, .turn cfg turn ∈ pass.out →
        IssuedWith replySerde env cfg [⟨"user", "hi"⟩, ⟨"assistant", "hi"⟩, ⟨"user", "more"⟩]
          turn) ∧
      pass.state.history = s.history := by
  intro env lines input s pass
  obtain ⟨hrunning, hgoes, hunanswered, hsaid⟩ :
      (mainLoop replySerde env lines).stop = none ∧ pass.stop = none ∧
        pass.out.filterMap MainEvent.reply? = [] ∧
        s.history = [⟨"user", "hi"⟩, ⟨"assistant", "hi"⟩] := by
    decide +kernel
  obtain ⟨hhistory, hissued, hkept⟩ :=
    mainLoop_transactional replySerde env lines input hrunning
  have hasking : (env.conversation.behind replySerde env env.enter lines).asking
      (trim input.line) = [⟨"user", "hi"⟩, ⟨"assistant", "hi"⟩, ⟨"user", "more"⟩] := by
    rw [Conversation.asking, ← hhistory, hsaid]
    decide +kernel
  rw [hasking] at hissued
  exact ⟨hhistory, hsaid, hissued, hkept hgoes (by decide +kernel) hunanswered⟩

end RarChat
