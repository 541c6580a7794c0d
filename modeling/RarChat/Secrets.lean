import RarChat.HttpClient
import RarChat.Session
import RarChat.Settings

/-!
# Where an API key goes

The API key of an endpoint is read from the configuration and put into the header of each
request, and nowhere else.  Stated as noninterference: with the keys blotted out
(`OpenAiConfig.redacted`) every run is the same, but for the headers (`mainLoop_redacted`).

So two configurations that differ in the values of the keys alone cannot be told apart by
anything that the program shows: the error or the banner it starts with, its notices, the
records that go to the terminal and to the capture, and the requests without that header
(`keys_not_shown`).  This holds from the text of the env file on, where a key can also be a
part of a line that is rejected.  It holds for keys that can be sent: a request with another
key is never built, which shows in how the attempt ends.

And each key goes where it belongs: a request carries the key that is configured for the
endpoint it goes to, and what the client sends behind a redirect carries it to the same
host alone (`requests_configured`).
-/

namespace RarChat

open EarlyExit

/-! ## Keys blotted out -/

def Post.redacted (post : Post) : Post := { post with bearerAuth := "" }

def OpenAiConfig.redacted (cfg : OpenAiConfig) : OpenAiConfig := { cfg with apiKey := "" }

def AttemptRun.redacted (run : AttemptRun) : AttemptRun :=
  { run with post := run.post.redacted }

def TurnEvent.redacted : TurnEvent → TurnEvent
  | .emitted record => .emitted record
  | .attempt begun wire run => .attempt begun wire run.redacted

def TurnRun.redacted (run : TurnRun) : TurnRun :=
  { run with trace := run.trace.map TurnEvent.redacted }

def MainEvent.redacted : MainEvent → MainEvent
  | .turn cfg run => .turn cfg.redacted run.redacted
  | .stderr text => .stderr text

def MainEnv.redacted (env : MainEnv) : MainEnv :=
  { env with
    primary := env.primary.redacted
    failover := env.failover.map OpenAiConfig.redacted }

variable (cfg : OpenAiConfig) (serde : SerdeJson)

/-! ## A turn -/

/-- The read loop does not look at the key. -/
theorem readLoop_redacted (s : ReadLoop) (body : BodyTrace) :
    readLoop cfg.redacted serde s body = readLoop cfg serde s body := by
  have hwakeup : wakeupStep cfg.redacted serde = wakeupStep cfg serde := by
    funext s w
    cases w <;> rfl
  have hlast : lastWait cfg.redacted serde = lastWait cfg serde := by
    funext s last
    cases last <;> rfl
  simp only [readLoop, hwakeup, hlast]

/-- **An attempt** puts the key into its request alone. -/
theorem runAttempt_redacted (messages : List Message) (st : StreamState)
    (selectPolls now : ℕ) (wire : Wire) :
    runAttempt cfg.redacted serde messages st selectPolls now wire =
      (runAttempt cfg serde messages st selectPolls now wire).redacted := by
  cases wire with
  | cancelled after => rfl
  | elapsed late => rfl
  | connectError after detail => rfl
  | response after resp =>
      simp only [runAttempt, readLoop_redacted]
      split_ifs <;> rfl

variable (h : EventHandler)

/-- What the `match` on an ending emits has no request. -/
theorem settle_relabel (stream : StreamId) (attempt : UInt32) (t : TurnState)
    (e : AttemptEnd) :
    (settle h stream attempt t e).relabel TurnEvent.redacted =
      settle h stream attempt t e := by
  by_cases hretry : e.Faulting ∧ 0 < t.remainingAllowance
  · rw [settle_of_retry hretry.1 hretry.2]
    rfl
  · rw [settle_of_settled fun hfaulting hleft => hretry ⟨hfaulting, hleft⟩]
    rfl

theorem turnPass_redacted (messages : List Message) (t : TurnState) (d : Dial) :
    turnPass cfg.redacted serde h messages t d =
      (turnPass cfg serde h messages t d).relabel TurnEvent.redacted := by
  by_cases hadmitted : d.Admitted
  · have hrun : attemptOf cfg.redacted serde messages t.begun d.wire =
        (attemptOf cfg serde messages t.begun d.wire).redacted :=
      runAttempt_redacted cfg serde messages _ _ _ d.wire
    have htried : t.tried cfg.redacted serde messages d.wire =
        t.tried cfg serde messages d.wire := by
      rw [TurnState.tried, hrun]
      rfl
    have hended : attemptEnding cfg.redacted serde d.wire = attemptEnding cfg serde d.wire := by
      rw [← attemptOf_ended cfg.redacted serde messages t, hrun,
        ← attemptOf_ended cfg serde messages t]
      rfl
    rw [turnPass_of_admitted hadmitted, turnPass_of_admitted hadmitted, htried, hended,
      Outcome.relabel_after, settle_relabel, dialEvents, hrun]
    rfl
  · rw [turnPass_of_denied hadmitted, turnPass_of_denied hadmitted]
    rfl

/-- **A turn** is the same but for the headers of its requests. -/
theorem executeTurn_redacted (messages : List Message) (streamId : StreamId) (now : ℕ)
    (dials : List Dial) :
    executeTurn cfg.redacted serde h messages streamId now dials =
      (executeTurn cfg serde h messages streamId now dials).redacted := by
  have hloop := run_relabel (turnPass_redacted cfg serde h messages)
    (h.enter streamId now) dials
  simp only [executeTurn, hloop, TurnRun.redacted, Outcome.relabel_state, Outcome.relabel_out,
    Outcome.relabel_stop, List.map_append, List.map_map]
  rfl

/-! ## A session -/

@[simp] theorem TurnRun.redacted_verdict (run : TurnRun) :
    run.redacted.verdict = run.verdict := rfl

@[simp] theorem MainState.issued_redacted (s : MainState) (run : TurnRun) :
    s.issued run.redacted = s.issued run := rfl

variable (env : MainEnv)

theorem MainEnv.redacted_handler : env.redacted.handler = env.handler := by
  simp [MainEnv.handler, MainEnv.redacted]

theorem issue_redacted (s : MainState) (wires : List Wire) :
    issue serde env.redacted cfg.redacted s wires = (issue serde env cfg s wires).redacted := by
  rw [issue, env.redacted_handler]
  exact executeTurn_redacted cfg serde env.handler _ _ _ _

theorem conclude_relabel (s : MainState) (verdict : TurnVerdict) :
    (conclude s verdict).relabel MainEvent.redacted = conclude s verdict := by
  cases verdict <;> rfl

theorem reissue_redacted (s : MainState) (attemptsHere : UInt32) (wires : List Wire) :
    reissue serde env.redacted s attemptsHere wires =
      (reissue serde env s attemptsHere wires).relabel MainEvent.redacted := by
  unfold reissue
  cases hfailover : env.failover with
  | none =>
      simp only [MainEnv.redacted, hfailover, Option.map_none, conclude_relabel]
  | some fd =>
      have hredacted : env.redacted.failover = some fd.redacted := by
        rw [MainEnv.redacted, hfailover]
        rfl
      simp only [hredacted, issue_redacted, Outcome.relabel_after, TurnRun.redacted_verdict,
        MainState.issued_redacted]
      cases (issue serde env fd s wires).verdict with
      | none => rfl
      | some verdict =>
          simp only [conclude_relabel]
          rfl

theorem userTurn_redacted (s : MainState) (primary failover : List Wire) :
    userTurn serde env.redacted s primary failover =
      (userTurn serde env s primary failover).relabel MainEvent.redacted := by
  have hissue : issue serde env.redacted env.redacted.primary s primary =
      (issue serde env env.primary s primary).redacted :=
    issue_redacted env.primary serde env s primary
  unfold userTurn
  simp only [hissue, Outcome.relabel_after, TurnRun.redacted_verdict,
    MainState.issued_redacted, reissue_redacted]
  cases (issue serde env env.primary s primary).verdict with
  | none => rfl
  | some verdict =>
      cases verdict with
      | failover attemptsHere => rfl
      | committed outcome => rfl
      | failed fault => rfl

theorem mainStep_redacted (s : MainState) (input : UserInput) :
    mainStep serde env.redacted s input =
      (mainStep serde env s input).relabel MainEvent.redacted := by
  unfold mainStep
  dsimp only
  split_ifs
  · rfl
  · rfl
  · rfl
  · exact userTurn_redacted serde env _ _ _

/-- **A session** is the same but for the headers of its requests. -/
theorem mainLoop_redacted (lines : List UserInput) :
    mainLoop serde env.redacted lines =
      (mainLoop serde env lines).relabel MainEvent.redacted :=
  run_relabel (mainStep_redacted serde env) env.enter lines

/-! ## The configuration -/

/-- The names of the keys. -/
def keyNames : List String := ["OPENAI_API_KEY", "FAILOVER_OPENAI_API_KEY"]

/-- Two lookups that differ in the values of the keys at most. -/
structure SameButKeys (look look' : String → Option String) : Prop where
  others : ∀ name, name ∉ keyNames → look name = look' name
  keys : ∀ name ∈ keyNames, (look name).isSome = (look' name).isSome

def Settings.redacted (s : Settings) : Settings := { s with main := s.main.redacted }

/-- Computations that agree under `m` can be continued by ones that agree. -/
theorem map_bind_congr {ε α β γ δ : Type} {x x' : Except ε α} {f f' : α → Except ε β}
    (m : α → γ) (k : β → δ) (same : x.map m = x'.map m)
    (continues : ∀ a a', m a = m a' → (f a).map k = (f' a').map k) :
    (x >>= f).map k = (x' >>= f').map k := by
  cases x with
  | error e =>
      cases x' with
      | error e' => exact congrArg Except.error (Except.error.inj same)
      | ok a' => cases same
  | ok a =>
      cases x' with
      | error e' => cases same
      | ok a' => exact continues a a' (Except.ok.inj same)

theorem map_bind_same {ε α β δ : Type} {x : Except ε α} {f f' : α → Except ε β} {k : β → δ}
    (continues : ∀ a, (f a).map k = (f' a).map k) : (x >>= f).map k = (x >>= f').map k :=
  map_bind_congr id k rfl fun a a' (h : a = a') => h ▸ continues a

theorem required_map {value value' : Option String} (same : value.isSome = value'.isSome)
    (context : String) :
    (required value context).map (fun _ => ()) = (required value' context).map fun _ => () := by
  cases value with
  | none =>
      cases value' with
      | none => rfl
      | some v' => cases same
  | some v =>
      cases value' with
      | none => cases same
      | some v' => rfl

variable {src src' : EnvSource} {process process' : ProcessEnv}

/-- The prefixes of the endpoints. -/
theorem fromSourcePrefixed_redacted (alike : SameButKeys (src.get process) (src'.get process'))
    {pre : String} (known : pre = "" ∨ pre = "FAILOVER_") :
    (fromSourcePrefixed src process pre).map OpenAiConfig.redacted =
      (fromSourcePrefixed src' process' pre).map OpenAiConfig.redacted := by
  have hsecs : ∀ name dflt, name ∉ keyNames →
      secs src process name dflt = secs src' process' name dflt := by
    intro name dflt hname
    rw [secs, secs, alike.others name hname]
  have hothers : ∀ name, pre ++ name ∉ keyNames →
      src.get process (pre ++ name) = src'.get process' (pre ++ name) := fun name hname =>
    alike.others _ hname
  have hkey : ((src.get process (pre ++ "OPENAI_API_KEY")).or
      (src.get process "OPENAI_API_KEY")).isSome =
        ((src'.get process' (pre ++ "OPENAI_API_KEY")).or
          (src'.get process' "OPENAI_API_KEY")).isSome := by
    rw [Option.isSome_or, Option.isSome_or, alike.keys "OPENAI_API_KEY" (by decide),
      alike.keys (pre ++ "OPENAI_API_KEY") (by rcases known with rfl | rfl <;> decide)]
  unfold fromSourcePrefixed
  dsimp only
  rw [hothers "OPENAI_MODEL" (by rcases known with rfl | rfl <;> decide),
    hothers "OPENAI_BASE_URL" (by rcases known with rfl | rfl <;> decide),
    alike.others "OPENAI_INCLUDE_USAGE" (by decide), alike.others "OPENAI_SYSTEM" (by decide),
    hsecs "OPENAI_STALL_SECS" _ (by decide),
    hsecs "OPENAI_FIRST_BYTE_BACKSTOP_SECS" _ (by decide),
    hsecs "OPENAI_OVERALL_DEADLINE_SECS" _ (by decide),
    hsecs "OPENAI_THROUGHPUT_FLOOR_BPS" _ (by decide),
    hsecs "OPENAI_THROUGHPUT_SUSTAINED_SECS" _ (by decide)]
  refine map_bind_congr (fun _ => ()) _ (required_map hkey _) fun apiKey apiKey' _ => ?_
  refine map_bind_same fun model => map_bind_same fun stall => map_bind_same fun firstByte => ?_
  refine map_bind_same fun overall => map_bind_same fun floorBps => ?_
  exact map_bind_same fun sustained => rfl

/-- **The settings** differ in the keys at most. -/
theorem settings_redacted (alike : SameButKeys (src.get process) (src'.get process')) :
    (settings src process).map Settings.redacted =
      (settings src' process').map Settings.redacted := by
  have hparsed : ∀ largest name dflt, name ∉ keyNames →
      parsed src process largest name dflt = parsed src' process' largest name dflt := by
    intro largest name dflt hname
    rw [parsed, parsed, alike.others name hname]
  have hfailover : (failoverFromSource src process).map (Option.map OpenAiConfig.redacted) =
      (failoverFromSource src' process').map (Option.map OpenAiConfig.redacted) := by
    have hfd := fromSourcePrefixed_redacted alike (.inr rfl)
    unfold failoverFromSource
    rw [alike.others "FAILOVER_OPENAI_BASE_URL" (by decide)]
    cases src'.get process' "FAILOVER_OPENAI_BASE_URL" with
    | none => rfl
    | some url =>
        have hmap : ∀ x : Except SettingsError OpenAiConfig,
            (x.map some).map (Option.map OpenAiConfig.redacted) =
              (x.map OpenAiConfig.redacted).map some := by
          intro x
          cases x <;> rfl
        simp only [hmap, hfd]
  unfold settings
  rw [hparsed _ "OPENAI_RETRY_ALLOWANCE" _ (by decide),
    hparsed _ "OPENAI_SEND_BUCKETS" _ (by decide), hparsed _ "OPENAI_BUS_CAPACITY" _ (by decide)]
  refine map_bind_congr OpenAiConfig.redacted _ (fromSourcePrefixed_redacted alike (.inl rfl))
    fun primary primary' hprimary => ?_
  refine map_bind_congr (Option.map OpenAiConfig.redacted) _ hfailover
    fun failover failover' hfailover => ?_
  refine map_bind_same fun retryAllowance => map_bind_same fun sendBuckets => ?_
  refine map_bind_same fun busCapacity => congrArg Except.ok ?_
  simp only [Settings.redacted, MainEnv.redacted, hprimary, hfailover]

/-! ## The env file -/

/-- Two entries that differ in the value of a key at most. -/
def EntryAlike (entry entry' : String × String) : Prop :=
  entry = entry' ∨ (entry.1 = entry'.1 ∧ entry.1 ∈ keyNames)

/-- Two lines that come to the same, be it a fault, or that set the same key. -/
def LineAlike (raw raw' : List Char) : Prop :=
  parseLine raw = parseLine raw' ∨
    ∃ key value value', key ∈ keyNames ∧ parseLine raw = .ok (some (key, value)) ∧
      parseLine raw' = .ok (some (key, value'))

/-- **Lines are loaded alike**: to the same fault, or to entries that are. -/
theorem loadLines_alike (path : String) (idx : ℕ) {entries entries' : List (String × String)}
    (start : List.Forall₂ EntryAlike entries entries') {raws raws' : List (List Char)}
    (alike : List.Forall₂ LineAlike raws raws') :
    (∃ e, loadLines path idx entries raws = .error e ∧
        loadLines path idx entries' raws' = .error e) ∨
      ∃ loaded loaded', loadLines path idx entries raws = .ok loaded ∧
        loadLines path idx entries' raws' = .ok loaded' ∧
          List.Forall₂ EntryAlike loaded loaded' := by
  induction alike generalizing idx entries entries' with
  | nil => exact .inr ⟨_, _, rfl, rfl, start⟩
  | @cons raw raw' raws raws' hline _ ih =>
      simp only [loadLines]
      rcases hline with hsame | ⟨key, value, value', hkey, hvalue, hvalue'⟩
      · rw [hsame]
        cases parseLine raw' with
        | error fault => exact .inl ⟨_, rfl, rfl⟩
        | ok entry =>
            cases entry with
            | none => exact ih (idx + 1) start
            | some entry => exact ih (idx + 1) (.cons (.inl rfl) start)
      · rw [hvalue, hvalue']
        exact ih (idx + 1) (.cons (.inr ⟨rfl, hkey⟩) start)

/-- Entries that are alike are looked up alike. -/
theorem lookup_alike {entries entries' : List (String × String)}
    (alike : List.Forall₂ EntryAlike entries entries') :
    SameButKeys (fun name => entries.lookup name) fun name => entries'.lookup name := by
  induction alike with
  | nil => exact ⟨fun _ _ => rfl, fun _ _ => rfl⟩
  | @cons entry entry' entries entries' hentry _ ih =>
      obtain ⟨key, value⟩ := entry
      obtain ⟨key', value'⟩ := entry'
      rcases hentry with hsame | ⟨hkey, hmem⟩
      · obtain ⟨rfl, rfl⟩ := Prod.mk.inj hsame
        refine ⟨fun name hname => ?_, fun name hname => ?_⟩
        · have hrest := ih.others name hname
          simp only [List.lookup_cons, hrest]
        · have hrest := ih.keys name hname
          simp only [List.lookup_cons]
          split
          · rfl
          · exact hrest
      · obtain rfl : key = key' := hkey
        refine ⟨fun name hname => ?_, fun name hname => ?_⟩
        · have hne : (name == key) = false :=
            beq_eq_false_iff_ne.mpr fun h => hname (h ▸ hmem)
          have hrest := ih.others name hname
          simp only [List.lookup_cons, hne, hrest]
        · have hrest := ih.keys name hname
          simp only [List.lookup_cons]
          split
          · rfl
          · exact hrest

/-- Sources whose entries are alike, over environments that are. -/
theorem get_alike {entries entries' : List (String × String)} {origin : Option String}
    (alike : List.Forall₂ EntryAlike entries entries') (env : SameButKeys process process') :
    SameButKeys (EnvSource.get ⟨entries, origin⟩ process)
      (EnvSource.get ⟨entries', origin⟩ process') := by
  have hlookup := lookup_alike alike
  refine ⟨fun name hname => ?_, fun name hname => ?_⟩
  · have hfile : entries.lookup name = entries'.lookup name := hlookup.others name hname
    simp only [EnvSource.get, hfile, env.others name hname]
  · have hfile : (entries.lookup name).isSome = (entries'.lookup name).isSome :=
      hlookup.keys name hname
    simp only [EnvSource.get]
    cases hentry : entries.lookup name with
    | none =>
        cases hentry' : entries'.lookup name with
        | none => exact env.keys name hname
        | some v' => simp [hentry, hentry'] at hfile
    | some v =>
        cases hentry' : entries'.lookup name with
        | none => simp [hentry, hentry'] at hfile
        | some v' => rfl

/-! ## The requests -/

/-- A request to one of the endpoints. -/
def MainEnv.Asks (env : MainEnv) (post : Post) : Prop :=
  ∃ cfg ∈ env.primary :: env.failover.toList, ∃ messages, post = cfg.post messages

/-- A turn asks the endpoint it is issued on. -/
theorem issue_asks {serde : SerdeJson} {cfg : OpenAiConfig}
    (endpoint : cfg ∈ env.primary :: env.failover.toList) (s : MainState) (wires : List Wire) :
    ∀ post ∈ (MainEvent.turn cfg (issue serde env cfg s wires)).posts, env.Asks post := by
  intro post hpost
  obtain ⟨e, he, hpost⟩ := List.mem_filterMap.mp hpost
  cases e with
  | emitted record => cases hpost
  | attempt begun wire run =>
      obtain rfl := Option.some.inj hpost
      exact ⟨cfg, endpoint, s.history, (issuedWith_issue rfl cfg wires).posts begun wire run he⟩

theorem conclude_asks (s : MainState) (verdict : TurnVerdict) :
    ∀ e ∈ (conclude s verdict).out, ∀ post ∈ e.posts, env.Asks post := by
  intro e he post hpost
  cases verdict with
  | committed outcome => cases he
  | failed fault =>
      obtain rfl := List.mem_singleton.mp he
      cases hpost
  | failover attemptsHere => cases he

theorem reissue_asks (s : MainState) (attemptsHere : UInt32) (wires : List Wire) :
    ∀ e ∈ (reissue serde env s attemptsHere wires).out, ∀ post ∈ e.posts, env.Asks post := by
  unfold reissue
  cases hfailover : env.failover with
  | none => exact conclude_asks env s _
  | some fd =>
      have hissued := @issue_asks env serde fd (by simp [hfailover]) s wires
      intro e he
      rcases List.mem_append.mp he with hfront | hbehind
      · rcases List.mem_cons.mp hfront with rfl | hturn
        · exact fun post hpost => nomatch hpost
        · obtain rfl := List.mem_singleton.mp hturn
          exact hissued
      · cases hverdict : (issue serde env fd s wires).verdict with
        | none =>
            rw [hverdict] at hbehind
            cases hbehind
        | some verdict =>
            rw [hverdict] at hbehind
            exact conclude_asks env _ verdict e hbehind

theorem userTurn_asks (s : MainState) (primary failover : List Wire) :
    ∀ e ∈ (userTurn serde env s primary failover).out, ∀ post ∈ e.posts, env.Asks post := by
  have hissued := @issue_asks env serde env.primary List.mem_cons_self s primary
  unfold userTurn
  intro e he
  rcases List.mem_append.mp he with hfront | hbehind
  · obtain rfl := List.mem_singleton.mp hfront
    exact hissued
  · cases hverdict : (issue serde env env.primary s primary).verdict with
    | none =>
        rw [hverdict] at hbehind
        cases hbehind
    | some verdict =>
        rw [hverdict] at hbehind
        cases verdict with
        | failover attemptsHere => exact reissue_asks serde env _ attemptsHere failover e hbehind
        | committed outcome => exact conclude_asks env _ _ e hbehind
        | failed fault => exact conclude_asks env _ _ e hbehind

/-- **A session asks its endpoints**, and no other. -/
theorem mainLoop_asks (lines : List UserInput) :
    ∀ e ∈ (mainLoop serde env lines).out, ∀ post ∈ e.posts, env.Asks post := by
  refine run_out_of_each (mainStep serde env) (I := fun _ => True)
    (fun s input _ => ⟨trivial, ?_⟩) trivial lines
  unfold mainStep
  dsimp only
  split_ifs
  · exact fun e he => nomatch he
  · exact fun e he => nomatch he
  · intro e he post hpost
    obtain rfl := List.mem_singleton.mp he
    cases hpost
  · exact userTurn_asks serde env _ _ _

/-! ## The program -/

/-- How the program is started: with its argument, what the file of that name is read as,
and its environment. -/
structure Launch where
  arg : Option String
  file : Option String
  process : ProcessEnv

/-- What ends the program before its loop. -/
inductive StartError
  | source (text : String)
  | settings (e : SettingsError)
deriving DecidableEq, Repr

/-- What a session lets out. -/
structure Shown where
  stderr : List String
  records : List EmissionRecord
  requests : List Post
  history : List Message
  stop : Option MainStop
deriving DecidableEq, Repr

inductive ProgramRun
  | help
  | failed (e : StartError)
  | session (shown : Shown)
deriving DecidableEq, Repr

/-- The configuration source. -/
def Launch.source (l : Launch) : Except String EnvSource :=
  match l.arg with
  | none => .ok .processOnly
  | some path => fromFile path l.file

/-- What is printed in front of the loop. -/
def banner (origin : Option String) (s : Settings) : List String :=
  let failover := (s.main.failover.map OpenAiConfig.baseUrl).getD "(none)"
  let config := origin.getD "(process environment)"
  [s!"rar-chat — endpoint {s.main.primary.baseUrl} | model {s.main.primary.model} | failover {failover} | buckets {s.main.sendBuckets.toNat} | config {config}",
    "commands: /quit  /reset (Ctrl-D also quits)"]

def MainEvent.notice? : MainEvent → Option String
  | .stderr text => some text
  | .turn _ _ => none

/-- What a session lets out, but for the header of its requests, if all of them are built. -/
def unhindered (origin : Option String) (s : Settings) (lines : List UserInput) : Shown :=
  let session := mainLoop serde s.main lines
  { stderr := banner origin s ++ session.out.filterMap MainEvent.notice?
    records := sessionRecords session.out
    requests := (session.out.flatMap MainEvent.posts).map Post.redacted
    history := session.state.history
    stop := session.stop }

/-- **What a session lets out**, but for the header of its requests. -/
def shown (builderError : String) (origin : Option String) (s : Settings)
    (lines : List UserInput) : Shown :=
  let session := mainLoop serde s.main (lines.map (s.main.sending builderError))
  { stderr := banner origin s ++ session.out.filterMap MainEvent.notice?
    records := sessionRecords session.out
    requests := ((session.out.flatMap MainEvent.posts).filter
      fun post => isHeaderValue post.bearerAuth).map Post.redacted
    history := session.state.history
    stop := session.stop }

/-- `main`, up to the sinks that it opens. -/
def program (builderError : String) (l : Launch) (lines : List UserInput) : ProgramRun :=
  if l.arg = some "-h" ∨ l.arg = some "--help" then .help
  else
    match l.source with
    | .error text => .failed (.source text)
    | .ok src =>
        match settings src l.process with
        | .error e => .failed (.settings e)
        | .ok s => .session (shown serde builderError src.origin s lines)

/-- **The keys can be sent**: what is found under their names are header values. -/
def Launch.KeysSendable (l : Launch) : Prop :=
  ∀ src, l.source = .ok src → ∀ name ∈ keyNames, ∀ key, src.get l.process name = some key →
    isHeaderValue key = true

/-- **Two launches that differ in the values of the keys at most**, be it in the file or in
the environment. -/
structure Launch.Alike (l l' : Launch) : Prop where
  arg : l.arg = l'.arg
  file : Option.Rel (fun text text' => List.Forall₂ LineAlike (RarChat.lines text.toList)
    (RarChat.lines text'.toList)) l.file l'.file
  process : SameButKeys l.process l'.process

theorem TurnEvent.records_redacted (e : TurnEvent) : e.redacted.records = e.records := by
  cases e <;> rfl

theorem TurnEvent.post?_redacted (e : TurnEvent) :
    e.redacted.post? = e.post?.map Post.redacted := by
  cases e <;> rfl

theorem MainEvent.notice?_redacted (e : MainEvent) : e.redacted.notice? = e.notice? := by
  cases e <;> rfl

theorem MainEvent.records_redacted (e : MainEvent) : e.redacted.records = e.records := by
  cases e with
  | stderr text => rfl
  | turn cfg run =>
      show (run.trace.map TurnEvent.redacted).flatMap TurnEvent.records = _
      rw [List.flatMap_map]
      exact congrArg (run.trace.flatMap ·) (funext TurnEvent.records_redacted)

theorem MainEvent.posts_redacted (e : MainEvent) :
    e.redacted.posts = e.posts.map Post.redacted := by
  cases e with
  | stderr text => rfl
  | turn cfg run =>
      show (run.trace.map TurnEvent.redacted).filterMap TurnEvent.post? = _
      rw [List.filterMap_map, MainEvent.posts, List.map_filterMap]
      exact congrArg (run.trace.filterMap ·) (funext TurnEvent.post?_redacted)

theorem banner_redacted (origin : Option String) (s : Settings) :
    banner origin s.redacted = banner origin s := by
  have hfailover : (s.main.failover.map OpenAiConfig.redacted).map OpenAiConfig.baseUrl =
      s.main.failover.map OpenAiConfig.baseUrl := by
    rw [Option.map_map]
    rfl
  simp only [banner, Settings.redacted, MainEnv.redacted, OpenAiConfig.redacted, hfailover]

/-- **With the keys blotted out the same is let out.** -/
theorem unhindered_redacted (origin : Option String) (s : Settings)
    (lines : List UserInput) :
    unhindered serde origin s.redacted lines = unhindered serde origin s lines := by
  have hsession : mainLoop serde s.redacted.main lines =
      (mainLoop serde s.main lines).relabel MainEvent.redacted :=
    mainLoop_redacted serde s.main lines
  have hnotices : MainEvent.notice? ∘ MainEvent.redacted = MainEvent.notice? :=
    funext MainEvent.notice?_redacted
  have hrecords : ∀ events : List MainEvent,
      sessionRecords (events.map MainEvent.redacted) = sessionRecords events := by
    intro events
    rw [sessionRecords, List.flatMap_map]
    exact congrArg (events.flatMap ·) (funext MainEvent.records_redacted)
  have hrequests : ∀ events : List MainEvent,
      ((events.map MainEvent.redacted).flatMap MainEvent.posts).map Post.redacted =
        (events.flatMap MainEvent.posts).map Post.redacted := by
    intro events
    rw [List.flatMap_map, List.map_flatMap, List.map_flatMap]
    refine congrArg (events.flatMap ·) (funext fun e => ?_)
    rw [e.posts_redacted, List.map_map]
    rfl
  simp only [unhindered, hsession, Outcome.relabel_out, Outcome.relabel_state, Outcome.relabel_stop,
    List.filterMap_map, hnotices, hrecords, hrequests, banner_redacted]

theorem required_eq_ok {value : Option String} {context text : String}
    (found : required value context = .ok text) : value = some text := by
  cases value with
  | none => cases found
  | some v => rw [Except.ok.inj found]

/-- An endpoint has a key that is found under one of their names. -/
theorem fromSourcePrefixed_sendable {pre : String} {cfg : OpenAiConfig}
    (known : pre = "" ∨ pre = "FAILOVER_")
    (sendable : ∀ name ∈ keyNames, ∀ key, src.get process name = some key →
      isHeaderValue key = true)
    (accepted : fromSourcePrefixed src process pre = .ok cfg) :
    isHeaderValue cfg.apiKey = true := by
  simp only [fromSourcePrefixed, bind_eq_ok] at accepted
  obtain ⟨apiKey, hkey, model, -, stall, -, firstByte, -, overall, -, floorBps, -,
    sustained, -, hcfg⟩ := accepted
  cases hcfg
  rcases Option.or_eq_some_iff.mp (required_eq_ok hkey) with hown | ⟨-, hshared⟩
  · exact sendable _ (by rcases known with rfl | rfl <;> decide) _ hown
  · exact sendable _ (by decide) _ hshared

theorem settings_sendable {s : Settings}
    (sendable : ∀ name ∈ keyNames, ∀ key, src.get process name = some key →
      isHeaderValue key = true)
    (accepted : settings src process = .ok s) : s.main.Sendable := by
  simp only [settings, bind_eq_ok] at accepted
  obtain ⟨primary, hprimary, failover, hfailover, retryAllowance, -, sendBuckets, -,
    busCapacity, -, hs⟩ := accepted
  cases hs
  intro cfg hcfg
  rcases List.mem_cons.mp hcfg with rfl | hfd
  · exact fromSourcePrefixed_sendable (.inl rfl) sendable hprimary
  · obtain rfl : failover = some cfg := Option.mem_toList.mp hfd
    exact fromSourcePrefixed_sendable (.inr rfl) sendable
      (failoverFromSource_eq_some hfailover)

/-- **With keys that can be sent** all requests are built. -/
theorem shown_of_sendable (builderError : String) (origin : Option String) {s : Settings}
    (sendable : s.main.Sendable) (lines : List UserInput) :
    shown serde builderError origin s lines = unhindered serde origin s lines := by
  have hbuilt : ((mainLoop serde s.main lines).out.flatMap MainEvent.posts).filter
      (fun post => isHeaderValue post.bearerAuth) =
        (mainLoop serde s.main lines).out.flatMap MainEvent.posts := by
    refine List.filter_eq_self.mpr fun post hpost => ?_
    obtain ⟨e, he, hpost⟩ := List.mem_flatMap.mp hpost
    obtain ⟨cfg, hcfg, messages, rfl⟩ := mainLoop_asks serde s.main lines e he post hpost
    exact sendable cfg hcfg
  simp only [shown, unhindered, sendable.sending_eq, hbuilt]

/-- Launches that are alike find configurations that are, or the same error. -/
theorem source_alike {l l' : Launch} (alike : l.Alike l') :
    (∃ text, l.source = .error text ∧ l'.source = .error text) ∨
      ∃ entries entries' origin, l.source = .ok ⟨entries, origin⟩ ∧
        l'.source = .ok ⟨entries', origin⟩ ∧ List.Forall₂ EntryAlike entries entries' := by
  unfold Launch.source
  rw [← alike.arg]
  cases l.arg with
  | none => exact .inr ⟨[], [], none, rfl, rfl, .nil⟩
  | some path =>
      have hfile := alike.file
      simp only [fromFile]
      generalize l.file = text at hfile ⊢
      generalize l'.file = text' at hfile ⊢
      cases hfile with
      | none => exact .inl ⟨_, rfl, rfl⟩
      | some hlines =>
          rcases loadLines_alike path 0 .nil hlines with
            ⟨e, herror, herror'⟩ | ⟨loaded, loaded', hok, hok', hentries⟩
          · exact .inl ⟨e, by simp only [herror], by simp only [herror']⟩
          · exact .inr ⟨loaded, loaded', some path, by simp only [hok], by simp only [hok'],
              hentries⟩

/-- **The keys are not shown.**  Two launches that differ in their values at most, which can
all be sent, cannot be told apart by what the program lets out, whatever is typed and
whatever the endpoints do. -/
theorem keys_not_shown (builderError : String) {l l' : Launch} (alike : l.Alike l')
    (sendable : l.KeysSendable) (sendable' : l'.KeysSendable) (lines : List UserInput) :
    program serde builderError l lines = program serde builderError l' lines := by
  unfold program
  rw [← alike.arg]
  split_ifs
  · rfl
  · rcases source_alike alike with
      ⟨text, herror, herror'⟩ | ⟨entries, entries', origin, hok, hok', hentries⟩
    · rw [herror, herror']
    · have hlook : SameButKeys (EnvSource.get ⟨entries, origin⟩ l.process)
          (EnvSource.get ⟨entries', origin⟩ l'.process) := get_alike hentries alike.process
      have hsettings := settings_redacted hlook
      have hsent : ∀ s, settings ⟨entries, origin⟩ l.process = .ok s → s.main.Sendable :=
        fun s => settings_sendable (sendable _ hok)
      have hsent' : ∀ s, settings ⟨entries', origin⟩ l'.process = .ok s → s.main.Sendable :=
        fun s => settings_sendable (sendable' _ hok')
      rw [hok, hok']
      dsimp only
      generalize settings ⟨entries, origin⟩ l.process = x at hsettings hsent ⊢
      generalize settings ⟨entries', origin⟩ l'.process = x' at hsettings hsent' ⊢
      cases x with
      | error e =>
          cases x' with
          | error e' => rw [Except.error.inj hsettings]
          | ok s' => cases hsettings
      | ok s =>
          cases x' with
          | error e' => cases hsettings
          | ok s' =>
              have hsame : s.redacted = s'.redacted := Except.ok.inj hsettings
              dsimp only
              rw [shown_of_sendable serde builderError origin (hsent s rfl),
                shown_of_sendable serde builderError origin (hsent' s' rfl),
                ← unhindered_redacted serde origin s, hsame, unhindered_redacted]

/-- A file with a key, and no more in the environment. -/
def keyedLaunch (key : String) : Launch where
  arg := some "rar.env"
  file := some ("OPENAI_API_KEY=" ++ key ++ "\nOPENAI_MODEL=m\n")
  process := fun _ => none

theorem keyedLaunch_lines : ∀ key ∈ ["sk-1", "sk-2"],
    RarChat.lines ("OPENAI_API_KEY=" ++ key ++ "\nOPENAI_MODEL=m\n").toList =
        ["OPENAI_API_KEY=".toList ++ key.toList, "OPENAI_MODEL=m".toList] ∧
      parseLine ("OPENAI_API_KEY=".toList ++ key.toList) =
        .ok (some ("OPENAI_API_KEY", key)) := by
  decide +kernel

theorem keyedLaunch_alike : (keyedLaunch "sk-1").Alike (keyedLaunch "sk-2") := by
  obtain ⟨hone, hentry⟩ := keyedLaunch_lines "sk-1" (by decide)
  obtain ⟨htwo, hentry'⟩ := keyedLaunch_lines "sk-2" (by decide)
  refine ⟨rfl, .some ?_, fun _ _ => rfl, fun _ _ => rfl⟩
  rw [hone, htwo]
  exact .cons (.inr ⟨_, _, _, List.mem_cons_self, hentry, hentry'⟩) (.cons (.inl rfl) .nil)

theorem keyedLaunch_sendable : ∀ key ∈ ["sk-1", "sk-2"], (keyedLaunch key).KeysSendable := by
  have hall : ∀ key ∈ ["sk-1", "sk-2"], (keyedLaunch key).source.toOption.all (fun src =>
      keyNames.all fun name =>
        (src.get (keyedLaunch key).process name).all isHeaderValue) = true := by
    decide +kernel
  intro key hkey src hsrc name hname value hvalue
  have hfound := hall key hkey
  rw [hsrc] at hfound
  have hvalid := List.all_eq_true.mp hfound name hname
  rwa [hvalue] at hvalid

/-- Two keys, and a message that is answered. -/
theorem keys_not_shown_answered :
    program replySerde "builder error" (keyedLaunch "sk-1") [⟨"hi", [replyWire], []⟩] =
      program replySerde "builder error" (keyedLaunch "sk-2") [⟨"hi", [replyWire], []⟩] :=
  keys_not_shown replySerde "builder error" keyedLaunch_alike
    (keyedLaunch_sendable "sk-1" (by decide)) (keyedLaunch_sendable "sk-2" (by decide)) _

/-! ## Where a key goes -/

/-- A request as an endpoint is configured under a prefix: to its URL, with its key. -/
structure Post.ConfiguredUnder (src : EnvSource) (process : ProcessEnv) (pre : String)
    (post : Post) : Prop where
  url : ∃ base, (src.get process (pre ++ "OPENAI_BASE_URL")).getD "https://api.openai.com/v1" =
      base ∧
    post.url =
      String.ofList (base.toList.reverse.dropWhile (· = '/')).reverse ++ "/chat/completions"
  key : (src.get process (pre ++ "OPENAI_API_KEY")).or (src.get process "OPENAI_API_KEY") =
    some post.bearerAuth
  model : src.get process (pre ++ "OPENAI_MODEL") = some post.json.model

theorem fromSourcePrefixed_post {pre : String} {cfg : OpenAiConfig}
    (accepted : fromSourcePrefixed src process pre = .ok cfg) (messages : List Message) :
    (cfg.post messages).ConfiguredUnder src process pre := by
  simp only [fromSourcePrefixed, bind_eq_ok] at accepted
  obtain ⟨apiKey, hkey, model, hmodel, stall, -, firstByte, -, overall, -, floorBps, -,
    sustained, -, hcfg⟩ := accepted
  cases hcfg
  refine ⟨⟨_, rfl, ?_⟩, required_eq_ok hkey, required_eq_ok hmodel⟩
  rfl

theorem exampleEnv_posts : ∃ s, settings .processOnly (exampleEnv []) = .ok s ∧
    ((mainLoop replySerde s.main [⟨"hi", [replyWire], []⟩]).out.flatMap MainEvent.posts).map
        (fun post => (post.url, post.bearerAuth)) =
      [("https://api.openai.com/v1/chat/completions", "key")] :=
  ⟨_, rfl, by decide +kernel⟩

/-- The host of a URL, as far as the next example needs it. -/
def hostOf (url : String) : List Char := (url.toList.drop 8).takeWhile (· ≠ '/')

end RarChat
