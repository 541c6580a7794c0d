import RarChat.Completion
import RarChat.RecoveredTail
import RarChat.Serialize
import RarChat.SseGrammar

/-!
# A reply, as it is written and as it is received

The other side of the connection.  A server has texts to say, a reason to stop and perhaps
a count of tokens (`Reply`).  It says them one chunk each, as JSON with whatever other fields
it likes (`Envelope`), and writes the chunks in frames, with comments and further fields in
between, and with or without the sentinel (`Writes`).  The lines of one frame end alike, all
in LF or all in CRLF, and no comment line stands in front of data in a frame.

However the network divides what was written, the attempt commits the reply as it was meant
(`runAttempt_of_writes`): the content is the texts in order, no record tells of trouble, and
the events it reports are the texts, the reason and the count.
-/

namespace RarChat

open EarlyExit

/-! ## Chunks -/

/-- Fields with names that are not among `known`. -/
def Foreign (known : List String) (fields : List (String × Json)) : Prop :=
  ∀ f ∈ fields, f.1 ∉ known

theorem fieldOf_append_of_foreign {known : List String} {pre : List (String × Json)}
    (foreign : Foreign known pre) {name : String} (mem : name ∈ known)
    (fields : List (String × Json)) : fieldOf name (pre ++ fields) = fieldOf name fields := by
  have hpre : pre.filter (fun f => f.1 == name) = [] := by
    rw [List.filter_eq_nil_iff]
    intro f hf hname
    exact foreign f hf (beq_iff_eq.mp hname ▸ mem)
  rw [fieldOf, List.filter_append, hpre, List.nil_append, fieldOf]

/-- What a chunk has besides what it says: an id, an index, a role, and the usage as `null`
where there is none. -/
structure Envelope where
  chunk : List (String × Json)
  choice : List (String × Json)
  delta : List (String × Json)
  nullUsage : Bool
  chunkForeign : Foreign ["choices", "usage", "error"] chunk
  choiceForeign : Foreign ["delta", "finish_reason"] choice
  deltaForeign : Foreign ["content", "tool_calls"] delta

/-- What one chunk says. -/
inductive Said
  | text (t : String)
  | reason (r : String)
  | tokens (promptTokens completionTokens totalTokens : UInt32)
deriving DecidableEq, Repr

namespace Envelope

variable (env : Envelope)

/-- The one choice of a chunk. -/
def choices (delta : List (String × Json)) (finishReason : Json) : Json :=
  .array [.object (env.choice ++
    [("delta", .object (env.delta ++ delta)), ("finish_reason", finishReason)])]

def usage : List (String × Json) := if env.nullUsage then [("usage", .null)] else []

/-- The chunk that says it. -/
def toJson : Said → Json
  | .text t =>
      .object (env.chunk ++
        ("choices", env.choices [("content", .string t)] .null) :: env.usage)
  | .reason r =>
      .object (env.chunk ++ ("choices", env.choices [] (.string r)) :: env.usage)
  | .tokens promptTokens completionTokens totalTokens =>
      .object (env.chunk ++
        [("choices", .array []),
          ("usage", .object [("prompt_tokens", .u32 promptTokens),
            ("completion_tokens", .u32 completionTokens),
            ("total_tokens", .u32 totalTokens)])])

end Envelope

/-- The chunk as it is read. -/
def Said.chunk : Said → Chunk
  | .text t => ⟨[⟨⟨some t, none⟩, none⟩], none, none⟩
  | .reason r => ⟨[⟨⟨none, none⟩, some r⟩], none, none⟩
  | .tokens promptTokens completionTokens totalTokens =>
      ⟨[], some ⟨promptTokens, completionTokens, totalTokens⟩, none⟩

/-- The choice is read for its delta and its finish reason. -/
theorem decodeChoices_choices (env : Envelope) {delta : List (String × Json)}
    {finishReason : Json} {content reason : Option String}
    (content_read : optionField decodeString "content" delta = some content)
    (no_calls : fieldOf "tool_calls" delta = some none)
    (reason_read : decodeOption decodeString finishReason = some reason) :
    decodeChoices (env.choices delta finishReason) = some [⟨⟨content, none⟩, reason⟩] := by
  have hdelta : Delta.decode (.object (env.delta ++ delta)) = some ⟨content, none⟩ := by
    have hcontent : optionField decodeString "content" (env.delta ++ delta) = some content := by
      rw [optionField, fieldOf_append_of_foreign env.deltaForeign (by simp)]
      exact content_read
    have hcalls : optionField decodeValue "tool_calls" (env.delta ++ delta) = some none := by
      rw [optionField, fieldOf_append_of_foreign env.deltaForeign (by simp), no_calls]
    simp only [Delta.decode, hcontent, hcalls]
    rfl
  have hchoice : Choice.decode (.object (env.choice ++
      [("delta", .object (env.delta ++ delta)), ("finish_reason", finishReason)])) =
        some ⟨⟨content, none⟩, reason⟩ := by
    have hfirst : defaultField Delta.default Delta.decode "delta" (env.choice ++
        [("delta", .object (env.delta ++ delta)), ("finish_reason", finishReason)]) =
          some ⟨content, none⟩ := by
      rw [defaultField, fieldOf_append_of_foreign env.choiceForeign (by simp)]
      exact hdelta
    have hsecond : optionField decodeString "finish_reason" (env.choice ++
        [("delta", .object (env.delta ++ delta)), ("finish_reason", finishReason)]) =
          some reason := by
      rw [optionField, fieldOf_append_of_foreign env.choiceForeign (by simp)]
      exact reason_read
    simp only [Choice.decode, hfirst, hsecond]
    rfl
  simp only [Envelope.choices, decodeChoices, List.mapM_cons, List.mapM_nil, hchoice]
  rfl

/-- A chunk is read for its choices and its usage. -/
theorem Chunk.decode_envelope (env : Envelope) {choices : Json} {read : List Choice}
    {rest : List (String × Json)} {usage : Option Usage}
    (choices_read : decodeChoices choices = some read)
    (rest_is : rest = [] ∧ usage = none ∨
      ∃ j, rest = [("usage", j)] ∧ decodeOption Usage.decode j = some usage) :
    Chunk.decode (.object (env.chunk ++ ("choices", choices) :: rest)) =
      some ⟨read, usage, none⟩ := by
  have hfield : ∀ name ∈ ["choices", "usage", "error"],
      fieldOf name (env.chunk ++ ("choices", choices) :: rest) =
        fieldOf name (("choices", choices) :: rest) := fun name mem =>
    fieldOf_append_of_foreign env.chunkForeign mem _
  have hchoices : defaultField [] decodeChoices "choices"
      (env.chunk ++ ("choices", choices) :: rest) = some read := by
    rw [defaultField, hfield "choices" (by simp)]
    rcases rest_is with ⟨rfl, -⟩ | ⟨j, rfl, -⟩ <;> exact choices_read
  have husage : optionField Usage.decode "usage"
      (env.chunk ++ ("choices", choices) :: rest) = some usage := by
    rw [optionField, hfield "usage" (by simp)]
    rcases rest_is with ⟨rfl, rfl⟩ | ⟨j, rfl, hj⟩
    · rfl
    · exact hj
  have herror : optionField decodeValue "error"
      (env.chunk ++ ("choices", choices) :: rest) = some none := by
    rw [optionField, hfield "error" (by simp)]
    rcases rest_is with ⟨rfl, -⟩ | ⟨j, rfl, -⟩ <;> rfl
  simp only [decode, hchoices, husage, herror]
  rfl

/-- **A chunk is read as what it says**, whatever else it has. -/
theorem Chunk.decode_toJson (env : Envelope) (said : Said) :
    Chunk.decode (env.toJson said) = some said.chunk := by
  have hnull : env.usage = [] ∧ (none : Option Usage) = none ∨
      ∃ j, env.usage = [("usage", j)] ∧ decodeOption Usage.decode j = some none := by
    unfold Envelope.usage
    split_ifs
    · exact .inr ⟨.null, rfl, rfl⟩
    · exact .inl ⟨rfl, rfl⟩
  cases said with
  | text t => exact decode_envelope env (decodeChoices_choices env rfl rfl rfl) hnull
  | reason r => exact decode_envelope env (decodeChoices_choices env rfl rfl rfl) hnull
  | tokens promptTokens completionTokens totalTokens =>
      refine decode_envelope env rfl (.inr ⟨_, rfl, ?_⟩)
      simp [decodeOption, Usage.decode, requiredField_cons_self, requiredField_cons_of_ne]

/-! ## A reply -/

/-- What a server means to say. -/
structure Reply where
  texts : List String
  reason : String
  tokens : Option (UInt32 × UInt32 × UInt32)
deriving DecidableEq, Repr

namespace Reply

/-- The texts, the reason, and the count behind it. -/
def chunks (r : Reply) : List Said :=
  r.texts.map .text ++ .reason r.reason :: r.tokens.toList.map fun u => .tokens u.1 u.2.1 u.2.2

/-- What is to be committed of it. -/
def outcome (r : Reply) : ChatOutcome := ⟨String.join r.texts, r.reason, r.tokens⟩

end Reply

/-- The events of a chunk. -/
def Said.events (said : Said) : List DriverEvent := said.chunk.normalized.events

theorem Said.done_notMem_events (said : Said) : .done ∉ said.events :=
  Chunk.done_notMem said.chunk

theorem events_text (texts : List String) :
    (texts.map Said.text).flatMap Said.events =
      (texts.filter (· ≠ "")).map DriverEvent.textDelta := by
  induction texts with
  | nil => rfl
  | cons t texts ih =>
      rw [List.map_cons, List.flatMap_cons, ih]
      by_cases hempty : t = "" <;>
        simp [Said.events, Said.chunk, Chunk.normalized, Choice.events, hempty]

theorem events_tokens (tokens : Option (UInt32 × UInt32 × UInt32)) :
    (tokens.toList.map fun u => Said.tokens u.1 u.2.1 u.2.2).flatMap Said.events =
      tokens.toList.map fun u => .usage u.1 u.2.1 u.2.2 := by
  cases tokens <;> rfl

/-- **The events of a reply**: its texts but for the empty ones, its reason, its count. -/
theorem Reply.events_eq (r : Reply) :
    r.chunks.flatMap Said.events =
      (r.texts.filter (· ≠ "")).map DriverEvent.textDelta ++
        .finish r.reason :: r.tokens.toList.map fun u => .usage u.1 u.2.1 u.2.2 := by
  rw [chunks, List.flatMap_append, List.flatMap_cons, events_text, events_tokens]
  rfl

/-- Texts in front of a finish reason add up. -/
theorem StreamMachine.feedAll_texts (m : StreamMachine) (pending : m.finishReason = none)
    (texts : List String) :
    m.feedAll (texts.map .textDelta) = { m with content := m.content ++ String.join texts } := by
  induction texts generalizing m with
  | nil => simp
  | cons t texts ih =>
      rw [List.map_cons, feedAll_cons, ih (m.feed (.textDelta t)) pending]
      simp [feed, pending, String.append_assoc]

/-- **The machine that was fed a reply** has it, and no anomaly. -/
theorem StreamMachine.feedAll_reply (r : Reply) :
    StreamMachine.new.feedAll (r.chunks.flatMap Said.events) =
      ⟨String.join r.texts, some r.reason, r.tokens, false, []⟩ := by
  rw [r.events_eq, feedAll_append, feedAll_texts _ rfl, join_filter_ne_empty]
  cases htokens : r.tokens <;> simp [feed, new]

/-! ## Writing it -/

variable (serde : SerdeJson)

/-- **The text spells a chunk**, in some envelope, and is not the sentinel. -/
def Spells (text : String) (said : Said) : Prop :=
  trim text ≠ "[DONE]" ∧ ∃ env : Envelope, serde.fromStr text = some (env.toJson said)

/-- **The frames write the reply**: their data spells its chunks in order, and then they end
or the sentinel follows.  A frame with data may hold comment lines, but not in front: the
parser takes the whole frame for a comment by its first character. -/
structure Writes (r : Reply) (frames : List Frame) : Prop where
  opens : ∀ f ∈ frames, f.payload ≠ none → f.Opens
  spelled : ∃ texts behind, frames.filterMap Frame.payload = texts ++ behind ∧
    List.Forall₂ (Spells serde) texts r.chunks ∧ ∀ s ∈ behind.head?, trim s = "[DONE]"

variable {serde}

/-- A text that spells a chunk is taken in, with the events of the chunk. -/
theorem Spells.refined {text : String} {said : Said} (spelled : Spells serde text said) :
    ∃ norm, refined serde text = .ok norm ∧ norm.events = said.events := by
  obtain ⟨hnot, env, hread⟩ := spelled
  have hchunk : serde.chunk text = some said.chunk := by
    rw [SerdeJson.chunk, hread, Option.bind_some, Chunk.decode_toJson]
  refine ⟨said.chunk.normalized, ?_, rfl⟩
  have hnormalized : normalize serde text = .ok said.chunk.normalized := by
    unfold normalize
    rw [if_neg hnot]
    cases said <;> simp only [hchunk, Said.chunk]
  have hsingle : said.chunk.normalized.multipleChoices = none := by
    cases said <;> rfl
  unfold RarChat.refined
  simp only [hnormalized, hsingle]

theorem refined_of_sentinel {text : String} (sentinel : trim text = "[DONE]") :
    refined serde text = .ok ⟨[.done], [], none⟩ := by
  unfold refined normalize
  rw [if_pos sentinel]

/-- The event of a frame has the data of the frame, and is decoded. -/
theorem Frame.parseBlock_text? (f : Frame) (opens : f.payload ≠ none → f.Opens) :
    (parseBlock f.block).bind SseEvent.text? = f.payload := by
  rw [f.parseBlock_eq]
  split_ifs with hcomment
  · by_contra hdata
    exact f.opens_iff.mp (opens fun hnone => hdata hnone.symm) hcomment
  · rw [event, Option.bind_map]
    cases f.payload <;> rfl

theorem Frame.decodable {f : Frame} {ev : SseEvent} (parsed : parseBlock f.block = some ev)
    (raw : List UInt8) (error : String) : ev.payload ≠ .undecodable raw error := by
  rw [f.parseBlock_eq] at parsed
  split_ifs at parsed
  · obtain rfl := Option.some.inj parsed
    nofun
  · obtain ⟨text, -, rfl⟩ := Option.map_eq_some_iff.mp parsed
    nofun

/-! ## Receiving it -/

/-- The record tells of trouble with what was received. -/
def EmissionRecord.Troubled : EmissionRecord → Prop
  | .normalizationError .. | .undecodableInstallment .. | .residue .. | .anomaly .. => True
  | _ => False

/-- The events `events` were taken in without trouble, and the attempt goes on. -/
structure Took (d : Digest) (events : List DriverEvent) (o : DigestOutcome) : Prop where
  running : o.stop = none
  machine : o.state.machine = d.machine.feedAll events
  events : eventsOf o.out = events
  calm : ∀ r ∈ o.out, ¬r.Troubled

theorem eventsOf_map (stream : StreamId) (attempt : UInt32) (seq : ℕ)
    (events : List DriverEvent) :
    eventsOf (events.map fun event => .normalizedEvent stream attempt seq event) = events := by
  rw [eventsOf, List.filterMap_map]
  exact List.filterMap_some

/-- Taking in a payload that is accepted. -/
theorem take_took {ev : SseEvent} {text : String} {norm : Normalized}
    (payload : ev.payload = .data text) (ok : refined serde text = .ok norm)
    (status : InstallmentStatus) (d : Digest) :
    Took d norm.events (Digest.take serde status d ev) := by
  have htake : Digest.take serde status d ev = ⟨d.absorb norm,
      d.installment ev .data text status :: norm.events.map fun event =>
        .normalizedEvent d.streamId d.attempt (d.seq + 1) event, none⟩ := by
    unfold Digest.take
    simp only [payload, ok]
  rw [htake]
  refine ⟨rfl, rfl, (List.filterMap_cons_none rfl).trans (eventsOf_map _ _ _ _), ?_⟩
  simp only [List.forall_mem_cons, List.forall_mem_map]
  exact ⟨id, fun _ _ => id⟩

theorem SseEvent.payload_of_text? {ev : SseEvent} {text : String}
    (carried : ev.text? = some text) : ev.payload = .data text := by
  unfold SseEvent.text? at carried
  cases hpayload : ev.payload with
  | data text' => simpa [hpayload] using carried
  | comment text' => simp [hpayload] at carried
  | undecodable raw error => simp [hpayload] at carried

/-- A frame that carries a chunk. -/
theorem step_took {ev : SseEvent} {text : String} {said : Said}
    (carried : ev.text? = some text) (spelled : Spells serde text said) (d : Digest) :
    Took d said.events (Digest.step serde d ev) := by
  obtain ⟨norm, hrefined, hevents⟩ := spelled.refined
  have hpayload := SseEvent.payload_of_text? carried
  have hverdict : frameVerdict serde ev = none := by
    unfold frameVerdict
    simp only [hpayload, hrefined, hevents, said.done_notMem_events, if_false]
  have htook := take_took hpayload hrefined .complete d
  rw [hevents] at htook
  rw [Digest.step, Outcome.andThen_of_running htook.running]
  simp only [hverdict]
  exact ⟨rfl, htook.machine, by simpa using htook.events, by simpa using htook.calm⟩

/-- A frame that carries nothing. -/
theorem step_skipped {ev : SseEvent} (carries : ev.text? = none)
    (decodable : ∀ raw error, ev.payload ≠ .undecodable raw error) (d : Digest) :
    Took d [] (Digest.step serde d ev) := by
  unfold SseEvent.text? at carries
  unfold Digest.step Digest.take frameVerdict
  cases hpayload : ev.payload with
  | data text => simp [hpayload] at carries
  | undecodable raw error => exact absurd hpayload (decodable raw error)
  | comment text =>
      refine ⟨rfl, rfl, rfl, ?_⟩
      intro r hr
      obtain rfl : r = _ := List.mem_singleton.mp hr
      exact id

theorem Took.andThen {d : Digest} {events more : List DriverEvent} {o : DigestOutcome}
    (took : Took d events o) {f : Digest → DigestOutcome} (behind : Took o.state more (f o.state)) :
    Took d (events ++ more) (o.andThen f) := by
  rw [Outcome.andThen_of_running took.running]
  refine ⟨behind.running, ?_, ?_, ?_⟩
  · rw [Outcome.after_state, behind.machine, took.machine, StreamMachine.feedAll_append]
  · rw [Outcome.after_out, eventsOf_append, took.events, behind.events]
  · rw [Outcome.after_out]
    exact List.forall_mem_append.mpr ⟨took.calm, behind.calm⟩

/-- **Frames that carry chunks are taken in** one by one. -/
theorem run_step_took {evs : List SseEvent} {said : List Said}
    (decodable : ∀ ev ∈ evs, ∀ raw error, ev.payload ≠ .undecodable raw error)
    (spelled : List.Forall₂ (Spells serde) (evs.filterMap SseEvent.text?) said) (d : Digest) :
    Took d (said.flatMap Said.events) (run (Digest.step serde) d evs) := by
  induction evs generalizing said d with
  | nil =>
      cases spelled
      exact ⟨rfl, rfl, rfl, nofun⟩
  | cons ev evs ih =>
      obtain ⟨hev, hevs⟩ := List.forall_mem_cons.mp decodable
      rw [run]
      cases hcarried : ev.text? with
      | none =>
          rw [List.filterMap_cons_none hcarried] at spelled
          exact (step_skipped hcarried hev d).andThen (ih hevs spelled _)
      | some text =>
          rw [List.filterMap_cons_some hcarried] at spelled
          cases spelled with
          | cons hfirst hrest =>
              exact (step_took hcarried hfirst d).andThen (ih hevs hrest _)

/-- **The reply was received as it was meant.** -/
structure Received (r : Reply) (o : DigestOutcome) : Prop where
  committed : o.stop = some (.complete (.committed r.outcome))
  events : (eventsOf o.out).filter (· ≠ .done) = r.chunks.flatMap Said.events
  calm : ∀ rec ∈ o.out, ¬rec.Troubled

/-- Closing an attempt that has the reply. -/
theorem received_close {r : Reply} {d : Digest} {sawDone : Bool}
    (machine : d.machine = ⟨String.join r.texts, some r.reason, r.tokens, sawDone, []⟩)
    (cause : StreamEndCause) {earlier : List EmissionRecord}
    (events : (eventsOf earlier).filter (· ≠ .done) = r.chunks.flatMap Said.events)
    (calm : ∀ rec ∈ earlier, ¬rec.Troubled) :
    Received r ((d.close cause .streamEnded).after earlier) := by
  have hclose : d.close cause .streamEnded = ⟨{ d with machine := StreamMachine.new },
      [.streamEnd d.streamId d.attempt cause 0], some (.complete (.committed r.outcome))⟩ := by
    rw [Digest.close, machine]
    rfl
  rw [hclose]
  refine ⟨rfl, ?_, ?_⟩
  · rw [Outcome.after_out, eventsOf_append, List.filter_append, events]
    exact List.append_nil _
  · rw [Outcome.after_out]
    refine List.forall_mem_append.mpr ⟨calm, ?_⟩
    simp only [List.forall_mem_singleton]
    exact id

theorem filter_done_events (r : Reply) :
    (r.chunks.flatMap Said.events).filter (· ≠ .done) = r.chunks.flatMap Said.events := by
  refine List.filter_eq_self.mpr fun event hevent => decide_eq_true fun hdone => ?_
  obtain ⟨said, -, hmem⟩ := List.mem_flatMap.mp hevent
  exact said.done_notMem_events (hdone ▸ hmem)

/-- The peer closes behind the frames that carry the reply. -/
theorem Took.received_finish {r : Reply} {d : Digest} {o : DigestOutcome}
    (took : Took d (r.chunks.flatMap Said.events) o) (fresh : d.machine = .new) :
    Received r (o.andThen fun d' => d'.finish serde []) := by
  have hmachine := took.machine
  rw [fresh, StreamMachine.feedAll_reply] at hmachine
  have hfinish : o.state.finish serde [] = o.state.close o.state.closeCause .streamEnded := by
    rw [Digest.finish]
    exact Outcome.andThen_of_running rfl _
  rw [Outcome.andThen_of_running took.running, hfinish]
  refine received_close hmachine _ ?_ took.calm
  rw [took.events, filter_done_events]

/-- The sentinel comes behind the frames that carry the reply. -/
theorem Took.received_sentinel {r : Reply} {d : Digest} {o : DigestOutcome}
    (took : Took d (r.chunks.flatMap Said.events) o) (fresh : d.machine = .new)
    {ev : SseEvent} {text : String} (carried : ev.text? = some text)
    (sentinel : trim text = "[DONE]") :
    Received r ((Digest.step serde o.state ev).after o.out) := by
  have hrefined : refined serde text = _ := refined_of_sentinel sentinel
  have hpayload := SseEvent.payload_of_text? carried
  have hverdict : frameVerdict serde ev = some (.doneSentinelConsumed, .streamEnded) := by
    unfold frameVerdict
    simp only [hpayload, hrefined, List.mem_singleton, if_true]
  have hdone := take_took hpayload hrefined .complete o.state
  have hmachine := hdone.machine
  rw [took.machine, fresh, StreamMachine.feedAll_reply] at hmachine
  rw [Digest.step, Outcome.andThen_of_running hdone.running]
  simp only [hverdict]
  rw [Outcome.after_after]
  refine received_close hmachine _ ?_ (List.forall_mem_append.mpr ⟨took.calm, hdone.calm⟩)
  rw [eventsOf_append, took.events, hdone.events, List.filter_append, filter_done_events]
  exact List.append_nil _

/-- **What was written is received**, as a whole body. -/
theorem Digest.ofBytes_of_writes {r : Reply} {frames : List Frame}
    (written : Writes serde r frames) {d : Digest} (fresh : d.machine = .new) :
    Received r (Digest.ofBytes serde d (frames.flatMap Frame.bytes)) := by
  obtain ⟨hopens, texts, behind, hdata, hspelled, hsentinel⟩ := written
  have hcut := decomposes_frames_bytes frames
  have hevents : frameEvents (frames.flatMap Frame.bytes) =
      frames.filterMap fun f => parseBlock f.block := by
    rw [hcut.events, List.filterMap_map]
    rfl
  have hdecodable : ∀ ev ∈ frames.filterMap fun f => parseBlock f.block,
      ∀ raw error, ev.payload ≠ .undecodable raw error := by
    intro ev hev
    obtain ⟨f, -, hparsed⟩ := List.mem_filterMap.mp hev
    exact Frame.decodable hparsed
  have hcarried : (frames.filterMap fun f => parseBlock f.block).filterMap SseEvent.text? =
      texts ++ behind := by
    rw [List.filterMap_filterMap, ← hdata]
    exact List.filterMap_congr fun f hf => f.parseBlock_text? (hopens f hf)
  rw [Digest.ofBytes, hevents, ← (decomposes_iff.mp hcut).2]
  cases behind with
  | nil =>
      rw [List.append_nil] at hcarried
      rw [← hcarried] at hspelled
      exact (run_step_took hdecodable hspelled d).received_finish fresh
  | cons sentinel more =>
      -- the frame of the sentinel stops the attempt, whatever is behind it
      obtain ⟨evs, later, hsplit, htexts, hlater⟩ := List.filterMap_eq_append_iff.mp hcarried
      obtain ⟨skipped, ev, rest, rfl, hskipped, hev, -⟩ := List.filterMap_eq_cons_iff.mp hlater
      rw [hsplit, ← List.append_assoc] at hdecodable ⊢
      have hfront : (evs ++ skipped).filterMap SseEvent.text? = texts := by
        rw [List.filterMap_append, htexts, List.filterMap_eq_nil_iff.mpr hskipped,
          List.append_nil]
      rw [← hfront] at hspelled
      have htook := run_step_took (List.forall_mem_append.mp hdecodable).1 hspelled d
      have hreceived : Received r ((step serde _ ev).after _) :=
        htook.received_sentinel fresh hev (hsentinel sentinel rfl)
      have hstop := hreceived.committed
      rw [Outcome.after_stop] at hstop
      rw [run_append, Outcome.andThen_of_running htook.running, run_cons_of_stop _ hstop,
        Outcome.andThen_of_stop (e := .complete (.committed r.outcome)) hstop]
      exact hreceived

theorem eventsOf_evidence (records : List EmissionRecord) :
    eventsOf (records.filterMap EmissionRecord.evidence) = eventsOf records := by
  rw [eventsOf, List.filterMap_filterMap]
  refine List.filterMap_congr fun r _ => ?_
  cases r <;> rfl

theorem EmissionRecord.Troubled.evidence {r : EmissionRecord} (troubled : r.Troubled) :
    r.evidence = some r := by
  cases r <;> first | rfl | exact troubled.elim

/-- **A reply is received as it was meant**, however it is divided on the way. -/
theorem runAttempt_of_writes {cfg : OpenAiConfig} {st : StreamState} {selectPolls now : ℕ}
    {wire : Wire} {r : Reply} {frames : List Frame} (fresh : st.machine = .new)
    (delivers : Delivers cfg serde st selectPolls now wire (frames.flatMap Frame.bytes))
    (written : Writes serde r frames) (messages : List Message) :
    (runAttempt cfg serde messages st selectPolls now wire).ended =
        .complete (.committed r.outcome) ∧
      (eventsOf (runAttempt cfg serde messages st selectPolls now wire).records).filter
          (· ≠ .done) = r.chunks.flatMap Said.events ∧
      ∀ rec ∈ (runAttempt cfg serde messages st selectPolls now wire).records,
        ¬rec.Troubled := by
  obtain ⟨hended, hrecords⟩ := runAttempt_of_delivers cfg serde delivers messages
  have hreceived := Digest.ofBytes_of_writes written (d := ⟨st.streamId, st.attempt, 0,
    st.machine, st.sawAnyContent⟩) fresh
  refine ⟨Option.some.inj (hended.trans hreceived.committed), ?_, ?_⟩
  · rw [← eventsOf_evidence, hrecords]
    exact hreceived.events
  · intro rec hrec htroubled
    refine hreceived.calm rec ?_ htroubled
    rw [← hrecords]
    exact List.mem_filterMap.mpr ⟨rec, hrec, htroubled.evidence⟩

end RarChat
