import RarChat.ChoiceMerge

/-!
# The channels of a delta

A delta object may carry any number of channels besides its content.  `Delta` names one of
them, `tool_calls`, and deserialization ignores the other keys, so `normalize` never sees
them (`surfaced_iff`): of a chunk of one choice the channel `tool_calls` is surfaced, and
every other one is dropped with the keys that are ignored.
-/

namespace RarChat

/-! ## Delta objects on the wire -/

/-- The delta of a choice, as `Choice.decode` finds it. -/
def rawDelta : Json → Option Json
  | .object fields => (fieldOf "delta" fields).join
  | .array (delta :: _) => some delta
  | _ => none

/-- The keys of the delta object of a choice, with their values. -/
def deltaFields (choice : Json) : List (String × Json) :=
  match rawDelta choice with
  | some (.object fields) => fields
  | _ => []

variable (serde : SerdeJson)

/-- The delta objects of a payload, one for each choice. -/
def payloadDeltas (payload : String) : List (List (String × Json)) :=
  if trim payload = "[DONE]" then []
  else
    match serde.fromStr payload with
    | some value => (rawChoices value).map deltaFields
    | none => []

/-- **Every channel is surfaced**: each key of a delta object of the payload that is not the
content or the role, and is not `null`, has its note. -/
def Surfaced (st : StreamState) (seq : ℕ) (payload : String) (status : InstallmentStatus) :
    Prop :=
  ∀ fields ∈ payloadDeltas serde payload, ∀ key value, (key, value) ∈ fields →
    key ≠ "content" → key ≠ "role" → value ≠ .null →
      .wire st.streamId st.attempt (.unhandledChannel key) ∈
        (onInstallment serde st seq .data payload status).records

/-! ## What deserialization keeps -/

section

variable {serde : SerdeJson}

theorem decodeChoices_eq_some {j : Json} {choices : List Choice}
    (h : decodeChoices j = some choices) :
    ∃ items, j = .array items ∧ items.mapM Choice.decode = some choices := by
  cases j with
  | array items => exact ⟨items, rfl, h⟩
  | null => cases h
  | bool b => cases h
  | number n => cases h
  | string s => cases h
  | object fields => cases h

/-- The choices of a chunk are those on the wire, decoded. -/
theorem Chunk.decode_choices {value : Json} {chunk : Chunk}
    (h : Chunk.decode value = some chunk) :
    (rawChoices value).mapM Choice.decode = some chunk.choices := by
  unfold Chunk.decode at h
  split at h
  · obtain ⟨choices, hchoices, h⟩ := Option.bind_eq_some_iff.mp h
    obtain ⟨usage, -, h⟩ := Option.bind_eq_some_iff.mp h
    obtain ⟨error, -, h⟩ := Option.bind_eq_some_iff.mp h
    obtain rfl := Option.some.inj h
    unfold defaultField at hchoices
    unfold rawChoices
    split at hchoices
    · cases hchoices
    · obtain rfl := Option.some.inj hchoices
      simp [*]
    · obtain ⟨items, rfl, hitems⟩ := decodeChoices_eq_some hchoices
      simp [*]
  · obtain ⟨choices, hchoices, h⟩ := Option.bind_eq_some_iff.mp h
    obtain ⟨usage, -, h⟩ := Option.bind_eq_some_iff.mp h
    obtain ⟨error, -, h⟩ := Option.bind_eq_some_iff.mp h
    obtain rfl := Option.some.inj h
    obtain ⟨items, rfl, hitems⟩ := decodeChoices_eq_some hchoices
    exact hitems
  · cases h

/-- A key that is there has its value, unless it is repeated. -/
theorem fieldOf_of_mem {name : String} {value : Json} {fields : List (String × Json)}
    (mem : (name, value) ∈ fields) :
    fieldOf name fields = none ∨ fieldOf name fields = some (some value) := by
  have hfilter : (name, value) ∈ fields.filter fun f => f.1 == name :=
    List.mem_filter.mpr ⟨mem, beq_self_eq_true name⟩
  unfold fieldOf
  split
  · next hnil =>
      rw [hnil] at hfilter
      cases hfilter
  · next f hone =>
      rw [hone] at hfilter
      obtain rfl := List.mem_singleton.mp hfilter
      exact .inr rfl
  · exact .inl rfl

theorem decodeOption_of_present {α : Type} (decode : Json → Option α) {value : Json}
    (present : value ≠ .null) : decodeOption decode value = (decode value).map some := by
  unfold decodeOption
  split
  · exact absurd rfl present
  · rfl

/-- Tool calls that are there are kept. -/
theorem Delta.decode_toolCalls {fields : List (String × Json)} {delta : Delta} {value : Json}
    (h : Delta.decode (.object fields) = some delta) (mem : ("tool_calls", value) ∈ fields)
    (present : value ≠ .null) : delta.toolCalls.isSome = true := by
  obtain ⟨content, -, h⟩ := Option.bind_eq_some_iff.mp h
  obtain ⟨toolCalls, htools, h⟩ := Option.bind_eq_some_iff.mp h
  obtain rfl := Option.some.inj h
  unfold optionField at htools
  rcases fieldOf_of_mem mem with hrepeated | hvalue
  · simp [hrepeated] at htools
  · rw [hvalue] at htools
    have hkept := (decodeOption_of_present decodeValue present).symm.trans htools
    obtain rfl := Option.some.inj hkept
    rfl

/-- The delta of a choice is the one on the wire, decoded. -/
theorem Choice.decode_delta {j : Json} {choice : Choice} (h : Choice.decode j = some choice)
    {fields : List (String × Json)} (hdelta : rawDelta j = some (.object fields)) :
    Delta.decode (.object fields) = some choice.delta := by
  unfold Choice.decode at h
  split at h
  · obtain ⟨delta, hfield, h⟩ := Option.bind_eq_some_iff.mp h
    obtain ⟨reason, -, h⟩ := Option.bind_eq_some_iff.mp h
    obtain rfl := Option.some.inj h
    unfold defaultField at hfield
    unfold rawDelta at hdelta
    split at hfield
    · cases hfield
    · simp_all
    · simp_all
  · obtain ⟨delta, hfield, h⟩ := Option.bind_eq_some_iff.mp h
    obtain ⟨reason, -, h⟩ := Option.bind_eq_some_iff.mp h
    obtain rfl := Option.some.inj h
    obtain rfl := Option.some.inj hdelta
    exact hfield
  · cases h

/-- The one channel of a choice that is not interpreted. -/
theorem Choice.eq_toolCalls_of_unhandled {choice : Choice} {key : String}
    (h : key ∈ choice.unhandled) : key = "tool_calls" := by
  unfold Choice.unhandled at h
  split_ifs at h
  · exact List.mem_singleton.mp h
  · cases h

theorem Choice.toolCalls_mem_unhandled {j : Json} {choice : Choice}
    (h : Choice.decode j = some choice) {value : Json}
    (mem : ("tool_calls", value) ∈ deltaFields j) (present : value ≠ .null) :
    "tool_calls" ∈ choice.unhandled := by
  unfold deltaFields at mem
  split at mem
  · next fields hdelta =>
      have hkept := Delta.decode_toolCalls (Choice.decode_delta h hdelta) mem present
      rw [Choice.unhandled, if_pos hkept]
      exact List.mem_singleton.mpr rfl
  · cases mem

/-- A note names a channel exactly when the channel is among the unhandled ones. -/
theorem unhandledChannel_mem_iff {payload : String} {norm : Normalized}
    (ok : refined serde payload = .ok norm) (st : StreamState) (seq : ℕ)
    (status : InstallmentStatus) (key : String) :
    .wire st.streamId st.attempt (.unhandledChannel key) ∈
        (onInstallment serde st seq .data payload status).records ↔
      key ∈ norm.unhandledChannels := by
  rw [onInstallment_of_ok ok]
  simp

end

/-! ## Which channels are surfaced -/

/-- The delta objects of a chunk that is normalized, one for each of its choices. -/
theorem payloadDeltas_of_chunk {payload : String} {chunk : Chunk} (data : trim payload ≠ "[DONE]")
    (hchunk : serde.chunk payload = some chunk) :
    ∃ items : List Json, payloadDeltas serde payload = items.map deltaFields ∧
      items.mapM Choice.decode = some chunk.choices := by
  obtain ⟨value, hvalue, hdecode⟩ := Option.bind_eq_some_iff.mp hchunk
  refine ⟨rawChoices value, ?_, Chunk.decode_choices hdecode⟩
  rw [payloadDeltas, if_neg data, hvalue]

/-- The one choice on the wire is the one that is decoded, and its tool calls are kept. -/
theorem toolCalls_mem_of_single {items : List Json} {chunk : Chunk}
    (decoded : items.mapM Choice.decode = some chunk.choices) (one : chunk.choices.length = 1)
    {fields : List (String × Json)} (mem : fields ∈ items.map deltaFields) {value : Json}
    (calls : ("tool_calls", value) ∈ fields) (present : value ≠ .null) :
    "tool_calls" ∈ chunk.normalized.unhandledChannels := by
  obtain ⟨choice, hchoices⟩ := List.length_eq_one_iff.mp one
  obtain ⟨j, rfl⟩ := List.length_eq_one_iff.mp ((mapM_length decoded).trans one)
  obtain rfl := List.mem_singleton.mp mem
  rw [hchoices, List.mapM_cons] at decoded
  obtain ⟨choice', hdecode, hrest⟩ := Option.bind_eq_some_iff.mp decoded
  obtain rfl : choice' = choice := by simpa using hrest
  refine List.mem_flatMap.mpr ⟨choice', ?_, ?_⟩
  · rw [hchoices]
    exact List.mem_singleton.mpr rfl
  · exact Choice.toolCalls_mem_unhandled hdecode calls present

/-- **Which channels are surfaced.**  Of a payload that is normalized, every channel has its
note exactly when there is none but the tool calls of a single choice. -/
theorem surfaced_iff {payload : String} {norm : Normalized}
    (ok : normalize serde payload = .ok norm) (st : StreamState) (seq : ℕ)
    (status : InstallmentStatus) :
    Surfaced serde st seq payload status ↔
      ∀ fields ∈ payloadDeltas serde payload, ∀ key value, (key, value) ∈ fields →
        key ≠ "content" → key ≠ "role" → value ≠ .null →
          key = "tool_calls" ∧ (payloadDeltas serde payload).length = 1 := by
  rcases normalize_cases ok with ⟨hdone, -⟩ | ⟨hdata, chunk, hchunk, -, rfl⟩
  · -- the sentinel has no delta
    have hnone : payloadDeltas serde payload = [] := if_pos hdone
    unfold Surfaced
    rw [hnone]
    exact iff_of_true (fun fields h => by cases h) (fun fields h => by cases h)
  obtain ⟨items, hdeltas, hitems⟩ := payloadDeltas_of_chunk serde hdata hchunk
  have hlength : (payloadDeltas serde payload).length = chunk.choices.length := by
    rw [hdeltas, List.length_map, ← mapM_length hitems]
  unfold Surfaced
  rw [hlength]
  by_cases hmany : 1 < chunk.choices.length
  · -- more than one choice: the payload is rejected, and noted as nothing else
    have hrejected : refined serde payload =
        .error s!"multiple choices (n={chunk.choices.length}) not supported" := by
      simp [refined, ok, Chunk.normalized, hmany]
    obtain ⟨n, hstep⟩ := onInstallment_of_error hrejected st seq status
    rw [hstep]
    constructor
    · intro h fields hfields key value hkey hcontent hrole hpresent
      have hnote := h fields hfields key value hkey hcontent hrole hpresent
      simp at hnote
    · intro h fields hfields key value hkey hcontent hrole hpresent
      have hone := (h fields hfields key value hkey hcontent hrole hpresent).2
      omega
  · have hrefined : refined serde payload = .ok chunk.normalized := by
      simp [refined, ok, Chunk.normalized, hmany]
    simp only [unhandledChannel_mem_iff hrefined]
    constructor
    · intro h fields hfields key value hkey hcontent hrole hpresent
      obtain ⟨choice, hchoice, hunhandled⟩ := List.mem_flatMap.mp
        (h fields hfields key value hkey hcontent hrole hpresent)
      refine ⟨Choice.eq_toolCalls_of_unhandled hunhandled, ?_⟩
      have hpos := List.length_pos_of_mem hchoice
      omega
    · intro h fields hfields key value hkey hcontent hrole hpresent
      obtain ⟨rfl, hone⟩ := h fields hfields key value hkey hcontent hrole hpresent
      rw [hdeltas] at hfields
      exact toolCalls_mem_of_single hitems hone hfields hkey hpresent

/-- A chunk with one channel in its delta. -/
def channelChunk (channel : String) (value : Json) : Json :=
  .object [("choices", .array [.object [("delta", .object [(channel, value)])]])]

/-- Reasoning, as some endpoints send it beside the content. -/
def reasoningChunk : String :=
  "\x7b\"choices\":[\x7b\"delta\":\x7b\"reasoning_content\":\"hm\"\x7d\x7d]\x7d"

/-- The reader that knows this chunk. -/
def reasoningSerde : SerdeJson :=
  .ofTable [(reasoningChunk, channelChunk "reasoning_content" (.string "hm"))]

/-- Tool calls, with the text of the chunk left open. -/
def toolCallsSerde : SerdeJson := .ofTable [("t", channelChunk "tool_calls" (.array []))]

/-- Tool calls of a single choice are surfaced. -/
theorem surfaced_toolCalls : Surfaced toolCallsSerde (StreamState.new 1) 1 "t" .complete := by
  have hok : normalize toolCallsSerde "t" = .ok ⟨[], ["tool_calls"], none⟩ := by rfl
  have hdeltas : payloadDeltas toolCallsSerde "t" = [[("tool_calls", .array [])]] := by rfl
  refine (surfaced_iff toolCallsSerde hok (StreamState.new 1) 1 .complete).mpr ?_
  intro fields hfields key value hkey _ _ _
  rw [hdeltas] at hfields ⊢
  obtain rfl := List.mem_singleton.mp hfields
  obtain ⟨rfl, -⟩ := Prod.mk.inj (List.mem_singleton.mp hkey)
  exact ⟨rfl, rfl⟩

/-- Reasoning is normalized to nothing, and nothing is emitted for it. -/
theorem reasoning_dropped :
    normalize reasoningSerde reasoningChunk = .ok ⟨[], [], none⟩ ∧
      ¬Surfaced reasoningSerde (StreamState.new 1) 1 reasoningChunk .complete := by
  refine ⟨by rfl, fun h => ?_⟩
  have hrecords : (onInstallment reasoningSerde (StreamState.new 1) 1 .data reasoningChunk
      .complete).records = [] := by rfl
  have hnote := h [("reasoning_content", .string "hm")] (List.mem_singleton.mpr rfl)
    "reasoning_content" (.string "hm") (List.mem_singleton.mpr rfl) (by decide) (by decide)
    (by simp)
  rw [hrecords] at hnote
  cases hnote

end RarChat
