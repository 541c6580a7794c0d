import RarChat.Driver
import RarChat.Text

/-!
# Normalization of OpenAI-compatible chunks

The first half of `event_handler.rs`: what one data payload means.  JSON is
read by `serde_json`, which is outside the repository: `SerdeJson` is what the
program uses of it, namely the value a text spells, the wording of its errors and
the wording of a value.  How a value becomes a `Chunk` is what
`derive(Deserialize)` generates for the repository's own structures, and is
defined here: unknown keys are ignored, a repeated key is an error, an absent or
`null` optional field is `None`, and a structure may also be spelled as an array
of its fields.
-/

namespace RarChat

/-! ## JSON values -/

inductive JsonNumber
  | posInt (n : ℕ)
  | negInt (n : ℕ)
  | float (text : String)
deriving DecidableEq, Repr

inductive Json
  | null
  | bool (b : Bool)
  | number (n : JsonNumber)
  | string (s : String)
  | array (items : List Json)
  | object (fields : List (String × Json))

/-- What the program uses of `serde_json`. -/
structure SerdeJson where
  /-- The value a text spells, if it is JSON. -/
  fromStr : String → Option Json
  /-- The error text of `from_str::<Chunk>` on a text it rejects. -/
  chunkError : String → String
  /-- `impl Display for Value`. -/
  display : Json → String

/-- The reader that knows the texts of a table and no other. -/
def SerdeJson.ofTable (table : List (String × Json)) : SerdeJson where
  fromStr text := table.lookup text
  chunkError _ := "expected value at line 1 column 1"
  display _ := "{}"

/-! ## `derive(Deserialize)` -/

/-- The value of a key: `none` when the key is repeated, `some none` when it is
absent. -/
def fieldOf (name : String) (fields : List (String × Json)) :
    Option (Option Json) :=
  match fields.filter fun f => f.1 == name with
  | [] => some none
  | [f] => some (some f.2)
  | _ => none

def decodeOption {α : Type} (decode : Json → Option α) : Json → Option (Option α)
  | .null => some none
  | j => (decode j).map some

def optionField {α : Type} (decode : Json → Option α) (name : String)
    (fields : List (String × Json)) : Option (Option α) :=
  match fieldOf name fields with
  | none => none
  | some none => some none
  | some (some j) => decodeOption decode j

def requiredField {α : Type} (decode : Json → Option α) (name : String)
    (fields : List (String × Json)) : Option α :=
  match fieldOf name fields with
  | some (some j) => decode j
  | _ => none

def defaultField {α : Type} (default : α) (decode : Json → Option α)
    (name : String) (fields : List (String × Json)) : Option α :=
  match fieldOf name fields with
  | none => none
  | some none => some default
  | some (some j) => decode j

def decodeString : Json → Option String
  | .string s => some s
  | _ => none

def decodeU32 : Json → Option UInt32
  | .number (.posInt n) => if n < 4294967296 then some (UInt32.ofNat n) else none
  | _ => none

def decodeValue : Json → Option Json := some

structure Delta where
  content : Option String
  toolCalls : Option Json

def Delta.default : Delta := ⟨none, none⟩

def Delta.decode : Json → Option Delta
  | .object fields => do
      let content ← optionField decodeString "content" fields
      let toolCalls ← optionField decodeValue "tool_calls" fields
      some ⟨content, toolCalls⟩
  | .array [c, t] => do
      let content ← decodeOption decodeString c
      let toolCalls ← decodeOption decodeValue t
      some ⟨content, toolCalls⟩
  | _ => none

structure Choice where
  delta : Delta
  finishReason : Option String

def Choice.decode : Json → Option Choice
  | .object fields => do
      let delta ← defaultField Delta.default Delta.decode "delta" fields
      let finishReason ← optionField decodeString "finish_reason" fields
      some ⟨delta, finishReason⟩
  | .array [d, f] => do
      let delta ← Delta.decode d
      let finishReason ← decodeOption decodeString f
      some ⟨delta, finishReason⟩
  | _ => none

def decodeChoices : Json → Option (List Choice)
  | .array items => items.mapM Choice.decode
  | _ => none

structure Usage where
  promptTokens : UInt32
  completionTokens : UInt32
  totalTokens : UInt32

def Usage.decode : Json → Option Usage
  | .object fields => do
      let promptTokens ← requiredField decodeU32 "prompt_tokens" fields
      let completionTokens ← requiredField decodeU32 "completion_tokens" fields
      let totalTokens ← requiredField decodeU32 "total_tokens" fields
      some ⟨promptTokens, completionTokens, totalTokens⟩
  | .array [p, c, t] => do
      let promptTokens ← decodeU32 p
      let completionTokens ← decodeU32 c
      let totalTokens ← decodeU32 t
      some ⟨promptTokens, completionTokens, totalTokens⟩
  | _ => none

structure Chunk where
  choices : List Choice
  usage : Option Usage
  error : Option Json

def Chunk.decode : Json → Option Chunk
  | .object fields => do
      let choices ← defaultField [] decodeChoices "choices" fields
      let usage ← optionField Usage.decode "usage" fields
      let error ← optionField decodeValue "error" fields
      some ⟨choices, usage, error⟩
  | .array [c, u, e] => do
      let choices ← decodeChoices c
      let usage ← decodeOption Usage.decode u
      let error ← decodeOption decodeValue e
      some ⟨choices, usage, error⟩
  | _ => none

/-- `serde_json::from_str::<Chunk>`. -/
def SerdeJson.chunk (serde : SerdeJson) (data : String) : Option Chunk :=
  (serde.fromStr data).bind Chunk.decode

/-! ## `normalize` -/

/-- Outcome of normalizing one data installment. -/
structure Normalized where
  events : List DriverEvent
  unhandledChannels : List String
  multipleChoices : Option ℕ
deriving DecidableEq, Repr

/-- The events of one choice. -/
def Choice.events (c : Choice) : List DriverEvent :=
  (match c.delta.content with
    | some t => if t.isEmpty then [] else [.textDelta t]
    | none => []) ++
  (match c.finishReason with
    | some r => [.finish r]
    | none => [])

/-- A choice brings its text, if there is any, ahead of its finish reason. -/
theorem Choice.events_eq (c : Choice) :
    c.events = (c.delta.content.toList.filter (· ≠ "")).map .textDelta ++
      c.finishReason.toList.map .finish := by
  unfold Choice.events
  cases c.delta.content with
  | none => cases c.finishReason <;> rfl
  | some text =>
      by_cases hempty : text = "" <;> cases c.finishReason <;> simp [hempty]

/-- The channels of one choice that are not interpreted. -/
def Choice.unhandled (c : Choice) : List String :=
  if c.delta.toolCalls.isSome then ["tool_calls"] else []

def Usage.event (u : Usage) : DriverEvent :=
  .usage u.promptTokens u.completionTokens u.totalTokens

/-- What a chunk without an error object normalizes to. -/
def Chunk.normalized (chunk : Chunk) : Normalized where
  events := chunk.choices.flatMap Choice.events ++ (chunk.usage.map Usage.event).toList
  unhandledChannels := chunk.choices.flatMap Choice.unhandled
  multipleChoices :=
    if 1 < chunk.choices.length then some chunk.choices.length else none

def normalize (serde : SerdeJson) (data : String) : Except String Normalized :=
  if trim data = "[DONE]" then .ok ⟨[.done], [], none⟩
  else
    match serde.chunk data with
    | none =>
        let e := serde.chunkError data
        .error s!"unparseable chunk: {e}"
    | some chunk =>
        match chunk.error with
        | some err =>
            let text := serde.display err
            .error s!"server error in stream: {text}"
        | none => .ok chunk.normalized

/-- **What is normalized** is the sentinel, or a chunk without an error object. -/
theorem normalize_cases {serde : SerdeJson} {data : String} {norm : Normalized}
    (ok : normalize serde data = .ok norm) :
    (trim data = "[DONE]" ∧ norm = ⟨[.done], [], none⟩) ∨
      (trim data ≠ "[DONE]" ∧ ∃ chunk, serde.chunk data = some chunk ∧
        chunk.error = none ∧ norm = chunk.normalized) := by
  unfold normalize at ok
  split_ifs at ok with hdone
  · exact .inl ⟨hdone, (Except.ok.inj ok).symm⟩
  · refine .inr ⟨hdone, ?_⟩
    cases hchunk : serde.chunk data with
    | none => simp [hchunk] at ok
    | some chunk =>
        cases herror : chunk.error with
        | some err => simp [hchunk, herror] at ok
        | none =>
            simp only [hchunk, herror, Except.ok.injEq] at ok
            exact ⟨chunk, rfl, herror, ok.symm⟩

/-- No chunk brings the sentinel. -/
theorem Chunk.done_notMem (chunk : Chunk) : .done ∉ chunk.normalized.events := by
  intro hdone
  rcases List.mem_append.mp hdone with hdone | hdone
  · obtain ⟨choice, -, hchoice⟩ := List.mem_flatMap.mp hdone
    rw [choice.events_eq] at hchoice
    simp at hchoice
  · cases husage : chunk.usage <;> simp [husage, Usage.event] at hdone

/-- **The sentinel stands alone**: a payload that brings `[DONE]` brings nothing else. -/
theorem normalize_of_done {serde : SerdeJson} {data : String} {norm : Normalized}
    (ok : normalize serde data = .ok norm) (done : .done ∈ norm.events) :
    norm.events = [.done] := by
  rcases normalize_cases ok with ⟨-, rfl⟩ | ⟨-, chunk, -, -, rfl⟩
  · rfl
  · exact absurd done chunk.done_notMem

end RarChat
