import RarChat.Emission
import RarChat.JsonText
import RarChat.OpenAi

/-!
# What is serialized

The JSON values of the two things the program writes as JSON: the records of a capture
(`emission.rs`, `driver.rs`) and the body of a request (`openai.rs`).  They are what
`derive(Serialize)` generates: a record is an object with its variant under `rec`, the
types inside it carry theirs under `kind`, and an event is tagged `ev` next to its content
`v`.  Names of variants are in snake case, and every number is an unsigned integer
(`EmissionRecord.toJson_plain`).

A capture is read by whoever has to find out what went wrong, so no two facts may be
written alike.  `ofJson` is a reader of the format, by the tags and names alone, and it
gets back every record (`EmissionRecord.ofJson_toJson`).
-/

namespace RarChat

/-! ## Values -/

def Json.num (n : ℕ) : Json := .number (.posInt n)

def Json.u32 (n : UInt32) : Json := .num n.toNat

/-- An internally tagged variant. -/
def Json.tagged (tag variant : String) (fields : List (String × Json)) : Json :=
  .object ((tag, .string variant) :: fields)

def InstallmentKind.toJson : InstallmentKind → Json
  | .data => .string "data"
  | .comment => .string "comment"

def InstallmentStatus.toJson : InstallmentStatus → Json
  | .complete => .string "complete"
  | .recoveredTail => .string "recovered_tail"

def DriverEvent.toJson : DriverEvent → Json
  | .textDelta text => .object [("ev", .string "text_delta"), ("v", .string text)]
  | .finish reason => .object [("ev", .string "finish"), ("v", .string reason)]
  | .usage promptTokens completionTokens totalTokens =>
      .object [("ev", .string "usage"), ("v", .object [("prompt_tokens", .u32 promptTokens),
        ("completion_tokens", .u32 completionTokens), ("total_tokens", .u32 totalTokens)])]
  | .done => .object [("ev", .string "done")]

def StreamEndCause.toJson : StreamEndCause → Json
  | .doneSentinelConsumed => .tagged "kind" "done_sentinel_consumed" []
  | .peerClosed => .tagged "kind" "peer_closed" []
  | .closedWithNoContent => .tagged "kind" "closed_with_no_content" []
  | .stallTimeout windowSecs => .tagged "kind" "stall_timeout" [("window_secs", .num windowSecs)]
  | .throughputStarved floorBps sustainedSecs =>
      .tagged "kind" "throughput_starved"
        [("floor_bps", .num floorBps), ("sustained_secs", .num sustainedSecs)]
  | .overallDeadline limitSecs =>
      .tagged "kind" "overall_deadline" [("limit_secs", .num limitSecs)]
  | .firstByteBackstop windowSecs =>
      .tagged "kind" "first_byte_backstop" [("window_secs", .num windowSecs)]
  | .transportError detail => .tagged "kind" "transport_error" [("detail", .string detail)]
  | .handlerDirected directive =>
      .tagged "kind" "handler_directed" [("directive", .string directive)]
  | .bufferOverflow limitBytes =>
      .tagged "kind" "buffer_overflow" [("limit_bytes", .num limitBytes)]
  | .httpError status body =>
      .tagged "kind" "http_error" [("status", .num status), ("body", .string body)]
  | .notAnEventStream contentType bodyPrefix =>
      .tagged "kind" "not_an_event_stream"
        [("content_type", .string contentType), ("body_prefix", .string bodyPrefix)]
  | .connectError detail => .tagged "kind" "connect_error" [("detail", .string detail)]
  | .multipleChoicesUnsupported n =>
      .tagged "kind" "multiple_choices_unsupported" [("n", .num n)]
  | .cancelled => .tagged "kind" "cancelled" []

def WireNote.toJson : WireNote → Json
  | .ttft ms => .tagged "kind" "ttft" [("ms", .num ms)]
  | .interReadGap ms bytes =>
      .tagged "kind" "inter_read_gap" [("ms", .num ms), ("bytes", .num bytes)]
  | .keepAliveComment => .tagged "kind" "keep_alive_comment" []
  | .eofWithoutDoneSentinel => .tagged "kind" "eof_without_done_sentinel" []
  | .readPacingEngaged => .tagged "kind" "read_pacing_engaged" []
  | .unhandledChannel channel =>
      .tagged "kind" "unhandled_channel" [("channel", .string channel)]

def SchedNote.toJson : SchedNote → Json
  | .contentThroughput bytesPerSec activeStreams =>
      .tagged "kind" "content_throughput"
        [("bytes_per_sec", .num bytesPerSec), ("active_streams", .num activeStreams)]
  | .selectWake arm => .tagged "kind" "select_wake" [("arm", .string arm)]
  | .emitLatencyUs us => .tagged "kind" "emit_latency_us" [("us", .num us)]

def LedgerEntry.toJson : LedgerEntry → Json
  | .sendBucketSpent availableAfter =>
      .tagged "kind" "send_bucket_spent" [("available_after", .u32 availableAfter)]
  | .sendBucketReturned availableAfter =>
      .tagged "kind" "send_bucket_returned" [("available_after", .u32 availableAfter)]
  | .sendBucketDenied => .tagged "kind" "send_bucket_denied" []
  | .retryAllowanceGranted total =>
      .tagged "kind" "retry_allowance_granted" [("total", .u32 total)]
  | .retryAllowanceSpent remaining =>
      .tagged "kind" "retry_allowance_spent" [("remaining", .u32 remaining)]

/-- `Option<(u32, u32, u32)>`. -/
def usageJson : Option (UInt32 × UInt32 × UInt32) → Json
  | none => .null
  | some (promptTokens, completionTokens, totalTokens) =>
      .array [.u32 promptTokens, .u32 completionTokens, .u32 totalTokens]

def TurnVerdictRecord.toJson : TurnVerdictRecord → Json
  | .committed finishReason chars usage =>
      .tagged "kind" "committed"
        [("finish_reason", .string finishReason), ("chars", .num chars),
          ("usage", usageJson usage)]
  | .failed fault => .tagged "kind" "failed" [("fault", .string fault)]
  | .failoverDirected afterAttempts =>
      .tagged "kind" "failover_directed" [("after_attempts", .u32 afterAttempts)]

def EmissionRecord.toJson : EmissionRecord → Json
  | .read stream attempt seq atMs wallUnixMs bytes gapMs =>
      .tagged "rec" "read"
        [("stream", .num stream), ("attempt", .u32 attempt), ("seq", .num seq),
          ("at_ms", .num atMs), ("wall_unix_ms", .num wallUnixMs), ("bytes", .num bytes),
          ("gap_ms", .num gapMs)]
  | .installment stream attempt seq firstRead lastRead bytes kind payload status =>
      .tagged "rec" "installment"
        [("stream", .num stream), ("attempt", .u32 attempt), ("seq", .num seq),
          ("first_read", .num firstRead), ("last_read", .num lastRead), ("bytes", .num bytes),
          ("kind", kind.toJson), ("payload", .string payload), ("status", status.toJson)]
  | .normalizedEvent stream attempt installmentSeq event =>
      .tagged "rec" "normalized_event"
        [("stream", .num stream), ("attempt", .u32 attempt),
          ("installment_seq", .num installmentSeq), ("event", event.toJson)]
  | .normalizationError stream attempt installmentSeq detail =>
      .tagged "rec" "normalization_error"
        [("stream", .num stream), ("attempt", .u32 attempt),
          ("installment_seq", .num installmentSeq), ("detail", .string detail)]
  | .undecodableInstallment stream attempt seq bytes error hexPrefix =>
      .tagged "rec" "undecodable_installment"
        [("stream", .num stream), ("attempt", .u32 attempt), ("seq", .num seq),
          ("bytes", .num bytes), ("error", .string error), ("hex_prefix", .string hexPrefix)]
  | .residue stream attempt bytes lossyText =>
      .tagged "rec" "residue"
        [("stream", .num stream), ("attempt", .u32 attempt), ("bytes", .num bytes),
          ("lossy_text", .string lossyText)]
  | .streamEnd stream attempt cause unconsumedBufferBytes =>
      .tagged "rec" "stream_end"
        [("stream", .num stream), ("attempt", .u32 attempt), ("cause", cause.toJson),
          ("unconsumed_buffer_bytes", .num unconsumedBufferBytes)]
  | .wire stream attempt note =>
      .tagged "rec" "wire"
        [("stream", .num stream), ("attempt", .u32 attempt), ("note", note.toJson)]
  | .ledger stream attempt entry =>
      .tagged "rec" "ledger"
        [("stream", .num stream), ("attempt", .u32 attempt), ("entry", entry.toJson)]
  | .anomaly stream attempt note =>
      .tagged "rec" "anomaly"
        [("stream", .num stream), ("attempt", .u32 attempt), ("note", .string note)]
  | .scheduler stream attempt note =>
      .tagged "rec" "scheduler"
        [("stream", .num stream), ("attempt", .u32 attempt), ("note", note.toJson)]
  | .turnTrailer stream formatVersion attempts verdict reads installments events
      normalizationErrors selectPolls capturePolicy =>
      .tagged "rec" "turn_trailer"
        [("stream", .num stream), ("format_version", .u32 formatVersion),
          ("attempts", .u32 attempts), ("verdict", verdict.toJson), ("reads", .num reads),
          ("installments", .num installments), ("events", .num events),
          ("normalization_errors", .num normalizationErrors),
          ("select_polls", .num selectPolls), ("capture_policy", .string capturePolicy)]
  | .captureDrop dropped => .tagged "rec" "capture_drop" [("dropped", .num dropped)]

/-! ## Reading a record back -/

def decodeNat : Json → Option ℕ
  | .number (.posInt n) => some n
  | _ => none

def InstallmentKind.ofJson : Json → Option InstallmentKind
  | .string "data" => some .data
  | .string "comment" => some .comment
  | _ => none

def InstallmentStatus.ofJson : Json → Option InstallmentStatus
  | .string "complete" => some .complete
  | .string "recovered_tail" => some .recoveredTail
  | _ => none

def usageOfJson : Json → Option (Option (UInt32 × UInt32 × UInt32))
  | .null => some none
  | .array [p, c, t] => do
      let promptTokens ← decodeU32 p
      let completionTokens ← decodeU32 c
      let totalTokens ← decodeU32 t
      some (some (promptTokens, completionTokens, totalTokens))
  | _ => none

/-- The variant of a tagged object, and its fields. -/
def Json.variant (tag : String) : Json → Option (String × List (String × Json))
  | .object fields => (requiredField decodeString tag fields).map fun variant => (variant, fields)
  | _ => none

def DriverEvent.ofJson (j : Json) : Option DriverEvent := do
  let (variant, fields) ← j.variant "ev"
  match variant with
  | "text_delta" => (requiredField decodeString "v" fields).map .textDelta
  | "finish" => (requiredField decodeString "v" fields).map .finish
  | "usage" =>
      let usage ← requiredField Usage.decode "v" fields
      some (.usage usage.promptTokens usage.completionTokens usage.totalTokens)
  | "done" => some .done
  | _ => none

def StreamEndCause.ofJson (j : Json) : Option StreamEndCause := do
  let (variant, fields) ← j.variant "kind"
  let nat := fun name => requiredField decodeNat name fields
  let text := fun name => requiredField decodeString name fields
  match variant with
  | "done_sentinel_consumed" => some .doneSentinelConsumed
  | "peer_closed" => some .peerClosed
  | "closed_with_no_content" => some .closedWithNoContent
  | "stall_timeout" => (nat "window_secs").map .stallTimeout
  | "throughput_starved" =>
      some (.throughputStarved (← nat "floor_bps") (← nat "sustained_secs"))
  | "overall_deadline" => (nat "limit_secs").map .overallDeadline
  | "first_byte_backstop" => (nat "window_secs").map .firstByteBackstop
  | "transport_error" => (text "detail").map .transportError
  | "handler_directed" => (text "directive").map .handlerDirected
  | "buffer_overflow" => (nat "limit_bytes").map .bufferOverflow
  | "http_error" => some (.httpError (← nat "status") (← text "body"))
  | "not_an_event_stream" =>
      some (.notAnEventStream (← text "content_type") (← text "body_prefix"))
  | "connect_error" => (text "detail").map .connectError
  | "multiple_choices_unsupported" => (nat "n").map .multipleChoicesUnsupported
  | "cancelled" => some .cancelled
  | _ => none

def WireNote.ofJson (j : Json) : Option WireNote := do
  let (variant, fields) ← j.variant "kind"
  let nat := fun name => requiredField decodeNat name fields
  match variant with
  | "ttft" => (nat "ms").map .ttft
  | "inter_read_gap" => some (.interReadGap (← nat "ms") (← nat "bytes"))
  | "keep_alive_comment" => some .keepAliveComment
  | "eof_without_done_sentinel" => some .eofWithoutDoneSentinel
  | "read_pacing_engaged" => some .readPacingEngaged
  | "unhandled_channel" =>
      (requiredField decodeString "channel" fields).map .unhandledChannel
  | _ => none

def SchedNote.ofJson (j : Json) : Option SchedNote := do
  let (variant, fields) ← j.variant "kind"
  let nat := fun name => requiredField decodeNat name fields
  match variant with
  | "content_throughput" =>
      some (.contentThroughput (← nat "bytes_per_sec") (← nat "active_streams"))
  | "select_wake" => (requiredField decodeString "arm" fields).map .selectWake
  | "emit_latency_us" => (nat "us").map .emitLatencyUs
  | _ => none

def LedgerEntry.ofJson (j : Json) : Option LedgerEntry := do
  let (variant, fields) ← j.variant "kind"
  let u32 := fun name => requiredField decodeU32 name fields
  match variant with
  | "send_bucket_spent" => (u32 "available_after").map .sendBucketSpent
  | "send_bucket_returned" => (u32 "available_after").map .sendBucketReturned
  | "send_bucket_denied" => some .sendBucketDenied
  | "retry_allowance_granted" => (u32 "total").map .retryAllowanceGranted
  | "retry_allowance_spent" => (u32 "remaining").map .retryAllowanceSpent
  | _ => none

def TurnVerdictRecord.ofJson (j : Json) : Option TurnVerdictRecord := do
  let (variant, fields) ← j.variant "kind"
  let text := fun name => requiredField decodeString name fields
  match variant with
  | "committed" =>
      some (.committed (← text "finish_reason") (← requiredField decodeNat "chars" fields)
        (← requiredField usageOfJson "usage" fields))
  | "failed" => (text "fault").map .failed
  | "failover_directed" =>
      (requiredField decodeU32 "after_attempts" fields).map .failoverDirected
  | _ => none

/-- A record of this variant, with these fields. -/
def EmissionRecord.ofFields (variant : String) (fields : List (String × Json)) :
    Option EmissionRecord := do
  let nat := fun name => requiredField decodeNat name fields
  let u32 := fun name => requiredField decodeU32 name fields
  let text := fun name => requiredField decodeString name fields
  match variant with
  | "read" =>
      some (.read (← nat "stream") (← u32 "attempt") (← nat "seq") (← nat "at_ms")
        (← nat "wall_unix_ms") (← nat "bytes") (← nat "gap_ms"))
  | "installment" =>
      some (.installment (← nat "stream") (← u32 "attempt") (← nat "seq")
        (← nat "first_read") (← nat "last_read") (← nat "bytes")
        (← requiredField InstallmentKind.ofJson "kind" fields) (← text "payload")
        (← requiredField InstallmentStatus.ofJson "status" fields))
  | "normalized_event" =>
      some (.normalizedEvent (← nat "stream") (← u32 "attempt") (← nat "installment_seq")
        (← requiredField DriverEvent.ofJson "event" fields))
  | "normalization_error" =>
      some (.normalizationError (← nat "stream") (← u32 "attempt")
        (← nat "installment_seq") (← text "detail"))
  | "undecodable_installment" =>
      some (.undecodableInstallment (← nat "stream") (← u32 "attempt") (← nat "seq")
        (← nat "bytes") (← text "error") (← text "hex_prefix"))
  | "residue" =>
      some (.residue (← nat "stream") (← u32 "attempt") (← nat "bytes") (← text "lossy_text"))
  | "stream_end" =>
      some (.streamEnd (← nat "stream") (← u32 "attempt")
        (← requiredField StreamEndCause.ofJson "cause" fields)
        (← nat "unconsumed_buffer_bytes"))
  | "wire" =>
      some (.wire (← nat "stream") (← u32 "attempt")
        (← requiredField WireNote.ofJson "note" fields))
  | "ledger" =>
      some (.ledger (← nat "stream") (← u32 "attempt")
        (← requiredField LedgerEntry.ofJson "entry" fields))
  | "anomaly" => some (.anomaly (← nat "stream") (← u32 "attempt") (← text "note"))
  | "scheduler" =>
      some (.scheduler (← nat "stream") (← u32 "attempt")
        (← requiredField SchedNote.ofJson "note" fields))
  | "turn_trailer" =>
      some (.turnTrailer (← nat "stream") (← u32 "format_version") (← u32 "attempts")
        (← requiredField TurnVerdictRecord.ofJson "verdict" fields) (← nat "reads")
        (← nat "installments") (← nat "events") (← nat "normalization_errors")
        (← nat "select_polls") (← text "capture_policy"))
  | "capture_drop" => (nat "dropped").map .captureDrop
  | _ => none

/-- **The reader of the format.** -/
def EmissionRecord.ofJson (j : Json) : Option EmissionRecord := do
  let (variant, fields) ← j.variant "rec"
  ofFields variant fields

@[simp] theorem decodeU32_u32 (n : UInt32) : decodeU32 (.u32 n) = some n := by
  have hn : n.toNat < 4294967296 := n.toNat_lt
  simp only [Json.u32, Json.num, decodeU32, if_pos hn, UInt32.ofNat_toNat]

@[simp] theorem decodeNat_num (n : ℕ) : decodeNat (.num n) = some n := rfl

@[simp] theorem decodeString_string (s : String) : decodeString (.string s) = some s := rfl

/-- A field is found at the front, if it is there once. -/
theorem requiredField_cons_self {α : Type} (decode : Json → Option α) {name : String}
    {fields : List (String × Json)} (once : name ∉ fields.map Prod.fst) (j : Json) :
    requiredField decode name ((name, j) :: fields) = decode j := by
  have hrest : fields.filter (fun f => f.1 == name) = [] := by
    rw [List.filter_eq_nil_iff]
    intro f hf hname
    exact once (beq_iff_eq.mp hname ▸ List.mem_map_of_mem hf)
  simp [requiredField, fieldOf, hrest]

/-- Another field is passed over. -/
theorem requiredField_cons_of_ne {α : Type} (decode : Json → Option α) {name other : String}
    (different : other ≠ name) (j : Json) (fields : List (String × Json)) :
    requiredField decode name ((other, j) :: fields) = requiredField decode name fields := by
  simp [requiredField, fieldOf, different]

/-! Each type inside a record is read back from its own value. -/

theorem InstallmentKind.ofJson_toJson (kind : InstallmentKind) :
    ofJson kind.toJson = some kind := by
  cases kind <;> rfl

theorem InstallmentStatus.ofJson_toJson (status : InstallmentStatus) :
    ofJson status.toJson = some status := by
  cases status <;> rfl

theorem usageOfJson_usageJson (usage : Option (UInt32 × UInt32 × UInt32)) :
    usageOfJson (usageJson usage) = some usage := by
  cases usage with
  | none => rfl
  | some triple => simp [usageOfJson, usageJson]

theorem DriverEvent.ofJson_toJson (event : DriverEvent) :
    ofJson event.toJson = some event := by
  cases event <;>
    simp [ofJson, toJson, Json.variant, requiredField_cons_self, requiredField_cons_of_ne, Usage.decode]

theorem StreamEndCause.ofJson_toJson (cause : StreamEndCause) :
    ofJson cause.toJson = some cause := by
  cases cause <;>
    simp [ofJson, toJson, Json.variant, Json.tagged, requiredField_cons_self,
      requiredField_cons_of_ne]

theorem WireNote.ofJson_toJson (note : WireNote) : ofJson note.toJson = some note := by
  cases note <;>
    simp [ofJson, toJson, Json.variant, Json.tagged, requiredField_cons_self,
      requiredField_cons_of_ne]

theorem SchedNote.ofJson_toJson (note : SchedNote) : ofJson note.toJson = some note := by
  cases note <;>
    simp [ofJson, toJson, Json.variant, Json.tagged, requiredField_cons_self,
      requiredField_cons_of_ne]

theorem LedgerEntry.ofJson_toJson (entry : LedgerEntry) :
    ofJson entry.toJson = some entry := by
  cases entry <;>
    simp [ofJson, toJson, Json.variant, Json.tagged, requiredField_cons_self,
      requiredField_cons_of_ne]

theorem TurnVerdictRecord.ofJson_toJson (verdict : TurnVerdictRecord) :
    ofJson verdict.toJson = some verdict := by
  cases verdict <;>
    simp [ofJson, toJson, Json.variant, Json.tagged, requiredField_cons_self,
      requiredField_cons_of_ne,
      usageOfJson_usageJson]

theorem EmissionRecord.ofJson_tagged {variant : String} {fields : List (String × Json)}
    (once : "rec" ∉ fields.map Prod.fst) :
    ofJson (.tagged "rec" variant fields) =
      ofFields variant (("rec", .string variant) :: fields) := by
  simp only [ofJson, Json.variant, Json.tagged, requiredField_cons_self _ once]
  rfl

/-- **Every record is read back** from its value: no two records are written alike. -/
theorem EmissionRecord.ofJson_toJson (record : EmissionRecord) :
    ofJson record.toJson = some record := by
  cases record <;>
    rw [toJson, ofJson_tagged (by simp)] <;>
    simp [ofFields, requiredField_cons_self, requiredField_cons_of_ne,
      InstallmentKind.ofJson_toJson, InstallmentStatus.ofJson_toJson,
      DriverEvent.ofJson_toJson, StreamEndCause.ofJson_toJson, WireNote.ofJson_toJson,
      SchedNote.ofJson_toJson, LedgerEntry.ofJson_toJson, TurnVerdictRecord.ofJson_toJson]

/-! ## No signs and no fractions -/

theorem Json.plain_num (n : ℕ) : (Json.num n).Plain := .number n

theorem Json.plain_u32 (n : UInt32) : (Json.u32 n).Plain := .number n.toNat

theorem Json.plain_tagged {tag variant : String} {fields : List (String × Json)}
    (all : ∀ f ∈ fields, f.2.Plain) : (Json.tagged tag variant fields).Plain :=
  .object (List.forall_mem_cons.mpr ⟨.string variant, all⟩)

attribute [simp] Json.plain_num Json.plain_u32 Json.Plain.string Json.Plain.bool

theorem InstallmentKind.toJson_plain (kind : InstallmentKind) : kind.toJson.Plain := by
  cases kind <;> exact .string _

theorem InstallmentStatus.toJson_plain (status : InstallmentStatus) : status.toJson.Plain := by
  cases status <;> exact .string _

theorem usageJson_plain (usage : Option (UInt32 × UInt32 × UInt32)) :
    (usageJson usage).Plain := by
  cases usage with
  | none => exact .null
  | some triple => exact .array (by simp)

theorem DriverEvent.toJson_plain (event : DriverEvent) : event.toJson.Plain := by
  cases event with
  | usage p c t =>
      refine .object ?_
      simp only [List.forall_mem_cons, List.not_mem_nil, false_implies, implies_true, and_true]
      exact ⟨.string _, .object (by simp)⟩
  | textDelta text => exact .object (by simp)
  | finish reason => exact .object (by simp)
  | done => exact .object (by simp)

theorem StreamEndCause.toJson_plain (cause : StreamEndCause) : cause.toJson.Plain := by
  cases cause <;> exact Json.plain_tagged (by simp)

theorem WireNote.toJson_plain (note : WireNote) : note.toJson.Plain := by
  cases note <;> exact Json.plain_tagged (by simp)

theorem SchedNote.toJson_plain (note : SchedNote) : note.toJson.Plain := by
  cases note <;> exact Json.plain_tagged (by simp)

theorem LedgerEntry.toJson_plain (entry : LedgerEntry) : entry.toJson.Plain := by
  cases entry <;> exact Json.plain_tagged (by simp)

theorem TurnVerdictRecord.toJson_plain (verdict : TurnVerdictRecord) : verdict.toJson.Plain := by
  cases verdict <;> exact Json.plain_tagged (by simp [usageJson_plain])

/-- **Every number of a record is an unsigned integer.** -/
theorem EmissionRecord.toJson_plain (record : EmissionRecord) : record.toJson.Plain := by
  cases record <;>
    exact Json.plain_tagged (by
      simp [InstallmentKind.toJson_plain, InstallmentStatus.toJson_plain,
        DriverEvent.toJson_plain, StreamEndCause.toJson_plain, WireNote.toJson_plain,
        SchedNote.toJson_plain, LedgerEntry.toJson_plain, TurnVerdictRecord.toJson_plain])

/-- **A capture line stands for one record**: it is one line, its record is read back from
it, and no other record is written so. -/
theorem EmissionRecord.line_reads_back {write : Json → Except String String}
    {read : String → Option Json} (agree : WritesLines write read) (record : EmissionRecord) :
    ∃ line, write record.toJson = .ok line ∧ '\n' ∉ line.toList ∧
      (read line).bind ofJson = some record ∧
        ∀ other : EmissionRecord, write other.toJson = .ok line → other = record := by
  obtain ⟨line, hwrite, hline, hread⟩ := agree record.toJson record.toJson_plain
  refine ⟨line, hwrite, hline, ?_, fun other hother => ?_⟩
  · rw [hread, Option.bind_some, ofJson_toJson]
  · obtain ⟨line', hwrite', -, hread'⟩ := agree other.toJson other.toJson_plain
    obtain rfl : line' = line := Except.ok.inj (hwrite'.symm.trans hother)
    have hjson : other.toJson = record.toJson := Option.some.inj (hread'.symm.trans hread)
    have hrecord := other.ofJson_toJson
    rw [hjson, record.ofJson_toJson] at hrecord
    exact (Option.some.inj hrecord).symm

/-- A payload with a line break and a quote in it. -/
def quotedInstallment : EmissionRecord :=
  .installment 1 1 3 2 2 21 .data "\"a\"\n" .recoveredTail

theorem line_reads_back_quoted :
    ∃ line, Except.ok (compactJson quotedInstallment.toJson) = (.ok line : Except String String) ∧
      '\n' ∉ line.toList ∧ (readCompact line).bind EmissionRecord.ofJson = some quotedInstallment :=
  let ⟨line, hwrite, hline, hread, _⟩ :=
    EmissionRecord.line_reads_back writesLines_compact quotedInstallment
  ⟨line, hwrite, hline, hread⟩

/-! ## Requests -/

def Message.toJson (m : Message) : Json :=
  .object [("role", .string m.role), ("content", .string m.content)]

def StreamOptions.toJson (o : StreamOptions) : Json :=
  .object [("include_usage", .bool o.includeUsage)]

/-- The body of a request; options that are not there are not written. -/
def ChatRequest.toJson (r : ChatRequest) : Json :=
  .object ([("model", .string r.model), ("messages", .array (r.messages.map Message.toJson)),
    ("stream", .bool r.stream)] ++
      r.streamOptions.toList.map fun o => ("stream_options", o.toJson))

def decodeBool : Json → Option Bool
  | .bool b => some b
  | _ => none

/-- `Message` is read by `derive(Deserialize)`. -/
def Message.ofJson : Json → Option Message
  | .object fields => do
      some ⟨← requiredField decodeString "role" fields,
        ← requiredField decodeString "content" fields⟩
  | _ => none

def decodeMessages : Json → Option (List Message)
  | .array items => items.mapM Message.ofJson
  | _ => none

def StreamOptions.ofJson : Json → Option StreamOptions
  | .object fields => (requiredField decodeBool "include_usage" fields).map .mk
  | _ => none

/-- What a server finds in a body. -/
def ChatRequest.ofJson : Json → Option ChatRequest
  | .object fields => do
      some ⟨← requiredField decodeString "model" fields,
        ← requiredField decodeMessages "messages" fields,
        ← requiredField decodeBool "stream" fields,
        ← optionField StreamOptions.ofJson "stream_options" fields⟩
  | _ => none

theorem Message.ofJson_toJson (m : Message) : ofJson m.toJson = some m := by
  simp [ofJson, toJson, requiredField_cons_self, requiredField_cons_of_ne]

theorem decodeMessages_map (messages : List Message) :
    decodeMessages (.array (messages.map Message.toJson)) = some messages := by
  show (messages.map Message.toJson).mapM Message.ofJson = some messages
  induction messages with
  | nil => rfl
  | cons m messages ih =>
      rw [List.map_cons, List.mapM_cons, Message.ofJson_toJson, Option.bind_eq_bind,
        Option.bind_some, ih]
      rfl

/-- **A request is read back from its body.** -/
theorem ChatRequest.ofJson_toJson (r : ChatRequest) : ofJson r.toJson = some r := by
  obtain ⟨model, messages, stream, streamOptions⟩ := r
  cases streamOptions with
  | none =>
      simp [ofJson, toJson, requiredField_cons_self, requiredField_cons_of_ne,
        decodeMessages_map, decodeBool, optionField, fieldOf]
  | some o =>
      simp [ofJson, toJson, requiredField_cons_self, requiredField_cons_of_ne,
        decodeMessages_map, decodeBool, optionField, fieldOf, decodeOption,
        StreamOptions.ofJson, StreamOptions.toJson]

theorem ChatRequest.toJson_plain (r : ChatRequest) : r.toJson.Plain := by
  refine .object ?_
  simp only [List.forall_mem_append, List.forall_mem_cons, List.not_mem_nil, false_implies,
    implies_true, and_true, List.forall_mem_map]
  refine ⟨⟨.string _, .array ?_, .bool _⟩, fun o _ => .object (by simp)⟩
  simp only [List.forall_mem_map]
  exact fun m _ => .object (by simp)

end RarChat
