import RarChat.ChoiceMerge
import RarChat.Finalization

/-!
# When a call has completed

INV-CHAT-04 and INV-CHAT-05, and the decisions DEC-CHAT-04 and DEC-CHAT-05, for the data
installments of one attempt.  What the chunks carry is read off them choice by choice
(`deltaContents`, `finishReasons`, `usages`), with no regard to the events they are
normalized to; the reply that the machine settles on is a function of that alone
(`completion_semantics`).

A chunk of one choice brings its text ahead of its finish reason, so a late text is one
that comes with a later chunk.
-/

namespace RarChat

variable (serde : SerdeJson)

/-! ## What the chunks carry -/

/-- The payload is the sentinel. -/
def isSentinel (payload : String) : Bool := trim payload = "[DONE]"

/-- The chunk that a payload spells, if it is none. -/
def chunkOf (payload : String) : Option Chunk :=
  if isSentinel payload then none else serde.chunk payload

/-- The `delta.content` strings of a payload. -/
def deltaContents (payload : String) : List String :=
  ((chunkOf serde payload).map fun chunk =>
    chunk.choices.filterMap fun choice => choice.delta.content).getD []

/-- Its finish reasons that are not `null`. -/
def finishReasons (payload : String) : List String :=
  ((chunkOf serde payload).map fun chunk =>
    chunk.choices.filterMap Choice.finishReason).getD []

/-- Its usage. -/
def usages (payload : String) : List (UInt32 × UInt32 × UInt32) :=
  (((chunkOf serde payload).bind Chunk.usage).map fun u =>
    (u.promptTokens, u.completionTokens, u.totalTokens)).toList

/-- The payload normalizes without an error, to one choice at most. -/
def SingleChoice (payload : String) : Prop :=
  ∃ norm, normalize serde payload = .ok norm ∧ norm.multipleChoices = none

/-- The text that comes behind the first chunk with a finish reason. -/
def lateContents (payloads : List String) : List String :=
  (payloads.dropWhile fun payload => (finishReasons serde payload).isEmpty).tail.flatMap
    (deltaContents serde)

/-- The records of `onInstallment` on each payload in turn. -/
def installmentRecords : StreamState → ℕ → List String → List EmissionRecord
  | _, _, [] => []
  | st, seq, payload :: payloads =>
      let step := onInstallment serde st seq .data payload .complete
      step.records ++ installmentRecords step.state (seq + 1) payloads

variable {serde}

/-! ## One payload -/

theorem SingleChoice.accepted {payload : String} (single : SingleChoice serde payload) :
    ∃ norm, accepted serde payload = some norm ∧ normalize serde payload = .ok norm ∧
      norm.multipleChoices = none := by
  obtain ⟨norm, hnorm, hsingle⟩ := single
  refine ⟨norm, ?_, hnorm, hsingle⟩
  rw [accepted_eq_some_iff, refined]
  simp [hnorm, hsingle]

/-- A chunk that is normalized is one without an error object. -/
theorem normalize_eq_ok {payload : String} {norm : Normalized}
    (ok : normalize serde payload = .ok norm) :
    (isSentinel payload = true ∧ norm = ⟨[.done], [], none⟩) ∨
      ∃ chunk, chunkOf serde payload = some chunk ∧ norm = chunk.normalized := by
  rcases normalize_cases ok with ⟨hdone, rfl⟩ | ⟨hdone, chunk, hchunk, -, rfl⟩
  · exact .inl ⟨by simpa [isSentinel] using hdone, rfl⟩
  · refine .inr ⟨chunk, ?_, rfl⟩
    simpa [chunkOf, isSentinel, hdone] using hchunk

/-- What a payload brings behind its finish reason. -/
def behindReason (serde : SerdeJson) (payload : String) : List DriverEvent :=
  (usages serde payload).map (fun u => .usage u.1 u.2.1 u.2.2) ++
    if isSentinel payload then [.done] else []

/-- What a payload of one choice at most brings, in the order of `normalize`. -/
def carriedEvents (serde : SerdeJson) (payload : String) : List DriverEvent :=
  ((deltaContents serde payload).filter (· ≠ "")).map .textDelta ++
    (finishReasons serde payload).map .finish ++ behindReason serde payload

/-- **The events of a payload**: the sentinel brings a `done` and nothing else; a chunk
brings its text if there is any, then its finish reason, then its usage. -/
theorem events_of_single {payload : String} {norm : Normalized}
    (ok : normalize serde payload = .ok norm) (single : norm.multipleChoices = none) :
    norm.events = carriedEvents serde payload ∧ (finishReasons serde payload).length ≤ 1 := by
  rcases normalize_eq_ok ok with ⟨hsentinel, rfl⟩ | ⟨chunk, hchunk, rfl⟩
  · have hnone : chunkOf serde payload = none := if_pos hsentinel
    simp [carriedEvents, behindReason, deltaContents, finishReasons, usages, hnone, hsentinel]
  · have hnot : isSentinel payload = false := by
      by_contra hsentinel
      simp [chunkOf, hsentinel] at hchunk
    have hone : chunk.choices.length ≤ 1 := by
      by_contra hmany
      simp [Chunk.normalized, Nat.lt_of_not_le hmany] at single
    have husage : (chunk.usage.map Usage.event).toList =
        (usages serde payload).map fun u => .usage u.1 u.2.1 u.2.2 := by
      cases hu : chunk.usage <;> simp [usages, hchunk, hu, Usage.event]
    rw [carriedEvents, behindReason, ← husage, hnot]
    cases hchoices : chunk.choices with
    | nil => simp [Chunk.normalized, deltaContents, finishReasons, hchunk, hchoices]
    | cons choice more =>
        obtain rfl : more = [] := by simpa [hchoices] using hone
        have htexts : deltaContents serde payload = choice.delta.content.toList := by
          cases hcontent : choice.delta.content <;>
            simp [deltaContents, hchunk, hchoices, hcontent]
        have hreasons : finishReasons serde payload = choice.finishReason.toList := by
          cases hreason : choice.finishReason <;>
            simp [finishReasons, hchunk, hchoices, hreason]
        rw [Chunk.normalized, hchoices, List.flatMap_singleton, choice.events_eq, htexts,
          hreasons]
        refine ⟨by simp, ?_⟩
        cases choice.finishReason <;> simp

theorem filterMap_behindReason (payload : String) :
    (behindReason serde payload).filterMap DriverEvent.text? = [] ∧
      (behindReason serde payload).filterMap DriverEvent.finish? = [] := by
  unfold behindReason
  split_ifs <;>
    simp [List.filterMap_map, Function.comp_def, DriverEvent.text?, DriverEvent.finish?]

theorem filterMap_text?_carried (payload : String) :
    (carriedEvents serde payload).filterMap DriverEvent.text? =
      (deltaContents serde payload).filter (· ≠ "") := by
  rw [carriedEvents, List.filterMap_append, (filterMap_behindReason payload).1]
  simp [List.filterMap_map, Function.comp_def, DriverEvent.text?]

theorem filterMap_finish?_carried (payload : String) :
    (carriedEvents serde payload).filterMap DriverEvent.finish? =
      finishReasons serde payload := by
  rw [carriedEvents, List.filterMap_append, (filterMap_behindReason payload).2]
  simp [List.filterMap_map, Function.comp_def, DriverEvent.finish?]

theorem filterMap_usage?_carried (payload : String) :
    (carriedEvents serde payload).filterMap DriverEvent.usage? = usages serde payload := by
  unfold carriedEvents behindReason
  split_ifs <;> simp [List.filterMap_map, Function.comp_def, DriverEvent.usage?]

/-! ## All payloads -/

theorem filterMap_text?_flatMap (payloads : List String) :
    (payloads.flatMap (carriedEvents serde)).filterMap DriverEvent.text? =
      (payloads.flatMap (deltaContents serde)).filter (· ≠ "") := by
  rw [List.filterMap_flatMap, List.filter_flatMap]
  simp only [filterMap_text?_carried]

theorem filterMap_finish?_flatMap (payloads : List String) :
    (payloads.flatMap (carriedEvents serde)).filterMap DriverEvent.finish? =
      payloads.flatMap (finishReasons serde) := by
  rw [List.filterMap_flatMap]
  simp only [filterMap_finish?_carried]

theorem filterMap_usage?_flatMap (payloads : List String) :
    (payloads.flatMap (carriedEvents serde)).filterMap DriverEvent.usage? =
      payloads.flatMap (usages serde) := by
  rw [List.filterMap_flatMap]
  simp only [filterMap_usage?_carried]

/-- **The machine is fed what the payloads carry.** -/
theorem feedInstallments_carried {payloads : List String}
    (single : ∀ payload ∈ payloads, SingleChoice serde payload) (st : StreamState)
    (seq : ℕ) :
    (feedInstallments serde st seq payloads).1.machine =
      st.machine.feedAll (payloads.flatMap (carriedEvents serde)) := by
  rw [feedInstallments_machine]
  refine congrArg st.machine.feedAll (List.flatMap_congr fun payload hpayload => ?_)
  obtain ⟨norm, hacc, hnorm, hsingle⟩ := (single payload hpayload).accepted
  rw [hacc]
  exact (events_of_single hnorm hsingle).1

/-- **The anomalies** of a machine that waits for a finish reason: the late texts, and the
finish reasons but the first. -/
theorem feedAll_carried_anomalies {payloads : List String}
    (single : ∀ payload ∈ payloads, (finishReasons serde payload).length ≤ 1)
    (m : StreamMachine) (pending : m.finishReason = none) :
    (m.feedAll (payloads.flatMap (carriedEvents serde))).anomalies.length =
      m.anomalies.length + ((lateContents serde payloads).filter (· ≠ "")).length +
        ((payloads.flatMap (finishReasons serde)).length - 1) := by
  induction payloads generalizing m with
  | nil => rfl
  | cons payload payloads ih =>
      obtain ⟨hone, hrest⟩ := List.forall_mem_cons.mp single
      rw [List.flatMap_cons, List.flatMap_cons, StreamMachine.feedAll_append]
      cases hreasons : finishReasons serde payload with
      | nil =>
          -- the machine goes on waiting
          have hquiet : (carriedEvents serde payload).filterMap DriverEvent.finish? = [] :=
            (filterMap_finish?_carried payload).trans hreasons
          have hpending : (m.feedAll (carriedEvents serde payload)).finishReason = none := by
            rw [StreamMachine.feedAll_finishReason, hquiet, pending]
            rfl
          have hlate : lateContents serde (payload :: payloads) =
              lateContents serde payloads := by
            simp [lateContents, hreasons]
          rw [ih hrest _ hpending, hlate,
            StreamMachine.feedAll_anomalies_of_unfinished m pending hquiet]
          rfl
      | cons reason more =>
          obtain rfl : more = [] := by simpa [hreasons] using hone
          have hlate : lateContents serde (payload :: payloads) =
              payloads.flatMap (deltaContents serde) := by
            simp [lateContents, hreasons]
          -- its own text comes in front of the reason, so it is not late
          have hsplit : carriedEvents serde payload ++ payloads.flatMap (carriedEvents serde) =
              ((deltaContents serde payload).filter (· ≠ "")).map .textDelta ++
                .finish reason :: (behindReason serde payload ++
                  payloads.flatMap (carriedEvents serde)) := by
            simp [carriedEvents, behindReason, hreasons]
          have hfront : ((((deltaContents serde payload).filter (· ≠ "")).map
              DriverEvent.textDelta).filterMap DriverEvent.finish?) = [] := by
            simp [List.filterMap_map, Function.comp_def, DriverEvent.finish?]
          rw [← StreamMachine.feedAll_append, hsplit,
            StreamMachine.feedAll_anomalies_of_first m pending hfront, List.filterMap_append,
            List.filterMap_append, (filterMap_behindReason payload).1,
            (filterMap_behindReason payload).2, filterMap_text?_flatMap,
            filterMap_finish?_flatMap, hlate]
          simp

/-! ## The verdict -/

/-- The reply that the chunks amount to. -/
def settledReply (serde : SerdeJson) (payloads : List String) : TurnResolution :=
  let text := String.join (payloads.flatMap (deltaContents serde))
  match (payloads.flatMap (finishReasons serde)).head? with
  | some reason =>
      .committed ⟨text, reason, (payloads.flatMap (usages serde)).getLast?⟩
  | none => .fault (if text = "" then .emptyStream else .truncated text.length)

theorem join_filter_ne_empty (texts : List String) :
    String.join (texts.filter (· ≠ "")) = String.join texts := by
  induction texts with
  | nil => rfl
  | cons text texts ih =>
      by_cases hempty : text = ""
      · rw [List.filter_cons_of_neg (by simpa using hempty), ih]
        simp [hempty]
      · rw [List.filter_cons_of_pos (by simpa using hempty)]
        simpa using ih

/-- **The verdict of an attempt** whose stream ended. -/
theorem finalizeAttempt_settled {payloads : List String}
    (single : ∀ payload ∈ payloads, SingleChoice serde payload) (st : StreamState)
    (seq : ℕ) :
    (finalizeAttempt (feedInstallments serde st.beginAttempt seq payloads).1
      .streamEnded).resolution = settledReply serde payloads := by
  have hmachine := feedInstallments_carried single st.beginAttempt seq
  have hcontent := StreamMachine.feedAll_content .new (payloads.flatMap (carriedEvents serde))
  have hreason :=
    StreamMachine.feedAll_finishReason .new (payloads.flatMap (carriedEvents serde))
  have husage := StreamMachine.feedAll_usage .new (payloads.flatMap (carriedEvents serde))
  rw [filterMap_text?_flatMap, join_filter_ne_empty] at hcontent
  rw [filterMap_finish?_flatMap] at hreason
  rw [filterMap_usage?_flatMap] at husage
  simp only [StreamMachine.new, String.empty_append, Option.none_or, Option.or_none]
    at hcontent hreason husage
  have hnew : st.beginAttempt.machine = ⟨"", none, none, false, []⟩ := rfl
  rw [finalizeAttempt, hmachine, hnew, settledReply, ← hreason, ← hcontent, ← husage]
  generalize (StreamMachine.mk "" none none false []).feedAll
    (payloads.flatMap (carriedEvents serde)) = m
  unfold StreamMachine.resolve StreamMachine.finalize
  cases m.finishReason with
  | some reason => rfl
  | none => by_cases hempty : m.content = "" <;> simp [hempty]

/-! ## Completion -/

theorem flatMap_filter_isSentinel {α : Type} {f : String → List α}
    (silent : ∀ payload, isSentinel payload = true → f payload = [])
    (payloads : List String) :
    (payloads.filter fun payload => !isSentinel payload).flatMap f = payloads.flatMap f := by
  induction payloads with
  | nil => rfl
  | cons payload payloads ih =>
      by_cases hsentinel : isSentinel payload
      · rw [List.filter_cons_of_neg (by simp [hsentinel]), ih, List.flatMap_cons,
          silent payload hsentinel, List.nil_append]
      · rw [List.filter_cons_of_pos (by simp [hsentinel]), List.flatMap_cons, ih,
          List.flatMap_cons]

/-- The sentinel has no part in the reply. -/
theorem settledReply_filter_isSentinel (payloads : List String) :
    settledReply serde (payloads.filter fun payload => !isSentinel payload) =
      settledReply serde payloads := by
  have hnone : ∀ payload, isSentinel payload = true → chunkOf serde payload = none :=
    fun payload hsentinel => if_pos hsentinel
  unfold settledReply
  rw [flatMap_filter_isSentinel (f := deltaContents serde),
    flatMap_filter_isSentinel (f := finishReasons serde),
    flatMap_filter_isSentinel (f := usages serde)]
  · intro payload hsentinel
    simp [usages, hnone payload hsentinel]
  · intro payload hsentinel
    simp [finishReasons, hnone payload hsentinel]
  · intro payload hsentinel
    simp [deltaContents, hnone payload hsentinel]

/-- Installments report no anomalies; they are kept until the attempt is closed. -/
theorem anomaliesOf_installmentRecords {payloads : List String}
    (single : ∀ payload ∈ payloads, SingleChoice serde payload) (st : StreamState)
    (seq : ℕ) : anomaliesOf (installmentRecords serde st seq payloads) = [] := by
  induction payloads generalizing st seq with
  | nil => rfl
  | cons payload payloads ih =>
      obtain ⟨hpayload, hpayloads⟩ := List.forall_mem_cons.mp single
      obtain ⟨norm, hacc, -, -⟩ := hpayload.accepted
      rw [installmentRecords, anomaliesOf_append, ih hpayloads, List.append_nil,
        onInstallment_of_ok (accepted_eq_some_iff.mp hacc)]
      simp [anomaliesOf, EmissionRecord.anomaly?, List.filterMap_map, Function.comp_def]

/-- **Completion semantics** (INV-CHAT-04, INV-CHAT-05, DEC-CHAT-04, DEC-CHAT-05).  However
many installments come, in whatever order: the attempt commits exactly when a chunk
carried a finish reason, with all text in order, the first reason and the last usage; if
none did, the fault tells an empty stream from a truncated one; `[DONE]` has no part in
it; and each late text and each later reason is an anomaly. -/
theorem completion_semantics (serde : SerdeJson) (st : StreamState) (seq : ℕ)
    (payloads : List String)
    (single : ∀ payload ∈ payloads, SingleChoice serde payload) :
    let fed := (feedInstallments serde st.beginAttempt seq payloads).1
    let fin := finalizeAttempt fed .streamEnded
    let text := String.join (payloads.flatMap (deltaContents serde))
    ((∃ o, fin.resolution = .committed o) ↔
        ∃ payload ∈ payloads, finishReasons serde payload ≠ []) ∧
      (∀ o, fin.resolution = .committed o → o.content = text ∧
        (payloads.flatMap (finishReasons serde)).head? = some o.finishReason ∧
          o.usage = (payloads.flatMap (usages serde)).getLast?) ∧
      ((∀ payload ∈ payloads, finishReasons serde payload = []) →
        fin.resolution =
          .fault (if text = "" then .emptyStream else .truncated text.length)) ∧
      (finalizeAttempt (feedInstallments serde st.beginAttempt seq
          (payloads.filter fun payload => !isSentinel payload)).1
            .streamEnded).resolution = fin.resolution ∧
      (anomaliesOf (installmentRecords serde st.beginAttempt seq payloads ++
          fin.records)).length =
        ((lateContents serde payloads).filter (· ≠ "")).length +
          ((payloads.flatMap (finishReasons serde)).length - 1) := by
  intro fed fin text
  have hsettled : fin.resolution = settledReply serde payloads :=
    finalizeAttempt_settled single st seq
  have hreasons : (∀ payload ∈ payloads, finishReasons serde payload = []) ↔
      (payloads.flatMap (finishReasons serde)).head? = none := by
    rw [List.head?_eq_none_iff, List.flatMap_eq_nil_iff]
  refine ⟨?_, ?_, ?_, ?_, ?_⟩
  · rw [hsettled, settledReply]
    cases hhead : (payloads.flatMap (finishReasons serde)).head? with
    | some reason =>
        refine iff_of_true ⟨_, rfl⟩ ?_
        by_contra hnever
        push Not at hnever
        rw [hreasons.mp hnever] at hhead
        cases hhead
    | none =>
        refine iff_of_false (by simp) ?_
        rintro ⟨payload, hpayload, hreason⟩
        exact hreason (hreasons.mpr hhead payload hpayload)
  · intro o hcommitted
    rw [hsettled, settledReply] at hcommitted
    cases hhead : (payloads.flatMap (finishReasons serde)).head? with
    | some reason =>
        simp only [hhead, TurnResolution.committed.injEq] at hcommitted
        subst hcommitted
        exact ⟨rfl, rfl, rfl⟩
    | none => simp [hhead] at hcommitted
  · intro hnever
    rw [hsettled, settledReply, hreasons.mp hnever]
  · rw [finalizeAttempt_settled, settledReply_filter_isSentinel, hsettled]
    intro payload hpayload
    exact single payload (List.mem_of_mem_filter hpayload)
  · have hone : ∀ payload ∈ payloads, (finishReasons serde payload).length ≤ 1 := by
      intro payload hpayload
      obtain ⟨norm, -, hnorm, hsingle⟩ := (single payload hpayload).accepted
      exact (events_of_single hnorm hsingle).2
    have hnotes : anomaliesOf fin.records = fed.machine.anomalies := by
      simp [fin, finalizeAttempt, anomaliesOf, EmissionRecord.anomaly?, List.filterMap_map,
        Function.comp_def]
    have hcount := feedAll_carried_anomalies hone st.beginAttempt.machine rfl
    rw [← feedInstallments_carried single st.beginAttempt seq] at hcount
    rw [anomaliesOf_append, anomaliesOf_installmentRecords single, List.nil_append, hnotes,
      hcount]
    simp [StreamState.beginAttempt, StreamMachine.new]

/-- Text, a finish reason, the sentinel, and the first chunk once more. -/
def lateStream : List String := interleavedChunks ++ ["[DONE]"] ++ interleavedChunks.take 1

/-- The text behind the finish reason is in the reply, and is its one anomaly. -/
theorem completion_semantics_lateStream :
    let fed := (feedInstallments interleavedSerde (StreamState.new 1).beginAttempt 1
      lateStream).1
    (∀ o, (finalizeAttempt fed .streamEnded).resolution = .committed o → o.content = "aba") ∧
      (anomaliesOf (installmentRecords interleavedSerde (StreamState.new 1).beginAttempt 1
        lateStream ++ (finalizeAttempt fed .streamEnded).records)).length = 1 := by
  have hsingle : ∀ payload ∈ lateStream, SingleChoice interleavedSerde payload := by
    intro payload hpayload
    simp only [lateStream, interleavedChunks, List.take_succ_cons, List.take_zero,
      List.cons_append, List.nil_append, List.mem_cons, List.not_mem_nil, or_false]
      at hpayload
    rcases hpayload with rfl | rfl | rfl | rfl <;> exact ⟨_, rfl, rfl⟩
  obtain ⟨-, hcontent, -, -, hanomalies⟩ := completion_semantics interleavedSerde
    (StreamState.new 1) 1 lateStream hsingle
  refine ⟨fun o hcommitted => (hcontent o hcommitted).1.trans ?_, hanomalies.trans ?_⟩
  · decide +kernel
  · decide +kernel

end RarChat
