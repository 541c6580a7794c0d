import RarChat.EventHandler

/-!
# Multiple choices in one attempt

`onInstallment` rejects a chunk that carries two choices.  It does not look at a
choice's `index`, which the `Choice` structure does not even decode, so choices
that arrive one per chunk are fed to one machine whatever their indices are.
This module says when a sequence of data installments is committed without
merging choices: `NeverMerges` is the law, and `neverMerges_iff` its exact
condition on the payloads.

The condition looks at chunks of one choice only (`singleChoice`).  That is where
the work is: a chunk of several choices is rejected and so harms nothing, whatever
its indices are (`singleChoice_of_accepted`), and any two chunks of one choice each
are accepted and merged.
-/

namespace RarChat

/-! ## Choice indices on the wire -/

/-- The choices a JSON value carries, as `Chunk.decode` finds them. -/
def rawChoices : Json → List Json
  | .object fields =>
      match fieldOf "choices" fields with
      | some (some (.array items)) => items
      | _ => []
  | .array (.array items :: _) => items
  | _ => []

/-- The `index` of a choice, as the JSON value that stands there.  No two values are
taken for one index: the string `"0"` is not the number, and a choice without an
`index` is a case of its own.  Of a repeated `index` the last one counts. -/
def choiceIndex : Json → Option Json
  | .object fields => fields.reverse.lookup "index"
  | _ => none

variable (serde : SerdeJson)

/-- The indices of the choices a payload carries. -/
def choiceIndices (payload : String) : List (Option Json) :=
  if trim payload = "[DONE]" then []
  else
    match serde.fromStr payload with
    | some value => (rawChoices value).map choiceIndex
    | none => []

/-- The choice of a chunk that carries exactly one, and no error object. -/
def singleChoice (payload : String) : Option Choice :=
  if trim payload = "[DONE]" then none
  else
    match serde.chunk payload with
    | some ⟨[choice], _, none⟩ => some choice
    | _ => none

/-- The text a payload adds to the reply. -/
def payloadTexts (payload : String) : List String :=
  match accepted serde payload with
  | some norm => norm.events.filterMap DriverEvent.text?
  | none => []

/-- The finish reasons a payload brings. -/
def payloadFinishes (payload : String) : List String :=
  match accepted serde payload with
  | some norm => norm.events.filterMap DriverEvent.finish?
  | none => []

/-! ## Feeding a sequence of installments -/

/-- `onInstallment` on each payload in turn, numbering the installments from
`seq`: the state left, and the result of each call. -/
def feedInstallments : StreamState → ℕ → List String →
    StreamState × List (Except DriverFault FlowDirective)
  | st, _, [] => (st, [])
  | st, seq, payload :: payloads =>
      let step := onInstallment serde st seq .data payload .complete
      let later := feedInstallments step.state (seq + 1) payloads
      (later.1, step.result :: later.2)

theorem feedInstallments_machine (st : StreamState) (seq : ℕ)
    (payloads : List String) :
    (feedInstallments serde st seq payloads).1.machine =
      st.machine.feedAll (payloads.flatMap fun payload =>
        match accepted serde payload with
        | some norm => norm.events
        | none => []) := by
  induction payloads generalizing st seq with
  | nil => rfl
  | cons payload payloads ih =>
      rw [feedInstallments, ih, onInstallment_data_machine, List.flatMap_cons,
        StreamMachine.feedAll_append]
      cases accepted serde payload <;> rfl

/-- **The call on a payload returns an error** exactly when that payload is rejected,
wherever in the sequence it stands. -/
theorem feedInstallments_error_iff (st : StreamState) (seq : ℕ)
    (payloads : List String) (payload : String) :
    (∃ f, (payload, .error f) ∈
        payloads.zip (feedInstallments serde st seq payloads).2) ↔
      payload ∈ payloads ∧ accepted serde payload = none := by
  induction payloads generalizing st seq with
  | nil => simp [feedInstallments]
  | cons first payloads ih =>
      rw [feedInstallments]
      simp only [List.zip_cons_cons, List.mem_cons, Prod.mk.injEq, exists_or, ih,
        or_and_right]
      refine or_congr_left ?_
      cases hacc : accepted serde first with
      | none =>
          obtain ⟨detail, hdetail⟩ := accepted_eq_none_iff.mp hacc
          obtain ⟨n, heq⟩ := onInstallment_of_error hdetail st seq .complete
          rw [heq]
          constructor
          · rintro ⟨f, rfl, -⟩
            exact ⟨rfl, hacc⟩
          · rintro ⟨rfl, -⟩
            exact ⟨_, rfl, rfl⟩
      | some norm =>
          rw [onInstallment_of_ok (accepted_eq_some_iff.mp hacc) st seq .complete]
          constructor
          · rintro ⟨f, -, hok⟩
            cases hok
          · rintro ⟨rfl, hnone⟩
            rw [hacc] at hnone
            cases hnone

/-- The content a sequence of installments builds up is the text of its payloads,
in order. -/
theorem feedInstallments_content (st : StreamState) (seq : ℕ)
    (payloads : List String) :
    (feedInstallments serde st.beginAttempt seq payloads).1.machine.content =
      String.join (payloads.flatMap (payloadTexts serde)) := by
  rw [feedInstallments_machine, StreamMachine.feedAll_content, List.filterMap_flatMap]
  simp only [StreamState.beginAttempt, StreamMachine.new, String.empty_append]
  congr 2
  funext payload
  unfold payloadTexts
  cases accepted serde payload <;> rfl

/-- A finish reason is there exactly when some payload brought one. -/
theorem feedInstallments_finish_iff (st : StreamState) (seq : ℕ)
    (payloads : List String) :
    (feedInstallments serde st.beginAttempt seq payloads).1.machine.finishReason
        ≠ none ↔
      ∃ payload ∈ payloads, payloadFinishes serde payload ≠ [] := by
  rw [feedInstallments_machine, StreamMachine.feedAll_finishReason,
    List.filterMap_flatMap]
  simp only [StreamState.beginAttempt, StreamMachine.new, Option.none_or, ne_eq,
    List.head?_eq_none_iff, List.flatMap_eq_nil_iff, not_forall, exists_prop]
  refine exists_congr fun payload => and_congr_right fun _ => not_congr ?_
  unfold payloadFinishes
  cases accepted serde payload <;> simp

/-! ## Chunks of one choice -/

theorem mapM_length {α β : Type} {f : α → Option β} {xs : List α} {ys : List β}
    (h : xs.mapM f = some ys) : xs.length = ys.length := by
  induction xs generalizing ys with
  | nil =>
      rw [List.mapM_nil] at h
      cases h
      rfl
  | cons x xs ih =>
      rw [List.mapM_cons] at h
      obtain ⟨y, -, h⟩ := Option.bind_eq_some_iff.mp h
      obtain ⟨ys', hys, h⟩ := Option.bind_eq_some_iff.mp h
      cases h
      rw [List.length_cons, List.length_cons, ih hys]

/-- A chunk has the choices that stand in its value. -/
theorem rawChoices_length {value : Json} {chunk : Chunk}
    (decoded : Chunk.decode value = some chunk) :
    (rawChoices value).length = chunk.choices.length := by
  unfold Chunk.decode at decoded
  split at decoded
  · next fields =>
    obtain ⟨choices, hchoices, decoded⟩ := Option.bind_eq_some_iff.mp decoded
    obtain ⟨usage, -, decoded⟩ := Option.bind_eq_some_iff.mp decoded
    obtain ⟨error, -, decoded⟩ := Option.bind_eq_some_iff.mp decoded
    cases decoded
    unfold defaultField at hchoices
    unfold rawChoices
    cases hfield : fieldOf "choices" fields with
    | none => simp [hfield] at hchoices
    | some found =>
        cases found with
        | none =>
            simp only [hfield, Option.some.injEq] at hchoices
            simp [hfield, ← hchoices]
        | some value =>
            simp only [hfield] at hchoices
            cases value with
            | array items => simpa [hfield] using mapM_length hchoices
            | null => cases hchoices
            | bool b => cases hchoices
            | number n => cases hchoices
            | string text => cases hchoices
            | object fields' => cases hchoices
  · next c u e =>
    obtain ⟨choices, hchoices, decoded⟩ := Option.bind_eq_some_iff.mp decoded
    obtain ⟨usage, -, decoded⟩ := Option.bind_eq_some_iff.mp decoded
    obtain ⟨error, -, decoded⟩ := Option.bind_eq_some_iff.mp decoded
    cases decoded
    cases c with
    | array items => exact mapM_length hchoices
    | null => cases hchoices
    | bool b => cases hchoices
    | number n => cases hchoices
    | string text => cases hchoices
    | object fields' => cases hchoices
  · cases decoded

/-- A chunk that is not the sentinel carries as many indices as choices. -/
theorem choiceIndices_length {payload : String} {chunk : Chunk}
    (data : trim payload ≠ "[DONE]") (decoded : serde.chunk payload = some chunk) :
    (choiceIndices serde payload).length = chunk.choices.length := by
  obtain ⟨value, hvalue, hchunk⟩ := Option.bind_eq_some_iff.mp decoded
  unfold choiceIndices
  rw [if_neg data, hvalue, List.length_map]
  exact rawChoices_length hchunk

variable {serde}

/-- What is accepted is the sentinel, or a chunk without an error object that carries one
choice or none: a chunk of several is rejected. -/
theorem accepted_cases {payload : String} {norm : Normalized}
    (ok : accepted serde payload = some norm) :
    (trim payload = "[DONE]" ∧ norm.events = [.done]) ∨
      (trim payload ≠ "[DONE]" ∧ ∃ chunk, serde.chunk payload = some chunk ∧
        chunk.error = none ∧ chunk.choices.length ≤ 1 ∧ norm = chunk.normalized) := by
  obtain ⟨hnorm, hone⟩ := normalize_of_refined (accepted_eq_some_iff.mp ok)
  rcases normalize_cases hnorm with ⟨hdone, rfl⟩ | ⟨hdata, chunk, hchunk, herror, rfl⟩
  · exact .inl ⟨hdone, rfl⟩
  · refine .inr ⟨hdata, chunk, hchunk, herror, ?_, rfl⟩
    unfold Chunk.normalized at hone
    by_contra hmany
    rw [Nat.not_le] at hmany
    simp [hmany] at hone

theorem singleChoice_eq_some_iff {payload : String} {choice : Choice} :
    singleChoice serde payload = some choice ↔
      trim payload ≠ "[DONE]" ∧ ∃ usage, serde.chunk payload = some ⟨[choice], usage, none⟩ := by
  unfold singleChoice
  split_ifs with hdone
  · simp [hdone]
  · constructor
    · intro h
      split at h
      · next found usage hchunk =>
        cases h
        exact ⟨hdone, usage, hchunk⟩
      · cases h
    · rintro ⟨-, usage, hchunk⟩
      rw [hchunk]

/-- **A chunk of one choice** is accepted, for what its choice says, and carries one
index. -/
theorem accepted_of_singleChoice {payload : String} {choice : Choice}
    (single : singleChoice serde payload = some choice) :
    (∃ norm usage, accepted serde payload = some norm ∧
      norm = (Chunk.mk [choice] usage none).normalized) ∧
      ∃ index, choiceIndices serde payload = [index] := by
  obtain ⟨hdata, usage, hchunk⟩ := singleChoice_eq_some_iff.mp single
  refine ⟨⟨_, usage, ?_, rfl⟩, ?_⟩
  · rw [accepted_eq_some_iff]
    simp [refined, normalize, hdata, hchunk, Chunk.normalized]
  · exact List.length_eq_one_iff.mp (choiceIndices_length serde hdata hchunk)

/-- **What is accepted and carries an index** is a chunk of one choice. -/
theorem singleChoice_of_accepted {payload : String} {norm : Normalized}
    (ok : accepted serde payload = some norm) {index : Option Json}
    (mem : index ∈ choiceIndices serde payload) :
    (∃ choice, singleChoice serde payload = some choice) ∧
      choiceIndices serde payload = [index] := by
  rcases accepted_cases ok with ⟨hdone, -⟩ | ⟨hdata, chunk, hchunk, herror, hone, -⟩
  · simp [choiceIndices, hdone] at mem
  · have hlength := choiceIndices_length serde hdata hchunk
    have hpos := List.length_pos_of_mem mem
    obtain ⟨choice, hchoice⟩ := List.length_eq_one_iff.mp
      (show chunk.choices.length = 1 by omega)
    obtain ⟨index', hindex⟩ := List.length_eq_one_iff.mp
      (show (choiceIndices serde payload).length = 1 by omega)
    obtain ⟨choices, usage, error⟩ := chunk
    obtain rfl : choices = [choice] := hchoice
    obtain rfl : error = none := herror
    refine ⟨⟨choice, singleChoice_eq_some_iff.mpr ⟨hdata, usage, hchunk⟩⟩, ?_⟩
    rw [hindex, List.mem_singleton] at mem
    rw [hindex, mem]

/-- An event of a choice is brought by a chunk of one choice. -/
theorem singleChoice_of_event {payload : String} {norm : Normalized} {ev : DriverEvent}
    (ok : accepted serde payload = some norm) (mem : ev ∈ norm.events)
    (choices : ev.text?.isSome ∨ ev.finish?.isSome) :
    ∃ choice, singleChoice serde payload = some choice ∧ ev ∈ choice.events := by
  rcases accepted_cases ok with ⟨-, hevents⟩ | ⟨hdata, chunk, hchunk, herror, hone, rfl⟩
  · rw [hevents, List.mem_singleton] at mem
    subst mem
    simp [DriverEvent.text?, DriverEvent.finish?] at choices
  · obtain ⟨choices', usage, error⟩ := chunk
    obtain rfl : error = none := herror
    rcases List.mem_append.mp mem with mem | mem
    · obtain ⟨choice, hchoice, hev⟩ := List.mem_flatMap.mp mem
      obtain rfl : choices' = [choice] := by
        have hpos := List.length_pos_of_mem hchoice
        obtain ⟨only, honly⟩ := List.length_eq_one_iff.mp
          (show choices'.length = 1 from Nat.le_antisymm hone hpos)
        rw [honly] at hchoice ⊢
        rw [List.mem_singleton.mp hchoice]
      exact ⟨choice, singleChoice_eq_some_iff.mpr ⟨hdata, usage, hchunk⟩, hev⟩
    · -- the usage is no event of a choice
      cases husage : usage with
      | none => simp [husage] at mem
      | some u =>
          simp only [husage, Option.map_some, Option.toList_some, List.mem_singleton] at mem
          subst mem
          simp [Usage.event, DriverEvent.text?, DriverEvent.finish?] at choices

theorem singleChoice_of_text {payload : String} (text : payloadTexts serde payload ≠ []) :
    ∃ choice, singleChoice serde payload = some choice := by
  unfold payloadTexts at text
  cases hacc : accepted serde payload with
  | none => simp [hacc] at text
  | some norm =>
      simp only [hacc, ne_eq, List.filterMap_eq_nil_iff, not_forall] at text
      obtain ⟨ev, hev, htext⟩ := text
      obtain ⟨choice, hchoice, -⟩ := singleChoice_of_event hacc hev
        (.inl (Option.isSome_iff_ne_none.mpr htext))
      exact ⟨choice, hchoice⟩

/-- **A finish reason is brought** by a chunk of one choice that has one. -/
theorem payloadFinishes_iff {payload : String} :
    payloadFinishes serde payload ≠ [] ↔
      ∃ choice, singleChoice serde payload = some choice ∧ choice.finishReason ≠ none := by
  constructor
  · intro finish
    unfold payloadFinishes at finish
    cases hacc : accepted serde payload with
    | none => simp [hacc] at finish
    | some norm =>
        simp only [hacc, ne_eq, List.filterMap_eq_nil_iff, not_forall] at finish
        obtain ⟨ev, hev, hfinish⟩ := finish
        obtain ⟨choice, hchoice, hmem⟩ := singleChoice_of_event hacc hev
          (.inr (Option.isSome_iff_ne_none.mpr hfinish))
        refine ⟨choice, hchoice, fun hnone => hfinish ?_⟩
        rw [choice.events_eq, hnone] at hmem
        simp only [Option.toList_none, List.map_nil, List.append_nil, List.mem_map] at hmem
        obtain ⟨text, -, rfl⟩ := hmem
        rfl
  · rintro ⟨choice, hchoice, hfinish⟩
    obtain ⟨⟨norm, usage, hacc, rfl⟩, -⟩ := accepted_of_singleChoice hchoice
    obtain ⟨reason, hreason⟩ := Option.ne_none_iff_exists'.mp hfinish
    unfold payloadFinishes
    simp [hacc, Chunk.normalized, choice.events_eq, hreason, DriverEvent.finish?]

variable (serde)

/-! ## The law -/

/-- **No silent merge** (DEC-CHAT-13), for the installments of one attempt begun
in `st` and whatever closes it: a committed content is text of chunks of one and
the same choice index, and of two payloads that carry choices of different indices
(or one that does) at least one led to an error. -/
def NeverMerges (st : StreamState) (payloads : List String) : Prop :=
  ∀ cause outcome,
    (finalizeAttempt (feedInstallments serde st.beginAttempt 1 payloads).1
        cause).resolution = .committed outcome →
      outcome.content = String.join (payloads.flatMap (payloadTexts serde)) ∧
      (∃ index, ∀ payload ∈ payloads, payloadTexts serde payload ≠ [] →
        choiceIndices serde payload = [index]) ∧
      ∀ p ∈ payloads, ∀ q ∈ payloads, ∀ i ∈ choiceIndices serde p,
        ∀ j ∈ choiceIndices serde q, i ≠ j →
          ∃ payload f, (payload = p ∨ payload = q) ∧ (payload, .error f) ∈
            payloads.zip (feedInstallments serde st.beginAttempt 1 payloads).2

/-- All chunks of one choice carry it under one index.  This looks at no other chunk: one
of several choices is rejected whatever their indices are, and one without a choice
carries none.  It does not ask which chunks bring text either, because those that bring
none count for the second half of the law. -/
def OneIndex (payloads : List String) : Prop :=
  ∃ index, ∀ payload ∈ payloads, ∀ choice, singleChoice serde payload = some choice →
    choiceIndices serde payload = [index]

/-- No chunk of one choice finishes it.  Then there is nothing to be merged, because no
attempt is committed without a finish reason. -/
def Unfinished (payloads : List String) : Prop :=
  ∀ payload ∈ payloads, ∀ choice, singleChoice serde payload = some choice →
    choice.finishReason = none

/-- A closed attempt is committed exactly when its stream ended with a finish
reason; the content is the machine's. -/
theorem finalizeAttempt_committed_iff (st : StreamState) (cause : EndCause)
    (outcome : ChatOutcome) :
    (finalizeAttempt st cause).resolution = .committed outcome ↔
      cause = .streamEnded ∧ ∃ r, st.machine.finishReason = some r ∧
        outcome = ⟨st.machine.content, r, st.machine.usage⟩ := by
  unfold finalizeAttempt StreamMachine.resolve
  cases cause with
  | handlerAbort => simp [StreamMachine.finalize_handlerAbort]
  | streamEnded =>
      rw [← StreamMachine.finalize_streamEnded_eq_ok_iff]
      cases st.machine.finalize .streamEnded <;> simp

variable {serde}

/-- Chunks of one choice that are fed to one machine have their choices under one index,
if the law holds of what they commit. -/
theorem NeverMerges.oneIndex {st : StreamState} {payloads : List String}
    (law : NeverMerges serde st payloads) (finished : ¬Unfinished serde payloads) :
    OneIndex serde payloads := by
  have hfinish := feedInstallments_finish_iff serde st 1 payloads
  obtain ⟨payload, hmem, choice, hchoice, hreason⟩ : ∃ payload ∈ payloads, ∃ choice,
      singleChoice serde payload = some choice ∧ choice.finishReason ≠ none := by
    simpa [Unfinished] using finished
  have hsome := hfinish.mpr ⟨payload, hmem, payloadFinishes_iff.mpr ⟨choice, hchoice, hreason⟩⟩
  obtain ⟨r, hr⟩ := Option.ne_none_iff_exists'.mp hsome
  obtain ⟨-, -, hindices⟩ := law .streamEnded _
    ((finalizeAttempt_committed_iff _ _ _).mpr ⟨rfl, r, hr, rfl⟩)
  obtain ⟨-, index, hindex⟩ := accepted_of_singleChoice hchoice
  refine ⟨index, fun q hq choice' hchoice' => ?_⟩
  obtain ⟨⟨norm', _, hacc', -⟩, index', hindex'⟩ := accepted_of_singleChoice hchoice'
  obtain ⟨⟨norm, _, hacc, -⟩, -⟩ := accepted_of_singleChoice hchoice
  -- neither of the two chunks can have led to an error
  by_cases hsame : index = index'
  · rw [hindex', hsame]
  · obtain ⟨rejected, f, hone, herror⟩ := hindices payload hmem q hq index
      (by rw [hindex]; exact List.mem_singleton_self _) index'
      (by rw [hindex']; exact List.mem_singleton_self _) hsame
    have hnone := ((feedInstallments_error_iff serde _ 1 payloads rejected).mp ⟨f, herror⟩).2
    rcases hone with rfl | rfl
    · rw [hacc] at hnone
      cases hnone
    · rw [hacc'] at hnone
      cases hnone

/-- Of two payloads with different indices, one is rejected. -/
theorem OneIndex.rejected {payloads : List String} (one : OneIndex serde payloads)
    {p q : String} (hp : p ∈ payloads) (hq : q ∈ payloads) {i j : Option Json}
    (hi : i ∈ choiceIndices serde p) (hj : j ∈ choiceIndices serde q) (ne : i ≠ j) :
    accepted serde p = none ∨ accepted serde q = none := by
  obtain ⟨index, hindex⟩ := one
  cases hacc : accepted serde p with
  | none => exact .inl rfl
  | some norm =>
      right
      cases hacc' : accepted serde q with
      | none => rfl
      | some norm' =>
          obtain ⟨⟨choice, hchoice⟩, hone⟩ := singleChoice_of_accepted hacc hi
          obtain ⟨⟨choice', hchoice'⟩, hone'⟩ := singleChoice_of_accepted hacc' hj
          rw [hindex p hp choice hchoice] at hone
          rw [hindex q hq choice' hchoice'] at hone'
          cases hone
          cases hone'
          exact absurd rfl ne

variable (serde)

/-- **When choices are not merged.**  The law holds of a sequence of installments exactly
when none of its chunks of one choice finishes it, or all of them carry it under one
index. -/
theorem neverMerges_iff (st : StreamState) (payloads : List String) :
    NeverMerges serde st payloads ↔
      Unfinished serde payloads ∨ OneIndex serde payloads := by
  constructor
  · intro law
    by_cases hnone : Unfinished serde payloads
    · exact .inl hnone
    · exact .inr (law.oneIndex hnone)
  · rintro condition cause outcome hcommit
    obtain ⟨-, r, hr, rfl⟩ := (finalizeAttempt_committed_iff _ _ _).mp hcommit
    rcases condition with hnone | hone
    · obtain ⟨payload, hmem, hne⟩ := (feedInstallments_finish_iff serde st 1 payloads).mp
        (by rw [hr]; simp)
      obtain ⟨choice, hchoice, hreason⟩ := payloadFinishes_iff.mp hne
      exact absurd (hnone payload hmem choice hchoice) hreason
    · refine ⟨feedInstallments_content serde st 1 payloads, ?_, ?_⟩
      · obtain ⟨index, hindex⟩ := hone
        refine ⟨index, fun payload hmem htext => ?_⟩
        obtain ⟨choice, hchoice⟩ := singleChoice_of_text htext
        exact hindex payload hmem choice hchoice
      · intro p hp q hq i hi j hj hne
        have herror := feedInstallments_error_iff serde st.beginAttempt 1 payloads
        rcases hone.rejected hp hq hi hj hne with hrejected | hrejected
        · obtain ⟨f, hf⟩ := (herror p).mpr ⟨hp, hrejected⟩
          exact ⟨p, f, .inl rfl, hf⟩
        · obtain ⟨f, hf⟩ := (herror q).mpr ⟨hq, hrejected⟩
          exact ⟨q, f, .inr rfl, hf⟩

/-- Two chunks of one choice each, of the indices 0 and 1. -/
def interleavedChunks : List String :=
  ["\x7b\"choices\":[\x7b\"index\":0,\"delta\":\x7b\"content\":\"a\"\x7d\x7d]\x7d",
    "\x7b\"choices\":[\x7b\"index\":1,\"delta\":\x7b\"content\":\"b\"\x7d,\"finish_reason\":\"stop\"\x7d]\x7d"]

/-- The values of `interleavedChunks`. -/
def interleavedSerde : SerdeJson :=
  .ofTable (interleavedChunks.zip
    [.object [("choices", .array [.object [("index", .number (.posInt 0)),
        ("delta", .object [("content", .string "a")])]])],
      .object [("choices", .array [.object [("index", .number (.posInt 1)),
        ("delta", .object [("content", .string "b")]),
        ("finish_reason", .string "stop")]])]])

/-- The number that an index is. -/
def naturalIndex : Option Json → Option ℕ
  | some (.number (.posInt n)) => some n
  | _ => none

/-- One chunk of choice 0 and one of choice 1 commit as the reply `ab`. -/
theorem interleaved_choices_merge :
    (finalizeAttempt (feedInstallments interleavedSerde
        (StreamState.new 1).beginAttempt 1 interleavedChunks).1
          .streamEnded).resolution = .committed ⟨"ab", "stop", none⟩ ∧
      ¬NeverMerges interleavedSerde (StreamState.new 1) interleavedChunks := by
  have merged : (finalizeAttempt (feedInstallments interleavedSerde
      (StreamState.new 1).beginAttempt 1 interleavedChunks).1
        .streamEnded).resolution = .committed ⟨"ab", "stop", none⟩ := by
    decide +kernel
  refine ⟨merged, fun law => ?_⟩
  -- both chunks bring text, so their indices are one, which they are not
  obtain ⟨-, ⟨index, hindex⟩, -⟩ := law _ _ merged
  have hnumbers : interleavedChunks.map (fun payload =>
      (choiceIndices interleavedSerde payload).map naturalIndex) = [[some 0], [some 1]] := by
    decide +kernel
  have hsame : interleavedChunks.map (fun payload =>
      (choiceIndices interleavedSerde payload).map naturalIndex) =
        interleavedChunks.map fun _ => [naturalIndex index] := by
    refine List.map_congr_left fun payload hmem => ?_
    have htext : ∀ payload ∈ interleavedChunks,
        payloadTexts interleavedSerde payload ≠ [] := by
      decide +kernel
    rw [hindex payload hmem (htext payload hmem)]
    rfl
  rw [hnumbers] at hsame
  simp only [interleavedChunks, List.map_cons, List.map_nil, List.cons.injEq, and_true] at hsame
  have hone := hsame.1.trans hsame.2.symm
  cases hone

end RarChat
