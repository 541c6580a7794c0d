import RarChat.SseGrammar

/-!
# Comment lines inside a frame

Comments are recognized in two places: `parse_block` skips a line that starts with a
colon, and before it looks at any line, it takes a whole frame whose text starts with one
for a comment.  In the grammar a comment line is a line among the others, and says nothing
about those that follow it.  So a comment line leaves the data of its frame alone wherever
it is, but in front of the first line, where it takes the data with it
(`insert_keeps_data_iff`).
-/

namespace RarChat

/-! ## Insertion -/

/-- The frame with lines inserted in front of its line `k`. -/
def Frame.insert (f : Frame) (k : ℕ) (ls : List FrameLine) : Frame where
  lines := f.lines.take k ++ (ls ++ f.lines.drop k)
  nonempty := by
    intro hnil
    obtain ⟨htake, hmore⟩ := List.append_eq_nil_iff.mp hnil
    have hlines := List.take_append_drop k f.lines
    rw [htake, (List.append_eq_nil_iff.mp hmore).2] at hlines
    exact f.nonempty hlines.symm
  eol := f.eol

/-- **A data frame is left alone** by the insertion: the parser returns a data event
before and after, of the same payload. -/
def KeepsData (f : Frame) (k : ℕ) (ls : List FrameLine) : Prop :=
  ∃ text, (∃ n, frameEvents f.bytes = [⟨.data text, n⟩]) ∧
    ∃ n, frameEvents (f.insert k ls).bytes = [⟨.data text, n⟩]

/-! ## Events of one frame -/

theorem Frame.frameEvents_bytes (f : Frame) :
    frameEvents f.bytes = (parseBlock f.block).toList := by
  have hdecomposes := decomposes_frames_bytes [f]
  rw [List.flatMap_singleton] at hdecomposes
  rw [hdecomposes.events, List.map_singleton, List.filterMap_cons]
  cases parseBlock f.block <;> rfl

/-- A frame is a data event exactly when it has a data line and does not open with a
comment. -/
theorem Frame.frameEvents_eq_data_iff (f : Frame) (text : String) (n : ℕ) :
    frameEvents f.bytes = [⟨.data text, n⟩] ↔
      f.Opens ∧ f.payload = some text ∧ n = f.block.length := by
  rw [f.frameEvents_bytes, f.parseBlock_eq, f.opens_iff]
  by_cases hcomment : f.text.head? = some ':'
  · simp [hcomment]
  · rw [if_neg hcomment, event]
    cases hpayload : f.payload with
    | none => simp
    | some text' => simp [hcomment, eq_comm]

theorem Frame.payload_isSome {f : Frame} (data : ∃ l ∈ f.lines, l.IsData) :
    ∃ text, f.payload = some text := by
  obtain ⟨l, hl, hdata⟩ := data
  have hvalues : f.values ≠ [] := by
    rw [values, Ne, List.map_eq_nil_iff]
    exact List.ne_nil_of_mem (List.mem_filter.mpr ⟨hl, by simpa using hdata⟩)
  exact ⟨_, if_neg hvalues⟩

/-! ## What an insertion does -/

/-- Comment lines carry no data. -/
theorem Frame.insert_payload (f : Frame) (k : ℕ) {comments : List FrameLine}
    (all : ∀ l ∈ comments, l.IsComment) : (f.insert k comments).payload = f.payload := by
  have hnone : comments.filter (·.IsData) = [] := by
    rw [List.filter_eq_nil_iff]
    intro l hl
    simpa using (all l hl).not_isData
  have hvalues : (f.insert k comments).values = f.values := by
    have hlines := List.take_append_drop k f.lines
    rw [values, values, insert, List.filter_append, List.filter_append, hnone,
      List.nil_append, ← List.filter_append, hlines]
  rw [payload, payload, hvalues]

/-- The first line stays the first one, unless a comment is put in front of it. -/
theorem Frame.insert_opens_iff (f : Frame) (k : ℕ) {comments : List FrameLine}
    (all : ∀ l ∈ comments, l.IsComment) :
    (f.insert k comments).Opens ↔ (k = 0 → comments = []) ∧ f.Opens := by
  cases k with
  | zero =>
      cases comments with
      | nil => simp [insert, Opens]
      | cons c cs =>
          refine iff_of_false (fun hopens => ?_) (by simp)
          exact hopens c rfl (all c List.mem_cons_self)
  | succ k =>
      obtain ⟨l, ls, hlines⟩ := List.exists_cons_of_ne_nil f.nonempty
      simp [insert, Opens, hlines]

/-- **When comment lines leave the data of a frame alone**: exactly when the frame does
not open with a comment line, neither of its own nor an inserted one. -/
theorem insert_keeps_data_iff (f : Frame) (data : ∃ l ∈ f.lines, l.IsData) (k : ℕ)
    (comments : List FrameLine) (all : ∀ l ∈ comments, l.IsComment) :
    KeepsData f k comments ↔ f.Opens ∧ (k = 0 → comments = []) := by
  unfold KeepsData
  simp only [Frame.frameEvents_eq_data_iff, f.insert_payload k all, f.insert_opens_iff k all]
  constructor
  · rintro ⟨text, -, n, ⟨hfirst, hopens⟩, -, -⟩
    exact ⟨hopens, hfirst⟩
  · rintro ⟨hopens, hfirst⟩
    obtain ⟨text, hpayload⟩ := Frame.payload_isSome data
    exact ⟨text, ⟨_, hopens, hpayload, rfl⟩, _, ⟨hfirst, hopens⟩, hpayload, rfl⟩

/-- A data frame of one line. -/
def dataFrame : Frame :=
  ⟨[⟨"data: x".toList, by decide, by decide, by decide⟩], by simp, .lf⟩

/-- A keep-alive comment. -/
def keepAliveLine : FrameLine := ⟨": keep-alive".toList, by decide, by decide, by decide⟩

/-- Behind the data line, the comment changes nothing. -/
theorem insert_keeps_data_behind : KeepsData dataFrame 1 [keepAliveLine] := by
  have hopens : dataFrame.Opens := dataFrame.opens_iff.mpr (by decide)
  have hdata : ∃ l ∈ dataFrame.lines, l.IsData := ⟨_, List.mem_cons_self, by decide⟩
  have hcomment : ∀ l ∈ [keepAliveLine], l.IsComment := by decide
  exact (insert_keeps_data_iff dataFrame hdata 1 _ hcomment).mpr ⟨hopens, nofun⟩

/-- In front of it, it turns the frame into a comment. -/
theorem insert_front_takes_data :
    frameEvents dataFrame.bytes = [⟨.data "x", 7⟩] ∧
      frameEvents (dataFrame.insert 0 [keepAliveLine]).bytes =
        [⟨.comment ": keep-alive\ndata: x", 20⟩] ∧
      ¬KeepsData dataFrame 0 [keepAliveLine] := by
  have hbefore : frameEvents dataFrame.bytes = [⟨.data "x", 7⟩] := by decide +kernel
  have hafter : frameEvents (dataFrame.insert 0 [keepAliveLine]).bytes =
      [⟨.comment ": keep-alive\ndata: x", 20⟩] := by
    decide +kernel
  refine ⟨hbefore, hafter, ?_⟩
  rintro ⟨text, -, n, hkept⟩
  rw [hafter] at hkept
  simp at hkept

end RarChat
