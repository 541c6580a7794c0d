import RarChat.Library.AppendLog
import RarChat.Serialize
import RarChat.Utf8

/-!
# The capture sink

`CaptureSink` of `ports.rs`.  Each record is written as one line of JSON through a buffered
writer to the capture file, and the buffer is flushed behind every trailer, behind every
64th record that no flush came before, and when the sink is dropped.

A capture is there for the runs that went wrong, so it matters what is left of it when the
process is killed.  A crash can come between any two operations on the writer and leave any
part of one on the disk.  The complete lines of what is left are records all the same, the
first ones in order; at most the last 63 are missing, and none up to the last trailer
(`capture_survives`).

The file takes what it is given; errors of the file system are ignored by the source and
are not modelled.
-/

namespace RarChat

open AppendLog

/-! ## The sink -/

/-- The record is a trailer. -/
def EmissionRecord.isBoundary : EmissionRecord → Bool
  | .turnTrailer .. => true
  | _ => false

/-- `BufWriter::new` takes this capacity. -/
def bufWriterCapacity : ℕ := 8192

structure CaptureSink where
  w : Writer UInt8
  sinceFlush : ℕ

variable (toStr : Json → Except String String)

/-- The line of a record, or of the error of writing it. -/
def captureLine (record : EmissionRecord) : String :=
  match toStr record.toJson with
  | .ok line => line
  | .error e => "\x7b\"rec\":\"capture_error\",\"detail\":\"" ++ e ++ "\"\x7d"

/-- A flush is due behind this record. -/
def flushDue (sinceFlush : ℕ) (record : EmissionRecord) : Bool :=
  record.isBoundary || 64 ≤ sinceFlush + 1

namespace CaptureSink

/-- `CaptureSink::create`, on a file that is empty. -/
def create : CaptureSink := ⟨.create bufWriterCapacity, 0⟩

/-- `writeln!` hands over the line and the line break one after the other. -/
def write (sink : CaptureSink) (record : EmissionRecord) : CaptureSink :=
  let w := (sink.w.append (asBytes (captureLine toStr record))).append [10]
  if flushDue sink.sinceFlush record then ⟨w.flush, 0⟩ else ⟨w, sink.sinceFlush + 1⟩

/-- `Drop`: what the file holds when the sink is gone. -/
def drop (sink : CaptureSink) : List UInt8 := sink.w.flush.file

end CaptureSink

/-! ## What it does to the writer -/

/-- The records since the last flush, behind this one. -/
def sinceAfter (sinceFlush : ℕ) (record : EmissionRecord) : ℕ :=
  if flushDue sinceFlush record then 0 else sinceFlush + 1

/-- The operations that one record comes to. -/
def recordOps (sinceFlush : ℕ) (record : EmissionRecord) : List (Op UInt8) :=
  [.append (asBytes (captureLine toStr record)), .append [10]] ++
    if flushDue sinceFlush record then [.flush] else []

/-- The operations that records come to. -/
def captureOps : ℕ → List EmissionRecord → List (Op UInt8)
  | _, [] => []
  | n, record :: records => recordOps toStr n record ++ captureOps (sinceAfter n record) records

theorem CaptureSink.write_eq (sink : CaptureSink) (record : EmissionRecord) :
    sink.write toStr record =
      ⟨sink.w.performAll (recordOps toStr sink.sinceFlush record),
        sinceAfter sink.sinceFlush record⟩ := by
  unfold write recordOps sinceAfter
  split_ifs <;> rfl

/-- **The sink performs these operations.** -/
theorem CaptureSink.foldl_write (sink : CaptureSink) (records : List EmissionRecord) :
    records.foldl (CaptureSink.write toStr) sink =
      ⟨sink.w.performAll (captureOps toStr sink.sinceFlush records),
        records.foldl sinceAfter sink.sinceFlush⟩ := by
  induction records generalizing sink with
  | nil => rfl
  | cons record records ih =>
      rw [List.foldl_cons, ih, write_eq, captureOps, Writer.performAll_append]
      rfl

theorem captureOps_append (n : ℕ) (records more : List EmissionRecord) :
    captureOps toStr n (records ++ more) =
      captureOps toStr n records ++ captureOps toStr (records.foldl sinceAfter n) more := by
  induction records generalizing n with
  | nil => rfl
  | cons record records ih =>
      rw [List.cons_append, captureOps, captureOps, ih, List.append_assoc]
      rfl

/-- The lines of records, as they stand in the file. -/
def captureLines (records : List EmissionRecord) : List (List UInt8) :=
  records.map fun record => asBytes (captureLine toStr record)

theorem captureLines_append (records more : List EmissionRecord) :
    captureLines toStr (records ++ more) =
      captureLines toStr records ++ captureLines toStr more := List.map_append

theorem given_recordOps (n : ℕ) (record : EmissionRecord) :
    given (recordOps toStr n record) = writeLines 10 (captureLines toStr [record]) := by
  unfold recordOps
  split_ifs <;> simp [given, Op.given, writeLines, captureLines]

theorem given_captureOps (n : ℕ) (records : List EmissionRecord) :
    given (captureOps toStr n records) = writeLines 10 (captureLines toStr records) := by
  induction records generalizing n with
  | nil => rfl
  | cons record records ih =>
      rw [captureOps, given_append, given_recordOps, ih, ← writeLines_append]
      rfl

/-! ## What is flushed -/

/-- **What no flush is behind**: fewer than 64 records, none of them a trailer. -/
structure Unflushed (records rest : List EmissionRecord) : Prop where
  counted : rest.length = records.foldl sinceAfter 0
  few : rest.length ≤ 63
  within : ∀ r ∈ rest, r.isBoundary = false
  /-- the records in front of them are followed by a flush -/
  flushed : ∃ safe, records = safe ++ rest ∧ (safe = [] ∨
    ∃ before after, captureOps toStr 0 records = before ++ .flush :: after ∧
      given before = writeLines 10 (captureLines toStr safe))

theorem exists_unflushed (records : List EmissionRecord) :
    ∃ rest, Unflushed toStr records rest := by
  -- one more record is flushed with all before it, or joins those that are not
  induction records using List.reverseRecOn with
  | nil => exact ⟨[], rfl, Nat.zero_le _, nofun, [], rfl, .inl rfl⟩
  | append_singleton records r ih =>
      obtain ⟨rest, counted, few, within, safe, hsafe, hflushed⟩ := ih
      have hops := captureOps_append toStr 0 records [r]
      rw [captureOps, captureOps, List.append_nil, recordOps] at hops
      by_cases hdue : flushDue (records.foldl sinceAfter 0) r = true
      · rw [if_pos hdue, ← List.append_assoc] at hops
        refine ⟨[], ?_, Nat.zero_le _, nofun, records ++ [r], (List.append_nil _).symm,
          .inr ⟨_, [], hops, ?_⟩⟩
        · rw [List.foldl_append, List.foldl_cons, List.foldl_nil, sinceAfter, if_pos hdue]
          rfl
        · rw [given_append, given_captureOps]
          simp [given, Op.given, captureLines, writeLines]
      · have hquiet : r.isBoundary = false ∧ records.foldl sinceAfter 0 < 63 := by
          simpa [flushDue] using hdue
        rw [if_neg hdue, List.append_nil] at hops
        refine ⟨rest ++ [r], ?_, ?_, ?_, safe, ?_, ?_⟩
        · rw [List.length_append, counted, List.foldl_append, List.foldl_cons, List.foldl_nil,
            sinceAfter, if_neg hdue]
          rfl
        · rw [List.length_append, List.length_singleton]
          omega
        · intro r' hr'
          rcases List.mem_append.mp hr' with hr' | hr'
          · exact within r' hr'
          · exact List.mem_singleton.mp hr' ▸ hquiet.1
        · rw [hsafe, List.append_assoc]
        · rcases hflushed with hnone | ⟨before, after, hbefore, hgiven⟩
          · exact .inl hnone
          · refine .inr ⟨before, after ++ [.append (asBytes (captureLine toStr r)), .append [10]],
              ?_, hgiven⟩
            rw [hops, hbefore, List.append_assoc]
            rfl

/-! ## What a crash leaves -/

/-- The records read off a capture file. -/
def readCapture (read : String → Option Json) (disk : List UInt8) :
    List (Option EmissionRecord) :=
  (completeLines 10 disk).map fun line =>
    ((fromUtf8 line).toOption.bind read).bind EmissionRecord.ofJson

variable {toStr} {read : String → Option Json}

/-- A text on one line is on one line of bytes. -/
theorem feed_notMem_asBytes {text : String} (line : '\n' ∉ text.toList) : 10 ∉ asBytes text := by
  intro hmem
  obtain ⟨c, hc, hbyte⟩ := List.mem_flatMap.mp hmem
  obtain rfl := ofNat_of_mem_encode hbyte (by decide)
  exact line hc

theorem captureLine_line (agree : WritesLines toStr read) (record : EmissionRecord) :
    10 ∉ asBytes (captureLine toStr record) := by
  obtain ⟨line, hwrite, hline, -⟩ := record.line_reads_back agree
  rw [captureLine, hwrite]
  exact feed_notMem_asBytes hline

/-- The lines of records are read as the records. -/
theorem read_captureLines (agree : WritesLines toStr read) (records : List EmissionRecord) :
    ((captureLines toStr records).map fun line =>
      ((fromUtf8 line).toOption.bind read).bind EmissionRecord.ofJson) = records.map some := by
  rw [captureLines, List.map_map]
  refine List.map_congr_left fun record _ => ?_
  obtain ⟨line, hwrite, -, hread, -⟩ := record.line_reads_back agree
  simp only [Function.comp_apply, captureLine, hwrite, fromUtf8_asBytes, Except.toOption,
    Option.bind_some, hread]

/-- **Any prefix of the lines is read as the first records**, those at least whose lines it
contains. -/
theorem readCapture_of_isPrefix (agree : WritesLines toStr read) {records : List EmissionRecord}
    {disk : List UInt8} (start : disk <+: writeLines 10 (captureLines toStr records)) :
    ∃ k ≤ records.length, readCapture read disk = (records.take k).map some ∧
      ∀ first more, records = first ++ more →
        writeLines 10 (captureLines toStr first) <+: disk → first.length ≤ k := by
  have hclean : ∀ l ∈ captureLines toStr records, 10 ∉ l := fun l hl => by
    obtain ⟨record, -, rfl⟩ := List.mem_map.mp hl
    exact captureLine_line agree record
  obtain ⟨k, hk, hlines, hmost⟩ := completeLines_of_isPrefix hclean start
  have hlength : (captureLines toStr records).length = records.length := List.length_map _
  rw [hlength] at hk hmost
  refine ⟨k, hk, ?_, fun first more hsplit hcontains => hmost _ ?_ ?_⟩
  · rw [readCapture, hlines, captureLines, ← List.map_take]
    exact read_captureLines agree _
  · rw [hsplit, List.length_append]
    exact Nat.le_add_right _ _
  · have htake : (captureLines toStr records).take first.length = captureLines toStr first := by
      rw [captureLines, ← List.map_take, hsplit, List.take_left]
      rfl
    rwa [htake]

variable (toStr) in
/-- A crash that comes while `next` is written leaves this on the disk: what some operations
on the writer have brought there, and any part of what the one behind them brings. -/
def LeftByCrash (records : List EmissionRecord) (next : EmissionRecord) (disk : List UInt8) :
    Prop :=
  ∃ done op rest,
    recordOps toStr (records.foldl sinceAfter 0) next = done ++ op :: rest ∧
      (CaptureSink.create.w.performAll (captureOps toStr 0 records ++ done)).file <+: disk ∧
        disk <+:
          (CaptureSink.create.w.performAll (captureOps toStr 0 records ++ (done ++ [op]))).file

/-- **What survives a crash**: the first records, and with them all that a flush was
behind. -/
theorem LeftByCrash.survivors (agree : WritesLines toStr read) {records : List EmissionRecord}
    {next : EmissionRecord} {disk : List UInt8} (crash : LeftByCrash toStr records next disk) :
    ∃ k, readCapture read disk = ((records ++ [next]).take k).map some ∧
      ∃ safe rest, records = safe ++ rest ∧ safe.length ≤ k ∧ rest.length ≤ 63 ∧
        ∀ r ∈ rest, r.isBoundary = false := by
  obtain ⟨done, op, later, hops_next, least, most⟩ := crash
  have hstart : disk <+: writeLines 10 (captureLines toStr (records ++ [next])) := by
    have hgiven := CaptureSink.create.w.file_isPrefix_given
      (captureOps toStr 0 records ++ (done ++ [op]))
    refine most.trans (hgiven.trans ?_)
    rw [given_append, given_captureOps, captureLines_append, writeLines_append,
      ← given_recordOps toStr (records.foldl sinceAfter 0) next]
    exact (List.prefix_append_right_inj (writeLines 10 (captureLines toStr records))).mpr
      ⟨given later, by rw [← given_append, hops_next, List.append_assoc, List.singleton_append]⟩
  obtain ⟨k, -, hread, hmost⟩ := readCapture_of_isPrefix agree hstart
  obtain ⟨rest, hrest⟩ := exists_unflushed toStr records
  obtain ⟨safe, hsafe, hflushed⟩ := hrest.flushed
  refine ⟨k, hread, safe, rest, hsafe, ?_, hrest.few, hrest.within⟩
  -- what is flushed is on the disk
  rcases hflushed with rfl | ⟨before, after, hops, hgiven⟩
  · exact Nat.zero_le _
  · refine hmost safe (rest ++ [next]) (by rw [hsafe, List.append_assoc]) ?_
    have hfile := CaptureSink.create.w.given_isPrefix_file before (after ++ done)
    rw [hgiven] at hfile
    refine (List.IsPrefix.trans ?_ hfile).trans ?_
    · exact List.prefix_rfl
    · rwa [hops, List.append_assoc] at least

/-- A trailer is not among the last records if none of these is one. -/
theorem length_lt_of_boundary {safe rest before after : List EmissionRecord}
    {trailer : EmissionRecord} (split : safe ++ rest = before ++ trailer :: after)
    (within : ∀ r ∈ rest, r.isBoundary = false) (closes : trailer.isBoundary = true) :
    before.length < safe.length := by
  have hmem : trailer ∉ rest := fun hmem => by
    rw [within trailer hmem] at closes
    cases closes
  rcases List.append_eq_append_iff.mp split with ⟨middle, -, htail⟩ | ⟨middle, hfront, htail⟩
  · exact absurd (htail ▸ List.mem_append_right _ List.mem_cons_self) hmem
  · cases middle with
    | nil =>
        have hrest : trailer :: after = rest := htail
        exact absurd (hrest ▸ List.mem_cons_self) hmem
    | cons r middle =>
        rw [hfront, List.length_append, List.length_cons]
        omega

/-- **What a crash leaves of a capture.**  The complete lines are read as the first records;
of those written before, at most the last 63 are missing, and none up to the last trailer. -/
theorem capture_survives (agree : WritesLines toStr read) (records : List EmissionRecord)
    (next : EmissionRecord) {disk : List UInt8} (crash : LeftByCrash toStr records next disk) :
    ∃ k, readCapture read disk = ((records ++ [next]).take k).map some ∧
      records.length ≤ k + 63 ∧
        ∀ before trailer after, records = before ++ trailer :: after →
          trailer.isBoundary = true → before.length < k := by
  obtain ⟨k, hread, safe, rest, hsafe, hkept, hfew, hwithin⟩ := crash.survivors agree
  refine ⟨k, hread, ?_, fun before trailer after hsplit htrailer => ?_⟩
  · rw [hsafe, List.length_append]
    omega
  · have hbefore := length_lt_of_boundary (hsafe.symm.trans hsplit) hwithin htrailer
    omega

/-- A capture with one trailer. -/
def trailed : List EmissionRecord := [.turnTrailer 1 2 1 (.failed "refused") 0 0 0 0 0 "full"]

/-- The process is killed as the first line behind a trailer is handed over. -/
theorem capture_survives_trailed :
    ∃ k, readCapture readCompact (CaptureSink.create.w.performAll
        (captureOps (fun j => .ok (compactJson j)) 0 trailed)).file =
      ((trailed ++ [EmissionRecord.captureDrop 1]).take k).map some ∧ 0 < k := by
  have hcrash : LeftByCrash (fun j => .ok (compactJson j)) trailed (.captureDrop 1)
      (CaptureSink.create.w.performAll
        (captureOps (fun j => .ok (compactJson j)) 0 trailed)).file := by
    refine ⟨[], _, _, rfl, ?_, ?_⟩
    · rw [List.append_nil]
    · rw [Writer.performAll_append]
      exact Writer.file_isPrefix_performAll _ _
  obtain ⟨k, hread, -, hkept⟩ :=
    capture_survives writesLines_compact trailed (.captureDrop 1) hcrash
  exact ⟨k, hread, hkept [] _ [] rfl rfl⟩

/-- **A sink that is dropped leaves all records** in its file. -/
theorem CaptureSink.readCapture_drop (agree : WritesLines toStr read)
    (records : List EmissionRecord) :
    readCapture read (records.foldl (CaptureSink.write toStr) create).drop =
      records.map some := by
  have hfile : (records.foldl (CaptureSink.write toStr) create).drop =
      writeLines 10 (captureLines toStr records) := by
    rw [foldl_write]
    show (create.w.performAll (captureOps toStr 0 records)).text = _
    rw [Writer.text_performAll, given_captureOps]
    rfl
  rw [hfile]
  obtain ⟨k, hk, hread, hmost⟩ :=
    readCapture_of_isPrefix agree (List.prefix_refl (writeLines 10 (captureLines toStr records)))
  have hall : records.length ≤ k :=
    hmost records [] (List.append_nil _).symm List.prefix_rfl
  rw [hread, List.take_of_length_le hall]

end RarChat
