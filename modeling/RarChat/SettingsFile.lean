import RarChat.EnvQuoting
import RarChat.Settings

/-!
# Settings as an env file

Whatever the program was configured by, a file and an environment with defaults behind them,
what it runs with can be written down as one env file: every setting under its name, quoted,
numbers in decimal.  Loaded without any environment, that file gives the same settings
(`settings_reload`), as long as no text among them has a line feed.  The directory of
captures is none of them: it only decides on a sink.

For this the settings have to be ones that can be read at all (`Settings.Readable`): windows
of whole seconds that fit their type, base URLs without a slash behind, a failover endpoint
that shares everything with the primary one but its URL, model and key.  All settings that
the program accepts are (`settings_readable`).
-/

namespace RarChat

/-! ## Numbers -/

/-- A number as it is written. -/
def decimal (n : ℕ) : String := String.ofList (Nat.toDigits 10 n)

theorem le_ofDigitChars (cs : List Char) (n : ℕ) : n ≤ Nat.ofDigitChars 10 cs n := by
  rw [Nat.ofDigitChars_eq_ofDigitChars_zero]
  have hpow : 1 ≤ 10 ^ cs.length := Nat.one_le_pow _ _ (by decide)
  exact (Nat.le_mul_of_pos_left n hpow).trans (Nat.le_add_right _ _)

/-- Digits are parsed as what they spell, if that fits. -/
theorem parseDigits_of_digits {largest : ℕ} {cs : List Char} (digits : ∀ c ∈ cs, c.isDigit = true)
    {n : ℕ} (fits : Nat.ofDigitChars 10 cs n ≤ largest) :
    parseDigits largest n cs = .ok (Nat.ofDigitChars 10 cs n) := by
  induction cs generalizing n with
  | nil => rfl
  | cons c cs ih =>
      obtain ⟨hc, hcs⟩ := List.forall_mem_cons.mp digits
      rw [Nat.ofDigitChars_cons, Nat.mul_comm] at fits ⊢
      have hnext := (le_ofDigitChars cs _).trans fits
      simp only [parseDigits, hc, if_true, if_neg (Nat.not_lt.mpr hnext)]
      exact ih hcs fits

/-- **A number is parsed as it was written**, if it fits. -/
theorem parseUnsigned_decimal {largest n : ℕ} (fits : n ≤ largest) :
    parseUnsigned largest (decimal n) = .ok n := by
  have hdigit : ∀ c ∈ Nat.toDigits 10 n, c.isDigit = true := fun c hc =>
    Nat.isDigit_of_mem_toDigits (by decide) (by decide) hc
  have hparse : parseDigits largest 0 (Nat.toDigits 10 n) = .ok n := by
    have hvalue : Nat.ofDigitChars 10 (Nat.toDigits 10 n) 0 = n := Nat.ofDigitChars_ten_toDigits
    rw [parseDigits_of_digits hdigit (by rwa [hvalue]), hvalue]
  obtain ⟨d, ds, hcons⟩ := List.exists_cons_of_ne_nil (Nat.toDigits_ne_nil (n := n) (b := 10))
  have hd : d.isDigit = true := hdigit d (hcons ▸ List.mem_cons_self)
  have hplus : d ≠ '+' := by
    rintro rfl
    cases hd
  have hminus : d ≠ '-' := by
    rintro rfl
    cases hd
  unfold parseUnsigned decimal
  rw [String.toList_ofList]
  rw [hcons] at hparse ⊢
  split
  · simp_all
  · simp_all
  · simp_all
  · simp_all
  · exact hparse

/-! ## Entries as a file -/

/-- An entry on its line. -/
def entryText (e : String × String) : List Char :=
  e.1.toList ++ '=' :: doubleQuote :: (e.2.toList ++ [doubleQuote])

/-- The entries in a file.  Entries are kept with the last line in front. -/
def envFileText (entries : List (String × String)) : String :=
  String.ofList (fileText true (entries.reverse.map entryText))

/-- An entry that a line can carry. -/
structure Writable (e : String × String) : Prop where
  key : PlainKey e.1.toList
  oneLine : '\n' ∉ e.2.toList

theorem blank_of_mem_nil : ∀ c ∈ ([] : List Char), c = ' ' ∨ c = '\t' := by
  intro c hc
  cases hc

/-- No blanks at all. -/
def noBlanks : Blanks := ⟨[], blank_of_mem_nil⟩

theorem doubleQuote_isQuote : doubleQuote = doubleQuote ∨ doubleQuote = singleQuote :=
  .inl rfl

/-- The line, in the terms of the grammar. -/
def Writable.line {e : String × String} (w : Writable e) : QuotedLine where
  lead := noBlanks
  exported := none
  key := e.1.toList
  behindKey := noBlanks
  behindEquals := noBlanks
  quote := doubleQuote
  value := e.2.toList
  trail := noBlanks
  plain := w.key
  isQuote := doubleQuote_isQuote
  oneLine := w.oneLine

theorem Writable.text_line {e : String × String} (w : Writable e) : w.line.text = entryText e :=
  List.append_nil _

theorem Writable.assigns {e : String × String} (w : Writable e) :
    Assigns (entryText e) e.1 e.2 := by
  have hassigns := w.line.assigns fun h => nomatch h.2.2
  rw [w.text_line] at hassigns
  simpa [line] using hassigns

/-- **Entries that are written are loaded.** -/
theorem fromFile_envFileText (path : String) {entries : List (String × String)}
    (writable : ∀ e ∈ entries, Writable e) :
    fromFile path (some (envFileText entries)) = .ok ⟨entries, some path⟩ := by
  have hlines : lines (envFileText entries).toList = entries.reverse.map entryText := by
    rw [envFileText, String.toList_ofList]
    apply lines_fileText
    intro raw hraw
    obtain ⟨e, he, rfl⟩ := List.mem_map.mp hraw
    have hline := (writable e (List.mem_reverse.mp he)).text_line
    rw [← hline]
    exact ⟨QuotedLine.text_ne_nil _, QuotedLine.feed_notMem_text _, QuotedLine.getLast?_text_ne _⟩
  have hgrammar : ∀ raw ∈ lines (envFileText entries).toList, InGrammar raw := by
    intro raw hraw
    rw [hlines] at hraw
    obtain ⟨e, he, rfl⟩ := List.mem_map.mp hraw
    exact (writable e (List.mem_reverse.mp he)).assigns.inGrammar
  have hentries : (entries.reverse.map entryText).filterMap lineEntry = entries.reverse := by
    rw [List.filterMap_map]
    refine (List.filterMap_congr fun e he => ?_).trans List.filterMap_some
    exact lineEntry_eq_some_iff.mpr (writable e (List.mem_reverse.mp he)).assigns
  rw [fromFile_of_grammar path hgrammar, hlines, hentries, List.reverse_reverse]

/-! ## Settings as entries -/

/-- The entries of the failover endpoint. -/
def failoverEntries (fd : OpenAiConfig) : List (String × String) :=
  [("FAILOVER_OPENAI_BASE_URL", fd.baseUrl), ("FAILOVER_OPENAI_MODEL", fd.model),
    ("FAILOVER_OPENAI_API_KEY", fd.apiKey)]

/-- **The settings under their names.** -/
def Settings.entries (s : Settings) : List (String × String) :=
  let p := s.main.primary
  [("OPENAI_API_KEY", p.apiKey), ("OPENAI_MODEL", p.model), ("OPENAI_BASE_URL", p.baseUrl),
      ("OPENAI_INCLUDE_USAGE", if p.requestUsage then "1" else "0"),
      ("OPENAI_STALL_SECS", decimal (asSecs p.stallTimeout)),
      ("OPENAI_FIRST_BYTE_BACKSTOP_SECS", decimal (asSecs p.firstByteBackstop)),
      ("OPENAI_OVERALL_DEADLINE_SECS", decimal (asSecs p.overallDeadline)),
      ("OPENAI_THROUGHPUT_FLOOR_BPS", decimal p.throughputFloorBps),
      ("OPENAI_THROUGHPUT_SUSTAINED_SECS", decimal (asSecs p.throughputSustained)),
      ("OPENAI_RETRY_ALLOWANCE", decimal s.main.retryAllowance.toNat),
      ("OPENAI_SEND_BUCKETS", decimal s.main.sendBuckets.toNat),
      ("OPENAI_BUS_CAPACITY", decimal s.busCapacity)] ++
    (p.systemPrompt.toList.map (("OPENAI_SYSTEM", ·)) ++
      s.main.failover.toList.flatMap failoverEntries)

/-- A window of whole seconds that fit their type. -/
def WholeSecs (window : ℕ) : Prop := ∃ n ≤ u64Max, window = fromSecs n

/-- An endpoint as it can be configured. -/
structure OpenAiConfig.Readable (cfg : OpenAiConfig) : Prop where
  url : cfg.baseUrl.toList.getLast? ≠ some '/'
  stall : WholeSecs cfg.stallTimeout
  firstByte : WholeSecs cfg.firstByteBackstop
  overall : WholeSecs cfg.overallDeadline
  floor : cfg.throughputFloorBps ≤ u64Max
  sustained : WholeSecs cfg.throughputSustained

/-- **Settings as they can be configured.** -/
structure Settings.Readable (s : Settings) : Prop where
  primary : s.main.primary.Readable
  failover : ∀ fd ∈ s.main.failover, fd.Readable ∧
    fd = { s.main.primary with baseUrl := fd.baseUrl, model := fd.model, apiKey := fd.apiKey }
  capacity : s.busCapacity ≤ u64Max

variable {src : EnvSource} {process : ProcessEnv}

theorem secs_le {name : String} {dflt n : ℕ} (accepted : secs src process name dflt = .ok n)
    (fits : dflt ≤ u64Max) : n ≤ u64Max := by
  unfold secs at accepted
  cases hget : src.get process name with
  | none =>
      rw [hget] at accepted
      cases accepted
      exact fits
  | some text =>
      rw [hget] at accepted
      cases htext : parseUnsigned u64Max text with
      | error e =>
          simp only [htext] at accepted
          cases accepted
      | ok m =>
          simp only [htext] at accepted
          cases accepted
          exact parseUnsigned_le htext

/-- `trim_end_matches` leaves no slash behind. -/
theorem getLast?_trimmed (url : List Char) :
    (url.reverse.dropWhile (· = '/')).reverse.getLast? ≠ some '/' := by
  rw [List.getLast?_reverse]
  intro h
  have hnot := List.head?_dropWhile_not (· = '/') url.reverse
  simp [h] at hnot

theorem fromSourcePrefixed_readable {pre : String} {cfg : OpenAiConfig}
    (accepted : fromSourcePrefixed src process pre = .ok cfg) : cfg.Readable := by
  simp only [fromSourcePrefixed, bind_eq_ok] at accepted
  obtain ⟨apiKey, -, model, -, stall, hstall, firstByte, hfirstByte, overall, hoverall, floorBps,
    hfloor, sustained, hsustained, hcfg⟩ := accepted
  cases hcfg
  refine ⟨?_, ⟨_, secs_le hstall (by decide), rfl⟩, ⟨_, secs_le hfirstByte (by decide), rfl⟩,
    ⟨_, secs_le hoverall (by decide), rfl⟩, secs_le hfloor (by decide),
    ⟨_, secs_le hsustained (by decide), rfl⟩⟩
  rw [String.toList_ofList]
  exact getLast?_trimmed _

/-- **What the program accepts can be configured**, with the failover endpoint sharing
everything but its URL, its model and its key. -/
theorem settings_readable {s : Settings} (accepted : settings src process = .ok s) :
    s.Readable := by
  simp only [settings, bind_eq_ok] at accepted
  obtain ⟨primary, hprimary, failover, hfailover, retryAllowance, -, sendBuckets, -, busCapacity,
    hcapacity, hs⟩ := accepted
  cases hs
  refine ⟨fromSourcePrefixed_readable hprimary, fun fd hfd => ?_, parsed_le hcapacity (by decide)⟩
  obtain rfl : failover = some fd := hfd
  have hfd := failoverFromSource_eq_some hfailover
  refine ⟨fromSourcePrefixed_readable hfd, ?_⟩
  simp only [fromSource, fromSourcePrefixed, bind_eq_ok] at hprimary hfd
  obtain ⟨_, -, _, -, _, hstall, _, hfirstByte, _, hoverall, _, hfloor, _, hsustained, hp⟩ :=
    hprimary
  obtain ⟨_, -, _, -, _, hstall', _, hfirstByte', _, hoverall', _, hfloor', _, hsustained', hf⟩ :=
    hfd
  cases hp
  cases hf
  cases Except.ok.inj (hstall.symm.trans hstall')
  cases Except.ok.inj (hfirstByte.symm.trans hfirstByte')
  cases Except.ok.inj (hoverall.symm.trans hoverall')
  cases Except.ok.inj (hfloor.symm.trans hfloor')
  cases Except.ok.inj (hsustained.symm.trans hsustained')
  rfl

/-! ## Reading them back -/

/-- The settings of an endpoint that stand under names without a prefix. -/
structure Shared (look : String → Option String) (cfg : OpenAiConfig) : Prop where
  usage : look "OPENAI_INCLUDE_USAGE" = some (if cfg.requestUsage then "1" else "0")
  stall : look "OPENAI_STALL_SECS" = some (decimal (asSecs cfg.stallTimeout))
  firstByte : look "OPENAI_FIRST_BYTE_BACKSTOP_SECS" =
    some (decimal (asSecs cfg.firstByteBackstop))
  overall : look "OPENAI_OVERALL_DEADLINE_SECS" = some (decimal (asSecs cfg.overallDeadline))
  floor : look "OPENAI_THROUGHPUT_FLOOR_BPS" = some (decimal cfg.throughputFloorBps)
  sustained : look "OPENAI_THROUGHPUT_SUSTAINED_SECS" =
    some (decimal (asSecs cfg.throughputSustained))
  system : look "OPENAI_SYSTEM" = cfg.systemPrompt

theorem asSecs_fromSecs (n : ℕ) : asSecs (fromSecs n) = n :=
  Nat.mul_div_cancel n (by decide)

theorem WholeSecs.secs {window : ℕ} (whole : WholeSecs window) {name : String} (dflt : ℕ)
    (written : src.get process name = some (decimal (asSecs window))) :
    ∃ n, RarChat.secs src process name dflt = .ok n ∧ fromSecs n = window := by
  obtain ⟨n, hfits, rfl⟩ := whole
  refine ⟨n, ?_, rfl⟩
  rw [RarChat.secs, written, asSecs_fromSecs]
  simp only [parseUnsigned_decimal hfits]
  rfl

/-- An endpoint is read from its settings. -/
theorem fromSourcePrefixed_of_look {pre : String} {cfg : OpenAiConfig} (readable : cfg.Readable)
    (key : (src.get process (pre ++ "OPENAI_API_KEY")).or (src.get process "OPENAI_API_KEY") =
      some cfg.apiKey)
    (model : src.get process (pre ++ "OPENAI_MODEL") = some cfg.model)
    (url : src.get process (pre ++ "OPENAI_BASE_URL") = some cfg.baseUrl)
    (shared : Shared (src.get process) cfg) : fromSourcePrefixed src process pre = .ok cfg := by
  obtain ⟨stall, hstall, hstallIs⟩ := readable.stall.secs 30 shared.stall
  obtain ⟨firstByte, hfirstByte, hfirstByteIs⟩ := readable.firstByte.secs 120 shared.firstByte
  obtain ⟨overall, hoverall, hoverallIs⟩ := readable.overall.secs 600 shared.overall
  obtain ⟨sustained, hsustained, hsustainedIs⟩ := readable.sustained.secs 20 shared.sustained
  have hfloor : secs src process "OPENAI_THROUGHPUT_FLOOR_BPS" 1 = .ok cfg.throughputFloorBps := by
    rw [secs, shared.floor]
    simp only [parseUnsigned_decimal readable.floor]
    rfl
  have husage : (!usageDeclined (src.get process "OPENAI_INCLUDE_USAGE")) = cfg.requestUsage := by
    rw [shared.usage]
    cases cfg.requestUsage <;> rfl
  have hurl : String.ofList (cfg.baseUrl.toList.reverse.dropWhile (· = '/')).reverse =
      cfg.baseUrl := by
    have hlast := readable.url
    rw [← List.head?_reverse] at hlast
    have hkept : cfg.baseUrl.toList.reverse.dropWhile (· = '/') = cfg.baseUrl.toList.reverse := by
      cases hurl : cfg.baseUrl.toList.reverse with
      | nil => rfl
      | cons c cs =>
          have hc : c ≠ '/' := by
            rintro rfl
            exact hlast (by rw [hurl]; rfl)
          simp [hc]
    rw [hkept, List.reverse_reverse, String.ofList_toList]
  unfold fromSourcePrefixed
  simp only [key, model, url, required, hstall, hfirstByte, hoverall, hfloor, hsustained, husage,
    shared.system, Option.getD_some, hurl]
  show Except.ok _ = Except.ok cfg
  rw [hstallIs, hfirstByteIs, hoverallIs, hsustainedIs]

theorem get_entries (entries : List (String × String)) (origin : Option String) (name : String) :
    EnvSource.get ⟨entries, origin⟩ (fun _ => none) name = entries.lookup name := by
  rw [EnvSource.get]
  cases entries.lookup name <;> rfl

/-- The settings without a prefix are found. -/
theorem shared_entries (s : Settings) (origin : Option String) :
    Shared (EnvSource.get ⟨s.entries, origin⟩ fun _ => none) s.main.primary := by
  refine ⟨rfl, rfl, rfl, rfl, rfl, rfl, ?_⟩
  rw [get_entries, Settings.entries]
  cases hsystem : s.main.primary.systemPrompt <;> cases s.main.failover <;> rfl

/-- The failover endpoint is found where there is one. -/
theorem failoverFromSource_entries {s : Settings} (readable : s.Readable)
    (origin : Option String) :
    failoverFromSource ⟨s.entries, origin⟩ (fun _ => none) = .ok s.main.failover := by
  cases hfailover : s.main.failover with
  | none =>
      have hnone : s.entries.lookup "FAILOVER_OPENAI_BASE_URL" = none := by
        rw [Settings.entries, hfailover]
        cases s.main.primary.systemPrompt <;> rfl
      rw [failoverFromSource, get_entries, hnone]
  | some fd =>
      obtain ⟨hreadable, hsame⟩ := readable.failover fd hfailover
      have hfound : s.entries.lookup "FAILOVER_OPENAI_BASE_URL" = some fd.baseUrl ∧
          s.entries.lookup "FAILOVER_OPENAI_MODEL" = some fd.model ∧
            s.entries.lookup "FAILOVER_OPENAI_API_KEY" = some fd.apiKey := by
        rw [Settings.entries, hfailover]
        cases s.main.primary.systemPrompt <;> exact ⟨rfl, rfl, rfl⟩
      obtain ⟨hurl, hmodel, hkey⟩ := hfound
      have hshared : Shared (EnvSource.get ⟨s.entries, origin⟩ fun _ => none) fd := by
        obtain ⟨husage, hstall, hfirstByte, hoverall, hfloor, hsustained, hsystem⟩ :=
          shared_entries s origin
        rw [hsame]
        exact ⟨husage, hstall, hfirstByte, hoverall, hfloor, hsustained, hsystem⟩
      have hendpoint : fromSourcePrefixed ⟨s.entries, origin⟩ (fun _ => none) "FAILOVER_" =
          .ok fd := by
        refine fromSourcePrefixed_of_look hreadable ?_ ?_ ?_ hshared
        · rw [get_entries]
          exact (congrArg (Option.or · _) hkey).trans rfl
        · rw [get_entries]
          exact hmodel
        · rw [get_entries]
          exact hurl
      rw [failoverFromSource, get_entries, hurl]
      simp only [hendpoint]
      rfl

/-- **Settings are read back** from their entries. -/
theorem settings_entries {s : Settings} (readable : s.Readable) (origin : Option String) :
    settings ⟨s.entries, origin⟩ (fun _ => none) = .ok s := by
  have hprimary : fromSource ⟨s.entries, origin⟩ (fun _ => none) = .ok s.main.primary :=
    fromSourcePrefixed_of_look readable.primary rfl rfl rfl (shared_entries s origin)
  have hcounter : ∀ n : UInt32, n.toNat ≤ u32Max := fun n => Nat.le_of_lt_succ n.toNat_lt
  have hparsed : ∀ {largest name dflt n}, n ≤ largest → s.entries.lookup name = some (decimal n) →
      parsed ⟨s.entries, origin⟩ (fun _ => none) largest name dflt = .ok n := by
    intro largest name dflt n hfits hname
    rw [parsed, get_entries, hname]
    simp only [parseUnsigned_decimal hfits]
    rfl
  have hretry : parsed ⟨s.entries, origin⟩ (fun _ => none) u32Max "OPENAI_RETRY_ALLOWANCE" 1 =
      .ok s.main.retryAllowance.toNat := hparsed (hcounter _) rfl
  have hbuckets : parsed ⟨s.entries, origin⟩ (fun _ => none) u32Max "OPENAI_SEND_BUCKETS" 1 =
      .ok s.main.sendBuckets.toNat := hparsed (hcounter _) rfl
  have hcapacity : parsed ⟨s.entries, origin⟩ (fun _ => none) u64Max "OPENAI_BUS_CAPACITY" 4096 =
      .ok s.busCapacity := hparsed readable.capacity rfl
  unfold settings
  simp only [hprimary, failoverFromSource_entries readable, hretry, hbuckets, hcapacity]
  show Except.ok _ = Except.ok s
  rw [UInt32.ofNat_toNat, UInt32.ofNat_toNat]

/-! ## A file of the settings -/

/-- The texts of an endpoint, each on one line. -/
structure OpenAiConfig.OneLine (cfg : OpenAiConfig) : Prop where
  url : '\n' ∉ cfg.baseUrl.toList
  key : '\n' ∉ cfg.apiKey.toList
  model : '\n' ∉ cfg.model.toList
  system : ∀ text ∈ cfg.systemPrompt, '\n' ∉ text.toList

theorem feed_notMem_decimal (n : ℕ) : '\n' ∉ (decimal n).toList := by
  rw [decimal, String.toList_ofList]
  intro hmem
  cases Nat.isDigit_of_mem_toDigits (by decide) (by decide) hmem

/-- The names under which settings are written. -/
def settingNames : List String :=
  ["OPENAI_API_KEY", "OPENAI_MODEL", "OPENAI_BASE_URL", "OPENAI_INCLUDE_USAGE",
    "OPENAI_STALL_SECS", "OPENAI_FIRST_BYTE_BACKSTOP_SECS", "OPENAI_OVERALL_DEADLINE_SECS",
    "OPENAI_THROUGHPUT_FLOOR_BPS", "OPENAI_THROUGHPUT_SUSTAINED_SECS", "OPENAI_RETRY_ALLOWANCE",
    "OPENAI_SEND_BUCKETS", "OPENAI_BUS_CAPACITY", "OPENAI_SYSTEM", "FAILOVER_OPENAI_BASE_URL",
    "FAILOVER_OPENAI_MODEL", "FAILOVER_OPENAI_API_KEY"]

instance : DecidablePred PlainKey := fun key =>
  decidable_of_iff (IsKey key ∧ '=' ∉ key ∧ key.head? ≠ some '#')
    ⟨fun h => ⟨h.1, h.2.1, h.2.2⟩, fun h => ⟨h.1, h.2, h.3⟩⟩

theorem plainKey_settingNames : ∀ name ∈ settingNames, PlainKey name.toList := by
  decide +kernel

theorem writable_of_mem {name value : String} (named : name ∈ settingNames)
    (oneLine : '\n' ∉ value.toList) : Writable (name, value) :=
  ⟨plainKey_settingNames name named, oneLine⟩

/-- The entries of settings can be written. -/
theorem entries_writable {s : Settings} (oneLine : ∀ cfg ∈ s.endpoints, cfg.OneLine) :
    ∀ e ∈ s.entries, Writable e := by
  have hprimary := oneLine s.main.primary List.mem_cons_self
  have husage : '\n' ∉ (if s.main.primary.requestUsage then "1" else "0" : String).toList := by
    split <;> decide
  intro e he
  rcases List.mem_append.mp he with hmain | hmore
  · simp only [List.mem_cons, List.not_mem_nil, or_false] at hmain
    rcases hmain with rfl | rfl | rfl | rfl | hnumber
    · exact writable_of_mem (by decide) hprimary.key
    · exact writable_of_mem (by decide) hprimary.model
    · exact writable_of_mem (by decide) hprimary.url
    · exact writable_of_mem (by decide) husage
    · rcases hnumber with rfl | rfl | rfl | rfl | rfl | rfl | rfl | rfl <;>
        exact writable_of_mem (by decide) (feed_notMem_decimal _)
  · rcases List.mem_append.mp hmore with hsystem | hfailover
    · obtain ⟨text, htext, rfl⟩ := List.mem_map.mp hsystem
      exact writable_of_mem (by decide) (hprimary.system text (Option.mem_toList.mp htext))
    · obtain ⟨fd, hfd, he⟩ := List.mem_flatMap.mp hfailover
      have hendpoint := oneLine fd (List.mem_cons_of_mem _ hfd)
      simp only [failoverEntries, List.mem_cons, List.not_mem_nil, or_false] at he
      rcases he with rfl | rfl | rfl
      · exact writable_of_mem (by decide) hendpoint.url
      · exact writable_of_mem (by decide) hendpoint.model
      · exact writable_of_mem (by decide) hendpoint.key

/-- **Settings survive being written down.**  Whatever file and environment they came from, the
file that is written from them is loaded as the same settings. -/
theorem settings_reload {s : Settings} (accepted : settings src process = .ok s)
    (oneLine : ∀ cfg ∈ s.endpoints, cfg.OneLine) (path : String) :
    ∃ src', fromFile path (some (envFileText s.entries)) = .ok src' ∧
      settings src' (fun _ => none) = .ok s :=
  ⟨_, fromFile_envFileText path (entries_writable oneLine),
    settings_entries (settings_readable accepted) _⟩

/-- Settings with a prompt that has a quote and a hash sign in it. -/
theorem settings_reload_prompt :
    ∃ s src', s.main.primary.systemPrompt = some "Say \"hi\" # once" ∧
      settings .processOnly (exampleEnv [("OPENAI_SYSTEM", "Say \"hi\" # once"),
        ("OPENAI_STALL_SECS", "+9")]) = .ok s ∧
      fromFile "chat.env" (some (envFileText s.entries)) = .ok src' ∧
        settings src' (fun _ => none) = .ok s := by
  obtain ⟨s, haccepted, hsystem, honeLine⟩ : ∃ s,
      settings .processOnly (exampleEnv [("OPENAI_SYSTEM", "Say \"hi\" # once"),
        ("OPENAI_STALL_SECS", "+9")]) = .ok s ∧
      s.main.primary.systemPrompt = some "Say \"hi\" # once" ∧
        ∀ cfg ∈ s.endpoints, cfg.OneLine := by
    refine ⟨_, rfl, ?_, ?_⟩
    · rfl
    · rintro cfg (_ | ⟨_, hnone⟩)
      · exact ⟨by decide, by decide, by decide, by rintro _ ⟨⟩; decide⟩
      · cases hnone
  obtain ⟨src', hfile, hsettings⟩ := settings_reload haccepted honeLine "chat.env"
  exact ⟨s, src', hsystem, haccepted, hfile, hsettings⟩

end RarChat
