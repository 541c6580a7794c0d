import RarChat.Bus
import RarChat.Clocks
import RarChat.EnvFile
import RarChat.MainLoop

/-!
# What a configuration is accepted for

The settings are checked for being integers of their type and for nothing else.  Two of
them are used where an integer of the type is not enough: the capacity of the bus goes to
a channel that panics on 0, and the windows are added to an instant, by an addition that
panics beyond the seconds an instant can hold.  (The overall deadline is subtracted
from, saturating, and the tokio timers check.)

A configuration that is accepted keeps clear of both exactly when its capacity is one of
the channel's and the last reading of the clock leaves room for both windows
(`accepted_neverPanics_iff`).
-/

namespace RarChat

open EarlyExit

/-! ## Integers -/

/-- `std::num::ParseIntError`. -/
inductive ParseIntError
  | empty
  | invalidDigit
  | posOverflow
deriving DecidableEq, Repr

def u32Max : ℕ := 2 ^ 32 - 1

def u64Max : ℕ := 2 ^ 64 - 1

/-- The digits behind a partial result. -/
def parseDigits (largest : ℕ) : ℕ → List Char → Except ParseIntError ℕ
  | result, [] => .ok result
  | result, c :: rest =>
      if c.isDigit then
        let next := result * 10 + (c.toNat - '0'.toNat)
        if largest < next then .error .posOverflow else parseDigits largest next rest
      else .error .invalidDigit

/-- `str::parse` into an unsigned integer type with this largest value. -/
def parseUnsigned (largest : ℕ) (s : String) : Except ParseIntError ℕ :=
  match s.toList with
  | [] => .error .empty
  | ['+'] => .error .invalidDigit
  | ['-'] => .error .invalidDigit
  | '+' :: rest => parseDigits largest 0 rest
  | digits => parseDigits largest 0 digits

theorem parseDigits_le {largest result n : ℕ} {digits : List Char}
    (start : result ≤ largest) (accepted : parseDigits largest result digits = .ok n) :
    n ≤ largest := by
  induction digits generalizing result with
  | nil =>
      cases accepted
      exact start
  | cons c rest ih =>
      simp only [parseDigits] at accepted
      split_ifs at accepted with hdigit hlarge
      exact ih (Nat.le_of_not_lt hlarge) accepted

/-- What is parsed fits the type. -/
theorem parseUnsigned_le {largest n : ℕ} {s : String}
    (accepted : parseUnsigned largest s = .ok n) : n ≤ largest := by
  unfold parseUnsigned at accepted
  split at accepted
  · cases accepted
  · cases accepted
  · cases accepted
  · exact parseDigits_le (Nat.zero_le _) accepted
  · exact parseDigits_le (Nat.zero_le _) accepted

/-! ## The settings -/

/-- Why a configuration is rejected: the context, and the cause where there is one. -/
inductive SettingsError
  | missing (context : String)
  | notAnInteger (context : String) (source : ParseIntError)
  | unparsed (source : ParseIntError)
deriving DecidableEq, Repr

/-- `Option::context`. -/
def required (value : Option String) (context : String) : Except SettingsError String :=
  match value with
  | some v => .ok v
  | none => .error (.missing context)

variable (src : EnvSource) (process : ProcessEnv)

/-- The closure `secs`. -/
def secs (name : String) (dflt : ℕ) : Except SettingsError ℕ :=
  match src.get process name with
  | some s => (parseUnsigned u64Max s).mapError (.notAnInteger s!"{name} must be an integer")
  | none => .ok dflt

/-- A parse of `main`, with its default. -/
def parsed (largest : ℕ) (name : String) (dflt : ℕ) : Except SettingsError ℕ :=
  match src.get process name with
  | some s => (parseUnsigned largest s).mapError .unparsed
  | none => .ok dflt

/-- `Duration::from_secs`. -/
def fromSecs (n : ℕ) : ℕ := n * nanosPerSec

/-- `OPENAI_INCLUDE_USAGE` asks for no usage record. -/
def usageDeclined (value : Option String) : Bool :=
  value = some "0" || value = some "false" || value = some "no"

/-- `OpenAiConfig::from_source_prefixed`.  Key, model and base URL are looked up under
the prefix; clocks and floor are those of every endpoint. -/
def fromSourcePrefixed (pre : String) : Except SettingsError OpenAiConfig := do
  let k := fun name => pre ++ name
  let apiKey ← required
    ((src.get process (k "OPENAI_API_KEY")).or (src.get process "OPENAI_API_KEY"))
    "OPENAI_API_KEY is not set"
  let model ← required (src.get process (k "OPENAI_MODEL"))
    "OPENAI_MODEL is not set — required, no default"
  let baseUrl := (src.get process (k "OPENAI_BASE_URL")).getD "https://api.openai.com/v1"
  let stall ← secs src process "OPENAI_STALL_SECS" 30
  let firstByte ← secs src process "OPENAI_FIRST_BYTE_BACKSTOP_SECS" 120
  let overall ← secs src process "OPENAI_OVERALL_DEADLINE_SECS" 600
  let floorBps ← secs src process "OPENAI_THROUGHPUT_FLOOR_BPS" 1
  let sustained ← secs src process "OPENAI_THROUGHPUT_SUSTAINED_SECS" 20
  return {
    -- `trim_end_matches('/')`
    baseUrl := String.ofList (baseUrl.toList.reverse.dropWhile (· = '/')).reverse
    apiKey := apiKey
    model := model
    requestUsage := !usageDeclined (src.get process "OPENAI_INCLUDE_USAGE")
    stallTimeout := fromSecs stall
    firstByteBackstop := fromSecs firstByte
    overallDeadline := fromSecs overall
    throughputFloorBps := floorBps
    throughputSustained := fromSecs sustained
    systemPrompt := src.get process "OPENAI_SYSTEM" }

/-- `OpenAiConfig::from_source`. -/
def fromSource : Except SettingsError OpenAiConfig := fromSourcePrefixed src process ""

/-- The failover endpoint, where its base URL is set. -/
def failoverFromSource : Except SettingsError (Option OpenAiConfig) :=
  match src.get process "FAILOVER_OPENAI_BASE_URL" with
  | some _ => (fromSourcePrefixed src process "FAILOVER_").map some
  | none => .ok none

/-- What `main` has parsed when it spawns the bus. -/
structure Settings where
  main : MainEnv
  busCapacity : ℕ
deriving DecidableEq, Repr

/-- The settings of `main`, on a machine with 64-bit addresses. -/
def settings : Except SettingsError Settings := do
  let primary ← fromSource src process
  let failover ← failoverFromSource src process
  let retryAllowance ← parsed src process u32Max "OPENAI_RETRY_ALLOWANCE" 1
  let sendBuckets ← parsed src process u32Max "OPENAI_SEND_BUCKETS" 1
  let busCapacity ← parsed src process u64Max "OPENAI_BUS_CAPACITY" 4096
  return {
    main :=
      { primary := primary
        failover := failover
        retryAllowance := .ofNat retryAllowance
        sendBuckets := .ofNat sendBuckets }
    busCapacity := busCapacity }

/-- The endpoints that a turn can be issued on. -/
def Settings.endpoints (s : Settings) : List OpenAiConfig :=
  s.main.primary :: s.main.failover.toList

/-! ## What is accepted -/

variable {src process}

theorem bind_eq_ok {α β : Type} {x : Except SettingsError α}
    {f : α → Except SettingsError β} {b : β} :
    x >>= f = .ok b ↔ ∃ a, x = .ok a ∧ f a = .ok b := by
  cases x with
  | error e => exact ⟨nofun, fun ⟨_, h, _⟩ => nomatch h⟩
  | ok a => exact ⟨fun h => ⟨a, rfl, h⟩, fun ⟨_, h, hf⟩ => by cases h; exact hf⟩

theorem parsed_le {largest dflt n : ℕ} {name : String}
    (accepted : parsed src process largest name dflt = .ok n) (fits : dflt ≤ largest) :
    n ≤ largest := by
  unfold parsed at accepted
  split at accepted
  · rename_i text _
    cases htext : parseUnsigned largest text with
    | error e =>
        rw [htext] at accepted
        cases accepted
    | ok m =>
        rw [htext] at accepted
        cases accepted
        exact parseUnsigned_le htext
  · cases accepted
    exact fits

/-- The counters of an accepted configuration are the numbers of its settings: none of
them wraps. -/
theorem settings_counters {s : Settings} (accepted : settings src process = .ok s) :
    parsed src process u32Max "OPENAI_RETRY_ALLOWANCE" 1 =
        .ok s.main.retryAllowance.toNat ∧
      parsed src process u32Max "OPENAI_SEND_BUCKETS" 1 = .ok s.main.sendBuckets.toNat := by
  simp only [settings, bind_eq_ok] at accepted
  obtain ⟨primary, -, failover, -, retryAllowance, hretry, sendBuckets, hbuckets,
    busCapacity, -, hs⟩ := accepted
  cases hs
  have hmax : u32Max < 2 ^ 32 := by decide
  rw [hretry, hbuckets, UInt32.toNat_ofNat_of_lt', UInt32.toNat_ofNat_of_lt']
  · exact ⟨rfl, rfl⟩
  · exact Nat.lt_of_le_of_lt (parsed_le hbuckets (by decide)) hmax
  · exact Nat.lt_of_le_of_lt (parsed_le hretry (by decide)) hmax

/-- The windows of an accepted endpoint are those of `OPENAI_STALL_SECS` and
`OPENAI_FIRST_BYTE_BACKSTOP_SECS`, whatever its prefix. -/
theorem fromSourcePrefixed_windows {pre : String} {cfg : OpenAiConfig}
    (accepted : fromSourcePrefixed src process pre = .ok cfg) :
    (secs src process "OPENAI_STALL_SECS" 30).map fromSecs = .ok cfg.stallTimeout ∧
      (secs src process "OPENAI_FIRST_BYTE_BACKSTOP_SECS" 120).map fromSecs =
        .ok cfg.firstByteBackstop := by
  simp only [fromSourcePrefixed, bind_eq_ok] at accepted
  obtain ⟨apiKey, -, model, -, stall, hstall, firstByte, hfirstByte, overall, -, floorBps, -,
    sustained, -, hcfg⟩ := accepted
  cases hcfg
  rw [hstall, hfirstByte]
  exact ⟨rfl, rfl⟩

theorem failoverFromSource_eq_some {cfg : OpenAiConfig}
    (accepted : failoverFromSource src process = .ok (some cfg)) :
    fromSourcePrefixed src process "FAILOVER_" = .ok cfg := by
  unfold failoverFromSource at accepted
  split at accepted
  · cases hcfg : fromSourcePrefixed src process "FAILOVER_" with
    | error e =>
        rw [hcfg] at accepted
        cases accepted
    | ok cfg' =>
        rw [hcfg] at accepted
        cases accepted
        rfl
  · cases accepted

/-- **Both endpoints share the clocks.** -/
theorem settings_windows {s : Settings} (accepted : settings src process = .ok s)
    {cfg : OpenAiConfig} (mem : cfg ∈ s.endpoints) :
    cfg.stallTimeout = s.main.primary.stallTimeout ∧
      cfg.firstByteBackstop = s.main.primary.firstByteBackstop := by
  simp only [settings, bind_eq_ok] at accepted
  obtain ⟨primary, hprimary, failover, hfailover, retryAllowance, -, sendBuckets, -,
    busCapacity, -, hs⟩ := accepted
  cases hs
  obtain ⟨hstall, hfirstByte⟩ := fromSourcePrefixed_windows hprimary
  rcases List.mem_cons.mp mem with rfl | mem
  · exact ⟨rfl, rfl⟩
  · obtain rfl : failover = some cfg := by simpa using mem
    obtain ⟨hstall', hfirstByte'⟩ :=
      fromSourcePrefixed_windows (failoverFromSource_eq_some hfailover)
    rw [hstall] at hstall'
    rw [hfirstByte] at hfirstByte'
    exact ⟨(Except.ok.inj hstall').symm, (Except.ok.inj hfirstByte').symm⟩

/-! ## What panics -/

/-- The seconds of an instant are a signed number of 64 bits. -/
def instantMaxSecs : ℕ := 2 ^ 63 - 1

/-- `Instant + Duration`; `none` is the panic. -/
def instantAdd (instant d : ℕ) : Option ℕ :=
  if asSecs (instant + d) ≤ instantMaxSecs then some (instant + d) else none

/-- The addition in front of the `select!`. -/
def ReadLoop.checkedStallDeadline (cfg : OpenAiConfig) (s : ReadLoop) : Option ℕ :=
  instantAdd s.lastReadAt (s.stallWindow cfg)

/-- `EmissionBus::spawn`; `none` is the panic of `mpsc::channel`, on a capacity of 0 and on
one above its maximum. -/
def EmissionBus.spawnChecked (channelMax sinks capacity : ℕ) : Option EmissionBus :=
  if capacity = 0 ∨ channelMax < capacity then none else some (.spawn sinks capacity)

/-- **The settings do not crash the program** while the clock reads at most `horizon`: the
bus is spawned, and every pass of a read loop computes its deadline, on any endpoint and
behind any wakeups. -/
structure NeverPanics (serde : SerdeJson) (channelMax sinks : ℕ) (s : Settings)
    (horizon : ℕ) : Prop where
  spawned : (EmissionBus.spawnChecked channelMax sinks s.busCapacity).isSome = true
  computed : ∀ cfg ∈ s.endpoints, ∀ (st : StreamState) (origin selectPolls : ℕ)
    (wakeups : List Wakeup) (pass : ReadLoop), clockBehind origin wakeups ≤ horizon →
      PassBehind cfg serde (ReadLoop.start st origin selectPolls) wakeups pass →
        (pass.checkedStallDeadline cfg).isSome = true

theorem instantAdd_isSome_iff {instant d : ℕ} :
    (instantAdd instant d).isSome = true ↔ instant + d < 2 ^ 63 * nanosPerSec := by
  unfold instantAdd asSecs instantMaxSecs nanosPerSec
  split_ifs with h
  · refine iff_of_true rfl ?_
    omega
  · refine iff_of_false (by simp) ?_
    omega

/-- A deadline that is computed is the one the stall timer is armed for. -/
theorem ReadLoop.checkedStallDeadline_eq {cfg : OpenAiConfig} {s : ReadLoop} {deadline : ℕ}
    (computed : s.checkedStallDeadline cfg = some deadline) :
    s.stallDeadline cfg = deadline := by
  unfold checkedStallDeadline instantAdd at computed
  split_ifs at computed
  exact Option.some.inj computed

theorem EmissionBus.spawnChecked_isSome_iff {channelMax sinks capacity : ℕ} :
    (spawnChecked channelMax sinks capacity).isSome = true ↔
      1 ≤ capacity ∧ capacity ≤ channelMax := by
  unfold spawnChecked
  split_ifs with h
  · refine iff_of_false (by simp) ?_
    omega
  · refine iff_of_true rfl ?_
    omega

/-- The last read is no later than the last wakeup. -/
theorem lastReadBehind_le_clockBehind (origin : ℕ) (wakeups : List Wakeup) :
    lastReadBehind origin wakeups ≤ clockBehind origin wakeups := by
  unfold lastReadBehind
  cases hlast : (readInstants origin wakeups).getLast? with
  | none => exact Nat.le_add_right _ _
  | some instant => exact (readInstants_within (List.mem_of_getLast? hlast)).2

/-- A read of one byte at the start of the loop lets it go on. -/
theorem passBehind_firstRead (cfg : OpenAiConfig) (serde : SerdeJson) (st : StreamState)
    (origin selectPolls : ℕ) :
    ∃ pass, PassBehind cfg serde (ReadLoop.start st origin selectPolls)
      [.read 0 0 (asBytes ":")] pass := by
  have hfits : ¬defaultBufLimit < (frameRest (asBytes ":")).length := by decide
  refine ⟨_, ?_, rfl⟩
  rw [run_singleton, wakeupStep, readStep_of_fits serde hfits]
  rfl

/-- **What an accepted configuration is safe for.**  The program spawns its bus and computes
every deadline, as long as the clock reads at most `horizon`, exactly when the capacity is
one of the channel's and both windows, added to `horizon`, are instants. -/
theorem accepted_neverPanics_iff (serde : SerdeJson) (channelMax sinks : ℕ)
    (src : EnvSource) (process : ProcessEnv) (s : Settings)
    (accepted : settings src process = .ok s) (horizon : ℕ) :
    NeverPanics serde channelMax sinks s horizon ↔
      (1 ≤ s.busCapacity ∧ s.busCapacity ≤ channelMax) ∧
        horizon + s.main.primary.firstByteBackstop < 2 ^ 63 * nanosPerSec ∧
          horizon + s.main.primary.stallTimeout < 2 ^ 63 * nanosPerSec := by
  constructor
  · intro never
    have hprimary : s.main.primary ∈ s.endpoints := List.mem_cons_self
    refine ⟨EmissionBus.spawnChecked_isSome_iff.mp never.spawned, ?_, ?_⟩
    · -- the first pass of a loop that starts at the horizon
      have hfirst := never.computed _ hprimary (StreamState.new 1) horizon 0 [] _
        (Nat.le_refl _) ⟨rfl, rfl⟩
      exact instantAdd_isSome_iff.mp hfirst
    · -- and the pass behind a read at the horizon
      obtain ⟨pass, hpass⟩ := passBehind_firstRead s.main.primary serde (StreamState.new 1)
        horizon 0
      have hread := never.computed _ hprimary _ _ _ _ _ (Nat.le_refl _) hpass
      have htimed := hpass.timed
      rw [ReadLoop.checkedStallDeadline, ReadLoop.stallWindow, htimed.readSeq,
        htimed.lastReadAt] at hread
      exact instantAdd_isSome_iff.mp hread
  · rintro ⟨hcapacity, hfirstByte, hstall⟩
    refine ⟨EmissionBus.spawnChecked_isSome_iff.mpr hcapacity, ?_⟩
    intro cfg hcfg st origin selectPolls wakeups pass hclock hpass
    obtain ⟨hcfgStall, hcfgFirstByte⟩ := settings_windows accepted hcfg
    have hlast := lastReadBehind_le_clockBehind origin wakeups
    rw [ReadLoop.checkedStallDeadline, instantAdd_isSome_iff, hpass.timed.lastReadAt,
      ReadLoop.stallWindow]
    split_ifs
    · rw [hcfgFirstByte]
      omega
    · rw [hcfgStall]
      omega

/-- An environment with what is required, and more. -/
def exampleEnv (more : List (String × String)) : ProcessEnv := fun key =>
  (("OPENAI_API_KEY", "key") :: ("OPENAI_MODEL", "model") :: more).lookup key

/-- Without more, everything has its default. -/
theorem accepted_neverPanics_defaults :
    ∃ s, settings .processOnly (exampleEnv []) = .ok s ∧
      NeverPanics (.ofTable []) (2 ^ 61 - 1) 1 s (365 * 86400 * nanosPerSec) := by
  refine ⟨_, rfl, ?_⟩
  exact (accepted_neverPanics_iff (.ofTable []) (2 ^ 61 - 1) 1 .processOnly (exampleEnv []) _
    rfl _).mpr (by decide)

/-- Two settings that are accepted: a bus without room, and a backstop that no instant has
room for.  The one panics at the spawn, the other at the first pass of the first loop. -/
theorem accepted_panics :
    (∃ s, settings .processOnly (exampleEnv [("OPENAI_BUS_CAPACITY", "0")]) = .ok s ∧
      EmissionBus.spawnChecked (2 ^ 61 - 1) 1 s.busCapacity = none) ∧
    ∃ s, settings .processOnly
        (exampleEnv [("OPENAI_FIRST_BYTE_BACKSTOP_SECS", "9223372036854775808")]) = .ok s ∧
      (ReadLoop.start (StreamState.new 1).beginAttempt 0 0).checkedStallDeadline
        s.main.primary = none :=
  ⟨⟨_, rfl, rfl⟩, _, rfl, by decide⟩

end RarChat
