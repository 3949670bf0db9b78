import Lazydns.Lib.Fallible
import Lazydns.Plugin.Init
import Lazydns.Server.Service

/-!
# Validated arguments and the plugins that read them

Validation and the plugins read the same arguments, each in its own way. An argument that is there and valid is taken if the plugin has the validated value. It is not if the type is written so that validation does not know it, if the value is a string where the plugin wants a number, and in a few more cases, one list for each type.
-/

namespace Lazydns

open Validation
open Fallible (bind_eq_ok)

/-! ### Arguments -/

namespace PluginConfig

def without (config : PluginConfig) (keys : List String) : PluginConfig where
  tag := config.tag
  pluginType := config.pluginType
  args := match config.args with
    | .mapping entries => .mapping (entries.filter fun e =>
        match e.1 with
        | .string key => decide (key ∉ keys)
        | _ => true)
    | args => args

theorem getKey_filter (key : String) (keys : List String) (entries : List (Value × Value)) :
    Value.getKey key (entries.filter fun e =>
      match e.1 with
      | .string key => decide (key ∉ keys)
      | _ => true) = if key ∈ keys then none else Value.getKey key entries := by
  induction entries with
  | nil => exact (ite_self _).symm
  | cons e entries ih =>
    obtain ⟨k, v⟩ := e
    cases k with
    | string s =>
      rw [Value.getKey_cons_string]
      by_cases hs : s ∈ keys
      · rw [List.filter_cons_of_neg (by simpa using hs), ih]
        by_cases hkey : s = key
        · subst hkey
          rw [if_pos hs, if_pos hs]
        · rw [if_neg hkey]
      · rw [List.filter_cons_of_pos (by simpa using hs), Value.getKey_cons_string, ih]
        by_cases hkey : s = key
        · subst hkey
          rw [if_pos rfl, if_neg hs, if_pos rfl]
        · rw [if_neg hkey, if_neg hkey]
    | _ =>
      rw [List.filter_cons_of_pos rfl, Value.getKey_cons_of_ne key (by exact nofun),
        Value.getKey_cons_of_ne key (by exact nofun), ih]

theorem effectiveArg_without (config : PluginConfig) (keys : List String) (key : String) :
    (config.without keys).effectiveArg key = if key ∈ keys then none else config.effectiveArg key := by
  obtain ⟨tag, pluginType, args⟩ := config
  cases args with
  | mapping entries => exact getKey_filter key keys entries
  | _ => exact (ite_self _).symm

theorem effectiveArg_without_of_notMem {config : PluginConfig} {keys : List String} {key : String} (h : key ∉ keys) :
    (config.without keys).effectiveArg key = config.effectiveArg key := by
  rw [effectiveArg_without, if_neg h]

end PluginConfig

/-- The number that validation reads as an argument. -/
def argValue (t : IntType) (config : PluginConfig) (key : String) : Option Nat :=
  (config.effectiveArg key).bind fun value => (extractInt t key value).toOption

/-- A numeric argument of a plugin: its range, and when the plugin has taken a value. -/
structure Param (P : Type) where
  key : String
  type : IntType
  min : Nat
  max : Nat
  taken : P → Nat → Prop

/-- The argument is not there, or a number in the range. -/
def Param.Valid {P : Type} (param : Param P) (config : PluginConfig) : Prop :=
  (config.effectiveArg param.key).isSome →
    ∃ v, argValue param.type config param.key = some v ∧ param.min ≤ v ∧ v ≤ param.max

/-- The plugin types with validated arguments. -/
inductive Checked where
  | rateLimit
  | ttl
  | downloader
  | cache
  | forward

namespace Checked

def name : Checked → String
  | rateLimit => "rate_limit"
  | ttl => "ttl"
  | downloader => "downloader"
  | cache => "cache"
  | forward => "forward"

def Plugin : Checked → Type
  | rateLimit => RateLimitPlugin
  | ttl => TtlPlugin
  | downloader => DownloaderPlugin
  | cache => CacheSettings
  | forward => ForwardSettings

variable (web : Bool)

def init : (t : Checked) → PluginConfig → Except Error t.Plugin
  | rateLimit => RateLimitPlugin.init
  | ttl => TtlPlugin.init
  | downloader => DownloaderPlugin.init
  | cache => CacheSettings.init
  | forward => ForwardSettings.init web

/-- The arguments with their ranges. A negative TTL is taken if negative caching is on with it; the number of concurrent queries decides between one upstream and a race. -/
def params : (t : Checked) → List (Param t.Plugin)
  | rateLimit => [
      ⟨"max_queries", .u32, MIN_RATE_LIMIT, MAX_RATE_LIMIT, fun p v => RateLimitPlugin.maxQueries p = v⟩,
      ⟨"window_secs", .u64, MIN_WINDOW_SECS, MAX_WINDOW_SECS, fun p v => RateLimitPlugin.windowSecs p = v⟩]
  | ttl => [
      ⟨"ttl", .u32, 0, MAX_TTL, fun p v => TtlPlugin.fix p = v⟩,
      ⟨"min", .u32, 0, MAX_TTL, fun p v => TtlPlugin.min p = v⟩,
      ⟨"max", .u32, 0, MAX_TTL, fun p v => TtlPlugin.max p = v⟩]
  | downloader => [
      ⟨"timeout_secs", .u64, MIN_TIMEOUT_SECS, MAX_TIMEOUT_SECS, fun p v => DownloaderPlugin.timeoutSecs p = v⟩,
      ⟨"retry_delay_secs", .u64, 0, MAX_TIMEOUT_SECS, fun p v => DownloaderPlugin.retryDelaySecs p = v⟩,
      ⟨"max_retries", .usize, 0, 100, fun p v => DownloaderPlugin.maxRetries p = v⟩]
  | cache => [
      ⟨"size", .usize, 1, IntType.usize.max, fun p v => CacheSettings.maxSize p = v⟩,
      ⟨"negative_ttl", .u32, 0, MAX_TTL,
        fun p v => CacheSettings.negativeCache p = true ∧ CacheSettings.negativeTtl p = v⟩]
  | forward => [
      ⟨"timeout", .u64, MIN_TIMEOUT_SECS, MAX_TIMEOUT_SECS, fun p v => ForwardSettings.timeoutSecs p = v⟩,
      ⟨"concurrent", .usize, 1, 1000, fun p v => ForwardSettings.concurrentQueries p = decide (1 < v)⟩]

def Valid (t : Checked) (config : PluginConfig) : Prop := ∀ param ∈ t.params, param.Valid config

/-- The plugin is made if the validated arguments are left out. -/
def OthersFine (t : Checked) (config : PluginConfig) : Prop :=
  ∃ p, t.init web (config.without (t.params.map Param.key)) = .ok p

/-- Each validated argument is a number in its range, and the plugin takes it, unless the plugin is not made for other reasons. -/
def Takes (t : Checked) (config : PluginConfig) : Prop :=
  t.OthersFine web config → ∀ param ∈ t.params, (config.effectiveArg param.key).isSome →
    ∃ v, argValue param.type config param.key = some v ∧ param.min ≤ v ∧ v ≤ param.max ∧
      ∃ p, t.init web config = .ok p ∧ param.taken p v

end Checked

/-! ### How they have to be written -/

/-- A YAML number, not a string. -/
def IsNumber (config : PluginConfig) (key : String) : Prop := ∃ text, config.effectiveArg key = some (.number text)

/-- Not there, a YAML number, or the default, which may be a string. -/
def NumberOr (default : Nat) (t : IntType) (config : PluginConfig) (key : String) : Prop :=
  config.effectiveArg key = none ∨ IsNumber config key ∨ argValue t config key = some default

namespace Checked

/-- How the arguments have to be written for the plugin to take them. -/
def Written : Checked → PluginConfig → Prop
  | rateLimit, _ => True
  | ttl, config =>
    NumberOr 0 .u32 config "min" ∧ NumberOr 0 .u32 config "max" ∧
      if (argValue .u32 config "min").getD 0 = 0 ∧ (argValue .u32 config "max").getD 0 = 0 then
        NumberOr 300 .u32 config "ttl" ∧ argValue .u32 config "ttl" ≠ some 0
      else NumberOr 0 .u32 config "ttl"
  | downloader, config =>
    NumberOr 30 .u64 config "timeout_secs" ∧ NumberOr 2 .u64 config "retry_delay_secs" ∧
      NumberOr 3 .usize config "max_retries"
  | cache, config =>
    (config.effectiveArg "size" = none ∨ IsNumber config "size" ∧ (argValue .usize config "size").getD 0 < 2 ^ 63) ∧
      (config.effectiveArg "negative_ttl" = none ∨
        IsNumber config "negative_ttl" ∧ Value.isTrue (config.effectiveArg "negative_cache"))
  | forward, config => NumberOr 5 .u64 config "timeout" ∧ NumberOr 1 .usize config "concurrent"

end Checked

/-! ### What validation accepts -/

theorem seq_eq_ok {x y : Except Error Unit} : (x >>= fun _ => y) = .ok () ↔ x = .ok () ∧ y = .ok () := by
  cases x with
  | error e => exact iff_of_false nofun fun h => nomatch h.1
  | ok u => exact ⟨fun h => ⟨rfl, h⟩, fun h => h.2⟩

theorem validateIntRange_iff {P : Type} (param : Param P) (config : PluginConfig) :
    validateIntRange param.type config param.key param.min param.max true = .ok () ↔ param.Valid config := by
  rw [validateIntRange, Param.Valid, argValue]
  cases config.effectiveArg param.key with
  | none => exact iff_of_true rfl nofun
  | some value =>
    rw [Option.bind_some]
    dsimp only
    cases extractInt param.type param.key value with
    | error e =>
      refine iff_of_false nofun ?_
      intro h
      obtain ⟨v, hv, -⟩ := h rfl
      cases hv
    | ok v =>
      change (if v < param.min ∨ v > param.max then _ else Except.ok ()) = _ ↔ _
      by_cases hrange : v < param.min ∨ v > param.max
      · rw [if_pos hrange]
        refine iff_of_false nofun ?_
        intro h
        obtain ⟨v', hv', hmin, hmax⟩ := h rfl
        cases hv'
        omega
      · rw [if_neg hrange]
        refine iff_of_true rfl ?_
        intro _
        exact ⟨v, rfl, by omega, by omega⟩

theorem validateTwo_iff {P : Type} (a b : Param P) (config : PluginConfig) :
    (validateIntRange a.type config a.key a.min a.max true >>= fun _ =>
      validateIntRange b.type config b.key b.min b.max true) = .ok () ↔
        ∀ param ∈ [a, b], param.Valid config := by
  rw [seq_eq_ok, validateIntRange_iff, validateIntRange_iff, List.forall_mem_cons, List.forall_mem_singleton]

theorem validateThree_iff {P : Type} (a b c : Param P) (config : PluginConfig) :
    (validateIntRange a.type config a.key a.min a.max true >>= fun _ =>
      validateIntRange b.type config b.key b.min b.max true >>= fun _ =>
        validateIntRange c.type config c.key c.min c.max true) = .ok () ↔
          ∀ param ∈ [a, b, c], param.Valid config := by
  rw [seq_eq_ok, validateTwo_iff, validateIntRange_iff, List.forall_mem_cons (l := [b, c])]

theorem validatePluginArgs_iff (t : Checked) {config : PluginConfig} (h : config.pluginType = t.name) :
    validatePluginArgs config = .ok () ↔ t.Valid config := by
  rw [validatePluginArgs, h]
  cases t with
  | rateLimit =>
    rw [Checked.Valid, Checked.params, ← validateTwo_iff]
    exact Iff.rfl
  | cache =>
    rw [Checked.Valid, Checked.params, ← validateTwo_iff]
    exact Iff.rfl
  | forward =>
    rw [Checked.Valid, Checked.params, ← validateTwo_iff]
    exact Iff.rfl
  | ttl =>
    rw [Checked.Valid, Checked.params, ← validateThree_iff]
    exact Iff.rfl
  | downloader =>
    rw [Checked.Valid, Checked.params, ← validateThree_iff]
    exact Iff.rfl

theorem validatePluginArgs_of_mem {configs : List PluginConfig} (h : validatePlugins configs = .ok ()) :
    ∀ config ∈ configs, validatePluginArgs config = .ok () := by
  have heach : validateEach configs = .ok () := (seq_eq_ok.mp h).2
  clear h
  induction configs with
  | nil => exact nofun
  | cons config rest ih =>
    rw [validateEach] at heach
    by_cases htype : config.pluginType = ""
    · rw [if_pos htype] at heach
      cases heach
    · rw [if_neg htype] at heach
      obtain ⟨hconfig, hrest⟩ := seq_eq_ok.mp (seq_eq_ok.mp heach).2
      exact List.forall_mem_cons.mpr ⟨hconfig, ih hrest⟩

/-! ### What is read -/

theorem numberAsI64_of_digits {text : String} {v : Nat} (h : digitsValue text.toList = some v) :
    numberAsI64 text = if v < 2 ^ 63 then some (v : Int) else none := by
  have hsign : ∀ digits, text.toList ≠ '-' :: digits := by
    intro digits hdigits
    rw [hdigits, digitsValue, if_neg] at h
    · cases h
    · rintro ⟨-, hall⟩
      cases hall
  rw [numberAsI64]
  split
  · rename_i digits hdigits
    exact absurd hdigits (hsign digits)
  · rw [h, Option.filter_some]
    by_cases hv : v < 2 ^ 63
    · rw [decide_eq_true hv, if_pos rfl, if_pos hv, Option.map_some]
    · rw [decide_eq_false hv, if_neg Bool.false_ne_true, if_neg hv, Option.map_none]

theorem castUnsigned_natCast {bits v : Nat} (hv : v < 2 ^ bits) : castUnsigned bits v = v := by
  have hpow : (2 : Int) ^ bits = ((2 ^ bits : Nat) : Int) := by
    rw [Int.natCast_pow]
    rfl
  rw [castUnsigned, hpow, ← Int.natCast_emod, Int.toNat_natCast, Nat.mod_eq_of_lt hv]

theorem arg_cases {t : IntType} {config : PluginConfig} {key : String}
    (h : (config.effectiveArg key).isSome → (argValue t config key).isSome) :
    config.effectiveArg key = none ∨
      (∃ text v, config.effectiveArg key = some (.number text) ∧ argValue t config key = some v ∧
        digitsValue text.toList = some v ∧ v ≤ t.max) ∨
      ∃ s v, config.effectiveArg key = some (.string s) ∧ argValue t config key = some v ∧
        parseUnsigned t.max s = some v := by
  rw [argValue] at h ⊢
  cases harg : config.effectiveArg key with
  | none => exact .inl rfl
  | some value =>
    rw [harg, Option.bind_some] at h
    rw [Option.bind_some]
    refine .inr ?_
    cases value with
    | number text =>
      refine .inl ⟨text, ?_⟩
      rw [extractInt, fromYamlNumber] at h ⊢
      cases hread : (digitsValue text.toList).filter (· ≤ t.max) with
      | none =>
        rw [hread] at h
        exact absurd (h rfl) nofun
      | some v =>
        obtain ⟨hdigits, hmax⟩ := Option.filter_eq_some_iff.mp hread
        exact ⟨v, rfl, rfl, hdigits, of_decide_eq_true hmax⟩
    | string s =>
      refine .inr ⟨s, ?_⟩
      rw [extractInt] at h ⊢
      cases hread : parseUnsigned t.max s with
      | none =>
        rw [hread] at h
        exact absurd (h rfl) nofun
      | some v => exact ⟨v, rfl, rfl, rfl⟩
    | _ => exact absurd (h rfl) nofun

section

variable {t : IntType} {config : PluginConfig} {key : String}

theorem argValue_of_none (h : config.effectiveArg key = none) : argValue t config key = none := by
  rw [argValue, h, Option.bind_none]

theorem arg_eq_none (hvalid : (config.effectiveArg key).isSome → (argValue t config key).isSome)
    (h : argValue t config key = none) : config.effectiveArg key = none := by
  refine Option.not_isSome_iff_eq_none.mp fun hsome => ?_
  have hvalue := hvalid hsome
  rw [h] at hvalue
  cases hvalue

theorem Param.Valid.isSome {P : Type} {param : Param P} (h : param.Valid config) :
    (config.effectiveArg param.key).isSome → (argValue param.type config param.key).isSome := by
  intro hsome
  obtain ⟨v, hv, -⟩ := h hsome
  rw [hv]
  rfl

theorem Param.Valid.range {P : Type} {param : Param P} (h : param.Valid config) {v : Nat}
    (hv : argValue param.type config param.key = some v) : param.min ≤ v ∧ v ≤ param.max := by
  obtain ⟨v', hv', hrange⟩ := h (by
    cases harg : config.effectiveArg param.key with
    | none =>
      rw [argValue_of_none harg] at hv
      cases hv
    | some value => rfl)
  rw [hv] at hv'
  cases hv'
  exact hrange

theorem not_isNumber_of_none (h : config.effectiveArg key = none) : ¬ IsNumber config key := by
  rintro ⟨text, htext⟩
  rw [h] at htext
  cases htext

theorem not_isNumber_of_string {s : String} (h : config.effectiveArg key = some (.string s)) :
    ¬ IsNumber config key := by
  rintro ⟨text, htext⟩
  rw [h] at htext
  cases htext

/-- What a reader that falls back to a default makes of a valid argument. -/
structure FallsBack (default : Nat) (t : IntType) (config : PluginConfig) (key : String) (r : Nat) : Prop where
  none : config.effectiveArg key = none → r = default
  number : IsNumber config key → argValue t config key = some r
  string : ∀ s, config.effectiveArg key = some (.string s) → r = default

/-- It has the validated value exactly if the argument is a number or the default. -/
theorem FallsBack.iff {default r : Nat} (hvalid : (config.effectiveArg key).isSome → (argValue t config key).isSome)
    (h : FallsBack default t config key r) :
    (∀ v, argValue t config key = some v → r = v) ↔ NumberOr default t config key := by
  rcases arg_cases hvalid with harg | ⟨text, v, harg, hv, -⟩ | ⟨s, v, harg, hv, -⟩
  · refine iff_of_true ?_ (.inl harg)
    intro v hv
    rw [argValue_of_none harg] at hv
    cases hv
  · refine iff_of_true ?_ (.inr (.inl ⟨text, harg⟩))
    intro v' hv'
    have hnumber := h.number ⟨text, harg⟩
    rw [hv'] at hnumber
    exact (Option.some.inj hnumber).symm
  · rw [hv, h.string s harg]
    constructor
    · intro htaken
      rw [htaken v rfl]
      exact .inr (.inr hv)
    · rintro (hnone | ⟨text, hnumber⟩ | hdefault)
      · rw [harg] at hnone
        cases hnone
      · rw [harg] at hnumber
        cases hnumber
      · rw [hv] at hdefault
        intro v' hv'
        exact Option.some.inj (hdefault.symm.trans hv')

theorem fallsBack_ttl (hvalid : (config.effectiveArg key).isSome → (argValue .u32 config key).isSome) :
    FallsBack 0 .u32 config key (TtlPlugin.readArg config key) := by
  have hzero : castUnsigned 32 0 = 0 := rfl
  refine ⟨?_, ?_, ?_⟩
  · intro hnone
    rw [TtlPlugin.readArg, hnone, Option.bind_none, Option.getD_none, hzero]
  · intro hnumber
    rcases arg_cases hvalid with harg | ⟨text, v, harg, hv, hdigits, hmax⟩ | ⟨s, v, harg, -⟩
    · exact absurd hnumber (not_isNumber_of_none harg)
    · have hlt : v < 2 ^ 32 := Nat.lt_of_le_pred (by decide) hmax
      rw [TtlPlugin.readArg, harg, Option.bind_some, Value.asI64, numberAsI64_of_digits hdigits, if_pos (by omega),
        Option.getD_some, castUnsigned_natCast hlt, hv]
    · exact absurd hnumber (not_isNumber_of_string harg)
  · intro s hstring
    rw [TtlPlugin.readArg, hstring, Option.bind_some]
    rfl

theorem fallsBack_downloader {default : Nat} (hmax : t.max < 2 ^ 64)
    (hvalid : (config.effectiveArg key).isSome → (argValue t config key).isSome) :
    FallsBack default t config key (DownloaderPlugin.readArg default config key) := by
  refine ⟨?_, ?_, ?_⟩
  · intro hnone
    rw [DownloaderPlugin.readArg, hnone, Option.bind_none, Option.getD_none]
  · intro hnumber
    rcases arg_cases hvalid with harg | ⟨text, v, harg, hv, hdigits, hle⟩ | ⟨s, v, harg, -⟩
    · exact absurd hnumber (not_isNumber_of_none harg)
    · rw [DownloaderPlugin.readArg, harg, Option.bind_some, Value.asU64, numberAsU64, hdigits, Option.filter_some,
        decide_eq_true (by omega), if_pos rfl, Option.getD_some, hv]
    · exact absurd hnumber (not_isNumber_of_string harg)
  · intro s hstring
    rw [DownloaderPlugin.readArg, hstring, Option.bind_some]
    rfl

theorem fallsBack_forward {default : Nat} (invalid : String)
    (hvalid : (config.effectiveArg key).isSome → (argValue t config key).isSome)
    (hbound : ∀ v, argValue t config key = some v → v < 2 ^ 63) :
    ∃ r, ForwardSettings.readOptional default invalid (config.effectiveArg key) = .ok r ∧ FallsBack default t config key r := by
  rcases arg_cases hvalid with harg | ⟨text, v, harg, hv, hdigits, -⟩ | ⟨s, v, harg, -⟩
  · refine ⟨default, ?_, fun _ => rfl, fun h => absurd h (not_isNumber_of_none harg), fun _ _ => rfl⟩
    rw [harg]
    rfl
  · have hlt := hbound v hv
    refine ⟨v, ?_, ?_, fun _ => hv, ?_⟩
    · rw [harg, ForwardSettings.readOptional, numberAsI64_of_digits hdigits, if_pos hlt]
      exact congrArg Except.ok (castUnsigned_natCast (by omega))
    · intro hnone
      rw [harg] at hnone
      cases hnone
    · intro s hs
      rw [harg] at hs
      cases hs
  · refine ⟨default, ?_, fun _ => rfl, fun h => absurd h (not_isNumber_of_string harg), fun _ _ => rfl⟩
    rw [harg]
    rfl

theorem readArg_rateLimit {bits default : Nat} (hbits : t.max = 2 ^ bits - 1) (hle : bits ≤ 64)
    (hvalid : (config.effectiveArg key).isSome → (argValue t config key).isSome) :
    ∃ r, RateLimitPlugin.readArg bits default key (config.effectiveArg key) = .ok r ∧
      ∀ v, argValue t config key = some v → r = v := by
  have hpow : 0 < 2 ^ bits := Nat.two_pow_pos bits
  rcases arg_cases hvalid with harg | ⟨text, v, harg, hv, hdigits, hmax⟩ | ⟨s, v, harg, hv, hparse⟩
  · refine ⟨default, ?_, ?_⟩
    · rw [harg]
      rfl
    · intro v hv
      rw [argValue_of_none harg] at hv
      cases hv
  · have hlt : v < 2 ^ bits := by omega
    have hlt64 : v < 2 ^ 64 := Nat.lt_of_lt_of_le hlt (Nat.pow_le_pow_right (by decide) hle)
    refine ⟨v, ?_, ?_⟩
    · rw [harg, RateLimitPlugin.readArg, numberAsU64, hdigits, Option.filter_some, decide_eq_true hlt64, if_pos rfl]
      exact congrArg Except.ok (Nat.mod_eq_of_lt hlt)
    · intro v' hv'
      exact Option.some.inj (hv.symm.trans hv')
  · refine ⟨v, ?_, ?_⟩
    · rw [harg, RateLimitPlugin.readArg, ← hbits, hparse]
    · intro v' hv'
      exact Option.some.inj (hv.symm.trans hv')

theorem FallsBack.eq_getD {default r : Nat} (h : FallsBack default t config key r)
    (hvalid : (config.effectiveArg key).isSome → (argValue t config key).isSome) (hor : NumberOr default t config key) :
    r = (argValue t config key).getD default := by
  have hvalue := (FallsBack.iff hvalid h).mpr hor
  cases hv : argValue t config key with
  | none => exact h.none (arg_eq_none hvalid hv)
  | some v => exact hvalue v hv

theorem FallsBack.orElse {default r : Nat} (h : FallsBack 0 t config key r) (hzero : argValue t config key ≠ some 0) :
    FallsBack default t config key (if r = 0 then default else r) := by
  refine ⟨?_, ?_, ?_⟩
  · intro hnone
    rw [if_pos (h.none hnone)]
  · intro hnumber
    have hr := h.number hnumber
    rw [if_neg]
    · exact hr
    · rintro rfl
      exact hzero hr
  · intro s hs
    rw [if_pos (h.string s hs)]

/-- Where only a number will do, one that an `i64` holds is wanted. -/
theorem readNumber_eq_ok {bits default r : Nat} {invalid notNumber : String} (hbits : t.max < 2 ^ bits)
    (hvalid : (config.effectiveArg key).isSome → (argValue t config key).isSome) :
    readNumber bits default invalid notNumber (config.effectiveArg key) = .ok r ↔
      (config.effectiveArg key = none ∨ IsNumber config key ∧ (argValue t config key).getD 0 < 2 ^ 63) ∧
        r = (argValue t config key).getD default := by
  rcases arg_cases hvalid with harg | ⟨text, v, harg, hv, hdigits, hmax⟩ | ⟨s, v, harg, hv, -⟩
  · rw [argValue_of_none harg, harg, readNumber, Option.getD_none]
    constructor
    · intro h
      exact ⟨.inl rfl, (Except.ok.inj h).symm⟩
    · rintro ⟨-, rfl⟩
      rfl
  · have hnumber : IsNumber config key := ⟨text, harg⟩
    rw [harg, readNumber, numberAsI64_of_digits hdigits, hv, Option.getD_some, Option.getD_some]
    by_cases hlt : v < 2 ^ 63
    · rw [if_pos hlt]
      dsimp only
      rw [castUnsigned_natCast (by omega)]
      constructor
      · intro h
        exact ⟨.inr ⟨hnumber, hlt⟩, (Except.ok.inj h).symm⟩
      · rintro ⟨-, rfl⟩
        rfl
    · rw [if_neg hlt]
      refine iff_of_false nofun ?_
      rintro ⟨hnone | ⟨-, hlt'⟩, -⟩
      · cases hnone
      · exact hlt hlt'
  · have hnot := not_isNumber_of_string harg
    rw [harg, readNumber]
    · refine iff_of_false nofun ?_
      rintro ⟨hnone | ⟨hnumber, -⟩, -⟩
      · cases hnone
      · exact hnot hnumber
    · intro text htext
      cases htext

end

/-! ### Type by type -/

namespace Checked

variable {web : Bool} {t : Checked} {config : PluginConfig}

/-- The plugin is made with each of its arguments. -/
def TakesAll (web : Bool) (t : Checked) (config : PluginConfig) : Prop :=
  ∀ param ∈ t.params, ∀ v, argValue param.type config param.key = some v →
    ∃ p, t.init web config = .ok p ∧ param.taken p v

theorem takesAll_of_init {p : t.Plugin} (h : t.init web config = .ok p) :
    t.TakesAll web config ↔
      ∀ param ∈ t.params, ∀ v, argValue param.type config param.key = some v → param.taken p v := by
  refine forall₂_congr fun param hparam => forall₂_congr fun v hv => ?_
  constructor
  · rintro ⟨p', hp', htaken⟩
    rw [h] at hp'
    cases hp'
    exact htaken
  · intro htaken
    exact ⟨p, h, htaken⟩

theorem takes_iff_takesAll :
    t.Takes web config ↔ (t.OthersFine web config → t.Valid config ∧ t.TakesAll web config) := by
  refine imp_congr_right fun _ => ?_
  constructor
  · intro htakes
    refine ⟨?_, ?_⟩
    · intro param hparam hsome
      obtain ⟨v, hv, hmin, hmax, -⟩ := htakes param hparam hsome
      exact ⟨v, hv, hmin, hmax⟩
    · intro param hparam v hv
      cases harg : config.effectiveArg param.key with
      | none =>
        rw [argValue_of_none harg] at hv
        cases hv
      | some value =>
        obtain ⟨v', hv', -, -, htaken⟩ := htakes param hparam (by rw [harg]; rfl)
        rw [hv] at hv'
        cases hv'
        exact htaken
  · rintro ⟨hvalid, hall⟩
    intro param hparam hsome
    obtain ⟨v, hv, hmin, hmax⟩ := hvalid param hparam hsome
    exact ⟨v, hv, hmin, hmax, hall param hparam v hv⟩

theorem Valid.isSome (h : t.Valid config) {param : Param t.Plugin} (hparam : param ∈ t.params) :
    (config.effectiveArg param.key).isSome → (argValue param.type config param.key).isSome :=
  (h param hparam).isSome

/-- Validated arguments of the limiter are taken, however they are written. -/
theorem takesAll_rateLimit (hvalid : rateLimit.Valid config) : rateLimit.TakesAll web config := by
  obtain ⟨q, hq, htakenq⟩ : ∃ q, RateLimitPlugin.readArg 32 100 "max_queries" (config.effectiveArg "max_queries") = .ok q ∧
      ∀ v, argValue .u32 config "max_queries" = some v → q = v :=
    readArg_rateLimit rfl (by decide) (hvalid.isSome (List.mem_cons_self ..))
  obtain ⟨w, hw, htakenw⟩ : ∃ w, RateLimitPlugin.readArg 64 60 "window_secs" (config.effectiveArg "window_secs") = .ok w ∧
      ∀ v, argValue .u64 config "window_secs" = some v → w = v :=
    readArg_rateLimit rfl (by decide) (hvalid.isSome (List.mem_cons_of_mem _ (List.mem_cons_self ..)))
  have hinit : rateLimit.init web config = .ok (RateLimitPlugin.new q w) :=
    bind_eq_ok.mpr ⟨q, hq, bind_eq_ok.mpr ⟨w, hw, rfl⟩⟩
  rw [takesAll_of_init hinit, params, List.forall_mem_cons, List.forall_mem_singleton]
  exact ⟨htakenq, htakenw⟩

theorem takesAll_downloader (hvalid : downloader.Valid config) (hothers : downloader.OthersFine web config) :
    downloader.TakesAll web config ↔ downloader.Written config := by
  obtain ⟨_, hwithout⟩ := hothers
  obtain ⟨files, hfiles, -⟩ := bind_eq_ok.mp hwithout
  have hinit : downloader.init web config = .ok _ := bind_eq_ok.mpr ⟨files, by
    rw [DownloaderPlugin.readFiles, PluginConfig.effectiveArg_without_of_notMem (by decide)] at hfiles
    exact hfiles, rfl⟩
  rw [takesAll_of_init hinit, params, List.forall_mem_cons, List.forall_mem_cons, List.forall_mem_singleton]
  have htimeout := hvalid.isSome (List.mem_cons_self ..)
  have hdelay := hvalid.isSome (List.mem_cons_of_mem _ (List.mem_cons_self ..))
  have hretries := hvalid.isSome (List.mem_cons_of_mem _ (List.mem_cons_of_mem _ (List.mem_cons_self ..)))
  exact and_congr (FallsBack.iff htimeout (fallsBack_downloader (by decide) htimeout))
    (and_congr (FallsBack.iff hdelay (fallsBack_downloader (by decide) hdelay))
      (FallsBack.iff hretries (fallsBack_downloader (by decide) hretries)))

theorem ttlInit (config : PluginConfig) : TtlPlugin.init config = .ok (TtlPlugin.mk
    (if TtlPlugin.readArg config "ttl" = 0 ∧ TtlPlugin.readArg config "min" = 0 ∧ TtlPlugin.readArg config "max" = 0
      then 300 else TtlPlugin.readArg config "ttl")
    (TtlPlugin.readArg config "min") (TtlPlugin.readArg config "max")) := by
  rw [TtlPlugin.init]
  by_cases hall : TtlPlugin.readArg config "ttl" = 0 ∧ TtlPlugin.readArg config "min" = 0 ∧
      TtlPlugin.readArg config "max" = 0
  · rw [if_pos hall, if_pos hall, hall.2.1, hall.2.2]
  · rw [if_neg hall, if_neg hall]

theorem takesAll_ttl (hvalid : ttl.Valid config) : ttl.TakesAll web config ↔ ttl.Written config := by
  have httl := hvalid.isSome (List.mem_cons_self ..)
  have hmin := hvalid.isSome (List.mem_cons_of_mem _ (List.mem_cons_self ..))
  have hmax := hvalid.isSome (List.mem_cons_of_mem _ (List.mem_cons_of_mem _ (List.mem_cons_self ..)))
  have hfixed := fallsBack_ttl httl
  have hlower := fallsBack_ttl hmin
  have hupper := fallsBack_ttl hmax
  dsimp only at httl hmin hmax hfixed hlower hupper
  generalize hf : TtlPlugin.readArg config "ttl" = f at hfixed
  generalize hl : TtlPlugin.readArg config "min" = l at hlower
  generalize hu : TtlPlugin.readArg config "max" = u at hupper
  have hinit : ttl.init web config = .ok (TtlPlugin.mk (if f = 0 ∧ l = 0 ∧ u = 0 then 300 else f) l u) := by
    rw [← hf, ← hl, ← hu]
    exact ttlInit config
  rw [takesAll_of_init hinit, params, List.forall_mem_cons, List.forall_mem_cons, List.forall_mem_singleton]
  change (∀ v, argValue .u32 config "ttl" = some v → (if f = 0 ∧ l = 0 ∧ u = 0 then 300 else f) = v) ∧
    (∀ v, argValue .u32 config "min" = some v → l = v) ∧ (∀ v, argValue .u32 config "max" = some v → u = v) ↔
      NumberOr 0 .u32 config "min" ∧ NumberOr 0 .u32 config "max" ∧ _
  rw [FallsBack.iff hmin hlower, FallsBack.iff hmax hupper, and_comm, and_assoc]
  refine and_congr_right fun hnumberl => and_congr_right fun hnumberu => ?_
  rw [← hlower.eq_getD hmin hnumberl, ← hupper.eq_getD hmax hnumberu]
  by_cases hbounds : l = 0 ∧ u = 0
  · have hif : (if f = 0 ∧ l = 0 ∧ u = 0 then 300 else f) = if f = 0 then 300 else f :=
      if_congr (and_iff_left hbounds) rfl rfl
    rw [if_pos hbounds, hif]
    by_cases hzero : argValue .u32 config "ttl" = some 0
    · refine iff_of_false ?_ fun h => h.2 hzero
      intro htaken
      have heq := htaken 0 hzero
      by_cases hf0 : f = 0
      · rw [if_pos hf0] at heq
        cases heq
      · rw [if_neg hf0] at heq
        exact hf0 heq
    · rw [FallsBack.iff httl (hfixed.orElse hzero), and_iff_left hzero]
  · rw [if_neg hbounds, if_neg fun h => hbounds h.2, FallsBack.iff httl hfixed]

theorem concurrent_taken_iff
    (hvalid : (config.effectiveArg "concurrent").isSome → (argValue .usize config "concurrent").isSome)
    (hrange : ∀ v, argValue .usize config "concurrent" = some v → 1 ≤ v ∧ v ≤ 1000) :
    (∀ v, argValue .usize config "concurrent" = some v → ForwardSettings.readConcurrent config = decide (1 < v)) ↔
      NumberOr 1 .usize config "concurrent" := by
  rw [ForwardSettings.readConcurrent]
  rcases arg_cases hvalid with harg | ⟨text, v, harg, hv, hdigits, -⟩ | ⟨s, v, harg, hv, -⟩
  · refine iff_of_true ?_ (.inl harg)
    intro v hv
    rw [argValue_of_none harg] at hv
    cases hv
  · refine iff_of_true ?_ (.inr (.inl ⟨text, harg⟩))
    intro v' hv'
    rw [hv] at hv'
    cases hv'
    have hlt : v < 2 ^ 63 := lt_of_le_of_lt (hrange v hv).2 (by decide)
    rw [harg]
    dsimp only
    rw [numberAsI64_of_digits hdigits, if_pos hlt, Option.getD_some]
    exact decide_eq_decide.mpr (by omega)
  · have hpos := (hrange v hv).1
    have hnot := not_isNumber_of_string harg
    rw [harg]
    constructor
    · intro htaken
      have hnot := of_decide_eq_false (htaken v hv).symm
      exact .inr (.inr (hv.trans (congrArg some (by omega))))
    · rintro (hnone | hnumber | hone)
      · rw [harg] at hnone
        cases hnone
      · exact absurd hnumber hnot
      · intro v' hv'
        rw [hone] at hv'
        cases hv'
        rfl

theorem takesAll_forward (hvalid : forward.Valid config) (hothers : forward.OthersFine web config) :
    forward.TakesAll web config ↔ forward.Written config := by
  have hmemt : _ ∈ forward.params := List.mem_cons_self ..
  have hmemc : _ ∈ forward.params := List.mem_cons_of_mem _ (List.mem_cons_self ..)
  have htimeout := hvalid.isSome hmemt
  have hconcurrent := hvalid.isSome hmemc
  obtain ⟨_, hwithout⟩ := hothers
  obtain ⟨upstreams, hupstreams, hwithout⟩ := bind_eq_ok.mp hwithout
  obtain ⟨_, -, hwithout⟩ := bind_eq_ok.mp hwithout
  obtain ⟨strategy, hstrategy, hwithout⟩ := bind_eq_ok.mp hwithout
  obtain ⟨attempts, hattempts, -⟩ := bind_eq_ok.mp hwithout
  rw [ForwardSettings.readUpstreams, PluginConfig.effectiveArg_without_of_notMem (by decide)] at hupstreams
  rw [ForwardSettings.readStrategy, PluginConfig.effectiveArg_without_of_notMem (by decide)] at hstrategy
  rw [PluginConfig.effectiveArg_without_of_notMem (by decide)] at hattempts
  have hbound : ∀ v, argValue .u64 config "timeout" = some v → v < 2 ^ 63 := by
    intro v hv
    exact lt_of_le_of_lt ((hvalid _ hmemt).range hv).2 (by decide)
  obtain ⟨secs, hsecs, hback⟩ : ∃ secs, ForwardSettings.readOptional 5 "Invalid timeout value"
      (config.effectiveArg "timeout") = .ok secs ∧ FallsBack 5 .u64 config "timeout" secs :=
    fallsBack_forward "Invalid timeout value" htimeout hbound
  have hinit : forward.init web config = .ok _ := bind_eq_ok.mpr ⟨upstreams, hupstreams,
    bind_eq_ok.mpr ⟨secs, hsecs, bind_eq_ok.mpr ⟨strategy, hstrategy, bind_eq_ok.mpr ⟨attempts, hattempts, rfl⟩⟩⟩⟩
  rw [takesAll_of_init hinit, params, List.forall_mem_cons, List.forall_mem_singleton]
  refine and_congr (FallsBack.iff htimeout hback) ?_
  exact concurrent_taken_iff hconcurrent fun v hv => (hvalid _ hmemc).range hv

theorem readNegativeTtl_eq_ok_some {r : Nat} : CacheSettings.readNegativeTtl config = .ok (some r) ↔
    Value.isTrue (config.effectiveArg "negative_cache") ∧
      readNumber 32 300 "Invalid negative_ttl value" "negative_ttl must be a number"
        (config.effectiveArg "negative_ttl") = .ok r := by
  rw [CacheSettings.readNegativeTtl]
  by_cases htrue : Value.isTrue (config.effectiveArg "negative_cache")
  · rw [if_pos htrue, and_iff_right htrue]
    cases readNumber 32 300 "Invalid negative_ttl value" "negative_ttl must be a number"
      (config.effectiveArg "negative_ttl") with
    | error e => exact iff_of_false nofun nofun
    | ok r' =>
      constructor
      · intro h
        exact congrArg Except.ok (Option.some.inj (Except.ok.inj h))
      · intro h
        exact congrArg Except.ok (congrArg some (Except.ok.inj h))
  · rw [if_neg htrue]
    exact iff_of_false nofun fun h => htrue h.1

/-- What the reader of the negative TTL gives for an argument that is written as it wants it. -/
theorem readNegativeTtl_of_written
    (hvalid : (config.effectiveArg "negative_ttl").isSome → (argValue .u32 config "negative_ttl").isSome)
    (hmax : ∀ v, argValue .u32 config "negative_ttl" = some v → v ≤ MAX_TTL)
    (hwritten : config.effectiveArg "negative_ttl" = none ∨
      IsNumber config "negative_ttl" ∧ Value.isTrue (config.effectiveArg "negative_cache")) :
    CacheSettings.readNegativeTtl config = .ok (if Value.isTrue (config.effectiveArg "negative_cache") then
      some ((argValue .u32 config "negative_ttl").getD 300) else none) := by
  by_cases htrue : Value.isTrue (config.effectiveArg "negative_cache")
  · rw [if_pos htrue]
    refine readNegativeTtl_eq_ok_some.mpr ⟨htrue, (readNumber_eq_ok (by decide) hvalid).mpr ⟨?_, rfl⟩⟩
    refine hwritten.imp_right fun hnumber => ⟨hnumber.1, ?_⟩
    cases harg : argValue .u32 config "negative_ttl" with
    | none => exact Nat.two_pow_pos 63
    | some v => exact lt_of_le_of_lt (hmax v harg) (by decide)
  · rw [CacheSettings.readNegativeTtl, if_neg htrue, if_neg htrue]

theorem written_of_takesAll_cache (hvalid : cache.Valid config) (hall : cache.TakesAll web config) :
    cache.Written config := by
  have hsize := hvalid.isSome (List.mem_cons_self ..)
  have hnegative := hvalid.isSome (List.mem_cons_of_mem _ (List.mem_cons_self ..))
  dsimp only at hsize hnegative
  rw [TakesAll, params, List.forall_mem_cons, List.forall_mem_singleton] at hall
  obtain ⟨hallsize, hallnegative⟩ := hall
  refine ⟨?_, ?_⟩
  · cases harg : argValue .usize config "size" with
    | none => exact .inl (arg_eq_none hsize harg)
    | some v =>
      obtain ⟨p, hp, -⟩ := hallsize v harg
      obtain ⟨size, hread, -⟩ := bind_eq_ok.mp hp
      rw [← harg]
      exact ((readNumber_eq_ok (by decide) hsize).mp hread).1
  · cases harg : argValue .u32 config "negative_ttl" with
    | none => exact .inl (arg_eq_none hnegative harg)
    | some v =>
      obtain ⟨p, hp, hcache, -⟩ := hallnegative v harg
      obtain ⟨size, -, hp⟩ := bind_eq_ok.mp hp
      obtain ⟨negativeTtl, hread, hp⟩ := bind_eq_ok.mp hp
      obtain ⟨_, -, hp⟩ := bind_eq_ok.mp hp
      obtain ⟨_, -, hp⟩ := bind_eq_ok.mp hp
      cases hp
      obtain ⟨r, rfl⟩ := Option.isSome_iff_exists.mp hcache
      obtain ⟨htrue, hnumber⟩ := readNegativeTtl_eq_ok_some.mp hread
      exact ((readNumber_eq_ok (by decide) hnegative).mp hnumber).1.imp_right fun h => ⟨h.1, htrue⟩

theorem takesAll_cache (hvalid : cache.Valid config) (hothers : cache.OthersFine web config) :
    cache.TakesAll web config ↔ cache.Written config := by
  refine ⟨written_of_takesAll_cache hvalid, ?_⟩
  have hmemn : _ ∈ cache.params := List.mem_cons_of_mem _ (List.mem_cons_self ..)
  have hsize := hvalid.isSome (List.mem_cons_self ..)
  obtain ⟨_, hwithout⟩ := hothers
  obtain ⟨_, -, hwithout⟩ := bind_eq_ok.mp hwithout
  obtain ⟨_, -, hwithout⟩ := bind_eq_ok.mp hwithout
  obtain ⟨cacheTtl, httl, hwithout⟩ := bind_eq_ok.mp hwithout
  obtain ⟨threshold, hthreshold, -⟩ := bind_eq_ok.mp hwithout
  rw [CacheSettings.readCacheTtl, PluginConfig.effectiveArg_without_of_notMem (by decide)] at httl
  rw [CacheSettings.readThreshold, PluginConfig.effectiveArg_without_of_notMem (by decide),
    PluginConfig.effectiveArg_without_of_notMem (by decide)] at hthreshold
  rintro ⟨hwsize, hwnegative⟩
  have hreadsize : readNumber 64 1024 "Invalid size value" "size must be a number" (config.effectiveArg "size") =
      .ok ((argValue .usize config "size").getD 1024) := (readNumber_eq_ok (by decide) hsize).mpr ⟨hwsize, rfl⟩
  have hreadnegative := readNegativeTtl_of_written (hvalid.isSome hmemn)
    (fun v hv => ((hvalid _ hmemn).range hv).2) hwnegative
  -- the other arguments are read as without these two
  have hinit : cache.init web config = .ok _ := bind_eq_ok.mpr ⟨_, hreadsize, bind_eq_ok.mpr ⟨_, hreadnegative,
    bind_eq_ok.mpr ⟨cacheTtl, httl, bind_eq_ok.mpr ⟨threshold, hthreshold, rfl⟩⟩⟩⟩
  rw [takesAll_of_init hinit, params, List.forall_mem_cons, List.forall_mem_singleton]
  refine ⟨?_, ?_⟩
  · intro v hv
    exact (congrArg (Option.getD · 1024) hv : _)
  · intro v hv
    rcases hwnegative with hnone | ⟨-, htrue⟩
    · rw [argValue_of_none hnone] at hv
      cases hv
    · dsimp only
      rw [if_pos htrue]
      exact ⟨rfl, (congrArg (Option.getD · 300) hv : _)⟩

/-- A validated plugin takes its arguments exactly if they are written the way it wants them. -/
theorem takes_of_valid (hvalid : t.Valid config) :
    t.Takes web config ↔ (t.OthersFine web config → t.Written config) := by
  rw [takes_iff_takesAll]
  refine imp_congr_right fun hothers => ?_
  rw [and_iff_right hvalid]
  cases t with
  | rateLimit => exact iff_of_true (takesAll_rateLimit hvalid) trivial
  | ttl => exact takesAll_ttl hvalid
  | downloader => exact takesAll_downloader hvalid hothers
  | cache => exact takesAll_cache hvalid hothers
  | forward => exact takesAll_forward hvalid hothers

end Checked

/-! ### Accepted configurations -/

/-- Every plugin of an accepted configuration takes its arguments exactly if each is valid, which validation looks at only if the type is written out, and written the way the plugin wants it. -/
theorem takesArguments_iff (web : Bool) (env : Env) {configs : List PluginConfig}
    (haccepted : validatePlugins configs = .ok ()) :
    (∀ config ∈ configs, ∀ t : Checked, PluginBuilder.typeOf env config = t.name → t.Takes web config) ↔
      ∀ config ∈ configs, ∀ t : Checked, PluginBuilder.typeOf env config = t.name → t.OthersFine web config →
        (config.pluginType = t.name ∨ t.Valid config) ∧ t.Written config := by
  refine forall₂_congr fun config hmem => forall₂_congr fun t htype => ?_
  constructor
  · intro htakes hothers
    have hvalid : t.Valid config := (Checked.takes_iff_takesAll.mp htakes hothers).1
    exact ⟨.inr hvalid, (Checked.takes_of_valid hvalid).mp htakes hothers⟩
  · intro hwritten
    by_cases hothers : t.OthersFine web config
    · have hvalid : t.Valid config := by
        rcases (hwritten hothers).1 with hname | hvalid
        · exact (validatePluginArgs_iff t hname).mp (validatePluginArgs_of_mem haccepted config hmem)
        · exact hvalid
      exact (Checked.takes_of_valid hvalid).mpr fun _ => (hwritten hothers).2
    · intro hfine
      exact absurd hfine hothers

/-- A cache with a hundred entries. -/
theorem takesArguments_iff_cache :
    Checked.cache.Takes false ⟨none, "Cache", .mapping [(.string "size", .number "100")]⟩ := by
  have haccepted : validatePlugins [⟨none, "Cache", .mapping [(.string "size", .number "100")]⟩] = .ok () := rfl
  refine (takesArguments_iff false (Env.answering (.error (.other ""))) haccepted).mpr ?_ _ (List.mem_cons_self ..)
    Checked.cache (by decide)
  intro config hmem t htype _
  obtain rfl := List.mem_singleton.mp hmem
  cases t with
  | cache =>
    refine ⟨.inr ?_, .inr ⟨⟨"100", rfl⟩, by decide⟩, .inl rfl⟩
    rw [Checked.Valid, Checked.params, List.forall_mem_cons, List.forall_mem_singleton]
    refine ⟨?_, nofun⟩
    intro _
    exact ⟨100, rfl, by decide, by decide⟩
  | _ => exact absurd htype (by decide)

/-- A limit of minus one, under a type in capitals: accepted, and made into more than four billion queries. -/
theorem not_takes_negativeLimit :
    validatePlugins [⟨none, "RATE_LIMIT", .mapping [(.string "max_queries", .number "-1")]⟩] = .ok () ∧
    PluginBuilder.typeOf (Env.answering (.error (.other "")))
      ⟨none, "RATE_LIMIT", .mapping [(.string "max_queries", .number "-1")]⟩ = "rate_limit" ∧
    RateLimitPlugin.init ⟨none, "RATE_LIMIT", .mapping [(.string "max_queries", .number "-1")]⟩ =
      .ok (.new 4294967295 60) ∧
    ¬ Checked.rateLimit.Takes false ⟨none, "RATE_LIMIT", .mapping [(.string "max_queries", .number "-1")]⟩ := by
  refine ⟨rfl, by decide, rfl, ?_⟩
  intro htakes
  obtain ⟨v, hv, -⟩ := htakes ⟨_, rfl⟩ _ (List.mem_cons_self ..) rfl
  cases hv

end Lazydns
