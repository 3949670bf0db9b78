import Lazydns.Plugin.Builder

/-!
# Validating the plugins of a configuration

`validate_plugins` wants names that differ, types that are not empty, and the numeric parameters of some types in their ranges. It does not look at what the plugins refer to.
-/

namespace Lazydns

namespace Validation

def MIN_TIMEOUT_SECS : Nat := 1
def MAX_TIMEOUT_SECS : Nat := 3600
def MIN_RATE_LIMIT : Nat := 1
def MAX_RATE_LIMIT : Nat := 1000000
def MIN_WINDOW_SECS : Nat := 1
def MAX_WINDOW_SECS : Nat := 86400

/-- `i32::MAX`. -/
def MAX_TTL : Nat := 2 ^ 31 - 1

/-! ### Numbers -/

/-- The implementations of `IntValue`; a `usize` has 64 bits. -/
inductive IntType where
  | u32
  | u64
  | usize

namespace IntType

def typeName : IntType → String
  | u32 => "u32"
  | u64 => "u64"
  | usize => "usize"

def max : IntType → Nat
  | u32 => 2 ^ 32 - 1
  | u64 | usize => 2 ^ 64 - 1

end IntType

def digitsValue (digits : List Char) : Option Nat :=
  if digits ≠ [] ∧ digits.all Char.isDigit then
    some (digits.foldl (fun value c => 10 * value + (c.toNat - '0'.toNat)) 0)
  else none

/-- `str::parse` at an unsigned type: digits, with a sign or without. -/
def parseUnsigned (limit : Nat) (text : String) : Option Nat :=
  let digits := match text.toList with
    | '+' :: rest => rest
    | cs => cs
  (digitsValue digits).filter (· ≤ limit)

def fromYamlNumber (t : IntType) (text : String) : Option Nat :=
  (digitsValue text.toList).filter (· ≤ t.max)

def extractInt (t : IntType) (key : String) : Value → Except Error Nat
  | .number text =>
    (fromYamlNumber t text).elim
      (.error (.config ("Parameter '" ++ key ++ "' must be a valid " ++ t.typeName ++ " number"))) .ok
  | .string s =>
    (parseUnsigned t.max s).elim
      (.error (.config ("Parameter '" ++ key ++ "' must be a valid " ++ t.typeName ++ " number"))) .ok
  | _ => .error (.config ("Parameter '" ++ key ++ "' must be a number"))

def validateIntRange (t : IntType) (config : PluginConfig) (key : String) (min max : Nat) (optional : Bool) :
    Except Error Unit :=
  match config.effectiveArg key with
  | some value => do
    let val ← extractInt t key value
    if val < min ∨ val > max then
      .error (.config ("Parameter '" ++ key ++ "' must be between " ++ toString min ++ " and " ++
        toString max ++ ", got " ++ toString val))
    else .ok ()
  | none =>
    if !optional then .error (.config ("Required parameter '" ++ key ++ "' is missing")) else .ok ()

/-! ### Plugins -/

def validatePluginArgs (config : PluginConfig) : Except Error Unit :=
  match config.pluginType with
  | "rate_limit" => do
    validateIntRange .u32 config "max_queries" MIN_RATE_LIMIT MAX_RATE_LIMIT true
    validateIntRange .u64 config "window_secs" MIN_WINDOW_SECS MAX_WINDOW_SECS true
  | "ttl" => do
    validateIntRange .u32 config "ttl" 0 MAX_TTL true
    validateIntRange .u32 config "min" 0 MAX_TTL true
    validateIntRange .u32 config "max" 0 MAX_TTL true
  | "downloader" => do
    validateIntRange .u64 config "timeout_secs" MIN_TIMEOUT_SECS MAX_TIMEOUT_SECS true
    validateIntRange .u64 config "retry_delay_secs" 0 MAX_TIMEOUT_SECS true
    validateIntRange .usize config "max_retries" 0 100 true
  | "cache" => do
    validateIntRange .usize config "size" 1 IntType.usize.max true
    validateIntRange .u32 config "negative_ttl" 0 MAX_TTL true
  | "forward" => do
    validateIntRange .u64 config "timeout" MIN_TIMEOUT_SECS MAX_TIMEOUT_SECS true
    validateIntRange .usize config "concurrent" 1 1000 true
  | _ => .ok ()

/-- The first loop of `validate_plugins`, with the names seen so far. -/
def validateNames (names : List String) : List PluginConfig → Except Error Unit
  | [] => .ok ()
  | config :: rest =>
    if config.effectiveName ∈ names then
      .error (.config ("Duplicate plugin name: '" ++ config.effectiveName ++ "'"))
    else validateNames (config.effectiveName :: names) rest

/-- The second loop of `validate_plugins`. -/
def validateEach : List PluginConfig → Except Error Unit
  | [] => .ok ()
  | config :: rest => do
    if config.pluginType = "" then .error (.config "Plugin type cannot be empty") else .ok ()
    validatePluginArgs config
    validateEach rest

def validatePlugins (configs : List PluginConfig) : Except Error Unit := do
  validateNames [] configs
  validateEach configs

/-! ### What validation gives -/

theorem nodup_of_validateNames {names : List String} {configs : List PluginConfig}
    (h : validateNames names configs = .ok ()) :
    (configs.map (·.effectiveName)).Nodup ∧ ∀ config ∈ configs, config.effectiveName ∉ names := by
  induction configs generalizing names with
  | nil => exact ⟨List.nodup_nil, nofun⟩
  | cons config rest ih =>
    rw [validateNames] at h
    split at h
    · cases h
    · rename_i hnew
      obtain ⟨hnodup, hfresh⟩ := ih h
      constructor
      · rw [List.map_cons, List.nodup_cons]
        refine ⟨fun hmem => ?_, hnodup⟩
        obtain ⟨c, hc, heq⟩ := List.mem_map.mp hmem
        exact hfresh c hc (heq ▸ List.mem_cons_self)
      · intro c hc
        rcases List.mem_cons.mp hc with rfl | hc
        · exact hnew
        · exact fun hmem => hfresh c hc (List.mem_cons_of_mem _ hmem)

theorem nodup_of_validatePlugins {configs : List PluginConfig} (h : validatePlugins configs = .ok ()) :
    (configs.map (·.effectiveName)).Nodup := by
  rw [validatePlugins] at h
  cases hnames : validateNames [] configs with
  | error e =>
    rw [hnames] at h
    cases h
  | ok u => exact (nodup_of_validateNames hnames).1

end Validation

end Lazydns
