import Lazydns.Config.Text
import Lazydns.Plugin.Validation

/-!
# Overriding the configuration from the environment

Variables replace settings of the log and of the two HTTP servers, and arguments of plugins: the name of such a variable has the tag of a plugin and a path to a place in its arguments, which is made where it is not there. The variables are taken in the order in which the snapshot, a hash map, gives them.
-/

namespace Lazydns

open Validation (parseUnsigned)

/-! ### Configuration -/

/-- The rotation is left out; it is kept, or set to its default, as `compress` is. -/
structure FileLogConfig where
  enabled : Bool
  path : String
  compress : Bool
  deriving DecidableEq, Repr

namespace FileLogConfig

def default : FileLogConfig := ⟨false, "lazydns.log", false⟩

end FileLogConfig

structure LogConfig where
  level : String
  console : Bool
  format : String
  file : Option FileLogConfig
  deriving DecidableEq, Repr

structure AdminConfig where
  enabled : Bool
  addr : String
  deriving DecidableEq, Repr

structure MonitoringConfig where
  enabled : Bool
  addr : String
  deriving DecidableEq, Repr

structure Config where
  plugins : List PluginConfig
  log : LogConfig
  admin : AdminConfig
  monitoring : MonitoringConfig

/-- The entries of a `HashMap`, in some order. -/
structure EnvSnapshot where
  entries : List (String × String)
  nodup : (entries.map Prod.fst).Nodup

/-! ### Paths into a value -/

inductive Segment where
  | key (k : String)
  | index (i : Nat)
  deriving DecidableEq, Repr

namespace Value

/-- `map.insert`: the value of the key is replaced, or the key is put behind the others. -/
def insertKey (key : String) (value : Value) : List (Value × Value) → List (Value × Value)
  | [] => [(.string key, value)]
  | (.string k, v) :: entries =>
    if k = key then (.string k, value) :: entries else (.string k, v) :: insertKey key value entries
  | e :: entries => e :: insertKey key value entries

/-- The entries of a mapping; anything else is replaced by a new one. -/
def entries : Value → List (Value × Value)
  | mapping entries => entries
  | _ => []

/-- The items of a sequence; anything else is replaced by a new one. -/
def items : Value → List Value
  | sequence items => items
  | _ => []

/-- `seq.resize(len, Value::Null)`, for a length that is not less. -/
def resize (len : Nat) (items : List Value) : List Value := items ++ List.replicate (len - items.length) .null

/-- What is made for the rest of a path to go through. -/
def container : List Segment → Value
  | .index _ :: _ => sequence []
  | _ => mapping []

def orContainer (path : List Segment) : Value → Value
  | null => container path
  | value => value

def setPath (value : Value) : List Segment → Value → Value
  | [], _ => value
  | .key k :: path, cur =>
    .mapping (insertKey k (setPath value path ((getKey k cur.entries).getD (container path))) cur.entries)
  | .index i :: path, cur =>
    let seq := resize (max (i + 1) cur.items.length) cur.items
    .sequence (seq.set i (setPath value path (orContainer path (seq.getD i .null))))

end Value

/-! ### Variables -/

/-- What the overrides use of the standard library and of the YAML parser. -/
structure OverrideEnv where
  toLowercase : String → String
  /-- `serde_yaml::from_str`. -/
  parseYaml : String → Option Value

/-- `RE_PLUGIN_ARGS` behind its first word: the tag is as long as it can be. -/
def splitArgs : List Char → Option (List Char × List Char)
  | [] => none
  | c :: text =>
    match if isVarChar c then splitArgs text else none with
    | some (tag, path) => some (c :: tag, path)
    | none =>
      if "_ARGS_".toList.isPrefixOf (c :: text) ∧ (c :: text).drop 6 ≠ [] ∧ '\n' ∉ (c :: text).drop 6 then
        some ([], (c :: text).drop 6)
      else none

/-- The tag and the path that `RE_PLUGIN_ARGS` captures. -/
def matchPluginArgs (name : String) : Option (String × String) :=
  match (stripPrefix "PLUGINS_" name).bind fun rest => splitArgs rest.toList with
  | some ([], _) => none
  | some (tag, path) => some (String.ofList tag, String.ofList path)
  | none => none

variable (env : OverrideEnv)

def normalizeIdentifier (s : String) : String :=
  String.ofList ((env.toLowercase s).toList.map fun c => if c = '_' then '-' else c)

/-- A part of a path; indices are `usize`, on a machine of 64 bits. -/
def parseSegment (part : String) : Segment :=
  match parseUnsigned (2 ^ 64 - 1) part with
  | some i => .index i
  | none => .key (normalizeIdentifier env part)

def parsePath (keyPathRaw : String) : List Segment :=
  (keyPathRaw.toList.splitOn '_').map fun part => parseSegment env (String.ofList part)

def parseYamlValue (valueStr : String) : Value := (env.parseYaml valueStr).getD (.string valueStr)

/-- The plugin whose arguments a variable sets, by its place among the plugins, and the path. -/
def addressed (plugins : List PluginConfig) (name : String) : Option (Nat × List Segment) :=
  (matchPluginArgs name).bind fun caps =>
    (plugins.findIdx? fun p => normalizeIdentifier env p.effectiveName = normalizeIdentifier env caps.1).map fun j =>
      (j, parsePath env caps.2)

/-- Arguments that are no mapping are dropped before the path is followed. -/
def setArg (value : Value) (path : List Segment) (p : PluginConfig) : PluginConfig :=
  { p with args := Value.setPath value path (.mapping p.args.entries) }

/-- `true`, `1` or `yes`, in any case. -/
def isTruthy (valueStr : String) : Bool := ["true", "1", "yes"].contains (env.toLowercase valueStr)

def LogConfig.setFile (log : LogConfig) (path : String) : LogConfig :=
  { log with
    file := match log.file with
      | some file => some { file with path, enabled := true }
      | none => some { FileLogConfig.default with enabled := true, path } }

/-- The settings of the log are not set to an empty text. -/
def unlessEmpty (set : Config → String → Config) (config : Config) (value : String) : Config :=
  if value = "" then config else set config value

/-- The variables of fixed names, each with what it sets. -/
def settings : List (String × (Config → String → Config)) :=
  [("LOG_LEVEL", unlessEmpty fun config value => { config with log := { config.log with level := value } }),
   ("LOG_FORMAT", unlessEmpty fun config value => { config with log := { config.log with format := value } }),
   ("LOG_FILE", unlessEmpty fun config value => { config with log := config.log.setFile value }),
   ("LOG_CONSOLE", unlessEmpty fun config value =>
      { config with log := { config.log with console := isTruthy env value } }),
   ("ADMIN_ENABLED", fun config value => { config with admin := { config.admin with enabled := isTruthy env value } }),
   ("ADMIN_ADDR", fun config value => { config with admin := { config.admin with addr := value } }),
   ("METRICS_ENABLED", fun config value =>
      { config with monitoring := { config.monitoring with enabled := isTruthy env value } }),
   ("METRICS_ADDR", fun config value => { config with monitoring := { config.monitoring with addr := value } })]

/-- The body of the loop of `apply_env_overrides_from_snapshot`. -/
def applyVar (config : Config) (var : String × String) : Config :=
  match (settings env).lookup var.1 with
  | some set => set config var.2
  | none =>
    match addressed env config.plugins var.1 with
    | some (j, path) => { config with plugins := config.plugins.modify j (setArg (parseYamlValue env var.2) path) }
    | none => config

def applyEnvOverridesFromSnapshot (config : Config) (snapshot : List (String × String)) : Config :=
  snapshot.foldl (applyVar env) config

end Lazydns
