import Lazydns.Plugin.Sequence

/-!
# Building the plugins of a configuration

The builder makes a plugin of every entry of the configuration and registers it under the entry's name, and then resolves the references between them: every sequence is parsed again and registered anew, and every fallback gets its children. A plugin is held by its address, so a step that was linked to a plugin keeps that one when another is registered under the name. The plugin types that hold no other plugins are made by `Factories`, whatever those are.
-/

namespace Lazydns

/-! ### Configuration -/

inductive Value where
  | null
  | bool (b : Bool)
  | number (text : String)
  | string (s : String)
  | sequence (items : List Value)
  | mapping (entries : List (Value × Value))

namespace Value

def getKey (key : String) (entries : List (Value × Value)) : Option Value :=
  entries.findSome? fun e =>
    match e.1 with
    | .string k => if k = key then some e.2 else none
    | _ => none

theorem getKey_cons_string (key k : String) (v : Value) (entries : List (Value × Value)) :
    getKey key ((string k, v) :: entries) = if k = key then some v else getKey key entries := by
  rw [getKey, List.findSome?_cons]
  dsimp only
  by_cases hk : k = key
  · rw [if_pos hk, if_pos hk]
  · rw [if_neg hk, if_neg hk]
    rfl

theorem getKey_cons_of_ne (key : String) {k : Value} (hk : ∀ s, k ≠ string s) (v : Value)
    (entries : List (Value × Value)) : getKey key ((k, v) :: entries) = getKey key entries := by
  cases k with
  | string s => exact absurd rfl (hk s)
  | _ => rfl

def asStr : Value → Option String
  | string s => some s
  | _ => none

def asBool : Value → Option Bool
  | bool b => some b
  | _ => none

end Value

structure PluginConfig where
  tag : Option String
  pluginType : String
  args : Value

namespace PluginConfig

def effectiveName (config : PluginConfig) : String := config.tag.getD config.pluginType

/-- `effective_args().get(key)`. -/
def effectiveArg (config : PluginConfig) (key : String) : Option Value :=
  match config.args with
  | .mapping entries => Value.getKey key entries
  | _ => none

end PluginConfig

/-! ### Plugins by address -/

def SequenceStep.map {P Q : Type} (f : P → Q) : SequenceStep P → SequenceStep Q
  | .exec plugin => .exec (f plugin)
  | .cond condition action => .cond condition (f action)

@[simp] theorem SequenceStep.action_map {P Q : Type} (f : P → Q) (step : SequenceStep P) :
    (step.map f).action = f step.action := by
  cases step <;> rfl

/-- A plugin as it is in memory; the numbers are the addresses of others. -/
inductive PluginObject where
  | leaf (l : Leaf)
  | sequence (tag : Option String) (steps : List (SequenceStep Nat))
  | fallback (plugins : List Nat) (pending : List String) (errorOnly : Bool)

/-- What makes the plugins that hold no other plugins: `get_plugin_factory` by type, but for `fallback`, `get_exec_plugin_factory` by prefix, but for `fallback`, and `parse_condition`, which looks only at the registered datasets and fails with the reason of a configuration error. No factory is registered for sequences. -/
structure Factories where
  plugin : String → Option (PluginConfig → Except Error Leaf)
  exec : String → Option (String → Except Error Leaf)
  condition : (String → Option Leaf) → String → Except String Condition
  plugin_sequence : plugin "sequence" = none

structure PluginBuilder where
  objects : List PluginObject
  plugins : AList fun _ : String => Nat

namespace FallbackPlugin

def withNames (names : List String) : PluginObject := .fallback [] names false

def init (config : PluginConfig) : PluginObject :=
  let primary := ((config.effectiveArg "primary").bind Value.asStr).getD ""
  let secondary := ((config.effectiveArg "secondary").bind Value.asStr).getD ""
  .fallback [] ([primary, secondary].filter (· ≠ ""))
    (((config.effectiveArg "error_only").bind Value.asBool).getD false)

/-- `FallbackPlugin::quick_setup`, for the prefix `fallback`, up to `with_names`. -/
def quickSetup (execStr : String) : Except Error (List String) :=
  let names := ((execStr.splitOn ",").map trim).filter (· ≠ "")
  if names.isEmpty then .error (.config "fallback plugin requires at least one plugin name")
  else .ok names

end FallbackPlugin

namespace PluginBuilder

def new : PluginBuilder := ⟨[], ∅⟩

/-- A new plugin at an address of its own. -/
def alloc (b : PluginBuilder) (object : PluginObject) : Nat × PluginBuilder :=
  (b.objects.length, { b with objects := b.objects ++ [object] })

/-- Put a new plugin under a name, in place of the one that was there. -/
def register (b : PluginBuilder) (name : String) (object : PluginObject) : PluginBuilder where
  objects := b.objects ++ [object]
  plugins := b.plugins.insert name b.objects.length

def getPlugin (b : PluginBuilder) (name : String) : Option Nat := b.plugins.lookup name

def getLeaf (b : PluginBuilder) (name : String) : Option Leaf :=
  match (b.getPlugin name).bind fun id => b.objects[id]? with
  | some (.leaf l) => some l
  | _ => none

section

variable (env : Env) (factories : Factories)

/-! ### Building -/

/-- The type of a plugin, trimmed and in lower case. -/
def typeOf (config : PluginConfig) : String := env.toLowercase (trim config.pluginType)

/-- The plugin `build` makes; a sequence is only a placeholder. -/
def create (config : PluginConfig) : Except Error PluginObject :=
  if typeOf env config = "fallback" then .ok (FallbackPlugin.init config)
  else match factories.plugin (typeOf env config) with
    | some factory => (factory config).map .leaf
    | none =>
      if typeOf env config = "sequence" then .ok (.sequence config.tag [])
      else if typeOf env config ∈ ["tcp_server", "udp_server", "doh_server", "dot_server", "doq_server"] then
        .ok (.leaf (.plain .accept))
      else .error (.config ("Unknown plugin type: " ++ typeOf env config))

def build (b : PluginBuilder) (config : PluginConfig) : Except Error PluginBuilder :=
  (create env factories config).map (b.register config.effectiveName)

/-- The loop over the configuration when the server starts: an entry that fails is left out. -/
def buildAll (configs : List PluginConfig) : PluginBuilder :=
  configs.foldl (fun b config => (b.build env factories config).toOption.getD b) new

/-! ### Sequences -/

/-- What an `exec` value asks for: a plugin of the step's own, or a reference. -/
inductive Action where
  | leaf (l : Leaf)
  | fallback (names : List String)
  | named (name : String)

/-- The prefix of an `exec` string and its arguments. -/
def splitExec (execStr : String) : String × String :=
  if ' ' ∈ execStr.toList then
    (trim (String.ofList (execStr.toList.takeWhile (· ≠ ' '))),
      trim (String.ofList (execStr.toList.dropWhile (· ≠ ' '))))
  else (execStr, "")

/-- The part of `parse_exec_action` that does not need the builder. -/
def parseAction : Value → Except Error Action
  | .string execStr =>
    if (splitExec execStr).1 = "fallback" then
      (FallbackPlugin.quickSetup (splitExec execStr).2).map .fallback
    else match factories.exec (splitExec execStr).1 with
      | some factory => (factory (splitExec execStr).2).map .leaf
      | none =>
        match stripPrefix "$" execStr with
        | some name => .ok (.named name)
        | none => .error (.config ("Unknown exec action: " ++ execStr))
  | _ => .error (.config "exec value must be string")

/-- The address of what an action asks for. -/
def link (b : PluginBuilder) : Action → Except Error (Nat × PluginBuilder)
  | .leaf l => .ok (b.alloc (.leaf l))
  | .fallback names => .ok (b.alloc (FallbackPlugin.withNames names))
  | .named name =>
    match b.getPlugin name with
    | some id => .ok (id, b)
    | none => .error (.config ("Referenced plugin '" ++ name ++ "' not found"))

def parseExecAction (b : PluginBuilder) (execValue : Value) : Except Error (Nat × PluginBuilder) :=
  (parseAction factories execValue).bind (link b)

/-- The condition of a step, if it has one, and its `exec` value; an error is the reason of a configuration error. -/
def readStep (condition : String → Except String Condition) :
    Value → Except String (Option Condition × Value)
  | .mapping entries =>
    match Value.getKey "matches" entries with
    | some (.string conditionStr) => do
      let cond ← condition conditionStr
      match Value.getKey "exec" entries with
      | some execValue => .ok (some cond, execValue)
      | none => .error "matches step must have exec"
    | some _ => .error "matches value must be string"
    | none =>
      match Value.getKey "exec" entries with
      | some execValue => .ok (none, execValue)
      | none => .error "sequence step must have exec or matches"
  | _ => .error "sequence step must be a mapping"

def stepOf {P : Type} (condition : Option Condition) (action : P) : SequenceStep P :=
  match condition with
  | some condition => .cond condition action
  | none => .exec action

/-- `parse_sequence_steps`: a step whose action fails is skipped, any other error is one of the sequence. -/
def parseSequenceSteps (b : PluginBuilder) :
    List Value → Except String (List (SequenceStep Nat) × PluginBuilder)
  | [] => .ok ([], b)
  | stepValue :: rest => do
    let (condition, execValue) ← readStep (factories.condition b.getLeaf) stepValue
    match parseExecAction factories b execValue with
    | .ok (id, b) => do
      let (steps, b) ← parseSequenceSteps b rest
      return (stepOf condition id :: steps, b)
    | .error _ => parseSequenceSteps b rest

/-- The plugins of the simple format, a list of names. -/
def parsePluginNames (b : PluginBuilder) (name : String) : List Value → Except Error (List Nat)
  | [] => .ok []
  | .string child :: rest =>
    match b.getPlugin child with
    | some id => (parsePluginNames b name rest).map (id :: ·)
    | none => .error (.config ("sequence '" ++ name ++ "' references unknown plugin '" ++ child ++ "'"))
  | _ :: _ => .error (.config ("sequence '" ++ name ++ "': plugins entries must be strings"))

/-- A sequence is parsed again and registered anew. -/
def rebuild (b : PluginBuilder) (config : PluginConfig) : Except Error PluginBuilder :=
  let name := config.effectiveName
  match config.args with
  | .sequence items =>
    match parseSequenceSteps factories b items with
    | .ok (steps, b) => .ok (b.register name (.sequence config.tag steps))
    | .error e => .error (.config ("sequence '" ++ name ++ "': Configuration error: " ++ e))
  | .mapping entries =>
    match Value.getKey "plugins" entries with
    | some (.sequence names) =>
      (parsePluginNames b name names).map fun ids =>
        b.register name (.sequence config.tag (ids.map .exec))
    | _ => .error (.config ("sequence '" ++ name ++ "': unsupported mapping args"))
  | _ => .error (.config ("sequence '" ++ name ++ "': args must be a list or a plugins mapping"))

/-- The first pass of `resolve_references`, which ends at the first error. -/
def rebuildAll : List PluginConfig → PluginBuilder → Except Error Unit × PluginBuilder
  | [], b => (.ok (), b)
  | config :: rest, b =>
    if typeOf env config = "sequence" then
      match b.rebuild factories config with
      | .ok b => rebuildAll rest b
      | .error e => (.error e, b)
    else rebuildAll rest b

/-! ### Fallbacks -/

/-- `FallbackPlugin::resolve_children`; any other plugin stays as it is. -/
def resolveChildren (registry : AList fun _ : String => Nat) : PluginObject → PluginObject
  | .fallback plugins pending errorOnly =>
    .fallback (plugins ++ pending.filterMap fun name => registry.lookup name) [] errorOnly
  | object => object

/-- Resolve the plugin at an address. -/
def resolveAt (b : PluginBuilder) (id : Nat) : PluginBuilder :=
  { b with objects := b.objects.modify id (resolveChildren b.plugins) }

/-- The second pass: the fallbacks of the configuration. -/
def resolveFallbacks (configs : List PluginConfig) (b : PluginBuilder) : PluginBuilder :=
  configs.foldl (fun b config =>
    if typeOf env config = "fallback" then
      match b.getPlugin config.effectiveName with
      | some id => b.resolveAt id
      | none => b
    else b) b

/-- `SequencePlugin::resolve_fallback_children`, for the sequence at an address. -/
def resolveFallbackChildren (b : PluginBuilder) (id : Nat) : PluginBuilder :=
  match b.objects[id]? with
  | some (.sequence _ steps) => steps.foldl (fun b step => b.resolveAt step.action) b
  | _ => b

/-- The third pass: the fallbacks in the steps of registered sequences. -/
def resolveEmbedded (b : PluginBuilder) : PluginBuilder :=
  (b.plugins.entries.map Sigma.snd).foldl resolveFallbackChildren b

/-- `resolve_references`, which leaves the builder as far as it got when it fails. -/
def resolveReferences (configs : List PluginConfig) (b : PluginBuilder) :
    Except Error Unit × PluginBuilder :=
  match rebuildAll env factories configs b with
  | (.ok (), b) => (.ok (), resolveEmbedded (resolveFallbacks env configs b))
  | (.error e, b) => (.error e, b)

/-- All plugins of a configuration, as the server starts with them. -/
def load (configs : List PluginConfig) : Except Error Unit × PluginBuilder :=
  resolveReferences env factories configs (buildAll env factories configs)

end

/-! ### The plugins as the handler runs them -/

/-- The plugin at an address with what it holds, as far as a number of nested calls reaches. -/
def unfold (b : PluginBuilder) : Nat → Nat → Plugin
  | 0, _ => .fallback [] false
  | depth + 1, id =>
    match b.objects[id]? with
    | some (.leaf l) => .leaf l
    | some (.sequence tag steps) =>
      .sequence tag (steps.map (SequenceStep.map (b.unfold depth)))
    | some (.fallback plugins _ errorOnly) => .fallback (plugins.map (b.unfold depth)) errorOnly
    | none => .fallback [] false

/-- `get_registry`, in any order. -/
def Registers (b : PluginBuilder) (depth : Nat) (reg : Registry) : Prop :=
  ∀ name, reg.lookup name = (b.getPlugin name).map (b.unfold depth)

end PluginBuilder

end Lazydns
