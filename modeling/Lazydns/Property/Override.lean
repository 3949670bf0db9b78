import Lazydns.Config.VariableName
import Lazydns.Plugin.Names

/-!
# Overriding one argument

The variable of an argument sets that argument and nothing else if its name is read as it is meant. Otherwise it goes astray: `NEGATIVE_TTL` is read as the key `ttl` inside `negative`, and a hyphen or a capital letter in the tag or the key is lost. Then the override is as it should be only by chance, if the argument has the value and what goes astray is there already.
-/

namespace Lazydns

variable {env : OverrideEnv} {upper : String → String}

/-! ### The plugins after a variable -/

/-- The plugins that a variable leaves. -/
def overridden (env : OverrideEnv) (plugins : List PluginConfig) (name value : String) : List PluginConfig :=
  match addressed env plugins name with
  | some (j, path) => plugins.modify j (setArg (parseYamlValue env value) path)
  | none => plugins

theorem mem_of_lookup {α : Type} {l : List (String × α)} {name : String} {a : α} (h : l.lookup name = some a) :
    (name, a) ∈ l := by
  induction l with
  | nil => cases h
  | cons e l ih =>
    rw [List.lookup_cons] at h
    split at h
    · rename_i heq
      cases h
      rw [eq_of_beq heq]
      exact List.mem_cons_self
    · exact List.mem_cons_of_mem _ (ih h)

theorem matchPluginArgs_setting {name : String} {set : Config → String → Config} (h : (name, set) ∈ settings env) :
    matchPluginArgs name = none := by
  have hnames : ∀ name ∈ (settings env).map Prod.fst, matchPluginArgs name = none := by
    simp only [settings, List.map_cons, List.map_nil]
    decide
  exact hnames name (List.mem_map_of_mem h)

theorem setting_plugins {name : String} {set : Config → String → Config} (h : (name, set) ∈ settings env)
    (plugins : List PluginConfig) (config : Config) (value : String) :
    set { config with plugins } value = { set config value with plugins } := by
  have hif : ∀ set : Config → String → Config,
      (∀ config, set { config with plugins } value = { set config value with plugins }) →
        unlessEmpty set { config with plugins } value = { unlessEmpty set config value with plugins } := by
    intro set hset
    rw [unlessEmpty, unlessEmpty]
    split
    · rfl
    · exact hset config
  simp only [settings, List.mem_cons, Prod.mk.injEq, List.not_mem_nil, or_false] at h
  rcases h with ⟨-, rfl⟩ | ⟨-, rfl⟩ | ⟨-, rfl⟩ | ⟨-, rfl⟩ | ⟨-, rfl⟩ | ⟨-, rfl⟩ | ⟨-, rfl⟩ | ⟨-, rfl⟩ <;>
    first | rfl | exact hif _ fun _ => rfl

theorem plugins_setting {name : String} {set : Config → String → Config} (h : (name, set) ∈ settings env)
    (config : Config) (value : String) : (set config value).plugins = config.plugins := by
  have hplugins := congrArg Config.plugins (setting_plugins h config.plugins config value)
  exact hplugins

theorem applyVar_of_lookup {e : String × String} (h : (settings env).lookup e.1 = none) (config : Config) :
    applyVar env config e = { config with plugins := overridden env config.plugins e.1 e.2 } := by
  rw [applyVar, h, overridden]
  dsimp only
  cases addressed env config.plugins e.1 <;> rfl

theorem applyVar_setting {e : String × String} {set : Config → String → Config}
    (h : (settings env).lookup e.1 = some set) (config : Config) : applyVar env config e = set config e.2 := by
  rw [applyVar, h]

theorem plugins_applyVar (config : Config) (name value : String) :
    (applyVar env config (name, value)).plugins = overridden env config.plugins name value := by
  cases hset : (settings env).lookup name with
  | none => rw [applyVar_of_lookup hset]
  | some set =>
    have hmem := mem_of_lookup hset
    rw [applyVar_setting hset, overridden, addressed, matchPluginArgs_setting hmem]
    exact plugins_setting hmem config value

theorem plugins_foldl_of_none {vars : List (String × String)} (h : ∀ e ∈ vars, matchPluginArgs e.1 = none)
    (config : Config) : (vars.foldl (applyVar env) config).plugins = config.plugins := by
  induction vars generalizing config with
  | nil => rfl
  | cons e vars ih =>
    rw [List.foldl_cons, ih fun e he => h e (List.mem_cons_of_mem _ he), plugins_applyVar, overridden, addressed,
      h e List.mem_cons_self]
    rfl

/-! ### What the override should do -/

/-- One argument of one plugin has the value; its other arguments, its steps if it is a sequence, and the other plugins are as they were. -/
structure Overridden (plugins plugins' : List PluginConfig) (i : Nat) (k : String) (value : Value) : Prop where
  others : ∀ j ≠ i, plugins'[j]? = plugins[j]?
  argument : ∀ p p', plugins[i]? = some p → plugins'[i]? = some p' →
    p'.tag = p.tag ∧ p'.pluginType = p.pluginType ∧ p'.effectiveArg k = some value ∧
      (∀ k' ≠ k, p'.effectiveArg k' = p.effectiveArg k') ∧ ∀ steps, p.args = .sequence steps → p'.args = .sequence steps
  length : plugins'.length = plugins.length

/-- Writing a value at a path in some arguments changes nothing. -/
def AlreadyAt (value : Value) (path : List Segment) (args : Value) : Prop :=
  match path with
  | .index _ :: _ => args = Value.built value path
  | _ => Value.getPath path args = some value

theorem effectiveArg_eq (p : PluginConfig) (k : String) : p.effectiveArg k = Value.child (.key k) p.args := by
  obtain ⟨tag, pluginType, args⟩ := p
  cases args <;> rfl

theorem setArg_eq_self_iff {value : Value} {path : List Segment} (hpath : path ≠ []) {p : PluginConfig} :
    setArg value path p = p ↔ AlreadyAt value path p.args := by
  have hargs : setArg value path p = p ↔ Value.setPath value path (.mapping p.args.entries) = p.args := by
    refine ⟨fun h => congrArg PluginConfig.args h, fun h => ?_⟩
    rw [setArg, h]
  rw [hargs]
  cases path with
  | nil => exact absurd rfl hpath
  | cons s path =>
    cases s with
    | key k =>
      have hentries : Value.setPath value (.key k :: path) (.mapping p.args.entries) =
          Value.setPath value (.key k :: path) p.args := rfl
      rw [hentries]
      exact Value.setPath_eq_self_iff
    | index i =>
      rw [Value.setPath_of_child (.inr ⟨i, rfl⟩)]
      exact eq_comm

theorem effectiveArg_setArg_key (value : Value) (k k' : String) (path : List Segment) (p : PluginConfig) :
    (setArg value (.key k :: path) p).effectiveArg k' =
      if k' = k then some (Value.setPath value path ((p.effectiveArg k).getD .null)) else p.effectiveArg k' := by
  rw [effectiveArg_eq, effectiveArg_eq, effectiveArg_eq]
  exact Value.child_key_setPath value k path (.mapping p.args.entries) k'

/-! ### When it does -/

section

variable {plugins : List PluginConfig} {i : Nat} {p : PluginConfig} {k name value : String}

/-- Everything that the override does is there already: the argument has the value, and what is written where the name leads changes nothing. -/
def AlreadySet (env : OverrideEnv) (plugins : List PluginConfig) (p : PluginConfig) (k name value : String) : Prop :=
  p.effectiveArg k = some (parseYamlValue env value) ∧
    ∀ j path q, addressed env plugins name = some (j, path) → plugins[j]? = some q →
      AlreadyAt (parseYamlValue env value) path q.args

theorem addressed_ne_nil {j : Nat} {path : List Segment} (h : addressed env plugins name = some (j, path)) :
    path ≠ [] := by
  obtain ⟨caps, -, hfound⟩ := Option.bind_eq_some_iff.mp h
  obtain ⟨j', -, heq⟩ := Option.map_eq_some_iff.mp hfound
  cases heq
  rw [← List.length_pos_iff, length_parsePath]
  exact Nat.succ_pos _

theorem overridden_of_unchanged (hp : plugins[i]? = some p) (hvalue : p.effectiveArg k = some (parseYamlValue env value)) :
    Overridden plugins plugins i k (parseYamlValue env value) where
  others _ _ := rfl
  argument q q' hq hq' := by
    rw [hp] at hq hq'
    cases hq
    cases hq'
    exact ⟨rfl, rfl, hvalue, fun _ _ => rfl, fun _ h => h⟩
  length := rfl

theorem overridden_eq_self (h : AlreadySet env plugins p k name value) : overridden env plugins name value = plugins := by
  rw [overridden]
  cases haddressed : addressed env plugins name with
  | none => rfl
  | some found =>
    obtain ⟨j, path⟩ := found
    refine List.ext_getElem? fun l => ?_
    rw [List.getElem?_modify]
    cases hl : plugins[l]? with
    | none => rfl
    | some q =>
      refine congrArg some ?_
      dsimp only
      by_cases hj : j = l
      · subst hj
        rw [if_pos rfl, (setArg_eq_self_iff (addressed_ne_nil haddressed)).mpr (h.2 j path q haddressed hl)]
      · rw [if_neg hj]

theorem overridden_of_addressed (hp : plugins[i]? = some p) (haddressed : addressed env plugins name = some (i, [.key k]))
    (hsteps : ∀ steps, p.args ≠ .sequence steps) :
    Overridden plugins (overridden env plugins name value) i k (parseYamlValue env value) := by
  rw [overridden, haddressed]
  dsimp only
  refine ⟨fun j hj => ?_, fun q q' hq hq' => ?_, List.length_modify _ _ _⟩
  · rw [List.getElem?_modify_ne _ _ hj.symm]
  · rw [List.getElem?_modify_eq, hq] at hq'
    rw [hp] at hq
    cases hq
    cases hq'
    refine ⟨rfl, rfl, ?_, fun k' hk' => ?_, fun steps h => absurd h (hsteps steps)⟩
    · rw [effectiveArg_setArg_key, if_pos rfl]
      rfl
    · rw [effectiveArg_setArg_key, if_neg hk']

/-- Writing elsewhere in the arguments sets this argument, and no other, only if all is there already. -/
theorem alreadyAt_of_argument {v : Value} {path : List Segment} (hne : path ≠ []) (hpath : path ≠ [.key k])
    (hvalue : (setArg v path p).effectiveArg k = some v)
    (hothers : ∀ k' ≠ k, (setArg v path p).effectiveArg k' = p.effectiveArg k') :
    p.effectiveArg k = some v ∧ AlreadyAt v path p.args := by
  cases path with
  | nil => exact absurd rfl hne
  | cons s path =>
    cases s with
    | index l =>
      -- The arguments have become a sequence.
      rw [effectiveArg_eq] at hvalue
      cases hvalue
    | key l =>
      by_cases hl : l = k
      · subst hl
        rw [effectiveArg_setArg_key, if_pos rfl] at hvalue
        have hself := Value.getPath_setPath v path ((p.effectiveArg l).getD .null)
        rw [Option.some.inj hvalue] at hself
        obtain rfl : path = [] := by_contra fun hpath => Value.getPath_ne_self hpath hself
        exact absurd rfl hpath
      · rw [effectiveArg_setArg_key, if_neg (Ne.symm hl)] at hvalue
        have hsame := hothers l hl
        rw [effectiveArg_setArg_key, if_pos rfl] at hsame
        refine ⟨hvalue, ?_⟩
        change (Value.child (.key l) p.args).bind (Value.getPath path) = _
        rw [← effectiveArg_eq, ← hsame]
        exact Value.getPath_setPath _ _ _

/-- A name that leads elsewhere does as it should only if all is there already. -/
theorem alreadySet_of_overridden (hp : plugins[i]? = some p)
    (h : Overridden plugins (overridden env plugins name value) i k (parseYamlValue env value))
    (haddressed : addressed env plugins name ≠ some (i, [.key k])) : AlreadySet env plugins p k name value := by
  rw [overridden] at h
  cases hfound : addressed env plugins name with
  | none =>
    rw [hfound] at h
    obtain ⟨-, -, hvalue, -⟩ := h.argument p p hp hp
    exact ⟨hvalue, fun j path q hj => nomatch hj.symm.trans hfound⟩
  | some found =>
    obtain ⟨j, path⟩ := found
    rw [hfound] at h haddressed
    have hne := addressed_ne_nil hfound
    suffices hboth : p.effectiveArg k = some (parseYamlValue env value) ∧
        ∀ q, plugins[j]? = some q → AlreadyAt (parseYamlValue env value) path q.args by
      refine ⟨hboth.1, fun j' path' q heq hq => ?_⟩
      cases heq.symm.trans hfound
      exact hboth.2 q hq
    by_cases hj : j = i
    · subst hj
      have hp' : (plugins.modify j (setArg (parseYamlValue env value) path))[j]? =
          some (setArg (parseYamlValue env value) path p) := by
        rw [List.getElem?_modify_eq, hp]
        rfl
      obtain ⟨-, -, hvalue, hothers, -⟩ := h.argument p _ hp hp'
      have hpath : path ≠ [.key k] := by
        rintro rfl
        exact haddressed rfl
      obtain ⟨hset, halready⟩ := alreadyAt_of_argument hne hpath hvalue hothers
      refine ⟨hset, fun q hq => ?_⟩
      cases hp.symm.trans hq
      exact halready
    · have hp' : (plugins.modify j (setArg (parseYamlValue env value) path))[i]? = some p := by
        rw [List.getElem?_modify_ne _ _ hj, hp]
      obtain ⟨-, -, hvalue, -⟩ := h.argument p p hp hp'
      refine ⟨hvalue, fun q hq => ?_⟩
      have hsame := h.others j hj
      rw [List.getElem?_modify_eq, hq] at hsame
      exact (setArg_eq_self_iff hne).mp (Option.some.inj hsame)

end

/-- The variable of an argument sets it and nothing else exactly if its name is read as it is meant and the plugin is no sequence, or all that it does is there already. -/
theorem overridden_iff (hupper : KeepsUnderscores upper) {config : Config} {i : Nat} {p : PluginConfig}
    (hp : config.plugins[i]? = some p) (k value : String) {before after : List (String × String)}
    (hothers : ∀ e ∈ before ++ after, matchPluginArgs e.1 = none) :
    Overridden config.plugins
        (applyEnvOverridesFromSnapshot env config (before ++ (varName upper p.effectiveName k, value) :: after)).plugins
        i k (parseYamlValue env value) ↔
      (Addressable env upper config.plugins i p.effectiveName k ∧ ∀ steps, p.args ≠ .sequence steps) ∨
        AlreadySet env config.plugins p k (varName upper p.effectiveName k) value := by
  have hplugins : (applyEnvOverridesFromSnapshot env config
      (before ++ (varName upper p.effectiveName k, value) :: after)).plugins =
      overridden env config.plugins (varName upper p.effectiveName k) value := by
    rw [applyEnvOverridesFromSnapshot, List.foldl_append, List.foldl_cons,
      plugins_foldl_of_none fun e he => hothers e (List.mem_append_right _ he), plugins_applyVar,
      plugins_foldl_of_none fun e he => hothers e (List.mem_append_left _ he)]
  rw [hplugins, ← addressed_varName_iff hupper]
  constructor
  · intro h
    by_cases haddressed : addressed env config.plugins (varName upper p.effectiveName k) = some (i, [.key k])
    · refine .inl ⟨haddressed, fun steps hsteps => ?_⟩
      have hp' : (overridden env config.plugins (varName upper p.effectiveName k) value)[i]? =
          some (setArg (parseYamlValue env value) [.key k] p) := by
        rw [overridden, haddressed]
        dsimp only
        rw [List.getElem?_modify_eq, hp]
        rfl
      obtain ⟨-, -, -, -, hargs⟩ := h.argument p _ hp hp'
      cases hargs steps hsteps
    · exact .inr (alreadySet_of_overridden hp h haddressed)
  · rintro (⟨haddressed, hsteps⟩ | halready)
    · exact overridden_of_addressed hp haddressed hsteps
    · rw [overridden_eq_self halready]
      exact overridden_of_unchanged hp halready.1

/-! ### Examples -/

def asciiUppercase (s : String) : String := String.ofList (s.toList.map Char.toUpper)

theorem keepsUnderscores_asciiUppercase : KeepsUnderscores asciiUppercase := by
  have hchar : ∀ c : Char, c.toUpper = '_' ↔ c = '_' := by
    intro c
    by_cases hlower : c.val ≥ 'a'.val ∧ c.val ≤ 'z'.val
    · have hlow : 97 ≤ c.val.toNat := hlower.1
      have hhigh : c.val.toNat ≤ 122 := hlower.2
      refine iff_of_false (fun h => ?_) fun h => ?_
      · have hval : (c.val + 4294967264).toNat = 95 := by
          rw [Char.toUpper.eq_def, dif_pos hlower] at h
          exact congrArg (fun d => d.val.toNat) h
        rw [UInt32.toNat_add, show (4294967264 : UInt32).toNat = 4294967264 from rfl] at hval
        omega
      · rw [h] at hlow
        exact absurd hlow (by decide)
    · rw [Char.toUpper.eq_def, dif_neg hlower]
  intro s
  rw [asciiUppercase, String.toList_ofList, List.mem_map]
  constructor
  · rintro ⟨c, hc, h⟩
    rwa [(hchar c).mp h] at hc
  · exact fun h => ⟨'_', h, rfl⟩

/-- ASCII letters, and numbers as the only YAML. -/
def OverrideEnv.plain : OverrideEnv where
  toLowercase := asciiLowercase
  parseYaml s := if s.toList.all Char.isDigit then some (.number s) else none

/-- A number is parsed as itself. -/
theorem parseYamlValue_plain {s : String} (h : s.toList.all Char.isDigit = true) :
    parseYamlValue .plain s = .number s := by
  simp only [parseYamlValue, OverrideEnv.plain, h, if_true, Option.getD_some]

/-- A cache with the arguments that the documentation overrides. -/
def cacheConfig : PluginConfig :=
  ⟨some "cache", "cache", .mapping [(.string "size", .number "1024"), (.string "negative_ttl", .number "300")]⟩

def cacheOnly : Config := ⟨[cacheConfig], ⟨"info", false, "text", none⟩, ⟨false, "127.0.0.1:8000"⟩, ⟨false, "127.0.0.1:8001"⟩⟩

/-- The variable of `size` is `PLUGINS_CACHE_ARGS_SIZE`. -/
theorem overridden_iff_size :
    varName asciiUppercase cacheConfig.effectiveName "size" = "PLUGINS_CACHE_ARGS_SIZE" ∧
      Overridden cacheOnly.plugins
        (applyEnvOverridesFromSnapshot .plain cacheOnly
          ([("LOG_LEVEL", "debug")] ++ (varName asciiUppercase cacheConfig.effectiveName "size", "2048") :: [])).plugins
        0 "size" (parseYamlValue .plain "2048") ∧
      Addressable .plain asciiUppercase cacheOnly.plugins 0 cacheConfig.effectiveName "size" := by
  have haddressable : Addressable .plain asciiUppercase cacheOnly.plugins 0 cacheConfig.effectiveName "size" := by
    constructor
    case tag_chars => exact List.all_eq_true.mp (by decide +kernel)
    all_goals decide +kernel
  have hargs : ∀ steps, cacheConfig.args ≠ .sequence steps := by
    intro steps hsteps
    cases hsteps
  exact ⟨by decide +kernel, (overridden_iff keepsUnderscores_asciiUppercase rfl "size" "2048" (by decide +kernel)).mpr
    (.inl ⟨haddressable, hargs⟩), haddressable⟩

/-- The variable of `negative_ttl` in the documentation leaves that argument as it was, and makes a mapping `negative`. -/
theorem not_overridden_negative_ttl : varName asciiUppercase "cache" "negative_ttl" = "PLUGINS_CACHE_ARGS_NEGATIVE_TTL" ∧
    addressed .plain cacheOnly.plugins "PLUGINS_CACHE_ARGS_NEGATIVE_TTL" = some (0, [.key "negative", .key "ttl"]) ∧
    ¬Overridden cacheOnly.plugins
      (applyEnvOverridesFromSnapshot .plain cacheOnly [("PLUGINS_CACHE_ARGS_NEGATIVE_TTL", "3600")]).plugins
      0 "negative_ttl" (parseYamlValue .plain "3600") := by
  have haddressed : addressed .plain cacheOnly.plugins "PLUGINS_CACHE_ARGS_NEGATIVE_TTL" =
      some (0, [.key "negative", .key "ttl"]) := by decide +kernel
  refine ⟨by decide, haddressed, fun h => ?_⟩
  have hplugins : (applyEnvOverridesFromSnapshot .plain cacheOnly [("PLUGINS_CACHE_ARGS_NEGATIVE_TTL", "3600")]).plugins =
      [setArg (parseYamlValue .plain "3600") [.key "negative", .key "ttl"] cacheConfig] := by
    rw [applyEnvOverridesFromSnapshot, List.foldl_cons, List.foldl_nil, plugins_applyVar, overridden, haddressed]
    rfl
  rw [hplugins] at h
  obtain ⟨-, -, hvalue, -⟩ := h.argument cacheConfig _ rfl rfl
  rw [effectiveArg_setArg_key, if_neg (by decide)] at hvalue
  have h300 : cacheConfig.effectiveArg "negative_ttl" = some (.number "300") := by
    rw [effectiveArg_eq]
    rfl
  rw [h300, parseYamlValue_plain (by decide)] at hvalue
  exact absurd (Value.number.inj (Option.some.inj hvalue)) (by decide)

end Lazydns
