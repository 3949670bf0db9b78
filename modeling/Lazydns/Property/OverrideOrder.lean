import Lazydns.Lib.Folds
import Lazydns.Property.Override

/-!
# The order of the overrides

The snapshot is a hash map, so its variables are taken in any order. Each two of them come out the same in either order, but for two that lead into the arguments of one plugin: what the later one writes may replace what the earlier one has written.
-/

namespace Lazydns

variable {env : OverrideEnv}

/-! ### Equal configurations -/

/-- Equal but for the order of the entries of mappings. -/
structure PluginConfig.Same (p q : PluginConfig) : Prop where
  tag : p.tag = q.tag
  pluginType : p.pluginType = q.pluginType
  args : Value.Same p.args q.args

structure Config.Same (c d : Config) : Prop where
  plugins : ∀ i : Nat, Option.Rel PluginConfig.Same c.plugins[i]? d.plugins[i]?
  log : c.log = d.log
  admin : c.admin = d.admin
  monitoring : c.monitoring = d.monitoring

namespace PluginConfig.Same

variable {p q r : PluginConfig}

theorem refl (p : PluginConfig) : Same p p := ⟨rfl, rfl, Value.Same.refl _⟩

theorem symm (h : Same p q) : Same q p := ⟨h.tag.symm, h.pluginType.symm, h.args.symm⟩

theorem trans (h : Same p q) (h' : Same q r) : Same p r :=
  ⟨h.tag.trans h'.tag, h.pluginType.trans h'.pluginType, h.args.trans h'.args⟩

theorem effectiveName_eq (h : Same p q) : p.effectiveName = q.effectiveName := by
  rw [effectiveName, effectiveName, h.tag, h.pluginType]

theorem setArg (h : Same p q) (value : Value) (path : List Segment) : Same (setArg value path p) (setArg value path q) :=
  ⟨h.tag, h.pluginType, (Value.Same.refl value).setPath path h.args.entries⟩

end PluginConfig.Same

theorem PluginConfig.rel_equivalence : Equivalence (Option.Rel PluginConfig.Same) where
  refl p := by
    cases p with
    | none => exact .none
    | some p => exact .some (.refl p)
  symm h := by
    cases h with
    | none => exact .none
    | some h => exact .some h.symm
  trans h h' := by
    cases h with
    | none => exact h'
    | some h =>
      cases h' with
      | some h' => exact .some (h.trans h')

theorem Config.same_equivalence : Equivalence Config.Same where
  refl _ := ⟨fun _ => PluginConfig.rel_equivalence.refl _, rfl, rfl, rfl⟩
  symm h := ⟨fun i => PluginConfig.rel_equivalence.symm (h.plugins i), h.log.symm, h.admin.symm, h.monitoring.symm⟩
  trans h h' := ⟨fun i => PluginConfig.rel_equivalence.trans (h.plugins i) (h'.plugins i), h.log.trans h'.log,
    h.admin.trans h'.admin, h.monitoring.trans h'.monitoring⟩

/-! ### Two variables -/

/-- Two values written at two paths into the arguments of a plugin: below keys the paths agree; a path that starts with an index replaces all the arguments, so both must leave the same. -/
def Consistent (v w : Value) : List Segment → List Segment → Prop
  | .key k :: path, .key k' :: path' => Value.Agree v w (.key k :: path) (.key k' :: path')
  | path, path' => Value.Same (Value.built v path) (Value.built w path')

/-- If two variables lead into the arguments of one plugin, what they write there is consistent. -/
def Compatible (env : OverrideEnv) (plugins : List PluginConfig) (e e' : String × String) : Prop :=
  ∀ j path path', addressed env plugins e.1 = some (j, path) → addressed env plugins e'.1 = some (j, path') →
    Consistent (parseYamlValue env e.2) (parseYamlValue env e'.2) path path'

theorem args_setArg_key (value : Value) (k : String) (path : List Segment) (p : PluginConfig) :
    (setArg value (.key k :: path) p).args = Value.setPath value (.key k :: path) p.args := rfl

theorem args_setArg_index (value : Value) (i : Nat) (path : List Segment) (p : PluginConfig) :
    (setArg value (.index i :: path) p).args = Value.built value (.index i :: path) :=
  Value.setPath_of_child (.inr ⟨i, rfl⟩)

/-- Behind a path that starts with an index nothing is left for a key to keep. -/
theorem args_setArg_key_index (v w : Value) (k : String) (i : Nat) (path path' : List Segment) (p : PluginConfig) :
    (setArg v (.key k :: path) (setArg w (.index i :: path') p)).args = Value.built v (.key k :: path) := by
  have hentries : (setArg w (.index i :: path') p).args.entries = [] := by
    rw [args_setArg_index]
    rfl
  exact Value.setPath_of_child (.inl hentries)

theorem setArg_swap_iff {v w : Value} {path path' : List Segment} (hpath : path ≠ []) (hpath' : path' ≠ [])
    (p : PluginConfig) :
    PluginConfig.Same (setArg w path' (setArg v path p)) (setArg v path (setArg w path' p)) ↔
      Consistent v w path path' := by
  have hargs : PluginConfig.Same (setArg w path' (setArg v path p)) (setArg v path (setArg w path' p)) ↔
      Value.Same (setArg w path' (setArg v path p)).args (setArg v path (setArg w path' p)).args :=
    ⟨fun h => h.args, fun h => ⟨rfl, rfl, h⟩⟩
  rw [hargs]
  cases path with
  | nil => exact absurd rfl hpath
  | cons s path =>
    cases path' with
    | nil => exact absurd rfl hpath'
    | cons s' path' =>
      cases s with
      | key k =>
        cases s' with
        | key k' =>
          rw [args_setArg_key, args_setArg_key, args_setArg_key, args_setArg_key]
          exact Value.same_swap_iff _ _ _
        | index j =>
          rw [args_setArg_index, args_setArg_key_index]
          exact ⟨Value.Same.symm, Value.Same.symm⟩
      | index i =>
        cases s' with
        | key k' =>
          rw [args_setArg_index, args_setArg_key_index]
          exact ⟨Value.Same.symm, Value.Same.symm⟩
        | index j =>
          rw [args_setArg_index, args_setArg_index]
          exact ⟨Value.Same.symm, Value.Same.symm⟩

theorem addressed_congr {plugins plugins' : List PluginConfig}
    (h : plugins.map PluginConfig.effectiveName = plugins'.map PluginConfig.effectiveName) (name : String) :
    addressed env plugins name = addressed env plugins' name := by
  have hfind : ∀ (plugins : List PluginConfig) (tag : String),
      (plugins.findIdx? fun p => normalizeIdentifier env p.effectiveName = tag) =
        (plugins.map PluginConfig.effectiveName).findIdx? fun n => normalizeIdentifier env n = tag := by
    intro plugins tag
    rw [List.findIdx?_map]
    rfl
  simp only [addressed, hfind, h]

theorem lt_length_of_addressed {plugins : List PluginConfig} {name : String} {j : Nat} {path : List Segment}
    (h : addressed env plugins name = some (j, path)) : j < plugins.length := by
  obtain ⟨caps, -, hfound⟩ := Option.bind_eq_some_iff.mp h
  obtain ⟨j', hfirst, heq⟩ := Option.map_eq_some_iff.mp hfound
  cases heq
  exact (List.findIdx?_eq_some_iff_findIdx_eq.mp hfirst).1

/-- What a variable does to the plugin at a place. -/
def written (env : OverrideEnv) (plugins : List PluginConfig) (e : String × String) (i : Nat) (p : PluginConfig) :
    PluginConfig :=
  match addressed env plugins e.1 with
  | some (j, path) => if j = i then setArg (parseYamlValue env e.2) path p else p
  | none => p

theorem getElem?_overridden (plugins : List PluginConfig) (e : String × String) (i : Nat) :
    (overridden env plugins e.1 e.2)[i]? = plugins[i]?.map (written env plugins e i) := by
  unfold written
  rw [overridden]
  cases addressed env plugins e.1 with
  | none => exact Option.map_id'.symm
  | some found => exact List.getElem?_modify _ _ _ _

theorem written_congr {plugins plugins' : List PluginConfig}
    (h : plugins.map PluginConfig.effectiveName = plugins'.map PluginConfig.effectiveName) (e : String × String) :
    written env plugins e = written env plugins' e := by
  unfold written
  rw [addressed_congr h]

theorem effectiveName_written (plugins : List PluginConfig) (e : String × String) (i : Nat) (p : PluginConfig) :
    (written env plugins e i p).effectiveName = p.effectiveName := by
  rw [written]
  cases addressed env plugins e.1 with
  | none => rfl
  | some found =>
    dsimp only
    split <;> rfl

theorem PluginConfig.Same.written {p q : PluginConfig} (h : PluginConfig.Same p q) (plugins : List PluginConfig)
    (e : String × String) (i : Nat) : PluginConfig.Same (written env plugins e i p) (written env plugins e i q) := by
  unfold Lazydns.written
  cases addressed env plugins e.1 with
  | none => exact h
  | some found =>
    dsimp only
    split
    · exact h.setArg _ _
    · exact h

theorem effectiveName_overridden (plugins : List PluginConfig) (e : String × String) :
    (overridden env plugins e.1 e.2).map PluginConfig.effectiveName = plugins.map PluginConfig.effectiveName := by
  refine List.ext_getElem? fun i => ?_
  rw [List.getElem?_map, List.getElem?_map, getElem?_overridden, Option.map_map]
  exact congrArg (plugins[i]?.map ·) (funext fun p => effectiveName_written plugins e i p)

theorem same_overridden {plugins plugins' : List PluginConfig}
    (h : ∀ i : Nat, Option.Rel PluginConfig.Same plugins[i]? plugins'[i]?) (e : String × String) (i : Nat) :
    Option.Rel PluginConfig.Same (overridden env plugins e.1 e.2)[i]? (overridden env plugins' e.1 e.2)[i]? := by
  have hnames : plugins.map PluginConfig.effectiveName = plugins'.map PluginConfig.effectiveName := by
    refine List.ext_getElem? fun l => ?_
    rw [List.getElem?_map, List.getElem?_map]
    have hl := h l
    generalize plugins[l]? = p at hl
    generalize plugins'[l]? = q at hl
    cases hl with
    | none => rfl
    | some hpq => exact congrArg some hpq.effectiveName_eq
  rw [getElem?_overridden, getElem?_overridden, written_congr hnames]
  have hi := h i
  generalize plugins[i]? = p at hi
  generalize plugins'[i]? = q at hi
  cases hi with
  | none => exact .none
  | some hpq => exact .some (hpq.written _ e i)

/-- At one place, what two variables do comes out the same in either order exactly if they are compatible. -/
theorem same_written_swap_iff (plugins : List PluginConfig) (e e' : String × String) :
    (∀ i p, plugins[i]? = some p → PluginConfig.Same (written env plugins e' i (written env plugins e i p))
      (written env plugins e i (written env plugins e' i p))) ↔ Compatible env plugins e e' := by
  constructor
  · intro h j path path' he he'
    have hj := List.getElem?_eq_getElem (lt_length_of_addressed he)
    have hsame := h j _ hj
    simp only [written, he, he', if_true] at hsame
    exact (setArg_swap_iff (addressed_ne_nil he) (addressed_ne_nil he') _).mp hsame
  · intro h i p hp
    cases he : addressed env plugins e.1 with
    | none =>
      have hid : written env plugins e i = id := funext fun p => by rw [written, he, id]
      rw [hid]
      exact .refl _
    | some found =>
      cases he' : addressed env plugins e'.1 with
      | none =>
        have hid : written env plugins e' i = id := funext fun p => by rw [written, he', id]
        rw [hid]
        exact .refl _
      | some found' =>
        simp only [written, he, he']
        by_cases hi : found.1 = i
        · by_cases hi' : found'.1 = i
          · rw [if_pos hi, if_pos hi, if_pos hi', if_pos hi']
            refine (setArg_swap_iff (addressed_ne_nil he) (addressed_ne_nil he') p).mpr (h i _ _ ?_ ?_)
            · rw [he, ← hi]
            · rw [he', ← hi']
          · rw [if_neg hi', if_neg hi']
            exact .refl _
        · rw [if_neg hi, if_neg hi]
          exact .refl _

theorem same_overridden_swap_iff (plugins : List PluginConfig) (e e' : String × String) :
    (∀ i : Nat, Option.Rel PluginConfig.Same (overridden env (overridden env plugins e.1 e.2) e'.1 e'.2)[i]?
      (overridden env (overridden env plugins e'.1 e'.2) e.1 e.2)[i]?) ↔ Compatible env plugins e e' := by
  have htwice : ∀ (e e' : String × String) (i : Nat),
      (overridden env (overridden env plugins e.1 e.2) e'.1 e'.2)[i]? =
        plugins[i]?.map fun p => written env plugins e' i (written env plugins e i p) := by
    intro e e' i
    rw [getElem?_overridden, getElem?_overridden, written_congr (effectiveName_overridden plugins e), Option.map_map]
    rfl
  rw [← same_written_swap_iff]
  refine forall_congr' fun i => ?_
  rw [htwice, htwice]
  cases plugins[i]? with
  | none => exact ⟨fun _ => nofun, fun _ => .none⟩
  | some p =>
    constructor
    · intro h q hq
      cases hq
      cases h with
      | some hsame => exact hsame
    · exact fun h => .some (h p rfl)

/-! ### The settings -/

/-- Two settings come out the same in either order. -/
def Exchanges (set set' : Config → String → Config) : Prop :=
  ∀ config value value', set' (set config value) value' = set (set' config value') value

theorem Exchanges.symm {set set' : Config → String → Config} (h : Exchanges set set') : Exchanges set' set :=
  fun config value value' => (h config value' value).symm

theorem Exchanges.unlessEmpty {set set' : Config → String → Config} (h : Exchanges set set') :
    Exchanges (unlessEmpty set) set' := by
  intro config value value'
  rw [Lazydns.unlessEmpty, Lazydns.unlessEmpty]
  split
  · rfl
  · exact h config value value'

/-- Two settings set different parts of the configuration. -/
theorem settings_comm {name name' : String} {set set' : Config → String → Config} (h : (name, set) ∈ settings env)
    (h' : (name', set') ∈ settings env) (hne : name ≠ name') : Exchanges set set' := by
  have hpairwise : (settings env).Pairwise fun a b => Exchanges a.2 b.2 := by
    simp only [settings, List.pairwise_cons, List.forall_mem_cons, List.not_mem_nil, false_implies, implies_true,
      List.Pairwise.nil, and_true]
    refine ⟨⟨?_, ?_, ?_, ?_, ?_, ?_, ?_⟩, ⟨?_, ?_, ?_, ?_, ?_, ?_⟩, ⟨?_, ?_, ?_, ?_, ?_⟩, ⟨?_, ?_, ?_, ?_⟩,
      ⟨?_, ?_, ?_⟩, ⟨?_, ?_⟩, ?_⟩ <;>
      first
      | exact fun _ _ _ => rfl
      | exact Exchanges.unlessEmpty fun _ _ _ => rfl
      | exact (Exchanges.unlessEmpty (Exchanges.symm (Exchanges.unlessEmpty fun _ _ _ => rfl)))
  have hsymm : Std.Symm fun a b : String × (Config → String → Config) => Exchanges a.2 b.2 := ⟨fun _ _ => Exchanges.symm⟩
  exact hpairwise.forall h h' fun heq => hne (congrArg Prod.fst heq)

/-! ### The order -/

theorem Config.Same.eq_plugins {c d : Config} (h : Config.Same c d) : d = { c with plugins := d.plugins } := by
  obtain ⟨plugins, log, admin, monitoring⟩ := d
  obtain ⟨-, rfl, rfl, rfl⟩ := h
  rfl

theorem respects_applyVar (env : OverrideEnv) (config : Config) :
    Folds.Respects (applyVar env) Config.Same fun c =>
      c.plugins.map PluginConfig.effectiveName = config.plugins.map PluginConfig.effectiveName where
  equivalence := Config.same_equivalence
  congr := by
    intro c d h e
    cases hset : (settings env).lookup e.1 with
    | some set =>
      have hmem := mem_of_lookup hset
      rw [applyVar_setting hset, applyVar_setting hset, h.eq_plugins, setting_plugins hmem d.plugins c]
      refine ⟨?_, rfl, rfl, rfl⟩
      rw [plugins_setting hmem]
      exact h.plugins
    | none =>
      rw [applyVar_of_lookup hset, applyVar_of_lookup hset]
      exact ⟨same_overridden h.plugins e, h.log, h.admin, h.monitoring⟩
  keeps h e := by
    rw [plugins_applyVar, effectiveName_overridden, h]

theorem applyVar_setting_comm {e e' : String × String} {set : Config → String → Config}
    (h : (settings env).lookup e.1 = some set) (hne : e.1 ≠ e'.1) (config : Config) :
    applyVar env (applyVar env config e) e' = applyVar env (applyVar env config e') e := by
  have hmem := mem_of_lookup h
  rw [applyVar_setting h, applyVar_setting h]
  cases h' : (settings env).lookup e'.1 with
  | some set' =>
    rw [applyVar_setting h', applyVar_setting h']
    exact settings_comm hmem (mem_of_lookup h') hne config e.2 e'.2
  | none =>
    rw [applyVar_of_lookup h', applyVar_of_lookup h', plugins_setting hmem]
    exact (setting_plugins hmem _ config e.2).symm

theorem addressed_setting {e : String × String} {set : Config → String → Config}
    (h : (settings env).lookup e.1 = some set) (plugins : List PluginConfig) : addressed env plugins e.1 = none := by
  rw [addressed, matchPluginArgs_setting (mem_of_lookup h)]
  rfl

theorem exchange_iff {e e' : String × String} (hne : e.1 ≠ e'.1) (config : Config) :
    Folds.Exchange (applyVar env) Config.Same config e e' ↔ Compatible env config.plugins e e' := by
  rw [Folds.Exchange]
  cases hset : (settings env).lookup e.1 with
  | some set =>
    rw [applyVar_setting_comm hset hne]
    refine iff_of_true (Config.same_equivalence.refl _) fun j path path' he => ?_
    rw [addressed_setting hset] at he
    cases he
  | none =>
    cases hset' : (settings env).lookup e'.1 with
    | some set' =>
      rw [applyVar_setting_comm hset' hne.symm]
      refine iff_of_true (Config.same_equivalence.refl _) fun j path path' _ he' => ?_
      rw [addressed_setting hset'] at he'
      cases he'
    | none =>
      rw [applyVar_of_lookup hset, applyVar_of_lookup hset', applyVar_of_lookup hset, applyVar_of_lookup hset',
        ← same_overridden_swap_iff]
      exact ⟨fun h => h.plugins, fun h => ⟨h, rfl, rfl, rfl⟩⟩

theorem overrides_orderIndependent_iff (env : OverrideEnv) (config : Config) (snapshot : EnvSnapshot) :
    (∀ l l' : List (String × String), l.Perm snapshot.entries → l'.Perm snapshot.entries →
      Config.Same (applyEnvOverridesFromSnapshot env config l) (applyEnvOverridesFromSnapshot env config l')) ↔
      snapshot.entries.Pairwise (Compatible env config.plugins) := by
  have hnames : snapshot.entries.Pairwise fun e e' => e.1 ≠ e'.1 := List.pairwise_map.mp snapshot.nodup
  refine (respects_applyVar env config).orderFree_iff (hnames.imp fun {e e'} hne c hc => ?_) rfl
  rw [exchange_iff hne, Compatible, Compatible, addressed_congr hc, addressed_congr hc]

/-! ### Examples -/

/-- The arguments of the tag `cache` under `jobs`, and under the first of them. -/
def jobsSnapshot : EnvSnapshot := ⟨[("PLUGINS_CACHE_ARGS_JOBS", "1"), ("PLUGINS_CACHE_ARGS_JOBS_CRON", "2")], by decide⟩

/-- What the longer name sets is lost if the shorter one comes behind it. -/
theorem not_overrides_orderIndependent_jobs :
    ¬∀ l l' : List (String × String), l.Perm jobsSnapshot.entries → l'.Perm jobsSnapshot.entries →
      Config.Same (applyEnvOverridesFromSnapshot .plain cacheOnly l) (applyEnvOverridesFromSnapshot .plain cacheOnly l') := by
  intro h
  have hsame : Folds.Exchange (applyVar .plain) Config.Same cacheOnly ("PLUGINS_CACHE_ARGS_JOBS", "1")
      ("PLUGINS_CACHE_ARGS_JOBS_CRON", "2") := by
    have hswap := h _ _ (.refl _) (.swap _ _ _)
    simp only [applyEnvOverridesFromSnapshot, jobsSnapshot, List.foldl_cons, List.foldl_nil] at hswap
    exact hswap
  have hcompatible := (exchange_iff (by decide) cacheOnly).mp hsame
  have hagree := hcompatible 0 [.key "jobs"] [.key "jobs", .key "cron"] (by decide +kernel) (by decide +kernel)
  obtain ⟨u, hu, -⟩ := hagree rfl
  rw [parseYamlValue_plain (by decide +kernel)] at hu
  cases hu

end Lazydns
