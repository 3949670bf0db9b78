import Mathlib.Data.Set.Basic
import Lazydns.Plugin.Dataset

/-!
# Reloading a data set

What a data set matches is the union of what its lines match. A new plugin takes the files that can be read to the end, and the inline entries; a reload takes the lines of each file up to one that cannot be read, and nothing else. So a reload gives what a new plugin would have exactly if the inline entries match nothing that the files do not, and the cut-off files nothing that the rest does not.
-/

namespace Lazydns

open Dns

namespace DomainRules

variable {env : RuleEnv} {a b : DomainRules} {defaultType : MatchType} {n : String}

/-! ### What rules match -/

def matched (env : RuleEnv) (rules : DomainRules) : Set String := {n | rules.matches env n = true}

theorem mem_matched : n ∈ a.matched env ↔
    env.toLowercase (trimEndDots n) ∈ a.full ∨
      (∃ c ∈ candidates (env.toLowercase (trimEndDots n)), c ∈ a.domain) ∨
      (∃ rule ∈ a.regexp, rule.regex (env.toLowercase (trimEndDots n)) = true) ∨
      ∃ kw ∈ a.keyword, kw.toList <:+: (env.toLowercase (trimEndDots n)).toList := by
  simp [matched, DomainRules.matches, or_assoc]

@[simp] theorem matched_new : new.matched env = ∅ := by
  ext n
  simp [mem_matched, new]

@[simp] theorem matched_merge : (a.merge b).matched env = a.matched env ∪ b.matched env := by
  ext n
  simp only [Set.mem_union, mem_matched, merge, List.mem_append]
  constructor
  · rintro ((h | h) | ⟨c, hc, h | h⟩ | ⟨rule, h | h, hrule⟩ | ⟨kw, h | h, hkw⟩)
    · exact .inl (.inl h)
    · exact .inr (.inl h)
    · exact .inl (.inr (.inl ⟨c, hc, h⟩))
    · exact .inr (.inr (.inl ⟨c, hc, h⟩))
    · exact .inl (.inr (.inr (.inl ⟨rule, h, hrule⟩)))
    · exact .inr (.inr (.inr (.inl ⟨rule, h, hrule⟩)))
    · exact .inl (.inr (.inr (.inr ⟨kw, h, hkw⟩)))
    · exact .inr (.inr (.inr (.inr ⟨kw, h, hkw⟩)))
  · rintro ((h | ⟨c, hc, h⟩ | ⟨rule, h, hrule⟩ | ⟨kw, h, hkw⟩) |
      (h | ⟨c, hc, h⟩ | ⟨rule, h, hrule⟩ | ⟨kw, h, hkw⟩))
    · exact .inl (.inl h)
    · exact .inr (.inl ⟨c, hc, .inl h⟩)
    · exact .inr (.inr (.inl ⟨rule, .inl h, hrule⟩))
    · exact .inr (.inr (.inr ⟨kw, .inl h, hkw⟩))
    · exact .inl (.inr h)
    · exact .inr (.inl ⟨c, hc, .inr h⟩)
    · exact .inr (.inr (.inl ⟨rule, .inr h, hrule⟩))
    · exact .inr (.inr (.inr ⟨kw, .inr h, hkw⟩))

/-- What some lines match. -/
def lineSet (env : RuleEnv) (defaultType : MatchType) (lines : List String) : Set String :=
  {n | ∃ line ∈ lines, n ∈ (new.addLine env line defaultType).matched env}

theorem matched_foldl_addLine (lines : List String) :
    (lines.foldl (fun rules line => rules.addLine env line defaultType) a).matched env =
      a.matched env ∪ lineSet env defaultType lines := by
  induction lines generalizing a with
  | nil => simp [lineSet]
  | cons line lines ih =>
    rw [List.foldl_cons, ih, addLine_eq_merge, matched_merge, Set.union_assoc]
    congr 1
    ext n
    simp [lineSet]

end DomainRules

/-! ### Lines that can be read -/

/-- The lines of a file that can be read to the end. -/
def readLines (bytes : List UInt8) : Option (List String) := (bufLines bytes).mapM id

private theorem takeWhile_of_mapM {lines : List (Option String)} {ls : List String}
    (h : lines.mapM id = some ls) : (lines.takeWhile Option.isSome).filterMap id = ls := by
  induction lines generalizing ls with
  | nil => exact Option.some.inj h
  | cons line lines ih =>
    rw [List.mapM_cons] at h
    obtain ⟨l, hl, h⟩ := Option.bind_eq_some_iff.mp h
    obtain ⟨ls', hls', h⟩ := Option.bind_eq_some_iff.mp h
    cases Option.some.inj h
    obtain rfl : line = some l := hl
    rw [List.takeWhile_cons_of_pos rfl, List.filterMap_cons, ih hls']
    rfl

private theorem foldlM_map {β : Type} (f : β → String → β) (lines : List (Option String)) (b : β) :
    lines.foldlM (fun b line => line.map (f b)) b = (lines.mapM id).map fun ls => ls.foldl f b := by
  induction lines generalizing b with
  | nil => rfl
  | cons line lines ih =>
    rw [List.foldlM_cons, List.mapM_cons]
    cases line with
    | none => rfl
    | some l =>
      refine (ih (f b l)).trans ?_
      cases hls : lines.mapM id with
      | none => simp
      | some ls => simp

/-! ### `domain_set` -/

namespace DomainSetPlugin

open DomainRules

variable {env : RuleEnv} {disk : Disk} {config : DomainSetConfig} {p : DomainSetPlugin}

/-- What the files match that can be read to the end. -/
def wholeSet (env : RuleEnv) (disk : Disk) (config : DomainSetConfig) : Set String :=
  {n | ∃ path ∈ config.files, ∃ bytes ls, disk path = some bytes ∧ readLines bytes = some ls ∧
    n ∈ lineSet env config.defaultMatchType ls}

/-- What the other files match up to the line that cannot be read. -/
def cutOffSet (env : RuleEnv) (disk : Disk) (config : DomainSetConfig) : Set String :=
  {n | ∃ path ∈ config.files, ∃ bytes, disk path = some bytes ∧ readLines bytes = none ∧
    n ∈ lineSet env config.defaultMatchType (leadingLines bytes)}

/-- What the inline expressions match. -/
def inlineSet (env : RuleEnv) (config : DomainSetConfig) : Set String :=
  lineSet env config.defaultMatchType config.exps

def matched (env : RuleEnv) (p : DomainSetPlugin) : Set String := p.rules.matched env

theorem leadingLines_of_readLines {bytes : List UInt8} {ls : List String}
    (h : readLines bytes = some ls) : leadingLines bytes = ls := takeWhile_of_mapM h

theorem loadDomainFile_eq (path : String) :
    loadDomainFile env disk config path = (disk path).bind fun bytes =>
      (readLines bytes).map fun ls =>
        ls.foldl (fun rules line => rules.addLine env line config.defaultMatchType) .new := by
  rw [loadDomainFile]
  exact bind_congr fun bytes => foldlM_map _ _ _

private theorem matched_foldl_merge (rules : List DomainRules) (a : DomainRules) :
    (rules.foldl DomainRules.merge a).matched env = a.matched env ∪ {n | ∃ r ∈ rules, n ∈ r.matched env} := by
  induction rules generalizing a with
  | nil => simp
  | cons r rules ih =>
    rw [List.foldl_cons, ih, matched_merge, Set.union_assoc]
    congr 1
    ext n
    simp

theorem matched_init : (init env disk config).matched env =
    wholeSet env disk config ∪ inlineSet env config := by
  rw [init, matched, loadDomains, matched_foldl_addLine, matched_foldl_merge, matched_new,
    Set.empty_union]
  congr 1
  ext n
  simp only [Set.mem_ofPred_eq, List.mem_filterMap, wholeSet, loadDomainFile_eq,
    Option.bind_eq_some_iff, Option.map_eq_some_iff]
  constructor
  · rintro ⟨_, ⟨path, hpath, bytes, hbytes, ls, hls, rfl⟩, hn⟩
    rw [matched_foldl_addLine, matched_new, Set.empty_union] at hn
    exact ⟨path, hpath, bytes, ls, hbytes, hls, hn⟩
  · rintro ⟨path, hpath, bytes, ls, hbytes, hls, hn⟩
    refine ⟨_, ⟨path, hpath, bytes, hbytes, ls, hls, rfl⟩, ?_⟩
    rwa [matched_foldl_addLine, matched_new, Set.empty_union]

theorem matched_reload : (reload env disk p).matched env =
    wholeSet env disk p.config ∪ cutOffSet env disk p.config := by
  have hfiles : ∀ (files : List String) (a : DomainRules),
      (files.foldl (reloadFile env disk p.config) a).matched env =
        a.matched env ∪ {n | ∃ path ∈ files, ∃ bytes, disk path = some bytes ∧
          n ∈ lineSet env p.config.defaultMatchType (leadingLines bytes)} := by
    intro files
    induction files with
    | nil => simp
    | cons path files ih =>
      intro a
      rw [List.foldl_cons, ih, reloadFile]
      cases hpath : disk path with
      | none => simp [hpath]
      | some bytes =>
        dsimp only
        rw [matched_foldl_addLine, Set.union_assoc]
        congr 1
        ext n
        simp [hpath]
  rw [reload, matched, hfiles, matched_new, Set.empty_union]
  ext n
  constructor
  · rintro ⟨path, hpath, bytes, hbytes, hn⟩
    cases hls : readLines bytes with
    | some ls => exact .inl ⟨path, hpath, bytes, ls, hbytes, hls, leadingLines_of_readLines hls ▸ hn⟩
    | none => exact .inr ⟨path, hpath, bytes, hbytes, hls, hn⟩
  · rintro (⟨path, hpath, bytes, ls, hbytes, hls, hn⟩ | ⟨path, hpath, bytes, hbytes, -, hn⟩)
    · exact ⟨path, hpath, bytes, hbytes, (leadingLines_of_readLines hls).symm ▸ hn⟩
    · exact ⟨path, hpath, bytes, hbytes, hn⟩

/-- Inline expressions match nothing that the files do not, and cut-off files nothing that the rest does not. -/
structure Covered (env : RuleEnv) (disk : Disk) (config : DomainSetConfig) : Prop where
  inlined : inlineSet env config ⊆ wholeSet env disk config ∪ cutOffSet env disk config
  cutOff : cutOffSet env disk config ⊆ wholeSet env disk config ∪ inlineSet env config

theorem matched_reload_eq_iff :
    (reload env disk p).matched env = (init env disk p.config).matched env ↔
      Covered env disk p.config := by
  rw [matched_reload, matched_init, Set.union_eq_union_iff_left]
  exact ⟨fun h => ⟨h.2, h.1⟩, fun h => ⟨h.cutOff, h.inlined⟩⟩

end DomainSetPlugin

/-! ### `ip_set` -/

namespace IpSetDataset

variable {env : RuleEnv} {disk : Disk} {config : IpSetConfig} {p : IpSetDataset}

/-- The addresses in some networks. -/
def netSet (nets : List IpNet) : Set IpAddr := {ip | ∃ net ∈ nets, net.contains ip = true}

def matched (p : IpSetDataset) : Set IpAddr := {ip | p.matches ip = true}

theorem matched_eq (p : IpSetDataset) : p.matched = netSet p.networks := by
  ext ip
  simp [matched, IpSetDataset.matches, netSet]

/-- What the files match that can be read. -/
def fileSet (env : RuleEnv) (disk : Disk) (config : IpSetConfig) : Set IpAddr :=
  {ip | ∃ path ∈ config.files, ∃ nets, loadIpFile env disk path = some nets ∧ ip ∈ netSet nets}

/-- What the inline addresses match. -/
def inlineSet (env : RuleEnv) (config : IpSetConfig) : Set IpAddr :=
  netSet (config.ips.filterMap (parseEntry env))

theorem matched_init : (init env disk config).matched = fileSet env disk config ∪ inlineSet env config := by
  rw [matched_eq, init, loadNetworks]
  ext ip
  simp only [netSet, fileSet, inlineSet, Set.mem_union, Set.mem_ofPred_eq, List.mem_append,
    List.mem_flatten, List.mem_filterMap (f := loadIpFile env disk)]
  constructor
  · rintro ⟨net, ⟨nets, ⟨path, hpath, hnets⟩, hnet⟩ | hnet, hip⟩
    · exact .inl ⟨path, hpath, nets, hnets, net, hnet, hip⟩
    · exact .inr ⟨net, hnet, hip⟩
  · rintro (⟨path, hpath, nets, hnets, net, hnet, hip⟩ | ⟨net, hnet, hip⟩)
    · exact ⟨net, .inl ⟨nets, ⟨path, hpath, hnets⟩, hnet⟩, hip⟩
    · exact ⟨net, .inr hnet, hip⟩

theorem matched_reload : (reload env disk p).matched = fileSet env disk p.config := by
  have hfile : ∀ path, reloadFile env disk path = (loadIpFile env disk path).getD [] := by
    intro path
    rw [reloadFile, loadIpFile]
    cases readToString disk path <;> rfl
  rw [matched_eq, reload]
  ext ip
  simp only [hfile, netSet, fileSet, Set.mem_ofPred_eq, List.mem_flatMap]
  constructor
  · rintro ⟨net, ⟨path, hpath, hnet⟩, hip⟩
    cases hnets : loadIpFile env disk path with
    | none =>
      rw [hnets] at hnet
      cases hnet
    | some nets =>
      rw [hnets] at hnet
      exact ⟨path, hpath, nets, hnets, net, hnet, hip⟩
  · rintro ⟨path, hpath, nets, hnets, net, hnet, hip⟩
    exact ⟨net, ⟨path, hpath, by rwa [hnets]⟩, hip⟩

theorem matched_reload_eq_iff : (reload env disk p).matched = (init env disk p.config).matched ↔
    inlineSet env p.config ⊆ fileSet env disk p.config := by
  rw [matched_reload, matched_init, eq_comm, Set.union_eq_left]

end IpSetDataset

/-! ### Histories of file changes -/

section

variable {P : Type} {watched : P → Bool} {reloaded : Disk → P → P}

theorem fileWatcher_step_reload {s s' : Disk × P}
    (h : (fileWatcher watched reloaded).step s .reload = some s') : s' = (s.1, reloaded s.1 s.2) := by
  change (if watched s.2 then some (s.1, reloaded s.1 s.2) else none) = some s' at h
  split at h
  · exact (Option.some.inj h).symm
  · cases h

/-- What a reload means for the disk it reads carries over to all reloads of a history. -/
theorem each_reload_iff {C : Type} (config : P → C) {c : C} (Fresh Covered : Disk → P → Prop)
    (hconfig : ∀ disk p, config (reloaded disk p) = config p)
    (hiff : ∀ disk p, config p = c → (Fresh disk (reloaded disk p) ↔ Covered disk p)) {disk : Disk}
    {p : P} (hp : config p = c) (events : List FileEvent) :
    (fileWatcher watched reloaded).Each (fun _ e s' => e = .reload → Fresh s'.1 s'.2) (disk, p) events ↔
      (fileWatcher watched reloaded).Each (fun s e _ => e = .reload → Covered s.1 s.2) (disk, p) events := by
  refine Machine.each_iff_of_keeps (I := fun s => config s.2 = c) (fun s e s' hs hstep => ?_) hp
  cases e with
  | write path content =>
    cases hstep
    exact ⟨hs, by simp⟩
  | reload =>
    obtain rfl := fileWatcher_step_reload hstep
    refine ⟨(hconfig s.1 s.2).trans hs, ?_⟩
    simp only [true_imp_iff]
    exact hiff s.1 s.2 hs

end

/-- In every history a reload matches what a plugin freshly made from the files would, exactly if in the files it reads the inline entries add nothing, and the files that are cut off nothing to the rest. -/
theorem reload_fresh_iff (env : RuleEnv) (disk : Disk) (events : List FileEvent) :
    (∀ config : DomainSetConfig,
      (DomainSetPlugin.watcher env).Each (fun _ e s => e = .reload →
          s.2.matched env = (DomainSetPlugin.init env s.1 config).matched env)
        (disk, .init env disk config) events ↔
      (DomainSetPlugin.watcher env).Each (fun s e _ => e = .reload →
          DomainSetPlugin.Covered env s.1 config) (disk, .init env disk config) events) ∧
    ∀ config : IpSetConfig,
      (IpSetDataset.watcher env).Each (fun _ e s => e = .reload →
          s.2.matched = (IpSetDataset.init env s.1 config).matched)
        (disk, .init env disk config) events ↔
      (IpSetDataset.watcher env).Each (fun s e _ => e = .reload →
          IpSetDataset.inlineSet env config ⊆ IpSetDataset.fileSet env s.1 config)
        (disk, .init env disk config) events := by
  constructor
  · intro config
    have hconfig : ∀ disk p, (DomainSetPlugin.reload env disk p).config = p.config := fun _ _ => rfl
    refine each_reload_iff DomainSetPlugin.config
      (fun disk p => p.matched env = (DomainSetPlugin.init env disk config).matched env)
      (fun disk _ => DomainSetPlugin.Covered env disk config) hconfig (fun disk p hp => ?_) rfl events
    obtain rfl : p.config = config := hp
    exact DomainSetPlugin.matched_reload_eq_iff
  · intro config
    have hconfig : ∀ disk p, (IpSetDataset.reload env disk p).config = p.config := fun _ _ => rfl
    refine each_reload_iff IpSetDataset.config
      (fun disk p => p.matched = (IpSetDataset.init env disk config).matched)
      (fun disk _ => IpSetDataset.inlineSet env config ⊆ IpSetDataset.fileSet env disk config) hconfig
      (fun disk p hp => ?_) rfl events
    obtain rfl : p.config = config := hp
    exact IpSetDataset.matched_reload_eq_iff

/-- Patterns and parsers for plain examples: no patterns, and networks of one address only. -/
def RuleEnv.plain : RuleEnv where
  toLowercase s := String.ofList (s.toList.map Char.toLower)
  regex _ := none
  parseIp s := if s = "10.0.0.1" then some (.v4 0x0A000001) else none
  parseNet s := if s = "10.0.0.0/8" then some (.v4 0x0A000000 8) else none

/-- With `b` inline and `a` in the file, the plugin matches `b` until it is reloaded; and a line before one that is not UTF-8 is matched only after a reload. -/
theorem inline_lost_on_reload :
    let config : DomainSetConfig := ⟨["list"], ["b"], true, .full⟩
    let disk : Disk := fun _ => some (Bytes.ofString "a\n")
    let broken : Disk := fun _ => some (Bytes.ofString "a\n" ++ [0xFF, 10])
    let p := DomainSetPlugin.init .plain disk config
    let q := DomainSetPlugin.init .plain broken config
    (p.rules.matches .plain "b", (p.reload .plain disk).rules.matches .plain "b") = (true, false) ∧
      (q.rules.matches .plain "a", (q.reload .plain broken).rules.matches .plain "a") =
        (false, true) := by
  decide +kernel

end Lazydns
