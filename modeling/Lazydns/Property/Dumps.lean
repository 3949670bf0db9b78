import Lazydns.Property.DumpFile

/-!
# Which stores a dump forgets

What is in the table is in the dump file, or was pushed after the snapshot the file was written from. If a store of the latter kind is counted before a dump resets the count, the reset forgets it; if after, the next dump has it. So nothing is forgotten if at every reset no store that pushed after the snapshot in the file has been counted.
-/

namespace Lazydns

open Dns Persistence

namespace CacheDumps

def Store.item (st : Store) : String × CacheEntry := (st.key, st.entry)

/-- It has been stored, and all stores of it have ended. -/
def Stored (s : System) (item : String × CacheEntry) : Prop :=
  item ∈ s.stores.map Store.item ∧ ∀ st ∈ s.stores, st.item = item → st.counted = true

/-- The dump file is a dump that has it. -/
def InFile (cfg : Config) (s : System) (item : String × CacheEntry) : Prop :=
  ∃ entries bytes, dumpCache cfg.wire entries = some bytes ∧ s.files cfg.path = some bytes ∧ item ∈ entries

/-- With no change counted and no dump in progress, the dump file has all that has been stored and is still in the table. -/
def Kept (cfg : Config) (s : System) : Prop :=
  s.plugin.changesSinceDump = 0 → (∀ d ∈ s.dumps, d = .ended) →
    ∀ item ∈ s.plugin.cache.entries, Stored s item → InFile cfg s item

/-- The stores that pushed after the snapshot the file was written from. -/
def System.pending (s : System) : List Store := s.stores.drop s.written

/-- When a dump resets the count, no store that pushed after the snapshot in the file has been counted; and the count does not overflow. -/
def Undisturbed (s : System) (e : Event) (_ : System) : Prop :=
  match e with
  | .count _ => s.plugin.changesSinceDump + 1 < 2 ^ 64
  | .reset _ => ∀ st ∈ s.pending, st.counted = false
  | _ => True

instance (s : System) (s' : System) : (e : Event) → Decidable (Undisturbed s e s')
  | .count _ => inferInstanceAs (Decidable (_ < _))
  | .reset _ => inferInstanceAs (Decidable (∀ st ∈ s.pending, st.counted = false))
  | .elapse _ | .store _ _ | .get _ | .pop _ | .cleanup _ | .background | .shutdown | .snapshot _ | .write _ _
  | .finish _ => isTrue trivial

variable {cfg : Config} {s s' t : System} {e : Event}

/-! ### What is in the table -/

/-- What has been stored and is in the table is in the snapshot taken after `before` stores, or was pushed since. -/
def Since (s : System) (before : Nat) (known : String × CacheEntry → Prop) : Prop :=
  before ≤ s.stores.length ∧ ∀ item ∈ s.plugin.cache.entries, item ∈ s.stores.map Store.item →
    known item ∨ item ∈ (s.stores.map Store.item).drop before

variable {before : Nat} {known known' : String × CacheEntry → Prop}

theorem Since.mono (h : Since s before known) (hplugin : s'.plugin.cache = s.plugin.cache) (hstores : s'.stores = s.stores)
    (hknown : ∀ item, known item → known' item) : Since s' before known' := by
  rw [Since, hplugin, hstores]
  exact ⟨h.1, fun item hitem hstored => (h.2 item hitem hstored).imp_left (hknown item)⟩

theorem Since.access (h : Since s before known) {cache : ShardedLruCache}
    (hsub : ∀ item ∈ cache.entries, item ∈ s.plugin.cache.entries) : Since (s.setCache cache) before known :=
  ⟨h.1, fun item hitem => h.2 item (hsub item hitem)⟩

theorem Since.store (h : Since s before known) {key : String} {entry : CacheEntry} {plugin : CachePlugin}
    (hpush : ∀ item ∈ plugin.cache.entries, item ∈ s.plugin.cache.entries ∨ item = (key, entry)) :
    Since { s with plugin, stores := s.stores ++ [⟨key, entry, false⟩] } before known := by
  have hmap : (s.stores ++ [(⟨key, entry, false⟩ : Store)]).map Store.item =
      s.stores.map Store.item ++ [(key, entry)] := by
    rw [List.map_append]
    rfl
  constructor
  · rw [List.length_append]
    exact h.1.trans (Nat.le_add_right _ _)
  · intro item hitem hstored
    rw [hmap] at hstored
    rw [hmap, List.drop_append_of_le_length (by rw [List.length_map]; exact h.1), List.mem_append,
      List.mem_singleton]
    by_cases hnew : item = (key, entry)
    · exact .inr (.inr hnew)
    · have hold := (List.mem_append.mp hstored).resolve_right fun hlast => hnew (List.mem_singleton.mp hlast)
      exact (h.2 item ((hpush item hitem).resolve_right hnew) hold).imp_right .inl

theorem map_item_set {stores : List Store} {i : Nat} {key : String} {entry : CacheEntry} {counted counted' : Bool}
    (hstore : stores[i]? = some ⟨key, entry, counted⟩) :
    (stores.set i ⟨key, entry, counted'⟩).map Store.item = stores.map Store.item := by
  obtain ⟨hi, hget⟩ := List.getElem?_eq_some_iff.mp hstore
  have hlength : i < (stores.map Store.item).length := by rwa [List.length_map]
  have hself : (stores.map Store.item)[i] = (key, entry) := by
    rw [List.getElem_map, hget]
    rfl
  rw [List.map_set]
  change (stores.map Store.item).set i (key, entry) = _
  rw [← hself, List.set_getElem_self]

theorem Since.count (h : Since s before known) {i changes : Nat} {key : String} {entry : CacheEntry}
    (hstore : s.stores[i]? = some ⟨key, entry, false⟩) :
    Since { s.setChanges changes with stores := s.stores.set i ⟨key, entry, true⟩ } before known := by
  constructor
  · rw [List.length_set]
    exact h.1
  · rw [map_item_set hstore]
    exact h.2

/-! ### The invariant -/

/-- The file, the snapshots of the dumps that have yet to write it, and the count: unless a dump has yet to reset it, a store that the file does not have counts. -/
structure Inv (cfg : Config) (s : System) : Prop where
  file : Since s s.written (InFile cfg s)
  snapped : ∀ (i : Nat) entries before, s.dumps[i]? = some (.snapped entries before) → Since s before (· ∈ entries)
  counted : Dump.written ∈ s.dumps ∨ ((∃ st ∈ s.pending, st.counted = true) → 0 < s.plugin.changesSinceDump)

/-- Between dumps nothing that has been stored is forgotten. -/
theorem Inv.kept (h : Inv cfg s) : Kept cfg s := by
  intro hzero hended item hitem hstored
  refine (h.file.2 item hitem hstored.1).resolve_right fun hsince => ?_
  rw [← List.map_drop] at hsince
  obtain ⟨st, hst, rfl⟩ := List.mem_map.mp hsince
  rcases h.counted with hwritten | hcount
  · exact absurd (hended _ hwritten) nofun
  · have hpos := hcount ⟨st, hst, hstored.2 st (List.mem_of_mem_drop hst) rfl⟩
    omega

/-- What is in the dumps of a step that sets one dump. -/
theorem snapped_set {dumps : List Dump} {i j : Nat} {d : Dump} {entries : List (String × CacheEntry)}
    (h : (dumps.set i d)[j]? = some (.snapped entries before)) :
    dumps[j]? = some (.snapped entries before) ∨ d = .snapped entries before := by
  rw [List.getElem?_set] at h
  by_cases hij : i = j
  · rw [if_pos hij] at h
    by_cases hlt : i < dumps.length
    · rw [if_pos hlt] at h
      exact .inr (Option.some.inj h)
    · rw [if_neg hlt] at h
      cases h
  · rw [if_neg hij] at h
    exact .inl h

theorem snapped_append {dumps : List Dump} {j : Nat} {entries : List (String × CacheEntry)}
    (h : (dumps ++ [.begun])[j]? = some (.snapped entries before)) : dumps[j]? = some (.snapped entries before) := by
  rw [List.getElem?_append] at h
  split at h
  · exact h
  · have hmem := List.mem_of_getElem? h
    rw [List.mem_singleton] at hmem
    cases hmem

/-- A dump that has yet to reset the count is still there when another one goes on. -/
theorem written_set {dumps : List Dump} {i : Nat} {d d' : Dump} (hd : dumps[i]? = some d) (hne : d ≠ .written)
    (h : Dump.written ∈ dumps) : Dump.written ∈ dumps.set i d' := by
  obtain ⟨j, hj⟩ := List.mem_iff_getElem?.mp h
  have hij : i ≠ j := by
    rintro rfl
    exact hne (Option.some.inj (hd.symm.trans hj))
  exact List.mem_iff_getElem?.mpr ⟨j, by rw [List.getElem?_set_ne hij, hj]⟩

theorem Inv.step (hne : cfg.path.withTmp ≠ cfg.path) (h : Inv cfg s) (he : Undisturbed s e s')
    (hstep : (machine cfg).step s e = some s') : Inv cfg s' := by
  cases step_cases hstep with
  | elapse duration => exact ⟨h.file, h.snapped, h.counted⟩
  | store key entry plugin hchanges hpush =>
    refine ⟨h.file.store hpush, fun i entries before hdump => (h.snapped i entries before hdump).store hpush, ?_⟩
    refine h.counted.imp_right fun hcount => ?_
    rintro ⟨st, hst, hcounted⟩
    change st ∈ (s.stores ++ [_]).drop s.written at hst
    rw [List.drop_append_of_le_length h.file.1] at hst
    rcases List.mem_append.mp hst with hold | hnew
    · exact (hcount ⟨st, hold, hcounted⟩).trans_eq hchanges.symm
    · rw [List.mem_singleton.mp hnew] at hcounted
      cases hcounted
  | count hstore =>
    refine ⟨h.file.count hstore, fun i entries before hdump => (h.snapped i entries before hdump).count hstore, ?_⟩
    refine .inr fun _ => ?_
    change 0 < (s.plugin.changesSinceDump + 1) % 2 ^ 64
    rw [Nat.mod_eq_of_lt he]
    exact Nat.succ_pos _
  | access cache hsub =>
    exact ⟨h.file.access hsub, fun i entries before hdump => (h.snapped i entries before hdump).access hsub, h.counted⟩
  | idle => exact h
  | begin =>
    refine ⟨h.file, fun i entries before hdump => h.snapped i entries before (snapped_append hdump), ?_⟩
    exact h.counted.imp_left fun hwritten => List.mem_append_left _ hwritten
  | snapshot hdump =>
    refine ⟨h.file, ?_, h.counted.imp_left (written_set hdump nofun)⟩
    intro j entries before hsnapped
    rcases snapped_set hsnapped with hold | hnew
    · exact h.snapped j entries before hold
    · cases hnew
      exact ⟨le_rfl, fun item hitem _ => .inl hitem⟩
  | @written i entries before faults d hdump hrun =>
    have hsince := h.snapped i entries before hdump
    obtain ⟨bytes, hbytes, hfile⟩ := (spec_dump hne entries).ok rfl hrun
    refine ⟨hsince.mono rfl rfl fun item hitem => ⟨entries, bytes, hbytes, hfile, hitem⟩, ?_, .inl ?_⟩
    · intro j entries before hsnapped
      rcases snapped_set hsnapped with hold | hnew
      · exact h.snapped j entries before hold
      · cases hnew
    · exact List.mem_of_getElem? (getElem?_set_of_getElem? hdump _)
  | failed hdump hrun =>
    have hfile := (spec_dump hne _).error rfl hrun
    refine ⟨?_, ?_, ?_⟩
    · refine h.file.mono rfl rfl fun item hitem => ?_
      obtain ⟨entries, bytes, hbytes, hold, hmem⟩ := hitem
      exact ⟨entries, bytes, hbytes, hfile.trans hold, hmem⟩
    · intro j entries before hsnapped
      rcases snapped_set hsnapped with hold | hnew
      · exact h.snapped j entries before hold
      · cases hnew
    · exact h.counted.imp_left (written_set hdump nofun)
  | reset hdump =>
    refine ⟨h.file, ?_, .inr ?_⟩
    · intro j entries before hsnapped
      rcases snapped_set hsnapped with hold | hnew
      · exact h.snapped j entries before hold
      · cases hnew
    · rintro ⟨st, hst, hcounted⟩
      rw [he st hst] at hcounted
      cases hcounted
  | finish hdump =>
    refine ⟨h.file, ?_, h.counted.imp_left (written_set hdump nofun)⟩
    intro j entries before hsnapped
    rcases snapped_set hsnapped with hold | hnew
    · exact h.snapped j entries before hold
    · cases hnew

/-! ### One at a time -/

/-- A store that nothing interrupts is `store`. -/
theorem store_alone (key : String) (entry : CacheEntry) (hcount : s.plugin.changesSinceDump + 1 < 2 ^ 64) :
    (machine cfg).run s [.store key entry, .count s.stores.length] =
      some { s with plugin := s.plugin.store key entry, stores := s.stores ++ [⟨key, entry, true⟩] } := by
  rw [Machine.run_cons_of_step rfl]
  refine Machine.run_cons_of_step ?_ []
  simp only [machine, step, System.setChanges, List.getElem?_concat_length, Nat.mod_eq_of_lt hcount]
  simp [CachePlugin.store]

theorem snapshot_alone : (machine cfg).run s [.shutdown, .snapshot s.dumps.length] =
    some { s with dumps := s.dumps ++ [.snapped s.plugin.cache.entries s.stores.length] } := by
  rw [Machine.run_cons_of_step rfl]
  refine Machine.run_cons_of_step ?_ []
  simp [machine, step, System.setDump]

/-- A dump that nothing interrupts, and no fault, is `dump_to_file`. -/
theorem dump_alone (hne : cfg.path.withTmp ≠ cfg.path) : ∃ events t, (machine cfg).run s events = some t ∧
    (t.plugin, t.files cfg.path) = s.plugin.dumpToFile cfg.wire (s.files cfg.path) := by
  have hspec := @spec_dumpCacheTo cfg.path (s.files cfg.path) True cfg.wire hne s.plugin.cache.entries
  cases hrun : (dumpCacheTo cfg.wire cfg.path s.plugin.cache.entries).run ⟨s.files, []⟩ with
  | mk result disk =>
    cases result with
    | error e =>
      have hgiven := hspec.error ⟨rfl, fun _ => rfl⟩ hrun
      have hwrite : (machine cfg).run { s with dumps := s.dumps ++ [.snapped s.plugin.cache.entries s.stores.length] }
          [.write s.dumps.length []] = some { s with files := disk.files, dumps := s.dumps ++ [.ended] } := by
        refine Machine.run_cons_of_step ?_ []
        simp [machine, step, System.setDump, hrun]
      refine ⟨_, _, (Machine.run_append_of_run snapshot_alone _).trans hwrite, ?_⟩
      rw [CachePlugin.dumpToFile, hgiven.reason trivial, ← hgiven.path]
    | ok a =>
      obtain ⟨bytes, hbytes, hfile⟩ := hspec.ok ⟨rfl, fun _ => rfl⟩ hrun
      have hwrite : (machine cfg).step { s with dumps := s.dumps ++ [.snapped s.plugin.cache.entries s.stores.length] }
          (.write s.dumps.length []) =
            some { s with files := disk.files, dumps := s.dumps ++ [.written], written := s.stores.length } := by
        simp [machine, step, System.setDump, hrun]
      have hreset : (machine cfg).run
          { s with files := disk.files, dumps := s.dumps ++ [.written], written := s.stores.length }
          [.reset s.dumps.length] = some { s with
            plugin := { s.plugin with changesSinceDump := 0 }, files := disk.files, dumps := s.dumps ++ [.reset],
            written := s.stores.length } := by
        refine Machine.run_cons_of_step ?_ []
        simp [machine, step, System.setDump, System.setChanges]
      refine ⟨_, _, (Machine.run_append_of_run snapshot_alone _).trans
        ((Machine.run_cons_of_step hwrite _).trans hreset), ?_⟩
      simp [CachePlugin.dumpToFile, hbytes, hfile]

/-! ### Over a run -/

/-- Nothing is forgotten over a run from a state without stores and dumps, if at every reset no store that pushed after the snapshot in the file has been counted. -/
theorem kept_run {events : List Event} (hne : cfg.path.withTmp ≠ cfg.path) (hstores : s.stores = [])
    (hdumps : s.dumps = []) (hwritten : s.written = 0) (hundisturbed : (machine cfg).Each Undisturbed s events)
    (hrun : (machine cfg).run s events = some t) : Kept cfg t := by
  have hstart : Inv cfg s := by
    refine ⟨⟨by rw [hwritten]; exact Nat.zero_le _, fun item _ hstored => ?_⟩, fun i entries before hdump => ?_, ?_⟩
    · rw [hstores] at hstored
      cases hstored
    · rw [hdumps] at hdump
      cases hdump
    · refine .inr fun ⟨st, hst, _⟩ => ?_
      rw [System.pending, hstores, List.drop_nil] at hst
      cases hst
  exact (Machine.run_keeps (fun _ _ _ h he hstep => h.step hne he hstep) hstart hundisturbed hrun).kept

theorem eq_nil_of_length_dumpCache {wire : WireCodec} {entries : List (String × CacheEntry)} {bytes : List UInt8}
    (h : dumpCache wire entries = some bytes) (hlength : bytes.length ≤ 12) : entries = [] := by
  cases entries with
  | nil => rfl
  | cons e rest =>
    obtain ⟨blocks, hblocks, rfl⟩ := Option.map_eq_some_iff.mp h
    rw [List.mapM_cons] at hblocks
    obtain ⟨block, hblock, hblocks⟩ := Option.bind_eq_some_iff.mp hblocks
    obtain ⟨rest, -, hblocks⟩ := Option.bind_eq_some_iff.mp hblocks
    obtain ⟨msgBytes, -, rfl⟩ := Option.map_eq_some_iff.mp hblock
    cases hblocks
    have hmagic : MAGIC.length = 8 := by decide +kernel
    simp only [List.length_append, Bytes.length_writeLe, List.flatten_cons, hmagic] at hlength
    omega

/-- A new cache that writes every message as no bytes. -/
def emptyConfig : Config := ⟨⟨fun _ => some [], fun _ => none⟩, ⟨"/var/cache", "cache.dump"⟩, 600⟩

def emptyStart : System := ⟨0, .new 4, 0, fun _ => none, [], [], 0⟩

def emptyEntry : CacheEntry := .new 0 .new 60 60

/-- A store pushes after the snapshot and is counted after the reset; the next dump has it. -/
def countedAfter : List Event :=
  [.store "a" emptyEntry, .count 0, .shutdown, .snapshot 0, .store "b" emptyEntry, .write 0 [], .reset 0, .count 1,
    .finish 0, .shutdown, .snapshot 1, .write 1 [], .reset 1, .finish 1]

theorem kept_run_countedAfter :
    ∃ t, (machine emptyConfig).run emptyStart countedAfter = some t ∧ t.plugin.changesSinceDump = 0 ∧
      Kept emptyConfig t := by
  refine ⟨_, rfl, rfl, ?_⟩
  exact kept_run (s := emptyStart) (by decide +kernel) rfl rfl rfl
    (by decide +kernel : (machine emptyConfig).Each Undisturbed emptyStart countedAfter) rfl

/-- A store pushes after the snapshot and is counted before the reset. -/
def countedBefore : List Event :=
  [.shutdown, .snapshot 0, .store "a" emptyEntry, .count 0, .write 0 [], .reset 0, .finish 0]

theorem not_kept_countedBefore : ¬∀ (cfg : Config) (s t : System) (events : List Event), s.stores = [] →
    s.dumps = [] → s.written = 0 → (machine cfg).run s events = some t → Kept cfg t := by
  intro h
  have hdump : ((machine emptyConfig).run emptyStart countedBefore).map
      (fun t => (t.plugin.changesSinceDump, t.dumps, (t.files emptyConfig.path).map List.length)) =
        some (0, [.ended], some 12) := by decide +kernel
  have hstore : ((machine emptyConfig).run emptyStart countedBefore).map
      (fun t => (t.stores, t.plugin.cache.entries)) =
        some ([⟨"a", emptyEntry, true⟩], [("a", emptyEntry)]) := by decide +kernel
  obtain ⟨t, hrun, hdump⟩ := Option.map_eq_some_iff.mp hdump
  rw [hrun, Option.map_some, Option.some.injEq] at hstore
  obtain ⟨hzero, hdumps, hlength⟩ : _ ∧ _ ∧ _ := by simpa only [Prod.mk.injEq] using hdump
  obtain ⟨hstores, hentries⟩ : _ ∧ _ := by simpa only [Prod.mk.injEq] using hstore
  obtain ⟨entries, bytes, hbytes, hfile, hmem⟩ := h _ _ t _ rfl rfl rfl hrun hzero (by simp [hdumps])
    ("a", emptyEntry) (by simp [hentries]) (by simp [Stored, hstores, Store.item])
  rw [hfile] at hlength
  rw [eq_nil_of_length_dumpCache hbytes (Option.some.inj hlength).le] at hmem
  cases hmem

end CacheDumps

end Lazydns
