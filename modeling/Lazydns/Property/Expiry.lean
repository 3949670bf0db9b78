import Lazydns.Plugin.PersistenceRules
import Lazydns.Property.Capacity

/-!
# Expiry across restarts

A dumped entry should come back with what is left of its original TTL, and nothing should live longer for having been dumped. The TTL is taken from the original one by the clock's seconds, so it ends in the same second in every life of the entry. The time in the cache is not in the dump: it comes back as what is left of the TTL, which is more than there was if the entry was stored for a shorter time.
-/

namespace Lazydns

open Dns Persistence

/-! ### Tables after a run of operations -/

namespace ShardedLruCache

variable {c : ShardedLruCache}

theorem routed_apply (hc : c.Routed) (op : Op) : (c.apply op).Routed := by
  cases op with
  | push key e =>
    refine routed_setShard hc key fun key' e' h => ?_
    rw [Lru.push_snd] at h
    by_cases hne : key' = key
    · rw [hne]
    · rcases Lru.peek_put_of_ne (c.shard (c.shardFor key)) e hne with heq | hnone
      · exact hc.shardFor (heq.symm.trans h)
      · rw [hnone] at h
        cases h
  | get key =>
    refine routed_setShard hc key fun key' e' h => ?_
    rw [Lru.peek_get] at h
    exact hc.shardFor h
  | pop key =>
    refine routed_setShard hc key fun key' e' h => ?_
    by_cases hne : key' = key
    · rw [hne]
    · rw [Lru.peek_pop_of_ne _ hne] at h
      exact hc.shardFor h
  | retain keep =>
    refine ⟨hc.count_pos, fun {i key e} h => ?_⟩
    have hpeek := (Lru.peek_retain (c.shard i) keep key).symm.trans h
    exact hc.shardFor (Option.filter_eq_some_iff.mp hpeek).1
  | clear =>
    refine ⟨hc.count_pos, fun {i key e} h => ?_⟩
    have hnone : (c.clear.shard i).peek key = none := Lru.peek_empty _ _ _
    cases hnone.symm.trans h

theorem routed_new (capacity : Nat) : (new capacity).Routed := by
  refine ⟨count_pos capacity, fun {i key e} h => ?_⟩
  have hnone : ((new capacity).shard i).peek key = none := Lru.peek_empty _ _ _
  rw [hnone] at h
  cases h

theorem routed_run (hc : c.Routed) (ops : List Op) : (c.run ops).Routed := by
  induction ops generalizing c with
  | nil => exact hc
  | cons op ops ih => exact ih (routed_apply hc op)

theorem peek_run {ops : List Op} {key : String} {e : CacheEntry} (h : (c.run ops).peek key = some e) :
    c.peek key = some e ∨ .push key e ∈ ops := by
  induction ops generalizing c with
  | nil => exact .inl h
  | cons op ops ih =>
    rcases ih h with hop | hmem
    · cases op with
      | push key' e' =>
        by_cases hne : key = key'
        · subst hne
          cases Option.some.inj ((peek_push_self c key e').symm.trans hop)
          exact .inr List.mem_cons_self
        · rcases peek_push_of_ne c key' e' hne with heq | hnone
          · exact .inl (heq.symm.trans hop)
          · cases hnone.symm.trans hop
      | get key' => exact .inl ((peek_get c key' key).symm.trans hop)
      | pop key' =>
        by_cases hne : key = key'
        · subst hne
          cases (peek_pop_self c key).symm.trans hop
        · exact .inl ((peek_pop_of_ne c key' hne).symm.trans hop)
      | retain keep =>
        exact .inl (Option.filter_eq_some_iff.mp ((peek_retain c key keep).symm.trans hop)).1
      | clear => cases (peek_clear c key).symm.trans hop
    · exact .inr (List.mem_cons_of_mem _ hmem)

theorem length_entries (c : ShardedLruCache) : c.entries.length = c.size := by
  rw [entries, size, List.length_flatMap]
  simp only [Lru.length_entries]

private theorem flatMap_range_ite {α : Type} (n i : Nat) (f : Nat → List α) :
    ((List.range n).flatMap fun j => if j = i then f j else []) = if i < n then f i else [] := by
  induction n with
  | zero => rfl
  | succ n ih =>
    rw [List.range_succ, List.flatMap_append, ih, List.flatMap_singleton]
    by_cases hi : n = i
    · rw [if_pos hi, hi, if_neg (Nat.lt_irrefl i), if_pos (Nat.lt_succ_self i), List.nil_append]
    · by_cases hlt : i < n
      · rw [if_pos hlt, if_neg hi, if_pos (hlt.trans (Nat.lt_succ_self n)), List.append_nil]
      · rw [if_neg hlt, if_neg hi, if_neg (by omega), List.append_nil]

theorem filter_entries (hc : c.Routed) {i : Nat} (hi : i < c.count) :
    (c.entries.filter fun e => c.shardFor e.1 = i) = (c.shard i).entries := by
  have hblock : ∀ j ∈ List.range c.count,
      ((c.shard j).entries.filter fun e => c.shardFor e.1 = i) =
        if j = i then (c.shard j).entries else [] := by
    intro j _
    have hroute : ∀ e ∈ (c.shard j).entries, c.shardFor e.1 = j := fun e he =>
      hc.shardFor (Lru.mem_entries.mp he)
    by_cases hji : j = i
    · rw [if_pos hji, List.filter_eq_self]
      exact fun e he => decide_eq_true ((hroute e he).trans hji)
    · rw [if_neg hji, List.filter_eq_nil_iff]
      exact fun e he h => hji ((hroute e he).symm.trans (of_decide_eq_true h))
  rw [entries, List.filter_flatMap, List.flatMap_congr hblock, flatMap_range_ite, if_pos hi]

theorem countP_entries (hc : c.Routed) {i : Nat} (hi : i < c.count) :
    c.entries.countP (fun e => c.shardFor e.1 = i) = (c.shard i).size := by
  rw [List.countP_eq_length_filter, filter_entries hc hi, Lru.length_entries]

/-- A cache of the same capacity has room for all entries. -/
theorem room_run (capacity : Nat) (ops : List Op) : Process.Room capacity ((new capacity).run ops) := by
  intro i hi
  have hbounds := sameBounds_run (new capacity) ops
  have hshard : ∀ key, (new capacity).shardFor key = ((new capacity).run ops).shardFor key := fun key => by
    rw [shardFor, shardFor, hbounds.count]
  simp only [hshard]
  rw [countP_entries (routed_run (routed_new capacity) ops) (by rwa [hbounds.count]), ← hbounds.cap i]
  exact Lru.size_le_cap _

end ShardedLruCache

/-! ### The times of an entry -/

namespace CacheEntry

variable {now now' : Nat} {e : CacheEntry}

/-- When the TTL is over, in milliseconds. -/
def ttlEnd (e : CacheEntry) : Nat := e.cachedAt + 1000 * e.ttl

/-- When the time in the cache is over, in milliseconds. -/
def cacheEnd (e : CacheEntry) : Nat := e.cachedAt + 1000 * e.cacheTtl

/-- What holds of an entry from when it is stored, over all restarts: its TTL ends in the second that its original TTL does. -/
structure Timed (now : Nat) (e : CacheEntry) : Prop where
  cached : e.cachedAt ≤ now
  since : e.cachedAtUnix ≤ unixNow e.cachedAt
  ends : unixNow e.cachedAt + e.ttl = e.cachedAtUnix + e.originalTtl

theorem timed_new (now : Nat) (response : Message) (ttl cacheTtl : Nat) :
    (CacheEntry.new now response ttl cacheTtl).Timed now := ⟨le_rfl, le_rfl, rfl⟩

theorem timed_restored (he : e.Timed now) (hnow : now ≤ now') (hlives : e.Lives now') :
    (e.restored now').Timed now' := by
  obtain ⟨hcached, hsince, hends⟩ := he
  rw [Lives] at hlives
  simp only [unixNow] at *
  refine ⟨le_rfl, ?_, ?_⟩
  · change e.cachedAtUnix ≤ now' / 1000
    omega
  · change now' / 1000 + (e.originalTtl - (now' / 1000 - e.cachedAtUnix)) = e.cachedAtUnix + e.originalTtl
    omega

/-- The second entry is over no later than the first, as for its TTL and as for its time in the cache. -/
structure NoLater (e e' : CacheEntry) : Prop where
  ttl : e'.ttlEnd ≤ e.ttlEnd
  cache : e'.cacheEnd ≤ e.cacheEnd

theorem NoLater.trans {e e' e'' : CacheEntry} (h : e.NoLater e') (h' : e'.NoLater e'') : e.NoLater e'' :=
  ⟨h'.ttl.trans h.ttl, h'.cache.trans h.cache⟩

/-- A restart in an earlier part of its second than the entry was cached in lengthens neither lifetime, if the entry's time in the cache covers its TTL; any other lengthens one. -/
theorem noLater_restored_iff (he : e.Timed now) (hnow : now ≤ now') (hlives : e.Lives now') :
    e.NoLater (e.restored now') ↔ e.ttl ≤ e.cacheTtl ∧ now' % 1000 ≤ e.cachedAt % 1000 := by
  obtain ⟨hcached, hsince, hends⟩ := he
  have hnew : (e.restored now').ttlEnd = now' + 1000 * (e.originalTtl - (unixNow now' - e.cachedAtUnix)) := rfl
  have hnew' : (e.restored now').cacheEnd = (e.restored now').ttlEnd := rfl
  rw [Lives] at hlives
  simp only [unixNow] at *
  constructor
  · rintro ⟨httl, hcache⟩
    rw [hnew'] at hcache
    rw [hnew] at httl hcache
    rw [ttlEnd] at httl
    rw [cacheEnd] at hcache
    omega
  · rintro ⟨hcovers, hpart⟩
    refine ⟨?_, ?_⟩
    · rw [hnew, ttlEnd]
      omega
    · rw [hnew', hnew, cacheEnd]
      omega

end CacheEntry

/-! ### One restart -/

namespace Process

variable {wire : WireCodec} {s s' t : Process} {r : Restart} {rs : List Restart} {key : String}
  {e e' : CacheEntry}

def peek (s : Process) (key : String) : Option CacheEntry := s.plugin.cache.peek key

/-- What a cache holds can be dumped and read back: entries with their times in order, which fit into the file. -/
structure Content (wire : WireCodec) (s : Process) : Prop where
  routed : s.plugin.cache.Routed
  count : s.plugin.cache.entries.length < 256 ^ 4
  fits : ∀ {key e}, s.peek key = some e → Fits wire (key, e)
  timed : ∀ {key e}, s.peek key = some e → e.Timed s.time

theorem step_eq_some : (machine wire).step s r = some s' ↔
    (s.time ≤ r.now ∧ Room r.size s.plugin.cache) ∧ restart wire r s = s' := by
  change (if _ then some _ else none) = some s' ↔ _
  rw [Option.ite_none_right_eq_some, Option.some.injEq]

variable (wire) in
private theorem restore_eq_run {now : Nat} {entries : List (String × CacheEntry)} (c : ShardedLruCache)
    (hentries : ∀ e ∈ entries, Fits wire e ∧ e.2.Lives now) :
    c.restore now (entries.map persisted) =
      c.run ((entries.map fun e => (e.1, e.2.restored now)).map fun e => .push e.1 e.2) := by
  induction entries generalizing c with
  | nil => rfl
  | cons e entries ih =>
    obtain ⟨hfits, hlives⟩ := hentries e List.mem_cons_self
    have hrest := ih (c.push e.1 (e.2.restored now)).2 fun e' he' => hentries e' (List.mem_cons_of_mem _ he')
    rw [List.map_cons, ShardedLruCache.restore, List.foldl_cons, restoreEntry_persisted hfits hlives]
    exact hrest

private theorem room_filter {size : Nat} {c : ShardedLruCache} (hroom : Room size c)
    (keep : String × CacheEntry → Bool) (i : Nat) :
    ((c.entries.filter keep).map Prod.fst).countP (fun k => (ShardedLruCache.new size).shardFor k = i) ≤
      ((ShardedLruCache.new size).shard i).cap := by
  rw [List.countP_map]
  by_cases hi : i < (ShardedLruCache.new size).count
  · exact Nat.le_trans List.filter_sublist.countP_le (hroom i hi)
  · rw [List.countP_eq_zero.mpr]
    · exact Nat.zero_le _
    · intro e _ h
      rw [Function.comp_apply, decide_eq_true_iff] at h
      exact hi (h ▸ ShardedLruCache.shardFor_lt (ShardedLruCache.count_pos size) e.1)

theorem restart_cache (hcontent : Content wire s) :
    (restart wire r s).plugin.cache = (ShardedLruCache.new r.size).run
      (((s.plugin.cache.entries.filter fun e => e.2.Lives r.now).map
        fun e => (e.1, e.2.restored r.now)).map fun e => .push e.1 e.2) := by
  have hfits : ∀ e ∈ s.plugin.cache.entries, Fits wire e := fun e he =>
    hcontent.fits ((ShardedLruCache.mem_entries hcontent.routed).mp he)
  obtain ⟨bytes, hdump, hload⟩ := loadCache_dumpCache hfits hcontent.count
  rw [restart, CachePlugin.dumpToFile, hdump]
  dsimp only
  rw [CachePlugin.restoreFromDump, hload]
  refine restore_eq_run wire _ fun e he => ?_
  obtain ⟨hmem, hlives⟩ := List.mem_filter.mp he
  exact ⟨hfits e hmem, of_decide_eq_true hlives⟩

theorem peek_restart (hcontent : Content wire s) (hroom : Room r.size s.plugin.cache) (key : String) :
    (restart wire r s).peek key =
      ((s.peek key).filter fun e => e.Lives r.now).map (CacheEntry.restored r.now) := by
  have hkeys : ((s.plugin.cache.entries.filter fun e => e.2.Lives r.now).map
      fun e => (e.1, e.2.restored r.now)).map Prod.fst =
      (s.plugin.cache.entries.filter fun e => e.2.Lives r.now).map Prod.fst := by
    rw [List.map_map]
    rfl
  obtain ⟨hkept, hothers⟩ := ShardedLruCache.kept_of_room
    ((s.plugin.cache.entries.filter fun e => e.2.Lives r.now).map fun e => (e.1, e.2.restored r.now))
    (ShardedLruCache.new r.size)
    (by
      rw [hkeys]
      exact (ShardedLruCache.nodup_entries hcontent.routed).sublist (List.filter_sublist.map _))
    (fun i => by
      rw [hkeys]
      have hempty : ((ShardedLruCache.new r.size).shard i).size = 0 := rfl
      rw [hempty, Nat.zero_add]
      exact room_filter hroom _ i)
  rw [peek, restart_cache hcontent]
  have hmem := @ShardedLruCache.mem_entries _ hcontent.routed key
  cases hfilter : (s.peek key).filter fun e => e.Lives r.now with
  | some e =>
    obtain ⟨hpeek, hlives⟩ := Option.filter_eq_some_iff.mp hfilter
    exact hkept (key, e.restored r.now)
      (List.mem_map.mpr ⟨(key, e), List.mem_filter.mpr ⟨hmem.mpr hpeek, hlives⟩, rfl⟩)
  | none =>
    refine (hothers key fun hin => ?_).trans (Lru.peek_empty _ _ _)
    rw [hkeys] at hin
    obtain ⟨⟨key', e⟩, he, rfl⟩ := List.mem_map.mp hin
    obtain ⟨hin, hlives⟩ := List.mem_filter.mp he
    rw [Option.filter_eq_none_iff] at hfilter
    exact hfilter e (hmem.mp hin) hlives

theorem peek_restart_eq_some (hcontent : Content wire s) (hstep : (machine wire).step s r = some s') :
    s'.peek key = some e' ↔ ∃ e, s.peek key = some e ∧ e.Lives r.now ∧ e.restored r.now = e' := by
  obtain ⟨⟨-, hroom⟩, rfl⟩ := step_eq_some.mp hstep
  rw [peek_restart hcontent hroom, Option.map_eq_some_iff]
  simp only [Option.filter_eq_some_iff, decide_eq_true_eq, and_assoc]

theorem content_step (hcontent : Content wire s) (hstep : (machine wire).step s r = some s') :
    Content wire s' := by
  have hpeek := fun key e' => @peek_restart_eq_some wire s s' r key e' hcontent hstep
  obtain ⟨⟨hnow, -⟩, hrestart⟩ := step_eq_some.mp hstep
  have htime : s'.time = r.now := by rw [← hrestart, restart]
  have hrouted : s'.plugin.cache.Routed := by
    rw [← hrestart, restart_cache hcontent]
    exact ShardedLruCache.routed_run (ShardedLruCache.routed_new _) _
  refine ⟨hrouted, ?_, fun {key e'} h => ?_, fun {key e'} h => ?_⟩
  · have hsub : s'.plugin.cache.entries.map Prod.fst ⊆ s.plugin.cache.entries.map Prod.fst := by
      intro key hkey
      obtain ⟨⟨key, e'⟩, he', rfl⟩ := List.mem_map.mp hkey
      obtain ⟨e, he, -⟩ := (hpeek key e').mp ((ShardedLruCache.mem_entries hrouted).mp he')
      exact List.mem_map.mpr ⟨(key, e), (ShardedLruCache.mem_entries hcontent.routed).mpr he, rfl⟩
    have hle := (List.subperm_of_subset (ShardedLruCache.nodup_entries hrouted) hsub).length_le
    rw [List.length_map, List.length_map] at hle
    exact Nat.lt_of_le_of_lt hle hcontent.count
  · obtain ⟨e, he, -, rfl⟩ := (hpeek key e').mp h
    obtain ⟨hkey, hunix, httl, hresponse⟩ := hcontent.fits he
    exact ⟨hkey, hunix, httl, hresponse⟩
  · obtain ⟨e, he, hlives, rfl⟩ := (hpeek key e').mp h
    rw [htime]
    exact CacheEntry.timed_restored (hcontent.timed he) hnow hlives

/-- What is stored in a run of operations can be dumped, if the table is not too large for the file's count. -/
theorem content_run (size : Nat) {ops : List ShardedLruCache.Op} (hsize : size < 256 ^ 4)
    (hcache : s.plugin.cache = (ShardedLruCache.new size).run ops)
    (hpush : ∀ key e, .push key e ∈ ops → Fits wire (key, e) ∧
      ∃ t response ttl cacheTtl, t ≤ s.time ∧ e = CacheEntry.new t response ttl cacheTtl) :
    Content wire s := by
  have hmem : ∀ {key e}, s.peek key = some e → .push key e ∈ ops := by
    intro key e h
    rw [peek, hcache] at h
    rcases ShardedLruCache.peek_run h with hnew | hmem
    · cases (Lru.peek_empty _ _ _).symm.trans hnew
    · exact hmem
  refine ⟨?_, ?_, fun h => (hpush _ _ (hmem h)).1, fun h => ?_⟩
  · rw [hcache]
    exact ShardedLruCache.routed_run (ShardedLruCache.routed_new size) ops
  · have hle := ShardedLruCache.size_run_le size ops
    rw [hcache, ShardedLruCache.length_entries]
    omega
  · obtain ⟨-, t, response, ttl, cacheTtl, ht, rfl⟩ := hpush _ _ (hmem h)
    obtain ⟨hcached, hsince, hends⟩ := CacheEntry.timed_new t response ttl cacheTtl
    exact ⟨hcached.trans ht, hsince, hends⟩

/-! ### The law -/

/-- What a restart should do to the entries of a cache, and what it should keep of those that were there at first. -/
structure RestartLaw (first : ShardedLruCache) (s : Process) (r : Restart) (s' : Process) : Prop where
  present : ∀ key, (∃ e', s'.peek key = some e') ↔
    ∃ e, s.peek key = some e ∧ unixNow r.now - e.cachedAtUnix < e.originalTtl
  carried : ∀ key e e', s.peek key = some e → s'.peek key = some e' →
    e'.response = e.response ∧ e'.originalTtl = e.originalTtl ∧ e'.cachedAtUnix = e.cachedAtUnix
  remaining : ∀ key e', s'.peek key = some e' →
    e'.remainingTtl r.now = e'.originalTtl - (unixNow r.now - e'.cachedAtUnix)
  kept : ∀ key e e', s.peek key = some e → s'.peek key = some e' → e.NoLater e'
  outlived : ∀ key e', s'.peek key = some e' → ∃ e, first.peek key = some e ∧ e.NoLater e'

/-- Every entry that comes back was to be kept for its whole TTL, and the restart is in no later part of its second than the entry was cached in. -/
def Covered (s : Process) (r : Restart) (_ : Process) : Prop :=
  ∀ key e, s.peek key = some e → unixNow r.now - e.cachedAtUnix < e.originalTtl →
    e.ttl ≤ e.cacheTtl ∧ r.now % 1000 ≤ e.cachedAt % 1000

theorem covered_of_kept (hcontent : Content wire s) (hstep : (machine wire).step s r = some s')
    (hkept : ∀ key e e', s.peek key = some e → s'.peek key = some e' → e.NoLater e') : Covered s r s' := by
  intro key e he hlives
  have hnow := (step_eq_some.mp hstep).1.1
  have hback := (peek_restart_eq_some hcontent hstep).mpr ⟨e, he, hlives, rfl⟩
  exact (CacheEntry.noLater_restored_iff (hcontent.timed he) hnow hlives).mp (hkept key e _ he hback)

theorem restartLaw_of_covered {first : ShardedLruCache} (hcontent : Content wire s)
    (hfirst : ∀ key e, s.peek key = some e → ∃ e₀, first.peek key = some e₀ ∧ e₀.NoLater e)
    (hstep : (machine wire).step s r = some s') (hcovered : Covered s r s') :
    RestartLaw first s r s' := by
  have hpeek := fun key e' => @peek_restart_eq_some wire s s' r key e' hcontent hstep
  have hnow := (step_eq_some.mp hstep).1.1
  have hkept : ∀ {key e}, s.peek key = some e → e.Lives r.now → e.NoLater (e.restored r.now) :=
    fun he hlives =>
      (CacheEntry.noLater_restored_iff (hcontent.timed he) hnow hlives).mpr (hcovered _ _ he hlives)
  refine ⟨fun key => ⟨?_, ?_⟩, ?_, ?_, ?_, ?_⟩
  · rintro ⟨e', h⟩
    obtain ⟨e, he, hlives, -⟩ := (hpeek key e').mp h
    exact ⟨e, he, hlives⟩
  · rintro ⟨e, he, hlives⟩
    exact ⟨_, (hpeek key _).mpr ⟨e, he, hlives, rfl⟩⟩
  · intro key e e' he h
    obtain ⟨e₁, he₁, -, rfl⟩ := (hpeek key e').mp h
    cases he.symm.trans he₁
    exact ⟨rfl, rfl, rfl⟩
  · intro key e' h
    obtain ⟨e, -, -, rfl⟩ := (hpeek key e').mp h
    simp [CacheEntry.remainingTtl, CacheEntry.restored]
  · intro key e e' he h
    obtain ⟨e₁, he₁, hlives, rfl⟩ := (hpeek key e').mp h
    cases he.symm.trans he₁
    exact hkept he hlives
  · intro key e' h
    obtain ⟨e, he, hlives, rfl⟩ := (hpeek key e').mp h
    obtain ⟨e₀, he₀, hle⟩ := hfirst key e he
    exact ⟨e₀, he₀, hle.trans (hkept he hlives)⟩

/-- Over all restarts of a run, entries come back with what is left of their original TTL, and none lives longer than before or than at first, exactly if every restart finds its entries covered. -/
theorem expiry_iff (hcontent : Content wire s) (rs : List Restart) :
    (machine wire).Each (RestartLaw s.plugin.cache) s rs ↔ (machine wire).Each Covered s rs := by
  constructor
  · refine Machine.each_of_keeps (I := Content wire) (fun s r s' hs hlaw hstep => ?_) hcontent
    exact ⟨content_step hs hstep, covered_of_kept hs hstep hlaw.kept⟩
  · refine Machine.each_of_keeps (I := fun t => Content wire t ∧
      ∀ key e, t.peek key = some e → ∃ e₀, s.plugin.cache.peek key = some e₀ ∧ e₀.NoLater e)
      (fun t r t' ht hcovered hstep => ?_) ⟨hcontent, fun key e he => ⟨e, he, le_rfl, le_rfl⟩⟩
    have hlaw := restartLaw_of_covered ht.1 ht.2 hstep hcovered
    exact ⟨⟨content_step ht.1 hstep, hlaw.outlived⟩, hlaw⟩

/-! ### An entry stored for its TTL, and one stored for less -/

def storedFor (cacheTtl : Nat) : Process where
  time := 0
  file := none
  plugin := { CachePlugin.new 16 with
    cache := (ShardedLruCache.new 16).run [.push "a.:1:1:0" (CacheEntry.new 0 oneAddress 300 cacheTtl)] }

theorem fits_storedFor (cacheTtl : Nat) :
    Fits oneAddressWire ("a.:1:1:0", CacheEntry.new 0 oneAddress 300 cacheTtl) where
  key := show (Bytes.ofString "a.:1:1:0").length < 256 ^ 2 by decide
  cachedAtUnix := show unixNow 0 < 256 ^ 8 by decide
  originalTtl := show 300 < 256 ^ 4 by decide
  response := ⟨oneAddressBytes, serializeMessage_oneAddress, by decide, parseMessage_oneAddressBytes⟩

theorem content_storedFor (cacheTtl : Nat) : Content oneAddressWire (storedFor cacheTtl) := by
  refine content_run 16 (by decide) rfl fun key e h => ?_
  cases List.mem_singleton.mp h
  exact ⟨fits_storedFor cacheTtl, 0, oneAddress, 300, cacheTtl, le_rfl, rfl⟩

theorem step_storedFor (cacheTtl : Nat) : (machine oneAddressWire).step (storedFor cacheTtl) ⟨5000, 16⟩ =
    some (restart oneAddressWire ⟨5000, 16⟩ (storedFor cacheTtl)) :=
  step_eq_some.mpr ⟨⟨Nat.zero_le _, ShardedLruCache.room_run 16 _⟩, rfl⟩

theorem peek_storedFor {cacheTtl : Nat} (h : (storedFor cacheTtl).peek key = some e) :
    e = CacheEntry.new 0 oneAddress 300 cacheTtl := by
  rcases ShardedLruCache.peek_run (c := .new 16) h with hnew | hmem
  · cases (Lru.peek_empty _ _ _).symm.trans hnew
  · cases List.mem_singleton.mp hmem
    rfl

/-- Stored for its TTL, the reply comes back after five seconds as the law says. -/
theorem expiry_iff_storedFor : RestartLaw (storedFor 300).plugin.cache (storedFor 300) ⟨5000, 16⟩
    (restart oneAddressWire ⟨5000, 16⟩ (storedFor 300)) :=
  ((Machine.each_cons_of_step (step_storedFor 300)).mp
    ((expiry_iff (content_storedFor 300) [⟨5000, 16⟩]).mpr
      ((Machine.each_cons_of_step (step_storedFor 300)).mpr
        ⟨fun _ _ he _ => by rw [peek_storedFor he]; exact ⟨le_rfl, by decide⟩, trivial⟩))).1

/-- Stored for ten seconds and dumped after five, the reply is in the cache for 295 more. -/
theorem not_expiry_storedFor :
    ¬ ∀ (wire : WireCodec) (s : Process), Content wire s → ∀ rs : List Restart,
      (machine wire).Each (RestartLaw s.plugin.cache) s rs := by
  intro h
  have hlaw := ((Machine.each_cons_of_step (step_storedFor 10)).mp
    (h oneAddressWire (storedFor 10) (content_storedFor 10) [⟨5000, 16⟩])).1
  have hstored : (storedFor 10).peek "a.:1:1:0" = some (CacheEntry.new 0 oneAddress 300 10) :=
    ShardedLruCache.peek_push_self _ _ _
  have hcovered := covered_of_kept (content_storedFor 10) (step_storedFor 10) hlaw.kept
  exact absurd (hcovered _ _ hstored (by decide)).1 (by decide)

end Process

end Lazydns
