import Lazydns.Plugin.DumpFile
import Lazydns.Plugin.PersistenceRules

/-!
# Stores and dumps side by side

A store pushes its entry and then counts itself as a change. A dump takes a snapshot of the table, writes it, sets the count of changes to zero, and notes the time; a background run begins one if there are changes, and they are many or old. Stores, dumps and the other accesses to the table come in any order, one step at a time. The count is 64 bits wide.

Every store stays on a list with what it stored, also when it has ended, and a dump knows how many stores there were at its snapshot; `written` is that number for the dump in the file. This is not in the source: it is for the statements about a run.
-/

namespace Lazydns

open Persistence

namespace CacheDumps

/-- Where and when a cache is dumped. -/
structure Config where
  wire : WireCodec
  path : DumpPath
  intervalSecs : Nat

structure Store where
  key : String
  entry : CacheEntry
  counted : Bool
  deriving DecidableEq, Repr

inductive Dump where
  | begun
  | snapped (entries : List (String × CacheEntry)) (before : Nat)
  | written
  | reset
  | ended
  deriving DecidableEq, Repr

structure System where
  now : Nat
  plugin : CachePlugin
  lastDumpUnix : Nat
  files : DumpPath → Option (List UInt8)
  stores : List Store
  dumps : List Dump
  written : Nat

/-- `get`, `pop` and `cleanup` are what lookups, fallbacks of refreshes and cleanups do to the table. -/
inductive Event where
  | elapse (duration : Nat)
  | store (key : String) (entry : CacheEntry)
  | count (i : Nat)
  | get (key : String)
  | pop (key : String)
  | cleanup (shard : Nat)
  | background
  | shutdown
  | snapshot (i : Nat)
  | write (i : Nat) (faults : List (Option Nat))
  | reset (i : Nat)
  | finish (i : Nat)

namespace System

def setCache (s : System) (cache : ShardedLruCache) : System := { s with plugin := { s.plugin with cache } }

def setChanges (s : System) (changesSinceDump : Nat) : System :=
  { s with plugin := { s.plugin with changesSinceDump } }

def setDump (s : System) (i : Nat) (dump : Dump) : System := { s with dumps := s.dumps.set i dump }

end System

def dumpThreshold : Nat := 1024

/-- The check of `run_background_task`. -/
def Due (cfg : Config) (s : System) : Prop :=
  0 < s.plugin.changesSinceDump ∧ (dumpThreshold ≤ s.plugin.changesSinceDump ∨
    s.lastDumpUnix = 0 ∨ cfg.intervalSecs ≤ unixNow s.now - s.lastDumpUnix)

instance (cfg : Config) (s : System) : Decidable (Due cfg s) := inferInstanceAs (Decidable (_ ∧ _))

def step (cfg : Config) (s : System) : Event → Option System
  | .elapse duration => some { s with now := s.now + duration }
  | .store key entry =>
    some { s with
      plugin := { s.plugin.store key entry with changesSinceDump := s.plugin.changesSinceDump }
      stores := s.stores ++ [⟨key, entry, false⟩] }
  | .count i =>
    match s.stores[i]? with
    | some ⟨key, entry, false⟩ =>
      some { s.setChanges ((s.plugin.changesSinceDump + 1) % 2 ^ 64) with
        stores := s.stores.set i ⟨key, entry, true⟩ }
    | _ => none
  | .get key => some (s.setCache (s.plugin.cache.get key).2)
  | .pop key => some (s.setCache (s.plugin.cache.pop key))
  | .cleanup i =>
    some (s.setCache (s.plugin.cache.setShard i
      ((s.plugin.cache.shard i).retain fun e => !e.isCacheExpired s.now)))
  | .background => some (if Due cfg s then { s with dumps := s.dumps ++ [.begun] } else s)
  | .shutdown => some { s with dumps := s.dumps ++ [.begun] }
  | .snapshot i =>
    match s.dumps[i]? with
    | some .begun => some (s.setDump i (.snapped s.plugin.cache.entries s.stores.length))
    | _ => none
  | .write i faults =>
    match s.dumps[i]? with
    | some (.snapped entries before) =>
      match (dumpCacheTo cfg.wire cfg.path entries).run ⟨s.files, faults⟩ with
      | (.ok _, d) => some { s.setDump i .written with files := d.files, written := before }
      | (.error _, d) => some { s.setDump i .ended with files := d.files }
    | _ => none
  | .reset i =>
    match s.dumps[i]? with
    | some .written => some ((s.setChanges 0).setDump i .reset)
    | _ => none
  | .finish i =>
    match s.dumps[i]? with
    | some .reset => some { s.setDump i .ended with lastDumpUnix := unixNow s.now }
    | _ => none

def machine (cfg : Config) : Machine System Event := ⟨step cfg⟩

/-! ### What a step does -/

/-- The steps, each with what has to hold for it. -/
inductive Moves (cfg : Config) (s : System) : Event → System → Prop
  | elapse (duration : Nat) : Moves cfg s (.elapse duration) { s with now := s.now + duration }
  | store (key : String) (entry : CacheEntry) (plugin : CachePlugin)
    (hchanges : plugin.changesSinceDump = s.plugin.changesSinceDump)
    (hpush : ∀ e ∈ plugin.cache.entries, e ∈ s.plugin.cache.entries ∨ e = (key, entry)) :
    Moves cfg s (.store key entry) { s with plugin, stores := s.stores ++ [⟨key, entry, false⟩] }
  | count {i : Nat} {key : String} {entry : CacheEntry} (hstore : s.stores[i]? = some ⟨key, entry, false⟩) :
    Moves cfg s (.count i) { s.setChanges ((s.plugin.changesSinceDump + 1) % 2 ^ 64) with
      stores := s.stores.set i ⟨key, entry, true⟩ }
  | access {e : Event} (cache : ShardedLruCache) (hsub : ∀ e ∈ cache.entries, e ∈ s.plugin.cache.entries)
    (hcount : ∀ i, e ≠ .count i) (hwrite : ∀ i faults, e ≠ .write i faults) : Moves cfg s e (s.setCache cache)
  | idle : Moves cfg s .background s
  | begin {e : Event} (hcount : ∀ i, e ≠ .count i) (hwrite : ∀ i faults, e ≠ .write i faults) :
    Moves cfg s e { s with dumps := s.dumps ++ [.begun] }
  | snapshot {i : Nat} (hdump : s.dumps[i]? = some .begun) :
    Moves cfg s (.snapshot i) (s.setDump i (.snapped s.plugin.cache.entries s.stores.length))
  | written {i : Nat} {entries : List (String × CacheEntry)} {before : Nat} {faults : List (Option Nat)} {d : DumpDisk}
    (hdump : s.dumps[i]? = some (.snapped entries before))
    (hrun : (dumpCacheTo cfg.wire cfg.path entries).run ⟨s.files, faults⟩ = (.ok (), d)) :
    Moves cfg s (.write i faults) { s.setDump i .written with files := d.files, written := before }
  | failed {i : Nat} {entries : List (String × CacheEntry)} {before : Nat} {faults : List (Option Nat)}
    {e : DumpError} {d : DumpDisk} (hdump : s.dumps[i]? = some (.snapped entries before))
    (hrun : (dumpCacheTo cfg.wire cfg.path entries).run ⟨s.files, faults⟩ = (.error e, d)) :
    Moves cfg s (.write i faults) { s.setDump i .ended with files := d.files }
  | reset {i : Nat} (hdump : s.dumps[i]? = some .written) :
    Moves cfg s (.reset i) ((s.setChanges 0).setDump i .reset)
  | finish {i : Nat} (hdump : s.dumps[i]? = some .reset) :
    Moves cfg s (.finish i) { s.setDump i .ended with lastDumpUnix := unixNow s.now }

end CacheDumps

namespace ShardedLruCache

variable {c : ShardedLruCache}

theorem mem_entries_shard {e : String × CacheEntry} :
    e ∈ c.entries ↔ ∃ i < c.count, (c.shard i).peek e.1 = some e.2 := by
  rw [entries, List.mem_flatMap]
  simp only [List.mem_range]
  exact exists_congr fun i => and_congr_right fun _ => Lru.mem_entries

/-- A table with one shard changed holds what it held, and what the shard holds. -/
theorem mem_entries_setShard {i : Nat} {shard : Lru String CacheEntry} {e : String × CacheEntry}
    {p : Prop} (hshard : shard.peek e.1 = some e.2 → (c.shard i).peek e.1 = some e.2 ∨ p)
    (he : e ∈ (c.setShard i shard).entries) : e ∈ c.entries ∨ p := by
  obtain ⟨j, hj, hpeek⟩ := mem_entries_shard.mp he
  change (Function.update c.shard i shard j).peek e.1 = some e.2 at hpeek
  by_cases hij : j = i
  · subst hij
    rw [Function.update_self] at hpeek
    exact (hshard hpeek).imp_left fun h => mem_entries_shard.mpr ⟨j, hj, h⟩
  · rw [Function.update_of_ne hij] at hpeek
    exact .inl (mem_entries_shard.mpr ⟨j, hj, hpeek⟩)

theorem mem_entries_push {key : String} {entry : CacheEntry} {e : String × CacheEntry}
    (he : e ∈ (c.push key entry).2.entries) : e ∈ c.entries ∨ e = (key, entry) := by
  rw [push] at he
  refine mem_entries_setShard (fun hpeek => ?_) he
  rw [Lru.push_snd] at hpeek
  by_cases hkey : e.1 = key
  · rw [hkey, Lru.peek_put_self] at hpeek
    exact .inr (Prod.ext hkey (Option.some.inj hpeek).symm)
  · rcases Lru.peek_put_of_ne (c.shard (c.shardFor key)) entry hkey with hsame | hnone
    · exact .inl (hsame.symm.trans hpeek)
    · rw [hnone] at hpeek
      cases hpeek

theorem mem_entries_get {key : String} {e : String × CacheEntry} (he : e ∈ (c.get key).2.entries) :
    e ∈ c.entries := by
  refine (mem_entries_setShard (p := False) (fun hpeek => ?_) he).resolve_right id
  rw [Lru.peek_get] at hpeek
  exact .inl hpeek

theorem mem_entries_pop {key : String} {e : String × CacheEntry} (he : e ∈ (c.pop key).entries) :
    e ∈ c.entries := by
  rw [pop] at he
  refine (mem_entries_setShard (p := False) (fun hpeek => ?_) he).resolve_right id
  by_cases hkey : e.1 = key
  · rw [hkey, Lru.peek_pop_self] at hpeek
    cases hpeek
  · rw [Lru.peek_pop_of_ne _ hkey] at hpeek
    exact .inl hpeek

theorem mem_entries_retain {i : Nat} {keep : CacheEntry → Bool} {e : String × CacheEntry}
    (he : e ∈ (c.setShard i ((c.shard i).retain keep)).entries) : e ∈ c.entries := by
  refine (mem_entries_setShard (p := False) (fun hpeek => ?_) he).resolve_right id
  rw [Lru.peek_retain, Option.filter_eq_some_iff] at hpeek
  exact .inl hpeek.1

end ShardedLruCache

namespace CacheDumps

theorem step_cases {cfg : Config} {s s' : System} {e : Event} (hstep : (machine cfg).step s e = some s') :
    Moves cfg s e s' := by
  cases e with
  | elapse duration =>
    cases hstep
    exact .elapse duration
  | store key entry =>
    cases hstep
    exact .store key entry _ rfl fun e he => ShardedLruCache.mem_entries_push he
  | count i =>
    simp only [machine, step] at hstep
    split at hstep
    · rename_i key entry hstore
      cases hstep
      exact .count hstore
    · cases hstep
  | get key =>
    cases hstep
    exact .access _ (fun e he => ShardedLruCache.mem_entries_get he) nofun nofun
  | pop key =>
    cases hstep
    exact .access _ (fun e he => ShardedLruCache.mem_entries_pop he) nofun nofun
  | cleanup i =>
    cases hstep
    exact .access _ (fun e he => ShardedLruCache.mem_entries_retain he) nofun nofun
  | background =>
    cases hstep
    by_cases hdue : Due cfg s
    · rw [if_pos hdue]
      exact .begin nofun nofun
    · rw [if_neg hdue]
      exact .idle
  | shutdown =>
    cases hstep
    exact .begin nofun nofun
  | snapshot i =>
    simp only [machine, step] at hstep
    split at hstep
    · rename_i hdump
      cases hstep
      exact .snapshot hdump
    · cases hstep
  | write i faults =>
    simp only [machine, step] at hstep
    split at hstep
    · rename_i entries before hdump
      split at hstep
      · rename_i d hrun
        cases hstep
        exact .written hdump hrun
      · rename_i e d hrun
        cases hstep
        exact .failed hdump hrun
    · cases hstep
  | reset i =>
    simp only [machine, step] at hstep
    split at hstep
    · rename_i hdump
      cases hstep
      exact .reset hdump
    · cases hstep
  | finish i =>
    simp only [machine, step] at hstep
    split at hstep
    · rename_i hdump
      cases hstep
      exact .finish hdump
    · cases hstep

end CacheDumps

end Lazydns
