import Lazydns.Property.Expiry

/-!
# The order of eviction across restarts

A dump lists the entries of a shard from the most recently used to the least, and a restart pushes them in this order: each push makes its entry the most recent, so every shard comes back in the reverse order, and a smaller cache keeps what was used least recently. The order is kept exactly where there is none, in shards of at most one living entry.
-/

namespace Lazydns

open Dns Persistence

namespace ShardedLruCache

variable {c c' : ShardedLruCache} {now : Nat}

/-! ### Shards and their entries -/

theorem shard_run_push (c : ShardedLruCache) (l : List (String × CacheEntry)) (i : Nat) :
    (c.run (l.map fun e => .push e.1 e.2)).shard i =
      (l.filter fun e => c.shardFor e.1 = i).foldl (fun s e => s.put e.1 e.2) (c.shard i) := by
  induction l generalizing c with
  | nil => rfl
  | cons e l ih =>
    have hroute : ∀ key, (c.push e.1 e.2).2.shardFor key = c.shardFor key := fun _ => rfl
    have hrest := ih (c.push e.1 e.2).2
    simp only [hroute] at hrest
    refine hrest.trans ?_
    by_cases hi : c.shardFor e.1 = i
    · have hshard : (c.push e.1 e.2).2.shard i = (c.shard i).put e.1 e.2 := by
        change Function.update c.shard (c.shardFor e.1) _ i = _
        rw [hi, Function.update_self, Lru.push_snd]
      rw [List.filter_cons, if_pos (decide_eq_true hi), List.foldl_cons, hshard]
    · have hshard : (c.push e.1 e.2).2.shard i = c.shard i := by
        change Function.update c.shard (c.shardFor e.1) _ i = _
        rw [Function.update_of_ne (Ne.symm hi)]
      rw [List.filter_cons, if_neg (by rwa [decide_eq_true_iff]), hshard]

/-- New keys come into empty shards in reverse, the first ones being dropped where there is no room. -/
theorem entries_run_push (capacity : Nat) {l : List (String × CacheEntry)}
    (hnodup : (l.map Prod.fst).Nodup) (i : Nat) :
    (((new capacity).run (l.map fun e => .push e.1 e.2)).shard i).entries =
      (l.filter fun e => (new capacity).shardFor e.1 = i).reverse.take ((new capacity).shard i).cap := by
  have hempty : ((new capacity).shard i).entries = [] := rfl
  rw [shard_run_push, Lru.entries_foldl_put, hempty, List.append_nil]
  · exact hnodup.sublist (List.filter_sublist.map _)
  · intro e _
    exact Lru.peek_eq_none.mp (Lru.peek_empty _ _ _)

/-! ### Evictions -/

/-- For each store, the key of the entry that it replaces or drops. -/
def evicted (c : ShardedLruCache) : List (String × CacheEntry) → List (Option String)
  | [] => []
  | e :: stores => (c.push e.1 e.2).1.map Prod.fst :: evicted (c.push e.1 e.2).2 stores

/-- The shards have the same bounds, and the same keys in the same order. -/
structure SameKeys (c c' : ShardedLruCache) : Prop where
  count : c'.count = c.count
  shard : ∀ i < c.count, (c'.shard i).map (fun _ => ()) = (c.shard i).map (fun _ => ())

theorem sameKeys_push (h : SameKeys c c') (hpos : 0 < c.count) (key : String) (e : CacheEntry) :
    (c'.push key e).1.map Prod.fst = (c.push key e).1.map Prod.fst ∧
      SameKeys (c.push key e).2 (c'.push key e).2 := by
  have hroute : c'.shardFor key = c.shardFor key := by rw [shardFor, shardFor, h.count]
  have hshard := h.shard _ (shardFor_lt hpos key)
  refine ⟨?_, h.count, fun i hi => ?_⟩
  · rw [push, push, hroute, ← Lru.push_fst_map (fun _ => ()), hshard, Lru.push_fst_map]
  · change (Function.update c'.shard (c'.shardFor key) _ i).map _ =
      (Function.update c.shard (c.shardFor key) _ i).map _
    rw [hroute]
    by_cases hkey : i = c.shardFor key
    · rw [hkey, Function.update_self, Function.update_self, Lru.push_snd, Lru.push_snd,
        ← Lru.map_put (fun _ => ()), ← Lru.map_put (fun _ => ()), hshard]
    · rw [Function.update_of_ne hkey, Function.update_of_ne hkey, h.shard i hi]

/-- Where the keys stand in the same order, the same keys are dropped, whatever is stored. -/
theorem evicted_congr (h : SameKeys c c') (hpos : 0 < c.count) (stores : List (String × CacheEntry)) :
    evicted c' stores = evicted c stores := by
  induction stores generalizing c c' with
  | nil => rfl
  | cons e stores ih =>
    obtain ⟨hfst, hsame⟩ := sameKeys_push h hpos e.1 e.2
    rw [evicted, evicted, hfst, ih hsame hpos]

/-! ### Order -/

def living (now : Nat) (c : ShardedLruCache) (i : Nat) : List (String × CacheEntry) :=
  (c.shard i).entries.filter fun e => e.2.Lives now

def SameOrder (now : Nat) (c c' : ShardedLruCache) : Prop :=
  ∀ i < c.count, (c'.shard i).entries.map Prod.fst = (living now c i).map Prod.fst

/-- Of two entries of one shard that go to the same new shard, the one used less recently is not the only one kept. -/
def KeepsRecent (now : Nat) (c c' : ShardedLruCache) : Prop :=
  ∀ i < c.count, (living now c i).Pairwise fun e f =>
    c'.shardFor e.1 = c'.shardFor f.1 → (c'.peek f.1).isSome → (c'.peek e.1).isSome

theorem nodup_living (now : Nat) (c : ShardedLruCache) (i : Nat) :
    ((living now c i).map Prod.fst).Nodup :=
  (Lru.nodup_entries (c.shard i)).sublist (List.filter_sublist.map _)

private theorem reverse_eq_self_iff {α : Type} {l : List α} (h : l.Nodup) :
    l.reverse = l ↔ l.length ≤ 1 := by
  match l with
  | [] => exact iff_of_true rfl (Nat.zero_le _)
  | [_] => exact iff_of_true rfl le_rfl
  | a :: b :: l =>
    refine iff_of_false (fun heq => ?_) (by rw [List.length_cons, List.length_cons]; omega)
    have hlast := congrArg List.head? heq
    rw [List.head?_reverse, List.getLast?_cons_cons, List.head?_cons] at hlast
    exact (List.nodup_cons.mp h).1 (List.mem_of_getLast? hlast)

private theorem pairwise_of_length_le_one {α : Type} {R : α → α → Prop} {l : List α}
    (h : l.length ≤ 1) : l.Pairwise R := by
  match l, h with
  | [], _ => exact List.Pairwise.nil
  | [a], _ => exact List.pairwise_singleton R a

theorem sameKeys_retain (hbounds : SameBounds c c') (horder : SameOrder now c c') :
    SameKeys (c.retain fun e => e.Lives now) c' := by
  refine ⟨hbounds.count, fun i hi => Lru.map_unit_eq (hbounds.cap i) ?_⟩
  rw [horder i hi, living]
  exact congrArg _ (Lru.entries_retain (c.shard i) fun e => e.Lives now).symm

end ShardedLruCache

namespace Process

open ShardedLruCache

variable {wire : WireCodec} {s : Process} {r : Restart}

/-- A shard after a restart: the living entries that are routed to it in reverse, as many as have room. -/
theorem entries_restart (hcontent : Content wire s) (i : Nat) :
    ((restart wire r s).plugin.cache.shard i).entries.map Prod.fst =
      (((s.plugin.cache.entries.filter fun e => e.2.Lives r.now).filter
        fun e => (new r.size).shardFor e.1 = i).map Prod.fst).reverse.take ((new r.size).shard i).cap := by
  have hkeys : ((s.plugin.cache.entries.filter fun e => e.2.Lives r.now).map
      fun e => (e.1, e.2.restored r.now)).map Prod.fst =
      (s.plugin.cache.entries.filter fun e => e.2.Lives r.now).map Prod.fst := by
    rw [List.map_map]
    rfl
  rw [restart_cache hcontent, entries_run_push, List.map_take, List.map_reverse, List.filter_map,
    List.map_map]
  · rfl
  · rw [hkeys]
    exact (nodup_entries hcontent.routed).sublist (List.filter_sublist.map _)

variable {size now : Nat}

theorem sameBounds_restart (hcontent : Content wire s)
    (hbounds : SameBounds (new size) s.plugin.cache) :
    SameBounds s.plugin.cache (restart wire ⟨now, size⟩ s).plugin.cache := by
  rw [restart_cache hcontent]
  have hrun := sameBounds_run (new size) (((s.plugin.cache.entries.filter fun e => e.2.Lives now).map
    fun e => (e.1, e.2.restored now)).map fun e => .push e.1 e.2)
  exact ⟨hrun.count.trans hbounds.count.symm, fun i => (hrun.cap i).trans (hbounds.cap i).symm⟩

/-- With the same capacity every shard comes back in reverse. -/
theorem keys_restart (hcontent : Content wire s) (hbounds : SameBounds (new size) s.plugin.cache)
    {i : Nat} (hi : i < s.plugin.cache.count) :
    ((restart wire ⟨now, size⟩ s).plugin.cache.shard i).entries.map Prod.fst =
      ((living now s.plugin.cache i).map Prod.fst).reverse := by
  have hroute : ∀ key, (new size).shardFor key = s.plugin.cache.shardFor key := fun key => by
    rw [shardFor, shardFor, hbounds.count]
  have hliving : ((s.plugin.cache.entries.filter fun e => e.2.Lives now).filter
      fun e => (new size).shardFor e.1 = i) = living now s.plugin.cache i := by
    simp only [hroute]
    rw [List.filter_comm, filter_entries hcontent.routed hi, living]
  have hfull : (living now s.plugin.cache i).length ≤ ((new size).shard i).cap := by
    rw [← hbounds.cap i]
    refine (List.length_filter_le _ _).trans ?_
    rw [Lru.length_entries]
    exact Lru.size_le_cap _
  rw [entries_restart hcontent, hliving, List.take_of_length_le]
  rw [List.length_reverse, List.length_map]
  exact hfull

/-- A restart keeps the order of eviction exactly if no shard has more than one living entry. -/
theorem eviction_order_iff (hcontent : Content wire s) (hbounds : SameBounds (new size) s.plugin.cache) :
    (SameOrder now s.plugin.cache (restart wire ⟨now, size⟩ s).plugin.cache ∧
      (∀ stores, evicted (restart wire ⟨now, size⟩ s).plugin.cache stores =
        evicted (s.plugin.cache.retain fun e => e.Lives now) stores) ∧
      ∀ size' < size, KeepsRecent now s.plugin.cache (restart wire ⟨now, size'⟩ s).plugin.cache) ↔
    ∀ i < s.plugin.cache.count, (living now s.plugin.cache i).length ≤ 1 := by
  have horder : SameOrder now s.plugin.cache (restart wire ⟨now, size⟩ s).plugin.cache ↔
      ∀ i < s.plugin.cache.count, (living now s.plugin.cache i).length ≤ 1 := by
    refine forall₂_congr fun i hi => ?_
    rw [keys_restart hcontent hbounds hi, reverse_eq_self_iff (nodup_living _ _ _), List.length_map]
  rw [horder]
  refine ⟨fun h => h.1, fun hfew => ⟨hfew, fun stores => ?_, fun size' _ i hi => ?_⟩⟩
  · exact evicted_congr (sameKeys_retain (sameBounds_restart hcontent hbounds) (horder.mpr hfew))
      hcontent.routed.count_pos stores
  · exact pairwise_of_length_le_one (hfew i hi)


/-- In a cache of 16 every shard has room for one entry. -/
theorem eviction_order_storedFor :
    SameOrder 5000 (storedFor 300).plugin.cache
      (restart oneAddressWire ⟨5000, 16⟩ (storedFor 300)).plugin.cache := by
  have hbounds : SameBounds (new 16) (storedFor 300).plugin.cache := sameBounds_run _ _
  refine ((eviction_order_iff (content_storedFor 300) hbounds).mpr fun i hi => ?_).1
  have hcap : ((new 16).shard i).cap = 1 := by
    change max (16 / 16 + if i < 16 % 16 then 1 else 0) 1 = 1
    rw [if_neg (by omega)]
    rfl
  refine (List.length_filter_le _ _).trans ?_
  rw [Lru.length_entries, ← hcap, ← hbounds.cap i]
  exact Lru.size_le_cap _

def storedTwo : Process where
  time := 0
  file := none
  plugin := { CachePlugin.new 32 with
    cache := (ShardedLruCache.new 32).run
      [.push "a.:1:1:0" (CacheEntry.new 0 oneAddress 300 300),
        .push "q.:1:1:0" (CacheEntry.new 0 oneAddress 300 300)] }

/-- Before the restart a third reply would drop the first one, after it the second; and a new cache of 16 has kept the first one. -/
theorem restart_reverses_eviction :
    let c := storedTwo.plugin.cache
    let c' := (restart oneAddressWire ⟨5000, 32⟩ storedTwo).plugin.cache
    let third := ("1.:1:1:0", CacheEntry.new 5000 oneAddress 300 300)
    (c.shard (c.shardFor "a.:1:1:0")).entries.map Prod.fst = ["q.:1:1:0", "a.:1:1:0"] ∧
      (c'.shard (c.shardFor "a.:1:1:0")).entries.map Prod.fst = ["a.:1:1:0", "q.:1:1:0"] ∧
      evicted c [third] = [some "a.:1:1:0"] ∧ evicted c' [third] = [some "q.:1:1:0"] ∧
      (restart oneAddressWire ⟨5000, 16⟩ storedTwo).plugin.cache.entries.map Prod.fst = ["a.:1:1:0"] := by
  decide +kernel

end Process

end Lazydns
