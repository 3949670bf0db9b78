import Lazydns.Plugin.CacheSpec
import Mathlib.Algebra.BigOperators.Intervals
import Mathlib.Algebra.Order.BigOperators.Group.Finset

/-!
# The capacity of the sharded table

The capacity is split exactly over the shards, so no run of operations holds more entries than it allows. Whether all of it can be used depends on the mask: a key is routed to `hash &&& (count - 1)`, which reaches every shard only if the shard count is a power of two.
-/

namespace Lazydns

namespace ShardedLruCache

/-! ### Runs of operations -/

inductive Op where
  | push (key : String) (entry : CacheEntry)
  | get (key : String)
  | pop (key : String)
  | retain (keep : CacheEntry → Bool)
  | clear

def apply (c : ShardedLruCache) : Op → ShardedLruCache
  | .push key entry => (c.push key entry).2
  | .get key => (c.get key).2
  | .pop key => c.pop key
  | .retain keep => c.retain keep
  | .clear => c.clear

def run (c : ShardedLruCache) (ops : List Op) : ShardedLruCache := ops.foldl apply c

def total (c : ShardedLruCache) : Nat := ∑ i ∈ Finset.range c.count, (c.shard i).cap

open Classical in
/-- The bounds of the shards that some key is routed to. -/
noncomputable def usable (c : ShardedLruCache) : Nat :=
  ∑ i ∈ (Finset.range c.count).filter fun i => ∃ key, c.shardFor key = i, (c.shard i).cap

/-- The table keeps to its capacity, and all of it can be used. -/
structure CapacityLaw (capacity : Nat) : Prop where
  bounded : ∀ ops, ((new capacity).run ops).size ≤ max capacity 1
  usable : (new capacity).usable = max capacity 1
  filled : ∃ keys : List String, keys.Nodup ∧ keys.length = max capacity 1 ∧
    ∀ entry : String → CacheEntry, ∀ key ∈ keys,
      ((new capacity).run (keys.map fun k => .push k (entry k))).peek key = some (entry key)

/-! ### The bound -/

/-- No operation changes how many shards there are or how much each holds. -/
structure SameBounds (c c' : ShardedLruCache) : Prop where
  count : c'.count = c.count
  cap : ∀ i, (c'.shard i).cap = (c.shard i).cap

theorem sameBounds_setShard (c : ShardedLruCache) (i : Nat) {s : Lru String CacheEntry}
    (hcap : s.cap = (c.shard i).cap) : SameBounds c (c.setShard i s) := by
  refine ⟨rfl, fun j => ?_⟩
  change (Function.update c.shard i s j).cap = _
  by_cases hj : j = i
  · rw [hj, Function.update_self, hcap]
  · rw [Function.update_of_ne hj]

theorem sameBounds_apply (c : ShardedLruCache) (op : Op) : SameBounds c (c.apply op) := by
  cases op with
  | push key entry => exact sameBounds_setShard c _ (by simp)
  | get key => exact sameBounds_setShard c _ (by simp)
  | pop key => exact sameBounds_setShard c _ (by simp)
  | retain keep => exact ⟨rfl, fun _ => rfl⟩
  | clear => exact ⟨rfl, fun _ => rfl⟩

theorem sameBounds_run (c : ShardedLruCache) (ops : List Op) : SameBounds c (c.run ops) := by
  induction ops generalizing c with
  | nil => exact ⟨rfl, fun _ => rfl⟩
  | cons op ops ih =>
    have hstep := sameBounds_apply c op
    have hrest := ih (c.apply op)
    exact ⟨hrest.count.trans hstep.count, fun i => (hrest.cap i).trans (hstep.cap i)⟩

theorem SameBounds.total_eq {c c' : ShardedLruCache} (h : SameBounds c c') : c'.total = c.total := by
  rw [total, total, h.count]
  exact Finset.sum_congr rfl fun i _ => h.cap i

theorem size_le_total (c : ShardedLruCache) : c.size ≤ c.total := by
  have hsize : c.size = ∑ i ∈ Finset.range c.count, (c.shard i).size := rfl
  rw [hsize, total]
  apply Finset.sum_le_sum
  intro i _
  exact (c.shard i).size_le_cap

theorem count_pos (capacity : Nat) : 0 < (new capacity).count := by
  simp only [new, SHARDS]
  omega

theorem count_le (capacity : Nat) : (new capacity).count ≤ max capacity 1 := by
  simp only [new]
  omega

theorem new_cap (capacity i : Nat) : ((new capacity).shard i).cap =
    max capacity 1 / (new capacity).count + if i < max capacity 1 % (new capacity).count then 1 else 0 := by
  have hpos : 0 < max capacity 1 / (new capacity).count :=
    Nat.div_pos (count_le capacity) (count_pos capacity)
  change max (max capacity 1 / (new capacity).count + _) 1 = _
  exact Nat.max_eq_left (Nat.le_trans hpos (Nat.le_add_right _ _))

theorem total_new (capacity : Nat) : (new capacity).total = max capacity 1 := by
  have hlt := Nat.mod_lt (max capacity 1) (count_pos capacity)
  have hextra : ((Finset.range (new capacity).count).filter
      (· < max capacity 1 % (new capacity).count)) =
      Finset.range (max capacity 1 % (new capacity).count) := by
    ext i
    simp only [Finset.mem_filter, Finset.mem_range]
    omega
  rw [total, Finset.sum_congr rfl fun i _ => new_cap capacity i, Finset.sum_add_distrib,
    Finset.sum_const_nat fun _ _ => rfl, ← Finset.card_filter, hextra, Finset.card_range,
    Finset.card_range]
  exact Nat.div_add_mod (max capacity 1) (new capacity).count

theorem size_run_le (capacity : Nat) (ops : List Op) :
    ((new capacity).run ops).size ≤ max capacity 1 := by
  rw [← total_new, ← (sameBounds_run (new capacity) ops).total_eq]
  exact size_le_total _

/-! ### Filling the shards -/

theorem peek_push_of_room (c : ShardedLruCache) {key key' : String} (e : CacheEntry)
    (hroom : (c.shard (c.shardFor key)).size < (c.shard (c.shardFor key)).cap) (hne : key' ≠ key) :
    (c.push key e).2.peek key' = c.peek key' := by
  by_cases hshard : c.shardFor key' = c.shardFor key
  · rw [push, peek_setShard_self c key hshard, Lru.push_snd, peek, hshard]
    exact Lru.peek_put_of_room _ e hroom hne
  · exact peek_setShard_of_ne c key hshard _

theorem size_push_le (c : ShardedLruCache) (key : String) (e : CacheEntry) (i : Nat) :
    ((c.push key e).2.shard i).size ≤ (c.shard i).size + if c.shardFor key = i then 1 else 0 := by
  change (Function.update c.shard (c.shardFor key) _ i).size ≤ _
  by_cases hi : c.shardFor key = i
  · rw [← hi, Function.update_self, if_pos rfl, Lru.push_snd]
    exact Lru.size_put_le _ _ _
  · rw [Function.update_of_ne (Ne.symm hi), if_neg hi, Nat.add_zero]

/-- Entries that fit into the room of their shards are all kept, and push nothing else out. -/
theorem kept_of_room (entries : List (String × CacheEntry)) (c : ShardedLruCache)
    (hnodup : (entries.map Prod.fst).Nodup)
    (hroom : ∀ i, (c.shard i).size + (entries.map Prod.fst).countP (fun k => c.shardFor k = i) ≤
      (c.shard i).cap) :
    (∀ e ∈ entries, (c.run (entries.map fun e => .push e.1 e.2)).peek e.1 = some e.2) ∧
      ∀ key ∉ entries.map Prod.fst,
        (c.run (entries.map fun e => .push e.1 e.2)).peek key = c.peek key := by
  induction entries generalizing c with
  | nil => exact ⟨by simp, fun _ _ => rfl⟩
  | cons e entries ih =>
    rw [List.map_cons] at hnodup hroom
    obtain ⟨hk, hnodup⟩ := List.nodup_cons.mp hnodup
    have hbounds := sameBounds_apply c (.push e.1 e.2)
    have hroute : ∀ key, (c.push e.1 e.2).2.shardFor key = c.shardFor key := fun _ => rfl
    have hcount : ∀ i, (e.1 :: entries.map Prod.fst).countP (fun k => c.shardFor k = i) =
        (entries.map Prod.fst).countP (fun k => c.shardFor k = i) +
          if c.shardFor e.1 = i then 1 else 0 := by
      intro i
      simp only [List.countP_cons, decide_eq_true_eq]
    have hfits : (c.shard (c.shardFor e.1)).size < (c.shard (c.shardFor e.1)).cap := by
      have := hroom (c.shardFor e.1)
      rw [hcount, if_pos rfl] at this
      omega
    obtain ⟨hkept, hothers⟩ := ih (c.push e.1 e.2).2 hnodup (by
      intro i
      have hsize := size_push_le c e.1 e.2 i
      have hcap : ((c.push e.1 e.2).2.shard i).cap = (c.shard i).cap := hbounds.cap i
      have := hroom i
      rw [hcount] at this
      simp only [hroute]
      omega)
    refine ⟨fun e' he' => ?_, fun key hkey => ?_⟩
    · rcases List.mem_cons.mp he' with rfl | he'
      · exact (hothers _ hk).trans (peek_push_self c _ _)
      · exact hkept e' he'
    · have hne := List.ne_of_not_mem_cons hkey
      have hrest := hothers key (List.not_mem_of_not_mem_cons hkey)
      exact hrest.trans (peek_push_of_room c e.2 hfits hne)

/-! ### Which shards are reached -/

theorem shardFor_and_mask (c : ShardedLruCache) (key : String) :
    c.shardFor key &&& (c.count - 1) = c.shardFor key := by
  rw [shardFor, Nat.and_assoc, Nat.and_self]

/-- One byte takes the low four bits of the hash to low four bits. -/
private theorem low_bits_step (h : UInt64) (b : UInt8) :
    ((h ^^^ b.toUInt64) * 0x100000001b3).toNat % 16 = ((h.toNat % 16) ^^^ (b.toNat % 16)) * 3 % 16 := by
  have hxor : (h.toNat ^^^ b.toNat) % 16 = (h.toNat % 16) ^^^ (b.toNat % 16) :=
    @Nat.xor_mod_two_pow h.toNat b.toNat 4
  have hmul : ((h ^^^ b.toUInt64) * 0x100000001b3).toNat =
      (h.toNat ^^^ b.toNat) * 0x100000001b3 % 2 ^ 64 := by
    rw [UInt64.toNat_mul, UInt64.toNat_xor, UInt8.toNat_toUInt64]
    rfl
  rw [hmul, ← hxor]
  omega

private theorem exists_byte : ∀ s < 16, ∀ i < 16, ∃ x < 16, (s ^^^ x) * 3 % 16 = i := by
  decide

private theorem encode_letter : ∀ x < 16, ∃ b : UInt8,
    String.utf8EncodeChar (Char.ofNat (64 + x)) = [b] ∧ b.toNat % 16 = x := by
  intro x hx
  refine ⟨UInt8.ofNat (64 + x), ?_, ?_⟩
  · revert x
    decide
  · rw [UInt8.toNat_ofNat']
    omega

/-- Whatever the hash of the first letters, one more letter leads to any four low bits. -/
theorem exists_key (n : Nat) {i : Nat} (hi : i < 16) :
    ∃ key : String, key.toList.length = n + 1 ∧ (hash key).toNat % 16 = i := by
  let h := hash (String.ofList (List.replicate n 'a'))
  obtain ⟨x, hx, hlow⟩ := exists_byte (h.toNat % 16) (Nat.mod_lt _ (by decide)) i hi
  obtain ⟨b, hencode, hb⟩ := encode_letter x hx
  refine ⟨String.ofList (List.replicate n 'a' ++ [Char.ofNat (64 + x)]), by simp, ?_⟩
  have hhash : hash (String.ofList (List.replicate n 'a' ++ [Char.ofNat (64 + x)])) =
      (h ^^^ b.toUInt64) * 0x100000001b3 := by
    simp only [h, hash, String.toList_ofList, List.flatMap_append, List.flatMap_singleton, hencode,
      List.foldl_append, List.foldl_cons, List.foldl_nil]
  rw [hhash, low_bits_step, hb]
  exact hlow

private theorem isPowerOfTwo_of_mask : ∀ n ≤ 16, 0 < n → (∀ i < n, i &&& (n - 1) = i) →
    n.isPowerOfTwo := by
  intro n hn hpos hmask
  have hcases : n = 1 ∨ n = 2 ∨ n = 4 ∨ n = 8 ∨ n = 16 := by
    revert hpos hmask
    revert n
    decide
  rcases hcases with rfl | rfl | rfl | rfl | rfl
  · exact ⟨0, rfl⟩
  · exact ⟨1, rfl⟩
  · exact ⟨2, rfl⟩
  · exact ⟨3, rfl⟩
  · exact ⟨4, rfl⟩

theorem count_eq (capacity : Nat) : (new capacity).count = min SHARDS (max capacity 1) := rfl

/-- With a power of two of shards there are keys for each shard, one of each length. -/
theorem exists_key_of_shard {capacity : Nat} (hpower : (new capacity).count.isPowerOfTwo) (n : Nat)
    {i : Nat} (hi : i < (new capacity).count) :
    ∃ key : String, key.toList.length = n + 1 ∧ (new capacity).shardFor key = i := by
  obtain ⟨k, hk⟩ := hpower
  have hcount : (new capacity).count ≤ 16 := Nat.min_le_left _ _
  have hk4 : k ≤ 4 := by
    by_contra hlt
    have := Nat.pow_le_pow_right (show 0 < 2 by decide) (show 5 ≤ k by omega)
    omega
  obtain ⟨key, hlength, hlow⟩ := exists_key n (Nat.lt_of_lt_of_le hi hcount)
  refine ⟨key, hlength, ?_⟩
  rw [shardFor, hk, Nat.and_two_pow_sub_one_eq_mod]
  have hdvd : 2 ^ k ∣ 16 := Nat.pow_dvd_pow 2 hk4
  rw [← Nat.mod_mod_of_dvd _ hdvd, hlow]
  exact Nat.mod_eq_of_lt (hk ▸ hi)

open Classical in
theorem usable_eq_of_reached {capacity : Nat}
    (hreached : ∀ i < (new capacity).count, ∃ key, (new capacity).shardFor key = i) :
    (new capacity).usable = max capacity 1 := by
  rw [usable, Finset.filter_true_of_mem fun i hi => hreached i (Finset.mem_range.mp hi)]
  exact total_new capacity

open Classical in
/-- A shard that no key is routed to takes its part of the capacity away. -/
theorem usable_lt_of_unreached {capacity i : Nat} (hi : i < (new capacity).count)
    (hunreached : ∀ key, (new capacity).shardFor key ≠ i) :
    (new capacity).usable < max capacity 1 := by
  rw [← total_new, usable, total]
  refine Finset.sum_lt_sum_of_subset (Finset.filter_subset _ _) (Finset.mem_range.mpr hi) ?_
    ((new capacity).shard i).cap_pos fun _ _ _ => Nat.zero_le _
  intro hmem
  obtain ⟨key, hkey⟩ := (Finset.mem_filter.mp hmem).2
  exact hunreached key hkey

/-! ### A set of keys that fills the table -/

section

variable (capacity : Nat) (key : Nat → Nat → String)

/-- For each shard as many keys as it holds. -/
def filling : List String :=
  (List.range (new capacity).count).flatMap fun i =>
    (List.range ((new capacity).shard i).cap).map (key i)

theorem length_filling : (filling capacity key).length = max capacity 1 := by
  rw [filling, List.length_flatMap, ← total_new]
  simp only [List.length_map, List.length_range]
  rfl

variable {capacity key} (hlength : ∀ i n, i < (new capacity).count → (key i n).toList.length = n + 1)
  (hroute : ∀ i n, i < (new capacity).count → (new capacity).shardFor (key i n) = i)

include hlength hroute in
theorem nodup_filling : (filling capacity key).Nodup := by
  refine List.nodup_flatMap.mpr ⟨fun i hi => ?_, ?_⟩
  · refine List.Nodup.map_on (fun n _ n' _ h => ?_) List.nodup_range
    have hn := hlength i n (List.mem_range.mp hi)
    rw [h, hlength i n' (List.mem_range.mp hi)] at hn
    omega
  · refine List.nodup_range.imp_of_mem fun {i i'} hi hi' hne => ?_
    intro k hk hk'
    obtain ⟨n, -, rfl⟩ := List.mem_map.mp hk
    obtain ⟨n', -, h⟩ := List.mem_map.mp hk'
    have hshard := hroute i n (List.mem_range.mp hi)
    rw [← h, hroute i' n' (List.mem_range.mp hi')] at hshard
    exact hne hshard.symm

include hroute in
theorem count_filling (i : Nat) :
    (filling capacity key).countP (fun k => (new capacity).shardFor k = i) ≤
      ((new capacity).shard i).cap := by
  have hblock : ∀ j ∈ List.range (new capacity).count,
      ((List.range ((new capacity).shard j).cap).map (key j)).countP
        (fun k => (new capacity).shardFor k = i) =
      if j = i then ((new capacity).shard j).cap else 0 := by
    intro j hj
    rw [List.countP_map]
    by_cases hji : j = i
    · rw [if_pos hji, List.countP_eq_length.mpr, List.length_range]
      intro n _
      exact decide_eq_true ((hroute j n (List.mem_range.mp hj)).trans hji)
    · rw [if_neg hji, List.countP_eq_zero]
      intro n _ h
      exact hji ((hroute j n (List.mem_range.mp hj)).symm.trans (of_decide_eq_true h))
  rw [filling, List.countP_flatMap]
  refine Nat.le_trans (Nat.le_of_eq (congrArg List.sum (List.map_congr_left hblock))) ?_
  change ∑ j ∈ Finset.range _, _ ≤ _
  rw [Finset.sum_ite_eq']
  split
  · exact le_rfl
  · exact Nat.zero_le _

end

/-- For every configured capacity the table keeps to it in every run, and can be filled up to it, exactly if the number of shards is a power of two. -/
theorem capacityLaw_iff (capacity : Nat) :
    CapacityLaw capacity ↔ (min SHARDS (max capacity 1)).isPowerOfTwo := by
  rw [← count_eq]
  constructor
  · intro hlaw
    refine isPowerOfTwo_of_mask _ (Nat.min_le_left _ _) (count_pos capacity) fun i hi => ?_
    by_contra hmask
    have hlt := usable_lt_of_unreached hi fun key hkey => hmask (by
      rw [← hkey]
      exact shardFor_and_mask _ key)
    exact absurd hlaw.usable (Nat.ne_of_lt hlt)
  · intro hpower
    choose! key hlength hroute using fun (i n : Nat) (hi : i < (new capacity).count) =>
      exists_key_of_shard hpower n hi
    refine ⟨size_run_le capacity, usable_eq_of_reached fun i hi => ⟨key i 0, hroute i 0 hi⟩,
      filling capacity key, nodup_filling hlength hroute, length_filling capacity key, ?_⟩
    intro entry k hk
    have hkeys : ((filling capacity key).map fun k => (k, entry k)).map Prod.fst = filling capacity key := by
      rw [List.map_map]
      exact List.map_id _
    have hkept := (kept_of_room ((filling capacity key).map fun k => (k, entry k)) (new capacity)
      (by rw [hkeys]; exact nodup_filling hlength hroute) fun i => ?_).1
    · rw [List.map_map] at hkept
      exact hkept (k, entry k) (List.mem_map_of_mem hk)
    · have hempty : ((new capacity).shard i).size = 0 := rfl
      rw [hkeys, hempty, Nat.zero_add]
      exact count_filling hroute i

/-- Of three shards the mask reaches the first and the last. -/
theorem not_capacityLaw_three : ¬ CapacityLaw 3 := by
  intro hlaw
  have hlt := @usable_lt_of_unreached 3 1 (by decide) fun key hkey => by
    have hmask := shardFor_and_mask (new 3) key
    rw [hkey] at hmask
    exact absurd hmask (by decide)
  exact absurd hlaw.usable (Nat.ne_of_lt hlt)

end ShardedLruCache

end Lazydns
