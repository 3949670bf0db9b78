import Lazydns.Lib.Machine
import Lazydns.Lib.Ranked

/-!
# The most frequent keys

`TopN` counts how often each key occurs and drops keys when it holds too many. The entries of the map are a list, in the order in which the map is gone through; no two have the same key. Additions wrap around at 64 bits, as does the number of the keys to keep.

Which of the keys with the same count `top` returns depends on the order of the map and on the sorting. `IsTop` is what it may return.
-/

namespace Lazydns

structure TimestampedCount where
  count : UInt64
  firstSeen : Nat
  lastUpdated : Nat
  deriving DecidableEq, Repr

structure TopN (K : Type) where
  n : UInt64
  counts : List (K × TimestampedCount)
  maxItems : UInt64
  nodup : (counts.map Prod.fst).Nodup

namespace TopN

variable {K : Type}

def withMaxItems (n maxItems : UInt64) : TopN K := ⟨n, [], maxItems, List.nodup_nil⟩

def new (n : UInt64) : TopN K := withMaxItems n (n * 10)

/-! ### Pruning -/

def countValues (counts : List (K × TimestampedCount)) : List Nat :=
  Ranked.descending (counts.map fun entry => entry.2.count.toNat)

def pruneLocked (t : TopN K) : TopN K :=
  if t.counts.length ≤ (t.n * 2).toNat then t
  else
    match (countValues t.counts)[(t.n * 2).toNat]? with
    | some threshold =>
      { t with
        counts := t.counts.filter fun entry => threshold < entry.2.count.toNat
        nodup := t.nodup.sublist (List.filter_sublist.map Prod.fst) }
    | none => t

/-- How `add` and `merge` end. -/
def prune (t : TopN K) : TopN K := if t.maxItems.toNat < t.counts.length then t.pruneLocked else t

/-! ### What is returned -/

def items (t : TopN K) : List (K × UInt64) := t.counts.map fun entry => (entry.1, entry.2.count)

/-- The first of all items in some order with the larger counts in front. -/
def IsTop (t : TopN K) (top : List (K × UInt64)) : Prop :=
  ∃ all : List (K × UInt64), all.Perm t.items ∧ all.Pairwise (fun item item' => item'.2 ≤ item.2) ∧
    top = all.take t.n.toNat

def top (t : TopN K) : List (K × UInt64) :=
  (t.items.insertionSort fun item item' => item'.2.toNat ≤ item.2.toNat).take t.n.toNat

/-- What `top` sorts out is one of the lists it may return. -/
theorem isTop_top (t : TopN K) : t.IsTop t.top := by
  have htotal : Std.Total fun item item' : K × UInt64 => item'.2.toNat ≤ item.2.toNat :=
    ⟨fun _ _ => Nat.le_total _ _⟩
  have htrans : IsTrans (K × UInt64) fun item item' => item'.2.toNat ≤ item.2.toNat :=
    ⟨fun _ _ _ hle hle' => Nat.le_trans hle' hle⟩
  refine ⟨_, List.perm_insertionSort _ t.items, ?_, rfl⟩
  exact (List.pairwise_insertionSort _ t.items).imp fun hle => UInt64.le_iff_toNat_le.mpr hle

/-! ### Counting -/

variable [DecidableEq K]

/-- `entry(key).and_modify(modify).or_insert_with(fresh)`. -/
def entry (key : K) (modify : TimestampedCount → TimestampedCount) (fresh : TimestampedCount) :
    List (K × TimestampedCount) → List (K × TimestampedCount)
  | [] => [(key, fresh)]
  | (key', value) :: counts =>
    if key' = key then (key', modify value) :: counts else (key', value) :: entry key modify fresh counts

theorem keys_entry (key : K) (modify : TimestampedCount → TimestampedCount) (fresh : TimestampedCount)
    (counts : List (K × TimestampedCount)) :
    (entry key modify fresh counts).map Prod.fst =
      if key ∈ counts.map Prod.fst then counts.map Prod.fst else counts.map Prod.fst ++ [key] := by
  induction counts with
  | nil => rfl
  | cons first counts ih =>
    obtain ⟨key', value⟩ := first
    rw [entry]
    by_cases hkey : key' = key
    · simp [hkey]
    · rw [if_neg hkey, List.map_cons, List.map_cons, ih]
      simp only [List.mem_cons, Ne.symm hkey, false_or]
      split <;> rfl

theorem nodup_entry {counts : List (K × TimestampedCount)} (h : (counts.map Prod.fst).Nodup) (key : K)
    (modify : TimestampedCount → TimestampedCount) (fresh : TimestampedCount) :
    ((entry key modify fresh counts).map Prod.fst).Nodup := by
  rw [keys_entry]
  split
  · exact h
  · rename_i hnew
    exact List.nodup_append.mpr ⟨h, List.nodup_singleton key, by grind⟩

/-- `add` before it prunes. -/
def counted (t : TopN K) (key : K) (count : UInt64) (now : Nat) : TopN K where
  n := t.n
  counts :=
    entry key (fun entry => { entry with count := entry.count + count, lastUpdated := now }) ⟨count, now, now⟩ t.counts
  maxItems := t.maxItems
  nodup := nodup_entry t.nodup key _ _

/-- One round of the loop of `merge`. -/
def mergeEntry (t : TopN K) (other : K × TimestampedCount) : TopN K where
  n := t.n
  counts := entry other.1 (fun entry => { entry with count := entry.count + other.2.count }) other.2 t.counts
  maxItems := t.maxItems
  nodup := nodup_entry t.nodup other.1 _ _

/-- `merge` before it prunes. -/
def merged (t other : TopN K) : TopN K := other.counts.foldl mergeEntry t

def add (t : TopN K) (key : K) (count : UInt64) (now : Nat) : TopN K := (t.counted key count now).prune

def increment (t : TopN K) (key : K) (now : Nat) : TopN K := t.add key 1 now

/-- Merging a tracker with itself waits for its own lock forever. -/
def merge (t other : TopN K) : TopN K := (t.merged other).prune

/-! ### Runs -/

inductive Event (K : Type) where
  | add (key : K) (count : UInt64) (now : Nat)
  | merge (other : TopN K)

/-- What is pruned at the end of the call. -/
def before (t : TopN K) : Event K → TopN K
  | .add key count now => t.counted key count now
  | .merge other => t.merged other

def step (t : TopN K) : Event K → Option (TopN K)
  | .add key count now => some (t.add key count now)
  | .merge other => some (t.merge other)

variable (K) in
def machine : Machine (TopN K) (Event K) := ⟨step⟩

end TopN

end Lazydns
