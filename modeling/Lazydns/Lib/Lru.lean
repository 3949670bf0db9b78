import Mathlib.Data.List.AList

/-!
# Bounded tables with least-recently-used eviction

An `Lru` is an association list kept most recent first, of at most `cap` entries. That keys are distinct and that the bound holds are part of the type. A lookup either only peeks or also moves its entry to the front, a push replaces the entry of its key or makes room by dropping the last one. Mapping a function over the values commutes with every operation, so two tables that agree up to a view of their values keep agreeing.
-/

/-- A table of at most `cap` entries, most recently used first. -/
structure Lru (κ ν : Type) where
  cap : Nat
  table : AList fun _ : κ => ν
  cap_pos : 0 < cap
  bound : table.entries.length ≤ cap

namespace Lru

variable {κ ν μ : Type}

@[ext] theorem ext {c d : Lru κ ν} (hcap : c.cap = d.cap) (htable : c.table = d.table) : c = d := by
  cases c
  cases d
  congr

def empty (cap : Nat) (hcap : 0 < cap) : Lru κ ν where
  cap := cap
  table := ∅
  cap_pos := hcap
  bound := Nat.zero_le _

def size (c : Lru κ ν) : Nat := c.table.entries.length

def entries (c : Lru κ ν) : List (κ × ν) := c.table.entries.map fun e => (e.1, e.2)

def clear (c : Lru κ ν) : Lru κ ν := empty c.cap c.cap_pos

def dropOldest (c : Lru κ ν) : Lru κ ν where
  cap := c.cap
  table := ⟨c.table.entries.dropLast, c.table.nodupKeys.sublist (List.dropLast_sublist _)⟩
  cap_pos := c.cap_pos
  bound := Nat.le_trans (List.dropLast_sublist _).length_le c.bound

private theorem size_dropOldest_lt (c : Lru κ ν) : c.dropOldest.size < c.cap := by
  have hpos := c.cap_pos
  have hbound := c.bound
  simp only [size, dropOldest, List.length_dropLast]
  omega

/-- Keep the entries whose value passes a test, in their order. -/
def retain (c : Lru κ ν) (keep : ν → Bool) : Lru κ ν where
  cap := c.cap
  table := ⟨c.table.entries.filter fun e => keep e.2,
    c.table.nodupKeys.sublist List.filter_sublist⟩
  cap_pos := c.cap_pos
  bound := Nat.le_trans (List.length_filter_le _ _) c.bound

/-- Look at every value through `f`; keys and order stay. -/
def map (f : ν → μ) (c : Lru κ ν) : Lru κ μ where
  cap := c.cap
  table := ⟨c.table.entries.map fun e => ⟨e.1, f e.2⟩,
    List.NodupKeys.map₂ (fun _ => f) _ c.table.nodupKeys⟩
  cap_pos := c.cap_pos
  bound := by
    rw [List.length_map]
    exact c.bound

@[simp] theorem clear_cap (c : Lru κ ν) : c.clear.cap = c.cap := rfl

@[simp] theorem retain_cap (c : Lru κ ν) (keep : ν → Bool) : (c.retain keep).cap = c.cap := rfl

@[simp] theorem size_empty (cap : Nat) (hcap : 0 < cap) : (empty cap hcap : Lru κ ν).size = 0 := rfl

@[simp] theorem length_entries (c : Lru κ ν) : c.entries.length = c.size := List.length_map _

theorem nodup_entries (c : Lru κ ν) : (c.entries.map Prod.fst).Nodup := by
  rw [entries, List.map_map]
  exact c.table.nodupKeys

theorem size_le_cap (c : Lru κ ν) : c.size ≤ c.cap := c.bound

@[simp] theorem size_map (f : ν → μ) (c : Lru κ ν) : (c.map f).size = c.size := List.length_map _

theorem map_id (c : Lru κ ν) : c.map id = c := Lru.ext rfl (AList.ext (List.map_id _))

theorem map_dropOldest (f : ν → μ) (c : Lru κ ν) : (c.map f).dropOldest = c.dropOldest.map f :=
  Lru.ext rfl (AList.ext List.map_dropLast.symm)

theorem entries_retain (c : Lru κ ν) (keep : ν → Bool) :
    (c.retain keep).entries = c.entries.filter fun e => keep e.2 := by
  rw [entries, entries, List.filter_map]
  rfl

theorem map_unit_eq {c : Lru κ ν} {d : Lru κ μ} (hcap : c.cap = d.cap)
    (hkeys : c.entries.map Prod.fst = d.entries.map Prod.fst) :
    c.map (fun _ => ()) = d.map (fun _ => ()) := by
  refine Lru.ext hcap (AList.ext ?_)
  have hkeys' := congrArg (List.map fun k => (⟨k, ()⟩ : Sigma fun _ : κ => Unit)) hkeys
  rwa [entries, entries, List.map_map, List.map_map, List.map_map, List.map_map] at hkeys'

section

variable [DecidableEq κ]

/-! ### Operations -/

def peek (c : Lru κ ν) (k : κ) : Option ν := c.table.lookup k

def contains (c : Lru κ ν) (k : κ) : Bool := (c.peek k).isSome

private theorem length_insert_le (t : AList fun _ : κ => ν) (k : κ) (v : ν) :
    (t.insert k v).entries.length ≤ t.entries.length + 1 := by
  rw [AList.entries_insert, List.length_cons]
  exact Nat.succ_le_succ (List.kerase_sublist k t.entries).length_le

private theorem length_insert_of_mem {t : AList fun _ : κ => ν} {k : κ} (v : ν) (hk : k ∈ t) :
    (t.insert k v).entries.length = t.entries.length := by
  have hkeys : (t.insert k v).keys.length = t.keys.length := by
    rw [AList.keys_insert, List.length_cons, List.length_erase_of_mem (AList.mem_keys.mp hk)]
    have := List.length_pos_of_mem (AList.mem_keys.mp hk)
    omega
  simpa [AList.keys, List.keys] using hkeys

def putFirst (c : Lru κ ν) (k : κ) (v : ν) (h : k ∈ c.table ∨ c.size < c.cap) : Lru κ ν where
  cap := c.cap
  table := c.table.insert k v
  cap_pos := c.cap_pos
  bound := by
    rcases h with hmem | hroom
    · rw [length_insert_of_mem v hmem]
      exact c.bound
    · exact Nat.le_trans (length_insert_le c.table k v) hroom

/-- Set the value of a key and move it to the front. A full table without the key first drops its last entry. -/
def put (c : Lru κ ν) (k : κ) (v : ν) : Lru κ ν :=
  if h : k ∈ c.table ∨ c.size < c.cap then c.putFirst k v h
  else c.dropOldest.putFirst k v (.inr (size_dropOldest_lt c))

def get (c : Lru κ ν) (k : κ) : Option ν × Lru κ ν :=
  match c.peek k with
  | some v => (some v, c.put k v)
  | none => (none, c)

/-- `put`, also returning the entry that was replaced or dropped. -/
def push (c : Lru κ ν) (k : κ) (v : ν) : Option (κ × ν) × Lru κ ν :=
  match c.peek k with
  | some old => (some (k, old), c.put k v)
  | none =>
    (if c.size < c.cap then none else c.table.entries.getLast?.map fun e => (e.1, e.2), c.put k v)

def pop (c : Lru κ ν) (k : κ) : Lru κ ν where
  cap := c.cap
  table := c.table.erase k
  cap_pos := c.cap_pos
  bound := Nat.le_trans (List.kerase_sublist k c.table.entries).length_le c.bound

/-! ### Lookups after an operation -/

theorem peek_eq_none {c : Lru κ ν} {k : κ} : c.peek k = none ↔ k ∉ c.table := AList.lookup_eq_none

theorem mem_of_peek {c : Lru κ ν} {k : κ} {v : ν} (h : c.peek k = some v) : k ∈ c.table := by
  by_contra hk
  rw [peek_eq_none.mpr hk] at h
  cases h

theorem mem_entries {c : Lru κ ν} {k : κ} {v : ν} : (k, v) ∈ c.entries ↔ c.peek k = some v := by
  rw [peek, ← Option.mem_def, AList.mem_lookup_iff, entries, List.mem_map]
  constructor
  · rintro ⟨e, he, heq⟩
    cases heq
    exact he
  · exact fun h => ⟨_, h, rfl⟩

@[simp] theorem peek_empty (cap : Nat) (hcap : 0 < cap) (k : κ) :
    (empty cap hcap : Lru κ ν).peek k = none := AList.lookup_empty k

@[simp] theorem put_cap (c : Lru κ ν) (k : κ) (v : ν) : (c.put k v).cap = c.cap := by
  rw [put]
  split <;> rfl

@[simp] theorem pop_cap (c : Lru κ ν) (k : κ) : (c.pop k).cap = c.cap := rfl

theorem size_put_le (c : Lru κ ν) (k : κ) (v : ν) : (c.put k v).size ≤ c.size + 1 := by
  rw [put]
  split
  · exact length_insert_le c.table k v
  · apply Nat.le_trans (length_insert_le c.dropOldest.table k v)
    exact Nat.succ_le_succ (List.dropLast_sublist c.table.entries).length_le

@[simp] theorem push_snd (c : Lru κ ν) (k : κ) (v : ν) : (c.push k v).2 = c.put k v := by
  rw [push]
  cases c.peek k <;> rfl

@[simp] theorem get_cap (c : Lru κ ν) (k : κ) : (c.get k).2.cap = c.cap := by
  rw [get]
  split <;> simp

@[simp] theorem get_fst (c : Lru κ ν) (k : κ) : (c.get k).1 = c.peek k := by
  rw [get]
  cases c.peek k <;> rfl

theorem peek_put_self (c : Lru κ ν) (k : κ) (v : ν) : (c.put k v).peek k = some v := by
  rw [put]
  split
  · exact AList.lookup_insert _
  · exact AList.lookup_insert _

private theorem peek_dropOldest (c : Lru κ ν) {k : κ} {v : ν} (h : c.dropOldest.peek k = some v) :
    c.peek k = some v := by
  have hmem : (⟨k, v⟩ : Sigma fun _ : κ => ν) ∈ c.table.entries.dropLast := List.of_mem_dlookup h
  exact AList.mem_lookup_iff.mpr ((List.dropLast_sublist _).mem hmem)

/-- Setting one key leaves another as it was, unless it was the one dropped. -/
theorem peek_put_of_ne (c : Lru κ ν) {k k' : κ} (v : ν) (hne : k' ≠ k) :
    (c.put k v).peek k' = c.peek k' ∨ (c.put k v).peek k' = none := by
  rw [put]
  split
  · exact .inl (AList.lookup_insert_ne hne)
  · have hlookup : ∀ h, (c.dropOldest.putFirst k v h).peek k' = c.dropOldest.peek k' :=
      fun _ => AList.lookup_insert_ne hne
    rw [hlookup]
    cases hold : c.dropOldest.peek k' with
    | none => exact .inr rfl
    | some old => exact .inl (peek_dropOldest c hold).symm

theorem peek_put_of_room (c : Lru κ ν) {k k' : κ} (v : ν) (hroom : c.size < c.cap) (hne : k' ≠ k) :
    (c.put k v).peek k' = c.peek k' := by
  rw [put, dif_pos (.inr hroom)]
  exact AList.lookup_insert_ne hne

theorem peek_put_of_mem (c : Lru κ ν) {k k' : κ} (v : ν) (hk : k ∈ c.table) (hne : k' ≠ k) :
    (c.put k v).peek k' = c.peek k' := by
  rw [put, dif_pos (.inl hk)]
  exact AList.lookup_insert_ne hne

@[simp] theorem peek_get (c : Lru κ ν) (k k' : κ) : (c.get k).2.peek k' = c.peek k' := by
  rw [get]
  cases hk : c.peek k with
  | none => rfl
  | some v =>
    by_cases hne : k' = k
    · rw [hne, hk]
      exact peek_put_self c k v
    · exact peek_put_of_mem c v (mem_of_peek hk) hne

@[simp] theorem peek_pop_self (c : Lru κ ν) (k : κ) : (c.pop k).peek k = none :=
  AList.lookup_erase k c.table

theorem peek_pop_of_ne (c : Lru κ ν) {k k' : κ} (hne : k' ≠ k) : (c.pop k).peek k' = c.peek k' :=
  AList.lookup_erase_ne hne

theorem peek_retain (c : Lru κ ν) (keep : ν → Bool) (k : κ) :
    (c.retain keep).peek k = (c.peek k).filter keep := by
  cases hk : c.peek k with
  | none =>
    rw [peek_eq_none] at hk
    refine peek_eq_none.mpr fun hmem => hk ?_
    obtain ⟨v, hv⟩ := List.exists_of_mem_keys hmem
    exact List.mem_keys_of_mem (List.mem_of_mem_filter hv)
  | some v =>
    have hmem : (⟨k, v⟩ : Sigma fun _ : κ => ν) ∈ c.table.entries := List.of_mem_dlookup hk
    by_cases hkeep : keep v = true
    · rw [Option.filter_some, if_pos hkeep]
      exact AList.mem_lookup_iff.mpr (List.mem_filter.mpr ⟨hmem, hkeep⟩)
    · rw [Option.filter_some, if_neg hkeep]
      refine peek_eq_none.mpr fun hin => ?_
      obtain ⟨v', hv'⟩ := List.exists_of_mem_keys hin
      have hv := List.mem_filter.mp hv'
      exact hkeep (c.table.nodupKeys.eq_of_mk_mem hmem hv.1 ▸ hv.2)

/-! ### The order after pushes -/

theorem mem_put {c : Lru κ ν} {k k' : κ} {v : ν} (h : k' ∈ (c.put k v).table) : k' = k ∨ k' ∈ c.table := by
  by_contra hnot
  rw [not_or] at hnot
  refine peek_eq_none.mp ?_ h
  rcases peek_put_of_ne c v hnot.1 with heq | hnone
  · rw [heq, peek_eq_none]
    exact hnot.2
  · exact hnone

theorem entries_put {c : Lru κ ν} {k : κ} (v : ν) (hk : k ∉ c.table) :
    (c.put k v).entries = ((k, v) :: c.entries).take c.cap := by
  have hpos := c.cap_pos
  have hbound : c.entries.length ≤ c.cap := Nat.le_trans (Nat.le_of_eq (length_entries c)) c.size_le_cap
  have hfirst : ∀ (d : Lru κ ν) h, k ∉ d.table → (d.putFirst k v h).entries = (k, v) :: d.entries := by
    intro d h hd
    have herase : d.table.entries.kerase k = d.table.entries :=
      List.kerase_of_notMem_keys hd
    change ((d.table.insert k v).entries.map fun e => (e.1, e.2)) = _
    rw [AList.entries_insert, herase]
    rfl
  by_cases hroom : c.size < c.cap
  · rw [put, dif_pos (.inr hroom), hfirst c _ hk, List.take_of_length_le]
    rw [List.length_cons, length_entries]
    exact hroom
  · have hdrop : k ∉ c.dropOldest.table := fun hmem =>
      hk (List.Sublist.subset ((List.dropLast_sublist c.table.entries).map Sigma.fst) hmem)
    have hlast : c.dropOldest.entries = c.entries.take (c.cap - 1) := by
      have hsize : c.entries.length = c.cap :=
        Nat.le_antisymm hbound (by rw [length_entries]; omega)
      change (c.table.entries.dropLast.map fun e => (e.1, e.2)) = _
      rw [List.map_dropLast, ← entries, List.dropLast_eq_take, hsize]
    rw [put, dif_neg (not_or.mpr ⟨hk, hroom⟩), hfirst _ _ hdrop, hlast]
    obtain ⟨n, hn⟩ := Nat.exists_eq_add_of_lt hpos
    rw [hn, Nat.zero_add, List.take_succ_cons, Nat.add_sub_cancel]

theorem entries_put_eq (c : Lru κ ν) (k : κ) (v : ν) :
    (c.put k v).entries = ((k, v) :: c.entries.eraseP fun e => e.1 = k).take c.cap := by
  by_cases hk : k ∈ c.table
  · have herase : (c.put k v).entries = (k, v) :: c.entries.eraseP fun e => e.1 = k := by
      rw [put, dif_pos (.inl hk)]
      change ((c.table.insert k v).entries.map fun e => (e.1, e.2)) = _
      rw [AList.entries_insert, List.map_cons, List.kerase, entries, List.eraseP_map]
      simp only [Function.comp_def, eq_comm]
    have hbound := (c.put k v).size_le_cap
    rw [← length_entries, put_cap, herase] at hbound
    rw [herase, List.take_of_length_le hbound]
  · rw [entries_put v hk, List.eraseP_of_forall_not]
    intro e he
    rw [decide_eq_true_iff]
    intro heq
    exact hk (heq ▸ mem_of_peek (mem_entries.mp he))

theorem take_cons_eraseP {α : Type} (p : α → Bool) (a : α) (l : List α) (n : Nat) :
    (a :: (l.take n).eraseP p).take n = (a :: l.eraseP p).take n := by
  have herase : ∀ m, ((l.take (m + 1)).eraseP p).take m = (l.eraseP p).take m := by
    induction l with
    | nil => intro m; rw [List.take_nil]
    | cons b l ih =>
      intro m
      rw [List.take_succ_cons, List.eraseP_cons, List.eraseP_cons]
      by_cases hb : p b = true
      · rw [hb, cond_true, cond_true, List.take_take, Nat.min_self]
      · rw [Bool.not_eq_true] at hb
        rw [hb, cond_false, cond_false]
        cases m with
        | zero => rfl
        | succ m => rw [List.take_succ_cons, List.take_succ_cons, ih m]
  cases n with
  | zero => rfl
  | succ m => rw [List.take_succ_cons, List.take_succ_cons, herase m]

/-- After pushes of new keys the table holds the last of them, the last first. -/
theorem entries_foldl_put {c : Lru κ ν} {l : List (κ × ν)} (hnodup : (l.map Prod.fst).Nodup)
    (hnew : ∀ e ∈ l, e.1 ∉ c.table) :
    (l.foldl (fun c e => c.put e.1 e.2) c).entries = (l.reverse ++ c.entries).take c.cap := by
  induction l generalizing c with
  | nil =>
    rw [List.foldl_nil, List.reverse_nil, List.nil_append, List.take_of_length_le]
    exact Nat.le_trans (Nat.le_of_eq (length_entries c)) c.size_le_cap
  | cons e l ih =>
    obtain ⟨hfirst, hrest⟩ := List.nodup_cons.mp hnodup
    have hnew' : ∀ e' ∈ l, e'.1 ∉ (c.put e.1 e.2).table := by
      intro e' he' hmem
      rcases mem_put hmem with heq | hold
      · exact hfirst (heq ▸ List.mem_map_of_mem he')
      · exact hnew e' (List.mem_cons_of_mem _ he') hold
    rw [List.foldl_cons, ih hrest hnew', entries_put _ (hnew e List.mem_cons_self), put_cap,
      List.reverse_cons, List.append_assoc, List.take_append, List.take_append, List.take_take,
      Nat.min_eq_left (Nat.sub_le _ _)]
    rfl

/-! ### Values through a view -/

section map

variable (f : ν → μ)

@[simp] theorem peek_map (c : Lru κ ν) (k : κ) : (c.map f).peek k = (c.peek k).map f :=
  List.dlookup_map₂ (f := fun _ => f) k

theorem mem_map {c : Lru κ ν} {k : κ} : k ∈ (c.map f).table ↔ k ∈ c.table := by
  rw [← not_iff_not, ← peek_eq_none, ← peek_eq_none, peek_map, Option.map_eq_none_iff]

private theorem map_kerase (l : List (Sigma fun _ : κ => ν)) (k : κ) :
    (l.map fun e => (⟨e.1, f e.2⟩ : Sigma fun _ : κ => μ)).kerase k =
      (l.kerase k).map fun e => ⟨e.1, f e.2⟩ := by
  induction l with
  | nil => rfl
  | cons e l ih =>
    by_cases hk : k = e.1
    · rw [List.kerase_cons_eq hk]
      exact List.kerase_cons_eq hk
    · rw [List.kerase_cons_ne hk, List.map_cons, List.map_cons, ← ih]
      exact List.kerase_cons_ne hk

private theorem map_insert (c : Lru κ ν) (k : κ) (v : ν) :
    (c.map f).table.insert k (f v) =
      ⟨(c.table.insert k v).entries.map fun e => ⟨e.1, f e.2⟩,
        List.NodupKeys.map₂ (fun _ => f) _ (c.table.insert k v).nodupKeys⟩ := by
  apply AList.ext
  rw [AList.entries_insert]
  change _ = List.map _ _
  rw [AList.entries_insert, List.map_cons]
  exact congrArg _ (map_kerase f c.table.entries k)

@[simp] theorem map_put (c : Lru κ ν) (k : κ) (v : ν) : (c.map f).put k (f v) = (c.put k v).map f := by
  rw [put, put]
  by_cases h : k ∈ c.table ∨ c.size < c.cap
  · have h' : k ∈ (c.map f).table ∨ (c.map f).size < (c.map f).cap := by
      rwa [mem_map, size_map]
    rw [dif_pos h, dif_pos h']
    exact Lru.ext rfl (map_insert f c k v)
  · have h' : ¬ (k ∈ (c.map f).table ∨ (c.map f).size < (c.map f).cap) := by
      rwa [mem_map, size_map]
    rw [dif_neg h, dif_neg h']
    refine Lru.ext rfl ?_
    change (c.map f).dropOldest.table.insert k (f v) = _
    rw [map_dropOldest]
    exact map_insert f c.dropOldest k v

@[simp] theorem map_get (c : Lru κ ν) (k : κ) : ((c.map f).get k).2 = (c.get k).2.map f := by
  rw [get, get, peek_map]
  cases c.peek k with
  | none => rfl
  | some v => exact map_put f c k v

@[simp] theorem map_pop (c : Lru κ ν) (k : κ) : (c.map f).pop k = (c.pop k).map f :=
  Lru.ext rfl (AList.ext (map_kerase f c.table.entries k))

@[simp] theorem contains_map (c : Lru κ ν) (k : κ) : (c.map f).contains k = c.contains k := by
  rw [contains, contains, peek_map, Option.isSome_map]

/-- A push drops or replaces an entry of the same key on both sides of a view. -/
@[simp] theorem push_fst_map (c : Lru κ ν) (k : κ) (v : ν) :
    ((c.map f).push k (f v)).1.map Prod.fst = (c.push k v).1.map Prod.fst := by
  rw [push, push, peek_map, size_map]
  cases c.peek k with
  | some old => rfl
  | none =>
    change (if c.size < c.cap then none else _ : Option (κ × μ)).map Prod.fst = _
    by_cases hroom : c.size < c.cap
    · simp only [if_pos hroom, Option.map_none]
    · simp only [if_neg hroom]
      change Option.map _ (Option.map _ (List.getLast? (List.map _ _))) = _
      rw [List.getLast?_map, Option.map_map, Option.map_map, Option.map_map]
      rfl

end map

end

end Lru
