import Mathlib.Data.List.AList

/-!
# Groups under keys

Items are collected in a map, one group for each key, and the map is searched for the first key whose group has a hit. A hash map is walked in any order, so what the search finds is determined only if all hits are under one key.
-/

namespace Grouped

variable {κ β ε : Type*}

section

variable [DecidableEq κ]

def add (key : ε → κ) (empty : β) (push : β → ε → β) (m : AList fun _ : κ => β) (e : ε) : AList fun _ : κ => β :=
  m.insert (key e) (push ((m.lookup (key e)).getD empty) e)

def collect (key : ε → κ) (empty : β) (push : β → ε → β) (es : List ε) : AList fun _ : κ => β :=
  es.foldl (add key empty push) ∅

/-- An order in which the map can be walked; `R` says how a group can look when the walk comes to it. -/
structure Walk (R : β → β → Prop) (m : AList fun _ : κ => β) (o : List (Σ _ : κ, β)) : Prop where
  keys : (o.map Sigma.fst).Perm m.keys
  groups : ∀ e ∈ o, ∃ b ∈ m.lookup e.1, R b e.2

end

def firstKey (hit : β → Bool) (o : List (Σ _ : κ, β)) : Option κ := (o.find? fun e => hit e.2).map Sigma.fst

/-- A group has a hit exactly if one of its items is one. -/
structure Hits (empty : β) (push : β → ε → β) (hit : β → Bool) (hits : ε → Bool) : Prop where
  empty : hit empty = false
  push : ∀ b e, hit (push b e) = (hit b || hits e)

variable {key : ε → κ} {empty : β} {push : β → ε → β} {hit : β → Bool} {hits : ε → Bool} {R : β → β → Prop}

theorem firstKey_eq_some {o : List (Σ _ : κ, β)} {k : κ} (h : firstKey hit o = some k) :
    ∃ e ∈ o, e.1 = k ∧ hit e.2 := by
  obtain ⟨e, hfind, hk⟩ := Option.map_eq_some_iff.mp h
  exact ⟨e, List.mem_of_find?_eq_some hfind, hk, by simpa using List.find?_some hfind⟩

theorem firstKey_ne_none {o : List (Σ _ : κ, β)} {e : Σ _ : κ, β} (he : e ∈ o) (hhit : hit e.2) :
    firstKey hit o ≠ none := by
  intro hnone
  have hfind := List.find?_eq_none.mp (Option.map_eq_none_iff.mp hnone) e he
  exact hfind hhit

/-! ### What the groups hold -/

variable [DecidableEq κ]

theorem exists_hit_add (h : Hits empty push hit hits) (m : AList fun _ : κ => β) (e : ε) (k : κ) :
    (∃ b ∈ (add key empty push m e).lookup k, hit b) ↔ (∃ b ∈ m.lookup k, hit b) ∨ k = key e ∧ hits e := by
  rw [add]
  by_cases hk : k = key e
  · subst hk
    rw [AList.lookup_insert]
    cases hgroup : m.lookup (key e) with
    | none => simp [h.push, h.empty]
    | some b => simp [h.push]
  · rw [AList.lookup_insert_ne hk]
    simp [hk]

theorem exists_hit_foldl (h : Hits empty push hit hits) (m : AList fun _ : κ => β) (es : List ε) (k : κ) :
    (∃ b ∈ (es.foldl (add key empty push) m).lookup k, hit b) ↔
      (∃ b ∈ m.lookup k, hit b) ∨ ∃ e ∈ es, k = key e ∧ hits e := by
  induction es generalizing m with
  | nil => simp
  | cons e es ih => rw [List.foldl_cons, ih, exists_hit_add h, List.exists_mem_cons_iff, or_assoc]

theorem exists_hit_collect (h : Hits empty push hit hits) (es : List ε) (k : κ) :
    (∃ b ∈ (collect key empty push es).lookup k, hit b) ↔ ∃ e ∈ es, k = key e ∧ hits e := by
  rw [collect, exists_hit_foldl h]
  simp

/-! ### Walks -/

theorem Walk.exists_hit {m : AList fun _ : κ => β} {o : List (Σ _ : κ, β)} (hwalk : Walk R m o)
    (hR : ∀ b b', R b b' → hit b' = hit b) {k : κ} (hfirst : firstKey hit o = some k) :
    ∃ b ∈ m.lookup k, hit b := by
  obtain ⟨e, he, rfl, hhit⟩ := firstKey_eq_some hfirst
  obtain ⟨b, hb, hsame⟩ := hwalk.groups e he
  exact ⟨b, hb, (hR b e.2 hsame).symm.trans hhit⟩

theorem Walk.firstKey_ne_none {m : AList fun _ : κ => β} {o : List (Σ _ : κ, β)} (hwalk : Walk R m o)
    (hR : ∀ b b', R b b' → hit b' = hit b) {k : κ} (hhit : ∃ b ∈ m.lookup k, hit b) : firstKey hit o ≠ none := by
  obtain ⟨b, hb, hhit⟩ := hhit
  have hk : k ∈ o.map Sigma.fst :=
    hwalk.keys.mem_iff.mpr (AList.lookup_isSome.mp (Option.isSome_of_mem hb))
  obtain ⟨e, he, rfl⟩ := List.mem_map.mp hk
  obtain ⟨b', hb', hsame⟩ := hwalk.groups e he
  obtain rfl : b' = b := Option.mem_unique hb' hb
  exact Grouped.firstKey_ne_none he ((hR b' e.2 hsame).trans hhit)

/-- Any entry of the map can come first on a walk. -/
theorem walk_insert (hrefl : ∀ b, R b b) {m : AList fun _ : κ => β} {k : κ} {b : β} (hb : b ∈ m.lookup k) :
    Walk R m (m.insert k b).entries where
  keys := by
    have hmem : k ∈ m.keys := AList.lookup_isSome.mp (Option.isSome_of_mem hb)
    change (m.insert k b).keys.Perm m.keys
    rw [AList.keys_insert]
    exact (List.perm_cons_erase hmem).symm
  groups := by
    intro e he
    have hlookup : e.2 ∈ (m.insert k b).lookup e.1 := AList.mem_lookup_iff.mpr he
    by_cases hk : e.1 = k
    · rw [hk, AList.lookup_insert] at hlookup
      rw [hk]
      exact ⟨b, hb, by rw [Option.mem_some_iff.mp hlookup]; exact hrefl _⟩
    · rw [AList.lookup_insert_ne hk] at hlookup
      exact ⟨e.2, hlookup, hrefl _⟩

theorem firstKey_insert {m : AList fun _ : κ => β} {k : κ} {b : β} (hhit : hit b) :
    firstKey hit (m.insert k b).entries = some k := by
  simp [firstKey, AList.entries_insert, hhit]

/-! ### Whether the search is determined -/

/-- Whatever the order of the items and of the walks, the search finds one key, exactly if all hits are under one. -/
theorem firstKey_determined_iff (h : Hits empty push hit hits) (hR : ∀ b b', R b b' → hit b' = hit b)
    (hrefl : ∀ b, R b b) (es : List ε) :
    (∀ es', es'.Perm es → ∀ o o', Walk R (collect key empty push es) o → Walk R (collect key empty push es') o' →
      firstKey hit o = firstKey hit o') ↔
      ∀ e ∈ es, ∀ e' ∈ es, hits e → hits e' → key e = key e' := by
  constructor
  · intro hdet e he e' he' hhit hhit'
    obtain ⟨b, hb, hbhit⟩ := (exists_hit_collect h es (key e)).mpr ⟨e, he, rfl, hhit⟩
    obtain ⟨b', hb', hbhit'⟩ := (exists_hit_collect h es (key e')).mpr ⟨e', he', rfl, hhit'⟩
    have hsame := hdet es (.refl es) _ _ (walk_insert hrefl hb) (walk_insert hrefl hb')
    rw [firstKey_insert hbhit, firstKey_insert hbhit'] at hsame
    exact Option.some.inj hsame
  · intro honly es' hperm o o' hwalk hwalk'
    have hone : ∀ k, (∃ e ∈ es', k = key e ∧ hits e) ↔ ∃ e ∈ es, k = key e ∧ hits e := by
      intro k
      simp only [hperm.mem_iff]
    cases hfirst : firstKey hit o with
    | none =>
      cases hfirst' : firstKey hit o' with
      | none => rfl
      | some k =>
        have hhit := hwalk'.exists_hit hR hfirst'
        rw [exists_hit_collect h, hone, ← exists_hit_collect h] at hhit
        exact absurd hfirst (hwalk.firstKey_ne_none hR hhit)
    | some k =>
      have hhit := (exists_hit_collect h es k).mp (hwalk.exists_hit hR hfirst)
      have hne := hwalk'.firstKey_ne_none hR ((exists_hit_collect h es' k).mpr ((hone k).mpr hhit))
      obtain ⟨k', hfirst'⟩ := Option.ne_none_iff_exists'.mp hne
      have hhit' := (hone k').mp ((exists_hit_collect h es' k').mp (hwalk'.exists_hit hR hfirst'))
      obtain ⟨e, he, rfl, hehit⟩ := hhit
      obtain ⟨e', he', rfl, hehit'⟩ := hhit'
      rw [hfirst', honly e he e' he' hehit hehit']

end Grouped
