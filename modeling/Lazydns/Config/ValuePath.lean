import Lazydns.Config.Override

/-!
# Paths and what they lead to

Two values are the same if every path leads to the same place in both; the order of the entries under texts does not matter, as it does not for the equality of the YAML library, and the entries under other keys, to which no path leads, are taken as they are. What is written at a path is found there, and what is written at two paths comes out the same in either order exactly if the paths part at two keys or two indices, or the value at the shorter one has the other value in its place.
-/

namespace Lazydns

namespace Value

variable {v v' w x t t' : Value} {path path' : List Segment}

/-! ### Following a path -/

def child : Segment → Value → Option Value
  | .key k, v => getKey k v.entries
  | .index i, v => v.items[i]?

def getPath : List Segment → Value → Option Value
  | [], v => some v
  | s :: path, v => (child s v).bind (getPath path)

theorem getPath_append (path path' : List Segment) (v : Value) :
    getPath (path ++ path') v = (getPath path v).bind (getPath path') := by
  induction path generalizing v with
  | nil => rfl
  | cons s path ih =>
    rw [List.cons_append, getPath, getPath, Option.bind_assoc]
    exact Option.bind_congr fun c _ => ih c

/-! ### Entries of a mapping -/

theorem getKey_insertKey (key key' : String) (value : Value) (entries : List (Value × Value)) :
    getKey key' (insertKey key value entries) = if key' = key then some value else getKey key' entries := by
  induction entries with
  | nil =>
    rw [insertKey, getKey_cons_string]
    simp only [eq_comm]
  | cons e entries ih =>
    obtain ⟨k, v⟩ := e
    cases k with
    | string k =>
      rw [insertKey]
      by_cases hk : k = key
      · subst hk
        rw [if_pos rfl, getKey_cons_string, getKey_cons_string]
        by_cases hkey : key' = k
        · rw [if_pos hkey.symm, if_pos hkey]
        · rw [if_neg (Ne.symm hkey), if_neg hkey, if_neg (Ne.symm hkey)]
      · rw [if_neg hk, getKey_cons_string, getKey_cons_string, ih]
        by_cases hkey : key' = key
        · subst hkey
          rw [if_neg hk, if_pos rfl, if_pos rfl]
        · rw [if_neg hkey, if_neg hkey]
    | _ => exact ih

theorem insertKey_insertKey (key : String) (value value' : Value) (entries : List (Value × Value)) :
    insertKey key value (insertKey key value' entries) = insertKey key value entries := by
  have hpos : ∀ (v : Value) (entries : List (Value × Value)),
      insertKey key value ((string key, v) :: entries) = (string key, value) :: entries := by
    intro v entries
    rw [insertKey, if_pos rfl]
  induction entries with
  | nil => exact hpos value' []
  | cons e entries ih =>
    obtain ⟨k, v⟩ := e
    cases k with
    | string k =>
      by_cases hk : k = key
      · subst hk
        rw [hpos, insertKey, if_pos rfl, hpos]
      · rw [insertKey, if_neg hk, insertKey, if_neg hk, insertKey, if_neg hk, ih]
    | _ => exact congrArg (List.cons _) ih

theorem insertKey_of_getKey {key : String} {value : Value} {entries : List (Value × Value)}
    (h : getKey key entries = some value) : insertKey key value entries = entries := by
  induction entries with
  | nil => cases h
  | cons e entries ih =>
    obtain ⟨k, v⟩ := e
    cases k with
    | string k =>
      rw [getKey_cons_string] at h
      rw [insertKey]
      by_cases hk : k = key
      · rw [if_pos hk] at h ⊢
        rw [Option.some.inj h]
      · rw [if_neg hk] at h ⊢
        rw [ih h]
    | _ => exact congrArg (List.cons _) (ih h)

/-- The entries whose keys are no strings; no path leads to them. -/
def rest (v : Value) : List (Value × Value) :=
  v.entries.filter fun e =>
    match e.1 with
    | string _ => false
    | _ => true

theorem rest_insertKey (key : String) (value : Value) (entries : List (Value × Value)) :
    rest (mapping (insertKey key value entries)) = rest (mapping entries) := by
  induction entries with
  | nil => rfl
  | cons e entries ih =>
    obtain ⟨k, v⟩ := e
    cases k with
    | string k =>
      rw [insertKey]
      by_cases hk : k = key
      · rw [if_pos hk]
        rfl
      · rw [if_neg hk]
        exact ih
    | _ => exact congrArg (List.cons _) ih

/-! ### Writing at a path -/

theorem setPath_container (value : Value) (path : List Segment) :
    setPath value path (container path) = setPath value path .null := by
  cases path with
  | nil => rfl
  | cons s path => cases s <;> rfl

theorem setPath_orContainer (value : Value) (path : List Segment) (cur : Value) :
    setPath value path (orContainer path cur) = setPath value path cur := by
  cases cur with
  | null => exact setPath_container value path
  | _ => rfl

theorem setPath_getD_container (value : Value) (path : List Segment) (cur : Option Value) :
    setPath value path (cur.getD (container path)) = setPath value path (cur.getD .null) := by
  cases cur with
  | none => exact setPath_container value path
  | some cur => rfl

theorem child_key_setPath (value : Value) (k : String) (path : List Segment) (cur : Value) (k' : String) :
    child (.key k') (setPath value (.key k :: path) cur) =
      if k' = k then some (setPath value path ((child (.key k) cur).getD .null)) else child (.key k') cur := by
  rw [setPath, setPath_getD_container]
  exact getKey_insertKey k k' _ _

theorem length_resize (i : Nat) (items : List Value) :
    (resize (max (i + 1) items.length) items).length = max (i + 1) items.length := by
  rw [resize, List.length_append, List.length_replicate]
  omega

theorem getElem?_resize (i j : Nat) (items : List Value) :
    (resize (max (i + 1) items.length) items)[j]? =
      if j < max (i + 1) items.length then some (items[j]?.getD .null) else none := by
  rw [resize, List.getElem?_append]
  by_cases hj : j < items.length
  · rw [if_pos hj, if_pos (lt_max_of_lt_right hj), List.getElem?_eq_getElem hj, Option.getD_some]
  · rw [if_neg hj, List.getElem?_replicate, List.getElem?_eq_none (Nat.le_of_not_lt hj), Option.getD_none]
    exact if_congr (by omega) rfl rfl

theorem resize_of_lt {i : Nat} {items : List Value} (hi : i < items.length) :
    resize (max (i + 1) items.length) items = items := by
  rw [resize, max_eq_right hi, Nat.sub_self]
  exact List.append_nil items

theorem getD_resize (i : Nat) (items : List Value) :
    (resize (max (i + 1) items.length) items).getD i .null = items[i]?.getD .null := by
  rw [List.getD_eq_getElem?_getD, getElem?_resize, if_pos (lt_max_of_lt_left (Nat.lt_succ_self i)), Option.getD_some]

theorem child_index_setPath (value : Value) (i : Nat) (path : List Segment) (cur : Value) (j : Nat) :
    child (.index j) (setPath value (.index i :: path) cur) =
      if j = i then some (setPath value path ((child (.index i) cur).getD .null))
      else if j < max (i + 1) cur.items.length then some ((child (.index j) cur).getD .null) else none := by
  have hi : i < max (i + 1) cur.items.length := lt_max_of_lt_left (Nat.lt_succ_self i)
  rw [setPath, setPath_orContainer]
  change (List.set _ i _)[j]? = _
  rw [getD_resize, List.getElem?_set]
  by_cases hj : i = j
  · subst hj
    rw [if_pos rfl, if_pos rfl, if_pos (by rwa [length_resize])]
    rfl
  · rw [if_neg hj, if_neg (Ne.symm hj), getElem?_resize]
    rfl

theorem child_setPath_self (value : Value) (s : Segment) (path : List Segment) (cur : Value) :
    child s (setPath value (s :: path) cur) = some (setPath value path ((child s cur).getD .null)) := by
  cases s with
  | key k => rw [child_key_setPath, if_pos rfl]
  | index i => rw [child_index_setPath, if_pos rfl]

theorem setPath_cons (value : Value) (s : Segment) (path : List Segment) (cur : Value) :
    setPath value (s :: path) cur = setPath (setPath value path ((child s cur).getD .null)) [s] cur := by
  cases s with
  | key k =>
    rw [setPath, setPath, setPath_getD_container]
    rfl
  | index i =>
    rw [setPath, setPath, setPath_orContainer, getD_resize]
    rfl

theorem setPath_overwrite (value value' : Value) (s : Segment) (cur : Value) :
    setPath value [s] (setPath value' [s] cur) = setPath value [s] cur := by
  cases s with
  | key k => exact congrArg mapping (insertKey_insertKey k value value' cur.entries)
  | index i =>
    have hself : ∀ items : List Value, i < items.length →
        setPath value [.index i] (sequence items) = sequence (items.set i value) := by
      intro items hi
      change sequence ((resize (max (i + 1) items.length) items).set i value) = _
      rw [resize_of_lt hi]
    change setPath value [.index i] (sequence ((resize (max (i + 1) cur.items.length) cur.items).set i value')) =
      sequence ((resize (max (i + 1) cur.items.length) cur.items).set i value)
    rw [hself _ (by rw [List.length_set, length_resize]; exact lt_max_of_lt_left (Nat.lt_succ_self i)), List.set_set]

theorem setPath_cons_setPath_cons (x y : Value) (s : Segment) (path path' : List Segment) (cur : Value) :
    setPath y (s :: path') (setPath x (s :: path) cur) =
      setPath (setPath y path' (setPath x path ((child s cur).getD .null))) [s] cur := by
  rw [setPath_cons y, child_setPath_self, setPath_cons x, setPath_overwrite, Option.getD_some]

theorem getPath_setPath (value : Value) (path : List Segment) (cur : Value) :
    getPath path (setPath value path cur) = some value := by
  induction path generalizing cur with
  | nil => rfl
  | cons s path ih =>
    rw [getPath, child_setPath_self]
    exact ih _

theorem setPath_eq_self_iff : setPath x path v = v ↔ getPath path v = some x := by
  refine ⟨fun h => h ▸ getPath_setPath x path v, fun h => ?_⟩
  induction path generalizing v with
  | nil => exact (Option.some.inj h).symm
  | cons s path ih =>
    obtain ⟨c, hc, hpath⟩ := Option.bind_eq_some_iff.mp h
    have hself := ih hpath
    cases s with
    | key k =>
      cases v with
      | mapping entries =>
        rw [setPath, setPath_getD_container, show getKey k (mapping entries).entries = some c from hc, Option.getD_some,
          hself]
        exact congrArg mapping (insertKey_of_getKey hc)
      | _ => cases hc
    | index i =>
      cases v with
      | sequence items =>
        obtain ⟨hi, hget⟩ := List.getElem?_eq_some_iff.mp hc
        change i < items.length at hi
        rw [setPath, setPath_orContainer]
        change sequence ((resize (max (i + 1) items.length) items).set i
          (setPath x path ((resize (max (i + 1) items.length) items).getD i null))) = _
        rw [resize_of_lt hi, List.getD_eq_getElem?_getD, show items[i]? = some c from hc, Option.getD_some, hself, ← hget]
        exact congrArg sequence (List.set_getElem_self hi)
      | _ => cases hc

theorem sizeOf_lt_of_getKey {key : String} {value : Value} {entries : List (Value × Value)}
    (h : getKey key entries = some value) : sizeOf value < sizeOf entries := by
  induction entries with
  | nil => cases h
  | cons e entries ih =>
    obtain ⟨k, v⟩ := e
    simp only [List.cons.sizeOf_spec, Prod.mk.sizeOf_spec]
    cases k with
    | string k =>
      rw [getKey_cons_string] at h
      by_cases hk : k = key
      · rw [if_pos hk] at h
        cases h
        omega
      · rw [if_neg hk] at h
        have hlt := ih h
        omega
    | _ =>
      have hlt := ih h
      omega

theorem sizeOf_lt_of_child {s : Segment} {c : Value} (h : child s v = some c) : sizeOf c < sizeOf v := by
  cases s with
  | key k =>
    cases v with
    | mapping entries =>
      have hlt := sizeOf_lt_of_getKey h
      simp only [mapping.sizeOf_spec]
      exact Nat.lt_add_left 1 hlt
    | _ => cases h
  | index i =>
    cases v with
    | sequence items =>
      have hlt := List.sizeOf_lt_of_mem (List.mem_of_getElem? h)
      simp only [sequence.sizeOf_spec]
      exact Nat.lt_add_left 1 hlt
    | _ => cases h

theorem sizeOf_le_of_getPath {c : Value} (h : getPath path v = some c) : sizeOf c ≤ sizeOf v := by
  induction path generalizing v with
  | nil => rw [Option.some.inj h]
  | cons s path ih =>
    obtain ⟨c', hc', hpath⟩ := Option.bind_eq_some_iff.mp h
    exact (ih hpath).trans (sizeOf_lt_of_child hc').le

theorem getPath_ne_self (hpath : path ≠ []) : getPath path v ≠ some v := by
  cases path with
  | nil => exact absurd rfl hpath
  | cons s path =>
    intro h
    obtain ⟨c, hc, hrest⟩ := Option.bind_eq_some_iff.mp h
    exact absurd (sizeOf_le_of_getPath hrest) (Nat.not_le_of_lt (sizeOf_lt_of_child hc))

/-- A value at a path, with nothing else around. -/
def built (value : Value) : List Segment → Value
  | [] => value
  | .key k :: path => mapping [(string k, built value path)]
  | .index i :: path => sequence (List.replicate i null ++ [built value path])

theorem setPath_null (value : Value) (path : List Segment) : setPath value path null = built value path := by
  induction path with
  | nil => rfl
  | cons s path ih =>
    rw [setPath_cons, show child s null = none from by cases s <;> rfl, Option.getD_none, ih]
    cases s with
    | key k => rfl
    | index i =>
      change sequence ((resize (max (i + 1) 0) []).set i (built value path)) = _
      rw [resize, Nat.max_zero, List.length_nil, Nat.sub_zero, List.nil_append, List.replicate_succ',
        List.set_append_right i _ (by rw [List.length_replicate]), List.length_replicate, Nat.sub_self]
      rfl

/-- Where nothing can be followed, what is written is all that is left. -/
theorem setPath_of_child {value : Value} {s : Segment} {path : List Segment} {entries : List (Value × Value)}
    (h : entries = [] ∨ ∃ i, s = .index i) :
    setPath value (s :: path) (mapping entries) = built value (s :: path) := by
  rw [← setPath_null, setPath_cons, setPath_cons _ _ _ null]
  cases s with
  | key k =>
    obtain rfl : entries = [] := h.resolve_right nofun
    rfl
  | index i => rfl

/-! ### Values up to the order of their entries -/

/-- What a value is besides its children. -/
inductive Head where
  | null
  | bool (b : Bool)
  | number (text : String)
  | string (s : String)
  | sequence (length : Nat)
  | mapping (rest : List (Value × Value))

def head : Value → Head
  | null => .null
  | bool b => .bool b
  | number text => .number text
  | string s => .string s
  | sequence items => .sequence items.length
  | mapping entries => .mapping (rest (mapping entries))

/-- Every path leads to the same in both. -/
def Same (v w : Value) : Prop := ∀ path, (getPath path v).map head = (getPath path w).map head

namespace Same

theorem refl (v : Value) : Same v v := fun _ => rfl

theorem symm (h : Same v w) : Same w v := fun path => (h path).symm

theorem trans (h : Same v w) (h' : Same w x) : Same v x := fun path => (h path).trans (h' path)

theorem head_eq (h : Same v w) : v.head = w.head := Option.some.inj (h [])

theorem getPath (h : Same v w) (path : List Segment) : Option.Rel Same (v.getPath path) (w.getPath path) := by
  have hmap := fun path' => h (path ++ path')
  simp only [getPath_append] at hmap
  cases hv : v.getPath path with
  | none =>
    cases hw : w.getPath path with
    | none => exact .none
    | some c' =>
      have hempty := hmap []
      rw [hv, hw] at hempty
      cases hempty
  | some c =>
    cases hw : w.getPath path with
    | none =>
      have hempty := hmap []
      rw [hv, hw] at hempty
      cases hempty
    | some c' =>
      rw [hv, hw] at hmap
      exact .some hmap

theorem child (h : Same v w) (s : Segment) : Option.Rel Same (v.child s) (w.child s) := by
  have hpath := h.getPath [s]
  have hnil : Value.getPath [] = some := funext fun _ => rfl
  rwa [Value.getPath, Value.getPath, hnil, Option.bind_fun_some, Option.bind_fun_some] at hpath

end Same

theorem same_iff : Same v w ↔ v.head = w.head ∧ ∀ s, Option.Rel Same (v.child s) (w.child s) := by
  refine ⟨fun h => ⟨h.head_eq, h.child⟩, fun ⟨hhead, hchild⟩ path => ?_⟩
  cases path with
  | nil => exact congrArg some hhead
  | cons s path =>
    have hs := hchild s
    rw [getPath, getPath]
    generalize child s v = c at hs
    generalize child s w = c' at hs
    cases hs with
    | none => rfl
    | some hc => exact hc path

theorem rel_refl (c : Option Value) : Option.Rel Same c c := by
  cases c with
  | none => exact .none
  | some c => exact .some (Same.refl c)

theorem rel_getD {c c' : Option Value} (h : Option.Rel Same c c') : Same (c.getD .null) (c'.getD .null) := by
  cases h with
  | none => exact Same.refl _
  | some h => exact h

theorem rest_eq_of_head (h : v.head = w.head) : v.rest = w.rest := by
  have hrest : ∀ v : Value, v.rest = match v.head with
      | .mapping rest => rest
      | _ => [] := by
    intro v
    cases v <;> rfl
  rw [hrest, hrest, h]

theorem length_items_of_head (h : v.head = w.head) : v.items.length = w.items.length := by
  have hlength : ∀ v : Value, v.items.length = match v.head with
      | .sequence length => length
      | _ => 0 := by
    intro v
    cases v <;> rfl
  rw [hlength, hlength, h]

/-! ### Writing, up to order -/

theorem head_key_setPath (value : Value) (k : String) (path : List Segment) (cur : Value) :
    head (setPath value (.key k :: path) cur) = .mapping cur.rest := by
  rw [setPath, head, rest_insertKey]
  rfl

theorem head_index_setPath (value : Value) (i : Nat) (path : List Segment) (cur : Value) :
    head (setPath value (.index i :: path) cur) = .sequence (max (i + 1) cur.items.length) := by
  rw [setPath, head, List.length_set, resize, List.length_append, List.length_replicate]
  congr 1
  omega

theorem rest_key_setPath (value : Value) (k : String) (path : List Segment) (cur : Value) :
    rest (setPath value (.key k :: path) cur) = cur.rest := rest_insertKey k _ cur.entries

theorem length_items_setPath (value : Value) (i : Nat) (path : List Segment) (cur : Value) :
    (setPath value (.index i :: path) cur).items.length = max (i + 1) cur.items.length := by
  have hhead := head_index_setPath value i path cur
  rw [setPath] at hhead ⊢
  exact Head.sequence.inj hhead

theorem getD_child_setPath (value : Value) (i : Nat) (path : List Segment) (cur : Value) (j : Nat) :
    (child (.index j) (setPath value (.index i :: path) cur)).getD .null =
      if j = i then setPath value path ((child (.index i) cur).getD .null) else (child (.index j) cur).getD .null := by
  rw [child_index_setPath]
  by_cases hj : j = i
  · rw [if_pos hj, if_pos hj, Option.getD_some]
  · rw [if_neg hj, if_neg hj]
    split
    · rfl
    · rename_i hge
      have hnone : child (.index j) cur = none :=
        List.getElem?_eq_none ((le_max_right _ _).trans (Nat.le_of_not_lt hge))
      rw [hnone]

theorem rel_child_index {j : Nat} (hlength : v.items.length = w.items.length)
    (hsame : Same ((child (.index j) v).getD .null) ((child (.index j) w).getD .null)) :
    Option.Rel Same (child (.index j) v) (child (.index j) w) := by
  by_cases hj : j < v.items.length
  · have hv : child (.index j) v = some v.items[j] := List.getElem?_eq_getElem hj
    have hw : child (.index j) w = some w.items[j] := List.getElem?_eq_getElem (hlength ▸ hj)
    rw [hv, hw] at hsame ⊢
    exact .some hsame
  · have hv : child (.index j) v = none := List.getElem?_eq_none (Nat.le_of_not_lt hj)
    have hw : child (.index j) w = none := List.getElem?_eq_none (hlength ▸ Nat.le_of_not_lt hj)
    rw [hv, hw]
    exact .none

theorem Same.setPath (hv : Same v v') (path : List Segment) (ht : Same t t') :
    Same (setPath v path t) (setPath v' path t') := by
  induction path generalizing t t' with
  | nil => exact hv
  | cons s path ih =>
    have hcur := rel_getD (ht.child s)
    rw [same_iff]
    cases s with
    | key k =>
      rw [head_key_setPath, head_key_setPath, rest_eq_of_head ht.head_eq]
      refine ⟨rfl, fun s' => ?_⟩
      cases s' with
      | index j => exact .none
      | key k' =>
        rw [child_key_setPath, child_key_setPath]
        by_cases hk : k' = k
        · rw [if_pos hk, if_pos hk]
          exact .some (ih hcur)
        · rw [if_neg hk, if_neg hk]
          exact ht.child (.key k')
    | index i =>
      rw [head_index_setPath, head_index_setPath, length_items_of_head ht.head_eq]
      refine ⟨rfl, fun s' => ?_⟩
      cases s' with
      | key k' => exact .none
      | index j =>
        rw [child_index_setPath, child_index_setPath, length_items_of_head ht.head_eq]
        by_cases hj : j = i
        · rw [if_pos hj, if_pos hj]
          exact .some (ih hcur)
        · rw [if_neg hj, if_neg hj]
          split
          · exact .some (rel_getD (ht.child (.index j)))
          · exact .none

theorem same_setPath_segment_iff {s : Segment} : Same (setPath v [s] t) (setPath w [s] t) ↔ Same v w := by
  refine ⟨fun h => ?_, fun h => Same.setPath h [s] (Same.refl t)⟩
  have hchild := h.child s
  rw [child_setPath_self, child_setPath_self] at hchild
  cases hchild with
  | some hsame => exact hsame

theorem Same.entries (h : Same v w) : Same (mapping v.entries) (mapping w.entries) := by
  rw [same_iff]
  have hrest : rest v = rest w := rest_eq_of_head h.head_eq
  refine ⟨congrArg Head.mapping hrest, fun s => ?_⟩
  cases s with
  | key k => exact h.child (.key k)
  | index i => exact .none

/-- The value at a path, up to order. -/
def Holds (v : Value) (path : List Segment) (x : Value) : Prop := ∃ u, getPath path v = some u ∧ Same u x

theorem same_setPath_self_iff : Same (setPath x path v) v ↔ Holds v path x := by
  constructor
  · intro h
    have hrel := h.getPath path
    rw [getPath_setPath] at hrel
    generalize hu : getPath path v = u at hrel
    cases hrel with
    | some hsame => exact ⟨_, hu, hsame.symm⟩
  · rintro ⟨u, hu, hsame⟩
    have hself := setPath_eq_self_iff.mpr hu
    have hset := Same.setPath hsame.symm path (Same.refl v)
    rwa [hself] at hset

/-- Two values written at two paths: the paths part at two keys or two indices, or the value at the shorter one has the other in its place. -/
def Agree (v w : Value) : List Segment → List Segment → Prop
  | [], path' => Holds v path' w
  | path, [] => Holds w path v
  | .key k :: path, .key k' :: path' => k = k' → Agree v w path path'
  | .index i :: path, .index j :: path' => i = j → Agree v w path path'
  | _, _ => False

section

variable (v w t : Value) (path path' : List Segment)

/-- Two writes under different keys come out the same in either order. -/
theorem same_swap_key {k k' : String} (hne : k ≠ k') :
    Same (setPath w (.key k' :: path') (setPath v (.key k :: path) t))
      (setPath v (.key k :: path) (setPath w (.key k' :: path') t)) := by
  rw [same_iff, head_key_setPath, head_key_setPath, rest_key_setPath, rest_key_setPath]
  refine ⟨rfl, fun s => ?_⟩
  cases s with
  | index j => exact .none
  | key l =>
    simp only [child_key_setPath, if_neg hne, if_neg hne.symm]
    by_cases hl : l = k'
    · rw [if_pos hl, if_neg (fun h => hne (h.symm.trans hl)), if_pos hl]
      exact rel_refl _
    · rw [if_neg hl, if_neg hl]
      exact rel_refl _

theorem same_swap_index {i j : Nat} (hne : i ≠ j) :
    Same (setPath w (.index j :: path') (setPath v (.index i :: path) t))
      (setPath v (.index i :: path) (setPath w (.index j :: path') t)) := by
  have hlength : max (j + 1) (max (i + 1) t.items.length) = max (i + 1) (max (j + 1) t.items.length) := by omega
  rw [same_iff, head_index_setPath, head_index_setPath, length_items_setPath, length_items_setPath, hlength]
  refine ⟨rfl, fun s => ?_⟩
  cases s with
  | key k => exact .none
  | index l =>
    refine rel_child_index ?_ ?_
    · rw [length_items_setPath, length_items_setPath, length_items_setPath, length_items_setPath, hlength]
    · rw [getD_child_setPath, getD_child_setPath, getD_child_setPath, getD_child_setPath, getD_child_setPath,
        getD_child_setPath, if_neg hne, if_neg hne.symm]
      by_cases hl : l = j
      · rw [if_pos hl, if_neg (fun h => hne (h.symm.trans hl)), if_pos hl]
        exact Same.refl _
      · rw [if_neg hl, if_neg hl]
        exact Same.refl _

end

theorem same_swap_iff (path path' : List Segment) (t : Value) :
    Same (setPath w path' (setPath v path t)) (setPath v path (setPath w path' t)) ↔ Agree v w path path' := by
  induction path generalizing path' t with
  | nil => exact same_setPath_self_iff
  | cons s path ih =>
    cases path' with
    | nil =>
      refine Iff.trans ⟨Same.symm, Same.symm⟩ ?_
      cases s <;> exact same_setPath_self_iff
    | cons s' path' =>
      -- Both values below the segment, in either order.
      have hself : ∀ s, Same (setPath w (s :: path') (setPath v (s :: path) t))
          (setPath v (s :: path) (setPath w (s :: path') t)) ↔ Agree v w path path' := by
        intro s
        rw [setPath_cons_setPath_cons, setPath_cons_setPath_cons, same_setPath_segment_iff, ih]
      cases s with
      | key k =>
        cases s' with
        | index j =>
          refine iff_of_false (fun h => ?_) id
          have hhead := h.head_eq
          rw [head_index_setPath, head_key_setPath] at hhead
          cases hhead
        | key k' =>
          by_cases hk : k = k'
          · subst hk
            exact (hself _).trans ⟨fun h _ => h, fun h => h rfl⟩
          · exact iff_of_true (same_swap_key v w t path path' hk) fun h => absurd h hk
      | index i =>
        cases s' with
        | key k' =>
          refine iff_of_false (fun h => ?_) id
          have hhead := h.head_eq
          rw [head_index_setPath, head_key_setPath] at hhead
          cases hhead
        | index j =>
          by_cases hi : i = j
          · subst hi
            exact (hself _).trans ⟨fun h _ => h, fun h => h rfl⟩
          · exact iff_of_true (same_swap_index v w t path path' hi) fun h => absurd h hi

end Value

end Lazydns
