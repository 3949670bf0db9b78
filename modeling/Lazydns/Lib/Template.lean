import Mathlib.Data.List.Basic
import Mathlib.Data.Sum.Basic

/-!
# Filling in a template

A pattern takes a text apart into its matches, from left to right, and single letters between them. All matches can be filled in at once, or in turn by searching the text of each in what the earlier ones have left. That comes out the same if each search finds the matches that have its text and nothing else.
-/

namespace Template

variable {α γ : Type*}

/-- What a pattern captures at the start of a text, and the length of the match. -/
abbrev Pattern (α γ : Type*) := List α → Option (γ × Nat)

/-- The first `skip` letters are part of a match that has been found. -/
def piecesFrom (pattern : Pattern α γ) : Nat → List α → List (α ⊕ γ)
  | _, [] => []
  | skip + 1, _ :: text => piecesFrom pattern skip text
  | 0, c :: text =>
    match pattern (c :: text) with
    | some (capture, length) => .inr capture :: piecesFrom pattern (length - 1) text
    | none => .inl c :: piecesFrom pattern 0 text

def pieces (pattern : Pattern α γ) (text : List α) : List (α ⊕ γ) := piecesFrom pattern 0 text

/-- The matches, without the letters between them. -/
def holes (ps : List (α ⊕ γ)) : List γ := ps.filterMap Sum.getRight?

def fill (value : γ → List α) (ps : List (α ⊕ γ)) : List α := ps.flatMap (Sum.elim (fun c => [c]) value)

/-- A match is as long as the pattern says, is not empty, and tells by itself what is captured. -/
structure Lawful (pattern : Pattern α γ) (source : γ → List α) : Prop where
  nil : pattern [] = none
  source_eq : ∀ {text g length}, pattern text = some (g, length) → source g = text.take length
  length_pos : ∀ {text g length}, pattern text = some (g, length) → 0 < length
  again : ∀ {text g length}, pattern text = some (g, length) → pattern (source g) = some (g, length)

section

variable {pattern : Pattern α γ} {source value value' : γ → List α} {ps : List (α ⊕ γ)} {g : γ}

@[simp] theorem fill_nil : fill value ([] : List (α ⊕ γ)) = [] := rfl

@[simp] theorem fill_letter (c : α) (ps : List (α ⊕ γ)) : fill value (.inl c :: ps) = c :: fill value ps := rfl

@[simp] theorem fill_match (g : γ) (ps : List (α ⊕ γ)) : fill value (.inr g :: ps) = value g ++ fill value ps := rfl

theorem mem_holes : g ∈ holes ps ↔ .inr g ∈ ps := by
  rw [holes, List.mem_filterMap]
  constructor
  · rintro ⟨p, hp, hg⟩
    rwa [Sum.getRight?_eq_some_iff.mp hg] at hp
  · exact fun h => ⟨_, h, rfl⟩

theorem fill_congr (h : ∀ g ∈ holes ps, value g = value' g) : fill value ps = fill value' ps := by
  induction ps with
  | nil => rfl
  | cons p ps ih =>
    cases p with
    | inl c => exact congrArg (List.cons c) (ih h)
    | inr g => rw [fill_match, fill_match, h g List.mem_cons_self, ih fun g' hg' => h g' (List.mem_cons_of_mem _ hg')]

theorem fill_piecesFrom (hlawful : Lawful pattern source) (skip : Nat) (text : List α) :
    fill source (piecesFrom pattern skip text) = text.drop skip := by
  induction text generalizing skip with
  | nil => rw [piecesFrom, List.drop_nil, fill_nil]
  | cons c text ih =>
    cases skip with
    | succ skip =>
      rw [piecesFrom]
      exact ih skip
    | zero =>
      rw [piecesFrom]
      cases hmatch : pattern (c :: text) with
      | none => exact congrArg (List.cons c) (ih 0)
      | some found =>
        obtain ⟨g, length⟩ := found
        obtain ⟨k, rfl⟩ := Nat.exists_eq_succ_of_ne_zero (Nat.ne_of_gt (hlawful.length_pos hmatch))
        dsimp only
        rw [fill_match, ih, hlawful.source_eq hmatch]
        exact List.take_append_drop (k + 1) (c :: text)

theorem fill_pieces (hlawful : Lawful pattern source) (text : List α) : fill source (pieces pattern text) = text :=
  fill_piecesFrom hlawful 0 text

theorem again_of_mem_piecesFrom (hlawful : Lawful pattern source) {skip : Nat} {text : List α}
    (h : .inr g ∈ piecesFrom pattern skip text) : ∃ length, pattern (source g) = some (g, length) := by
  induction text generalizing skip with
  | nil =>
    rw [piecesFrom] at h
    cases h
  | cons c text ih =>
    cases skip with
    | succ skip => exact ih h
    | zero =>
      rw [piecesFrom] at h
      cases hmatch : pattern (c :: text) with
      | none =>
        rw [hmatch] at h
        rcases List.mem_cons.mp h with heq | hmem
        · cases heq
        · exact ih hmem
      | some found =>
        rw [hmatch] at h
        rcases List.mem_cons.mp h with heq | hmem
        · cases heq
          exact ⟨found.2, hlawful.again hmatch⟩
        · exact ih hmem

theorem eq_of_source_eq (hlawful : Lawful pattern source) {text : List α} {g' : γ}
    (hg : g ∈ holes (pieces pattern text)) (hg' : g' ∈ holes (pieces pattern text)) (h : source g = source g') :
    g = g' := by
  obtain ⟨length, hpattern⟩ := again_of_mem_piecesFrom hlawful (mem_holes.mp hg)
  obtain ⟨length', hpattern'⟩ := again_of_mem_piecesFrom hlawful (mem_holes.mp hg')
  rw [h, hpattern'] at hpattern
  cases hpattern
  rfl

end

/-! ### Replacing one text -/

section

variable [DecidableEq α]

def literal (old : List α) : Pattern α Unit := fun text => if old.isPrefixOf text then some ((), old.length) else none

/-- Each place where the text is found, from left to right. -/
def replaceAll (old new : List α) (text : List α) : List α := fill (fun _ => new) (pieces (literal old) text)

theorem lawful_literal {old : List α} (h : old ≠ []) : Lawful (literal old) fun _ => old where
  nil := if_neg fun hstart => h (List.prefix_nil.mp (List.isPrefixOf_iff_prefix.mp hstart))
  source_eq hmatch := by
    obtain ⟨hstart, heq⟩ := Option.ite_none_right_eq_some.mp hmatch
    cases heq
    exact List.prefix_iff_eq_take.mp (List.isPrefixOf_iff_prefix.mp hstart)
  length_pos hmatch := by
    obtain ⟨-, heq⟩ := Option.ite_none_right_eq_some.mp hmatch
    cases heq
    exact List.length_pos_iff.mpr h
  again hmatch := by
    obtain ⟨-, heq⟩ := Option.ite_none_right_eq_some.mp hmatch
    cases heq
    exact if_pos (List.isPrefixOf_iff_prefix.mpr (List.prefix_refl old))

theorem replaceAll_self {old : List α} (h : old ≠ []) (text : List α) : replaceAll old old text = text :=
  fill_pieces (lawful_literal h) text

end

/-! ### Matches in turn -/

section

variable (source value : γ → List α)

/-- Some of the matches, taken apart from the letters of the rest. -/
def mark (value : γ → List α) (marked : γ → Bool) (ps : List (α ⊕ γ)) : List (α ⊕ Unit) :=
  ps.flatMap (Sum.elim (fun c => [.inl c]) fun g => if marked g then [.inr ()] else (value g).map .inl)

theorem fill_mark (marked : γ → Bool) (new : List α) (ps : List (α ⊕ γ)) :
    fill (fun _ => new) (mark value marked ps) = fill (fun g => if marked g then new else value g) ps := by
  have hletters : ∀ text : List α, fill (fun _ : Unit => new) (text.map .inl) = text := by
    intro text
    rw [fill, List.flatMap_map]
    exact List.flatMap_pure_eq_map id text |>.trans (List.map_id text)
  rw [mark, fill, List.flatMap_assoc, fill]
  congr 1
  funext p
  cases p with
  | inl c => rfl
  | inr g =>
    change fill (fun _ => new) (if marked g then [.inr ()] else (value g).map .inl) = if marked g then new else value g
    split
    · exact List.append_nil new
    · exact hletters _

variable [DecidableEq α]

/-- The matches whose texts have had their turn are filled in, the others are as they were. -/
def filled (done : List (List α)) (g : γ) : List α := if source g ∈ done then value g else source g

/-- The search for the text of a match finds the matches that have it, and nothing else; or it does not matter, since the match is replaced by its own text. -/
def FoundAlone (ps : List (α ⊕ γ)) (done : List (List α)) (g : γ) : Prop :=
  value g = source g ∨
    pieces (literal (source g)) (fill (filled source value done) ps) =
      mark (filled source value done) (fun g' => source g' = source g ∧ source g ∉ done) ps

instance (ps : List (α ⊕ γ)) (done : List (List α)) (g : γ) : Decidable (FoundAlone source value ps done g) :=
  inferInstanceAs (Decidable (_ ∨ _))

/-- Each of the matches that are left, in its turn. -/
def FoundFrom (ps : List (α ⊕ γ)) : List (List α) → List γ → Prop
  | _, [] => True
  | done, g :: gs => FoundAlone source value ps done g ∧ FoundFrom ps (source g :: done) gs

instance decidableFoundFrom (ps : List (α ⊕ γ)) :
    ∀ (done : List (List α)) (gs : List γ), Decidable (FoundFrom source value ps done gs)
  | _, [] => .isTrue trivial
  | done, g :: gs =>
    have := decidableFoundFrom ps (source g :: done) gs
    inferInstanceAs (Decidable (_ ∧ _))

/-- Each match in its turn. -/
def FoundInTurn (ps : List (α ⊕ γ)) : Prop := FoundFrom source value ps [] (holes ps)

instance (ps : List (α ⊕ γ)) : Decidable (FoundInTurn source value ps) :=
  inferInstanceAs (Decidable (FoundFrom source value ps [] (holes ps)))

variable {source value} {ps : List (α ⊕ γ)} {g : γ}

theorem filled_nil : filled source value [] = source := funext fun _ => if_neg List.not_mem_nil

theorem replaceAll_filled {done : List (List α)} (hsource : source g ≠ [])
    (hvalue : ∀ g' ∈ holes ps, source g' = source g → value g' = value g) (h : FoundAlone source value ps done g) :
    replaceAll (source g) (value g) (fill (filled source value done) ps) =
      fill (filled source value (source g :: done)) ps := by
  rcases h with hself | hfound
  · rw [hself, replaceAll_self hsource]
    refine fill_congr fun g' hg' => ?_
    rw [filled, filled]
    by_cases hg : source g' = source g
    · rw [hvalue g' hg' hg, hself, hg, ite_self, ite_self]
    · simp only [List.mem_cons, hg, false_or]
  · rw [replaceAll, hfound, fill_mark]
    refine fill_congr fun g' hg' => ?_
    have hmem : source g ∈ source g :: done := List.mem_cons_self
    simp only [filled, decide_eq_true_eq]
    by_cases hg : source g' = source g
    · rw [hg, if_pos hmem, hvalue g' hg' hg]
      by_cases hdone : source g ∈ done
      · rw [if_neg fun h => h.2 hdone, if_pos hdone]
      · rw [if_pos ⟨rfl, hdone⟩]
    · rw [if_neg fun h => hg h.1]
      simp only [List.mem_cons, hg, false_or]

/-- Filling in the matches in turn is filling them in at once. -/
theorem foldl_replaceAll {pattern : Pattern α γ} (hlawful : Lawful pattern source) {text : List α}
    (h : FoundInTurn source value (pieces pattern text)) :
    (holes (pieces pattern text)).foldl (fun result g => replaceAll (source g) (value g) result) text =
      fill value (pieces pattern text) := by
  have hrun : ∀ (gs : List γ) (done : List (List α)), (∀ g ∈ gs, g ∈ holes (pieces pattern text)) →
      FoundFrom source value (pieces pattern text) done gs →
      ∃ done', (∀ t ∈ done, t ∈ done') ∧ (∀ g ∈ gs, source g ∈ done') ∧
        gs.foldl (fun result g => replaceAll (source g) (value g) result)
          (fill (filled source value done) (pieces pattern text)) =
        fill (filled source value done') (pieces pattern text) := by
    intro gs
    induction gs with
    | nil => exact fun done _ _ => ⟨done, fun _ ht => ht, nofun, rfl⟩
    | cons g gs ih =>
      intro done hgs hfound
      obtain ⟨hg, hgs⟩ := List.forall_mem_cons.mp hgs
      have hsource : source g ≠ [] := by
        obtain ⟨length, hmatch⟩ := again_of_mem_piecesFrom hlawful (mem_holes.mp hg)
        intro hnil
        rw [hnil, hlawful.nil] at hmatch
        cases hmatch
      have hvalue : ∀ g' ∈ holes (pieces pattern text), source g' = source g → value g' = value g := fun g' hg' heq =>
        congrArg value (eq_of_source_eq hlawful hg' hg heq)
      obtain ⟨done', hdone, hall, hfold⟩ := ih (source g :: done) hgs hfound.2
      refine ⟨done', fun t ht => hdone t (List.mem_cons_of_mem _ ht),
        List.forall_mem_cons.mpr ⟨hdone _ List.mem_cons_self, hall⟩, ?_⟩
      rw [List.foldl_cons, replaceAll_filled hsource hvalue hfound.1, hfold]
  obtain ⟨done, -, hall, hfold⟩ := hrun (holes (pieces pattern text)) [] (fun _ hg => hg) h
  rw [filled_nil, fill_pieces hlawful] at hfold
  rw [hfold]
  exact fill_congr fun g hg => if_pos (hall g hg)

end

end Template
