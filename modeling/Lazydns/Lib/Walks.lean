import Mathlib.Data.Fintype.List
import Mathlib.Data.Set.Finite.Basic
import Mathlib.Logic.Relation
import Mathlib.SetTheory.Cardinal.Finite

/-!
# Walks that never come back

The vertices of a relation carry labels, finitely many of them. If no walk from a root comes back to a label, each walk is at most as long as there are labels, and a recursion along the relation that counts its depth can start with their number.
-/

namespace Walks

variable {V L : Type} (step : V → V → Prop) (label : V → L)

def Returns (root : V) : Prop :=
  ∃ p q, Relation.ReflTransGen step root p ∧ Relation.TransGen step p q ∧ label q = label p

/-- The vertices of a walk from the root, the last one first. -/
inductive Trail (root : V) : List V → Prop
  | start : Trail root [root]
  | next {p q : V} {walk : List V} : Trail root (p :: walk) → step p q → Trail root (q :: p :: walk)

namespace Trail

variable {step label} {root p q : V} {walk : List V}

theorem reachable (h : Trail step root walk) : ∀ q ∈ walk, Relation.ReflTransGen step root q := by
  induction h with
  | start =>
    intro q hq
    rw [List.mem_singleton.mp hq]
  | next h hstep ih =>
    intro q' hq'
    rcases List.mem_cons.mp hq' with rfl | hmem
    · exact (ih _ List.mem_cons_self).tail hstep
    · exact ih q' hmem

theorem transGen (h : Trail step root (p :: walk)) : ∀ q ∈ walk, Relation.TransGen step q p := by
  generalize htrail : p :: walk = trail at h
  induction h generalizing p walk with
  | start =>
    cases htrail
    exact nofun
  | next h hstep ih =>
    cases htrail
    intro q hq
    rcases List.mem_cons.mp hq with rfl | hmem
    · exact .single hstep
    · exact (ih rfl q hmem).tail hstep

theorem nodup (hreturns : ¬Returns step label root) (h : Trail step root walk) : (walk.map label).Nodup := by
  induction h with
  | start => exact List.nodup_singleton _
  | @next p q walk h hstep ih =>
    rw [List.map_cons, List.nodup_cons]
    refine ⟨?_, ih⟩
    intro hmem
    obtain ⟨p', hp', heq⟩ := List.mem_map.mp hmem
    exact hreturns ⟨p', q, h.reachable p' hp', (h.next hstep).transGen p' hp', heq.symm⟩

theorem length_le [Finite L] (hreturns : ¬Returns step label root) (h : Trail step root walk) :
    walk.length ≤ Nat.card L := by
  have := Fintype.ofFinite L
  rw [Nat.card_eq_fintype_card, ← List.length_map label]
  exact (h.nodup hreturns).length_le_card

end Trail

variable {step label}

/-- If each vertex can do with one more than all that follow it, the number of labels is enough for the root. -/
theorem enough_labels [Finite L] {root : V} (hreturns : ¬Returns step label root) {motive : Nat → V → Prop}
    (hmotive : ∀ n p, (∀ q, step p q → motive n q) → motive (n + 1) p) : motive (Nat.card L) root := by
  have htrail : ∀ n p walk, Trail step root (p :: walk) → Nat.card L ≤ n + walk.length → motive n p := by
    intro n
    induction n with
    | zero =>
      intro p walk h hcard
      have hlength := h.length_le hreturns
      rw [List.length_cons] at hlength
      omega
    | succ n ih =>
      intro p walk h hcard
      refine hmotive n p fun q hstep => ih q (p :: walk) (h.next hstep) ?_
      rw [List.length_cons]
      omega
  exact htrail _ root [] .start (Nat.le_refl _)

end Walks
