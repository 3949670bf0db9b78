import Lazydns.Web.TopN

/-!
# Pruning among equal counts

A tracker that holds too many keys drops all that are not above a threshold, the count behind the first `2n` in descending order. Where many keys have this count too few are above it, and the keys that `top` should return are dropped. The threshold has to be below the count of the last of these keys; then they stay, and so does everything that has one of their counts.
-/

namespace Lazydns

namespace TopN

variable {K : Type} {t t' : TopN K}

/-! ### What pruning should leave -/

/-- A key goes only if no key with a smaller count stays, and those that `top` returns stay. -/
structure Keeps (t t' : TopN K) : Prop where
  sublist : t'.counts.Sublist t.counts
  order : ∀ entry ∈ t.counts, entry ∉ t'.counts → ∀ entry' ∈ t'.counts, entry.2.count ≤ entry'.2.count
  length : min t.n.toNat t.counts.length ≤ t'.counts.length
  counts : ∀ top top', t.IsTop top → t'.IsTop top' → top'.map Prod.snd = top.map Prod.snd
  survives : ∀ top, t.IsTop top → ∀ item ∈ top, item ∈ t'.items

/-- There is nothing to prune, or the threshold is below the count of the last key to return. -/
def Separated (t : TopN K) : Prop :=
  t.counts.length ≤ t.maxItems.toNat ∨ t.counts.length ≤ (t.n * 2).toNat ∨
    ∃ threshold last, (countValues t.counts)[(t.n * 2).toNat]? = some threshold ∧
      (countValues t.counts)[min t.n.toNat t.counts.length - 1]? = some last ∧ threshold < last

/-! ### What `top` returns -/

theorem length_countValues (counts : List (K × TimestampedCount)) : (countValues counts).length = counts.length := by
  rw [countValues, Ranked.length_descending, List.length_map]

/-- Whatever keys are returned, their counts are the largest. -/
theorem IsTop.counts_eq {top : List (K × UInt64)} (h : t.IsTop top) :
    top.map (fun item => item.2.toNat) = (countValues t.counts).take t.n.toNat := by
  obtain ⟨all, hperm, hpairwise, rfl⟩ := h
  have hdescending : (all.map fun item => item.2.toNat).Pairwise (· ≥ ·) :=
    List.pairwise_map.mpr (hpairwise.imp fun hle => UInt64.le_iff_toNat_le.mp hle)
  have hvalues : (all.map fun item => item.2.toNat).Perm (t.counts.map fun entry => entry.2.count.toNat) := by
    refine (hperm.map _).trans ?_
    rw [items, List.map_map]
    exact List.Perm.refl _
  rw [List.map_take, Ranked.eq_descending hdescending hvalues]
  rfl

theorem IsTop.mem_items {top : List (K × UInt64)} (h : t.IsTop top) {item : K × UInt64} (hitem : item ∈ top) :
    item ∈ t.items := by
  obtain ⟨all, hperm, -, rfl⟩ := h
  exact hperm.subset (List.mem_of_mem_take hitem)

theorem map_count_inj {top top' : List (K × UInt64)}
    (h : top.map (fun item => item.2.toNat) = top'.map fun item => item.2.toNat) :
    top.map Prod.snd = top'.map Prod.snd := by
  have hinj : Function.Injective UInt64.toNat := fun _ _ => UInt64.toNat_inj.mp
  apply hinj.list_map
  simpa [Function.comp_def] using h

theorem Keeps.refl (t : TopN K) : Keeps t t := by
  constructor
  · exact List.Sublist.refl _
  · exact fun entry hentry hnot => absurd hentry hnot
  · exact Nat.min_le_right _ _
  · intro top top' htop htop'
    exact map_count_inj (htop'.counts_eq.trans htop.counts_eq.symm)
  · exact fun top htop item hitem => htop.mem_items hitem

/-! ### One call -/

theorem prune_cases (t : TopN K) :
    (t.counts.length ≤ t.maxItems.toNat ∨ t.counts.length ≤ (t.n * 2).toNat) ∧ t.prune = t ∨
      ¬(t.counts.length ≤ t.maxItems.toNat ∨ t.counts.length ≤ (t.n * 2).toNat) ∧
        ∃ threshold, (countValues t.counts)[(t.n * 2).toNat]? = some threshold ∧ t.prune.n = t.n ∧
          t.prune.counts = t.counts.filter fun entry => threshold < entry.2.count.toNat := by
  rw [prune]
  by_cases hmax : t.maxItems.toNat < t.counts.length
  · rw [if_pos hmax, pruneLocked]
    by_cases hfew : t.counts.length ≤ (t.n * 2).toNat
    · rw [if_pos hfew]
      exact .inl ⟨.inr hfew, rfl⟩
    · rw [if_neg hfew]
      have hlt : (t.n * 2).toNat < (countValues t.counts).length := by
        rw [length_countValues]
        exact Nat.lt_of_not_le hfew
      rw [List.getElem?_eq_getElem hlt]
      exact .inr ⟨by omega, _, rfl, rfl, rfl⟩
  · rw [if_neg hmax]
    exact .inl ⟨.inl (Nat.le_of_not_lt hmax), rfl⟩

section

variable {threshold : Nat} (hcounts : t'.counts = t.counts.filter fun entry => threshold < entry.2.count.toNat)

include hcounts

theorem map_count_filter : t'.counts.map (fun entry => entry.2.count.toNat) =
    (t.counts.map fun entry => entry.2.count.toNat).filter fun count => threshold < count := by
  rw [hcounts, List.filter_map]
  rfl

/-- As many keys stay as there are counts above the threshold. -/
theorem lt_length_iff {k : Nat} : k < t'.counts.length ↔
    ∃ last, (countValues t.counts)[k]? = some last ∧ threshold < last := by
  rw [countValues, ← Ranked.lt_length_filter_iff (Ranked.descending_pairwise _), ← Ranked.descending_filter,
    Ranked.length_descending, ← map_count_filter hcounts, List.length_map]

/-- Keys with small counts go first. -/
theorem order_of_filter : ∀ entry ∈ t.counts, entry ∉ t'.counts → ∀ entry' ∈ t'.counts,
    entry.2.count ≤ entry'.2.count := by
  intro entry hentry hgone entry' hentry'
  rw [hcounts, List.mem_filter] at hgone hentry'
  have hle : entry.2.count.toNat ≤ threshold := by
    by_contra hlt
    exact hgone ⟨hentry, decide_eq_true (Nat.lt_of_not_le hlt)⟩
  exact UInt64.le_iff_toNat_le.mpr (hle.trans (of_decide_eq_true hentry'.2).le)

/-- The counts of the keys to return are above the threshold, if enough keys stay. -/
theorem take_countValues (hlength : t.n.toNat ≤ t'.counts.length) :
    (countValues t'.counts).take t.n.toNat = (countValues t.counts).take t.n.toNat := by
  rw [countValues, map_count_filter hcounts]
  refine Ranked.take_descending_filter ?_
  rwa [← map_count_filter hcounts, List.length_map]

theorem keeps_of_length (hn : t'.n = t.n) (hlength : t.n.toNat ≤ t'.counts.length) : Keeps t t' := by
  have htake := take_countValues hcounts hlength
  constructor
  · rw [hcounts]
    exact List.filter_sublist
  · exact order_of_filter hcounts
  · exact (Nat.min_le_left _ _).trans hlength
  · intro top top' htop htop'
    refine map_count_inj (htop'.counts_eq.trans ?_)
    rw [htop.counts_eq, hn, htake]
  · intro top htop item hitem
    have hvalue : item.2.toNat ∈ (countValues t'.counts).take t.n.toNat := by
      rw [htake, ← htop.counts_eq]
      exact List.mem_map_of_mem hitem
    have habove : threshold < item.2.toNat := by
      have hmem := (Ranked.descending_perm _).subset (List.mem_of_mem_take hvalue)
      rw [map_count_filter hcounts] at hmem
      exact of_decide_eq_true (List.mem_filter.mp hmem).2
    obtain ⟨entry, hentry, rfl⟩ := List.mem_map.mp (htop.mem_items hitem)
    refine List.mem_map.mpr ⟨entry, ?_, rfl⟩
    rw [hcounts]
    exact List.mem_filter.mpr ⟨hentry, decide_eq_true habove⟩

end

theorem keeps_prune_iff (hn : 1 ≤ t.n.toNat) : Keeps t t.prune ↔ Separated t := by
  rcases prune_cases t with ⟨hfew, heq⟩ | ⟨hmany, threshold, hthreshold, hsame, hcounts⟩
  · rw [heq]
    exact iff_of_true (Keeps.refl t) (or_assoc.mp (.inl hfew))
  · have habove : ∀ {k : Nat}, k < t.prune.counts.length ↔
        ∃ last, (countValues t.counts)[k]? = some last ∧ threshold < last := lt_length_iff hcounts
    -- At the place of the threshold nothing is above it.
    have hless : ¬(t.n * 2).toNat < t.prune.counts.length := by
      rw [habove, hthreshold]
      rintro ⟨last, hlast, hlt⟩
      cases hlast
      exact Nat.lt_irrefl _ hlt
    constructor
    · intro hkeeps
      have hlength := hkeeps.length
      obtain ⟨last, hlast, hlt⟩ := habove.mp (show min t.n.toNat t.counts.length - 1 < t.prune.counts.length by omega)
      exact .inr (.inr ⟨threshold, last, hthreshold, hlast, hlt⟩)
    · rintro (hmax | hfew | ⟨threshold', last, hthreshold', hlast, hlt⟩)
      · exact absurd (.inl hmax) hmany
      · exact absurd (.inr hfew) hmany
      · rw [hthreshold] at hthreshold'
        cases hthreshold'
        have hlength := habove.mpr ⟨last, hlast, hlt⟩
        exact keeps_of_length hcounts hsame (by omega)

/-! ### Whole runs -/

theorem prune_n (t : TopN K) : t.prune.n = t.n := by
  rcases prune_cases t with ⟨-, heq⟩ | ⟨-, threshold, -, hsame, -⟩
  · rw [heq]
  · exact hsame

variable [DecidableEq K] {n maxItems : UInt64} {e : Event K}

theorem merged_n (t other : TopN K) : (t.merged other).n = t.n := by
  rw [merged]
  induction other.counts generalizing t with
  | nil => rfl
  | cons entry counts ih => exact ih (t.mergeEntry entry)

theorem before_n (t : TopN K) (e : Event K) : (t.before e).n = t.n := by
  cases e with
  | add key count now => rfl
  | merge other => exact merged_n t other

theorem step_eq_some (h : (machine K).step t e = some t') : t' = (t.before e).prune := by
  cases e with
  | add key count now => exact (Option.some.inj h).symm
  | merge other => exact (Option.some.inj h).symm

/-- In every run the prunings leave what they should, exactly if the threshold of each is below the count of the last key to return. -/
theorem each_keeps_iff (hn : 1 ≤ n) (events : List (Event K)) :
    (machine K).Each (fun t e t' => Keeps (t.before e) t') (withMaxItems n maxItems) events ↔
      (machine K).Each (fun t e _ => Separated (t.before e)) (withMaxItems n maxItems) events := by
  refine Machine.each_iff_of_keeps (I := fun t => 1 ≤ t.n.toNat) ?_ (UInt64.le_iff_toNat_le.mp hn)
  intro t e t' hpos hstep
  rw [step_eq_some hstep, prune_n, before_n]
  refine ⟨hpos, keeps_prune_iff ?_⟩
  rwa [before_n]

instance (t : TopN K) : Decidable (Separated t) :=
  decidable_of_iff (t.counts.length ≤ t.maxItems.toNat ∨ t.counts.length ≤ (t.n * 2).toNat ∨
      (countValues t.counts)[(t.n * 2).toNat]?.any fun threshold =>
        (countValues t.counts)[min t.n.toNat t.counts.length - 1]?.any fun last => threshold < last) <| by
    simp only [Separated, Option.any_eq_true, decide_eq_true_eq, exists_and_left]

/-- The test of the source, with three keys to return: the last key makes seven, and three are left. -/
theorem each_keeps_iff_low :
    (machine String).Each (fun t e t' => Keeps (t.before e) t') (withMaxItems 3 6)
        [.add "low1" 1 0, .add "low2" 2 0, .add "low3" 3 0, .add "high1" 100 0, .add "high2" 200 0, .add "high3" 300 0,
          .add "low4" 4 0] ∧
      ((machine String).run (withMaxItems 3 6)
        [.add "low1" 1 0, .add "low2" 2 0, .add "low3" 3 0, .add "high1" 100 0, .add "high2" 200 0, .add "high3" 300 0,
          .add "low4" 4 0]).map (fun t => t.top.map Prod.fst) = some ["high3", "high2", "high1"] := by
  have hseparated : (machine String).Each (fun t e _ => Separated (t.before e)) (withMaxItems 3 6)
      [.add "low1" 1 0, .add "low2" 2 0, .add "low3" 3 0, .add "high1" 100 0, .add "high2" 200 0, .add "high3" 300 0,
        .add "low4" 4 0] := by
    decide +kernel
  exact ⟨(each_keeps_iff (by decide) _).mpr hseparated, by decide +kernel⟩

/-- Of three keys that occurred once, none is left. -/
theorem not_each_keeps_equal :
    ¬∀ (n maxItems : UInt64) (events : List (Event String)), 1 ≤ n →
      (machine String).Each (fun t e t' => Keeps (t.before e) t') (withMaxItems n maxItems) events := by
  intro h
  obtain ⟨-, hb⟩ := h 1 2 [.add "a" 1 0, .add "b" 1 0, .add "c" 1 0] (by decide) _ rfl
  obtain ⟨-, hc⟩ := hb _ rfl
  obtain ⟨hkeeps, -⟩ := hc _ rfl
  exact absurd hkeeps.length (by decide)

end TopN

end Lazydns
