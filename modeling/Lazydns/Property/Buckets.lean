import Lazydns.Web.TimeSeries
import Mathlib.Algebra.BigOperators.Group.List.Basic

/-!
# A writer that comes late

A call of `add` that takes the lock behind one that has read a later clock puts its bucket behind the later one, and the next call at the later clock opens that bucket a second time. Then the points are out of order or have a bucket twice, until the window has passed. What is counted is right all the same: buckets are only ever taken off the front, and only if they have left the window.
-/

namespace Lazydns

namespace TimeSeries

variable {F : Type} {t : TimeSeries F} {now elapsed elapsed' cutoff i : Nat} {value : F}

/-! ### What a reader sees -/

/-- What is counted are the calls whose bucket is in the window, and the points are in order, one for each bucket. -/
structure System.Exact (s : System F) : Prop where
  count : s.series.count s.elapsed = s.completed.countP fun now => s.series.windowCutoff s.elapsed ≤ now
  increasing : ∀ startUnix,
    ((s.series.points startUnix s.elapsed).map TimeSeriesPoint.timestamp).Pairwise (· < ·)

/-- The call's bucket is the last one, or has left the window, or is behind all buckets in it. -/
def Orderly (s : System F) : Event F → System F → Prop
  | .lock i, _ => ∀ now value, s.writers[i]? = some (now, value) →
    (∃ last, s.series.buckets.getLast? = some last ∧ last.timestamp = now) ∨
      now < s.series.windowCutoff s.elapsed ∨ ∀ bucket ∈ s.series.window s.elapsed, bucket.timestamp < now
  | _, _ => True

theorem windowCutoff_mono (t : TimeSeries F) (h : elapsed ≤ elapsed') :
    t.windowCutoff elapsed ≤ t.windowCutoff elapsed' :=
  Nat.sub_le_sub_right (Nat.mul_le_mul_right _ (Nat.div_le_div_right h)) _

theorem window_sublist (t : TimeSeries F) (h : elapsed ≤ elapsed') :
    (t.window elapsed').Sublist (t.window elapsed) := by
  have hfilter : t.window elapsed' =
      (t.window elapsed).filter fun bucket => t.windowCutoff elapsed' ≤ bucket.timestamp := by
    rw [window, window, List.filter_filter]
    refine List.filter_congr fun bucket _ => ?_
    have hle := windowCutoff_mono t h
    by_cases hin : t.windowCutoff elapsed' ≤ bucket.timestamp
    · simp [hin, Nat.le_trans hle hin]
    · simp [hin]
  rw [hfilter]
  exact List.filter_sublist

/-! ### Taking buckets off the front -/

theorem filter_dropWhile {α : Type} {p q : α → Bool} (h : ∀ a, p a = true → q a = false) (l : List α) :
    (l.dropWhile p).filter q = l.filter q := by
  induction l with
  | nil => rfl
  | cons a l ih =>
    by_cases ha : p a = true
    · rw [List.dropWhile_cons_of_pos ha, ih, List.filter_cons_of_neg (by simp [h a ha])]
    · rw [List.dropWhile_cons_of_neg ha]

theorem getLast?_dropWhile {α : Type} {p : α → Bool} {a : α} (ha : p a = false) (l : List α) :
    (l.dropWhile p).getLast? = some a ↔ l.getLast? = some a := by
  induction l with
  | nil => rfl
  | cons b l ih =>
    by_cases hb : p b = true
    · rw [List.dropWhile_cons_of_pos hb, ih]
      cases l with
      | nil =>
        refine iff_of_false (by simp) fun hlast => ?_
        obtain rfl : b = a := Option.some.inj hlast
        exact Bool.false_ne_true (ha.symm.trans hb)
      | cons c l => rw [List.getLast?_cons_cons]
    · rw [List.dropWhile_cons_of_neg hb]

theorem filter_cleanupLocked (h : now - t.windowSecs ≤ cutoff) :
    (t.cleanupLocked now).filter (fun bucket => cutoff ≤ bucket.timestamp) =
      t.buckets.filter fun bucket => cutoff ≤ bucket.timestamp := by
  refine filter_dropWhile (fun bucket hold => ?_) t.buckets
  have hlt := of_decide_eq_true hold
  exact decide_eq_false (by omega)

theorem getLast?_cleanupLocked {last : Bucket F} (h : last.timestamp = now) :
    (t.cleanupLocked now).getLast? = some last ↔ t.buckets.getLast? = some last :=
  getLast?_dropWhile (by simp [h]) t.buckets

/-! ### The invariant -/

variable {s s' : System F} {e : Event F}

/-- No call is ahead of the clock, and every value is counted from any time on that has not left the window. -/
structure Inv (s : System F) : Prop where
  writers : ∀ writer ∈ s.writers, writer.1 ≤ s.series.currentBucketTimestamp s.elapsed
  counted : ∀ cutoff, s.series.windowCutoff s.elapsed ≤ cutoff →
    ((s.series.buckets.filter fun bucket => cutoff ≤ bucket.timestamp).map Bucket.count).sum =
      s.completed.countP fun now => cutoff ≤ now

/-- The buckets in the window are in order. -/
def InOrder (s : System F) : Prop := ((s.series.window s.elapsed).map Bucket.timestamp).Pairwise (· < ·)

theorem exact_iff_inOrder (h : Inv s) : s.Exact ↔ InOrder s := by
  have hpoints : ∀ startUnix, (s.series.points startUnix s.elapsed).map TimeSeriesPoint.timestamp =
      ((s.series.window s.elapsed).map Bucket.timestamp).map (startUnix + ·) := by
    intro startUnix
    simp [points]
  constructor
  · intro hexact
    have hincreasing := hexact.increasing 0
    rw [hpoints, List.pairwise_map] at hincreasing
    exact hincreasing.imp fun hlt => Nat.lt_of_add_lt_add_left hlt
  · intro horder
    refine ⟨h.counted _ (Nat.le_refl _), fun startUnix => ?_⟩
    rw [hpoints, List.pairwise_map]
    exact horder.imp fun hlt => Nat.add_lt_add_left hlt startUnix

theorem inv_new (windowSecs bucketSecs : Nat) : Inv (System.new windowSecs bucketSecs : System F) :=
  ⟨fun _ hwriter => absurd hwriter List.not_mem_nil, fun _ _ => rfl⟩

theorem Inv.elapse (h : Inv s) (secs : Nat) : Inv { s with elapsed := s.elapsed + secs } := by
  have hle : s.elapsed ≤ s.elapsed + secs := Nat.le_add_right _ _
  constructor
  · intro writer hwriter
    exact Nat.le_trans (h.writers writer hwriter) (Nat.mul_le_mul_right _ (Nat.div_le_div_right hle))
  · intro cutoff hcutoff
    exact h.counted cutoff (Nat.le_trans (windowCutoff_mono s.series hle) hcutoff)

theorem Inv.read (h : Inv s) (value : F) :
    Inv { s with writers := s.writers ++ [(s.series.currentBucketTimestamp s.elapsed, value)] } := by
  refine ⟨fun writer hwriter => ?_, h.counted⟩
  rcases List.mem_append.mp hwriter with hold | hnew
  · exact h.writers writer hold
  · exact Nat.le_of_eq (congrArg Prod.fst (List.mem_singleton.mp hnew))

theorem Inv.cutoff_le (h : Inv s) (hwriter : s.writers[i]? = some (now, value)) :
    now - s.series.windowSecs ≤ s.series.windowCutoff s.elapsed :=
  Nat.sub_le_sub_right (h.writers _ (List.mem_of_getElem? hwriter)) _

/-! ### A call under the lock -/

variable [Zero F] [Add F]

theorem addLocked_cases (t : TimeSeries F) (now : Nat) (value : F) :
    (∃ kept last, t.cleanupLocked now = kept ++ [last] ∧ last.timestamp = now ∧
      (t.addLocked now value).buckets = kept ++ [last.add value]) ∨
    (¬∃ last, t.buckets.getLast? = some last ∧ last.timestamp = now) ∧
      (t.addLocked now value).buckets = t.cleanupLocked now ++ [(Bucket.new now).add value] := by
  have hlast := fun (last : Bucket F) (h : last.timestamp = now) => getLast?_cleanupLocked (t := t) h
  simp only [addLocked]
  split
  · rename_i last hcleaned
    split
    · rename_i heq
      exact .inl ⟨_, last, (List.dropLast_append_getLast? last hcleaned).symm, heq, rfl⟩
    · rename_i hne
      refine .inr ⟨?_, rfl⟩
      rintro ⟨last', hlast', heq⟩
      rw [← hlast last' heq, hcleaned] at hlast'
      cases hlast'
      exact hne heq
  · rename_i hempty
    refine .inr ⟨?_, rfl⟩
    rintro ⟨last, hlast', heq⟩
    rw [← hlast last heq, hempty] at hlast'
    cases hlast'

/-- From any time on that has not left the window, one more value is counted. -/
theorem count_addLocked (h : now - t.windowSecs ≤ cutoff) (value : F) :
    (((t.addLocked now value).buckets.filter fun bucket => cutoff ≤ bucket.timestamp).map Bucket.count).sum =
      ((t.buckets.filter fun bucket => cutoff ≤ bucket.timestamp).map Bucket.count).sum +
        (decide (cutoff ≤ now)).toNat := by
  rw [← filter_cleanupLocked h]
  rcases addLocked_cases t now value with ⟨kept, last, hkept, heq, hbuckets⟩ | ⟨-, hbuckets⟩
  · rw [hbuckets, hkept, List.filter_append, List.filter_append, List.filter_singleton, List.filter_singleton]
    by_cases hin : cutoff ≤ now <;> simp [Bucket.add, heq, hin]
    omega
  · rw [hbuckets, List.filter_append, List.filter_singleton]
    by_cases hin : cutoff ≤ now <;> simp [Bucket.add, Bucket.new, hin]

/-- The bucket is in order again or not, as far as the reads are concerned. -/
theorem pairwise_addLocked (h : now - t.windowSecs ≤ cutoff) (value : F)
    (horder : ((t.buckets.filter fun bucket => cutoff ≤ bucket.timestamp).map Bucket.timestamp).Pairwise (· < ·)) :
    (((t.addLocked now value).buckets.filter fun bucket => cutoff ≤ bucket.timestamp).map Bucket.timestamp).Pairwise
        (· < ·) ↔
      (∃ last, t.buckets.getLast? = some last ∧ last.timestamp = now) ∨ now < cutoff ∨
        ∀ bucket ∈ t.buckets.filter (fun bucket => cutoff ≤ bucket.timestamp), bucket.timestamp < now := by
  rw [← filter_cleanupLocked h] at horder ⊢
  rcases addLocked_cases t now value with ⟨kept, last, hkept, heq, hbuckets⟩ | ⟨hnot, hbuckets⟩
  · have hlast : t.buckets.getLast? = some last := by
      rw [← getLast?_cleanupLocked heq, hkept, List.getLast?_append, List.getLast?_singleton, Option.some_or]
    refine iff_of_true ?_ (.inl ⟨last, hlast, heq⟩)
    rw [hkept, List.filter_append, List.filter_singleton] at horder
    rw [hbuckets, List.filter_append, List.filter_singleton]
    by_cases hin : cutoff ≤ now <;> simpa [Bucket.add, heq, hin] using horder
  · rw [hbuckets, List.filter_append, or_iff_right hnot]
    by_cases hin : cutoff ≤ now
    · have hnew : [(Bucket.new now).add value].filter (fun bucket => cutoff ≤ bucket.timestamp) =
          [(Bucket.new now).add value] := List.filter_cons_of_pos (decide_eq_true hin)
      rw [or_iff_right (Nat.not_lt_of_le hin), hnew, List.map_append, List.pairwise_append]
      constructor
      · rintro ⟨-, -, hall⟩ bucket hbucket
        exact hall _ (List.mem_map_of_mem hbucket) now List.mem_cons_self
      · intro hall
        refine ⟨horder, List.pairwise_singleton _ _, fun a ha b hb => ?_⟩
        obtain ⟨bucket, hbucket, rfl⟩ := List.mem_map.mp ha
        rw [List.mem_singleton.mp hb]
        exact hall bucket hbucket
    · refine iff_of_true ?_ (.inl (Nat.lt_of_not_le hin))
      simpa [Bucket.add, Bucket.new, hin] using horder

theorem addLocked_currentBucketTimestamp (t : TimeSeries F) (now : Nat) (value : F) (elapsed : Nat) :
    (t.addLocked now value).currentBucketTimestamp elapsed = t.currentBucketTimestamp elapsed := by
  simp only [addLocked]
  split
  · split <;> rfl
  · rfl

theorem addLocked_windowCutoff (t : TimeSeries F) (now : Nat) (value : F) (elapsed : Nat) :
    (t.addLocked now value).windowCutoff elapsed = t.windowCutoff elapsed := by
  simp only [addLocked]
  split
  · split <;> rfl
  · rfl

/-! ### One step -/

theorem Inv.lock (h : Inv s) (hwriter : s.writers[i]? = some (now, value)) :
    Inv { s with
      series := s.series.addLocked now value
      writers := s.writers.eraseIdx i
      completed := s.completed ++ [now] } := by
  constructor
  · intro writer hmem
    change writer.1 ≤ (s.series.addLocked now value).currentBucketTimestamp s.elapsed
    rw [addLocked_currentBucketTimestamp]
    exact h.writers writer (List.mem_of_mem_eraseIdx hmem)
  · intro cutoff hcutoff
    change (s.series.addLocked now value).windowCutoff s.elapsed ≤ cutoff at hcutoff
    rw [addLocked_windowCutoff] at hcutoff
    have hcount := count_addLocked (Nat.le_trans (h.cutoff_le hwriter) hcutoff) value
    rw [h.counted cutoff hcutoff] at hcount
    rw [hcount, List.countP_append, List.countP_singleton]
    cases decide (cutoff ≤ now) <;> rfl

theorem Inv.step (h : Inv s) (hstep : (machine F).step s e = some s') : Inv s' := by
  cases e with
  | elapse secs =>
    cases hstep
    exact h.elapse secs
  | read value =>
    obtain ⟨-, heq⟩ := Option.ite_none_left_eq_some.mp hstep
    cases heq
    exact h.read value
  | lock i =>
    simp only [machine, TimeSeries.step] at hstep
    split at hstep
    · rename_i now value hwriter
      cases hstep
      exact h.lock hwriter
    · cases hstep

/-- The clock only takes buckets out of the window, and a call under the lock keeps the order if it is orderly. -/
theorem inOrder_step (h : Inv s) (horder : InOrder s) (hstep : (machine F).step s e = some s') :
    InOrder s' ↔ Orderly s e s' := by
  cases e with
  | elapse secs =>
    cases hstep
    refine iff_of_true ?_ trivial
    exact horder.sublist ((window_sublist s.series (Nat.le_add_right s.elapsed secs)).map Bucket.timestamp)
  | read value =>
    obtain ⟨-, heq⟩ := Option.ite_none_left_eq_some.mp hstep
    cases heq
    exact iff_of_true horder trivial
  | lock i =>
    simp only [machine, TimeSeries.step] at hstep
    split at hstep
    · rename_i now value hwriter
      cases hstep
      rw [InOrder, window, addLocked_windowCutoff, pairwise_addLocked (h.cutoff_le hwriter) value horder]
      constructor
      · intro hcases now' value' hwriter'
        rw [hwriter] at hwriter'
        cases hwriter'
        exact hcases
      · exact fun horderly => horderly now value hwriter
    · cases hstep

/-! ### Whole runs -/

variable {windowSecs bucketSecs : Nat}

/-- The reads are right after every step of a run, exactly if each call that takes the lock is orderly. -/
theorem each_exact_iff (es : List (Event F)) :
    (machine F).Each (fun _ _ s' => s'.Exact) (.new windowSecs bucketSecs) es ↔
      (machine F).Each Orderly (.new windowSecs bucketSecs) es := by
  rw [Machine.each_iff_of_keeps (I := Inv) (Q := fun _ _ s' => InOrder s')
    (fun s e s' hI hstep => ⟨hI.step hstep, exact_iff_inOrder (hI.step hstep)⟩) (inv_new windowSecs bucketSecs)]
  exact Machine.each_state_iff (I := Inv) (J := InOrder)
    (fun s e s' hI hJ hstep => ⟨hI.step hstep, inOrder_step hI hJ hstep⟩) (inv_new windowSecs bucketSecs)
    List.Pairwise.nil

/-- The second call has a later bucket and takes the lock first. -/
theorem not_each_exact_late :
    ¬∀ (windowSecs bucketSecs : Nat) (es : List (Event Nat)),
      (machine Nat).Each (fun _ _ s' => s'.Exact) (.new windowSecs bucketSecs) es := by
  intro h
  obtain ⟨-, h⟩ := h 300 1 [.read 1, .elapse 1, .read 1, .lock 1, .lock 0] _ rfl
  obtain ⟨-, h⟩ := h _ rfl
  obtain ⟨-, h⟩ := h _ rfl
  obtain ⟨-, h⟩ := h _ rfl
  obtain ⟨hexact, -⟩ := h _ rfl
  exact absurd (hexact.increasing 0) (by decide)

end TimeSeries

end Lazydns
