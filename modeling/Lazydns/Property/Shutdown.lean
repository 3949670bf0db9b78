import Lazydns.Server.Launcher
import Mathlib.Data.List.Nodup

/-!
# A server that is neither awaited nor aborted

When the timeout fires, the handle that is awaited is dropped with the future that awaits it, and only those that are still on the list are aborted. So the task of that handle runs on, with nobody left to stop it, and so do the servers that were launched without a handle, whether the timeout fires or not. All others have finished or are aborted.
-/

namespace Lazydns

namespace ServerLauncher

/-! ### Tasks of a kind -/

def System.Is (s : System) (P : Task → Bool) (i : Nat) : Prop := s.tasks[i]?.any P = true

variable {s s' : System} {P : Task → Bool} {i j : Nat}

theorem mem_running : i ∈ s.running ↔ i < s.launched ∧ s.Is (fun t => !t.finished) i := by
  rw [System.running, List.mem_filter, List.mem_range]
  rfl

theorem is_append (t : Task) (h : s'.tasks = s.tasks ++ [t]) :
    s'.Is P i ↔ s.Is P i ∨ i = s.tasks.length ∧ P t = true := by
  rw [System.Is, System.Is, h, List.getElem?_append]
  split
  · rename_i hi
    exact (or_iff_left fun heq => Nat.ne_of_lt hi heq.1).symm
  · rename_i hi
    rw [List.getElem?_eq_none (Nat.le_of_not_lt hi), List.getElem?_singleton]
    by_cases heq : i = s.tasks.length
    · simp [heq]
    · have hsub : i - s.tasks.length ≠ 0 := by omega
      simp [heq, hsub]

theorem is_set {t t' : Task} (hj : s.tasks[j]? = some t) (h : s'.tasks = s.tasks.set j t') :
    s'.Is P i ↔ if i = j then P t' = true else s.Is P i := by
  rw [System.Is, System.Is, h, List.getElem?_set]
  by_cases hi : i = j
  · subst hi
    rw [if_pos rfl, if_pos (List.getElem?_eq_some_iff.mp hj).1, if_pos rfl]
    rfl
  · rw [if_neg (Ne.symm hi), if_neg hi]

theorem is_modify {f : Task → Task} (h : s'.tasks = s.tasks.modify j f) :
    s'.Is P i ↔ if i = j then s.Is (fun t => P (f t)) i else s.Is P i := by
  rw [System.Is, System.Is, System.Is, h]
  by_cases hi : i = j
  · subst hi
    rw [List.getElem?_modify_eq, if_pos rfl]
    cases s.tasks[i]? <;> rfl
  · rw [List.getElem?_modify_ne _ _ (Ne.symm hi), if_neg hi]

theorem is_set_same {t t' : Task} (hj : s.tasks[j]? = some t) (h : s'.tasks = s.tasks.set j t') (hP : P t' = P t) :
    s'.Is P i ↔ s.Is P i := by
  rw [is_set hj h]
  split
  · rename_i hi
    rw [hi, System.Is, hj, hP]
    rfl
  · exact Iff.rfl

theorem is_modify_same {f : Task → Task} (h : s'.tasks = s.tasks.modify j f) (hP : ∀ t, P (f t) = P t) :
    s'.Is P i ↔ s.Is P i := by
  rw [is_modify h, funext hP, ite_self]

theorem lt_length_of_is (h : s.Is P i) : i < s.tasks.length := by
  by_contra hlt
  rw [System.Is, List.getElem?_eq_none (Nat.le_of_not_lt hlt)] at h
  cases h

theorem not_is_not (h : s.Is (fun t => !P t) i) : ¬s.Is P i := by
  rw [System.Is] at h ⊢
  cases ht : s.tasks[i]? with
  | none => simp
  | some t => simpa [ht] using h

theorem is_or_is_not (P : Task → Bool) (h : i < s.tasks.length) : s.Is P i ∨ s.Is (fun t => !P t) i := by
  rw [System.Is, System.Is, List.getElem?_eq_getElem h]
  cases hP : P s.tasks[i]
  · exact .inr (by simp [hP])
  · exact .inl hP

/-! ### What a call leaves -/

/-- What the caller may rely on when the call has returned. -/
structure System.Stopped (s : System) (result : Bool) : Prop where
  finished : result = true → s.late = []
  aborted : result = false → ∀ i ∈ s.late, s.Is Task.aborted i
  attached : ∀ i < s.launched, s.Is Task.finished i ∨ s.Is Task.aborted i

/-- When the result is decided, the running tasks are those of kept handles, and none of them is awaited. -/
def Accounted (s : System) (a : Action) (_ : System) : Prop :=
  a = .timeout ∨ a = .pop ∧ s.drain = [] → ∀ i ∈ s.running, s.Is Task.kept i ∧ s.wait ≠ .awaiting i

def Wait.Waits : Wait → Prop
  | .locking | .popping | .awaiting _ => True
  | _ => False

def Wait.Late : Wait → Prop
  | .aborting | .returned false => True
  | _ => False

theorem Wait.Waits.undecided {w : Wait} (h : w.Waits) : ¬w.Late ∧ w ≠ .idle ∧ ∀ result, w ≠ .returned result := by
  cases w <;> simp_all [Wait.Waits, Wait.Late]

/-- As long as a call may still do what it should: the tasks it should abort are aborted or on the list. -/
def Settles (s : System) : Prop :=
  (s.wait = .returned true → s.late = []) ∧ (s.wait.Late → ∀ i ∈ s.late, s.Is Task.aborted i ∨ i ∈ s.drain)

/-- Each running task with a handle is on the list or awaited, and no handle is there twice. -/
structure Inv (s : System) : Prop where
  handles_nodup : s.handles.Nodup
  handles_kept : ∀ i ∈ s.handles, s.Is Task.kept i
  idle : s.wait = .idle → ∀ i, s.Is Task.kept i → i ∈ s.handles
  launched_le : s.launched ≤ s.tasks.length
  drain_nodup : s.drain.Nodup
  drain_kept : ∀ i ∈ s.drain, s.Is Task.kept i
  held : s.wait.Waits → ∀ i ∈ s.running, s.Is Task.kept i → i ∈ s.drain ∨ s.wait = .awaiting i
  inHand : ∀ i, s.wait = .awaiting i → i ∉ s.drain
  fresh : ¬s.wait.Late → ∀ i, ¬s.Is Task.aborted i
  late : (∃ result, s.wait = .returned result) ∨ s.wait.Late → ∀ i ∈ s.running, i ∈ s.late
  ended : s.wait = .returned false → s.drain = []

inductive Moves (s : System) : Action → System → Prop
  | launch (kind : ServerKind) :
      Moves s (.launch kind) { s with
        tasks := s.tasks ++ [⟨kind, false, false⟩]
        handles := if kind.kept then s.handles ++ [s.tasks.length] else s.handles }
  | finish (i : Nat) (t : Task) (task : s.tasks[i]? = some t) :
      Moves s (.finish i) { s with tasks := s.tasks.set i { t with finished := true } }
  | wait (idle : s.wait = .idle) :
      Moves s .wait { s with handles := [], drain := s.handles.reverse, wait := .locking, launched := s.tasks.length }
  | lock (locking : s.wait = .locking) : Moves s .lock { s with wait := .popping }
  | pop (i : Nat) (drain : List Nat) (popping : s.wait = .popping) (first : s.drain = i :: drain) :
      Moves s .pop { s with drain, wait := .awaiting i }
  | complete (popping : s.wait = .popping) (empty : s.drain = []) :
      Moves s .pop { s with wait := .returned true, late := s.running }
  | join (i : Nat) (awaiting : s.wait = .awaiting i) (finished : s.Is Task.finished i) :
      Moves s .join { s with wait := .popping }
  | timeout (waits : s.wait.Waits) : Moves s .timeout { s with wait := .aborting, late := s.running }
  | abort (i : Nat) (drain : List Nat) (aborting : s.wait = .aborting) (first : s.drain = i :: drain) :
      Moves s .abort { s with drain, tasks := s.tasks.modify i fun t => { t with aborted := true } }
  | giveUp (aborting : s.wait = .aborting) (empty : s.drain = []) : Moves s .abort { s with wait := .returned false }

variable {a : Action}

theorem step_moves (h : machine.step s a = some s') : Moves s a s' := by
  cases a with
  | launch kind =>
    cases h
    exact .launch kind
  | finish i =>
    simp only [machine, step] at h
    split at h
    · rename_i t ht
      obtain ⟨-, heq⟩ := Option.ite_none_left_eq_some.mp h
      cases heq
      exact .finish i t ht
    · cases h
  | wait =>
    simp only [machine, step] at h
    split at h
    · rename_i hwait
      cases h
      exact .wait hwait
    · cases h
  | lock =>
    simp only [machine, step] at h
    split at h
    · rename_i hwait
      cases h
      exact .lock hwait
    · cases h
  | pop =>
    simp only [machine, step] at h
    split at h
    · rename_i i drain hwait hdrain
      cases h
      exact .pop i drain hwait hdrain
    · rename_i hwait hdrain
      cases h
      exact .complete hwait hdrain
    · cases h
  | join =>
    simp only [machine, step] at h
    split at h
    · rename_i i hwait
      obtain ⟨hfinished, heq⟩ := Option.ite_none_right_eq_some.mp h
      cases heq
      exact .join i hwait hfinished
    · cases h
  | timeout =>
    simp only [machine, step] at h
    split at h
    · rename_i hwait
      cases h
      exact .timeout (by rw [hwait]; trivial)
    · rename_i i hwait
      cases h
      exact .timeout (by rw [hwait]; trivial)
    · cases h
  | abort =>
    simp only [machine, step] at h
    split at h
    · rename_i i drain hwait hdrain
      cases h
      exact .abort i drain hwait hdrain
    · rename_i hwait hdrain
      cases h
      exact .giveUp hwait hdrain
    · cases h

/-! ### One step -/

theorem inv_new : Inv .new := by
  have hnone : ∀ {P : Task → Bool} {i : Nat}, ¬System.new.Is P i := by
    rintro P i ⟨⟩
  constructor
  · exact List.nodup_nil
  · exact fun i hi => absurd hi List.not_mem_nil
  · exact fun _ i hi => absurd hi hnone
  · exact Nat.le_refl 0
  · exact List.nodup_nil
  · exact fun i hi => absurd hi List.not_mem_nil
  · exact fun h => h.elim
  · exact fun i _ => List.not_mem_nil
  · exact fun _ i => hnone
  · rintro (⟨result, ⟨⟩⟩ | hlate)
    exact hlate.elim
  · exact fun _ => rfl

theorem mem_running_launch (h : Inv s) (t : Task) (htasks : s'.tasks = s.tasks ++ [t])
    (hlaunched : s'.launched = s.launched) : i ∈ s'.running ↔ i ∈ s.running := by
  rw [mem_running, mem_running, hlaunched, is_append t htasks]
  refine and_congr_right fun hi => or_iff_left fun heq => ?_
  have hle := h.launched_le
  omega

theorem Inv.launch (h : Inv s) {kind : ServerKind} (htasks : s'.tasks = s.tasks ++ [⟨kind, false, false⟩])
    (hhandles : s'.handles = if kind.kept then s.handles ++ [s.tasks.length] else s.handles)
    (hdrain : s'.drain = s.drain) (hwait : s'.wait = s.wait) (hlaunched : s'.launched = s.launched)
    (hlate : s'.late = s.late) : Inv s' := by
  have his : ∀ {P : Task → Bool} {i : Nat},
      s'.Is P i ↔ s.Is P i ∨ i = s.tasks.length ∧ P ⟨kind, false, false⟩ = true := is_append _ htasks
  have hrunning : ∀ {i : Nat}, i ∈ s'.running ↔ i ∈ s.running := mem_running_launch h _ htasks hlaunched
  have hnew : s.tasks.length ∉ s.handles := fun hmem =>
    Nat.lt_irrefl _ (lt_length_of_is (h.handles_kept _ hmem))
  have hmem : ∀ {i : Nat}, i ∈ s'.handles ↔ i ∈ s.handles ∨ i = s.tasks.length ∧ kind.kept = true := by
    intro i
    rw [hhandles]
    cases kind.kept <;> simp
  constructor
  · rw [hhandles]
    split
    · rw [← List.concat_eq_append]
      exact h.handles_nodup.concat hnew
    · exact h.handles_nodup
  · intro i hi
    rw [his]
    exact (hmem.mp hi).imp_left (h.handles_kept i)
  · intro hidle i hi
    rw [hwait] at hidle
    rw [hmem]
    exact (his.mp hi).imp_left (h.idle hidle i)
  · rw [hlaunched, htasks, List.length_append]
    exact Nat.le_add_right_of_le h.launched_le
  · rw [hdrain]
    exact h.drain_nodup
  · rw [hdrain]
    exact fun i hi => his.mpr (.inl (h.drain_kept i hi))
  · intro hwaits i hi hkept
    rw [hwait] at hwaits ⊢
    rw [hdrain]
    have hold := hrunning.mp hi
    have hlt := lt_length_of_is (mem_running.mp hold).2
    exact h.held hwaits i hold ((his.mp hkept).resolve_right fun heq => Nat.ne_of_lt hlt heq.1)
  · rw [hwait, hdrain]
    exact h.inHand
  · rw [hwait]
    intro hearly i hi
    rcases his.mp hi with hold | ⟨-, hfalse⟩
    · exact h.fresh hearly i hold
    · cases hfalse
  · rw [hwait, hlate]
    exact fun hdecided i hi => h.late hdecided i (hrunning.mp hi)
  · rw [hwait, hdrain]
    exact h.ended

/-- The tasks change, but not which of them have a handle, and none begins to run. -/
theorem Inv.tasks (h : Inv s) (hkept : ∀ {i}, s'.Is Task.kept i ↔ s.Is Task.kept i)
    (hrunning : ∀ i ∈ s'.running, i ∈ s.running)
    (haborted : ¬s.wait.Late → ∀ i, s'.Is Task.aborted i → s.Is Task.aborted i)
    (hlength : s'.tasks.length = s.tasks.length) (hhandles : s'.handles = s.handles)
    (hsub : s'.drain.Sublist s.drain) (hdrain : s.wait.Waits → s'.drain = s.drain)
    (hwait : s'.wait = s.wait) (hlaunched : s'.launched = s.launched) (hlate : s'.late = s.late) : Inv s' := by
  constructor
  · rw [hhandles]
    exact h.handles_nodup
  · rw [hhandles]
    exact fun i hi => hkept.mpr (h.handles_kept i hi)
  · rw [hwait, hhandles]
    exact fun hidle i hi => h.idle hidle i (hkept.mp hi)
  · rw [hlaunched, hlength]
    exact h.launched_le
  · exact h.drain_nodup.sublist hsub
  · exact fun i hi => hkept.mpr (h.drain_kept i (hsub.mem hi))
  · rw [hwait]
    intro hwaits i hi hik
    rw [hdrain hwaits]
    exact h.held hwaits i (hrunning i hi) (hkept.mp hik)
  · rw [hwait]
    exact fun i hi hmem => h.inHand i hi (hsub.mem hmem)
  · rw [hwait]
    exact fun hearly i hi => h.fresh hearly i (haborted hearly i hi)
  · rw [hwait, hlate]
    exact fun hdecided i hi => h.late hdecided i (hrunning i hi)
  · rw [hwait]
    intro hended
    rw [h.ended hended] at hsub
    exact List.sublist_nil.mp hsub

theorem Inv.finish (h : Inv s) {t : Task} (ht : s.tasks[j]? = some t)
    (htasks : s'.tasks = s.tasks.set j { t with finished := true }) (hhandles : s'.handles = s.handles)
    (hdrain : s'.drain = s.drain) (hwait : s'.wait = s.wait) (hlaunched : s'.launched = s.launched)
    (hlate : s'.late = s.late) : Inv s' := by
  refine h.tasks (is_set_same ht htasks rfl) ?_ ?_ ?_ hhandles ?_ (fun _ => hdrain) hwait hlaunched hlate
  · intro i hi
    obtain ⟨hlt, hnot⟩ := mem_running.mp hi
    rw [is_set ht htasks] at hnot
    split at hnot
    · cases hnot
    · exact mem_running.mpr ⟨hlaunched ▸ hlt, hnot⟩
  · exact fun _ i hi => (is_set_same ht htasks rfl).mp hi
  · rw [htasks, List.length_set]
  · exact hdrain ▸ List.Sublist.refl s.drain

theorem Inv.phase (h : Inv s) (hwaits : s.wait.Waits) {drain : List Nat} {wait : Wait}
    (hsub : drain.Sublist s.drain) (hwait : wait.Waits)
    (hheld : ∀ i ∈ s.running, s.Is Task.kept i → i ∈ drain ∨ wait = .awaiting i)
    (hinHand : ∀ i, wait = .awaiting i → i ∉ drain) : Inv { s with drain, wait } := by
  obtain ⟨hnotLate, hnotIdle, hnotReturned⟩ := hwait.undecided
  constructor
  · exact h.handles_nodup
  · exact h.handles_kept
  · exact fun hidle => absurd hidle hnotIdle
  · exact h.launched_le
  · exact h.drain_nodup.sublist hsub
  · exact fun i hi => h.drain_kept i (hsub.mem hi)
  · exact fun _ => hheld
  · exact hinHand
  · exact fun _ => h.fresh hwaits.undecided.1
  · rintro (⟨result, hreturned⟩ | hlate)
    · exact absurd hreturned (hnotReturned result)
    · exact absurd hlate hnotLate
  · exact fun hreturned => absurd hreturned (hnotReturned false)

theorem Inv.decide (h : Inv s) {wait : Wait} (hwaits : s.wait.Waits)
    (hwait : wait = .returned true ∨ wait = .aborting) : Inv { s with wait, late := s.running } := by
  have hnot : wait ≠ .idle ∧ ¬wait.Waits ∧ (∀ i, wait ≠ .awaiting i) ∧ wait ≠ .returned false := by
    rcases hwait with rfl | rfl <;> simp [Wait.Waits]
  obtain ⟨hnotIdle, hnotWaits, hnotAwaiting, hnotReturned⟩ := hnot
  constructor
  · exact h.handles_nodup
  · exact h.handles_kept
  · exact fun hidle => absurd hidle hnotIdle
  · exact h.launched_le
  · exact h.drain_nodup
  · exact h.drain_kept
  · exact fun hw => absurd hw hnotWaits
  · exact fun i hawaiting => absurd hawaiting (hnotAwaiting i)
  · exact fun _ => h.fresh hwaits.undecided.1
  · exact fun _ i hi => hi
  · exact fun hreturned => absurd hreturned hnotReturned

theorem Inv.abort (h : Inv s) (haborting : s.wait = .aborting) (hfirst : s.drain = j :: s'.drain)
    (htasks : s'.tasks = s.tasks.modify j fun t => { t with aborted := true }) (hhandles : s'.handles = s.handles)
    (hwait : s'.wait = s.wait) (hlaunched : s'.launched = s.launched) (hlate : s'.late = s.late) : Inv s' := by
  refine h.tasks (is_modify_same htasks fun _ => rfl) ?_ ?_ ?_ hhandles ?_ ?_ hwait hlaunched hlate
  · intro i hi
    rw [mem_running, is_modify_same htasks fun _ => rfl, hlaunched] at hi
    exact mem_running.mpr hi
  · rw [haborting]
    exact fun hearly => absurd trivial hearly
  · rw [htasks, List.length_modify]
  · rw [hfirst]
    exact List.sublist_cons_self j s'.drain
  · rw [haborting]
    exact False.elim

theorem Inv.giveUp (h : Inv s) (haborting : s.wait = .aborting) (hempty : s.drain = []) :
    Inv { s with wait := .returned false } := by
  have hlate : s.wait.Late := by
    rw [haborting]
    trivial
  constructor
  · exact h.handles_nodup
  · exact h.handles_kept
  · rintro ⟨⟩
  · exact h.launched_le
  · exact h.drain_nodup
  · exact h.drain_kept
  · exact False.elim
  · rintro i ⟨⟩
  · exact fun hnot => absurd trivial hnot
  · exact fun _ => h.late (.inr hlate)
  · exact fun _ => hempty

theorem Inv.step (h : Inv s) (hmoves : Moves s a s') : Inv s' := by
  cases hmoves with
  | launch kind => exact h.launch rfl rfl rfl rfl rfl rfl
  | finish i t ht => exact h.finish ht rfl rfl rfl rfl rfl rfl
  | wait hidle =>
    have hearly : ¬s.wait.Late := by
      rw [hidle]
      exact id
    constructor
    · exact List.nodup_nil
    · exact fun i hi => absurd hi List.not_mem_nil
    · rintro ⟨⟩
    · exact Nat.le_refl _
    · exact List.nodup_reverse.mpr h.handles_nodup
    · exact fun i hi => h.handles_kept i (List.mem_reverse.mp hi)
    · exact fun _ i _ hkept => .inl (List.mem_reverse.mpr (h.idle hidle i hkept))
    · rintro i ⟨⟩
    · exact fun _ => h.fresh hearly
    · rintro (⟨result, ⟨⟩⟩ | hlate)
      exact hlate.elim
    · rintro ⟨⟩
  | lock hlocking =>
    have hwaits : s.wait.Waits := by
      rw [hlocking]
      trivial
    refine h.phase hwaits (List.Sublist.refl _) trivial (fun i hi hkept => ?_) (by rintro i ⟨⟩)
    refine .inl ((h.held hwaits i hi hkept).resolve_right ?_)
    rw [hlocking]
    rintro ⟨⟩
  | pop i drain hpopping hfirst =>
    have hwaits : s.wait.Waits := by
      rw [hpopping]
      trivial
    refine h.phase hwaits (hfirst ▸ List.sublist_cons_self i drain) trivial (fun j hj hkept => ?_) ?_
    · have hmem := (h.held hwaits j hj hkept).resolve_right (by rw [hpopping]; rintro ⟨⟩)
      rw [hfirst] at hmem
      rcases List.mem_cons.mp hmem with rfl | hrest
      · exact .inr rfl
      · exact .inl hrest
    · rintro j ⟨⟩
      have hnodup := h.drain_nodup
      rw [hfirst] at hnodup
      exact (List.nodup_cons.mp hnodup).1
  | complete hpopping hempty =>
    refine h.decide ?_ (.inl rfl)
    rw [hpopping]
    trivial
  | join i hawaiting hfinished =>
    have hwaits : s.wait.Waits := by
      rw [hawaiting]
      trivial
    refine h.phase hwaits (List.Sublist.refl _) trivial (fun j hj hkept => ?_) (by rintro j ⟨⟩)
    refine .inl ((h.held hwaits j hj hkept).resolve_right ?_)
    rw [hawaiting]
    -- The task that is awaited has finished.
    rintro ⟨⟩
    exact not_is_not (mem_running.mp hj).2 hfinished
  | timeout hwaits => exact h.decide hwaits (.inr rfl)
  | abort i drain haborting hfirst => exact h.abort haborting hfirst rfl rfl rfl rfl rfl
  | giveUp haborting hempty => exact h.giveUp haborting hempty

/-! ### What can still be stopped -/

theorem settles_frame (hwait : s'.wait = s.wait) (hlate : s'.late = s.late) (hdrain : s'.drain = s.drain)
    (haborted : ∀ i, s'.Is Task.aborted i ↔ s.Is Task.aborted i) : Settles s' ↔ Settles s := by
  simp only [Settles, hwait, hlate, hdrain, haborted]

theorem settles_of_waits (h : s.wait.Waits ∨ s.wait = .idle) : Settles s := by
  rcases h with hwaits | hidle
  · obtain ⟨hnotLate, -, hnotReturned⟩ := hwaits.undecided
    exact ⟨fun hreturned => absurd hreturned (hnotReturned true), fun hlate => absurd hlate hnotLate⟩
  · simp [Settles, Wait.Late, hidle]

theorem settles_complete (h : Inv s) (hpopping : s.wait = .popping) (hempty : s.drain = []) :
    Settles { s with wait := .returned true, late := s.running } ↔ Accounted s .pop s' := by
  have hwaits : s.wait.Waits := by
    rw [hpopping]
    trivial
  have hnone : ∀ i ∈ s.running, ¬s.Is Task.kept i := by
    intro i hi hkept
    have hheld := h.held hwaits i hi hkept
    rw [hempty, hpopping] at hheld
    rcases hheld with hmem | hawaiting
    · cases hmem
    · cases hawaiting
  constructor
  · intro hsettles _ i hi
    rw [show s.running = [] from hsettles.1 rfl] at hi
    cases hi
  · intro haccounted
    refine ⟨fun _ => List.eq_nil_iff_forall_not_mem.mpr fun i hi => ?_, False.elim⟩
    exact hnone i hi (haccounted (.inr ⟨rfl, hempty⟩) i hi).1

/-- What runs when the timeout fires is aborted behind it, if its handle is on the list. -/
theorem settles_timeout (h : Inv s) (hwaits : s.wait.Waits) :
    Settles { s with wait := .aborting, late := s.running } ↔ Accounted s .timeout s' := by
  constructor
  · intro hsettles _ i hi
    have hmem : i ∈ s.drain := (hsettles.2 trivial i hi).resolve_left (h.fresh hwaits.undecided.1 i)
    exact ⟨h.drain_kept i hmem, fun hawaiting => h.inHand i hawaiting hmem⟩
  · intro haccounted
    refine ⟨by rintro ⟨⟩, fun _ i hi => .inr ?_⟩
    obtain ⟨hkept, hnot⟩ := haccounted (.inl rfl) i hi
    exact (h.held hwaits i hi hkept).resolve_right hnot

theorem settles_abort (h : Inv s) (haborting : s.wait = .aborting) (hfirst : s.drain = j :: s'.drain)
    (htasks : s'.tasks = s.tasks.modify j fun t => { t with aborted := true }) (hwait : s'.wait = s.wait)
    (hlate : s'.late = s.late) : Settles s' ↔ Settles s := by
  have hj : s.Is (fun _ => true) j := by
    have hlt := lt_length_of_is (h.drain_kept j (hfirst ▸ List.mem_cons_self))
    rw [System.Is, List.getElem?_eq_getElem hlt]
    rfl
  have hdone : ∀ i, s'.Is Task.aborted i ∨ i ∈ s'.drain ↔ s.Is Task.aborted i ∨ i ∈ s.drain := by
    intro i
    rw [is_modify htasks, hfirst, List.mem_cons]
    by_cases hi : i = j
    · rw [if_pos hi, hi]
      exact iff_of_true (.inl hj) (.inr (.inl rfl))
    · rw [if_neg hi]
      simp [hi]
  simp only [Settles, hwait, hlate, haborting, hdone]

/-- A step keeps what can still be stopped, unless it decides the result with a task unaccounted for. -/
theorem settles_step (h : Inv s) (hmoves : Moves s a s') : Settles s' ↔ Settles s ∧ Accounted s a s' := by
  have hother : ∀ {a : Action}, a ≠ .timeout → a ≠ .pop → Accounted s a s' := by
    rintro a htimeout hpop (heq | ⟨heq, -⟩)
    · exact absurd heq htimeout
    · exact absurd heq hpop
  cases hmoves with
  | launch kind =>
    rw [and_iff_left (hother (by simp) (by simp))]
    refine settles_frame rfl rfl rfl fun i => ?_
    rw [is_append ⟨kind, false, false⟩ rfl]
    simp
  | finish i t ht =>
    rw [and_iff_left (hother (by simp) (by simp))]
    exact settles_frame rfl rfl rfl fun j => is_set_same ht rfl rfl
  | wait hidle =>
    rw [and_iff_left (hother (by simp) (by simp))]
    exact iff_of_true (settles_of_waits (.inl trivial)) (settles_of_waits (.inr hidle))
  | lock hlocking =>
    rw [and_iff_left (hother (by simp) (by simp))]
    refine iff_of_true (settles_of_waits (.inl trivial)) (settles_of_waits (.inl ?_))
    rw [hlocking]
    trivial
  | pop i drain hpopping hfirst =>
    refine iff_of_true (settles_of_waits (.inl trivial)) ⟨settles_of_waits (.inl ?_), ?_⟩
    · rw [hpopping]
      trivial
    · rintro (htimeout | hpop)
      · cases htimeout
      · rw [hfirst] at hpop
        cases hpop.2
  | complete hpopping hempty =>
    rw [and_iff_right (settles_of_waits (.inl (hpopping ▸ trivial)))]
    exact settles_complete h hpopping hempty
  | join i hawaiting hfinished =>
    rw [and_iff_left (hother (by simp) (by simp))]
    refine iff_of_true (settles_of_waits (.inl trivial)) (settles_of_waits (.inl ?_))
    rw [hawaiting]
    trivial
  | timeout hwaits =>
    rw [and_iff_right (settles_of_waits (.inl hwaits))]
    exact settles_timeout h hwaits
  | abort i drain haborting hfirst =>
    rw [and_iff_left (hother (by simp) (by simp))]
    exact settles_abort h haborting hfirst rfl rfl rfl
  | giveUp haborting hempty =>
    rw [and_iff_left (hother (by simp) (by simp))]
    simp [Settles, haborting, Wait.Late, System.Is]

/-! ### Whole runs -/

variable {es : List Action}

theorem inv_of_run (hrun : machine.run .new es = some s) : Inv s :=
  Machine.run_invariant (fun _ _ _ hI hstep => hI.step (step_moves hstep)) inv_new hrun

theorem settles_iff (hrun : machine.run .new es = some s) : Settles s ↔ machine.Each Accounted .new es := by
  rw [Machine.last_iff_each (I := Inv) (J := Settles) (C := Accounted)
    (fun s e s' hI hstep => ⟨hI.step (step_moves hstep), settles_step hI (step_moves hstep)⟩) inv_new hrun]
  exact and_iff_right (settles_of_waits (.inr rfl))

theorem settles_iff_stopped (h : Inv s) {result : Bool} (hwait : s.wait = .returned result) :
    Settles s ↔ s.Stopped result := by
  have hlate : ∀ i < s.launched, s.Is Task.finished i ∨ i ∈ s.late := by
    intro i hi
    refine (is_or_is_not Task.finished (Nat.lt_of_lt_of_le hi h.launched_le)).imp_right fun hnot => ?_
    exact h.late (.inl ⟨result, hwait⟩) i (mem_running.mpr ⟨hi, hnot⟩)
  cases result with
  | true =>
    constructor
    · intro hsettles
      have hnil := hsettles.1 hwait
      refine ⟨fun _ => hnil, by rintro ⟨⟩, fun i hi => .inl ((hlate i hi).resolve_right ?_)⟩
      rw [hnil]
      exact List.not_mem_nil
    · intro hstopped
      refine ⟨fun _ => hstopped.finished rfl, ?_⟩
      rw [hwait]
      exact False.elim
  | false =>
    have hdrain := h.ended hwait
    constructor
    · intro hsettles
      have haborted : ∀ i ∈ s.late, s.Is Task.aborted i := by
        intro i hi
        refine (hsettles.2 (hwait ▸ trivial) i hi).resolve_right ?_
        rw [hdrain]
        exact List.not_mem_nil
      exact ⟨by rintro ⟨⟩, fun _ => haborted, fun i hi => (hlate i hi).imp_right (haborted i)⟩
    · intro hstopped
      refine ⟨?_, fun _ i hi => .inl (hstopped.aborted rfl i hi)⟩
      rw [hwait]
      rintro ⟨⟩

/-- A call has finished or aborted every server when it returns, exactly if those that run when the result is decided have a handle that is kept and is not the one awaited. -/
theorem stopped_iff {result : Bool} (hrun : machine.run .new es = some s) (hwait : s.wait = .returned result) :
    s.Stopped result ↔ machine.Each Accounted .new es := by
  rw [← settles_iff hrun]
  exact (settles_iff_stopped (inv_of_run hrun) hwait).symm

instance (s : System) (P : Task → Bool) (i : Nat) : Decidable (s.Is P i) :=
  inferInstanceAs (Decidable (_ = true))

instance (s : System) (a : Action) (s' : System) : Decidable (Accounted s a s') :=
  inferInstanceAs (Decidable (_ → ∀ i ∈ s.running, _ ∧ _))

/-- Both servers finish, one before it is awaited and the other one meanwhile. -/
theorem stopped_iff_two :
    ∃ s, machine.run .new
        [.launch .udp, .launch .tcp, .wait, .lock, .finish 1, .pop, .join, .pop, .finish 0, .join, .pop] = some s ∧
      s.wait = .returned true ∧ s.Stopped true := by
  have haccounted : machine.Each Accounted .new
      [.launch .udp, .launch .tcp, .wait, .lock, .finish 1, .pop, .join, .pop, .finish 0, .join, .pop] := by
    decide +kernel
  exact ⟨_, rfl, rfl, (stopped_iff rfl rfl).mpr haccounted⟩

/-- The server that is awaited when the timeout fires runs on. -/
theorem not_stopped_awaited :
    ¬∀ (es : List Action) (s : System) (result : Bool), machine.run .new es = some s → s.wait = .returned result →
      s.Stopped result := by
  intro h
  have hstopped := h [.launch .udp, .wait, .lock, .pop, .timeout, .abort] _ false rfl rfl
  exact absurd (hstopped.aborted rfl 0 (by decide)) (by decide)

end ServerLauncher

end Lazydns
