import Lazydns.Lib.Slots
import Lazydns.Util.Watcher

/-!
# What a watcher keeps

A file has a record exactly as long as a debounce task for it is there or about to be spawned, and there is at most one. Only one task at a time holds the lock of the records, and it holds it from the check to the end of the callback, so no event is recorded in between.
-/

namespace Lazydns

namespace FileWatcher

variable {Path : Type}

/-- The file for which the loop is about to spawn a task. -/
def Loop.due : Loop Path → Option Path
  | .rewatching path false _ => some path
  | .scheduling path false => some path
  | _ => none

/-- The time of the event that waits to be recorded. -/
def Loop.time : Loop Path → Option Nat
  | .recording _ now _ => some now
  | _ => none

def Phase.holdsMap : Phase → Prop
  | .checking | .quiesced | .calling => True
  | _ => False

theorem due_next (paths : List Path) (removed : Bool) : (Loop.next paths removed).due = none := by
  cases paths <;> rfl

theorem time_next (paths : List Path) (removed : Bool) : (Loop.next paths removed).time = none := by
  cases paths <;> rfl

/-- Each lock is held by the task that is where it needs it. -/
structure Locks (s : System Path) : Prop where
  map : ∀ i, s.mapLock = some i ↔ ∃ t, s.tasks[i]? = some t ∧ t.phase.holdsMap
  callback : ∀ i, s.callbackLock = some i ↔ ∃ t, s.tasks[i]? = some t ∧ t.phase = .calling

theorem Locks.set {s s' : System Path} {i : Nat} {path : Path} {phase phase' : Phase} (h : Locks s) (hi : s.tasks[i]? = some ⟨path, phase⟩)
    (htasks : s'.tasks = s.tasks.set i ⟨path, phase'⟩) (hmap : s'.mapLock = some i ↔ phase'.holdsMap)
    (hcallback : s'.callbackLock = some i ↔ phase' = .calling)
    (hmaps : ∀ j ≠ i, (s'.mapLock = some j ↔ s.mapLock = some j))
    (hcallbacks : ∀ j ≠ i, (s'.callbackLock = some j ↔ s.callbackLock = some j)) : Locks s' := by
  have hplace : ∀ (j : Nat) (P : Phase → Prop),
      (∃ t, s'.tasks[j]? = some t ∧ P t.phase) ↔ if j = i then P phase' else ∃ t, s.tasks[j]? = some t ∧ P t.phase := by
    intro j P
    simp only [htasks, Slots.getElem?_set_iff hi]
    by_cases hj : j = i
    · subst hj
      simp
    · simp [hj]
  constructor
  · intro j
    rw [hplace]
    split
    · rename_i hj
      rw [hj, hmap]
    · rename_i hj
      rw [hmaps j hj, h.map]
  · intro j
    rw [hplace j (· = .calling)]
    split
    · rename_i hj
      rw [hj, hcallback]
    · rename_i hj
      rw [hcallbacks j hj, h.callback]

/-- Only one task at a time holds the lock of the records. -/
theorem Locks.map_unique {s : System Path} {i j : Nat} {t u : Task Path} (h : Locks s) (hi : s.tasks[i]? = some t)
    (hj : s.tasks[j]? = some u) (ht : t.phase.holdsMap) (hu : u.phase.holdsMap) : i = j := by
  have hlock := (h.map i).mpr ⟨t, hi, ht⟩
  rw [(h.map j).mpr ⟨u, hj, hu⟩] at hlock
  exact (Option.some.inj hlock).symm

/-- A callback holds the lock of the records too, so a task that waits with that lock does not wait for long. -/
theorem Locks.callback_free {s : System Path} {i : Nat} {path : Path} (h : Locks s) (hi : s.tasks[i]? = some ⟨path, .quiesced⟩) :
    s.callbackLock = none := by
  refine Option.eq_none_iff_forall_ne_some.mpr fun j hj => ?_
  obtain ⟨t, ht, hcalling⟩ := (h.callback j).mp hj
  obtain rfl := h.map_unique hi ht trivial (hcalling ▸ trivial)
  rw [hi] at ht
  cases ht
  cases hcalling

/-- A debounce task for the file is there or about to be spawned. -/
def System.Busy (s : System Path) (path : Path) : Prop :=
  s.loop.due = some path ∨
    ∃ (i : Nat) (t : Task Path), s.tasks[i]? = some t ∧ t.path = path ∧ t.phase ≠ .ended

/-- A file has a record exactly as long as it has a task, and it has at most one. -/
structure Marked (s : System Path) : Prop where
  marked : ∀ path, s.pendingMap path ≠ none ↔ s.Busy path
  unique : ∀ (i j : Nat) (t u : Task Path), s.tasks[i]? = some t → s.tasks[j]? = some u → t.path = u.path →
    t.phase ≠ .ended → u.phase ≠ .ended → i = j
  due : ∀ (i : Nat) (t : Task Path), s.tasks[i]? = some t → s.loop.due = some t.path → t.phase = .ended

theorem Marked.move {s s' : System Path} {i : Nat} {path : Path} {phase phase' : Phase} (h : Marked s)
    (hi : s.tasks[i]? = some ⟨path, phase⟩) (htasks : s'.tasks = s.tasks.set i ⟨path, phase'⟩)
    (hmap : s'.pendingMap = s.pendingMap) (hloop : s'.loop = s.loop) (hphase : phase ≠ .ended) (hphase' : phase' ≠ .ended) :
    Marked s' := by
  -- At each place the path and whether the task has ended are as they were.
  have hold : ∀ {j : Nat} {t : Task Path}, s'.tasks[j]? = some t →
      ∃ t', s.tasks[j]? = some t' ∧ t'.path = t.path ∧ (t'.phase = .ended ↔ t.phase = .ended) := by
    intro j t ht
    rw [htasks] at ht
    rcases (Slots.getElem?_set_iff hi).mp ht with ⟨rfl, rfl⟩ | ⟨-, ht⟩
    · exact ⟨_, hi, rfl, iff_of_false hphase hphase'⟩
    · exact ⟨t, ht, rfl, .rfl⟩
  have hnew : ∀ {j : Nat} {t : Task Path}, s.tasks[j]? = some t →
      ∃ t', s'.tasks[j]? = some t' ∧ t'.path = t.path ∧ (t'.phase = .ended ↔ t.phase = .ended) := by
    intro j t ht
    rw [htasks]
    by_cases hj : j = i
    · subst hj
      rw [hi] at ht
      cases ht
      exact ⟨_, (Slots.getElem?_set_iff hi).mpr (.inl ⟨rfl, rfl⟩), rfl, iff_of_false hphase' hphase⟩
    · exact ⟨t, (Slots.getElem?_set_iff hi).mpr (.inr ⟨hj, ht⟩), rfl, .rfl⟩
  constructor
  · intro q
    rw [hmap, h.marked q, System.Busy, System.Busy, hloop]
    refine or_congr .rfl ⟨?_, ?_⟩
    · rintro ⟨j, t, ht, rfl, hlive⟩
      obtain ⟨t', ht', hpath, hended⟩ := hnew ht
      exact ⟨j, t', ht', hpath, fun h => hlive (hended.mp h)⟩
    · rintro ⟨j, t, ht, rfl, hlive⟩
      obtain ⟨t', ht', hpath, hended⟩ := hold ht
      exact ⟨j, t', ht', hpath, fun h => hlive (hended.mp h)⟩
  · intro j k t u ht hu hpath hlive hlive'
    obtain ⟨t', ht', htpath, htended⟩ := hold ht
    obtain ⟨u', hu', hupath, huended⟩ := hold hu
    exact h.unique j k t' u' ht' hu' (htpath.trans (hpath.trans hupath.symm)) (fun h => hlive (htended.mp h))
      fun h => hlive' (huended.mp h)
  · intro j t ht hdue
    obtain ⟨t', ht', hpath, hended⟩ := hold ht
    rw [hloop, ← hpath] at hdue
    exact hended.mp (h.due j t' ht' hdue)

/-! ### Steps -/

inductive Moves [DecidableEq Path] (w : Watcher Path) (s : System Path) : System Path → Prop
  | aside {s' : System Path} (tasks : s'.tasks = s.tasks) (pendingMap : s'.pendingMap = s.pendingMap)
      (mapLock : s'.mapLock = s.mapLock) (callbackLock : s'.callbackLock = s.callbackLock) (log : s'.log = s.log)
      (now : s.now ≤ s'.now) (due : s'.loop.due = s.loop.due)
      (time : ∀ time, s'.loop.time = some time → s.loop.time = some time ∨ time = s.now) : Moves w s s'
  | record (path : Path) (time : Nat) (loop : Loop Path) (recording : s.loop.time = some time) (undue : s.loop.due = none)
      (free : s.mapLock = none) (due : loop.due = if (s.pendingMap path).isSome then none else some path)
      (recorded : loop.time = none) :
      Moves w s { s with
        pendingMap := Function.update s.pendingMap path (some time), loop, log := .recorded path time :: s.log }
  | schedule (path : Path) (wake : Nat) (due : s.loop.due = some path) :
      Moves w s { s with tasks := s.tasks ++ [⟨path, .sleeping wake⟩], loop := .selecting }
  | wake (i : Nat) (path : Path) (wake : Nat) (task : s.tasks[i]? = some ⟨path, .sleeping wake⟩) :
      Moves w s (s.setPhase i path .locking)
  | lock (i : Nat) (path : Path) (task : s.tasks[i]? = some ⟨path, .locking⟩) (free : s.mapLock = none) :
      Moves w s { s.setPhase i path .checking with mapLock := some i }
  | again (i : Nat) (path : Path) (wake : Nat) (task : s.tasks[i]? = some ⟨path, .checking⟩) :
      Moves w s { s.setPhase i path (.sleeping wake) with mapLock := none }
  | vanish (i : Nat) (path : Path) (task : s.tasks[i]? = some ⟨path, .checking⟩) (unmarked : s.pendingMap path = none) :
      Moves w s { s.setPhase i path .ended with mapLock := none }
  | pass (i : Nat) (path : Path) (time : Nat) (task : s.tasks[i]? = some ⟨path, .checking⟩)
      (marked : s.pendingMap path = some time) (quiet : w.debounce ≤ s.now - time) :
      Moves w s (s.setPhase i path .quiesced)
  | call (i : Nat) (path : Path) (task : s.tasks[i]? = some ⟨path, .quiesced⟩) (free : s.callbackLock = none) :
      Moves w s { s.setPhase i path .calling with callbackLock := some i, log := .called path s.now :: s.log }
  | finish (i : Nat) (path : Path) (task : s.tasks[i]? = some ⟨path, .calling⟩) :
      Moves w s { s.setPhase i path .ended with
        pendingMap := Function.update s.pendingMap path none, callbackLock := none, mapLock := none }

variable [DecidableEq Path] {w : Watcher Path} {s s' : System Path} {a : Action Path}

theorem Moves.loop {s' : System Path} {loop : Loop Path} (hs' : s' = { s with events := s'.events, stop := s'.stop, loop })
    (hdue : loop.due = s.loop.due) (htime : ∀ time, loop.time = some time → time = s.now) : Moves w s s' := by
  rw [hs']
  exact .aside rfl rfl rfl rfl rfl (Nat.le_refl _) hdue fun time h => .inr (htime time h)

theorem moves_select (hloop : s.loop = .selecting) (h : s.select = some s') : Moves w s s' := by
  have hdue : s.loop.due = none := by rw [hloop]; rfl
  have hended : ∀ value : Bool, (if value then Loop.ended else .selecting : Loop Path).due = none ∧
      (if value then Loop.ended else .selecting : Loop Path).time = none := by
    intro value
    cases value <;> exact ⟨rfl, rfl⟩
  rw [System.select] at h
  split at h
  · cases h
    refine .loop rfl ((due_next _ _).trans hdue.symm) fun time h => ?_
    cases (time_next _ _).symm.trans h
  · split at h
    · cases h
      exact .loop rfl hdue.symm (by rintro _ ⟨⟩)
    · split at h
      · cases h
        refine .loop rfl ((hended _).1.trans hdue.symm) fun time h => ?_
        cases (hended _).2.symm.trans h
      · split at h
        · cases h
          refine .loop rfl ((hended _).1.trans hdue.symm) fun time h => ?_
          cases (hended _).2.symm.trans h
        · cases h

theorem moves_canonicalize {canonical : Option Path} (h : step w s (.canonicalize canonical) = some s') :
    Moves w s s' := by
  simp only [step] at h
  split at h
  · rename_i paths removed hloop
    have hdue : s.loop.due = none := by
      rw [hloop]
      rfl
    split at h
    · cases h
      exact .loop rfl hdue.symm fun time htime => (Option.some.inj htime).symm
    · cases h
      refine .loop rfl ((due_next _ _).trans hdue.symm) fun time h => ?_
      cases (time_next _ _).symm.trans h
  · cases h

theorem moves_record (h : step w s .record = some s') : Moves w s s' := by
  simp only [step] at h
  split at h
  · rename_i path now removed hloop hfree
    cases h
    refine .record path now _ (by rw [hloop]; rfl) (by rw [hloop]; rfl) hfree ?_ ?_
    · cases removed <;> cases s.pendingMap path <;> rfl
    · cases removed <;> rfl
  · cases h

theorem moves_rewatch (h : step w s .rewatch = some s') : Moves w s s' := by
  simp only [step] at h
  split at h
  · rename_i path alreadyScheduled wake hloop
    obtain ⟨-, heq⟩ := Option.ite_none_right_eq_some.mp h
    cases heq
    refine .loop rfl ?_ (by rintro _ ⟨⟩)
    rw [hloop]
    cases alreadyScheduled <;> rfl
  · cases h

theorem moves_schedule (h : step w s .schedule = some s') : Moves w s s' := by
  simp only [step] at h
  split at h
  · rename_i path alreadyScheduled hloop
    cases h
    cases alreadyScheduled with
    | true =>
      refine .aside rfl rfl rfl rfl rfl (Nat.le_refl _) ?_ (by rintro _ ⟨⟩)
      rw [hloop]
      rfl
    | false => exact .schedule path _ (by rw [hloop]; rfl)
  · cases h

/-- A task that has the lock of the records goes on if its file has been quiet, and sleeps again if it has not. -/
theorem moves_check {i : Nat} (h : step w s (.check i) = some s') : Moves w s s' := by
  simp only [step] at h
  split at h
  · rename_i path hi
    split at h
    · rename_i time hmarked
      split at h
      · rename_i hquiet
        cases h
        exact .pass i path time hi hmarked hquiet
      · cases h
        exact .again i path _ hi
    · rename_i hunmarked
      cases h
      exact .vanish i path hi hunmarked
  · cases h

theorem step_moves (h : (machine w).step s a = some s') : Moves w s s' := by
  cases a with
  | elapse duration =>
    cases h
    exact .aside rfl rfl rfl rfl rfl (Nat.le_add_right _ _) rfl fun _ => .inl
  | notify event =>
    obtain ⟨-, heq⟩ := Option.ite_none_right_eq_some.mp h
    cases heq
    exact .aside rfl rfl rfl rfl rfl (Nat.le_refl _) rfl fun _ => .inl
  | close =>
    cases h
    exact .aside rfl rfl rfl rfl rfl (Nat.le_refl _) rfl fun _ => .inl
  | signal =>
    obtain ⟨-, heq⟩ := Option.ite_none_right_eq_some.mp h
    cases heq
    exact .aside rfl rfl rfl rfl rfl (Nat.le_refl _) rfl fun _ => .inl
  | drop =>
    cases h
    exact .aside rfl rfl rfl rfl rfl (Nat.le_refl _) rfl fun _ => .inl
  | select =>
    simp only [machine, step] at h
    split at h
    · rename_i hloop
      exact moves_select hloop h
    · cases h
  | canonicalize canonical => exact moves_canonicalize h
  | record => exact moves_record h
  | rewatch => exact moves_rewatch h
  | schedule => exact moves_schedule h
  | wake i =>
    simp only [machine, step] at h
    split at h
    · rename_i path wake hi
      obtain ⟨-, heq⟩ := Option.ite_none_right_eq_some.mp h
      cases heq
      exact .wake i path wake hi
    · cases h
  | lock i =>
    simp only [machine, step] at h
    split at h
    · rename_i path hi hfree
      cases h
      exact .lock i path hi hfree
    · cases h
  | check i => exact moves_check h
  | call i =>
    simp only [machine, step] at h
    split at h
    · rename_i path hi hfree
      cases h
      exact .call i path hi hfree
    · cases h
  | finish i =>
    simp only [machine, step] at h
    split at h
    · rename_i path hi
      cases h
      exact .finish i path hi
    · cases h

/-! ### Invariants -/

theorem Locks.step (h : Locks s) (hmoves : Moves w s s') : Locks s' := by
  have hmap : ∀ {i : Nat} {path : Path} {phase : Phase}, s.tasks[i]? = some ⟨path, phase⟩ →
      (s.mapLock = some i ↔ phase.holdsMap) := by
    intro i path phase hi
    rw [h.map, hi]
    simp
  have hcallback : ∀ {i : Nat} {path : Path} {phase : Phase}, s.tasks[i]? = some ⟨path, phase⟩ →
      (s.callbackLock = some i ↔ phase = .calling) := by
    intro i path phase hi
    rw [h.callback, hi]
    simp
  cases hmoves with
  | aside tasks _ mapLock callbackLock =>
    constructor
    · rw [tasks, mapLock]
      exact h.map
    · rw [tasks, callbackLock]
      exact h.callback
  | record path time loop _ _ free => exact ⟨h.map, h.callback⟩
  | schedule path wake due =>
    have hnew : ∀ (i : Nat) (P : Phase → Prop), ¬P (.sleeping wake) →
        ((∃ t, (s.tasks ++ [⟨path, .sleeping wake⟩])[i]? = some t ∧ P t.phase) ↔
          ∃ t, s.tasks[i]? = some t ∧ P t.phase) := by
      intro i P hP
      simp only [Slots.getElem?_append_iff]
      constructor
      · rintro ⟨t, ht | ⟨-, rfl⟩, hPt⟩
        · exact ⟨t, ht, hPt⟩
        · exact absurd hPt hP
      · exact fun ⟨t, ht, hPt⟩ => ⟨t, .inl ht, hPt⟩
    exact ⟨fun i => (h.map i).trans (hnew i Phase.holdsMap id).symm,
      fun i => (h.callback i).trans (hnew i (· = .calling) (by simp)).symm⟩
  | wake i path wake hi =>
    exact h.set hi rfl ((hmap hi).trans .rfl) ((hcallback hi).trans (by simp)) (fun _ _ => .rfl) fun _ _ => .rfl
  | lock i path hi free =>
    refine h.set hi rfl (iff_of_true rfl trivial) ((hcallback hi).trans (by simp)) (fun j hj => ?_) fun _ _ => .rfl
    rw [free]
    exact iff_of_false (fun heq => hj (Option.some.inj heq).symm) (by simp)
  | again i path wake hi =>
    refine h.set hi rfl (iff_of_false (by simp) id) ((hcallback hi).trans (by simp)) (fun j hj => ?_) fun _ _ => .rfl
    rw [(hmap hi).mpr trivial]
    exact iff_of_false (by simp) fun heq => hj (Option.some.inj heq).symm
  | vanish i path hi =>
    refine h.set hi rfl (iff_of_false (by simp) id) ((hcallback hi).trans (by simp)) (fun j hj => ?_) fun _ _ => .rfl
    rw [(hmap hi).mpr trivial]
    exact iff_of_false (by simp) fun heq => hj (Option.some.inj heq).symm
  | pass i path time hi =>
    exact h.set hi rfl ((hmap hi).trans .rfl) ((hcallback hi).trans (by simp)) (fun _ _ => .rfl) fun _ _ => .rfl
  | call i path hi free =>
    refine h.set hi rfl ((hmap hi).trans .rfl) (iff_of_true rfl rfl) (fun _ _ => .rfl) fun j hj => ?_
    rw [free]
    exact iff_of_false (fun heq => hj (Option.some.inj heq).symm) (by simp)
  | finish i path hi =>
    refine h.set hi rfl (iff_of_false (by simp) id) (iff_of_false (by simp) (by simp)) (fun j hj => ?_) fun j hj => ?_
    · rw [(hmap hi).mpr trivial]
      exact iff_of_false (by simp) fun heq => hj (Option.some.inj heq).symm
    · rw [(hcallback hi).mpr rfl]
      exact iff_of_false (by simp) fun heq => hj (Option.some.inj heq).symm

theorem Marked.record (h : Marked s) {path : Path} {time : Nat} {loop : Loop Path} {log : List (Entry Path)}
    (hundue : s.loop.due = none) (hloop : loop.due = if (s.pendingMap path).isSome then none else some path) :
    Marked { s with pendingMap := Function.update s.pendingMap path (some time), loop, log } := by
  have hidle : s.pendingMap path = none → ∀ (i : Nat) (t : Task Path), s.tasks[i]? = some t →
      t.path = path → t.phase = .ended := by
    intro hnone i t ht hpath
    by_contra hlive
    exact (h.marked path).mpr (.inr ⟨i, t, ht, hpath, hlive⟩) hnone
  refine ⟨fun q => ?_, h.unique, fun i t ht hdue => ?_⟩
  · by_cases hq : q = path
    · subst hq
      have hmarked : Function.update s.pendingMap q (some time) q ≠ none := by
        rw [Function.update_self]
        simp
      refine iff_of_true hmarked ?_
      cases hold : s.pendingMap q with
      | none =>
        rw [hold] at hloop
        exact .inl hloop
      | some old =>
        rcases (h.marked q).mp (by simp [hold]) with hdue | htask
        · rw [hundue] at hdue
          cases hdue
        · exact .inr htask
    · have hdue : loop.due ≠ some q := by
        rw [hloop]
        split
        · simp
        · exact fun heq => hq (Option.some.inj heq).symm
      dsimp only
      rw [Function.update_of_ne hq, h.marked q, System.Busy, System.Busy, hundue]
      exact or_congr (iff_of_false (by simp) hdue) .rfl
  · change loop.due = some t.path at hdue
    rw [hloop] at hdue
    obtain ⟨hnone, heq⟩ := Option.ite_none_left_eq_some.mp hdue
    exact hidle (Option.not_isSome_iff_eq_none.mp hnone) i t ht (Option.some.inj heq).symm

theorem Marked.schedule (h : Marked s) {path : Path} {wake : Nat} (hloop : s.loop.due = some path) :
    Marked { s with tasks := s.tasks ++ [⟨path, .sleeping wake⟩], loop := .selecting } := by
  have hended : ∀ (i : Nat) (t : Task Path), s.tasks[i]? = some t → t.path = path → t.phase = .ended := by
    intro i t ht hpath
    exact h.due i t ht (hpath ▸ hloop)
  refine ⟨fun q => ?_, ?_, by rintro i t - ⟨⟩⟩
  · by_cases hq : q = path
    · subst hq
      refine iff_of_true ((h.marked q).mpr (.inl hloop)) (.inr ⟨s.tasks.length, ⟨q, .sleeping wake⟩, ?_, rfl, (by simp)⟩)
      exact Slots.getElem?_append_iff.mpr (.inr ⟨rfl, rfl⟩)
    · have hdue : s.loop.due ≠ some q := by
        rw [hloop]
        exact fun heq => hq (Option.some.inj heq).symm
      rw [h.marked q, System.Busy, System.Busy]
      refine or_congr (iff_of_false hdue (by rintro ⟨⟩)) ⟨?_, ?_⟩
      · exact fun ⟨i, t, ht, hlive⟩ => ⟨i, t, Slots.getElem?_append_iff.mpr (.inl ht), hlive⟩
      · rintro ⟨i, t, ht, hpath, hlive⟩
        rcases Slots.getElem?_append_iff.mp ht with ht | ⟨-, rfl⟩
        · exact ⟨i, t, ht, hpath, hlive⟩
        · exact absurd hpath.symm hq
  · intro i j t u ht hu hpath hlive hlive'
    rcases Slots.getElem?_append_iff.mp ht with ht | ⟨rfl, rfl⟩
    · rcases Slots.getElem?_append_iff.mp hu with hu | ⟨rfl, rfl⟩
      · exact h.unique i j t u ht hu hpath hlive hlive'
      · exact absurd (hended i t ht hpath) hlive
    · rcases Slots.getElem?_append_iff.mp hu with hu | ⟨rfl, rfl⟩
      · exact absurd (hended j u hu hpath.symm) hlive'
      · rfl

theorem Marked.finish (h : Marked s) {i : Nat} {path : Path} {mapLock callbackLock : Option Nat}
    (hi : s.tasks[i]? = some ⟨path, .calling⟩) :
    Marked { s.setPhase i path .ended with
      pendingMap := Function.update s.pendingMap path none, callbackLock, mapLock } := by
  have hundue : s.loop.due ≠ some path := by
    intro hdue
    cases h.due i _ hi hdue
  have hold : ∀ {j : Nat} {t : Task Path}, (s.tasks.set i ⟨path, .ended⟩)[j]? = some t → t.phase ≠ .ended →
      j ≠ i ∧ s.tasks[j]? = some t := by
    intro j t ht hlive
    rcases (Slots.getElem?_set_iff hi).mp ht with ⟨-, rfl⟩ | hold
    · exact absurd rfl hlive
    · exact hold
  have hother : ∀ {j : Nat} {t : Task Path}, j ≠ i → s.tasks[j]? = some t → t.phase ≠ .ended → t.path ≠ path := by
    intro j t hj ht hlive hpath
    exact hj (h.unique j i t _ ht hi hpath hlive (by simp))
  refine ⟨fun q => ?_, ?_, ?_⟩
  · change Function.update s.pendingMap path none q ≠ none ↔ s.loop.due = some q ∨
      ∃ (j : Nat) (t : Task Path), (s.tasks.set i ⟨path, .ended⟩)[j]? = some t ∧ t.path = q ∧ t.phase ≠ .ended
    by_cases hq : q = path
    · subst hq
      rw [Function.update_self]
      refine iff_of_false (fun hne => hne rfl) ?_
      rintro (hdue | ⟨j, t, ht, hpath, hlive⟩)
      · exact hundue hdue
      · obtain ⟨hj, ht⟩ := hold ht hlive
        exact hother hj ht hlive hpath
    · rw [Function.update_of_ne hq, h.marked q]
      refine or_congr .rfl ⟨?_, ?_⟩
      · rintro ⟨j, t, ht, rfl, hlive⟩
        refine ⟨j, t, (Slots.getElem?_set_iff hi).mpr (.inr ⟨?_, ht⟩), rfl, hlive⟩
        rintro rfl
        rw [hi] at ht
        cases ht
        exact hq rfl
      · rintro ⟨j, t, ht, hpath, hlive⟩
        exact ⟨j, t, (hold ht hlive).2, hpath, hlive⟩
  · intro j k t u ht hu hpath hlive hlive'
    exact h.unique j k t u (hold ht hlive).2 (hold hu hlive').2 hpath hlive hlive'
  · intro j t ht hdue
    by_contra hlive
    exact hlive (h.due j t (hold ht hlive).2 hdue)

theorem Marked.step (h : Marked s) (hmoves : Moves w s s') : Marked s' := by
  cases hmoves with
  | aside tasks pendingMap _ _ _ _ due =>
    refine ⟨fun q => ?_, ?_, ?_⟩
    · rw [pendingMap, h.marked q, System.Busy, System.Busy, tasks, due]
    · rw [tasks]
      exact h.unique
    · rw [tasks, due]
      exact h.due
  | record path time loop _ undue _ due => exact h.record undue due
  | schedule path wake due => exact h.schedule due
  | wake i path wake hi => exact h.move hi rfl rfl rfl (by simp) (by simp)
  | lock i path hi => exact h.move hi rfl rfl rfl (by simp) (by simp)
  | again i path wake hi => exact h.move hi rfl rfl rfl (by simp) (by simp)
  | vanish i path hi unmarked => exact absurd unmarked ((h.marked path).mpr (.inr ⟨i, _, hi, rfl, (by simp)⟩))
  | pass i path time hi => exact h.move hi rfl rfl rfl (by simp) (by simp)
  | call i path hi => exact h.move hi rfl rfl rfl (by simp) (by simp)
  | finish i path hi => exact h.finish hi

end FileWatcher

end Lazydns
