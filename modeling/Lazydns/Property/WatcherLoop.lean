import Lazydns.Property.WatcherDelivery

/-!
# The loop of a watcher goes round for a reason

`changed` returns an error at once when the handle is gone, and the loop takes it for a change: it reads the stop value and goes round again. Nothing else in the loop waits, so it spins from then on whenever there is no event to take. While the handle is there, or when it has signalled the stop before it was dropped, an iteration takes an event, sees the stop value or ends the loop.
-/

namespace Lazydns

namespace FileWatcher

variable {Path : Type}

/-- The steps of the loop, of the tasks and of time. -/
def Action.Inner : Action Path → Prop
  | .notify _ | .close | .signal | .drop => False
  | _ => True

/-- An iteration takes an event, sees a new value of the stop channel or ends the loop. -/
def Progress (s s' : System Path) : Prop :=
  s'.events.length < s.events.length ∨ (s.stop.unseen = true ∧ s'.stop.unseen = false) ∨ s'.loop = .ended

theorem next_ne_ended (paths : List Path) (removed : Bool) : Loop.next paths removed ≠ .ended := by
  cases paths <;> rintro ⟨⟩

theorem next_ne_handling (paths : List Path) (removed removed' : Bool) : Loop.next paths removed ≠ .handling [] removed' := by
  cases paths <;> rintro ⟨⟩

/-- How far the loop is from its next iteration. -/
def Loop.rank : Loop Path → Nat
  | .selecting | .ended => 0
  | .handling paths _ => paths.length + 1
  | .recording _ _ _ => 3
  | .rewatching _ _ _ => 2
  | .scheduling _ _ => 1

/-- How far the loop is from an iteration without an event. -/
def System.rank (s : System Path) : Nat := (s.events.map fun e => e.paths.length + 2).sum + s.loop.rank

theorem rank_next (paths : List Path) (removed : Bool) : (Loop.next paths removed).rank < paths.length + 2 := by
  cases paths with
  | nil => exact Nat.succ_pos _
  | cons => exact Nat.lt_succ_self _

/-- A value that the loop has yet to see is the signal; and an event at hand has a path to look at. -/
structure Running (s : System Path) : Prop where
  signal : s.stop.unseen = true → s.stop.value = true
  path : ∀ removed, s.loop ≠ .handling [] removed

theorem running_start (created : Bool) : Running (.start created : System Path) := by
  refine ⟨(by rintro ⟨⟩), ?_⟩
  cases created <;> rintro _ ⟨⟩

variable [DecidableEq Path]

structure NeverSpins (w : Watcher Path) (s : System Path) : Prop where
  progress : ∀ s', (machine w).step s .select = some s' → Progress s s'
  finite : ∀ f a, (machine w).Forever s f a → (∀ n, (a n).Inner) → ¬∀ n, ∃ k, n ≤ k ∧ a k = .select

/-- The handle is there, or has signalled the stop before it was dropped, or the loop does not need it. -/
def Tended (s : System Path) : Prop :=
  s.stop.sender = true ∨ s.stop.value = true ∨ s.closed = true ∨ s.loop = .ended

/-- The handle is not dropped before it has signalled the stop. -/
def SignalsFirst (s : System Path) (a : Action Path) (_ : System Path) : Prop :=
  a = .drop → s.stop.value = true ∨ s.closed = true ∨ s.loop = .ended

variable {w : Watcher Path} {s s' : System Path} {a : Action Path} {es : List (Action Path)}

/-! ### Steps -/

/-- What most steps leave to the loop. -/
structure SameInput (s s' : System Path) : Prop where
  events : s'.events = s.events
  stop : s'.stop = s.stop
  closed : s'.closed = s.closed
  ended : s'.loop = .ended ↔ s.loop = .ended
  handling : ∀ removed, s'.loop = .handling [] removed → s.loop = .handling [] removed

theorem inner_sameInput (h : (machine w).step s a = some s') (ha : a.Inner) (hselect : a ≠ .select) : SameInput s s' := by
  cases a with
  | notify | close | signal | drop => exact ha.elim
  | select => exact absurd rfl hselect
  | elapse =>
    cases h
    exact ⟨rfl, rfl, rfl, .rfl, fun _ => id⟩
  | canonicalize canonical =>
    simp only [machine, step] at h
    split at h
    · rename_i hloop
      have hlive : s.loop ≠ .ended := by simp [hloop]
      split at h <;> cases h
      · exact ⟨rfl, rfl, rfl, iff_of_false (by simp) hlive, (by simp)⟩
      · exact ⟨rfl, rfl, rfl, iff_of_false (next_ne_ended _ _) hlive, fun _ h => absurd h (next_ne_handling _ _ _)⟩
    · cases h
  | record =>
    simp only [machine, step] at h
    split at h
    · rename_i path now removed hloop _
      cases h
      refine ⟨rfl, rfl, rfl, iff_of_false ?_ (by simp [hloop]), ?_⟩ <;> cases removed <;> simp
    · cases h
  | rewatch =>
    simp only [machine, step] at h
    split at h
    · rename_i hloop
      obtain ⟨-, heq⟩ := Option.ite_none_right_eq_some.mp h
      cases heq
      exact ⟨rfl, rfl, rfl, iff_of_false (by simp) (by simp [hloop]), (by simp)⟩
    · cases h
  | schedule =>
    simp only [machine, step] at h
    split at h
    · rename_i hloop
      cases h
      exact ⟨rfl, rfl, rfl, iff_of_false (by simp) (by simp [hloop]), (by simp)⟩
    · cases h
  | wake i =>
    simp only [machine, step] at h
    split at h
    · obtain ⟨-, heq⟩ := Option.ite_none_right_eq_some.mp h
      cases heq
      exact ⟨rfl, rfl, rfl, .rfl, fun _ => id⟩
    · cases h
  | lock i | call i | finish i =>
    simp only [machine, step] at h
    split at h
    · cases h
      exact ⟨rfl, rfl, rfl, .rfl, fun _ => id⟩
    · cases h
  | check i =>
    simp only [machine, step] at h
    split at h
    · split at h
      · split at h <;> cases h <;> exact ⟨rfl, rfl, rfl, .rfl, fun _ => id⟩
      · cases h
        exact ⟨rfl, rfl, rfl, .rfl, fun _ => id⟩
    · cases h

inductive Iterates (s : System Path) : System Path → Prop
  | take (event : Event Path) (events : List (Event Path)) (some : s.events = event :: events) :
      Iterates s { s with events, loop := .next event.paths (event.kind = .remove) }
  | close (empty : s.events = []) (closed : s.closed = true) : Iterates s { s with loop := .ended }
  | see (empty : s.events = []) (unseen : s.stop.unseen = true) :
      Iterates s { s with
        stop := { s.stop with unseen := false }, loop := if s.stop.value then .ended else .selecting }
  | spin (empty : s.events = []) (closed : s.closed = false) (seen : s.stop.unseen = false) (dropped : s.stop.sender = false) :
      Iterates s { s with loop := if s.stop.value then .ended else .selecting }

theorem select_iterates (h : (machine w).step s .select = some s') : s.loop = .selecting ∧ Iterates s s' := by
  simp only [machine, step] at h
  split at h
  · rename_i hloop
    refine ⟨hloop, ?_⟩
    rw [System.select] at h
    split at h
    · rename_i event events hevents
      cases h
      exact .take event events hevents
    · rename_i hempty
      split at h
      · rename_i hclosed
        cases h
        exact .close hempty hclosed
      · rename_i hopen
        split at h
        · rename_i hunseen
          cases h
          exact .see hempty hunseen
        · rename_i hseen
          split at h
          · rename_i hdropped
            cases h
            exact .spin hempty (Bool.eq_false_iff.mpr hopen) (Bool.eq_false_iff.mpr hseen)
              (Bool.not_eq_true' _ ▸ hdropped)
          · cases h
  · cases h

/-! ### With the handle -/

theorem Running.step (h : Running s) (hstep : (machine w).step s a = some s') : Running s' := by
  by_cases hselect : a = .select
  · subst hselect
    have hpath : ∀ (value removed : Bool), (if value then Loop.ended else .selecting : Loop Path) ≠ .handling [] removed := by
      intro value removed
      cases value <;> simp
    cases (select_iterates hstep).2 with
    | take => exact ⟨h.signal, next_ne_handling _ _⟩
    | close => exact ⟨h.signal, (by simp)⟩
    | see => exact ⟨(by simp), hpath _⟩
    | spin => exact ⟨h.signal, hpath _⟩
  · cases a with
    | select => exact absurd rfl hselect
    | notify =>
      obtain ⟨-, heq⟩ := Option.ite_none_right_eq_some.mp hstep
      cases heq
      exact ⟨h.signal, h.path⟩
    | signal =>
      obtain ⟨-, heq⟩ := Option.ite_none_right_eq_some.mp hstep
      cases heq
      exact ⟨fun _ => rfl, h.path⟩
    | close | drop =>
      cases hstep
      exact ⟨h.signal, h.path⟩
    | _ =>
      have hsame := inner_sameInput hstep trivial hselect
      refine ⟨?_, fun removed hloop => h.path removed (hsame.handling removed hloop)⟩
      rw [hsame.stop]
      exact h.signal

theorem Tended.step (h : Tended s) (hstep : (machine w).step s a = some s') (hfirst : SignalsFirst s a s') : Tended s' := by
  by_cases hselect : a = .select
  · subst hselect
    obtain ⟨hloop, hiterates⟩ := select_iterates hstep
    have hlive : s.loop ≠ .ended := by simp [hloop]
    rcases h with hsender | hvalue | hclosed | hended
    · cases hiterates with
      | close => exact .inr (.inr (.inr rfl))
      | _ => exact .inl hsender
    · cases hiterates with
      | close => exact .inr (.inr (.inr rfl))
      | _ => exact .inr (.inl hvalue)
    · cases hiterates with
      | close => exact .inr (.inr (.inr rfl))
      | _ => exact .inr (.inr (.inl hclosed))
    · exact absurd hended hlive
  · cases a with
    | select => exact absurd rfl hselect
    | notify =>
      obtain ⟨-, heq⟩ := Option.ite_none_right_eq_some.mp hstep
      cases heq
      exact h
    | close =>
      cases hstep
      exact .inr (.inr (.inl rfl))
    | signal =>
      obtain ⟨-, heq⟩ := Option.ite_none_right_eq_some.mp hstep
      cases heq
      exact .inr (.inl rfl)
    | drop =>
      cases hstep
      exact .inr (hfirst rfl)
    | _ =>
      have hsame := inner_sameInput hstep trivial hselect
      rw [Tended, hsame.stop, hsame.closed, hsame.ended]
      exact h

/-- How often the loop can still go round. -/
def System.iterationsLeft (s : System Path) : Nat := if s.loop = .ended then 0 else s.events.length + 1

theorem Tended.iterate (h : Tended s) (hrunning : Running s) (hstep : (machine w).step s .select = some s') :
    Progress s s' ∧ s'.iterationsLeft < s.iterationsLeft := by
  obtain ⟨hloop, hiterates⟩ := select_iterates hstep
  have hleft : s.iterationsLeft = s.events.length + 1 := if_neg (by simp [hloop])
  have hended : ∀ {s' : System Path}, s'.loop = .ended → s'.iterationsLeft < s.iterationsLeft := by
    intro s' hended
    rw [hleft, System.iterationsLeft, if_pos hended]
    exact Nat.succ_pos _
  cases hiterates with
  | take event events hevents =>
    have hlt : events.length < s.events.length := by
      rw [hevents]
      exact Nat.lt_succ_self _
    refine ⟨.inl hlt, ?_⟩
    rw [hleft, System.iterationsLeft, if_neg (next_ne_ended _ _)]
    exact Nat.succ_lt_succ hlt
  | close => exact ⟨.inr (.inr rfl), hended rfl⟩
  | see hempty hunseen => exact ⟨.inr (.inl ⟨hunseen, rfl⟩), hended (if_pos (hrunning.signal hunseen))⟩
  | spin hempty hclosed hseen hdropped =>
    have hvalue : s.stop.value = true := by
      rcases h with hsender | hvalue | hopen | hover
      · rw [hdropped] at hsender
        cases hsender
      · exact hvalue
      · rw [hclosed] at hopen
        cases hopen
      · rw [hloop] at hover
        cases hover
    exact ⟨.inr (.inr (if_pos hvalue)), hended (if_pos hvalue)⟩

theorem inner_tended (h : Tended s) (hstep : (machine w).step s a = some s') (ha : a.Inner) : Tended s' :=
  h.step hstep fun hdrop => (hdrop ▸ ha : (Action.drop : Action Path).Inner).elim

theorem Tended.neverSpins (h : Tended s) (hrunning : Running s) : NeverSpins w s := by
  refine ⟨fun s' hstep => (h.iterate hrunning hstep).1, fun f a hforever ha => ?_⟩
  refine hforever.not_often (I := fun s => Tended s ∧ Running s) (E := Action.Inner) (K := (· = .select))
    (m := System.iterationsLeft) ?_ ⟨h, hrunning⟩ ha
  rintro s a s' ⟨h, hrunning⟩ ha hstep
  refine ⟨⟨inner_tended h hstep ha, hrunning.step hstep⟩, ?_, ?_⟩
  · by_cases hselect : a = .select
    · subst hselect
      exact Nat.le_of_lt (h.iterate hrunning hstep).2
    · have hsame := inner_sameInput hstep ha hselect
      simp only [System.iterationsLeft, hsame.ended, hsame.events]
      exact Nat.le_refl _
  · rintro rfl
    exact (h.iterate hrunning hstep).2

/-! ### Without the handle -/

theorem not_neverSpins (hloop : s.loop = .selecting) (hempty : s.events = []) (hclosed : s.closed = false)
    (hseen : s.stop.unseen = false) (hdropped : s.stop.sender = false) (hvalue : s.stop.value = false) : ¬NeverSpins w s := by
  intro h
  -- The iteration leaves the system as it is.
  have hstep : (machine w).step s .select = some s := by
    cases s
    cases hloop
    simp_all [machine, step, System.select]
  rcases h.progress s hstep with hlt | ⟨hunseen, -⟩ | hended
  · exact Nat.lt_irrefl _ hlt
  · rw [hseen] at hunseen
    cases hunseen
  · rw [hloop] at hended
    cases hended

/-- What the tasks leave as it is. -/
structure SameLoop (s s' : System Path) : Prop where
  loop : s'.loop = s.loop
  events : s'.events = s.events
  stop : s'.stop = s.stop
  closed : s'.closed = s.closed

/-- Some inner steps lead to a state with the lock of the records free. -/
def Unlocks (w : Watcher Path) (s : System Path) : Prop :=
  ∃ es t, (∀ a ∈ es, a.Inner) ∧ (machine w).run s es = some t ∧ t.mapLock = none ∧ SameLoop s t

theorem Unlocks.cons (hstep : (machine w).step s a = some s') (ha : a.Inner) (hsame : SameLoop s s') (h : Unlocks w s') :
    Unlocks w s := by
  obtain ⟨es, t, hes, hrun, hfree, hsame'⟩ := h
  refine ⟨a :: es, t, List.forall_mem_cons.mpr ⟨ha, hes⟩, (Machine.run_cons_of_step hstep es).trans hrun, hfree, ?_⟩
  exact ⟨hsame'.loop.trans hsame.loop, hsame'.events.trans hsame.events, hsame'.stop.trans hsame.stop,
    hsame'.closed.trans hsame.closed⟩

theorem unlocks_of_free (hfree : s.mapLock = none) : Unlocks w s :=
  ⟨[], s, List.forall_mem_nil _, rfl, hfree, rfl, rfl, rfl, rfl⟩

variable {i : Nat} {path : Path}

theorem unlocks_of_calling (hi : s.tasks[i]? = some ⟨path, .calling⟩) : Unlocks w s := by
  have hstep : (machine w).step s (.finish i) = some { s.setPhase i path .ended with
      pendingMap := Function.update s.pendingMap path none, callbackLock := none, mapLock := none } := by
    simp only [machine, step, hi]
  exact .cons hstep trivial ⟨rfl, rfl, rfl, rfl⟩ (unlocks_of_free rfl)

theorem unlocks_of_quiesced (hs : Sound w s) (hi : s.tasks[i]? = some ⟨path, .quiesced⟩) : Unlocks w s := by
  have hstep : (machine w).step s (.call i) = some { s.setPhase i path .calling with
      callbackLock := some i, log := .called path s.now :: s.log } := by
    simp only [machine, step, hi, hs.locks.callback_free hi]
  have hcalling : (s.tasks.set i ⟨path, .calling⟩)[i]? = some ⟨path, .calling⟩ :=
    (Slots.getElem?_set_iff hi).mpr (.inl ⟨rfl, rfl⟩)
  exact .cons hstep trivial ⟨rfl, rfl, rfl, rfl⟩ (unlocks_of_calling hcalling)

theorem unlocks_of_checking (hs : Sound w s) (hi : s.tasks[i]? = some ⟨path, .checking⟩) : Unlocks w s := by
  obtain ⟨time, htime⟩ := Option.ne_none_iff_exists'.mp ((hs.marked.marked path).mpr (.inr ⟨i, _, hi, rfl, (by simp)⟩))
  by_cases hquiet : w.debounce ≤ s.now - time
  · have hstep : (machine w).step s (.check i) = some (s.setPhase i path .quiesced) := by
      simp only [machine, step, hi, htime, hquiet, if_true]
    have hquiesced : (s.tasks.set i ⟨path, .quiesced⟩)[i]? = some ⟨path, .quiesced⟩ :=
      (Slots.getElem?_set_iff hi).mpr (.inl ⟨rfl, rfl⟩)
    exact .cons hstep trivial ⟨rfl, rfl, rfl, rfl⟩ (unlocks_of_quiesced (hs.step hstep) hquiesced)
  · have hstep : (machine w).step s (.check i) =
        some { s.setPhase i path (.sleeping (s.now + w.debounce)) with mapLock := none } := by
      simp only [machine, step, hi, htime, hquiet, if_false]
    exact .cons hstep trivial ⟨rfl, rfl, rfl, rfl⟩ (unlocks_of_free rfl)

theorem Sound.unlocks (hs : Sound w s) : Unlocks w s := by
  cases hmap : s.mapLock with
  | none => exact unlocks_of_free hmap
  | some i =>
    obtain ⟨⟨path, phase⟩, hi, hholds⟩ := (hs.locks.map i).mp hmap
    cases phase with
    | checking => exact unlocks_of_checking hs hi
    | quiesced => exact unlocks_of_quiesced hs hi
    | calling => exact unlocks_of_calling hi
    | _ => exact hholds.elim

/-- A loop that has not ended and is not about to take a step without an event goes on to one. -/
theorem exists_closer (hs : Sound w s) (hrunning : Running s) (hlive : s.loop ≠ .ended)
    (hbusy : ¬(s.loop = .selecting ∧ s.events = [])) :
    ∃ es s', (∀ a ∈ es, a.Inner) ∧ (machine w).run s es = some s' ∧ s'.loop ≠ .ended ∧ s'.stop = s.stop ∧
      s'.closed = s.closed ∧ s'.rank < s.rank := by
  cases hloop : s.loop with
  | ended => exact absurd hloop hlive
  | selecting =>
    cases hevents : s.events with
    | nil => exact absurd ⟨hloop, hevents⟩ hbusy
    | cons event events =>
      have hstep : (machine w).step s .select =
          some { s with events, loop := .next event.paths (event.kind = .remove) } := by
        simp only [machine, step, hloop, System.select, hevents]
      refine ⟨[.select], _, by simp [Action.Inner], Machine.run_cons_of_step hstep [], next_ne_ended _ _, rfl, rfl, ?_⟩
      have hrank := rank_next event.paths (event.kind = .remove)
      simp only [System.rank, hevents, List.map_cons, List.sum_cons]
      omega
  | handling paths removed =>
    cases paths with
    | nil => exact absurd hloop (hrunning.path removed)
    | cons path paths =>
      have hstep : (machine w).step s (.canonicalize none) = some { s with loop := .next paths removed } := by
        simp only [machine, step, hloop]
        rfl
      refine ⟨[.canonicalize none], _, by simp [Action.Inner], Machine.run_cons_of_step hstep [], next_ne_ended _ _,
        rfl, rfl, ?_⟩
      rw [System.rank, System.rank, hloop]
      exact Nat.add_lt_add_left (rank_next paths removed) _
  | recording path now removed =>
    obtain ⟨es, t, hes, hrun, hfree, hsame⟩ := hs.unlocks
    have hstep : (machine w).step t .record = some { t with
        pendingMap := Function.update t.pendingMap path (some now)
        loop := if removed then .rewatching path (t.pendingMap path).isSome (t.now + millis 50)
          else .scheduling path (t.pendingMap path).isSome
        log := .recorded path now :: t.log } := by
      simp only [machine, step, hsame.loop, hloop, hfree]
    have hrun' := (Machine.run_append_of_run hrun [.record]).trans (Machine.run_cons_of_step hstep [])
    refine ⟨es ++ [.record], _, ?_, hrun', ?_, ?_, ?_, ?_⟩
    · exact List.forall_mem_append.mpr ⟨hes, by simp [Action.Inner]⟩
    · cases removed <;> simp
    · exact hsame.stop
    · exact hsame.closed
    · rw [System.rank, System.rank, hloop]
      dsimp only
      rw [hsame.events]
      refine Nat.add_lt_add_left ?_ _
      cases removed
      · exact Nat.lt_add_of_pos_right (Nat.succ_pos 1)
      · exact Nat.lt_succ_self 2
  | rewatching path alreadyScheduled wake =>
    have hwake : wake ≤ s.now + wake := Nat.le_add_left _ _
    have hstep : (machine w).step { s with now := s.now + wake } .rewatch =
        some { s with now := s.now + wake, loop := .scheduling path alreadyScheduled } := by
      simp only [machine, step, hloop, hwake, if_true]
    refine ⟨[.elapse wake, .rewatch], _, by simp [Action.Inner],
      (Machine.run_cons_of_step rfl _).trans (Machine.run_cons_of_step hstep []), (by simp), rfl, rfl, ?_⟩
    rw [System.rank, System.rank, hloop]
    exact Nat.lt_succ_self _
  | scheduling path alreadyScheduled =>
    have hstep : (machine w).step s .schedule = some { s with
        tasks := if alreadyScheduled then s.tasks else s.tasks ++ [⟨path, .sleeping (s.now + w.debounce)⟩]
        loop := .selecting } := by
      simp only [machine, step, hloop]
    refine ⟨[.schedule], _, by simp [Action.Inner], Machine.run_cons_of_step hstep [], (by simp), rfl, rfl, ?_⟩
    rw [System.rank, System.rank, hloop]
    exact Nat.lt_succ_self _

theorem Running.run (h : Running s) (hrun : (machine w).run s es = some s') : Running s' :=
  Machine.run_invariant (fun _ _ _ h hstep => h.step hstep) h hrun

/-- The loop comes to an iteration without an event. -/
theorem exists_idle (hs : Sound w s) (hrunning : Running s) (hlive : s.loop ≠ .ended) :
    ∃ es t, (∀ a ∈ es, a.Inner) ∧ (machine w).run s es = some t ∧ t.loop = .selecting ∧ t.events = [] ∧
      t.stop = s.stop ∧ t.closed = s.closed := by
  have hcloser : ∀ t, (Sound w t ∧ Running t ∧ t.loop ≠ .ended ∧ t.stop = s.stop ∧ t.closed = s.closed) →
      ¬(t.loop = .selecting ∧ t.events = []) →
      ∃ es t', (∀ a ∈ es, a.Inner) ∧ (machine w).run t es = some t' ∧
        (Sound w t' ∧ Running t' ∧ t'.loop ≠ .ended ∧ t'.stop = s.stop ∧ t'.closed = s.closed) ∧ t'.rank < t.rank := by
    rintro t ⟨hs, hrunning, hlive, hstop, hclosed⟩ hbusy
    obtain ⟨es, t', hes, hrun, hlive', hstop', hclosed', hlt⟩ := exists_closer hs hrunning hlive hbusy
    exact ⟨es, t', hes, hrun, ⟨hs.run hrun, hrunning.run hrun, hlive', hstop'.trans hstop, hclosed'.trans hclosed⟩, hlt⟩
  obtain ⟨es, t, hes, hrun, ⟨-, -, -, hstop, hclosed⟩, hloop, hempty⟩ :=
    Machine.exists_run_of_measure System.rank hcloser s ⟨hs, hrunning, hlive, rfl, rfl⟩
  exact ⟨es, t, hes, hrun, hloop, hempty, hstop, hclosed⟩

/-- While the handle is only dropped behind the signal the loop does not spin; and wherever the loop, the tasks and time may lead from a state, it does not spin exactly if the handle is there, has signalled the stop, or the loop does not wait for it. -/
theorem neverSpins_iff {created : Bool} (hrun : (machine w).run (.start created) es = some s) :
    ((machine w).Each SignalsFirst (.start created) es → NeverSpins w s) ∧
      ((∀ es' t, (∀ a ∈ es', a.Inner) → (machine w).run s es' = some t → NeverSpins w t) ↔
        s.stop.sender = true ∨ s.stop.value = true ∨ s.closed = true ∨ s.loop = .ended) := by
  have hrunning := (running_start created).run hrun
  refine ⟨fun hfirst => ?_, ?_, fun htended es' t hes' hrun' => ?_⟩
  · have htended : Tended s := Machine.run_keeps (I := Tended) (fun _ _ _ h hfirst hstep => h.step hstep hfirst)
      (.inl rfl) hfirst hrun
    exact htended.neverSpins hrunning
  · intro h
    by_contra htended
    obtain ⟨hdropped, htended⟩ := not_or.mp htended
    obtain ⟨hvalue, htended⟩ := not_or.mp htended
    obtain ⟨hclosed, hlive⟩ := not_or.mp htended
    obtain ⟨es', t, hes', hrun', hloop, hempty, hstop, hsame⟩ := exists_idle ((sound_start created).run hrun) hrunning hlive
    refine not_neverSpins hloop hempty ?_ ?_ ?_ ?_ (h es' t hes' hrun')
    · rw [hsame]
      exact Bool.eq_false_iff.mpr hclosed
    · rw [hstop]
      exact Bool.eq_false_iff.mpr fun hunseen => hvalue (hrunning.signal hunseen)
    · rw [hstop]
      exact Bool.eq_false_iff.mpr hdropped
    · rw [hstop]
      exact Bool.eq_false_iff.mpr hvalue
  · refine Tended.neverSpins ?_ (hrunning.run hrun')
    exact Machine.run_keeps (I := Tended) (C := fun _ a _ => a.Inner) (fun _ _ _ h ha hstep => inner_tended h hstep ha)
      htended (Machine.each_of_forall fun a ha _ _ => hes' a ha) hrun'

/-- The owner signals the stop and drops the handle. -/
theorem neverSpins_iff_stopped : ∃ s, (machine hostsWatcher).run (.start true) [.signal, .drop] = some s ∧
    NeverSpins hostsWatcher s := by
  refine ⟨_, rfl, (neverSpins_iff (show (machine hostsWatcher).run (.start true) [.signal, .drop] = some _ from rfl)).1 ?_⟩
  intro s' hs'
  cases hs'
  refine ⟨(by rintro ⟨⟩), fun s' hs' => ?_⟩
  cases hs'
  exact ⟨fun _ => .inl rfl, trivial⟩

/-- The handle is dropped at once. -/
theorem not_neverSpins_dropped : ∃ s, (machine hostsWatcher).run (.start true) [.drop] = some s ∧
    ¬NeverSpins hostsWatcher s ∧ ∃ f a, (machine hostsWatcher).Forever s f a ∧ ∀ n, a n = .select := by
  refine ⟨_, rfl, not_neverSpins rfl rfl rfl rfl rfl rfl, ?_⟩
  exact ⟨fun _ => { System.start true with stop := ⟨false, false, false⟩ }, fun _ => .select, ⟨rfl, fun _ => rfl⟩, fun _ => rfl⟩

end FileWatcher

end Lazydns
