import Lazydns.Util.WatcherRules

/-!
# No change is lost

Between the check that a file has been quiet and the removal of its record a task holds the lock of the records, so an event is recorded before the check, which it fails, or behind the removal, and gets a task of its own. So the last callback for a file without a task began after its last event and at least the debounce later.
-/

namespace Lazydns

namespace FileWatcher

variable {Path : Type} [DecidableEq Path]

def Entry.path : Entry Path → Path
  | .recorded path _ | .called path _ => path

/-- The time of the last event recorded for a file. -/
def lastRecorded (path : Path) : List (Entry Path) → Option Nat
  | [] => none
  | .recorded path' time :: log => if path' = path then some time else lastRecorded path log
  | .called _ _ :: log => lastRecorded path log

def lastEntry (path : Path) (log : List (Entry Path)) : Option (Entry Path) := log.find? fun e => e.path = path

/-- If an event has been recorded, a callback began behind the last one, and at least the debounce later; it is the last callback. -/
def Reloaded (debounce : Nat) (path : Path) (log : List (Entry Path)) : Prop :=
  ∀ time, lastRecorded path log = some time →
    ∃ start, lastEntry path log = some (.called path start) ∧ time + debounce ≤ start

theorem reloaded_cons_of_ne {debounce : Nat} {path : Path} {e : Entry Path} {log : List (Entry Path)} (hne : e.path ≠ path) :
    Reloaded debounce path (e :: log) ↔ Reloaded debounce path log := by
  have hentry : lastEntry path (e :: log) = lastEntry path log := List.find?_cons_of_neg (by simp [hne])
  have hrecorded : lastRecorded path (e :: log) = lastRecorded path log := by
    cases e with
    | recorded path' time => exact if_neg hne
    | called path' time => rfl
  rw [Reloaded, Reloaded, hentry, hrecorded]

/-- The records, the times and the log go together. -/
structure Logged (w : Watcher Path) (s : System Path) : Prop where
  marked : ∀ path time, s.pendingMap path = some time → time ≤ s.now ∧ lastRecorded path s.log = some time
  unmarked : ∀ path, s.pendingMap path = none → Reloaded w.debounce path s.log
  recording : ∀ time, s.loop.time = some time → time ≤ s.now
  quiesced : ∀ (i : Nat) (path : Path), s.tasks[i]? = some ⟨path, .quiesced⟩ →
    ∃ time, s.pendingMap path = some time ∧ time + w.debounce ≤ s.now
  calling : ∀ (i : Nat) (path : Path), s.tasks[i]? = some ⟨path, .calling⟩ → Reloaded w.debounce path s.log

variable {w : Watcher Path} {s s' : System Path}

theorem Logged.move (h : Logged w s) {i : Nat} {path : Path} {phase phase' : Phase} (hi : s.tasks[i]? = some ⟨path, phase⟩)
    (htasks : s'.tasks = s.tasks.set i ⟨path, phase'⟩) (hmap : s'.pendingMap = s.pendingMap) (hlog : s'.log = s.log)
    (hnow : s'.now = s.now) (hloop : s'.loop = s.loop) (hquiesced : phase' ≠ .quiesced) (hcalling : phase' ≠ .calling) :
    Logged w s' := by
  refine ⟨?_, ?_, ?_, fun j q hj => ?_, fun j q hj => ?_⟩
  · rw [hmap, hlog, hnow]
    exact h.marked
  · rw [hmap, hlog]
    exact h.unmarked
  · rw [hloop, hnow]
    exact h.recording
  · rw [htasks] at hj
    rw [hmap, hnow]
    rcases (Slots.getElem?_set_iff hi).mp hj with ⟨-, heq⟩ | ⟨-, hj⟩
    · cases heq
      exact absurd rfl hquiesced
    · exact h.quiesced j q hj
  · rw [htasks] at hj
    rw [hlog]
    rcases (Slots.getElem?_set_iff hi).mp hj with ⟨-, heq⟩ | ⟨-, hj⟩
    · cases heq
      exact absurd rfl hcalling
    · exact h.calling j q hj

theorem Logged.record (h : Logged w s) (hlocks : Locks s) {path : Path} {time : Nat} {loop : Loop Path}
    (hrecording : s.loop.time = some time) (hfree : s.mapLock = none) (hrecorded : loop.time = none) :
    Logged w { s with
      pendingMap := Function.update s.pendingMap path (some time), loop, log := .recorded path time :: s.log } := by
  have hnone : ∀ (i : Nat) (t : Task Path), s.tasks[i]? = some t → ¬t.phase.holdsMap := by
    intro i t ht hholds
    have hlock := (hlocks.map i).mpr ⟨t, ht, hholds⟩
    rw [hfree] at hlock
    cases hlock
  refine ⟨fun q t hq => ?_, fun q hq => ?_, fun t ht => ?_, fun i q hi => ?_, fun i q hi => ?_⟩
  · obtain ⟨rfl, heq⟩ | ⟨hne, hq⟩ := Slots.update_eq_some_iff.mp hq
    · cases heq
      exact ⟨h.recording _ hrecording, if_pos rfl⟩
    · refine ⟨(h.marked q t hq).1, ?_⟩
      dsimp only
      rw [lastRecorded, if_neg (Ne.symm hne)]
      exact (h.marked q t hq).2
  · dsimp only at hq ⊢
    by_cases hne : q = path
    · subst hne
      rw [Function.update_self] at hq
      cases hq
    · rw [Function.update_of_ne hne] at hq
      exact (reloaded_cons_of_ne (Ne.symm hne)).mpr (h.unmarked q hq)
  · change loop.time = some t at ht
    rw [hrecorded] at ht
    cases ht
  · exact absurd trivial (hnone i _ hi)
  · exact absurd trivial (hnone i _ hi)

theorem Logged.call (h : Logged w s) (hlocks : Locks s) {i : Nat} {path : Path} {callbackLock : Option Nat}
    (hi : s.tasks[i]? = some ⟨path, .quiesced⟩) :
    Logged w { s.setPhase i path .calling with callbackLock, log := .called path s.now :: s.log } := by
  obtain ⟨time, htime, hle⟩ := h.quiesced i path hi
  have hcalled : Reloaded w.debounce path (.called path s.now :: s.log) := by
    intro t ht
    have hlast := (h.marked path time htime).2
    rw [lastRecorded, hlast] at ht
    cases ht
    exact ⟨s.now, List.find?_cons_of_pos (by simp [Entry.path]), hle⟩
  refine ⟨h.marked, fun q hq => ?_, h.recording, fun j q hj => ?_, fun j q hj => ?_⟩
  · have hne : q ≠ path := by
      rintro rfl
      cases htime.symm.trans hq
    exact (reloaded_cons_of_ne (Ne.symm hne)).mpr (h.unmarked q hq)
  · rcases (Slots.getElem?_set_iff hi).mp hj with ⟨-, heq⟩ | ⟨-, hj⟩
    · cases heq
    · exact h.quiesced j q hj
  · rcases (Slots.getElem?_set_iff hi).mp hj with ⟨-, heq⟩ | ⟨hne, hj⟩
    · cases heq
      exact hcalled
    · exact absurd (hlocks.map_unique hj hi trivial trivial) hne

theorem Logged.finish (h : Logged w s) (hlocks : Locks s) {i : Nat} {path : Path} {mapLock callbackLock : Option Nat}
    (hi : s.tasks[i]? = some ⟨path, .calling⟩) :
    Logged w { s.setPhase i path .ended with
      pendingMap := Function.update s.pendingMap path none, callbackLock, mapLock } := by
  have hother : ∀ {j : Nat} {q : Path} {phase : Phase},
      (s.tasks.set i ⟨path, .ended⟩)[j]? = some ⟨q, phase⟩ → ¬phase.holdsMap := by
    intro j q phase hj hholds
    rcases (Slots.getElem?_set_iff hi).mp hj with ⟨-, heq⟩ | ⟨hne, hj⟩
    · cases heq
      exact hholds
    · exact hne (hlocks.map_unique hj hi hholds trivial)
  refine ⟨fun q t hq => ?_, fun q hq => ?_, h.recording, fun j q hj => (hother hj trivial).elim,
    fun j q hj => (hother hj trivial).elim⟩
  · obtain ⟨-, heq⟩ | ⟨-, hq⟩ := Slots.update_eq_some_iff.mp hq
    · cases heq
    · exact h.marked q t hq
  · dsimp only at hq
    by_cases hne : q = path
    · subst hne
      exact h.calling i q hi
    · rw [Function.update_of_ne hne] at hq
      exact h.unmarked q hq

theorem Logged.step (h : Logged w s) (hlocks : Locks s) (hmoves : Moves w s s') : Logged w s' := by
  cases hmoves with
  | aside tasks pendingMap _ _ log now _ time =>
    refine ⟨fun path time hpath => ?_, ?_, fun t ht => ?_, fun i path hi => ?_, ?_⟩
    · rw [pendingMap] at hpath
      rw [log]
      exact ⟨Nat.le_trans (h.marked path time hpath).1 now, (h.marked path time hpath).2⟩
    · rw [pendingMap, log]
      exact h.unmarked
    · rcases time t ht with hold | rfl
      · exact Nat.le_trans (h.recording t hold) now
      · exact now
    · rw [tasks] at hi
      rw [pendingMap]
      obtain ⟨time, htime, hle⟩ := h.quiesced i path hi
      exact ⟨time, htime, Nat.le_trans hle now⟩
    · rw [tasks, log]
      exact h.calling
  | record path time loop recording _ free _ recorded => exact h.record hlocks recording free recorded
  | schedule path wake due =>
    refine ⟨h.marked, h.unmarked, (by rintro _ ⟨⟩), fun i q hi => ?_, fun i q hi => ?_⟩
    · rcases Slots.getElem?_append_iff.mp hi with hi | ⟨-, heq⟩
      · exact h.quiesced i q hi
      · cases heq
    · rcases Slots.getElem?_append_iff.mp hi with hi | ⟨-, heq⟩
      · exact h.calling i q hi
      · cases heq
  | wake i path wake hi => exact h.move hi rfl rfl rfl rfl rfl (by simp) (by simp)
  | lock i path hi => exact h.move hi rfl rfl rfl rfl rfl (by simp) (by simp)
  | again i path wake hi => exact h.move hi rfl rfl rfl rfl rfl (by simp) (by simp)
  | vanish i path hi => exact h.move hi rfl rfl rfl rfl rfl (by simp) (by simp)
  | pass i path time hi marked quiet =>
    refine ⟨h.marked, h.unmarked, h.recording, fun j q hj => ?_, fun j q hj => ?_⟩
    · rcases (Slots.getElem?_set_iff hi).mp hj with ⟨-, heq⟩ | ⟨-, hj⟩
      · cases heq
        have htime := (h.marked path time marked).1
        exact ⟨time, marked, by change time + w.debounce ≤ s.now; omega⟩
      · exact h.quiesced j q hj
    · rcases (Slots.getElem?_set_iff hi).mp hj with ⟨-, heq⟩ | ⟨-, hj⟩
      · cases heq
      · exact h.calling j q hj
  | call i path hi => exact h.call hlocks hi
  | finish i path hi => exact h.finish hlocks hi

structure Sound (w : Watcher Path) (s : System Path) : Prop where
  locks : Locks s
  marked : Marked s
  logged : Logged w s

variable {a : Action Path} {es : List (Action Path)}

theorem Sound.step (h : Sound w s) (hstep : (machine w).step s a = some s') : Sound w s' :=
  have hmoves := step_moves hstep
  ⟨h.locks.step hmoves, h.marked.step hmoves, h.logged.step h.locks hmoves⟩

theorem Sound.run (h : Sound w s) (hrun : (machine w).run s es = some s') : Sound w s' :=
  Machine.run_invariant (fun _ _ _ h hstep => h.step hstep) h hrun

theorem sound_start (created : Bool) : Sound w (.start created) := by
  have hloop : (System.start created : System Path).loop.due = none ∧ (System.start created : System Path).loop.time = none := by
    cases created <;> exact ⟨rfl, rfl⟩
  have htasks : ∀ (i : Nat) (t : Task Path), (System.start created).tasks[i]? ≠ some t := by
    rintro i t ⟨⟩
  constructor
  · constructor
    · refine fun i => iff_of_false (by rintro ⟨⟩) ?_
      rintro ⟨t, ht, -⟩
      exact htasks i t ht
    · refine fun i => iff_of_false (by rintro ⟨⟩) ?_
      rintro ⟨t, ht, -⟩
      exact htasks i t ht
  · refine ⟨fun path => iff_of_false (fun hne => hne rfl) ?_, fun i _ t _ ht => absurd ht (htasks i t),
      fun i t ht => absurd ht (htasks i t)⟩
    rintro (hdue | ⟨i, t, ht, -⟩)
    · cases hloop.1.symm.trans hdue
    · exact htasks i t ht
  · refine ⟨fun path time h => ?_, fun path _ => ?_, fun time h => ?_, fun i path hi => absurd hi (htasks i _),
      fun i path hi => absurd hi (htasks i _)⟩
    · cases h
    · rintro time ⟨⟩
    · cases hloop.2.symm.trans h

/-! ### The tasks come to their end -/

/-- The steps of time, of the tasks and of the loop with an event that is recorded. -/
def Action.OwnStep : Action Path → Prop
  | .elapse _ | .rewatch | .schedule | .wake _ | .lock _ | .check _ | .call _ | .finish _ => True
  | _ => False

def Phase.rank : Phase → Nat
  | .sleeping _ => 5
  | .locking => 4
  | .checking => 3
  | .quiesced => 2
  | .calling => 1
  | .ended => 0

def Quiet (w : Watcher Path) (s : System Path) : Prop :=
  ∀ path time, s.pendingMap path = some time → time + w.debounce ≤ s.now

/-- Some steps of its own take a task of a quiet system on. -/
structure Advances (w : Watcher Path) (s s' : System Path) (es : List (Action Path)) (i : Nat) (path : Path)
    (phase phase' : Phase) : Prop where
  own : ∀ a ∈ es, a.OwnStep
  run : (machine w).run s es = some s'
  task : s.tasks[i]? = some ⟨path, phase⟩
  tasks : s'.tasks = s.tasks.set i ⟨path, phase'⟩
  rank : phase'.rank < phase.rank
  loop : s'.loop = s.loop
  quiet : Quiet w s'

theorem exists_advances (hs : Sound w s) (hquiet : Quiet w s) {i : Nat} {t : Task Path} (hi : s.tasks[i]? = some t)
    (hlive : t.phase ≠ .ended) : ∃ es s' i path phase phase', Advances w s s' es i path phase phase' := by
  have hone : ∀ {a : Action Path} {s' : System Path}, step w s a = some s' → (machine w).run s [a] = some s' :=
    fun hstep => Machine.run_cons_of_step hstep []
  cases hmap : s.mapLock with
  | some j =>
    -- The task that holds the lock of the records can go on.
    obtain ⟨⟨path, phase⟩, hj, hholds⟩ := (hs.locks.map j).mp hmap
    cases phase with
    | checking =>
      obtain ⟨time, htime⟩ := Option.ne_none_iff_exists'.mp ((hs.marked.marked path).mpr (.inr ⟨j, _, hj, rfl, (by simp)⟩))
      have hpass : w.debounce ≤ s.now - time := Nat.le_sub_of_add_le (Nat.add_comm _ _ ▸ hquiet path time htime)
      refine ⟨[.check j], s.setPhase j path .quiesced, j, path, _, _, by simp [Action.OwnStep], hone ?_, hj, rfl,
        by decide, rfl, hquiet⟩
      simp only [step, hj, htime, hpass, if_true]
    | quiesced =>
      refine ⟨[.call j], { s.setPhase j path .calling with callbackLock := some j, log := .called path s.now :: s.log },
        j, path, _, _, by simp [Action.OwnStep], hone ?_, hj, rfl, by decide, rfl, hquiet⟩
      simp only [step, hj, hs.locks.callback_free hj]
    | calling =>
      refine ⟨[.finish j], { s.setPhase j path .ended with
          pendingMap := Function.update s.pendingMap path none, callbackLock := none, mapLock := none },
        j, path, _, _, by simp [Action.OwnStep], hone ?_, hj, rfl, by decide, rfl, fun q time hq => ?_⟩
      · simp only [step, hj]
      · obtain ⟨-, heq⟩ | ⟨-, hq⟩ := Slots.update_eq_some_iff.mp hq
        · cases heq
        · exact hquiet q time hq
    | _ => exact hholds.elim
  | none =>
    obtain ⟨path, phase⟩ := t
    have hholds : ¬phase.holdsMap := by
      intro hholds
      have hlock := (hs.locks.map i).mpr ⟨_, hi, hholds⟩
      rw [hmap] at hlock
      cases hlock
    cases phase with
    | sleeping wake =>
      have hrank : Phase.locking.rank < (Phase.sleeping wake).rank := Nat.lt_succ_self 4
      refine ⟨[.elapse wake, .wake i], { s with now := s.now + wake }.setPhase i path .locking, i, path, _, _,
        by simp [Action.OwnStep], ?_, hi, rfl, hrank, rfl,
        fun q time hq => Nat.le_trans (hquiet q time hq) (Nat.le_add_right _ _)⟩
      have hwake : wake ≤ s.now + wake := Nat.le_add_left _ _
      refine (Machine.run_cons_of_step rfl _).trans (Machine.run_cons_of_step ?_ [])
      simp only [machine, step, hi, hwake, if_true]
    | locking =>
      refine ⟨[.lock i], { s.setPhase i path .checking with mapLock := some i }, i, path, _, _,
        by simp [Action.OwnStep], hone ?_, hi, rfl, by decide, rfl, hquiet⟩
      simp only [step, hi, hmap]
    | ended => exact absurd rfl hlive
    | _ => exact absurd trivial hholds

theorem Quiet.exists_drained (hs : Sound w s) (hquiet : Quiet w s) (hdue : s.loop.due = none) :
    ∃ es t, (∀ a ∈ es, a.OwnStep) ∧ (machine w).run s es = some t ∧ ∀ path, ¬t.Busy path := by
  have hstep : ∀ s, Sound w s ∧ Quiet w s ∧ s.loop.due = none →
      (¬∀ (i : Nat) (t : Task Path), s.tasks[i]? = some t → t.phase = .ended) →
      ∃ es s', (∀ a ∈ es, a.OwnStep) ∧ (machine w).run s es = some s' ∧ (Sound w s' ∧ Quiet w s' ∧ s'.loop.due = none) ∧
        (s'.tasks.map fun t => t.phase.rank).sum < (s.tasks.map fun t => t.phase.rank).sum := by
    rintro s ⟨hs, hquiet, hdue⟩ hlive
    obtain ⟨i, hlive⟩ := not_forall.mp hlive
    obtain ⟨t, hlive⟩ := not_forall.mp hlive
    obtain ⟨hi, hlive⟩ := Classical.not_imp.mp hlive
    obtain ⟨es, s', i, path, phase, phase', h⟩ := exists_advances hs hquiet hi hlive
    refine ⟨es, s', h.own, h.run, ⟨hs.run h.run, h.quiet, by rw [h.loop, hdue]⟩, ?_⟩
    simp only [h.tasks]
    exact Slots.sum_map_set_lt (c := ⟨path, phase'⟩) (f := fun t => t.phase.rank) h.rank h.task
  obtain ⟨es, t, hown, hrun, ⟨-, -, hdue⟩, hended⟩ := Machine.exists_run_of_measure _ hstep s ⟨hs, hquiet, hdue⟩
  refine ⟨es, t, hown, hrun, ?_⟩
  rintro path (hpath | ⟨i, u, hu, -, hlive⟩)
  · cases hdue.symm.trans hpath
  · exact hlive (hended i u hu)

/-- The loop spawns the task that is due, and time passes until every file has been quiet. -/
theorem Sound.exists_quiet (hs : Sound w s) :
    ∃ es t, (∀ a ∈ es, a.OwnStep) ∧ (machine w).run s es = some t ∧ Quiet w t ∧ t.loop.due = none := by
  have hundue : ∃ es t, (∀ a ∈ es, a.OwnStep) ∧ (machine w).run s es = some t ∧ t.loop.due = none := by
    cases hloop : s.loop with
    | rewatching path alreadyScheduled wake =>
      have hwake : wake ≤ s.now + wake := Nat.le_add_left _ _
      have hrewatch : (machine w).step { s with now := s.now + wake } .rewatch =
          some { s with now := s.now + wake, loop := .scheduling path alreadyScheduled } := by
        simp only [machine, FileWatcher.step, hloop, hwake, if_true]
      have hrun : (machine w).run s [.elapse wake, .rewatch, .schedule] = _ :=
        (Machine.run_cons_of_step rfl _).trans (Machine.run_cons_of_step hrewatch _)
      exact ⟨_, _, by simp [Action.OwnStep], hrun, rfl⟩
    | scheduling path alreadyScheduled =>
      have hschedule : (machine w).step s .schedule = some { s with
          tasks := if alreadyScheduled then s.tasks else s.tasks ++ [⟨path, .sleeping (s.now + w.debounce)⟩]
          loop := .selecting } := by
        simp only [machine, FileWatcher.step, hloop]
      exact ⟨[.schedule], _, by simp [Action.OwnStep], Machine.run_cons_of_step hschedule [], rfl⟩
    | _ => exact ⟨[], s, List.forall_mem_nil _, rfl, by rw [hloop]; rfl⟩
  obtain ⟨es, t, hown, hrun, hdue⟩ := hundue
  refine ⟨es ++ [.elapse w.debounce], { t with now := t.now + w.debounce }, ?_, ?_, fun path time htime => ?_, hdue⟩
  · exact List.forall_mem_append.mpr ⟨hown, by simp [Action.OwnStep]⟩
  · rw [Machine.run_append_of_run hrun]
    rfl
  · exact Nat.add_le_add_right ((hs.run hrun).logged.marked path time htime).1 _

/-- Callbacks do not overlap; a file without a debounce task has been called back behind its last event, when it had been quiet for the debounce; and from any state the tasks can come to their end, without an event. -/
theorem delivers {created : Bool} (hrun : (machine w).run (.start created) es = some s) :
    (∀ (i j : Nat) (t u : Task Path), s.tasks[i]? = some t → s.tasks[j]? = some u → t.phase = .calling → u.phase = .calling → i = j) ∧
      (∀ path, ¬s.Busy path → Reloaded w.debounce path s.log) ∧
      ∃ es' t, (∀ a ∈ es', a.OwnStep) ∧ (machine w).run s es' = some t ∧ ∀ path, ¬t.Busy path := by
  have hs := (sound_start created).run hrun
  refine ⟨fun i j t u hi hj ht hu => ?_, fun path hidle => ?_, ?_⟩
  · have hlock := (hs.locks.callback i).mpr ⟨t, hi, ht⟩
    rw [(hs.locks.callback j).mpr ⟨u, hj, hu⟩] at hlock
    exact (Option.some.inj hlock).symm
  · have hnone : s.pendingMap path = none := by
      by_contra hmarked
      exact hidle ((hs.marked.marked path).mp hmarked)
    exact hs.logged.unmarked path hnone
  · obtain ⟨es₁, t₁, hown₁, hrun₁, hquiet, hdue⟩ := hs.exists_quiet
    obtain ⟨es₂, t₂, hown₂, hrun₂, hidle⟩ := hquiet.exists_drained (hs.run hrun₁) hdue
    exact ⟨es₁ ++ es₂, t₂, List.forall_mem_append.mpr ⟨hown₁, hown₂⟩, (Machine.run_append_of_run hrun₁ es₂).trans hrun₂, hidle⟩

def hostsWatcher : Watcher String := ⟨["/etc/hosts"], 200⟩

/-- An event is recorded while the task of another sleeps: it fails the first check, and passes the second. -/
def changedTwice : List (Action String) :=
  let event : Event String := ⟨.modify, ["hosts"]⟩
  [.notify event, .select, .canonicalize (some "/etc/hosts"), .record, .schedule, .elapse (millis 150),
    .notify event, .select, .canonicalize (some "/etc/hosts"), .record, .schedule, .elapse (millis 50),
    .wake 0, .lock 0, .check 0, .elapse (millis 200), .wake 0, .lock 0, .check 0, .call 0, .finish 0]

theorem delivers_changedTwice : ∃ s, (machine hostsWatcher).run (.start true) changedTwice = some s ∧
    s.log = [.called "/etc/hosts" (millis 400), .recorded "/etc/hosts" (millis 150), .recorded "/etc/hosts" 0] ∧
    Reloaded hostsWatcher.debounce "/etc/hosts" s.log := by
  refine ⟨_, rfl, by decide +kernel,
    (delivers (show (machine hostsWatcher).run (.start true) changedTwice = some _ from rfl)).2.1 _ ?_⟩
  rintro (hdue | ⟨i, t, ht, -, hlive⟩)
  · cases hdue
  · have hmem := List.mem_of_getElem? ht
    rw [List.mem_singleton.mp hmem] at hlive
    exact hlive rfl

end FileWatcher

end Lazydns
