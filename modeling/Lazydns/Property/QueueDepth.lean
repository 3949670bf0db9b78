import Lazydns.Util.TaskQueue

/-!
# The depth of the queue

Each call that is refused as a duplicate or for a full queue is subtracted from the depth, though it was never added: `enqueued` counts the accepted tasks only. So the depth is too small by the number of these calls as long as tasks are left, and stays 0 when it is used up.

The tasks themselves are never lost: one that was accepted is queued, with a worker, or executed, and each counter is behind what it counts by the calls and workers that have still to update it.
-/

namespace Lazydns

namespace TaskQueue

/-! ### What is counted -/

inductive Kind where
  | accepted
  | executed
  | refused
  deriving DecidableEq, Repr

def RefreshStats.counted (stats : RefreshStats) : Kind → Nat
  | .accepted => stats.enqueued
  | .executed => stats.processed
  | .refused => stats.rejected + stats.dedupSkipped

/-- How many there were. A call that finds the channel closed has no counter. -/
def Coordinator.noted (c : Coordinator) : Kind → Nat
  | .accepted => c.accepted.length
  | .executed => c.executed.length
  | .refused => c.refused.countP fun refusal => refusal.2 ≠ .closed

/-- The call has still to update the counter. -/
def CallStage.owes : Kind → CallStage → Bool
  | .accepted, .recording => true
  | .refused, .skipping => true
  | .refused, .retracting error => error = .queueFull
  | .refused, .rejecting => true
  | _, _ => false

def Worker.owes : Kind → Worker → Bool
  | .executed, .executed _ _ => true
  | _, _ => false

def Worker.task : Worker → Option String
  | .executing key => some key
  | _ => none

namespace System

def running (s : System) : List String := s.workers.filterMap Worker.task

/-- No update of a counter is outstanding. -/
def Quiet (s : System) : Prop :=
  ∀ kind, (∀ call ∈ s.calls, call.stage.owes kind = false) ∧ ∀ worker ∈ s.workers, worker.owes kind = false

/-- The depth is the number of tasks that were accepted and not executed yet, which are those that are queued or running. -/
def DepthExact (s : System) : Prop :=
  s.coordinator.stats.queueDepth = s.coordinator.accepted.length - s.coordinator.executed.length ∧
    s.coordinator.stats.queueDepth = s.coordinator.queue.length + s.running.length

end System

structure Inv (s : System) : Prop where
  counted : ∀ kind, s.coordinator.stats.counted kind + s.calls.countP (fun call => call.stage.owes kind) +
    s.workers.countP (Worker.owes kind) = s.coordinator.noted kind
  tasks : s.coordinator.accepted.Perm (s.coordinator.executed ++ (s.running ++ s.coordinator.queue))

variable {s s' : System} {c c' : Coordinator} {kind : Kind} {key : String} {stage : CallStage} {next : Option CallStage}
  {worker worker' : Worker} {w i : Nat} {outcome : Outcome}

/-! ### One access -/

/-- A call pays what it owes, or owes what it has just done. -/
theorem enqueue_counted (kind : Kind) (h : enqueue c key stage = (c', next)) :
    c'.stats.counted kind + (next.any (CallStage.owes kind)).toNat + c.noted kind =
      c.stats.counted kind + (stage.owes kind).toNat + c'.noted kind := by
  cases stage with
  | claiming =>
    simp only [enqueue] at h
    split at h
    · cases h
      cases kind <;> simp [RefreshStats.counted, Coordinator.noted, CallStage.owes]
      omega
    · cases h
      cases kind <;> simp [RefreshStats.counted, Coordinator.noted, CallStage.owes]
  | skipping =>
    cases h
    cases kind <;> simp [RefreshStats.counted, RefreshStats.recordDedupSkipped, Coordinator.noted, CallStage.owes]
    omega
  | sending =>
    simp only [enqueue] at h
    split at h
    · cases h
      cases kind <;> simp [RefreshStats.counted, Coordinator.noted, CallStage.owes]
    · split at h
      · cases h
        cases kind <;> simp [RefreshStats.counted, Coordinator.noted, CallStage.owes]
        omega
      · cases h
        cases kind <;> simp [RefreshStats.counted, Coordinator.noted, CallStage.owes]
        omega
  | recording =>
    cases h
    cases kind <;> simp [RefreshStats.counted, RefreshStats.recordEnqueued, Coordinator.noted, CallStage.owes]
  | retracting error =>
    cases h
    cases kind <;> cases error <;> simp [Coordinator.noted, RefreshStats.counted, CallStage.owes]
  | rejecting =>
    cases h
    cases kind <;> simp [RefreshStats.counted, RefreshStats.recordRejected, Coordinator.noted, CallStage.owes]
    omega

/-- A call accepts its task when it puts it on the queue. -/
theorem enqueue_tasks (h : enqueue c key stage = (c', next)) :
    ∃ tasks, c'.accepted = c.accepted ++ tasks ∧ c'.queue = c.queue ++ tasks ∧ c'.executed = c.executed := by
  have hnone : ∃ tasks, c.accepted = c.accepted ++ tasks ∧ c.queue = c.queue ++ tasks ∧ c.executed = c.executed :=
    ⟨[], by simp⟩
  cases stage with
  | sending =>
    simp only [enqueue] at h
    split at h
    · cases h
      exact hnone
    · split at h
      · cases h
        exact ⟨[key], rfl, rfl, rfl⟩
      · cases h
        exact hnone
  | claiming =>
    simp only [enqueue] at h
    split at h
    · cases h
      exact hnone
    · cases h
      exact hnone
  | skipping | recording | retracting | rejecting =>
    cases h
    exact hnone

theorem workerLoop_counted (kind : Kind) (h : workerLoop c worker = some (c', worker')) :
    c'.stats.counted kind + (worker'.owes kind).toNat + c.noted kind =
      c.stats.counted kind + (worker.owes kind).toNat + c'.noted kind := by
  cases worker with
  | executed key outcome =>
    cases h
    cases kind <;> simp [RefreshStats.counted, RefreshStats.recordProcessed, Coordinator.noted, Worker.owes]
  | processed key outcome =>
    cases h
    cases outcome <;> cases kind <;> rfl
  | releasing | notifying =>
    cases h
    cases kind <;> rfl
  | receiving | executing | stopped => cases h

/-- Behind its execution a task is no longer with its worker. -/
theorem workerLoop_tasks (h : workerLoop c worker = some (c', worker')) :
    c'.accepted = c.accepted ∧ c'.queue = c.queue ∧ c'.executed = c.executed ∧
      worker.task = none ∧ worker'.task = none := by
  cases worker with
  | executed | processed | releasing | notifying =>
    cases h
    exact ⟨rfl, rfl, rfl, rfl, rfl⟩
  | receiving | executing | stopped => cases h

/-! ### One step -/

/-- The worker changes the task it is executing. -/
theorem running_set (h : s.workers[w]? = some worker) (hworkers : s'.workers = s.workers.set w worker') :
    (worker.task.toList ++ s'.running).Perm (worker'.task.toList ++ s.running) := by
  have hold : s.running.Perm (worker.task.toList ++ (s.workers.eraseIdx w).filterMap Worker.task) := by
    refine ((Slots.perm_cons_eraseIdx h).filterMap Worker.task).trans ?_
    cases hw : worker.task <;> simp [hw]
  have hnew : s'.running.Perm (worker'.task.toList ++ (s.workers.eraseIdx w).filterMap Worker.task) := by
    rw [System.running, hworkers]
    refine ((Slots.replace_perm h (some worker')).filterMap Worker.task).trans ?_
    cases hw : worker'.task <;> simp [hw]
  refine (hnew.append_left _).trans (List.Perm.trans ?_ (hold.symm.append_left _))
  exact List.perm_append_comm_assoc _ _ _

theorem inv_new (workerCount capacity : Nat) : Inv (.new workerCount capacity) := by
  constructor
  · intro kind
    cases kind <;> simp [System.new, RefreshStats.counted, RefreshStats.new, Coordinator.noted, Worker.owes]
  · have hnone : (System.new workerCount capacity).running = [] := by
      simp [System.running, System.new, Worker.task]
    rw [hnone]
    exact List.Perm.refl []

theorem Inv.call (h : Inv s) (hcall : s.calls[i]? = some ⟨key, stage⟩)
    (henqueue : enqueue s.coordinator key stage = (s'.coordinator, next))
    (hcalls : s'.calls = Slots.replace s.calls i (next.map (Call.mk key))) (hworkers : s'.workers = s.workers) :
    Inv s' := by
  constructor
  · intro kind
    have hold := h.counted kind
    have hpaid := enqueue_counted kind henqueue
    have hplace := Slots.countP_replace hcall (next.map (Call.mk key)) fun call => call.stage.owes kind
    rw [Option.any_map] at hplace
    simp only at hplace
    rw [hcalls, hworkers]
    change _ + (next.any fun stage => stage.owes kind).toNat + _ = _ at hpaid
    omega
  · obtain ⟨tasks, haccepted, hqueue, hexecuted⟩ := enqueue_tasks henqueue
    have hrunning : s'.running = s.running := congrArg (List.filterMap Worker.task) hworkers
    rw [haccepted, hqueue, hexecuted, hrunning, ← List.append_assoc s.running, ← List.append_assoc]
    exact h.tasks.append_right tasks

/-- A worker goes on: it pays what it owes, and a task that leaves it has been executed. -/
theorem Inv.move (h : Inv s) (hworker : s.workers[w]? = some worker) (hcalls : s'.calls = s.calls)
    (hworkers : s'.workers = s.workers.set w worker')
    (hcounted : ∀ kind, s'.coordinator.stats.counted kind + (worker'.owes kind).toNat + s.coordinator.noted kind =
      s.coordinator.stats.counted kind + (worker.owes kind).toNat + s'.coordinator.noted kind)
    (haccepted : s'.coordinator.accepted = s.coordinator.accepted)
    (htasks : (s'.coordinator.executed ++ (worker'.task.toList ++ s'.coordinator.queue)).Perm
      (s.coordinator.executed ++ (worker.task.toList ++ s.coordinator.queue))) : Inv s' := by
  constructor
  · intro kind
    have hold := h.counted kind
    have hpaid := hcounted kind
    have hplace := Slots.countP_replace hworker (some worker') (Worker.owes kind)
    rw [hcalls, hworkers]
    change _ + (Slots.replace s.workers w (some worker')).countP _ = _
    rw [Option.any_some] at hplace
    omega
  · have hrunning := running_set hworker hworkers
    have hold := h.tasks
    rw [haccepted]
    rw [List.perm_iff_count] at htasks hrunning hold ⊢
    intro key
    specialize htasks key
    specialize hrunning key
    specialize hold key
    simp only [List.count_append] at htasks hrunning hold ⊢
    omega

theorem Inv.loop (h : Inv s) (hworker : s.workers[w]? = some worker)
    (hloop : workerLoop s.coordinator worker = some (s'.coordinator, worker')) (hcalls : s'.calls = s.calls)
    (hworkers : s'.workers = s.workers.set w worker') : Inv s' := by
  obtain ⟨haccepted, hqueue, hexecuted, htask, htask'⟩ := workerLoop_tasks hloop
  refine h.move hworker hcalls hworkers (fun kind => workerLoop_counted kind hloop) haccepted ?_
  rw [hqueue, hexecuted, htask, htask']

theorem Inv.receive (h : Inv s) (hworker : s.workers[w]? = some .receiving) {queue : List String}
    (hqueue : s.coordinator.queue = key :: queue) :
    Inv { s with coordinator := { s.coordinator with queue }, workers := s.workers.set w (.executing key) } := by
  refine h.move hworker rfl rfl (fun kind => ?_) rfl ?_
  · cases kind <;> rfl
  · rw [hqueue]
    exact List.Perm.refl _

theorem Inv.finish (h : Inv s) (hworker : s.workers[w]? = some (.executing key)) (outcome : Outcome) :
    Inv { s with
      coordinator := { s.coordinator with executed := s.coordinator.executed ++ [key] }
      workers := s.workers.set w (.executed key outcome) } := by
  refine h.move hworker rfl rfl (fun kind => ?_) rfl ?_
  · cases kind <;> simp [RefreshStats.counted, Coordinator.noted, Worker.owes]
    omega
  · rw [List.append_assoc]
    exact List.Perm.refl _

theorem Inv.step {e : Event} (h : Inv s) (hstep : machine.step s e = some s') : Inv s' := by
  cases e with
  | enqueue key =>
    obtain ⟨-, heq⟩ := Option.ite_none_right_eq_some.mp hstep
    cases heq
    refine ⟨fun kind => ?_, h.tasks⟩
    have hold := h.counted kind
    have hclaiming : CallStage.owes kind .claiming = false := by
      cases kind <;> rfl
    simp only [List.countP_append, List.countP_singleton, hclaiming]
    exact hold
  | call i =>
    simp only [machine, TaskQueue.step] at hstep
    split at hstep
    · rename_i key stage hcall
      cases hstep
      exact h.call hcall rfl rfl rfl
    · cases hstep
  | receive w =>
    simp only [machine, TaskQueue.step] at hstep
    split at hstep
    · rename_i key queue hworker hqueue
      cases hstep
      exact h.receive hworker hqueue
    · rename_i hworker hqueue
      obtain ⟨-, heq⟩ := Option.ite_none_left_eq_some.mp hstep
      cases heq
      refine h.move hworker rfl rfl (fun kind => ?_) rfl (List.Perm.refl _)
      cases kind <;> rfl
    · cases hstep
  | finish w outcome =>
    simp only [machine, TaskQueue.step] at hstep
    split at hstep
    · rename_i key hworker
      cases hstep
      exact h.finish hworker outcome
    · cases hstep
  | worker w =>
    simp only [machine, TaskQueue.step] at hstep
    split at hstep
    · rename_i worker hworker
      obtain ⟨⟨coordinator, worker'⟩, hloop, heq⟩ := Option.map_eq_some_iff.mp hstep
      cases heq
      exact h.loop hworker hloop rfl rfl
    · cases hstep
  | shutdown =>
    obtain ⟨-, heq⟩ := Option.ite_none_right_eq_some.mp hstep
    cases heq
    exact ⟨h.counted, h.tasks⟩

/-! ### Whole runs -/

variable {workerCount capacity : Nat} {es : List Event}

theorem inv_of_run (hrun : machine.run (.new workerCount capacity) es = some s) : Inv s :=
  Machine.run_invariant (fun _ _ _ hI hstep => hI.step hstep) (inv_new workerCount capacity) hrun

/-- Between updates each counter has counted everything. -/
theorem Inv.counted_of_quiet (h : Inv s) (hquiet : s.Quiet) (kind : Kind) :
    s.coordinator.stats.counted kind = s.coordinator.noted kind := by
  have hold := h.counted kind
  obtain ⟨hcalls, hworkers⟩ := hquiet kind
  rw [List.countP_eq_zero.mpr (by simpa using hcalls), List.countP_eq_zero.mpr (by simpa using hworkers)] at hold
  exact hold

/-- The depth is exact between updates, if and only if no call was refused as a duplicate or for a full queue or no task is left. -/
theorem depthExact_iff (hrun : machine.run (.new workerCount capacity) es = some s) (hquiet : s.Quiet) :
    s.DepthExact ↔ (∀ refusal ∈ s.coordinator.refused, refusal.2 = .closed) ∨
      s.coordinator.queue = [] ∧ s.running = [] := by
  have hinv := inv_of_run hrun
  have haccepted := hinv.counted_of_quiet hquiet .accepted
  have hexecuted := hinv.counted_of_quiet hquiet .executed
  have hrefused := hinv.counted_of_quiet hquiet .refused
  have htasks := hinv.tasks.length_eq
  rw [List.length_append, List.length_append] at htasks
  have hnone : (∀ refusal ∈ s.coordinator.refused, refusal.2 = .closed) ↔
      s.coordinator.refused.countP (fun refusal => refusal.2 ≠ .closed) = 0 := by
    rw [List.countP_eq_zero]
    simp
  rw [hnone, ← List.length_eq_zero_iff, ← List.length_eq_zero_iff, System.DepthExact, RefreshStats.queueDepth]
  simp only [RefreshStats.counted, Coordinator.noted] at haccepted hexecuted hrefused
  omega

/-- A second call with the same key is refused, and the depth is exact again when the first task has been executed. -/
theorem depthExact_iff_duplicate :
    ∃ s, machine.run (.new 1 2) [.enqueue "a", .call 0, .call 0, .enqueue "a", .call 1, .call 1, .call 0, .receive 0,
      .finish 0 .timeout, .worker 0] = some s ∧ s.Quiet ∧ s.coordinator.refused = [("a", .alreadyProcessing)] ∧
      s.DepthExact := by
  have hiff := fun s => @depthExact_iff s 1 2 [.enqueue "a", .call 0, .call 0, .enqueue "a", .call 1, .call 1, .call 0,
    .receive 0, .finish 0 .timeout, .worker 0]
  have hquiet : ∀ s, machine.run (.new 1 2) [.enqueue "a", .call 0, .call 0, .enqueue "a", .call 1, .call 1, .call 0,
      .receive 0, .finish 0 .timeout, .worker 0] = some s → s.Quiet := by
    rintro s ⟨⟩ kind
    cases kind <;> decide
  exact ⟨_, rfl, hquiet _ rfl, rfl, (hiff _ rfl (hquiet _ rfl)).mpr (.inr ⟨rfl, rfl⟩)⟩

/-- One task is queued, a second one finds the queue full. -/
theorem not_depthExact_full :
    ¬∀ (workerCount capacity : Nat) (es : List Event) (s : System),
      machine.run (.new workerCount capacity) es = some s → s.Quiet → s.DepthExact := by
  intro h
  have hexact := h 1 1 [.enqueue "a", .call 0, .call 0, .call 0, .enqueue "b", .call 0, .call 0, .call 0, .call 0] _ rfl
    fun kind => by cases kind <;> decide
  exact absurd hexact.1 (by decide)

end TaskQueue

end Lazydns
