import Lazydns.Property.QueueDepth
import Mathlib.Data.Finset.Erase

/-!
# The shutdown of the task queue

When the coordinator is shut down no call is in progress, and no task is added to the queue any more. Each access of a worker then brings the end one step nearer, and as long as a worker has not stopped one of them can go on. What is reached in the end is that every accepted task has been executed, and counted under one outcome, and that no key is left in `processing`.

A key is in `processing` as long as a call, the queue or a worker has it in hand, and only one of them does.
-/

namespace Lazydns

namespace TaskQueue

/-! ### Keys in hand -/

/-- The call has put its key into `processing` and has still to pass it on or to take it out. -/
def CallStage.holds : CallStage → Bool
  | .sending => true
  | .retracting _ => true
  | _ => false

def Call.held (call : Call) : Option String := if call.stage.holds then some call.key else none

def Worker.held : Worker → Option String
  | .executing key => some key
  | .executed key _ => some key
  | .processed key _ => some key
  | .releasing key _ => some key
  | _ => none

/-- The task has been executed, and its outcome is not counted yet. -/
def Worker.unjudged : Worker → Bool
  | .executed _ _ => true
  | .processed _ _ => true
  | _ => false

def RefreshStats.outcomes (stats : RefreshStats) : Nat := stats.success + stats.failed + stats.timeout

/-- How many accesses the worker takes until it has stopped, if it receives no other task. -/
def Worker.rank : Worker → Nat
  | .executing _ => 6
  | .executed _ _ => 5
  | .processed _ _ => 4
  | .releasing _ _ => 3
  | .notifying _ _ => 2
  | .receiving => 1
  | .stopped => 0

namespace System

variable (s : System)

def held : List String := s.calls.filterMap Call.held ++ (s.coordinator.queue ++ s.workers.filterMap Worker.held)

/-- How many accesses are left until all workers have stopped. -/
def remaining : Nat := 6 * s.coordinator.queue.length + (s.workers.map Worker.rank).sum

/-- What the shutdown waits for. -/
def Finished : Prop := ∀ worker ∈ s.workers, worker = .stopped

instance : Decidable s.Finished := inferInstanceAs (Decidable (∀ worker ∈ s.workers, worker = .stopped))

/-- Every accepted task was executed and counted, and nothing is left of any. -/
structure Drained : Prop where
  executed : s.coordinator.executed.Perm s.coordinator.accepted
  queue : s.coordinator.queue = []
  processing : s.coordinator.processing = ∅
  enqueued : s.coordinator.stats.enqueued = s.coordinator.accepted.length
  processed : s.coordinator.stats.processed = s.coordinator.accepted.length
  outcomes : s.coordinator.stats.outcomes = s.coordinator.stats.processed

end System

/-- What the workers and the shutdown rely on. -/
structure Tended (s : System) : Prop where
  held : s.coordinator.processing.val = (s.held : Multiset String)
  judged : s.coordinator.stats.outcomes + s.workers.countP Worker.unjudged = s.coordinator.executed.length
  workers : s.coordinator.workerCount = s.workers.length
  calls : s.alive = false → s.calls = []
  stopped : .stopped ∈ s.workers → s.alive = false ∧ s.coordinator.queue = []
  nobody : s.workers = [] → s.coordinator.queue = []

variable {s s' t : System} {c c' : Coordinator} {key : String} {stage : CallStage} {next : Option CallStage}
  {worker worker' : Worker} {w i : Nat} {outcome : Outcome} {e : Event}

/-! ### One access -/

theorem count_erase (h : key ∈ c.processing) (k : String) :
    (c.processing.erase key).val.count k + [key].count k = c.processing.val.count k := by
  have hcons := congrArg (Multiset.count k) (Multiset.cons_erase (Finset.mem_val.mpr h))
  rw [Finset.erase_val, ← hcons, ← Multiset.singleton_add, Multiset.count_add, Nat.add_comm, ← Multiset.coe_count,
    Multiset.coe_singleton]

theorem count_insert (h : key ∉ c.processing) (k : String) :
    (insert key c.processing).val.count k = c.processing.val.count k + [key].count k := by
  rw [Finset.insert_val_of_notMem h, ← Multiset.singleton_add, Multiset.count_add, Nat.add_comm, ← Multiset.coe_count,
    Multiset.coe_singleton]

/-- A call puts its key into `processing`, takes it out, or passes it on to the queue. -/
theorem enqueue_held (hheld : stage.holds → key ∈ c.processing) (h : enqueue c key stage = (c', next)) (k : String) :
    c'.processing.val.count k + (Call.mk key stage).held.toList.count k + c.queue.count k =
      c.processing.val.count k + ((next.map (Call.mk key)).bind Call.held).toList.count k + c'.queue.count k := by
  cases stage with
  | claiming =>
    simp only [enqueue] at h
    split at h
    · cases h
      simp [Call.held, CallStage.holds]
    · rename_i hkey
      cases h
      have hinsert := count_insert hkey k
      simp only [Call.held, CallStage.holds, Option.map_some, Option.bind_some, Bool.false_eq_true, if_false,
        if_true, Option.toList_none, Option.toList_some, List.count_nil]
      omega
  | sending =>
    simp only [enqueue] at h
    split at h
    · cases h
      simp [Call.held, CallStage.holds]
    · split at h
      · cases h
        simp only [Call.held, CallStage.holds, Option.map_some, Option.bind_some, Bool.false_eq_true, if_false,
          if_true, Option.toList_none, Option.toList_some, List.count_nil, List.count_append]
        omega
      · cases h
        simp [Call.held, CallStage.holds]
  | retracting error =>
    cases h
    have herase := count_erase (hheld rfl) k
    have hnone : ((if error = .queueFull then some CallStage.rejecting else none).map (Call.mk key)).bind Call.held =
        none := by
      split <;> rfl
    rw [hnone]
    simp only [Call.held, CallStage.holds, if_true, Option.toList_none, Option.toList_some, List.count_nil]
    omega
  | skipping | recording | rejecting =>
    cases h
    simp [Call.held, CallStage.holds]

theorem enqueue_kept (h : enqueue c key stage = (c', next)) :
    c'.workerCount = c.workerCount ∧ c'.stats.outcomes = c.stats.outcomes ∧ c'.executed = c.executed ∧
      (c.workerCount = 0 → c'.queue = c.queue) := by
  cases stage with
  | claiming =>
    simp only [enqueue] at h
    split at h
    · cases h
      simp
    · cases h
      simp
  | sending =>
    simp only [enqueue] at h
    split at h
    · cases h
      simp
    · rename_i hcount
      split at h
      · cases h
        exact ⟨rfl, rfl, rfl, fun hzero => absurd hzero hcount⟩
      · cases h
        simp
  | skipping | recording | retracting | rejecting =>
    cases h
    exact ⟨rfl, rfl, rfl, fun _ => rfl⟩

/-- What an access of a worker does: it takes a task from the queue, notes or counts it, releases its key, or stops. -/
structure Turn (alive : Bool) (c c' : Coordinator) (worker worker' : Worker) : Prop where
  held : (∀ key ∈ worker.held, key ∈ c.processing) → ∀ k,
    c'.processing.val.count k + worker.held.toList.count k + c.queue.count k =
      c.processing.val.count k + worker'.held.toList.count k + c'.queue.count k
  judged : c'.stats.outcomes + worker'.unjudged.toNat + c.executed.length =
    c.stats.outcomes + worker.unjudged.toNat + c'.executed.length
  rank : 6 * c'.queue.length + worker'.rank + 1 = 6 * c.queue.length + worker.rank
  workers : c'.workerCount = c.workerCount
  queue : c.queue = [] → c'.queue = []
  stopped : worker' = .stopped → alive = false ∧ c'.queue = []
  going : worker ≠ .stopped

theorem turn_of_workerLoop (alive : Bool) (h : workerLoop c worker = some (c', worker')) :
    Turn alive c c' worker worker' := by
  cases worker with
  | executed key outcome =>
    cases h
    exact ⟨fun _ _ => rfl, rfl, rfl, rfl, id, fun h => (by cases h), fun h => (by cases h)⟩
  | processed key outcome =>
    cases h
    refine ⟨fun _ _ => rfl, ?_, rfl, rfl, id, fun h => (by cases h), fun h => (by cases h)⟩
    cases outcome <;> simp [RefreshStats.recordOutcome, RefreshStats.outcomes, Worker.unjudged,
      RefreshStats.recordSuccess, RefreshStats.recordFailed, RefreshStats.recordTimeout] <;> omega
  | releasing key success =>
    cases h
    refine ⟨fun hheld k => ?_, rfl, rfl, rfl, id, fun h => (by cases h), fun h => (by cases h)⟩
    have herase := count_erase (hheld key rfl) k
    simp only [Worker.held, Option.toList_some, Option.toList_none, List.count_nil]
    omega
  | notifying key success =>
    cases h
    exact ⟨fun _ _ => rfl, rfl, rfl, rfl, id, fun h => (by cases h), fun h => (by cases h)⟩
  | receiving | executing | stopped => cases h

theorem turn_receive {queue : List String} (alive : Bool) (hqueue : c.queue = key :: queue) :
    Turn alive c { c with queue } .receiving (.executing key) := by
  refine ⟨fun _ k => ?_, rfl, ?_, rfl, fun hnil => ?_, fun h => (by cases h), fun h => (by cases h)⟩
  · rw [hqueue, ← List.singleton_append, List.count_append]
    simp only [Worker.held, Option.toList_none, Option.toList_some, List.count_nil]
    omega
  · rw [hqueue, List.length_cons]
    simp only [Worker.rank]
    omega
  · rw [hqueue] at hnil
    cases hnil

theorem turn_stop (hqueue : c.queue = []) : Turn false c c .receiving .stopped where
  held _ _ := rfl
  judged := rfl
  rank := rfl
  workers := rfl
  queue := id
  stopped _ := ⟨rfl, hqueue⟩
  going h := by cases h

theorem turn_finish (alive : Bool) (key : String) (outcome : Outcome) :
    Turn alive c { c with executed := c.executed ++ [key] } (.executing key) (.executed key outcome) := by
  refine ⟨fun _ _ => rfl, ?_, rfl, rfl, id, fun h => (by cases h), fun h => (by cases h)⟩
  simp only [Worker.unjudged, List.length_append, List.length_singleton, Bool.toNat_true, Bool.toNat_false]
  omega

/-! ### One step -/

inductive Moves (s s' : System) : Prop
  | start (key : String) (halive : s.alive) (heq : s' = { s with calls := s.calls ++ [⟨key, .claiming⟩] })
  | call (i : Nat) (key : String) (stage : CallStage) (next : Option CallStage)
      (hcall : s.calls[i]? = some ⟨key, stage⟩) (henqueue : enqueue s.coordinator key stage = (s'.coordinator, next))
      (hcalls : s'.calls = Slots.replace s.calls i (next.map (Call.mk key))) (hworkers : s'.workers = s.workers)
      (halive : s'.alive = s.alive)
  | turn (w : Nat) (worker worker' : Worker) (hworker : s.workers[w]? = some worker)
      (hturn : Turn s.alive s.coordinator s'.coordinator worker worker')
      (hworkers : s'.workers = s.workers.set w worker') (hcalls : s'.calls = s.calls) (halive : s'.alive = s.alive)
  | shutdown (hcalls : s.calls = []) (halive : s.alive) (heq : s' = { s with alive := false })

theorem moves_of_step (hstep : machine.step s e = some s') : Moves s s' := by
  cases e with
  | enqueue key =>
    obtain ⟨halive, heq⟩ := Option.ite_none_right_eq_some.mp hstep
    exact .start key halive (Option.some.inj heq).symm
  | call i =>
    simp only [machine, TaskQueue.step] at hstep
    split at hstep
    · rename_i key stage hcall
      cases hstep
      exact .call i key stage _ hcall rfl rfl rfl rfl
    · cases hstep
  | receive w =>
    simp only [machine, TaskQueue.step] at hstep
    split at hstep
    · rename_i key queue hworker hqueue
      cases hstep
      exact .turn w _ _ hworker (turn_receive _ hqueue) rfl rfl rfl
    · rename_i hworker hqueue
      obtain ⟨halive, heq⟩ := Option.ite_none_left_eq_some.mp hstep
      cases heq
      have hturn : Turn s.alive s.coordinator s.coordinator .receiving .stopped := by
        rw [Bool.eq_false_of_not_eq_true halive]
        exact turn_stop hqueue
      exact .turn w _ _ hworker hturn rfl rfl rfl
    · cases hstep
  | finish w outcome =>
    simp only [machine, TaskQueue.step] at hstep
    split at hstep
    · rename_i key hworker
      cases hstep
      exact .turn w _ _ hworker (turn_finish _ key outcome) rfl rfl rfl
    · cases hstep
  | worker w =>
    simp only [machine, TaskQueue.step] at hstep
    split at hstep
    · rename_i worker hworker
      obtain ⟨⟨coordinator, worker'⟩, hloop, heq⟩ := Option.map_eq_some_iff.mp hstep
      cases heq
      exact .turn w _ _ hworker (turn_of_workerLoop _ hloop) rfl rfl rfl
    · cases hstep
  | shutdown =>
    obtain ⟨⟨halive, hcalls⟩, heq⟩ := Option.ite_none_right_eq_some.mp hstep
    exact .shutdown hcalls halive (Option.some.inj heq).symm

theorem Tended.mem_processing (h : Tended s) (hkey : key ∈ s.held) : key ∈ s.coordinator.processing := by
  rw [← Finset.mem_val, h.held]
  exact hkey

theorem Tended.count (h : Tended s) (k : String) : s.coordinator.processing.val.count k =
    (s.calls.filterMap Call.held).count k + (s.coordinator.queue.count k +
      (s.workers.filterMap Worker.held).count k) := by
  rw [h.held, Multiset.coe_count, System.held, List.count_append, List.count_append]

theorem tended_new (workerCount capacity : Nat) : Tended (.new workerCount capacity) where
  held := by
    have hnone : (System.new workerCount capacity).held = [] := by
      simp [System.held, System.new, Worker.held]
    rw [hnone]
    rfl
  judged := by
    have hnone : (System.new workerCount capacity).workers.countP Worker.unjudged = 0 := by
      simp [System.new, Worker.unjudged]
    rw [hnone]
    rfl
  workers := List.length_replicate.symm
  calls h := by cases h
  stopped h := by cases List.eq_of_mem_replicate h
  nobody _ := rfl

theorem Tended.call (h : Tended s) (hcall : s.calls[i]? = some ⟨key, stage⟩)
    (henqueue : enqueue s.coordinator key stage = (s'.coordinator, next))
    (hcalls : s'.calls = Slots.replace s.calls i (next.map (Call.mk key))) (hworkers : s'.workers = s.workers)
    (halive : s'.alive = s.alive) : Tended s' := by
  have hmem := List.mem_of_getElem? hcall
  obtain ⟨hcount, houtcomes, hexecuted, hqueue⟩ := enqueue_kept henqueue
  have hrunning : s.alive = true := by
    by_contra hnot
    rw [h.calls (Bool.eq_false_of_not_eq_true hnot)] at hmem
    cases hmem
  have hheld : stage.holds → key ∈ s.coordinator.processing := by
    intro hholds
    apply h.mem_processing
    apply List.mem_append_left
    exact List.mem_filterMap.mpr ⟨_, hmem, if_pos hholds⟩
  constructor
  · apply Multiset.ext.mpr
    intro k
    have hold := h.count k
    have hpaid := enqueue_held hheld henqueue k
    have hplace := (Slots.filterMap_replace hcall (next.map (Call.mk key)) Call.held).count_eq k
    rw [Multiset.coe_count, System.held, hcalls, hworkers]
    simp only [List.count_append] at hplace ⊢
    omega
  · rw [houtcomes, hexecuted, hworkers]
    exact h.judged
  · rw [hcount, hworkers]
    exact h.workers
  · intro hoff
    rw [halive, hrunning] at hoff
    cases hoff
  · intro hstopped
    rw [hworkers] at hstopped
    rw [(h.stopped hstopped).1] at hrunning
    cases hrunning
  · intro hnone
    rw [hworkers] at hnone
    rw [hqueue (by rw [h.workers, hnone, List.length_nil])]
    exact h.nobody hnone

theorem Tended.turn (h : Tended s) (hworker : s.workers[w]? = some worker)
    (hturn : Turn s.alive s.coordinator s'.coordinator worker worker')
    (hworkers : s'.workers = s.workers.set w worker') (hcalls : s'.calls = s.calls) (halive : s'.alive = s.alive) :
    Tended s' := by
  have hmem := List.mem_of_getElem? hworker
  have hheld : ∀ key ∈ worker.held, key ∈ s.coordinator.processing := by
    intro key hkey
    apply h.mem_processing
    apply List.mem_append_right
    apply List.mem_append_right
    exact List.mem_filterMap.mpr ⟨_, hmem, hkey⟩
  constructor
  · apply Multiset.ext.mpr
    intro k
    have hold := h.count k
    have hpaid := hturn.held hheld k
    have hplace := (Slots.filterMap_replace hworker (some worker') Worker.held).count_eq k
    rw [Multiset.coe_count, System.held, hcalls, hworkers]
    simp only [List.count_append, Option.bind_some, Slots.replace] at hplace ⊢
    omega
  · have hold := h.judged
    have hpaid := hturn.judged
    have hplace := Slots.countP_replace hworker (some worker') Worker.unjudged
    rw [Option.any_some] at hplace
    rw [hworkers]
    change _ + (Slots.replace s.workers w (some worker')).countP _ = _
    omega
  · rw [hturn.workers, hworkers, List.length_set]
    exact h.workers
  · intro hoff
    rw [hcalls]
    exact h.calls (halive ▸ hoff)
  · intro hstopped
    rw [hworkers] at hstopped
    rw [halive]
    rcases List.mem_or_eq_of_mem_set hstopped with hold | hnew
    · obtain ⟨hoff, hqueue⟩ := h.stopped hold
      exact ⟨hoff, hturn.queue hqueue⟩
    · exact hturn.stopped hnew.symm
  · intro hnone
    rw [hworkers] at hnone
    rw [(List.set_eq_nil_iff _ _).mp hnone] at hmem
    cases hmem

theorem Tended.step (h : Tended s) (hstep : machine.step s e = some s') : Tended s' := by
  cases moves_of_step hstep with
  | start key halive heq =>
    subst heq
    refine ⟨?_, h.judged, h.workers, fun hoff => ?_, h.stopped, h.nobody⟩
    · have hnone : (s.calls ++ [Call.mk key .claiming]).filterMap Call.held = s.calls.filterMap Call.held := by
        rw [List.filterMap_append]
        exact List.append_nil _
      rw [System.held, hnone]
      exact h.held
    · rw [halive] at hoff
      cases hoff
  | call i key stage next hcall henqueue hcalls hworkers halive =>
    exact h.call hcall henqueue hcalls hworkers halive
  | turn w worker worker' hworker hturn hworkers hcalls halive =>
    exact h.turn hworker hturn hworkers hcalls halive
  | shutdown hcalls halive heq =>
    subst heq
    exact ⟨h.held, h.judged, h.workers, fun _ => hcalls, fun hstopped => ⟨rfl, (h.stopped hstopped).2⟩, h.nobody⟩

/-- After the shutdown only workers go on, and each of their accesses is one of those that are left. -/
theorem Tended.nearer (h : Tended s) (hoff : s.alive = false) (hstep : machine.step s e = some s') :
    s'.alive = false ∧ s'.remaining + 1 = s.remaining := by
  cases moves_of_step hstep with
  | start key halive heq =>
    rw [hoff] at halive
    cases halive
  | call i key stage next hcall henqueue hcalls hworkers halive =>
    rw [h.calls hoff] at hcall
    cases hcall
  | turn w worker worker' hworker hturn hworkers hcalls halive =>
    have hsum := Slots.sum_map_set hworker worker' Worker.rank
    have hrank := hturn.rank
    refine ⟨halive.trans hoff, ?_⟩
    rw [System.remaining, System.remaining, hworkers]
    omega
  | shutdown hcalls halive heq =>
    rw [hoff] at halive
    cases halive

/-- A worker that has not stopped can go on. -/
theorem exists_step (hoff : s.alive = false) (hworker : s.workers[w]? = some worker) (hgoing : worker ≠ .stopped) :
    ∃ e, (machine.step s e).isSome := by
  cases worker with
  | receiving =>
    refine ⟨.receive w, ?_⟩
    cases hqueue : s.coordinator.queue <;> simp [machine, TaskQueue.step, hworker, hqueue, hoff]
  | executing key => exact ⟨.finish w .success, by simp [machine, TaskQueue.step, hworker]⟩
  | executed | processed | releasing | notifying =>
    exact ⟨.worker w, by simp [machine, TaskQueue.step, hworker, workerLoop]⟩
  | stopped => exact absurd rfl hgoing

/-! ### Whole runs -/

variable {workerCount capacity : Nat} {es es' : List Event}

theorem tended_of_run (hrun : machine.run (.new workerCount capacity) es = some s) : Tended s :=
  Machine.run_invariant (fun _ _ _ hI hstep => hI.step hstep) (tended_new workerCount capacity) hrun

theorem Tended.run (h : Tended s) (hoff : s.alive = false) (hrun : machine.run s es = some t) :
    Tended t ∧ t.alive = false ∧ t.remaining + es.length = s.remaining := by
  induction es generalizing s with
  | nil =>
    cases hrun
    exact ⟨h, hoff, rfl⟩
  | cons e es ih =>
    obtain ⟨s', hs', hrun⟩ := Machine.run_cons_eq_some.mp hrun
    obtain ⟨hoff', hrank⟩ := h.nearer hoff hs'
    obtain ⟨ht, hofft, hremaining⟩ := ih (h.step hs') hoff' hrun
    refine ⟨ht, hofft, ?_⟩
    rw [List.length_cons]
    omega

theorem Tended.queue_of_finished (h : Tended s) (hfinished : s.Finished) : s.coordinator.queue = [] := by
  cases hworkers : s.workers with
  | nil => exact h.nobody hworkers
  | cons worker workers =>
    have hmem : worker ∈ s.workers := by
      rw [hworkers]
      exact List.mem_cons_self
    rw [hfinished worker hmem] at hmem
    exact (h.stopped hmem).2

/-- Nothing is left to do exactly if all workers have stopped. -/
theorem Tended.finished_iff (h : Tended s) : s.Finished ↔ s.remaining = 0 := by
  constructor
  · intro hfinished
    have hranks : (s.workers.map Worker.rank).sum = 0 := by
      apply List.sum_eq_zero_iff_forall_eq_nat.mpr
      intro rank hrank
      obtain ⟨worker, hworker, rfl⟩ := List.mem_map.mp hrank
      rw [hfinished worker hworker]
      rfl
    rw [System.remaining, h.queue_of_finished hfinished, hranks]
    rfl
  · intro hnone worker hworker
    rw [System.remaining] at hnone
    have hranks : (s.workers.map Worker.rank).sum = 0 := by
      omega
    have hzero := List.sum_eq_zero_iff_forall_eq_nat.mp hranks worker.rank (List.mem_map_of_mem hworker)
    cases worker with
    | stopped => rfl
    | receiving | executing | executed | processed | releasing | notifying => cases hzero

/-- When all workers have stopped after a shutdown, every accepted task was executed once and counted, and its key released. -/
theorem drained_of_run (hrun : machine.run (.new workerCount capacity) es = some s) (hoff : s.alive = false)
    (hfinished : s.Finished) : s.Drained := by
  have hinv := inv_of_run hrun
  have htended := tended_of_run hrun
  have hcalls := htended.calls hoff
  have hqueue := htended.queue_of_finished hfinished
  have hrunning : s.running = [] := by
    apply List.filterMap_eq_nil_iff.mpr
    intro worker hworker
    rw [hfinished worker hworker]
    rfl
  have hheld : s.workers.filterMap Worker.held = [] := by
    apply List.filterMap_eq_nil_iff.mpr
    intro worker hworker
    rw [hfinished worker hworker]
    rfl
  have hunjudged : s.workers.countP Worker.unjudged = 0 := by
    apply List.countP_eq_zero.mpr
    intro worker hworker
    rw [hfinished worker hworker]
    exact Bool.false_ne_true
  have hquiet : s.Quiet := by
    intro kind
    refine ⟨fun call hcall => ?_, fun worker hworker => ?_⟩
    · rw [hcalls] at hcall
      cases hcall
    · rw [hfinished worker hworker]
      cases kind <;> rfl
  have hexecuted : s.coordinator.accepted.Perm s.coordinator.executed := by
    have htasks := hinv.tasks
    rwa [hrunning, hqueue, List.append_nil, List.append_nil] at htasks
  have henqueued := hinv.counted_of_quiet hquiet .accepted
  have hprocessed := hinv.counted_of_quiet hquiet .executed
  refine ⟨hexecuted.symm, hqueue, ?_, henqueued, hprocessed.trans hexecuted.length_eq.symm, ?_⟩
  · apply Finset.val_eq_zero.mp
    rw [htended.held, System.held, hcalls, hqueue, hheld]
    rfl
  · have hjudged := htended.judged
    rw [hunjudged] at hjudged
    exact hjudged.trans hprocessed.symm

/-- The one task is queued when the coordinator is shut down, and does not finish in time. -/
theorem drained_of_run_timeout :
    ∃ s, machine.run (.new 1 2) [.enqueue "a", .call 0, .call 0, .call 0, .shutdown, .receive 0, .finish 0 .timeout,
      .worker 0, .worker 0, .worker 0, .worker 0, .receive 0] = some s ∧ s.alive = false ∧ s.Finished ∧ s.Drained := by
  obtain ⟨s, hrun, hoff, hfinished⟩ : ∃ s, machine.run (.new 1 2) [.enqueue "a", .call 0, .call 0, .call 0, .shutdown,
      .receive 0, .finish 0 .timeout, .worker 0, .worker 0, .worker 0, .worker 0, .receive 0] = some s ∧
      s.alive = false ∧ s.Finished := ⟨_, rfl, rfl, by decide⟩
  exact ⟨s, hrun, hoff, hfinished, drained_of_run hrun hoff hfinished⟩

/-- However the workers take turns after a shutdown, it is over after exactly as many accesses as were left, and not stuck before. -/
theorem drains_of_run (hrun : machine.run (.new workerCount capacity) es = some s) (hoff : s.alive = false)
    (hlater : machine.run s es' = some t) :
    t.remaining + es'.length = s.remaining ∧ (t.Finished ↔ es'.length = s.remaining) ∧
      (t.Finished ↔ ∀ e, machine.step t e = none) := by
  obtain ⟨htended, hofft, hremaining⟩ := (tended_of_run hrun).run hoff hlater
  refine ⟨hremaining, ?_, ?_⟩
  · rw [htended.finished_iff]
    omega
  · constructor
    · intro hfinished e
      have hzero := htended.finished_iff.mp hfinished
      cases hstep : machine.step t e with
      | none => rfl
      | some t' =>
        have hrank := (htended.nearer hofft hstep).2
        omega
    · intro hstuck worker hworker
      obtain ⟨w, hw⟩ := List.mem_iff_getElem?.mp hworker
      by_contra hgoing
      obtain ⟨e, he⟩ := exists_step hofft hw hgoing
      rw [hstuck e] at he
      cases he

/-- Eight accesses are left for two workers and one task, and one of them has been taken. -/
theorem drains_of_run_two :
    ∃ s t, machine.run (.new 2 2) [.enqueue "a", .call 0, .call 0, .call 0, .shutdown] = some s ∧ s.alive = false ∧
      s.remaining = 8 ∧ machine.run s [.receive 1] = some t ∧ t.remaining + 1 = s.remaining ∧
      (t.Finished ↔ 1 = s.remaining) ∧ (t.Finished ↔ ∀ e, machine.step t e = none) := by
  obtain ⟨s, t, hrun, hoff, hremaining, hlater⟩ : ∃ s t, machine.run (.new 2 2)
      [.enqueue "a", .call 0, .call 0, .call 0, .shutdown] = some s ∧ s.alive = false ∧ s.remaining = 8 ∧
      machine.run s [.receive 1] = some t := ⟨_, _, rfl, rfl, rfl, rfl⟩
  exact ⟨s, t, hrun, hoff, hremaining, hlater, drains_of_run hrun hoff hlater⟩

end TaskQueue

end Lazydns
