import Lazydns.Plugin.Refresh
import Mathlib.Data.List.Nodup

/-!
# One refresh for each key

Seen from a key, a refresh is handed on: from the task that was spawned for it to the queue and on to a worker, each with or without a claim in the coordinator's set. `own` says for each key who has it. A step changes this for one key at most, and the two sets are read off it: the keys that are being refreshed are those with an owner, and the ones in the coordinator's set are those whose owner has a claim.
-/

namespace Lazydns

namespace Refresh

/-! ### Who has a key -/

inductive Owner where
  | task (t : Nat)
  | queue
  | worker (w : Nat)
  deriving DecidableEq, Repr

/-- Whether a task that is not done has a claim in the coordinator's set. -/
def TaskStage.claim : TaskStage → Option Bool
  | enqueuing | claiming | sleeping | rejected => some false
  | sending | retracting => some true
  | done => none

def Worker.claim : Worker → Option (String × Bool)
  | executing key | executed key _ => some (key, true)
  | notifying key _ => some (key, false)
  | idle | stopped => none

/-- An owner has a key, with or without a claim. -/
def Holds (s : System) (key : String) : Owner → Bool → Prop
  | .task t, b => ∃ stage, s.tasks t = some ⟨key, stage⟩ ∧ stage.claim = some b
  | .queue, b => key ∈ s.queue ∧ b = true
  | .worker w, b => (s.workers w).claim = some (key, b)

/-- `own` says who has each key, and the two sets agree with it. -/
structure Tracks (own : String → Option (Owner × Bool)) (s : System) : Prop where
  owner : ∀ key o b, own key = some (o, b) ↔ Holds s key o b
  nodup : s.queue.Nodup
  refreshing : ∀ key, key ∈ s.refreshingKeys ↔ (own key).isSome
  processing : ∀ key, key ∈ s.processing ↔ ∃ o, own key = some (o, true)

theorem tracks_new (available : Bool) (workerCount capacity : Nat) :
    Tracks (fun _ => none) (.new available workerCount capacity) where
  owner := by
    intro key o b
    cases o with
    | task t => simp [Holds, System.new]
    | queue => simp [Holds, System.new]
    | worker w => simp [Holds, System.new, Worker.claim]
  nodup := List.nodup_nil
  refreshing := fun key => by simp [System.new]
  processing := fun key => by simp [System.new]

variable {own : String → Option (Owner × Bool)} {s s' : System} {e : Event}

/-! ### One step -/

section

variable {t w : Nat} {key : String} {stage : TaskStage} {worker : Worker} {R P : Finset String}

theorem Tracks.not_holds (h : Tracks own s) {o o' : Owner} (halone : ∀ o b, own key = some (o, b) → o = o')
    (hne : o ≠ o') (b : Bool) : ¬Holds s key o b :=
  fun hholds => hne (halone o b ((h.owner key o b).mpr hholds))

/-- A key with a claim goes from one owner to another. -/
theorem Tracks.sets_moved (h : Tracks own s) {o o' : Owner} (hown : own key = some (o, true)) (k : String) :
    (k ∈ s.refreshingKeys ↔ (Function.update own key (some (o', true)) k).isSome) ∧
      (k ∈ s.processing ↔ ∃ o, Function.update own key (some (o', true)) k = some (o, true)) := by
  rw [h.refreshing k, h.processing k]
  by_cases hk : k = key
  · subst hk
    simp [hown]
  · rw [Function.update_of_ne hk]
    exact ⟨Iff.rfl, Iff.rfl⟩

theorem Tracks.setStage (h : Tracks own s) (htask : ∀ k st, s.tasks t = some ⟨k, st⟩ → k = key)
    (halone : ∀ o b, own key = some (o, b) → o = .task t)
    (hR : ∀ k, k ∈ R ↔ if k = key then stage.claim ≠ none else k ∈ s.refreshingKeys)
    (hP : ∀ k, k ∈ P ↔ if k = key then stage.claim = some true else k ∈ s.processing) :
    Tracks (Function.update own key (stage.claim.map fun b => (.task t, b)))
      ({ s with refreshingKeys := R, processing := P }.setStage t key stage) where
  owner := by
    intro k o b
    by_cases hk : k = key
    · subst hk
      rw [Function.update_self]
      cases o with
      | task t' =>
        by_cases ht : t' = t
        · subst ht
          simp [Holds, System.setStage]
        · have hnot := h.not_holds halone (o := .task t') (by simpa using ht) b
          simpa [Holds, System.setStage, ht, Ne.symm ht] using hnot
      | queue =>
        have hnot := h.not_holds halone (o := .queue) (by simp) b
        simpa [Holds, System.setStage] using hnot
      | worker w =>
        have hnot := h.not_holds halone (o := .worker w) (by simp) b
        simpa [Holds, System.setStage] using hnot
    · rw [Function.update_of_ne hk, h.owner k o b]
      cases o with
      | task t' =>
        by_cases ht : t' = t
        · subst ht
          constructor
          · rintro ⟨st, hst, -⟩
            exact absurd (htask k st hst) hk
          · rintro ⟨st, hst, -⟩
            simp only [System.setStage, Function.update_self, Option.some.injEq, Task.mk.injEq] at hst
            exact absurd hst.1.symm hk
        · simp [Holds, System.setStage, ht]
      | queue => rfl
      | worker w => rfl
  nodup := h.nodup
  refreshing := by
    intro k
    have hk' : k ∈ R ↔ (Function.update own key (stage.claim.map fun b => (.task t, b)) k).isSome := by
      rw [hR k]
      by_cases hk : k = key
      · subst hk
        simp [Option.isSome_iff_ne_none]
      · rw [if_neg hk, Function.update_of_ne hk, h.refreshing k]
    exact hk'
  processing := by
    intro k
    have hk' : k ∈ P ↔
        ∃ o, Function.update own key (stage.claim.map fun b => (.task t, b)) k = some (o, true) := by
      rw [hP k]
      by_cases hk : k = key
      · subst hk
        simp
      · rw [if_neg hk, Function.update_of_ne hk, h.processing k]
    exact hk'

theorem Tracks.setWorker (h : Tracks own s) (hhas : ∀ k b, (s.workers w).claim = some (k, b) → k = key)
    (hgoes : ∀ k b, worker.claim = some (k, b) → k = key)
    (halone : ∀ o b, own key = some (o, b) → o = .worker w)
    (hR : ∀ k, k ∈ R ↔ if k = key then worker.claim ≠ none else k ∈ s.refreshingKeys)
    (hP : ∀ k, k ∈ P ↔ if k = key then worker.claim = some (key, true) else k ∈ s.processing) :
    Tracks (Function.update own key (worker.claim.map fun c => (.worker w, c.2)))
      ({ s with refreshingKeys := R, processing := P }.setWorker w worker) where
  owner := by
    intro k o b
    by_cases hk : k = key
    · subst hk
      rw [Function.update_self]
      cases o with
      | task t =>
        have hnot := h.not_holds halone (o := .task t) (by simp) b
        simpa [Holds, System.setWorker] using hnot
      | queue =>
        have hnot := h.not_holds halone (o := .queue) (by simp) b
        simpa [Holds, System.setWorker] using hnot
      | worker w' =>
        by_cases hw : w' = w
        · subst hw
          cases hclaim : worker.claim with
          | none => simp [Holds, System.setWorker, hclaim]
          | some c =>
            obtain ⟨k', b'⟩ := c
            obtain rfl := hgoes k' b' hclaim
            simp [Holds, System.setWorker, hclaim]
        · have hnot := h.not_holds halone (o := .worker w') (by simpa using hw) b
          simpa [Holds, System.setWorker, hw, Ne.symm hw] using hnot
    · rw [Function.update_of_ne hk, h.owner k o b]
      cases o with
      | task t => rfl
      | queue => rfl
      | worker w' =>
        by_cases hw : w' = w
        · subst hw
          constructor
          · exact fun hclaim => absurd (hhas k b hclaim) hk
          · intro hclaim
            simp only [Holds, System.setWorker, Function.update_self] at hclaim
            exact absurd (hgoes k b hclaim) hk
        · simp [Holds, System.setWorker, hw]
  nodup := h.nodup
  refreshing := by
    intro k
    have hk' : k ∈ R ↔
        (Function.update own key (worker.claim.map fun c => (.worker w, c.2)) k).isSome := by
      rw [hR k]
      by_cases hk : k = key
      · subst hk
        simp [Option.isSome_iff_ne_none]
      · rw [if_neg hk, Function.update_of_ne hk, h.refreshing k]
    exact hk'
  processing := by
    intro k
    have hk' : k ∈ P ↔
        ∃ o, Function.update own key (worker.claim.map fun c => (.worker w, c.2)) k = some (o, true) := by
      rw [hP k]
      by_cases hk : k = key
      · subst hk
        rw [if_pos rfl, Function.update_self]
        cases hclaim : worker.claim with
        | none => simp
        | some c =>
          obtain ⟨k', b'⟩ := c
          obtain rfl := hgoes k' b' hclaim
          simp
      · rw [if_neg hk, Function.update_of_ne hk, h.processing k]
    exact hk'

theorem Tracks.enqueue (h : Tracks own s) (htask : s.tasks t = some ⟨key, .sending⟩) :
    Tracks (Function.update own key (some (.queue, true)))
      ({ s with queue := s.queue ++ [key] }.setStage t key .done) := by
  have hown : own key = some (.task t, true) := (h.owner key _ _).mpr ⟨_, htask, rfl⟩
  have halone : ∀ o b, own key = some (o, b) → o = .task t := by
    intro o b hother
    rw [hown] at hother
    cases hother
    rfl
  have hfresh : key ∉ s.queue := fun hmem => h.not_holds halone (o := .queue) (by simp) true ⟨hmem, rfl⟩
  refine ⟨fun k o b => ?_, ?_, fun k => ?_, fun k => ?_⟩
  · by_cases hk : k = key
    · subst hk
      rw [Function.update_self]
      cases o with
      | task t' =>
        by_cases ht : t' = t
        · subst ht
          simp [Holds, System.setStage, TaskStage.claim]
        · have hnot := h.not_holds halone (o := .task t') (by simpa using ht) b
          simpa [Holds, System.setStage, ht] using hnot
      | queue => simp [Holds, System.setStage, eq_comm]
      | worker w =>
        have hnot := h.not_holds halone (o := .worker w) (by simp) b
        simpa [Holds, System.setStage] using hnot
    · rw [Function.update_of_ne hk, h.owner k o b]
      cases o with
      | task t' =>
        by_cases ht : t' = t
        · subst ht
          simp [Holds, System.setStage, htask, Ne.symm hk]
        · simp [Holds, System.setStage, ht]
      | queue => simp [Holds, System.setStage, hk]
      | worker w => rfl
  · exact List.nodup_append.mpr ⟨h.nodup, List.nodup_singleton key, fun a ha b hb hab =>
      hfresh (by rw [← List.mem_singleton.mp hb, ← hab]; exact ha)⟩
  · exact (h.sets_moved hown k).1
  · exact (h.sets_moved hown k).2

theorem Tracks.receive (h : Tracks own s) {rest : List String} (hqueue : s.queue = key :: rest)
    (hidle : s.workers w = .idle) :
    Tracks (Function.update own key (some (.worker w, true)))
      ({ s with queue := rest }.setWorker w (.executing key)) := by
  have hown : own key = some (.queue, true) :=
    (h.owner key _ _).mpr ⟨by rw [hqueue]; exact List.mem_cons_self, rfl⟩
  have halone : ∀ o b, own key = some (o, b) → o = .queue := by
    intro o b hother
    rw [hown] at hother
    cases hother
    rfl
  have hnodup := h.nodup
  rw [hqueue, List.nodup_cons] at hnodup
  refine ⟨fun k o b => ?_, hnodup.2, fun k => ?_, fun k => ?_⟩
  · by_cases hk : k = key
    · subst hk
      rw [Function.update_self]
      cases o with
      | task t =>
        have hnot := h.not_holds halone (o := .task t) (by simp) b
        simpa [Holds, System.setWorker] using hnot
      | queue => simpa [Holds, System.setWorker] using fun hmem => absurd hmem hnodup.1
      | worker w' =>
        by_cases hw : w' = w
        · subst hw
          simp [Holds, System.setWorker, Worker.claim]
        · have hnot := h.not_holds halone (o := .worker w') (by simp) b
          simpa [Holds, System.setWorker, hw, Ne.symm hw] using hnot
    · rw [Function.update_of_ne hk, h.owner k o b]
      cases o with
      | task t => rfl
      | queue => simp [Holds, System.setWorker, hqueue, hk]
      | worker w' =>
        by_cases hw : w' = w
        · subst hw
          simp [Holds, System.setWorker, hidle, Worker.claim, Ne.symm hk]
        · simp [Holds, System.setWorker, hw]
  · exact (h.sets_moved hown k).1
  · exact (h.sets_moved hown k).2

theorem Tracks.task_alone (h : Tracks own s) {old : TaskStage} {c : Bool}
    (htask : s.tasks t = some ⟨key, old⟩) (hclaim : old.claim = some c) :
    own key = some (.task t, c) ∧ (∀ k st, s.tasks t = some ⟨k, st⟩ → k = key) ∧
      ∀ o b, own key = some (o, b) → o = .task t := by
  have hown : own key = some (.task t, c) := (h.owner key _ _).mpr ⟨old, htask, hclaim⟩
  refine ⟨hown, fun k st hst => ?_, fun o b hother => ?_⟩
  · rw [htask] at hst
    cases hst
    rfl
  · rw [hown] at hother
    cases hother
    rfl

theorem Tracks.worker_alone (h : Tracks own s) {c : Bool} (hclaim : (s.workers w).claim = some (key, c)) :
    own key = some (.worker w, c) ∧ (∀ k b, (s.workers w).claim = some (k, b) → k = key) ∧
      ∀ o b, own key = some (o, b) → o = .worker w := by
  have hown : own key = some (.worker w, c) := (h.owner key _ _).mpr hclaim
  refine ⟨hown, fun k b hk => ?_, fun o b hother => ?_⟩
  · rw [hclaim] at hk
    cases hk
    rfl
  · rw [hown] at hother
    cases hother
    rfl

/-- A key with an owner is in `refreshing_keys`, and in `processing` if the owner has a claim. -/
theorem Tracks.mem_of_own (h : Tracks own s) {o : Owner} {c : Bool} (hown : own key = some (o, c)) :
    key ∈ s.refreshingKeys ∧ (key ∈ s.processing ↔ c = true) := by
  refine ⟨(h.refreshing key).mpr (by rw [hown]; rfl), (h.processing key).trans ?_⟩
  simp [hown]

theorem Tracks.taskStep (h : Tracks own s) {old : TaskStage} (htask : s.tasks t = some ⟨key, old⟩)
    (hstep : s.taskStep t key old = some s') : ∃ own', Tracks own' s' := by
  have hsame : ∀ {k : String} {S : Finset String} {q : Prop} (_ : key ∈ S ↔ q),
      (k ∈ S ↔ if k = key then q else k ∈ S) := by
    intro k S q hq
    by_cases hk : k = key
    · subst hk
      rw [if_pos rfl, hq]
    · rw [if_neg hk]
  cases old with
  | done => cases hstep
  | enqueuing =>
    obtain ⟨hown, hhas, halone⟩ := h.task_alone htask rfl
    obtain ⟨hR, hP⟩ := h.mem_of_own hown
    cases hstep
    refine ⟨_, h.setStage hhas halone (fun k => hsame ?_) (fun k => hsame ?_)⟩
    · split <;> simp [TaskStage.claim, hR]
    · split <;> simp [TaskStage.claim, hP]
  | claiming =>
    obtain ⟨hown, hhas, halone⟩ := h.task_alone htask rfl
    obtain ⟨hR, hP⟩ := h.mem_of_own hown
    have hfree : key ∉ s.processing := by simp [hP]
    rw [System.taskStep, if_neg hfree] at hstep
    cases hstep
    refine ⟨_, h.setStage hhas halone (fun k => hsame (by simp [TaskStage.claim, hR])) fun k => ?_⟩
    by_cases hk : k = key
    · simp [hk, TaskStage.claim]
    · simp [hk]
  | sending =>
    obtain ⟨hown, hhas, halone⟩ := h.task_alone htask rfl
    obtain ⟨hR, hP⟩ := h.mem_of_own hown
    simp only [System.taskStep] at hstep
    split at hstep
    · cases hstep
      exact ⟨_, h.enqueue htask⟩
    · cases hstep
      exact ⟨_, h.setStage hhas halone (fun k => hsame (by simp [TaskStage.claim, hR]))
        fun k => hsame (by simp [TaskStage.claim, hP])⟩
  | retracting =>
    obtain ⟨hown, hhas, halone⟩ := h.task_alone htask rfl
    obtain ⟨hR, hP⟩ := h.mem_of_own hown
    cases hstep
    refine ⟨_, h.setStage hhas halone (fun k => hsame (by simp [TaskStage.claim, hR])) fun k => ?_⟩
    by_cases hk : k = key
    · simp [hk, TaskStage.claim]
    · simp [hk]
  | sleeping =>
    obtain ⟨hown, hhas, halone⟩ := h.task_alone htask rfl
    obtain ⟨hR, hP⟩ := h.mem_of_own hown
    cases hstep
    exact ⟨_, h.setStage hhas halone (fun k => hsame (by simp [TaskStage.claim, hR]))
      fun k => hsame (by simp [TaskStage.claim, hP])⟩
  | rejected =>
    obtain ⟨hown, hhas, halone⟩ := h.task_alone htask rfl
    obtain ⟨hR, hP⟩ := h.mem_of_own hown
    cases hstep
    refine ⟨_, h.setStage hhas halone (fun k => ?_) fun k => hsame (by simp [TaskStage.claim, hP])⟩
    by_cases hk : k = key
    · simp [hk, TaskStage.claim]
    · simp [hk]

theorem Tracks.workerStep (h : Tracks own s) {c : Bool} (hclaim : (s.workers w).claim = some (key, c))
    (hgoes : ∀ k b, worker.claim = some (k, b) → k = key)
    (hR : ∀ k, k ∈ R ↔ k ∈ s.refreshingKeys ∧ (k = key → worker.claim ≠ none))
    (hP : ∀ k, k ∈ P ↔ k ∈ s.processing ∧ (k = key → worker.claim = some (key, true)))
    (hkeeps : worker.claim = some (key, true) → c = true) :
    ∃ own', Tracks own' ({ s with refreshingKeys := R, processing := P }.setWorker w worker) := by
  obtain ⟨hown, hhas, halone⟩ := h.worker_alone hclaim
  obtain ⟨hmem, hmem'⟩ := h.mem_of_own hown
  refine ⟨_, h.setWorker hhas hgoes halone (fun k => (hR k).trans ?_) fun k => (hP k).trans ?_⟩
  · by_cases hk : k = key
    · simp [hk, hmem]
    · simp [hk]
  · by_cases hk : k = key
    · subst hk
      simpa [hmem'] using hkeeps
    · simp [hk]

end

/-- A lookup that marks a key gives it to the task it spawns; the key had no owner. -/
theorem Tracks.lookup {t : Nat} {key : String} {hasHandler : Bool} (h : Tracks own s)
    (hstep : step s (.lookup t key hasHandler) = some s') : ∃ own', Tracks own' s' := by
  simp only [step] at hstep
  split at hstep
  · rename_i htask
    cases hstep
    rw [System.lookup]
    split
    · exact ⟨own, h⟩
    · rename_i hnew
      have hfree : own key = none := by
        simpa using mt (h.refreshing key).mpr hnew
      have hunclaimed : key ∉ s.processing := by
        simp [h.processing key, hfree]
      refine ⟨_, h.setStage (fun k st hst => ?_) (fun o b hown => ?_) (fun k => ?_) fun k => ?_⟩
      · rw [htask] at hst
        cases hst
      · rw [hfree] at hown
        cases hown
      · cases hasHandler <;> by_cases hk : k = key <;> simp [hk, TaskStage.claim]
      · cases hasHandler <;> by_cases hk : k = key <;> simp [hk, TaskStage.claim, hunclaimed]
  · cases hstep

/-- An idle worker takes the first key of the queue, or stops, which gives no key away. -/
theorem Tracks.next {w : Nat} (h : Tracks own s) (hstep : step s (.receive w) = some s') :
    ∃ own', Tracks own' s' := by
  simp only [step] at hstep
  split at hstep
  · rename_i hidle
    split at hstep
    · rename_i key rest hqueue
      cases hstep
      exact ⟨_, h.receive hqueue hidle.2⟩
    · split at hstep
      · cases hstep
        refine ⟨own, fun k o b => (h.owner k o b).trans ?_, h.nodup, h.refreshing, h.processing⟩
        cases o with
        | task t => rfl
        | queue => rfl
        | worker w' =>
          by_cases hw : w' = w
          · simp [Holds, System.setWorker, hw, hidle.2, Worker.claim]
          · simp [Holds, System.setWorker, hw]
      · cases hstep
  · cases hstep

/-- A worker that calls the callback has released its key before. -/
theorem Tracks.complete {w : Nat} (h : Tracks own s) (hstep : step s (.complete w) = some s') :
    ∃ own', Tracks own' s' := by
  simp only [step] at hstep
  split at hstep
  · rename_i key success hworker
    have hclaim : (s.workers w).claim = some (key, false) := by rw [hworker]; rfl
    have hunclaimed : key ∉ s.processing := by
      simp [(h.mem_of_own (h.worker_alone hclaim).1).2]
    cases hstep
    refine h.workerStep hclaim (by simp [Worker.claim]) (by simp [Worker.claim, and_comm])
      (fun k => ?_) (by simp [Worker.claim])
    have hk : k ∈ s.processing → k ≠ key := fun hk hkey => hunclaimed (hkey ▸ hk)
    simpa [Worker.claim] using hk
  · cases hstep

/-- Whatever happens next, each key still has one owner at most, and the two sets agree with that. -/
theorem step_tracks (h : Tracks own s) (hstep : step s e = some s') : ∃ own', Tracks own' s' := by
  cases e with
  | lookup t key hasHandler => exact h.lookup hstep
  | task t =>
    simp only [step] at hstep
    split at hstep
    · rename_i key stage htask
      exact h.taskStep htask hstep
    · cases hstep
  | receive w => exact h.next hstep
  | finish w success =>
    simp only [step] at hstep
    split at hstep
    · rename_i key hworker
      cases hstep
      exact h.workerStep (c := true) (by rw [hworker]; rfl)
        (by simp [Worker.claim]) (by simp [Worker.claim]) (by simp [Worker.claim]) (fun _ => rfl)
    · cases hstep
  | release w =>
    simp only [step] at hstep
    split at hstep
    · rename_i key success hworker
      cases hstep
      exact h.workerStep (c := true) (by rw [hworker]; rfl)
        (by simp [Worker.claim]) (by simp [Worker.claim]) (by simp [Worker.claim, and_comm]) (fun _ => rfl)
    · cases hstep
  | complete w => exact h.complete hstep
  | shutdown =>
    simp only [step] at hstep
    split at hstep
    · cases hstep
      exact ⟨own, h.owner, h.nodup, h.refreshing, h.processing⟩
    · cases hstep
  | close =>
    simp only [step] at hstep
    split at hstep
    · cases hstep
      exact ⟨own, h.owner, h.nodup, h.refreshing, h.processing⟩
    · cases hstep

/-! ### The law -/

/-- A worker has taken the key and not called the completion callback yet. -/
def Worker.has (worker : Worker) (key : String) : Bool := worker.claim.any (·.1 == key)

def System.inFlight (s : System) (key : String) : Nat :=
  s.queue.count key + (List.range s.workerCount).countP fun w => (s.workers w).has key

/-- Every spawned task has run to its end, and so has every refresh. -/
structure System.Finished (s : System) : Prop where
  tasks : ∀ t task, s.tasks t = some task → task.stage = .done
  queue : s.queue = []
  workers : ∀ w, s.workers w = .idle ∨ s.workers w = .stopped

structure Deduplicated (s : System) : Prop where
  once : ∀ key, s.inFlight key ≤ 1
  subset : s.processing ⊆ s.refreshingKeys
  cleared : s.Finished → s.refreshingKeys = ∅ ∧ s.processing = ∅

theorem Worker.has_iff {worker : Worker} {key : String} :
    worker.has key ↔ ∃ b, worker.claim = some (key, b) := by
  rw [has]
  cases worker.claim with
  | none => simp
  | some c =>
    obtain ⟨key', b⟩ := c
    simp

theorem Tracks.countP_le_one (h : Tracks own s) (key : String) (n : Nat) :
    (List.range n).countP (fun w => (s.workers w).has key) ≤ 1 := by
  by_cases hsome : ∃ w, (s.workers w).has key
  · obtain ⟨w, hw⟩ := hsome
    obtain ⟨b, hclaim⟩ := Worker.has_iff.mp hw
    have halone := (h.worker_alone hclaim).2.2
    have heq : ∀ w' ∈ List.range n, (s.workers w').has key → (w' == w) := by
      intro w' _ hw'
      obtain ⟨b', hclaim'⟩ := Worker.has_iff.mp hw'
      exact beq_iff_eq.mpr (Owner.worker.inj (halone _ b' ((h.owner key _ _).mpr hclaim')))
    exact (List.countP_mono_left heq).trans (List.nodup_iff_count_le_one.mp List.nodup_range w)
  · rw [List.countP_eq_zero.mpr fun w _ hw => hsome ⟨w, hw⟩]
    exact Nat.zero_le 1

theorem Tracks.once (h : Tracks own s) (key : String) : s.inFlight key ≤ 1 := by
  rw [System.inFlight]
  by_cases hqueued : key ∈ s.queue
  · have hown := (h.owner key .queue true).mpr ⟨hqueued, rfl⟩
    have hnone : ∀ w ∈ List.range s.workerCount, ¬ (s.workers w).has key := by
      intro w _ hw
      obtain ⟨b, hclaim⟩ := Worker.has_iff.mp hw
      have hother := (h.owner key (.worker w) b).mpr hclaim
      rw [hown] at hother
      cases hother
    rw [List.countP_eq_zero.mpr hnone]
    exact List.nodup_iff_count_le_one.mp h.nodup key
  · rw [List.count_eq_zero_of_not_mem hqueued, Nat.zero_add]
    exact h.countP_le_one key s.workerCount

theorem Tracks.own_eq_none (h : Tracks own s) (hfinished : s.Finished) (key : String) :
    own key = none := by
  cases hown : own key with
  | none => rfl
  | some c =>
    obtain ⟨o, b⟩ := c
    have hholds := (h.owner key o b).mp hown
    cases o with
    | task t =>
      obtain ⟨stage, htask, hclaim⟩ := hholds
      obtain rfl : stage = .done := hfinished.tasks t _ htask
      cases hclaim
    | queue =>
      rw [Holds, hfinished.queue] at hholds
      exact absurd hholds.1 List.not_mem_nil
    | worker w =>
      rw [Holds] at hholds
      rcases hfinished.workers w with hworker | hworker <;> rw [hworker] at hholds <;> cases hholds

theorem Tracks.deduplicated (h : Tracks own s) : Deduplicated s where
  once := h.once
  subset := by
    intro key hkey
    obtain ⟨o, hown⟩ := (h.processing key).mp hkey
    exact (h.mem_of_own hown).1
  cleared := by
    intro hfinished
    refine ⟨Finset.eq_empty_of_forall_notMem fun key hkey => ?_,
      Finset.eq_empty_of_forall_notMem fun key hkey => ?_⟩
    · have hsome := (h.refreshing key).mp hkey
      rw [h.own_eq_none hfinished key] at hsome
      cases hsome
    · obtain ⟨o, hown⟩ := (h.processing key).mp hkey
      rw [h.own_eq_none hfinished key] at hown
      cases hown

/-- In every run, each key has at most one refresh queued or running, the coordinator's set is within the cache's, and both are empty once everything that was spawned has finished. -/
theorem refresh_deduplicated (available : Bool) (workerCount capacity : Nat) (events : List Event)
    (s : System) (hrun : machine.run (.new available workerCount capacity) events = some s) :
    Deduplicated s := by
  have hstep : ∀ s e s', (∃ own, Tracks own s) → machine.step s e = some s' → ∃ own, Tracks own s' := by
    rintro s e s' ⟨own, h⟩ hs
    exact step_tracks h hs
  obtain ⟨own, h⟩ := Machine.run_invariant hstep ⟨_, tracks_new available workerCount capacity⟩ hrun
  exact h.deduplicated

/-- A key that is looked up twice is refreshed once and can be refreshed again. -/
theorem refresh_deduplicated_twice :
    ∃ s, machine.run (.new true 1 1) [.lookup 0 "a." true, .lookup 1 "a." true, .task 0, .task 0, .task 0,
        .receive 0, .finish 0 true, .release 0, .complete 0, .lookup 1 "a." true] = some s ∧
      Deduplicated s := by
  obtain ⟨s, hrun⟩ := Option.isSome_iff_exists.mp (show (machine.run (.new true 1 1) [.lookup 0 "a." true,
    .lookup 1 "a." true, .task 0, .task 0, .task 0, .receive 0, .finish 0 true, .release 0, .complete 0,
    .lookup 1 "a." true]).isSome by decide +kernel)
  exact ⟨s, hrun, refresh_deduplicated true 1 1 _ s hrun⟩

end Refresh

end Lazydns
