import Lazydns.Server.AcceptLoop
import Lazydns.Server.Service

/-!
# Permits and shutdown

However requests, errors, steps of tasks and the shutdown interleave, the tasks that have not ended are never more than the permits, and a request is dropped only while every permit is out. Apart from what it drops, a server goes through a run of the pool without a gate, so whatever holds of all those runs holds of a server.

The loop is left only when the bus says so, and nothing is accepted after that. The server stops when all tasks it accepted have ended, or after the timeout. A signal on the bus is never missed: as long as it stands there, a few steps of `await_shutdown` lead out of the loop.
-/

namespace Lazydns

namespace AcceptLoop

variable {ι σ τ ε α : Type} [DecidableEq ι] {S : Service σ τ ε α} {limits : Limits} {w : σ} {s s' t : System ι σ τ α}
  {action : Action ι τ ε} {actions : List (Action ι τ ε)}

/-! ### What a step does -/

inductive Taken (S : Service σ τ ε α) (limits : Limits) (s : System ι σ τ α) :
    Action ι τ ε → System ι σ τ α → Prop
  | receive {shutdown : AwaitShutdown} (i : ι) (job : τ) (hphase : s.phase = .accepting shutdown)
      (hfresh : s.gate.pool.jobs i = none) :
      Taken S limits s (.receive i job) { s with gate := s.gate.enter S i job, phase := .accepting .start }
  | fail {shutdown : AwaitShutdown} (hphase : s.phase = .accepting shutdown) :
      Taken S limits s .fail { s with phase := .accepting .start }
  | await {shutdown shutdown' : AwaitShutdown} (hphase : s.phase = .accepting shutdown)
      (hnext : shutdown.step s.bus = some shutdown') :
      Taken S limits s .awaitShutdown
        { s with phase := if shutdown' = .resolved then .draining s.now s.now else .accepting shutdown' }
  | drain {since wake : Nat} (hphase : s.phase = .draining since wake) :
      Taken S limits s .drain { s with phase := drainPermits limits s since wake }
  | task {event : Event ι τ ε} (hfree : event.free = true) :
      Taken S limits s (.task event) { s with gate := s.gate.task S event }
  | release {i : ι} {gate : Gated ι σ τ α} (hgate : s.gate.release i = some gate) :
      Taken S limits s (.release i) { s with gate }
  | send {value : Bool} {bus : Watch Bool} (hbus : s.bus.send value = some bus) :
      Taken S limits s (.send value) { s with bus }
  | close : Taken S limits s .close { s with bus := s.bus.close }
  | elapse (duration : Nat) : Taken S limits s (.elapse duration) { s with now := s.now + duration }

theorem Taken.of_step (hstep : step S limits s action = some s') : Taken S limits s action s' := by
  cases action with
  | receive i job =>
    rw [step] at hstep
    split at hstep
    · rename_i shutdown hphase
      split at hstep
      · rename_i hfresh
        cases hstep
        exact .receive i job hphase (Option.isNone_iff_eq_none.mp hfresh)
      · cases hstep
    · cases hstep
  | fail =>
    rw [step] at hstep
    split at hstep
    · rename_i shutdown hphase
      cases hstep
      exact .fail hphase
    · cases hstep
  | awaitShutdown =>
    rw [step] at hstep
    split at hstep
    · rename_i shutdown hphase
      obtain ⟨shutdown', hnext, rfl⟩ := Option.map_eq_some_iff.mp hstep
      exact .await hphase hnext
    · cases hstep
  | drain =>
    rw [step] at hstep
    split at hstep
    · rename_i since wake hphase
      cases hstep
      exact .drain hphase
    · cases hstep
  | task event =>
    rw [step] at hstep
    split at hstep
    · rename_i hfree
      cases hstep
      exact .task hfree
    · cases hstep
  | release i =>
    obtain ⟨gate, hgate, rfl⟩ := Option.map_eq_some_iff.mp hstep
    exact .release hgate
  | send value =>
    obtain ⟨bus, hbus, rfl⟩ := Option.map_eq_some_iff.mp hstep
    exact .send hbus
  | close =>
    cases hstep
    exact .close
  | elapse duration =>
    cases hstep
    exact .elapse duration

/-! ### Permits -/

theorem sound_step (h : s.gate.Sound S w limits.maxConnections) (hstep : step S limits s action = some s') :
    s'.gate.Sound S w limits.maxConnections := by
  cases Taken.of_step hstep with
  | receive i job hphase hfresh => exact h.enter hfresh job
  | task hfree => exact h.task hfree
  | release hgate => exact h.release hgate
  | fail | await | drain | send | close | elapse => exact h

theorem sound_run (hrun : (machine S limits).run (.new limits w) actions = some t) :
    t.gate.Sound S w limits.maxConnections :=
  Machine.run_invariant (M := machine S limits) (I := fun s => s.gate.Sound S w limits.maxConnections)
    (fun _ _ _ h hstep => sound_step h hstep) (Gated.sound_new w limits.maxConnections) hrun

/-- What one step lets in or drops: a request that comes while a permit is left is let in, and no other. -/
def Admits (limits : Limits) (s : System ι σ τ α) (action : Action ι τ ε) (s' : System ι σ τ α) : Prop :=
  match action with
  | .receive i job =>
    if s.gate.holders.length < limits.maxConnections then
      s'.gate.admitted = s.gate.admitted ++ [(i, job)] ∧ s'.gate.refused = s.gate.refused
    else s'.gate.admitted = s.gate.admitted ∧ s'.gate.refused = s.gate.refused ++ [job]
  | _ => s'.gate.admitted = s.gate.admitted ∧ s'.gate.refused = s.gate.refused

theorem admits_step (h : s.gate.Sound S w limits.maxConnections) (hstep : step S limits s action = some s') :
    Admits limits s action s' := by
  cases Taken.of_step hstep with
  | receive i job hphase hfresh =>
    have hpermits := h.permits
    rw [Admits, Gated.enter]
    by_cases havailable : 0 < s.gate.available
    · rw [if_pos havailable, if_pos (by omega)]
      exact ⟨rfl, rfl⟩
    · rw [if_neg havailable, if_neg (by omega)]
      exact ⟨rfl, rfl⟩
  | release hgate =>
    rw [Gated.release] at hgate
    split at hgate
    · cases hgate
      exact ⟨rfl, rfl⟩
    · cases hgate
  | fail | await | drain | task | send | close | elapse => exact ⟨rfl, rfl⟩

/-- In every run of a server the tasks that have not ended are never more than the permits; a request that comes is let in if not all permits are out, and dropped otherwise; and the pool has gone through a run without a gate that starts exactly the requests that were let in. -/
theorem permits_of_run (hrun : (machine S limits).run (.new limits w) actions = some t) :
    t.gate.inFlight.length ≤ limits.maxConnections ∧
      (machine S limits).Each (Admits limits) (.new limits w) actions ∧
      ∃ events, t.gate.pool = (Pool.init w).run S events ∧ Event.starts events = t.gate.admitted := by
  have hsound := sound_run hrun
  refine ⟨hsound.inFlight_le, ?_, hsound.run⟩
  apply Machine.each_of_keeps (I := fun s => s.gate.Sound S w limits.maxConnections) (C := fun _ _ _ => True)
  · exact fun s action s' h _ hstep => ⟨sound_step h hstep, admits_step h hstep⟩
  · exact Gated.sound_new w limits.maxConnections
  · exact Machine.each_true _ _

def bareService : Service World Job Outside Outcome := service (.answering (.error (.other "down"))) (.ofList []) 1

def bareJob : Job := .client "main" (.new (.ask 7 "a." .A) .udp)

/-- With one permit the second of two requests is dropped. -/
theorem permits_of_run_second :
    ∃ t : System Nat World Job Outcome,
      (machine bareService (UdpServer.limits 1)).run (.new (UdpServer.limits 1) .fresh)
        [.receive 0 bareJob, .receive 1 bareJob] = some t ∧
      t.gate.inFlight.length ≤ 1 ∧ t.gate.admitted.map Prod.fst = [0] ∧ t.gate.refused.length = 1 ∧
      ∃ events, t.gate.pool = (Pool.init .fresh).run bareService events ∧ Event.starts events = t.gate.admitted := by
  obtain ⟨t, hrun, hadmitted, hrefused⟩ : ∃ t : System Nat World Job Outcome,
      (machine bareService (UdpServer.limits 1)).run (.new (UdpServer.limits 1) .fresh)
        [.receive 0 bareJob, .receive 1 bareJob] = some t ∧
      t.gate.admitted.map Prod.fst = [0] ∧ t.gate.refused.length = 1 := ⟨_, rfl, rfl, rfl⟩
  obtain ⟨hle, -, hpool⟩ := permits_of_run hrun
  exact ⟨t, hrun, hle, hadmitted, hrefused, hpool⟩

/-! ### Shutdown -/

/-- What `await_shutdown` has read, as far as it matters: it neither waits on nor gives up with the signal on the bus. -/
def Watching (bus : Watch Bool) : AwaitShutdown → Prop
  | .start => True
  | .changing seen => bus.Read seen false
  | .reading seen => seen ≤ bus.version
  | .forever => bus.closed = true ∧ bus.value = false
  | .resolved => False

theorem watching_step {bus : Watch Bool} {shutdown shutdown' : AwaitShutdown} (h : Watching bus shutdown)
    (hnext : shutdown.step bus = some shutdown') (hresolved : shutdown' ≠ .resolved) : Watching bus shutdown' := by
  have hread : ∀ seen ≤ bus.version, bus.value ≠ true → bus.Read seen false := by
    intro seen hle hvalue
    rw [← Bool.eq_false_of_not_eq_true hvalue]
    exact .again hle
  cases shutdown with
  | start =>
    cases hnext
    split at hresolved
    · exact absurd rfl hresolved
    · rename_i hvalue
      rw [if_neg hvalue]
      exact hread bus.version (Nat.le_refl _) hvalue
  | changing seen =>
    rw [AwaitShutdown.step] at hnext
    split at hnext
    · cases hnext
      exact Nat.le_refl bus.version
    · rename_i hseen
      split at hnext
      · rename_i hclosed
        cases hnext
        exact ⟨hclosed, h.newest (not_not.mp hseen)⟩
      · cases hnext
  | reading seen =>
    cases hnext
    split at hresolved
    · exact absurd rfl hresolved
    · rename_i hvalue
      rw [if_neg hvalue]
      exact hread seen h hvalue
  | forever => cases hnext
  | resolved => cases hnext

theorem watching_send {bus bus' : Watch Bool} {value : Bool} {shutdown : AwaitShutdown} (h : Watching bus shutdown)
    (hsend : bus.send value = some bus') : Watching bus' shutdown := by
  cases shutdown with
  | start => trivial
  | changing seen => exact Watch.Read.send h hsend
  | reading seen =>
    have hle : seen ≤ bus.version := h
    rw [Watch.send] at hsend
    split at hsend
    · cases hsend
    · cases hsend
      exact Nat.le_succ_of_le hle
  | forever =>
    rw [Watch.send, if_pos h.1] at hsend
    cases hsend
  | resolved => exact h.elim

theorem watching_close {bus : Watch Bool} {shutdown : AwaitShutdown} (h : Watching bus shutdown) :
    Watching bus.close shutdown := by
  cases shutdown with
  | start => trivial
  | changing seen => exact Watch.Read.close h
  | reading seen => exact h
  | forever => exact ⟨rfl, h.2⟩
  | resolved => exact h.elim

/-- Where a server is in its life: it watches the bus, it left the loop some time ago, or it has stopped because every permit was back or the timeout was over. -/
def Living (limits : Limits) (s : System ι σ τ α) : Prop :=
  match s.phase with
  | .accepting shutdown => Watching s.bus shutdown
  | .draining since _ => since ≤ s.now
  | .stopped since time => since ≤ time ∧ (limits.maxConnections ≤ s.gate.available ∨ since + limits.drainTimeout ≤ time)

omit [DecidableEq ι] in
theorem Living.of_same (h : Living limits s) (hphase : s'.phase = s.phase)
    (hbus : ∀ shutdown, Watching s.bus shutdown → Watching s'.bus shutdown) (hnow : s.now ≤ s'.now)
    (havailable : s.gate.available ≤ s'.gate.available) : Living limits s' := by
  rw [Living] at h ⊢
  rw [hphase]
  cases hs : s.phase with
  | accepting shutdown =>
    rw [hs] at h
    exact hbus shutdown h
  | draining since wake =>
    rw [hs] at h
    exact Nat.le_trans h hnow
  | stopped since time =>
    rw [hs] at h
    exact ⟨h.1, h.2.imp_left fun hle => Nat.le_trans hle havailable⟩

omit [DecidableEq ι] in
theorem living_drain {since wake : Nat} (h : since ≤ s.now) :
    Living limits { s with phase := drainPermits limits s since wake } := by
  rw [Living, drainPermits]
  split_ifs with hdrained htimeout
  · exact ⟨h, .inl hdrained.2⟩
  · exact ⟨h, .inr htimeout⟩
  · exact h
  · exact h

theorem available_release {i : ι} {gate : Gated ι σ τ α} (hgate : s.gate.release i = some gate) :
    s.gate.available ≤ gate.available := by
  rw [Gated.release] at hgate
  split at hgate
  · cases hgate
    exact Nat.le_succ _
  · cases hgate

theorem living_step (h : Living limits s) (hstep : step S limits s action = some s') : Living limits s' := by
  cases Taken.of_step hstep with
  | receive i job hphase hfresh => trivial
  | fail hphase => trivial
  | @await shutdown shutdown' hphase hnext =>
    rw [Living, hphase] at h
    rw [Living]
    split_ifs with hresolved
    · exact Nat.le_refl s.now
    · exact watching_step h hnext hresolved
  | drain hphase =>
    rw [Living, hphase] at h
    exact living_drain h
  | task hfree => exact h.of_same rfl (fun _ => id) (Nat.le_refl _) (Nat.le_refl _)
  | release hgate => exact h.of_same rfl (fun _ => id) (Nat.le_refl _) (available_release hgate)
  | send hbus => exact h.of_same rfl (fun _ hwatching => watching_send hwatching hbus) (Nat.le_refl _) (Nat.le_refl _)
  | close => exact h.of_same rfl (fun _ hwatching => watching_close hwatching) (Nat.le_refl _) (Nat.le_refl _)
  | elapse duration => exact h.of_same rfl (fun _ => id) (Nat.le_add_right _ _) (Nat.le_refl _)

theorem living_run (hrun : (machine S limits).run (.new limits w) actions = some t) : Living limits t := by
  have hnew : Living limits (System.new limits w : System ι σ τ α) := trivial
  exact Machine.run_invariant (M := machine S limits) (fun _ _ _ h hstep => living_step h hstep) hnew hrun

def System.left (s : System ι σ τ α) : Option Nat :=
  match s.phase with
  | .accepting _ => none
  | .draining since _ => some since
  | .stopped since _ => some since

theorem left_of_step {since : Nat} (hleft : s.left = some since) (hstep : step S limits s action = some s') :
    s'.left = some since ∧ s'.gate.admitted = s.gate.admitted ∧ s'.gate.refused = s.gate.refused := by
  have hnot : ∀ shutdown, s.phase ≠ .accepting shutdown := by
    intro shutdown hphase
    rw [System.left, hphase] at hleft
    cases hleft
  cases Taken.of_step hstep with
  | receive i job hphase hfresh => exact absurd hphase (hnot _)
  | fail hphase => exact absurd hphase (hnot _)
  | await hphase hnext => exact absurd hphase (hnot _)
  | @drain since' wake hphase =>
    rw [System.left, hphase] at hleft
    cases hleft
    refine ⟨?_, rfl, rfl⟩
    rw [System.left, drainPermits]
    split_ifs with hdrained htimeout <;> rfl
  | release hgate =>
    rw [Gated.release] at hgate
    split at hgate
    · cases hgate
      exact ⟨hleft, rfl, rfl⟩
    · cases hgate
  | task | send | close | elapse => exact ⟨hleft, rfl, rfl⟩

theorem signal_of_leave (hstay : s.left = none) (hleave : s'.left ≠ none) (hstep : step S limits s action = some s') :
    action = .awaitShutdown ∧ s.bus.value = true ∧ s' = { s with phase := .draining s.now s.now } := by
  cases Taken.of_step hstep with
  | receive i job hphase hfresh => exact absurd rfl hleave
  | fail hphase => exact absurd rfl hleave
  | @await shutdown shutdown' hphase hnext =>
    by_cases hresolved : shutdown' = .resolved
    · rw [hresolved, if_pos rfl]
      refine ⟨rfl, ?_, rfl⟩
      rw [hresolved] at hnext
      cases shutdown with
      | start =>
        by_contra hvalue
        rw [AwaitShutdown.step, if_neg hvalue] at hnext
        cases hnext
      | changing seen =>
        rw [AwaitShutdown.step] at hnext
        split_ifs at hnext
        · cases hnext
        · cases hnext
      | reading seen =>
        by_contra hvalue
        rw [AwaitShutdown.step, if_neg hvalue] at hnext
        cases hnext
      | forever => cases hnext
      | resolved => cases hnext
    · rw [System.left, if_neg hresolved] at hleave
      exact absurd rfl hleave
  | drain hphase =>
    rw [System.left, hphase] at hstay
    cases hstay
  | task | release | send | close | elapse => exact absurd hstay hleave

/-- A server leaves its loop only at a signal on the bus, and lets nothing in and drops nothing afterwards. When it has stopped, every task it let in has ended, or the timeout is over. -/
theorem stopped_of_run (hrun : (machine S limits).run (.new limits w) actions = some t) {since : Nat}
    (hleft : t.left = some since) :
    (∃ before after s, actions = before ++ .awaitShutdown :: after ∧
        (machine S limits).run (.new limits w) before = some s ∧ s.bus.value = true ∧ s.now = since ∧
        t.gate.admitted = s.gate.admitted ∧ t.gate.refused = s.gate.refused) ∧
      ∀ time, t.phase = .stopped since time →
        since ≤ time ∧ (t.gate.inFlight = [] ∨ since + limits.drainTimeout ≤ time) := by
  constructor
  · have hstay : ¬(System.new limits w : System ι σ τ α).left ≠ none := fun hne => hne rfl
    have hne : t.left ≠ none := by
      rw [hleft]
      exact Option.some_ne_none since
    obtain ⟨before, action, after, s, s', rfl, hbefore, hs, hstep, hs', hafter⟩ :=
      Machine.exists_first_step (J := fun s : System ι σ τ α => s.left ≠ none) hstay hrun hne
    obtain ⟨rfl, hvalue, rfl⟩ := signal_of_leave (not_not.mp hs) hs' hstep
    refine ⟨before, after, s, rfl, hbefore, hvalue, ?_⟩
    have hkept := Machine.run_invariant
      (I := fun u => u.left = some s.now ∧ u.gate.admitted = s.gate.admitted ∧ u.gate.refused = s.gate.refused)
      (fun u action u' hu hstep => by
        obtain ⟨hleft', hadmitted, hrefused⟩ := left_of_step hu.1 hstep
        exact ⟨hleft', hadmitted.trans hu.2.1, hrefused.trans hu.2.2⟩)
      ⟨rfl, rfl, rfl⟩ hafter
    rw [hleft] at hkept
    exact ⟨(Option.some.inj hkept.1).symm, hkept.2⟩
  · intro time hphase
    have hliving := living_run hrun
    rw [Living, hphase] at hliving
    exact ⟨hliving.1, hliving.2.imp_left (sound_run hrun).inFlight_eq_nil⟩

/-- A request that never ends, and the signal: the server stops after ten seconds. -/
theorem stopped_of_run_timeout :
    ∃ t : System Nat World Job Outcome,
      (machine bareService (UdpServer.limits 1)).run (.new (UdpServer.limits 1) .fresh)
        [.receive 0 bareJob, .send true, .awaitShutdown, .drain, .elapse 10000, .drain] = some t ∧
      t.phase = .stopped 0 10000 ∧ 0 ≤ 10000 ∧ (t.gate.inFlight = [] ∨ 0 + 10000 ≤ 10000) := by
  obtain ⟨t, hrun, hphase, hleft⟩ : ∃ t : System Nat World Job Outcome,
      (machine bareService (UdpServer.limits 1)).run (.new (UdpServer.limits 1) .fresh)
        [.receive 0 bareJob, .send true, .awaitShutdown, .drain, .elapse 10000, .drain] = some t ∧
      t.phase = .stopped 0 10000 ∧ t.left = some 0 := ⟨_, rfl, rfl, rfl⟩
  exact ⟨t, hrun, hphase, (stopped_of_run hrun hleft).2 10000 hphase⟩

/-- With the signal on the bus at most two steps of `await_shutdown` lead out of the loop. -/
theorem leave_of_signal (S : Service σ τ ε α) (limits : Limits) {shutdown : AwaitShutdown} (hphase : s.phase = .accepting shutdown)
    (hwatching : Watching s.bus shutdown) (hvalue : s.bus.value = true) :
    ∃ n ≤ 2, (machine S limits).run s (List.replicate n (.awaitShutdown : Action ι τ ε)) =
      some { s with phase := .draining s.now s.now } := by
  have hlast : ∀ u : System ι σ τ α, ∀ shutdown, u.phase = .accepting shutdown →
      shutdown.step u.bus = some .resolved →
      step S limits u (.awaitShutdown : Action ι τ ε) = some { u with phase := .draining u.now u.now } := by
    intro u shutdown hphase hnext
    rw [step, hphase]
    show Option.map _ (shutdown.step u.bus) = _
    rw [hnext]
    rfl
  cases shutdown with
  | start =>
    have hnext : AwaitShutdown.start.step s.bus = some .resolved := by rw [AwaitShutdown.step, if_pos hvalue]
    exact ⟨1, by omega, Machine.run_cons_of_step (hlast s .start hphase hnext) []⟩
  | changing seen =>
    have hseen : seen ≠ s.bus.version := by
      intro heq
      have hread := hwatching.newest heq
      rw [hvalue] at hread
      cases hread
    let s' : System ι σ τ α := { s with phase := .accepting (.reading s.bus.version) }
    have hfirst : (machine S limits).step s (.awaitShutdown : Action ι τ ε) = some s' := by
      show step S limits s .awaitShutdown = some s'
      rw [step, hphase]
      show Option.map _ (AwaitShutdown.step s.bus (.changing seen)) = _
      rw [AwaitShutdown.step, if_pos hseen]
      rfl
    have hnext : (AwaitShutdown.reading s.bus.version).step s'.bus = some .resolved := by
      show some (if s.bus.value then _ else _) = _
      rw [if_pos hvalue]
    have hsecond := hlast s' (.reading s.bus.version) rfl hnext
    refine ⟨2, by omega, ?_⟩
    exact (Machine.run_cons_of_step hfirst _).trans
      (Machine.run_cons_of_step hsecond [])
  | reading seen =>
    have hnext : (AwaitShutdown.reading seen).step s.bus = some .resolved := by
      rw [AwaitShutdown.step, if_pos hvalue]
    exact ⟨1, by omega, Machine.run_cons_of_step (hlast s (.reading seen) hphase hnext) []⟩
  | forever =>
    rw [hwatching.2] at hvalue
    cases hvalue
  | resolved => exact hwatching.elim

/-- Without a sender and without the signal the loop is never left. -/
theorem accepting_of_closed (hclosed : s.bus.closed = true) (hvalue : s.bus.value = false) (hstay : s.left = none)
    (hrun : (machine S limits).run s actions = some t) : t.left = none := by
  have hkept := Machine.run_invariant
    (I := fun s : System ι σ τ α => s.bus.closed = true ∧ s.bus.value = false ∧ s.left = none)
    (fun s action s' h hstep => by
      have hstay' : s'.left = none := by
        by_contra hleave
        obtain ⟨-, hsignal, -⟩ := signal_of_leave h.2.2 hleave hstep
        rw [h.2.1] at hsignal
        cases hsignal
      cases Taken.of_step hstep with
      | send hbus =>
        rw [Watch.send, if_pos h.1] at hbus
        cases hbus
      | close => exact ⟨rfl, h.2.1, hstay'⟩
      | receive | fail | await | drain | task | release | elapse => exact ⟨h.1, h.2.1, hstay'⟩)
    ⟨hclosed, hvalue, hstay⟩ hrun
  exact hkept.2.2

theorem step_drain_of_timeout (S : Service σ τ ε α) (limits : Limits) {since wake : Nat} (hphase : s.phase = .draining since wake)
    (htimeout : since + limits.drainTimeout ≤ s.now) :
    step S limits s (.drain : Action ι τ ε) = some { s with phase := .stopped since s.now } := by
  rw [step, hphase]
  show some { s with phase := drainPermits limits s since wake } = _
  have hpermits : drainPermits limits s since wake = .stopped since s.now := by
    rw [drainPermits, if_pos htimeout, ite_self]
  rw [hpermits]

/-- In no state that a server reaches has it missed the signal: as long as the signal is on the bus, or can still be put there, the server can stop, without waiting for any task longer than the timeout; and when the sender is gone and the signal is not there, it never stops. -/
theorem signal_of_run (hrun : (machine S limits).run (.new limits w) actions = some t) :
    (t.bus.value = true → (∀ since time, t.phase ≠ .stopped since time) →
      ∃ n ≤ 2, ∃ s, (machine S limits).run t
          (List.replicate n .awaitShutdown ++ [.elapse limits.drainTimeout, .drain]) = some s ∧
        ∃ since, s.phase = .stopped since (t.now + limits.drainTimeout)) ∧
      (t.left = none → ((∃ actions' s, (machine S limits).run t actions' = some s ∧ s.left ≠ none) ↔
        (t.bus.closed = true → t.bus.value = true))) := by
  have hliving := living_run hrun
  constructor
  · intro hvalue hnot
    have hstop : ∀ u : System ι σ τ α, u.now = t.now → ∀ since wake, u.phase = .draining since wake → since ≤ u.now →
        ∃ s, (machine S limits).run u [(.elapse limits.drainTimeout : Action ι τ ε), .drain] = some s ∧
          ∃ since, s.phase = .stopped since (t.now + limits.drainTimeout) := by
      intro u hnow since wake hphase hle
      have htimeout : since + limits.drainTimeout ≤ u.now + limits.drainTimeout := Nat.add_le_add_right hle _
      have hdrain : (machine S limits).step { u with now := u.now + limits.drainTimeout } (.drain : Action ι τ ε) = _ :=
        step_drain_of_timeout S limits hphase htimeout
      refine ⟨_, Machine.run_cons_of_step hdrain [], since, ?_⟩
      rw [hnow]
    cases hphase : t.phase with
    | accepting shutdown =>
      rw [Living, hphase] at hliving
      obtain ⟨n, hn, hleave⟩ := leave_of_signal S limits hphase hliving hvalue
      obtain ⟨s, hs, hstopped⟩ := hstop { t with phase := .draining t.now t.now } rfl t.now t.now rfl (Nat.le_refl _)
      exact ⟨n, hn, s, (Machine.run_append_of_run hleave _).trans hs, hstopped⟩
    | draining since wake =>
      rw [Living, hphase] at hliving
      obtain ⟨s, hs, hstopped⟩ := hstop t rfl since wake hphase hliving
      exact ⟨0, Nat.zero_le 2, s, hs, hstopped⟩
    | stopped since time => exact absurd hphase (hnot since time)
  · intro hstay
    constructor
    · rintro ⟨actions', s, hs, hleft⟩ hclosed
      by_contra hvalue
      exact hleft (accepting_of_closed hclosed (Bool.eq_false_of_not_eq_true hvalue) hstay hs)
    · intro hopen
      have hphase : ∃ shutdown, t.phase = .accepting shutdown := by
        rw [System.left] at hstay
        split at hstay
        · rename_i shutdown hphase
          exact ⟨shutdown, hphase⟩
        · cases hstay
        · cases hstay
      obtain ⟨shutdown, hphase⟩ := hphase
      rw [Living, hphase] at hliving
      by_cases hvalue : t.bus.value = true
      · obtain ⟨n, -, hleave⟩ := leave_of_signal S limits hphase hliving hvalue
        exact ⟨_, _, hleave, Option.some_ne_none _⟩
      · have hsend : t.bus.send true = some { t.bus with value := true, version := t.bus.version + 1 } := by
          rw [Watch.send, if_neg fun hclosed => hvalue (hopen hclosed)]
        let t' : System ι σ τ α := { t with bus := { t.bus with value := true, version := t.bus.version + 1 } }
        have hstep : (machine S limits).step t (.send true : Action ι τ ε) = some t' := by
          show Option.map _ (t.bus.send true) = _
          rw [hsend]
          rfl
        obtain ⟨n, -, hleave⟩ := leave_of_signal S limits (s := t') hphase
          (watching_send hliving hsend) rfl
        exact ⟨_, _, (Machine.run_cons_of_step hstep _).trans hleave, Option.some_ne_none _⟩

/-- The signal comes while `await_shutdown` waits for another version. -/
theorem signal_of_run_waiting :
    ∃ t : System Nat World Job Outcome,
      (machine bareService (UdpServer.limits 1)).run (.new (UdpServer.limits 1) .fresh)
        [.awaitShutdown, .send true] = some t ∧
      t.phase = .accepting (.changing 0) ∧
      ∃ n ≤ 2, ∃ s, (machine bareService (UdpServer.limits 1)).run t
          (List.replicate n .awaitShutdown ++ [.elapse 10000, .drain]) = some s ∧
        ∃ since, s.phase = .stopped since (t.now + 10000) := by
  obtain ⟨t, hrun, hphase, hvalue⟩ : ∃ t : System Nat World Job Outcome,
      (machine bareService (UdpServer.limits 1)).run (.new (UdpServer.limits 1) .fresh)
        [.awaitShutdown, .send true] = some t ∧ t.phase = .accepting (.changing 0) ∧ t.bus.value = true :=
    ⟨_, rfl, rfl, rfl⟩
  have hnot : ∀ since time, t.phase ≠ .stopped since time := by
    intro since time hstopped
    rw [hphase] at hstopped
    cases hstopped
  exact ⟨t, hrun, hphase, (signal_of_run hrun).1 hvalue hnot⟩

end AcceptLoop

end Lazydns
