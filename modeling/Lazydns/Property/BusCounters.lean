import Lazydns.Property.EventDelivery

/-!
# What the event bus counts

Each counter is behind what it counts by the accesses that are outstanding. Once there are none, the bus has published what the logger has logged, has dropped what its subscribers have missed, and has as many active subscribers as its channels have receivers.

The peak is another matter: it is read and then stored, so two subscribers that come at once may leave the smaller of their numbers. It is never above the highest number of active subscribers there was, and is that number as long as no two of them come at once.
-/

namespace Lazydns

namespace AuditEventBus

variable {α : Type}

def Publishing.uncounted : Publishing α → Bool
  | .counting => true
  | _ => false

def Publishing.unlogged : Publishing α → Bool
  | .counting | .logging => true
  | _ => false

namespace Stage

/-- What the subscriber has missed and not counted. -/
def undropped : Stage → Nat
  | lagging count => count
  | _ => 0

/-- The subscriber counts as active. -/
def active : Stage → Bool
  | counted _ | peaking _ | live | lagging _ => true
  | _ => false

def number : Stage → Nat
  | counted current | peaking current => current
  | _ => 0

/-- The subscriber has taken its number, and may still store it as the peak. -/
def announcing : Stage → Bool
  | counted _ | peaking _ => true
  | _ => false

end Stage

namespace Channel

variable (c : Channel α)

def uncounted : Nat := c.calls.countP Publishing.uncounted

def unlogged : Nat := c.calls.countP Publishing.unlogged

def missed : Nat := (c.subscribers.map fun subscriber => subscriber.receiver.missed).sum

def undropped : Nat := (c.subscribers.map fun subscriber => subscriber.stage.undropped).sum

def active : Nat := c.subscribers.countP fun subscriber => subscriber.stage.active

end Channel

variable {stats stats' : EventBusStats} {c c' : Channel α} {s s' : System}

/-! ### One access -/

namespace Channel

/-- What a step adds to a counter and to what is outstanding is what it adds to what is counted. -/
structure Accounts (stats : EventBusStats) (c : Channel α) (stats' : EventBusStats) (c' : Channel α) : Prop where
  published : stats'.eventsPublished + c'.uncounted + c.sent.length =
    stats.eventsPublished + c.uncounted + c'.sent.length
  logged : c'.logged + c'.unlogged + c.sent.length = c.logged + c.unlogged + c'.sent.length
  dropped : stats'.eventsDropped + c'.undropped + c.missed = stats.eventsDropped + c.undropped + c'.missed
  active : c.active ≤ stats.activeSubscribers → stats'.activeSubscribers + c.active = stats.activeSubscribers + c'.active

/-- A call pays what it owes, or owes what it has just sent. -/
theorem publish_accounts {call : Publishing α} {next : Option (Publishing α)}
    (h : c.publish stats call = (stats', c', next)) :
    stats'.eventsPublished + (next.any Publishing.uncounted).toNat + c.sent.length =
        stats.eventsPublished + call.uncounted.toNat + c'.sent.length ∧
      c'.logged + (next.any Publishing.unlogged).toNat + c.sent.length =
        c.logged + call.unlogged.toNat + c'.sent.length ∧
      stats'.eventsDropped = stats.eventsDropped ∧ stats'.activeSubscribers = stats.activeSubscribers ∧
      c'.subscribers = c.subscribers := by
  cases call with
  | sending entry =>
    simp only [publish] at h
    split at h
    · cases h
      exact ⟨rfl, rfl, rfl, rfl, rfl⟩
    · cases h
      simp [Publishing.uncounted, Publishing.unlogged]
      omega
  | counting =>
    cases h
    simp [Publishing.uncounted, Publishing.unlogged]
  | logging =>
    cases h
    simp [Publishing.uncounted, Publishing.unlogged]

theorem advance_accounts {stage stage' : Stage} (h : advance stats stage = some (stats', stage')) :
    stats'.eventsPublished = stats.eventsPublished ∧
      stats'.eventsDropped + stage'.undropped = stats.eventsDropped + stage.undropped ∧
      stats'.activeSubscribers + stage.active.toNat = stats.activeSubscribers + stage'.active.toNat := by
  cases stage with
  | subscribed | lagging | dropping | peaking =>
    cases h
    simp [Stage.undropped, Stage.active]
  | counted current =>
    simp only [advance] at h
    cases h
    split
    · simp [Stage.undropped, Stage.active]
    · simp [Stage.undropped, Stage.active]
  | live | gone => cases h

theorem recv_accounts (library : Broadcast α) (sent : List α) (subscriber : Subscriber α) :
    (recv library sent subscriber).stage.undropped + subscriber.receiver.missed =
        (recv library sent subscriber).receiver.missed ∧
      (recv library sent subscriber).stage.active = true := by
  have hreceives := Broadcast.Receiver.receives library sent subscriber.receiver
  rw [recv]
  generalize subscriber.receiver.recv library sent = found at hreceives ⊢
  cases hreceives with
  | behind hbehind => exact ⟨Nat.add_comm _ _, rfl⟩
  | value hbehind hvalue => exact ⟨Nat.zero_add _, rfl⟩
  | empty hvalue => exact ⟨Nat.zero_add _, rfl⟩

theorem accounts_set {subscriber subscriber' : Subscriber α} {j : Nat} (hj : c.subscribers[j]? = some subscriber)
    (hpublished : stats'.eventsPublished = stats.eventsPublished)
    (hdropped : stats'.eventsDropped + subscriber'.stage.undropped + subscriber.receiver.missed =
      stats.eventsDropped + subscriber.stage.undropped + subscriber'.receiver.missed)
    (hactive : c.active ≤ stats.activeSubscribers → stats'.activeSubscribers + subscriber.stage.active.toNat =
      stats.activeSubscribers + subscriber'.stage.active.toNat) :
    Accounts stats c stats' { c with subscribers := c.subscribers.set j subscriber' } := by
  have hundropped := Slots.sum_map_set hj subscriber' fun subscriber => subscriber.stage.undropped
  have hmissed := Slots.sum_map_set hj subscriber' fun subscriber => subscriber.receiver.missed
  have hcount := Slots.countP_replace hj (some subscriber') fun subscriber => subscriber.stage.active
  rw [Slots.replace, Option.any_some] at hcount
  refine ⟨?_, rfl, ?_, fun hle => ?_⟩
  · rw [hpublished]
    rfl
  · simp only [undropped, missed]
    omega
  · have hsame := hactive hle
    simp only [active]
    omega

theorem step_accounts {e : Event α} (h : c.step stats e = some (stats', c')) : Accounts stats c stats' c' := by
  cases e with
  | publish entry =>
    cases h
    refine ⟨?_, ?_, rfl, fun _ => rfl⟩
    · simp [uncounted, Publishing.uncounted]
    · simp [unlogged, Publishing.unlogged]
  | call i =>
    simp only [step] at h
    split at h
    · rename_i call hcall
      obtain ⟨⟨stats₁, c₁, next⟩, hpublish⟩ : ∃ out, c.publish stats call = out := ⟨_, rfl⟩
      rw [hpublish] at h
      obtain ⟨hpublished, hlogged, hdropped, hactive, hsubscribers⟩ := publish_accounts hpublish
      have huncounted := Slots.countP_replace hcall next Publishing.uncounted
      have hunlogged := Slots.countP_replace hcall next Publishing.unlogged
      cases h
      refine ⟨?_, ?_, ?_, fun _ => ?_⟩
      · simp only [uncounted]
        omega
      · simp only [unlogged]
        omega
      · simp only [undropped, missed]
        rw [hdropped, hsubscribers]
      · simp only [active]
        rw [hactive, hsubscribers]
    · cases h
  | subscribe =>
    cases h
    refine ⟨rfl, rfl, ?_, fun _ => ?_⟩
    · simp [undropped, missed, Stage.undropped, Broadcast.subscribe]
    · simp [active, Stage.active]
  | advance j =>
    simp only [step] at h
    split at h
    · rename_i subscriber hj
      obtain ⟨⟨_, stage⟩, hadvance, heq⟩ := Option.map_eq_some_iff.mp h
      obtain ⟨hpublished, hdropped, hactive⟩ := advance_accounts hadvance
      cases heq
      exact accounts_set hj hpublished (congrArg (· + subscriber.receiver.missed) hdropped) fun _ => hactive
    · cases h
  | recv j =>
    simp only [step] at h
    split at h
    · rename_i subscriber hj
      obtain ⟨hlive, heq⟩ := Option.ite_none_right_eq_some.mp h
      obtain ⟨hmissed, hactive⟩ := recv_accounts c.library c.sent subscriber
      cases heq
      refine accounts_set hj rfl ?_ fun _ => ?_
      · rw [hlive, Nat.add_assoc, hmissed]
        rfl
      · rw [hactive, hlive]
        rfl
    · cases h
  | drop j =>
    simp only [step] at h
    split at h
    · rename_i subscriber hj
      obtain ⟨hlive, heq⟩ := Option.ite_none_right_eq_some.mp h
      have hpos : 0 < c.active := List.countP_pos_iff.mpr ⟨subscriber, List.mem_of_getElem? hj, by rw [hlive]; rfl⟩
      cases heq
      refine accounts_set hj rfl ?_ fun hle => ?_
      · rw [hlive]
        rfl
      · rw [hlive]
        show stats.activeSubscribers - 1 + 1 = stats.activeSubscribers + 0
        omega
    · cases h

end Channel

/-! ### Whole runs -/

/-- How far each counter is behind. -/
structure Counted (s : System) : Prop where
  published : s.stats.eventsPublished + s.query.uncounted + s.security.uncounted =
    s.query.sent.length + s.security.sent.length
  queriesLogged : s.query.logged + s.query.unlogged = s.query.sent.length
  securityEventsLogged : s.security.logged + s.security.unlogged = s.security.sent.length
  dropped : s.stats.eventsDropped + s.query.undropped + s.security.undropped = s.query.missed + s.security.missed
  active : s.stats.activeSubscribers = s.query.active + s.security.active

theorem counted_new (query : Broadcast QueryLogEntry) (security : Broadcast AuditEvent) :
    Counted (.new query security) := ⟨rfl, rfl, rfl, rfl, rfl⟩

theorem Counted.step {e : Event} (h : Counted s) (hstep : step s e = some s') : Counted s' := by
  obtain ⟨hpublished, hqueries, hsecurity, hdropped, hactive⟩ := h
  obtain ⟨event, -, hstep, hother, -⟩ | ⟨event, -, hstep, hother, -⟩ := step_cases hstep
  · have haccounts := Channel.step_accounts hstep
    have h₁ := haccounts.published
    have h₂ := haccounts.logged
    have h₃ := haccounts.dropped
    have h₄ := haccounts.active (by omega)
    exact ⟨by rw [hother]; omega, by omega, hother ▸ hsecurity, by rw [hother]; omega, by rw [hother]; omega⟩
  · have haccounts := Channel.step_accounts hstep
    have h₁ := haccounts.published
    have h₂ := haccounts.logged
    have h₃ := haccounts.dropped
    have h₄ := haccounts.active (by omega)
    exact ⟨by rw [hother]; omega, hother ▸ hqueries, by omega, by rw [hother]; omega, by rw [hother]; omega⟩

variable {query : Broadcast QueryLogEntry} {security : Broadcast AuditEvent} {es : List Event}

theorem counted_of_run (hrun : machine.run (.new query security) es = some s) : Counted s :=
  Machine.run_invariant (fun _ _ _ hs hstep => hs.step hstep) (counted_new query security) hrun

/-- No call has still to count what it has sent, and every subscriber is between two calls of `recv`, or gone. -/
def Channel.Quiet (c : Channel α) : Prop :=
  (∀ call ∈ c.calls, call.unlogged = false) ∧
    ∀ subscriber ∈ c.subscribers, subscriber.stage = .live ∨ subscriber.stage = .gone

instance : Decidable c.Quiet := inferInstanceAs (Decidable (_ ∧ _))

theorem Channel.Quiet.counted (h : c.Quiet) :
    c.uncounted = 0 ∧ c.unlogged = 0 ∧ c.undropped = 0 ∧ c.active = c.receiverCount := by
  obtain ⟨hcalls, hsubscribers⟩ := h
  refine ⟨?_, ?_, ?_, ?_⟩
  · refine List.countP_eq_zero.mpr fun call hmem => ?_
    have hlogged := hcalls call hmem
    cases call with
    | counting => cases hlogged
    | sending | logging => exact Bool.false_ne_true
  · exact List.countP_eq_zero.mpr fun call hmem => by simp [hcalls call hmem]
  · apply List.sum_eq_zero_iff_forall_eq_nat.mpr
    intro count hcount
    obtain ⟨subscriber, hmem, rfl⟩ := List.mem_map.mp hcount
    obtain hlive | hgone := hsubscribers subscriber hmem
    · rw [hlive]
      rfl
    · rw [hgone]
      rfl
  · apply List.countP_congr
    intro subscriber hmem
    obtain hlive | hgone := hsubscribers subscriber hmem
    · simp [hlive, Stage.active]
    · simp [hgone, Stage.active]

/-- Once no access is outstanding, the counters of the bus and of the logger say what was published, what was missed and how many receivers there are. -/
theorem counters_of_quiet (hrun : machine.run (.new query security) es = some s) (hquery : s.query.Quiet)
    (hsecurity : s.security.Quiet) :
    s.stats.eventsPublished = s.query.logged + s.security.logged ∧
      s.query.logged = s.query.sent.length ∧ s.security.logged = s.security.sent.length ∧
      s.stats.eventsDropped = s.query.missed + s.security.missed ∧
      s.stats.activeSubscribers = s.query.receiverCount + s.security.receiverCount := by
  obtain ⟨hpublished, hqueries, hsecurityEvents, hdropped, hactive⟩ := counted_of_run hrun
  obtain ⟨h₁, h₂, h₃, h₄⟩ := hquery.counted
  obtain ⟨h₅, h₆, h₇, h₈⟩ := hsecurity.counted
  omega

/-- A subscriber comes, two entries are published on a channel that keeps one, and the subscriber finds itself behind. -/
def laggingRun : List Event :=
  [.subscribe, .advance 0, .advance 0, .advance 0, .publish (.new "" 1 "udp" "a" "A" "IN"), .call 0,
    .publish (.new "" 2 "udp" "b" "A" "IN"), .call 1, .recv 0, .advance 0, .recv 0].map .query

/-- Both calls count what they have sent. -/
def quietRun : List Event := laggingRun ++ List.replicate 4 (.query (.call 0))

theorem counters_of_quiet_lagging :
    ∃ s, machine.run (.new (.keeping 1) (.keeping 1)) quietRun = some s ∧ s.stats.eventsDropped = 1 ∧
      s.stats.eventsPublished = s.query.logged + s.security.logged ∧
      s.query.logged = s.query.sent.length ∧ s.security.logged = s.security.sent.length ∧
      s.stats.eventsDropped = s.query.missed + s.security.missed ∧
      s.stats.activeSubscribers = s.query.receiverCount + s.security.receiverCount := by
  have hquiet : ∀ s, machine.run (.new (.keeping 1) (.keeping 1)) quietRun = some s → s.query.Quiet ∧ s.security.Quiet := by
    intro s hrun
    cases hrun
    decide
  exact ⟨_, rfl, rfl, @counters_of_quiet _ (.keeping 1) (.keeping 1) quietRun rfl (hquiet _ rfl).1 (hquiet _ rfl).2⟩

/-! ### The peak -/

/-- The subscribers that have taken their number and may still store it. -/
def Channel.announcements (c : Channel α) : List Stage :=
  (c.subscribers.map Subscriber.stage).filter Stage.announcing

def System.announcements (s : System) : List Stage := s.query.announcements ++ s.security.announcements

/-- What a step does to the announcements: one comes, one is about to be stored, one is over, or nothing changes. -/
inductive Announces (stats : EventBusStats) (stages : List Stage) (stats' : EventBusStats) (stages' : List Stage) : Prop where
  | comes (hpeak : stats'.peakSubscribers = stats.peakSubscribers)
      (hactive : stats'.activeSubscribers = stats.activeSubscribers + 1)
      (hstages : stages'.Perm (.counted (stats.activeSubscribers + 1) :: stages))
  | exceeds (current : Nat) (hstats : stats' = stats) (hlt : stats.peakSubscribers < current)
      (hstages : (.counted current :: stages').Perm (.peaking current :: stages))
  | stays (current : Nat) (hstats : stats' = stats) (hle : current ≤ stats.peakSubscribers)
      (hstages : stages.Perm (.counted current :: stages'))
  | stores (current : Nat) (hpeak : stats'.peakSubscribers = current)
      (hactive : stats'.activeSubscribers = stats.activeSubscribers)
      (hstages : stages.Perm (.peaking current :: stages'))
  | rests (hpeak : stats'.peakSubscribers = stats.peakSubscribers)
      (hactive : stats'.activeSubscribers ≤ stats.activeSubscribers) (hstages : stages'.Perm stages)

namespace Channel

theorem announcements_set (subscriber' : Subscriber α) {subscriber : Subscriber α} {j : Nat}
    (hj : c.subscribers[j]? = some subscriber) :
    ([subscriber.stage].filter Stage.announcing ++
        ({ c with subscribers := c.subscribers.set j subscriber' } : Channel α).announcements).Perm
      ([subscriber'.stage].filter Stage.announcing ++ c.announcements) := by
  have hold := ((Slots.perm_cons_eraseIdx hj).map Subscriber.stage).filter Stage.announcing
  have hnew := ((Slots.replace_perm hj (some subscriber')).map Subscriber.stage).filter Stage.announcing
  rw [List.map_cons, ← List.singleton_append, List.filter_append] at hold
  rw [Option.toList_some, List.singleton_append, List.map_cons, ← List.singleton_append, List.filter_append] at hnew
  refine (hnew.append_left _).trans (List.Perm.trans ?_ (hold.symm.append_left _))
  exact List.perm_append_comm_assoc _ _ _

theorem publish_peak {call : Publishing α} {next : Option (Publishing α)}
    (h : c.publish stats call = (stats', c', next)) : stats'.peakSubscribers = stats.peakSubscribers := by
  cases call with
  | sending entry =>
    simp only [publish] at h
    split at h
    · cases h
      rfl
    · cases h
      rfl
  | counting | logging =>
    cases h
    rfl

theorem recv_silent (library : Broadcast α) (sent : List α) (subscriber : Subscriber α) :
    [(recv library sent subscriber).stage].filter Stage.announcing = [] := by
  rw [recv]
  split
  · rfl
  · rfl

theorem advance_announces {subscriber : Subscriber α} {j : Nat} {stage : Stage}
    (hj : c.subscribers[j]? = some subscriber) (h : advance stats subscriber.stage = some (stats', stage)) :
    Announces stats c.announcements stats'
      ({ c with subscribers := c.subscribers.set j { subscriber with stage } } : Channel α).announcements := by
  have hset := announcements_set { subscriber with stage } hj
  obtain ⟨receiver, stage₀⟩ := subscriber
  cases stage₀ with
  | subscribed =>
    cases h
    exact .comes rfl rfl hset
  | counted current =>
    simp only [advance] at h
    cases h
    split at hset
    · rename_i hlt
      rw [if_pos hlt]
      exact .exceeds current rfl hlt hset
    · rename_i hle
      rw [if_neg hle]
      exact .stays current rfl (Nat.le_of_not_lt hle) hset.symm
  | peaking current =>
    cases h
    exact .stores current rfl rfl hset.symm
  | lagging count =>
    cases h
    exact .rests rfl (Nat.le_refl _) hset
  | dropping =>
    cases h
    exact .rests rfl (Nat.le_refl _) hset
  | live | gone => cases h

theorem step_announces {e : Event α} (h : c.step stats e = some (stats', c')) :
    Announces stats c.announcements stats' c'.announcements := by
  cases e with
  | publish entry =>
    cases h
    exact .rests rfl (Nat.le_refl _) (List.Perm.refl _)
  | call i =>
    simp only [step] at h
    split at h
    · rename_i call hcall
      obtain ⟨⟨stats₁, c₁, next⟩, hpublish⟩ : ∃ out, c.publish stats call = out := ⟨_, rfl⟩
      rw [hpublish] at h
      cases h
      obtain ⟨-, -, -, hactive, hsubscribers⟩ := publish_accounts hpublish
      refine .rests ?_ hactive.le ?_
      · exact publish_peak hpublish
      · rw [announcements, announcements, hsubscribers]
    · cases h
  | subscribe =>
    cases h
    refine .rests rfl (Nat.le_refl _) ?_
    rw [announcements, announcements, List.map_append, List.filter_append]
    exact List.Perm.of_eq (List.append_nil _)
  | advance j =>
    simp only [step] at h
    split at h
    · rename_i subscriber hj
      obtain ⟨⟨_, stage⟩, hadvance, heq⟩ := Option.map_eq_some_iff.mp h
      cases heq
      exact advance_announces hj hadvance
    · cases h
  | recv j =>
    simp only [step] at h
    split at h
    · rename_i subscriber hj
      obtain ⟨hlive, heq⟩ := Option.ite_none_right_eq_some.mp h
      cases heq
      have hset := announcements_set (recv c.library c.sent subscriber) hj
      refine .rests rfl (Nat.le_refl _) ?_
      rw [hlive] at hset
      exact hset.trans (List.Perm.of_eq (by rw [recv_silent]; rfl))
    · cases h
  | drop j =>
    simp only [step] at h
    split at h
    · rename_i subscriber hj
      obtain ⟨hlive, heq⟩ := Option.ite_none_right_eq_some.mp h
      cases heq
      have hset := announcements_set { subscriber with stage := .dropping } hj
      rw [hlive] at hset
      exact .rests rfl (Nat.sub_le _ _) hset
    · cases h

end Channel

theorem Announces.of_perm {stages stages' other all all' : List Stage} (h : Announces stats stages stats' stages')
    (hall : all.Perm (stages ++ other)) (hall' : all'.Perm (stages' ++ other)) : Announces stats all stats' all' := by
  cases h with
  | comes hpeak hactive hstages =>
    exact .comes hpeak hactive ((hall'.trans (hstages.append_right other)).trans (hall.symm.cons _))
  | exceeds current hstats hlt hstages =>
    exact .exceeds current hstats hlt
      (((hall'.cons _).trans (hstages.append_right other)).trans (hall.symm.cons _))
  | stays current hstats hle hstages =>
    exact .stays current hstats hle ((hall.trans (hstages.append_right other)).trans (hall'.symm.cons _))
  | stores current hpeak hactive hstages =>
    exact .stores current hpeak hactive ((hall.trans (hstages.append_right other)).trans (hall'.symm.cons _))
  | rests hpeak hactive hstages =>
    exact .rests hpeak hactive ((hall'.trans (hstages.append_right other)).trans hall.symm)

theorem step_announces {e : Event} (h : step s e = some s') :
    Announces s.stats s.announcements s'.stats s'.announcements ∧
      s'.highest = max s.highest s'.stats.activeSubscribers := by
  obtain ⟨event, -, hstep, hother, hhighest⟩ | ⟨event, -, hstep, hother, hhighest⟩ := step_cases h
  · refine ⟨(Channel.step_announces hstep).of_perm (List.Perm.refl _) ?_, hhighest⟩
    rw [System.announcements, hother]
  · refine ⟨(Channel.step_announces hstep).of_perm List.perm_append_comm ?_, hhighest⟩
    rw [System.announcements, hother]
    exact List.perm_append_comm

/-- No number that was or may be stored is above the highest there was. -/
structure Bounded (s : System) : Prop where
  active : s.stats.activeSubscribers ≤ s.highest
  peak : s.stats.peakSubscribers ≤ s.highest
  announced : ∀ stage ∈ s.announcements, stage.number ≤ s.highest

/-- At most one subscriber is coming, and the peak is right but for what this one has still to store. -/
inductive Alone (s : System) : Prop where
  | none (hnone : s.announcements = []) (hpeak : s.stats.peakSubscribers = s.highest)
  | counted (current : Nat) (hone : s.announcements = [.counted current])
      (hpeak : s.highest = max s.stats.peakSubscribers current)
  | peaking (current : Nat) (hone : s.announcements = [.peaking current])
      (hpeak : s.highest = current)

theorem Bounded.step {e : Event} (h : Bounded s) (hstep : step s e = some s') : Bounded s' := by
  obtain ⟨hactive, hpeak, hannounced⟩ := h
  obtain ⟨hannounces, hhighest⟩ := step_announces hstep
  have hle : s.highest ≤ s'.highest := by omega
  have hkept : ∀ stage ∈ s.announcements, stage.number ≤ s'.highest :=
    fun stage hmem => Nat.le_trans (hannounced stage hmem) hle
  cases hannounces with
  | comes hpeak' hactive' hstages =>
    refine ⟨by omega, by omega, fun stage hmem => ?_⟩
    obtain rfl | hmem := List.mem_cons.mp (hstages.mem_iff.mp hmem)
    · show s.stats.activeSubscribers + 1 ≤ s'.highest
      omega
    · exact hkept stage hmem
  | exceeds current hstats hlt hstages =>
    have hcounted : Stage.counted current ∈ s.announcements :=
      (List.mem_cons.mp (hstages.mem_iff.mp List.mem_cons_self)).resolve_left nofun
    rw [hstats] at hhighest
    refine ⟨by rw [hstats]; omega, by rw [hstats]; omega, fun stage hmem => ?_⟩
    obtain rfl | hmem := List.mem_cons.mp (hstages.mem_iff.mp (List.mem_cons_of_mem _ hmem))
    · exact hkept (.counted current) hcounted
    · exact hkept stage hmem
  | stays current hstats hcurrent hstages =>
    rw [hstats] at hhighest
    refine ⟨by rw [hstats]; omega, by rw [hstats]; omega, fun stage hmem => ?_⟩
    exact hkept stage (hstages.mem_iff.mpr (List.mem_cons_of_mem _ hmem))
  | stores current hpeak' hactive' hstages =>
    have hcurrent : current ≤ s'.highest := hkept (.peaking current) (hstages.mem_iff.mpr List.mem_cons_self)
    refine ⟨by omega, by omega, fun stage hmem => ?_⟩
    exact hkept stage (hstages.mem_iff.mpr (List.mem_cons_of_mem _ hmem))
  | rests hpeak' hactive' hstages =>
    refine ⟨by omega, by omega, fun stage hmem => ?_⟩
    exact hkept stage (hstages.mem_iff.mp hmem)

theorem Alone.of_nil (h : Alone s) (hnone : s.announcements = []) : s.stats.peakSubscribers = s.highest := by
  cases h with
  | none _ hpeak => exact hpeak
  | counted current hone => rw [hone] at hnone; cases hnone
  | peaking current hone => rw [hone] at hnone; cases hnone

theorem Alone.of_counted {current : Nat} (h : Alone s) (hmem : .counted current ∈ s.announcements) :
    s.announcements = [.counted current] ∧ s.highest = max s.stats.peakSubscribers current := by
  cases h with
  | none hnone => rw [hnone] at hmem; cases hmem
  | counted current' hone hpeak =>
    rw [hone] at hmem
    cases List.mem_singleton.mp hmem
    exact ⟨hone, hpeak⟩
  | peaking current' hone =>
    rw [hone] at hmem
    cases List.mem_singleton.mp hmem

theorem Alone.of_peaking {current : Nat} (h : Alone s) (hmem : .peaking current ∈ s.announcements) :
    s.announcements = [.peaking current] ∧ s.highest = current := by
  cases h with
  | none hnone => rw [hnone] at hmem; cases hmem
  | counted current' hone =>
    rw [hone] at hmem
    cases List.mem_singleton.mp hmem
  | peaking current' hone hpeak =>
    rw [hone] at hmem
    cases List.mem_singleton.mp hmem
    exact ⟨hone, hpeak⟩

theorem Alone.step {e : Event} (h : Alone s) (hbounded : Bounded s) (hsingle : s'.announcements.length ≤ 1)
    (hstep : step s e = some s') : Alone s' := by
  obtain ⟨hannounces, hhighest⟩ := step_announces hstep
  have hactive := hbounded.active
  cases hannounces with
  | comes hpeak hactive' hstages =>
    -- No other subscriber can be on its way.
    have hlength := hstages.length_eq
    rw [List.length_cons] at hlength
    have hnone : s.announcements = [] := List.length_eq_zero_iff.mp (by omega)
    have hexact := h.of_nil hnone
    rw [hnone] at hstages
    exact .counted _ (List.perm_singleton.mp hstages) (by omega)
  | exceeds current hstats hlt hstages =>
    have hmem : Stage.counted current ∈ s.announcements :=
      (List.mem_cons.mp (hstages.mem_iff.mp List.mem_cons_self)).resolve_left nofun
    obtain ⟨hone, hpeak⟩ := h.of_counted hmem
    rw [hone] at hstages
    have hstages := (List.perm_cons _).mp (hstages.trans (List.Perm.swap _ _ []))
    rw [hstats] at hhighest
    exact .peaking current (List.perm_singleton.mp hstages) (by omega)
  | stays current hstats hcurrent hstages =>
    obtain ⟨hone, hpeak⟩ := h.of_counted (hstages.mem_iff.mpr List.mem_cons_self)
    rw [hone] at hstages
    rw [hstats] at hhighest
    refine .none (List.nil_perm.mp ((List.perm_cons _).mp hstages)) ?_
    rw [hstats]
    omega
  | stores current hpeak hactive' hstages =>
    obtain ⟨hone, hhighest'⟩ := h.of_peaking (hstages.mem_iff.mpr List.mem_cons_self)
    rw [hone] at hstages
    exact .none (List.nil_perm.mp ((List.perm_cons _).mp hstages)) (by omega)
  | rests hpeak hactive' hstages =>
    have hsame : s'.highest = s.highest := by omega
    cases h with
    | none hnone hexact => exact .none (List.perm_nil.mp (hnone ▸ hstages)) (by omega)
    | counted current hone hexact => exact .counted current (List.perm_singleton.mp (hone ▸ hstages)) (by omega)
    | peaking current hone hexact => exact .peaking current (List.perm_singleton.mp (hone ▸ hstages)) (by omega)

theorem bounded_of_run (hrun : machine.run (.new query security) es = some s) : Bounded s := by
  apply Machine.run_invariant (I := Bounded) _ _ hrun
  · exact fun _ _ _ hs hstep => hs.step hstep
  · exact ⟨Nat.le_refl 0, Nat.le_refl 0, List.forall_mem_nil _⟩

/-- The peak is never above the highest number of active subscribers there was, and if no two subscribers come at once, it is this number whenever none is on its way. -/
theorem peak_of_run (hrun : machine.run (.new query security) es = some s) :
    s.stats.peakSubscribers ≤ s.highest ∧
      (machine.Each (fun _ _ s' => s'.announcements.length ≤ 1) (.new query security) es →
        s.announcements = [] → s.stats.peakSubscribers = s.highest) := by
  refine ⟨(bounded_of_run hrun).peak, fun halone => Alone.of_nil ?_⟩
  have hkept := Machine.run_keeps (M := machine) (I := fun s => Bounded s ∧ Alone s)
    (C := fun _ _ s' => s'.announcements.length ≤ 1)
    (fun _ _ _ hs hsingle hstep => ⟨hs.1.step hstep, hs.2.step hs.1 hsingle hstep⟩)
    ⟨@bounded_of_run _ query security [] rfl, .none rfl rfl⟩ halone hrun
  exact hkept.2

/-- One subscriber comes after the other. -/
def successiveRun : List Event :=
  [.query .subscribe, .query (.advance 0), .query (.advance 0), .query (.advance 0), .security .subscribe,
    .security (.advance 0), .security (.advance 0), .security (.advance 0)]

theorem peak_of_run_successive :
    ∃ s, machine.run (.new (.keeping 1) (.keeping 1)) successiveRun = some s ∧ s.stats.peakSubscribers = s.highest ∧ s.highest = 2 :=
  ⟨_, rfl, (@peak_of_run _ (.keeping 1) (.keeping 1) successiveRun rfl).2 (by decide) rfl, rfl⟩

/-- Both find that the peak is 0, and the first one stores its number last. -/
example : (machine.run (.new (.keeping 1) (.keeping 1)) [.query .subscribe, .security .subscribe, .query (.advance 0), .security (.advance 0),
    .query (.advance 0), .security (.advance 0), .security (.advance 0), .query (.advance 0)]).map
      (fun s => (s.stats.peakSubscribers, s.highest)) = some (1, 2) := rfl

end AuditEventBus

end Lazydns
