import Lazydns.Lib.Spaced
import Lazydns.Web.AlertLoop

/-!
# Alerts and their deliveries

Every rule that a received event matches raises an alert or is suppressed, and it is suppressed only within the window of an earlier alert of its name. So the alerts of one name keep the window's distance, and there are only so many of them in any stretch of time.

With a webhook, each alert is sent at least once unless its request cannot be copied, and at most as often as the configuration says, with the pauses in between; once it is taken it is not sent again. With no retries configured it is sent once all the same.
-/

namespace Lazydns

namespace AlertLoop

variable {toText : IpAddr → String} {policy : Policy} {config : AlertConfig} {s s' : System} {event : AuditEvent}
  {rule : AlertRule} {rules : List AlertRule} {id : String} {fuel : Nat}

/-! ### Windows -/

def Policy.windowMs (policy : Policy) : Nat := policy.dedupWindowSecs * 1000

def System.timesOf (s : System) (name : String) : List Nat :=
  (s.triggered.filter fun alert => alert.1 = name).map Prod.snd

def countMatches (rules : List AlertRule) (event : AuditEvent) : Nat := rules.countP fun rule => matchesRule rule event

/-- How many rules of the event at hand are still to be checked and will match. -/
def Stage.pendingMatches : Stage → Nat
  | .receiving => 0
  | .checking event rules | .sending event rules _ | .sleeping event rules _ _ => countMatches rules event

/-- How many alerts the rules would raise for the events. -/
def matchCount (policy : Policy) (events : List AuditEvent) : Nat :=
  (events.map (countMatches policy.rules)).sum

/-- The times are in the past, the cache has the last one for each name, and what was suppressed was within a window. -/
structure Windows (policy : Policy) (s : System) : Prop where
  past : ∀ name t, (name, t) ∈ s.triggered → t ≤ s.now
  cache : ∀ name, s.dedupCache name = (s.timesOf name).getLast?
  spaced : ∀ name, Spaced policy.windowMs (s.timesOf name)
  suppressed : ∀ name t, (name, t) ∈ s.deduplicated →
    ∃ t', (name, t') ∈ s.triggered ∧ t' ≤ t ∧ t < t' + policy.windowMs
  counted : s.triggered.length + s.deduplicated.length + s.stage.pendingMatches = matchCount policy s.received

theorem mem_timesOf {name : String} {t : Nat} : t ∈ s.timesOf name ↔ (name, t) ∈ s.triggered := by
  rw [System.timesOf, List.mem_map]
  constructor
  · rintro ⟨⟨name', t'⟩, hmem, rfl⟩
    obtain ⟨hmem, hname⟩ := List.mem_filter.mp hmem
    rwa [← of_decide_eq_true hname]
  · exact fun hmem => ⟨(name, t), List.mem_filter.mpr ⟨hmem, decide_eq_true rfl⟩, rfl⟩

/-- Between its checks the loop changes neither the cache nor what is noted of the alerts. -/
structure SameAlerts (s s' : System) : Prop where
  now : s.now ≤ s'.now
  cache : s'.dedupCache = s.dedupCache
  triggered : s'.triggered = s.triggered
  deduplicated : s'.deduplicated = s.deduplicated

theorem Windows.of_same (h : Windows policy s) (hsame : SameAlerts s s')
    (hcounted : s'.stage.pendingMatches + matchCount policy s.received = s.stage.pendingMatches + matchCount policy s'.received) :
    Windows policy s' := by
  have htimes : ∀ name, s'.timesOf name = s.timesOf name := by
    intro name
    rw [System.timesOf, hsame.triggered]
    rfl
  refine ⟨?_, ?_, ?_, ?_, ?_⟩
  · rw [hsame.triggered]
    exact fun name t hmem => Nat.le_trans (h.past name t hmem) hsame.now
  · intro name
    rw [hsame.cache, htimes]
    exact h.cache name
  · intro name
    rw [htimes]
    exact h.spaced name
  · rw [hsame.deduplicated, hsame.triggered]
    exact h.suppressed
  · have hcount := h.counted
    rw [hsame.triggered, hsame.deduplicated]
    omega

theorem pendingMatches_cons_of_match (hmatches : matchesRule rule event = true) :
    (Stage.checking event (rule :: rules)).pendingMatches = countMatches rules event + 1 :=
  List.countP_cons_of_pos (p := fun rule => matchesRule rule event) hmatches

theorem pendingMatches_cons_of_not (hmatches : ¬matchesRule rule event = true) :
    (Stage.checking event (rule :: rules)).pendingMatches = countMatches rules event :=
  List.countP_cons_of_neg (p := fun rule => matchesRule rule event) hmatches

theorem Windows.suppress (h : Windows policy s) (hstage : s.stage = .checking event (rule :: rules))
    (hmatches : matchesRule rule event = true) (hdedup : shouldDeduplicate policy s rule.name = true) :
    Windows policy { s with
      stage := .checking event rules, deduplicated := s.deduplicated ++ [(rule.name, s.now)] } := by
  refine ⟨h.past, h.cache, h.spaced, fun name t hmem => ?_, ?_⟩
  · obtain hold | hnew := List.mem_append.mp hmem
    · exact h.suppressed name t hold
    · obtain ⟨rfl, rfl⟩ := Prod.mk.inj (List.mem_singleton.mp hnew)
      rw [shouldDeduplicate, h.cache] at hdedup
      split at hdedup
      · rename_i last hlast
        have hmem := mem_timesOf.mp (List.mem_of_getLast? hlast)
        have hpast := h.past _ _ hmem
        have hwithin := of_decide_eq_true hdedup
        refine ⟨last, hmem, hpast, ?_⟩
        rw [Policy.windowMs]
        omega
      · cases hdedup
  · have hcount := h.counted
    rw [hstage, pendingMatches_cons_of_match hmatches] at hcount
    rw [List.length_append, List.length_singleton]
    show s.triggered.length + (s.deduplicated.length + 1) + countMatches rules event = matchCount policy s.received
    omega

theorem timesOf_trigger (s : System) (rule : AlertRule) {name : String}
    (htriggered : s'.triggered = s.triggered ++ [(rule.name, s.now)]) :
    s'.timesOf name = if rule.name = name then s.timesOf name ++ [s.now] else s.timesOf name := by
  rw [System.timesOf, htriggered, List.filter_append, List.map_append, ← System.timesOf]
  split
  · rename_i hname
    simp [hname]
  · rename_i hname
    simp [hname]

theorem notify_pendingMatches (policy : Policy) (event : AuditEvent) (rules : List AlertRule) (now : Nat) :
    (notify policy event rules now).pendingMatches = countMatches rules event := by
  rw [notify]
  split
  · rfl
  · rfl

theorem Windows.trigger (h : Windows policy s) (hstage : s.stage = .checking event (rule :: rules))
    (hmatches : matchesRule rule event = true) (hdedup : shouldDeduplicate policy s rule.name = false)
    (htrigger : trigger toText policy s event rule rules id fuel = some s') : Windows policy s' := by
  obtain ⟨engine, -, rfl⟩ := Option.map_eq_some_iff.mp htrigger
  refine ⟨fun name t hmem => ?_, fun name => ?_, fun name => ?_, fun name t hmem => ?_, ?_⟩
  · obtain hold | hnew := List.mem_append.mp hmem
    · exact h.past name t hold
    · obtain ⟨rfl, rfl⟩ := Prod.mk.inj (List.mem_singleton.mp hnew)
      exact Nat.le_refl s.now
  · rw [timesOf_trigger s rule rfl]
    by_cases hname : rule.name = name
    · subst hname
      rw [if_pos rfl, List.getLast?_concat]
      exact Function.update_self ..
    · rw [if_neg hname, ← h.cache name]
      exact Function.update_of_ne (Ne.symm hname) ..
  · rw [timesOf_trigger s rule rfl]
    by_cases hname : rule.name = name
    · subst hname
      rw [if_pos rfl]
      apply (h.spaced rule.name).append
      intro last hlast
      have hpast := h.past _ _ (mem_timesOf.mp (List.mem_of_getLast? hlast))
      rw [shouldDeduplicate, h.cache, hlast] at hdedup
      have hover := of_decide_eq_false hdedup
      rw [Policy.windowMs]
      omega
    · rw [if_neg hname]
      exact h.spaced name
  · obtain ⟨t', hmem', hbounds⟩ := h.suppressed name t hmem
    exact ⟨t', List.mem_append_left _ hmem', hbounds⟩
  · have hcount := h.counted
    rw [hstage, pendingMatches_cons_of_match hmatches] at hcount
    rw [List.length_append, List.length_singleton]
    show s.triggered.length + 1 + s.deduplicated.length + (notify policy event rules s.now).pendingMatches =
      matchCount policy s.received
    rw [notify_pendingMatches]
    omega

theorem Windows.check (h : Windows policy s) (hstage : s.stage = .checking event rules)
    (hcheck : check toText policy s event id fuel rules = some s') : Windows policy s' := by
  have hsame : ∀ stage, SameAlerts s { s with stage } := fun _ => ⟨Nat.le_refl _, rfl, rfl, rfl⟩
  cases rules with
  | nil =>
    cases hcheck
    apply h.of_same (hsame _)
    rw [hstage]
    rfl
  | cons rule rules =>
    rw [AlertLoop.check] at hcheck
    split at hcheck
    · rename_i hmatches
      split at hcheck
      · rename_i hdedup
        cases hcheck
        exact h.suppress hstage hmatches hdedup
      · rename_i hdedup
        exact h.trigger hstage hmatches (Bool.eq_false_iff.mpr hdedup) hcheck
    · rename_i hmatches
      cases hcheck
      apply h.of_same (hsame _)
      rw [hstage, pendingMatches_cons_of_not hmatches]
      rfl

theorem respond_same (s : System) (event : AuditEvent) (rules : List AlertRule) (sending : Sending) (retries : Nat)
    (attempt : Attempt) :
    SameAlerts s (respond s event rules sending retries attempt) ∧
      (respond s event rules sending retries attempt).received = s.received ∧
      (respond s event rules sending retries attempt).stage.pendingMatches = countMatches rules event := by
  have hsame : ∀ stage deliveries, SameAlerts s { s with stage, deliveries } := fun _ _ => ⟨Nat.le_refl _, rfl, rfl, rfl⟩
  cases attempt with
  | success | uncloneable => exact ⟨hsame _ _, rfl, rfl⟩
  | failure =>
    rw [respond]
    split
    · exact ⟨hsame _ _, rfl, rfl⟩
    · exact ⟨hsame _ _, rfl, rfl⟩

theorem Windows.step {e : Event} (h : Windows policy s) (hstep : step toText policy s e = some s') :
    Windows policy s' := by
  cases e with
  | elapse duration =>
    cases hstep
    exact h.of_same ⟨Nat.le_add_right _ _, rfl, rfl, rfl⟩ rfl
  | receive event =>
    simp only [AlertLoop.step] at hstep
    split at hstep
    · rename_i hstage
      obtain ⟨-, heq⟩ := Option.ite_none_right_eq_some.mp hstep
      cases heq
      refine h.of_same ⟨Nat.le_refl _, rfl, rfl, rfl⟩ ?_
      rw [hstage]
      simp [matchCount, Stage.pendingMatches]
      omega
    · cases hstep
  | check id fuel =>
    simp only [AlertLoop.step] at hstep
    split at hstep
    · rename_i hstage
      exact h.check hstage hstep
    · cases hstep
  | respond attempt =>
    simp only [AlertLoop.step] at hstep
    split at hstep
    · rename_i event rules sending webhook hstage hwebhook
      obtain ⟨-, heq⟩ := Option.ite_none_right_eq_some.mp hstep
      cases heq
      obtain ⟨hsame, hreceived, hpending⟩ := respond_same s event rules sending webhook.retries attempt
      apply h.of_same hsame
      rw [hpending, hreceived, hstage]
      rfl
    · cases hstep
  | wake =>
    simp only [AlertLoop.step] at hstep
    split at hstep
    · rename_i hstage
      obtain ⟨-, heq⟩ := Option.ite_none_right_eq_some.mp hstep
      cases heq
      refine h.of_same ⟨Nat.le_refl _, rfl, rfl, rfl⟩ ?_
      rw [hstage]
      rfl
    · cases hstep

theorem windows_new (policy : Policy) (config : AlertConfig) : Windows policy (.new config) where
  past := fun _ _ hmem => absurd hmem List.not_mem_nil
  cache := fun _ => rfl
  spaced := fun _ => Spaced.nil
  suppressed := fun _ _ hmem => absurd hmem List.not_mem_nil
  counted := rfl

theorem windows_of_run {es : List Event} (hrun : (machine toText policy).run (.new config) es = some s) :
    Windows policy s :=
  Machine.run_invariant (fun _ _ _ h hstep => h.step hstep) (windows_new policy config) hrun

/-- In every run of the loop each rule that an event matches raises an alert or is suppressed, within the window of an earlier alert of its name. The alerts of one name are a window apart, so in any stretch of time there are no more of them than fit. -/
theorem alerts_of_run {es : List Event} (hrun : (machine toText policy).run (.new config) es = some s) :
    s.triggered.length + s.deduplicated.length + s.stage.pendingMatches = matchCount policy s.received ∧
      (∀ name t, (name, t) ∈ s.deduplicated →
        ∃ t', (name, t') ∈ s.triggered ∧ t' ≤ t ∧ t < t' + policy.windowMs) ∧
      ∀ name, Spaced policy.windowMs (s.timesOf name) ∧
        ∀ start duration,
          (s.timesOf name).countP (fun t => start ≤ t ∧ t < start + duration) = 0 ∨
            ((s.timesOf name).countP (fun t => start ≤ t ∧ t < start + duration) - 1) * policy.windowMs < duration :=
  ⟨(windows_of_run hrun).counted, (windows_of_run hrun).suppressed, fun name => ⟨(windows_of_run hrun).spaced name,
    ((windows_of_run hrun).spaced name).countP_le⟩⟩

/-- One rule, for clients that are turned away. -/
def denialPolicy (webhook : Option WebhookConfig) : Policy :=
  ⟨true, [⟨"denied", .securityEvent "acl_denied", none⟩], 300, webhook⟩

def denial : AuditEvent := .security "" .aclDenied "denied" none none

/-- The same event twice within the window. -/
theorem alerts_of_run_denials :
    ∃ s, (machine (fun _ => "") (denialPolicy none)).run (.new .default)
        [.receive denial, .check "1" 2, .check "2" 2, .elapse 1000, .receive denial, .check "3" 2] = some s ∧
      s.triggered = [("denied", 0)] ∧ s.deduplicated = [("denied", 1000)] ∧
      s.triggered.length + s.deduplicated.length + s.stage.pendingMatches = matchCount (denialPolicy none) s.received ∧
      ∃ t', ("denied", t') ∈ s.triggered ∧ t' ≤ 1000 ∧ 1000 < t' + (denialPolicy none).windowMs := by
  obtain ⟨s, hrun, htriggered, hdeduplicated⟩ : ∃ s, (machine (fun _ => "") (denialPolicy none)).run (.new .default)
      [.receive denial, .check "1" 2, .check "2" 2, .elapse 1000, .receive denial, .check "3" 2] = some s ∧
        s.triggered = [("denied", 0)] ∧ s.deduplicated = [("denied", 1000)] := ⟨_, rfl, rfl, rfl⟩
  obtain ⟨hcounted, hsuppressed, -⟩ := alerts_of_run hrun
  refine ⟨s, hrun, htriggered, hdeduplicated, hcounted, hsuppressed "denied" 1000 ?_⟩
  rw [hdeduplicated]
  exact List.mem_singleton_self _

/-! ### Deliveries -/

/-- The pauses after the first so many attempts. -/
def totalBackoff (attempts : Nat) : Nat := ((List.range attempts).map fun k => backoffMs (k + 1)).sum

theorem totalBackoff_succ (attempts : Nat) :
    totalBackoff (attempts + 1) = totalBackoff attempts + backoffMs (attempts + 1) := by
  rw [totalBackoff, List.range_succ, List.map_append, List.sum_append]
  simp [totalBackoff]

/-- How an alert was sent. Where no request can be made it is given up without a post. -/
structure Delivery.Complete (webhook : WebhookConfig) (d : Delivery) : Prop where
  attempts_le : d.sending.attempts ≤ max 1 webhook.retries
  posted : webhook.builds = true → 0 < d.sending.attempts ∧ d.last ≠ .uncloneable
  unposted : webhook.builds = false → d.sending.attempts = 0 ∧ d.last = .uncloneable
  exhausted : d.last = .failure → d.sending.attempts = max 1 webhook.retries
  paused : d.sending.start + totalBackoff (d.sending.attempts - 1) ≤ d.finish

/-- What is known of an alert on its way. -/
def Stage.Underway (webhook : WebhookConfig) (now : Nat) : Stage → Prop
  | .sending _ _ alert => alert.attempts < max 1 webhook.retries ∧
      (webhook.builds = false → alert.attempts = 0) ∧ alert.start + totalBackoff alert.attempts ≤ now
  | .sleeping _ _ alert wake => alert.attempts < max 1 webhook.retries ∧ webhook.builds = true ∧
      alert.start + totalBackoff alert.attempts ≤ wake
  | _ => True

def Stage.inFlight : Stage → Nat
  | .sending _ _ _ | .sleeping _ _ _ _ => 1
  | _ => 0

structure Sends (webhook : WebhookConfig) (s : System) : Prop where
  delivered : ∀ d ∈ s.deliveries, d.Complete webhook
  underway : s.stage.Underway webhook s.now
  counted : s.deliveries.length + s.stage.inFlight = s.triggered.length

variable {webhook : WebhookConfig} {sending : Sending}

theorem Stage.Underway.mono {now now' : Nat} (hle : now ≤ now') {stage : Stage} (h : stage.Underway webhook now) :
    stage.Underway webhook now' := by
  cases stage with
  | sending => exact ⟨h.1, h.2.1, Nat.le_trans h.2.2 hle⟩
  | sleeping => exact h
  | receiving | checking => trivial

theorem Sends.finish (h : Sends webhook s) (hstage : s.stage = .sending event rules sending) {sending' : Sending}
    {last : Attempt} (hcomplete : Delivery.Complete webhook ⟨sending', s.now, last⟩) :
    Sends webhook (finish s event rules sending' last) := by
  refine ⟨fun d hmem => ?_, trivial, ?_⟩
  · obtain hold | hnew := List.mem_append.mp hmem
    · exact h.delivered d hold
    · rw [List.mem_singleton.mp hnew]
      exact hcomplete
  · have hcount := h.counted
    rw [hstage] at hcount
    show (s.deliveries ++ [_]).length + 0 = s.triggered.length
    rw [List.length_append, List.length_singleton]
    exact hcount

theorem Sends.finish_posted (h : Sends webhook s) (hstage : s.stage = .sending event rules sending)
    (hbuilds : webhook.builds = true) {last : Attempt} (hlast : last ≠ .uncloneable)
    (hexhausted : last = .failure → sending.attempts + 1 = max 1 webhook.retries) :
    Sends webhook (AlertLoop.finish s event rules ⟨sending.start, sending.attempts + 1⟩ last) := by
  have hunderway := h.underway
  rw [hstage] at hunderway
  obtain ⟨hattempts, -, hpaused⟩ := hunderway
  refine h.finish hstage ⟨hattempts, fun _ => ⟨Nat.succ_pos _, hlast⟩, fun hnot => ?_, hexhausted, hpaused⟩
  rw [hbuilds] at hnot
  cases hnot

theorem Sends.respond (h : Sends webhook s) (hstage : s.stage = .sending event rules sending) (attempt : Attempt)
    (hbuilds : webhook.builds = (attempt != .uncloneable)) :
    Sends webhook (respond s event rules sending webhook.retries attempt) := by
  have hunderway := h.underway
  rw [hstage] at hunderway
  obtain ⟨hattempts, hnone, hpaused⟩ := hunderway
  cases attempt with
  | uncloneable =>
    have hzero : sending.attempts = 0 := hnone hbuilds
    refine h.finish hstage ⟨Nat.le_of_lt hattempts, fun hnot => ?_, fun _ => ⟨hzero, rfl⟩, nofun, ?_⟩
    · rw [hnot] at hbuilds
      cases hbuilds
    · rw [hzero] at hpaused ⊢
      exact hpaused
  | success => exact h.finish_posted hstage hbuilds (by decide) nofun
  | failure =>
    rw [AlertLoop.respond]
    split
    · rename_i hlast
      refine h.finish_posted hstage hbuilds (by decide) fun _ => ?_
      omega
    · rename_i hmore
      refine ⟨h.delivered, ⟨?_, hbuilds, ?_⟩, ?_⟩
      · show sending.attempts + 1 < max 1 webhook.retries
        omega
      · show sending.start + totalBackoff (sending.attempts + 1) ≤ s.now + backoffMs (sending.attempts + 1)
        rw [totalBackoff_succ]
        omega
      · have hcount := h.counted
        rw [hstage] at hcount
        exact hcount

theorem Sends.check (h : Sends webhook s) (hwebhook : policy.webhook = some webhook)
    (hstage : s.stage = .checking event rules) (hcheck : check toText policy s event id fuel rules = some s') :
    Sends webhook s' := by
  have hcount := h.counted
  rw [hstage] at hcount
  cases rules with
  | nil =>
    cases hcheck
    exact ⟨h.delivered, trivial, hcount⟩
  | cons rule rules =>
    rw [AlertLoop.check] at hcheck
    split at hcheck
    · split at hcheck
      · cases hcheck
        exact ⟨h.delivered, trivial, hcount⟩
      · obtain ⟨engine, -, rfl⟩ := Option.map_eq_some_iff.mp hcheck
        refine ⟨h.delivered, ?_, ?_⟩
        · show (notify policy event rules s.now).Underway webhook s.now
          rw [notify, hwebhook]
          exact ⟨by show 0 < max 1 webhook.retries; omega, fun _ => rfl, Nat.le_refl _⟩
        · show s.deliveries.length + (notify policy event rules s.now).inFlight = (s.triggered ++ [_]).length
          rw [notify, hwebhook, List.length_append, List.length_singleton]
          exact congrArg (· + 1) hcount
    · cases hcheck
      exact ⟨h.delivered, trivial, hcount⟩

theorem Sends.step {e : Event} (h : Sends webhook s) (hwebhook : policy.webhook = some webhook)
    (hstep : step toText policy s e = some s') : Sends webhook s' := by
  have hcount := h.counted
  have hunderway := h.underway
  cases e with
  | elapse duration =>
    cases hstep
    exact ⟨h.delivered, hunderway.mono (Nat.le_add_right _ _), hcount⟩
  | receive event =>
    simp only [AlertLoop.step] at hstep
    split at hstep
    · rename_i hstage
      obtain ⟨-, heq⟩ := Option.ite_none_right_eq_some.mp hstep
      cases heq
      rw [hstage] at hcount
      exact ⟨h.delivered, trivial, hcount⟩
    · cases hstep
  | check id fuel =>
    simp only [AlertLoop.step] at hstep
    split at hstep
    · rename_i hstage
      exact h.check hwebhook hstage hstep
    · cases hstep
  | respond attempt =>
    simp only [AlertLoop.step, hwebhook] at hstep
    split at hstep
    · rename_i hstage heq
      cases heq
      obtain ⟨hbuilds, heq⟩ := Option.ite_none_right_eq_some.mp hstep
      cases heq
      exact h.respond hstage attempt hbuilds
    · cases hstep
  | wake =>
    simp only [AlertLoop.step] at hstep
    split at hstep
    · rename_i hstage
      obtain ⟨hwake, heq⟩ := Option.ite_none_right_eq_some.mp hstep
      cases heq
      rw [hstage] at hunderway hcount
      obtain ⟨hattempts, hbuilds, hpaused⟩ := hunderway
      refine ⟨h.delivered, ⟨hattempts, fun hnot => ?_, Nat.le_trans hpaused hwake⟩, hcount⟩
      rw [hbuilds] at hnot
      cases hnot
    · cases hstep

/-- With a webhook every alert of a run is delivered, given up, or on its way. Where its URL makes no request it is given up without a post. Else it is posted at most as often as the retries say, but once where they are 0; it is given up only after that many attempts, and no sooner than the pauses between them take. -/
theorem deliveries_of_run {es : List Event} (hwebhook : policy.webhook = some webhook)
    (hrun : (machine toText policy).run (.new config) es = some s) :
    s.deliveries.length + s.stage.inFlight = s.triggered.length ∧
      ∀ d ∈ s.deliveries, d.Complete webhook := by
  have hsends : Sends webhook s := by
    apply Machine.run_invariant (I := Sends webhook) _ _ hrun
    · exact fun _ _ _ h hstep => h.step hwebhook hstep
    · exact ⟨fun _ hmem => absurd hmem List.not_mem_nil, trivial, rfl⟩
  exact ⟨hsends.counted, hsends.delivered⟩

/-- The webhook takes the alert at the second attempt. -/
theorem deliveries_of_run_retry :
    ∃ s, (machine (fun _ => "") (denialPolicy (some ⟨3, true⟩))).run (.new .default)
        [.receive denial, .check "1" 2, .respond .failure, .elapse 200, .wake, .respond .success] = some s ∧
      s.deliveries = [⟨⟨0, 2⟩, 200, .success⟩] ∧ (∀ d ∈ s.deliveries, d.Complete ⟨3, true⟩) := by
  obtain ⟨s, hrun, hdeliveries⟩ : ∃ s, (machine (fun _ => "") (denialPolicy (some ⟨3, true⟩))).run (.new .default)
      [.receive denial, .check "1" 2, .respond .failure, .elapse 200, .wake, .respond .success] = some s ∧
        s.deliveries = [⟨⟨0, 2⟩, 200, .success⟩] := ⟨_, rfl, rfl⟩
  exact ⟨s, hrun, hdeliveries, (deliveries_of_run rfl hrun).2⟩

end AlertLoop

end Lazydns
