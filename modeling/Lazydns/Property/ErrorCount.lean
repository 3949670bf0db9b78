import Lazydns.Property.EventDelivery
import Lazydns.Property.QueryLog
import Lazydns.Web.MetricsCollector

/-!
# What the dashboard counts as an error

The collector compares the response code of an entry with `NOERROR` and `NXDOMAIN`, the names that `Display` gives, and the entries have the names that `Debug` gives. So each response counts as an error, whatever its code, and there are as many errors as cache hits and misses together. The total is right: the queries that were logged since the collector came, less what it has missed and what is still before it.
-/

namespace Lazydns

open Dns

variable {toText : IpAddr → String} {entry : QueryLogEntry}

/-! ### Response codes in the log -/

theorem Dns.ResponseCode.debug_ne_display (rcode : ResponseCode) :
    rcode.debug ≠ ResponseCode.noError.display ∧ rcode.debug ≠ ResponseCode.nxDomain.display := by
  have hunknown : ∀ (n : Nat) (text : String), text.toList.head? = some 'N' → debugUnknown n ≠ text := by
    intro n text hhead heq
    rw [← heq, debugUnknown, String.toList_append, String.toList_append] at hhead
    exact absurd hhead (by simp)
  cases rcode with
  | unknown value => exact ⟨hunknown _ _ (by decide), hunknown _ _ (by decide)⟩
  | _ => decide

/-- The entry is one that is made of a request. -/
def QueryLogEntry.Logged (toText : IpAddr → String) (entry : QueryLogEntry) : Prop :=
  ∃ timestamp elapsed ctx, logQueryForContext toText timestamp elapsed ctx = some entry

theorem QueryLogEntry.Logged.answered (h : entry.Logged toText) :
    (entry.rcode = none ∧ entry.cached = none) ∨
      ∃ (rcode : ResponseCode) (cached : Bool), entry.rcode = some rcode.debug ∧ entry.cached = some cached := by
  obtain ⟨timestamp, elapsed, ctx, hentry⟩ := h
  obtain ⟨question, -, hdescribes⟩ := logQueryForContext_describes hentry
  cases hresponse : ctx.response with
  | none => exact .inl ⟨by rw [hdescribes.rcode, hresponse]; rfl, by rw [hdescribes.cached, hresponse]; rfl⟩
  | some response =>
    exact .inr ⟨response.rcode, _, by rw [hdescribes.rcode, hresponse]; rfl, by rw [hdescribes.cached, hresponse]; rfl⟩

/-! ### The counters -/

namespace MetricsCollector

structure Counts (entries : List QueryLogEntry) (c : MetricsCollector) : Prop where
  total : c.totalQueries = entries.length
  errors : c.errorResponses = entries.countP fun entry => entry.rcode.isSome
  cache : c.errorResponses = c.cacheHits + c.cacheMisses
  blocked : c.blockedQueries = 0

/-- What is tracked beside the counters leaves them alone. -/
structure SameCounters (c c' : MetricsCollector) : Prop where
  total : c'.totalQueries = c.totalQueries
  hits : c'.cacheHits = c.cacheHits
  misses : c'.cacheMisses = c.cacheMisses
  errors : c'.errorResponses = c.errorResponses
  blocked : c'.blockedQueries = c.blockedQueries

theorem SameCounters.trans {c c' c'' : MetricsCollector} (h : c.SameCounters c') (h' : c'.SameCounters c'') :
    c.SameCounters c'' :=
  ⟨h'.total.trans h.total, h'.hits.trans h.hits, h'.misses.trans h.misses, h'.errors.trans h.errors,
    h'.blocked.trans h.blocked⟩

theorem trackDomain_same (env : Env) (entry : QueryLogEntry) (now : Nat) (c : MetricsCollector) :
    c.SameCounters (c.trackDomain entry env now) := by
  rw [trackDomain]
  split
  · exact ⟨rfl, rfl, rfl, rfl, rfl⟩
  · exact ⟨rfl, rfl, rfl, rfl, rfl⟩

theorem trackClient_same (toText : IpAddr → String) (entry : QueryLogEntry) (now : Nat) (c : MetricsCollector) :
    c.SameCounters (c.trackClient entry toText now) := by
  rw [trackClient]
  split
  · exact ⟨rfl, rfl, rfl, rfl, rfl⟩
  · exact ⟨rfl, rfl, rfl, rfl, rfl⟩

variable {env : Env} {c : MetricsCollector} {entries : List QueryLogEntry}

/-- The counters of the cache and of the errors are the last that change. -/
theorem exists_processQuery (env : Env) (toText : IpAddr → String) (c : MetricsCollector) (entry : QueryLogEntry)
    (now : Nat) :
    ∃ c', ({ c with totalQueries := c.totalQueries + 1 } : MetricsCollector).SameCounters c' ∧
      c.processQuery env toText (entry, now) = (c'.trackCache entry).trackError entry := by
  refine ⟨_, ?_, rfl⟩
  have hqps : ({ c with totalQueries := c.totalQueries + 1 } : MetricsCollector).SameCounters
      (({ c with totalQueries := c.totalQueries + 1 } : MetricsCollector).trackQps now) := ⟨rfl, rfl, rfl, rfl, rfl⟩
  exact (hqps.trans (trackDomain_same env entry now _)).trans (trackClient_same toText entry now _)

theorem trackCache_some {cached : Bool} (h : entry.cached = some cached) (c : MetricsCollector) :
    (c.trackCache entry).cacheHits + (c.trackCache entry).cacheMisses = c.cacheHits + c.cacheMisses + 1 ∧
      (c.trackCache entry).totalQueries = c.totalQueries ∧
      (c.trackCache entry).errorResponses = c.errorResponses ∧
      (c.trackCache entry).blockedQueries = c.blockedQueries := by
  rw [trackCache, h]
  cases cached with
  | true => exact ⟨Nat.add_right_comm _ _ _, rfl, rfl, rfl⟩
  | false => exact ⟨rfl, rfl, rfl, rfl⟩

theorem trackError_debug {rcode : ResponseCode} (h : entry.rcode = some rcode.debug) (c : MetricsCollector) :
    c.trackError entry = { c with errorResponses := c.errorResponses + 1 } := by
  rw [trackError, h]
  exact if_pos rcode.debug_ne_display

theorem Counts.processQuery (h : c.Counts entries) (hlogged : entry.Logged toText) (env : Env) (now : Nat) :
    (c.processQuery env toText (entry, now)).Counts (entries ++ [entry]) := by
  obtain ⟨htotal, herrors, hcache, hblocked⟩ := h
  obtain ⟨c', hsame, hprocess⟩ := exists_processQuery env toText c entry now
  have htotal' : c'.totalQueries = (entries ++ [entry]).length := by
    rw [hsame.total, List.length_append, htotal]
    rfl
  have herrors' : c'.errorResponses = entries.countP fun entry => entry.rcode.isSome := hsame.errors.trans herrors
  have hcache' : c'.errorResponses = c'.cacheHits + c'.cacheMisses := by
    rw [hsame.errors, hsame.hits, hsame.misses]
    exact hcache
  have hblocked' : c'.blockedQueries = 0 := hsame.blocked.trans hblocked
  rw [hprocess]
  obtain ⟨hrcode, hcached⟩ | ⟨rcode, cached, hrcode, hcached⟩ := hlogged.answered
  · simp only [trackCache, hcached, trackError, hrcode]
    refine ⟨htotal', ?_, hcache', hblocked'⟩
    simp [herrors', hrcode]
  · obtain ⟨hmore, htotal₁, herrors₁, hblocked₁⟩ := trackCache_some hcached c'
    rw [trackError_debug hrcode]
    refine ⟨htotal₁.trans htotal', ?_, ?_, hblocked₁.trans hblocked'⟩
    · simp [herrors₁, herrors', hrcode]
    · show (c'.trackCache entry).errorResponses + 1 = (c'.trackCache entry).cacheHits + (c'.trackCache entry).cacheMisses
      omega

theorem counts_run {received : List (QueryLogEntry × Nat)} (hlogged : ∀ entry ∈ received.map Prod.fst, entry.Logged toText)
    (hcounts : c.Counts entries) : (c.run env toText received).Counts (entries ++ received.map Prod.fst) := by
  induction received generalizing c entries with
  | nil =>
    rw [List.map_nil, List.append_nil]
    exact hcounts
  | cons first received ih =>
    obtain ⟨entry, now⟩ := first
    have hfirst := hcounts.processQuery (hlogged entry List.mem_cons_self) env now
    have hrest := ih (fun entry hmem => hlogged entry (List.mem_cons_of_mem _ hmem)) hfirst
    rw [List.append_assoc] at hrest
    exact hrest

end MetricsCollector

/-! ### What comes from the bus -/

namespace AuditEventBus

variable {α : Type} {P : α → Prop} {stats stats' : EventBusStats} {c c' : Channel α}

/-- Everything on the channel, and everything on its way to it, is of a kind. -/
def Channel.Carries (P : α → Prop) (c : Channel α) : Prop :=
  (∀ entry ∈ c.sent, P entry) ∧ ∀ entry, .sending entry ∈ c.calls → P entry

theorem Channel.Carries.step {e : Channel.Event α} (h : c.Carries P) (he : ∀ entry, e = .publish entry → P entry)
    (hstep : c.step stats e = some (stats', c')) : c'.Carries P := by
  obtain ⟨hsent, hcalls⟩ := h
  cases e with
  | publish entry =>
    cases hstep
    refine ⟨hsent, fun entry' hmem => ?_⟩
    obtain hold | hnew := List.mem_append.mp hmem
    · exact hcalls entry' hold
    · cases List.mem_singleton.mp hnew
      exact he entry rfl
  | call i =>
    simp only [Channel.step] at hstep
    split at hstep
    · rename_i call hcall
      have hrest : ∀ (next : Option (Publishing α)), (∀ call', next = some call' → ∀ entry, call' ≠ .sending entry) →
          ∀ entry, .sending entry ∈ Slots.replace c.calls i next → P entry := by
        intro next hnext entry hmem
        rw [(Slots.replace_perm hcall next).mem_iff] at hmem
        obtain hmem | hmem := List.mem_append.mp hmem
        · exact absurd rfl (hnext _ (Option.mem_toList.mp hmem) entry)
        · exact hcalls entry (List.mem_of_mem_eraseIdx hmem)
      cases call with
      | sending entry =>
        simp only [Channel.publish] at hstep
        split at hstep
        · cases hstep
          exact ⟨hsent, hrest none fun _ heq => by cases heq⟩
        · cases hstep
          refine ⟨fun entry' hmem => ?_, hrest (some .counting) fun _ heq entry' hsending => by cases heq; cases hsending⟩
          obtain hold | hnew := List.mem_append.mp hmem
          · exact hsent entry' hold
          · cases List.mem_singleton.mp hnew
            exact hcalls entry (List.mem_of_getElem? hcall)
      | counting =>
        cases hstep
        exact ⟨hsent, hrest (some .logging) fun _ heq entry' hsending => by cases heq; cases hsending⟩
      | logging =>
        cases hstep
        exact ⟨hsent, hrest none fun _ heq => by cases heq⟩
    · cases hstep
  | subscribe =>
    cases hstep
    exact ⟨hsent, hcalls⟩
  | advance j =>
    simp only [Channel.step] at hstep
    split at hstep
    · obtain ⟨_, -, heq⟩ := Option.map_eq_some_iff.mp hstep
      cases heq
      exact ⟨hsent, hcalls⟩
    · cases hstep
  | recv j | drop j =>
    simp only [Channel.step] at hstep
    split at hstep
    · obtain ⟨-, heq⟩ := Option.ite_none_right_eq_some.mp hstep
      cases heq
      exact ⟨hsent, hcalls⟩
    · cases hstep

/-- What was sent was published in a step of the run. -/
theorem sent_of_run {P : QueryLogEntry → Prop} {query : Broadcast QueryLogEntry} {security : Broadcast AuditEvent}
    {es : List Event} {t : System} (hes : ∀ entry, .query (.publish entry) ∈ es → P entry)
    (hrun : machine.run (.new query security) es = some t) : ∀ entry ∈ t.query.sent, P entry := by
  have hcarries : t.query.Carries P := by
    have heach : machine.Each (fun _ e _ => ∀ entry, e = .query (.publish entry) → P entry)
        (.new query security) es := by
      apply Machine.each_of_forall
      intro e hmem _ _ entry heq
      rw [heq] at hmem
      exact hes entry hmem
    refine Machine.run_keeps (I := fun s => s.query.Carries P) (fun s e s' hs he hstep => ?_)
      ⟨List.forall_mem_nil _, fun _ hmem => absurd hmem List.not_mem_nil⟩ heach hrun
    obtain ⟨event, rfl, hstep, -, -⟩ | ⟨event, -, -, hother, -⟩ := step_cases hstep
    · exact hs.step (fun entry heq => he entry (heq ▸ rfl)) hstep
    · rw [hother]
      exact hs
  exact hcarries.1

end AuditEventBus

namespace MetricsCollector

open AuditEventBus

/-- In every run of the bus whose query log entries are made of requests, a collector that has processed all it has received has as many errors as it has received entries with a response, which are its cache hits and misses; and its total, what it has missed and what is still before it are all the queries that were logged since it came. -/
theorem counts_of_run {query : Broadcast QueryLogEntry} {security : Broadcast AuditEvent}
    {es : List AuditEventBus.Event} {t : System}
    (hes : ∀ entry, .query (.publish entry) ∈ es → entry.Logged toText)
    (hrun : machine.run (.new query security) es = some t) (env : Env) (tracking : Tracking)
    (windowSecs : Nat) (topN : UInt64) {subscriber : Subscriber QueryLogEntry} (hmem : subscriber ∈ t.query.subscribers)
    {received : List (QueryLogEntry × Nat)} (hreceived : received.map Prod.fst = subscriber.receiver.received) :
    let c := (new tracking windowSecs topN).run env toText received
    c.errorResponses = subscriber.receiver.received.countP (fun entry => entry.rcode.isSome) ∧
      c.errorResponses = c.cacheHits + c.cacheMisses ∧ c.blockedQueries = 0 ∧
      c.totalQueries + subscriber.receiver.missed + (subscriber.receiver.pending t.query.sent).length =
        (subscriber.receiver.published t.query.sent).length := by
  have hsent := sent_of_run hes hrun
  have hfollows := (followed_of_run hrun).1.2 subscriber hmem
  have hlogged : ∀ entry ∈ received.map Prod.fst, entry.Logged toText := by
    intro entry hentry
    rw [hreceived] at hentry
    have hpublished := hfollows.order.subset (List.mem_append_left _ hentry)
    exact hsent entry (List.mem_of_mem_drop hpublished)
  have hcounts : ((new tracking windowSecs topN).run env toText received).Counts ([] ++ received.map Prod.fst) :=
    counts_run hlogged ⟨rfl, rfl, rfl, rfl⟩
  rw [List.nil_append, hreceived] at hcounts
  have haccount := hfollows.account
  refine ⟨hcounts.errors, hcounts.cache, hcounts.blocked, ?_⟩
  rw [hcounts.total]
  omega

/-- A query that is answered with NOERROR. -/
def answeredContext : Context := (Context.new (.ask 7 "a." .A)).setResponse (some Message.new)

/-- Someone subscribes, and an entry is published and received. -/
def receivingRun (entry : QueryLogEntry) : List AuditEventBus.Event :=
  [.subscribe, .advance 0, .advance 0, .advance 0, .publish entry, .call 0, .recv 0].map .query

theorem counts_of_run_noError :
    ∃ entry t subscriber, logQueryForContext (fun _ => "") "" id answeredContext = some entry ∧
      entry.rcode = some "NoError" ∧ machine.run (.new (.keeping 1) (.keeping 1)) (receivingRun entry) = some t ∧
      t.query.subscribers = [subscriber] ∧ subscriber.receiver.received = [entry] ∧
      ((new ⟨true, true⟩ 300 10).run (.answering (.ok Message.new)) (fun _ => "") [(entry, 0)]).errorResponses = 1 := by
  obtain ⟨entry, hentry, hrcode⟩ : ∃ entry, logQueryForContext (fun _ => "") "" id answeredContext = some entry ∧
      entry.rcode = some "NoError" := ⟨_, rfl, rfl⟩
  obtain ⟨t, subscriber, hrun, hsubscribers, hreceived⟩ : ∃ t subscriber,
      machine.run (.new (.keeping 1) (.keeping 1)) (receivingRun entry) = some t ∧ t.query.subscribers = [subscriber] ∧
        subscriber.receiver.received = [entry] := ⟨_, _, rfl, rfl, rfl⟩
  have hes : ∀ entry', .query (.publish entry') ∈ receivingRun entry → entry'.Logged fun _ => "" := by
    intro entry' hmem
    simp only [receivingRun, List.map_cons, List.map_nil, List.mem_cons, Event.query.injEq, reduceCtorEq, false_or,
      Channel.Event.publish.injEq, List.not_mem_nil, or_false] at hmem
    rw [hmem]
    exact ⟨_, _, _, hentry⟩
  have hmem : subscriber ∈ t.query.subscribers := by
    rw [hsubscribers]
    exact List.mem_singleton_self subscriber
  have hprocessed : [(entry, 0)].map Prod.fst = subscriber.receiver.received := hreceived.symm
  have hcounts := (counts_of_run hes hrun (.answering (.ok Message.new)) ⟨true, true⟩ 300 10 hmem hprocessed).1
  rw [hreceived, List.countP_singleton, hrcode] at hcounts
  exact ⟨entry, t, subscriber, hentry, hrcode, hrun, hsubscribers, hreceived, hcounts⟩

end MetricsCollector

end Lazydns
