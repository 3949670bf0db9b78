import Lazydns.Server.Calls
import Lazydns.Server.Service

/-!
# Denial is final

Once `query_acl` or `rate_limit` has refused a request, nothing that is run for it later should touch the refusal or ask an upstream. Most plugins that answer check for a response first; those that do not are listed by `overrides`. The refusal survives exactly if none of them is called after the denial.
-/

namespace Lazydns

open Dns

/-! ### Refusals -/

def TraceEvent.isDenial : TraceEvent → Bool
  | aclDenied _ | rateLimitExceeded _ => true
  | _ => false

def Context.Denied (ctx : Context) : Prop := ∃ e ∈ ctx.trace, e.isDenial

instance (ctx : Context) : Decidable ctx.Denied := inferInstanceAs (Decidable (∃ e ∈ ctx.trace, _))

structure Dns.Message.IsRefusal (m : Message) : Prop where
  rcode : m.rcode = .refused
  answers : m.answers = []
  authority : m.authority = []
  additional : m.additional = []

def Context.Refused (ctx : Context) : Prop := ∃ m, ctx.response = some m ∧ m.IsRefusal

theorem Context.refused_setRefused (ctx : Context) : ctx.setRefused.Refused :=
  ⟨_, rfl, rfl, rfl, rfl, rfl⟩

theorem Context.Refused.of_response {ctx ctx' : Context} (h : ctx.Refused)
    (hresponse : ctx'.response = ctx.response) : ctx'.Refused := by
  obtain ⟨m, hm, hrefusal⟩ := h
  exact ⟨m, hresponse.trans hm, hrefusal⟩

theorem Context.Refused.hasResponse {ctx : Context} (h : ctx.Refused) : ctx.hasResponse = true := by
  obtain ⟨m, hm, -⟩ := h
  rw [Context.hasResponse, hm]
  rfl

theorem Context.Refused.edit {ctx : Context} (h : ctx.Refused) {f : Message → Message}
    (hf : ∀ m : Message, m.IsRefusal → (f m).IsRefusal) : (editResponse f ctx).Refused := by
  obtain ⟨m, hm, hrefusal⟩ := h
  refine ⟨f m, ?_, hf m hrefusal⟩
  rw [editResponse, Context.setResponse_response, hm]
  rfl

/-! ### The plugins that do not look -/

def LocalPlugin.overrides (env : Env) (ctx : Context) : LocalPlugin → Bool
  | .reject rcode => ResponseCode.fromU8 rcode ≠ .refused
  | .blackhole p => ((p.makeResponseForA ctx.request).or (p.makeResponseForAaaa ctx.request)).isSome
  | .arbitrary p =>
    ctx.request.questions.head?.any fun q => (p.map (env.toLowercase (trimEndDots q.qname))).isSome
  | .dropResp => true
  | _ => false

/-- Whether a saved name answers the request's question. -/
def ReverseLookupPlugin.hasAnswer (env : Env) (now : Nat) (ctx : Context) (p : ReverseLookupPlugin) :
    Bool :=
  ctx.request.questions.head?.any fun q =>
    p.handlePtr && q.qtype == .PTR &&
      (parsePtr env q.qname).any fun ip => (p.lookup now ip).1.isSome

/-- A call that replaces or removes whatever response there is. -/
def Call.overrides (env : Env) (c : Call) : Bool :=
  match c.leaf with
  | .plain p => p.overrides env c.ctx
  | .reverseLookup i => (c.world.reverses i).hasAnswer env c.world.now c.ctx
  | _ => false

/-- The call finds a refusal, leaves a refusal, and sends no query. -/
structure Call.KeepsRefusal (env : Env) (c : Call) : Prop where
  found : c.ctx.Refused
  left : (c.result env).1.2.Refused
  silent : (c.result env).2.exchanges = c.world.exchanges

/-! ### One call -/

theorem Context.denied_record {ctx : Context} {e : TraceEvent} (he : e.isDenial = false) :
    (ctx.record e).Denied ↔ ctx.Denied := by
  simp only [Denied, record_trace, List.mem_append, List.mem_singleton]
  constructor
  · rintro ⟨e', he' | rfl, hdenial⟩
    · exact ⟨e', he', hdenial⟩
    · rw [he] at hdenial
      cases hdenial
  · rintro ⟨e', he', hdenial⟩
    exact ⟨e', .inl he', hdenial⟩

theorem Context.denied_of_trace {ctx ctx' : Context} (h : ctx'.trace = ctx.trace) :
    ctx'.Denied ↔ ctx.Denied := by rw [Denied, Denied, h]

/-- What a plugin may do to a context: after a denial there was one before, or a refusal is there now; a refusal stays unless the plugin overrides it, and then it is gone. -/
structure Effect (overrides : Bool) (ctx ctx' : Context) : Prop where
  denied : ctx'.Denied → ctx.Denied ∨ ctx'.Refused
  kept : overrides = false → ctx.Refused → ctx'.Refused
  replaced : overrides = true → ¬ ctx'.Refused

namespace Effect

variable {ctx ctx' : Context}

theorem of_response (hresponse : ctx'.response = ctx.response) (htrace : ctx'.Denied → ctx.Denied) :
    Effect false ctx ctx' where
  denied := fun h => .inl (htrace h)
  kept := fun _ h => h.of_response hresponse
  replaced := fun h => nomatch h

theorem of_same (hresponse : ctx'.response = ctx.response) (htrace : ctx'.trace = ctx.trace) :
    Effect false ctx ctx' := of_response hresponse (Context.denied_of_trace htrace).mp

theorem refl (ctx : Context) : Effect false ctx ctx := of_same rfl rfl

theorem of_refused (h : ctx'.Refused) : Effect false ctx ctx' where
  denied := fun _ => .inr h
  kept := fun _ _ => h
  replaced := fun h => nomatch h

theorem of_edit {f : Message → Message} (hf : ∀ m : Message, m.IsRefusal → (f m).IsRefusal) :
    Effect false ctx (editResponse f ctx) where
  denied := fun h => .inl ((Context.denied_of_trace rfl).mp h)
  kept := fun _ h => h.edit hf
  replaced := fun h => nomatch h

theorem of_override (hdenied : ctx'.Denied → ctx.Denied) (h : ¬ ctx'.Refused) :
    Effect true ctx ctx' where
  denied := fun h => .inl (hdenied h)
  kept := fun h => nomatch h
  replaced := fun _ => h

end Effect

theorem not_refused_of_response {ctx : Context} {m : Message} (h : ctx.response = some m)
    (hrcode : m.rcode ≠ .refused) : ¬ ctx.Refused := by
  rintro ⟨m', hm', hrefusal⟩
  rw [h] at hm'
  cases hm'
  exact hrcode hrefusal.rcode

theorem effect_answerFirst {ctx : Context} (q : Question) {reply : Message}
    (hrcode : reply.rcode = .noError) : Effect true ctx (answerFirst ctx q reply) := by
  refine .of_override (fun h => ?_) (not_refused_of_response rfl (by rw [hrcode]; decide))
  rw [answerFirst] at h
  split at h
  · exact h
  · exact (Context.denied_record rfl).mp h

theorem BlackholePlugin.rcode_of_makeResponse {rtype : RecordType} {data : List RData}
    {req reply : Message} (h : makeResponse rtype data req = some reply) : reply.rcode = .noError := by
  rw [makeResponse] at h
  split at h
  · split at h
    · cases h
    · cases h
      rfl
  · cases h

theorem withoutType_isRefusal (rtype : RecordType) {m : Message} (h : m.IsRefusal) :
    (withoutType rtype m).IsRefusal where
  rcode := h.rcode
  answers := by simp [withoutType, h.answers]
  authority := h.authority
  additional := by simp [withoutType, h.additional]

theorem DualSelectorPlugin.select_isRefusal (preference : IpPreference) {m : Message}
    (h : m.IsRefusal) : (select preference m).IsRefusal := by
  have hkeep : ∀ rtype : RecordType,
      ({ m with answers := m.answers.filter (·.rtype ≠ rtype) } : Message).IsRefusal :=
    fun rtype => ⟨h.rcode, by simp [h.answers], h.authority, h.additional⟩
  cases preference with
  | ipv4 => exact hkeep _
  | ipv6 => exact hkeep _
  | ipv4PreferIpv6Fallback =>
    rw [select]
    split
    · exact hkeep _
    · exact h
  | ipv6PreferIpv4Fallback =>
    rw [select]
    split
    · exact hkeep _
    · exact h
  | both => exact h

theorem TtlPlugin.apply_isRefusal (p : TtlPlugin) {m : Message} (h : m.IsRefusal) :
    (p.apply m).IsRefusal where
  rcode := h.rcode
  answers := by simp [apply, Message.mapRecords, h.answers]
  authority := by simp [apply, Message.mapRecords, h.authority]
  additional := by simp [apply, Message.mapRecords, h.additional]

theorem RedirectPlugin.execute_effect (env : Env) (p : RedirectPlugin) (ctx : Context) :
    Effect false ctx (p.execute env ctx) := by
  rw [execute]
  dsimp only
  split
  · exact .of_same rfl rfl
  · exact .of_response rfl fun h => (Context.denied_record (e := .renamed) rfl).mp h

theorem QueryAclPlugin.execute_effect (p : QueryAclPlugin) (ctx : Context) :
    Effect false ctx (p.execute ctx) := by
  rw [execute]
  split
  · exact .refl ctx
  · exact .of_refused (Context.refused_setRefused _)

theorem BlackholePlugin.execute_effect (env : Env) (p : BlackholePlugin) (ctx : Context) :
    Effect ((LocalPlugin.blackhole p).overrides env ctx) ctx (p.execute ctx) := by
  rw [LocalPlugin.overrides, execute]
  cases hreply : (p.makeResponseForA ctx.request).or (p.makeResponseForAaaa ctx.request) with
  | none => exact .refl ctx
  | some reply =>
    have hrcode : reply.rcode = .noError := by
      rcases Option.or_eq_some_iff.mp hreply with hA | ⟨-, hAaaa⟩
      · exact rcode_of_makeResponse hA
      · exact rcode_of_makeResponse hAaaa
    refine .of_override (Context.denied_of_trace rfl).mp (not_refused_of_response rfl ?_)
    rw [hrcode]
    decide

theorem ArbitraryPlugin.execute_effect (env : Env) (p : ArbitraryPlugin) (ctx : Context) :
    Effect ((LocalPlugin.arbitrary p).overrides env ctx) ctx (p.execute env ctx) := by
  rw [LocalPlugin.overrides, execute]
  cases ctx.request.questions.head? with
  | none => exact .refl ctx
  | some q =>
    simp only [Option.any_some]
    cases p.map (env.toLowercase (trimEndDots q.qname)) with
    | none => exact .refl ctx
    | some rrs => exact effect_answerFirst q rfl

theorem HostsPlugin.execute_effect (env : Env) (p : HostsPlugin) (ctx : Context) :
    Effect false ctx (p.execute env ctx) where
  denied := fun h => .inl (by
    revert h
    rw [execute]
    split
    · exact id
    · split
      · exact id
      · rename_i q _
        split
        · exact id
        · split
          · intro h
            rw [answerFirst] at h
            split at h
            · exact h
            · exact (Context.denied_record rfl).mp h
          · exact id)
  kept := fun _ h => by
    rw [execute, if_pos h.hasResponse]
    exact h
  replaced := fun h => nomatch h

theorem LocalPlugin.execute_effect (env : Env) (p : LocalPlugin) (ctx : Context) :
    Effect (p.overrides env ctx) ctx (p.execute env ctx) := by
  cases p with
  | reject rcode =>
    by_cases hrcode : ResponseCode.fromU8 rcode = .refused
    · have hfalse : (reject rcode).overrides env ctx = false := by simp [overrides, hrcode]
      rw [hfalse]
      exact .of_refused ⟨_, rfl, hrcode, rfl, rfl, rfl⟩
    · have htrue : (reject rcode).overrides env ctx = true := by simp [overrides, hrcode]
      rw [htrue]
      exact .of_override (Context.denied_of_trace rfl).mp (not_refused_of_response rfl hrcode)
  | queryAcl p => exact p.execute_effect ctx
  | blackhole p => exact p.execute_effect env ctx
  | arbitrary p => exact p.execute_effect env ctx
  | hosts p => exact p.execute_effect env ctx
  | redirect p => exact p.execute_effect env ctx
  | ttl p => exact .of_edit fun _ h => p.apply_isRefusal h
  | preferIpv4 => exact .of_edit fun _ h => withoutType_isRefusal _ h
  | preferIpv6 => exact .of_edit fun _ h => withoutType_isRefusal _ h
  | dualSelector preference => exact .of_edit fun _ h => DualSelectorPlugin.select_isRefusal _ h
  | dropResp =>
    refine .of_override (Context.denied_of_trace rfl).mp ?_
    rintro ⟨m, hm, -⟩
    cases hm
  | _ => exact .of_same (execute_annotates env rfl ctx).response (execute_annotates env rfl ctx).trace

/-! ### Plugins with shared state -/

theorem CachePlugin.execute_effect (env : Env) (now : Nat) (ctx : Context) (c : CachePlugin) :
    Effect false ctx (c.execute env now ctx).1 := by
  rw [execute]
  cases makeKey env ctx.request with
  | none => exact .refl ctx
  | some key =>
    dsimp only
    split
    · exact .refl ctx
    · split
      · rename_i hresponse
        have htrace : (c.tryServeFromCache now key ctx).1.trace = ctx.trace := by
          obtain ⟨-, hmark | ⟨entry, ttl, -, hserved⟩⟩ := tryServeFromCache_cases now key ctx c
          · rw [hmark]
            rfl
          · rw [hserved]
            rfl
        refine ⟨fun h => .inl ((Context.denied_of_trace htrace).mp h), fun _ h => ?_, by rintro ⟨⟩⟩
        have hsome := h.hasResponse
        rw [Context.hasResponse, Option.isNone_iff_eq_none.mp hresponse] at hsome
        cases hsome
      · exact .refl ctx

theorem RateLimitPlugin.execute_effect (now : Nat) (ctx : Context) (p : RateLimitPlugin) :
    Effect false ctx (p.execute now ctx).1 := by
  rw [execute]
  split
  · exact .refl ctx
  · rename_i client _
    split
    · exact .of_refused ((ctx.record (.rateLimitExceeded client)).refused_setRefused.of_response rfl)
    · exact .refl ctx

theorem DomainValidatorPlugin.execute_effect (ctx : Context) (p : DomainValidatorPlugin) :
    Effect false ctx (p.execute ctx).1 := by
  have hresult : ∀ result, Effect false ctx (handleResult result ctx) := by
    intro result
    cases result with
    | valid => exact .refl ctx
    | invalid reason => exact .of_refused ctx.refused_setRefused
  rw [execute]
  dsimp only
  split <;> exact hresult _

theorem ReverseLookupPlugin.execute_effect (env : Env) (now : Nat) (ctx : Context)
    (p : ReverseLookupPlugin) :
    Effect (p.hasAnswer env now ctx) ctx (p.execute env now ctx).1 := by
  rw [hasAnswer, execute]
  cases ctx.request.questions.head? with
  | none => exact .refl ctx
  | some q =>
    simp only [Option.any_some]
    cases hptr : p.handlePtr && q.qtype == .PTR with
    | false => exact .refl ctx
    | true =>
      cases parsePtr env q.qname with
      | none => exact .refl ctx
      | some ip =>
        simp only [Option.any_some, Bool.true_and, if_true]
        cases hlookup : p.lookup now ip with
        | mk name p' =>
          cases name with
          | none => exact .refl ctx
          | some fqdn => exact effect_answerFirst q rfl

theorem ForwardPlugin.executeSequential_trace (env : Env) (i : Nat) (request : Message) (ctx : Context) :
    ∀ (rounds : Nat) (lastError : Option Error),
      (executeSequential env i request rounds lastError ctx).Within (fun _ => True) (fun _ _ => True)
        (fun ctx' => ctx'.trace = ctx.trace) (fun _ => True) := by
  intro rounds
  induction rounds with
  | zero => exact fun _ => Run.within_fail rfl trivial
  | succ rounds ih =>
    intro lastError
    refine Proc.Within.bind (Q := fun _ => True)
      (Proc.within_atomic.mpr fun _ _ => ⟨trivial, trivial⟩) fun r _ => ?_
    cases r with
    | ok response => exact @Run.within_done _ _ (fun ctx' => ctx'.trace = ctx.trace) _ _ rfl
    | error e => exact ih _

theorem ForwardPlugin.execute_trace (env : Env) (i : Nat) (ctx : Context) :
    (execute env i ctx).Within (fun _ => True) (fun _ _ => True) (fun ctx' => ctx'.trace = ctx.trace)
      (fun _ => True) := by
  rw [execute]
  split
  · exact Run.within_done rfl
  · refine Proc.Within.bind (Q := fun _ => True)
      (Proc.within_atomic.mpr fun _ _ => ⟨trivial, trivial⟩) fun p _ => ?_
    refine Proc.Within.bind (Q := fun _ => True) ?_ fun r _ => ?_
    · rw [race]
      split
      · exact Proc.within_atomic.mpr fun _ _ => ⟨trivial, trivial⟩
      · trivial
    · cases r with
      | some response => exact @Run.within_done _ _ (fun ctx' => ctx'.trace = ctx.trace) _ _ rfl
      | none => exact executeSequential_trace env i _ ctx _ _

theorem ForwardPlugin.execute_of_response (env : Env) (i : Nat) {ctx : Context}
    (h : ctx.hasResponse = true) : execute env i ctx = Run.done ctx := by
  rw [execute, if_pos h]

theorem Call.result_effect (env : Env) (c : Call) :
    Effect (c.overrides env) c.ctx (c.result env).1.2 := by
  obtain ⟨l, ctx, w⟩ := c
  cases l with
  | plain p => exact p.execute_effect env ctx
  | cache i => exact (w.caches i).execute_effect env w.now ctx
  | rateLimit i => exact (w.limiters i).execute_effect w.now ctx
  | domainValidator i => exact (w.validators i).execute_effect ctx
  | reverseLookup i => exact (w.reverses i).execute_effect env w.now ctx
  | forward i =>
    have htrace := (Proc.Within.run (ForwardPlugin.execute_trace env i ctx) (fun _ _ _ _ => trivial)
      (s := w) trivial).1.1
    refine ⟨fun h => .inl ((Context.denied_of_trace htrace).mp h), fun _ h => ?_, by rintro ⟨⟩⟩
    have hdone := ForwardPlugin.execute_of_response env i h.hasResponse
    rw [result, Leaf.execute, hdone]
    exact h
  | sleep duration => exact .refl ctx
  | downloader => exact .refl ctx

/-- Only `forward` asks an upstream, and not once there is a response. -/
theorem Call.result_silent (env : Env) {c : Call} (h : c.ctx.Refused) :
    (c.result env).2.exchanges = c.world.exchanges := by
  obtain ⟨l, ctx, w⟩ := c
  cases l with
  | forward i =>
    have hdone := ForwardPlugin.execute_of_response env i h.hasResponse
    rw [result, Leaf.execute, hdone]
    rfl
  | _ => rfl

/-- A call that finds a refusal keeps it exactly if it is none of those that override. -/
theorem Call.keepsRefusal_iff (env : Env) {c : Call} (h : c.ctx.Refused) :
    c.KeepsRefusal env ↔ c.overrides env = false := by
  have heffect := c.result_effect env
  constructor
  · intro hkeeps
    by_contra hoverrides
    exact heffect.replaced (Bool.not_eq_false _ ▸ hoverrides) hkeeps.left
  · intro hoverrides
    exact ⟨h, heffect.kept hoverrides h, c.result_silent env h⟩

/-! ### A whole request -/

/-- A context after a denial holds a refusal. -/
def RefusedIfDenied (ctx : Context) : Prop := ctx.Denied → ctx.Refused

theorem controlFree_refusedIfDenied : ControlFree RefusedIfDenied where
  record := fun _ _ _ h hdenied => h ((Context.denied_record rfl).mp hdenied)
  setFlag := fun _ _ h => h
  remove := fun _ _ _ h => h

/-- Denial is final for a request handled from a state: every plugin that is run once it is denied finds the refusal, leaves it and sends no query, from then on no query is sent at all, and the response that the handler returns, if it returns one, is a refusal. -/
structure DenialFinal (env : Env) (reg : Registry) (fuel : Nat) (entry : String) (req : RequestContext)
    (w : World) : Prop where
  calls : ∀ c ∈ PluginHandler.calls env reg fuel entry req w, c.ctx.Denied → c.KeepsRefusal env
  silent : ∀ before c after, PluginHandler.calls env reg fuel entry req w = before ++ c :: after →
    (∀ c' ∈ c :: after, c'.ctx.Denied) →
      ((PluginHandler.process env reg fuel entry req).run w).2.exchanges = c.world.exchanges
  response : ((PluginHandler.process env reg fuel entry req).run w).1.2.Denied →
    ∀ m, ((PluginHandler.handle env reg fuel entry req).run w).1 = .ok m → m.IsRefusal

theorem Sent.eq_of_silent {env : Env} {n n' : Nat} {calls : List Call} (h : Sent env n calls n')
    (hsilent : ∀ c ∈ calls, (c.result env).2.exchanges = c.world.exchanges) : n' = n := by
  induction calls generalizing n with
  | nil => exact h
  | cons c calls ih =>
    have hrest := ih h.2 fun c' hc' => hsilent c' (List.mem_cons_of_mem _ hc')
    rw [hrest, hsilent c List.mem_cons_self, h.1]

/-- For every pipeline, request and state, denial is final exactly if no plugin called after it overrides the response: no `reject` with another code, no `drop_resp`, and no `black_hole`, `arbitrary` or `reverse_lookup` that has an answer for the request. -/
theorem denialFinal_iff (env : Env) (reg : Registry) (fuel : Nat) (entry : String) (req : RequestContext)
    (w : World) :
    DenialFinal env reg fuel entry req w ↔
      ∀ c ∈ PluginHandler.calls env reg fuel entry req w, c.ctx.Denied → c.overrides env = false := by
  constructor
  · intro h c hc hdenied
    have hkeeps := h.calls c hc hdenied
    exact (Call.keepsRefusal_iff env hkeeps.found).mp hkeeps
  · intro h
    have hinit : RefusedIfDenied (PluginHandler.initialContext w.now entry req) := by
      rintro ⟨e, he, -⟩
      rw [PluginHandler.initialContext_trace] at he
      cases he
    obtain ⟨hcalls, hend⟩ := PluginHandler.calls_keep env reg fuel entry req w
      (K := fun c => c.ctx.Denied → c.overrides env = false) controlFree_refusedIfDenied
      (fun c hJ hK hdenied => by
        have heffect := c.result_effect env
        rcases heffect.denied hdenied with hbefore | hrefused
        · exact heffect.kept (hK hbefore) (hJ hbefore)
        · exact hrefused) hinit h
    have hkeeps : ∀ c ∈ PluginHandler.calls env reg fuel entry req w, c.ctx.Denied →
        c.KeepsRefusal env := fun c hc hdenied =>
      (Call.keepsRefusal_iff env (hcalls c hc hdenied)).mpr (h c hc hdenied)
    refine ⟨hkeeps, fun before c after hsplit hdenied => ?_, fun hdenied m hm => ?_⟩
    · have hsent := PluginHandler.calls_sent env reg fuel entry req w
      rw [hsplit] at hsent
      obtain ⟨k, -, hsent⟩ := Sent.of_append hsent
      refine (Sent.eq_of_silent hsent fun c' hc' => (hkeeps c' ?_ (hdenied c' hc')).silent).trans
        hsent.1.symm
      rw [hsplit]
      exact List.mem_append_right _ hc'
    · obtain ⟨m', hm', hrefusal⟩ := hend hdenied
      rw [PluginHandler.handle_run] at hm
      cases hresult : ((PluginHandler.process env reg fuel entry req).run w).1.1 with
      | error stop =>
        rw [hresult] at hm
        cases hm
      | ok u =>
        rw [hresult] at hm
        cases hm
        rw [PluginHandler.finish, hm', Option.getD_some]
        exact ⟨hrefusal.rcode, hrefusal.answers, hrefusal.authority, hrefusal.additional⟩

/-- An access list that denies everyone, and after it a plugin with an address for every name. -/
def Registry.denyThenAnswer : Registry :=
  .ofList [("main", .sequence none [.exec (.leaf (.plain (.queryAcl ⟨[], .deny⟩))),
    .exec (.leaf (.plain (.arbitrary ⟨fun _ => some [⟨"a.", .A, .IN, 300, .A 1⟩]⟩)))])]

/-- The denied client gets the address. -/
theorem denial_overridden : ¬ DenialFinal (.answering (.ok Message.new)) .denyThenAnswer 4 "main"
    (.new (.ask 1 "a." .A) .udp) World.fresh := by
  intro h
  have hresponse := h.response (by decide +kernel) _ rfl
  exact absurd hresponse.rcode (by decide +kernel)

end Lazydns
