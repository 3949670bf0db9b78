import Lazydns.Plugin.Child
import Lazydns.Property.RoundTrip
import Lazydns.Server.Service

/-!
# EDNS options on their way to the upstream

`ecs` and `edns0_opt` leave options in the metadata, and the forward plugin sends the request: nothing reads the metadata. So what arrives of the options is what the request's own OPT record splits into, and that is what the client sent only as far as its options have no values.
-/

namespace Lazydns

open Dns

/-! ### What is sent -/

def Dns.Hickory.Message.options (h : Hickory.Message) : List (UInt16 × List UInt8) :=
  (h.edns.map Hickory.Edns.options).getD []

/-- The options that the OPT record of a request splits into. -/
def Dns.Message.splitOptions (m : Message) : List (UInt16 × List UInt8) :=
  ((m.additional.filterMap convertEdns).getLast?.map Hickory.Edns.options).getD []

/-- The message carries the option in its OPT record, once. -/
def Dns.Hickory.Message.Carries (h : Hickory.Message) (o : UInt16 × List UInt8) : Prop :=
  ∃ e, h.edns = some e ∧ e.options.count o = 1

/-- Of a request as it was parsed these are the options read back from the bytes of the client's. -/
theorem splitOptions_convertFromHickory {toUtf8 : Hickory.Name → String} {request : Message}
    {client : Hickory.Message} (h : request.additional = (convertFromHickory toUtf8 client).additional) :
    request.splitOptions = reread client.options := by
  have hplain : (client.additionals.filterMap (convertHickoryRecord toUtf8)).filterMap convertEdns = [] := by
    rw [List.filterMap_eq_nil_iff]
    intro rr hrr
    obtain ⟨r, -, hr⟩ := List.mem_filterMap.mp hrr
    exact convertEdns_convertHickoryRecord hr
  rw [Message.splitOptions, h, convertFromHickory]
  dsimp only
  rw [List.filterMap_append, hplain, List.nil_append, Hickory.Message.options]
  cases client.edns with
  | none => rfl
  | some e => simp [convertEdns_optRecord, Hickory.Edns.again]

theorem nodup_options_of_convertEdns {rr : ResourceRecord} {e : Hickory.Edns}
    (h : convertEdns rr = some e) : e.options.Nodup := by
  unfold convertEdns at h
  split at h
  · cases h
    exact List.Nodup.of_map _ (nodup_ednsOptions _)
  · cases h

namespace ForwardPlugin

variable {env : Env} {n : Nat} {request : Message} {addr : String} {h : Hickory.Message}

theorem sentQuery_edns (hsent : sentQuery env n request addr = some h) :
    h.edns = (request.additional.filterMap convertEdns).getLast? := by
  obtain ⟨h', hserialize, rfl⟩ := Option.map_eq_some_iff.mp hsent
  obtain ⟨hconv, -⟩ := Option.filter_eq_some_iff.mp hserialize
  have hedns := congrArg Hickory.Message.edns (convertToHickory_eq_some.mp hconv).2.2.2.2
  rw [wireQuery]
  split
  · exact hedns
  · exact hedns

/-- The query carries the options that the request's OPT record splits into, each once, and no others. -/
theorem carries_iff (hsent : sentQuery env n request addr = some h) (o : UInt16 × List UInt8) :
    h.Carries o ↔ o ∈ request.splitOptions := by
  have hedns := sentQuery_edns hsent
  rw [Hickory.Message.Carries, Message.splitOptions, ← hedns]
  constructor
  · rintro ⟨e, he, hcount⟩
    have hmem : o ∈ e.options := List.count_pos_iff.mp (by omega)
    rw [he]
    exact hmem
  · intro ho
    cases he : h.edns with
    | none =>
      rw [he] at ho
      cases ho
    | some e =>
      rw [he] at ho
      rw [he] at hedns
      obtain ⟨rr, -, hrr⟩ := List.mem_filterMap.mp (List.mem_of_getLast? hedns.symm)
      exact ⟨e, rfl, List.count_eq_one_of_mem (nodup_options_of_convertEdns hrr) ho⟩

end ForwardPlugin

/-! ### The two plugins -/

namespace EcsPlugin

def copied (p : EcsPlugin) (ctx : Context) : Option (List (UInt16 × List UInt8)) :=
  if p.forward then ctx.getOptions "client_edns0_options" else none

/-- The address that `ecs` makes an option of where it copies none. -/
def address (env : Env) (p : EcsPlugin) (ctx : Context) : Option IpAddr :=
  p.preset.or ((if p.send then ctx.getString "client_addr" else none).bind env.parseIp)

def added (env : Env) (p : EcsPlugin) (ctx : Context) : Option (List (UInt16 × List UInt8)) :=
  (p.copied ctx).or ((p.address env ctx).map fun ip => [makeEcsOption p.mask4 p.mask6 ip])

theorem execute_eq (env : Env) (p : EcsPlugin) (ctx : Context) :
    p.execute env ctx =
      match p.added env ctx with
      | some options => setOptions ctx options
      | none => ctx := by
  rw [execute, added, copied, address]
  cases if p.forward then ctx.getOptions "client_edns0_options" else none with
  | some options => rfl
  | none =>
    cases p.preset with
    | some ip => rfl
    | none =>
      cases (if p.send then ctx.getString "client_addr" else none).bind env.parseIp <;> rfl

theorem makeEcsOption_value (mask4 mask6 : Nat) (ip : IpAddr) : (makeEcsOption mask4 mask6 ip).2 ≠ [] := by
  cases ip <;> exact List.cons_ne_nil _ _

end EcsPlugin

/-- What `ecs` adds does not depend on whether `edns0_opt` ran before it. -/
theorem EcsPlugin.added_execute_opt (env : Env) (p : EcsPlugin) (opt : Edns0OptPlugin) (ctx : Context) :
    p.added env (opt.execute ctx) = p.added env ctx := by
  have hkept : ∀ key ∈ ["client_edns0_options", "client_addr"],
      (opt.execute ctx).metadata key = ctx.metadata key := by
    intro key hkey
    rw [Edns0OptPlugin.execute]
    split
    · rfl
    · have hne : key ≠ "edns0_options" ∧ key ≠ "edns0_preserve_existing" := by
        rcases List.mem_pair.mp hkey with rfl | rfl <;> decide
      rw [Context.setMetadata_metadata, Function.update_of_ne hne.2, Context.setMetadata_metadata,
        Function.update_of_ne hne.1]
  rw [added, added, copied, copied, address, address, Context.getOptions, Context.getOptions,
    Context.getString, Context.getString, hkept _ (by decide), hkept _ (by decide)]

/-- Both plugins, and which of them runs first. -/
structure EdnsPair where
  ecs : EcsPlugin
  opt : Edns0OptPlugin
  ecsFirst : Bool

namespace EdnsPair

variable {env : Env} {reg : Registry} {p : EdnsPair} {ctx : Context}

def first (p : EdnsPair) : LocalPlugin := if p.ecsFirst then .ecs p.ecs else .edns0Opt p.opt

def second (p : EdnsPair) : LocalPlugin := if p.ecsFirst then .edns0Opt p.opt else .ecs p.ecs

/-- The steps of a sequence that run the two and then a forward. -/
def steps (p : EdnsPair) (i : Nat) : List (SequenceStep Plugin) :=
  [.exec (.leaf (.plain p.first)), .exec (.leaf (.plain p.second)), .exec (.leaf (.forward i))]

def prepared (env : Env) (p : EdnsPair) (tag : Option String) (k : Nat) (ctx : Context) : Context :=
  (p.second.execute env ((p.first.execute env (ctx.record (.step tag k))).record
    (.step tag (k + 1)))).record (.step tag (k + 2))

def added (env : Env) (p : EdnsPair) (ctx : Context) : List (UInt16 × List UInt8) :=
  (p.ecs.added env ctx).getD [] ++ p.opt.options

/-- The client's options are to be preserved: `edns0_opt` says so, or `ecs` does, which always does with the options it adds. -/
def preserves (env : Env) (p : EdnsPair) (ctx : Context) : Bool :=
  p.opt.preserveExisting || (p.ecs.added env ctx).isSome

/-- The options that are to reach the upstream. -/
def wanted (env : Env) (p : EdnsPair) (ctx : Context) (client : Hickory.Message) :
    List (UInt16 × List UInt8) :=
  p.added env ctx ++ if p.preserves env ctx then client.options else []

/-- Nothing depends on the options that the plugins leave: `ecs` makes none of an address, those that are configured or copied are in the request's OPT record anyhow, and no option of the client's has a value where they are to be preserved. -/
structure Needless (env : Env) (p : EdnsPair) (ctx : Context) (client : Hickory.Message) : Prop where
  address : p.ecs.copied ctx = none → p.ecs.address env ctx = none
  split : ∀ o ∈ (p.ecs.copied ctx).getD [] ++ p.opt.options, o ∈ ctx.request.splitOptions
  valueless : p.opt.preserveExisting = true ∨ (p.ecs.copied ctx).isSome →
    ∀ o ∈ client.options, o.2 = []

/-! ### From the plugins to the upstream -/

/-- What the two leave for the forward step: the second one's options replace the first one's. -/
def left (env : Env) (p : EdnsPair) (ctx : Context) : Option MetaValue :=
  let ecs := (p.ecs.added env ctx).map MetaValue.options
  let opt := if p.opt.options.isEmpty then none else some (.edns0Options p.opt.options)
  (if p.ecsFirst then opt.or ecs else ecs.or opt).or (ctx.metadata "edns0_options")

theorem prepared_options (env : Env) (p : EdnsPair) (tag : Option String) (k : Nat) (ctx : Context) :
    (p.prepared env tag k ctx).metadata "edns0_options" = p.left env ctx := by
  have hecs : ∀ c : Context, (p.ecs.execute env c).metadata "edns0_options" =
      ((p.ecs.added env c).map MetaValue.options).or (c.metadata "edns0_options") := by
    intro c
    rw [EcsPlugin.execute_eq]
    cases p.ecs.added env c <;> rfl
  have hopt : ∀ c : Context, (p.opt.execute c).metadata "edns0_options" =
      (if p.opt.options.isEmpty then none else some (MetaValue.edns0Options p.opt.options)).or
        (c.metadata "edns0_options") := by
    intro c
    rw [Edns0OptPlugin.execute]
    cases p.opt.options.isEmpty <;> rfl
  rw [left, prepared, first, second]
  cases p.ecsFirst with
  | true =>
    change (p.opt.execute _).metadata _ = Option.or (Option.or _ _) _
    rw [hopt, Option.or_assoc]
    exact congrArg _ (hecs _)
  | false =>
    change (p.ecs.execute env _).metadata _ = Option.or (Option.or _ _) _
    rw [hecs, Option.or_assoc]
    change ((p.ecs.added env (p.opt.execute _)).map _).or ((p.opt.execute _).metadata _) = _
    rw [EcsPlugin.added_execute_opt]
    exact congrArg _ (hopt _)

theorem first_second_annotate (p : EdnsPair) {l : LocalPlugin} (hl : l = p.first ∨ l = p.second) :
    l.annotates = true ∧ ∀ key ∈ controlKeys, key ∉ l.keys := by
  have hcases : l = .ecs p.ecs ∨ l = .edns0Opt p.opt := by
    obtain ⟨ecs, opt, ecsFirst⟩ := p
    cases ecsFirst with
    | true => exact hl
    | false => exact hl.symm
  rcases hcases with rfl | rfl
  · refine ⟨rfl, ?_⟩
    rw [LocalPlugin.keys]
    decide
  · refine ⟨rfl, ?_⟩
    rw [LocalPlugin.keys]
    decide

theorem runSteps_cons (p : EdnsPair) {l : LocalPlugin} (hl : l = p.first ∨ l = p.second)
    (hidle : ctx.Idle) (hflag : ctx.getBool RETURN_FLAG ≠ some true) (fuel rounds : Nat)
    (tag : Option String) (k : Nat) (rest : List (SequenceStep Plugin)) :
    let ctx' := l.execute env (ctx.record (.step tag k))
    runSteps env reg (Plugin.execute env reg (fuel + 1)) rounds tag k (.exec (.leaf (.plain l)) :: rest)
        ctx = runSteps env reg (Plugin.execute env reg (fuel + 1)) rounds tag (k + 1) rest ctx' ∧
      ctx'.Idle ∧ ctx'.getBool RETURN_FLAG ≠ some true ∧ ctx'.request = ctx.request := by
  intro ctx'
  obtain ⟨hannotates, hkeys⟩ := p.first_second_annotate hl
  have hkept : ∀ key ∈ controlKeys, ctx'.metadata key = ctx.metadata key :=
    fun key hkey => (l.execute_grows (ctx.record (.step tag k))).metadata key (hkeys key hkey)
  have hidle' : ctx'.Idle :=
    ⟨(hkept _ (by decide)).trans hidle.jump, (hkept _ (by decide)).trans hidle.goto⟩
  have hflag' : ctx'.getBool RETURN_FLAG ≠ some true := by
    rw [Context.getBool, hkept _ (by decide)]
    exact hflag
  refine ⟨?_, hidle', hflag', (LocalPlugin.execute_annotates env hannotates _).request⟩
  have hgoto : ctx'.hasMetadata "goto_label" = false := by
    rw [Context.hasMetadata, hidle'.goto]
    rfl
  have hstep : runStep env (Plugin.execute env reg (fuel + 1)) tag k ctx (.exec (.leaf (.plain l))) =
      .done ctx' := rfl
  rw [runSteps, hstep]
  change Run.andThen (jumpLoop reg (Plugin.execute env reg (fuel + 1)) rounds ctx') _ = _
  rw [jumpLoop_idle hidle']
  change ite _ _ _ = _
  rw [hgoto, if_neg Bool.false_ne_true, if_neg hflag']

theorem runSteps_steps (env : Env) (reg : Registry) (p : EdnsPair) (hidle : ctx.Idle)
    (hflag : ctx.getBool RETURN_FLAG ≠ some true) (fuel rounds : Nat) (tag : Option String) (k i : Nat)
    (rest : List (SequenceStep Plugin)) :
    (∃ after, runSteps env reg (Plugin.execute env reg (fuel + 1)) rounds tag k (p.steps i ++ rest) ctx =
        .andThen (ForwardPlugin.execute env i (p.prepared env tag k ctx)) after) ∧
      (p.prepared env tag k ctx).request = ctx.request := by
  obtain ⟨hrun, hidle', hflag', hrequest⟩ := @runSteps_cons env reg ctx p _ (.inl rfl) hidle hflag fuel
    rounds tag k (p.steps i ++ rest).tail
  obtain ⟨hrun', -, -, hrequest'⟩ := @runSteps_cons env reg _ p _ (.inr rfl) hidle' hflag' fuel rounds
    tag (k + 1) (p.steps i ++ rest).tail.tail
  have hforward : ∀ c, ∃ after, runSteps env reg (Plugin.execute env reg (fuel + 1)) rounds tag (k + 1 + 1)
      (.exec (.leaf (.forward i)) :: rest) c =
        .andThen (ForwardPlugin.execute env i (c.record (.step tag (k + 1 + 1)))) after := by
    intro c
    rw [runSteps]
    exact ⟨_, rfl⟩
  obtain ⟨after, hafter⟩ := hforward _
  exact ⟨⟨after, (hrun.trans hrun').trans hafter⟩, hrequest'.trans hrequest⟩

/-- All options that are to reach the upstream are in the request's OPT record exactly if nothing depends on what the plugins leave. -/
theorem wanted_subset_iff {toUtf8 : Hickory.Name → String} {client : Hickory.Message}
    (hrequest : ctx.request.additional = (convertFromHickory toUtf8 client).additional)
    (hnodup : (client.options.map Prod.fst).Nodup) :
    (∀ o ∈ p.wanted env ctx client, o ∈ ctx.request.splitOptions) ↔ p.Needless env ctx client := by
  have hsplit : ctx.request.splitOptions = reread client.options := splitOptions_convertFromHickory hrequest
  have hown : client.options ⊆ ctx.request.splitOptions ↔ ∀ o ∈ client.options, o.2 = [] :=
    hsplit ▸ subset_reread_iff hnodup
  constructor
  · intro hall
    have hadded : ∀ o ∈ (p.ecs.added env ctx).getD [] ++ p.opt.options, o ∈ ctx.request.splitOptions :=
      fun o ho => hall o (List.mem_append_left _ ho)
    have hvalueless : p.preserves env ctx = true → ∀ o ∈ client.options, o.2 = [] := by
      intro hpreserves
      refine hown.mp fun o ho => hall o (List.mem_append_right _ ?_)
      rw [if_pos hpreserves]
      exact ho
    refine ⟨fun hcopied => ?_, fun o ho => ?_, fun hpreserves => hvalueless ?_⟩
    · -- an option made of an address has a value, and where it is added the client's have none
      by_contra haddress
      obtain ⟨ip, hip⟩ := Option.ne_none_iff_exists'.mp haddress
      have hecs : p.ecs.added env ctx = some [EcsPlugin.makeEcsOption p.ecs.mask4 p.ecs.mask6 ip] := by
        rw [EcsPlugin.added, hcopied, hip]
        rfl
      have hempty := hvalueless (by rw [preserves, hecs, Option.isSome_some, Bool.or_true])
      have hmade := hadded _ (List.mem_append_left _ (by
        rw [hecs]
        exact List.mem_cons_self))
      rw [hsplit, reread_of_valueless hnodup hempty] at hmade
      exact EcsPlugin.makeEcsOption_value _ _ _ (hempty _ hmade)
    · refine hadded o ?_
      rw [EcsPlugin.added]
      cases hcopied : p.ecs.copied ctx with
      | none =>
        rw [hcopied] at ho
        exact List.mem_append_right _ ho
      | some options =>
        rw [hcopied] at ho
        exact ho
    · rw [preserves, EcsPlugin.added]
      rcases hpreserves with hopt | hcopied
      · rw [hopt, Bool.true_or]
      · obtain ⟨options, hoptions⟩ := Option.isSome_iff_exists.mp hcopied
        rw [hoptions, Option.some_or, Option.isSome_some, Bool.or_true]
  · intro hneedless o ho
    have hecs : p.ecs.added env ctx = p.ecs.copied ctx := by
      rw [EcsPlugin.added]
      cases hcopied : p.ecs.copied ctx with
      | none =>
        rw [hneedless.address hcopied]
        rfl
      | some options => rfl
    rw [wanted, added, preserves, hecs] at ho
    rcases List.mem_append.mp ho with ho | ho
    · exact hneedless.split o ho
    · split at ho
      · rename_i hpreserves
        refine hown.mpr (hneedless.valueless ?_) ho
        rwa [Bool.or_eq_true] at hpreserves
      · cases ho

/-- The upstream gets the options exactly if nothing depends on what the plugins leave for it. -/
theorem options_sent_iff (env : Env) (reg : Registry) (p : EdnsPair) (toUtf8 : Hickory.Name → String)
    (client : Hickory.Message) (hclient : (client.options.map Prod.fst).Nodup)
    (hrequest : ctx.request.additional = (convertFromHickory toUtf8 client).additional) (hidle : ctx.Idle)
    (hflag : ctx.getBool RETURN_FLAG ≠ some true) (fuel rounds : Nat) (tag : Option String) (k i : Nat)
    (rest : List (SequenceStep Plugin)) :
    ∃ ctx' after,
      runSteps env reg (Plugin.execute env reg (fuel + 1)) rounds tag k (p.steps i ++ rest) ctx =
        .andThen (ForwardPlugin.execute env i ctx') after ∧
      ctx' = p.prepared env tag k ctx ∧ ctx'.metadata "edns0_options" = p.left env ctx ∧
      ∀ n addr h, ForwardPlugin.sentQuery env n ctx'.request addr = some h →
        ((∀ o ∈ p.wanted env ctx client, h.Carries o) ↔ p.Needless env ctx client) := by
  obtain ⟨⟨after, hrun⟩, hkept⟩ := runSteps_steps env reg p hidle hflag fuel rounds tag k i rest
  refine ⟨_, after, hrun, rfl, p.prepared_options env tag k ctx, fun n addr h hsent => ?_⟩
  rw [← wanted_subset_iff hrequest hclient]
  exact forall₂_congr fun o _ => hkept ▸ ForwardPlugin.carries_iff hsent o

/-! ### Two requests -/

/-- `edns0_opt` with one option, and `ecs` without anything to add. -/
def configured (o : UInt16 × List UInt8) (ecsFirst : Bool) : EdnsPair where
  ecs := { forward := false, send := false, preset := none, mask4 := 24, mask6 := 48 }
  opt := { options := [o], preserveExisting := true }
  ecsFirst := ecsFirst

def asking (options : List (UInt16 × List UInt8)) : Hickory.Message :=
  { Hickory.Message.asking ⟨[[97]], 1, 1⟩ with edns := some ⟨0, 0, false, 1232, options⟩ }

def requestContext (client : Hickory.Message) : Context :=
  PluginHandler.initialContext 0 "main" (.new (convertFromHickory dotted client) .udp)

theorem requestContext_idle (client : Hickory.Message) : (requestContext client).Idle :=
  ⟨PluginHandler.initialContext_metadata 0 "main" _ (by decide),
    PluginHandler.initialContext_metadata 0 "main" _ (by decide)⟩

theorem requestContext_flag (client : Hickory.Message) :
    (requestContext client).getBool RETURN_FLAG ≠ some true := by
  rw [requestContext, Context.getBool, PluginHandler.initialContext_metadata 0 "main" _ (by decide)]
  simp

/-- A client that sends an empty padding option, and `edns0_opt` configured with the same: the upstream gets it. -/
theorem options_sent_iff_of_padding :
    let env := Env.answering (.ok Message.new)
    let client := asking [(12, [])]
    ∃ h, ForwardPlugin.sentQuery env 0 ((configured (12, []) true).prepared env none 0
        (requestContext client)).request "192.0.2.53" = some h ∧
      (12, []) ∈ (configured (12, []) true).wanted env (requestContext client) client ∧
      ∀ o ∈ (configured (12, []) true).wanted env (requestContext client) client, h.Carries o := by
  intro env client
  obtain ⟨ctx', after, -, hctx', -, hiff⟩ := options_sent_iff env ∅ (configured (12, []) true) dotted client
    (by decide) rfl (requestContext_idle client) (requestContext_flag client) 0 0 none 0 0 []
  subst hctx'
  refine ⟨_, rfl, List.mem_cons_self, (hiff 0 "192.0.2.53" _ rfl).mpr ⟨fun _ => rfl, ?_, ?_⟩⟩
  · decide
  · decide

/-- A client without an OPT record: whichever plugin is first, the configured option is not sent, nor is any OPT record. -/
theorem cookie_not_sent :
    let env := Env.answering (.ok Message.new)
    let client := Hickory.Message.asking ⟨[[97]], 1, 1⟩
    ∃ h, h.edns = none ∧ ∀ ecsFirst,
      ForwardPlugin.sentQuery env 0 ((configured (10, [7]) ecsFirst).prepared env none 0
        (requestContext client)).request "192.0.2.53" = some h ∧
      (10, [7]) ∈ (configured (10, [7]) ecsFirst).wanted env (requestContext client) client ∧
      ¬ h.Carries (10, [7]) := by
  intro env client
  obtain ⟨h, hsent⟩ : ∃ h, ForwardPlugin.sentQuery env 0 (convertFromHickory dotted client) "192.0.2.53" =
    some h := ⟨_, rfl⟩
  refine ⟨h, ForwardPlugin.sentQuery_edns hsent, fun ecsFirst => ?_⟩
  have hrequest : ((configured (10, [7]) ecsFirst).prepared env none 0 (requestContext client)).request =
      convertFromHickory dotted client := by
    cases ecsFirst <;> rfl
  refine ⟨hrequest ▸ hsent, List.mem_append_left _ (List.mem_append_right _ (List.mem_singleton_self _)), ?_⟩
  rw [ForwardPlugin.carries_iff hsent]
  exact List.not_mem_nil

end EdnsPair

end Lazydns
