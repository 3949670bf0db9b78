import Lazydns.Plugin.Lockstep
import Lazydns.Plugin.Frame
import Lazydns.Plugin.Preserve
import Lazydns.Server.Handler

/-!
# From plugins to the handler

The two proof notions for runs, carried from the plugins through the goto loop, the store phase and the reverse-lookup hook to a whole run of the handler.
-/

namespace Lazydns

open Dns

namespace PluginHandler

variable {env : Env} {reg : Registry}

theorem mem_registered {plugin : Plugin} (h : plugin ∈ registered reg) :
    ∃ name, reg.lookup name = some plugin := by
  obtain ⟨⟨name, plugin⟩, hmem, rfl⟩ := List.mem_map.mp h
  exact ⟨name, AList.mem_lookup_iff.mpr hmem⟩

/-! ### What a run keeps -/

section

variable {P : Context → Prop} {V : Run → Prop} {exec : Plugin → Context → Run}

theorem gotoLoop_closed (hP : ControlFree P) (hV : Run.Closed P V)
    (hexec : ∀ name plugin, reg.lookup name = some plugin → ∀ ctx, P ctx → V (exec plugin ctx)) :
    ∀ rounds ctx, P ctx → V (gotoLoop reg exec rounds ctx) := by
  intro rounds
  induction rounds with
  | zero =>
    intro ctx hctx
    rw [gotoLoop]
    split
    · exact hV.outOfFuel hctx
    · exact hV.done hctx
  | succ rounds ih =>
    intro ctx hctx
    rw [gotoLoop]
    split
    · cases ctx.getString "goto_label" with
      | none => exact hV.done hctx
      | some target =>
        have hcleared : P ((ctx.removeMetadata "goto_label").removeMetadata RETURN_FLAG) :=
          hP.remove _ _ (by decide) (hP.remove _ _ (by decide) hctx)
        dsimp only
        cases hplugin : reg.lookup target with
        | none => exact hV.done hcleared
        | some plugin => exact hV.andThen (hexec target plugin hplugin _ hcleared) ih
    · exact hV.done hctx

theorem storePhase_sequential (hV : Run.Sequential P V) {plugins : List Plugin}
    (hcache : ∀ i, Plugin.leaf (.cache i) ∈ plugins →
      ∀ ctx, P ctx → V (Run.step (Leaf.executeCache env i ctx))) :
    ∀ ctx, P ctx → V (storePhase env plugins ctx) := by
  induction plugins with
  | nil => exact fun ctx hctx => hV.done hctx
  | cons plugin rest ih =>
    intro ctx hctx
    refine hV.andThen ?_ (ih fun i hi => hcache i (List.mem_cons_of_mem _ hi))
    unfold storeOne
    split
    · exact hcache _ List.mem_cons_self ctx hctx
    · exact hV.done hctx

theorem reversePhase_sequential (hV : Run.Sequential P V)
    (hsave : ∀ i ctx, P ctx → V (Run.step (saveStep i ctx))) (plugins : List Plugin) :
    ∀ ctx, P ctx → V (reversePhase plugins ctx) := by
  induction plugins with
  | nil => exact fun ctx hctx => hV.done hctx
  | cons plugin rest ih =>
    intro ctx hctx
    refine hV.andThen ?_ ih
    unfold saveOne
    split
    · exact hsave _ ctx hctx
    · exact hV.done hctx

theorem runEntry_closed (hP : ControlFree P) (hV : Run.Closed P V)
    (hreg : reg.All (Leaf.Runs env P V)) (fuel : Nat) (entry : String) {ctx : Context}
    (hctx : P ctx) : V (runEntry env reg fuel entry ctx) := by
  have hexec : ∀ name plugin, reg.lookup name = some plugin →
      ∀ ctx, P ctx → V (plugin.execute env reg fuel ctx) :=
    fun name plugin h => Plugin.execute_closed hP hV hreg fuel plugin (hreg name plugin h)
  rw [runEntry]
  refine hV.andThen ?_ (gotoLoop_closed hP hV hexec fuel)
  cases hplugin : reg.lookup entry with
  | none => exact hV.done hctx
  | some plugin => exact hexec entry plugin hplugin ctx hctx

theorem postProcess_closed (hV : Run.Closed P V) (hreg : reg.All (Leaf.Runs env P V))
    (hsave : ∀ i ctx, P ctx → V (Run.step (saveStep i ctx))) {ctx : Context} (hctx : P ctx) :
    V (postProcess env reg ctx) := by
  rw [postProcess]
  split
  · refine hV.andThen (storePhase_sequential hV.toSequential ?_ ctx hctx)
      (reversePhase_sequential hV.toSequential hsave _)
    intro i hi ctx hctx
    obtain ⟨name, hname⟩ := mem_registered hi
    cases hreg name _ hname with
    | leaf h => exact h ctx hctx
  · exact hV.done hctx

/-- What follows the plugins comes to its end, and does not fail. -/
theorem postProcess_succeeds (env : Env) (reg : Registry) (ctx : Context) :
    (postProcess env reg ctx).Within (fun _ => True) (fun _ _ => True) (fun _ => True) (fun _ => False) := by
  have hsequential : Run.Sequential (fun _ => True)
      (Run.Within (fun _ => True) (fun _ _ => True) (fun _ => True) (fun _ => False)) := Run.within_sequential
  rw [postProcess]
  split
  · refine Run.within_andThen ?_ fun ctx _ => ?_
    · exact storePhase_sequential hsequential
        (fun _ _ _ _ => Run.within_step fun _ _ => ⟨trivial, trivial⟩) ctx trivial
    · exact reversePhase_sequential hsequential
        (fun _ _ _ => Run.within_step fun _ _ => ⟨trivial, trivial⟩) _ ctx trivial
  · exact Run.within_done trivial

/-- What is known of the runs of every plugin is known of the handler's runs, once the request's context is there. -/
theorem answer_closed (hP : ControlFree P) (hV : Run.Closed P V) (hreg : reg.All (Leaf.Runs env P V))
    (hsave : ∀ i ctx, P ctx → V (Run.step (saveStep i ctx))) (fuel : Nat) (entry : String)
    {ctx : Context} (hctx : P ctx) :
    V (Run.andThen (runEntry env reg fuel entry ctx) (postProcess env reg)) :=
  hV.andThen (runEntry_closed hP hV hreg fuel entry hctx) fun _ => postProcess_closed hV hreg hsave

end

section

variable {I : World → Prop} {G : World → World → Prop} {P : Context → Prop} {E : Stop → Prop}

/-- What every plugin keeps, a run of the handler keeps, if it holds at the start. -/
theorem process_within (hP : ControlFree P) (hfuel : E .outOfFuel)
    (hreg : reg.All (Leaf.Preserves env I G P E))
    (hsave : ∀ i ctx, P ctx → ∀ w, I w → G w (saveStep i ctx w).2) (hrefl : ∀ w, I w → G w w)
    (fuel : Nat) {entry : String} {req : RequestContext}
    (hinit : ∀ now, P (initialContext now entry req)) :
    (process env reg fuel entry req).Within I G P E := by
  refine Proc.Within.bind (Q := P)
    (Proc.within_atomic.mpr fun w hw => ⟨hrefl w hw, hinit w.now⟩) fun ctx hctx => ?_
  refine answer_closed hP (Run.within_closed hfuel) hreg (fun i ctx hctx => ?_) fuel entry hctx
  exact Run.within_step fun w hw => ⟨hsave i ctx hctx w hw, hctx⟩

end

/-! ### The request of a run -/

theorem initialContext_from (now : Nat) (entry : String) (req : RequestContext) :
    (initialContext now entry req).From req.message :=
  ⟨by rw [initialContext_request], .inl (initialContext_request ..)⟩

theorem runEntry_from {fuel : Nat} {entry : String} {req : RequestContext} {w w₁ : World}
    {ctx : Context} {result : Except Stop Unit}
    (hpipeline : (runEntry env reg fuel entry (initialContext w.now entry req)).run w =
      ((result, ctx), w₁)) : ctx.From req.message := by
  have hwithin := runEntry_closed (Context.From.controlFree req.message)
    (Run.within_closed (E := fun _ => True) trivial)
    (Registry.all_of_forall (Leaf.preserves_from env req.message) reg) fuel entry
    (initialContext_from w.now entry req)
  have hend := (Proc.Within.run hwithin (fun _ _ _ _ => trivial) (s := w) trivial).1.1
  rw [hpipeline] at hend
  exact hend

private theorem setMark_left {f : UInt16 → UInt16} {c c' : Context} (h : c.Same f c')
    (hquestions : c.request.questions = []) (v : MetaValue) :
    (c.setMetadata "background_lazy_refresh" v).Same f c' where
  request := h.request
  response := h.response
  trace := h.trace
  metadata := fun key hkey => by
    have hne : key ≠ "background_lazy_refresh" := fun heq => hkey (.inr ⟨heq, hquestions⟩)
    rw [Context.setMetadata_metadata, Function.update_of_ne hne]
    exact h.metadata key hkey

private theorem setMark_right {f : UInt16 → UInt16} {c c' : Context} (h : c.Same f c')
    (hquestions : c.request.questions = []) (v : MetaValue) :
    c.Same f (c'.setMetadata "background_lazy_refresh" v) where
  request := h.request
  response := h.response
  trace := h.trace
  metadata := fun key hkey => by
    have hne : key ≠ "background_lazy_refresh" := fun heq => hkey (.inr ⟨heq, hquestions⟩)
    rw [Context.setMetadata_metadata, Function.update_of_ne hne]
    exact h.metadata key hkey

theorem markRefresh_same {f : UInt16 → UInt16} {c c' : Context} (h : c.Same f c') {a b : UInt16}
    (hmark : c.request.questions = [] ∨ (a = REFRESH_ID ↔ b = REFRESH_ID)) :
    (markRefresh a c).Same f (markRefresh b c') := by
  rw [markRefresh, markRefresh]
  by_cases ha : a = REFRESH_ID <;> by_cases hb : b = REFRESH_ID
  · rw [if_pos ha, if_pos hb]
    exact h.setMetadata _ _
  · rw [if_pos ha, if_neg hb]
    rcases hmark with hnil | hiff
    · exact setMark_left h hnil _
    · exact absurd (hiff.mp ha) hb
  · rw [if_neg ha, if_pos hb]
    rcases hmark with hnil | hiff
    · exact setMark_right h hnil _
    · exact absurd (hiff.mpr hb) ha
  · rw [if_neg ha, if_neg hb]
    exact h

theorem setClientInfo_same {f : UInt16 → UInt16} {c c' : Context} (h : c.Same f c')
    {info info' : Option ClientInfo} (hinfo : info.map ClientInfo.ip = info'.map ClientInfo.ip) :
    (setClientInfo info c).Same f (setClientInfo info' c') := by
  cases info with
  | none =>
    cases info' with
    | none => exact h
    | some info' => cases hinfo
  | some info =>
    cases info' with
    | none => cases hinfo
    | some info' =>
      have hip : info.ip = info'.ip := Option.some.inj hinfo
      rw [PluginHandler.setClientInfo, PluginHandler.setClientInfo, hip]
      refine ((h.setMetadata _ _).setMetadata_of_view _ ?_).setMetadata_of_view _ ?_
      · exact fun _ => rfl
      · exact fun _ => rfl

/-- Requests start out looking the same when they agree on the client's address and on what their ids decide. -/
theorem initialContext_same {f : UInt16 → UInt16} {req req' : RequestContext}
    (hmessage : req.message.view f = req'.message.view f)
    (hclient : req.clientInfo.map ClientInfo.ip = req'.clientInfo.map ClientInfo.ip)
    (hmark : req.message.questions = [] ∨
      (req.message.id = REFRESH_ID ↔ req'.message.id = REFRESH_ID)) (now : Nat) (entry : String) :
    (initialContext now entry req).Same f
      (initialContext now entry req') := by
  have hnew : (Context.new req.message).Same f (Context.new req'.message) :=
    ⟨hmessage, rfl, fun _ _ => rfl, rfl⟩
  have hbase : ((setClientInfo req.clientInfo ((Context.new req.message).setMetadata
      "request_start_time" (.instant now))).setMetadata "protocol"
      (.string req.protocol.toString)).Same f
      ((setClientInfo req'.clientInfo ((Context.new req'.message).setMetadata
        "request_start_time" (.instant now))).setMetadata "protocol" (.string req'.protocol.toString)) :=
    (setClientInfo_same (hnew.setMetadata "request_start_time" (.instant now))
      hclient).setMetadata_of_view "protocol" fun hne => absurd rfl hne
  have hquestions : ∀ c : Context, c.request = req.message →
      c.request.questions = [] ∨ (req.message.id = REFRESH_ID ↔ req'.message.id = REFRESH_ID) :=
    fun c hc => hmark.imp (fun hnil => hc ▸ hnil) id
  have hrequest : (setClientInfo req.clientInfo
      ((Context.new req.message).setMetadata "request_start_time" (.instant now))).request =
      req.message := by
    cases req.clientInfo <;> rfl
  exact (((markRefresh_same hbase (hquestions _ hrequest)).setMetadata _ _).setMetadata _ _).setMetadata
    _ _

/-! ### Runs in step -/

section

variable {f : UInt16 → UInt16} {I : World → Prop} {L : RateLimitPlugin → RateLimitPlugin → Prop}
  {exec : Plugin → Context → Run} {c c' : Context}

theorem gotoLoop_sim (hexec : ∀ (plugin : Plugin) (c c' : Context), c.Same f c' →
    (exec plugin c).Sim f I L (exec plugin c')) (rounds : Nat) (h : c.Same f c') :
    (gotoLoop reg exec rounds c).Sim f I L (gotoLoop reg exec rounds c') := by
  induction rounds generalizing c c' with
  | zero =>
    rw [gotoLoop, gotoLoop, h.hasMetadata (by decide)]
    split
    · exact Run.sim_fail _ h
    · exact Run.sim_done h
  | succ rounds ih =>
    rw [gotoLoop, gotoLoop, h.hasMetadata (by decide), h.getString (by decide)]
    split
    · cases c'.getString "goto_label" with
      | none => exact Run.sim_done h
      | some target =>
        have hcleared := (h.removeMetadata "goto_label").removeMetadata RETURN_FLAG
        dsimp only
        cases reg.lookup target with
        | none => exact Run.sim_done hcleared
        | some plugin => exact Run.sim_andThen (hexec plugin _ _ hcleared) fun _ _ hd => ih hd
    · exact Run.sim_done h

theorem storePhase_sim (plugins : List Plugin) (h : c.Same f c') :
    (storePhase env plugins c).Sim f I L (storePhase env plugins c') := by
  induction plugins generalizing c c' with
  | nil => exact Run.sim_done h
  | cons plugin rest ih =>
    refine Run.sim_andThen ?_ fun _ _ hd => ih hd
    unfold storeOne
    split
    · exact Run.sim_step fun w w' _ hw => Leaf.executeCache_same _ h hw
    · exact Run.sim_done h

theorem saveIpsAfter_same {m m' r r' : Message} (h : m.view f = m'.view f)
    (hr : r.view f = r'.view f) (now : Nat) (p : ReverseLookupPlugin) :
    p.saveIpsAfter now m r = p.saveIpsAfter now m' r' := by
  have hrecord : ReverseLookupPlugin.saveRecord now m = ReverseLookupPlugin.saveRecord now m' := by
    have hname : ReverseLookupPlugin.savedName m = ReverseLookupPlugin.savedName m' := by
      funext rr
      rw [ReverseLookupPlugin.savedName, ReverseLookupPlugin.savedName, view_questions h]
    funext p rr
    rw [ReverseLookupPlugin.saveRecord, ReverseLookupPlugin.saveRecord, hname]
  rw [ReverseLookupPlugin.saveIpsAfter, ReverseLookupPlugin.saveIpsAfter, hrecord, view_answers hr]

theorem saveStep_same (i : Nat) (h : c.Same f c') {w w' : World} (hw : w.Same f L w') :
    (saveStep i c w).1.Same f (saveStep i c' w').1 ∧
      (saveStep i c w).2.Same f L (saveStep i c' w').2 := by
  refine ⟨h, ?_⟩
  rw [saveStep, saveStep, hw.reverses, hw.now]
  rcases h.response_cases with ⟨hr, hr'⟩ | ⟨m, m', hr, hr', hm⟩
  · rw [hr, hr']
    exact hw.setReverse i _
  · rw [hr, hr']
    dsimp only
    rw [saveIpsAfter_same h.request hm]
    exact hw.setReverse i _

theorem reversePhase_sim (plugins : List Plugin) (h : c.Same f c') :
    (reversePhase plugins c).Sim f I L (reversePhase plugins c') := by
  induction plugins generalizing c c' with
  | nil => exact Run.sim_done h
  | cons plugin rest ih =>
    refine Run.sim_andThen ?_ fun _ _ hd => ih hd
    unfold saveOne
    split
    · exact Run.sim_step fun w w' _ hw => saveStep_same _ h hw
    · exact Run.sim_done h

theorem postProcess_sim (h : c.Same f c') :
    (postProcess env reg c).Sim f I L (postProcess env reg c') := by
  rw [postProcess, postProcess, h.hasResponse]
  split
  · exact Run.sim_andThen (storePhase_sim _ h) fun _ _ hd => reversePhase_sim _ hd
  · exact Run.sim_done h

variable (henv : env.IdBlind f) (hL : LimiterSim I L)

include henv hL

theorem runEntry_sim (fuel : Nat) (entry : String) (h : c.Same f c') :
    (runEntry env reg fuel entry c).Sim f I L (runEntry env reg fuel entry c') := by
  have hexec : ∀ (plugin : Plugin) (c c' : Context), c.Same f c' →
      (plugin.execute env reg fuel c).Sim f I L (plugin.execute env reg fuel c') :=
    Plugin.execute_sim henv hL fuel
  rw [runEntry, runEntry]
  refine Run.sim_andThen ?_ fun _ _ hd => gotoLoop_sim hexec fuel hd
  cases reg.lookup entry with
  | none => exact Run.sim_done h
  | some plugin => exact hexec plugin c c' h

/-- Two requests that start out looking the same are processed in step. -/
theorem process_sim (fuel : Nat) (entry : String) {req req' : RequestContext}
    (hinit : ∀ now, (initialContext now entry req).Same f (initialContext now entry req')) :
    (process env reg fuel entry req).Sim f I L (process env reg fuel entry req') := by
  refine Proc.Sim.bind (S := Context.Same f) (Proc.sim_atomic fun w w' _ hw => ?_) ?_
  · rw [hw.now]
    exact ⟨hinit w'.now, hw⟩
  · intro c c' h
    exact Run.sim_andThen (runEntry_sim henv hL fuel entry h) fun _ _ hd => postProcess_sim hd

theorem handle_sim (fuel : Nat) (entry : String) {req req' : RequestContext}
    (hinit : ∀ now, (initialContext now entry req).Same f (initialContext now entry req')) :
    Proc.Sim I (World.Same f L) (fun r r' => r.map (Message.view f) = r'.map (Message.view f))
      (handle env reg fuel entry req) (handle env reg fuel entry req') := by
  refine Proc.Sim.bind (process_sim henv hL fuel entry hinit) ?_
  rintro ⟨result, c⟩ ⟨result', c'⟩ ⟨rfl, h⟩
  refine Proc.sim_ret.mpr ?_
  cases result with
  | error stop => rfl
  | ok u =>
    refine congrArg Except.ok ?_
    rw [finish, finish]
    rcases h.response_cases with ⟨hr, hr'⟩ | ⟨m, m', hr, hr', hm⟩
    · rw [hr, hr']
      simp only [Message.view, view_id h.request]
    · rw [hr, hr', Option.getD_some, Option.getD_some, eq_of_view hm]
      simp only [Message.view, view_id h.request]

end

end PluginHandler

end Lazydns
