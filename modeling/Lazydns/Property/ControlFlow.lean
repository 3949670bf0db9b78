import Lazydns.Plugin.CacheSpec
import Lazydns.Plugin.Flow
import Lazydns.Plugin.Frame
import Lazydns.Server.HandlerRules
import Lazydns.Server.Service

/-!
# The control flow of sequences

A run of the code and the run with signals take the same steps. Where a plugin starts, the flag and the two strings are not set, and the contexts are equal; where it ends, the code's context is the other one with the signal written into it. Writing it, clearing it before a target and restoring the flag after a jump lose one thing: how the target of a jump ended, unless by a goto.
-/

namespace Lazydns

open Dns

/-! ### Nests of sequences -/

def flowKeys : List String := [RETURN_FLAG, "jump_target", "goto_label", "__plugin_registry"]

/-- The plugin is not configured to write its value under a key of the control flow. -/
def Leaf.KeepsFlow : Leaf → Prop
  | .plain (.mark p) => p.markName ∉ flowKeys
  | .plain (.querySummary p) => p.metadataKey ∉ flowKeys
  | .plain (.geoIp p) => p.metadataKey ∉ flowKeys
  | .plain (.geoSite p) => p.metadataKey ∉ flowKeys
  | _ => True

/-- Sequences within sequences, down to plugins without children. -/
inductive Plugin.Nest : Plugin → Prop
  | leaf {l : Leaf} (h : l.KeepsFlow) : Nest (.leaf l)
  | sequence {tag : Option String} {steps : List (SequenceStep Plugin)} (h : ∀ step ∈ steps, step.action.Nest) :
      Nest (.sequence tag steps)

/-- All plugins of a registry are such nests. -/
def Registry.Nests (reg : Registry) : Prop := ∀ name plugin, reg.lookup name = some plugin → plugin.Nest

/-! ### Signals in the metadata -/

/-- No control flow is under way, and the registry is there. -/
structure Context.Clear (ctx : Context) : Prop where
  flag : ctx.metadata RETURN_FLAG = none
  jump : ctx.metadata "jump_target" = none
  goto : ctx.metadata "goto_label" = none
  registry : ctx.metadata "__plugin_registry" = some .registry

/-- The signal without the flag. -/
def Signal.pend (ctx : Context) : Signal → Context
  | .jump target => ctx.setMetadata "jump_target" (.string target)
  | .goto label => ctx.setMetadata "goto_label" (.string label)
  | _ => ctx

/-- The signal as the code writes it. -/
def Signal.write (ctx : Context) : Signal → Context
  | .next => ctx
  | s => (s.pend ctx).setMetadata RETURN_FLAG (.bool true)

namespace Context

variable {ctx ctx' : Context} {key : String} {value : MetaValue}

theorem Clear.congr (h : ctx.Clear) (heq : ∀ key ∈ flowKeys, ctx'.metadata key = ctx.metadata key) : ctx'.Clear where
  flag := (heq _ (by decide)).trans h.flag
  jump := (heq _ (by decide)).trans h.jump
  goto := (heq _ (by decide)).trans h.goto
  registry := (heq _ (by decide)).trans h.registry

theorem removeMetadata_of_none (h : ctx.metadata key = none) : ctx.removeMetadata key = ctx := by
  rw [removeMetadata, ← h, Function.update_eq_self]

theorem removeMetadata_setMetadata (h : ctx.metadata key = none) (value : MetaValue) :
    (ctx.setMetadata key value).removeMetadata key = ctx := by
  rw [removeMetadata, setMetadata]
  dsimp only
  rw [Function.update_idem, ← h, Function.update_eq_self]

theorem setMetadata_removeMetadata (h : ctx.metadata key = some value) :
    (ctx.removeMetadata key).setMetadata key value = ctx := by
  rw [removeMetadata, setMetadata]
  dsimp only
  rw [Function.update_idem, ← h, Function.update_eq_self]

theorem setMetadata_removeMetadata_self (key : String) (value : MetaValue) :
    (ctx.removeMetadata key).setMetadata key value = ctx.setMetadata key value := by
  rw [removeMetadata, setMetadata]
  dsimp only
  rw [Function.update_idem, setMetadata]

theorem removeMetadata_comm {key' : String} (hne : key ≠ key') :
    (ctx.removeMetadata key).removeMetadata key' = (ctx.removeMetadata key').removeMetadata key := by
  rw [removeMetadata, removeMetadata, removeMetadata, removeMetadata]
  dsimp only
  rw [Function.update_comm hne]

end Context

namespace Signal

variable {ctx : Context} (s : Signal)

theorem sameMessages_pend : ctx.SameMessages (s.pend ctx) := by
  cases s with
  | jump target => exact ⟨rfl, rfl, rfl⟩
  | goto label => exact ⟨rfl, rfl, rfl⟩
  | _ => exact .refl ctx

theorem sameMessages_write : ctx.SameMessages (s.write ctx) := by
  cases s with
  | next => exact .refl ctx
  | _ => exact ⟨rfl, rfl, rfl⟩

theorem pend_metadata {key : String} (hkey : key ≠ "jump_target") (hkey' : key ≠ "goto_label") :
    (s.pend ctx).metadata key = ctx.metadata key := by
  cases s with
  | jump target => exact Function.update_of_ne hkey ..
  | goto label => exact Function.update_of_ne hkey' ..
  | _ => rfl

theorem getBool_write (hs : s ≠ .next) : (s.write ctx).getBool RETURN_FLAG = some true := by
  cases s with
  | next => exact absurd rfl hs
  | _ =>
    rw [Context.getBool, write, Context.setMetadata_metadata, Function.update_self]
    intro h
    cases h

theorem write_metadata {key : String} (hkey : key ≠ RETURN_FLAG) :
    (s.write ctx).metadata key = (s.pend ctx).metadata key := by
  cases s with
  | next => rfl
  | _ => exact Function.update_of_ne hkey ..

theorem pend_flag (h : ctx.Clear) : (s.pend ctx).metadata RETURN_FLAG = none :=
  (s.pend_metadata (by decide) (by decide)).trans h.flag

theorem pend_jump (h : ctx.Clear) (hs : ∀ target, s ≠ .jump target) : (s.pend ctx).metadata "jump_target" = none := by
  cases s with
  | jump target => exact absurd rfl (hs target)
  | goto label =>
    rw [pend, Context.setMetadata_metadata, Function.update_of_ne (by decide)]
    exact h.jump
  | _ => exact h.jump

theorem pend_goto (h : ctx.Clear) (hs : ∀ label, s ≠ .goto label) : (s.pend ctx).metadata "goto_label" = none := by
  cases s with
  | goto label => exact absurd rfl (hs label)
  | jump target =>
    rw [pend, Context.setMetadata_metadata, Function.update_of_ne (by decide)]
    exact h.goto
  | _ => exact h.goto

theorem write_goto (h : ctx.Clear) (hs : ∀ label, s ≠ .goto label) : (s.write ctx).metadata "goto_label" = none := by
  rw [s.write_metadata (by decide), s.pend_goto h hs]

theorem pend_eq_of_write_flag (h : ctx.Clear) : (s.write ctx).removeMetadata RETURN_FLAG = s.pend ctx := by
  cases s with
  | next => exact Context.removeMetadata_of_none h.flag
  | _ => exact Context.removeMetadata_setMetadata (pend_flag _ h) _

end Signal

/-! ### Runs that match -/

/-- The code and the run with signals have ended the same way, with the signal in the code's context as `W` says. -/
inductive Reports (W : Signal → Context → Context → Prop) : Outcome → Flow.Ending → Prop
  | ok {s : Signal} {ctx c : Context} (hclear : ctx.Clear) (h : W s ctx c) : Reports W (.ok (), c) (.ok s, ctx)
  | error {stop : Stop} {ctx c : Context} (h : ctx.SameMessages c) : Reports W (.error stop, c) (.error stop, ctx)

/-- The two runs take the same steps and end the same way. -/
def Run.Matches (W : Signal → Context → Context → Prop) (p : Run) (q : Flow.Run) : Prop :=
  Proc.Sim (fun _ => True) Eq (Reports W) p q

/-- The signal is written into the context. -/
def Signal.Writes (s : Signal) (ctx c : Context) : Prop := c = s.write ctx

namespace Run

variable {W W' : Signal → Context → Context → Prop}

theorem matches_done {s : Signal} {ctx c : Context} (hclear : ctx.Clear) (h : W s ctx c) :
    Matches W (.done c) (Flow.done s ctx) := Proc.sim_ret.mpr (.ok hclear h)

theorem matches_fail {stop : Stop} {ctx c : Context} (h : ctx.SameMessages c) :
    Matches W (.fail stop c) (Flow.fail stop ctx) := Proc.sim_ret.mpr (.error h)

theorem matches_andThen {p : Run} {q : Flow.Run} {k : Context → Run} {k' : Signal → Context → Flow.Run}
    (h : Matches W p q) (hk : ∀ s ctx c, ctx.Clear → W s ctx c → Matches W' (k c) (k' s ctx)) :
    Matches W' (andThen p k) (Flow.andThen q k') := by
  refine Proc.Sim.bind h ?_
  intro r r' hr
  cases hr with
  | ok hclear hw => exact hk _ _ _ hclear hw
  | error hsame => exact matches_fail hsame

end Run

/-! ### Plugins without children -/

def LocalPlugin.control : LocalPlugin → Bool
  | .accept | .ret | .reject _ | .jump _ | .goto _ => true
  | _ => false

theorem LocalPlugin.flow_not_mem_keys {p : LocalPlugin} (hkeeps : (Leaf.plain p).KeepsFlow)
    (hcontrol : p.control = false) : ∀ key ∈ flowKeys, key ∉ p.keys := by
  have hset : ∀ name, ("domain_set_" ++ name) ∉ flowKeys ∧ ("ip_set_" ++ name) ∉ flowKeys := by
    intro name
    constructor
    · intro h
      have hlist := List.mem_map_of_mem (f := String.toList) h
      simp [flowKeys, RETURN_FLAG] at hlist
    · intro h
      have hlist := List.mem_map_of_mem (f := String.toList) h
      simp [flowKeys, RETURN_FLAG] at hlist
  intro key hkey hmem
  cases p with
  | mark p =>
    obtain rfl := List.mem_singleton.mp hmem
    exact hkeeps hkey
  | querySummary p =>
    obtain rfl := List.mem_singleton.mp hmem
    exact hkeeps hkey
  | geoIp p =>
    obtain rfl := List.mem_singleton.mp hmem
    exact hkeeps hkey
  | geoSite p =>
    obtain rfl := List.mem_singleton.mp hmem
    exact hkeeps hkey
  | domainSet name =>
    obtain rfl := List.mem_singleton.mp hmem
    exact (hset name).1 hkey
  | ipSetDataset name =>
    obtain rfl := List.mem_singleton.mp hmem
    exact (hset name).2 hkey
  | accept => cases hcontrol
  | ret => cases hcontrol
  | reject rcode => cases hcontrol
  | jump target => cases hcontrol
  | goto label => cases hcontrol
  | ecs p => exact (by decide : ∀ key ∈ flowKeys, key ∉ ["edns0_options", "edns0_preserve_existing"]) key hkey hmem
  | edns0Opt p => exact (by decide : ∀ key ∈ flowKeys, key ∉ ["edns0_options", "edns0_preserve_existing"]) key hkey hmem
  | ipSet p => exact (by decide : ∀ key ∈ flowKeys, key ∉ ["ipset_added"]) key hkey hmem
  | nftSet p => exact (by decide : ∀ key ∈ flowKeys, key ∉ ["nftset_added_v4", "nftset_added_v6"]) key hkey hmem
  | _ => exact absurd hmem List.not_mem_nil

namespace Leaf

/-- What a plugin that is no control action leaves of the control flow's keys: at most the flag is set. -/
structure LeavesFlow (ctx c : Context) : Prop where
  other : ∀ key ∈ flowKeys, key ≠ RETURN_FLAG → c.metadata key = ctx.metadata key
  flag : c.metadata RETURN_FLAG = ctx.metadata RETURN_FLAG ∨ c.metadata RETURN_FLAG = some (.bool true)

theorem LeavesFlow.of_grows {keys : List String} {ctx c : Context} (h : ctx.Grows keys c)
    (hkeys : ∀ key ∈ flowKeys, key ∉ keys) : LeavesFlow ctx c where
  other := fun key hkey _ => h.metadata key (hkeys key hkey)
  flag := .inl (h.metadata _ (hkeys _ (by decide)))

theorem executeCache_leavesFlow (env : Env) (i : Nat) (ctx : Context) (w : World) :
    LeavesFlow ctx (executeCache env i ctx w).1 := by
  have heffect : LeafEffect env (fun _ => True) (.cache i) ctx (executeCache env i ctx w).1 :=
    (executeCache_effect i fun _ _ _ _ => trivial).2
  have hkeys : ∀ key ∈ flowKeys, key ≠ RETURN_FLAG →
      key ∉ ["cache_checked", "response_from_cache", RETURN_FLAG] := by decide
  refine ⟨fun key hkey hne => heffect.grows.metadata key (hkeys key hkey hne), ?_⟩
  rw [executeCache]
  dsimp only
  rcases CachePlugin.execute_cases env w.now ctx (w.caches i) with heq | ⟨-, key, -, heq⟩ | ⟨-, key, entry, -, -, heq⟩
  · rw [heq]
    exact .inl rfl
  · rw [heq]
    rcases ((w.caches i).tryServeFromCache_cases w.now key ctx).2 with hmiss | ⟨entry, ttl, -, hserved⟩
    · rw [hmiss, Context.setMetadata_metadata, Function.update_of_ne (by decide)]
      exact .inl rfl
    · rw [hserved, CachePlugin.servedContext, Context.setMetadata_metadata, Function.update_self]
      exact .inr rfl
  · rw [heq]
    exact .inl rfl

theorem executeRateLimit_leavesFlow (i : Nat) (ctx : Context) (w : World) :
    LeavesFlow ctx (executeRateLimit i ctx w).1 := by
  have hrefl : LeavesFlow ctx ctx := ⟨fun _ _ _ => rfl, .inl rfl⟩
  rw [executeRateLimit, RateLimitPlugin.execute]
  cases ctx.getIp "client_ip" with
  | none => exact hrefl
  | some client =>
    dsimp only
    obtain ⟨limited, p⟩ := (w.limiters i).shouldLimit w.now client
    cases limited with
    | false => exact hrefl
    | true =>
      refine ⟨?_, .inr ?_⟩
      · intro key _ hne
        exact Function.update_of_ne hne ..
      · exact Function.update_self RETURN_FLAG _ ctx.metadata

theorem execute_leavesFlow (env : Env) {l : Leaf} (hkeeps : l.KeepsFlow)
    (hcontrol : ∀ p, l = .plain p → p.control = false) (ctx : Context) :
    (l.execute env ctx).Within (fun _ => True) (fun _ _ => True) (LeavesFlow ctx) (fun _ => True) := by
  have hothers : (∀ key ∈ flowKeys, key ∉ l.keys) →
      (l.execute env ctx).Within (fun _ => True) (fun _ _ => True) (LeavesFlow ctx) (fun _ => True) := by
    intro hkeys
    refine Proc.Within.mono (execute_within (A := fun _ => True) (fun _ _ _ _ _ _ => trivial) l ctx)
      (fun _ _ _ _ => trivial) ?_
    intro r hr
    exact ⟨.of_grows hr.1.grows hkeys, fun _ _ => trivial⟩
  cases l with
  | plain p => exact hothers (p.flow_not_mem_keys hkeeps (hcontrol p rfl))
  | cache i => exact Run.within_step fun w _ => ⟨trivial, executeCache_leavesFlow env i ctx w⟩
  | rateLimit i => exact Run.within_step fun w _ => ⟨trivial, executeRateLimit_leavesFlow i ctx w⟩
  | _ => exact hothers fun _ _ => List.not_mem_nil

/-- A plugin that is no control action ends with the signal that the flag stands for. -/
theorem matches_endingOf {ctx : Context} (hclear : ctx.Clear) {p : Run}
    (h : p.Within (fun _ => True) (fun _ _ => True) (LeavesFlow ctx) (fun _ => True)) :
    Run.Matches Signal.Writes p (p >>= fun r => .ret (Flow.endingOf r)) := by
  refine Proc.Within.sim_map h ?_
  rintro ⟨result, c⟩ ⟨hleaves, -⟩
  cases result with
  | error stop => exact .error (.refl c)
  | ok u =>
    have hcleared : (c.removeMetadata RETURN_FLAG).Clear := by
      have hother : ∀ key ∈ flowKeys, key ≠ RETURN_FLAG → (c.removeMetadata RETURN_FLAG).metadata key = ctx.metadata key := by
        intro key hkey hne
        rw [Context.removeMetadata_metadata, Function.update_of_ne hne, hleaves.other key hkey hne]
      refine hclear.congr ?_
      intro key hkey
      by_cases hflag : key = RETURN_FLAG
      · rw [hflag, Context.removeMetadata_metadata, Function.update_self, hclear.flag]
      · exact hother key hkey hflag
    refine .ok hcleared ?_
    rcases hleaves.flag with hsame | htrue
    · have hnone : c.metadata RETURN_FLAG = none := hsame.trans hclear.flag
      rw [Context.getBool, hnone, if_neg (by rintro ⟨⟩)]
      exact (Context.removeMetadata_of_none hnone).symm
    · rw [Context.getBool, htrue, if_pos rfl]
      exact (Context.setMetadata_removeMetadata htrue).symm

theorem matches_leaf (env : Env) {l : Leaf} (hkeeps : l.KeepsFlow) {ctx : Context} (hclear : ctx.Clear) :
    Run.Matches Signal.Writes (l.execute env ctx) (Flow.leaf env ctx l) := by
  by_cases hcontrol : ∀ p, l = .plain p → p.control = false
  · have hflow : Flow.leaf env ctx l = l.execute env ctx >>= fun r => .ret (Flow.endingOf r) := by
      cases l with
      | plain p =>
        have hp := hcontrol p rfl
        cases p with
        | accept => cases hp
        | ret => cases hp
        | reject rcode => cases hp
        | jump target => cases hp
        | goto label => cases hp
        | _ => rfl
      | _ => rfl
    rw [hflow]
    exact matches_endingOf hclear (execute_leavesFlow env hkeeps hcontrol ctx)
  · push Not at hcontrol
    obtain ⟨p, rfl, hp⟩ := hcontrol
    cases p with
    | accept => exact Run.matches_done hclear rfl
    | ret => exact Run.matches_done hclear rfl
    | reject rcode => exact Run.matches_done (hclear.congr fun _ _ => rfl) rfl
    | jump target => exact Run.matches_done hclear rfl
    | goto label => exact Run.matches_done hclear rfl
    | _ => exact absurd rfl hp

end Leaf

/-! ### Jumps -/

/-- The signal is written into the context, or only pending after a jump. -/
def Signal.Carried (s : Signal) (ctx c : Context) : Prop :=
  c = s.write ctx ∨ (s ≠ .ret ∧ s ≠ .finish ∧ c = s.pend ctx)

namespace Signal.Carried

variable {s : Signal} {ctx c : Context}

theorem removeFlag (h : s.Carried ctx c) (hclear : ctx.Clear) : c.removeMetadata RETURN_FLAG = s.pend ctx := by
  rcases h with rfl | ⟨-, -, rfl⟩
  · exact s.pend_eq_of_write_flag hclear
  · exact Context.removeMetadata_of_none (s.pend_flag hclear)

theorem metadata (h : s.Carried ctx c) {key : String} (hkey : key ≠ RETURN_FLAG) :
    c.metadata key = (s.pend ctx).metadata key := by
  rcases h with rfl | ⟨-, -, rfl⟩
  · exact s.write_metadata hkey
  · rfl

theorem sameMessages (h : s.Carried ctx c) : ctx.SameMessages c := by
  rcases h with rfl | ⟨-, -, rfl⟩
  · exact s.sameMessages_write
  · exact s.sameMessages_pend

/-- The flag is restored after a jump: of the way the target ended only a jump or a goto is left. -/
theorem afterJump (ctx : Context) (s : Signal) : (Reading.coded.afterJump s).Carried ctx (s.pend ctx) := by
  cases s with
  | next => exact .inl rfl
  | ret => exact .inl rfl
  | finish => exact .inl rfl
  | jump target => exact .inr ⟨nofun, nofun, rfl⟩
  | goto label => exact .inr ⟨nofun, nofun, rfl⟩

end Signal.Carried

section

variable {env : Env} {reg : Registry} {exec : Plugin → Context → Run} {exec' : Plugin → Context → Flow.Run}

/-- Jumps are made in step until none is left. -/
theorem jumpLoop_matches
    (hexec : ∀ name plugin, reg.lookup name = some plugin → ∀ ctx : Context, ctx.Clear →
      Run.Matches Signal.Writes (exec plugin ctx) (exec' plugin ctx))
    (rounds : Nat) {s : Signal} {ctx c : Context} (hclear : ctx.Clear) (hc : s.Carried ctx c) :
    Run.Matches (fun s ctx c => s.Carried ctx c ∧ ∀ target, s ≠ .jump target) (jumpLoop reg exec rounds c)
      (Flow.jumps .coded reg exec' rounds s ctx) := by
  induction rounds generalizing s ctx c with
  | zero =>
    cases s with
    | jump target =>
      have hjump : c.hasMetadata "jump_target" = true := by
        rw [Context.hasMetadata, hc.metadata (by decide), Signal.pend, Context.setMetadata_metadata, Function.update_self]
        rfl
      rw [jumpLoop, hjump, if_pos rfl]
      exact Run.matches_fail hc.sameMessages
    | _ =>
      rw [jumpLoop_of_none _ _ ((hc.metadata (by decide)).trans (Signal.pend_jump _ hclear (by rintro target ⟨⟩)))]
      exact Run.matches_done hclear ⟨hc, by rintro target ⟨⟩⟩
  | succ rounds ih =>
    cases s with
    | jump target =>
      have hvalue : c.metadata "jump_target" = some (.string target) := by
        rw [hc.metadata (by decide), Signal.pend, Context.setMetadata_metadata, Function.update_self]
      have hjump : c.hasMetadata "jump_target" = true := by
        rw [Context.hasMetadata, hvalue]
        rfl
      have htarget : c.getString "jump_target" = some target := by
        rw [Context.getString, hvalue]
      have hcleared : (c.removeMetadata "jump_target").removeMetadata RETURN_FLAG = ctx := by
        rw [Context.removeMetadata_comm (by decide), hc.removeFlag hclear]
        exact Context.removeMetadata_setMetadata hclear.jump _
      have hregistry : ctx.getRegistry "__plugin_registry" = true := by
        rw [Context.getRegistry, hclear.registry]
      have hsaved : ctx.getBool RETURN_FLAG = none := by
        rw [Context.getBool, hclear.flag]
      rw [jumpLoop, hjump, if_pos rfl, htarget]
      dsimp only
      rw [hcleared, hregistry, if_pos rfl, Flow.jumps, hsaved]
      cases hlookup : reg.lookup target with
      | none =>
        dsimp only
        rw [jumpLoop_of_none _ _ hclear.jump]
        exact Run.matches_done hclear ⟨.inl rfl, by rintro target ⟨⟩⟩
      | some plugin =>
        refine Run.matches_andThen (hexec target plugin hlookup ctx hclear) ?_
        rintro s ctx c hclear rfl
        refine ih hclear ?_
        rw [restoreReturnFlag, s.pend_eq_of_write_flag hclear]
        exact .afterJump ctx s
    | _ =>
      rw [jumpLoop_of_none _ _ ((hc.metadata (by decide)).trans (Signal.pend_jump _ hclear (by rintro target ⟨⟩)))]
      exact Run.matches_done hclear ⟨hc, by rintro target ⟨⟩⟩

/-! ### Sequences -/

/-- A step and its jumps are taken in step, and the sequence goes on or is left alike. -/
theorem runSteps_matches
    (hexec : ∀ name plugin, reg.lookup name = some plugin → ∀ ctx : Context, ctx.Clear →
      Run.Matches Signal.Writes (exec plugin ctx) (exec' plugin ctx))
    (rounds : Nat) (tag : Option String) (index : Nat) {steps : List (SequenceStep Plugin)}
    (hsteps : ∀ step ∈ steps, ∀ ctx : Context, ctx.Clear →
      Run.Matches Signal.Writes (exec step.action ctx) (exec' step.action ctx))
    {ctx : Context} (hclear : ctx.Clear) :
    Run.Matches Signal.Writes (runSteps env reg exec rounds tag index steps ctx)
      (Flow.runSteps .coded env reg exec' rounds tag index steps ctx) := by
  induction steps generalizing index ctx with
  | nil => exact Run.matches_done hclear rfl
  | cons step rest ih =>
    have hstep : Run.Matches Signal.Writes (runStep env exec tag index ctx step)
        (Flow.runStep env exec' tag index ctx step) := by
      have haction : Run.Matches Signal.Writes (exec step.action (ctx.record (.step tag index)))
          (exec' step.action (ctx.record (.step tag index))) :=
        hsteps step (List.mem_cons_self ..) _ (hclear.congr fun _ _ => rfl)
      cases step with
      | exec plugin => exact haction
      | cond condition action =>
        rw [runStep, Flow.runStep]
        by_cases hcond : condition.eval env ctx = true
        · rw [if_pos hcond, if_pos hcond]
          exact haction
        · rw [if_neg hcond, if_neg hcond]
          exact Run.matches_done hclear rfl
    refine Run.matches_andThen hstep ?_
    rintro s ctx c hclear rfl
    refine Run.matches_andThen (jumpLoop_matches hexec rounds hclear (.inl rfl)) ?_
    rintro s ctx c hclear ⟨hcarried, hsettled⟩
    have hgoto : (∀ label, s ≠ .goto label) → c.hasMetadata "goto_label" = false := by
      intro hs
      rw [Context.hasMetadata, hcarried.metadata (by decide), s.pend_goto hclear hs]
      rfl
    cases s with
    | next =>
      obtain rfl : c = ctx := by
        rcases hcarried with hc | ⟨-, -, hc⟩
        · exact hc
        · exact hc
      rw [hgoto (by rintro label ⟨⟩), if_neg Bool.false_ne_true, Context.getBool, hclear.flag, if_neg (by rintro ⟨⟩)]
      exact ih (index + 1) (fun step hstep => hsteps step (List.mem_cons_of_mem _ hstep)) hclear
    | jump target => exact absurd rfl (hsettled target)
    | goto label =>
      have hhas : c.hasMetadata "goto_label" = true := by
        rw [Context.hasMetadata, hcarried.metadata (by decide), Signal.pend, Context.setMetadata_metadata,
          Function.update_self]
        rfl
      rw [hhas, if_pos rfl]
      refine Run.matches_done hclear ?_
      rw [← Context.setMetadata_removeMetadata_self, hcarried.removeFlag hclear]
      rfl
    | ret =>
      obtain rfl : c = Signal.ret.write ctx := hcarried.resolve_right fun h => h.1 rfl
      rw [hgoto (by rintro label ⟨⟩), if_neg Bool.false_ne_true, if_pos (Signal.getBool_write .ret (by rintro ⟨⟩))]
      exact Run.matches_done hclear rfl
    | finish =>
      obtain rfl : c = Signal.finish.write ctx := hcarried.resolve_right fun h => h.2.1 rfl
      rw [hgoto (by rintro label ⟨⟩), if_neg Bool.false_ne_true, if_pos (Signal.getBool_write .finish (by rintro ⟨⟩))]
      exact Run.matches_done hclear rfl

end

/-! ### Nests -/

section

variable {env : Env} {reg : Registry}

/-- A nest of sequences takes the same steps and ends with its signal. -/
theorem Plugin.execute_matches (hreg : reg.Nests) (fuel : Nat)
    {plugin : Plugin} (hnest : plugin.Nest) {ctx : Context} (hclear : ctx.Clear) :
    Run.Matches Signal.Writes (plugin.execute env reg fuel ctx) (Flow.execute .coded env reg fuel plugin ctx) := by
  induction fuel generalizing plugin ctx with
  | zero => exact Run.matches_fail (.refl ctx)
  | succ fuel ih =>
    cases hnest with
    | leaf hkeeps => exact Leaf.matches_leaf env hkeeps hclear
    | sequence hsteps =>
      exact runSteps_matches (fun name plugin hlookup ctx hclear => ih (hreg name plugin hlookup) hclear) fuel _ 0
        (fun step hstep ctx hclear => ih (hsteps step hstep) hclear) hclear

namespace PluginHandler

theorem gotoLoop_of_none {exec : Plugin → Context → Run} {rounds : Nat} {c : Context}
    (h : c.metadata "goto_label" = none) : gotoLoop reg exec rounds c = .done c := by
  have hnone : c.hasMetadata "goto_label" = false := by
    rw [Context.hasMetadata, h]
    rfl
  cases rounds with
  | zero => rw [gotoLoop, hnone, if_neg Bool.false_ne_true]
  | succ rounds => rw [gotoLoop, hnone, if_neg Bool.false_ne_true]

theorem gotoLoop_matches (hreg : reg.Nests) (fuel rounds : Nat)
    {s : Signal} {ctx : Context} (hclear : ctx.Clear) :
    Run.Matches Signal.Writes (gotoLoop reg (Plugin.execute env reg fuel) rounds (s.write ctx))
      (Flow.gotos reg (Flow.execute .coded env reg fuel) rounds s ctx) := by
  induction rounds generalizing s ctx with
  | zero =>
    cases s with
    | goto label => exact Run.matches_fail (Signal.goto label).sameMessages_write
    | _ =>
      rw [gotoLoop_of_none (Signal.write_goto _ hclear (by intro label h; cases h))]
      exact Run.matches_done hclear rfl
  | succ rounds ih =>
    cases s with
    | goto label =>
      have hvalue : ((Signal.goto label).write ctx).metadata "goto_label" = some (.string label) := by
        rw [Signal.write_metadata _ (by decide), Signal.pend, Context.setMetadata_metadata, Function.update_self]
      have hcleared : (((Signal.goto label).write ctx).removeMetadata "goto_label").removeMetadata RETURN_FLAG = ctx := by
        rw [Context.removeMetadata_comm (by decide), Signal.pend_eq_of_write_flag _ hclear]
        exact Context.removeMetadata_setMetadata hclear.goto _
      rw [gotoLoop, Context.hasMetadata, Context.getString, hvalue, Option.isSome_some, if_pos rfl]
      dsimp only
      rw [hcleared, Flow.gotos]
      cases hlookup : reg.lookup label with
      | none => exact Run.matches_done hclear rfl
      | some plugin =>
        refine Run.matches_andThen (Plugin.execute_matches hreg fuel (hreg label plugin hlookup) hclear) ?_
        rintro s ctx c hclear rfl
        exact ih hclear
    | _ =>
      rw [gotoLoop_of_none (Signal.write_goto _ hclear (by intro label h; cases h))]
      exact Run.matches_done hclear rfl

theorem lookup_matches (hreg : reg.Nests) (fuel : Nat) (entry : String) {ctx : Context} (hclear : ctx.Clear) :
    Run.Matches Signal.Writes
      (match reg.lookup entry with
        | some plugin => plugin.execute env reg fuel ctx
        | none => .done ctx)
      (match reg.lookup entry with
        | some plugin => Flow.execute .coded env reg fuel plugin ctx
        | none => Flow.done .next ctx) := by
  cases hlookup : reg.lookup entry with
  | none => exact Run.matches_done hclear rfl
  | some plugin => exact Plugin.execute_matches hreg fuel (hreg entry plugin hlookup) hclear

theorem runEntry_matches (hreg : reg.Nests) (fuel : Nat)
    (entry : String) {ctx : Context} (hclear : ctx.Clear) :
    Run.Matches Signal.Writes (runEntry env reg fuel entry ctx) (Flow.runEntry .coded env reg fuel entry ctx) := by
  refine Run.matches_andThen (lookup_matches hreg fuel entry hclear) ?_
  rintro s ctx c hclear rfl
  exact gotoLoop_matches hreg fuel fuel hclear

/-! ### After the plugins -/

/-- What the handler looks at once the plugins are done. -/
structure SameAnswer (ctx c : Context) : Prop extends ctx.SameMessages c where
  fromCache : c.getBool "response_from_cache" = ctx.getBool "response_from_cache"

theorem SameAnswer.write {s : Signal} (ctx : Context) : SameAnswer ctx (s.write ctx) where
  toSameMessages := s.sameMessages_write
  fromCache := by
    have hkey : (s.write ctx).metadata "response_from_cache" = ctx.metadata "response_from_cache" := by
      rw [s.write_metadata (by decide), s.pend_metadata (by decide) (by decide)]
    rw [Context.getBool, Context.getBool, hkey]

/-- Both runs end well, with their contexts as they were. -/
def Unchanged (ctx c : Context) (r r' : Outcome) : Prop := r = (.ok (), c) ∧ r' = (.ok (), ctx)

theorem andThen_unchanged {ctx c : Context} {p p' : Run} {k k' : Context → Run}
    (h : Proc.Sim (fun _ => True) Eq (Unchanged ctx c) p p')
    (hk : Proc.Sim (fun _ => True) Eq (Unchanged ctx c) (k c) (k' ctx)) :
    Proc.Sim (fun _ => True) Eq (Unchanged ctx c) (Run.andThen p k) (Run.andThen p' k') := by
  refine Proc.Sim.bind h ?_
  rintro r r' ⟨rfl, rfl⟩
  exact hk

theorem storePhase_unchanged {ctx c : Context} (h : SameAnswer ctx c) (hresponse : ctx.response ≠ none)
    (plugins : List Plugin) :
    Proc.Sim (fun _ => True) Eq (Unchanged ctx c) (storePhase env plugins c) (storePhase env plugins ctx) := by
  have hcache : ∀ i w, (Leaf.executeCache env i c w) = (c, (Leaf.executeCache env i ctx w).2) ∧
      (Leaf.executeCache env i ctx w).1 = ctx := by
    intro i w
    have hresponse' : c.response ≠ none := by
      rw [h.response]
      exact hresponse
    rw [Leaf.executeCache, Leaf.executeCache, CachePlugin.execute_of_response env w.now _ hresponse,
      CachePlugin.execute_of_response env w.now _ hresponse', CachePlugin.storedEntry, CachePlugin.storedEntry,
      h.fromCache, h.response, h.request]
    exact ⟨rfl, rfl⟩
  induction plugins with
  | nil => exact Proc.sim_ret.mpr ⟨rfl, rfl⟩
  | cons plugin rest ih =>
    refine andThen_unchanged ?_ ih
    unfold storeOne
    split
    · refine Proc.sim_atomic ?_
      rintro w w' - rfl
      dsimp only
      rw [(hcache _ w).1, (hcache _ w).2]
      exact ⟨⟨rfl, rfl⟩, rfl⟩
    · exact Proc.sim_ret.mpr ⟨rfl, rfl⟩

theorem reversePhase_unchanged {ctx c : Context} (h : ctx.SameMessages c) (plugins : List Plugin) :
    Proc.Sim (fun _ => True) Eq (Unchanged ctx c) (reversePhase plugins c) (reversePhase plugins ctx) := by
  induction plugins with
  | nil => exact Proc.sim_ret.mpr ⟨rfl, rfl⟩
  | cons plugin rest ih =>
    refine andThen_unchanged ?_ ih
    unfold saveOne
    split
    · refine Proc.sim_atomic ?_
      rintro w w' - rfl
      rw [saveStep, saveStep, h.response, h.request]
      exact ⟨⟨rfl, rfl⟩, rfl⟩
    · exact Proc.sim_ret.mpr ⟨rfl, rfl⟩

/-- The same result, and contexts with the same messages and the same trace. -/
def Agree (r r' : Outcome) : Prop := r.1 = r'.1 ∧ r'.2.SameMessages r.2

theorem postProcess_agree {ctx c : Context} (h : SameAnswer ctx c) :
    Proc.Sim (fun _ => True) Eq Agree (postProcess env reg c) (postProcess env reg ctx) := by
  rw [postProcess, postProcess, Context.hasResponse, Context.hasResponse, h.response]
  cases hresponse : ctx.response with
  | none => exact Proc.sim_ret.mpr ⟨rfl, h.toSameMessages⟩
  | some response =>
    have hsome : ctx.response ≠ none := by
      rw [hresponse]
      rintro ⟨⟩
    rw [Option.isSome_some, if_pos rfl, if_pos rfl]
    refine Proc.Sim.mono (andThen_unchanged (storePhase_unchanged h hsome _)
      (reversePhase_unchanged h.toSameMessages _)) ?_
    rintro r r' ⟨rfl, rfl⟩
    exact ⟨rfl, h.toSameMessages⟩

theorem initialContext_clear (now : Nat) (entry : String) (req : RequestContext) :
    (initialContext now entry req).Clear where
  flag := initialContext_metadata now entry req (by decide)
  jump := initialContext_metadata now entry req (by decide)
  goto := initialContext_metadata now entry req (by decide)
  registry := by
    rw [initialContext, Context.setMetadata_metadata, Function.update_self]

theorem process_agree (hreg : reg.Nests) (fuel : Nat) (entry : String)
    (req : RequestContext) :
    Proc.Sim (fun _ => True) Eq Agree (process env reg fuel entry req) (Flow.process .coded env reg fuel entry req) := by
  refine Proc.Sim.bind (S := fun c ctx => c = ctx ∧ ctx.Clear) (Proc.sim_atomic ?_) ?_
  · rintro w w' - rfl
    exact ⟨⟨rfl, initialContext_clear w.now entry req⟩, rfl⟩
  · rintro c ctx ⟨rfl, hclear⟩
    refine Proc.Sim.bind (runEntry_matches hreg fuel entry hclear) ?_
    intro r r' hr
    cases hr with
    | ok hclear hw =>
      cases hw
      exact postProcess_agree (.write _)
    | error hsame => exact Proc.sim_ret.mpr ⟨rfl, hsame⟩

/-- The steps a request took, with what else happened to it, and the response it is answered with. -/
def report (r : Outcome) : List TraceEvent × Except Stop Message := (r.2.trace, r.1.map fun _ => finish r.2)

theorem report_eq {r r' : Outcome} (h : Agree r r') : report r = report r' := by
  obtain ⟨hresult, hsame⟩ := h
  rw [report, report, hresult, hsame.trace, finish, finish, hsame.response, hsame.request]

end PluginHandler

end

/-! ### The documentation and the code -/

/-- Every nest of sequences takes the steps and gives the response of the code's reading, by itself or among other requests. -/
theorem process_eq_coded (env : Env) {reg : Registry}
    (hreg : reg.Nests) (fuel : Nat) (entry : String)
    (req : RequestContext) :
    PluginHandler.report <$> PluginHandler.process env reg fuel entry req =
      PluginHandler.report <$> Flow.process .coded env reg fuel entry req := by
  refine Proc.Sim.eq ?_
  rw [map_eq_pure_bind, map_eq_pure_bind]
  refine Proc.Sim.bind (PluginHandler.process_agree hreg fuel entry req) ?_
  intro r r' hr
  exact Proc.sim_ret.mpr (PluginHandler.report_eq hr)

def Registry.jumpRejected : Registry :=
  .ofList [("main", .sequence none [.exec (.leaf (.plain (.jump "sub"))), .exec (.leaf (.plain .dropResp))]),
    ("sub", .sequence (some "sub") [.exec (.leaf (.plain (.reject 5)))])]

/-- The target's refusal does not end the sequence that jumped, which drops it. -/
theorem process_eq_coded_jumpRejected :
    (((PluginHandler.report <$> PluginHandler.process (.answering (.ok Message.new)) .jumpRejected 4 "main"
      (.new (.ask 7 "a." .A) .udp)).run World.fresh).1.1) =
    [.step none 0, .step (some "sub") 0, .step none 1] := by
  have hnests : Registry.jumpRejected.Nests := by
    intro name plugin hlookup
    have hmem := AList.mem_lookup_iff.mp hlookup
    change _ ∈ [(⟨"main", _⟩ : Sigma fun _ : String => Plugin), ⟨"sub", _⟩] at hmem
    simp only [List.mem_cons, List.not_mem_nil, or_false] at hmem
    rcases hmem with h | h
    · cases h
      refine .sequence ?_
      intro step hstep
      simp only [List.mem_cons, List.not_mem_nil, or_false] at hstep
      rcases hstep with rfl | rfl
      · exact .leaf trivial
      · exact .leaf trivial
    · cases h
      refine .sequence ?_
      intro step hstep
      obtain rfl := List.mem_singleton.mp hstep
      exact .leaf trivial
  rw [process_eq_coded (.answering (.ok Message.new)) hnests]
  decide +kernel

/-- A sequence with a step that runs another one, which returns. -/
def Registry.nestedReturn : Registry :=
  .ofList [("main", .sequence none [.exec (.sequence (some "sub") [.exec (.leaf (.plain .ret))]),
    .exec (.leaf (.plain (.reject 5)))])]

/-- A sequence whose first step marks the request under the key that a goto uses. -/
def Registry.markedGoto : Registry :=
  .ofList [("main", .sequence none [.exec (.leaf (.plain (.mark ⟨"goto_label", none⟩))),
    .exec (.leaf (.plain (.reject 5)))])]

/-- The documented reading is not the code's: a target that rejects, a return in a step and a mark under the wrong key tell them apart. -/
theorem process_ne_documented :
    ((PluginHandler.report <$> PluginHandler.process (.answering (.ok Message.new)) .jumpRejected 4 "main"
        (.new (.ask 7 "a." .A) .udp)).run World.fresh).1 ≠
      ((PluginHandler.report <$> Flow.process .documented (.answering (.ok Message.new)) .jumpRejected 4 "main"
        (.new (.ask 7 "a." .A) .udp)).run World.fresh).1 ∧
    ((PluginHandler.report <$> PluginHandler.process (.answering (.ok Message.new)) .nestedReturn 4 "main"
        (.new (.ask 7 "a." .A) .udp)).run World.fresh).1 ≠
      ((PluginHandler.report <$> Flow.process .documented (.answering (.ok Message.new)) .nestedReturn 4 "main"
        (.new (.ask 7 "a." .A) .udp)).run World.fresh).1 ∧
    ((PluginHandler.report <$> PluginHandler.process (.answering (.ok Message.new)) .markedGoto 4 "main"
        (.new (.ask 7 "a." .A) .udp)).run World.fresh).1 ≠
      ((PluginHandler.report <$> Flow.process .documented (.answering (.ok Message.new)) .markedGoto 4 "main"
        (.new (.ask 7 "a." .A) .udp)).run World.fresh).1 := by
  refine ⟨?_, ?_, ?_⟩
  · intro h
    exact absurd (congrArg Prod.fst h) (by decide +kernel)
  · intro h
    exact absurd (congrArg Prod.fst h) (by decide +kernel)
  · intro h
    exact absurd (congrArg Prod.fst h) (by decide +kernel)

end Lazydns
