import Lazydns.Plugin.Child
import Lazydns.Server.Service

/-!
# Which child of a fallback answers

A fallback that also goes on after an empty answer should end with the response of the first child that answers on its own. The children share one context, though: an empty answer stays in it and keeps every later forward from asking, and a return flag that one child leaves stops the sequences of the next ones after their first step.
-/

namespace Lazydns

open Dns

/-! ### The law -/

/-- A request as the handler passes it on: no response and no control flow yet. -/
structure Context.Fresh (ctx : Context) : Prop extends ctx.Idle where
  response : ctx.response = none
  flag : ctx.metadata RETURN_FLAG = none

def answered (r : Outcome × World) : Bool := r.1.2.response.any fun m => !m.answers.isEmpty

/-- Two runs with the same result, the same response and the same shared state. -/
structure SameAnswer (r r' : Outcome × World) : Prop where
  result : r.1.1 = r'.1.1
  response : r.1.2.response = r'.1.2.response
  world : r.2 = r'.2

section

variable (exec : Plugin → Context → Run) (ctx₀ : Context)

/-- The response of the first child that answers when it is run from the original request. -/
def firstAnswer : List Plugin → World → Option Message
  | [], _ => none
  | child :: rest, w =>
    let own := (exec child ctx₀).run w
    if answered own then own.1.2.response else firstAnswer rest own.2

/-- Each child, up to the first that answers, does from the context it finds what it does on its own. -/
def Unaltered : List Plugin → Context → World → Prop
  | [], _, _ => True
  | child :: rest, ctx, w =>
    let own := (exec child ctx₀).run w
    let actual := (exec child ctx).run w
    SameAnswer actual own ∧ (answered own = false → Unaltered rest actual.1.2 actual.2)

/-- Each child, up to the first that answers, finds no response, and no return flag unless that makes no difference to it. -/
def Undisturbed : List Plugin → Context → World → Prop
  | [], _, _ => True
  | child :: rest, ctx, w =>
    let own := (exec child ctx₀).run w
    let actual := (exec child ctx).run w
    ctx.response = none ∧
      (ctx.metadata RETURN_FLAG ≠ none →
        SameAnswer ((exec child (ctx₀.setMetadata RETURN_FLAG (.bool true))).run w) own) ∧
      (answered own = false → Undisturbed rest actual.1.2 actual.2)

end

/-- The fallback ends with the response of the first child that answers on its own, if one does, and no child is stopped or altered by those before it. -/
structure FallbackLaw (env : Env) (reg : Registry) (fuel : Nat) (children : List Plugin) (ctx₀ : Context)
    (w : World) : Prop where
  selects : ∀ m, firstAnswer (Plugin.execute env reg fuel) ctx₀ children w = some m →
    (((Plugin.fallback children false).execute env reg (fuel + 1) ctx₀).run w).1.2.response = some m
  unaltered : Unaltered (Plugin.execute env reg fuel) ctx₀ children ctx₀ w

/-! ### One child -/

section

variable {exec : Plugin → Context → Run} {ctx₀ ctx : Context} {child : Plugin} {w : World}

/-- A context that earlier children may have left. -/
structure Left (ctx₀ ctx : Context) : Prop where
  idle : ctx.Idle
  request : ctx.request = ctx₀.request
  flag : ctx.metadata RETURN_FLAG = none ∨ ctx.metadata RETURN_FLAG = some (.bool true)

theorem SameEnd.answer {r r' : Outcome × World} (h : SameEnd r r') : SameAnswer r r' :=
  ⟨h.result, h.context.response, h.world⟩

theorem SameAnswer.symm {r r' : Outcome × World} (h : SameAnswer r r') : SameAnswer r' r :=
  ⟨h.result.symm, h.response.symm, h.world.symm⟩

theorem SameAnswer.trans {r r' r'' : Outcome × World} (h : SameAnswer r r') (h' : SameAnswer r' r'') :
    SameAnswer r r'' :=
  ⟨h.result.trans h'.result, h.response.trans h'.response, h.world.trans h'.world⟩

theorem Left.step (h : Left ctx₀ ctx) {r : Outcome × World} (hend : ChildEnd ctx w r) :
    Left ctx₀ r.1.2 where
  idle := hend.idle
  request := hend.request.trans h.request
  flag := by
    rcases hend.flag with heq | htrue
    · rw [heq]
      exact h.flag
    · exact .inr htrue

/-- A child does what it does on its own exactly if it finds no response, and no flag that makes a difference: with a response it would send no query, and without one it sends one to get a response. -/
theorem sameAnswer_iff (hchild : Behaves (exec child)) (hfresh : ctx₀.Fresh) (hleft : Left ctx₀ ctx) :
    SameAnswer ((exec child ctx).run w) ((exec child ctx₀).run w) ↔
      ctx.response = none ∧ (ctx.metadata RETURN_FLAG ≠ none →
        SameAnswer ((exec child (ctx₀.setMetadata RETURN_FLAG (.bool true))).run w)
          ((exec child ctx₀).run w)) := by
  have hidle : (ctx₀.setMetadata RETURN_FLAG (.bool true)).Idle := hfresh.toIdle.setFlag _
  have hflagged : ctx.response = none → ctx.metadata RETURN_FLAG ≠ none →
      SameAnswer ((exec child ctx).run w)
        ((exec child (ctx₀.setMetadata RETURN_FLAG (.bool true))).run w) := by
    intro hnone hne
    have htrue := hleft.flag.resolve_left hne
    refine (hchild.same _ _ w hleft.idle hidle ⟨hleft.request, hnone.trans hfresh.response.symm, ?_⟩).answer
    rw [htrue, Context.setMetadata_metadata, Function.update_self]
  constructor
  · intro hsame
    have hnone : ctx.response = none := by
      by_contra hne
      obtain ⟨m, hm⟩ := Option.ne_none_iff_exists'.mp hne
      obtain ⟨-, hresponse, hexchanges⟩ := (hchild.ends ctx w hleft.idle).kept m hm
      have hown := (hchild.ends ctx₀ w hfresh.toIdle).asked hfresh.response
      have hsome : ((exec child ctx₀).run w).1.2.response ≠ none := by
        rw [← hsame.response, hresponse]
        exact nofun
      have hlt := (hown.2 hsome).2
      rw [← hsame.world, hexchanges] at hlt
      exact absurd hlt (Nat.lt_irrefl _)
    exact ⟨hnone, fun hne => (hflagged hnone hne).symm.trans hsame⟩
  · rintro ⟨hnone, hflag⟩
    by_cases hunset : ctx.metadata RETURN_FLAG = none
    · exact (hchild.same _ _ w hleft.idle hfresh.toIdle ⟨hleft.request,
        hnone.trans hfresh.response.symm, hunset.trans hfresh.flag.symm⟩).answer
    · exact (hflagged hnone hunset).trans (hflag hunset)

/-- On its own a child is good enough for the fallback exactly if it answers. -/
theorem shouldFallback_own {r : Outcome × World} (hend : ChildEnd ctx₀ w r) :
    shouldFallback false r.1.2 (!r.1.1.toBool) = !answered r := by
  obtain ⟨⟨result, ctx'⟩, w'⟩ := r
  cases result with
  | ok u =>
    rw [shouldFallback, answered]
    cases ctx'.response <;> simp [Except.toBool]
  | error stop =>
    have hresponse := (hend.response_of_error rfl).2
    rw [shouldFallback, answered, hresponse]
    rfl

/-! ### All children -/

theorem unaltered_iff (hfresh : ctx₀.Fresh) : ∀ (children : List Plugin) (ctx : Context) (w : World),
    (∀ child ∈ children, Behaves (exec child)) → Left ctx₀ ctx →
      (Unaltered exec ctx₀ children ctx w ↔ Undisturbed exec ctx₀ children ctx w) := by
  intro children
  induction children with
  | nil => exact fun _ _ _ _ => Iff.rfl
  | cons child rest ih =>
    intro ctx w hchildren hleft
    have hchild := hchildren child List.mem_cons_self
    have hrest := ih ((exec child ctx).run w).1.2 ((exec child ctx).run w).2
      (fun c hc => hchildren c (List.mem_cons_of_mem _ hc))
      (hleft.step (hchild.ends ctx w hleft.idle))
    rw [Unaltered, Undisturbed, sameAnswer_iff hchild hfresh hleft, hrest, and_assoc]

theorem Unaltered.selects (hfresh : ctx₀.Fresh) : ∀ (children : List Plugin) (ctx : Context) (w : World),
    (∀ child ∈ children, Behaves (exec child)) → Left ctx₀ ctx → Unaltered exec ctx₀ children ctx w →
      ∀ m, firstAnswer exec ctx₀ children w = some m →
        ((runFallback exec false children ctx).run w).1.2.response = some m := by
  intro children
  induction children with
  | nil => exact fun _ _ _ _ _ m hm => nomatch hm
  | cons child rest ih =>
    intro ctx w hchildren hleft hunaltered m hm
    have hchild := hchildren child List.mem_cons_self
    obtain ⟨hsame, hnext⟩ := hunaltered
    have hshould : shouldFallback false ((exec child ctx).run w).1.2
        (!((exec child ctx).run w).1.1.toBool) = !answered ((exec child ctx₀).run w) := by
      rw [← shouldFallback_own (hchild.ends ctx₀ w hfresh.toIdle), shouldFallback,
        shouldFallback, hsame.result, hsame.response]
    rw [runFallback_cons (hchild.ends ctx w hleft.idle).fuel, hshould]
    rw [firstAnswer] at hm
    cases hanswered : answered ((exec child ctx₀).run w) with
    | true =>
      rw [hanswered] at hm
      exact hsame.response.trans hm
    | false =>
      rw [hanswered] at hm
      refine ih _ _ (fun c hc => hchildren c (List.mem_cons_of_mem _ hc))
        (hleft.step (hchild.ends ctx w hleft.idle)) (hnext hanswered) m ?_
      rw [hsame.world]
      exact hm

end

/-- For children of forwards, accepts and returns in sequences and fallbacks, of any number and nesting, and whatever their upstreams do: the first child that answers on its own gives the response, and none is altered, exactly if no child that is tried finds a response, or a return flag that makes a difference to it. -/
theorem fallbackLaw_iff (env : Env) (reg : Registry) {n fuel : Nat} {children : List Plugin}
    (hchildren : ∀ child ∈ children, child.Child n) (hfuel : n ≤ fuel) {ctx₀ : Context}
    (hfresh : ctx₀.Fresh) (w : World) :
    FallbackLaw env reg fuel children ctx₀ w ↔
      Undisturbed (Plugin.execute env reg fuel) ctx₀ children ctx₀ w := by
  have hbehaves : ∀ child ∈ children, Behaves (Plugin.execute env reg fuel child) :=
    fun child hchild => (hchildren child hchild).behaves hfuel
  have hleft : Left ctx₀ ctx₀ := ⟨hfresh.toIdle, rfl, .inl hfresh.flag⟩
  have hiff := unaltered_iff hfresh children ctx₀ w hbehaves hleft
  constructor
  · exact fun h => hiff.mp h.unaltered
  · intro h
    have hunaltered := hiff.mpr h
    exact ⟨hunaltered.selects hfresh children ctx₀ w hbehaves hleft, hunaltered⟩

def twoForwards : List Plugin := [.leaf (.forward 0), .leaf (.forward 1)]

def World.twoUpstreams : World :=
  { World.fresh with forwards := fun i => .new [if i = 0 then "192.0.2.1" else "192.0.2.2"] }

/-- The first upstream gives `reply`, the second an address. -/
def Env.twoUpstreams (reply : Except Error Message) : Env :=
  { Env.answering reply with
    exchange := fun _ addr _ =>
      if addr = "192.0.2.1" then (reply, 0)
      else (.ok { Message.ask 7 "a." .A with qr := true, answers := [⟨"a.", .A, .IN, 300, .A 1⟩] }, 0) }

theorem twoForwards_child : ∀ child ∈ twoForwards, child.Child 1 := by
  intro child hchild
  simp only [twoForwards, List.mem_cons, List.not_mem_nil, or_false] at hchild
  rcases hchild with rfl | rfl
  · exact .leaf trivial
  · exact .leaf trivial

/-- Where the first upstream is down the second one's address is the answer. -/
theorem fallbackLaw_down : FallbackLaw (.twoUpstreams (.error (.other "down"))) ∅ 1 twoForwards
    (Context.new (.ask 7 "a." .A)) .twoUpstreams :=
  (fallbackLaw_iff (.twoUpstreams (.error (.other "down"))) ∅ twoForwards_child le_rfl
    ⟨⟨rfl, rfl⟩, rfl, rfl⟩ .twoUpstreams).mpr
    ⟨rfl, fun h => absurd rfl h, fun _ => ⟨by decide +kernel, fun h => absurd (by decide +kernel) h,
      fun _ => trivial⟩⟩

/-- Where it has no address for the name, its empty answer is the final one. -/
theorem not_fallbackLaw_empty : ¬ FallbackLaw
    (.twoUpstreams (.ok { Message.ask 7 "a." .A with qr := true })) ∅ 1 twoForwards
    (Context.new (.ask 7 "a." .A)) .twoUpstreams := by
  intro h
  have hselects := h.selects { Message.ask 7 "a." .A with
    qr := true, answers := [⟨"a.", .A, .IN, 300, .A 1⟩] } (by decide +kernel)
  exact absurd hselects (by decide +kernel)

end Lazydns
