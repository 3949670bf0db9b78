import Lazydns.Plugin.Dataset
import Lazydns.Plugin.Sequence

/-!
# Building the conditions on names and addresses

`qname`, `resp_ip` and their negations, each with a builder of its own. What is registered under a name is given as the conditions find it when they are evaluated: a data set may have been reloaded since they were built.
-/

namespace Lazydns

/-- A plugin as a condition looks at it: a data set, or anything else by its name. -/
inductive RegisteredPlugin where
  | domainSet (p : DomainSetPlugin)
  | ipSet (p : IpSetDataset)
  | other (name : String)

/-- `plugin.name()`. -/
def RegisteredPlugin.name : RegisteredPlugin → String
  | domainSet _ => "domain_set"
  | ipSet _ => "ip_set"
  | other name => name

/-- `builder.get_plugin`. -/
abbrev PluginRegistry := String → Option RegisteredPlugin

def referredName (ref : String) : String := (stripPrefix "$" ref).getD ref

variable (env : RuleEnv) (registry : PluginRegistry)

def QnameBuilder.build (conditionStr : String) : Except Error Condition :=
  match stripPrefix "qname " conditionStr with
  | none => .error (.config ("Invalid qname format: " ++ conditionStr))
  | some domainSetRef =>
    match registry (referredName domainSetRef) with
    | some plugin =>
      if plugin.name = "domain_set" then
        match plugin with
        | .domainSet p => .ok (.qname (p.rules.matches env))
        | _ => .ok (.const false)
      else .ok (.const false)
    | none => .ok (.const false)

def QnameNegBuilder.build (conditionStr : String) : Except Error Condition :=
  match stripPrefix "!qname " conditionStr with
  | none => .error (.config ("Invalid !qname format: " ++ conditionStr))
  | some domain => .ok (.notQname domain)

def RespIpBuilder.build (conditionStr : String) : Except Error Condition :=
  match stripPrefix "resp_ip " conditionStr with
  | none => .error (.config ("Invalid resp_ip format: " ++ conditionStr))
  | some ipSetRef =>
    match registry (referredName ipSetRef) with
    | some plugin =>
      if plugin.name = "ip_set" then
        match plugin with
        | .ipSet p => .ok (.respIp p.matches)
        | _ => .ok (.const false)
      else .ok (.const false)
    | none => .ok (.const false)

def RespIpNegBuilder.build (conditionStr : String) : Except Error Condition :=
  match stripPrefix "!resp_ip " conditionStr with
  | none => .error (.config ("Invalid !resp_ip format: " ++ conditionStr))
  | some ipSetRef =>
    match registry (referredName ipSetRef) with
    | some plugin =>
      if plugin.name = "ip_set" then
        match plugin with
        | .ipSet p => .ok (.notRespIp p.matches)
        | _ => .ok (.const true)
      else .ok (.const true)
    | none => .ok (.const true)

/-! ### What they build -/

/-- The names in the domain set that a reference leads to; there are none if it leads to no such set. -/
def domainsOf (ref name : String) : Bool :=
  match registry (referredName ref) with
  | some (.domainSet p) => p.rules.matches env name
  | _ => false

theorem QnameBuilder.build_eq (ref : String) : ∃ condition,
    build env registry ("qname " ++ ref) = .ok condition ∧ ∀ e ctx, condition.eval e ctx =
      ctx.request.questions.head?.any fun q => domainsOf env registry ref (trimEndDots q.qname) := by
  have hnone : ∀ q : Option Dns.Question, false = q.any fun _ => false := by
    intro q
    cases q <;> rfl
  rw [build, stripPrefix_eq_some_iff.mpr rfl]
  unfold domainsOf
  dsimp only
  cases registry (referredName ref) with
  | none => exact ⟨_, rfl, fun _ _ => hnone _⟩
  | some plugin =>
    cases plugin with
    | domainSet p => exact ⟨_, rfl, fun _ _ => rfl⟩
    | ipSet p => exact ⟨_, rfl, fun _ _ => hnone _⟩
    | other name => exact ⟨_, ite_self _, fun _ _ => hnone _⟩

theorem QnameNegBuilder.build_eq (ref : String) : build ("!qname " ++ ref) = .ok (.notQname ref) := by
  rw [build, stripPrefix_eq_some_iff.mpr rfl]

/-- The two conditions on addresses are built side by side. -/
theorem RespIpBuilder.build_eq (ref : String) : ∃ condition negated,
    build registry ("resp_ip " ++ ref) = .ok condition ∧
      RespIpNegBuilder.build registry ("!resp_ip " ++ ref) = .ok negated ∧
      ∀ e ctx, negated.eval e ctx = !condition.eval e ctx := by
  rw [build, RespIpNegBuilder.build, stripPrefix_eq_some_iff.mpr rfl, stripPrefix_eq_some_iff.mpr rfl]
  dsimp only
  cases registry (referredName ref) with
  | none => exact ⟨_, _, rfl, rfl, fun _ _ => rfl⟩
  | some plugin =>
    cases plugin with
    | ipSet p => exact ⟨_, _, rfl, rfl, fun _ _ => rfl⟩
    | domainSet p => exact ⟨_, _, rfl, rfl, fun _ _ => rfl⟩
    | other name => exact ⟨_, _, ite_self _, ite_self _, fun _ _ => rfl⟩

end Lazydns
