import Lazydns.Plugin.Env
import Lazydns.Plugin.Context

/-!
# Plugins that edit the request or the response

Redirection rewrites the name of the first question in place. The others change the records of a response that is already there, or drop it.
-/

namespace Lazydns

open Dns

/-! ### Redirect -/

structure RedirectRule where
  source : String
  target : String
  deriving DecidableEq, Repr

namespace RedirectRule

/-- A rule `*.suffix` needs a dot before the suffix, or the suffix alone. -/
def matchesName (env : Env) (r : RedirectRule) (qname : String) : Bool :=
  let sourceLower := env.toLowercase r.source
  let qnameLower := env.toLowercase qname
  match stripPrefix "*." sourceLower with
  | some suffix => qnameLower == suffix || (stripSuffix ("." ++ suffix) qnameLower).isSome
  | none => qnameLower == sourceLower

def apply (env : Env) (r : RedirectRule) (qname : String) : String :=
  match stripPrefix "*." (env.toLowercase r.source), stripPrefix "*." (env.toLowercase r.target) with
  | some sourceSuffix, some targetSuffix =>
    match stripSuffix sourceSuffix (env.toLowercase qname) with
    | some kept =>
      match stripSuffix "." kept with
      | some shorter =>
        if (stripPrefix "." targetSuffix).isSome then shorter ++ targetSuffix
        else kept ++ targetSuffix
      | none => kept ++ targetSuffix
    | none => r.target
  | _, _ => r.target

end RedirectRule

structure RedirectPlugin where
  rules : List RedirectRule
  deriving DecidableEq, Repr

namespace RedirectPlugin

/-- The name a question is asked under after the first matching rule. -/
def rewrite (env : Env) (p : RedirectPlugin) (qname : String) : String :=
  match p.rules.find? fun r => r.matchesName env qname with
  | some r => r.apply env qname
  | none => qname

def rewriteFirst (env : Env) (p : RedirectPlugin) : List Question → List Question
  | [] => []
  | q :: rest => { q with qname := p.rewrite env q.qname } :: rest

/-- The first question is asked under its new name from here on. -/
def execute (env : Env) (p : RedirectPlugin) (ctx : Context) : Context :=
  let questions := p.rewriteFirst env ctx.request.questions
  let ctx' := { ctx with request := { ctx.request with questions } }
  if questions = ctx.request.questions then ctx' else ctx'.record .renamed

end RedirectPlugin

/-! ### Responses -/

/-- Change the response in place, if there is one. -/
def editResponse (f : Message → Message) (ctx : Context) : Context :=
  ctx.setResponse (ctx.response.map f)

structure TtlPlugin where
  fix : Nat
  min : Nat
  max : Nat
  deriving DecidableEq, Repr

namespace TtlPlugin

def newTtl (p : TtlPlugin) (ttl : Nat) : Nat :=
  if 0 < p.fix then p.fix
  else
    let t := if 0 < p.min ∧ ttl < p.min then p.min else ttl
    if 0 < p.max ∧ p.max < t then p.max else t

def apply (p : TtlPlugin) : Message → Message :=
  Message.mapRecords fun rr => { rr with ttl := p.newTtl rr.ttl }

def execute (p : TtlPlugin) : Context → Context := editResponse p.apply

end TtlPlugin

/-- Drop the records of a type from the answer and additional sections. -/
def withoutType (rtype : RecordType) (m : Message) : Message :=
  { m with
    answers := m.answers.filter (·.rtype ≠ rtype)
    additional := m.additional.filter (·.rtype ≠ rtype) }

def PreferIpv4Plugin.execute : Context → Context := editResponse (withoutType .AAAA)

def PreferIpv6Plugin.execute : Context → Context := editResponse (withoutType .A)

inductive IpPreference where
  | ipv4 | ipv6 | ipv4PreferIpv6Fallback | ipv6PreferIpv4Fallback | both
  deriving DecidableEq, Repr

namespace DualSelectorPlugin

/-- Unlike `prefer_ipv4` and `prefer_ipv6`, only the answer section is filtered. -/
def select (preference : IpPreference) (m : Message) : Message :=
  let keepOther (rtype : RecordType) := { m with answers := m.answers.filter (·.rtype ≠ rtype) }
  match preference with
  | .ipv4 => keepOther .AAAA
  | .ipv6 => keepOther .A
  | .ipv4PreferIpv6Fallback => if m.answers.any (·.rtype == .A) then keepOther .AAAA else m
  | .ipv6PreferIpv4Fallback => if m.answers.any (·.rtype == .AAAA) then keepOther .A else m
  | .both => m

def execute (preference : IpPreference) : Context → Context := editResponse (select preference)

end DualSelectorPlugin

def DropRespPlugin.execute (ctx : Context) : Context := ctx.setResponse none

end Lazydns
