import Mathlib.Algebra.Group.Nat.Defs
import Lazydns.Lib.Lru
import Lazydns.Plugin.Context

/-!
# Plugins that refuse

The access list, the rate limiter and the domain validator. Each answers REFUSED through `set_refused`; only the rate limiter also stops the sequence.
-/

namespace Lazydns

open Dns

/-! ### Access list -/

inductive AclAction where
  | allow | deny
  deriving DecidableEq, Repr

structure AclRule where
  network : IpNet
  action : AclAction
  deriving DecidableEq, Repr

structure QueryAclPlugin where
  rules : List AclRule
  defaultAction : AclAction
  deriving DecidableEq, Repr

def LOCALHOST_IPV4 : IpAddr := .v4 0x7F000001

namespace QueryAclPlugin

/-- The action of the first rule that matches, else the default. -/
def evaluate (acl : QueryAclPlugin) (ip : IpAddr) : AclAction :=
  match acl.rules.find? fun rule => rule.network.contains ip with
  | some rule => rule.action
  | none => acl.defaultAction

/-- The address the access list judges a request by. -/
def clientIp (ctx : Context) : IpAddr := (ctx.getIp "client_ip").getD LOCALHOST_IPV4

def execute (acl : QueryAclPlugin) (ctx : Context) : Context :=
  match acl.evaluate (clientIp ctx) with
  | .allow => ctx
  | .deny => (ctx.record (.aclDenied (clientIp ctx))).setRefused

end QueryAclPlugin

/-! ### Rate limit -/

/-- One client's window. The count is a `u32`. -/
structure RateLimitEntry where
  count : Nat
  windowStart : Nat
  deriving DecidableEq, Repr

structure RateLimitPlugin where
  maxQueries : Nat
  windowSecs : Nat
  limits : IpAddr → Option RateLimitEntry

namespace RateLimitPlugin

def new (maxQueries windowSecs : Nat) : RateLimitPlugin where
  maxQueries := maxQueries
  windowSecs := windowSecs
  limits := fun _ => none

/-- The entry after one more query, and whether that query is over the limit. -/
def countQuery (p : RateLimitPlugin) (now : Nat) : Option RateLimitEntry → Bool × RateLimitEntry
  | none => (false, ⟨1, now⟩)
  | some entry =>
    if p.windowSecs * 1000 ≤ now - entry.windowStart then (false, ⟨1, now⟩)
    else
      let count := (entry.count + 1) % 2 ^ 32
      (decide (p.maxQueries < count), ⟨count, entry.windowStart⟩)

def shouldLimit (p : RateLimitPlugin) (now : Nat) (client : IpAddr) : Bool × RateLimitPlugin :=
  let r := p.countQuery now (p.limits client)
  (r.1, { p with limits := Function.update p.limits client (some r.2) })

/-- Without a client address the limit is skipped. -/
def execute (now : Nat) (ctx : Context) (p : RateLimitPlugin) : Context × RateLimitPlugin :=
  match ctx.getIp "client_ip" with
  | none => (ctx, p)
  | some client =>
    match p.shouldLimit now client with
    | (true, p) =>
      ((ctx.record (.rateLimitExceeded client)).setRefused.setMetadata RETURN_FLAG (.bool true), p)
    | (false, p) => (ctx, p)

/-- `cleanup`, the periodic background task. -/
def cleanup (now : Nat) (p : RateLimitPlugin) : RateLimitPlugin :=
  { p with limits := fun client =>
      (p.limits client).filter fun entry =>
        decide (now - entry.windowStart < p.windowSecs * 1000 * 2) }

end RateLimitPlugin

/-! ### Domain validation -/

inductive ValidationResult where
  | valid
  | invalid (reason : String)
  deriving DecidableEq, Repr

structure DomainValidatorPlugin where
  strictMode : Bool
  cache : Lru String ValidationResult

namespace DomainValidatorPlugin

def new (strictMode : Bool) (cacheSize : Nat) : DomainValidatorPlugin where
  strictMode := strictMode
  cache := Lru.empty (max cacheSize 1) (Nat.le_max_right _ _)

def isAsciiAlphanumeric (b : UInt8) : Bool :=
  (48 ≤ b && b ≤ 57) || (65 ≤ b && b ≤ 90) || (97 ≤ b && b ≤ 122)

/-- What is wrong with one label, if anything. -/
def checkLabel (strictMode : Bool) (qtype : Option RecordType) (label : List UInt8) :
    Option String :=
  if label.isEmpty || decide (63 < label.length) then some "invalid length"
  else
    let underscoreOk := label.head? == some 95 && (qtype == some .SVCB || qtype == some .HTTPS)
    if !(label.head?.any isAsciiAlphanumeric) && !underscoreOk then some "invalid characters"
    else if !(label.getLast?.any isAsciiAlphanumeric) then some "invalid characters"
    else if !(label.tail.dropLast.all fun b => isAsciiAlphanumeric b || b == 45) then
      some "invalid characters"
    else
      let lower := (label.take 4).map fun b => if 65 ≤ b && b ≤ 90 then b + 32 else b
      let isPunycodeLabel := decide (5 ≤ label.length) && lower == [120, 110, 45, 45]
      let doubleHyphen := (label.zip label.tail).any fun p => p.1 == 45 && p.2 == 45
      if strictMode && doubleHyphen && !isPunycodeLabel then some "invalid format" else none

def validateDomainWithQtype (strictMode : Bool) (domain : String) (qtype : Option RecordType) :
    ValidationResult :=
  let bytes := domain.toList.flatMap String.utf8EncodeChar
  if bytes.isEmpty || decide (253 < bytes.length) then .invalid "invalid length"
  else if domain = "." then .valid
  else
    match (bytes.splitOn 46).findSome? (checkLabel strictMode qtype) with
    | some reason => .invalid reason
    | none => .valid

def handleResult (result : ValidationResult) (ctx : Context) : Context :=
  match result with
  | .valid => ctx
  | .invalid _ => ctx.setRefused

/-- The verdict is looked up by name alone; the query type only matters when it is computed. -/
def execute (ctx : Context) (p : DomainValidatorPlugin) : Context × DomainValidatorPlugin :=
  let question := ctx.request.questions.head?
  let qname := (question.map Question.qname).getD ""
  match p.cache.get qname with
  | (some result, cache) => (handleResult result ctx, { p with cache })
  | (none, _) =>
    let result := validateDomainWithQtype p.strictMode qname (question.map Question.qtype)
    (handleResult result ctx, { p with cache := p.cache.put qname result })

end DomainValidatorPlugin

end Lazydns
