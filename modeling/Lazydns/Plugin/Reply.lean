import Lazydns.Plugin.Env
import Lazydns.Plugin.Context

/-!
# Plugins that answer by themselves

Each of these builds a whole reply from the request. They differ in which questions they copy: a rejection copies all of them, the others only the first.
-/

namespace Lazydns

open Dns

/-- A fresh reply to a request: its id, the response bit, and the given questions and answers. -/
def replyTo (request : Message) (questions : List Question) (answers : List ResourceRecord) :
    Message :=
  { Message.new with id := request.id, qr := true, questions, answers }

/-- Set a reply that repeats only the question `q`, the request's first. -/
def answerFirst (ctx : Context) (q : Question) (reply : Message) : Context :=
  (if ctx.request.questions = [q] then ctx else ctx.record .answeredFirst).setResponse (some reply)

/-! ### Reject -/

namespace RejectPlugin

def execute (rcode : UInt8) (ctx : Context) : Context :=
  (ctx.setResponse (some { replyTo ctx.request ctx.request.questions [] with
    rcode := ResponseCode.fromU8 rcode })).setMetadata RETURN_FLAG (.bool true)

end RejectPlugin

/-! ### Black hole -/

structure BlackholePlugin where
  ipv4 : List (BitVec 32)
  ipv6 : List (BitVec 128)
  deriving DecidableEq, Repr

namespace BlackholePlugin

/-- The common shape of `make_response_for_a` and `make_response_for_aaaa`. -/
def makeResponse (rtype : RecordType) (data : List RData) (req : Message) : Option Message :=
  match req.questions with
  | [q] =>
    if data.isEmpty || q.qtype ≠ rtype then none
    else some (replyTo req [q] (data.map fun d => ⟨q.qname, rtype, .IN, 300, d⟩))
  | _ => none

def makeResponseForA (p : BlackholePlugin) : Message → Option Message :=
  makeResponse .A (p.ipv4.map .A)

def makeResponseForAaaa (p : BlackholePlugin) : Message → Option Message :=
  makeResponse .AAAA (p.ipv6.map .AAAA)

def execute (p : BlackholePlugin) (ctx : Context) : Context :=
  match (p.makeResponseForA ctx.request).or (p.makeResponseForAaaa ctx.request) with
  | some resp => ctx.setResponse (some resp)
  | none => ctx

end BlackholePlugin

/-! ### Arbitrary records -/

/-- The configured records by lower-case name. -/
structure ArbitraryPlugin where
  map : String → Option (List ResourceRecord)

namespace ArbitraryPlugin

/-- Replaces any response there is; without a question it does nothing. -/
def execute (env : Env) (p : ArbitraryPlugin) (ctx : Context) : Context :=
  match ctx.request.questions.head? with
  | none => ctx
  | some q =>
    match p.map (env.toLowercase (trimEndDots q.qname)) with
    | some rrs => answerFirst ctx q (replyTo ctx.request [q] rrs)
    | none => ctx

end ArbitraryPlugin

/-! ### Hosts -/

structure HostsPlugin where
  hosts : String → Option (List IpAddr)

namespace HostsPlugin

/-- The record of one address, if it is of the family asked for. -/
def hostRecord (q : Question) : IpAddr → Option ResourceRecord
  | .v4 addr => if q.qtype = .A then some ⟨q.qname, .A, q.qclass, 3600, .A addr⟩ else none
  | .v6 addr => if q.qtype = .AAAA then some ⟨q.qname, .AAAA, q.qclass, 3600, .AAAA addr⟩ else none

/-- `create_response`, with the request's id. -/
def createResponse (request : Message) (q : Question) (ips : List IpAddr) : Message :=
  { replyTo request [q] (ips.filterMap (hostRecord q)) with aa := true }

def execute (env : Env) (p : HostsPlugin) (ctx : Context) : Context :=
  if ctx.hasResponse then ctx
  else
    match ctx.request.questions.head? with
    | none => ctx
    | some q =>
      if q.qtype ≠ .A ∧ q.qtype ≠ .AAAA then ctx
      else
        match p.hosts (env.toLowercase (trimEndDots q.qname)) with
        | some ips => answerFirst ctx q (createResponse ctx.request q ips)
        | none => ctx

end HostsPlugin

/-! ### Reverse lookup -/

/-- The names last seen for an address, each until a time. -/
structure ReverseLookupPlugin where
  handlePtr : Bool
  ttl : Nat
  cache : IpAddr → Option (String × Nat)

namespace ReverseLookupPlugin

/-- `s.trim_end_matches(p)` on characters, with the length as fuel. -/
def trimEndMatches (p : List Char) : Nat → List Char → List Char
  | 0, s => s
  | fuel + 1, s =>
    if p.isSuffixOf s then trimEndMatches p fuel (s.take (s.length - p.length)) else s

/-- The labels of a reverse name under a zone: the zone and any dots before it are cut off. -/
def zoneLabels (zone : String) (s : List Char) : List (List Char) :=
  let without := trimEndMatches zone.toList s.length s
  (without.reverse.dropWhile (· = '.')).reverse.splitOn '.'

def hexDigit (c : Char) : Option Nat :=
  if '0' ≤ c ∧ c ≤ '9' then some (c.toNat - 48)
  else if 'a' ≤ c ∧ c ≤ 'f' then some (c.toNat - 87)
  else none

/-- `u8::from_str_radix(_, 16)` on two characters; a leading plus sign is allowed. -/
def hexByte (hi lo : Char) : Option Nat :=
  if hi = '+' then hexDigit lo else do return (← hexDigit hi) * 16 + (← hexDigit lo)

def hexBytes : List Char → Option (List Nat)
  | hi :: lo :: rest => do return (← hexByte hi lo) :: (← hexBytes rest)
  | [c] => do return [← hexByte c '0']
  | [] => some []

/-- `parse_ptr`: the address a reverse name stands for. -/
def parsePtr (env : Env) (qname : String) : Option IpAddr :=
  let s := (trimEndDots qname).toList.map Char.toLower
  if ".in-addr.arpa".toList.isSuffixOf s then
    let parts := zoneLabels ".in-addr.arpa" s
    if parts.length = 4 then env.parseIp (String.ofList (['.'].intercalate parts.reverse)) else none
  else if ".ip6.arpa".toList.isSuffixOf s then
    let labels := zoneLabels ".ip6.arpa" s
    if labels.all fun label => (label.flatMap String.utf8EncodeChar).length = 1 then
      match hexBytes labels.reverse.flatten with
      | some bytes =>
        if bytes.length = 16 then some (.v6 (BitVec.ofNat 128 (bytes.foldl (256 * · + ·) 0)))
        else none
      | none => none
    else none
  else none

/-- `lookup`: an expired entry is removed. -/
def lookup (now : Nat) (ip : IpAddr) (p : ReverseLookupPlugin) :
    Option String × ReverseLookupPlugin :=
  match p.cache ip with
  | none => (none, p)
  | some (fqdn, expiresAt) =>
    if now < expiresAt then (some fqdn, p)
    else (none, { p with cache := Function.update p.cache ip none })

/-- The name saved for an answer record: the question's when there is exactly one. -/
def savedName (req : Message) (rr : ResourceRecord) : String :=
  match req.questions with
  | [q] => q.qname
  | _ => rr.name

def saveRecord (now : Nat) (req : Message) (p : ReverseLookupPlugin) (rr : ResourceRecord) :
    ReverseLookupPlugin :=
  let save (ip : IpAddr) := { p with
    cache := Function.update p.cache ip (some (savedName req rr, now + min rr.ttl p.ttl * 1000)) }
  match rr.rdata with
  | .A addr => save (.v4 addr)
  | .AAAA addr => save (.v6 addr)
  | _ => p

def saveIpsAfter (now : Nat) (req resp : Message) (p : ReverseLookupPlugin) : ReverseLookupPlugin :=
  resp.answers.foldl (saveRecord now req) p

/-- Answers a PTR question from the saved names. -/
def execute (env : Env) (now : Nat) (ctx : Context) (p : ReverseLookupPlugin) :
    Context × ReverseLookupPlugin :=
  match ctx.request.questions.head? with
  | none => (ctx, p)
  | some q =>
    if p.handlePtr && q.qtype == .PTR then
      match parsePtr env q.qname with
      | none => (ctx, p)
      | some ip =>
        match p.lookup now ip with
        | (some fqdn, p) =>
          (answerFirst ctx q (replyTo ctx.request [q] [⟨q.qname, .PTR, .IN, 5, .PTR fqdn⟩]), p)
        | (none, p) => (ctx, p)
    else (ctx, p)

end ReverseLookupPlugin

end Lazydns
