import Mathlib.Data.List.Infix
import Lazydns.Plugin.Context

/-!
# Audit events

The entries of the query log and the security events, as the event bus carries them. The codes of a message are in them by the names that `derive(Debug)` gives; their `Display` names are others, and are here as well. An address is shown by a function of the standard library, which is a parameter.
-/

namespace Lazydns

open Dns

/-! ### Names of codes -/

namespace Dns

/-- How `derive(Debug)` shows a variant with a number in it. -/
def debugUnknown (value : Nat) : String := "Unknown(" ++ toString value ++ ")"

def RecordType.debug : RecordType → String
  | A => "A" | NS => "NS" | CNAME => "CNAME" | SOA => "SOA" | PTR => "PTR" | MX => "MX" | TXT => "TXT"
  | AAAA => "AAAA" | SRV => "SRV" | OPT => "OPT" | DS => "DS" | RRSIG => "RRSIG" | NSEC => "NSEC"
  | DNSKEY => "DNSKEY" | NSEC3 => "NSEC3" | NSEC3PARAM => "NSEC3PARAM" | SVCB => "SVCB" | HTTPS => "HTTPS"
  | CAA => "CAA"
  | unknown value => debugUnknown value.toNat

def RecordClass.debug : RecordClass → String
  | IN => "IN" | CH => "CH" | HS => "HS"
  | unknown value => debugUnknown value.toNat

def ResponseCode.debug : ResponseCode → String
  | noError => "NoError" | formErr => "FormErr" | servFail => "ServFail" | nxDomain => "NXDomain"
  | notImp => "NotImp" | refused => "Refused" | yxDomain => "YXDomain" | yxRRSet => "YXRRSet"
  | nxRRSet => "NXRRSet" | notAuth => "NotAuth" | notZone => "NotZone"
  | unknown value => debugUnknown value.toNat

def ResponseCode.display : ResponseCode → String
  | noError => "NOERROR" | formErr => "FORMERR" | servFail => "SERVFAIL" | nxDomain => "NXDOMAIN"
  | notImp => "NOTIMP" | refused => "REFUSED" | yxDomain => "YXDOMAIN" | yxRRSet => "YXRRSET"
  | nxRRSet => "NXRRSET" | notAuth => "NOTAUTH" | notZone => "NOTZONE"
  | unknown value => "RCODE" ++ toString value.toNat

end Dns

/-! ### The query log -/

structure QueryLogEntry where
  timestamp : String
  queryId : UInt16
  clientIp : Option IpAddr
  protocol : String
  qname : String
  qtype : String
  qclass : String
  rcode : Option String
  answerCount : Option Nat
  responseTimeMs : Option Nat
  responseTimeUs : Option Nat
  cached : Option Bool
  upstream : Option String
  answers : Option (List String)
  deriving DecidableEq, Repr

namespace QueryLogEntry

def new (timestamp : String) (queryId : UInt16) (protocol qname qtype qclass : String) : QueryLogEntry where
  timestamp
  queryId
  clientIp := none
  protocol
  qname
  qtype
  qclass
  rcode := none
  answerCount := none
  responseTimeMs := none
  responseTimeUs := none
  cached := none
  upstream := none
  answers := none

variable (entry : QueryLogEntry)

def withClientIp (ip : IpAddr) : QueryLogEntry := { entry with clientIp := some ip }

def withResponse (rcode : String) (answerCount responseTimeMs : Nat) : QueryLogEntry :=
  { entry with
    rcode := some rcode
    answerCount := some answerCount
    responseTimeMs := some responseTimeMs }

def withResponseTimeUs (responseTimeUs : Nat) : QueryLogEntry :=
  { entry with responseTimeUs := some responseTimeUs }

def withCached (cached : Bool) : QueryLogEntry := { entry with cached := some cached }

def withAnswers (answers : List String) : QueryLogEntry := { entry with answers := some answers }

end QueryLogEntry

/-! ### Security events -/

inductive SecurityEventType where
  | rateLimitExceeded
  | blockedDomainQuery
  | upstreamFailure
  | aclDenied
  | malformedQuery
  | queryTimeout
  deriving DecidableEq, Repr

def SecurityEventType.asStr : SecurityEventType → String
  | rateLimitExceeded => "rate_limit_exceeded"
  | blockedDomainQuery => "blocked_domain_query"
  | upstreamFailure => "upstream_failure"
  | aclDenied => "acl_denied"
  | malformedQuery => "malformed_query"
  | queryTimeout => "query_timeout"

/-- The details of a security event are always absent and left out. -/
inductive AuditEvent where
  | query (entry : QueryLogEntry)
  | security (timestamp : String) (eventType : SecurityEventType) (message : String) (clientIp : Option IpAddr)
      (qname : Option String)
  deriving DecidableEq, Repr

/-! ### What is logged of a request -/

/-- `qname.contains("._dns-sd._udp")`. -/
def isDnsSdQuery (qname : String) : Bool := decide ("._dns-sd._udp".toList <:+: qname.toList)

/-- `get_metadata::<Instant>`. -/
def Context.getInstant (ctx : Context) (key : String) : Option Nat :=
  match ctx.metadata key with
  | some (.instant value) => some value
  | _ => none

/-- The entry before the response is attached. -/
def questionEntry (timestamp : String) (ctx : Context) (question : Question) : QueryLogEntry :=
  let entry := QueryLogEntry.new timestamp ctx.request.id ((ctx.getString "protocol").getD "unknown") question.qname
    question.qtype.debug question.qclass.debug
  match ctx.getIp "client_ip" with
  | some ip => entry.withClientIp ip
  | none => entry

section

variable (toText : IpAddr → String)

def answerIps (answers : List ResourceRecord) : List String :=
  answers.filterMap fun record =>
    match record.rdata with
    | .A addr => some (toText (.v4 addr))
    | .AAAA addr => some (toText (.v6 addr))
    | _ => none

def QueryLogEntry.attachResponse (entry : QueryLogEntry) (ctx : Context) (responseTimeUs : Nat)
    (response : Message) : QueryLogEntry :=
  let entry := entry.withResponse response.rcode.debug response.answers.length (responseTimeUs / 1000)
  let entry := (entry.withResponseTimeUs responseTimeUs).withCached
    ((ctx.getBool "response_from_cache").getD false)
  let answers := answerIps toText response.answers
  if answers.isEmpty then entry else entry.withAnswers answers

/-- The entry that `log_query_for_context` publishes; `elapsed` is how many microseconds have passed since an instant. -/
def logQueryForContext (timestamp : String) (elapsed : Nat → Nat) (ctx : Context) : Option QueryLogEntry :=
  match ctx.request.questions.head? with
  | none => none
  | some question =>
    if isDnsSdQuery question.qname then none
    else
      match ctx.response with
      | some response =>
        some ((questionEntry timestamp ctx question).attachResponse toText ctx
          (((ctx.getInstant "request_start_time").map elapsed).getD 0) response)
      | none => some (questionEntry timestamp ctx question)

end

end Lazydns
