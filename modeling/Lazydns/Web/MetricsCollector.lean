import Lazydns.Audit.Event
import Lazydns.Plugin.Env
import Lazydns.Web.TimeSeries
import Lazydns.Web.TopN

/-!
# The metrics collector

The collector receives the query log from the event bus and counts what it says of each query. The latencies are not here: their distribution is in floating point. Nothing but the collector's own task changes it, so an entry is processed at one moment; nothing calls `record_blocked`. Counters are not bounded.
-/

namespace Lazydns

/-- Of the configuration, what to track beside the counters. -/
structure Tracking where
  clients : Bool
  domains : Bool
  deriving DecidableEq, Repr

structure MetricsCollector where
  tracking : Tracking
  topDomains : TopN String
  topClients : TopN String
  qps : TimeSeries Nat
  totalQueries : Nat
  cacheHits : Nat
  cacheMisses : Nat
  errorResponses : Nat
  blockedQueries : Nat

namespace MetricsCollector

def new (tracking : Tracking) (windowSecs : Nat) (topN : UInt64) : MetricsCollector where
  tracking
  topDomains := .new topN
  topClients := .new topN
  qps := .new windowSecs 1
  totalQueries := 0
  cacheHits := 0
  cacheMisses := 0
  errorResponses := 0
  blockedQueries := 0

section

variable (entry : QueryLogEntry) (c : MetricsCollector)

def trackQps (now : Nat) : MetricsCollector :=
  { c with qps := c.qps.addLocked (c.qps.currentBucketTimestamp now) 1 }

/-- The domain in lower case and without dots at its end. -/
def trackDomain (env : Env) (now : Nat) : MetricsCollector :=
  if c.tracking.domains then
    { c with topDomains := c.topDomains.increment (env.toLowercase (trimEndDots entry.qname)) now }
  else c

def trackClient (toText : IpAddr → String) (now : Nat) : MetricsCollector :=
  match c.tracking.clients, entry.clientIp with
  | true, some ip => { c with topClients := c.topClients.increment (toText ip) now }
  | _, _ => c

def trackCache : MetricsCollector :=
  match entry.cached with
  | some true => { c with cacheHits := c.cacheHits + 1 }
  | some false => { c with cacheMisses := c.cacheMisses + 1 }
  | none => c

def trackError : MetricsCollector :=
  match entry.rcode with
  | some rcode =>
    if rcode ≠ "NOERROR" ∧ rcode ≠ "NXDOMAIN" then { c with errorResponses := c.errorResponses + 1 } else c
  | none => c

end

variable (env : Env) (toText : IpAddr → String)

def processQuery (c : MetricsCollector) (entry : QueryLogEntry × Nat) : MetricsCollector :=
  let c := { c with totalQueries := c.totalQueries + 1 }
  let c := c.trackQps entry.2
  let c := c.trackDomain entry.1 env entry.2
  let c := c.trackClient entry.1 toText entry.2
  (c.trackCache entry.1).trackError entry.1

/-- The loop of `run`, over the entries that `recv` returns, each at its time. -/
def run (c : MetricsCollector) (entries : List (QueryLogEntry × Nat)) : MetricsCollector :=
  entries.foldl (processQuery env toText) c

end MetricsCollector

end Lazydns
