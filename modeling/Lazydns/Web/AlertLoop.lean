import Lazydns.Audit.Event
import Lazydns.Lib.Template
import Lazydns.Web.AlertEngine

/-!
# The loop of the alert engine

The engine's task takes one security event after the other. For each event it goes through the rules; one that matches raises an alert, unless one of its name has raised one within the deduplication window, and where there is a webhook, the alert is sent to it, again and again until it is taken or given up. While it is being sent no other event is received.

Times are in milliseconds. The check of the window, the insertion of the time and the storing of the alert are at one moment. How a request ends and when it does is said by the events, as is the id of an alert. What was raised, what was suppressed and how each alert was sent is noted beside the source.
-/

namespace Lazydns

/-- Only the first kind is ever evaluated; of the others the parameters are left out. -/
inductive AlertCondition where
  | securityEvent (eventType : String)
  | rateThreshold
  | upstreamHealth
  | errorRate
  deriving DecidableEq, Repr

structure AlertRule where
  name : String
  condition : AlertCondition
  message : Option String
  deriving DecidableEq, Repr

/-- Of the webhook, how often it is tried, and whether its URL and header make a request at all. -/
structure WebhookConfig where
  retries : Nat
  builds : Bool
  deriving DecidableEq, Repr

namespace AlertLoop

/-- Of the configuration, what the loop reads. -/
structure Policy where
  enabled : Bool
  rules : List AlertRule
  dedupWindowSecs : Nat
  webhook : Option WebhookConfig
  deriving DecidableEq, Repr

/-! ### One event -/

def matchesRule (rule : AlertRule) (event : AuditEvent) : Bool :=
  match rule.condition, event with
  | .securityEvent eventType, .security _ type _ _ _ => type.asStr == eventType
  | _, _ => false

/-- `msg.replace(old, new)`. -/
def replace (old new text : String) : String :=
  String.ofList (Template.replaceAll old.toList new.toList text.toList)

/-- The placeholders are replaced one after the other, each in what the earlier ones have left. -/
def formatMessage (toText : IpAddr → String) (rule : AlertRule) (event : AuditEvent) : String :=
  match rule.message with
  | some template =>
    match event with
    | .security _ eventType message clientIp qname =>
      let text := replace "{message}" message (replace "{event_type}" eventType.asStr template)
      let text := match clientIp with
        | some ip => replace "{client_ip}" (toText ip) text
        | none => text
      match qname with
      | some domain => replace "{domain}" domain text
      | none => text
    | .query _ => template
  | none =>
    match event with
    | .security _ _ message _ _ => message
    | .query _ => "Query alert"

/-- `Alert::new`. -/
def newAlert (id ruleName message : String) (now : Nat) : Alert := ⟨id, ruleName, message, now / 1000, 1, false⟩

/-- The pause before the next attempt; the shift is checked for its amount alone, which is small enough. -/
def backoffMs (retries : Nat) : Nat := 100 * 2 ^ min retries 20

/-! ### The loop -/

/-- How an attempt ends: the webhook takes the alert, or it does not or cannot be reached, or there is no request to send. The last is so of every attempt or of none. -/
inductive Attempt where
  | success
  | failure
  | uncloneable
  deriving DecidableEq, Repr

/-- An alert on its way to the webhook, or what has come of it. -/
structure Sending where
  start : Nat
  attempts : Nat
  deriving DecidableEq, Repr

inductive Stage where
  | receiving
  | checking (event : AuditEvent) (rules : List AlertRule)
  | sending (event : AuditEvent) (rules : List AlertRule) (sending : Sending)
  | sleeping (event : AuditEvent) (rules : List AlertRule) (sending : Sending) (wake : Nat)
  deriving DecidableEq, Repr

structure Delivery where
  sending : Sending
  finish : Nat
  last : Attempt
  deriving DecidableEq, Repr

structure System where
  now : Nat
  engine : AlertEngine
  dedupCache : String → Option Nat
  stage : Stage
  received : List AuditEvent
  triggered : List (String × Nat)
  deduplicated : List (String × Nat)
  deliveries : List Delivery

def System.new (config : AlertConfig) : System where
  now := 0
  engine := .new config
  dedupCache := fun _ => none
  stage := .receiving
  received := []
  triggered := []
  deduplicated := []
  deliveries := []

inductive Event where
  | elapse (duration : Nat)
  | receive (event : AuditEvent)
  | check (id : String) (fuel : Nat)
  | respond (attempt : Attempt)
  | wake
  deriving DecidableEq, Repr

section

variable (toText : IpAddr → String) (policy : Policy)

def shouldDeduplicate (s : System) (ruleName : String) : Bool :=
  match s.dedupCache ruleName with
  | some lastTrigger => s.now - lastTrigger < policy.dedupWindowSecs * 1000
  | none => false

/-- An alert is sent if there is a webhook. -/
def notify (event : AuditEvent) (rules : List AlertRule) (now : Nat) : Stage :=
  match policy.webhook with
  | some _ => .sending event rules ⟨now, 0⟩
  | none => .checking event rules

/-- A rule raises an alert. -/
def trigger (s : System) (event : AuditEvent) (rule : AlertRule) (rules : List AlertRule) (id : String) (fuel : Nat) :
    Option System :=
  (s.engine.addAlert (newAlert id rule.name (formatMessage toText rule event) s.now) (s.now / 1000) fuel).map fun engine =>
    { s with
      engine
      dedupCache := Function.update s.dedupCache rule.name (some s.now)
      stage := notify policy event rules s.now
      triggered := s.triggered ++ [(rule.name, s.now)] }

/-- The next rule, or the end of the event. -/
def check (s : System) (event : AuditEvent) (id : String) (fuel : Nat) : List AlertRule → Option System
  | [] => some { s with stage := .receiving }
  | rule :: rules =>
    if matchesRule rule event then
      if shouldDeduplicate policy s rule.name then
        some { s with stage := .checking event rules, deduplicated := s.deduplicated ++ [(rule.name, s.now)] }
      else trigger toText policy s event rule rules id fuel
    else some { s with stage := .checking event rules }

/-- The alert is delivered or given up. -/
def finish (s : System) (event : AuditEvent) (rules : List AlertRule) (sending : Sending) (last : Attempt) : System :=
  { s with stage := .checking event rules, deliveries := s.deliveries ++ [⟨sending, s.now, last⟩] }

/-- The end of an attempt: the alert is tried once more after a pause, or that was all. -/
def respond (s : System) (event : AuditEvent) (rules : List AlertRule) (sending : Sending) (retries : Nat) :
    Attempt → System
  | .uncloneable => finish s event rules sending .uncloneable
  | .success => finish s event rules ⟨sending.start, sending.attempts + 1⟩ .success
  | .failure =>
    if retries ≤ sending.attempts + 1 then finish s event rules ⟨sending.start, sending.attempts + 1⟩ .failure
    else
      { s with stage := .sleeping event rules ⟨sending.start, sending.attempts + 1⟩
                 (s.now + backoffMs (sending.attempts + 1)) }

def step (s : System) : Event → Option System
  | .elapse duration => some { s with now := s.now + duration }
  | .receive event =>
    match s.stage with
    | .receiving =>
      if policy.enabled then
        some { s with stage := .checking event policy.rules, received := s.received ++ [event] }
      else none
    | _ => none
  | .check id fuel =>
    match s.stage with
    | .checking event rules => check toText policy s event id fuel rules
    | _ => none
  | .respond attempt =>
    match s.stage, policy.webhook with
    | .sending event rules sending, some webhook =>
      if webhook.builds = (attempt != .uncloneable) then
        some (respond s event rules sending webhook.retries attempt)
      else none
    | _, _ => none
  | .wake =>
    match s.stage with
    | .sleeping event rules sending wake =>
      if wake ≤ s.now then some { s with stage := .sending event rules sending } else none
    | _ => none

def machine : Machine System Event := ⟨step toText policy⟩

end

end AlertLoop

end Lazydns
