import Lazydns.Plugin.Sequence

/-!
# The plugin handler

`PluginHandler::handle` takes a parsed request through its entry plugin, the goto targets, the store phase of every registered cache and the reverse-lookup hook, and hands back a response with the request's id. A pipeline that ends without a response is answered with SERVFAIL; an error of a plugin is the handler's error.
-/

namespace Lazydns

open Dns

inductive Protocol where
  | udp | tcp | doh | dot | doq
  deriving DecidableEq, Repr

def Protocol.toString : Protocol → String
  | udp => "udp"
  | tcp => "tcp"
  | doh => "doh"
  | dot => "dot"
  | doq => "doq"

structure ClientInfo where
  addr : SocketAddr
  ip : IpAddr
  port : UInt16
  deriving DecidableEq, Repr

/-- `ClientInfo::from`. -/
def ClientInfo.ofAddr (addr : SocketAddr) : ClientInfo := ⟨addr, addr.ip, addr.port⟩

structure RequestContext where
  message : Message
  clientInfo : Option ClientInfo
  protocol : Protocol
  deriving DecidableEq, Repr

/-- `RequestContext::new`: no client information. -/
def RequestContext.new (message : Message) (protocol : Protocol) : RequestContext :=
  ⟨message, none, protocol⟩

def RequestContext.withClient (message : Message) (clientAddr : Option SocketAddr)
    (protocol : Protocol) : RequestContext :=
  ⟨message, clientAddr.map ClientInfo.ofAddr, protocol⟩

/-- The id that marks a request as a background refresh. -/
def REFRESH_ID : UInt16 := 0xFFFF

namespace PluginHandler

def setClientInfo (info : Option ClientInfo) (ctx : Context) : Context :=
  match info with
  | some info =>
    ((ctx.setMetadata "client_ip" (.ip info.ip)).setMetadata "client_addr"
      (.socketAddr info.addr)).setMetadata "client_port" (.port info.port)
  | none => ctx

/-- A request with the special id counts as a background refresh. -/
def markRefresh (id : UInt16) (ctx : Context) : Context :=
  if id = REFRESH_ID then ctx.setMetadata "background_lazy_refresh" (.bool true) else ctx

def initialContext (now : Nat) (entry : String) (req : RequestContext) : Context :=
  let ctx := (Context.new req.message).setMetadata "request_start_time" (.instant now)
  let ctx := (setClientInfo req.clientInfo ctx).setMetadata "protocol"
    (.string req.protocol.toString)
  (((markRefresh req.message.id ctx).setMetadata "lazy_refresh_handler" (.handler entry)).setMetadata
    "lazy_refresh_entry" (.string entry)).setMetadata "__plugin_registry" .registry

/-- The metadata keys a request may start with. -/
def initialKeys : List String :=
  ["request_start_time", "client_ip", "client_addr", "client_port", "protocol",
    "background_lazy_refresh", "lazy_refresh_handler", "lazy_refresh_entry", "__plugin_registry"]

section

variable (now : Nat) (entry : String) (req : RequestContext)

@[simp] theorem setClientInfo_request (info : Option ClientInfo) (ctx : Context) :
    (setClientInfo info ctx).request = ctx.request := by
  cases info <;> rfl

@[simp] theorem setClientInfo_response (info : Option ClientInfo) (ctx : Context) :
    (setClientInfo info ctx).response = ctx.response := by
  cases info <;> rfl

@[simp] theorem setClientInfo_trace (info : Option ClientInfo) (ctx : Context) :
    (setClientInfo info ctx).trace = ctx.trace := by
  cases info <;> rfl

theorem setClientInfo_metadata (info : Option ClientInfo) (ctx : Context) {key : String}
    (hkey : key ∉ ["client_ip", "client_addr", "client_port"]) :
    (setClientInfo info ctx).metadata key = ctx.metadata key := by
  simp only [List.mem_cons, List.not_mem_nil, or_false, not_or] at hkey
  cases info with
  | none => rfl
  | some info => simp [setClientInfo, hkey]

@[simp] theorem markRefresh_request (id : UInt16) (ctx : Context) :
    (markRefresh id ctx).request = ctx.request := by
  rw [markRefresh]
  split <;> rfl

@[simp] theorem markRefresh_response (id : UInt16) (ctx : Context) :
    (markRefresh id ctx).response = ctx.response := by
  rw [markRefresh]
  split <;> rfl

@[simp] theorem markRefresh_trace (id : UInt16) (ctx : Context) :
    (markRefresh id ctx).trace = ctx.trace := by
  rw [markRefresh]
  split <;> rfl

theorem markRefresh_metadata (id : UInt16) (ctx : Context) {key : String}
    (hkey : key ≠ "background_lazy_refresh") :
    (markRefresh id ctx).metadata key = ctx.metadata key := by
  rw [markRefresh]
  split
  · exact Function.update_of_ne hkey ..
  · rfl

@[simp] theorem initialContext_request : (initialContext now entry req).request = req.message := by
  simp [initialContext, Context.new]

@[simp] theorem initialContext_response : (initialContext now entry req).response = none := by
  simp [initialContext, Context.new]

@[simp] theorem initialContext_trace : (initialContext now entry req).trace = [] := by
  simp [initialContext, Context.new]

theorem initialContext_metadata {key : String} (hkey : key ∉ initialKeys) :
    (initialContext now entry req).metadata key = none := by
  simp only [initialKeys, List.mem_cons, List.not_mem_nil, or_false, not_or] at hkey
  simp [initialContext, Context.new, markRefresh_metadata, setClientInfo_metadata, hkey]

/-- Only the special id sets the mark of a background refresh. -/
theorem initialContext_background :
    (initialContext now entry req).getBool "background_lazy_refresh" =
      if req.message.id = REFRESH_ID then some true else none := by
  by_cases hid : req.message.id = REFRESH_ID
  · simp [Context.getBool, initialContext, markRefresh, hid]
  · simp [Context.getBool, initialContext, markRefresh, hid, setClientInfo_metadata, Context.new]

end

section

variable (env : Env) (reg : Registry)

/-- The goto loop, with a bound on its rounds. -/
def gotoLoop (exec : Plugin → Context → Run) : Nat → Context → Run
  | 0, ctx => if ctx.hasMetadata "goto_label" then .fail .outOfFuel ctx else .done ctx
  | rounds + 1, ctx =>
    if ctx.hasMetadata "goto_label" then
      match ctx.getString "goto_label" with
      | none => .done ctx
      | some target =>
        let ctx := (ctx.removeMetadata "goto_label").removeMetadata RETURN_FLAG
        match reg.lookup target with
        | some plugin => .andThen (exec plugin ctx) (gotoLoop exec rounds)
        | none => .done ctx
    else .done ctx

/-- One round of the store loop: a cache is executed once more, anything else passed over. -/
def storeOne (plugin : Plugin) (ctx : Context) : Run :=
  match plugin with
  | .leaf (.cache i) => .step (Leaf.executeCache env i ctx)
  | _ => .done ctx

/-- Every registered cache is executed once more, in the order of the registry. -/
def storePhase : List Plugin → Context → Run
  | [], ctx => .done ctx
  | plugin :: rest, ctx => .andThen (storeOne env plugin ctx) (storePhase rest)

/-- A reverse-lookup plugin saves the addresses of the response. -/
def saveStep (i : Nat) (ctx : Context) (w : World) : Context × World :=
  (ctx, w.setReverse i (match ctx.response with
    | some resp => (w.reverses i).saveIpsAfter w.now ctx.request resp
    | none => w.reverses i))

/-- One round of the reverse-lookup hook. -/
def saveOne (plugin : Plugin) (ctx : Context) : Run :=
  match plugin with
  | .leaf (.reverseLookup i) => .step (saveStep i ctx)
  | _ => .done ctx

/-- Every registered reverse lookup sees the response. -/
def reversePhase : List Plugin → Context → Run
  | [], ctx => .done ctx
  | plugin :: rest, ctx => .andThen (saveOne plugin ctx) (reversePhase rest)

/-- The plugins of the registry, in its order. -/
def registered : List Plugin := reg.entries.map Sigma.snd

/-- The entry plugin, if it is registered, and then the goto targets. -/
def runEntry (fuel : Nat) (entry : String) (ctx : Context) : Run :=
  .andThen (match reg.lookup entry with
    | some plugin => plugin.execute env reg fuel ctx
    | none => .done ctx) (gotoLoop reg (Plugin.execute env reg fuel) fuel)

/-- What happens once the plugins are done. -/
def postProcess (ctx : Context) : Run :=
  if ctx.hasResponse then
    .andThen (storePhase env (registered reg) ctx) (reversePhase (registered reg))
  else .done ctx

/-- All of `handle` up to the response that is returned. -/
def process (fuel : Nat) (entry : String) (req : RequestContext) : Run := do
  let ctx ← Proc.atomic fun w => (initialContext w.now entry req, w)
  Run.andThen (runEntry env reg fuel entry ctx) (postProcess env reg)

/-- The reply to a request no plugin answered. -/
def defaultResponse : Message := { Message.new with rcode := .servFail }

/-- The response taken from the context, under the request's id. -/
def finish (ctx : Context) : Message :=
  { ctx.response.getD defaultResponse with id := ctx.request.id }

def handle (fuel : Nat) (entry : String) (req : RequestContext) : Proc World (Except Stop Message) := do
  let r ← process env reg fuel entry req
  return r.1.map fun _ => finish r.2

theorem process_run (fuel : Nat) (entry : String) (req : RequestContext) (w : World) :
    (process env reg fuel entry req).run w =
      (Run.andThen (runEntry env reg fuel entry (initialContext w.now entry req))
        (postProcess env reg)).run w := rfl

theorem handle_run (fuel : Nat) (entry : String) (req : RequestContext) (w : World) :
    (handle env reg fuel entry req).run w =
      (((process env reg fuel entry req).run w).1.1.map fun _ =>
          finish ((process env reg fuel entry req).run w).1.2,
        ((process env reg fuel entry req).run w).2) := by
  rw [handle, Proc.run_bind]
  rfl

end

end PluginHandler

end Lazydns
