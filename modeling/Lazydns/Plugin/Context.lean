import Lazydns.Dns.Message
import Mathlib.Logic.Function.Basic

/-!
# The plugin execution context

One request's state as the plugins see it: the request, the response so far and the metadata map. Metadata values are dynamically typed, so a value under a key is only visible at the type it was stored with; the four control-flow keys and the cache's markers live in the same map as what users configure.

The `trace` is not in the source: it records what happened to the request, for the statements about it, and no plugin reads it.
-/

namespace Lazydns

open Dns

structure SocketAddr where
  ip : IpAddr
  port : UInt16
  deriving DecidableEq, Repr

/-- `IpNet`: an address and the number of leading bits that count. -/
inductive IpNet where
  | v4 (addr : BitVec 32) (prefixLen : Nat)
  | v6 (addr : BitVec 128) (prefixLen : Nat)
  deriving DecidableEq, Repr

/-- `IpNet::contains`: only an address of the network's own family can be in it. -/
def IpNet.contains : IpNet → IpAddr → Bool
  | .v4 net prefixLen, .v4 addr => net >>> (32 - prefixLen) == addr >>> (32 - prefixLen)
  | .v6 net prefixLen, .v6 addr => net >>> (128 - prefixLen) == addr >>> (128 - prefixLen)
  | _, _ => false

/-- What a metadata entry can hold. `rules` stands for the shared rule sets, which no modelled plugin reads back. -/
inductive MetaValue where
  | bool (value : Bool)
  | string (value : String)
  | ip (value : IpAddr)
  | socketAddr (value : SocketAddr)
  | port (value : UInt16)
  | instant (value : Nat)
  | handler (entry : String)
  | registry
  | options (value : List (UInt16 × List UInt8))
  | edns0Options (value : List (UInt16 × List UInt8))
  | prefixes (value : List (String × IpNet))
  | rules
  deriving DecidableEq, Repr

/-- What happened to a request: the action of a sequence step ran, a policy refused the client, its first question got another name, or it was answered for its first question alone. -/
inductive TraceEvent where
  | step (tag : Option String) (index : Nat)
  | aclDenied (client : IpAddr)
  | rateLimitExceeded (client : IpAddr)
  | renamed
  | answeredFirst
  deriving DecidableEq, Repr

@[ext] structure Context where
  request : Message
  response : Option Message
  metadata : String → Option MetaValue
  trace : List TraceEvent

def RETURN_FLAG : String := "__return_flag"

namespace Context

def new (request : Message) : Context where
  request := request
  response := none
  metadata := fun _ => none
  trace := []

def setMetadata (ctx : Context) (key : String) (value : MetaValue) : Context :=
  { ctx with metadata := Function.update ctx.metadata key (some value) }

def removeMetadata (ctx : Context) (key : String) : Context :=
  { ctx with metadata := Function.update ctx.metadata key none }

def hasMetadata (ctx : Context) (key : String) : Bool := (ctx.metadata key).isSome

/-- `get_metadata::<bool>`. -/
def getBool (ctx : Context) (key : String) : Option Bool :=
  match ctx.metadata key with
  | some (.bool value) => some value
  | _ => none

/-- `get_metadata::<String>`. -/
def getString (ctx : Context) (key : String) : Option String :=
  match ctx.metadata key with
  | some (.string value) => some value
  | _ => none

/-- `get_metadata::<IpAddr>`. -/
def getIp (ctx : Context) (key : String) : Option IpAddr :=
  match ctx.metadata key with
  | some (.ip value) => some value
  | _ => none

/-- `get_metadata::<Arc<PluginHandler>>`, as the handler's entry. -/
def getHandler (ctx : Context) (key : String) : Option String :=
  match ctx.metadata key with
  | some (.handler entry) => some entry
  | _ => none

/-- `get_metadata::<Arc<Registry>>`. -/
def getRegistry (ctx : Context) (key : String) : Bool :=
  match ctx.metadata key with
  | some .registry => true
  | _ => false

/-- `get_metadata::<Vec<(u16, Vec<u8>)>>`. -/
def getOptions (ctx : Context) (key : String) : Option (List (UInt16 × List UInt8)) :=
  match ctx.metadata key with
  | some (.options value) => some value
  | _ => none

/-- `get_metadata::<Vec<(String, String)>>`. -/
def getPrefixes (ctx : Context) (key : String) : Option (List (String × IpNet)) :=
  match ctx.metadata key with
  | some (.prefixes value) => some value
  | _ => none

def setResponse (ctx : Context) (response : Option Message) : Context :=
  { ctx with response := response }

def hasResponse (ctx : Context) : Bool := ctx.response.isSome

def record (ctx : Context) (event : TraceEvent) : Context :=
  { ctx with trace := ctx.trace ++ [event] }

def setRefused (ctx : Context) : Context :=
  ctx.setResponse <| some { Message.new with
    id := ctx.request.id
    qr := true
    rcode := .refused
    questions := ctx.request.questions }

/-! ### Reading a context after a change -/

section

variable (ctx : Context) (key key' : String) (value : MetaValue)

@[simp] theorem setMetadata_request : (ctx.setMetadata key value).request = ctx.request := rfl
@[simp] theorem setMetadata_response : (ctx.setMetadata key value).response = ctx.response := rfl
@[simp] theorem setMetadata_trace : (ctx.setMetadata key value).trace = ctx.trace := rfl
@[simp] theorem setMetadata_metadata :
    (ctx.setMetadata key value).metadata = Function.update ctx.metadata key (some value) := rfl

@[simp] theorem removeMetadata_request : (ctx.removeMetadata key).request = ctx.request := rfl
@[simp] theorem removeMetadata_response : (ctx.removeMetadata key).response = ctx.response := rfl
@[simp] theorem removeMetadata_trace : (ctx.removeMetadata key).trace = ctx.trace := rfl
@[simp] theorem removeMetadata_metadata :
    (ctx.removeMetadata key).metadata = Function.update ctx.metadata key none := rfl

@[simp] theorem setResponse_request (r : Option Message) : (ctx.setResponse r).request = ctx.request := rfl
@[simp] theorem setResponse_response (r : Option Message) : (ctx.setResponse r).response = r := rfl
@[simp] theorem setResponse_metadata (r : Option Message) :
    (ctx.setResponse r).metadata = ctx.metadata := rfl
@[simp] theorem setResponse_trace (r : Option Message) : (ctx.setResponse r).trace = ctx.trace := rfl

@[simp] theorem record_request (e : TraceEvent) : (ctx.record e).request = ctx.request := rfl
@[simp] theorem record_response (e : TraceEvent) : (ctx.record e).response = ctx.response := rfl
@[simp] theorem record_metadata (e : TraceEvent) : (ctx.record e).metadata = ctx.metadata := rfl
@[simp] theorem record_trace (e : TraceEvent) : (ctx.record e).trace = ctx.trace ++ [e] := rfl

@[simp] theorem setRefused_request : ctx.setRefused.request = ctx.request := rfl
@[simp] theorem setRefused_metadata : ctx.setRefused.metadata = ctx.metadata := rfl
@[simp] theorem setRefused_trace : ctx.setRefused.trace = ctx.trace := rfl

end

end Context

end Lazydns
