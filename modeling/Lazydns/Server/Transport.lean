import Lazydns.Server.Handler

/-!
# The five servers

Each server hands a parsed request to the handler, together with what it knows of the client, and writes the response back. They differ in the client information, in what they do with a response that is too large, and in what an error ends: over UDP one answer, over TCP and DoT the connection.
-/

namespace Lazydns

open Dns

section

variable (env : Env) (reg : Registry) (fuel : Nat) (entry : String)

/-- `handler.handle(ctx).await?` and then the encoder: what is left to send, if anything. -/
def respond (encode : Message → Option Hickory.Message) (req : RequestContext) :
    Proc World (Option Hickory.Message) := do
  match ← PluginHandler.handle env reg fuel entry req with
  | .ok response => .ret (encode response)
  | .error _ => .ret none

def frame (h : Hickory.Message) : Option Hickory.Message :=
  if env.size h ≤ 65535 then some h else none

namespace UdpServer

def clientUdpLimit (request : Message) : Nat :=
  match request.additional.find? fun rr => rr.rtype == .OPT with
  | some rr =>
    match rr.rclass with
    | .unknown size => if 512 ≤ size.toNat then size.toNat else 512
    | _ => 512
  | none => 512

/-- The header and the questions alone, with the TC bit. -/
def truncated (response : Message) : Message :=
  { response with tc := true, answers := [], authority := [], additional := [] }

def fitUdpResponse (response : Message) (limit : Nat) (serialized : Hickory.Message) :
    Hickory.Message :=
  if env.size serialized ≤ limit then serialized
  else (env.serialize (truncated response)).getD serialized

def encode (request response : Message) : Option Hickory.Message :=
  (env.serialize { response with id := request.id }).map
    (fitUdpResponse env { response with id := request.id } (clientUdpLimit request))

def requestContext (peer : SocketAddr) (request : Message) : RequestContext :=
  RequestContext.withClient request (some peer) .udp

end UdpServer

/-! ### TCP and TLS -/

namespace TcpServer

def requestContext (peer : SocketAddr) (request : Message) : RequestContext :=
  RequestContext.withClient request (some peer) .tcp

end TcpServer

namespace DotServer

def requestContext (peer : Option SocketAddr) (request : Message) : RequestContext :=
  RequestContext.withClient request peer .dot

end DotServer

/-! ### HTTPS and QUIC -/

namespace DohServer

/-- `extract_client_addr`; `forwarded` is the address in an `X-Forwarded-For` header. -/
def extractClientAddr (forwarded : Option IpAddr) (connectAddr : Option SocketAddr)
    (trustForwardedFor : Bool) : Option SocketAddr :=
  match if trustForwardedFor then forwarded else none with
  | some ip => some ⟨ip, (connectAddr.map SocketAddr.port).getD 443⟩
  | none => connectAddr

def requestContext (forwarded : Option IpAddr) (trustForwardedFor : Bool) (peer : SocketAddr)
    (request : Message) : RequestContext :=
  RequestContext.withClient request (extractClientAddr forwarded (some peer) trustForwardedFor) .doh

/-- `handle_get_query` and `handle_post_query` from the parsed request on; `none` is an HTTP error. -/
def handleQuery (forwarded : Option IpAddr) (trustForwardedFor : Bool) (peer : SocketAddr)
    (request : Message) : Proc World (Option Hickory.Message) :=
  respond env reg fuel entry env.serialize (requestContext forwarded trustForwardedFor peer request)

end DohServer

namespace DoqServer

/-- The stream does not know its peer. -/
def requestContext (request : Message) : RequestContext := RequestContext.new request .doq

def handleStream (request : Message) : Proc World (Option Hickory.Message) :=
  respond env reg fuel entry env.serialize (requestContext request)

end DoqServer

end

end Lazydns
