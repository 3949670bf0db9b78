import Lazydns.Lib.Frames
import Lazydns.Server.Transport

/-!
# The three servers on a byte stream

TCP, DoT and DoQ read a query's length and the query, and write the length of the response and the response. They are given here with the bytes that a connection receives before it ends or times out, for any wire format and any handler. `returned` is not in the source: it records the responses that the handler returned, as they are serialized.
-/

namespace Lazydns

open Dns Frames

/-- `parse_message` and `serialize_message`. -/
structure Codec where
  parse : List UInt8 → Except Error Message
  serialize : Message → Except Error (List UInt8)

/-- How a connection ends, and what it leaves. -/
structure Served (σ : Type) where
  result : Except Error Unit
  returned : List (List UInt8)
  written : List UInt8
  state : σ

section

variable {σ : Type} (codec : Codec) (handle : RequestContext → σ → Except Error Message × σ)

/-- From the bytes of a query to those of the response. -/
def exchange (context : Message → RequestContext) (buf : List UInt8) (s : σ) : Except Error (List UInt8) × σ :=
  match codec.parse buf with
  | .error e => (.error e, s)
  | .ok request =>
    match handle (context request) s with
    | (.error e, s) => (.error e, s)
    | (.ok response, s) => (codec.serialize response, s)

def Served.stop (result : Except Error Unit) (s : σ) : Served σ := ⟨result, [], [], s⟩

/-- `read_exact` where the bytes end too early. -/
def unexpectedEof : Error := .connection "early eof"

def responseTooLarge (transport : String) (data : List UInt8) : Error :=
  .other ("response too large for " ++ transport ++ " DNS framing: " ++ toString data.length ++
    " bytes (max 65535)")

/-- `TcpServer::handle_connection`: one query. -/
def TcpServer.serveConnection (maxSize : Nat) (peer : SocketAddr) (input : List UInt8) (s : σ) : Served σ :=
  match readLength input with
  | none => .stop (.error unexpectedEof) s
  | some (msgLen, input) =>
    if maxSize < msgLen then
      .stop (.error (.dnsProtocol ("Message too large: " ++ toString msgLen ++ " > " ++ toString maxSize))) s
    else
      match Bytes.block msgLen input with
      | none => .stop (.error unexpectedEof) s
      | some (buf, _) =>
        match exchange codec handle (TcpServer.requestContext peer) buf s with
        | (.error e, s) => .stop (.error e) s
        | (.ok data, s) =>
          if data.length ≤ 65535 then ⟨.ok (), [data], Frames.frame data, s⟩
          else ⟨.error (responseTooLarge "TCP" data), [data], [], s⟩

/-- The loop of `DotServer::handle_connection`: queries until the client closes the connection, or until the first error. -/
def DotServer.serveConnection (peer : Option SocketAddr) (input : List UInt8) (s : σ) : Served σ :=
  match hlength : readLength input with
  | none => .stop (.ok ()) s
  | some (msgLen, body) =>
    if msgLen = 0 ∨ 65535 < msgLen then .stop (.ok ()) s
    else
      match hblock : Bytes.block msgLen body with
      | none => .stop (.error unexpectedEof) s
      | some (buf, input') =>
        match exchange codec handle (DotServer.requestContext peer) buf s with
        | (.error e, s) => .stop (.error e) s
        | (.ok data, s) =>
          if data.length ≤ 65535 then
            have hread : Frames.read input = some (buf, input') := by
              rw [Frames.read, hlength, Option.bind_some, hblock]
            have : input'.length < input.length := length_of_read hread
            let rest := DotServer.serveConnection peer input' s
            ⟨rest.result, data :: rest.returned, Frames.frame data ++ rest.written, rest.state⟩
          else ⟨.error (responseTooLarge "DoT" data), [data], [], s⟩
  termination_by input.length

/-- `DoqServer`'s `handle_stream`: one query, and the length of the response is cut off to 16 bits. -/
def DoqServer.serveStream (input : List UInt8) (s : σ) : Served σ :=
  match readLength input with
  | none => .stop (.error unexpectedEof) s
  | some (msgLen, input) =>
    match Bytes.block msgLen input with
    | none => .stop (.error unexpectedEof) s
    | some (buf, _) =>
      match exchange codec handle DoqServer.requestContext buf s with
      | (.error e, s) => .stop (.error e) s
      | (.ok data, s) => ⟨.ok (), [data], Frames.frame data, s⟩

end

end Lazydns
