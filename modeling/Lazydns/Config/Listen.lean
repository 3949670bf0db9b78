import Lazydns.Dns.IpText
import Lazydns.Plugin.Context
import Lazydns.Plugin.Validation

/-!
# Addresses to listen on

The addresses of the two HTTP servers have short forms: a port alone behind one colon is on all IPv4 addresses, and behind two or three on all IPv6 addresses; an IPv6 address that begins with two colons needs no brackets. The validation of the configuration and the launcher of the servers write the short forms out, each in its own way.
-/

namespace Lazydns

open Validation (parseUnsigned)

/-! ### Socket addresses of the standard library -/

/-- What `str::parse::<SocketAddr>` reads: an address with its port, and the zone of an IPv6 address. -/
structure ParsedAddr where
  addr : SocketAddr
  scopeId : Nat
  deriving DecidableEq, Repr

namespace IpText

/-- `read_number` with no limit of digits, for a type whose values are below the bound. -/
def readBounded (bound : Nat) (s : List Char) : Option (Nat × List Char) :=
  (readNumber 10 s.length true s).filter fun number => decide (number.1 < bound)

def readPort (s : List Char) : Option (Nat × List Char) := (readGivenChar ':' s).bind (readBounded (2 ^ 16))

def readScopeId (s : List Char) : Option (Nat × List Char) := (readGivenChar '%' s).bind (readBounded (2 ^ 32))

def readSocketAddrV4 (s : List Char) : Option (ParsedAddr × List Char) :=
  (readIpv4Addr s).bind fun (octets, s) =>
    (readPort s).map fun (port, s) =>
      (⟨⟨.v4 (BitVec.ofNat 32 (octets.foldl (256 * · + ·) 0)), UInt16.ofNat port⟩, 0⟩, s)

def readSocketAddrV6 (s : List Char) : Option (ParsedAddr × List Char) :=
  (readGivenChar '[' s).bind fun s =>
    (readIpv6Addr s).bind fun (groups, s) =>
      let (scopeId, s) := (readScopeId s).getD (0, s)
      (readGivenChar ']' s).bind fun s =>
        (readPort s).map fun (port, s) =>
          (⟨⟨.v6 (BitVec.ofNat 128 (groups.foldl (65536 * · + ·) 0)), UInt16.ofNat port⟩, scopeId⟩, s)

/-- `str::parse::<SocketAddr>`: nothing may be left of the text. -/
def parseSocketAddr (text : String) : Option ParsedAddr :=
  match (readSocketAddrV4 text.toList).or (readSocketAddrV6 text.toList) with
  | some (addr, []) => some addr
  | _ => none

end IpText

/-! ### Validation -/

/-- The texts in front of the last colon and behind it. -/
def splitLastColon (s : String) : Option (String × String) :=
  let behind := s.toList.reverse.takeWhile (· ≠ ':')
  if ':' ∈ s.toList then
    some (String.ofList (s.toList.take (s.toList.length - (behind.length + 1))), String.ofList behind.reverse)
  else none

/-- The address that `validate_socket_addr` parses. -/
def normalizedAddr (addr : String) : String :=
  match stripPrefix ":::" addr with
  | some port => "[::]:" ++ port
  | none =>
    match stripPrefix "::" addr with
    | some rest =>
      match splitLastColon rest with
      | some (ipPart, portPart) =>
        if ipPart ≠ "" then
          if (parseUnsigned (2 ^ 16 - 1) portPart).isSome then "[::" ++ ipPart ++ "]:" ++ portPart else addr
        else "[::]:" ++ rest
      | none => if (parseUnsigned (2 ^ 16 - 1) rest).isSome then "[::]:" ++ rest else addr
    | none =>
      if addr.toList.head? = some ':' ∧ ¬"::[".toList.isPrefixOf addr.toList then "0.0.0.0" ++ addr else addr

def minPort : UInt16 := 1

/-- What `validate_socket_addr` computes; it returns only whether there is an error. -/
def validatedAddr (addr context : String) : Except Error ParsedAddr :=
  match IpText.parseSocketAddr (normalizedAddr addr) with
  | none => .error (.config ("Invalid " ++ context ++ " address '" ++ addr ++ "': invalid socket address syntax"))
  | some socketAddr =>
    if socketAddr.addr.port < minPort then
      .error (.config ("Invalid " ++ context ++ " port " ++ toString socketAddr.addr.port ++ ": must be at least " ++
        toString minPort))
    else .ok socketAddr

/-! ### Launching -/

def normalizeListenAddr (listen : String) : String :=
  if listen.toList.head? = some ':' then "0.0.0.0" ++ listen else listen

end Lazydns
