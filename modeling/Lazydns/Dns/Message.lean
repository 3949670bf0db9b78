import Mathlib.Data.List.Basic

/-!
# DNS messages

The message type the server works on: header bits, the four sections and the codes in them. Wire parsing and serialization are elsewhere; here a message is what `parse_message` hands to the plugins.
-/

namespace Lazydns

inductive IpAddr where
  | v4 (addr : BitVec 32)
  | v6 (addr : BitVec 128)
  deriving DecidableEq, Repr

namespace Dns

/-! ### Codes -/

inductive RecordType where
  | A | NS | CNAME | SOA | PTR | MX | TXT | AAAA | SRV | OPT | DS | RRSIG | NSEC | DNSKEY
  | NSEC3 | NSEC3PARAM | SVCB | HTTPS | CAA
  | unknown (value : UInt16)
  deriving DecidableEq, Repr

namespace RecordType

def fromU16 (value : UInt16) : RecordType :=
  match value with
  | 1 => A | 2 => NS | 5 => CNAME | 6 => SOA | 12 => PTR | 15 => MX | 16 => TXT | 28 => AAAA
  | 33 => SRV | 41 => OPT | 43 => DS | 46 => RRSIG | 47 => NSEC | 48 => DNSKEY | 50 => NSEC3
  | 51 => NSEC3PARAM | 64 => SVCB | 65 => HTTPS | 257 => CAA
  | _ => unknown value

def toU16 : RecordType → UInt16
  | A => 1 | NS => 2 | CNAME => 5 | SOA => 6 | PTR => 12 | MX => 15 | TXT => 16 | AAAA => 28
  | SRV => 33 | OPT => 41 | DS => 43 | RRSIG => 46 | NSEC => 47 | DNSKEY => 48 | NSEC3 => 50
  | NSEC3PARAM => 51 | SVCB => 64 | HTTPS => 65 | CAA => 257
  | unknown value => value

end RecordType

inductive RecordClass where
  | IN | CH | HS
  | unknown (value : UInt16)
  deriving DecidableEq, Repr

namespace RecordClass

def fromU16 (value : UInt16) : RecordClass :=
  match value with
  | 1 => IN | 3 => CH | 4 => HS
  | _ => unknown value

def toU16 : RecordClass → UInt16
  | IN => 1 | CH => 3 | HS => 4
  | unknown value => value

end RecordClass

inductive OpCode where
  | query | iquery | status | notify | update
  | unknown (value : UInt8)
  deriving DecidableEq, Repr

inductive ResponseCode where
  | noError | formErr | servFail | nxDomain | notImp | refused | yxDomain | yxRRSet | nxRRSet
  | notAuth | notZone
  | unknown (value : UInt8)
  deriving DecidableEq, Repr

namespace ResponseCode

def fromU8 (value : UInt8) : ResponseCode :=
  match value with
  | 0 => noError | 1 => formErr | 2 => servFail | 3 => nxDomain | 4 => notImp | 5 => refused
  | 6 => yxDomain | 7 => yxRRSet | 8 => nxRRSet | 9 => notAuth | 10 => notZone
  | _ => unknown value

def toU8 : ResponseCode → UInt8
  | noError => 0 | formErr => 1 | servFail => 2 | nxDomain => 3 | notImp => 4 | refused => 5
  | yxDomain => 6 | yxRRSet => 7 | nxRRSet => 8 | notAuth => 9 | notZone => 10
  | unknown value => value

end ResponseCode

/-! ### Sections -/

structure Question where
  qname : String
  qtype : RecordType
  qclass : RecordClass
  deriving DecidableEq, Repr

inductive RData where
  | A (addr : BitVec 32)
  | AAAA (addr : BitVec 128)
  | CNAME (name : String)
  | MX (preference : UInt16) (exchange : String)
  | NS (name : String)
  | PTR (name : String)
  | TXT (texts : List String)
  | SOA (mname rname : String) (serial refresh retry expire minimum : Nat)
  | SRV (priority weight port : UInt16) (target : String)
  | CAA (flags : UInt8) (tag value : String)
  | SVCB (priority : UInt16) (target : String) (params : List UInt8)
  | HTTPS (priority : UInt16) (target : String) (params : List UInt8)
  | DS (keyTag : UInt16) (algorithm digestType : UInt8) (digest : List UInt8)
  | RRSIG (typeCovered : UInt16) (algorithm labels : UInt8)
      (originalTtl expiration inception : Nat) (keyTag : UInt16) (signerName : String)
      (signature : List UInt8)
  | NSEC (nextDomain : String) (typeBitmaps : List UInt8)
  | DNSKEY (flags : UInt16) (protocol algorithm : UInt8) (publicKey : List UInt8)
  | NSEC3 (hashAlgorithm flags : UInt8) (iterations : UInt16)
      (salt nextHashed typeBitmaps : List UInt8)
  | NSEC3PARAM (hashAlgorithm flags : UInt8) (iterations : UInt16) (salt : List UInt8)
  | OPT (extendedRcode version : UInt8) (flags : UInt16) (options : List UInt8)
  | unknown (data : List UInt8)
  deriving DecidableEq, Repr

/-- A resource record. The TTL is a `u32` of seconds. -/
structure ResourceRecord where
  name : String
  rtype : RecordType
  rclass : RecordClass
  ttl : Nat
  rdata : RData
  deriving DecidableEq, Repr

structure Message where
  id : UInt16
  qr : Bool
  opcode : OpCode
  aa : Bool
  tc : Bool
  rd : Bool
  ra : Bool
  ad : Bool
  cd : Bool
  rcode : ResponseCode
  questions : List Question
  answers : List ResourceRecord
  authority : List ResourceRecord
  additional : List ResourceRecord
  deriving DecidableEq, Repr

namespace Message

/-- `Message::new`: an empty query with recursion desired. -/
def new : Message where
  id := 0
  qr := false
  opcode := .query
  aa := false
  tc := false
  rd := true
  ra := false
  ad := false
  cd := false
  rcode := .noError
  questions := []
  answers := []
  authority := []
  additional := []

/-- `records`: the answer, authority and additional records, in that order. -/
def records (m : Message) : List ResourceRecord :=
  m.answers ++ m.authority ++ m.additional

/-- Change every record of the three record sections in place, as a loop over `records_mut` does. -/
def mapRecords (f : ResourceRecord → ResourceRecord) (m : Message) : Message :=
  { m with
    answers := m.answers.map f
    authority := m.authority.map f
    additional := m.additional.map f }

end Message

end Dns

end Lazydns
