import Lazydns.Dns.Message
import Lazydns.Lib.Bytes
import Lazydns.Lib.Tlv

/-!
# What a message is on the wire

`serialize_message` and `parse_message` go through the wire library's own message type, `Hickory.Message`: what is on the wire is a field of it. `convertToHickory` and `convertFromHickory` are the two conversions. Names as text are the library's work and enter as the parameters `fromUtf8` and `toUtf8`.
-/

namespace Lazydns

namespace Dns

namespace Hickory

/-- A domain name as its labels. -/
abbrev Name := List (List UInt8)

inductive OpCode where
  | query | status | notify | update
  deriving DecidableEq, Repr

structure Query where
  name : Name
  queryType : UInt16
  queryClass : UInt16
  deriving DecidableEq, Repr

/-- `Query::query`: the class is `IN`. -/
def Query.query (name : Name) (queryType : UInt16) : Query := ⟨name, queryType, 1⟩

/-- Record data. A type that the server has no form for is `unknown`, with its type and its bytes. -/
inductive RData where
  | A (addr : BitVec 32)
  | AAAA (addr : BitVec 128)
  | CNAME (name : Name)
  | MX (preference : UInt16) (exchange : Name)
  | NS (name : Name)
  | PTR (name : Name)
  | TXT (texts : List (List UInt8))
  | SOA (mname rname : Name) (serial : Nat) (refresh retry expire : Int32) (minimum : Nat)
  | SRV (priority weight port : UInt16) (target : Name)
  | unknown (code : UInt16) (data : List UInt8)
  deriving DecidableEq, Repr

/-- A record without any data on the wire has none. -/
structure Record where
  name : Name
  recordType : UInt16
  dnsClass : UInt16
  ttl : Nat
  data : Option RData
  deriving DecidableEq, Repr

/-- The EDNS record, with its options as a map from code to value, a later insertion replacing an earlier one. -/
structure Edns where
  rcodeHigh : UInt8
  version : UInt8
  dnssecOk : Bool
  maxPayload : UInt16
  options : List (UInt16 × List UInt8)
  deriving DecidableEq, Repr

structure Message where
  id : UInt16
  isResponse : Bool
  opcode : OpCode
  aa : Bool
  tc : Bool
  rd : Bool
  ra : Bool
  ad : Bool
  cd : Bool
  rcode : UInt16
  queries : List Query
  answers : List Record
  nameServers : List Record
  additionals : List Record
  edns : Option Edns
  deriving DecidableEq, Repr

end Hickory

/-! ### Conversion -/

/-- The library has no `IQuery` and no unknown opcodes: both are sent as `Query`. -/
def convertOpCode : OpCode → Hickory.OpCode
  | .query => .query
  | .status => .status
  | .notify => .notify
  | .update => .update
  | .iquery | .unknown _ => .query

/-- `set_edns_options`: walk the option bytes, stopping at a length that runs past the end. The fuel is the number of bytes, which every round shortens by at least four. -/
def ednsOptions : Nat → List UInt8 → List (UInt16 × List UInt8) → List (UInt16 × List UInt8)
  | 0, _, acc => acc
  | fuel + 1, c1 :: c2 :: l1 :: l2 :: rest, acc =>
    let code : UInt16 := c1.toUInt16 * 256 + c2.toUInt16
    let len := (l1.toUInt16 * 256 + l2.toUInt16).toNat
    if rest.length < len then acc
    else ednsOptions fuel (rest.drop len)
      (acc.filter (fun o => o.1 ≠ code) ++ [(code, rest.take len)])
  | _ + 1, _, acc => acc

/-- The loop of `set_edns_options` from an index on; `none` is an access out of range. -/
def setEdnsOptions (options : List UInt8) (i : Nat) (acc : List (UInt16 × List UInt8)) :
    Option (List (UInt16 × List UInt8)) :=
  if i + 4 ≤ options.length then do
    let code := Tlv.value16 (← options[i]?) (← options[i + 1]?)
    let len := (Tlv.value16 (← options[i + 2]?) (← options[i + 3]?)).toNat
    if options.length < i + 4 + len then some acc
    else
      let value ← if i + 4 + len ≤ options.length then some ((options.drop (i + 4)).take len) else none
      setEdnsOptions options (i + 4 + len) (acc.filter (fun o => o.1 ≠ code) ++ [(code, value)])
  else some acc
termination_by options.length - i

/-- `u32 as i32`. -/
def asI32 (n : Nat) : Int32 := Int32.ofBitVec (BitVec.ofNat 32 n)

/-- `i32 as u32`. -/
def asU32 (n : Int32) : Nat := n.toBitVec.toNat

section

variable (fromUtf8 : String → Option Hickory.Name)

/-- The record data of one record: `none` is an invalid name, `some none` a type without a form in the library, which is left out. -/
def convertRData (rtype : UInt16) : RData → Option (Option Hickory.RData)
  | .A addr => some (some (.A addr))
  | .AAAA addr => some (some (.AAAA addr))
  | .CNAME name => do return some (.CNAME (← fromUtf8 name))
  | .MX preference exchange => do return some (.MX preference (← fromUtf8 exchange))
  | .NS name => do return some (.NS (← fromUtf8 name))
  | .PTR name => do return some (.PTR (← fromUtf8 name))
  | .TXT texts => some (some (.TXT (texts.map Bytes.ofString)))
  | .SOA mname rname serial refresh retry expire minimum => do
    return some (.SOA (← fromUtf8 mname) (← fromUtf8 rname) serial (asI32 refresh)
      (asI32 retry) (asI32 expire) minimum)
  | .SRV priority weight port target => do
    return some (.SRV priority weight port (← fromUtf8 target))
  | .unknown data => some (some (.unknown rtype data))
  | _ => some none

/-- `convert_to_hickory_record`. -/
def convertRecord (rr : ResourceRecord) : Option (Option Hickory.Record) := do
  let name ← fromUtf8 rr.name
  let data ← convertRData fromUtf8 rr.rtype.toU16 rr.rdata
  return data.map fun data =>
    { name, recordType := rr.rtype.toU16, dnsClass := rr.rclass.toU16, ttl := rr.ttl, data := some data }

/-- The records of a section that have a form in the library, or `none` when one has an invalid name. -/
def convertRecords (records : List ResourceRecord) : Option (List Hickory.Record) :=
  (records.mapM (convertRecord fromUtf8)).map fun converted => converted.filterMap id

def convertQuestion (q : Question) : Option Hickory.Query := do
  return .query (← fromUtf8 q.qname) q.qtype.toU16

/-- An OPT record of the additional section, as the library's EDNS record. -/
def convertEdns (rr : ResourceRecord) : Option Hickory.Edns :=
  match rr.rdata with
  | .OPT extendedRcode version flags options =>
    some {
      rcodeHigh := extendedRcode
      version := version
      dnssecOk := flags &&& 0x8000 != 0
      maxPayload := max rr.rclass.toU16 512
      options := ednsOptions options.length options [] }
  | _ => none

/-- `convert_to_hickory`. The last OPT record of the additional section is the one that is sent. -/
def convertToHickory (m : Message) : Option Hickory.Message := do
  let queries ← m.questions.mapM (convertQuestion fromUtf8)
  let answers ← convertRecords fromUtf8 m.answers
  let nameServers ← convertRecords fromUtf8 m.authority
  let additionals ← convertRecords fromUtf8
    (m.additional.filter fun rr => (convertEdns rr).isNone)
  return {
    id := m.id
    isResponse := m.qr
    opcode := convertOpCode m.opcode
    aa := m.aa
    tc := m.tc
    rd := m.rd
    ra := m.ra
    ad := m.ad
    cd := m.cd
    rcode := m.rcode.toU8.toUInt16
    queries
    answers
    nameServers
    additionals
    edns := (m.additional.filterMap convertEdns).getLast? }

end

/-! ### Conversion from the library -/

def convertFromOpCode : Hickory.OpCode → OpCode
  | .query => .query
  | .status => .status
  | .notify => .notify
  | .update => .update

/-- Codes without a name keep their value, up to what fits a `u8`. -/
def convertResponseCode (code : UInt16) : ResponseCode :=
  match code with
  | 0 => .noError | 1 => .formErr | 2 => .servFail | 3 => .nxDomain | 4 => .notImp | 5 => .refused
  | 6 => .yxDomain | 7 => .yxRRSet | 8 => .nxRRSet | 9 => .notAuth | 10 => .notZone
  | other => .unknown (min other 255).toUInt8

/-- `strip_suffix('.')`, with the text itself where there is no such suffix. -/
def stripRoot (s : String) : String :=
  if s.toList.getLast? = some '.' then String.ofList s.toList.dropLast else s

/-- What the buffer holds after the bytes have been written through `BinEncoder::new(&mut buffer)`: such an encoder starts at the buffer's first byte, not behind its last one. -/
def Hickory.emit (buffer value : List UInt8) : List UInt8 := value ++ buffer.drop value.length

/-- `edns_options_blob`: the options in the order in which the map hands them out; code and length, a `u16`, go to the end of the blob, the value through a new encoder. -/
def ednsOptionsBlob (options : List (UInt16 × List UInt8)) : List UInt8 :=
  options.foldl (fun blob o =>
    Hickory.emit (blob ++ (Tlv.be16 o.1 ++ Tlv.be16 (UInt16.ofNat o.2.length))) o.2) []

section

variable (toUtf8 : Hickory.Name → String)

def unrootedName (name : Hickory.Name) : String := stripRoot (toUtf8 name)

def convertHickoryRData : Hickory.RData → RData
  | .A addr => .A addr
  | .AAAA addr => .AAAA addr
  | .CNAME name => .CNAME (unrootedName toUtf8 name)
  | .MX preference exchange => .MX preference (unrootedName toUtf8 exchange)
  | .NS name => .NS (unrootedName toUtf8 name)
  | .PTR name => .PTR (unrootedName toUtf8 name)
  | .TXT texts => .TXT (texts.map Bytes.toStringLossy)
  | .SOA mname rname serial refresh retry expire minimum =>
    .SOA (unrootedName toUtf8 mname) (unrootedName toUtf8 rname) serial (asU32 refresh) (asU32 retry)
      (asU32 expire) minimum
  | .SRV priority weight port target => .SRV priority weight port (unrootedName toUtf8 target)
  | .unknown _ data => .unknown data

/-- `convert_hickory_record`: a record without data is left out. -/
def convertHickoryRecord (record : Hickory.Record) : Option ResourceRecord := do
  let data ← record.data
  return {
    name := unrootedName toUtf8 record.name
    rtype := .fromU16 record.recordType
    rclass := .fromU16 record.dnsClass
    ttl := record.ttl
    rdata := convertHickoryRData toUtf8 data }

def convertHickoryQuery (q : Hickory.Query) : Question where
  qname := unrootedName toUtf8 q.name
  qtype := .fromU16 q.queryType
  qclass := .fromU16 q.queryClass

/-- The OPT record that stands for the EDNS record; the payload size is in its class. -/
def optRecord (edns : Hickory.Edns) : ResourceRecord where
  name := "."
  rtype := .OPT
  rclass := .fromU16 edns.maxPayload
  ttl := 0
  rdata := .OPT edns.rcodeHigh edns.version (if edns.dnssecOk then 0x8000 else 0)
    (ednsOptionsBlob edns.options)

def convertFromHickory (h : Hickory.Message) : Message where
  id := h.id
  qr := h.isResponse
  opcode := convertFromOpCode h.opcode
  aa := h.aa
  tc := h.tc
  rd := h.rd
  ra := h.ra
  ad := h.ad
  cd := h.cd
  rcode := convertResponseCode h.rcode
  questions := h.queries.map (convertHickoryQuery toUtf8)
  answers := h.answers.filterMap (convertHickoryRecord toUtf8)
  authority := h.nameServers.filterMap (convertHickoryRecord toUtf8)
  additional := h.additionals.filterMap (convertHickoryRecord toUtf8) ++ h.edns.toList.map optRecord

end

end Dns

end Lazydns
