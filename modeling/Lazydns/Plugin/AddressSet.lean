import Lazydns.Lib.Radix
import Lazydns.Plugin.Annotate
import Lazydns.Plugin.Hosts
import Lazydns.Plugin.Init

/-!
# Setting up the address sets

`ipset` and `nftset` are set up from a shorthand of at most two fields apart by blanks, each with as many parts apart by commas as the plugin wants, the last two of which are a family and a mask. In a sequence the shorthand is one list of such parts, which is cut into fields first. The mask is read as an `i32` and cast to a byte.
-/

namespace Lazydns

open Dns

inductive SetupError where
  | config (reason : String)
  | other (reason : String)
  | invalidConfigValue (field value reason : String)
  | invalidAddress (input : String)
  deriving DecidableEq, Repr

/-! ### Texts -/

/-- `s.split(',')`. -/
def splitCommas (s : String) : List String := (s.toList.splitOn ',').map String.ofList

/-- `parts.join(",")`. -/
def joinCommas (parts : List String) : String := String.ofList ([','].intercalate (parts.map String.toList))

/-- The loop of `i32::from_str`, over the digits behind a sign. -/
def readI32 (sign : Int) (overflow : String) : Int → List Char → Except String Int
  | n, [] => .ok n
  | n, c :: digits =>
    if c.isDigit then
      let n := 10 * n + sign * (c.toNat - 48 : Nat)
      if -2 ^ 31 ≤ n ∧ n < 2 ^ 31 then readI32 sign overflow n digits else .error overflow
    else .error "invalid digit found in string"

/-- `str::parse::<i32>`, or the text of its error. -/
def parseI32 (s : String) : Except String Int :=
  match s.toList with
  | [] => .error "cannot parse integer from empty string"
  | ['+'] | ['-'] => .error "invalid digit found in string"
  | '-' :: digits => readI32 (-1) "number too small to fit in target type" 0 digits
  | '+' :: digits => readI32 1 "number too large to fit in target type" 0 digits
  | digits => readI32 1 "number too large to fit in target type" 0 digits

/-! ### Both plugins -/

section

variable {α : Type}

/-- The inherent `quick_setup`: field by field, from the default arguments. -/
def setupFields (tooMany : Nat → SetupError) (addField : α → String → Except SetupError α) (default : α) (s : String) :
    Except SetupError α :=
  let fs := splitWhitespace s
  if 2 < fs.length then .error (tooMany fs.length) else fs.foldlM addField default

/-- The parts of a field, of which there have to be `count`, and its mask, the last of them. -/
def readField (count : Nat) (wrongCount : Nat → SetupError) (invalidMask : String → String → SetupError)
    (field : String) : Except SetupError (List String × Int) :=
  let ss := splitCommas field
  if ss.length ≠ count then .error (wrongCount ss.length)
  else
    match parseI32 (ss.getD (count - 1) "") with
    | .ok m => .ok (ss, m)
    | .error e => .error (invalidMask (ss.getD (count - 1) "") e)

/-- `ExecPlugin::quick_setup`: every `count` parts make a field. -/
def setupExec (name : String) (count : Nat) (quickSetup : String → Except SetupError α) (given execStr : String) :
    Except SetupError α :=
  if given ≠ name then
    .error (.config
      ("ExecPlugin quick_setup: unsupported prefix '" ++ given ++ "', expected '" ++ name ++ "'"))
  else
    let parts := splitCommas execStr
    if parts.length % count ≠ 0 then
      .error (.config ("Invalid " ++ name ++ " arguments: expected multiples of " ++ toString count ++
        " comma-separated values, got " ++ toString parts.length))
    else quickSetup (" ".intercalate ((parts.toChunks count).map joinCommas))

end

/-! ### The `ipset` plugin -/

structure IpSetArgs where
  setName4 : Option String
  setName6 : Option String
  mask4 : Option Nat
  mask6 : Option Nat
  deriving DecidableEq, Repr

namespace IpSetArgs

def default : IpSetArgs := ⟨none, none, some 24, some 32⟩

def plugin (args : IpSetArgs) : IpSetPlugin where
  v4 := args.setName4.map fun name => ⟨name, args.mask4.getD 24⟩
  v6 := args.setName6.map fun name => ⟨name, args.mask6.getD 32⟩

/-- The body of the loop of `quick_setup`. -/
def addField (args : IpSetArgs) (field : String) : Except SetupError IpSetArgs := do
  let (ss, m) ← readField 3 (fun n => .other ("invalid args, expect 3 fields, got " ++ toString n))
    (fun _ e => .other ("invalid mask, " ++ e)) field
  let family := ss.getD 1 ""
  if family = "inet" then
    .ok { args with mask4 := some (castUnsigned 8 m), setName4 := some (ss.getD 0 "") }
  else if family = "inet6" then
    .ok { args with mask6 := some (castUnsigned 8 m), setName6 := some (ss.getD 0 "") }
  else .error (.other ("invalid set family, " ++ family))

def quickSetup : String → Except SetupError IpSetArgs :=
  setupFields (fun n => .other ("expect no more than 2 fields, got " ++ toString n)) addField default

/-- `ExecPlugin::quick_setup` of the plugin. -/
def execQuickSetup : String → String → Except SetupError IpSetArgs := setupExec "ipset" 3 quickSetup

end IpSetArgs

/-- What a run of the plugin adds to its sets, in order: what the metadata had, and then the networks of the answers. -/
def IpSetPlugin.added (p : IpSetPlugin) (ctx : Context) (response : Message) : List (String × IpNet) :=
  (ctx.getPrefixes "ipset_added").getD [] ++ setAdditions (familyTarget p.v4 p.v6) response

/-! ### The `nftset` plugin -/

structure SetArgs where
  tableFamily : Option String
  table : Option String
  set : Option String
  mask : Option Nat
  deriving DecidableEq, Repr

structure NftSetArgs where
  ipv4 : Option SetArgs
  ipv6 : Option SetArgs
  deriving DecidableEq, Repr

def SetArgs.target (defaultMask : Nat) (sa : SetArgs) : Option SetTarget :=
  sa.set.map fun set => ⟨set, sa.mask.getD defaultMask⟩

namespace NftSetArgs

def plugin (args : NftSetArgs) : NftSetPlugin where
  v4 := args.ipv4.bind (SetArgs.target 24)
  v6 := args.ipv6.bind (SetArgs.target 48)

def addField (args : NftSetArgs) (field : String) : Except SetupError NftSetArgs := do
  let (ss, m) ← readField 5
    (fun n => .invalidConfigValue "nftset" field ("expect 5 comma-separated fields, got " ++ toString n))
    (.invalidConfigValue "mask") field
  let sa : SetArgs := ⟨some (ss.getD 0 ""), some (ss.getD 1 ""), some (ss.getD 2 ""), some (castUnsigned 8 m)⟩
  let family := ss.getD 3 ""
  if family = "ipv4_addr" then .ok { args with ipv4 := some sa }
  else if family = "ipv6_addr" then .ok { args with ipv6 := some sa }
  else .error (.invalidAddress ("unsupported ip type: " ++ family))

def quickSetup (s : String) : Except SetupError NftSetArgs :=
  setupFields
    (fun n => .invalidConfigValue "nftset" s ("expect no more than 2 fields, got " ++ toString n))
    addField ⟨none, none⟩ s

/-- `ExecPlugin::quick_setup` of the plugin. -/
def execQuickSetup : String → String → Except SetupError NftSetArgs := setupExec "nftset" 5 quickSetup

end NftSetArgs

def NftSetPlugin.added4 (p : NftSetPlugin) (response : Message) : List (String × IpNet) :=
  setAdditions (familyTarget p.v4 none) response

def NftSetPlugin.added6 (p : NftSetPlugin) (response : Message) : List (String × IpNet) :=
  setAdditions (familyTarget none p.v6) response

/-! ### Networks -/

/-- `make_v4_prefix`: the address of the network, and its prefix length. -/
def makeV4Prefix (ip : BitVec 32) (mask : Nat) : BitVec 32 × Nat :=
  let mask := min mask 32
  if mask = 0 then (0, 0) else (ip &&& (BitVec.allOnes 32 <<< (32 - mask)), mask)

/-- `ip.octets()`. -/
def octets6 (ip : BitVec 128) : List (BitVec 8) :=
  (Radix.digits 256 16 ip.toNat).reverse.map (BitVec.ofNat 8)

/-- `Ipv6Addr::from`. -/
def ofOctets6 (bytes : List (BitVec 8)) : BitVec 128 :=
  BitVec.ofNat 128 (Radix.value 256 0 (bytes.map BitVec.toNat))

/-- The loop of `make_v6_prefix`: `bits` bits are left to keep. -/
def keepBits : Nat → List (BitVec 8) → List (BitVec 8)
  | _, [] => []
  | bits, b :: bytes =>
    if 8 ≤ bits then b :: keepBits (bits - 8) bytes
    else if bits = 0 then 0 :: keepBits 0 bytes
    else (b &&& (BitVec.allOnes 8 <<< (8 - bits))) :: keepBits 0 bytes

def makeV6Prefix (ip : BitVec 128) (mask : Nat) : BitVec 128 × Nat :=
  let mask := min mask 128
  (ofOctets6 (keepBits mask (octets6 ip)), mask)

end Lazydns
