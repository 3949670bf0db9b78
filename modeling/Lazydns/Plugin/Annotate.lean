import Lazydns.Plugin.Env
import Lazydns.Plugin.Context

/-!
# Plugins that only leave metadata

Marks, EDNS options, database lookups and set additions: each writes entries of the metadata map and leaves the request, the response and the shared state alone. The databases are the plugins' own tables, given here by their lookup functions.
-/

namespace Lazydns

open Dns

def answerIp (rr : ResourceRecord) : Option IpAddr :=
  match rr.rdata with
  | .A addr => some (.v4 addr)
  | .AAAA addr => some (.v6 addr)
  | _ => none

/-- The leading `prefixLen` bits of an address, as a network. -/
def networkOf (prefixLen : Nat) : IpAddr → IpNet
  | .v4 addr =>
    let len := min prefixLen 32
    .v4 (addr >>> (32 - len) <<< (32 - len)) len
  | .v6 addr =>
    let len := min prefixLen 128
    .v6 (addr >>> (128 - len) <<< (128 - len)) len

/-! ### Marks and summaries -/

structure MarkPlugin where
  markName : String
  markValue : Option String
  deriving DecidableEq, Repr

def MarkPlugin.execute (p : MarkPlugin) (ctx : Context) : Context :=
  match p.markValue with
  | some value => ctx.setMetadata p.markName (.string value)
  | none => ctx.setMetadata p.markName (.bool true)

/-- The text of a record type or class is given by `showType` and `showClass`. -/
structure QuerySummaryPlugin where
  metadataKey : String
  showType : RecordType → String
  showClass : RecordClass → String

def QuerySummaryPlugin.execute (p : QuerySummaryPlugin) (ctx : Context) : Context :=
  let summary := ctx.request.questions.map fun q =>
    q.qname ++ " " ++ p.showClass q.qclass ++ " " ++ p.showType q.qtype
  ctx.setMetadata p.metadataKey (.string ("; ".intercalate summary))

/-! ### EDNS options -/

structure EcsPlugin where
  forward : Bool
  send : Bool
  preset : Option IpAddr
  mask4 : Nat
  mask6 : Nat
  deriving DecidableEq, Repr

/-- What the plugin is configured with; the masks are bytes. -/
structure EcsArgs where
  forward : Option Bool
  send : Option Bool
  preset : Option String
  mask4 : Option Nat
  mask6 : Option Nat
  deriving DecidableEq, Repr

namespace EcsPlugin

/-- Where `parseIp` is `str::parse::<IpAddr>`. -/
def new (parseIp : String → Option IpAddr) (args : EcsArgs) : Except Error EcsPlugin :=
  let mask4 := args.mask4.getD 24
  let mask6 := args.mask6.getD 48
  let plugin (preset : Option IpAddr) : EcsPlugin :=
    ⟨args.forward.getD false, args.send.getD false, preset, mask4, mask6⟩
  if 32 < mask4 ∨ 128 < mask6 then .error (.other "invalid mask")
  else
    match args.preset with
    | some p =>
      match parseIp p with
      | some ip => .ok (plugin (some ip))
      | none => .error (.other "invalid preset addr: invalid IP address syntax")
    | none => .ok (plugin none)

/-- The first `n` bytes of a `w`-byte number. -/
def leadingBytes (w n value : Nat) : List UInt8 :=
  (List.range n).map fun i => UInt8.ofNat (value / 256 ^ (w - 1 - i))

/-- `make_ecs_option`: family, source prefix length, scope zero, and the bytes of the prefix. -/
def makeEcsOption (mask4 mask6 : Nat) : IpAddr → UInt16 × List UInt8
  | .v4 addr =>
    let len := min mask4 32
    (8, [0, 1, UInt8.ofNat len, 0] ++ leadingBytes 4 ((len + 7) / 8) addr.toNat)
  | .v6 addr =>
    let len := min mask6 128
    (8, [0, 2, UInt8.ofNat len, 0] ++ leadingBytes 16 ((len + 7) / 8) addr.toNat)

def setOptions (ctx : Context) (options : List (UInt16 × List UInt8)) : Context :=
  (ctx.setMetadata "edns0_options" (.options options)).setMetadata "edns0_preserve_existing"
    (.bool true)

/-- The options are only left in the metadata; with `send` the client's address is looked for as text. -/
def execute (env : Env) (p : EcsPlugin) (ctx : Context) : Context :=
  match if p.forward then ctx.getOptions "client_edns0_options" else none with
  | some options => setOptions ctx options
  | none =>
    match p.preset with
    | some ip => setOptions ctx [makeEcsOption p.mask4 p.mask6 ip]
    | none =>
      match (if p.send then ctx.getString "client_addr" else none).bind env.parseIp with
      | some ip => setOptions ctx [makeEcsOption p.mask4 p.mask6 ip]
      | none => ctx

end EcsPlugin

structure Edns0OptPlugin where
  options : List (UInt16 × List UInt8)
  preserveExisting : Bool
  deriving DecidableEq, Repr

def Edns0OptPlugin.execute (p : Edns0OptPlugin) (ctx : Context) : Context :=
  if p.options.isEmpty then ctx
  else (ctx.setMetadata "edns0_options" (.edns0Options p.options)).setMetadata
    "edns0_preserve_existing" (.bool p.preserveExisting)

/-! ### Databases -/

structure GeoIpPlugin where
  metadataKey : String
  lookup : IpAddr → Option String

/-- The country of the first answer address that has one. -/
def GeoIpPlugin.execute (p : GeoIpPlugin) (ctx : Context) : Context :=
  match ctx.response with
  | none => ctx
  | some response =>
    match response.answers.findSome? fun rr => (answerIp rr).bind p.lookup with
    | some country => ctx.setMetadata p.metadataKey (.string country)
    | none => ctx

structure GeoSitePlugin where
  metadataKey : String
  lookup : String → Option String

def GeoSitePlugin.execute (p : GeoSitePlugin) (ctx : Context) : Context :=
  match ctx.request.questions.head? with
  | none => ctx
  | some q =>
    if q.qtype ≠ .A ∧ q.qtype ≠ .AAAA then ctx
    else
      match p.lookup q.qname with
      | some category => ctx.setMetadata p.metadataKey (.string category)
      | none => ctx

def DomainSetPlugin.execute (name : String) (ctx : Context) : Context :=
  ctx.setMetadata ("domain_set_" ++ name) .rules

def IpSetDataset.execute (name : String) (ctx : Context) : Context :=
  ctx.setMetadata ("ip_set_" ++ name) .rules

/-! ### Set additions

The commands that add to the operating system's sets have no effect on the request. -/

/-- A set for a family of addresses, with the prefix length to add. -/
structure SetTarget where
  set : String
  mask : Nat
  deriving DecidableEq, Repr

/-- The networks of the answer addresses, each with the set it goes to. -/
def setAdditions (target : IpAddr → Option SetTarget) (response : Message) :
    List (String × IpNet) :=
  response.answers.filterMap fun rr => do
    let ip ← answerIp rr
    let t ← target ip
    return (t.set, networkOf t.mask ip)

def familyTarget (v4 v6 : Option SetTarget) : IpAddr → Option SetTarget
  | .v4 _ => v4
  | .v6 _ => v6

structure IpSetPlugin where
  v4 : Option SetTarget
  v6 : Option SetTarget
  deriving DecidableEq, Repr

def IpSetPlugin.execute (p : IpSetPlugin) (ctx : Context) : Context :=
  match ctx.response with
  | none => ctx
  | some response =>
    let toAdd := (ctx.getPrefixes "ipset_added").getD [] ++
      setAdditions (familyTarget p.v4 p.v6) response
    if toAdd.isEmpty then ctx else ctx.setMetadata "ipset_added" (.prefixes toAdd)

structure NftSetPlugin where
  v4 : Option SetTarget
  v6 : Option SetTarget
  deriving DecidableEq, Repr

def NftSetPlugin.setUnlessEmpty (key : String) (added : List (String × IpNet)) (ctx : Context) :
    Context :=
  if added.isEmpty then ctx else ctx.setMetadata key (.prefixes added)

def NftSetPlugin.execute (p : NftSetPlugin) (ctx : Context) : Context :=
  match ctx.response with
  | none => ctx
  | some response =>
    setUnlessEmpty "nftset_added_v6" (setAdditions (familyTarget none p.v6) response)
      (setUnlessEmpty "nftset_added_v4" (setAdditions (familyTarget p.v4 none) response) ctx)

end Lazydns
