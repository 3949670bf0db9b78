import Lazydns.Plugin.Hosts
import Lazydns.Plugin.Names
import Lazydns.Plugin.Reply

/-!
# The table of the arbitrary plugin

Records are read from inline rules and from files, one on a line, and kept under their name. A line that is no record makes the plugin fail, but for empty lines and comments of a file.
-/

namespace Lazydns

open Dns

structure ArbitraryArgs where
  rules : Option (List String)
  files : Option (List String)
  deriving DecidableEq, Repr

namespace ArbitraryPlugin

variable (env : Env) (toUppercase : String → String)

/-- `Ipv4Addr::from_str`, which takes what is an IPv4 address to `str::parse::<IpAddr>`. -/
def parseIpv4 (s : String) : Option (BitVec 32) :=
  match env.parseIp s with
  | some (.v4 addr) => some addr
  | _ => none

def parseIpv6 (s : String) : Option (BitVec 128) :=
  match env.parseIp s with
  | some (.v6 addr) => some addr
  | _ => none

def parseRdata (typ rdata : String) : Option (RecordType × RData) :=
  let typ := toUppercase typ
  if typ = "A" then (parseIpv4 env rdata).map fun ip => (.A, .A ip)
  else if typ = "AAAA" then (parseIpv6 env rdata).map fun ip => (.AAAA, .AAAA ip)
  else if typ = "CNAME" then some (.CNAME, .CNAME rdata)
  else none

/-- The class may be left out; what follows the data is not looked at. -/
def parseRrLine (line : String) : Option ResourceRecord :=
  match splitWhitespace line with
  | owner :: second :: third :: rest =>
    let (typ, rdata) :=
      match rest with
      | fourth :: _ => if asciiLowercase second = "in" then (third, fourth) else (second, third)
      | [] => (second, third)
    (parseRdata env toUppercase typ rdata).map fun (rtype, rdata) =>
      ⟨env.toLowercase (trimEndDots owner), rtype, .IN, 300, rdata⟩
  | _ => none

/-- `entry(rr.name()).or_default().push(rr)`. -/
def push (p : ArbitraryPlugin) (rr : ResourceRecord) : ArbitraryPlugin :=
  ⟨Function.update p.map rr.name (some ((p.map rr.name).getD [] ++ [rr]))⟩

def addRule (p : ArbitraryPlugin) (rule : String × Nat) : Except FileParse ArbitraryPlugin :=
  match parseRrLine env toUppercase rule.1 with
  | some rr => .ok (p.push rr)
  | none => .error ⟨"inline rule #" ++ toString rule.2, "failed to parse: " ++ rule.1⟩

def isComment (line : String) : Bool :=
  line = "" || line.toList.head? = some ';' || line.toList.head? = some '#'

def addLine (file : String) (p : ArbitraryPlugin) (line : String × Nat) : Except FileParse ArbitraryPlugin :=
  if isComment (trim line.1) then .ok p
  else
    match parseRrLine env toUppercase (trim line.1) with
    | some rr => .ok (p.push rr)
    | none => .error ⟨file, "failed to parse line " ++ toString (line.2 + 1)⟩

section

-- `fs::read_to_string`
variable (read : String → Except String String)

def addFile (p : ArbitraryPlugin) (file : String) : Except FileParse ArbitraryPlugin :=
  match read file with
  | .ok content => (strLines content).zipIdx.foldlM (addLine env toUppercase file) p
  | .error e => .error ⟨file, "failed to read: " ++ e⟩

def new (args : ArbitraryArgs) : Except FileParse ArbitraryPlugin := do
  let p ← (args.rules.getD []).zipIdx.foldlM (addRule env toUppercase) ⟨fun _ => none⟩
  (args.files.getD []).foldlM (addFile env toUppercase read) p

/-! ### The configured records -/

def fileRecords (file : String) : List ResourceRecord :=
  match read file with
  | .ok content => (strLines content).filterMap fun line =>
    if isComment (trim line) then none else parseRrLine env toUppercase (trim line)
  | .error _ => []

/-- The records in the rules, and then those in the lines of the files. -/
def records (args : ArbitraryArgs) : List ResourceRecord :=
  (args.rules.getD []).filterMap (parseRrLine env toUppercase) ++
    (args.files.getD []).flatMap (fileRecords env toUppercase read)

end

def ofRecords (rrs : List ResourceRecord) : ArbitraryPlugin := rrs.foldl push ⟨fun _ => none⟩

end ArbitraryPlugin

end Lazydns
