import Lazydns.Plugin.Dataset

/-!
# Hosts files

The store of the `hosts` plugin maps names to addresses. It is filled one address at a time, or from the text of a hosts file, which replaces what was there unless a line of it has names and no address.
-/

namespace Lazydns

open Dns

/-- `s.split_whitespace()`. -/
def splitWhitespace (s : String) : List String :=
  ((s.toList.splitOnP isWhitespace).filter (· ≠ [])).map String.ofList

structure FileParse where
  path : String
  reason : String
  deriving DecidableEq, Repr

structure Hosts where
  hosts : String → Option (List IpAddr)

namespace Hosts

def new : Hosts := ⟨fun _ => none⟩

/-- `entry(key).or_default()` extended by addresses. -/
def extend (key : String) (ips : List IpAddr) (h : Hosts) : Hosts :=
  ⟨Function.update h.hosts key (some ((h.hosts key).getD [] ++ ips))⟩

section

variable (env : RuleEnv)

def addHost (domain : String) (ip : IpAddr) (h : Hosts) : Hosts :=
  h.extend (env.toLowercase (trimEndDots domain)) [ip]

def getIps (domain : String) (h : Hosts) : Option (List IpAddr) :=
  h.hosts (env.toLowercase (trimEndDots domain))

/-- The addresses and the other tokens of a line; empty lines, comments and single tokens are passed over. -/
def parseLine (line : String) : Option (List IpAddr × List String) :=
  let line := trim line
  if line = "" ∨ line.toList.head? = some '#' then none
  else
    let parts := splitWhitespace line
    if parts.length < 2 then none
    else some (parts.filterMap env.parseIp, parts.filter fun token => (env.parseIp token).isNone)

/-- One round of the loop of `load_from_string`. -/
def loadLine (newHosts : Hosts) (line : String) : Except FileParse Hosts :=
  match parseLine env line with
  | none => .ok newHosts
  | some (ips, hostnames) =>
    if ips.isEmpty then .error ⟨"hosts", "No valid IP found in line: " ++ trim line⟩
    else .ok (hostnames.foldl (fun hosts hostname => hosts.extend (env.toLowercase hostname) ips) newHosts)

def loadFromString (content : String) (h : Hosts) : Except FileParse Unit × Hosts :=
  match (strLines content).foldlM (loadLine env) new with
  | .ok newHosts => (.ok (), newHosts)
  | .error e => (.error e, h)

end

end Hosts

end Lazydns
