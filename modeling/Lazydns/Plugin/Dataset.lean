import Mathlib.Data.List.Infix
import Lazydns.Lib.Machine
import Lazydns.Plugin.Context
import Lazydns.Plugin.Env

/-!
# Data sets

`domain_set` and `ip_set` hold rules from files and from the configuration. Both read their files once when they are made and, with `auto_reload`, again whenever a watched file changes; the two ways of reading are separate code. A file is its bytes, or nothing where it cannot be opened.
-/

namespace Lazydns

open Dns

abbrev Disk := String → Option (List UInt8)

/-- The parsers and patterns that the rules are made with. -/
structure RuleEnv where
  toLowercase : String → String
  /-- `Regex::new`, and `is_match` of what it returns. -/
  regex : String → Option (String → Bool)
  /-- `str::parse::<IpAddr>`. -/
  parseIp : String → Option IpAddr
  /-- `str::parse::<IpNet>`. -/
  parseNet : String → Option IpNet

/-- Lines end with a line feed, and with a carriage return before it; the last one may end with the text. -/
def linesOf {α : Type} [DecidableEq α] (lineFeed carriageReturn : α) (text : List α) : List (List α) :=
  let pieces := text.splitOn lineFeed
  (pieces.dropLast.map fun line =>
    if line.getLast? = some carriageReturn then line.dropLast else line) ++
      pieces.getLast?.toList.filter (· ≠ [])

/-- `BufReader::lines`: a line that is not UTF-8 is an error. -/
def bufLines (bytes : List UInt8) : List (Option String) :=
  (linesOf 10 13 bytes).map fun line => String.fromUTF8? ⟨line.toArray⟩

/-- `content.lines()`. -/
def strLines (content : String) : List String :=
  (linesOf '\n' '\r' content.toList).map String.ofList

/-! ### Domain rules -/

inductive MatchType where
  | full | domain | regexp | keyword
  deriving DecidableEq, Repr

structure RegexpRule where
  pattern : String
  regex : String → Bool

/-- The sets of names are lists in which order and repetition do not matter. -/
structure DomainRules where
  full : List String
  domain : List String
  regexp : List RegexpRule
  keyword : List String

namespace DomainRules

def new : DomainRules := ⟨[], [], [], []⟩

section

variable (env : RuleEnv)

/-- An invalid pattern is skipped. -/
def addRule (rules : DomainRules) (matchType : MatchType) (value : String) : DomainRules :=
  if value = "" then rules
  else match matchType with
  | .full => { rules with full := rules.full ++ [env.toLowercase value] }
  | .domain => { rules with domain := rules.domain ++ [env.toLowercase value] }
  | .regexp => match env.regex value with
    | some regex => { rules with regexp := rules.regexp ++ [⟨value, regex⟩] }
    | none => rules
  | .keyword => { rules with keyword := rules.keyword ++ [env.toLowercase value] }

/-- The type and the value of a line that is neither empty nor a comment. -/
def splitLine (defaultType : MatchType) (line : String) : MatchType × String :=
  match stripPrefix "full:" line with
  | some rest => (.full, rest)
  | none => match stripPrefix "domain:" line with
    | some rest => (.domain, rest)
    | none => match stripPrefix "keyword:" line with
      | some rest => (.keyword, rest)
      | none => match stripPrefix "regexp:" line with
        | some rest => (.regexp, rest)
        | none => (defaultType, line)

def addLine (rules : DomainRules) (line : String) (defaultType : MatchType) : DomainRules :=
  let line := trim line
  if line = "" ∨ line.toList.head? = some '#' then rules
  else
    let (matchType, raw) := splitLine defaultType line
    let value := trim raw
    if value = "" then rules
    else rules.addRule env matchType
      (match matchType with
      | .regexp => value
      | _ => env.toLowercase value)

/-- The domain and all its parents, the domain first. -/
def candidates (domain : String) : List String :=
  ((domain.toList.splitOn '.').tails.filter (· ≠ [])).map fun labels =>
    String.ofList (['.'].intercalate labels)

def «matches» (rules : DomainRules) (domain : String) : Bool :=
  let domainLower := env.toLowercase (trimEndDots domain)
  rules.full.contains domainLower ||
    (candidates domainLower).any (rules.domain.contains ·) ||
    rules.regexp.any (fun rule => rule.regex domainLower) ||
    rules.keyword.any (fun kw => kw.toList <:+: domainLower.toList)

end

def merge (rules other : DomainRules) : DomainRules where
  full := rules.full ++ other.full
  domain := rules.domain ++ other.domain
  regexp := rules.regexp ++ other.regexp
  keyword := rules.keyword ++ other.keyword

section

variable {env : RuleEnv} {defaultType : MatchType}

theorem merge_new (a : DomainRules) : a.merge new = a := by
  simp [merge, new]

theorem addRule_eq_merge (a : DomainRules) (matchType : MatchType) (value : String) :
    a.addRule env matchType value = a.merge (new.addRule env matchType value) := by
  unfold addRule
  by_cases hvalue : value = ""
  · rw [if_pos hvalue, if_pos hvalue, merge_new]
  · rw [if_neg hvalue, if_neg hvalue]
    cases matchType with
    | regexp =>
      cases env.regex value with
      | none => exact (merge_new a).symm
      | some regex => simp [merge, new]
    | _ => simp [merge, new]

/-- What a line adds does not depend on what is there. -/
theorem addLine_eq_merge (a : DomainRules) (line : String) :
    a.addLine env line defaultType = a.merge (new.addLine env line defaultType) := by
  unfold addLine
  by_cases hskip : trim line = "" ∨ (trim line).toList.head? = some '#'
  · simp only [if_pos hskip, merge_new]
  · simp only [if_neg hskip]
    by_cases hvalue : trim (splitLine defaultType (trim line)).2 = ""
    · simp only [if_pos hvalue, merge_new]
    · simp only [if_neg hvalue]
      exact addRule_eq_merge a _ _

end

end DomainRules

/-! ### `domain_set` -/

structure DomainSetConfig where
  files : List String
  exps : List String
  autoReload : Bool
  defaultMatchType : MatchType
  deriving DecidableEq, Repr

structure DomainSetPlugin where
  config : DomainSetConfig
  rules : DomainRules

namespace DomainSetPlugin

variable (env : RuleEnv) (disk : Disk)

/-- A file with a line that cannot be read gives no rules at all. -/
def loadDomainFile (config : DomainSetConfig) (path : String) : Option DomainRules := do
  let bytes ← disk path
  (bufLines bytes).foldlM (fun rules line => line.map fun l => rules.addLine env l config.defaultMatchType)
    DomainRules.new

/-- `load_domains`: the files that can be loaded, and then the inline expressions. -/
def loadDomains (config : DomainSetConfig) : DomainRules :=
  let fileRules := (config.files.filterMap (loadDomainFile env disk config)).foldl DomainRules.merge .new
  config.exps.foldl (fun rules exp => rules.addLine env exp config.defaultMatchType) fileRules

def init (config : DomainSetConfig) : DomainSetPlugin where
  config := config
  rules := loadDomains env disk config

/-- The lines of a file up to one that cannot be read: `lines().map_while(|r| r.ok())`. -/
def leadingLines (bytes : List UInt8) : List String :=
  ((bufLines bytes).takeWhile Option.isSome).filterMap id

def reloadFile (config : DomainSetConfig) (rules : DomainRules) (path : String) : DomainRules :=
  match disk path with
  | some bytes =>
    (leadingLines bytes).foldl (fun rules line => rules.addLine env line config.defaultMatchType) rules
  | none => rules

/-- The callback of the file watcher. -/
def reload (p : DomainSetPlugin) : DomainSetPlugin where
  config := p.config
  rules := p.config.files.foldl (reloadFile env disk p.config) .new

end DomainSetPlugin

/-! ### `ip_set` -/

structure IpSetConfig where
  files : List String
  ips : List String
  autoReload : Bool
  deriving DecidableEq, Repr

/-- The `ip_set` dataset; its name in the source is that of the executable plugin too. -/
structure IpSetDataset where
  config : IpSetConfig
  networks : List IpNet

namespace IpSetDataset

variable (env : RuleEnv) (disk : Disk)

/-- A network, or the network of a single address. -/
def parseEntry (s : String) : Option IpNet :=
  match env.parseNet s with
  | some net => some net
  | none => match env.parseIp s with
    | some (.v4 addr) => some (.v4 addr 32)
    | some (.v6 addr) => some (.v6 addr 128)
    | none => none

/-- The network in a line, unless it is empty, a comment or malformed. -/
def parseLine (line : String) : Option IpNet :=
  let line := trim line
  if line = "" ∨ line.toList.head? = some '#' then none else parseEntry env line

def readToString (path : String) : Option String := do
  String.fromUTF8? ⟨(← disk path).toArray⟩

def loadIpFile (path : String) : Option (List IpNet) :=
  (readToString disk path).map fun content => (strLines content).filterMap (parseLine env)

/-- `load_networks`: the files that can be read, and then the inline addresses. -/
def loadNetworks (config : IpSetConfig) : List IpNet :=
  (config.files.filterMap (loadIpFile env disk)).flatten ++ config.ips.filterMap (parseEntry env)

def init (config : IpSetConfig) : IpSetDataset where
  config := config
  networks := loadNetworks env disk config

def reloadFile (path : String) : List IpNet :=
  match readToString disk path with
  | some content => (strLines content).filterMap (parseLine env)
  | none => []

/-- The callback of the file watcher. -/
def reload (p : IpSetDataset) : IpSetDataset where
  config := p.config
  networks := p.config.files.flatMap (reloadFile env disk)

def «matches» (p : IpSetDataset) (ip : IpAddr) : Bool := p.networks.any fun net => net.contains ip

end IpSetDataset

/-! ### Watching files -/

/-- A file gets new contents or disappears, or the watcher calls back. -/
inductive FileEvent where
  | write (path : String) (content : Option (List UInt8))
  | reload
  deriving DecidableEq, Repr

/-- The disk and a plugin that is reloaded from it, if it is watched. -/
def fileWatcher {P : Type} (watched : P → Bool) (reload : Disk → P → P) : Machine (Disk × P) FileEvent where
  step s
    | .write path content => some (Function.update s.1 path content, s.2)
    | .reload => if watched s.2 then some (s.1, reload s.1 s.2) else none

/-- The plugin is watched only with `auto_reload`, and if it has files. -/
def DomainSetPlugin.watcher (env : RuleEnv) : Machine (Disk × DomainSetPlugin) FileEvent :=
  fileWatcher (fun p => p.config.autoReload && !p.config.files.isEmpty) (reload env)

def IpSetDataset.watcher (env : RuleEnv) : Machine (Disk × IpSetDataset) FileEvent :=
  fileWatcher (fun p => p.config.autoReload && !p.config.files.isEmpty) (reload env)

end Lazydns
