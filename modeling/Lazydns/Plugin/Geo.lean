import Lazydns.Lib.Grouped
import Lazydns.Plugin.Annotate
import Lazydns.Plugin.Hosts

/-!
# The tables of the geo plugins

`geo_ip` keeps a list of networks for each country code, `geo_site` a set of domains for each category, both in a hash map. A lookup walks the map in its iteration order, which is given here with the plugin.
-/

namespace Lazydns

/-- A line of a data file in its first two words, unless it is empty, a comment or malformed. -/
def geoLine (line : String) : Option (String × String) :=
  let line := trim line
  if line = "" ∨ line.toList.head? = some '#' then none
  else
    match splitWhitespace line with
    | first :: second :: _ => some (first, second)
    | _ => none

/-- A table is extended by the content of a file; `read` is `fs::read_to_string`. -/
def loadGeoFile {σ : Type} (kind : String) (read : String → Except String String)
    (loadFromString : σ → String → Except Error σ) (table : σ) (file : String) : Except Error σ :=
  match read file with
  | .ok content => loadFromString table content
  | .error e => .error (.config ("Failed to read " ++ kind ++ " file '" ++ file ++ "': " ++ e))

/-- What `init` loads: the files, and then the inline data. -/
def loadGeo {σ : Type} (kind : String) (read : String → Except String String)
    (loadFromString : σ → String → Except Error σ) (empty : σ) (files data : List String) : Except Error σ := do
  let table ← files.foldlM (loadGeoFile kind read loadFromString) empty
  data.foldlM loadFromString table

/-! ### Countries -/

/-- `country_ranges`. -/
abbrev CountryRanges := AList fun _ : String => List IpNet

namespace CountryRanges

variable (toUppercase : String → String)

def addCountryCidr (m : CountryRanges) (countryCode : String) (cidr : IpNet) : CountryRanges :=
  Grouped.add (fun e => toUppercase e.1) [] (fun ranges e => ranges ++ [e.2]) m (countryCode, cidr)

section

variable (parseNet : String → Except String IpNet)

def addLine (m : CountryRanges) (line : String) : Except Error CountryRanges :=
  match geoLine line with
  | some (cidr, countryCode) =>
    match parseNet cidr with
    | .ok net => .ok (m.addCountryCidr toUppercase countryCode net)
    | .error e => .error (.config ("Invalid CIDR '" ++ cidr ++ "': " ++ e))
  | none => .ok m

def loadFromString (m : CountryRanges) (content : String) : Except Error CountryRanges :=
  (strLines content).foldlM (addLine toUppercase parseNet) m

def init (read : String → Except String String) (files data : List String) : Except Error CountryRanges :=
  loadGeo "GeoIP" read (loadFromString toUppercase parseNet) ∅ files data

end

def ofEntries (entries : List (String × IpNet)) : CountryRanges :=
  entries.foldl (fun m e => m.addCountryCidr toUppercase e.1 e.2) ∅

/-- `lookup`, where the map is walked in the order `o`. -/
def lookup (o : List (Σ _ : String, List IpNet)) (ip : IpAddr) : Option String :=
  Grouped.firstKey (fun ranges => ranges.any fun range => range.contains ip) o

end CountryRanges

/-- The plugin with a table that is walked in the order `o`. -/
def GeoIpPlugin.ofOrder (metadataKey : String) (o : List (Σ _ : String, List IpNet)) : GeoIpPlugin where
  metadataKey := metadataKey
  lookup := CountryRanges.lookup o

/-! ### Categories -/

/-- The domains of a category; a suffix also stands for itself. -/
structure DomainSet where
  exact : List String
  suffixes : List String
  deriving DecidableEq, Repr

namespace DomainSet

def new : DomainSet := ⟨[], []⟩

section

variable (toLowercase : String → String)

def addExact (s : DomainSet) (domain : String) : DomainSet :=
  { s with exact := s.exact.insert (toLowercase domain) }

def addSuffix (s : DomainSet) (suffix : String) : DomainSet :=
  let suffix := toLowercase suffix
  { s with suffixes := s.suffixes.insert ((stripPrefix "." suffix).getD suffix) }

/-- What `GeoSitePlugin::add_domain` does to the set of the category. -/
def addDomain (s : DomainSet) (domain : String) : DomainSet :=
  match stripPrefix "*." domain with
  | some suffix => s.addSuffix toLowercase suffix
  | none =>
    match stripPrefix "." domain with
    | some suffix => s.addSuffix toLowercase suffix
    | none => s.addExact toLowercase domain

def «matches» (s : DomainSet) (domain : String) : Bool :=
  let domainLower := toLowercase domain
  s.exact.contains domainLower ||
    s.suffixes.any fun suffix => domainLower == suffix || ('.' :: suffix.toList).isSuffixOf domainLower.toList

end

/-- The sets walked in other orders. -/
def Reordered (s s' : DomainSet) : Prop := s.exact.Perm s'.exact ∧ s.suffixes.Perm s'.suffixes

end DomainSet

/-- `categories`. -/
abbrev Categories := AList fun _ : String => DomainSet

namespace Categories

variable (toLowercase : String → String)

def addDomain (m : Categories) (category domain : String) : Categories :=
  Grouped.add (fun e => toLowercase e.1) .new (fun set e => set.addDomain toLowercase e.2) m (category, domain)

def addLine (m : Categories) (line : String) : Categories :=
  match geoLine line with
  | some (category, domain) => m.addDomain toLowercase category domain
  | none => m

def loadFromString (m : Categories) (content : String) : Categories :=
  (strLines content).foldl (addLine toLowercase) m

def init (read : String → Except String String) (files data : List String) : Except Error Categories :=
  loadGeo "GeoSite" read (fun m content => .ok (loadFromString toLowercase m content)) ∅ files data

def ofEntries (entries : List (String × String)) : Categories :=
  entries.foldl (fun m e => m.addDomain toLowercase e.1 e.2) ∅

/-- `lookup`, where the map is walked in the order `o`. -/
def lookup (o : List (Σ _ : String, DomainSet)) (domain : String) : Option String :=
  Grouped.firstKey (fun set => set.matches toLowercase domain) o

end Categories

/-- The plugin with a table that is walked in the order `o`. -/
def GeoSitePlugin.ofOrder (toLowercase : String → String) (metadataKey : String)
    (o : List (Σ _ : String, DomainSet)) : GeoSitePlugin where
  metadataKey := metadataKey
  lookup := Categories.lookup toLowercase o

end Lazydns
