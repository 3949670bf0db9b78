import Lazydns.Lib.Fallible
import Lazydns.Plugin.Geo

/-!
# Whether a lookup is determined by the data

The data of a table is what was added to it, in any order, and a lookup walks the table in any order. It has one result for an address exactly if all networks that contain the address were added under one country code, and for a name exactly if all domains that match it were added under one category.
-/

namespace Lazydns

/-! ### What is loaded -/

/-- What every content keeps, a load keeps. -/
theorem loadGeo_keeps {σ : Type} {kind : String} {read : String → Except String String}
    {load : σ → String → Except Error σ} {P : σ → Prop} {empty table : σ} {files data : List String}
    (hempty : P empty) (hload : ∀ s content s', P s → load s content = .ok s' → P s')
    (hinit : loadGeo kind read load empty files data = .ok table) : P table := by
  have hfile : ∀ s file s', P s → loadGeoFile kind read load s file = .ok s' → P s' := by
    intro s file s' hs hfile
    rw [loadGeoFile] at hfile
    cases hread : read file with
    | error e =>
      rw [hread] at hfile
      cases hfile
    | ok content =>
      rw [hread] at hfile
      exact hload s content s' hs hfile
  rw [loadGeo] at hinit
  obtain ⟨loaded, hfiles, hdata⟩ := Fallible.bind_eq_ok.mp hinit
  have hloaded := Fallible.foldlM_ok (fun _ => P) (fun _ file s s' => hfile s file s') [] hempty hfiles
  exact Fallible.foldlM_ok (fun _ => P) (fun _ content s s' => hload s content s') [] hloaded hdata

namespace CountryRanges

variable {toUppercase : String → String}

/-- The table holds networks that were added one after another. -/
def Added (toUppercase : String → String) (m : CountryRanges) : Prop := ∃ entries, m = ofEntries toUppercase entries

theorem Added.addCountryCidr {m : CountryRanges} (h : Added toUppercase m) (countryCode : String) (cidr : IpNet) :
    Added toUppercase (addCountryCidr toUppercase m countryCode cidr) := by
  obtain ⟨entries, rfl⟩ := h
  refine ⟨entries ++ [(countryCode, cidr)], ?_⟩
  rw [ofEntries, ofEntries, List.foldl_append]
  rfl

theorem Added.addLine {parseNet : String → Except String IpNet} {m m' : CountryRanges} {line : String}
    (h : Added toUppercase m) (hline : addLine toUppercase parseNet m line = .ok m') : Added toUppercase m' := by
  rw [CountryRanges.addLine] at hline
  cases hwords : geoLine line with
  | none =>
    rw [hwords] at hline
    cases hline
    exact h
  | some words =>
    obtain ⟨cidr, countryCode⟩ := words
    rw [hwords] at hline
    dsimp only at hline
    cases hnet : parseNet cidr with
    | error e =>
      rw [hnet] at hline
      cases hline
    | ok net =>
      rw [hnet] at hline
      cases hline
      exact h.addCountryCidr countryCode net

/-- Whatever `init` loads was added entry by entry. -/
theorem added_init {parseNet : String → Except String IpNet} {read : String → Except String String}
    {files data : List String} {m : CountryRanges} (hinit : init toUppercase parseNet read files data = .ok m) :
    Added toUppercase m := by
  refine loadGeo_keeps ⟨[], rfl⟩ ?_ hinit
  intro m content m' hm hload
  exact Fallible.foldlM_ok (fun _ => Added toUppercase) (fun _ _ _ _ h hline => h.addLine hline) [] hm hload

end CountryRanges

namespace Categories

variable {toLowercase : String → String}

/-- The table holds domains that were added one after another. -/
def Added (toLowercase : String → String) (m : Categories) : Prop := ∃ entries, m = ofEntries toLowercase entries

theorem Added.addLine {m : Categories} (h : Added toLowercase m) (line : String) :
    Added toLowercase (addLine toLowercase m line) := by
  rw [Categories.addLine]
  cases hwords : geoLine line with
  | none => exact h
  | some words =>
    obtain ⟨entries, rfl⟩ := h
    refine ⟨entries ++ [words], ?_⟩
    rw [ofEntries, ofEntries, List.foldl_append]
    rfl

/-- Whatever `init` loads was added entry by entry. -/
theorem added_init {read : String → Except String String} {files data : List String} {m : Categories}
    (hinit : init toLowercase read files data = .ok m) : Added toLowercase m := by
  refine loadGeo_keeps ⟨[], rfl⟩ ?_ hinit
  intro m content m' hm hload
  cases hload
  rw [loadFromString]
  induction strLines content generalizing m with
  | nil => exact hm
  | cons line lines ih => exact ih _ (hm.addLine line)

end Categories

/-! ### Countries -/

theorem CountryRanges.hits (ip : IpAddr) :
    Grouped.Hits [] (fun (ranges : List IpNet) (e : String × IpNet) => ranges ++ [e.2])
      (fun ranges => ranges.any fun range => range.contains ip) (fun e => e.2.contains ip) where
  empty := rfl
  push ranges e := by rw [List.any_append, List.any_cons, List.any_nil, Bool.or_false]

/-- Whatever the order in which the networks are added and the tables are walked, the lookup of the address has one result. -/
def GeoIpPlugin.Determined (toUppercase : String → String) (entries : List (String × IpNet)) (ip : IpAddr) : Prop :=
  ∀ entries', entries'.Perm entries → ∀ o o',
    Grouped.Walk Eq (CountryRanges.ofEntries toUppercase entries) o →
    Grouped.Walk Eq (CountryRanges.ofEntries toUppercase entries') o' →
    ∀ key, (GeoIpPlugin.ofOrder key o).lookup ip = (GeoIpPlugin.ofOrder key o').lookup ip

theorem GeoIpPlugin.determined_iff (toUppercase : String → String) (entries : List (String × IpNet)) (ip : IpAddr) :
    Determined toUppercase entries ip ↔
      ∀ e ∈ entries, ∀ e' ∈ entries, e.2.contains ip → e'.2.contains ip → toUppercase e.1 = toUppercase e'.1 := by
  have hlib := @Grouped.firstKey_determined_iff _ _ _ (fun e : String × IpNet => toUppercase e.1) _ _ _ _ Eq _
    (CountryRanges.hits ip) (fun _ _ h => by rw [h]) Eq.refl entries
  rw [← hlib]
  constructor
  · intro hdet entries' hperm o o' hwalk hwalk'
    exact hdet entries' hperm o o' hwalk hwalk' ""
  · intro hdet entries' hperm o o' hwalk hwalk' _
    exact hdet entries' hperm o o' hwalk hwalk'

/-! ### Categories -/

namespace DomainSet

variable {toLowercase : String → String}

theorem Reordered.matches_eq {s s' : DomainSet} (h : s.Reordered s') (domain : String) :
    s'.matches toLowercase domain = s.matches toLowercase domain := by
  rw [DomainSet.matches, DomainSet.matches, h.2.any_eq]
  congr 1
  rw [Bool.eq_iff_iff, List.contains_iff_mem, List.contains_iff_mem, h.1.mem_iff]

private theorem any_insert (p : String → Bool) (l : List String) (a : String) :
    (l.insert a).any p = (l.any p || p a) := by
  rw [Bool.eq_iff_iff]
  simp only [List.any_eq_true, List.mem_insert_iff, Bool.or_eq_true]
  constructor
  · rintro ⟨x, rfl | hx, hp⟩
    · exact .inr hp
    · exact .inl ⟨x, hx, hp⟩
  · rintro (⟨x, hx, hp⟩ | hp)
    · exact ⟨x, .inr hx, hp⟩
    · exact ⟨a, .inl rfl, hp⟩

theorem matches_addExact (s : DomainSet) (domain name : String) :
    (s.addExact toLowercase domain).matches toLowercase name =
      (s.matches toLowercase name || (new.addExact toLowercase domain).matches toLowercase name) := by
  simp only [DomainSet.matches, addExact, List.contains_eq_any_beq, any_insert]
  simp [new, Bool.or_right_comm]

theorem matches_addSuffix (s : DomainSet) (suffix name : String) :
    (s.addSuffix toLowercase suffix).matches toLowercase name =
      (s.matches toLowercase name || (new.addSuffix toLowercase suffix).matches toLowercase name) := by
  simp only [DomainSet.matches, addSuffix, any_insert]
  simp [new, Bool.or_assoc]

theorem matches_addDomain (s : DomainSet) (domain name : String) :
    (s.addDomain toLowercase domain).matches toLowercase name =
      (s.matches toLowercase name || (new.addDomain toLowercase domain).matches toLowercase name) := by
  simp only [addDomain]
  cases stripPrefix "*." domain with
  | some suffix => exact matches_addSuffix s suffix name
  | none =>
    cases stripPrefix "." domain with
    | some suffix => exact matches_addSuffix s suffix name
    | none => exact matches_addExact s domain name

end DomainSet

theorem Categories.hits (toLowercase : String → String) (name : String) :
    Grouped.Hits DomainSet.new (fun set (e : String × String) => set.addDomain toLowercase e.2)
      (fun set => set.matches toLowercase name)
      (fun e => (DomainSet.new.addDomain toLowercase e.2).matches toLowercase name) where
  empty := rfl
  push set e := set.matches_addDomain e.2 name

/-- Whatever the order in which the domains are added and the tables and sets are walked, the lookup of the name has one result. -/
def GeoSitePlugin.Determined (toLowercase : String → String) (entries : List (String × String)) (name : String) :
    Prop :=
  ∀ entries', entries'.Perm entries → ∀ o o',
    Grouped.Walk DomainSet.Reordered (Categories.ofEntries toLowercase entries) o →
    Grouped.Walk DomainSet.Reordered (Categories.ofEntries toLowercase entries') o' →
    ∀ key, (GeoSitePlugin.ofOrder toLowercase key o).lookup name = (GeoSitePlugin.ofOrder toLowercase key o').lookup name

theorem GeoSitePlugin.determined_iff (toLowercase : String → String) (entries : List (String × String))
    (name : String) :
    Determined toLowercase entries name ↔
      ∀ e ∈ entries, ∀ e' ∈ entries, (DomainSet.new.addDomain toLowercase e.2).matches toLowercase name →
        (DomainSet.new.addDomain toLowercase e'.2).matches toLowercase name → toLowercase e.1 = toLowercase e'.1 := by
  have hlib := @Grouped.firstKey_determined_iff _ _ _ (fun e : String × String => toLowercase e.1) _ _ _ _
    DomainSet.Reordered _ (Categories.hits toLowercase name) (fun _ _ h => h.matches_eq name)
    (fun _ => ⟨.refl _, .refl _⟩) entries
  rw [← hlib]
  constructor
  · intro hdet entries' hperm o o' hwalk hwalk'
    exact hdet entries' hperm o o' hwalk hwalk' ""
  · intro hdet entries' hperm o o' hwalk hwalk' _
    exact hdet entries' hperm o o' hwalk hwalk'

/-! ### Both lookups -/

/-- 10.1.2.3 is in the networks of two countries. -/
theorem not_determined_overlap :
    ¬GeoIpPlugin.Determined String.toUpper
      [("US", .v4 0x0a000000#32 8), ("CN", .v4 0x0a010000#32 16)] (.v4 0x0a010203#32) := by
  rw [GeoIpPlugin.determined_iff]
  decide +kernel

/-- A table has one result for the address or the name exactly if what contains or matches it was added under one key. -/
theorem determinedByData_iff (toUppercase toLowercase : String → String) (networks : List (String × IpNet))
    (ip : IpAddr) (domains : List (String × String)) (name : String) :
    GeoIpPlugin.Determined toUppercase networks ip ∧ GeoSitePlugin.Determined toLowercase domains name ↔
      (∀ e ∈ networks, ∀ e' ∈ networks, e.2.contains ip → e'.2.contains ip →
        toUppercase e.1 = toUppercase e'.1) ∧
      ∀ e ∈ domains, ∀ e' ∈ domains, (DomainSet.new.addDomain toLowercase e.2).matches toLowercase name →
        (DomainSet.new.addDomain toLowercase e'.2).matches toLowercase name → toLowercase e.1 = toLowercase e'.1 := by
  rw [GeoIpPlugin.determined_iff, GeoSitePlugin.determined_iff]

end Lazydns
