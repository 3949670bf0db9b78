import Lazydns.Plugin.Hosts
import Lazydns.Plugin.Names

/-!
# Loading a hosts file and adding its hosts

A hosts file lists pairs of a name and an address, line by line. Loading it should leave what adding the pairs one by one leaves. Both ways lower the names, but only adding cuts off trailing dots, and lookups cut them off as well: what is loaded under a name with a trailing dot is never found.
-/

namespace Lazydns

open Dns

namespace Hosts

variable (env : RuleEnv)

/-! ### The pairs of a file -/

/-- The pairs on a line: each name with each address. -/
def linePairs (line : String) : List (String × IpAddr) :=
  match parseLine env line with
  | none => []
  | some (ips, hostnames) => hostnames.flatMap fun hostname => ips.map fun ip => (hostname, ip)

/-- The pairs of a file in reading order. -/
def filePairs (content : String) : List (String × IpAddr) := (strLines content).flatMap (linePairs env)

/-- The hosts added one by one. -/
def addAll (pairs : List (String × IpAddr)) : Hosts := pairs.foldl (fun h p => h.addHost env p.1 p.2) new

/-- Loading does what adding does, and a failure leaves the hosts alone. -/
def LoadsLikeAdding (content : String) : Prop :=
  ∀ before : Hosts, match before.loadFromString env content with
    | (.ok (), after) => ∀ name, after.getIps env name = (addAll env (filePairs env content)).getIps env name
    | (.error _, after) => after = before

/-- A line that has names and no address. -/
def Malformed (line : String) : Prop := ∃ hostnames, parseLine env line = some ([], hostnames)

/-! ### Stores as lists of pairs -/

/-- The pairs stored under their keys. -/
def store (key : String → String) (h : Hosts) (pairs : List (String × IpAddr)) : Hosts :=
  pairs.foldl (fun h p => h.extend (key p.1) [p.2]) h

/-- The addresses of the pairs with a key. -/
def addresses (key : String → String) (k : String) (pairs : List (String × IpAddr)) : List IpAddr :=
  (pairs.filter fun p => key p.1 = k).map Prod.snd

theorem hosts_extend_self (key : String) (ips : List IpAddr) (h : Hosts) :
    (h.extend key ips).hosts key = some ((h.hosts key).getD [] ++ ips) := Function.update_self ..

theorem hosts_extend_of_ne {key k : String} (hne : k ≠ key) (ips : List IpAddr) (h : Hosts) :
    (h.extend key ips).hosts k = h.hosts k := Function.update_of_ne hne ..

theorem extend_extend (key : String) (ips ips' : List IpAddr) (h : Hosts) :
    (h.extend key ips).extend key ips' = h.extend key (ips ++ ips') := by
  rw [extend, hosts_extend_self, extend, Function.update_idem, Option.getD_some, List.append_assoc]
  rfl

theorem store_map (key : String → String) (hostname : String) {ips : List IpAddr} (hips : ips ≠ []) (h : Hosts) :
    store key h (ips.map fun ip => (hostname, ip)) = h.extend (key hostname) ips := by
  induction ips generalizing h with
  | nil => exact absurd rfl hips
  | cons ip ips ih =>
    rw [List.map_cons, store, List.foldl_cons, ← store]
    by_cases hrest : ips = []
    · rw [hrest]
      rfl
    · rw [ih hrest, extend_extend, List.singleton_append]

theorem store_append (key : String → String) (h : Hosts) (pairs pairs' : List (String × IpAddr)) :
    store key h (pairs ++ pairs') = store key (store key h pairs) pairs' := List.foldl_append ..

theorem store_flatMap (key : String → String) {ips : List IpAddr} (hips : ips ≠ []) (hostnames : List String)
    (h : Hosts) :
    store key h (hostnames.flatMap fun hostname => ips.map fun ip => (hostname, ip)) =
      hostnames.foldl (fun hosts hostname => hosts.extend (key hostname) ips) h := by
  induction hostnames generalizing h with
  | nil => rfl
  | cons hostname hostnames ih => rw [List.flatMap_cons, store_append, store_map key hostname hips, ih, List.foldl_cons]

theorem addresses_cons_self (key : String → String) (p : String × IpAddr) (pairs : List (String × IpAddr)) :
    addresses key (key p.1) (p :: pairs) = p.2 :: addresses key (key p.1) pairs := by
  simp only [addresses, List.filter_cons, decide_true, if_true, List.map_cons]

theorem addresses_cons_of_ne {key : String → String} {k : String} {p : String × IpAddr} (hne : key p.1 ≠ k)
    (pairs : List (String × IpAddr)) : addresses key k (p :: pairs) = addresses key k pairs := by
  rw [addresses, List.filter_cons_of_neg (by rwa [decide_eq_true_iff]), addresses]

theorem hosts_store (key : String → String) (k : String) (h : Hosts) (pairs : List (String × IpAddr)) :
    (store key h pairs).hosts k =
      if addresses key k pairs = [] then h.hosts k
      else some ((h.hosts k).getD [] ++ addresses key k pairs) := by
  induction pairs generalizing h with
  | nil => rfl
  | cons p pairs ih =>
    rw [store, List.foldl_cons, ← store, ih]
    by_cases hk : key p.1 = k
    · subst hk
      rw [hosts_extend_self, addresses_cons_self, if_neg (List.cons_ne_nil _ _), Option.getD_some, List.append_assoc,
        List.singleton_append]
      split
      · rename_i hnone
        rw [hnone]
      · rfl
    · rw [hosts_extend_of_ne (Ne.symm hk), addresses_cons_of_ne hk]

theorem hosts_store_new (key : String → String) (k : String) (pairs : List (String × IpAddr)) :
    (store key new pairs).hosts k =
      if addresses key k pairs = [] then none else some (addresses key k pairs) := hosts_store key k new pairs

theorem hosts_store_new_inj {key key' : String → String} {k : String} {pairs : List (String × IpAddr)} :
    (store key new pairs).hosts k = (store key' new pairs).hosts k ↔
      addresses key k pairs = addresses key' k pairs := by
  rw [hosts_store_new, hosts_store_new]
  constructor
  · intro heq
    split at heq
    · rename_i hnone
      split at heq
      · rename_i hnone'
        rw [hnone, hnone']
      · cases heq
    · split at heq
      · cases heq
      · exact Option.some.inj heq
  · intro heq
    rw [heq]

/-! ### Loading -/

/-- `add_host` stores under names without trailing dots. -/
theorem addAll_eq (pairs : List (String × IpAddr)) :
    addAll env pairs = store (fun s => env.toLowercase (trimEndDots s)) new pairs := rfl

theorem foldlM_loadLine {lines : List String} (h : ∀ line ∈ lines, ¬Malformed env line) (hosts : Hosts) :
    lines.foldlM (loadLine env) hosts = .ok (store env.toLowercase hosts (lines.flatMap (linePairs env))) := by
  induction lines generalizing hosts with
  | nil => rfl
  | cons line lines ih =>
    obtain ⟨hline, hlines⟩ := List.forall_mem_cons.mp h
    have hload : loadLine env hosts line = .ok (store env.toLowercase hosts (linePairs env line)) := by
      rw [loadLine, linePairs]
      cases hparse : parseLine env line with
      | none => rfl
      | some fields =>
        obtain ⟨ips, hostnames⟩ := fields
        have hips : ips ≠ [] := fun hnil => hline ⟨hostnames, hnil ▸ hparse⟩
        dsimp only
        rw [if_neg (by rwa [List.isEmpty_iff]), store_flatMap env.toLowercase hips]
    rw [List.foldlM_cons, hload, List.flatMap_cons, store_append]
    exact ih hlines _

theorem foldlM_loadLine_of_malformed {lines : List String} (h : ∃ line ∈ lines, Malformed env line) (hosts : Hosts) :
    ∃ e, lines.foldlM (loadLine env) hosts = .error e := by
  induction lines generalizing hosts with
  | nil => simp at h
  | cons line lines ih =>
    rw [List.foldlM_cons]
    cases hload : loadLine env hosts line with
    | error e => exact ⟨e, rfl⟩
    | ok hosts' =>
      obtain ⟨bad, hbad, hmalformed⟩ := h
      rcases List.mem_cons.mp hbad with rfl | hrest
      · obtain ⟨hostnames, hparse⟩ := hmalformed
        rw [loadLine, hparse] at hload
        cases hload
      · exact ih ⟨bad, hrest, hmalformed⟩ hosts'

/-- Lookups find the same under lowered names as under trimmed ones exactly if no name has a trailing dot. -/
theorem getIps_store_iff (hdots : KeepsDots env.toLowercase) (pairs : List (String × IpAddr)) :
    (∀ name, (store env.toLowercase new pairs).getIps env name = (addAll env pairs).getIps env name) ↔
      ∀ p ∈ pairs, ¬EndsWithDot p.1 := by
  simp only [addAll_eq, getIps, hosts_store_new_inj]
  constructor
  · intro hsame p hp hdot
    -- The pair counts among those added under its name, and not among those loaded.
    have hlength := congrArg List.length (hsame p.1)
    rw [addresses, addresses, List.length_map, List.length_map] at hlength
    have hkey : ¬EndsWithDot (env.toLowercase (trimEndDots p.1)) := by
      rw [hdots.endsWithDot_iff]
      exact not_endsWithDot_trimEndDots p.1
    have hsub : List.Sublist (pairs.filter fun q => env.toLowercase q.1 = env.toLowercase (trimEndDots p.1))
        (pairs.filter fun q => env.toLowercase (trimEndDots q.1) = env.toLowercase (trimEndDots p.1)) := by
      refine List.monotone_filter_right pairs fun q hq => ?_
      rw [decide_eq_true_iff] at hq ⊢
      rw [← hq, hdots.endsWithDot_iff] at hkey
      rw [trimEndDots_of_not hkey, hq]
    have hmem : p ∈ pairs.filter fun q => env.toLowercase (trimEndDots q.1) = env.toLowercase (trimEndDots p.1) :=
      List.mem_filter.mpr ⟨hp, decide_eq_true rfl⟩
    rw [← hsub.eq_of_length hlength] at hmem
    refine hkey ?_
    rw [← of_decide_eq_true (List.mem_filter.mp hmem).2, hdots.endsWithDot_iff]
    exact hdot
  · intro hnone name
    refine congrArg (List.map Prod.snd) (List.filter_congr fun p hp => ?_)
    simp only [trimEndDots_of_not (hnone p hp)]

/-- Loading does what adding does exactly for the files that are refused for a line without an address, and those in which no name ends with a dot. -/
theorem loadsLikeAdding_iff (hdots : KeepsDots env.toLowercase) (content : String) :
    LoadsLikeAdding env content ↔
      (∃ line ∈ strLines content, Malformed env line) ∨ ∀ p ∈ filePairs env content, ¬EndsWithDot p.1 := by
  by_cases hbad : ∃ line ∈ strLines content, Malformed env line
  · obtain ⟨e, he⟩ := foldlM_loadLine_of_malformed env hbad new
    refine iff_of_true (fun before => ?_) (.inl hbad)
    rw [loadFromString, he]
  · have hload := foldlM_loadLine env (fun line hline hmalformed => hbad ⟨line, hline, hmalformed⟩) new
    rw [or_iff_right hbad, ← getIps_store_iff env hdots, LoadsLikeAdding]
    simp only [loadFromString, hload]
    exact ⟨fun h => h new, fun h _ => h⟩

/-- The parsers as they are on plain names and the address 192.0.2.1. -/
def plainEnv : RuleEnv where
  toLowercase := asciiLowercase
  regex := fun _ => none
  parseIp := fun s => if s = "192.0.2.1" then some (.v4 0xC0000201) else none
  parseNet := fun _ => none

theorem loadsLikeAdding_iff_plain :
    LoadsLikeAdding plainEnv "192.0.2.1 a.example B.example\n" ∧
      filePairs plainEnv "192.0.2.1 a.example B.example\n" =
        [("a.example", .v4 0xC0000201), ("B.example", .v4 0xC0000201)] ∧
      (new.loadFromString plainEnv "192.0.2.1 a.example B.example\n").2.getIps plainEnv "b.example" =
        some [.v4 0xC0000201] := by
  have hpairs : filePairs plainEnv "192.0.2.1 a.example B.example\n" =
      [("a.example", .v4 0xC0000201), ("B.example", .v4 0xC0000201)] := by
    decide +kernel
  have hdots : ∀ p ∈ filePairs plainEnv "192.0.2.1 a.example B.example\n", ¬EndsWithDot p.1 := by
    rw [hpairs]
    decide
  have hiff := loadsLikeAdding_iff plainEnv lowersLetters_asciiLowercase.toKeepsDots "192.0.2.1 a.example B.example\n"
  exact ⟨hiff.mpr (.inr hdots), hpairs, by decide +kernel⟩

/-- A name with a trailing dot can be added, but a file with it is loaded in vain. -/
theorem not_loadsLikeAdding_dot : ¬LoadsLikeAdding plainEnv "192.0.2.1 a.example.\n" := by
  have hok : (new.loadFromString plainEnv "192.0.2.1 a.example.\n").1.isOk = true := by decide
  have hloaded : (new.loadFromString plainEnv "192.0.2.1 a.example.\n").2.getIps plainEnv "a.example" = none := by
    decide
  have hadded : (addAll plainEnv (filePairs plainEnv "192.0.2.1 a.example.\n")).getIps plainEnv "a.example" =
      some [.v4 0xC0000201] := by
    decide +kernel
  intro h
  have hsame := h new
  split at hsame
  · rename_i after heq
    have hname := hsame "a.example"
    rw [hadded] at hname
    rw [heq] at hloaded
    cases hloaded.symm.trans hname
  · rename_i heq
    rw [heq] at hok
    cases hok

end Hosts

end Lazydns
