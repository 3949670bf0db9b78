import Lazydns.Config.Listen

/-!
# Addresses that are validated and launched

The launcher knows one of the short forms, the port behind one colon. All others that the validation accepts begin with two colons, and no server is started on them.
-/

namespace Lazydns

open IpText

theorem stripPrefix_eq_none_iff {p s : String} : stripPrefix p s = none ↔ ¬p.toList.isPrefixOf s.toList := by
  rw [stripPrefix]
  split <;> simp_all

theorem normalizedAddr_eq {addr : String} (h : ¬"::".toList.isPrefixOf addr.toList) :
    normalizedAddr addr = normalizeListenAddr addr := by
  have hlonger : ∀ p : String, "::".toList <+: p.toList → ¬p.toList.isPrefixOf addr.toList := fun p hp hprefix =>
    h (List.isPrefixOf_iff_prefix.mpr (hp.trans (List.isPrefixOf_iff_prefix.mp hprefix)))
  have hthree : stripPrefix ":::" addr = none := stripPrefix_eq_none_iff.mpr (hlonger ":::" (by decide))
  rw [normalizedAddr, hthree, stripPrefix_eq_none_iff.mpr h, normalizeListenAddr]
  exact if_congr (and_iff_left (hlonger "::[" (by decide))) rfl rfl

/-- Behind the wildcard address no port is read from two colons. -/
theorem parseSocketAddr_colons (rest : String) : parseSocketAddr ("0.0.0.0" ++ ("::" ++ rest)) = none := by
  have htext : ("0.0.0.0" ++ ("::" ++ rest)).toList =
      Nat.toDigits 10 0 ++ (separated [0, 0, 0] ++ ':' :: ':' :: rest.toList) := by
    rw [String.toList_append, String.toList_append]
    rfl
  have hcolon : NoDigit (':' :: ':' :: rest.toList) := by
    intro c hc
    cases hc
    decide
  have hip : readIpv4Addr (Nat.toDigits 10 0 ++ (separated [0, 0, 0] ++ ':' :: ':' :: rest.toList)) =
      some ([0, 0, 0, 0], ':' :: ':' :: rest.toList) := by
    have hzeros : ∀ octet ∈ [0, 0, 0], octet < 256 := by decide
    have hbehind : readOctets 1 3 (separated [0, 0, 0] ++ ':' :: ':' :: rest.toList) =
        some ([0, 0, 0], ':' :: ':' :: rest.toList) := readOctets_separated hzeros hcolon 0
    rw [readIpv4Addr, readOctets, readSeparator, if_neg (Nat.lt_irrefl 0),
      readOctet_append (by decide) (noDigit_separated _ hcolon)]
    dsimp only
    rw [hbehind, Option.map_some]
  have hport : readPort (':' :: ':' :: rest.toList) = none := by
    have hdigit : (toDigit 10 ':').isSome = false := by decide
    rw [readPort, readGivenChar, if_pos rfl, Option.bind_some, readBounded, IpText.readNumber]
    simp only [List.takeWhile_cons, hdigit, Bool.false_eq_true, if_false, true_or, if_true, Option.filter_none]
  rw [parseSocketAddr, htext, readSocketAddrV4, hip, Option.bind_some]
  dsimp only
  rw [hport]
  rfl

theorem parseSocketAddr_of_validated {addr context : String} {socketAddr : ParsedAddr}
    (h : validatedAddr addr context = .ok socketAddr) : parseSocketAddr (normalizedAddr addr) = some socketAddr := by
  unfold validatedAddr at h
  cases hparse : parseSocketAddr (normalizedAddr addr) with
  | none =>
    rw [hparse] at h
    dsimp only at h
    cases h
  | some parsed =>
    rw [hparse] at h
    dsimp only at h
    by_cases hport : parsed.addr.port < minPort
    · rw [if_pos hport] at h
      cases h
    · rw [if_neg hport] at h
      exact congrArg some (Except.ok.inj h)

/-- An address that is accepted is parsed by the launcher to the same exactly if it does not begin with two colons. -/
theorem launched_iff (context : String) {addr : String} {socketAddr : ParsedAddr}
    (h : validatedAddr addr context = .ok socketAddr) :
    parseSocketAddr (normalizeListenAddr addr) = some socketAddr ↔ ¬"::".toList.isPrefixOf addr.toList := by
  constructor
  · intro hparse hprefix
    obtain ⟨rest, hrest⟩ := List.isPrefixOf_iff_prefix.mp hprefix
    have haddr : addr = "::" ++ String.ofList rest := by
      rw [← String.toList_inj, String.toList_append, ← hrest]
      exact congrArg ("::".toList ++ ·) String.toList_ofList.symm
    have hcolon : addr.toList.head? = some ':' := by
      rw [← hrest]
      rfl
    rw [normalizeListenAddr, if_pos hcolon, haddr, parseSocketAddr_colons] at hparse
    cases hparse
  · intro hprefix
    rw [← normalizedAddr_eq hprefix, parseSocketAddr_of_validated h]

theorem launched_iff_port :
    validatedAddr ":8000" "admin" = .ok ⟨⟨.v4 0, 8000⟩, 0⟩ ∧
      parseSocketAddr (normalizeListenAddr ":8000") = some ⟨⟨.v4 0, 8000⟩, 0⟩ := by
  have hvalid : validatedAddr ":8000" "admin" = .ok ⟨⟨.v4 0, 8000⟩, 0⟩ := by decide
  exact ⟨hvalid, (launched_iff "admin" hvalid).mpr (by decide)⟩

/-- A short form that the validation accepts is for the launcher no address. -/
theorem not_launched_wildcard :
    validatedAddr "::8080" "admin" = .ok ⟨⟨.v6 0, 8080⟩, 0⟩ ∧ parseSocketAddr (normalizeListenAddr "::8080") = none ∧
      ¬∀ (addr context : String) (socketAddr : ParsedAddr), validatedAddr addr context = .ok socketAddr →
        parseSocketAddr (normalizeListenAddr addr) = some socketAddr := by
  have hvalid : validatedAddr "::8080" "admin" = .ok ⟨⟨.v6 0, 8080⟩, 0⟩ := by decide
  have hlaunch : parseSocketAddr (normalizeListenAddr "::8080") = none := by decide
  refine ⟨hvalid, hlaunch, fun h => ?_⟩
  have hsame := h _ _ _ hvalid
  rw [hlaunch] at hsame
  cases hsame

end Lazydns
