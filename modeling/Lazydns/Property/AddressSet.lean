import Mathlib.Data.List.Forall2
import Lazydns.Lib.Fallible
import Lazydns.Plugin.AddressSet

/-!
# Which addresses get into the sets

A field has as many commas as the plugin wants parts, less one, so two fields make a list that cannot be cut into fields again: a sequence takes no shorthand of two. A mask is cast to a byte before it is clamped, which does no harm to a byte, nor to a number that the cast leaves on the right side. The networks of the answers have the leading bits of the addresses and nothing else; `ipset` adds what an earlier run has left in the metadata as well.
-/

namespace Lazydns

open Dns

/-! ### Commas -/

def commas (s : String) : Nat := s.toList.count ','

theorem length_splitCommas (s : String) : (splitCommas s).length = commas s + 1 := by
  rw [splitCommas, List.length_map, length_splitOn, commas]

theorem sum_count_splitOnP {p : Char → Bool} {c : Char} (hc : p c = false) (cs : List Char) :
    ((cs.splitOnP p).map (List.count c)).sum = cs.count c := by
  induction cs with
  | nil => rfl
  | cons c' cs ih =>
    rw [List.splitOnP_cons_eq_if_modifyHead]
    by_cases hp : p c'
    · have hne : c' ≠ c := by
        rintro rfl
        rw [hc] at hp
        cases hp
      rw [if_pos hp, List.map_cons, List.sum_cons, List.count_nil, Nat.zero_add, ih, List.count_cons_of_ne hne]
    · rw [if_neg hp]
      obtain ⟨first, rest, hsplit⟩ := List.exists_cons_of_ne_nil (List.splitOnP_ne_nil p cs)
      rw [hsplit] at ih ⊢
      rw [List.modifyHead_cons, List.map_cons, List.sum_cons, List.count_cons, List.count_cons, ← ih, List.map_cons,
        List.sum_cons]
      omega

theorem sum_commas (s : String) : ((splitWhitespace s).map commas).sum = commas s := by
  have hfilter : ∀ l : List (List Char),
      ((l.filter (· ≠ [])).map (List.count ',')).sum = (l.map (List.count ',')).sum := by
    intro l
    induction l with
    | nil => rfl
    | cons w l ih =>
      by_cases hw : w = []
      · subst hw
        simpa using ih
      · simpa [hw] using ih
  have hcount : commas ∘ String.ofList = List.count ',' := by
    funext w
    rw [Function.comp, commas, String.toList_ofList]
  rw [splitWhitespace, List.map_map, hcount, hfilter, sum_count_splitOnP (by decide), commas]

/-! ### Fields of a list -/

theorem joinCommas_splitCommas (s : String) : joinCommas (splitCommas s) = s := by
  have hparts : (splitCommas s).map String.toList = s.toList.splitOn ',' := by
    simp [splitCommas]
  rw [joinCommas, hparts, List.intercalate_splitOn, String.ofList_toList]

theorem toChunks_of_length {α : Type} {count : Nat} {l : List α} (hlength : l.length = count + 1) :
    l.toChunks (count + 1) = [l] := by
  have hgo : ∀ (l : List α) (chunk : Array α), chunk.size + l.length ≤ count + 1 →
      List.toChunks.go (count + 1) l chunk #[] = [chunk.toList ++ l] := by
    intro l
    induction l with
    | nil =>
      intro chunk _
      simp [List.toChunks.go]
    | cons a l ih =>
      intro chunk hchunk
      rw [List.length_cons] at hchunk
      have hroom : ¬(chunk.size == count + 1) = true := by
        rw [beq_iff_eq]
        omega
      rw [List.toChunks.go, if_neg hroom, ih (chunk.push a) (by rw [Array.size_push]; omega)]
      simp
  cases l with
  | nil => cases hlength
  | cons a l =>
    rw [List.toChunks, hgo l #[a] (by rw [List.length_cons] at hlength; simp; omega)]
    · rfl
    · exact Nat.succ_ne_zero count

section

variable {α : Type} {name : String} {count : Nat} {quickSetup : String → Except SetupError α} {s : String} {args : α}

theorem setupExec_of_length (hlength : (splitCommas s).length = count + 1) :
    setupExec name (count + 1) quickSetup name s = quickSetup s := by
  rw [setupExec, if_neg (not_not_intro rfl)]
  dsimp only
  rw [hlength, Nat.mod_self, if_neg (not_not_intro rfl), toChunks_of_length hlength, List.map_singleton,
    joinCommas_splitCommas, String.intercalate_singleton]

/-- What is set up from fields with the right number of parts is set up in a sequence exactly if there is one. -/
theorem setupExec_iff (hcount : 0 < count) (hparts : ∀ field ∈ splitWhitespace s, (splitCommas field).length = count + 1)
    (hlength : (splitWhitespace s).length ≤ 2) (hne : splitWhitespace s ≠ []) (hok : quickSetup s = .ok args) :
    setupExec name (count + 1) quickSetup name s = .ok args ↔ (splitWhitespace s).length = 1 := by
  have hcommas : commas s = (splitWhitespace s).length * count := by
    have hfields : ∀ n ∈ (splitWhitespace s).map commas, n = count := by
      intro n hn
      obtain ⟨field, hfield, rfl⟩ := List.mem_map.mp hn
      have hfield := hparts field hfield
      rw [length_splitCommas] at hfield
      omega
    rw [← sum_commas, List.eq_replicate_of_mem hfields]
    simp
  have hpos := List.length_pos_iff.mpr hne
  constructor
  · intro hexec
    by_contra hone
    have htwo : (splitWhitespace s).length = 2 := by omega
    have hrest : (splitCommas s).length % (count + 1) ≠ 0 := by
      rw [length_splitCommas, hcommas, htwo, (by omega : 2 * count + 1 = count + 1 * (count + 1)), Nat.add_mul_mod_self_right,
        Nat.mod_eq_of_lt (Nat.lt_succ_self count)]
      omega
    rw [setupExec, if_neg (not_not_intro rfl)] at hexec
    dsimp only at hexec
    rw [if_pos hrest] at hexec
    cases hexec
  · intro hone
    rw [setupExec_of_length, hok]
    rw [length_splitCommas, hcommas, hone, Nat.one_mul]

end

/-! ### Masks -/

/-- A mask that is used in place of a number: it is clamped to the bits of the family. -/
def Clamped (width : Nat) (m : Int) (mask : Nat) : Prop := min mask width = (max 0 (min m width)).toNat

/-- A number that can be cast to a byte before it is clamped: a byte, or one from 256 on that is cast to no less than there are bits, or a negative one that is cast to zero. -/
def Harmless (width : Nat) (m : Int) : Prop :=
  0 ≤ m ∧ m < 256 ∨ 256 ≤ m ∧ width ≤ m % 256 ∨ m < 0 ∧ m % 256 = 0

theorem clamped_cast_iff {width : Nat} (hpos : 0 < width) (hwidth : width < 256) (m : Int) :
    Clamped width m (castUnsigned 8 m) ↔ Harmless width m := by
  rw [Clamped, Harmless, castUnsigned]
  omega

/-- The mask of a field, if it is for this family. -/
def fieldMask (count : Nat) (family field : String) : Option Int :=
  let ss := splitCommas field
  if ss.getD (count - 2) "" = family then (parseI32 (ss.getD (count - 1) "")).toOption else none

/-- The mask that a shorthand has for a family: that of the last field for it. -/
def maskOf (count : Nat) (family s : String) : Option Int :=
  (splitWhitespace s).reverse.findSome? (fieldMask count family)

theorem readField_eq_ok {count : Nat} {wrongCount : Nat → SetupError} {invalidMask : String → String → SetupError}
    {field : String} {ss : List String} {m : Int} (h : readField count wrongCount invalidMask field = .ok (ss, m)) :
    splitCommas field = ss ∧ ss.length = count ∧ parseI32 (ss.getD (count - 1) "") = .ok m := by
  rw [readField] at h
  by_cases hcount : (splitCommas field).length ≠ count
  · rw [if_pos hcount] at h
    cases h
  · rw [if_neg hcount] at h
    cases hm : parseI32 ((splitCommas field).getD (count - 1) "") with
    | error e =>
      rw [hm] at h
      cases h
    | ok m =>
      rw [hm] at h
      cases h
      exact ⟨rfl, not_not.mp hcount, hm⟩

section

variable {α : Type} {addField : α → String → Except SetupError α} {default args : α} {s : String}

theorem setupFields_eq_ok {tooMany : Nat → SetupError} (h : setupFields tooMany addField default s = .ok args) :
    (splitWhitespace s).length ≤ 2 ∧ (splitWhitespace s).foldlM addField default = .ok args := by
  rw [setupFields] at h
  by_cases hmany : 2 < (splitWhitespace s).length
  · rw [if_pos hmany] at h
    cases h
  · rw [if_neg hmany] at h
    exact ⟨not_lt.mp hmany, h⟩

theorem forall_of_foldlM (P : String → Prop) (hP : ∀ a field b, addField a field = .ok b → P field)
    {fields : List String} {b : α} (h : fields.foldlM addField default = .ok b) : ∀ field ∈ fields, P field := by
  refine Fallible.foldlM_ok (fun done _ => ∀ field ∈ done, P field) ?_ [] (fun _ hfield => nomatch hfield) h
  intro done last mid b hdone hlast field hfield
  rcases List.mem_append.mp hfield with hold | hnew
  · exact hdone field hold
  · rw [List.mem_singleton.mp hnew]
    exact hP mid last b hlast

theorem mask_of_foldlM (get : α → Option Nat) (mask : String → Option Int)
    (hget : ∀ a field b, addField a field = .ok b → get b = ((mask field).map (castUnsigned 8)).or (get a))
    {fields : List String} {b : α} (h : fields.foldlM addField default = .ok b) :
    ∀ m, fields.reverse.findSome? mask = some m → get b = some (castUnsigned 8 m) := by
  refine Fallible.foldlM_ok
    (fun done b => ∀ m, done.reverse.findSome? mask = some m → get b = some (castUnsigned 8 m)) ?_ [] nofun h
  intro done last mid b hdone hlast m hm
  rw [List.reverse_append, List.reverse_singleton, List.singleton_append, List.findSome?_cons] at hm
  rw [hget mid last b hlast]
  cases hfield : mask last with
  | none =>
    rw [hfield] at hm
    rw [Option.map_none, Option.none_or]
    exact hdone m hm
  | some m' =>
    rw [hfield] at hm
    cases hm
    rfl

end

/-! ### Networks -/

/-- The address of a network has the leading bits of the address that the mask counts, as far as there are so many, and no others. -/
def IsNetwork (mask : Nat) : IpAddr → IpNet → Prop
  | .v4 addr, .v4 net len => len = min mask 32 ∧ ∀ i, net.getMsbD i = (decide (i < len) && addr.getMsbD i)
  | .v6 addr, .v6 net len => len = min mask 128 ∧ ∀ i, net.getMsbD i = (decide (i < len) && addr.getMsbD i)
  | _, _ => False

theorem getMsbD_leading {w : Nat} (a : BitVec w) {len : Nat} (hlen : len ≤ w) (i : Nat) :
    (a >>> (w - len) <<< (w - len)).getMsbD i = (decide (i < len) && a.getMsbD i) := by
  rw [BitVec.getMsbD_shiftLeft, BitVec.getMsbD_ushiftRight]
  by_cases hi : i < len
  · rw [decide_eq_true hi, decide_eq_true (by omega : i + (w - len) < w), decide_eq_false (by omega)]
    simp
  · rw [decide_eq_false hi, Bool.false_and]
    by_cases hw : i + (w - len) < w
    · omega
    · rw [decide_eq_false hw]
      simp

theorem isNetwork_networkOf (mask : Nat) (ip : IpAddr) : IsNetwork mask ip (networkOf mask ip) := by
  cases ip with
  | v4 addr => exact ⟨rfl, getMsbD_leading addr (min_le_right _ _)⟩
  | v6 addr => exact ⟨rfl, getMsbD_leading addr (min_le_right _ _)⟩

theorem and_allOnes_shiftLeft {w : Nat} (a : BitVec w) (k : Nat) : a &&& (BitVec.allOnes w <<< k) = a >>> k <<< k := by
  ext i hi
  by_cases hk : i < k
  · simp [hk]
  · have hle : k ≤ i := not_lt.mp hk
    simp [hk, hle, hi]

/-- What `make_v4_prefix` computes with shifts is the network of the address. -/
theorem networkOf_v4 (mask : Nat) (addr : BitVec 32) :
    networkOf mask (.v4 addr) = .v4 (makeV4Prefix addr mask).1 (makeV4Prefix addr mask).2 := by
  rw [networkOf, makeV4Prefix]
  by_cases hzero : min mask 32 = 0
  · rw [if_pos hzero, hzero]
    simp
  · rw [if_neg hzero, and_allOnes_shiftLeft]

/-- The number that some octets are. -/
def octetsValue (bytes : List (BitVec 8)) : Nat := Radix.value 256 0 (bytes.map BitVec.toNat)

theorem octetsValue_cons (b : BitVec 8) (bytes : List (BitVec 8)) :
    octetsValue (b :: bytes) = b.toNat * 2 ^ (8 * bytes.length) + octetsValue bytes := by
  have hvalue : Radix.value 256 0 (b.toNat :: bytes.map BitVec.toNat) =
      Radix.value 256 b.toNat (bytes.map BitVec.toNat) := by
    rw [Radix.value, List.foldl_cons, Nat.mul_zero, Nat.zero_add]
    rfl
  rw [octetsValue, List.map_cons, hvalue, Radix.value_eq_add, List.length_map, pow_mul]
  rfl

theorem octetsValue_lt (bytes : List (BitVec 8)) : octetsValue bytes < 2 ^ (8 * bytes.length) := by
  induction bytes with
  | nil => exact Nat.zero_lt_one
  | cons b bytes ih =>
    have hb : b.toNat + 1 ≤ 2 ^ 8 := b.isLt
    rw [octetsValue_cons, List.length_cons, Nat.mul_succ, Nat.pow_add]
    calc b.toNat * 2 ^ (8 * bytes.length) + octetsValue bytes
      _ < b.toNat * 2 ^ (8 * bytes.length) + 2 ^ (8 * bytes.length) := Nat.add_lt_add_left ih _
      _ = (b.toNat + 1) * 2 ^ (8 * bytes.length) := by ring
      _ ≤ 2 ^ 8 * 2 ^ (8 * bytes.length) := Nat.mul_le_mul_right _ hb
      _ = 2 ^ (8 * bytes.length) * 2 ^ 8 := Nat.mul_comm _ _

theorem length_keepBits (bytes : List (BitVec 8)) : ∀ bits, (keepBits bits bytes).length = bytes.length := by
  induction bytes with
  | nil => exact fun _ => rfl
  | cons b bytes ih =>
    intro bits
    rw [keepBits]
    split
    · rw [List.length_cons, ih, List.length_cons]
    · split
      · rw [List.length_cons, ih, List.length_cons]
      · rw [List.length_cons, ih, List.length_cons]

theorem toNat_and_allOnes {w : Nat} (b : BitVec w) (k : Nat) :
    (b &&& (BitVec.allOnes w <<< k)).toNat = b.toNat / 2 ^ k * 2 ^ k := by
  have hlt : b.toNat / 2 ^ k * 2 ^ k < 2 ^ w := lt_of_le_of_lt (Nat.div_mul_le_self _ _) b.isLt
  rw [and_allOnes_shiftLeft, BitVec.toNat_shiftLeft, BitVec.toNat_ushiftRight, Nat.shiftRight_eq_div_pow,
    Nat.shiftLeft_eq, Nat.mod_eq_of_lt hlt]

theorem octetsValue_keepBits (bytes : List (BitVec 8)) : ∀ {bits : Nat}, bits ≤ 8 * bytes.length →
    octetsValue (keepBits bits bytes) =
      octetsValue bytes / 2 ^ (8 * bytes.length - bits) * 2 ^ (8 * bytes.length - bits) := by
  induction bytes with
  | nil =>
    intro bits hbits
    rw [Nat.le_zero.mp hbits]
    rfl
  | cons b bytes ih =>
    intro bits hbits
    rw [List.length_cons, Nat.mul_succ] at hbits ⊢
    have hlt := octetsValue_lt bytes
    have hzero : octetsValue (keepBits 0 bytes) = 0 := by
      rw [ih (Nat.zero_le _), Nat.sub_zero, Nat.div_eq_of_lt hlt, Nat.zero_mul]
    rw [keepBits]
    by_cases hwhole : 8 ≤ bits
    · have hk : 8 * bytes.length + 8 - bits = 8 * bytes.length - (bits - 8) := by omega
      have hsplit : 2 ^ (8 * bytes.length) = 2 ^ (bits - 8) * 2 ^ (8 * bytes.length - (bits - 8)) := by
        rw [← Nat.pow_add, Nat.add_sub_cancel' (by omega)]
      rw [if_pos hwhole, octetsValue_cons, octetsValue_cons, length_keepBits, ih (by omega), hk, hsplit,
        ← Nat.mul_assoc, Nat.add_comm _ (octetsValue bytes), Nat.add_mul_div_right _ _ (Nat.two_pow_pos _)]
      rw [Nat.add_mul, Nat.add_comm]
    · rw [if_neg hwhole]
      by_cases hnone : bits = 0
      · have hlt := octetsValue_lt (b :: bytes)
        rw [List.length_cons, Nat.mul_succ] at hlt
        rw [if_pos hnone, octetsValue_cons, hzero, hnone, Nat.sub_zero, Nat.div_eq_of_lt hlt]
        simp
      · have hk : 8 * bytes.length + 8 - bits = 8 * bytes.length + (8 - bits) := by omega
        rw [if_neg hnone, octetsValue_cons, length_keepBits, hzero, toNat_and_allOnes, octetsValue_cons, hk,
          Nat.pow_add, ← Nat.div_div_eq_div_mul, Nat.add_comm _ (octetsValue bytes),
          Nat.add_mul_div_right _ _ (Nat.two_pow_pos _), Nat.div_eq_of_lt hlt]
        rw [Nat.zero_add, Nat.add_zero, Nat.mul_assoc, Nat.mul_comm (2 ^ (8 - bits))]

/-- What `make_v6_prefix` computes octet by octet is the network of the address. -/
theorem networkOf_v6 (mask : Nat) (addr : BitVec 128) :
    networkOf mask (.v6 addr) = .v6 (makeV6Prefix addr mask).1 (makeV6Prefix addr mask).2 := by
  have hlength : (octets6 addr).length = 16 := by
    rw [octets6, List.length_map, List.length_reverse, Radix.length_digits]
  have hvalue : octetsValue (octets6 addr) = addr.toNat := by
    have hbytes : (octets6 addr).map BitVec.toNat = (Radix.digits 256 16 addr.toNat).reverse := by
      rw [octets6, List.map_map]
      refine (List.map_congr_left fun d hd => ?_).trans (List.map_id _)
      have hd := Radix.lt_of_mem_digits (by decide) (List.mem_reverse.mp hd)
      exact Nat.mod_eq_of_lt hd
    have hlt : addr.toNat < 256 ^ 16 := addr.isLt
    rw [octetsValue, hbytes, Radix.value_reverse_digits hlt]
  have hkeep := @octetsValue_keepBits (octets6 addr) (min mask 128) (by rw [hlength]; omega)
  rw [hlength, hvalue] at hkeep
  rw [networkOf, makeV6Prefix]
  dsimp only
  rw [IpNet.v6.injEq]
  refine ⟨BitVec.eq_of_toNat_eq ?_, rfl⟩
  have hlt : addr.toNat / 2 ^ (128 - min mask 128) * 2 ^ (128 - min mask 128) < 2 ^ 128 :=
    lt_of_le_of_lt (Nat.div_mul_le_self _ _) addr.isLt
  rw [BitVec.toNat_shiftLeft, BitVec.toNat_ushiftRight, Nat.shiftRight_eq_div_pow, Nat.shiftLeft_eq,
    Nat.mod_eq_of_lt hlt]
  change _ = octetsValue (keepBits (min mask 128) (octets6 addr)) % 2 ^ 128
  rw [hkeep, Nat.mod_eq_of_lt hlt]

/-! ### Answers -/

def configured (target : IpAddr → Option SetTarget) (answers : List ResourceRecord) : List (IpAddr × SetTarget) :=
  answers.filterMap fun rr => do
    let ip ← answerIp rr
    return (ip, ← target ip)

/-- Each of the addresses is added to its set once, in order, as its network. -/
def Exports (target : IpAddr → Option SetTarget) (answers : List ResourceRecord) (added : List (String × IpNet)) :
    Prop :=
  List.Forall₂ (fun a entry => entry.1 = a.2.set ∧ IsNetwork a.2.mask a.1 entry.2) (configured target answers) added

theorem exports_setAdditions (target : IpAddr → Option SetTarget) (response : Message) :
    Exports target response.answers (setAdditions target response) := by
  have hmap : setAdditions target response =
      (configured target response.answers).map fun a => (a.2.set, networkOf a.2.mask a.1) := by
    rw [configured, List.map_filterMap, setAdditions]
    refine List.filterMap_congr fun rr _ => ?_
    cases hip : answerIp rr with
    | none => rfl
    | some ip =>
      cases ht : target ip with
      | none => simp [ht]
      | some t => simp [ht]
  rw [Exports, hmap, List.forall₂_map_right_iff]
  exact List.forall₂_same.mpr fun a _ => ⟨rfl, isNetwork_networkOf a.2.mask a.1⟩

theorem IpSetPlugin.exports_added_iff (p : IpSetPlugin) (ctx : Context) (response : Message) :
    Exports (familyTarget p.v4 p.v6) response.answers (p.added ctx response) ↔
      (ctx.getPrefixes "ipset_added").getD [] = [] := by
  have hexact := exports_setAdditions (familyTarget p.v4 p.v6) response
  rw [added]
  constructor
  · intro h
    have hlength := h.length_eq
    rw [hexact.length_eq, List.length_append] at hlength
    exact List.length_eq_zero_iff.mp (by omega)
  · intro hnil
    rw [hnil]
    exact hexact

theorem IpSetPlugin.execute_added {p : IpSetPlugin} {ctx : Context} {response : Message}
    (hresponse : ctx.response = some response) :
    ((p.execute ctx).getPrefixes "ipset_added").getD [] = p.added ctx response := by
  rw [execute, hresponse, added]
  dsimp only
  by_cases hempty : ((ctx.getPrefixes "ipset_added").getD [] ++ setAdditions (familyTarget p.v4 p.v6) response).isEmpty
  · rw [if_pos hempty]
    rw [List.isEmpty_iff, List.append_eq_nil_iff] at hempty
    rw [hempty.1, hempty.2, List.append_nil]
  · rw [if_neg hempty]
    simp [Context.getPrefixes, Context.setMetadata]

theorem NftSetPlugin.execute_added {p : NftSetPlugin} {ctx : Context} {response : Message}
    (hresponse : ctx.response = some response) :
    p.execute ctx = setUnlessEmpty "nftset_added_v6" (p.added6 response)
      (setUnlessEmpty "nftset_added_v4" (p.added4 response) ctx) := by
  rw [execute, hresponse]
  rfl

/-! ### Shorthands -/

/-- What a plugin takes for a shorthand, and the masks it makes of it. -/
structure Shorthand (α : Type) where
  count : Nat
  family4 : String
  family6 : String
  quickSetup : String → Except SetupError α
  execQuickSetup : String → Except SetupError α
  mask4 : α → Option Nat
  mask6 : α → Option Nat

def ipset : Shorthand IpSetArgs where
  count := 3
  family4 := "inet"
  family6 := "inet6"
  quickSetup := IpSetArgs.quickSetup
  execQuickSetup := IpSetArgs.execQuickSetup "ipset"
  mask4 := IpSetArgs.mask4
  mask6 := IpSetArgs.mask6

def nftset : Shorthand NftSetArgs where
  count := 5
  family4 := "ipv4_addr"
  family6 := "ipv6_addr"
  quickSetup := NftSetArgs.quickSetup
  execQuickSetup := NftSetArgs.execQuickSetup "nftset"
  mask4 args := args.ipv4.bind SetArgs.mask
  mask6 args := args.ipv6.bind SetArgs.mask

namespace Shorthand

variable {α : Type}

/-- The shorthand gives the same arguments in a sequence, and the mask of every family in it is clamped. -/
structure SetUp (sh : Shorthand α) (s : String) (args : α) : Prop where
  sequence : sh.execQuickSetup s = .ok args
  mask4 : ∀ m, maskOf sh.count sh.family4 s = some m → ∃ mask, sh.mask4 args = some mask ∧ Clamped 32 m mask
  mask6 : ∀ m, maskOf sh.count sh.family6 s = some m → ∃ mask, sh.mask6 args = some mask ∧ Clamped 128 m mask

/-- The shorthand is one field, and its mask can be cast to a byte. -/
structure Single (sh : Shorthand α) (s : String) : Prop where
  field : (splitWhitespace s).length = 1
  mask4 : ∀ m, maskOf sh.count sh.family4 s = some m → Harmless 32 m
  mask6 : ∀ m, maskOf sh.count sh.family6 s = some m → Harmless 128 m

/-- What is taken is at most two fields with the right number of parts, in a sequence after the list is cut into fields, and the masks are the bytes of the last ones. -/
structure Reads (sh : Shorthand α) : Prop where
  exec : ∃ name count, sh.count = count + 1 ∧ 0 < count ∧
    sh.execQuickSetup = setupExec name (count + 1) sh.quickSetup name
  fields : ∀ s args, sh.quickSetup s = .ok args →
    (splitWhitespace s).length ≤ 2 ∧ ∀ field ∈ splitWhitespace s, (splitCommas field).length = sh.count
  mask4 : ∀ s args m, sh.quickSetup s = .ok args → maskOf sh.count sh.family4 s = some m →
    sh.mask4 args = some (castUnsigned 8 m)
  mask6 : ∀ s args m, sh.quickSetup s = .ok args → maskOf sh.count sh.family6 s = some m →
    sh.mask6 args = some (castUnsigned 8 m)

theorem Reads.setUp_iff {sh : Shorthand α} (h : sh.Reads) {s : String} {args : α} (hok : sh.quickSetup s = .ok args)
    (hne : splitWhitespace s ≠ []) : sh.SetUp s args ↔ sh.Single s := by
  obtain ⟨name, count, hcount, hpos, hexec⟩ := h.exec
  obtain ⟨htwo, hparts⟩ := h.fields s args hok
  rw [hcount] at hparts
  have hsequence : sh.execQuickSetup s = .ok args ↔ (splitWhitespace s).length = 1 := by
    rw [hexec]
    exact setupExec_iff hpos hparts htwo hne hok
  constructor
  · intro hsetup
    refine ⟨hsequence.mp hsetup.sequence, fun m hm => ?_, fun m hm => ?_⟩
    · obtain ⟨mask, hmask, hclamped⟩ := hsetup.mask4 m hm
      obtain rfl := Option.some.inj ((h.mask4 s args m hok hm).symm.trans hmask)
      exact (clamped_cast_iff (by decide) (by decide) m).mp hclamped
    · obtain ⟨mask, hmask, hclamped⟩ := hsetup.mask6 m hm
      obtain rfl := Option.some.inj ((h.mask6 s args m hok hm).symm.trans hmask)
      exact (clamped_cast_iff (by decide) (by decide) m).mp hclamped
  · intro hsingle
    refine ⟨hsequence.mpr hsingle.field, fun m hm => ?_, fun m hm => ?_⟩
    · exact ⟨_, h.mask4 s args m hok hm, (clamped_cast_iff (by decide) (by decide) m).mpr (hsingle.mask4 m hm)⟩
    · exact ⟨_, h.mask6 s args m hok hm, (clamped_cast_iff (by decide) (by decide) m).mpr (hsingle.mask6 m hm)⟩

end Shorthand

/-! ### Both plugins -/

theorem fieldMask_of_readField {count : Nat} {wrongCount : Nat → SetupError}
    {invalidMask : String → String → SetupError} {field : String} {ss : List String} {m : Int}
    (h : readField count wrongCount invalidMask field = .ok (ss, m)) (family : String) :
    fieldMask count family field = if ss.getD (count - 2) "" = family then some m else none := by
  obtain ⟨rfl, -, hm⟩ := readField_eq_ok h
  rw [fieldMask, hm]
  rfl

theorem fieldMask_cases {α : Type} {count : Nat} {wrongCount : Nat → SetupError}
    {invalidMask : String → String → SetupError} {field family4 family6 : String} {ss : List String} {m : Int}
    {b b4 b6 : α} {e : SetupError} (hread : readField count wrongCount invalidMask field = .ok (ss, m))
    (hne : family4 ≠ family6) (h : (if ss.getD (count - 2) "" = family4 then .ok b4
      else if ss.getD (count - 2) "" = family6 then .ok b6 else .error e : Except SetupError α) = .ok b) :
    b = b4 ∧ fieldMask count family4 field = some m ∧ fieldMask count family6 field = none ∨
      b = b6 ∧ fieldMask count family4 field = none ∧ fieldMask count family6 field = some m := by
  rw [fieldMask_of_readField hread, fieldMask_of_readField hread]
  by_cases h4 : ss.getD (count - 2) "" = family4
  · rw [if_pos h4] at h ⊢
    rw [if_neg (h4 ▸ hne)]
    exact .inl ⟨(Except.ok.inj h).symm, rfl, rfl⟩
  · rw [if_neg h4] at h ⊢
    by_cases h6 : ss.getD (count - 2) "" = family6
    · rw [if_pos h6] at h ⊢
      exact .inr ⟨(Except.ok.inj h).symm, rfl, rfl⟩
    · rw [if_neg h6] at h
      cases h

theorem IpSetArgs.addField_eq_ok {a b : IpSetArgs} {field : String} (h : a.addField field = .ok b) :
    (splitCommas field).length = 3 ∧
      b.mask4 = ((fieldMask 3 "inet" field).map (castUnsigned 8)).or a.mask4 ∧
      b.mask6 = ((fieldMask 3 "inet6" field).map (castUnsigned 8)).or a.mask6 := by
  obtain ⟨⟨ss, m⟩, hread, h⟩ := Fallible.bind_eq_ok.mp h
  obtain ⟨hss, hlength, -⟩ := readField_eq_ok hread
  refine ⟨hss ▸ hlength, ?_⟩
  rcases fieldMask_cases hread (by decide) h with ⟨rfl, h4, h6⟩ | ⟨rfl, h4, h6⟩
  · rw [h4, h6]
    exact ⟨rfl, rfl⟩
  · rw [h4, h6]
    exact ⟨rfl, rfl⟩

theorem NftSetArgs.addField_eq_ok {a b : NftSetArgs} {field : String} (h : a.addField field = .ok b) :
    (splitCommas field).length = 5 ∧
      b.ipv4.bind SetArgs.mask =
        ((fieldMask 5 "ipv4_addr" field).map (castUnsigned 8)).or (a.ipv4.bind SetArgs.mask) ∧
      b.ipv6.bind SetArgs.mask =
        ((fieldMask 5 "ipv6_addr" field).map (castUnsigned 8)).or (a.ipv6.bind SetArgs.mask) := by
  obtain ⟨⟨ss, m⟩, hread, h⟩ := Fallible.bind_eq_ok.mp h
  obtain ⟨hss, hlength, -⟩ := readField_eq_ok hread
  refine ⟨hss ▸ hlength, ?_⟩
  rcases fieldMask_cases hread (by decide) h with ⟨rfl, h4, h6⟩ | ⟨rfl, h4, h6⟩
  · rw [h4, h6]
    exact ⟨rfl, rfl⟩
  · rw [h4, h6]
    exact ⟨rfl, rfl⟩

theorem IpSetArgs.quickSetup_eq_ok {s : String} {args : IpSetArgs} (h : quickSetup s = .ok args) :
    (splitWhitespace s).length ≤ 2 ∧ (splitWhitespace s).foldlM addField default = .ok args :=
  setupFields_eq_ok h

theorem NftSetArgs.quickSetup_eq_ok {s : String} {args : NftSetArgs} (h : quickSetup s = .ok args) :
    (splitWhitespace s).length ≤ 2 ∧ (splitWhitespace s).foldlM addField ⟨none, none⟩ = .ok args :=
  setupFields_eq_ok h

theorem ipset_reads : ipset.Reads where
  exec := by
    refine ⟨"ipset", 2, rfl, by decide, ?_⟩
    change IpSetArgs.execQuickSetup "ipset" = setupExec "ipset" 3 IpSetArgs.quickSetup "ipset"
    rw [IpSetArgs.execQuickSetup]
  fields := by
    intro s args hok
    obtain ⟨htwo, hfold⟩ := IpSetArgs.quickSetup_eq_ok hok
    exact ⟨htwo, forall_of_foldlM (fun field => (splitCommas field).length = 3)
      (fun _ _ _ h => (IpSetArgs.addField_eq_ok h).1) hfold⟩
  mask4 := by
    intro s args m hok hm
    exact mask_of_foldlM IpSetArgs.mask4 (fieldMask 3 "inet") (fun _ _ _ h => (IpSetArgs.addField_eq_ok h).2.1)
      (IpSetArgs.quickSetup_eq_ok hok).2 m hm
  mask6 := by
    intro s args m hok hm
    exact mask_of_foldlM IpSetArgs.mask6 (fieldMask 3 "inet6") (fun _ _ _ h => (IpSetArgs.addField_eq_ok h).2.2)
      (IpSetArgs.quickSetup_eq_ok hok).2 m hm

theorem nftset_reads : nftset.Reads where
  exec := by
    refine ⟨"nftset", 4, rfl, by decide, ?_⟩
    change NftSetArgs.execQuickSetup "nftset" = setupExec "nftset" 5 NftSetArgs.quickSetup "nftset"
    rw [NftSetArgs.execQuickSetup]
  fields := by
    intro s args hok
    obtain ⟨htwo, hfold⟩ := NftSetArgs.quickSetup_eq_ok hok
    exact ⟨htwo, forall_of_foldlM (fun field => (splitCommas field).length = 5)
      (fun _ _ _ h => (NftSetArgs.addField_eq_ok h).1) hfold⟩
  mask4 := by
    intro s args m hok hm
    exact mask_of_foldlM (fun args : NftSetArgs => args.ipv4.bind SetArgs.mask) (fieldMask 5 "ipv4_addr")
      (fun _ _ _ h => (NftSetArgs.addField_eq_ok h).2.1) (NftSetArgs.quickSetup_eq_ok hok).2 m hm
  mask6 := by
    intro s args m hok hm
    exact mask_of_foldlM (fun args : NftSetArgs => args.ipv6.bind SetArgs.mask) (fieldMask 5 "ipv6_addr")
      (fun _ _ _ h => (NftSetArgs.addField_eq_ok h).2.2) (NftSetArgs.quickSetup_eq_ok hok).2 m hm

/-- Of an IPv4 shorthand and an IPv6 one only a list of both is not taken in a sequence; a mask of 256 is none; and a second run adds again what the first has added. -/
theorem not_exported_twoFields :
    (∃ args, IpSetArgs.quickSetup "my_set,inet,24 my_set6,inet6,48" = .ok args ∧
      IpSetArgs.execQuickSetup "ipset" "my_set,inet,24 my_set6,inet6,48" ≠ .ok args) ∧
    (∃ args, IpSetArgs.quickSetup "my_set,inet,256" = .ok args ∧ args.mask4 = some 0 ∧ ¬Clamped 32 256 0) ∧
    ∃ (p : IpSetPlugin) (ctx : Context) (response : Message), ctx.response = some response ∧
      ¬Exports (familyTarget p.v4 p.v6) response.answers (((p.execute ctx).getPrefixes "ipset_added").getD []) := by
  refine ⟨⟨⟨some "my_set", some "my_set6", some 24, some 48⟩, ?_, ?_⟩,
    ⟨⟨some "my_set", none, some 0, some 32⟩, ?_, rfl, by rw [Clamped]; decide⟩, ?_⟩
  · rfl
  · decide +kernel
  · rfl
  · let p : IpSetPlugin := ⟨some ⟨"my_set", 24⟩, none⟩
    let response : Message := { Message.new with answers := [⟨"a.example", .A, .IN, 60, .A 1⟩] }
    let ctx : Context := p.execute { Context.new .new with response := some response }
    refine ⟨p, ctx, response, rfl, fun h => ?_⟩
    exact absurd h.length_eq (by decide +kernel)

/-- A shorthand that a plugin takes is set up as it says exactly if it is one field with a mask that can be cast to a byte; a run of `ipset` adds the networks of the answers and nothing else exactly if the metadata has none yet, and a run of `nftset` always does. -/
theorem addressSets_iff (s : String) (args : IpSetArgs) (nftArgs : NftSetArgs) (ctx : Context) (response : Message) :
    (IpSetArgs.quickSetup s = .ok args → splitWhitespace s ≠ [] → (ipset.SetUp s args ↔ ipset.Single s)) ∧
    (NftSetArgs.quickSetup s = .ok nftArgs → splitWhitespace s ≠ [] →
      (nftset.SetUp s nftArgs ↔ nftset.Single s)) ∧
    (ctx.response = some response →
      (Exports (familyTarget args.plugin.v4 args.plugin.v6) response.answers
          (((args.plugin.execute ctx).getPrefixes "ipset_added").getD []) ↔
        (ctx.getPrefixes "ipset_added").getD [] = [])) ∧
    Exports (familyTarget nftArgs.plugin.v4 none) response.answers (nftArgs.plugin.added4 response) ∧
      Exports (familyTarget none nftArgs.plugin.v6) response.answers (nftArgs.plugin.added6 response) := by
  refine ⟨ipset_reads.setUp_iff, nftset_reads.setUp_iff, fun hresponse => ?_, ?_, ?_⟩
  · rw [IpSetPlugin.execute_added hresponse]
    exact args.plugin.exports_added_iff ctx response
  · exact exports_setAdditions _ response
  · exact exports_setAdditions _ response

/-- One field with a mask of 24. -/
theorem addressSets_iff_oneField : ipset.SetUp "my_set,inet,24" ⟨some "my_set", none, some 24, some 32⟩ := by
  have h4 : maskOf 3 "inet" "my_set,inet,24" = some 24 := by decide +kernel
  have h6 : maskOf 3 "inet6" "my_set,inet,24" = none := by decide +kernel
  have hiff := (addressSets_iff "my_set,inet,24" ⟨some "my_set", none, some 24, some 32⟩ ⟨none, none⟩ (.new .new)
    .new).1 rfl (by decide +kernel)
  refine hiff.mpr ⟨by decide +kernel, fun m hm => ?_, fun m hm => ?_⟩
  · obtain rfl := Option.some.inj (h4.symm.trans hm)
    exact .inl (by decide)
  · cases h6.symm.trans hm

end Lazydns
