import Lazydns.Plugin.ConditionBuilder
import Lazydns.Plugin.Hosts
import Lazydns.Plugin.Validation

/-!
# The registry of the condition builders

A condition is built by the builder whose name is its first word, or else by one that says it can handle the text. The builders are in a hash map, which goes through them in an order of its own, so that order is given as a list. Unicode uppercasing is taken from outside.
-/

namespace Lazydns

/-- `name`, and what `build` makes of the text with the plugins that are registered. -/
structure ConditionBuilder where
  name : String
  build : String → Except Error Condition

/-- `s.starts_with(p)`. -/
def startsWith (p s : String) : Bool := (stripPrefix p s).isSome

def conditionName (conditionStr : String) : String := (splitWhitespace conditionStr).head?.getD ""

def ConditionBuilder.canHandle (builder : ConditionBuilder) (conditionStr : String) : Bool :=
  conditionName conditionStr = builder.name ∨ startsWith (builder.name ++ ".") (conditionName conditionStr) ∨
    startsWith "!" builder.name ∧ startsWith builder.name conditionStr

/-- The exact match first, and then the builders in the order of the map. -/
def getBuilder (builders : List ConditionBuilder) (conditionStr : String) : Option ConditionBuilder :=
  (builders.find? fun builder => builder.name = conditionName conditionStr).or
    (builders.find? fun builder => builder.canHandle conditionStr)

def parseCondition (builders : List ConditionBuilder) (conditionStr : String) : Except Error Condition :=
  match getBuilder builders conditionStr with
  | some builder => builder.build conditionStr
  | none => .error (.config ("Unknown condition: " ++ conditionStr))

/-! ### The other builders -/

def buildBare (name : String) (condition : Condition) (conditionStr : String) : Except Error Condition :=
  if conditionStr ≠ name then .error (.config (name ++ " does not accept arguments: " ++ conditionStr))
  else .ok condition

/-- A value for each part of the text, or the error of the first that has none. -/
def readParts {α : Type} (what : String) (read : String → Option α) (conditionStr : String) :
    List String → Except Error (List α)
  | [] => .ok []
  | part :: parts =>
    match read part with
    | some value => (readParts what read conditionStr parts).map (value :: ·)
    | none => .error (.config ("Invalid " ++ what ++ " '" ++ part ++ "': " ++ conditionStr))

def buildListed {α : Type} (name what whats : String) (read : String → Option α) (make : List α → Condition)
    (conditionStr : String) : Except Error Condition :=
  match stripPrefix (name ++ " ") conditionStr with
  | none => .error (.config ("Invalid " ++ name ++ " format: " ++ conditionStr))
  | some str =>
    match readParts what read conditionStr (splitWhitespace str) with
    | .error e => .error e
    | .ok [] => .error (.config ("No " ++ whats ++ " specified: " ++ conditionStr))
    | .ok values => .ok (make values)

def HasRespBuilder.build : String → Except Error Condition := buildBare "has_resp" .hasResp

def HasCnameBuilder.build : String → Except Error Condition := buildBare "has_cname" .hasCname

/-- `parse::<u16>`. -/
def QtypeBuilder.read (part : String) : Option UInt16 :=
  (Validation.parseUnsigned 65535 part).map UInt16.ofNat

def QtypeBuilder.build : String → Except Error Condition :=
  buildListed "qtype" "query type number" "query types" read .qtype

section

variable (toUppercase : String → String)

/-- The macro `dns_type_match`: a name, whatever its case, or else a number. -/
def dnsTypeMatch (names : List (String × Nat)) (limit : Nat) (input : String) : Option Nat :=
  (names.lookup (toUppercase input)).or (Validation.parseUnsigned limit input)

def QclassBuilder.names : List (String × Nat) := [("IN", 1), ("CH", 3), ("HS", 4)]

def QclassBuilder.read (part : String) : Option UInt16 :=
  (dnsTypeMatch toUppercase names 65535 part).map UInt16.ofNat

def QclassBuilder.build : String → Except Error Condition :=
  buildListed "qclass" "query class" "query classes" (read toUppercase) .qclass

def RcodeBuilder.names : List (String × Nat) :=
  [("NOERROR", 0), ("FORMERR", 1), ("FORMDERR", 1), ("SERVFAIL", 2), ("NXDOMAIN", 3), ("NXDOM", 3), ("NOTIMP", 4),
    ("NOTIMPL", 4), ("REFUSED", 5), ("REFUSE", 5), ("YXDOMAIN", 6), ("YXDOM", 6), ("YXRRSET", 7), ("NXRRSET", 8),
    ("NOTAUTH", 9), ("NOTAUTHZ", 9), ("NOTZONE", 10)]

def RcodeBuilder.read (part : String) : Option UInt8 :=
  (dnsTypeMatch toUppercase names 255 part).map UInt8.ofNat

def RcodeBuilder.build : String → Except Error Condition :=
  buildListed "rcode" "response code" "response codes" (read toUppercase) .rcode

variable (env : RuleEnv) (registry : PluginRegistry)

/-- The builders that `init_condition_builders` registers. -/
def conditionBuilders : List ConditionBuilder :=
  [⟨"has_resp", HasRespBuilder.build⟩, ⟨"resp_ip", RespIpBuilder.build registry⟩,
    ⟨"!resp_ip", RespIpNegBuilder.build registry⟩, ⟨"qname", QnameBuilder.build env registry⟩,
    ⟨"!qname", QnameNegBuilder.build⟩, ⟨"qtype", QtypeBuilder.build⟩,
    ⟨"qclass", QclassBuilder.build toUppercase⟩, ⟨"rcode", RcodeBuilder.build toUppercase⟩,
    ⟨"has_cname", HasCnameBuilder.build⟩]

end

/-! ### First words -/

/-- A text that can be the name of a builder. -/
def IsWord (name : String) : Prop := name ≠ "" ∧ ∀ c ∈ name.toList, isWhitespace c = false

instance (name : String) : Decidable (IsWord name) :=
  have := List.decidableBAll (fun c => isWhitespace c = false) name.toList
  inferInstanceAs (Decidable (name ≠ "" ∧ ∀ c ∈ name.toList, isWhitespace c = false))

theorem head?_splitOnP {α : Type} (p : α → Bool) (l : List α) :
    (l.splitOnP p).head? = some (l.takeWhile fun a => !p a) := by
  induction l with
  | nil => rfl
  | cons a l ih =>
    rw [List.splitOnP_cons_eq_if_modifyHead]
    cases ha : p a with
    | true => simp [ha]
    | false =>
      obtain ⟨first, rest, hsplit⟩ := List.exists_cons_of_ne_nil (List.splitOnP_ne_nil p l)
      rw [hsplit] at ih ⊢
      simp only [List.head?_cons, Option.some.injEq] at ih
      simp [ha, ih]

/-- A text that begins with a word has it at the beginning of its first word. -/
theorem conditionName_append {name : String} (hname : IsWord name) {rest : List Char} {conditionStr : String}
    (hstr : conditionStr.toList = name.toList ++ rest) :
    (conditionName conditionStr).toList = name.toList ++ rest.takeWhile fun c => !isWhitespace c := by
  obtain ⟨hne, hblank⟩ := hname
  have htake : conditionStr.toList.takeWhile (fun c => !isWhitespace c) =
      name.toList ++ rest.takeWhile fun c => !isWhitespace c := by
    rw [hstr]
    apply List.takeWhile_append_of_pos
    intro c hc
    rw [hblank c hc]
    rfl
  have hhead := head?_splitOnP isWhitespace conditionStr.toList
  rw [htake] at hhead
  obtain ⟨words, hwords⟩ := List.head?_eq_some_iff.mp hhead
  have hfirst : name.toList ++ (rest.takeWhile fun c => !isWhitespace c) ≠ [] := by
    intro hnil
    apply hne
    rw [← String.toList_eq_nil_iff]
    exact (List.append_eq_nil_iff.mp hnil).1
  have hkept : decide (name.toList ++ (rest.takeWhile fun c => !isWhitespace c) ≠ []) = true := decide_eq_true hfirst
  rw [conditionName, splitWhitespace, hwords, List.filter_cons, if_pos hkept, List.map_cons, List.head?_cons,
    Option.getD_some, String.toList_ofList]

theorem conditionName_self {name : String} (hname : IsWord name) : conditionName name = name := by
  apply String.toList_inj.mp
  rw [conditionName_append hname (List.append_nil name.toList).symm]
  exact List.append_nil _

theorem conditionName_args {name : String} (hname : IsWord name) (args : String) :
    conditionName (name ++ " " ++ args) = name := by
  apply String.toList_inj.mp
  have hstr : (name ++ " " ++ args).toList = name.toList ++ ' ' :: args.toList := by simp
  rw [conditionName_append hname hstr]
  exact List.append_nil _

end Lazydns
