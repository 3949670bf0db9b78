import Lazydns.Dns.Wire
import Mathlib.Data.List.Nodup

/-!
# Conversions there and back

What a message from the wire library becomes when it is converted to the server's message and back again, part by part: codes keep their value unless they are too large, a question gets the class `IN`, a record is dropped if it has no data, and text that is not UTF-8 is replaced.
-/

namespace Lazydns

namespace Dns

section

variable {fromUtf8 : String → Option Hickory.Name} {m : Message}

theorem convertToHickory_eq_some {fromUtf8 : String → Option Hickory.Name} {h : Hickory.Message} :
    convertToHickory fromUtf8 m = some h ↔
      m.questions.mapM (convertQuestion fromUtf8) = some h.queries ∧
      convertRecords fromUtf8 m.answers = some h.answers ∧
      convertRecords fromUtf8 m.authority = some h.nameServers ∧
      convertRecords fromUtf8 (m.additional.filter fun rr => (convertEdns rr).isNone) =
        some h.additionals ∧
      h = { h with
        id := m.id
        isResponse := m.qr
        opcode := convertOpCode m.opcode
        aa := m.aa
        tc := m.tc
        rd := m.rd
        ra := m.ra
        ad := m.ad
        cd := m.cd
        rcode := m.rcode.toU8.toUInt16
        edns := (m.additional.filterMap convertEdns).getLast? } := by
  rw [convertToHickory]
  constructor
  · intro hconv
    obtain ⟨queries, hqueries, hconv⟩ := Option.bind_eq_some_iff.mp hconv
    obtain ⟨answers, hanswers, hconv⟩ := Option.bind_eq_some_iff.mp hconv
    obtain ⟨nameServers, hauthority, hconv⟩ := Option.bind_eq_some_iff.mp hconv
    obtain ⟨additionals, hadditional, hconv⟩ := Option.bind_eq_some_iff.mp hconv
    cases Option.some.inj hconv
    exact ⟨hqueries, hanswers, hauthority, hadditional, rfl⟩
  · rintro ⟨hqueries, hanswers, hauthority, hadditional, hrest⟩
    rw [hqueries, hanswers, hauthority, hadditional, hrest]
    rfl

end

/-! ### Codes -/

@[simp] theorem RecordType.toU16_fromU16 (value : UInt16) : (fromU16 value).toU16 = value := by
  unfold fromU16
  split <;> rfl

@[simp] theorem RecordClass.toU16_fromU16 (value : UInt16) : (fromU16 value).toU16 = value := by
  unfold fromU16
  split <;> rfl

@[simp] theorem convertOpCode_convertFromOpCode (opcode : Hickory.OpCode) :
    convertOpCode (convertFromOpCode opcode) = opcode := by
  cases opcode <;> rfl

theorem toU8_convertResponseCode (code : UInt16) :
    (convertResponseCode code).toU8.toUInt16 = min code 255 := by
  unfold convertResponseCode
  split
  any_goals rfl
  have hle : (min code 255).toNat ≤ 255 := by
    change (if code ≤ 255 then code else 255).toNat ≤ 255
    split
    · rename_i h
      exact h
    · exact le_rfl
  apply UInt16.toNat_inj.mp
  rw [ResponseCode.toU8, UInt8.toNat_toUInt16, UInt16.toNat_toUInt8, Nat.mod_eq_of_lt (by omega)]

theorem asI32_asU32 (n : Int32) : asI32 (asU32 n) = n := by
  rw [asI32, asU32, BitVec.ofNat_toNat, BitVec.setWidth_eq, Int32.ofBitVec_toBitVec]

/-! ### Names -/

theorem stripRoot_append (s : String) : stripRoot (s ++ ".") = s := by
  have hlist : (s ++ ".").toList = s.toList ++ ['.'] := String.toList_append
  rw [stripRoot, hlist, List.getLast?_concat, if_pos rfl, List.dropLast_concat, String.ofList_toList]

/-- The library renders the name with the root dot at the end, and reads the text as this name with the dot and without it. -/
structure NameText (toUtf8 : Hickory.Name → String) (fromUtf8 : String → Option Hickory.Name)
    (name : Hickory.Name) : Prop where
  identity : fromUtf8 (toUtf8 name) = some name
  root : ∃ s, toUtf8 name = s ++ "." ∧ fromUtf8 s = some name

namespace Hickory

def RData.names : RData → List Name
  | .CNAME name => [name]
  | .MX _ exchange => [exchange]
  | .NS name => [name]
  | .PTR name => [name]
  | .SOA mname rname _ _ _ _ _ => [mname, rname]
  | .SRV _ _ _ target => [target]
  | _ => []

def Record.names (r : Record) : List Name := r.name :: r.data.toList.flatMap RData.names

/-- The records of the three record sections; the EDNS record is none of them. -/
def Message.records (h : Message) : List Record := h.answers ++ h.nameServers ++ h.additionals

def Message.names (h : Message) : List Name := h.queries.map Query.name ++ h.records.flatMap Record.names

/-- What record data of a type comes back as. -/
def RData.again (code : UInt16) : RData → RData
  | .TXT texts => .TXT (texts.map fun text => Bytes.ofString (Bytes.toStringLossy text))
  | .unknown _ data => .unknown code data
  | data => data

/-- What a record comes back as, if it does. -/
def Record.again (r : Record) : Option Record :=
  r.data.map fun data => { r with data := some (data.again r.recordType) }

/-- Record data as it is on the wire, where the type is the record's. -/
def RData.wire (code : UInt16) : RData → RData
  | .unknown _ data => .unknown code data
  | data => data

def Record.wire (r : Record) : Record := { r with data := r.data.map (RData.wire r.recordType) }

/-- There is data, and its texts are UTF-8. -/
def Record.Plain (r : Record) : Prop :=
  ∃ data, r.data = some data ∧ ∀ texts, data = .TXT texts → ∀ text ∈ texts, Bytes.IsUtf8 text

end Hickory

section

variable {toUtf8 : Hickory.Name → String} {fromUtf8 : String → Option Hickory.Name}

theorem NameText.fromUtf8_unrootedName {name : Hickory.Name} (h : NameText toUtf8 fromUtf8 name) :
    fromUtf8 (unrootedName toUtf8 name) = some name := by
  obtain ⟨s, hs, hname⟩ := h.root
  rw [unrootedName, hs, stripRoot_append, hname]

theorem convertQuestion_convertHickoryQuery {q : Hickory.Query} (h : NameText toUtf8 fromUtf8 q.name) :
    convertQuestion fromUtf8 (convertHickoryQuery toUtf8 q) = some (.query q.name q.queryType) := by
  simp [convertQuestion, convertHickoryQuery, h.fromUtf8_unrootedName]

/-- The questions there and back, in order: each has the class `IN` now. -/
theorem convertQuestions_convertHickoryQuery {queries : List Hickory.Query}
    (h : ∀ q ∈ queries, NameText toUtf8 fromUtf8 q.name) :
    (queries.map (convertHickoryQuery toUtf8)).mapM (convertQuestion fromUtf8) =
      some (queries.map fun q => .query q.name q.queryType) := by
  induction queries with
  | nil => rfl
  | cons q queries ih =>
    have hrest := ih fun q' hq' => h q' (List.mem_cons_of_mem _ hq')
    rw [List.map_cons, List.mapM_cons,
      convertQuestion_convertHickoryQuery (h q List.mem_cons_self), hrest]
    rfl

/-- A question comes back as it was from a peer that repeats the query's: it has the class `IN`, the only one that is sent, a type that its number gives back, and a name that is printed as it was read. -/
structure Question.ComesBack (toUtf8 : Hickory.Name → String) (fromUtf8 : String → Option Hickory.Name)
    (q : Question) : Prop where
  qclass : q.qclass = .IN
  qtype : RecordType.fromU16 q.qtype.toU16 = q.qtype
  qname : ∀ name, fromUtf8 q.qname = some name → unrootedName toUtf8 name = q.qname

theorem convertHickoryQuery_eq_iff {q : Question} {query : Hickory.Query}
    (h : convertQuestion fromUtf8 q = some query) :
    convertHickoryQuery toUtf8 query = q ↔ q.ComesBack toUtf8 fromUtf8 := by
  obtain ⟨name, hname, hquery⟩ := Option.bind_eq_some_iff.mp h
  cases Option.some.inj hquery
  obtain ⟨qname, qtype, qclass⟩ := q
  constructor
  · intro heq
    rw [convertHickoryQuery, Question.mk.injEq] at heq
    refine ⟨heq.2.2.symm, heq.2.1, fun name' hname' => ?_⟩
    cases Option.some.inj (hname.symm.trans hname')
    exact heq.1
  · intro hback
    rw [convertHickoryQuery, Question.mk.injEq]
    exact ⟨hback.qname name hname, hback.qtype, hback.qclass.symm⟩

/-- The questions of a query are read as they were asked exactly if each of them comes back. -/
theorem map_convertHickoryQuery_eq_iff {questions : List Question} {queries : List Hickory.Query}
    (h : questions.mapM (convertQuestion fromUtf8) = some queries) :
    queries.map (convertHickoryQuery toUtf8) = questions ↔
      ∀ q ∈ questions, q.ComesBack toUtf8 fromUtf8 := by
  induction questions generalizing queries with
  | nil =>
    cases Option.some.inj h
    exact ⟨fun _ q hq => absurd hq List.not_mem_nil, fun _ => rfl⟩
  | cons q questions ih =>
    rw [List.mapM_cons] at h
    obtain ⟨query, hquery, h⟩ := Option.bind_eq_some_iff.mp h
    obtain ⟨queries', hqueries, h⟩ := Option.bind_eq_some_iff.mp h
    cases Option.some.inj h
    rw [List.map_cons, List.cons_eq_cons, convertHickoryQuery_eq_iff hquery, ih hqueries,
      List.forall_mem_cons]

theorem convertRData_convertHickoryRData {data : Hickory.RData} (code : UInt16)
    (h : ∀ name ∈ data.names, NameText toUtf8 fromUtf8 name) :
    convertRData fromUtf8 code (convertHickoryRData toUtf8 data) = some (some (data.again code)) := by
  have hname : ∀ name ∈ data.names, fromUtf8 (unrootedName toUtf8 name) = some name :=
    fun name hmem => (h name hmem).fromUtf8_unrootedName
  cases data <;>
    simp_all [Hickory.RData.names, convertHickoryRData, convertRData, Hickory.RData.again, asI32_asU32]

private theorem convertRecords_cons {rr : ResourceRecord} {rest : List ResourceRecord}
    {record : Hickory.Record} {records : List Hickory.Record}
    (hrr : convertRecord fromUtf8 rr = some (some record))
    (hrest : convertRecords fromUtf8 rest = some records) :
    convertRecords fromUtf8 (rr :: rest) = some (record :: records) := by
  obtain ⟨converted, hmap, rfl⟩ := Option.map_eq_some_iff.mp hrest
  rw [convertRecords, List.mapM_cons, hrr, hmap]
  rfl

/-- A section of records there and back: every record with data is there again, in order. -/
theorem convertRecords_convertHickoryRecord {records : List Hickory.Record}
    (h : ∀ r ∈ records, ∀ name ∈ r.names, NameText toUtf8 fromUtf8 name) :
    convertRecords fromUtf8 (records.filterMap (convertHickoryRecord toUtf8)) =
      some (records.filterMap Hickory.Record.again) := by
  induction records with
  | nil => rfl
  | cons r records ih =>
    have hrest := ih fun r' hr' => h r' (List.mem_cons_of_mem _ hr')
    have hr := h r List.mem_cons_self
    cases hdata : r.data with
    | none =>
      rw [List.filterMap_cons_none (by rw [convertHickoryRecord, hdata]; rfl),
        List.filterMap_cons_none (by rw [Hickory.Record.again, hdata]; rfl)]
      exact hrest
    | some data =>
      have hnames : ∀ name ∈ data.names, NameText toUtf8 fromUtf8 name := by
        intro name hname
        refine hr name (List.mem_cons_of_mem _ ?_)
        rw [hdata]
        simpa using hname
      rw [List.filterMap_cons_some (by rw [convertHickoryRecord, hdata]; rfl),
        List.filterMap_cons_some (by rw [Hickory.Record.again, hdata]; rfl)]
      refine convertRecords_cons ?_ hrest
      rw [convertRecord, (hr r.name List.mem_cons_self).fromUtf8_unrootedName,
        RecordType.toU16_fromU16, convertRData_convertHickoryRData r.recordType hnames,
        RecordClass.toU16_fromU16]
      rfl

end

/-! ### Which records come back -/

private theorem filterMap_eq_map_iff {α β : Type} {g : α → Option β} {f : α → β} {l : List α} :
    l.filterMap g = l.map f ↔ ∀ x ∈ l, g x = some (f x) := by
  induction l with
  | nil => simp
  | cons x l ih =>
    rw [List.forall_mem_cons, ← ih, List.map_cons]
    cases hx : g x with
    | some y =>
      rw [List.filterMap_cons_some hx]
      simp
    | none =>
      rw [List.filterMap_cons_none hx]
      refine ⟨fun h => ?_, fun h => absurd h.1 (by simp)⟩
      have hlength := List.length_filterMap_le g l
      rw [h, List.length_cons, List.length_map] at hlength
      omega

namespace Hickory

theorem RData.again_wire_iff {data : RData} (code : UInt16) :
    (data.again code).wire code = data.wire code ↔
      ∀ texts, data = .TXT texts → ∀ text ∈ texts, Bytes.IsUtf8 text := by
  cases data with
  | TXT texts =>
    have hmap : texts.map (fun text => Bytes.ofString (Bytes.toStringLossy text)) = texts ↔
        ∀ text ∈ texts, Bytes.IsUtf8 text := by
      conv_lhs => rhs; rw [← List.map_id texts]
      rw [List.map_inj_left]
      exact forall₂_congr fun text _ => Bytes.ofString_toStringLossy_iff
    simp only [again, wire, RData.TXT.injEq, hmap]
    exact ⟨fun h texts' heq => heq ▸ h, fun h => h texts rfl⟩
  | _ => simp [again, wire]

theorem Record.again_wire_iff {r : Record} : r.again.map wire = some r.wire ↔ r.Plain := by
  cases hdata : r.data with
  | none => simp [again, Plain, hdata]
  | some data =>
    rw [again, hdata, Option.map_some, Option.map_some, Option.some.injEq]
    simp only [wire, Plain, hdata, Option.map_some, Option.some.injEq, Record.mk.injEq, true_and,
      exists_eq_left', RData.again_wire_iff]

/-- The records of a section come back as they were exactly if they are plain. -/
theorem filterMap_again_iff {records : List Record} :
    (records.filterMap Record.again).map Record.wire = records.map Record.wire ↔
      ∀ r ∈ records, r.Plain := by
  rw [List.map_filterMap, filterMap_eq_map_iff]
  exact forall₂_congr fun r _ => Record.again_wire_iff

end Hickory

/-! ### Options -/

def insertOption (acc : List (UInt16 × List UInt8)) (t : Tlv.Element) : List (UInt16 × List UInt8) :=
  acc.filter (fun o => o.1 ≠ t.1) ++ [t]

variable {acc : List (UInt16 × List UInt8)} {ts : List Tlv.Element} {bytes rest : List UInt8}

private theorem lookup_cons_ite (o : UInt16 × List UInt8) (code : UInt16) :
    (o :: acc).lookup code = if code = o.1 then some o.2 else acc.lookup code := by
  rw [List.lookup_cons]
  by_cases hcode : code = o.1
  · rw [if_pos hcode, beq_iff_eq.mpr hcode]
  · rw [if_neg hcode, beq_eq_false_iff_ne.mpr hcode]

theorem lookup_insertOption (t : Tlv.Element) (code : UInt16) :
    (insertOption acc t).lookup code = if code = t.1 then some t.2 else acc.lookup code := by
  rw [insertOption, List.lookup_append, lookup_cons_ite, List.lookup_nil]
  by_cases hcode : code = t.1
  · have hnone : (acc.filter fun o => o.1 ≠ t.1).lookup code = none := by
      rw [List.lookup_eq_none_iff]
      intro o ho
      have hne : o.1 ≠ t.1 := of_decide_eq_true (List.mem_filter.mp ho).2
      exact bne_iff_ne.mpr fun heq => hne (heq.symm.trans hcode)
    rw [hnone, Option.none_or, if_pos hcode, if_pos hcode]
  · rw [if_neg hcode, if_neg hcode, Option.or_none]
    induction acc with
    | nil => rfl
    | cons o acc ih =>
      by_cases ho : o.1 = t.1
      · have hcode' : code ≠ o.1 := fun heq => hcode (heq.trans ho)
        rw [List.filter_cons_of_neg (by simpa using ho), ih, lookup_cons_ite, if_neg hcode']
      · rw [List.filter_cons_of_pos (by simpa using ho), lookup_cons_ite, lookup_cons_ite, ih]

theorem lookup_foldl_insertOption (code : UInt16) :
    (ts.foldl insertOption acc).lookup code = (ts.reverse.lookup code).or (acc.lookup code) := by
  induction ts generalizing acc with
  | nil => rfl
  | cons t ts ih =>
    rw [List.foldl_cons, ih, lookup_insertOption, List.reverse_cons, List.lookup_append,
      Option.or_assoc, lookup_cons_ite, List.lookup_nil]
    congr 1
    split <;> rfl

theorem mem_foldl_insertOption {o : UInt16 × List UInt8} (h : o ∈ ts.foldl insertOption acc) :
    o ∈ acc ∨ o ∈ ts := by
  induction ts generalizing acc with
  | nil => exact .inl h
  | cons t ts ih =>
    rcases ih h with hacc | hts
    · rcases List.mem_append.mp hacc with hacc | ht
      · exact .inl (List.mem_filter.mp hacc).1
      · exact .inr (List.mem_cons.mpr (.inl (List.mem_singleton.mp ht)))
    · exact .inr (List.mem_cons_of_mem _ hts)

theorem nodup_foldl_insertOption (h : (acc.map Prod.fst).Nodup) :
    ((ts.foldl insertOption acc).map Prod.fst).Nodup := by
  induction ts generalizing acc with
  | nil => exact h
  | cons t ts ih =>
    refine ih ?_
    rw [insertOption, List.map_append, List.nodup_append]
    refine ⟨h.sublist (List.filter_sublist.map _), by simp, ?_⟩
    intro code hcode code' hcode'
    obtain ⟨o, ho, rfl⟩ := List.mem_map.mp hcode
    obtain rfl : code' = t.1 := List.mem_singleton.mp hcode'
    exact of_decide_eq_true (List.mem_filter.mp ho).2

theorem foldl_insertOption_of_nodup (h : ((acc ++ ts).map Prod.fst).Nodup) :
    ts.foldl insertOption acc = acc ++ ts := by
  induction ts generalizing acc with
  | nil => rw [List.foldl_nil, List.append_nil]
  | cons t ts ih =>
    have hacc : acc.filter (fun o => o.1 ≠ t.1) = acc := by
      rw [List.filter_eq_self]
      intro o ho
      rw [List.map_append, List.nodup_append] at h
      simpa using h.2.2 o.1 (List.mem_map_of_mem ho) t.1 (by simp)
    rw [List.foldl_cons, insertOption, hacc, ih (by simpa using h), List.append_assoc]
    rfl

/-- One round of the loop over the option bytes takes the element that is read there, if one is, and goes on after it. -/
theorem setEdnsOptions_eq (i : Nat) :
    setEdnsOptions bytes i acc =
      match Tlv.read (bytes.drop i) with
      | none => some acc
      | some (t, _) => setEdnsOptions bytes (i + 4 + t.2.length) (insertOption acc t) := by
  rw [setEdnsOptions]
  by_cases hheader : i + 4 ≤ bytes.length
  · have hdrop : bytes.drop i = bytes[i] :: bytes[i + 1] :: bytes[i + 2] :: bytes[i + 3] ::
        bytes.drop (i + 4) := by
      rw [List.drop_eq_getElem_cons, List.drop_eq_getElem_cons, List.drop_eq_getElem_cons,
        List.drop_eq_getElem_cons]
    rw [if_pos hheader, List.getElem?_eq_getElem (by omega), List.getElem?_eq_getElem (by omega),
      List.getElem?_eq_getElem (by omega), List.getElem?_eq_getElem (by omega), hdrop, Tlv.read]
    simp only [Option.bind_eq_bind, Option.bind_some, List.length_drop]
    by_cases hlong : bytes.length < i + 4 + (Tlv.value16 bytes[i + 2] bytes[i + 3]).toNat
    · rw [if_pos hlong, if_pos (by omega)]
    · have hlength : ((bytes.drop (i + 4)).take (Tlv.value16 bytes[i + 2] bytes[i + 3]).toNat).length =
          (Tlv.value16 bytes[i + 2] bytes[i + 3]).toNat := by
        rw [List.length_take, List.length_drop]
        omega
      rw [if_neg hlong, if_pos (Nat.le_of_not_lt hlong), if_neg (by omega)]
      simp only [hlength]
      rfl
  · rw [if_neg hheader]
    have hread : Tlv.read (bytes.drop i) = none := by
      cases hread : Tlv.read (bytes.drop i) with
      | none => rfl
      | some r =>
        have hlength := Tlv.length_of_read hread
        rw [List.length_drop] at hlength
        omega
    rw [hread]

theorem setEdnsOptions_of_leading {i : Nat} (h : Tlv.Leading (bytes.drop i) ts rest) :
    setEdnsOptions bytes i acc = some (ts.foldl insertOption acc) := by
  induction ts generalizing i acc with
  | nil =>
    rcases h.read with ⟨-, hread⟩ | ⟨_, _, _, hnil, -⟩
    · rw [setEdnsOptions_eq, hread]
      rfl
    · cases hnil
  | cons t ts ih =>
    rcases h.read with ⟨hnil, -⟩ | ⟨_, _, tail, hcons, hread, hrest⟩
    · cases hnil
    · cases hcons
      have htail : tail = bytes.drop (i + 4 + t.2.length) := by
        rw [← Tlv.drop_of_read hread, List.drop_drop]
        congr 1
        omega
      rw [setEdnsOptions_eq, hread]
      exact ih (htail ▸ hrest)

private theorem ednsOptions_succ (fuel : Nat) :
    ednsOptions (fuel + 1) bytes acc =
      match Tlv.read bytes with
      | none => acc
      | some (t, tail) => ednsOptions fuel tail (insertOption acc t) := by
  match bytes with
  | [] | [_] | [_, _] | [_, _, _] => rfl
  | c1 :: c2 :: l1 :: l2 :: tail =>
    by_cases hlong : tail.length < (Tlv.value16 l1 l2).toNat
    · rw [Tlv.read, if_pos hlong, ednsOptions]
      exact if_pos hlong
    · rw [Tlv.read, if_neg hlong, ednsOptions]
      exact if_neg hlong

theorem ednsOptions_of_leading {fuel : Nat} (h : Tlv.Leading bytes ts rest)
    (hfuel : bytes.length ≤ fuel) : ednsOptions fuel bytes acc = ts.foldl insertOption acc := by
  induction fuel generalizing bytes acc ts with
  | zero =>
    obtain rfl : bytes = [] := List.length_eq_zero_iff.mp (Nat.le_zero.mp hfuel)
    rcases h.read with ⟨rfl, -⟩ | ⟨_, _, _, -, hread, -⟩
    · rfl
    · cases hread
  | succ fuel ih =>
    rcases h.read with ⟨rfl, hread⟩ | ⟨t, ts, tail, rfl, hread, hrest⟩
    · rw [ednsOptions_succ, hread]
      rfl
    · have hlength := Tlv.length_of_read hread
      rw [ednsOptions_succ, hread]
      exact ih hrest (by omega)

/-- The index loop and the walk take the same options. -/
theorem setEdnsOptions_eq_ednsOptions (bytes : List UInt8) :
    setEdnsOptions bytes 0 [] = some (ednsOptions bytes.length bytes []) := by
  obtain ⟨ts, rest, h⟩ := Tlv.exists_leading bytes
  rw [ednsOptions_of_leading h le_rfl]
  exact setEdnsOptions_of_leading h

/-! ### The bytes of a map of options -/

section

variable {options : List (UInt16 × List UInt8)}

theorem Hickory.length_emit (buffer value : List UInt8) :
    (emit buffer value).length = max buffer.length value.length := by
  rw [emit, List.length_append, List.length_drop]
  omega

theorem Hickory.emit_nil (buffer : List UInt8) : emit buffer [] = buffer := rfl

private abbrev writeOption (blob : List UInt8) (o : UInt16 × List UInt8) : List UInt8 :=
  Hickory.emit (blob ++ (Tlv.be16 o.1 ++ Tlv.be16 (UInt16.ofNat o.2.length))) o.2

private theorem length_writeOption (blob : List UInt8) (o : UInt16 × List UInt8) :
    (writeOption blob o).length = max (blob.length + 4) o.2.length := by
  rw [Hickory.length_emit, List.length_append]
  rfl

private theorem length_writeOptions_le (blob : List UInt8) :
    (options.foldl writeOption blob).length ≤ blob.length + Tlv.size options := by
  induction options generalizing blob with
  | nil => exact Nat.le_refl _
  | cons o options ih =>
    have hblob := length_writeOption blob o
    have hle := ih (writeOption blob o)
    rw [List.foldl_cons, Tlv.size_cons]
    omega

/-- A value that is not empty takes no room of its own: it is written over bytes that are there, or they would have been written again. -/
private theorem length_writeOptions_lt (blob : List UInt8) {o : UInt16 × List UInt8} (ho : o ∈ options)
    (hvalue : o.2 ≠ []) : (options.foldl writeOption blob).length < blob.length + Tlv.size options := by
  induction options generalizing blob with
  | nil => cases ho
  | cons p options ih =>
    have hblob := length_writeOption blob p
    rw [List.foldl_cons, Tlv.size_cons]
    rcases List.mem_cons.mp ho with rfl | ho
    · have hpos := List.length_pos_iff.mpr hvalue
      have hle : (options.foldl writeOption (writeOption blob o)).length ≤
          (writeOption blob o).length + Tlv.size options := length_writeOptions_le (writeOption blob o)
      omega
    · have hlt := ih (writeOption blob p) ho
      omega

theorem ednsOptionsBlob_of_valueless (h : ∀ o ∈ options, o.2 = []) :
    ednsOptionsBlob options = Tlv.encode options := by
  have hfoldl : ∀ blob, options.foldl writeOption blob = blob ++ Tlv.encode options := by
    induction options with
    | nil => exact fun blob => (List.append_nil blob).symm
    | cons o options ih =>
      intro blob
      rw [List.foldl_cons, ih fun p hp => h p (List.mem_cons_of_mem _ hp), writeOption,
        h o List.mem_cons_self, Hickory.emit_nil, Tlv.encode_cons, Tlv.encodeOne,
        h o List.mem_cons_self, List.append_nil, List.append_assoc]
  exact hfoldl []

/-- The options that are read back from the bytes of a map of options. -/
def reread (options : List (UInt16 × List UInt8)) : List (UInt16 × List UInt8) :=
  ednsOptions (ednsOptionsBlob options).length (ednsOptionsBlob options) []

theorem nodup_ednsOptions (blob : List UInt8) : ((ednsOptions blob.length blob []).map Prod.fst).Nodup := by
  obtain ⟨ts, rest, h⟩ := Tlv.exists_leading blob
  rw [ednsOptions_of_leading h le_rfl]
  exact nodup_foldl_insertOption List.nodup_nil

theorem size_foldl_insertOption : Tlv.size (ts.foldl insertOption acc) ≤ Tlv.size acc + Tlv.size ts := by
  induction ts generalizing acc with
  | nil => exact Nat.le_refl _
  | cons t ts ih =>
    have hfilter : Tlv.size (acc.filter fun o => o.1 ≠ t.1) ≤ Tlv.size acc :=
      Tlv.size_le_of_subperm List.filter_sublist.subperm
    have hle := @ih (insertOption acc t)
    have hinsert : Tlv.size (insertOption acc t) =
        Tlv.size (acc.filter fun o => o.1 ≠ t.1) + Tlv.size [t] := Tlv.size_append _ _
    have hone : Tlv.size [t] = t.2.length + 4 := rfl
    rw [List.foldl_cons, Tlv.size_cons]
    omega

theorem size_ednsOptions_le (blob : List UInt8) : Tlv.size (ednsOptions blob.length blob []) ≤ blob.length := by
  obtain ⟨ts, rest, h⟩ := Tlv.exists_leading blob
  rw [ednsOptions_of_leading h le_rfl]
  have hsize : Tlv.size (ts.foldl insertOption []) ≤ Tlv.size [] + Tlv.size ts := size_foldl_insertOption
  have hblob := h.size_le
  have hnil : Tlv.size [] = 0 := rfl
  omega

theorem reread_of_valueless (hnodup : (options.map Prod.fst).Nodup) (h : ∀ o ∈ options, o.2 = []) :
    reread options = options := by
  have hfits : ∀ o ∈ options, Tlv.Fits o := by
    intro o ho
    rw [Tlv.Fits, h o ho]
    decide
  rw [reread, ednsOptionsBlob_of_valueless h, ednsOptions_of_leading (Tlv.leading_encode hfits) le_rfl]
  exact foldl_insertOption_of_nodup hnodup

/-- Options with different codes are all read back exactly if none of them has a value: there is room for the headers only. -/
theorem subset_reread_iff (hnodup : (options.map Prod.fst).Nodup) :
    options ⊆ reread options ↔ ∀ o ∈ options, o.2 = [] := by
  constructor
  · intro hsub o ho
    by_contra hvalue
    have hroom : Tlv.size options ≤ Tlv.size (reread options) :=
      Tlv.size_le_of_subperm ((List.Nodup.of_map _ hnodup).subperm hsub)
    have hread := size_ednsOptions_le (ednsOptionsBlob options)
    have hblob : (ednsOptionsBlob options).length < 0 + Tlv.size options :=
      length_writeOptions_lt [] ho hvalue
    rw [reread] at hroom
    omega
  · intro h
    rw [reread_of_valueless hnodup h]
    exact List.Subset.refl _

end

end Dns

end Lazydns
