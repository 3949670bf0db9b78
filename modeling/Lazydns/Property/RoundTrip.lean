import Lazydns.Dns.WireRules

/-!
# Messages there and back

A message from the wire library that is converted to the server's message and back again comes back as `Hickory.Message.again` says. The header and the questions are the same exactly if all questions have class `IN` and the response code fits a byte; the records are the same exactly if all of them have data and their texts are UTF-8; the EDNS record keeps its map of options, in whatever order the map is walked, exactly if no option has a value.
-/

namespace Lazydns

namespace Dns

open Hickory

namespace Hickory

def Edns.again (e : Edns) : Edns where
  rcodeHigh := e.rcodeHigh
  version := e.version
  dnssecOk := e.dnssecOk
  maxPayload := max e.maxPayload 512
  options := reread e.options

/-- What a message comes back as. -/
def Message.again (h : Message) : Message := { h with
  rcode := min h.rcode 255
  queries := h.queries.map fun q => .query q.name q.queryType
  answers := h.answers.filterMap Record.again
  nameServers := h.nameServers.filterMap Record.again
  additionals := h.additionals.filterMap Record.again
  edns := h.edns.map Edns.again }

end Hickory

section

variable {toUtf8 : Name → String} {fromUtf8 : String → Option Name} {h : Hickory.Message}

/-! ### The whole message -/

theorem convertEdns_optRecord (e : Edns) : convertEdns (optRecord e) = some e.again := by
  have hflags : ((if e.dnssecOk then 0x8000 else 0 : UInt16) &&& 0x8000 != 0) = e.dnssecOk := by
    cases e.dnssecOk <;> rfl
  rw [convertEdns, optRecord]
  simp only [hflags, RecordClass.toU16_fromU16]
  rfl

theorem convertEdns_convertHickoryRecord {r : Record} {rr : ResourceRecord}
    (hr : convertHickoryRecord toUtf8 r = some rr) : convertEdns rr = none := by
  obtain ⟨data, -, hrr⟩ := Option.bind_eq_some_iff.mp hr
  cases Option.some.inj hrr
  cases data <;> rfl

private theorem mem_section {records : List Record} {rr : ResourceRecord}
    (hrr : rr ∈ records.filterMap (convertHickoryRecord toUtf8)) : convertEdns rr = none := by
  obtain ⟨r, -, hr⟩ := List.mem_filterMap.mp hrr
  exact convertEdns_convertHickoryRecord hr

theorem convertToHickory_convertFromHickory (hnames : ∀ name ∈ h.names, NameText toUtf8 fromUtf8 name) :
    convertToHickory fromUtf8 (convertFromHickory toUtf8 h) = some h.again := by
  have hrecords : ∀ records : List Record, (∀ r ∈ records, r ∈ h.records) →
      convertRecords fromUtf8 (records.filterMap (convertHickoryRecord toUtf8)) =
        some (records.filterMap Record.again) := by
    intro records hsub
    refine convertRecords_convertHickoryRecord fun r hr name hname => hnames name ?_
    exact List.mem_append_right _ (List.mem_flatMap_of_mem (hsub r hr) hname)
  have hplain : (h.additionals.filterMap (convertHickoryRecord toUtf8)).filter
      (fun rr => (convertEdns rr).isNone) = h.additionals.filterMap (convertHickoryRecord toUtf8) := by
    rw [List.filter_eq_self]
    intro rr hrr
    rw [mem_section hrr, Option.isNone_none]
  have hnone : (h.additionals.filterMap (convertHickoryRecord toUtf8)).filterMap convertEdns = [] := by
    rw [List.filterMap_eq_nil_iff]
    intro rr hrr
    exact mem_section hrr
  have hqueries : ∀ q ∈ h.queries, NameText toUtf8 fromUtf8 q.name := fun q hq =>
    hnames q.name (List.mem_append_left _ (List.mem_map_of_mem hq))
  refine convertToHickory_eq_some.mpr ⟨?_, hrecords _ ?_, hrecords _ ?_, ?_, ?_⟩
  · exact convertQuestions_convertHickoryQuery hqueries
  · intro r hr
    simp [Hickory.Message.records, hr]
  · intro r hr
    simp [Hickory.Message.records, hr]
  · have hopt : (h.edns.toList.map optRecord).filter (fun rr => (convertEdns rr).isNone) = [] := by
      rw [List.filter_eq_nil_iff]
      intro rr hrr
      obtain ⟨e, -, rfl⟩ := List.mem_map.mp hrr
      rw [convertEdns_optRecord]
      simp
    rw [convertFromHickory]
    dsimp only
    rw [List.filter_append, hplain, hopt, List.append_nil]
    refine hrecords _ fun r hr => ?_
    simp [Hickory.Message.records, hr]
  · have hlast : ((convertFromHickory toUtf8 h).additional.filterMap convertEdns).getLast? =
        h.edns.map Edns.again := by
      rw [convertFromHickory]
      dsimp only
      rw [List.filterMap_append, hnone, List.nil_append]
      cases h.edns with
      | none => rfl
      | some e => simp [convertEdns_optRecord]
    rw [hlast]
    simp only [convertFromHickory, convertOpCode_convertFromOpCode, toU8_convertResponseCode,
      Hickory.Message.again]

end

/-! ### Names as text -/

/-- A name of plain labels as the library renders it, and the library reading such a name. -/
def dotted (name : Name) : String :=
  String.ofList (name.flatMap fun label => (Bytes.toStringLossy label).toList ++ ['.'])

def ofDotted (s : String) : Option Name :=
  some (((s.toList.splitOn '.').filter (· ≠ [])).map fun label => label.flatMap String.utf8EncodeChar)

theorem nameText_a : NameText dotted ofDotted [[97]] where
  identity := by decide +kernel
  root := ⟨"a", by decide +kernel, by decide +kernel⟩

section

variable {toUtf8 : Name → String} {fromUtf8 : String → Option Name} {h : Hickory.Message}

/-! ### Header and questions -/

structure SameHeader (h h' : Hickory.Message) : Prop where
  id : h.id = h'.id
  isResponse : h.isResponse = h'.isResponse
  opcode : h.opcode = h'.opcode
  aa : h.aa = h'.aa
  tc : h.tc = h'.tc
  rd : h.rd = h'.rd
  ra : h.ra = h'.ra
  ad : h.ad = h'.ad
  cd : h.cd = h'.cd
  rcode : h.rcode = h'.rcode

theorem sameHeader_again_iff : SameHeader h.again h ↔ h.rcode ≤ 255 := by
  have hmin : min h.rcode 255 = h.rcode ↔ h.rcode ≤ 255 := by
    change (if h.rcode ≤ 255 then h.rcode else 255) = h.rcode ↔ h.rcode ≤ 255
    split
    · rename_i hle
      exact iff_of_true rfl hle
    · rename_i hle
      refine iff_of_false (fun heq => hle ?_) hle
      exact heq ▸ by decide
  constructor
  · intro hsame
    exact hmin.mp hsame.rcode
  · intro hle
    exact ⟨rfl, rfl, rfl, rfl, rfl, rfl, rfl, rfl, rfl, hmin.mpr hle⟩

theorem queries_again_iff : h.again.queries = h.queries ↔ ∀ q ∈ h.queries, q.queryClass = 1 := by
  have hquery : ∀ q : Query, Query.query q.name q.queryType = q ↔ q.queryClass = 1 := by
    intro q
    rw [Query.query, Query.mk.injEq]
    exact ⟨fun heq => heq.2.2.symm, fun hclass => ⟨rfl, rfl, hclass.symm⟩⟩
  have hid : h.again.queries = h.queries ↔
      h.queries.map (fun q => Query.query q.name q.queryType) = h.queries.map id := by
    rw [List.map_id]
    rfl
  rw [hid, List.map_inj_left]
  exact forall₂_congr fun q _ => hquery q

/-- The header and the questions come back as they were exactly if the response code fits a byte and every question has class `IN`. -/
theorem header_round_trip_iff (hnames : ∀ name ∈ h.names, NameText toUtf8 fromUtf8 name) :
    (∃ h', convertToHickory fromUtf8 (convertFromHickory toUtf8 h) = some h' ∧ SameHeader h' h ∧
        h'.queries = h.queries) ↔
      h.rcode ≤ 255 ∧ ∀ q ∈ h.queries, q.queryClass = 1 := by
  rw [convertToHickory_convertFromHickory hnames, ← sameHeader_again_iff, ← queries_again_iff]
  constructor
  · rintro ⟨h', heq, hsame⟩
    cases Option.some.inj heq
    exact hsame
  · intro hsame
    exact ⟨h.again, rfl, hsame⟩

end

/-- A message with one question and nothing else. -/
def Hickory.Message.asking (q : Query) : Hickory.Message where
  id := 7
  isResponse := false
  opcode := .query
  aa := false
  tc := false
  rd := true
  ra := false
  ad := false
  cd := false
  rcode := 0
  queries := [q]
  answers := []
  nameServers := []
  additionals := []
  edns := none

theorem header_of_address_query :
    ∃ h', convertToHickory ofDotted (convertFromHickory dotted (.asking ⟨[[97]], 1, 1⟩)) = some h' ∧
      SameHeader h' (.asking ⟨[[97]], 1, 1⟩) ∧ h'.queries = [⟨[[97]], 1, 1⟩] := by
  refine (header_round_trip_iff (h := .asking ⟨[[97]], 1, 1⟩) ?_).mpr ⟨by decide, by decide⟩
  intro name hname
  obtain rfl : name = [[97]] := List.mem_singleton.mp hname
  exact nameText_a

/-- A question of class `CH` comes back with class `IN`, and a response code of 300 as 255. -/
theorem chaos_query_becomes_internet :
    let h := Hickory.Message.asking ⟨[[97]], 16, 3⟩
    (convertToHickory ofDotted (convertFromHickory dotted h)).map (·.queries) =
        some [⟨[[97]], 16, 1⟩] ∧
      h.queries = [⟨[[97]], 16, 3⟩] ∧
      (convertToHickory ofDotted (convertFromHickory dotted { h with rcode := 300 })).map (·.rcode) =
        some 255 := by
  decide +kernel

section

variable {toUtf8 : Name → String} {fromUtf8 : String → Option Name} {h : Hickory.Message}

/-! ### Records -/

structure SameRecords (h h' : Hickory.Message) : Prop where
  answers : h.answers.map Record.wire = h'.answers.map Record.wire
  nameServers : h.nameServers.map Record.wire = h'.nameServers.map Record.wire
  additionals : h.additionals.map Record.wire = h'.additionals.map Record.wire

theorem sameRecords_again_iff : SameRecords h.again h ↔ ∀ r ∈ h.records, r.Plain := by
  constructor
  · intro hsame r hr
    rw [Hickory.Message.records, List.mem_append, List.mem_append] at hr
    rcases hr with (hr | hr) | hr
    · exact filterMap_again_iff.mp hsame.answers r hr
    · exact filterMap_again_iff.mp hsame.nameServers r hr
    · exact filterMap_again_iff.mp hsame.additionals r hr
  · intro hplain
    refine ⟨?_, ?_, ?_⟩
    all_goals
      refine filterMap_again_iff.mpr fun r hr => hplain r ?_
      simp [Hickory.Message.records, hr]

/-- The records of all sections come back, byte for byte, exactly if all of them have data and their texts are UTF-8. -/
theorem records_round_trip_iff (hnames : ∀ name ∈ h.names, NameText toUtf8 fromUtf8 name) :
    (∃ h', convertToHickory fromUtf8 (convertFromHickory toUtf8 h) = some h' ∧ SameRecords h' h) ↔
      ∀ r ∈ h.records, r.Plain := by
  rw [convertToHickory_convertFromHickory hnames, ← sameRecords_again_iff]
  constructor
  · rintro ⟨h', heq, hsame⟩
    cases Option.some.inj heq
    exact hsame
  · intro hsame
    exact ⟨h.again, rfl, hsame⟩

end

def Hickory.Message.answering (recordType : UInt16) (data : Hickory.RData) : Hickory.Message :=
  { Hickory.Message.asking ⟨[[97]], recordType, 1⟩ with
    isResponse := true
    answers := [⟨[[97]], recordType, 1, 300, some data⟩] }

theorem records_of_address_answer :
    let h := Hickory.Message.answering 1 (.A 0x7F000001)
    ∃ h', convertToHickory ofDotted (convertFromHickory dotted h) = some h' ∧ SameRecords h' h := by
  refine (records_round_trip_iff fun name hname => ?_).mpr fun r hr => ?_
  · obtain rfl : name = [[97]] := by
      simpa [Hickory.Message.names, Hickory.Message.records, Hickory.Message.answering,
        Hickory.Message.asking, Record.names, RData.names] using hname
    exact nameText_a
  · obtain rfl : r = ⟨[[97]], 1, 1, 300, some (.A 0x7F000001)⟩ := by
      simpa [Hickory.Message.records, Hickory.Message.answering, Hickory.Message.asking] using hr
    exact ⟨_, rfl, fun texts htexts => by cases htexts⟩

/-- A text of the one byte `FF` comes back as the replacement character. -/
theorem text_bytes_replaced :
    let h := Hickory.Message.answering 16 (.TXT [[0xFF]])
    (convertToHickory ofDotted (convertFromHickory dotted h)).map (·.answers.map Record.wire) =
        some [⟨[[97]], 16, 1, 300, some (.TXT [[0xEF, 0xBF, 0xBD]])⟩] ∧
      h.answers.map Record.wire = [⟨[[97]], 16, 1, 300, some (.TXT [[0xFF]])⟩] := by
  decide +kernel

/-! ### Options -/

/-- The list hands out the entries of the map in some order, each once. -/
structure Represents (options : List (UInt16 × List UInt8)) (map : UInt16 → Option (List UInt8)) :
    Prop where
  nodup : (options.map Prod.fst).Nodup
  lookup : ∀ code, options.lookup code = map code

theorem Represents.mem_iff {options : List (UInt16 × List UInt8)} {map : UInt16 → Option (List UInt8)}
    (h : Represents options map) (o : UInt16 × List UInt8) : o ∈ options ↔ map o.1 = some o.2 := by
  rw [← h.lookup, List.lookup_eq_some_iff]
  constructor
  · intro ho
    obtain ⟨before, after, rfl⟩ := List.append_of_mem ho
    refine ⟨before, after, rfl, fun p hp => bne_iff_ne.mpr fun heq => ?_⟩
    have hnodup := h.nodup
    rw [List.map_append, List.nodup_append] at hnodup
    exact hnodup.2.2 p.1 (List.mem_map_of_mem hp) o.1 List.mem_cons_self heq.symm
  · rintro ⟨before, after, rfl, -⟩
    exact List.mem_append_right _ List.mem_cons_self

/-- Any bytes at all: the loop ends in range, and the map it makes is that of the leading options. -/
theorem setEdnsOptions_represents (blob : List UInt8) :
    ∃ ts rest options, Tlv.Leading blob ts rest ∧ setEdnsOptions blob 0 [] = some options ∧
      Represents options (fun code => ts.reverse.lookup code) ∧
      ∀ o ∈ options, ∃ front back, blob = front ++ o.2 ++ back := by
  obtain ⟨ts, rest, h⟩ := Tlv.exists_leading blob
  refine ⟨ts, rest, ts.foldl insertOption [], h, setEdnsOptions_of_leading h, ⟨?_, ?_⟩, ?_⟩
  · exact nodup_foldl_insertOption List.nodup_nil
  · intro code
    rw [lookup_foldl_insertOption, List.lookup_nil, Option.or_none]
  · intro o ho
    rcases mem_foldl_insertOption ho with hnil | hts
    · cases hnil
    · exact h.slice hts

/-- The EDNS record comes back with the same map of options, in whatever order the map is walked, exactly if all the options are empty; from any bytes, the options that are set are the leading ones, the last of each code. -/
theorem edns_round_trip_iff (toUtf8 : Name → String) (fromUtf8 : String → Option Name) :
    (∀ (h : Hickory.Message) (e : Edns) (map : UInt16 → Option (List UInt8)),
      (∀ name ∈ h.names, NameText toUtf8 fromUtf8 name) → h.edns = some e → Represents e.options map →
      (∀ o ∈ e.options, o.2.length ≤ 65535) →
      ((∃ h' e', convertToHickory fromUtf8 (convertFromHickory toUtf8 h) = some h' ∧ h'.edns = some e' ∧
        setEdnsOptions (ednsOptionsBlob e.options) 0 [] = some e'.options ∧ Represents e'.options map ∧
        e'.version = e.version ∧ e'.rcodeHigh = e.rcodeHigh ∧ e'.dnssecOk = e.dnssecOk ∧
        e'.maxPayload = max e.maxPayload 512) ↔
      ∀ code value, map code = some value → value = [])) ∧
    ∀ blob : List UInt8, ∃ ts rest options, Tlv.Leading blob ts rest ∧
      setEdnsOptions blob 0 [] = some options ∧
      Represents options (fun code => ts.reverse.lookup code) ∧
      ∀ o ∈ options, ∃ front back, blob = front ++ o.2 ++ back := by
  refine ⟨fun h e map hnames hedns hmap _ => ?_, setEdnsOptions_represents⟩
  have hback : h.again.edns = some e.again := by
    rw [Hickory.Message.again, hedns]
    rfl
  have hvalues : (∀ code value, map code = some value → value = []) ↔ ∀ o ∈ e.options, o.2 = [] := by
    constructor
    · intro hempty o ho
      exact hempty o.1 o.2 ((hmap.mem_iff o).mp ho)
    · intro hempty code value hvalue
      exact hempty (code, value) ((hmap.mem_iff (code, value)).mpr hvalue)
  rw [hvalues, ← subset_reread_iff hmap.nodup, convertToHickory_convertFromHickory hnames]
  constructor
  · rintro ⟨h', e', heq, hedns', -, hmap', -⟩
    cases Option.some.inj heq
    cases Option.some.inj (hback.symm.trans hedns')
    intro o ho
    exact (hmap'.mem_iff o).mpr ((hmap.mem_iff o).mp ho)
  · intro hsub
    have hoptions : e.again.options = e.options :=
      reread_of_valueless hmap.nodup ((subset_reread_iff hmap.nodup).mp hsub)
    refine ⟨h.again, e.again, rfl, hback, setEdnsOptions_eq_ednsOptions _, ?_, rfl, rfl, rfl, rfl⟩
    rw [hoptions]
    exact hmap

/-- A query that asks with an empty padding option and an empty key tag option. -/
theorem edns_round_trip_iff_padding :
    let e : Edns := ⟨0, 0, true, 1232, [(12, []), (14, [])]⟩
    let h := { Hickory.Message.asking ⟨[[97]], 1, 1⟩ with edns := some e }
    ∃ h' e', convertToHickory ofDotted (convertFromHickory dotted h) = some h' ∧ h'.edns = some e' ∧
      Represents e'.options (fun code => e.options.lookup code) := by
  intro e h
  have hnames : ∀ name ∈ h.names, NameText dotted ofDotted name := by
    intro name hname
    obtain rfl : name = [[97]] := List.mem_singleton.mp hname
    exact nameText_a
  have hmap : Represents e.options (fun code => e.options.lookup code) := ⟨by decide, fun code => rfl⟩
  have hempty : ∀ code value, e.options.lookup code = some value → value = [] := by
    intro code value hvalue
    have hmem := (hmap.mem_iff (code, value)).mpr hvalue
    have hall : ∀ o ∈ e.options, o.2 = [] := by decide
    exact hall _ hmem
  obtain ⟨h', e', hconv, hedns, -, hback, -⟩ :=
    ((edns_round_trip_iff dotted ofDotted).1 h e _ hnames rfl hmap (by decide)).mpr hempty
  exact ⟨h', e', hconv, hedns, hback⟩

/-- A cookie of one byte is written over its own header, and is not in what comes back. -/
theorem cookie_lost :
    let e : Edns := ⟨0, 0, true, 1232, [(10, [7])]⟩
    let h := { Hickory.Message.asking ⟨[[97]], 1, 1⟩ with edns := some e }
    ednsOptionsBlob e.options = [7, 10, 0, 1] ∧
      ¬ ∃ h' e', convertToHickory ofDotted (convertFromHickory dotted h) = some h' ∧ h'.edns = some e' ∧
        Represents e'.options (fun code => e.options.lookup code) := by
  intro e h
  refine ⟨by decide, ?_⟩
  rintro ⟨h', e', hconv, hedns, hmap⟩
  have hback : (convertToHickory ofDotted (convertFromHickory dotted h)).map
      (fun h' => h'.edns.map Edns.options) = some (some []) := by decide +kernel
  rw [hconv, Option.map_some, hedns, Option.map_some, Option.some.injEq, Option.some.injEq] at hback
  have hlookup := hmap.lookup 10
  rw [hback] at hlookup
  cases hlookup

end Dns

end Lazydns
