import Lazydns.Dns.WireRules
import Lazydns.Server.Service
import Lazydns.Server.Transport

/-!
# Responses that do not fit a datagram

Over UDP a response longer than the client's limit is replaced by its header and its questions with the TC bit. Nothing bounds the questions, and the high bits of the response code travel in the EDNS record, which is cut off with the rest.
-/

namespace Lazydns

open Dns

/-! ### On the wire -/

/-- What the library reads back from the bytes: the header has four bits for the response code, the others are in the EDNS record. -/
def Dns.Hickory.Message.received (h : Hickory.Message) : Hickory.Message :=
  { h with rcode := if h.edns.isSome then h.rcode else h.rcode % 16 }

namespace UdpServer

/-- `parse_message` of what was sent. -/
def decode (toUtf8 : Hickory.Name → String) (sent : Hickory.Message) : Message :=
  convertFromHickory toUtf8 sent.received

theorem clientUdpLimit_ge (request : Message) : 512 ≤ clientUdpLimit request := by
  rw [clientUdpLimit]
  cases request.additional.find? fun rr => rr.rtype == .OPT with
  | none => exact le_rfl
  | some rr =>
    dsimp only
    split
    · split
      · assumption
      · exact le_rfl
    · exact le_rfl

/-- The reduced message: id, questions and response code of the complete one, the TC bit, and no records. -/
structure Reduced (m full : Message) : Prop where
  id : m.id = full.id
  questions : m.questions = full.questions
  rcode : m.rcode = full.rcode
  tc : m.tc = true
  answers : m.answers = []
  authority : m.authority = []
  additional : m.additional = []

/-- What is sent is at most as long as the limit, and is read as the complete response or the reduced one. -/
structure Fits (env : Env) (toUtf8 : Hickory.Name → String) (limit : Nat)
    (complete sent : Hickory.Message) : Prop where
  size : env.size sent ≤ limit
  decodes : decode toUtf8 sent = decode toUtf8 complete ∨ Reduced (decode toUtf8 sent) (decode toUtf8 complete)

variable {env : Env} {toUtf8 : Hickory.Name → String} {response : Message} {s t : Hickory.Message}

/-- The reduced message is encoded as the complete one without its records. -/
theorem serialize_truncated (hs : env.serialize response = some s)
    (ht : env.serialize (truncated response) = some t) :
    t = { s with tc := true, answers := [], nameServers := [], additionals := [], edns := none } := by
  obtain ⟨hs, -⟩ := Option.filter_eq_some_iff.mp hs
  obtain ⟨ht, -⟩ := Option.filter_eq_some_iff.mp ht
  rw [convertToHickory] at hs ht
  obtain ⟨queries, hqueries, hs⟩ := Option.bind_eq_some_iff.mp hs
  obtain ⟨_, -, hs⟩ := Option.bind_eq_some_iff.mp hs
  obtain ⟨_, -, hs⟩ := Option.bind_eq_some_iff.mp hs
  obtain ⟨_, -, hs⟩ := Option.bind_eq_some_iff.mp hs
  obtain ⟨queries', hqueries', ht⟩ := Option.bind_eq_some_iff.mp ht
  cases Option.some.inj hs
  cases Option.some.inj ht
  rw [truncated, hqueries] at hqueries'
  cases hqueries'
  rfl

/-- The response code of the complete response on the wire, and its EDNS record. -/
theorem serialize_rcode (hs : env.serialize response = some s) :
    s.rcode = response.rcode.toU8.toUInt16 ∧
      (s.edns = none ↔ ∀ rr ∈ response.additional, convertEdns rr = none) := by
  obtain ⟨hs, -⟩ := Option.filter_eq_some_iff.mp hs
  rw [convertToHickory] at hs
  obtain ⟨_, -, hs⟩ := Option.bind_eq_some_iff.mp hs
  obtain ⟨_, -, hs⟩ := Option.bind_eq_some_iff.mp hs
  obtain ⟨_, -, hs⟩ := Option.bind_eq_some_iff.mp hs
  obtain ⟨_, -, hs⟩ := Option.bind_eq_some_iff.mp hs
  cases Option.some.inj hs
  refine ⟨rfl, ?_⟩
  dsimp only
  rw [List.getLast?_eq_none_iff, List.filterMap_eq_nil_iff]

private theorem toUInt16_mod_eq_iff (code : UInt8) : code.toUInt16 % 16 = code.toUInt16 ↔ code < 16 := by
  rw [← UInt16.toNat_inj, UInt16.toNat_mod, UInt8.toNat_toUInt16, UInt8.lt_iff_toNat_lt]
  change code.toNat % 16 = code.toNat ↔ code.toNat < 16
  omega

theorem toU8_convertResponseCode_of_le {code : UInt16} (h : code ≤ 255) :
    (convertResponseCode code).toU8.toUInt16 = code := by
  rw [toU8_convertResponseCode]
  exact if_pos h

/-- Without the EDNS record the code is the same if it fits in the header, or was there alone. -/
theorem decode_rcode_iff {code : UInt8} (hcode : s.rcode = code.toUInt16) (ht : t.rcode = s.rcode)
    (hedns : t.edns = none) :
    (decode toUtf8 t).rcode = (decode toUtf8 s).rcode ↔ s.edns = none ∨ code < 16 := by
  have hle : code.toUInt16 ≤ 255 := by
    rw [UInt16.le_iff_toNat_le, UInt8.toNat_toUInt16]
    exact Nat.le_of_lt_succ code.toNat_lt
  have hmod : code.toUInt16 % 16 ≤ 255 := by
    rw [UInt16.le_iff_toNat_le, UInt16.toNat_mod]
    exact (Nat.le_of_lt (Nat.mod_lt _ (by decide))).trans (by decide)
  change convertResponseCode (if t.edns.isSome then t.rcode else t.rcode % 16) =
    convertResponseCode (if s.edns.isSome then s.rcode else s.rcode % 16) ↔ _
  rw [ht, hcode, hedns]
  cases s.edns with
  | none => exact iff_of_true rfl (.inl rfl)
  | some edns =>
    change convertResponseCode (code.toUInt16 % 16) = convertResponseCode code.toUInt16 ↔ _
    rw [or_iff_right nofun, ← toUInt16_mod_eq_iff]
    constructor
    · intro h
      rw [← toU8_convertResponseCode_of_le hmod, h, toU8_convertResponseCode_of_le hle]
    · exact congrArg convertResponseCode

/-- A response is sent as it should be exactly if it fits, or its header and questions do and the response code stays in the header. -/
theorem fits_fitUdpResponse_iff (toUtf8 : Hickory.Name → String) (limit : Nat)
    (hs : env.serialize response = some s) :
    Fits env toUtf8 limit s (fitUdpResponse env response limit s) ↔
      env.size s ≤ limit ∨ (∃ t, env.serialize (truncated response) = some t ∧ env.size t ≤ limit) ∧
        ((∀ rr ∈ response.additional, convertEdns rr = none) ∨ response.rcode.toU8 < 16) := by
  obtain ⟨hcode, hedns⟩ := serialize_rcode hs
  rw [fitUdpResponse, ← hedns]
  by_cases hfits : env.size s ≤ limit
  · rw [if_pos hfits]
    exact iff_of_true ⟨hfits, .inl rfl⟩ (.inl hfits)
  · rw [if_neg hfits, or_iff_right hfits]
    cases ht : env.serialize (truncated response) with
    | none =>
      refine iff_of_false (fun h => hfits h.size) ?_
      rintro ⟨⟨t, ht', -⟩, -⟩
      cases ht'
    | some t =>
      rw [Option.getD_some]
      have hreduced := serialize_truncated hs ht
      have hrcode : (decode toUtf8 t).rcode = (decode toUtf8 s).rcode ↔
          s.edns = none ∨ response.rcode.toU8 < 16 :=
        decode_rcode_iff hcode (by rw [hreduced]) (by rw [hreduced])
      constructor
      · intro h
        refine ⟨⟨t, rfl, h.size⟩, hrcode.mp ?_⟩
        rcases h.decodes with hsame | hdecoded
        · rw [hsame]
        · exact hdecoded.rcode
      · rintro ⟨⟨t', ht', hsize⟩, hcarried⟩
        cases ht'
        refine ⟨hsize, .inr ?_⟩
        have hsame := hrcode.mpr hcarried
        rw [hreduced] at hsame ⊢
        exact ⟨rfl, rfl, hsame, rfl, rfl, rfl, rfl⟩

/-- What the server sends for a response is as it should be exactly if the response fits, or its header and questions do and the response code stays in the header. -/
theorem encode_fits_iff (env : Env) (toUtf8 : Hickory.Name → String) {request response : Message}
    {s : Hickory.Message} (hs : env.serialize { response with id := request.id } = some s) :
    512 ≤ clientUdpLimit request ∧
      ((∃ sent, encode env request response = some sent ∧ Fits env toUtf8 (clientUdpLimit request) s sent) ↔
        env.size s ≤ clientUdpLimit request ∨
          (∃ t, env.serialize (truncated { response with id := request.id }) = some t ∧
            env.size t ≤ clientUdpLimit request) ∧
          ((∀ rr ∈ response.additional, convertEdns rr = none) ∨ response.rcode.toU8 < 16)) := by
  refine ⟨clientUdpLimit_ge request, ?_⟩
  rw [encode, hs, Option.map_some, ← fits_fitUdpResponse_iff toUtf8 (clientUdpLimit request) hs]
  constructor
  · rintro ⟨sent, hsent, hfits⟩
    cases hsent
    exact hfits
  · intro hfits
    exact ⟨_, rfl, hfits⟩

/-- An encoder that names `a.` by a pointer after the first time, on questions and addresses of that name. -/
def pointing : Env :=
  { Env.answering (.ok Message.new) with
    size := fun h => 13 + 6 * h.queries.length + 16 * h.answers.length }

def asking (n : Nat) : Message := { Message.ask 7 "a." .A with questions := List.replicate n ⟨"a.", .A, .IN⟩ }

/-- A reply with forty addresses is cut. -/
theorem encode_fits_iff_addresses :
    let response := replyTo (asking 1) (asking 1).questions (List.replicate 40 ⟨"a.", .A, .IN, 300, .A 1⟩)
    ∃ s, pointing.serialize { response with id := (asking 1).id } = some s ∧ 512 < pointing.size s ∧
      ∃ sent, encode pointing (asking 1) response = some sent ∧
        Fits pointing (fun _ => "a.") (clientUdpLimit (asking 1)) s sent :=
  ⟨_, rfl, by decide +kernel, (encode_fits_iff pointing (fun _ => "a.") rfl).2.mpr
    (.inr ⟨⟨_, rfl, by decide +kernel⟩, .inr (by decide +kernel)⟩)⟩

/-- Of a hundred questions that are rejected all come back, in 613 bytes, whatever the limit. -/
theorem not_fits_hundred :
    let response := { replyTo (asking 100) (asking 100).questions [] with rcode := .refused }
    ∃ s, pointing.serialize { response with id := (asking 100).id } = some s ∧
      clientUdpLimit (asking 100) = 512 ∧
      ¬ ∃ sent, encode pointing (asking 100) response = some sent ∧
        Fits pointing (fun _ => "a.") 512 s sent := by
  refine ⟨_, rfl, rfl, ?_⟩
  rintro ⟨sent, hsent, hfits⟩
  have hsize := hfits.size
  cases hsent
  revert hsize
  decide +kernel

end UdpServer

end Lazydns
