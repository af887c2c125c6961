import Hacp.Lib.Checks
import Hacp.Secure.Crypto
import Hacp.V2.CanonicalForm

/-!
# What a message signature covers

The signed bytes of a message determine every field of the envelope except the
signature itself: the header text can be read back from the front, and what is
left over is the ciphertext.
-/
namespace Hacp.Secure
open Lib V2

theorem decodeHex_eq_ok {s : String} {bytes : Bytes} :
    decodeHex s = .ok bytes ↔ encodeHex bytes = s := by
  constructor
  · intro h
    unfold decodeHex at h
    rw [guard_eq_ok, not_or, not_not, not_not] at h
    obtain ⟨⟨hlen, hall⟩, hbytes⟩ := h
    rw [length_asBytes_of_lowerHex hall] at hlen
    rw [← Except.ok.inj hbytes, encodeHex, hexText, hexText_hexPairs s.toList hall hlen,
      String.ofList_toList]
  · rintro rfl
    have hall : (encodeHex bytes).toList.all isLowerHex = true :=
      List.all_eq_true.mpr fun c hc => isLowerHex_of_mem_hexText hc
    unfold decodeHex
    rw [guard_eq_ok, not_or, not_not, not_not, length_asBytes_of_lowerHex hall]
    refine ⟨⟨?_, hall⟩, ?_⟩
    · rw [encodeHex, length_hexText]
      omega
    · rw [encodeHex, hexPairs_hexText]

theorem decodeHex_encodeHex (bytes : Bytes) : decodeHex (encodeHex bytes) = .ok bytes :=
  decodeHex_eq_ok.mpr rfl

theorem length_asBytes_encodeHex (bytes : Bytes) :
    (asBytes (encodeHex bytes)).length = bytes.length * 2 := by
  have hall : (encodeHex bytes).toList.all isLowerHex = true :=
    List.all_eq_true.mpr fun c hc => isLowerHex_of_mem_hexText hc
  rw [length_asBytes_of_lowerHex hall, encodeHex, length_hexText, Nat.mul_comm]

theorem fixedHex_encodeHex {bytes : Bytes} {len : ℕ} :
    fixedHex (encodeHex bytes) len = true ↔ bytes.length = len := by
  rw [fixedHex, length_asBytes_encodeHex, decodeHex_encodeHex]
  simp [Except.isOk, Except.toBool]

theorem verify_encodeHex {F : Foreign} (pk : Vector UInt8 32) (input : Bytes)
    (sig : Vector UInt8 64) :
    verify F pk input (encodeHex sig.toList) = F.verifyStrict pk input sig := by
  unfold verify
  rw [decodeHex_encodeHex]
  dsimp only
  rw [dif_pos (by simp)]
  rfl

namespace SecureEnvelope
variable {F : Foreign}

/-- The members that the header text of a message is written from. -/
def aadObject (e : SecureEnvelope) : List (String × Json) :=
  e.toObject.filter fun p => p.1 ≠ "ct" && p.1 ≠ "sig"

theorem aadBytes_eq_ok {e : SecureEnvelope} {bytes : Bytes} :
    e.aadBytes F = .ok bytes ↔ e.header F = .ok () ∧
      ∃ text, canonicalJson (.object e.aadObject) = .ok text ∧ bytes = asBytes text := by
  simp only [aadBytes, bind_eq_ok, mapError_eq_ok, aadObject, Except.ok.injEq, eq_comm (a := bytes)]
  constructor
  · rintro ⟨⟨⟩, h⟩
    exact h
  · exact fun h => ⟨(), h⟩

theorem messageSigningInput_eq_ok {e : SecureEnvelope} {input : Bytes} :
    e.messageSigningInput F = .ok input ↔ e.kind = .msg ∧ ∃ aad ct bytes,
      e.aadBytes F = .ok aad ∧ e.ct = some ct ∧ decodeHex ct = .ok bytes ∧
      input = asBytes "HACP-SECURE/v1/msg" ++ aad ++ bytes := by
  unfold messageSigningInput
  rw [guard_eq_ok, not_not, bind_eq_ok]
  refine and_congr_right fun _ => exists_congr fun aad => ?_
  cases e.ct with
  | none => simp
  | some ct => simp [bind_eq_ok, eq_comm (a := input)]

theorem mem_member {k key : String} {v : Json} {value : Option Json} :
    (k, v) ∈ member key value ↔ k = key ∧ value = some v := by
  cases value with
  | none => simp [member]
  | some w => simp [member, eq_comm]

/-- An integer or a string. -/
abbrev Scalar (v : Json) : Prop := (∃ i : ℤ, v = .number (.integer i)) ∨ ∃ s, v = .string s

theorem toObject_scalar {e : SecureEnvelope} {p : String × Json} (hp : p ∈ e.toObject) :
    Scalar p.2 := by
  obtain ⟨k, v⟩ := p
  simp only [toObject, List.mem_append, List.mem_cons, List.not_mem_nil, or_false, mem_member,
    Prod.mk.injEq, Option.map_eq_some_iff] at hp
  grind

theorem normalizeMembers_scalars {ms : List (String × Json)} (h : ∀ p ∈ ms, Scalar p.2) :
    Json.normalizeMembers ms = ms := by
  have hscalar (p : String × Json) (hp : p ∈ ms) : (p.1, p.2.normalize) = p := by
    rcases h p hp with ⟨i, hi⟩ | ⟨s, hs⟩
    · exact Prod.ext rfl (by simp only [hi, Json.normalize])
    · exact Prod.ext rfl (by simp only [hs, Json.normalize])
  rw [Json.normalizeMembers_eq_map, List.map_congr_left hscalar, List.map_id']

theorem integersOnlyMembers_scalars {ms : List (String × Json)} (h : ∀ p ∈ ms, Scalar p.2) :
    Json.integersOnlyMembers ms = true := by
  rw [Json.integersOnlyMembers_iff]
  intro p hp
  rcases h p hp with ⟨i, hi⟩ | ⟨s, hs⟩
  · rw [hi]; rfl
  · rw [hs]; rfl

theorem aadObject_scalar {e : SecureEnvelope} {p : String × Json} (hp : p ∈ e.aadObject) :
    Scalar p.2 :=
  toObject_scalar (List.mem_of_mem_filter hp)

theorem mem_aadObject {e : SecureEnvelope} {k : String} {v : Json} :
    (k, v) ∈ e.aadObject ↔
      (k = "v" ∧ v = .number (.integer e.v.toNat)) ∨ (k = "kind" ∧ v = .string e.kind.text) ∨
      (k = "from" ∧ v = .string e.from_) ∨ (k = "to" ∧ v = .string e.to_) ∨
      (k = "contract" ∧ v = .string e.contract) ∨ (k = "sid" ∧ e.sid.map .string = some v) ∨
      (k = "seq" ∧ e.seq.map (fun n => .number (.integer n.toNat)) = some v) ∨
      (k = "epub" ∧ e.epub.map .string = some v) ∨
      (k = "nonce" ∧ e.nonce.map .string = some v) ∨ (k = "ts" ∧ e.ts.map .string = some v) := by
  simp only [aadObject, toObject, List.mem_filter, List.mem_append, List.mem_cons,
    List.not_mem_nil, or_false, mem_member, Prod.mk.injEq]
  simp only [Bool.and_eq_true, decide_eq_true_eq]
  constructor
  · rintro ⟨h, hct, hsig⟩
    grind
  · intro h
    refine ⟨by grind, ?_⟩
    rcases h with ⟨rfl, -⟩ | ⟨rfl, -⟩ | ⟨rfl, -⟩ | ⟨rfl, -⟩ | ⟨rfl, -⟩ | ⟨rfl, -⟩ | ⟨rfl, -⟩ |
      ⟨rfl, -⟩ | ⟨rfl, -⟩ | ⟨rfl, -⟩ <;> decide

/-- The header text of an object can be read back from the bytes it begins. -/
theorem canonicalObject_readsBack {ms ns : List (String × Json)} {t u : String} {r s : Bytes}
    (ht : canonicalJson (.object ms) = .ok t) (hu : canonicalJson (.object ns) = .ok u)
    (h : asBytes t ++ r = asBytes u ++ s) :
    (Json.normalizeMembers ms).Perm (Json.normalizeMembers ns) ∧ r = s := by
  have hms := (canonicalJson_isOk_iff _).mp ⟨t, ht⟩
  have hns := (canonicalJson_isOk_iff _).mp ⟨u, hu⟩
  rw [canonicalJson_ok hms] at ht
  rw [canonicalJson_ok hns] at hu
  have htext := congrArg String.toList (Except.ok.inj ht)
  have hutext := congrArg String.toList (Except.ok.inj hu)
  rw [String.toList_ofList] at htext hutext
  have hread (r' s' : List Char) (hrs : t.toList ++ r' = u.toList ++ s') :
      Json.sortMembers (Json.normalizeMembers ms) = Json.sortMembers (Json.normalizeMembers ns) ∧
        r' = s' := by
    rw [← htext, ← hutext] at hrs
    have hboth := (normalize_integersOnly _).trans hms
    have hboth' := (normalize_integersOnly _).trans hns
    exact object_readsBack (plainMembers_readsBack _ hboth) hboth hboth' hrs
  have hperm (hsort : Json.sortMembers (Json.normalizeMembers ms) =
      Json.sortMembers (Json.normalizeMembers ns)) :
      (Json.normalizeMembers ms).Perm (Json.normalizeMembers ns) :=
    (Json.sortMembers_perm _).symm.trans (hsort ▸ Json.sortMembers_perm _)
  rcases flatMap_comparable utf8_prefixFree h with ⟨zs, hzs, hr⟩ | ⟨zs, hzs, hs⟩
  · obtain ⟨hsort, rfl⟩ := hread zs [] (by rw [hzs, List.append_nil])
    exact ⟨hperm hsort, hr⟩
  · obtain ⟨hsort, rfl⟩ := hread [] zs (by rw [hzs, List.append_nil])
    exact ⟨hperm hsort, hs.symm⟩

/-- Every header has a canonical text: its numbers are integers. -/
theorem aadBytes_of_header {e : SecureEnvelope} (h : e.header F = .ok ()) :
    ∃ bytes, e.aadBytes F = .ok bytes := by
  obtain ⟨text, htext⟩ := (canonicalJson_isOk_iff (.object e.aadObject)).mpr
    (integersOnlyMembers_scalars fun _ => aadObject_scalar)
  exact ⟨_, aadBytes_eq_ok.mpr ⟨h, text, htext, rfl⟩⟩

theorem aadObject_inj {e e' : SecureEnvelope} (h : e.aadObject.Perm e'.aadObject) :
    e.v = e'.v ∧ e.kind = e'.kind ∧ e.from_ = e'.from_ ∧ e.to_ = e'.to_ ∧
      e.contract = e'.contract ∧ e.sid = e'.sid ∧ e.seq = e'.seq ∧ e.epub = e'.epub ∧
      e.nonce = e'.nonce ∧ e.ts = e'.ts := by
  have hmem (k : String) (v : Json) := h.mem_iff (a := (k, v))
  simp only [mem_aadObject] at hmem
  have hkind : e.kind.text = e'.kind.text := by
    simpa using (hmem "kind" (.string e.kind.text)).mp (by simp)
  refine ⟨?_, ?_, ?_, ?_, ?_, ?_, ?_, ?_, ?_, ?_⟩
  · have hv := (hmem "v" (.number (.integer e.v.toNat))).mp (by simp)
    exact UInt8.toNat_inj.mp (by simpa using hv)
  · revert hkind
    cases e.kind <;> cases e'.kind <;> simp [Kind.text]
  · simpa using (hmem "from" (.string e.from_)).mp (by simp)
  · simpa using (hmem "to" (.string e.to_)).mp (by simp)
  · simpa using (hmem "contract" (.string e.contract)).mp (by simp)
  · ext s
    simpa using hmem "sid" (.string s)
  · ext n
    simpa [UInt64.toNat_inj] using hmem "seq" (.number (.integer n.toNat))
  · ext s
    simpa using hmem "epub" (.string s)
  · ext s
    simpa using hmem "nonce" (.string s)
  · ext s
    simpa using hmem "ts" (.string s)

/-- Two messages with one signing input agree on every field but the signature. -/
theorem messageSigningInput_inj {e e' : SecureEnvelope} {input : Bytes}
    (h : e.messageSigningInput F = .ok input) (h' : e'.messageSigningInput F = .ok input) :
    { e with sig := none } = { e' with sig := none } := by
  obtain ⟨hkind, aad, ct, bytes, haad, hct, hbytes, rfl⟩ := messageSigningInput_eq_ok.mp h
  obtain ⟨hkind', aad', ct', bytes', haad', hct', hbytes', hinput⟩ :=
    messageSigningInput_eq_ok.mp h'
  obtain ⟨-, text, htext, rfl⟩ := aadBytes_eq_ok.mp haad
  obtain ⟨-, text', htext', rfl⟩ := aadBytes_eq_ok.mp haad'
  rw [List.append_assoc, List.append_assoc] at hinput
  obtain ⟨hperm, rfl⟩ :=
    canonicalObject_readsBack htext htext' (List.append_cancel_left hinput)
  rw [normalizeMembers_scalars fun _ => aadObject_scalar,
    normalizeMembers_scalars fun _ => aadObject_scalar] at hperm
  have hctext : e.ct = e'.ct := by
    rw [hct, hct', ← decodeHex_eq_ok.mp hbytes, ← decodeHex_eq_ok.mp hbytes']
  obtain ⟨hv, -, hfrom, hto, hcontract, hsid, hseq, hepub, hnonce, hts⟩ := aadObject_inj hperm
  cases e
  cases e'
  simp_all

end SecureEnvelope
end Hacp.Secure
