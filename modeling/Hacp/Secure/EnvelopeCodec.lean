import Hacp.Lib.Lookup
import Hacp.Secure.SigningInput
import Hacp.V2.JsonReader

/-!
# The envelope codec

An envelope is written as its canonical text and read by the derived deserializer of
its type, which takes an object of the known fields or a list of the fields in the
order they are declared. The JSON parser is a parameter: it hands over the members of
an object as they are written, repeated keys included.
-/
namespace Hacp.Secure
open Lib V2

def Kind.ofText : String → Option Kind
  | "hello" => some .hello
  | "ack" => some .ack
  | "msg" => some .msg
  | _ => none

/-- A unit variant is its name, or an object that maps its name to `null`. -/
def Kind.ofJson : Json → Option Kind
  | .string s => ofText s
  | .object [(name, .null)] => ofText name
  | _ => none

def asU8 : Json → Option UInt8
  | .number (.integer value) =>
    if 0 ≤ value ∧ value < 2 ^ 8 then some (UInt8.ofNat value.toNat) else none
  | _ => none

/-- An absent optional member is allowed; a member that is there has to be read, so an
explicit `null` is not. -/
def present {α : Type} (read : Json → Option α) : Option Json → Option (Option α)
  | none => some none
  | some v => (read v).map some

namespace SecureEnvelope
variable (F : Foreign) (parse : Bytes → Option Json)

def fields : List String :=
  ["v", "kind", "from", "to", "contract", "sid", "seq", "epub", "nonce", "sig", "ct", "ts"]

def ofFields (get : String → Option Json) : Option SecureEnvelope := do
  let v ← (get "v").bind asU8
  let kind ← (get "kind").bind Kind.ofJson
  let from_ ← (get "from").bind Json.asStr
  let to_ ← (get "to").bind Json.asStr
  let contract ← (get "contract").bind Json.asStr
  let sid ← present Json.asStr (get "sid")
  let seq ← present Json.asU64 (get "seq")
  let epub ← present Json.asStr (get "epub")
  let nonce ← present Json.asStr (get "nonce")
  let sig ← present Json.asStr (get "sig")
  let ct ← present Json.asStr (get "ct")
  let ts ← present Json.asStr (get "ts")
  some { v, kind, from_, to_, contract, sid, seq, epub, nonce, sig, ct, ts }

/-- `#[derive(Deserialize)]` with `deny_unknown_fields`. -/
def ofJson : Json → Option SecureEnvelope
  | .object members =>
    if (members.map Prod.fst).Nodup ∧ ∀ p ∈ members, p.1 ∈ fields then
      ofFields fun key => members.lookup key
    else none
  | .array items =>
    -- an array that ends early leaves the remaining fields without a value
    if items.length ≤ fields.length then ofFields fun key => (fields.zip items).lookup key
    else none
  | _ => none

def fromJson (bytes : Bytes) : Except SecureError SecureEnvelope :=
  match (parse bytes).bind ofJson with
  | none => .error .schemaViolation
  | some env => do
    env.validate F
    .ok env

def canonicalBytes (e : SecureEnvelope) : Except SecureError Bytes := do
  e.validate F
  let canonical ← (canonicalJson (.object e.toObject)).mapError fun _ => .schemaViolation
  .ok (asBytes canonical)

/-! ## Reading the fields of an object -/

variable {F parse}

theorem fromJson_eq_ok {bytes : Bytes} {e : SecureEnvelope} :
    fromJson F parse bytes = .ok e ↔
      (∃ v, parse bytes = some v ∧ ofJson v = some e) ∧ e.validate F = .ok () := by
  rw [← Option.bind_eq_some_iff]
  unfold fromJson
  cases (parse bytes).bind ofJson with
  | none => simp
  | some env =>
    simp only [bind_eq_ok, Except.ok.injEq, Option.some.injEq]
    constructor
    · rintro ⟨⟨⟩, hvalid, rfl⟩
      exact ⟨rfl, hvalid⟩
    · rintro ⟨rfl, hvalid⟩
      exact ⟨(), hvalid, rfl⟩

theorem canonicalBytes_eq_ok {e : SecureEnvelope} {bytes : Bytes} :
    e.canonicalBytes F = .ok bytes ↔ e.validate F = .ok () ∧
      ∃ text, canonicalJson (.object e.toObject) = .ok text ∧ bytes = asBytes text := by
  simp only [canonicalBytes, bind_eq_ok, mapError_eq_ok, Except.ok.injEq, eq_comm (a := bytes)]
  constructor
  · rintro ⟨⟨⟩, h⟩
    exact h
  · exact fun h => ⟨(), h⟩

theorem ofFields_eq_some {get : String → Option Json} {e : SecureEnvelope} :
    ofFields get = some e ↔
      (get "v").bind asU8 = some e.v ∧ (get "kind").bind Kind.ofJson = some e.kind ∧
      (get "from").bind Json.asStr = some e.from_ ∧ (get "to").bind Json.asStr = some e.to_ ∧
      (get "contract").bind Json.asStr = some e.contract ∧
      present Json.asStr (get "sid") = some e.sid ∧ present Json.asU64 (get "seq") = some e.seq ∧
      present Json.asStr (get "epub") = some e.epub ∧
      present Json.asStr (get "nonce") = some e.nonce ∧
      present Json.asStr (get "sig") = some e.sig ∧ present Json.asStr (get "ct") = some e.ct ∧
      present Json.asStr (get "ts") = some e.ts := by
  constructor
  · intro h
    obtain ⟨v, hv, h⟩ := Option.bind_eq_some_iff.mp h
    obtain ⟨kind, hkind, h⟩ := Option.bind_eq_some_iff.mp h
    obtain ⟨from_, hfrom_, h⟩ := Option.bind_eq_some_iff.mp h
    obtain ⟨to_, hto_, h⟩ := Option.bind_eq_some_iff.mp h
    obtain ⟨contract, hcontract, h⟩ := Option.bind_eq_some_iff.mp h
    obtain ⟨sid, hsid, h⟩ := Option.bind_eq_some_iff.mp h
    obtain ⟨seq, hseq, h⟩ := Option.bind_eq_some_iff.mp h
    obtain ⟨epub, hepub, h⟩ := Option.bind_eq_some_iff.mp h
    obtain ⟨nonce, hnonce, h⟩ := Option.bind_eq_some_iff.mp h
    obtain ⟨sig, hsig, h⟩ := Option.bind_eq_some_iff.mp h
    obtain ⟨ct, hct, h⟩ := Option.bind_eq_some_iff.mp h
    obtain ⟨ts, hts, h⟩ := Option.bind_eq_some_iff.mp h
    obtain rfl := Option.some.inj h
    exact ⟨hv, hkind, hfrom_, hto_, hcontract, hsid, hseq, hepub, hnonce, hsig, hct, hts⟩
  · rintro ⟨hv, hkind, hfrom, hto, hcontract, hsid, hseq, hepub, hnonce, hsig, hct, hts⟩
    simp only [ofFields, hv, hkind, hfrom, hto, hcontract, hsid, hseq, hepub, hnonce, hsig, hct,
      hts, Option.bind_eq_bind, Option.bind_some]

theorem asU8_eq_some {v : Json} {n : UInt8} :
    asU8 v = some n ↔ v = .number (.integer n.toNat) := by
  have hn := n.toNat_lt
  constructor
  · intro h
    unfold asU8 at h
    split at h
    · rename_i i
      split_ifs at h with hi
      rw [← Option.some.inj h, UInt8.toNat_ofNat', Nat.mod_eq_of_lt (by omega),
        Int.toNat_of_nonneg hi.1]
    · cases h
  · rintro rfl
    simp only [asU8, Int.toNat_natCast, UInt8.ofNat_toNat]
    exact if_pos (by omega)

theorem asU64_eq_some {v : Json} {n : UInt64} :
    v.asU64 = some n ↔ v = .number (.integer n.toNat) := by
  have hn := n.toNat_lt
  constructor
  · intro h
    unfold Json.asU64 at h
    split at h
    · rename_i i
      split_ifs at h with hi
      rw [← Option.some.inj h, UInt64.toNat_ofNat', Nat.mod_eq_of_lt (by omega),
        Int.toNat_of_nonneg hi.1]
    · cases h
  · rintro rfl
    simp only [Json.asU64, Int.toNat_natCast, UInt64.ofNat_toNat]
    exact if_pos (by omega)

theorem kindOfText_eq_some {s : String} {k : Kind} : Kind.ofText s = some k ↔ s = k.text := by
  constructor
  · intro h
    unfold Kind.ofText at h
    split at h
    case h_4 => cases h
    all_goals
      rw [← Option.some.inj h]
      rfl
  · rintro rfl
    cases k <;> rfl

/-- A reader that undoes a writer reads an optional member when it was written. -/
theorem present_eq_some {α : Type} {read : Json → Option α} {write : α → Json}
    (h : ∀ v a, read v = some a ↔ v = write a) {value : Option Json} {o : Option α} :
    present read value = some o ↔ value = o.map write := by
  cases value with
  | none => cases o <;> simp [present]
  | some v => cases o <;> simp [present, h]

structure Holds (get : String → Option Json) (e : SecureEnvelope) : Prop where
  v : get "v" = some (.number (.integer e.v.toNat))
  kind : get "kind" = some (.string e.kind.text)
  from_ : get "from" = some (.string e.from_)
  to_ : get "to" = some (.string e.to_)
  contract : get "contract" = some (.string e.contract)
  sid : get "sid" = e.sid.map .string
  seq : get "seq" = e.seq.map fun n => .number (.integer n.toNat)
  epub : get "epub" = e.epub.map .string
  nonce : get "nonce" = e.nonce.map .string
  sig : get "sig" = e.sig.map .string
  ct : get "ct" = e.ct.map .string
  ts : get "ts" = e.ts.map .string

theorem kindOfJson_eq_some {v : Json} {k : Kind} : Kind.ofJson v = some k ↔
    v = .string k.text ∨ v = .object [(k.text, .null)] := by
  constructor
  · intro h
    unfold Kind.ofJson at h
    split at h
    · exact .inl (by rw [kindOfText_eq_some.mp h])
    · exact .inr (by rw [kindOfText_eq_some.mp h])
    · cases h
  · rintro (rfl | rfl)
    · exact kindOfText_eq_some.mpr rfl
    · exact kindOfText_eq_some.mpr rfl

/-- Fields are read when they hold the values of the envelope, unless its kind is an object. -/
theorem ofFields_iff_holds {get : String → Option Json} {e : SecureEnvelope}
    (hkind : ∀ name, get "kind" ≠ some (.object [(name, .null)])) :
    ofFields get = some e ↔ Holds get e := by
  have hkindOf : (get "kind").bind Kind.ofJson = some e.kind ↔
      get "kind" = some (.string e.kind.text) := by
    rw [Option.bind_eq_some_iff]
    simp only [kindOfJson_eq_some]
    constructor
    · rintro ⟨v, hv, rfl | rfl⟩
      · exact hv
      · exact absurd hv (hkind _)
    · exact fun h => ⟨_, h, .inl rfl⟩
  rw [ofFields_eq_some, hkindOf, Json.bind_eq_some_write fun _ _ => asU8_eq_some]
  simp only [Json.bind_eq_some_write fun _ _ => Json.asStr_eq_some,
    present_eq_some fun _ _ => Json.asStr_eq_some,
    present_eq_some fun _ _ => asU64_eq_some]
  constructor
  · rintro ⟨hv, hk, hfrom, hto, hcontract, hsid, hseq, hepub, hnonce, hsig, hct, hts⟩
    exact ⟨hv, hk, hfrom, hto, hcontract, hsid, hseq, hepub, hnonce, hsig, hct, hts⟩
  · intro h
    exact ⟨h.v, h.kind, h.from_, h.to_, h.contract, h.sid, h.seq, h.epub, h.nonce, h.sig, h.ct, h.ts⟩

/-! ## What is written is read back -/

theorem lookup_member (key k : String) (value : Option Json) :
    (member key value).lookup k = if k = key then value else none := by
  cases value with
  | none => simp [member]
  | some v => exact pairs_lookup_cons key k v []

theorem holds_toObject (e : SecureEnvelope) : Holds (fun key => e.toObject.lookup key) e := by
  constructor <;> simp [toObject, List.lookup_append, lookup_member, List.lookup_cons]

theorem ofFields_toObject (e : SecureEnvelope) :
    ofFields (fun key => e.toObject.lookup key) = some e := by
  have hkind := (holds_toObject e).kind
  exact (ofFields_iff_holds fun name => by simp [hkind]).mpr (holds_toObject e)

theorem toObject_keys (e : SecureEnvelope) : (e.toObject.map Prod.fst).Sublist fields := by
  have hkey (key : String) (value : Option Json) :
      ((member key value).map Prod.fst).Sublist [key] := by
    cases value with
    | none => exact List.nil_sublist _
    | some v => exact List.Sublist.refl _
  simp only [toObject, List.map_append]
  exact (((((((List.Sublist.refl _).append (hkey "sid" _)).append (hkey "seq" _)).append
    (hkey "epub" _)).append (hkey "nonce" _)).append (hkey "sig" _)).append (hkey "ct" _)).append
    (hkey "ts" _)

theorem toObject_distinct (e : SecureEnvelope) : (e.toObject.map Prod.fst).Nodup :=
  (toObject_keys e).nodup (by decide)

/-- The order of the members does not matter to the reader. -/
theorem ofJson_sorted (e : SecureEnvelope) :
    ofJson (.object (Json.sortMembers e.toObject)) = some e := by
  have hperm := Json.sortMembers_perm e.toObject
  have hkeys := hperm.map Prod.fst
  have hdistinct : ((Json.sortMembers e.toObject).map Prod.fst).Nodup :=
    hkeys.nodup_iff.mpr (toObject_distinct e)
  have hknown : ∀ p ∈ Json.sortMembers e.toObject, p.1 ∈ fields := fun p hp =>
    (toObject_keys e).subset (hkeys.mem_iff.mp (List.mem_map_of_mem hp))
  have hget : (fun key => (Json.sortMembers e.toObject).lookup key) =
      fun key => e.toObject.lookup key :=
    funext (pairs_lookup_perm hdistinct hperm)
  rw [ofJson, if_pos ⟨hdistinct, hknown⟩, hget, ofFields_toObject]

theorem depthMembers_scalars {ms : List (String × Json)} (h : ∀ p ∈ ms, Scalar p.2) :
    Json.depthMembers ms = 0 := by
  induction ms with
  | nil => rfl
  | cons p ms ih =>
    have hrest := ih fun q hq => h q (List.mem_cons_of_mem _ hq)
    rcases h p List.mem_cons_self with ⟨i, hi⟩ | ⟨s, hs⟩
    · rw [Json.depthMembers, hrest, hi]; rfl
    · rw [Json.depthMembers, hrest, hs]; rfl

/-- No member of an envelope has the name kept for numbers. -/
theorem unmarked_toObject (e : SecureEnvelope) :
    (Json.object (Json.sortMembers e.toObject)).unmarked = true := by
  refine (Json.unmarkedMembers_iff _).mpr fun p hp => ?_
  have hmem := (Json.sortMembers_perm e.toObject).mem_iff.mp hp
  refine ⟨fun hkey => ?_, ?_⟩
  · have hfield := (toObject_keys e).subset (List.mem_map_of_mem hmem)
    rw [hkey] at hfield
    exact absurd hfield (by decide)
  · rcases toObject_scalar hmem with ⟨i, hi⟩ | ⟨s, hs⟩
    · rw [hi]; rfl
    · rw [hs]; rfl

/-- The canonical text of an envelope denotes the object of its members in key order. -/
theorem canonicalText_denotes (e : SecureEnvelope) :
    ∃ w, canonicalJson (.object e.toObject) = .ok (String.ofList w) ∧
      Denotes 127 w (.object (Json.sortMembers e.toObject)) := by
  have hscalars : ∀ p ∈ e.toObject, Scalar p.2 := fun p => toObject_scalar
  have hsorted : ∀ p ∈ Json.sortMembers e.toObject, Scalar p.2 := fun p hp =>
    hscalars p ((Json.sortMembers_perm _).mem_iff.mp hp)
  have hnormal : (Json.object e.toObject).normalize = .object (Json.sortMembers e.toObject) := by
    rw [Json.normalize, normalizeMembers_scalars hscalars]
  refine ⟨plainText (.object (Json.sortMembers e.toObject)), ?_, ?_⟩
  · have hintegers : (Json.object e.toObject).integersOnly = true :=
      integersOnlyMembers_scalars hscalars
    rw [canonicalJson_ok hintegers, hnormal]
  · have hdepth : (Json.object (Json.sortMembers e.toObject)).depth = 1 := by
      rw [Json.depth, depthMembers_scalars hsorted]
    exact plainText_denotes _ (integersOnlyMembers_scalars hsorted) (by omega)

theorem fromJson_canonicalBytes (hparse : ReadsJson parse) {e : SecureEnvelope}
    (h : e.validate F = .ok ()) :
    ∃ bytes, e.canonicalBytes F = .ok bytes ∧ fromJson F parse bytes = .ok e := by
  obtain ⟨w, htext, hdenotes⟩ := canonicalText_denotes e
  refine ⟨asBytes (String.ofList w), canonicalBytes_eq_ok.mpr ⟨h, _, htext, rfl⟩, ?_⟩
  exact fromJson_eq_ok.mpr ⟨⟨_, hparse w _ hdenotes (unmarked_toObject e), ofJson_sorted e⟩, h⟩

/-- Valid envelopes have canonical bytes and are read back from them. So the bytes tell
valid envelopes apart, and an accepted input is read to the same envelope again after it
was written in canonical form. -/
theorem canonical_round_trip (hparse : ReadsJson parse) :
    (∀ e : SecureEnvelope, e.validate F = .ok () →
      ∃ bytes, e.canonicalBytes F = .ok bytes ∧ fromJson F parse bytes = .ok e) ∧
    (∀ e e' : SecureEnvelope, e.validate F = .ok () → e'.validate F = .ok () →
      e.canonicalBytes F = e'.canonicalBytes F → e = e') ∧
    ∀ input e, fromJson F parse input = .ok e →
      ∃ bytes, e.canonicalBytes F = .ok bytes ∧ fromJson F parse bytes = .ok e := by
  refine ⟨fun e => fromJson_canonicalBytes hparse, fun e e' h h' heq => ?_, fun input e h => ?_⟩
  · obtain ⟨bytes, hbytes, hread⟩ := fromJson_canonicalBytes hparse h
    obtain ⟨bytes', hbytes', hread'⟩ := fromJson_canonicalBytes hparse h'
    obtain rfl : bytes = bytes' := Except.ok.inj (hbytes.symm.trans (heq.trans hbytes'))
    exact Except.ok.inj (hread.symm.trans hread')
  · exact fromJson_canonicalBytes hparse (fromJson_eq_ok.mp h).2

def lastMessage : SecureEnvelope where
  v := 1
  kind := .msg
  from_ := "urn:hacp:agent:a"
  to_ := "urn:hacp:agent:b"
  contract := ""
  sid := some (encodeHex (List.replicate 16 0))
  seq := some 18446744073709551615
  epub := none
  nonce := none
  sig := some (encodeHex (List.replicate 64 1))
  ct := some (encodeHex (List.replicate 16 2))
  ts := none

theorem lastMessage_valid : lastMessage.validate Foreign.placeholder = .ok () := by
  rw [validate_eq_ok]
  constructor
  case version => rfl
  case sender => decide
  case recipient => decide
  case sid => exact fun s hs => Option.some.inj hs ▸ fixedHex_encodeHex.mpr rfl
  case sig => exact ⟨_, rfl, fixedHex_encodeHex.mpr rfl⟩
  case ct =>
    intro s hs
    rw [← Option.some.inj hs, length_asBytes_encodeHex, decodeHex_encodeHex]
    exact ⟨by simp, rfl⟩
  all_goals simp [lastMessage]

theorem canonical_round_trip_last :
    ∃ bytes, lastMessage.canonicalBytes Foreign.placeholder = .ok bytes ∧
      fromJson Foreign.placeholder readJson bytes = .ok lastMessage :=
  (canonical_round_trip readJson_reads).1 lastMessage lastMessage_valid

end SecureEnvelope
end Hacp.Secure
