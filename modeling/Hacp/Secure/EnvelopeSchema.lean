import Hacp.Secure.EnvelopeCodec
import Hacp.V2.Schema

/-!
# The published schema of an envelope

`spec/schemas/secure-envelope.json` beside the parser. Field by field they ask the same,
and the conditions on the three kinds are those of `validate`. What the parser accepts
beyond the schema are two ways to write an envelope down: a list of its fields, and a
kind that is an object.
-/
namespace Hacp.Secure
open Lib V2

namespace SecureEnvelope
variable (F : Foreign)

/-- `[0-9a-f]`. -/
def lowerHex : List Char := charRange '0' '9' ++ charRange 'a' 'f'

/-- `[a-z0-9]`. -/
def nameStart : List Char := charRange 'a' 'z' ++ charRange '0' '9'

/-- `^urn:hacp:agent:[a-z0-9][a-z0-9-]*$`. -/
def agentPattern : RegularExpression Char :=
  literal "urn:hacp:agent:".toList * oneOf nameStart * .star (oneOf (nameStart ++ ['-']))

/-- `^[0-9a-f]{n}$`. -/
def hexPattern (n : ℕ) : RegularExpression Char := oneOf lowerHex ^ n

/-- `^sha256:[0-9a-f]{64}$|^$`. -/
def contractPattern : RegularExpression Char := literal "sha256:".toList * hexPattern 64 + 1

/-- `^(?:[0-9a-f]{2}){16,}$`. -/
def ctPattern : RegularExpression Char := atLeast 16 (oneOf lowerHex ^ 2)

open Schema in
def schemaProperties : List (String × Schema) :=
  let text r := allOf [type .string, pattern r]
  [("v", const (.number (.integer 1))),
    ("kind", enum [.string "hello", .string "ack", .string "msg"]),
    ("from", text agentPattern), ("to", text agentPattern), ("contract", text contractPattern),
    ("sid", text (hexPattern 32)),
    ("seq", allOf [type .integer, minimum 0, maximum 18446744073709551615]),
    ("epub", text (hexPattern 64)), ("nonce", text (hexPattern 64)), ("sig", text (hexPattern 128)),
    ("ct", text ctPattern),
    ("ts", allOf [type .string, format fun s => dateTimeMark s && F.rfc3339 s])]

open Schema in
/-- `spec/schemas/secure-envelope.json`, where `date-time` is what the parser checks of it. -/
def schema : Schema :=
  let kindIs name := properties [("kind", const (.string name))]
  let unbound := properties [("contract", const (.string ""))]
  allOf [type .object, noAdditionalProperties ((schemaProperties F).map Prod.fst),
    Schema.required ["v", "kind", "from", "to", "contract"], properties (schemaProperties F),
    ifThen (kindIs "hello") (allOf [Schema.required ["epub", "nonce", "sig"], unbound]),
    ifThen (kindIs "ack") (allOf [Schema.required ["sid", "epub", "nonce", "sig"], unbound]),
    ifThen (kindIs "msg") (Schema.required ["sid", "seq", "ct", "sig"])]

/-! ## The patterns are the checks -/

theorem mem_lowerHex {c : Char} : c ∈ lowerHex ↔ isLowerHex c = true := by
  rw [lowerHex, List.mem_append, mem_charRange (by decide), mem_charRange (by decide)]
  simp only [isLowerHex, Char.isDigit_iff_toNat, Bool.or_eq_true, Bool.and_eq_true,
    decide_eq_true_eq, Char.le_def, UInt32.le_iff_toNat_le]
  exact Iff.rfl

theorem mem_nameStart {c : Char} : c ∈ nameStart ↔ c.isLower = true ∨ c.isDigit = true := by
  have hlower : c.isLower = (decide (c.val ≥ 'a'.val) && decide (c.val ≤ 'z'.val)) := rfl
  rw [nameStart, List.mem_append, mem_charRange (by decide), mem_charRange (by decide)]
  simp only [Char.isDigit_iff_toNat, hlower, Bool.and_eq_true, decide_eq_true_eq, ge_iff_le,
    UInt32.le_iff_toNat_le]
  exact Iff.rfl

theorem decodeHex_isOk {s : String} : (decodeHex s).isOk = true ↔
    s.toList.length % 2 = 0 ∧ ∀ c ∈ s.toList, c ∈ lowerHex := by
  have hclass : s.toList.all isLowerHex = true ↔ ∀ c ∈ s.toList, c ∈ lowerHex := by
    simp only [List.all_eq_true, mem_lowerHex]
  rw [← hclass]
  by_cases hall : s.toList.all isLowerHex = true
  · by_cases hlen : s.toList.length % 2 = 0 <;>
      simp [decodeHex, hall, length_asBytes_of_lowerHex hall, hlen, Except.isOk, Except.toBool]
  · simp [decodeHex, hall, Except.isOk, Except.toBool]

/-- Hexadecimal text has one byte for each character. -/
theorem length_of_decodes {s : String} (h : (decodeHex s).isOk = true) :
    (asBytes s).length = s.toList.length :=
  length_asBytes_of_lowerHex (List.all_eq_true.mpr fun c hc =>
    mem_lowerHex.mp ((decodeHex_isOk.mp h).2 c hc))

theorem fixedHex_iff {s : String} {n : ℕ} :
    fixedHex s n = true ↔ s.toList ∈ (hexPattern (n * 2)).matches' := by
  rw [hexPattern, RegularExpression.matches'_pow, mem_oneOf_pow, fixedHex, Bool.and_eq_true,
    beq_iff_eq]
  constructor
  · rintro ⟨hlen, hok⟩
    rw [length_of_decodes hok] at hlen
    exact ⟨hlen, (decodeHex_isOk.mp hok).2⟩
  · rintro ⟨hlen, hall⟩
    have hok := decodeHex_isOk.mpr ⟨by omega, hall⟩
    exact ⟨(length_of_decodes hok).trans hlen, hok⟩

/-- The first character is no hyphen, so it is a letter or a digit in lower case. -/
theorem urn_iff {s : String} : urn s = true ↔ s.toList ∈ agentPattern.matches' := by
  rw [agentPattern, RegularExpression.matches'_mul, RegularExpression.matches'_mul, Language.mem_mul]
  simp only [Language.mem_mul, mem_literal, mem_oneOf, mem_oneOf_star, urn, Option.any_eq_true,
    Bool.and_eq_true, stripPrefix_eq_some, List.all_eq_true, Bool.or_eq_true, beq_iff_eq,
    List.mem_append, List.mem_singleton, mem_nameStart]
  constructor
  · rintro ⟨name, hs, ⟨c, hc, hfirst⟩, hall⟩
    cases hname : name.toList with
    | nil => simp [hname] at hc
    | cons d rest =>
      obtain rfl : d = c := by simpa [hname] using hc
      rw [hname] at hall hs
      obtain ⟨hd, hrest⟩ := List.forall_mem_cons.mp hall
      have hstart : d.isLower = true ∨ d.isDigit = true := by
        rcases hd with h | rfl
        · exact h
        · exact absurd hfirst (by decide)
      exact ⟨_, ⟨_, rfl, [d], ⟨d, hstart, rfl⟩, rfl⟩, rest, hrest, by rw [hs]; simp⟩
  · rintro ⟨_, ⟨_, rfl, _, ⟨c, hc, rfl⟩, rfl⟩, rest, hrest, hs⟩
    refine ⟨String.ofList (c :: rest), ?_, ?_, ?_⟩
    · rw [String.toList_ofList, ← hs]
      simp
    · rw [String.toList_ofList]
      refine ⟨c, rfl, ?_⟩
      have halpha : c.isAlpha = (c.isUpper || c.isLower) := rfl
      rcases hc with h | h <;> simp [Char.isAlphanum, halpha, h]
    · rw [String.toList_ofList]
      exact List.forall_mem_cons.mpr ⟨.inl hc, hrest⟩

theorem contract_iff {s : String} :
    (s ≠ "" → ∃ t, stripPrefix "sha256:" s = some t ∧ fixedHex t 32 = true) ↔
      s.toList ∈ contractPattern.matches' := by
  have htail (t : List Char) :
      t ∈ (hexPattern 64).matches' ↔ fixedHex (String.ofList t) 32 = true := by
    rw [fixedHex_iff, String.toList_ofList]
  rw [contractPattern, RegularExpression.matches'_add, Language.mem_add,
    RegularExpression.matches'_mul, Language.mem_mul, RegularExpression.matches'_epsilon,
    Language.mem_one]
  simp only [mem_literal, htail]
  constructor
  · intro h
    by_cases hs : s = ""
    · exact .inr (by rw [hs]; rfl)
    · obtain ⟨t, ht, hhex⟩ := h hs
      refine .inl ⟨_, rfl, t.toList, ?_, (stripPrefix_eq_some.mp ht).symm⟩
      rwa [String.ofList_toList]
  · rintro (⟨_, rfl, t, hhex, ht⟩ | hnil) hs
    · have hs := ht.symm.trans (congrArg _ String.toList_ofList.symm)
      exact ⟨String.ofList t, stripPrefix_eq_some.mpr hs, hhex⟩
    · exact absurd (String.toList_inj.mp hnil) hs

theorem ct_iff {s : String} : 32 ≤ (asBytes s).length ∧ (decodeHex s).isOk = true ↔
    s.toList ∈ ctPattern.matches' := by
  rw [ctPattern, mem_atLeast_pow]
  constructor
  · rintro ⟨hlen, hok⟩
    rw [length_of_decodes hok] at hlen
    obtain ⟨heven, hall⟩ := decodeHex_isOk.mp hok
    exact ⟨Nat.dvd_of_mod_eq_zero heven, hlen, hall⟩
  · rintro ⟨heven, hlen, hall⟩
    have hok := decodeHex_isOk.mpr ⟨Nat.mod_eq_zero_of_dvd heven, hall⟩
    exact ⟨by rw [length_of_decodes hok]; exact hlen, hok⟩

/-! ## An object meets the schema when its members are those of a valid envelope -/

theorem kind_iff {v : Json} :
    Schema.enum [.string "hello", .string "ack", .string "msg"] v ↔
      ∃ k : Kind, v = .string k.text := by
  simp only [Schema.enum, List.exists_mem_cons_iff, List.not_mem_nil, false_and, exists_false,
    or_false, Schema.sameValue_string]
  constructor
  · rintro (rfl | rfl | rfl)
    · exact ⟨.hello, rfl⟩
    · exact ⟨.ack, rfl⟩
    · exact ⟨.msg, rfl⟩
  · rintro ⟨k, rfl⟩
    cases k <;> simp [Kind.text]

theorem seq_iff {v : Json} :
    Schema.type .integer v ∧ Schema.minimum 0 v ∧ Schema.maximum 18446744073709551615 v ↔
      ∃ n : UInt64, v = .number (.integer n.toNat) := by
  rw [Schema.bounded_iff]
  constructor
  · rintro ⟨i, rfl, hlo, hhi⟩
    refine ⟨UInt64.ofNat i.toNat, ?_⟩
    rw [UInt64.toNat_ofNat', Nat.mod_eq_of_lt (by omega), Int.toNat_of_nonneg hlo]
  · rintro ⟨n, rfl⟩
    have hn := n.toNat_lt
    exact ⟨_, rfl, by omega, by omega⟩

theorem kinds_iff {get : String → Option Json} {e : SecureEnvelope} (hget : Holds get e) :
    (((∀ v, get "kind" = some v → v = .string "hello") →
        ((∃ v, get "epub" = some v) ∧ (∃ v, get "nonce" = some v) ∧ ∃ v, get "sig" = some v) ∧
          ∀ v, get "contract" = some v → v = .string "") ∧
      ((∀ v, get "kind" = some v → v = .string "ack") →
        ((∃ v, get "sid" = some v) ∧ (∃ v, get "epub" = some v) ∧ (∃ v, get "nonce" = some v) ∧
            ∃ v, get "sig" = some v) ∧ ∀ v, get "contract" = some v → v = .string "") ∧
      ((∀ v, get "kind" = some v → v = .string "msg") →
        (∃ v, get "sid" = some v) ∧ (∃ v, get "seq" = some v) ∧ (∃ v, get "ct" = some v) ∧
          ∃ v, get "sig" = some v)) ↔
    e.sig ≠ none ∧ (e.kind ≠ .msg → e.contract = "" ∧ e.epub ≠ none ∧ e.nonce ≠ none) ∧
      (e.kind ≠ .hello → e.sid ≠ none) ∧ (e.kind = .msg → e.seq ≠ none ∧ e.ct ≠ none) := by
  have hthere {α : Type} (o : Option α) (write : α → Json) :
      (∃ v, o.map write = some v) ↔ o ≠ none := by
    cases o <;> simp
  simp only [hget.kind, hget.contract, hget.sid, hget.seq, hget.epub, hget.nonce, hget.sig, hget.ct,
    hthere, Option.some.injEq, forall_eq', Json.string.injEq]
  cases e.kind with
  | hello => simp [Kind.text]; tauto
  | ack => simp [Kind.text]; tauto
  | msg => simp [Kind.text]; tauto

theorem schema_object_iff {members : List (String × Json)} : schema F (.object members) ↔
    (∀ m ∈ members, m.1 ∈ fields) ∧
      ∃ e, Holds (fun key => members.lookup key) e ∧ e.Valid F := by
  simp only [schema, Schema.allOf, List.forall_mem_cons, List.not_mem_nil, IsEmpty.forall_iff,
    implies_true, and_true, Schema.noAdditionalProperties, Schema.required, Schema.properties,
    Schema.ifThen, schemaProperties, List.map_cons, List.map_nil, Schema.text_iff,
    Schema.formatted_iff, seq_iff, kind_iff, Schema.const, Schema.sameValue_integer,
    Schema.sameValue_string, Schema.optional_iff]
  have hwritten {o : Option String} {x : Option Json} (hx : x = o.map Json.string)
      (h : ∃ v, x = some v) : ∃ s, o = some s := by
    obtain ⟨v, hv⟩ := h
    obtain ⟨s, hs, -⟩ := Option.map_eq_some_iff.mp (hx.symm.trans hv)
    exact ⟨s, hs⟩
  constructor
  · rintro ⟨-, hnames, ⟨⟨v, hv⟩, ⟨kind, hkind⟩, hfrom, hto, hcontract⟩, ⟨hversion, hkinds,
      ⟨from?, hfrom?, hsender⟩, ⟨to?, hto?, hrecipient⟩, ⟨contract?, hcontract?, hbound⟩,
      ⟨sid, hsid, hsidhex⟩, hseq, ⟨epub, hepub, hepubhex⟩, ⟨nonce, hnonce, hnoncehex⟩,
      ⟨sig, hsig, hsighex⟩, ⟨ct, hct, hcthex⟩, ⟨ts, hts, hdate⟩⟩, hconditions⟩
    obtain rfl := hversion v hv
    obtain ⟨k, rfl⟩ := hkinds kind hkind
    obtain ⟨from_, rfl⟩ := hwritten hfrom? hfrom
    obtain ⟨to_, rfl⟩ := hwritten hto? hto
    obtain ⟨contract, rfl⟩ := hwritten hcontract? hcontract
    obtain ⟨seq, hseq, -⟩ := Schema.optional_iff.mp fun v hv =>
      (hseq v hv).imp fun n hn => ⟨hn, trivial⟩
    have hget : Holds (fun key => members.lookup key)
        ⟨1, k, from_, to_, contract, sid, seq, epub, nonce, sig, ct, ts⟩ :=
      ⟨hv, hkind, hfrom?, hto?, hcontract?, hsid, hseq, hepub, hnonce, hsig, hct, hts⟩
    obtain ⟨hsigned, hshake, hsession, hdata⟩ := (kinds_iff hget).mp hconditions
    obtain ⟨g, rfl⟩ := Option.ne_none_iff_exists'.mp hsigned
    refine ⟨hnames, _, hget, rfl, urn_iff.mpr (hsender _ rfl), urn_iff.mpr (hrecipient _ rfl),
      contract_iff.mpr (hbound _ rfl), fun s hs => fixedHex_iff.mpr (hsidhex s hs),
      fun s hs => fixedHex_iff.mpr (hepubhex s hs), fun s hs => fixedHex_iff.mpr (hnoncehex s hs),
      ⟨g, rfl, fixedHex_iff.mpr (hsighex g rfl)⟩, fun s hs => ct_iff.mpr (hcthex s hs),
      fun s hs => Bool.and_eq_true_iff.mp (hdate s hs), hshake, hsession, hdata⟩
  · rintro ⟨hnames, e, hget, hvalid⟩
    obtain ⟨sig, hsig, hsighex⟩ := hvalid.sig
    have hsigned : e.sig ≠ none := by simp [hsig]
    refine ⟨rfl, hnames, ⟨⟨_, hget.v⟩, ⟨_, hget.kind⟩, ⟨_, hget.from_⟩, ⟨_, hget.to_⟩,
      ⟨_, hget.contract⟩⟩, ⟨?_, ?_, ⟨some e.from_, hget.from_, ?_⟩, ⟨some e.to_, hget.to_, ?_⟩,
      ⟨some e.contract, hget.contract, ?_⟩, ⟨e.sid, hget.sid, ?_⟩, ?_, ⟨e.epub, hget.epub, ?_⟩,
      ⟨e.nonce, hget.nonce, ?_⟩, ⟨e.sig, hget.sig, ?_⟩, ⟨e.ct, hget.ct, ?_⟩,
      ⟨e.ts, hget.ts, ?_⟩⟩,
      (kinds_iff hget).mpr ⟨hsigned, hvalid.handshake, hvalid.session, hvalid.data⟩⟩
    case refine_1 =>
      intro v hv
      rw [← Option.some.inj (hget.v.symm.trans hv), hvalid.version]
      rfl
    case refine_2 => exact fun v hv => ⟨e.kind, (Option.some.inj (hget.kind.symm.trans hv)).symm⟩
    case refine_3 => exact fun s hs => urn_iff.mp (Option.some.inj hs ▸ hvalid.sender)
    case refine_4 => exact fun s hs => urn_iff.mp (Option.some.inj hs ▸ hvalid.recipient)
    case refine_5 => exact fun s hs => contract_iff.mp (Option.some.inj hs ▸ hvalid.contract)
    case refine_6 => exact fun s hs => fixedHex_iff.mp (hvalid.sid s hs)
    case refine_7 =>
      intro v hv
      obtain ⟨n, -, rfl⟩ := Option.map_eq_some_iff.mp (hget.seq.symm.trans hv)
      exact ⟨n, rfl⟩
    case refine_8 => exact fun s hs => fixedHex_iff.mp (hvalid.epub s hs)
    case refine_9 => exact fun s hs => fixedHex_iff.mp (hvalid.nonce s hs)
    case refine_10 =>
      exact fun s hs => fixedHex_iff.mp (Option.some.inj (hsig.symm.trans hs) ▸ hsighex)
    case refine_11 => exact fun s hs => ct_iff.mp (hvalid.ct s hs)
    case refine_12 => exact fun s hs => Bool.and_eq_true_iff.mpr (hvalid.ts s hs)

/-! ## The two other ways to write an envelope -/

def tagName : Json → Json
  | .object [(name, .null)] => .string name
  | v => v

def plainKind (p : String × Json) : String × Json :=
  (p.1, if p.1 = "kind" then tagName p.2 else p.2)

/-- The object of the fields that a list of them stands for, its kind written as a name. -/
def objectForm : Json → Json
  | .object members => .object (members.map plainKind)
  | .array items =>
    if items.length ≤ fields.length then .object ((fields.zip items).map plainKind)
    else .array items
  | v => v

theorem kindOfJson_tagName (v : Json) : Kind.ofJson (tagName v) = Kind.ofJson v := by
  unfold tagName
  split
  · rfl
  · rfl

theorem tagName_ne (v : Json) (name : String) : tagName v ≠ .object [(name, .null)] := by
  unfold tagName
  split
  · simp
  · rename_i h
    rintro rfl
    exact h name rfl

theorem lookup_plainKind (members : List (String × Json)) (key : String) :
    (members.map plainKind).lookup key =
      (members.lookup key).map fun v => if key = "kind" then tagName v else v :=
  pairs_lookup_map (fun key v => if key = "kind" then tagName v else v) members key

theorem ofFields_plainKind (members : List (String × Json)) :
    ofFields (fun key => (members.map plainKind).lookup key) =
      ofFields fun key => members.lookup key := by
  have hother (key : String) (h : key ≠ "kind") :
      (members.map plainKind).lookup key = members.lookup key := by
    rw [lookup_plainKind]
    simp only [if_neg h, Option.map_id']
  have hkind : ((members.map plainKind).lookup "kind").bind Kind.ofJson =
      (members.lookup "kind").bind Kind.ofJson := by
    rw [lookup_plainKind]
    cases members.lookup "kind" with
    | none => rfl
    | some v => exact kindOfJson_tagName v
  unfold ofFields
  beta_reduce
  rw [hkind, hother "v" (by decide), hother "from" (by decide), hother "to" (by decide),
    hother "contract" (by decide), hother "sid" (by decide), hother "seq" (by decide),
    hother "epub" (by decide), hother "nonce" (by decide), hother "sig" (by decide),
    hother "ct" (by decide), hother "ts" (by decide)]

/-- A valid envelope is read from the members exactly when they meet the schema with the
kind as a name. -/
theorem reads_members_iff {members : List (String × Json)}
    (hkeys : (members.map Prod.fst).Nodup) :
    (∃ e, ofJson (.object members) = some e ∧ e.validate F = .ok ()) ↔
      schema F (.object (members.map plainKind)) := by
  have hkind (name : String) :
      (members.map plainKind).lookup "kind" ≠ some (.object [(name, .null)]) := by
    rw [lookup_plainKind]
    intro h
    obtain ⟨v, -, hv⟩ := Option.map_eq_some_iff.mp h
    exact tagName_ne v name hv
  have hnames : (∀ m ∈ members.map plainKind, m.1 ∈ fields) ↔ ∀ m ∈ members, m.1 ∈ fields :=
    List.forall_mem_map
  rw [schema_object_iff, hnames, ofJson]
  by_cases hknown : ∀ m ∈ members, m.1 ∈ fields
  · rw [if_pos ⟨hkeys, hknown⟩, ← ofFields_plainKind]
    constructor
    · rintro ⟨e, he, hvalid⟩
      exact ⟨hknown, e, (ofFields_iff_holds hkind).mp he, validate_eq_ok.mp hvalid⟩
    · rintro ⟨-, e, hget, hvalid⟩
      exact ⟨e, (ofFields_iff_holds hkind).mpr hget, validate_eq_ok.mpr hvalid⟩
  · rw [if_neg fun h => hknown h.2]
    constructor
    · rintro ⟨e, ⟨⟩, -⟩
    · exact fun h => absurd h.1 hknown

theorem keys_zip_sublist {α β : Type} (keys : List α) (values : List β) :
    ((keys.zip values).map Prod.fst).Sublist keys := by
  induction keys generalizing values with
  | nil => exact List.Sublist.slnil
  | cons k keys ih =>
    cases values with
    | nil => exact List.nil_sublist _
    | cons v values => exact (ih values).cons_cons k

theorem ofJson_array {items : List Json} (h : items.length ≤ fields.length) :
    ofJson (.array items) = ofJson (.object (fields.zip items)) := by
  have hkeys := keys_zip_sublist fields items
  have hdistinct : ((fields.zip items).map Prod.fst).Nodup := hkeys.nodup (by decide)
  have hknown : ∀ p ∈ fields.zip items, p.1 ∈ fields := fun p hp =>
    hkeys.subset (List.mem_map_of_mem hp)
  rw [ofJson, ofJson, if_pos h, if_pos ⟨hdistinct, hknown⟩]

theorem not_schema {v : Json} (h : ∀ members, v ≠ .object members) : ¬schema F v := by
  intro hschema
  have htype := hschema (.type .object) List.mem_cons_self
  cases v with
  | object members => exact h members rfl
  | number n => cases n <;> simp [Schema.type] at htype
  | _ => simp [Schema.type] at htype

theorem reads_iff {v : Json} (hkeys : v.distinctKeys) :
    (∃ e, ofJson v = some e ∧ e.validate F = .ok ()) ↔ schema F (objectForm v) := by
  cases v with
  | object members => exact reads_members_iff F hkeys.1
  | array items =>
    by_cases hlen : items.length ≤ fields.length
    · have hdistinct := (keys_zip_sublist fields items).nodup (by decide)
      rw [objectForm, if_pos hlen, ofJson_array hlen]
      exact reads_members_iff F hdistinct
    · have hnot := not_schema F (v := .array items) (by simp)
      simp [objectForm, ofJson, hlen, hnot]
  | null => simpa [objectForm, ofJson] using not_schema F (v := .null) (by simp)
  | bool b => simpa [objectForm, ofJson] using not_schema F (v := .bool b) (by simp)
  | number n => simpa [objectForm, ofJson] using not_schema F (v := .number n) (by simp)
  | string s => simpa [objectForm, ofJson] using not_schema F (v := .string s) (by simp)

/-- Only an object with its kind as a name meets the schema. -/
theorem objectForm_eq_of_schema {v : Json} (hkeys : v.distinctKeys) (h : schema F v) :
    objectForm v = v := by
  cases v with
  | object members =>
    obtain ⟨-, e, hget, -⟩ := (schema_object_iff F).mp h
    have hplain (p : String × Json) (hp : p ∈ members) : plainKind p = p := by
      by_cases hkind : p.1 = "kind"
      · have hvalue := (pairs_lookup_eq_some_iff hkeys.1).mpr (hkind ▸ hp : ("kind", p.2) ∈ members)
        have hname : p.2 = .string e.kind.text := Option.some.inj (hvalue.symm.trans hget.kind)
        have htag : tagName p.2 = p.2 := by rw [hname]; rfl
        exact Prod.ext rfl ((if_pos hkind).trans htag)
      · exact Prod.ext rfl (if_neg hkind)
    rw [objectForm, List.map_congr_left hplain, List.map_id']
  | _ => exact absurd h (not_schema F (by simp))

variable {F}

/-- The parser accepts exactly the values of the schema, except that it accepts a value that
the schema has in another form. -/
theorem fromJson_meets_schema_iff {parse : Bytes → Option Json} {bytes : Bytes} {v : Json}
    (hparse : parse bytes = some v) (hkeys : v.distinctKeys) :
    ((∃ e, fromJson F parse bytes = .ok e) ↔ schema F v) ↔
      objectForm v = v ∨ ¬schema F (objectForm v) := by
  have haccepts : (∃ e, fromJson F parse bytes = .ok e) ↔ schema F (objectForm v) := by
    rw [← reads_iff F hkeys]
    simp only [fromJson_eq_ok, hparse, Option.some.injEq, exists_eq_left']
  rw [haccepts]
  constructor
  · intro h
    by_cases hform : schema F (objectForm v)
    · exact .inl (objectForm_eq_of_schema F hkeys (h.mp hform))
    · exact .inr hform
  · rintro (heq | hform)
    · rw [heq]
    · refine iff_of_false hform fun hschema => hform ?_
      rwa [objectForm_eq_of_schema F hkeys hschema]

def fullMessage : SecureEnvelope :=
  { lastMessage with
    epub := some (encodeHex (List.replicate 32 3))
    nonce := some (encodeHex (List.replicate 32 4)) }

def listed : Json := .array
  [.number (.integer 1), .string "msg", .string "urn:hacp:agent:a", .string "urn:hacp:agent:b",
    .string "", .string (encodeHex (List.replicate 16 0)),
    .number (.integer 18446744073709551615), .string (encodeHex (List.replicate 32 3)),
    .string (encodeHex (List.replicate 32 4)), .string (encodeHex (List.replicate 64 1)),
    .string (encodeHex (List.replicate 16 2))]

def listedText : Bytes := asBytes (String.ofList (plainText listed))

theorem readJson_listed : readJson listedText = some listed :=
  readJson_reads _ _ (plainText_denotes listed rfl (by decide)) rfl

theorem fullMessage_valid : fullMessage.validate Foreign.placeholder = .ok () := by
  have hvalid := validate_eq_ok.mp lastMessage_valid
  refine validate_eq_ok.mpr { hvalid with epub := ?_, nonce := ?_, handshake := ?_ }
  · exact fun s hs => Option.some.inj hs ▸ fixedHex_encodeHex.mpr rfl
  · exact fun s hs => Option.some.inj hs ▸ fixedHex_encodeHex.mpr rfl
  · exact fun h => absurd rfl h

/-- The parser accepts the list, which is no object as the schema wants it. -/
theorem fromJson_accepts_listed :
    readJson listedText = some listed ∧ listed.distinctKeys ∧ listed.integersOnly = true ∧
      fromJson Foreign.placeholder readJson listedText = .ok fullMessage ∧
      ¬((∃ e, fromJson Foreign.placeholder readJson listedText = .ok e) ↔
        schema Foreign.placeholder listed) := by
  have haccepts : fromJson Foreign.placeholder readJson listedText = .ok fullMessage :=
    fromJson_eq_ok.mpr ⟨⟨listed, readJson_listed, rfl⟩, fullMessage_valid⟩
  refine ⟨readJson_listed, by simp [listed, Json.distinctKeys, Json.distinctKeysItems], rfl,
    haccepts, fun h => ?_⟩
  exact not_schema _ (by simp [listed]) (h.mp ⟨_, haccepts⟩)

/-- The object of the same message is where parser and schema agree. -/
theorem fromJson_meets_schema_full :
    ((∃ e, fromJson Foreign.placeholder readJson
        (asBytes (String.ofList (plainText (.object fullMessage.toObject)))) = .ok e) ↔
      schema Foreign.placeholder (.object fullMessage.toObject)) := by
  have hkeys : (Json.object fullMessage.toObject).distinctKeys :=
    ⟨toObject_distinct _, by simp [fullMessage, lastMessage, toObject, member,
      Json.distinctKeysMembers, Json.distinctKeys]⟩
  exact (fromJson_meets_schema_iff (readJson_reads _ _ (plainText_denotes _ rfl (by decide)) rfl)
    hkeys).mpr (.inl rfl)

end SecureEnvelope
end Hacp.Secure
