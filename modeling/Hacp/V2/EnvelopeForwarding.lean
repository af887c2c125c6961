import Hacp.V2.Envelope

/-!
# Envelopes survive forwarding

A valid envelope is serialized to an object that has a canonical form as a whole and that
is read back to the same envelope. An object that is read and serialized again has the
members it had, with the reply made explicit where it was absent.
-/
namespace Hacp.V2.Envelope
open Lib Std
variable {F : Foreign} {e : Envelope} {ms : List (String × Json)}

theorem known_keys (e : Envelope) : e.known.map Prod.fst = reservedFields := rfl

theorem known_lookup_eq_none {k : String} (hk : k ∉ reservedFields) : e.known.lookup k = none := by
  rw [List.lookup_eq_none_iff]
  intro p hp
  rw [bne_iff_ne]
  rintro rfl
  exact hk (known_keys e ▸ List.mem_map_of_mem hp)

def Apart (e : Envelope) : Prop := ∀ k ∈ e.extra, k ∉ reservedFields

theorem apart_of_valid (h : e.validate F = .ok ()) : e.Apart := by
  intro k hk
  obtain ⟨v, hv⟩ := (mem_iff_lookup _ _).mp hk
  exact ((validate_values h).2.2 (k, v) (ExtTreeMap.mem_toList_iff_getElem?_eq_some.mpr hv)).1

theorem members_lookup (h : e.Apart) (k : String) : e.members.lookup k =
    if k ∈ reservedFields then e.known.lookup k else e.extra[k]? := by
  rw [members, List.lookup_append, toList_lookup]
  by_cases hk : k ∈ reservedFields
  · have hextra : e.extra[k]? = none := (lookup_eq_none_iff _ _).mpr fun hmem => h k hmem hk
    rw [if_pos hk, hextra, Option.or_none]
  · rw [if_neg hk, known_lookup_eq_none hk, Option.none_or]

theorem members_nodup (h : e.Apart) : (e.members.map Prod.fst).Nodup := by
  rw [members, List.map_append, known_keys, List.nodup_append]
  refine ⟨by decide, toList_nodup e.extra, ?_⟩
  rintro k hk k' hk' rfl
  rw [ExtTreeMap.map_fst_toList_eq_keys, ExtTreeMap.mem_keys] at hk'
  exact h k hk' hk

theorem members_unknown (h : e.Apart) :
    e.members.filter (fun p => p.1 ∉ reservedFields) = e.extra.toList := by
  have hknown : e.known.filter (fun p => p.1 ∉ reservedFields) = [] := by
    rw [List.filter_eq_nil_iff]
    intro p hp
    have hmem : p.1 ∈ reservedFields := known_keys e ▸ List.mem_map_of_mem hp
    simpa using hmem
  have hextra : e.extra.toList.filter (fun p => p.1 ∉ reservedFields) = e.extra.toList := by
    rw [List.filter_eq_self]
    rintro ⟨k, v⟩ hp
    have hmem : k ∈ e.extra :=
      (mem_iff_lookup _ _).mpr ⟨v, ExtTreeMap.mem_toList_iff_getElem?_eq_some.mp hp⟩
    simpa using h k hmem
  rw [members, List.filter_append, hknown, hextra, List.nil_append]

/-- The members of an object with the reply made explicit. -/
def explicitReply (ms : List (String × Json)) : List (String × Json) :=
  if (ms.lookup "in_reply_to").isSome then ms else ("in_reply_to", .null) :: ms

theorem explicitReply_lookup (k : String) : (explicitReply ms).lookup k =
    if k = "in_reply_to" then some ((ms.lookup k).getD .null) else ms.lookup k := by
  unfold explicitReply
  cases hreply : ms.lookup "in_reply_to" with
  | none =>
    simp only [Option.isSome_none, Bool.false_eq_true, if_false, pairs_lookup_cons]
    split_ifs with hk
    · rw [hk, hreply, Option.getD_none]
    · rfl
  | some v =>
    simp only [Option.isSome_some, if_true]
    split_ifs with hk
    · rw [hk, hreply, Option.getD_some]
    · rfl

theorem optionalStr_eq_some {v : Option Json} {o : Option String} :
    optionalStr v = some o ↔ v.getD .null = (o.map .string).getD .null := by
  rcases v with _ | (_ | _ | _ | _ | _ | _) <;> cases o <;> simp [optionalStr, eq_comm]

/-- Reading finds the known fields of the envelope, the reply made explicit, and collects the
others. -/
theorem ofMembers_eq_some : ofMembers ms = some e ↔
    (∀ k ∈ reservedFields, (explicitReply ms).lookup k = e.known.lookup k) ∧
      e.extra = ExtTreeMap.ofList (ms.filter fun p => p.1 ∉ reservedFields) := by
  have hfields : (∀ k ∈ reservedFields, (explicitReply ms).lookup k = e.known.lookup k) ↔
      (ms.lookup "protocol").bind Json.asStr = some e.protocol ∧
      (ms.lookup "message_id").bind Json.asStr = some e.messageId ∧
      (ms.lookup "session_id").bind Json.asStr = some e.sessionId ∧
      (ms.lookup "from").bind Json.asStr = some e.from_ ∧
      (ms.lookup "to").bind Json.asStr = some e.to_ ∧
      (ms.lookup "kind").bind Json.asStr = some e.kind ∧
      (ms.lookup "timestamp").bind Json.asStr = some e.timestamp ∧
      optionalStr (ms.lookup "in_reply_to") = some e.inReplyTo ∧
      ms.lookup "body" = some e.body := by
    simp only [Json.bind_eq_some_write fun _ _ => Json.asStr_eq_some, optionalStr_eq_some,
      reservedFields, List.forall_mem_cons, explicitReply_lookup]
    simp [known, List.lookup_cons]
  rw [hfields]
  constructor
  · intro h
    obtain ⟨protocol, hprotocol, h⟩ := Option.bind_eq_some_iff.mp h
    obtain ⟨messageId, hmessageId, h⟩ := Option.bind_eq_some_iff.mp h
    obtain ⟨sessionId, hsessionId, h⟩ := Option.bind_eq_some_iff.mp h
    obtain ⟨from_, hfrom, h⟩ := Option.bind_eq_some_iff.mp h
    obtain ⟨to_, hto, h⟩ := Option.bind_eq_some_iff.mp h
    obtain ⟨kind, hkind, h⟩ := Option.bind_eq_some_iff.mp h
    obtain ⟨timestamp, htimestamp, h⟩ := Option.bind_eq_some_iff.mp h
    obtain ⟨inReplyTo, hreply, h⟩ := Option.bind_eq_some_iff.mp h
    obtain ⟨body, hbody, h⟩ := Option.bind_eq_some_iff.mp h
    obtain rfl := Option.some.inj h
    exact ⟨⟨hprotocol, hmessageId, hsessionId, hfrom, hto, hkind, htimestamp, hreply, hbody⟩, rfl⟩
  · rintro ⟨⟨hprotocol, hmessageId, hsessionId, hfrom, hto, hkind, htimestamp, hreply, hbody⟩,
      hextra⟩
    simp only [ofMembers, hprotocol, hmessageId, hsessionId, hfrom, hto, hkind, htimestamp, hreply,
      hbody, ← hextra, Option.bind_eq_bind, Option.bind_some]

theorem ofJson_toJson (h : e.Apart) : ofJson e.toJson = some e := by
  have hread : ofMembers e.members = some e := by
    rw [ofMembers_eq_some, members_unknown h, ofList_toList]
    refine ⟨fun k hk => ?_, rfl⟩
    rw [explicitReply_lookup, members_lookup h, if_pos hk]
    split_ifs with hreply
    · rw [hreply]
      rfl
    · rfl
  rw [toJson, ofJson, if_pos ((members_nodup h).filter _), hread]

theorem toJson_integersOnly (h : e.validate F = .ok ()) : e.toJson.integersOnly = true := by
  obtain ⟨-, hbody, hextra⟩ := validate_values h
  rw [toJson, Json.integersOnly, Json.integersOnlyMembers_iff]
  intro p hp
  rcases List.mem_append.mp hp with hp | hp
  · have hknown : Json.integersOnlyMembers e.known = true := by
      cases hreply : e.inReplyTo <;>
        simp [known, Json.integersOnlyMembers, Json.integersOnly, hbody, hreply]
    exact (Json.integersOnlyMembers_iff _).mp hknown p hp
  · exact (hextra p hp).2

/-- What is read keeps its names apart. -/
theorem apart_of_ofMembers (hkeys : (ms.map Prod.fst).Nodup) (h : ofMembers ms = some e) :
    e.Apart ∧ ∀ k, k ∉ reservedFields → e.extra[k]? = ms.lookup k := by
  have hextra := (ofMembers_eq_some.mp h).2
  have hfilter : ((ms.filter fun p => p.1 ∉ reservedFields).map Prod.fst).Nodup :=
    hkeys.sublist (List.filter_sublist.map Prod.fst)
  have hlookup (k : String) : e.extra[k]? = if k ∉ reservedFields then ms.lookup k else none := by
    rw [hextra, ofList_lookup hfilter, pairs_lookup_filter (· ∉ reservedFields)]
  refine ⟨fun k hk hreserved => ?_, fun k hk => by rw [hlookup, if_pos hk]⟩
  obtain ⟨v, hv⟩ := (mem_iff_lookup _ _).mp hk
  rw [hlookup, if_neg (not_not.mpr hreserved)] at hv
  cases hv

theorem explicitReply_nodup (hkeys : (ms.map Prod.fst).Nodup) :
    ((explicitReply ms).map Prod.fst).Nodup := by
  unfold explicitReply
  split_ifs with hreply
  · exact hkeys
  · rw [List.map_cons, List.nodup_cons]
    refine ⟨fun hmem => ?_, hkeys⟩
    obtain ⟨⟨k, v⟩, hmem, rfl⟩ := List.mem_map.mp hmem
    rw [(pairs_lookup_eq_some_iff hkeys).mpr hmem] at hreply
    exact hreply rfl

/-- Serializing what was read gives the members back, the reply made explicit. -/
theorem members_perm (hkeys : (ms.map Prod.fst).Nodup) (h : ofMembers ms = some e) :
    e.members.Perm (explicitReply ms) := by
  obtain ⟨hapart, hextra⟩ := apart_of_ofMembers hkeys h
  apply pairs_perm_of_lookup (members_nodup hapart) (explicitReply_nodup hkeys)
  intro k
  rw [members_lookup hapart]
  split_ifs with hk
  · exact ((ofMembers_eq_some.mp h).1 k hk).symm
  · have hreply : k ≠ "in_reply_to" := fun heq => hk (heq ▸ by decide)
    rw [hextra k hk, explicitReply_lookup, if_neg hreply]

/-- A valid envelope is canonicalizable as a whole and read back with every field it has, and
an object that reads to an envelope is what is written again, up to member order. -/
theorem survives_forwarding (F : Foreign) :
    (∀ e : Envelope, e.validate F = .ok () →
      (∃ text, canonicalJson e.toJson = .ok text) ∧ ofJson e.toJson = some e) ∧
    ∀ (ms : List (String × Json)) (e : Envelope), (ms.map Prod.fst).Nodup →
      ofJson (.object ms) = some e → e.validate F = .ok () →
        ∃ out, e.toJson = .object out ∧ out.Perm (explicitReply ms) := by
  refine ⟨fun e h => ?_, fun ms e hkeys h _ => ?_⟩
  · exact ⟨(canonicalJson_isOk_iff _).mpr (toJson_integersOnly h), ofJson_toJson (apart_of_valid h)⟩
  · rw [ofJson, if_pos (hkeys.filter _)] at h
    exact ⟨e.members, rfl, members_perm hkeys h⟩

/-- A message of a later version, without a reply and with a field this build does not know. -/
def shimmering : List (String × Json) :=
  [("protocol", .string "HACP/2.0"), ("message_id", .string "m-000000000000"),
    ("session_id", .string "s-1"), ("from", .string "urn:hacp:agent:a-1"),
    ("to", .string "urn:hacp:agent:b-1"), ("kind", .string "heartbeat"),
    ("timestamp", .string "2026-09-04T12:00:00Z"), ("body", .object []),
    ("shimmer", .object [("future", .array [.number (.integer 1), .number (.integer 2)])])]

theorem survives_forwarding_shimmering :
    ∃ e out, ofJson (.object shimmering) = some e ∧ e.validate Foreign.placeholder = .ok () ∧
      ofJson e.toJson = some e ∧ e.toJson = .object out ∧
      out.Perm (("in_reply_to", .null) :: shimmering) := by
  obtain ⟨hwritten, hread⟩ := survives_forwarding Foreign.placeholder
  have hkeys : (shimmering.map Prod.fst).Nodup := by decide
  have hvalid : ∀ e, ofJson (.object shimmering) = some e →
      e.validate Foreign.placeholder = .ok () := by
    rintro e h
    obtain rfl := Option.some.inj h
    rfl
  obtain ⟨e, he⟩ : ∃ e, ofJson (.object shimmering) = some e := ⟨_, rfl⟩
  obtain ⟨out, hout, hperm⟩ := hread shimmering e hkeys he (hvalid e he)
  exact ⟨e, out, he, hvalid e he, (hwritten e (hvalid e he)).2, hout, hperm⟩

end Hacp.V2.Envelope
