import Hacp.V2.CanonicalForm
import Hacp.V2.ContractHistory

/-!
# What a revision digest identifies

The digest of a revision is taken over its contract, its number and its content, so
without a collision among the hashed records it names one revision of one contract.
Numbers grow with every amendment; a submission that names an earlier revision, or
one of another contract, is refused even where the content was reused.
-/
namespace Hacp.V2
open Lib

/-- What is hashed for a revision. -/
def revisionRecord (id : String) (number : ℕ) (content : Json) : Json :=
  .object [("contract_id", .string id), ("revision", .number (.integer number)),
    ("content", content)]

/-- A record's text tells its contract, its number and its content. -/
theorem revisionRecord_inj {id id' text : String} {number number' : ℕ} {content content' : Json}
    (h : canonicalJson (revisionRecord id number content) = .ok text)
    (h' : canonicalJson (revisionRecord id' number' content') = .ok text) :
    id = id' ∧ number = number' ∧ content.normalize = content'.normalize := by
  have hnorm := normalize_eq_of_canonicalJson h h'
  simp only [revisionRecord, Json.normalize, Json.normalizeMembers, Json.object.injEq] at hnorm
  have hmem (p : String × Json) := (Json.sortMembers_perm
    [("contract_id", .string id), ("revision", .number (.integer number)),
      ("content", content.normalize)]).mem_iff (a := p)
  have hmem' (p : String × Json) := (Json.sortMembers_perm
    [("contract_id", .string id'), ("revision", .number (.integer number')),
      ("content", content'.normalize)]).mem_iff (a := p)
  have hid := (hmem' ("contract_id", .string id)).mp (hnorm ▸ (hmem _).mpr (by simp))
  have hnumber := (hmem' ("revision", .number (.integer number))).mp
    (hnorm ▸ (hmem _).mpr (by simp))
  have hcontent := (hmem' ("content", content.normalize)).mp (hnorm ▸ (hmem _).mpr (by simp))
  simp at hid hnumber hcontent
  exact ⟨hid, by exact_mod_cast hnumber, hcontent⟩

/-- The byte strings that are hashed for the revisions of these contracts. -/
def hashedFor (cs : List Contract) : Set Bytes :=
  {b | ∃ c ∈ cs, ∃ r ∈ c.revisions, ∃ text,
    canonicalJson (revisionRecord c.contractId r.number r.content) = .ok text ∧ asBytes text = b}

namespace Contract
variable {F : Foreign} {debug : Bool} {c c' : Contract} {cs : List Contract}

theorem WellKept.exists_text (hk : c.WellKept F) {r : Revision} (hr : r ∈ c.revisions) :
    ∃ text, canonicalJson (revisionRecord c.contractId r.number r.content) = .ok text ∧
      r.digest = hexText (F.sha256 (asBytes text)) := by
  obtain ⟨i, hi⟩ := List.mem_iff_getElem?.mp hr
  obtain ⟨hnumber, hdigest⟩ := hk.numbered i r hi
  rw [← hnumber, revisionDigest, mapError_eq_ok, digestOf, bind_eq_ok] at hdigest
  obtain ⟨text, htext, hdigest⟩ := hdigest
  exact ⟨text, htext, (Except.ok.inj hdigest).symm⟩

theorem eq_of_digest (hsha : Set.InjOn F.sha256 (hashedFor cs)) (hk : c.WellKept F)
    (hk' : c'.WellKept F) (hc : c ∈ cs) (hc' : c' ∈ cs) {r r' : Revision}
    (hr : r ∈ c.revisions) (hr' : r' ∈ c'.revisions) (h : r.digest = r'.digest) :
    c.contractId = c'.contractId ∧ r.number = r'.number ∧
      r.content.normalize = r'.content.normalize := by
  obtain ⟨text, htext, hdigest⟩ := hk.exists_text hr
  obtain ⟨text', htext', hdigest'⟩ := hk'.exists_text hr'
  have hhash : F.sha256 (asBytes text) = F.sha256 (asBytes text') := by
    have hhex := congrArg String.toList (hdigest.symm.trans (h.trans hdigest'))
    rw [← hexPairs_hexText (F.sha256 (asBytes text)), hhex, hexPairs_hexText]
  have hbytes := hsha ⟨c, hc, r, hr, text, htext, rfl⟩ ⟨c', hc', r', hr', text', htext', rfl⟩ hhash
  obtain rfl := asBytes_injective hbytes
  exact revisionRecord_inj htext htext'

theorem WellKept.number_lt (hk : c.WellKept F) {r r' : Revision}
    (hr : c.revisions.getLast? = some r) (hr' : r' ∈ c.revisions.dropLast) :
    r'.number < r.number := by
  obtain ⟨i, hi⟩ := List.mem_iff_getElem?.mp hr'
  have hlt : i < c.revisions.length - 1 := by
    have hbound := (List.getElem?_eq_some_iff.mp hi).1
    rwa [List.length_dropLast] at hbound
  rw [List.getElem?_dropLast, if_pos hlt] at hi
  rw [List.getLast?_eq_getElem?] at hr
  have hlast := (hk.numbered _ r hr).1
  have hfirst := (hk.numbered i r' hi).1
  omega

/-- A submission that names this digest changes nothing; a participant is told that it is
stale, anyone else that it is no party to the contract. -/
def RefusesAgainst (F : Foreign) (debug : Bool) (c : Contract) (digest : String) : Prop :=
  ∀ by_ submission, submission.againstRevision = digest →
    contractStep F debug c (.submit by_ submission) = (c, .returns (.error
      (if by_ ∈ members c.participants then .staleRevision digest (c.frozenDigest.getD "")
        else .notAParty by_ c.contractId)))

theorem refusesAgainst_of_ne (F : Foreign) (debug : Bool) {digest : String}
    (hstate : c.state = .executing) (hne : digest ≠ c.frozenDigest.getD "") :
    RefusesAgainst F debug c digest := by
  rintro by_ submission rfl
  rcases authorize_cases c by_ with ⟨hparty, hok⟩ | herr
  · simp only [contractStep, answer, submit, hok, hstate, if_pos hparty, ne_eq, not_true_eq_false,
      if_false, if_pos hne]
    rfl
  · have hparty : by_ ∉ members c.participants := by
      intro hparty
      simp [authorize, hparty] at herr
    simp only [contractStep, answer, submit, herr, if_neg hparty]
    rfl

/-- A digest differs from the current one when its revision does. -/
theorem refusesAgainst_of_revision (debug : Bool) (hsha : Set.InjOn F.sha256 (hashedFor cs))
    (hk : c.WellKept F) (hk' : c'.WellKept F) (hc : c ∈ cs) (hc' : c' ∈ cs)
    (hstate : c.state = .executing) {r' : Revision} (hr' : r' ∈ c'.revisions)
    (hother : ∀ r, c.revisions.getLast? = some r →
      ¬(c.contractId = c'.contractId ∧ r.number = r'.number)) :
    RefusesAgainst F debug c r'.digest := by
  have hfrozen := hk.frozen (by rw [hstate]; rfl)
  have hlast := List.getLast?_eq_some_getLast hfrozen
  refine refusesAgainst_of_ne F debug hstate fun hsame => ?_
  rw [frozenDigest, hlast] at hsame
  obtain ⟨hid, hnumber, -⟩ := eq_of_digest hsha hk hk' hc hc' (List.getLast_mem hfrozen) hr' hsame.symm
  exact hother _ hlast ⟨hid, hnumber⟩

/-- What digests say about the revisions of two contracts. -/
structure DigestsIdentify (F : Foreign) (debug : Bool) (c c' : Contract) : Prop where
  identify : ∀ r ∈ c.revisions, ∀ r' ∈ c'.revisions, r.digest = r'.digest →
    c.contractId = c'.contractId ∧ r.number = r'.number ∧
      (r.content.distinctKeys → r'.content.distinctKeys → Json.SameValue r.content r'.content)
  superseded : c.state = .executing → ∀ r ∈ c.revisions.dropLast, RefusesAgainst F debug c r.digest
  foreign : c.state = .executing → c'.contractId ≠ c.contractId → ∀ r ∈ c'.revisions,
    RefusesAgainst F debug c r.digest

/-- Digests identify the revisions of any two contracts that runs reach. -/
theorem revision_digests_identify {c₀ c₀' : Contract} (h : Proposed F c₀) (h' : Proposed F c₀')
    (debug debug' : Bool) (calls calls' : List ContractCall)
    (hsha : Set.InjOn F.sha256 (hashedFor [(contractMachine F debug).exec c₀ calls,
      (contractMachine F debug').exec c₀' calls'])) :
    DigestsIdentify F debug ((contractMachine F debug).exec c₀ calls)
      ((contractMachine F debug').exec c₀' calls') := by
  have hk := h.wellKept debug calls
  have hk' := h'.wellKept debug' calls'
  have hfirst : (contractMachine F debug).exec c₀ calls ∈ [(contractMachine F debug).exec c₀ calls,
      (contractMachine F debug').exec c₀' calls'] := List.mem_cons_self
  have hsecond : (contractMachine F debug').exec c₀' calls' ∈
      [(contractMachine F debug).exec c₀ calls, (contractMachine F debug').exec c₀' calls'] :=
    List.mem_cons_of_mem _ List.mem_cons_self
  refine ⟨fun r hr r' hr' hdigest => ?_, fun hstate r hr => ?_, fun hstate hid r hr => ?_⟩
  · obtain ⟨hid, hnumber, hcontent⟩ := eq_of_digest hsha hk hk' hfirst hsecond hr hr' hdigest
    exact ⟨hid, hnumber, fun hv hw => (sameValue_iff _ _ hv hw).mpr hcontent⟩
  · refine refusesAgainst_of_revision debug hsha hk hk hfirst hfirst hstate
      (List.mem_of_mem_dropLast hr) fun last hlast hsame => ?_
    exact (hk.number_lt hlast hr).ne' hsame.2
  · exact refusesAgainst_of_revision debug hsha hk hk' hfirst hsecond hstate hr
      fun _ _ hsame => hid hsame.1.symm

/-! ## One contract amended with its own content -/

/-- The three texts hashed in the run below with their SHA-256 values. -/
def nullRevisions : Foreign :=
  { Foreign.placeholder with
    sha256 := fun b =>
      if b = asBytes "\x7b\"content\":null,\"contract_id\":\"c-1\",\"revision\":1\x7d" then
        [172, 19, 50, 241, 59, 135, 96, 125, 205, 173, 74, 207, 36, 81, 73, 183,
          218, 130, 232, 10, 136, 178, 240, 171, 148, 190, 230, 109, 234, 37, 54, 96]
      else if b = asBytes "\x7b\"content\":null,\"contract_id\":\"c-1\",\"revision\":2\x7d" then
        [216, 254, 189, 138, 77, 216, 197, 110, 21, 79, 216, 4, 236, 110, 157, 31,
          242, 16, 44, 82, 202, 58, 195, 3, 105, 52, 104, 222, 207, 8, 47, 42]
      else
        [116, 35, 78, 152, 175, 231, 73, 143, 181, 218, 241, 243, 106, 194, 215, 138,
          204, 51, 148, 100, 249, 80, 112, 59, 140, 1, 152, 146, 249, 130, 185, 11] }

def amendedContract : Contract :=
  (contractMachine nullRevisions true).exec collaboration amendedCalls

theorem amendedContract_revisions :
    amendedContract.revisions.map (fun r => (r.number, r.content)) = [(1, .null), (2, .null)] := by
  rfl

theorem amendedContract_state : amendedContract.state = .executing := by
  rfl

theorem injOn_amendedContract :
    Set.InjOn nullRevisions.sha256 (hashedFor [amendedContract, amendedContract]) := by
  have hid : amendedContract.contractId = "c-1" := rfl
  have hfirst : canonicalJson (revisionRecord "c-1" 1 .null) =
      .ok "\x7b\"content\":null,\"contract_id\":\"c-1\",\"revision\":1\x7d" := by decide
  have hsecond : canonicalJson (revisionRecord "c-1" 2 .null) =
      .ok "\x7b\"content\":null,\"contract_id\":\"c-1\",\"revision\":2\x7d" := by decide
  have htexts : ∀ b ∈ hashedFor [amendedContract, amendedContract],
      b = asBytes "\x7b\"content\":null,\"contract_id\":\"c-1\",\"revision\":1\x7d" ∨
      b = asBytes "\x7b\"content\":null,\"contract_id\":\"c-1\",\"revision\":2\x7d" := by
    rintro b ⟨c, hc, r, hr, text, htext, rfl⟩
    obtain rfl : c = amendedContract := by simpa using hc
    have hmem : (r.number, r.content) ∈ [(1, Json.null), (2, Json.null)] := by
      rw [← amendedContract_revisions]
      exact List.mem_map_of_mem hr
    simp only [List.mem_cons, List.not_mem_nil, or_false, Prod.mk.injEq] at hmem
    rcases hmem with ⟨hnumber, hcontent⟩ | ⟨hnumber, hcontent⟩
    · rw [hid, hnumber, hcontent, hfirst] at htext
      exact .inl (congrArg asBytes (Except.ok.inj htext.symm))
    · rw [hid, hnumber, hcontent, hsecond] at htext
      exact .inr (congrArg asBytes (Except.ok.inj htext.symm))
  intro b hb b' hb' hhash
  rcases htexts b hb with rfl | rfl <;> rcases htexts b' hb' with rfl | rfl
  · rfl
  · exact absurd hhash (by decide)
  · exact absurd hhash (by decide)
  · rfl

theorem revision_digests_identify_amended :
    DigestsIdentify nullRevisions true amendedContract amendedContract :=
  revision_digests_identify (proposed_collaboration _) (proposed_collaboration _) true true
    amendedCalls amendedCalls injOn_amendedContract

/-- Who is no party to the contract is told so, whatever revision the submission names. -/
theorem not_every_submission_stale :
    ¬∀ (F : Foreign) (debug : Bool) (c₀ : Contract) (calls : List ContractCall), Proposed F c₀ →
      Set.InjOn F.sha256 (hashedFor [(contractMachine F debug).exec c₀ calls,
        (contractMachine F debug).exec c₀ calls]) →
      ((contractMachine F debug).exec c₀ calls).state = .executing →
      ∀ r ∈ ((contractMachine F debug).exec c₀ calls).revisions.dropLast, ∀ by_ submission,
        submission.againstRevision = r.digest → ∃ expected,
          contractStep F debug ((contractMachine F debug).exec c₀ calls) (.submit by_ submission) =
            ((contractMachine F debug).exec c₀ calls,
              .returns (.error (.staleRevision r.digest expected))) := by
  intro h
  have hlength : amendedContract.revisions.length = 2 := by
    have hmap := congrArg List.length amendedContract_revisions
    rwa [List.length_map] at hmap
  obtain ⟨r, hr⟩ : ∃ r, r ∈ amendedContract.revisions.dropLast :=
    List.exists_mem_of_length_pos (by rw [List.length_dropLast, hlength]; norm_num)
  obtain ⟨expected, hstale⟩ := h nullRevisions true collaboration amendedCalls
    (proposed_collaboration _) injOn_amendedContract amendedContract_state r hr
    "urn:hacp:agent:c" ⟨r.digest, [], [], ""⟩ rfl
  have houtsider : (contractStep nullRevisions true amendedContract
      (.submit "urn:hacp:agent:c" ⟨r.digest, [], [], ""⟩)).2 =
      .returns (.error (.notAParty "urn:hacp:agent:c" "c-1")) := rfl
  have htold := houtsider.symm.trans (congrArg Prod.snd hstale)
  cases htold

end Contract
end Hacp.V2
