import Hacp.Lib.Lookup
import Hacp.V2.PermitSoundness

/-!
# Which preauthorization is used

Issuing by preauthorization looks for a grant by its scope alone and compares the
peer afterwards. The grant it looks at is the one with the smallest identifier, so a
permit is refused whenever that grant is for another peer, whatever else the
requester holds.
-/
namespace Hacp.V2
open Lib Std

namespace HiveProfile

/-- Sibling preauthorization: a supervisor issues a standing grant for a task class to one
child, restricted to another child. -/
def authorizeSiblings (F : Foreign) (L : GrantLedger) (org : OrgChart)
    (supervisor child peer taskClass grantId validFrom validUntil : String) :
    GrantLedger × Except GrantError Unit :=
  let children := org.children supervisor
  if child = peer ∨ child ∉ children ∨ peer ∉ children then
    (L, .error (.chainMismatch supervisor peer))
  else match org.validate with
    | .error e => (L, .error e)
    | .ok () =>
      let scope := "cross-branch/" ++ taskClass
      match (L.heldBy F supervisor validFrom).find? (fun g =>
          g.scopes.any fun s => s.name == scope && s.delegable) with
      | none => (L, .error (.notDelegable scope))
      | some parent =>
        L.issue F ⟨grantId, supervisor, child, [⟨scope, false⟩], validFrom, validUntil,
          some parent.grantId, some peer⟩ validFrom

/-- The call leaves the ledger alone or issues one grant. -/
theorem authorizeSiblings_cases (F : Foreign) (L : GrantLedger) (org : OrgChart)
    (supervisor child peer taskClass grantId validFrom validUntil : String) :
    (authorizeSiblings F L org supervisor child peer taskClass grantId validFrom validUntil).1 = L ∨
      ∃ g, authorizeSiblings F L org supervisor child peer taskClass grantId validFrom validUntil =
        L.issue F g validFrom := by
  unfold authorizeSiblings
  simp only
  split_ifs
  · exact .inl rfl
  · cases org.validate with
    | error e => exact .inl rfl
    | ok =>
      cases (L.heldBy F supervisor validFrom).find? (fun g =>
          g.scopes.any fun s => s.name == "cross-branch/" ++ taskClass && s.delegable) with
      | none => exact .inl rfl
      | some parent => exact .inr ⟨_, rfl⟩

end HiveProfile

namespace GrantLedger
variable {F : Foreign} {L : GrantLedger}

def Covering (L : GrantLedger) (agent taskClass at_ id : String) : Prop :=
  (∃ g, L.grants[id]? = some g ∧ g.grantee = agent ∧
    ∃ s ∈ g.scopes, s.name = "cross-branch/" ++ taskClass) ∧
  ∀ x, L.Descends id x → L.InForce at_ x

/-- The grant that is looked at is the covering one with the smallest identifier. -/
theorem Sound.preauthorizes_eq_some (hL : L.Sound) {agent taskClass at_ id : String}
    (hat : validateTimestamp F at_ = .ok ()) :
    L.preauthorizes F agent taskClass at_ = some id ↔
      L.Covering agent taskClass at_ id ∧
        ∀ id', L.Covering agent taskClass at_ id' → (compare id id').isLE = true := by
  let passes (e : String × CapabilityGrant) : Bool :=
    e.2.grantee == agent && L.isOpenOrFalse F e.2.grantId at_ &&
      e.2.scopes.any fun s => s.name == "cross-branch/" ++ taskClass
  have hpasses (id : String) (g : CapabilityGrant) (hg : L.grants[id]? = some g) :
      passes (id, g) = true ↔ L.Covering agent taskClass at_ id := by
    obtain ⟨b, hb, hforce⟩ := hL.isOpen_descends (mem_grants hg) hat
    simp only [passes, Bool.and_eq_true, beq_iff_eq, List.any_eq_true, isOpenOrFalse, hL.key hg, hb,
      hforce, Covering, hg, Option.some.injEq, exists_eq_left', and_assoc]
    tauto
  have hsearch : L.preauthorizes F agent taskClass at_ =
      (L.grants.toList.find? passes).map fun e => e.2.grantId := by
    simp only [preauthorizes, heldBy, List.find?_filter, List.find?_map, Option.map_map,
      Bool.decide_and, Bool.decide_eq_true]
    rfl
  have hrecorded {id : String} (h : L.Covering agent taskClass at_ id) :
      ∃ g, L.grants[id]? = some g := by
    obtain ⟨⟨g, hg, -⟩, -⟩ := h
    exact ⟨g, hg⟩
  rw [hsearch, Option.map_eq_some_iff]
  constructor
  · rintro ⟨⟨key, g⟩, hfind, hid⟩
    obtain ⟨hg, hp, hmin⟩ := find?_toList_eq_some.mp hfind
    obtain rfl : key = id := (hL.key hg).symm.trans hid
    refine ⟨(hpasses key g hg).mp hp, fun id' hid' => ?_⟩
    obtain ⟨g', hg'⟩ := hrecorded hid'
    exact hmin id' g' hg' ((hpasses id' g' hg').mpr hid')
  · rintro ⟨hid, hmin⟩
    obtain ⟨g, hg⟩ := hrecorded hid
    refine ⟨(id, g), find?_toList_eq_some.mpr ⟨hg, (hpasses id g hg).mpr hid, ?_⟩, hL.key hg⟩
    exact fun id' g' hg' hp' => hmin id' ((hpasses id' g' hg').mp hp')

end GrantLedger

namespace CollaborationPermit
variable {F : Foreign} {org : OrgChart} {L : GrantLedger} {request : CollaborationRequest}
  {at_ : String}

theorem backed_iff {requester peer taskClass id : String} :
    Backed org L requester peer taskClass at_ id ↔
      L.Covering requester taskClass at_ id ∧
        (∃ g, L.grants[id]? = some g ∧ g.grantor ∈ org.chain peer) ∧
        L.PeerAllowed org id requester peer := by
  constructor
  · rintro ⟨⟨g, hg, hgrantee, hscope, hgrantor⟩, hforce, hpeer⟩
    exact ⟨⟨⟨g, hg, hgrantee, hscope⟩, hforce⟩, ⟨g, hg, OrgChart.mem_chain_iff.mpr hgrantor⟩, hpeer⟩
  · rintro ⟨⟨⟨g, hg, hgrantee, hscope⟩, hforce⟩, ⟨g', hg', hgrantor⟩, hpeer⟩
    obtain rfl := Option.some.inj (hg.symm.trans hg')
    exact ⟨⟨g, hg, hgrantee, hscope, OrgChart.mem_chain_iff.mp hgrantor⟩, hforce, hpeer⟩

/-- The expiry is never lowered below a time at which the grant is open. -/
theorem expiry_loop_open (hL : L.Sound) {id expires : String} (hid : id ∈ L.grants)
    (hle : byteLe at_ expires) (hforce : ∀ x, L.Descends id x → L.InForce at_ x) :
    ∃ lowered, Loop.iterate (expiryTurn L) (L.grants.size + 1) (some id, expires) =
      some (some lowered) ∧ byteLe at_ lowered := by
  obtain ⟨l, hl⟩ := hL.lineage id
  obtain ⟨lowered, hloop, -, -, hone⟩ := hL.expiry_loop expires hl hid
    (Nat.lt_succ_of_le (hL.length_lineage_le hid hl))
  refine ⟨lowered, hloop, ?_⟩
  rcases hone with rfl | ⟨x, hx, g, hg, rfl⟩
  · exact hle
  · obtain ⟨g', hg', -, hwindow⟩ := hforce x (hl.mem_iff.mp hx)
    obtain rfl := Option.some.inj (hg.symm.trans hg')
    simp only [CapabilityGrant.windowOpen, Bool.and_eq_true, decide_eq_true_eq] at hwindow
    exact hwindow.2

def Obtainable (F : Foreign) (permitId : String) (org : OrgChart) (L : GrantLedger)
    (request : CollaborationRequest) (at_ : String) : Prop :=
  ∃ p, byPreauthorization F permitId org L request at_ = .returns (.ok p)

theorem obtainable_iff_looked_at (hL : L.Sound) (permitId : String) (horg : org.validate = .ok ())
    (hrequest : request.validate F = .ok ()) (hat : validateTimestamp F at_ = .ok ())
    (hle : byteLe at_ request.expires) :
    Obtainable F permitId org L request at_ ↔
      ∃ id, L.preauthorizes F request.requester request.taskClass at_ = some id ∧
        Backed org L request.requester request.peer request.taskClass at_ id := by
  simp only [Obtainable, byPreauthorization, horg, hrequest, hat, Except.mapError, bind,
    Except.bind]
  cases hpre : L.preauthorizes F request.requester request.taskClass at_ with
  | none => simp
  | some id =>
    obtain ⟨hcovering, -⟩ := (hL.preauthorizes_eq_some hat).mp hpre
    obtain ⟨g, hg, -⟩ := hcovering.1
    have hid := GrantLedger.mem_grants hg
    obtain ⟨allowed, hallowed, hpeer⟩ := hL.allowsPeer_decides org hid request.requester
      request.peer
    obtain ⟨lowered, hlowered, hopen⟩ := expiry_loop_open hL hid hle hcovering.2
    simp only [backed_iff, Option.some.injEq, exists_eq_left', hg, hallowed, hlowered, hcovering,
      ← hpeer]
    by_cases hgrantor : g.grantor ∈ org.chain request.peer
    · cases allowed with
      | false => simp [hgrantor]
      | true => simp [hgrantor, hopen]
    · simp [hgrantor]

/-- The request is backed by some standing grant. -/
def SomeBacked (org : OrgChart) (L : GrantLedger) (request : CollaborationRequest)
    (at_ : String) : Prop :=
  ∃ id, Backed org L request.requester request.peer request.taskClass at_ id

/-- Whenever some standing grant backs the request, the one with the smallest identifier among
the requester's open grants for the class does. -/
def LeastBacked (org : OrgChart) (L : GrantLedger) (request : CollaborationRequest)
    (at_ : String) : Prop :=
  SomeBacked org L request at_ →
    ∃ id, Backed org L request.requester request.peer request.taskClass at_ id ∧
      ∀ id', L.Covering request.requester request.taskClass at_ id' →
        (compare id id').isLE = true

/-- A permit can be had exactly when the grant that is looked at backs the request. -/
theorem obtainable_iff (hL : L.Sound) (permitId : String) (horg : org.validate = .ok ())
    (hrequest : request.validate F = .ok ()) (hat : validateTimestamp F at_ = .ok ())
    (hle : byteLe at_ request.expires) :
    Obtainable F permitId org L request at_ ↔
      SomeBacked org L request at_ ∧ LeastBacked org L request at_ := by
  rw [obtainable_iff_looked_at hL permitId horg hrequest hat hle]
  constructor
  · rintro ⟨id, hpre, hbacked⟩
    obtain ⟨-, hmin⟩ := (hL.preauthorizes_eq_some hat).mp hpre
    exact ⟨⟨id, hbacked⟩, fun _ => ⟨id, hbacked, hmin⟩⟩
  · rintro ⟨hsome, hleast⟩
    obtain ⟨id, hbacked, hmin⟩ := hleast hsome
    exact ⟨id, (hL.preauthorizes_eq_some hat).mpr ⟨(backed_iff.mp hbacked).1, hmin⟩, hbacked⟩

/-! ## Issuing more -/

/-- A grant that backs a request goes on backing it when another one is recorded. -/
theorem Backed.of_insert (hL : L.Sound) {requester peer taskClass id : String}
    (h : Backed org L requester peer taskClass at_ id) {g : CapabilityGrant}
    (hnew : L.grants[g.grantId]? = none) :
    Backed org { L with grants := L.grants.insert g.grantId g } requester peer taskClass at_ id := by
  have hkept (id : String) (q : CapabilityGrant) (hq : L.grants[id]? = some q) :=
    GrantLedger.kept_of_new hnew hq
  obtain ⟨⟨q, hq, hgrant⟩, hforce, hnamed, hsiblings⟩ := h
  have hid := GrantLedger.mem_grants hq
  have hdescends {x : String} (hx : GrantLedger.Descends
      { L with grants := L.grants.insert g.grantId g } id x) : L.Descends id x :=
    (hL.descends_of_kept hkept hid).mp hx
  have hrestricted {x p : String} (hx : L.Descends id x)
      (hp : GrantLedger.RestrictedTo { L with grants := L.grants.insert g.grantId g } x p) :
      L.RestrictedTo x p := by
    obtain ⟨q, hq, -⟩ := hforce x hx
    exact (GrantLedger.restrictedTo_iff hq).mpr ((GrantLedger.restrictedTo_iff (hkept x q hq)).mp hp)
  refine ⟨⟨q, hkept id q hq, hgrant⟩, fun x hx => ?_, fun x p hx hp => ?_, ?_⟩
  · obtain ⟨q, hq, hopen⟩ := hforce x (hdescends hx)
    exact ⟨q, hkept x q hq, hopen⟩
  · exact hnamed x p (hdescends hx) (hrestricted (hdescends hx) hp)
  · rintro ⟨x, p, hx, hp⟩
    exact hsiblings ⟨x, p, hdescends hx, hrestricted (hdescends hx) hp⟩

theorem SomeBacked.issue (hL : L.Sound) (h : SomeBacked org L request at_) (g : CapabilityGrant)
    (t : String) : SomeBacked org (L.issue F g t).1 request at_ := by
  obtain ⟨id, hbacked⟩ := h
  rcases GrantLedger.issue_cases F L g t with hsame | ⟨-, hnew, -, hissue⟩
  · rw [hsame]
    exact ⟨id, hbacked⟩
  · rw [hissue]
    exact ⟨id, hbacked.of_insert hL hnew⟩

/-- On every ledger a request for which some standing grant would do gets its permit exactly
when the grant with the smallest identifier will do; and where a permit could be had before
a further sibling preauthorization, it can be had after it under the same condition. -/
theorem preauthorization_complete_iff (F : Foreign) (org : OrgChart) (calls : List LedgerCall)
    (permitId : String) (request : CollaborationRequest) (at_ : String)
    (horg : org.validate = .ok ()) (hrequest : request.validate F = .ok ())
    (hat : validateTimestamp F at_ = .ok ()) (hle : byteLe at_ request.expires) :
    ((Obtainable F permitId org ((ledgerMachine F).exec {} calls) request at_ ↔
        SomeBacked org ((ledgerMachine F).exec {} calls) request at_) ↔
      LeastBacked org ((ledgerMachine F).exec {} calls) request at_) ∧
    ∀ supervisor child peer taskClass grantId validFrom validUntil L',
      (HiveProfile.authorizeSiblings F ((ledgerMachine F).exec {} calls) org supervisor child peer
        taskClass grantId validFrom validUntil).1 = L' →
      Obtainable F permitId org ((ledgerMachine F).exec {} calls) request at_ →
      (Obtainable F permitId org L' request at_ ↔ LeastBacked org L' request at_) := by
  have hL := GrantLedger.sound_exec F calls
  have hiff := obtainable_iff hL permitId horg hrequest hat hle
  refine ⟨?_, fun supervisor child peer taskClass grantId validFrom validUntil L' hL' hbefore => ?_⟩
  · rw [hiff]
    constructor
    · exact fun h hsome => (h.mpr hsome).2 hsome
    · exact fun hleast => ⟨And.left, fun hsome => ⟨hsome, hleast⟩⟩
  · rcases HiveProfile.authorizeSiblings_cases F ((ledgerMachine F).exec {} calls) org supervisor
      child peer taskClass grantId validFrom validUntil with hsame | ⟨g, hissue⟩
    · rw [← hL', hsame, hiff]
      exact and_iff_right (hiff.mp hbefore).1
    · have hsound : (GrantLedger.issue F ((ledgerMachine F).exec {} calls) g validFrom).1.Sound :=
        GrantLedger.sound_step hL (.issue g validFrom)
      have hsome := (hiff.mp hbefore).1.issue (F := F) hL g validFrom
      rw [← hL', hissue, obtainable_iff hsound permitId horg hrequest hat hle]
      exact and_iff_right hsome

/-! ## A second sibling -/

/-- After the preauthorization of `a` for `b`, one for `c` under a smaller identifier. -/
def twoSiblings : List LedgerCall :=
  oneSibling ++ [.issue (siblingGrant "g-000000000002" "urn:hacp:agent:c") "2026-01-01T00:00:00Z"]

def siblingRequest : CollaborationRequest :=
  ⟨"cr-000000000001", "urn:hacp:agent:a", "urn:hacp:agent:b", "build", "2026-06-30T00:00:00Z"⟩

theorem siblingRequest_valid :
    siblingChart.validate = .ok () ∧ siblingRequest.validate Foreign.placeholder = .ok () ∧
      validateTimestamp Foreign.placeholder "2026-06-01T00:00:00Z" = .ok () ∧
      byteLe "2026-06-01T00:00:00Z" siblingRequest.expires := by
  refine ⟨rfl, rfl, rfl, ?_⟩
  decide

theorem preauthorization_complete_iff_siblings :
    ((Obtainable Foreign.placeholder "cp-000000000001" siblingChart
          ((ledgerMachine Foreign.placeholder).exec {} oneSibling) siblingRequest
          "2026-06-01T00:00:00Z" ↔
        SomeBacked siblingChart ((ledgerMachine Foreign.placeholder).exec {} oneSibling)
          siblingRequest "2026-06-01T00:00:00Z") ↔
      LeastBacked siblingChart ((ledgerMachine Foreign.placeholder).exec {} oneSibling)
        siblingRequest "2026-06-01T00:00:00Z") ∧
    ∀ supervisor child peer taskClass grantId validFrom validUntil L',
      (HiveProfile.authorizeSiblings Foreign.placeholder
        ((ledgerMachine Foreign.placeholder).exec {} oneSibling) siblingChart supervisor child peer
        taskClass grantId validFrom validUntil).1 = L' →
      Obtainable Foreign.placeholder "cp-000000000001" siblingChart
        ((ledgerMachine Foreign.placeholder).exec {} oneSibling) siblingRequest
        "2026-06-01T00:00:00Z" →
      (Obtainable Foreign.placeholder "cp-000000000001" siblingChart L' siblingRequest
          "2026-06-01T00:00:00Z" ↔
        LeastBacked siblingChart L' siblingRequest "2026-06-01T00:00:00Z") :=
  preauthorization_complete_iff Foreign.placeholder siblingChart oneSibling "cp-000000000001"
    siblingRequest "2026-06-01T00:00:00Z" siblingRequest_valid.1 siblingRequest_valid.2.1
    siblingRequest_valid.2.2.1 siblingRequest_valid.2.2.2

/-- The preauthorization for `c` takes the permit for `b` away. -/
theorem not_preauthorization_complete :
    ¬∀ (F : Foreign) (org : OrgChart) (calls : List LedgerCall) (permitId : String)
      (request : CollaborationRequest) (at_ : String), org.validate = .ok () →
      request.validate F = .ok () → validateTimestamp F at_ = .ok () →
      byteLe at_ request.expires →
      (Obtainable F permitId org ((ledgerMachine F).exec {} calls) request at_ ↔
        SomeBacked org ((ledgerMachine F).exec {} calls) request at_) := by
  intro h
  obtain ⟨horg, hrequest, hat, hle⟩ := siblingRequest_valid
  have hcomplete := h Foreign.placeholder siblingChart twoSiblings "cp-000000000001" siblingRequest
    "2026-06-01T00:00:00Z" horg hrequest hat hle
  have hadmitted : siblingPermit.authorizeSession Foreign.placeholder siblingChart
      ((ledgerMachine Foreign.placeholder).exec {} twoSiblings) "urn:hacp:agent:a"
      "urn:hacp:agent:b" "build" "2026-06-01T00:00:00Z" = .returns (.ok ()) := rfl
  have hbacked := authorizeSession_preauthorization
    (GrantLedger.sound_exec Foreign.placeholder twoSiblings) rfl hadmitted
  obtain ⟨p, hp⟩ := hcomplete.mpr ⟨_, hbacked.2⟩
  have hrefused : byPreauthorization Foreign.placeholder "cp-000000000001" siblingChart
      ((ledgerMachine Foreign.placeholder).exec {} twoSiblings) siblingRequest
      "2026-06-01T00:00:00Z" =
      .returns (.error (.grant (.chainMismatch "urn:hacp:agent:s" "urn:hacp:agent:b"))) := rfl
  rw [hrefused] at hp
  cases Outcome.returns.inj hp

end CollaborationPermit
end Hacp.V2
