import Hacp.V2.Revocation

/-!
# A permit is admitted until it expires, and nowhere else

Issuing and admission are separate checks. What issuing found of the grant and its
ancestors holds at every later time up to the expiry of the permit, the least of
their window ends, so admission finds the same again; pair, task class and expiry
are compared before anything else.
-/
namespace Hacp.V2
open Lib Std

namespace OrgChart
variable {org : OrgChart}

theorem checkedChain_lineage {agent : String} {path : List String}
    (h : org.checkedChain agent = .ok path) :
    Lineage (fun x => org.parentOf[x]?) agent path := by
  obtain ⟨r, hr⟩ := GrantLedger.checkedChain_loop_returns org agent
  -- what is still above the current agent continues the path so far
  have hpost : ∀ path, r = .ok path → Lineage (fun x => org.parentOf[x]?) agent path := by
    refine Loop.iterate_post (fun s => ∃ pre, s.1 = pre ++ [s.2] ∧
        ∀ l, Lineage (fun x => org.parentOf[x]?) s.2 l →
          Lineage (fun x => org.parentOf[x]?) agent (pre ++ l))
      (fun r => ∀ path, r = .ok path → Lineage (fun x => org.parentOf[x]?) agent path)
      ?_ ?_ ⟨[], rfl, fun l hl => hl⟩ hr
    · rintro ⟨path, current⟩ s' ⟨pre, hpath, hpre⟩ hb
      simp only [checkedChainTurn] at hpath hpre hb
      cases hparent : org.parentOf[current]? with
      | none => simp [hparent] at hb
      | some parent =>
        simp only [hparent] at hb
        split_ifs at hb
        obtain rfl := Sum.inl.inj hb
        refine ⟨path, rfl, fun l hl => ?_⟩
        rw [hpath, List.append_assoc]
        exact hpre _ (.child hparent hl)
    · rintro ⟨path, current⟩ r ⟨pre, hpath, hpre⟩ hb path' rfl
      simp only [checkedChainTurn] at hpath hpre hb
      cases hparent : org.parentOf[current]? with
      | none =>
        simp only [hparent] at hb
        obtain rfl := Except.ok.inj (Sum.inr.inj hb)
        rw [hpath]
        exact hpre _ (.root hparent)
      | some parent =>
        simp only [hparent] at hb
        split_ifs at hb
        cases Sum.inr.inj hb
  rw [checkedChain, hr] at h
  exact hpost path h

theorem lca_comm (org : OrgChart) (a b : String) : org.lca a b = org.lca b a := by
  unfold lca
  cases ha : org.checkedChain a with
  | error e => cases org.checkedChain b <;> rfl
  | ok chainA =>
    cases hb : org.checkedChain b with
    | error e => rfl
    | ok chainB =>
      simp only
      rcases (checkedChain_lineage ha).tail with hnil | ⟨a', hla⟩
      · simp only [hnil, List.find?_nil, List.not_mem_nil, decide_false]
        exact (List.find?_eq_none.mpr fun x _ => Bool.false_ne_true).symm
      · rcases (checkedChain_lineage hb).tail with hnil | ⟨b', hlb⟩
        · simp [hnil]
        · exact hla.find_comm hlb

end OrgChart

/-- Both ends of the window of a well-shaped grant are canonical timestamps. -/
theorem CapabilityGrant.checkShape_window {F : Foreign} {g : CapabilityGrant}
    (h : g.checkShape F = .ok ()) :
    validateTimestamp F g.validFrom = .ok () ∧ validateTimestamp F g.validUntil = .ok () := by
  -- the checks on the window stand at the end of every branch
  have hwindow : (do
      (validateTimestamp F g.validFrom).mapError fun _ => GrantError.badTimestamp g.validFrom
      (validateTimestamp F g.validUntil).mapError fun _ => .badTimestamp g.validUntil
      if ¬byteLe g.validFrom g.validUntil then .error (.badWindow g.validFrom g.validUntil)
      else .ok ()) = .ok () →
      validateTimestamp F g.validFrom = .ok () ∧ validateTimestamp F g.validUntil = .ok () := by
    intro h
    obtain ⟨_, hfrom, h⟩ := bind_eq_ok.mp h
    obtain ⟨_, huntil, -⟩ := bind_eq_ok.mp h
    exact ⟨mapError_eq_ok.mp hfrom, mapError_eq_ok.mp huntil⟩
  obtain ⟨_, -, h⟩ := bind_eq_ok.mp h
  cases hp : g.peer with
  | none =>
    simp only [hp] at h
    by_cases hagent : (!(g.parent.isNone && g.grantor == deploymentCharterer)) = true
    · simp only [hagent, if_true] at h
      obtain ⟨_, -, h⟩ := bind_eq_ok.mp h
      obtain ⟨_, -, h⟩ := bind_eq_ok.mp h
      exact hwindow h
    · simp only [hagent] at h
      obtain ⟨_, -, h⟩ := bind_eq_ok.mp h
      exact hwindow h
  | some peer =>
    simp only [hp] at h
    by_cases hagent : (!(g.parent.isNone && g.grantor == deploymentCharterer)) = true
    · simp only [hagent, if_true] at h
      obtain ⟨_, -, h⟩ := bind_eq_ok.mp h
      obtain ⟨_, -, h⟩ := bind_eq_ok.mp h
      obtain ⟨_, -, h⟩ := bind_eq_ok.mp h
      exact hwindow h
    · simp only [hagent] at h
      obtain ⟨_, -, h⟩ := bind_eq_ok.mp h
      obtain ⟨_, -, h⟩ := bind_eq_ok.mp h
      exact hwindow h

namespace GrantLedger
variable {F : Foreign} {L : GrantLedger}

def Shaped (F : Foreign) (L : GrantLedger) : Prop :=
  ∀ (id : String) (g : CapabilityGrant), L.grants[id]? = some g → g.checkShape F = .ok ()

theorem shaped_step (hL : L.Shaped F) (call : LedgerCall) :
    ((ledgerMachine F).step L call).1.Shaped F := by
  cases call with
  | issue g at_ =>
    rcases issue_cases F L g at_ with hsame | ⟨hshape, -, -, hissue⟩
    · exact (congrArg (Shaped F) hsame).mpr hL
    · refine (congrArg (fun r => Shaped F r.1) hissue).mpr fun id q hq => ?_
      rw [ExtTreeMap.getElem?_insert] at hq
      split_ifs at hq
      · exact Option.some.inj hq ▸ hshape
      · exact hL id q hq
  | revoke grantId =>
    intro id q hq
    exact hL id q (L.revoke_grants grantId ▸ hq)

theorem shaped_exec (F : Foreign) (calls : List LedgerCall) :
    ((ledgerMachine F).exec {} calls).Shaped F :=
  Machine.exec_invariant (P := Shaped F) (fun _ call h => shaped_step h call)
    (fun id g hg => by simp at hg) calls

/-- What is in force at one time is in force later, until its window ends. -/
theorem InForce.later {id at_ t : String} (h : L.InForce at_ id) (hle : byteLe at_ t)
    (hend : ∀ g, L.grants[id]? = some g → byteLe t g.validUntil) : L.InForce t id := by
  obtain ⟨g, hg, hrevoked, hwindow⟩ := h
  simp only [CapabilityGrant.windowOpen, Bool.and_eq_true, decide_eq_true_eq] at hwindow
  refine ⟨g, hg, hrevoked, ?_⟩
  simp only [CapabilityGrant.windowOpen, Bool.and_eq_true, decide_eq_true_eq]
  exact ⟨byteLe_trans hwindow.1 hle, hend g hg⟩

end GrantLedger

namespace CollaborationPermit
variable {F : Foreign} {org : OrgChart} {L : GrantLedger} {p : CollaborationPermit}

def Refused (r : Outcome (Except CrossBranchError Unit)) : Prop :=
  ∃ e, r = .returns (.error e)

theorem request_valid {request : CollaborationRequest} (h : request.validate F = .ok ()) :
    request.taskClass ≠ "" ∧ validateTimestamp F request.expires = .ok () := by
  obtain ⟨_, -, h⟩ := bind_eq_ok.mp h
  obtain ⟨_, -, h⟩ := bind_eq_ok.mp h
  obtain ⟨_, -, h⟩ := bind_eq_ok.mp h
  rw [guard_eq_ok, not_or] at h
  exact ⟨h.1.2, mapError_eq_ok.mp h.2⟩

theorem authorizes_ok {a b at_ : String} : p.authorizes F a b at_ = .ok () ↔
    validateTimestamp F at_ = .ok () ∧ validateTimestamp F p.expires = .ok () ∧
      byteLe at_ p.expires ∧ ((a = p.requester ∧ b = p.peer) ∨ (a = p.peer ∧ b = p.requester)) := by
  unfold authorizes
  constructor
  · intro h
    obtain ⟨_, hat, h⟩ := bind_eq_ok.mp h
    obtain ⟨_, hexpires, h⟩ := bind_eq_ok.mp h
    rw [guard_eq_ok, not_not] at h
    refine ⟨mapError_eq_ok.mp hat, mapError_eq_ok.mp hexpires, h.1, ?_⟩
    by_contra hpair
    rw [if_neg hpair] at h
    cases h.2
  · rintro ⟨hat, hexpires, hle, hpair⟩
    rw [hat, hexpires]
    simp only [Except.mapError, bind, Except.bind, hle, not_true_eq_false, if_false, if_pos hpair]

/-- Pair, class and expiry are compared before the authority is rechecked. -/
theorem refused_unless {a b taskClass at_ : String} (h : ¬(taskClass = p.taskClass ∧
    byteLe at_ p.expires ∧ ((a = p.requester ∧ b = p.peer) ∨ (a = p.peer ∧ b = p.requester)))) :
    Refused (p.authorizeSession F org L a b taskClass at_) := by
  unfold authorizeSession
  cases hpair : p.authorizes F a b at_ with
  | error e => exact ⟨e, rfl⟩
  | ok =>
    have hok := authorizes_ok.mp hpair
    have hclass : taskClass = "" ∨ p.taskClass ≠ taskClass :=
      .inr fun hcon => h ⟨hcon.symm, hok.2.2.1, hok.2.2.2⟩
    exact ⟨_, if_pos hclass⟩

/-- What issuing by preauthorization found, and the permit it made of it. -/
structure Issued (F : Foreign) (org : OrgChart) (L : GrantLedger)
    (request : CollaborationRequest) (at_ : String) (p : CollaborationPermit)
    (grantId : String) (g : CapabilityGrant) : Prop where
  valid : request.validate F = .ok ()
  held : g ∈ L.heldBy F request.requester at_
  scope : (g.scopes.any fun s => s.name == "cross-branch/" ++ request.taskClass) = true
  id : g.grantId = grantId
  grantor : ∃ g', L.grants[grantId]? = some g' ∧ g'.grantor ∈ org.chain request.peer
  peer : L.preauthorizationAllowsPeer grantId org request.requester request.peer =
    .returns (.ok true)
  lowered : Loop.iterate (expiryTurn L) (L.grants.size + 1) (some grantId, request.expires) =
    some (some p.expires)
  named : p.requester = request.requester ∧ p.peer = request.peer ∧
    p.taskClass = request.taskClass ∧ p.issuedBy = request.requester ∧
    p.basis = .preauthorization grantId

theorem byPreauthorization_issued {permitId at_ : String} {request : CollaborationRequest}
    (h : byPreauthorization F permitId org L request at_ = .returns (.ok p)) :
    ∃ grantId g, Issued F org L request at_ p grantId g := by
  unfold byPreauthorization at h
  simp only at h
  split at h
  · cases Outcome.returns.inj h
  · rename_i grantId hchecks
    obtain ⟨_, -, hchecks⟩ := bind_eq_ok.mp hchecks
    obtain ⟨_, hrequest, hchecks⟩ := bind_eq_ok.mp hchecks
    obtain ⟨_, -, hpre⟩ := bind_eq_ok.mp hchecks
    cases hfound : L.preauthorizes F request.requester request.taskClass at_ with
    | none => simp [hfound] at hpre
    | some id =>
      rw [hfound] at hpre
      obtain rfl := Except.ok.inj hpre
      rw [GrantLedger.preauthorizes, Option.map_eq_some_iff] at hfound
      obtain ⟨g, hfind, hid⟩ := hfound
      have hscope := List.find?_some hfind
      cases hrec : L.grants[id]? with
      | none => simp [hrec] at h
      | some g' =>
        simp only [hrec] at h
        by_cases hgrantor : g'.grantor ∈ org.chain request.peer
        swap
        · rw [if_pos hgrantor] at h
          cases Outcome.returns.inj h
        rw [if_neg (not_not.mpr hgrantor)] at h
        cases hpeer : L.preauthorizationAllowsPeer id org request.requester request.peer with
        | panics => simp [hpeer] at h
        | diverges => simp [hpeer] at h
        | returns r =>
          rcases r with e | _ | _
          · simp [hpeer] at h
          · simp [hpeer] at h
          · simp only [hpeer] at h
            cases hloop : Loop.iterate (expiryTurn L) (L.grants.size + 1)
                (some id, request.expires) with
            | none => simp [hloop] at h
            | some lowered =>
              cases lowered with
              | none => simp [hloop] at h
              | some lowered =>
                simp only [hloop] at h
                by_cases hle : byteLe at_ lowered
                swap
                · rw [if_pos hle] at h
                  cases Outcome.returns.inj h
                rw [if_neg (not_not.mpr hle)] at h
                obtain rfl := Except.ok.inj (Outcome.returns.inj h)
                exact ⟨id, g, mapError_eq_ok.mp hrequest, List.mem_of_find?_eq_some hfind,
                  hscope, hid, ⟨g', hrec, hgrantor⟩, hpeer, hloop,
                  rfl, rfl, rfl, rfl, rfl⟩

/-- The ends of the windows above a recorded grant are canonical, so the lowered expiry is. -/
theorem Issued.expires_canonical (hL : L.Sound) (hshaped : L.Shaped F)
    {request : CollaborationRequest} {at_ grantId : String} {g : CapabilityGrant}
    (h : Issued F org L request at_ p grantId g) :
    validateTimestamp F p.expires = .ok () ∧ byteLe p.expires request.expires ∧
      ∀ x gx, L.Descends grantId x → L.grants[x]? = some gx → byteLe p.expires gx.validUntil := by
  obtain ⟨g', hg', -⟩ := h.grantor
  have hid := GrantLedger.mem_grants hg'
  obtain ⟨l, hl⟩ := hL.lineage grantId
  obtain ⟨lowered, hloop, hle, hup, hone⟩ := hL.expiry_loop request.expires hl hid
    (Nat.lt_succ_of_le (hL.length_lineage_le hid hl))
  obtain rfl : p.expires = lowered := Option.some.inj (Option.some.inj (h.lowered.symm.trans hloop))
  refine ⟨?_, hle, fun x gx hx hgx => hup x (hl.mem_iff.mpr hx) gx hgx⟩
  rcases hone with heq | ⟨x, -, gx, hgx, heq⟩
  · rw [heq]
    exact (request_valid h.valid).2
  · rw [heq]
    exact (CapabilityGrant.checkShape_window (hshaped x gx hgx)).2

theorem Issued.open_until (hL : L.Sound) (hshaped : L.Shaped F) {request : CollaborationRequest}
    {at_ grantId : String} {g : CapabilityGrant} (h : Issued F org L request at_ p grantId g)
    {t : String} (ht : validateTimestamp F t = .ok ()) (hle : byteLe at_ t)
    (hend : byteLe t p.expires) : L.isOpen F grantId t = .ok true := by
  obtain ⟨g', hg', -⟩ := h.grantor
  have hid := GrantLedger.mem_grants hg'
  obtain ⟨-, -, hopen⟩ := GrantLedger.mem_heldBy.mp h.held
  rw [h.id] at hopen
  obtain ⟨l, hl⟩ := hL.lineage grantId
  obtain ⟨b, hb, hforce⟩ := hL.isOpen_canonical ht hl hid
  rcases hL.isOpen_recorded F at_ hl hid with herr | ⟨b', hb', hforce'⟩
  · rw [herr] at hopen
    cases hopen
  · have htrue : b' = true := Except.ok.inj (hb'.symm.trans hopen)
    have hlater : ∀ x ∈ l, L.InForce t x := fun x hx =>
      (hforce'.mp htrue x hx).later hle fun gx hgx =>
        byteLe_trans hend ((h.expires_canonical hL hshaped).2.2 x gx (hl.mem_iff.mp hx) hgx)
    rw [hb, hforce.mpr hlater]

/-- A canonical time between the issuing and the expiry finds every check as it was. -/
theorem Issued.admitted (hL : L.Sound) (hshaped : L.Shaped F) {request : CollaborationRequest}
    {at_ grantId : String} {g : CapabilityGrant} (h : Issued F org L request at_ p grantId g)
    {a b t : String} (hpair : (a = p.requester ∧ b = p.peer) ∨ (a = p.peer ∧ b = p.requester))
    (ht : validateTimestamp F t = .ok ()) (hle : byteLe at_ t) (hend : byteLe t p.expires) :
    p.authorizeSession F org L a b p.taskClass t = .returns (.ok ()) := by
  obtain ⟨hrequester, hpeer, hclass, hissuer, hbasis⟩ := h.named
  have hpairOk : p.authorizes F a b t = .ok () :=
    authorizes_ok.mpr ⟨ht, (h.expires_canonical hL hshaped).1, hend, hpair⟩
  have hnonempty : p.taskClass ≠ "" := hclass ▸ (request_valid h.valid).1
  have hallowed : p.grantorAuthorizesPeer org L grantId = .returns (.ok true) := by
    obtain ⟨g', hg', hgrantor⟩ := h.grantor
    rw [grantorAuthorizesPeer, hg', hrequester, hpeer]
    simp only [Option.any_some, hgrantor, decide_true, if_true, h.peer]
  have hopen := h.open_until hL hshaped ht hle hend
  have hheld : g ∈ L.heldBy F request.requester t := by
    obtain ⟨hrec, hgrantee, -⟩ := GrantLedger.mem_heldBy.mp h.held
    exact GrantLedger.mem_heldBy.mpr ⟨hrec, hgrantee, h.id.symm ▸ hopen⟩
  have hany : ((L.heldBy F request.requester t).any fun g => g.grantId == grantId &&
      g.scopes.any fun s => s.name == "cross-branch/" ++ p.taskClass) = true := by
    refine List.any_eq_true.mpr ⟨g, hheld, ?_⟩
    rw [hclass, h.scope, h.id]
    simp
  simp only [authorizeSession, hpairOk, hnonempty, hbasis, hallowed, hissuer, hrequester,
    ne_eq, not_true_eq_false, or_self, if_false, hopen, hany]
  rfl

/-! ## The lowest common supervisor -/

theorem byLca_issued {permitId issuer : String} {request : CollaborationRequest}
    (h : byLca F permitId org request issuer = .ok p) :
    org.validate = .ok () ∧ request.validate F = .ok () ∧
      org.lca request.requester request.peer = some issuer ∧
      p = ⟨permitId, request.requestId, request.taskClass, request.requester, request.peer,
        issuer, .lca issuer, request.expires⟩ := by
  obtain ⟨_, horg, h⟩ := bind_eq_ok.mp h
  obtain ⟨_, hrequest, h⟩ := bind_eq_ok.mp h
  cases hlca : org.lca request.requester request.peer with
  | none => simp [hlca] at h
  | some supervisor =>
    rw [hlca] at h
    simp only at h
    rw [guard_eq_ok, not_not] at h
    obtain ⟨rfl, h⟩ := h
    exact ⟨mapError_eq_ok.mp horg, mapError_eq_ok.mp hrequest, rfl, (Except.ok.inj h).symm⟩

theorem byLca_admitted {permitId issuer : String} {request : CollaborationRequest}
    (h : byLca F permitId org request issuer = .ok p) (L : GrantLedger) {a b t : String}
    (hpair : (a = p.requester ∧ b = p.peer) ∨ (a = p.peer ∧ b = p.requester))
    (ht : validateTimestamp F t = .ok ()) (hend : byteLe t p.expires) :
    p.authorizeSession F org L a b p.taskClass t = .returns (.ok ()) := by
  obtain ⟨horg, hrequest, hlca, hp⟩ := byLca_issued h
  have hvalid := request_valid hrequest
  have hexpires : validateTimestamp F p.expires = .ok () := by
    rw [hp]
    exact hvalid.2
  have hpairOk : p.authorizes F a b t = .ok () :=
    authorizes_ok.mpr ⟨ht, hexpires, hend, hpair⟩
  subst hp
  have hboth : org.lca a b = some issuer := by
    rcases hpair with ⟨rfl, rfl⟩ | ⟨rfl, rfl⟩
    · exact hlca
    · rw [OrgChart.lca_comm]
      exact hlca
  simp only [authorizeSession, hpairOk, horg, hboth, hvalid.1, ne_eq, not_true_eq_false, or_self,
    if_false]

/-! ## Both ways -/

/-- `p` opens sessions for the pair of `request` in both orders, for its task class and for
the canonical times `t` with `Within t`, and for nothing else. -/
structure AdmitsOnly (F : Foreign) (org : OrgChart) (L : GrantLedger)
    (request : CollaborationRequest) (p : CollaborationPermit) (Within : String → Prop) :
    Prop where
  named : p.requester = request.requester ∧ p.peer = request.peer ∧
    p.taskClass = request.taskClass
  admitted : ∀ t, validateTimestamp F t = .ok () → Within t →
    p.authorizeSession F org L p.requester p.peer p.taskClass t = .returns (.ok ()) ∧
      p.authorizeSession F org L p.peer p.requester p.taskClass t = .returns (.ok ())
  otherPair : ∀ a b taskClass t,
    ¬((a = p.requester ∧ b = p.peer) ∨ (a = p.peer ∧ b = p.requester)) →
    Refused (p.authorizeSession F org L a b taskClass t)
  otherClass : ∀ a b taskClass t, taskClass ≠ p.taskClass →
    Refused (p.authorizeSession F org L a b taskClass t)
  expired : ∀ a b taskClass t, ¬byteLe t p.expires →
    Refused (p.authorizeSession F org L a b taskClass t)

/-- What an issued permit is worth on the chart and the ledger it was issued on. -/
structure PermitsHold (F : Foreign) (org : OrgChart) (L : GrantLedger)
    (request : CollaborationRequest) : Prop where
  preauthorized : ∀ permitId at_ p,
    byPreauthorization F permitId org L request at_ = .returns (.ok p) →
    AdmitsOnly F org L request p (fun t => byteLe at_ t ∧ byteLe t p.expires) ∧
    byteLe p.expires request.expires ∧
    ∃ grantId ∈ L.grants, p.basis = .preauthorization grantId ∧
      ∀ x g, L.Descends grantId x → L.grants[x]? = some g → byteLe p.expires g.validUntil
  ruled : ∀ permitId issuer p, byLca F permitId org request issuer = .ok p →
    AdmitsOnly F org L request p (fun t => byteLe t p.expires)

theorem admitsOnly {request : CollaborationRequest} {Within : String → Prop}
    (hnamed : p.requester = request.requester ∧ p.peer = request.peer ∧
      p.taskClass = request.taskClass)
    (h : ∀ a b t, (a = p.requester ∧ b = p.peer) ∨ (a = p.peer ∧ b = p.requester) →
      validateTimestamp F t = .ok () → Within t →
      p.authorizeSession F org L a b p.taskClass t = .returns (.ok ())) :
    AdmitsOnly F org L request p Within where
  named := hnamed
  admitted t ht hw := ⟨h _ _ t (.inl ⟨rfl, rfl⟩) ht hw, h _ _ t (.inr ⟨rfl, rfl⟩) ht hw⟩
  otherPair _ _ _ _ hpair := refused_unless fun hcon => hpair hcon.2.2
  otherClass _ _ _ _ hclass := refused_unless fun hcon => hclass hcon.1
  expired _ _ _ _ hlate := refused_unless fun hcon => hlate hcon.2.1

/-- A permit is admitted from its issuing until it expires, and nowhere else. -/
theorem permits_admitted_until_expiry (F : Foreign) (org : OrgChart) (calls : List LedgerCall)
    (request : CollaborationRequest) :
    PermitsHold F org ((ledgerMachine F).exec {} calls) request := by
  have hL := GrantLedger.sound_exec F calls
  have hshaped := GrantLedger.shaped_exec F calls
  refine ⟨fun permitId at_ p hp => ?_, fun permitId issuer p hp => ?_⟩
  · obtain ⟨grantId, g, h⟩ := byPreauthorization_issued hp
    obtain ⟨hrequester, hpeer, hclass, -, hbasis⟩ := h.named
    obtain ⟨-, hle, hup⟩ := h.expires_canonical hL hshaped
    obtain ⟨g', hg', -⟩ := h.grantor
    refine ⟨admitsOnly ⟨hrequester, hpeer, hclass⟩ fun a b t hpair ht hw => ?_, hle, grantId,
      GrantLedger.mem_grants hg', hbasis, hup⟩
    exact h.admitted hL hshaped hpair ht hw.1 hw.2
  · obtain ⟨-, -, -, hp'⟩ := byLca_issued hp
    refine admitsOnly (by rw [hp']; exact ⟨rfl, rfl, rfl⟩) fun a b t hpair ht hw => ?_
    exact byLca_admitted hp _ hpair ht hw

end CollaborationPermit
end Hacp.V2
