import Hacp.V2.PermitAdmission

/-!
# Admission trusts no field of a permit

Every field of a stored permit may be forged. What admission establishes it reads off
the chart and the ledger of now: the lowest common supervisor of the pair, or an open
grant of the requester whose restrictions, its own and the inherited ones, fit the
peer.
-/
namespace Hacp.V2
open Lib Std

namespace OrgChart
variable {org : OrgChart} {a b s : String}

/-- `upper` is met on the declared way up from `agent`, or is `agent` itself. -/
def OnChain (org : OrgChart) (agent upper : String) : Prop :=
  ∃ path, Lineage (fun x => org.parentOf[x]?) agent path ∧ upper ∈ path

/-- `s` stands above `agent` and is not `agent` itself. -/
def Supervises (org : OrgChart) (s agent : String) : Prop :=
  ∃ parent, org.parentOf[agent]? = some parent ∧ org.OnChain parent s

/-- The first supervisor that two agents share: every other one stands above it. -/
structure LowestCommon (org : OrgChart) (a b s : String) : Prop where
  left : org.Supervises s a
  right : org.Supervises s b
  lowest : ∀ x, org.Supervises x a → org.Supervises x b → org.OnChain s x

def Siblings (org : OrgChart) (a b : String) : Prop :=
  a ≠ b ∧ ∃ s, org.parentOf[a]? = some s ∧ org.parentOf[b]? = some s

theorem onChain_of_mem_chain (h : s ∈ org.chain a) : org.OnChain a s := by
  unfold chain at h
  cases hchain : org.checkedChain a with
  | error e => simp [hchain] at h
  | ok path =>
    rw [hchain] at h
    exact ⟨path, checkedChain_lineage hchain, h⟩

/-- A way up that ends is what `checked_chain` finds: its guard meets no agent twice. -/
theorem checkedChain_of_lineage {path : List String}
    (h : Lineage (fun x => org.parentOf[x]?) a path) : org.checkedChain a = .ok path := by
  obtain ⟨r, hr⟩ := GrantLedger.checkedChain_loop_returns org a
  -- the path so far and what is still above its last agent make up the whole way
  have hpost : r = .ok path := by
    refine Loop.iterate_post (fun s => ∃ pre rest, s.1 = pre ++ [s.2] ∧
        path = pre ++ s.2 :: rest ∧ Lineage (fun x => org.parentOf[x]?) s.2 (s.2 :: rest))
      (fun r => r = .ok path) ?_ ?_ ?_ hr
    · rintro ⟨path', current⟩ s' ⟨pre, rest, hpath', hpath, hup⟩ hb
      simp only [checkedChainTurn] at hpath' hpath hup hb
      cases hup with
      | root hroot => simp [hroot] at hb
      | @child _ parent _ hparent hup =>
        obtain ⟨rest', rfl⟩ := hup.head
        simp only [hparent] at hb
        split_ifs at hb
        obtain rfl := Sum.inl.inj hb
        exact ⟨path', rest', rfl, by rw [hpath', hpath, List.append_assoc]; rfl, hup⟩
    · rintro ⟨path', current⟩ r ⟨pre, rest, hpath', hpath, hup⟩ hb
      simp only [checkedChainTurn] at hpath' hpath hup hb
      cases hup with
      | root hroot =>
        simp only [hroot] at hb
        rw [← Sum.inr.inj hb, hpath', hpath]
      | @child _ parent _ hparent hup =>
        obtain ⟨rest', rfl⟩ := hup.head
        simp only [hparent] at hb
        split_ifs at hb with hseen
        -- a repeated agent would be met twice on the way up
        have hsplit : path = path' ++ parent :: rest' := by
          rw [hpath', hpath, List.append_assoc]
          rfl
        have hnodup := List.nodup_append.mp (hsplit ▸ h.nodup)
        exact absurd rfl (hnodup.2.2 parent hseen parent List.mem_cons_self)
    · obtain ⟨up, rfl⟩ := h.head
      exact ⟨[], up, rfl, rfl, h⟩
  rw [checkedChain, hr, hpost]
  rfl

theorem mem_chain_iff : s ∈ org.chain a ↔ org.OnChain a s := by
  refine ⟨onChain_of_mem_chain, fun ⟨path, hpath, hs⟩ => ?_⟩
  simp only [chain, checkedChain_of_lineage hpath]
  exact hs

/-- What stands strictly above an agent is its chain without the agent. -/
theorem mem_drop_iff {path : List String} (h : Lineage (fun x => org.parentOf[x]?) a path) :
    s ∈ path.drop 1 ↔ org.Supervises s a := by
  cases h with
  | root hroot => simp [Supervises, hroot]
  | @child _ parent up hparent hup =>
    constructor
    · intro hs
      exact ⟨parent, hparent, up, hup, hs⟩
    · rintro ⟨parent', hparent', path', hpath', hs⟩
      obtain rfl := Option.some.inj (hparent.symm.trans hparent')
      exact hup.unique hpath' ▸ hs

theorem lowestCommon_of_lca (h : org.lca a b = some s) : org.LowestCommon a b s := by
  unfold lca at h
  cases ha : org.checkedChain a with
  | error e => simp [ha] at h
  | ok chainA =>
    cases hb : org.checkedChain b with
    | error e => simp [ha, hb] at h
    | ok chainB =>
      simp only [ha, hb] at h
      have hla := checkedChain_lineage ha
      have hlb := checkedChain_lineage hb
      obtain ⟨hs, pre, post, hsplit, hpre⟩ := List.find?_eq_some_iff_append.mp h
      have hsa : s ∈ chainA.drop 1 := hsplit ▸ List.mem_append_right _ List.mem_cons_self
      refine ⟨(mem_drop_iff hla).mp hsa, (mem_drop_iff hlb).mp (of_decide_eq_true hs),
        fun x hxa hxb => ?_⟩
      -- nothing before `s` on the way up from `a` is shared, so `x` is met from `s` on
      have hx := (mem_drop_iff hla).mpr hxa
      rw [hsplit, List.mem_append] at hx
      rcases hx with hx | hx
      · have hnot := hpre x hx
        rw [Bool.not_eq_true', decide_eq_false_iff_not] at hnot
        exact absurd ((mem_drop_iff hlb).mpr hxb) hnot
      · obtain ⟨up, rfl⟩ := hla.head
        rw [List.drop_one, List.tail_cons] at hsplit
        rw [hsplit, ← List.cons_append] at hla
        exact ⟨s :: post, hla.of_append, hx⟩

end OrgChart

namespace GrantLedger
variable {F : Foreign} {L : GrantLedger}

def RestrictedTo (L : GrantLedger) (id q : String) : Prop :=
  ∃ g, L.grants[id]? = some g ∧ g.peer = some q

theorem restrictedTo_iff {id q : String} {g : CapabilityGrant} (hg : L.grants[id]? = some g) :
    L.RestrictedTo id q ↔ g.peer = some q := by
  simp [RestrictedTo, hg]

theorem restriction_of_recorded {id : String} {g : CapabilityGrant}
    (hg : L.grants[id]? = some g) (peer : String) :
    (g.peer.all (fun q => decide (q = peer)) = true ↔ ∀ q, L.RestrictedTo id q → q = peer) ∧
      (g.peer.isSome = true ↔ ∃ q, L.RestrictedTo id q) := by
  simp only [restrictedTo_iff hg]
  cases g.peer <;> simp

theorem allowsPeerTurn_recorded {id : String} {g : CapabilityGrant} (hg : L.grants[id]? = some g)
    (org : OrgChart) (requester peer : String) (restricted : Bool) :
    L.allowsPeerTurn org requester peer (some id, restricted) =
      if g.peer.all (fun q => decide (q = peer)) = true then
        .inl (g.parent, restricted || g.peer.isSome)
      else .inr (.ok false) := by
  cases hpeer : g.peer with
  | none => simp [allowsPeerTurn, hg, hpeer]
  | some q => by_cases hq : q = peer <;> simp [allowsPeerTurn, hg, hpeer, hq]

/-- The turn without a grant left asks for siblings where a restriction was met. -/
theorem allowsPeerTurn_root (L : GrantLedger) (org : OrgChart) (requester peer : String)
    (restricted : Bool) :
    ∃ b, L.allowsPeerTurn org requester peer (none, restricted) = .inr (.ok b) ∧
      (b = true ↔ (restricted = true → org.Siblings requester peer)) := by
  refine ⟨_, rfl, ?_⟩
  cases restricted with
  | false => simp
  | true =>
    rw [OrgChart.Siblings]
    cases org.parentOf[requester]? with
    | none => simp
    | some s => simp [eq_comm (a := some s)]

/-- The loop over the way up compares every restriction with the peer and asks for siblings
where it met one. -/
theorem Sound.allowsPeer_loop (hL : L.Sound) (org : OrgChart) (requester peer : String)
    {id : String} {l : List String} (hl : Lineage L.parentLink id l) (hid : id ∈ L.grants)
    (restricted : Bool) {n : ℕ}
    (hn : l.length < n) :
    ∃ b, Loop.iterate (L.allowsPeerTurn org requester peer) n (some id, restricted) =
        some (.ok b) ∧
      (b = true ↔ (∀ x ∈ l, ∀ q, L.RestrictedTo x q → q = peer) ∧
        ((restricted = true ∨ ∃ x ∈ l, ∃ q, L.RestrictedTo x q) →
          org.Siblings requester peer)) := by
  induction hl generalizing restricted n with
  | @root id hroot =>
    obtain ⟨g, hg⟩ := recorded hid
    obtain ⟨hall, hsome⟩ := restriction_of_recorded hg peer
    obtain ⟨n, rfl⟩ : ∃ k, n = k + 2 := ⟨n - 2, by simp at hn; omega⟩
    have hturn := allowsPeerTurn_recorded hg org requester peer restricted
    by_cases hfits : g.peer.all (fun q => decide (q = peer)) = true
    · rw [if_pos hfits, ← parentLink_of_recorded hg, hroot] at hturn
      obtain ⟨b, hlast, hb⟩ := allowsPeerTurn_root L org requester peer
        (restricted || g.peer.isSome)
      refine ⟨b, (Loop.iterate_succ_continue hturn _).trans (Loop.iterate_succ_exit hlast n), ?_⟩
      simp only [hb, Bool.or_eq_true, hsome, List.mem_singleton, forall_eq, exists_eq_left,
        and_iff_right (hall.mp hfits)]
    · rw [if_neg hfits] at hturn
      refine ⟨false, Loop.iterate_succ_exit hturn _, ?_⟩
      simp only [Bool.false_eq_true, List.mem_singleton, forall_eq, false_iff, not_and]
      exact fun hfit => absurd (hall.mpr hfit) hfits
  | @child id parentId up hparent hup ih =>
    obtain ⟨g, hg⟩ := recorded hid
    obtain ⟨hall, hsome⟩ := restriction_of_recorded hg peer
    obtain ⟨n, rfl⟩ : ∃ k, n = k + 1 := ⟨n - 1, by omega⟩
    have hturn := allowsPeerTurn_recorded hg org requester peer restricted
    by_cases hfits : g.peer.all (fun q => decide (q = peer)) = true
    · rw [if_pos hfits, ← parentLink_of_recorded hg, hparent] at hturn
      have hparentId : parentId ∈ L.grants :=
        hL.recorded_lineage hid (.child hparent hup) parentId
          (List.mem_cons_of_mem _ hup.self_mem)
      have hn' : up.length < n := by
        simp only [List.length_cons] at hn
        omega
      obtain ⟨b, hloop, hb⟩ := ih hparentId (restricted || g.peer.isSome) hn'
      refine ⟨b, (Loop.iterate_succ_continue hturn n).trans hloop, ?_⟩
      simp only [hb, Bool.or_eq_true, hsome, List.forall_mem_cons, List.exists_mem_cons_iff,
        and_iff_right (hall.mp hfits), or_assoc]
    · rw [if_neg hfits] at hturn
      refine ⟨false, Loop.iterate_succ_exit hturn _, ?_⟩
      simp only [Bool.false_eq_true, List.forall_mem_cons, false_iff, not_and]
      exact fun hfit => absurd (hall.mpr hfit.1) hfits

/-- Every restriction on the grant or above it names the peer, and where there is one the
requester and the peer are siblings. -/
structure PeerAllowed (L : GrantLedger) (org : OrgChart) (id requester peer : String) : Prop where
  named : ∀ x q, L.Descends id x → L.RestrictedTo x q → q = peer
  siblings : (∃ x q, L.Descends id x ∧ L.RestrictedTo x q) → org.Siblings requester peer

/-- On a recorded grant `preauthorization_allows_peer` decides whether the peer is allowed. -/
theorem Sound.allowsPeer_decides (hL : L.Sound) (org : OrgChart) {id : String}
    (hid : id ∈ L.grants) (requester peer : String) :
    ∃ b, L.preauthorizationAllowsPeer id org requester peer = .returns (.ok b) ∧
      (b = true ↔ L.PeerAllowed org id requester peer) := by
  obtain ⟨l, hl⟩ := hL.lineage id
  obtain ⟨b, hloop, hb⟩ := hL.allowsPeer_loop org requester peer hl hid false
    (Nat.lt_succ_of_le (hL.length_lineage_le hid hl))
  refine ⟨b, by simp only [preauthorizationAllowsPeer, hloop], hb.trans ⟨?_, ?_⟩⟩
  · rintro ⟨hnamed, hsiblings⟩
    refine ⟨fun x q hx hq => hnamed x (hl.mem_iff.mpr hx) q hq, ?_⟩
    rintro ⟨x, q, hx, hq⟩
    exact hsiblings (.inr ⟨x, hl.mem_iff.mpr hx, q, hq⟩)
  · rintro ⟨hnamed, hsiblings⟩
    refine ⟨fun x hx q hq => hnamed x q (hl.mem_iff.mp hx) hq, ?_⟩
    rintro (hfalse | ⟨x, hx, q, hq⟩)
    · cases hfalse
    · exact hsiblings ⟨x, q, hl.mem_iff.mp hx, hq⟩

/-- An answer `true` of `is_open` puts the whole way up in force. -/
theorem Sound.inForce_of_open (hL : L.Sound) {id at_ : String} (hid : id ∈ L.grants)
    (hopen : L.isOpen F id at_ = .ok true) : ∀ x, L.Descends id x → L.InForce at_ x := by
  obtain ⟨l, hl⟩ := hL.lineage id
  rcases hL.isOpen_recorded F at_ hl hid with herr | ⟨b, hb, hforce⟩
  · rw [herr] at hopen
    cases hopen
  · have htrue : b = true := Except.ok.inj (hb.symm.trans hopen)
    exact fun x hx => hforce.mp htrue x (hl.mem_iff.mpr hx)

end GrantLedger

namespace CollaborationPermit
variable {F : Foreign} {org : OrgChart} {L : GrantLedger} {p : CollaborationPermit}

/-- The grant that backs an admission, with everything read off the chart and the ledger. -/
structure Backed (org : OrgChart) (L : GrantLedger) (requester peer taskClass at_ grantId : String) :
    Prop where
  grant : ∃ g, L.grants[grantId]? = some g ∧ g.grantee = requester ∧
    (∃ s ∈ g.scopes, s.name = "cross-branch/" ++ taskClass) ∧ org.OnChain peer g.grantor
  inForce : ∀ x, L.Descends grantId x → L.InForce at_ x
  peer : L.PeerAllowed org grantId requester peer

/-- What an admitted session rests on. -/
structure Grounded (org : OrgChart) (L : GrantLedger) (p : CollaborationPermit)
    (a b taskClass at_ : String) : Prop where
  pair : (a = p.requester ∧ b = p.peer) ∨ (a = p.peer ∧ b = p.requester)
  sameClass : taskClass ≠ "" ∧ taskClass = p.taskClass
  unexpired : byteLe at_ p.expires
  basis : match p.basis with
    | .lca supervisor =>
      org.validate = .ok () ∧ p.issuedBy = supervisor ∧ org.LowestCommon a b p.issuedBy
    | .preauthorization grantId =>
      p.issuedBy = p.requester ∧ Backed org L p.requester p.peer taskClass at_ grantId

theorem authorizeSession_passed {a b taskClass at_ : String}
    (h : p.authorizeSession F org L a b taskClass at_ = .returns (.ok ())) :
    p.authorizes F a b at_ = .ok () ∧ ¬(taskClass = "" ∨ p.taskClass ≠ taskClass) := by
  unfold authorizeSession at h
  cases hpair : p.authorizes F a b at_ with
  | error e => simp [hpair] at h
  | ok =>
    refine ⟨rfl, fun hclass => ?_⟩
    simp only [hpair, if_pos hclass] at h
    simp at h

theorem authorizeSession_lca {a b taskClass at_ supervisor : String}
    (hbasis : p.basis = .lca supervisor)
    (h : p.authorizeSession F org L a b taskClass at_ = .returns (.ok ())) :
    org.validate = .ok () ∧ p.issuedBy = supervisor ∧ org.LowestCommon a b p.issuedBy := by
  obtain ⟨hpair, hclass⟩ := authorizeSession_passed h
  simp only [authorizeSession, hpair, if_neg hclass, hbasis] at h
  cases horg : org.validate with
  | error e => simp [horg] at h
  | ok =>
    simp only [horg] at h
    by_cases hissuer : p.issuedBy ≠ supervisor ∨ org.lca a b ≠ some supervisor
    · simp [if_pos hissuer] at h
    · rw [not_or, not_not, not_not] at hissuer
      obtain ⟨rfl, hlca⟩ := hissuer
      exact ⟨rfl, rfl, OrgChart.lowestCommon_of_lca hlca⟩

theorem grantorAuthorizesPeer_true {grantId : String}
    (h : p.grantorAuthorizesPeer org L grantId = .returns (.ok true)) :
    ∃ g, L.grants[grantId]? = some g ∧ g.grantor ∈ org.chain p.peer ∧
      L.preauthorizationAllowsPeer grantId org p.requester p.peer = .returns (.ok true) := by
  unfold grantorAuthorizesPeer at h
  cases hg : L.grants[grantId]? with
  | none => simp [hg] at h
  | some g =>
    by_cases hchain : g.grantor ∈ org.chain p.peer
    · simp only [hg, Option.any_some, hchain, decide_true, if_true] at h
      exact ⟨g, rfl, hchain, h⟩
    · simp [hg, hchain] at h

theorem authorizeSession_preauthorization (hL : L.Sound) {a b taskClass at_ grantId : String}
    (hbasis : p.basis = .preauthorization grantId)
    (h : p.authorizeSession F org L a b taskClass at_ = .returns (.ok ())) :
    p.issuedBy = p.requester ∧ Backed org L p.requester p.peer taskClass at_ grantId := by
  obtain ⟨hpair, hclass⟩ := authorizeSession_passed h
  simp only [authorizeSession, hpair, if_neg hclass, hbasis] at h
  cases hallowed : p.grantorAuthorizesPeer org L grantId with
  | panics => simp [hallowed] at h
  | diverges => simp [hallowed] at h
  | returns r =>
    cases r with
    | error e => simp [hallowed] at h
    | ok allowed =>
      simp only [hallowed] at h
      by_cases hissuer : p.issuedBy = p.requester
      swap
      · simp [hissuer] at h
      cases hopen : L.isOpen F grantId at_ with
      | error e => simp [hissuer, hopen] at h
      | ok isOpen =>
        simp only [hissuer, ne_eq, not_true_eq_false, if_false, hopen] at h
        cases isOpen with
        | false => simp at h
        | true =>
          by_cases hheld : (!allowed || !(L.heldBy F p.requester at_).any (fun g =>
              g.grantId == grantId && g.scopes.any fun s => s.name == "cross-branch/" ++ taskClass))
          · rw [if_pos hheld] at h
            cases Outcome.returns.inj h
          · simp only [Bool.or_eq_true, Bool.not_eq_true', not_or, Bool.not_eq_false,
              List.any_eq_true, Bool.and_eq_true, beq_iff_eq] at hheld
            obtain ⟨rfl, g, hg, hid, hscope⟩ := hheld
            obtain ⟨g', hg', hchain, hallows⟩ := grantorAuthorizesPeer_true hallowed
            obtain ⟨⟨id, hrec⟩, hgrantee, -⟩ := GrantLedger.mem_heldBy.mp hg
            obtain rfl : id = grantId := (hL.key hrec).symm.trans hid
            obtain rfl : g = g' := Option.some.inj (hrec.symm.trans hg')
            have hmem := GrantLedger.mem_grants hrec
            obtain ⟨b, hb, hpeer⟩ := hL.allowsPeer_decides org hmem p.requester p.peer
            obtain rfl : b = true := Except.ok.inj (Outcome.returns.inj (hb.symm.trans hallows))
            exact ⟨hissuer, ⟨g, hrec, hgrantee, hscope, OrgChart.onChain_of_mem_chain hchain⟩,
              hL.inForce_of_open hmem hopen, hpeer.mp rfl⟩

/-- Whatever a permit says, an admitted session is grounded in the chart and the ledger. -/
theorem admission_grounded (F : Foreign) (p : CollaborationPermit) (org : OrgChart)
    (calls : List LedgerCall) (a b taskClass at_ : String)
    (h : p.authorizeSession F org ((ledgerMachine F).exec {} calls) a b taskClass at_ =
      .returns (.ok ())) :
    Grounded org ((ledgerMachine F).exec {} calls) p a b taskClass at_ := by
  have hL := GrantLedger.sound_exec F calls
  obtain ⟨hpair, hclass⟩ := authorizeSession_passed h
  obtain ⟨-, -, hunexpired, hpair⟩ := authorizes_ok.mp hpair
  rw [not_or, not_not] at hclass
  refine ⟨hpair, ⟨hclass.1, hclass.2.symm⟩, hunexpired, ?_⟩
  cases hbasis : p.basis with
  | lca supervisor => exact authorizeSession_lca hbasis h
  | preauthorization grantId => exact authorizeSession_preauthorization hL hbasis h

/-! ## Three siblings under one supervisor -/

/-- Agents `a`, `b` and `c` report to `s`. -/
def siblingChart : OrgChart :=
  ⟨(((∅ : ExtTreeMap String String).insert "urn:hacp:agent:a" "urn:hacp:agent:s").insert
    "urn:hacp:agent:b" "urn:hacp:agent:s").insert "urn:hacp:agent:c" "urn:hacp:agent:s"⟩

/-- The deployment charters `s` with the class `build`. -/
def charterGrant : CapabilityGrant :=
  ⟨"g-000000000001", "deployment", "urn:hacp:agent:s", [⟨"cross-branch/build", true⟩],
    "2026-01-01T00:00:00Z", "2026-12-31T00:00:00Z", none, none⟩

/-- The supervisor preauthorizes `a` for this peer. -/
def siblingGrant (grantId peer : String) : CapabilityGrant :=
  ⟨grantId, "urn:hacp:agent:s", "urn:hacp:agent:a", [⟨"cross-branch/build", false⟩],
    "2026-01-01T00:00:00Z", "2026-12-31T00:00:00Z", some "g-000000000001", some peer⟩

def oneSibling : List LedgerCall :=
  [.issue charterGrant "2026-01-01T00:00:00Z",
    .issue (siblingGrant "g-000000000003" "urn:hacp:agent:b") "2026-01-01T00:00:00Z"]

def siblingPermit : CollaborationPermit :=
  ⟨"cp-000000000001", "cr-000000000001", "build", "urn:hacp:agent:a", "urn:hacp:agent:b",
    "urn:hacp:agent:a", .preauthorization "g-000000000003", "2026-06-30T00:00:00Z"⟩

theorem admission_grounded_sibling :
    Grounded siblingChart ((ledgerMachine Foreign.placeholder).exec {} oneSibling) siblingPermit
      "urn:hacp:agent:b" "urn:hacp:agent:a" "build" "2026-06-01T00:00:00Z" :=
  admission_grounded Foreign.placeholder siblingPermit siblingChart oneSibling
    "urn:hacp:agent:b" "urn:hacp:agent:a" "build" "2026-06-01T00:00:00Z" (by rfl)

end CollaborationPermit
end Hacp.V2
