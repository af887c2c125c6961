import Hacp.V2.Grant

/-!
# Authority only narrows along a grant chain

Every ledger built by `issue` and `revoke` is a forest: a grant is recorded after
its parent and never changes, so the walk up from a recorded grant ends at a
charter. What `issue` checked against the parent holds of the pair for good.
-/
namespace Hacp.V2
open Lib Std

inductive LedgerCall where
  | issue (g : CapabilityGrant) (at_ : String)
  | revoke (grantId : String)

def ledgerMachine (F : Foreign) : Machine GrantLedger LedgerCall (Except GrantError Unit) where
  step L call := match call with
    | .issue g at_ => L.issue F g at_
    | .revoke grantId => L.revoke grantId

namespace CapabilityGrant

theorem foldl_delegable (scopes : List ScopeElement) (m : ExtTreeMap String Bool) {name : String}
    {b : Bool} (h : (scopes.foldl (fun m s => m.insert s.name s.delegable) m)[name]? = some b) :
    m[name]? = some b ∨ ∃ s ∈ scopes, s.name = name ∧ s.delegable = b := by
  induction scopes generalizing m with
  | nil => exact .inl h
  | cons s scopes ih =>
    rcases ih _ h with hm | ⟨s', hs', hname, hb⟩
    · rw [ExtTreeMap.getElem?_insert] at hm
      split_ifs at hm with hcmp
      · exact .inr ⟨s, List.mem_cons_self, LawfulEqOrd.eq_of_compare hcmp, Option.some.inj hm⟩
      · exact .inl hm
    · exact .inr ⟨s', List.mem_cons_of_mem _ hs', hname, hb⟩

theorem mem_of_delegable {g : CapabilityGrant} {name : String}
    (h : g.delegable[name]? = some true) : ∃ s ∈ g.scopes, s.name = name ∧ s.delegable = true := by
  rcases foldl_delegable g.scopes ∅ h with hm | hs
  · simp at hm
  · exact hs

end CapabilityGrant

namespace GrantLedger
variable {F : Foreign} {L : GrantLedger}

/-- What `issue` established about a grant and its parent. -/
structure Edge (L : GrantLedger) (g : CapabilityGrant) (parentId : String)
    (parent : CapabilityGrant) : Prop where
  recorded : L.grants[parentId]? = some parent
  grantee : parent.grantee = g.grantor
  delegable : ∀ s ∈ g.scopes, parent.delegable[s.name]? = some true

theorem checkParent_ok {g : CapabilityGrant} {at_ : String} (h : L.checkParent F g at_ = .ok ())
    {parentId : String} (hp : g.parent = some parentId) :
    L.isOpen F parentId at_ = .ok true ∧ ∃ parent, L.Edge g parentId parent := by
  simp only [checkParent, hp, grant] at h
  cases hrec : L.grants[parentId]? with
  | none => simp [hrec, bind, Except.bind] at h
  | some parent =>
    cases hopen : L.isOpen F parentId at_ with
    | error e => simp [hrec, hopen, bind, Except.bind] at h
    | ok b =>
      cases b with
      | false => simp [hrec, hopen, bind, Except.bind] at h
      | true =>
        simp only [hrec, hopen, bind, Except.bind, Bool.not_true, Bool.false_eq_true,
          if_false] at h
        split_ifs at h with hgrantee
        cases hfind : g.scopes.find? (fun s => parent.delegable[s.name]? != some true) with
        | some s => simp [hfind] at h
        | none =>
          refine ⟨rfl, parent, hrec, not_not.mp hgrantee, fun s hs => ?_⟩
          have hnone := List.find?_eq_none.mp hfind s hs
          simpa using hnone

/-- `issue` leaves the ledger alone or records a grant under a new id with an open parent. -/
theorem issue_cases (F : Foreign) (L : GrantLedger) (g : CapabilityGrant) (at_ : String) :
    (L.issue F g at_).1 = L ∨
      g.checkShape F = .ok () ∧ L.grants[g.grantId]? = none ∧ L.checkParent F g at_ = .ok () ∧
        L.issue F g at_ = ({ L with grants := L.grants.insert g.grantId g }, .ok ()) := by
  unfold issue
  cases hshape : g.checkShape F with
  | error e => exact .inl rfl
  | ok =>
    cases validateTimestamp F at_ with
    | error e => exact .inl rfl
    | ok =>
      cases hrec : L.grants[g.grantId]? with
      | some existing =>
        left
        simp only
        split_ifs <;> rfl
      | none =>
        cases hparent : L.checkParent F g at_ with
        | error e => exact .inl rfl
        | ok => exact .inr ⟨rfl, rfl, rfl, rfl⟩

theorem revoke_grants (L : GrantLedger) (grantId : String) :
    (L.revoke grantId).1.grants = L.grants := by
  unfold revoke
  split <;> rfl

/-- The shape of every ledger that `issue` and `revoke` can build. -/
structure Sound (L : GrantLedger) : Prop where
  key : ∀ {id : String} {g : CapabilityGrant}, L.grants[id]? = some g → g.grantId = id
  edge : ∀ {id : String} {g : CapabilityGrant} {parentId : String}, L.grants[id]? = some g →
    g.parent = some parentId → ∃ parent, L.Edge g parentId parent
  lineage : ∀ id, ∃ l, Lineage L.parentLink id l

theorem parentLink_of_recorded {id : String} {g : CapabilityGrant}
    (h : L.grants[id]? = some g) : L.parentLink id = g.parent := by
  simp [parentLink, h]

theorem sound_empty : ({} : GrantLedger).Sound where
  key h := by simp at h
  edge h := by simp at h
  lineage id := ⟨[id], .root (by simp [parentLink])⟩

theorem kept_of_new {g q : CapabilityGrant} {id : String} (hnew : L.grants[g.grantId]? = none)
    (hq : L.grants[id]? = some q) : (L.grants.insert g.grantId g)[id]? = some q := by
  have hne : g.grantId ≠ id := fun hcon => by
    rw [hcon, hq] at hnew
    cases hnew
  rw [ExtTreeMap.getElem?_insert, if_neg (by simpa using hne), hq]

/-- A new grant hangs below a recorded one; every walk that existed stays as it was. -/
theorem sound_insert (hL : L.Sound) {g : CapabilityGrant} {at_ : String}
    (hnew : L.grants[g.grantId]? = none) (hparent : L.checkParent F g at_ = .ok ()) :
    ({ L with grants := L.grants.insert g.grantId g } : GrantLedger).Sound := by
  have hedge {g' : CapabilityGrant} {p : String} {q : CapabilityGrant} (h : L.Edge g' p q) :
      ({ L with grants := L.grants.insert g.grantId g } : GrantLedger).Edge g' p q :=
    ⟨kept_of_new hnew h.recorded, h.grantee, h.delegable⟩
  have hcases {id : String} {g' : CapabilityGrant}
      (h : (L.grants.insert g.grantId g)[id]? = some g') :
      (g.grantId = id ∧ g = g') ∨ L.grants[id]? = some g' := by
    rw [ExtTreeMap.getElem?_insert] at h
    split_ifs at h with hcmp
    · exact .inl ⟨LawfulEqOrd.eq_of_compare hcmp, Option.some.inj h⟩
    · exact .inr h
  refine ⟨fun h => ?_, fun h hp => ?_, fun id => ?_⟩
  · rcases hcases h with ⟨rfl, rfl⟩ | h
    · rfl
    · exact hL.key h
  · rcases hcases h with ⟨rfl, rfl⟩ | h
    · obtain ⟨-, parent, hparent⟩ := checkParent_ok hparent hp
      exact ⟨parent, hedge hparent⟩
    · obtain ⟨parent, hparent⟩ := hL.edge h hp
      exact ⟨parent, hedge hparent⟩
  · have hlink {x : String} (hx : x ≠ g.grantId) :
        ({ L with grants := L.grants.insert g.grantId g } : GrantLedger).parentLink x =
          L.parentLink x := by
      simp only [parentLink]
      rw [ExtTreeMap.getElem?_insert, if_neg (by simpa using hx.symm)]
    -- no old walk passes through the new id: a walk only goes on from recorded grants
    have hold {x : String} {l : List String} (h : Lineage L.parentLink x l)
        (hx : x ≠ g.grantId) : ∀ y ∈ l, y ≠ g.grantId := by
      refine h.forall_mem hx fun y z _ hyz _ hz => ?_
      simp only [parentLink, Option.bind_eq_some_iff] at hyz
      obtain ⟨gy, hgy, hpy⟩ := hyz
      obtain ⟨parent, hparent⟩ := hL.edge hgy hpy
      rw [← hz, hparent.recorded] at hnew
      cases hnew
    have hkeep {x : String} (hx : x ≠ g.grantId) :
        ∃ l, Lineage ({ L with grants := L.grants.insert g.grantId g } :
          GrantLedger).parentLink x l := by
      obtain ⟨l, hl⟩ := hL.lineage x
      exact ⟨l, hl.congr fun y hy => hlink (hold hl hx y hy)⟩
    by_cases hid : id = g.grantId
    · have hself : ({ L with grants := L.grants.insert g.grantId g } : GrantLedger).parentLink
          id = g.parent := parentLink_of_recorded (by simp [hid])
      cases hp : g.parent with
      | none => exact ⟨[id], .root (hself.trans hp)⟩
      | some parentId =>
        obtain ⟨-, parent, hparent⟩ := checkParent_ok hparent hp
        have hne : parentId ≠ g.grantId := fun hcon => by
          rw [← hcon, hparent.recorded] at hnew
          cases hnew
        obtain ⟨l, hl⟩ := hkeep hne
        exact ⟨id :: l, .child (hself.trans hp) hl⟩
    · exact hkeep hid

theorem sound_step (hL : L.Sound) (call : LedgerCall) :
    ((ledgerMachine F).step L call).1.Sound := by
  cases call with
  | issue g at_ =>
    rcases issue_cases F L g at_ with hsame | ⟨-, hnew, hparent, hissue⟩
    · exact (congrArg Sound hsame).mpr hL
    · have hsound := sound_insert hL hnew hparent
      exact (congrArg (fun r => Sound r.1) hissue).mpr hsound
  | revoke grantId =>
    have hgrants := L.revoke_grants grantId
    refine ⟨fun h => ?_, fun h hp => ?_, fun id => ?_⟩
    · exact hL.key (hgrants ▸ h)
    · obtain ⟨parent, hparent⟩ := hL.edge (hgrants ▸ h) hp
      exact ⟨parent, hgrants ▸ hparent.recorded, hparent.grantee, hparent.delegable⟩
    · obtain ⟨l, hl⟩ := hL.lineage id
      have hlink : (L.revoke grantId).1.parentLink = L.parentLink := by
        funext x
        simp only [parentLink, hgrants]
      exact ⟨l, hl.congr fun x _ => congrFun hlink x⟩

/-- Every ledger reached from the empty one is sound. -/
theorem sound_exec (F : Foreign) (calls : List LedgerCall) :
    ((ledgerMachine F).exec {} calls).Sound :=
  Machine.exec_invariant (P := Sound) (fun _ call h => sound_step h call) sound_empty calls

/-! ## The walks -/

/-- Unrevoked and inside its window at `at_`. -/
def InForce (L : GrantLedger) (at_ id : String) : Prop :=
  ∃ g, L.grants[id]? = some g ∧ id ∉ L.revoked ∧ g.windowOpen at_ = true

/-- The cycle guard of `is_open` makes it end on every ledger. -/
theorem isOpen_loop_returns (L : GrantLedger) (at_ grantId : String) :
    ∃ r, Loop.iterate (L.isOpenTurn at_) (L.grants.size + 1) (some grantId, ∅) = some r := by
  refine Loop.exists_iterate_of_variant (fun s => ∀ x ∈ s.2, x ∈ L.grants)
    (fun s => L.grants.size - s.2.card) ?_ (by simp) (by simp)
  rintro ⟨current, seen⟩ s' hseen hb
  cases current with
  | none => simp [isOpenTurn] at hb
  | some id =>
    simp only [isOpenTurn] at hb
    split_ifs at hb with hid
    cases hrec : L.grants[id]? with
    | none => simp [hrec] at hb
    | some g =>
      simp only [hrec] at hb
      split_ifs at hb
      obtain rfl := Sum.inl.inj hb
      have hmem : ∀ x ∈ insert id seen, x ∈ L.grants := by
        intro x hx
        rcases Finset.mem_insert.mp hx with rfl | hx
        · exact ExtTreeMap.mem_iff_isSome_getElem?.mpr (by simp [hrec])
        · exact hseen x hx
      have hcard := card_le_size hmem
      rw [Finset.card_insert_of_notMem hid] at hcard
      exact ⟨hmem, by simp only [Finset.card_insert_of_notMem hid]; omega⟩

theorem mem_grants {id : String} {g : CapabilityGrant} (hg : L.grants[id]? = some g) :
    id ∈ L.grants :=
  ExtTreeMap.mem_iff_isSome_getElem?.mpr (by simp [hg])

theorem recorded {id : String} (hid : id ∈ L.grants) : ∃ g, L.grants[id]? = some g :=
  Option.isSome_iff_exists.mp (ExtTreeMap.mem_iff_isSome_getElem?.mp hid)

theorem inForce_iff {id : String} {g : CapabilityGrant} (hg : L.grants[id]? = some g)
    (at_ : String) : L.InForce at_ id ↔ ¬(id ∈ L.revoked ∨ g.windowOpen at_ = false) := by
  simp [InForce, hg]

theorem isOpenTurn_recorded {id : String} {g : CapabilityGrant} (hg : L.grants[id]? = some g)
    (at_ : String) {seen : Finset String} (hfresh : id ∉ seen) :
    L.isOpenTurn at_ (some id, seen) =
      if id ∈ L.revoked ∨ g.windowOpen at_ = false then .inr (.ok false)
      else .inl (g.parent, insert id seen) := by
  simp only [isOpenTurn, if_neg hfresh, hg]

theorem expiryTurn_recorded {x : String} {g : CapabilityGrant} (hg : L.grants[x]? = some g)
    (expires : String) : CollaborationPermit.expiryTurn L (some x, expires) =
      .inl (g.parent, if byteLe expires g.validUntil then expires else g.validUntil) := by
  simp only [CollaborationPermit.expiryTurn, hg]

section Walks
variable (hL : L.Sound) {id : String} {l : List String}
include hL

theorem Sound.recorded_lineage (hid : id ∈ L.grants) (hl : Lineage L.parentLink id l) :
    ∀ x ∈ l, x ∈ L.grants := by
  refine hl.forall_mem hid fun x y _ hxy _ => ?_
  simp only [parentLink, Option.bind_eq_some_iff] at hxy
  obtain ⟨gx, hgx, hpx⟩ := hxy
  obtain ⟨parent, hparent⟩ := hL.edge hgx hpx
  exact mem_grants hparent.recorded

theorem Sound.length_lineage_le (hid : id ∈ L.grants) (hl : Lineage L.parentLink id l) :
    l.length ≤ L.grants.size :=
  length_le_size hl.nodup (hL.recorded_lineage hid hl)

/-- A loop that leaves or moves to the parent on every recorded id ends within the budget. -/
theorem Sound.walk {σ ρ : Type*} (body : σ → σ ⊕ ρ) (post : ρ → Prop)
    (node : σ → Option String) (hroot : ∀ s, node s = none → ∃ r, body s = .inr r ∧ post r)
    (hturn : ∀ s x g, node s = some x → L.grants[x]? = some g →
      (∃ r, body s = .inr r ∧ post r) ∨ ∃ s', body s = .inl s' ∧ node s' = g.parent)
    (hid : id ∈ L.grants) {s : σ} (hs : node s = some id) :
    ∃ r, Loop.iterate body (L.grants.size + 1) s = some r ∧ post r := by
  obtain ⟨l, hl⟩ := hL.lineage id
  refine hl.loop_returns node hroot (fun s x hx hnode => ?_) hs
    (Nat.lt_succ_of_le (hL.length_lineage_le hid hl))
  obtain ⟨g, hg⟩ := recorded (hL.recorded_lineage hid hl x hx)
  rw [parentLink_of_recorded hg]
  exact hturn s x g hnode hg

/-- On recorded ids the loop of `is_open` decides whether the whole walk is in force. -/
theorem Sound.isOpen_loop (at_ : String) (hl : Lineage L.parentLink id l) (hid : id ∈ L.grants)
    {seen : Finset String} (hseen : ∀ x ∈ l, x ∉ seen) {n : ℕ} (hn : l.length < n) :
    ∃ b, Loop.iterate (L.isOpenTurn at_) n (some id, seen) = some (.ok b) ∧
      (b = true ↔ ∀ x ∈ l, L.InForce at_ x) := by
  induction hl generalizing seen n with
  | @root id hroot =>
    obtain ⟨g, hg⟩ := recorded hid
    have hturn := isOpenTurn_recorded hg at_ (hseen id List.mem_cons_self)
    obtain ⟨n, rfl⟩ : ∃ k, n = k + 2 := ⟨n - 2, by simp at hn; omega⟩
    by_cases hclosed : id ∈ L.revoked ∨ g.windowOpen at_ = false
    · rw [if_pos hclosed] at hturn
      refine ⟨false, Loop.iterate_succ_exit hturn _, ?_⟩
      simp [inForce_iff hg, hclosed]
    · rw [if_neg hclosed, ← parentLink_of_recorded hg, hroot] at hturn
      refine ⟨true, ?_, ?_⟩
      · rw [Loop.iterate_succ_continue hturn]
        exact Loop.iterate_succ_exit rfl n
      · simp [inForce_iff hg, hclosed]
  | @child id parentId up hparent hup ih =>
    obtain ⟨g, hg⟩ := recorded hid
    have hturn := isOpenTurn_recorded hg at_ (hseen id List.mem_cons_self)
    obtain ⟨n, rfl⟩ : ∃ k, n = k + 1 := ⟨n - 1, by omega⟩
    by_cases hclosed : id ∈ L.revoked ∨ g.windowOpen at_ = false
    · rw [if_pos hclosed] at hturn
      refine ⟨false, Loop.iterate_succ_exit hturn n, ?_⟩
      simp [inForce_iff hg, hclosed]
    · rw [if_neg hclosed, ← parentLink_of_recorded hg, hparent] at hturn
      have hnotMem : id ∉ up := (List.nodup_cons.mp (Lineage.child hparent hup).nodup).1
      have hparentId : parentId ∈ L.grants :=
        hL.recorded_lineage hid (.child hparent hup) parentId
          (List.mem_cons_of_mem _ hup.self_mem)
      have hseen' : ∀ x ∈ up, x ∉ insert id seen := fun x hx hmem =>
        (Finset.mem_insert.mp hmem).elim (fun h => hnotMem (h ▸ hx))
          (hseen x (List.mem_cons_of_mem _ hx))
      have hn' : up.length < n := by
        simp only [List.length_cons] at hn
        omega
      obtain ⟨b, hloop, hb⟩ := ih hparentId hseen' hn'
      refine ⟨b, (Loop.iterate_succ_continue hturn n).trans hloop, ?_⟩
      simp [hb, inForce_iff hg, hclosed]

/-- At a canonical time `is_open` decides whether the whole walk is in force. -/
theorem Sound.isOpen_canonical {at_ : String} (hat : validateTimestamp F at_ = .ok ())
    (hl : Lineage L.parentLink id l) (hid : id ∈ L.grants) :
    ∃ b, L.isOpen F id at_ = .ok b ∧ (b = true ↔ ∀ x ∈ l, L.InForce at_ x) := by
  have hseen : ∀ x ∈ l, x ∉ (∅ : Finset String) := by simp
  obtain ⟨b, hloop, hb⟩ := hL.isOpen_loop at_ hl hid hseen
    (Nat.lt_succ_of_le (hL.length_lineage_le hid hl))
  exact ⟨b, by simp only [isOpen, hat, hloop]; rfl, hb⟩

theorem Sound.isOpen_recorded (F : Foreign) (at_ : String) (hl : Lineage L.parentLink id l)
    (hid : id ∈ L.grants) :
    L.isOpen F id at_ = .error (.badTimestamp at_) ∨
      ∃ b, L.isOpen F id at_ = .ok b ∧ (b = true ↔ ∀ x ∈ l, L.InForce at_ x) := by
  cases hat : validateTimestamp F at_ with
  | error e => exact .inl (by simp only [isOpen, hat]; rfl)
  | ok => exact .inr (hL.isOpen_canonical hat hl hid)

/-- The unguarded loop over restricted peers ends with an answer. -/
theorem Sound.allowsPeer_returns (org : OrgChart) (requester peer : String)
    (hid : id ∈ L.grants) :
    ∃ b, L.preauthorizationAllowsPeer id org requester peer = .returns (.ok b) := by
  obtain ⟨r, hr, b, rfl⟩ := hL.walk (L.allowsPeerTurn org requester peer)
    (fun r => ∃ b, r = .ok b) (s := (some id, false)) Prod.fst
    (by
      rintro ⟨current, restricted⟩ rfl
      exact ⟨_, rfl, _, rfl⟩)
    (by
      rintro ⟨current, restricted⟩ x g rfl hg
      cases hpeer : g.peer with
      | none => exact .inr ⟨_, by simp only [allowsPeerTurn, hg, hpeer]; rfl, rfl⟩
      | some boundPeer =>
        by_cases hbound : boundPeer = peer
        · refine .inr ⟨(g.parent, true), ?_, rfl⟩
          simp only [allowsPeerTurn, hg, hpeer, hbound, ne_eq, not_true_eq_false, if_false]
        · refine .inl ⟨.ok false, ?_, false, rfl⟩
          simp only [allowsPeerTurn, hg, hpeer, hbound, ne_eq, not_false_eq_true, if_true])
    hid rfl
  exact ⟨b, by simp only [preauthorizationAllowsPeer, hr]⟩

/-- The loop that lowers the expiry leaves with the least of the expiry and the ends of the
windows on the way up. -/
theorem Sound.expiry_loop (expires : String) (hl : Lineage L.parentLink id l)
    (hid : id ∈ L.grants) {n : ℕ} (hn : l.length < n) :
    ∃ lowered, Loop.iterate (CollaborationPermit.expiryTurn L) n (some id, expires) =
        some (some lowered) ∧ byteLe lowered expires ∧
      (∀ x ∈ l, ∀ g, L.grants[x]? = some g → byteLe lowered g.validUntil) ∧
      (lowered = expires ∨ ∃ x ∈ l, ∃ g, L.grants[x]? = some g ∧ lowered = g.validUntil) := by
  have hmin (e v : String) : byteLe (if byteLe e v then e else v) e ∧
      byteLe (if byteLe e v then e else v) v := by
    by_cases hle : byteLe e v
    · rw [if_pos hle]
      exact ⟨byteLe_refl e, hle⟩
    · rw [if_neg hle]
      exact ⟨(byteLe_total e v).resolve_left hle, byteLe_refl v⟩
  induction hl generalizing expires n with
  | @root id hroot =>
    obtain ⟨g, hg⟩ := recorded hid
    obtain ⟨n, rfl⟩ : ∃ k, n = k + 2 := ⟨n - 2, by simp at hn; omega⟩
    have hturn := expiryTurn_recorded hg expires
    rw [← parentLink_of_recorded hg, hroot] at hturn
    refine ⟨_, (Loop.iterate_succ_continue hturn _).trans (Loop.iterate_succ_exit rfl n),
      (hmin _ _).1, fun x hx gx hgx => ?_, ?_⟩
    · obtain rfl := List.mem_singleton.mp hx
      obtain rfl := Option.some.inj (hg.symm.trans hgx)
      exact (hmin _ _).2
    · exact (ite_eq_or_eq _ _ _).imp_right fun hlow => ⟨id, List.mem_cons_self, g, hg, hlow⟩
  | @child id parentId up hparent hup ih =>
    obtain ⟨g, hg⟩ := recorded hid
    obtain ⟨n, rfl⟩ : ∃ k, n = k + 1 := ⟨n - 1, by omega⟩
    have hturn := expiryTurn_recorded hg expires
    rw [← parentLink_of_recorded hg, hparent] at hturn
    have hparentId : parentId ∈ L.grants :=
      hL.recorded_lineage hid (.child hparent hup) parentId
        (List.mem_cons_of_mem _ hup.self_mem)
    have hn' : up.length < n := by
      simp only [List.length_cons] at hn
      omega
    obtain ⟨lowered, hloop, hle, hup, hone⟩ :=
      ih (if byteLe expires g.validUntil then expires else g.validUntil) hparentId hn'
    refine ⟨lowered, (Loop.iterate_succ_continue hturn n).trans hloop,
      byteLe_trans hle (hmin _ _).1, fun x hx gx hgx => ?_, ?_⟩
    · rcases List.mem_cons.mp hx with rfl | hx
      · obtain rfl := Option.some.inj (hg.symm.trans hgx)
        exact byteLe_trans hle (hmin _ _).2
      · exact hup x hx gx hgx
    · rcases hone with rfl | ⟨x, hx, gx, hgx, hlow⟩
      · exact (ite_eq_or_eq _ _ _).imp_right fun hlow => ⟨id, List.mem_cons_self, g, hg, hlow⟩
      · exact .inr ⟨x, List.mem_cons_of_mem _ hx, gx, hgx, hlow⟩

end Walks

theorem checkedChain_loop_returns (org : OrgChart) (agent : String) :
    ∃ r, Loop.iterate org.checkedChainTurn (org.parentOf.size + 1) ([agent], agent) =
      some r := by
  refine Loop.exists_iterate_of_variant (fun s => s.1.Nodup ∧
      ∃ pre, s.1 = pre ++ [s.2] ∧ ∀ x ∈ pre, x ∈ org.parentOf)
    (fun s => org.parentOf.size + 1 - s.1.length) ?_
    ⟨List.nodup_singleton _, [], rfl, by simp⟩ (by simp)
  rintro ⟨path, current⟩ s' ⟨hnodup, pre, hpath, hpre⟩ hb
  simp only [OrgChart.checkedChainTurn] at hnodup hpath hb
  cases hparent : org.parentOf[current]? with
  | none => simp [hparent] at hb
  | some parent =>
    simp only [hparent] at hb
    split_ifs at hb with hmem
    obtain rfl := Sum.inl.inj hb
    have hall : ∀ x ∈ path, x ∈ org.parentOf := by
      intro x hx
      rw [hpath, List.mem_append, List.mem_singleton] at hx
      rcases hx with hx | rfl
      · exact hpre x hx
      · exact ExtTreeMap.mem_iff_isSome_getElem?.mpr (by simp [hparent])
    have hlen := length_le_size hnodup hall
    refine ⟨⟨?_, path, rfl, hall⟩, by simp only [List.length_append, List.length_singleton]; omega⟩
    exact List.nodup_append.mpr ⟨hnodup, List.nodup_singleton _, fun x hx y hy hxy =>
      hmem (List.mem_singleton.mp hy ▸ hxy ▸ hx)⟩

/-! ## Authority -/

theorem mem_heldBy {agent at_ : String} {g : CapabilityGrant} :
    g ∈ L.heldBy F agent at_ ↔ (∃ id : String, L.grants[id]? = some g) ∧ g.grantee = agent ∧
      L.isOpen F g.grantId at_ = .ok true := by
  rw [heldBy, List.mem_filter, List.mem_map]
  constructor
  · rintro ⟨⟨⟨id, g'⟩, hmem, rfl⟩, htest⟩
    rw [Bool.and_eq_true, beq_iff_eq, isOpenOrFalse] at htest
    refine ⟨⟨id, ExtTreeMap.mem_toList_iff_getElem?_eq_some.mp hmem⟩, htest.1, ?_⟩
    cases hopen : L.isOpen F g'.grantId at_ with
    | error e => simp [hopen] at htest
    | ok b =>
      rw [hopen] at htest
      exact congrArg _ htest.2
  · rintro ⟨⟨id, hg⟩, hgrantee, hopen⟩
    refine ⟨⟨(id, g), ExtTreeMap.mem_toList_iff_getElem?_eq_some.mpr hg, rfl⟩, ?_⟩
    simp [isOpenOrFalse, hgrantee, hopen]

theorem preauthorizes_recorded (hL : L.Sound) {agent taskClass at_ id : String}
    (h : L.preauthorizes F agent taskClass at_ = some id) : id ∈ L.grants := by
  rw [preauthorizes, Option.map_eq_some_iff] at h
  obtain ⟨g, hfind, rfl⟩ := h
  obtain ⟨⟨id, hg⟩, -⟩ := mem_heldBy.mp (List.mem_of_find?_eq_some hfind)
  exact hL.key hg ▸ mem_grants hg

theorem Sound.byPreauthorization_returns (hL : L.Sound) (permitId : String) (org : OrgChart)
    (request : CollaborationRequest) (at_ : String) :
    ∃ r, CollaborationPermit.byPreauthorization F permitId org L request at_ = .returns r := by
  unfold CollaborationPermit.byPreauthorization
  simp only
  split
  · exact ⟨_, rfl⟩
  · rename_i grantId hchecks
    have hid : grantId ∈ L.grants := by
      simp only [bind_eq_ok] at hchecks
      obtain ⟨-, -, -, -, -, -, hpre⟩ := hchecks
      cases hfound : L.preauthorizes F request.requester request.taskClass at_ with
      | none => simp [hfound] at hpre
      | some id =>
        rw [hfound] at hpre
        exact Except.ok.inj hpre ▸ preauthorizes_recorded hL hfound
    obtain ⟨g, hg⟩ := recorded hid
    obtain ⟨allowed, hallowed⟩ := hL.allowsPeer_returns org request.requester request.peer hid
    obtain ⟨l, hl⟩ := hL.lineage grantId
    obtain ⟨lowered, hlowered, -⟩ := hL.expiry_loop request.expires hl hid
      (Nat.lt_succ_of_le (hL.length_lineage_le hid hl))
    simp only [hg, hallowed, hlowered]
    cases allowed with
    | false => simp only; split_ifs <;> exact ⟨_, rfl⟩
    | true => simp only; split_ifs <;> exact ⟨_, rfl⟩

/-- A scope held below a grant is held there as delegable, and so on up to the root. -/
theorem Sound.delegable_up (hL : L.Sound) {id scope : String} {g : CapabilityGrant}
    (hg : L.grants[id]? = some g) (hscope : ∃ s ∈ g.scopes, s.name = scope) {up : List String}
    (hl : Lineage L.parentLink id (id :: up)) :
    ∀ x ∈ up, ∃ gx, L.grants[x]? = some gx ∧ gx.delegable[scope]? = some true := by
  have hstep {x y : String} {gx : CapabilityGrant} (hgx : L.grants[x]? = some gx)
      (hheld : ∃ s ∈ gx.scopes, s.name = scope) (hxy : L.parentLink x = some y) :
      ∃ gy, L.grants[y]? = some gy ∧ gy.delegable[scope]? = some true := by
    rw [parentLink_of_recorded hgx] at hxy
    obtain ⟨gy, hgy⟩ := hL.edge hgx hxy
    obtain ⟨s, hs, rfl⟩ := hheld
    exact ⟨gy, hgy.recorded, hgy.delegable s hs⟩
  cases hl with
  | root => simp
  | child hparent hup =>
    refine hup.forall_mem (hstep hg hscope hparent) fun x y _ hxy hx => ?_
    obtain ⟨gx, hgx, hdelegable⟩ := hx
    obtain ⟨s, hs, hname, -⟩ := CapabilityGrant.mem_of_delegable hdelegable
    exact hstep hgx ⟨s, hs, hname⟩ hxy

/-- A grant held by the agent carries the scope and is in force up to its root, and its strict
ancestors all hold the scope as delegable. -/
def Authorized (L : GrantLedger) (agent scope at_ : String) : Prop :=
  ∃ (id : String) (g : CapabilityGrant) (up : List String), L.grants[id]? = some g ∧
    g.grantee = agent ∧ (∃ s ∈ g.scopes, s.name = scope) ∧
    Lineage L.parentLink id (id :: up) ∧ (∀ x ∈ id :: up, L.InForce at_ x) ∧
    ∀ x ∈ up, ∃ gx, L.grants[x]? = some gx ∧ gx.delegable[scope]? = some true

theorem Sound.covers_authority (hL : L.Sound) {agent scope at_ : String}
    (h : L.covers F agent scope at_ = true) : L.Authorized agent scope at_ := by
  rw [covers, List.any_eq_true] at h
  obtain ⟨g, hheld, hscope⟩ := h
  obtain ⟨⟨id, hg⟩, hgrantee, hopen⟩ := mem_heldBy.mp hheld
  obtain rfl := hL.key hg
  simp only [List.any_eq_true, beq_iff_eq] at hscope
  obtain ⟨l, hl⟩ := hL.lineage g.grantId
  obtain ⟨up, rfl⟩ := hl.head
  rcases hL.isOpen_recorded F at_ hl (mem_grants hg) with herr | ⟨b, hb, hforce⟩
  · rw [herr] at hopen
    cases hopen
  · have htrue : b = true := Except.ok.inj (hb.symm.trans hopen)
    exact ⟨_, g, up, hg, hgrantee, hscope, hl, hforce.mp htrue, hL.delegable_up hg hscope hl⟩

/-- Authority along the chains of a ledger, for every agent, organization and time. -/
structure AuthorityNarrows (F : Foreign) (L : GrantLedger) : Prop where
  /-- The walk up from a recorded grant is finite, meets recorded ids only, none twice, and
  ends at a grant without a parent. -/
  rooted : ∀ id ∈ L.grants, ∃ l, Lineage L.parentLink id l ∧ l.Nodup ∧ ∀ x ∈ l, x ∈ L.grants
  openAnswers : ∀ id ∈ L.grants, ∀ at_ x,
    L.isOpen F id at_ ≠ .error (.cycle x) ∧ L.isOpen F id at_ ≠ .error (.unknownGrant x)
  peerAnswers : ∀ id ∈ L.grants, ∀ org requester peer,
    ∃ b, L.preauthorizationAllowsPeer id org requester peer = .returns (.ok b)
  permitAnswers : ∀ permitId org request at_,
    ∃ r, CollaborationPermit.byPreauthorization F permitId org L request at_ = .returns r
  edges : ∀ (id : String) (g : CapabilityGrant) (parentId : String), L.grants[id]? = some g →
    g.parent = some parentId →
    ∃ parent, L.grants[parentId]? = some parent ∧ parent.grantee = g.grantor ∧
      ∀ s ∈ g.scopes, parent.delegable[s.name]? = some true
  covered : ∀ agent scope at_, L.covers F agent scope at_ = true →
    L.Authorized agent scope at_

theorem Sound.isOpen_error (hL : L.Sound) {id at_ : String} {e : GrantError}
    (hid : id ∈ L.grants) (h : L.isOpen F id at_ = .error e) : e = .badTimestamp at_ := by
  obtain ⟨l, hl⟩ := hL.lineage id
  rcases hL.isOpen_recorded F at_ hl hid with herr | ⟨b, hb, -⟩
  · exact Except.error.inj (h.symm.trans herr)
  · rw [hb] at h
    cases h

/-- Authority only narrows in every ledger that issuing and revoking can build. -/
theorem authority_narrows (F : Foreign) (calls : List LedgerCall) :
    AuthorityNarrows F ((ledgerMachine F).exec {} calls) := by
  have hL := sound_exec F calls
  refine ⟨fun id hid => ?_, fun id hid at_ x => ⟨fun h => ?_, fun h => ?_⟩, ?_, ?_, ?_, ?_⟩
  · obtain ⟨l, hl⟩ := hL.lineage id
    exact ⟨l, hl, hl.nodup, hL.recorded_lineage hid hl⟩
  · cases hL.isOpen_error hid h
  · cases hL.isOpen_error hid h
  · exact fun id hid org requester peer => hL.allowsPeer_returns org requester peer hid
  · exact fun permitId org request at_ => hL.byPreauthorization_returns permitId org request at_
  · intro id g parentId hg hp
    obtain ⟨parent, hparent⟩ := hL.edge hg hp
    exact ⟨parent, hparent.recorded, hparent.grantee, hparent.delegable⟩
  · exact fun agent scope at_ h => hL.covers_authority h

end GrantLedger
end Hacp.V2
