import Hacp.V2.GrantChain

/-!
# Revocation closes a subtree for good

A grant is open exactly while every grant up to its root is in force. Nothing
recorded is rewritten and a revocation is never taken back, so what hangs below a
revoked grant stays closed in every later ledger, and `issue`, which asks for an
open parent, records nothing new there.
-/
namespace Hacp.V2
open Lib Std

namespace GrantLedger
variable {F : Foreign} {L L' : GrantLedger}

/-- `anc` is `id` itself or is met on the way up from it. -/
def Descends (L : GrantLedger) (id anc : String) : Prop :=
  Relation.ReflTransGen (fun x y => L.parentLink x = some y) id anc

theorem Descends.trans {id mid anc : String} (h : L.Descends id mid)
    (h' : L.Descends mid anc) : L.Descends id anc :=
  Relation.ReflTransGen.trans h h'

theorem Sound.isOpen_descends (hL : L.Sound) {id at_ : String} (hid : id ∈ L.grants)
    (hat : validateTimestamp F at_ = .ok ()) :
    ∃ b, L.isOpen F id at_ = .ok b ∧ (b = true ↔ ∀ x, L.Descends id x → L.InForce at_ x) := by
  obtain ⟨l, hl⟩ := hL.lineage id
  obtain ⟨b, hb, hforce⟩ := hL.isOpen_canonical hat hl hid
  exact ⟨b, hb, hforce.trans (forall_congr' fun x => imp_congr_left hl.mem_iff)⟩

theorem InForce.not_revoked {at_ id : String} (h : L.InForce at_ id) : id ∉ L.revoked := by
  obtain ⟨g, -, hrevoked, -⟩ := h
  exact hrevoked

/-- An answer `true` of `is_open` speaks for everything above the grant. -/
theorem Sound.not_revoked_of_open (hL : L.Sound) {id at_ r : String} (hid : id ∈ L.grants)
    (hopen : L.isOpen F id at_ = .ok true) (hr : L.Descends id r) : r ∉ L.revoked := by
  obtain ⟨l, hl⟩ := hL.lineage id
  rcases hL.isOpen_recorded F at_ hl hid with herr | ⟨b, hb, hforce⟩
  · rw [herr] at hopen
    cases hopen
  · have htrue : b = true := Except.ok.inj (hb.symm.trans hopen)
    exact (hforce.mp htrue r (hl.mem_iff.mpr hr)).not_revoked

/-! ## Later ledgers -/

/-- `L'` keeps the record of `L` and has nothing new below what `L` revoked. -/
structure Extends (L L' : GrantLedger) : Prop where
  kept : ∀ (id : String) (g : CapabilityGrant), L.grants[id]? = some g → L'.grants[id]? = some g
  revoked : L.revoked ⊆ L'.revoked
  barren : ∀ id r, r ∈ L.revoked → id ∈ L'.grants → L'.Descends id r → id ∈ L.grants

theorem Extends.refl (L : GrantLedger) : L.Extends L where
  kept _ _ h := h
  revoked := Finset.Subset.refl _
  barren _ _ _ hid _ := hid

/-- On recorded grants a ledger that kept the record has the same way up. -/
theorem Sound.descends_of_kept (hL : L.Sound)
    (hkept : ∀ (id : String) (g : CapabilityGrant), L.grants[id]? = some g →
      L'.grants[id]? = some g)
    {id anc : String} (hid : id ∈ L.grants) :
    L'.Descends id anc ↔ L.Descends id anc := by
  have hlink {x : String} (hx : x ∈ L.grants) : L'.parentLink x = L.parentLink x := by
    obtain ⟨g, hg⟩ := recorded hx
    rw [parentLink_of_recorded hg, parentLink_of_recorded (hkept x g hg)]
  obtain ⟨l, hl⟩ := hL.lineage id
  have hl' : Lineage L'.parentLink id l :=
    hl.congr fun x hx => hlink (hL.recorded_lineage hid hl x hx)
  exact hl'.mem_iff.symm.trans hl.mem_iff

/-- Only recorded grants are ever revoked. -/
def RevokedRecorded (L : GrantLedger) : Prop :=
  ∀ r ∈ L.revoked, r ∈ L.grants

theorem revokedRecorded_step (hL : L.RevokedRecorded) (call : LedgerCall) :
    ((ledgerMachine F).step L call).1.RevokedRecorded := by
  cases call with
  | issue g at_ =>
    rcases issue_cases F L g at_ with hsame | ⟨-, -, -, hissue⟩
    · exact (congrArg RevokedRecorded hsame).mpr hL
    · refine (congrArg (fun r => RevokedRecorded r.1) hissue).mpr fun r hr => ?_
      exact ExtTreeMap.mem_insert.mpr (.inr (hL r hr))
  | revoke grantId =>
    simp only [ledgerMachine, revoke]
    cases hrec : L.grants[grantId]? with
    | none => exact hL
    | some g =>
      intro r hr
      rcases Finset.mem_insert.mp hr with rfl | hr
      · exact mem_grants hrec
      · exact hL r hr

theorem revokedRecorded_exec (F : Foreign) (calls : List LedgerCall) :
    ((ledgerMachine F).exec {} calls).RevokedRecorded :=
  Machine.exec_invariant (P := RevokedRecorded) (fun _ call h => revokedRecorded_step h call)
    (fun r hr => absurd hr (Finset.notMem_empty r)) calls

/-! ## What was revoked -/

abbrev LedgerHistory := List (Event GrantLedger LedgerCall (Except GrantError Unit))

/-- A `revoke` of the grant answered that it is done. -/
def LedgerHistory.Revoked (h : LedgerHistory) (r : String) : Prop :=
  ∃ e ∈ h, e.input = .revoke r ∧ e.output = .ok ()

theorem revoke_answers (L : GrantLedger) (r : String) :
    (L.revoke r).2 = .ok () ↔ r ∈ L.grants := by
  unfold revoke
  cases hrec : L.grants[r]? with
  | none => simpa using fun hmem => nomatch hrec.symm.trans (recorded hmem).choose_spec
  | some g => exact iff_of_true rfl (mem_grants hrec)

theorem mem_revoked_step (L : GrantLedger) (call : LedgerCall) (r : String) :
    r ∈ ((ledgerMachine F).step L call).1.revoked ↔
      r ∈ L.revoked ∨ call = .revoke r ∧ ((ledgerMachine F).step L call).2 = .ok () := by
  cases call with
  | issue g at_ =>
    have hkept : (L.issue F g at_).1.revoked = L.revoked := by
      rcases issue_cases F L g at_ with hsame | ⟨-, -, -, hissue⟩
      · rw [hsame]
      · rw [hissue]
    have hmem : r ∈ ((ledgerMachine F).step L (.issue g at_)).1.revoked ↔ r ∈ L.revoked := by
      rw [← hkept]
      rfl
    simpa using hmem
  | revoke grantId =>
    simp only [ledgerMachine, revoke, LedgerCall.revoke.injEq]
    cases L.grants[grantId]? with
    | none => simp
    | some g => simp [or_comm, eq_comm]

/-- Revoked are the grants that a call revoked. -/
theorem mem_revoked_exec (F : Foreign) (calls : List LedgerCall) (r : String) :
    r ∈ ((ledgerMachine F).exec {} calls).revoked ↔
      LedgerHistory.Revoked ((ledgerMachine F).history {} calls) r := by
  refine Machine.history_invariant (M := ledgerMachine F) (s := {})
    (I := fun h L => r ∈ L.revoked ↔ LedgerHistory.Revoked h r) ?_ ?_ calls
  · simp [LedgerHistory.Revoked]
  · intro is call ih
    rw [mem_revoked_step, ih]
    simp [LedgerHistory.Revoked, Machine.event, or_and_right, exists_or]

/-- A grant recorded by `issue` has nothing revoked above it. -/
theorem Sound.issued_below (hL : L.Sound) {g : CapabilityGrant} {at_ : String}
    (hnew : L.grants[g.grantId]? = none) (hparent : L.checkParent F g at_ = .ok ()) {r : String}
    (hr : ({ L with grants := L.grants.insert g.grantId g } : GrantLedger).Descends g.grantId r) :
    r = g.grantId ∨ r ∉ L.revoked := by
  have hkept (id : String) (q : CapabilityGrant) (hq : L.grants[id]? = some q) := kept_of_new hnew hq
  rcases hr.cases_head with rfl | ⟨parentId, hlink, hup⟩
  · exact .inl rfl
  · have hp : g.parent = some parentId := by
      rw [← hlink, parentLink_of_recorded (g := g)]
      simp
    obtain ⟨hopen, parent, hedge⟩ := checkParent_ok hparent hp
    have hid := mem_grants hedge.recorded
    exact .inr (hL.not_revoked_of_open hid hopen ((hL.descends_of_kept hkept hid).mp hup))

theorem extends_step (hL : L.RevokedRecorded) (hL' : L'.Sound) (h : L.Extends L')
    (call : LedgerCall) : L.Extends ((ledgerMachine F).step L' call).1 := by
  cases call with
  | issue g at_ =>
    rcases issue_cases F L' g at_ with hsame | ⟨-, hnew, hparent, hissue⟩
    · exact (congrArg L.Extends hsame).mpr h
    · refine (congrArg (fun r => L.Extends r.1) hissue).mpr ?_
      have hkept (id : String) (q : CapabilityGrant) (hq : L'.grants[id]? = some q) :=
        kept_of_new hnew hq
      refine ⟨fun id q hq => hkept id q (h.kept id q hq), h.revoked, fun id r hr hid hdesc => ?_⟩
      by_cases hself : id = g.grantId
      · subst hself
        rcases hL'.issued_below hnew hparent hdesc with rfl | hfree
        · exact hL _ hr
        · exact absurd (h.revoked hr) hfree
      · have hid' : id ∈ L'.grants := by
          rcases ExtTreeMap.mem_insert.mp hid with hcmp | hid
          · exact absurd (LawfulEqOrd.eq_of_compare hcmp).symm hself
          · exact hid
        exact h.barren id r hr hid' ((hL'.descends_of_kept hkept hid').mp hdesc)
  | revoke grantId =>
    have hgrants := L'.revoke_grants grantId
    have hlink : (L'.revoke grantId).1.parentLink = L'.parentLink := by
      funext x
      simp only [parentLink, hgrants]
    refine ⟨fun id g hg => ?_, fun r hr => ?_, fun id r hr hid hdesc => ?_⟩
    · exact (congrArg (fun m => m[id]? = some g) hgrants).mpr (h.kept id g hg)
    · simp only [ledgerMachine, revoke]
      split
      · exact Finset.mem_insert_of_mem (h.revoked hr)
      · exact h.revoked hr
    · refine h.barren id r hr (hgrants ▸ hid) ?_
      simp only [Descends, ledgerMachine, hlink] at hdesc
      exact hdesc

/-- What the ledger `L` that the calls of `h` led to says about its grants, and every later one `L'`
about the same grants. -/
structure RevocationFinal (F : Foreign) (h : LedgerHistory) (L L' : GrantLedger) : Prop where
  /-- What is recorded can be revoked, and what was revoked is in force no more. -/
  answers : ∀ r, (L.revoke r).2 = .ok () ↔ r ∈ L.grants
  revoked : ∀ r, r ∈ L.revoked ↔ h.Revoked r
  decides : ∀ id ∈ L.grants, ∀ at_, validateTimestamp F at_ = .ok () →
    ∃ b, L.isOpen F id at_ = .ok b ∧ (b = true ↔ ∀ x, L.Descends id x → L.InForce at_ x)
  unchanged : ∀ (id : String) (g : CapabilityGrant), L.grants[id]? = some g →
    L'.grants[id]? = some g
  /-- Closed at every time; a malformed time is refused, never answered with `true`. -/
  closed : ∀ id r, L.Descends id r → h.Revoked r → ∀ d ∈ L'.grants, L'.Descends d id →
    ∀ at_, L'.isOpen F d at_ ≠ .ok true ∧
      (validateTimestamp F at_ = .ok () → L'.isOpen F d at_ = .ok false)
  nothingNew : ∀ id r, L.Descends id r → h.Revoked r → ∀ d ∈ L'.grants, L'.Descends d id →
    d ∈ L.grants

theorem extends_exec (hL : L.Sound) (hrevoked : L.RevokedRecorded) (calls : List LedgerCall) :
    L.Extends ((ledgerMachine F).exec L calls) := by
  have hboth := Machine.exec_invariant (M := ledgerMachine F)
    (P := fun L' => L'.Sound ∧ L.Extends L')
    (fun L' call h => ⟨sound_step h.1 call, extends_step hrevoked h.1 h.2 call⟩)
    ⟨hL, Extends.refl L⟩ calls
  exact hboth.2

/-- What is revoked above a grant is recorded, and so is the grant. -/
theorem RevokedRecorded.below (hrevoked : L.RevokedRecorded) {id r : String}
    (hr : L.Descends id r) (hmem : r ∈ L.revoked) : id ∈ L.grants := by
  rcases hr.cases_head with rfl | ⟨parentId, hlink, -⟩
  · exact hrevoked id hmem
  · simp only [parentLink, Option.bind_eq_some_iff] at hlink
    obtain ⟨g, hg, -⟩ := hlink
    exact mem_grants hg

/-- A `revoke` that answers is final for the grant and for everything that hangs or will hang below
it. -/
theorem revocation_final (F : Foreign) (calls later : List LedgerCall) :
    RevocationFinal F ((ledgerMachine F).history {} calls) ((ledgerMachine F).exec {} calls)
      ((ledgerMachine F).exec ((ledgerMachine F).exec {} calls) later) := by
  have hL := sound_exec F calls
  have hrevoked := revokedRecorded_exec F calls
  have hcalled := mem_revoked_exec F calls
  have hext := extends_exec (F := F) hL hrevoked later
  have hL' : ((ledgerMachine F).exec ((ledgerMachine F).exec {} calls) later).Sound :=
    Machine.exec_invariant (P := Sound) (fun _ call h => sound_step h call) hL later
  -- in the later ledger too the way up from a descendant leads to what was revoked
  have hup {id r d : String} (hr : GrantLedger.Descends _ id r) (hmem : r ∈ GrantLedger.revoked _)
      (hd : GrantLedger.Descends _ d id) : GrantLedger.Descends _ d r :=
    Descends.trans hd ((hL.descends_of_kept hext.kept (hrevoked.below hr hmem)).mpr hr)
  refine ⟨revoke_answers _, hcalled, fun id hid at_ => hL.isOpen_descends hid, hext.kept, ?_, ?_⟩
  · intro id r hr hcall d hd hdesc at_
    have hmem := (hcalled r).mpr hcall
    have hnot : GrantLedger.isOpen F _ d at_ ≠ .ok true := fun hopen =>
      hL'.not_revoked_of_open hd hopen (hup hr hmem hdesc) (hext.revoked hmem)
    refine ⟨hnot, fun hat => ?_⟩
    obtain ⟨b, hb, -⟩ := hL'.isOpen_descends hd hat
    cases b with
    | false => exact hb
    | true => exact absurd hb hnot
  · intro id r hr hcall d hd hdesc
    have hmem := (hcalled r).mpr hcall
    exact hext.barren d r hmem hd (hup hr hmem hdesc)

end GrantLedger
end Hacp.V2
