import Hacp.V2.Contract
import Hacp.V2.PermitSoundness
import Hacp.V2.Bilateral

/-!
# A delegation is grounded

A session opened between two different agents keeps them, so a proposal never meets
the case its code rules out. A delegation forms exactly on an open grant from the
other participant to the task owner and on the grantor's own chain, root first, as
escalation path.
-/
namespace Hacp.V2
open Lib Std

namespace Session

theorem participants_ne {sessionId opener acceptor : String} {s₀ : Session}
    (h : open_ sessionId opener acceptor = .ok s₀) (calls : List SessionCall) :
    (sessionMachine.exec s₀ calls).participants.1 ≠
      (sessionMachine.exec s₀ calls).participants.2 := by
  have hbilateral := (Bilateral.of_open h).exec calls
  rw [hbilateral.participants]
  exact hbilateral.differ

end Session

/-- A declared path from an agent without a parent down to `grantor`. -/
structure EscalatesTo (org : OrgChart) (path : List String) (grantor : String) : Prop where
  nonempty : path ≠ []
  nodup : path.Nodup
  root : ∀ r ∈ path.head?, org.parentOf[r]? = none
  ends : path.getLast? = some grantor
  linked : path.IsChain fun upper lower => org.parentOf[lower]? = some upper

/-- Such a path is the grantor's way up, read from its end. -/
theorem escalatesTo_iff {org : OrgChart} {path : List String} {grantor : String} :
    EscalatesTo org path grantor ↔ Lineage (fun x => org.parentOf[x]?) grantor path.reverse := by
  rw [Lineage.iff_chain, List.head?_reverse, List.isChain_reverse, List.getLast?_reverse]
  constructor
  · rintro ⟨-, -, hroot, hends, hlinked⟩
    exact ⟨hends, hlinked, hroot⟩
  · rintro ⟨hends, hlinked, hroot⟩
    have hlineage : Lineage (fun x => org.parentOf[x]?) grantor path.reverse := by
      rw [Lineage.iff_chain, List.head?_reverse, List.isChain_reverse, List.getLast?_reverse]
      exact ⟨hends, hlinked, hroot⟩
    refine ⟨?_, List.nodup_reverse.mp hlineage.nodup, hroot, hends, hlinked⟩
    rintro rfl
    cases hends

namespace Contract
variable {F : Foreign}

/-- One of the two participants is `who` and the other one is `other`. -/
def Counterpart (participants : String × String) (who other : String) : Prop :=
  who = participants.1 ∧ other = participants.2 ∨ who = participants.2 ∧ other = participants.1

theorem find_counterpart {participants : String × String} {who : String}
    (hne : participants.1 ≠ participants.2) (hwho : who ∈ members participants) :
    ∃ other, (members participants).find? (fun p => p ≠ who) = some other ∧
      ∀ x, Counterpart participants who x ↔ x = other := by
  rcases List.mem_pair.mp hwho with rfl | rfl
  · refine ⟨participants.2, by simp [members, hne.symm], fun x => ?_⟩
    simp [Counterpart, hne]
  · refine ⟨participants.1, by simp [members, hne], fun x => ?_⟩
    simp [Counterpart, hne.symm]

theorem checkEscalationUrns_ok {path : List String} :
    checkEscalationUrns path = .ok () ↔ ∀ urn ∈ path, ∃ name, AgentUrn.parse urn = .ok name := by
  induction path with
  | nil => simp [checkEscalationUrns]
  | cons urn path ih =>
    simp only [checkEscalationUrns, bind_eq_ok, mapError_eq_ok, ih, List.forall_mem_cons]
    simp

structure Delegates (F : Foreign) (session : Session) (task : Task) (grantId : String)
    (org : OrgChart) (L : GrantLedger) (at_ : String) (path : List String) : Prop where
  urns : ∀ urn ∈ path, ∃ name, AgentUrn.parse urn = .ok name
  time : validateTimestamp F at_ = .ok ()
  grant : ∃ g, L.grants[grantId]? = some g ∧ g.grantee = task.owner ∧
    Counterpart session.participants task.owner g.grantor ∧ EscalatesTo org path g.grantor
  inForce : ∀ x, L.Descends grantId x → L.InForce at_ x

/-- The first part of grounding: the shapes on the path, and the grant open at a canonical
time. -/
def openGrant (F : Foreign) (L : GrantLedger) (grantId at_ : String) (path : List String) :
    Except ContractError CapabilityGrant := do
  checkEscalationUrns path
  let grant ← (L.grant grantId).mapError .grant
  let isOpen ← (L.isOpen F grantId at_).mapError .grant
  if !isOpen then .error (.grantNotOpen grantId at_) else .ok grant

theorem openGrant_ok {L : GrantLedger} (hL : L.Sound) {grantId at_ : String} {path : List String}
    {g : CapabilityGrant} : openGrant F L grantId at_ path = .ok g ↔
      (∀ urn ∈ path, ∃ name, AgentUrn.parse urn = .ok name) ∧ L.grants[grantId]? = some g ∧
        validateTimestamp F at_ = .ok () ∧ ∀ x, L.Descends grantId x → L.InForce at_ x := by
  simp only [openGrant, bind_eq_ok, mapError_eq_ok, GrantLedger.grant]
  constructor
  · rintro ⟨_, hurns, g', hg, b, hopen, hb⟩
    cases hrec : L.grants[grantId]? with
    | none => simp [hrec] at hg
    | some q =>
      rw [hrec] at hg
      obtain rfl := Except.ok.inj hg
      cases b with
      | false => cases hb
      | true =>
        obtain rfl := Except.ok.inj hb
        refine ⟨checkEscalationUrns_ok.mp hurns, rfl, ?_,
          hL.inForce_of_open (GrantLedger.mem_grants hrec) hopen⟩
        rw [GrantLedger.isOpen, bind_eq_ok] at hopen
        obtain ⟨_, htime, -⟩ := hopen
        exact mapError_eq_ok.mp htime
  · rintro ⟨hurns, hrec, htime, hforce⟩
    obtain ⟨b, hb, hiff⟩ := hL.isOpen_descends (GrantLedger.mem_grants hrec) htime
    obtain rfl := hiff.mpr hforce
    exact ⟨(), checkEscalationUrns_ok.mpr hurns, g, by rw [hrec], true, hb, rfl⟩

/-- With everything given, grounding answers, and accepts exactly what a delegation rests on. -/
theorem groundDelegation_answers {L : GrantLedger} (hL : L.Sound) {session : Session} {task : Task}
    (hne : session.participants.1 ≠ session.participants.2)
    (howner : task.owner ∈ members session.participants) (grantId : String) (org : OrgChart)
    (at_ : String) (path : List String) :
    ∃ r, groundDelegation F session task (some grantId) (some org) (some L) (some at_) path =
        .returns r ∧
      (r = .ok () ↔ Delegates F session task grantId org L at_ path) := by
  obtain ⟨other, hfind, hother⟩ := find_counterpart hne howner
  have hdelegates : Delegates F session task grantId org L at_ path ↔
      ∃ g, openGrant F L grantId at_ path = .ok g ∧ g.grantee = task.owner ∧ g.grantor = other ∧
        EscalatesTo org path g.grantor := by
    constructor
    · rintro ⟨hurns, htime, ⟨g, hg, hgrantee, hgrantor, hpath⟩, hforce⟩
      exact ⟨g, (openGrant_ok hL).mpr ⟨hurns, hg, htime, hforce⟩, hgrantee,
        (hother _).mp hgrantor, hpath⟩
    · rintro ⟨g, hopen, hgrantee, hgrantor, hpath⟩
      obtain ⟨hurns, hg, htime, hforce⟩ := (openGrant_ok hL).mp hopen
      exact ⟨hurns, htime, ⟨g, hg, hgrantee, (hother _).mpr hgrantor, hpath⟩, hforce⟩
  rw [hdelegates]
  unfold groundDelegation
  simp only [hfind]
  cases hopen : openGrant F L grantId at_ path with
  | error e =>
    unfold openGrant at hopen
    simp only [hopen]
    exact ⟨_, rfl, by simp⟩
  | ok g =>
    unfold openGrant at hopen
    simp only [hopen]
    by_cases hparties : g.grantee ≠ task.owner ∨ g.grantor ≠ other
    · refine ⟨_, if_pos hparties, ?_⟩
      rw [← not_and_or] at hparties
      simp only [reduceCtorEq, Except.ok.injEq, exists_eq_left', false_iff]
      exact fun h => hparties ⟨h.1, h.2.1⟩
    · simp only [if_neg hparties, Except.ok.injEq, exists_eq_left', escalatesTo_iff]
      rw [not_or, not_not, not_not] at hparties
      cases hchain : org.checkedChain g.grantor with
      | error e =>
        refine ⟨_, rfl, ?_⟩
        simp only [reduceCtorEq, false_iff, not_and]
        intro _ _ hlineage
        rw [OrgChart.checkedChain_of_lineage hlineage] at hchain
        cases hchain
      | ok chain =>
        have hup := OrgChart.checkedChain_lineage hchain
        by_cases hpath : path = chain.reverse
        · refine ⟨.ok (), by simp [hpath], iff_of_true rfl ⟨hparties.1, hparties.2, ?_⟩⟩
          rw [hpath, List.reverse_reverse]
          exact hup
        · refine ⟨_, if_pos hpath, iff_of_false nofun fun h => hpath ?_⟩
          rw [← h.2.2.unique hup, List.reverse_reverse]

structure Formable (F : Foreign) (session : Session) (task : Task) (grantId : Option String)
    (org : Option OrgChart) (ledger : Option GrantLedger) (at_ : Option String)
    (path : List String) (limits : ContractLimits) : Prop where
  active : session.state = .active
  limits : 1 ≤ limits.maxRounds ∧ 1 ≤ limits.maxAmendments
  grounds : ∃ id chart L t, grantId = some id ∧ org = some chart ∧ ledger = some L ∧
    at_ = some t ∧ Delegates F session task id chart L t path

theorem owner_of_counterpart {participants : String × String} {who other : String}
    (h : Counterpart participants who other) : who ∈ members participants := by
  rcases h with ⟨rfl, -⟩ | ⟨rfl, -⟩ <;> simp [members]

section Proposals
variable (F : Foreign) {session : Session} {task : Task} {grantId : Option String}
  (org : Option OrgChart) {ledger : Option GrantLedger} (at_ : Option String) (path : List String)
  (hL : ∀ L, ledger = some L → L.Sound) (hne : session.participants.1 ≠ session.participants.2)
include hL hne

theorem groundDelegation_returns (howner : task.owner ∈ members session.participants)
    (hgrant : grantId ≠ none) :
    ∃ r, groundDelegation F session task grantId org ledger at_ path = .returns r ∧
      (r = .ok () ↔ ∃ id chart L t, grantId = some id ∧ org = some chart ∧ ledger = some L ∧
        at_ = some t ∧ Delegates F session task id chart L t path) := by
  obtain ⟨id, rfl⟩ := Option.ne_none_iff_exists'.mp hgrant
  cases org with
  | none => exact ⟨_, rfl, by simp⟩
  | some chart =>
    cases ledger with
    | none => exact ⟨_, rfl, by simp⟩
    | some L =>
      cases at_ with
      | none => exact ⟨_, rfl, by simp⟩
      | some t =>
        obtain ⟨r, hr, hiff⟩ := groundDelegation_answers (F := F) (hL L rfl) hne howner id chart t
          path
        exact ⟨r, hr, by simpa using hiff⟩

theorem propose_returns (contractId : String) (relationship : Relationship)
    (limits : ContractLimits) :
    ∃ r, propose F session contractId task relationship grantId org ledger at_ path limits =
      .returns r := by
  unfold propose
  simp only
  split_ifs with hstate hlimits hpath hgrant howner hdelegation
  · exact ⟨_, rfl⟩
  · exact ⟨_, rfl⟩
  · exact ⟨_, rfl⟩
  · exact ⟨_, rfl⟩
  · have hnamed : grantId ≠ none := fun hnone => hgrant ⟨hdelegation, hnone⟩
    obtain ⟨r, hr, -⟩ := groundDelegation_returns F org at_ path hL hne howner hnamed
    rw [hr]
    rcases r with e | ⟨⟨⟩⟩ <;> exact ⟨_, rfl⟩
  · exact ⟨_, rfl⟩
  · exact ⟨_, rfl⟩

theorem propose_delegation_iff (contractId : String) (limits : ContractLimits) :
    (∃ c, propose F session contractId task .delegation grantId org ledger at_ path limits =
        .returns (.ok c)) ↔ Formable F session task grantId org ledger at_ path limits := by
  simp only [propose_eq_ok, not_or, UInt64.not_lt, forall_const]
  constructor
  · rintro ⟨c, hactive, hlimits, howner, ⟨-, hgrant, hground⟩, -⟩
    obtain ⟨r, hr, hiff⟩ := groundDelegation_returns F org at_ path hL hne howner hgrant
    exact ⟨hactive, hlimits, hiff.mp (Outcome.returns.inj (hr.symm.trans hground))⟩
  · rintro ⟨hactive, hlimits, hgrounds⟩
    obtain ⟨id, chart, L, t, rfl, rfl, rfl, rfl, hdelegates⟩ := hgrounds
    obtain ⟨g, -, -, hparties, hpath⟩ := hdelegates.grant
    have howner := owner_of_counterpart hparties
    obtain ⟨r, hr, hiff⟩ := groundDelegation_returns F (some chart) (some t) path hL hne howner
      (Option.some_ne_none id)
    obtain rfl := hiff.mpr ⟨id, chart, L, t, rfl, rfl, rfl, rfl, hdelegates⟩
    exact ⟨_, hactive, hlimits, howner, ⟨hpath.nonempty, Option.some_ne_none id, hr⟩, rfl⟩

end Proposals

/-- On a session that was opened and a ledger that was issued and revoked on, proposing always
answers, and a delegation forms exactly when it is grounded. -/
theorem delegation_grounded (F : Foreign) {sessionId opener acceptor : String} {s₀ : Session}
    (hopen : Session.open_ sessionId opener acceptor = .ok s₀) (sessionCalls : List SessionCall)
    (ledgerCalls : Option (List LedgerCall)) (contractId : String) (task : Task)
    (grantId : Option String) (org : Option OrgChart) (at_ : Option String) (path : List String)
    (limits : ContractLimits) :
    (∀ relationship, ∃ r, propose F (sessionMachine.exec s₀ sessionCalls) contractId task
        relationship grantId org (ledgerCalls.map ((ledgerMachine F).exec {})) at_ path limits =
        .returns r) ∧
      ((∃ c, propose F (sessionMachine.exec s₀ sessionCalls) contractId task .delegation grantId
          org (ledgerCalls.map ((ledgerMachine F).exec {})) at_ path limits = .returns (.ok c)) ↔
        Formable F (sessionMachine.exec s₀ sessionCalls) task grantId org
          (ledgerCalls.map ((ledgerMachine F).exec {})) at_ path limits) := by
  have hne := Session.participants_ne hopen sessionCalls
  have hL : ∀ L, ledgerCalls.map ((ledgerMachine F).exec {}) = some L → L.Sound := by
    intro L hL
    obtain ⟨calls, -, rfl⟩ := Option.map_eq_some_iff.mp hL
    exact GrantLedger.sound_exec F calls
  exact ⟨fun relationship => propose_returns F org at_ path hL hne contractId relationship limits,
    propose_delegation_iff F org at_ path hL hne contractId limits⟩

def supervisorSession : Session :=
  ⟨"s-1", ("urn:hacp:agent:s", "urn:hacp:agent:a"), ∅, .opening, ∅, none⟩

theorem delegation_grounded_supervisor :
    (∀ relationship, ∃ r, propose Foreign.placeholder
        (sessionMachine.exec supervisorSession [.accept "urn:hacp:agent:a"]) "c-1"
        ⟨"t-1", "the build is green", "urn:hacp:agent:a"⟩ relationship (some "g-000000000003")
        (some CollaborationPermit.siblingChart)
        ((some CollaborationPermit.oneSibling).map ((ledgerMachine Foreign.placeholder).exec {}))
        (some "2026-06-01T00:00:00Z") ["urn:hacp:agent:s"] ⟨4, 2, 1⟩ = .returns r) ∧
      ((∃ c, propose Foreign.placeholder
          (sessionMachine.exec supervisorSession [.accept "urn:hacp:agent:a"]) "c-1"
          ⟨"t-1", "the build is green", "urn:hacp:agent:a"⟩ .delegation (some "g-000000000003")
          (some CollaborationPermit.siblingChart)
          ((some CollaborationPermit.oneSibling).map ((ledgerMachine Foreign.placeholder).exec {}))
          (some "2026-06-01T00:00:00Z") ["urn:hacp:agent:s"] ⟨4, 2, 1⟩ = .returns (.ok c)) ↔
        Formable Foreign.placeholder
          (sessionMachine.exec supervisorSession [.accept "urn:hacp:agent:a"])
          ⟨"t-1", "the build is green", "urn:hacp:agent:a"⟩ (some "g-000000000003")
          (some CollaborationPermit.siblingChart)
          ((some CollaborationPermit.oneSibling).map ((ledgerMachine Foreign.placeholder).exec {}))
          (some "2026-06-01T00:00:00Z") ["urn:hacp:agent:s"] ⟨4, 2, 1⟩) :=
  delegation_grounded Foreign.placeholder
    (show Session.open_ "s-1" "urn:hacp:agent:s" "urn:hacp:agent:a" = .ok supervisorSession from rfl)
    [.accept "urn:hacp:agent:a"]
    (some CollaborationPermit.oneSibling) "c-1" ⟨"t-1", "the build is green", "urn:hacp:agent:a"⟩
    (some "g-000000000003") (some CollaborationPermit.siblingChart) (some "2026-06-01T00:00:00Z")
    ["urn:hacp:agent:s"] ⟨4, 2, 1⟩

end Contract
end Hacp.V2
