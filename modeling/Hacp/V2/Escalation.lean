import Hacp.V2.Supervision
import Hacp.V2.Session

/-!
# Escalation

A dispute is raised under a stage-one mediator, referred to the lowest common supervisor
of the parties, and ends with a ruling or without agreement. An arbiter may be invoked
before the end and never has to be. `raise` reads the declared parent links as they
stand, so it keeps parties and mediator apart exactly on charts where the two parties
are not each other's, or their own, supervisors; `refer` walks checked chains and
always does.
-/
namespace Hacp.V2
open Lib Std

inductive EscalationSubject where
  | contract (contractId : String)
  | task (taskId : String)
  | artifact (artifactId : String)

/-- The structural rulings of the lowest common supervisor. -/
inductive Ruling where
  | split
  | reassign (agent : String)
  | deadline (at_ : String)

inductive EscalationStage where
  | raised
  | referred
  | resolved
  | noAgreement
  deriving DecidableEq

inductive EscalationError where
  | sameParty (who : String)
  | notSameParent (a b : String)
  | noSupervisor (parent : String)
  | notMediator (who : String)
  | arbiterIsParty (arbiter : String)
  | notRaised
  | notReferred
  | closed
  | noLca
  deriving DecidableEq

structure Escalation where
  escalationId : String
  /-- The two disputing agents, in raise order. -/
  parties : String × String
  subject : EscalationSubject
  raisedAt : String
  stage : EscalationStage
  /-- Shared supervisor at raise time; the LCA after referral. -/
  mediator : Option String
  arbiter : Option String
  ruling : Option Ruling

def OrgChart.sharesParent (org : OrgChart) (a b : String) : Bool :=
  a ≠ b ∧ org.parentOf[a]?.isSome ∧ org.parentOf[a]? = org.parentOf[b]?

namespace Escalation

/-- The two legal shapes of stage one: siblings under their supervisor, and an agent with its
direct parent under the parent's supervisor. -/
def stageOneMediator (org : OrgChart) (a b : String) : Except EscalationError (Option String) :=
  if org.sharesParent a b then .ok org.parentOf[a]?
  else if org.parentOf[a]? = some b then
    match org.parentOf[b]? with
    | some mediator => .ok (some mediator)
    | none => .error (.noSupervisor b)
  else if org.parentOf[b]? = some a then
    match org.parentOf[a]? with
    | some mediator => .ok (some mediator)
    | none => .error (.noSupervisor a)
  else .ok none

def raise (org : OrgChart) (escalationId a b : String) (subject : EscalationSubject)
    (at_ : String) : Except EscalationError (Escalation × String) :=
  if a = b then .error (.sameParty a)
  else do
    match ← stageOneMediator org a b with
    | none => .error (.notSameParent a b)
    | some mediator =>
      .ok (⟨escalationId, (a, b), subject, at_, .raised, some mediator, none, none⟩, mediator)

/-- Referral climbs above the stage-one mediator where that is the lowest common supervisor
and has a supervisor itself. -/
def refer (esc : Escalation) (org : OrgChart) : Escalation × Except EscalationError Unit :=
  if esc.stage ≠ .raised then (esc, .error .notRaised)
  else match org.lca esc.parties.1 esc.parties.2 with
    | none => (esc, .error .noLca)
    | some lca =>
      let lca := if esc.mediator = some lca then (org.parentOf[lca]?).getD lca else lca
      ({ esc with mediator := some lca, stage := .referred }, .ok ())

def invokeArbiter (esc : Escalation) (arbiter : String) :
    Escalation × Except EscalationError Unit :=
  if esc.stage = .resolved ∨ esc.stage = .noAgreement then (esc, .error .closed)
  else if arbiter ∈ members esc.parties then (esc, .error (.arbiterIsParty arbiter))
  else ({ esc with arbiter := some arbiter }, .ok ())

def resolve (esc : Escalation) (ruling : Ruling) : Escalation × Except EscalationError Unit :=
  if esc.stage ≠ .referred then (esc, .error .notReferred)
  else ({ esc with ruling := some ruling, stage := .resolved }, .ok ())

/-- The valid terminal: no agreement, all evidence retained. -/
def concludeNoAgreement (esc : Escalation) : Escalation × Except EscalationError Unit :=
  if esc.stage = .resolved ∨ esc.stage = .noAgreement then (esc, .error .closed)
  else ({ esc with stage := .noAgreement }, .ok ())

variable {org : OrgChart} {a b m : String}

/-- What the parent links say of the mediator of stage one. -/
inductive StageOne (org : OrgChart) (a b m : String) : Prop where
  | siblings (ha : org.parentOf[a]? = some m) (hb : org.parentOf[b]? = some m)
  | under (ha : org.parentOf[a]? = some b) (hb : org.parentOf[b]? = some m)
  | above (hb : org.parentOf[b]? = some a) (ha : org.parentOf[a]? = some m) (hm : m ≠ b)

theorem sharesParent_iff (hab : a ≠ b) : org.sharesParent a b = true ↔
    ∃ m, org.parentOf[a]? = some m ∧ org.parentOf[b]? = some m := by
  unfold OrgChart.sharesParent
  cases org.parentOf[a]? with
  | none => simp
  | some p => simp [hab, eq_comm]

theorem stageOneMediator_iff (hab : a ≠ b) :
    stageOneMediator org a b = .ok (some m) ↔ StageOne org a b m := by
  unfold stageOneMediator
  by_cases hshared : org.sharesParent a b = true
  · obtain ⟨p, ha, hb⟩ := (sharesParent_iff hab).mp hshared
    rw [if_pos hshared, ha, Except.ok.injEq, Option.some.injEq]
    constructor
    · rintro rfl
      exact .siblings ha hb
    · rintro (⟨ha', -⟩ | ⟨-, hb'⟩ | ⟨-, ha', -⟩)
      · exact Option.some.inj (ha.symm.trans ha')
      · exact Option.some.inj (hb.symm.trans hb')
      · exact Option.some.inj (ha.symm.trans ha')
  · have hapart : ¬(org.parentOf[a]? = some m ∧ org.parentOf[b]? = some m) := fun h =>
      hshared ((sharesParent_iff hab).mpr ⟨m, h⟩)
    rw [if_neg hshared]
    by_cases ha : org.parentOf[a]? = some b
    · rw [if_pos ha]
      constructor
      · intro h
        cases hb : org.parentOf[b]? with
        | none => simp [hb] at h
        | some p =>
          rw [hb] at h
          obtain rfl := Option.some.inj (Except.ok.inj h)
          exact .under ha hb
      · rintro (⟨ha', hb'⟩ | ⟨-, hb'⟩ | ⟨-, ha', hm⟩)
        · exact (hapart ⟨ha', hb'⟩).elim
        · rw [hb']
        · exact (hm (Option.some.inj (ha'.symm.trans ha))).elim
    · rw [if_neg ha]
      by_cases hb : org.parentOf[b]? = some a
      · rw [if_pos hb]
        constructor
        · intro h
          cases ha' : org.parentOf[a]? with
          | none => simp [ha'] at h
          | some p =>
            rw [ha'] at h
            obtain rfl := Option.some.inj (Except.ok.inj h)
            exact .above hb ha' fun hm => ha (hm ▸ ha')
        · rintro (⟨ha', hb'⟩ | ⟨ha', -⟩ | ⟨-, ha', -⟩)
          · exact (hapart ⟨ha', hb'⟩).elim
          · exact (ha ha').elim
          · rw [ha']
      · rw [if_neg hb]
        constructor
        · intro h
          cases Except.ok.inj h
        · rintro (⟨ha', hb'⟩ | ⟨ha', -⟩ | ⟨hb', -, -⟩)
          · exact (hapart ⟨ha', hb'⟩).elim
          · exact (ha ha').elim
          · exact (hb hb').elim

theorem raise_eq_ok {escalationId at_ : String} {subject : EscalationSubject} {esc : Escalation} :
    raise org escalationId a b subject at_ = .ok (esc, m) ↔ a ≠ b ∧ StageOne org a b m ∧
      esc = ⟨escalationId, (a, b), subject, at_, .raised, some m, none, none⟩ := by
  unfold raise
  rw [guard_eq_ok, bind_eq_ok]
  refine and_congr_right fun hab => ?_
  rw [← stageOneMediator_iff hab]
  constructor
  · rintro ⟨_ | mediator, hmediator, h⟩
    · cases h
    · obtain ⟨rfl, rfl⟩ := Prod.mk.inj (Except.ok.inj h)
      exact ⟨hmediator, rfl⟩
  · rintro ⟨hmediator, rfl⟩
    exact ⟨some m, hmediator, rfl⟩

/-- Where a referral that starts from the mediator `m` ends. -/
theorem refer_eq_ok {esc esc' : Escalation} : esc.refer org = (esc', .ok ()) ↔
    esc.stage = .raised ∧ ∃ lca, org.lca esc.parties.1 esc.parties.2 = some lca ∧
      esc' = { esc with
        mediator := some (if esc.mediator = some lca then (org.parentOf[lca]?).getD lca else lca)
        stage := .referred } := by
  unfold refer
  by_cases hstage : esc.stage = .raised
  · rw [if_neg (not_not.mpr hstage)]
    cases org.lca esc.parties.1 esc.parties.2 with
    | none => simp
    | some lca => simp [hstage, eq_comm]
  · rw [if_pos hstage]
    simp [hstage]

theorem above_climbed {x s : String} (h : org.Above x s) :
    org.Above x ((org.parentOf[s]?).getD s) := by
  cases hparent : org.parentOf[s]? with
  | none => exact h
  | some parent => exact h.tail hparent

/-- On any chart a referral assigns somebody above both parties and none of them. -/
theorem refer_above {esc esc' : Escalation} (h : esc.refer org = (esc', .ok ())) :
    ∃ m, esc'.mediator = some m ∧ org.Above esc.parties.1 m ∧ org.Above esc.parties.2 m ∧
      m ≠ esc.parties.1 ∧ m ≠ esc.parties.2 := by
  obtain ⟨-, lca, hlca, rfl⟩ := refer_eq_ok.mp h
  obtain ⟨ha, hb, habove, hbbove, -⟩ := OrgChart.lca_spec hlca
  split_ifs with hsame
  · have ha' := above_climbed habove
    have hb' := above_climbed hbbove
    exact ⟨_, rfl, ha', hb', OrgChart.ne_of_above ha ha', OrgChart.ne_of_above hb hb'⟩
  · exact ⟨lca, rfl, habove, hbbove, OrgChart.ne_of_above ha habove, OrgChart.ne_of_above hb hbbove⟩

/-- What `raise` and a `refer` after it, on any chart, assign is neither party. -/
def MediatorsApart (org : OrgChart) (a b : String) : Prop :=
  ∀ escalationId subject at_ esc m, raise org escalationId a b subject at_ = .ok (esc, m) →
    (esc.mediator = some m ∧ m ≠ a ∧ m ≠ b) ∧
      ∀ chart esc', esc.refer chart = (esc', .ok ()) →
        ∃ m', esc'.mediator = some m' ∧ m' ≠ a ∧ m' ≠ b

/-- Both parents are among the two, and not each its own. -/
def Tangled (org : OrgChart) (a b : String) : Prop :=
  ∃ p q, org.parentOf[a]? = some p ∧ org.parentOf[b]? = some q ∧ (p = a ∨ p = b) ∧
    (q = a ∨ q = b) ∧ ¬(p = a ∧ q = b)

theorem StageOne.tangled (h : StageOne org a b m) (hab : a ≠ b) (hm : m = a ∨ m = b) :
    Tangled org a b := by
  cases h with
  | siblings ha hb => exact ⟨m, m, ha, hb, hm, hm, fun h => hab (h.1.symm.trans h.2)⟩
  | under ha hb => exact ⟨b, m, ha, hb, Or.inr rfl, hm, fun h => hab h.1.symm⟩
  | above hb ha _ => exact ⟨m, a, ha, hb, hm, Or.inl rfl, fun h => hab h.2⟩

theorem Tangled.stageOne (h : Tangled org a b) :
    a ≠ b ∧ ∃ m, StageOne org a b m ∧ (m = a ∨ m = b) := by
  obtain ⟨p, q, ha, hb, hp, hq, hown⟩ := h
  have hab : a ≠ b := by
    rintro rfl
    exact hown ⟨hp.elim id id, hq.elim id id⟩
  refine ⟨hab, ?_⟩
  rcases hp with rfl | rfl
  · have hq := hq.resolve_right fun hq => hown ⟨rfl, hq⟩
    exact ⟨p, .siblings ha (hq ▸ hb), Or.inl rfl⟩
  · exact ⟨q, .under ha hb, hq⟩

/-- The mediators are kept apart from the parties exactly where the parents are not tangled. -/
theorem mediatorsApart_iff (org : OrgChart) (a b : String) :
    MediatorsApart org a b ↔ ¬Tangled org a b := by
  constructor
  · intro h htangled
    obtain ⟨hab, m, hstage, hm⟩ := htangled.stageOne
    obtain ⟨⟨-, hma, hmb⟩, -⟩ :=
      h "" (.task "") "" _ m (raise_eq_ok.mpr ⟨hab, hstage, rfl⟩)
    exact hm.elim hma hmb
  · intro htangled escalationId subject at_ esc m h
    obtain ⟨hab, hstage, rfl⟩ := raise_eq_ok.mp h
    have hm : ¬(m = a ∨ m = b) := fun hm => htangled (hstage.tangled hab hm)
    refine ⟨⟨rfl, not_or.mp hm⟩, fun chart esc' hrefer => ?_⟩
    obtain ⟨m', hm', -, -, hne⟩ := refer_above hrefer
    exact ⟨m', hm', hne⟩

/-- Agent `b` declares itself its own parent, and `a` reports to `b`. -/
def selfSupervised : OrgChart :=
  ⟨((∅ : ExtTreeMap String String).insert "urn:hacp:agent:a" "urn:hacp:agent:b").insert
    "urn:hacp:agent:b" "urn:hacp:agent:b"⟩

theorem raise_assigns_party :
    ¬MediatorsApart selfSupervised "urn:hacp:agent:a" "urn:hacp:agent:b" := by
  intro h
  have hraise : raise selfSupervised "esc-000000000001" "urn:hacp:agent:a" "urn:hacp:agent:b"
      (.task "t-1") "2026-09-04T12:00:00Z" = .ok (⟨"esc-000000000001",
        ("urn:hacp:agent:a", "urn:hacp:agent:b"), .task "t-1", "2026-09-04T12:00:00Z", .raised,
        some "urn:hacp:agent:b", none, none⟩, "urn:hacp:agent:b") := rfl
  exact (h _ _ _ _ _ hraise).1.2.2 rfl

end Escalation
end Hacp.V2
