import Hacp.V2.Escalation
import Hacp.Lib.Machine

/-!
# The escalation ladder

On an acyclic chart the mediator of stage one is the lowest common supervisor of the
parties, so referral always climbs to that mediator's own supervisor, if there is one.
Whatever is called on an escalation after that, rulings come only after a referral, no
party arbitrates, and the two ends are final.
-/
namespace Hacp.V2
open Lib Std

/-- The calls that change an escalation; referrals are all made on one chart. -/
inductive EscalationCall where
  | refer
  | invokeArbiter (arbiter : String)
  | resolve (ruling : Ruling)
  | concludeNoAgreement

def escalationMachine (org : OrgChart) :
    Machine Escalation EscalationCall (Except EscalationError Unit) where
  step esc call := match call with
    | .refer => esc.refer org
    | .invokeArbiter arbiter => esc.invokeArbiter arbiter
    | .resolve ruling => esc.resolve ruling
    | .concludeNoAgreement => esc.concludeNoAgreement

def OrgChart.Acyclic (org : OrgChart) : Prop := ∀ agent, ¬org.Above agent agent

def EscalationStage.Ended (stage : EscalationStage) : Prop :=
  stage = .resolved ∨ stage = .noAgreement

namespace OrgChart
variable {org : OrgChart} {a b m s : String}

theorem Acyclic.not_meetsCycle (h : org.Acyclic) (agent : String) : ¬org.MeetsCycle agent :=
  fun ⟨x, _, hx⟩ => h x hx

theorem validateEntries_eq_ok {entries : List (String × String)} :
    org.validateEntries entries = .ok () ↔ ∀ p ∈ entries,
      (∃ name, AgentUrn.parse p.1 = .ok name) ∧ (∃ name, AgentUrn.parse p.2 = .ok name) ∧
        ∃ path, org.checkedChain p.1 = .ok path := by
  induction entries with
  | nil => simp [validateEntries]
  | cons p entries ih =>
    obtain ⟨child, parent⟩ := p
    simp only [validateEntries, bind_eq_ok, mapError_eq_ok, List.forall_mem_cons, ih]
    constructor
    · rintro ⟨c, hchild, p, hparent, path, hpath, h⟩
      exact ⟨⟨⟨c, hchild⟩, ⟨p, hparent⟩, path, hpath⟩, h⟩
    · rintro ⟨⟨⟨c, hchild⟩, ⟨p, hparent⟩, path, hpath⟩, h⟩
      exact ⟨c, hchild, p, hparent, path, hpath, h⟩

theorem acyclic_of_validate (h : org.validate = .ok ()) : org.Acyclic := by
  intro agent hagent
  obtain ⟨parent, hparent, -⟩ := Relation.TransGen.head'_iff.mp hagent
  obtain ⟨-, -, path, hpath⟩ := validateEntries_eq_ok.mp h (agent, parent)
    (ExtTreeMap.mem_toList_iff_getElem?_eq_some.mpr hparent)
  exact checkedChain_ok_iff.mp ⟨path, hpath⟩ ⟨agent, .refl, hagent⟩

theorem above_iff_of_parent (ha : org.parentOf[a]? = some m) :
    org.Above a s ↔ s = m ∨ org.Above m s := by
  have hparent (x : String) : org.ReportsTo a x ↔ m = x := by
    rw [ReportsTo, ha, Option.some.injEq]
  rw [Above, Relation.TransGen.head'_iff]
  simp only [hparent, exists_eq_left', Relation.reflTransGen_iff_eq_or_transGen]
  rfl

/-- A common supervisor that is the parent of one of the two is the lowest. -/
theorem Acyclic.lca_eq (h : org.Acyclic) (ha : org.Above a m) (hb : org.Above b m)
    (hparent : org.parentOf[a]? = some m ∨ org.parentOf[b]? = some m) : org.lca a b = some m := by
  cases hlca : org.lca a b with
  | none =>
    rcases lca_eq_none_iff.mp hlca with hcycle | hcycle | hnone
    · exact (h.not_meetsCycle a hcycle).elim
    · exact (h.not_meetsCycle b hcycle).elim
    · exact (hnone ⟨m, ha, hb⟩).elim
  | some s =>
    obtain ⟨-, -, hsa, hsb, hlowest⟩ := lca_spec hlca
    by_contra hne
    rw [Option.some.injEq] at hne
    have hsm : org.Above s m := hlowest m ha hb fun hms => hne hms.symm
    have hms : org.Above m s := by
      rcases hparent with hparent | hparent
      · exact ((above_iff_of_parent hparent).mp hsa).resolve_left hne
      · exact ((above_iff_of_parent hparent).mp hsb).resolve_left hne
    exact h s (hsm.trans hms)

end OrgChart

namespace Escalation
variable {org : OrgChart} {a b m : String} {esc esc' : Escalation}

theorem StageOne.above_both (h : StageOne org a b m) : org.Above a m ∧ org.Above b m := by
  cases h with
  | siblings ha hb => exact ⟨.single ha, .single hb⟩
  | under ha hb => exact ⟨.head ha (.single hb), .single hb⟩
  | above hb ha _ => exact ⟨.single ha, .head hb (.single ha)⟩

/-- On an acyclic chart the mediator of stage one is the lowest common supervisor. -/
theorem StageOne.lca_eq (h : StageOne org a b m) (hacyclic : org.Acyclic) :
    org.lca a b = some m := by
  obtain ⟨ha, hb⟩ := h.above_both
  apply hacyclic.lca_eq ha hb
  cases h with
  | siblings ha _ => exact Or.inl ha
  | under _ hb => exact Or.inr hb
  | above _ ha _ => exact Or.inl ha

inductive Passes (org : OrgChart) (esc : Escalation) : EscalationCall → Escalation → Prop where
  | refer {lca : String} (hstage : esc.stage = .raised)
      (hlca : org.lca esc.parties.1 esc.parties.2 = some lca) :
      Passes org esc .refer { esc with
        mediator := some (if esc.mediator = some lca then (org.parentOf[lca]?).getD lca else lca)
        stage := .referred }
  | invokeArbiter {arbiter : String} (hstage : ¬esc.stage.Ended)
      (harbiter : arbiter ∉ members esc.parties) :
      Passes org esc (.invokeArbiter arbiter) { esc with arbiter := some arbiter }
  | resolve (ruling : Ruling) (hstage : esc.stage = .referred) :
      Passes org esc (.resolve ruling) { esc with ruling := some ruling, stage := .resolved }
  | concludeNoAgreement (hstage : ¬esc.stage.Ended) :
      Passes org esc .concludeNoAgreement { esc with stage := .noAgreement }

/-- A call passes all its checks, or it fails and leaves the escalation as it was. -/
theorem step_cases (org : OrgChart) (esc : Escalation) (call : EscalationCall) :
    (∃ esc', (escalationMachine org).step esc call = (esc', .ok ()) ∧ Passes org esc call esc') ∨
      ∃ e, (escalationMachine org).step esc call = (esc, .error e) := by
  cases call with
  | refer =>
    simp only [escalationMachine, Escalation.refer]
    split_ifs with hstage
    · exact Or.inr ⟨_, rfl⟩
    · cases hlca : org.lca esc.parties.1 esc.parties.2 with
      | none => exact Or.inr ⟨_, rfl⟩
      | some lca => exact Or.inl ⟨_, rfl, .refer (not_not.mp hstage) hlca⟩
  | invokeArbiter arbiter =>
    simp only [escalationMachine, Escalation.invokeArbiter]
    split_ifs with hstage harbiter
    · exact Or.inr ⟨_, rfl⟩
    · exact Or.inr ⟨_, rfl⟩
    · exact Or.inl ⟨_, rfl, .invokeArbiter hstage harbiter⟩
  | resolve ruling =>
    simp only [escalationMachine, Escalation.resolve]
    split_ifs with hstage
    · exact Or.inr ⟨_, rfl⟩
    · exact Or.inl ⟨_, rfl, .resolve ruling (not_not.mp hstage)⟩
  | concludeNoAgreement =>
    simp only [escalationMachine, Escalation.concludeNoAgreement]
    split_ifs with hstage
    · exact Or.inr ⟨_, rfl⟩
    · exact Or.inl ⟨_, rfl, .concludeNoAgreement hstage⟩

theorem step_keeps {P : Escalation → Prop} (hesc : P esc) {call : EscalationCall}
    (hpasses : ∀ esc', Passes org esc call esc' → P esc') :
    P ((escalationMachine org).step esc call).1 := by
  rcases step_cases org esc call with ⟨esc', hstep, h⟩ | ⟨e, hstep⟩
  · rw [hstep]
    exact hpasses esc' h
  · rw [hstep]
    exact hesc

/-- Nothing passes on an escalation that has ended. -/
theorem Passes.not_ended {call : EscalationCall} (h : Passes org esc call esc') :
    ¬esc.stage.Ended := by
  cases h with
  | refer hstage _ => simp [hstage, EscalationStage.Ended]
  | invokeArbiter hstage _ => exact hstage
  | resolve _ hstage => simp [hstage, EscalationStage.Ended]
  | concludeNoAgreement hstage => exact hstage

theorem exec_of_ended (hesc : esc.stage.Ended) (calls : List EscalationCall) :
    (escalationMachine org).exec esc calls = esc := by
  refine Machine.exec_invariant (P := fun t => t = esc) ?_ rfl calls
  rintro t call rfl
  exact step_keeps (P := fun t' => t' = t) rfl fun t' h => (h.not_ended hesc).elim

/-- Where an escalation raised between `a` and `b` under `m` may stand. -/
structure OnLadder (org : OrgChart) (a b m : String) (esc : Escalation) : Prop where
  parties : esc.parties = (a, b)
  mediator : esc.mediator = some m ∨ esc.mediator = some ((org.parentOf[m]?).getD m)
  raised : esc.stage = .raised → esc.mediator = some m
  ruling : esc.ruling.isSome ↔ esc.stage = .resolved
  arbiter : ∀ arbiter ∈ esc.arbiter, arbiter ≠ a ∧ arbiter ≠ b

namespace OnLadder

/-- With the mediator at the lowest common supervisor a referral climbs to its parent. -/
theorem refer (h : OnLadder org a b m esc) (hlca : org.lca a b = some m)
    (hstage : esc.stage = .raised) : esc.refer org = ({ esc with
      mediator := some ((org.parentOf[m]?).getD m), stage := .referred }, .ok ()) := by
  rw [refer_eq_ok, h.parties]
  refine ⟨hstage, m, hlca, ?_⟩
  rw [if_pos (h.raised hstage)]

theorem passes (h : OnLadder org a b m esc) (hlca : org.lca a b = some m) {call : EscalationCall}
    (hcall : Passes org esc call esc') : OnLadder org a b m esc' := by
  have hruling (hstage : esc.stage ≠ .resolved) : esc.ruling.isSome ≠ true :=
    fun hsome => hstage (h.ruling.mp hsome)
  cases hcall with
  | @refer lca hstage hlca' =>
    rw [h.parties, hlca] at hlca'
    obtain rfl := Option.some.inj hlca'
    rw [if_pos (h.raised hstage)]
    exact {
      parties := h.parties
      mediator := Or.inr rfl
      raised := nofun
      ruling := by simp [hruling (by simp [hstage])]
      arbiter := h.arbiter }
  | @invokeArbiter arbiter hstage harbiter =>
    refine { h with arbiter := fun x hx => ?_ }
    obtain rfl := Option.some.inj hx
    rw [h.parties] at harbiter
    simpa [members] using harbiter
  | resolve ruling hstage => exact { h with raised := nofun, ruling := by simp }
  | concludeNoAgreement hstage =>
    refine { h with raised := nofun, ruling := ?_ }
    simp [hruling fun hresolved => hstage (Or.inl hresolved)]

theorem exec (h : OnLadder org a b m esc) (hlca : org.lca a b = some m)
    (calls : List EscalationCall) : OnLadder org a b m ((escalationMachine org).exec esc calls) :=
  Machine.exec_invariant (fun _ _ hesc => step_keeps hesc fun _ => hesc.passes hlca) h calls

end OnLadder

def Referred (hist : List (Event Escalation EscalationCall (Except EscalationError Unit))) :
    Prop :=
  ∃ e ∈ hist, e.input = .refer ∧ e.output = .ok ()

theorem referred_before (hesc : esc.stage = .raised) (calls : List EscalationCall) :
    ((escalationMachine org).exec esc calls).stage = .referred ∨
        ((escalationMachine org).exec esc calls).stage = .resolved →
      Referred ((escalationMachine org).history esc calls) := by
  refine Machine.history_invariant (I := fun hist (t : Escalation) =>
    t.stage = .referred ∨ t.stage = .resolved → Referred hist) (by simp [hesc]) ?_ calls
  intro calls call ih hstage
  generalize (escalationMachine org).exec esc calls = t at ih hstage
  have hearlier (h : t.stage = .referred ∨ t.stage = .resolved) :
      Referred ((escalationMachine org).history esc calls ++
        [(escalationMachine org).event t call]) := by
    obtain ⟨e, he, hrefer⟩ := ih h
    exact ⟨e, List.mem_append_left _ he, hrefer⟩
  rcases step_cases org t call with ⟨t', hstep, hpasses⟩ | ⟨e, hstep⟩
  · rw [hstep] at hstage
    cases hpasses with
    | refer =>
      refine ⟨_, List.mem_append_right _ (List.mem_singleton_self _), rfl, ?_⟩
      exact congrArg Prod.snd hstep
    | invokeArbiter => exact hearlier hstage
    | resolve ruling hreferred => exact hearlier (Or.inl hreferred)
    | concludeNoAgreement => simp at hstage
  · rw [hstep] at hstage
    exact hearlier hstage

/-- On an acyclic chart an escalation climbs and closes properly: a referral succeeds and moves
it to the supervisor of the stage-one mediator, if there is one; whatever is called, its
mediator stands above both parties, rulings come after a referral and only in `Resolved`,
no party arbitrates, the ends are final and a call that fails changes nothing. -/
theorem ladder_climbs (hacyclic : org.Acyclic) {escalationId at_ : String}
    {subject : EscalationSubject} (hraise : raise org escalationId a b subject at_ = .ok (esc, m))
    (calls : List EscalationCall) {t : Escalation}
    (ht : (escalationMachine org).exec esc calls = t) :
    (t.stage = .raised → t.mediator = some m ∧ t.refer org = ({ t with
        mediator := some ((org.parentOf[m]?).getD m), stage := .referred }, .ok ())) ∧
      (∃ mediator, t.mediator = some mediator ∧ org.Above a mediator ∧ org.Above b mediator) ∧
      (t.ruling.isSome ↔ t.stage = .resolved) ∧
      (t.stage = .resolved → Referred ((escalationMachine org).history esc calls)) ∧
      (∀ arbiter ∈ t.arbiter, arbiter ≠ a ∧ arbiter ≠ b) ∧
      (t.stage.Ended → ∀ more, (escalationMachine org).exec esc (calls ++ more) = t) ∧
      ∀ call e, ((escalationMachine org).step t call).2 = .error e →
        ((escalationMachine org).step t call).1 = t := by
  obtain ⟨-, hstage, hesc⟩ := raise_eq_ok.mp hraise
  have hlca := hstage.lca_eq hacyclic
  have hstart : OnLadder org a b m esc := by
    rw [hesc]
    exact ⟨rfl, Or.inl rfl, fun _ => rfl, by simp, by simp⟩
  have hladder := hstart.exec hlca calls
  have hraised : esc.stage = .raised := by rw [hesc]
  have hreferred : t.stage = .referred ∨ t.stage = .resolved →
      Referred ((escalationMachine org).history esc calls) := ht ▸ referred_before hraised calls
  rw [ht] at hladder
  obtain ⟨ha, hb⟩ := hstage.above_both
  refine ⟨fun hraised => ⟨hladder.raised hraised, hladder.refer hlca hraised⟩, ?_, hladder.ruling,
    fun hresolved => hreferred (Or.inr hresolved), hladder.arbiter, fun hended more => ?_,
    fun call e he => ?_⟩
  · rcases hladder.mediator with hm | hm
    · exact ⟨m, hm, ha, hb⟩
    · exact ⟨_, hm, above_climbed ha, above_climbed hb⟩
  · rw [Machine.exec_append, ht]
    exact exec_of_ended hended more
  · rcases step_cases org t call with ⟨t', hstep, -⟩ | ⟨e', hstep⟩
    · rw [hstep] at he
      cases he
    · rw [hstep]

/-- Agents `a` and `b` report to `s`, which reports to `r`. -/
def towerChart : OrgChart :=
  ⟨(((∅ : ExtTreeMap String String).insert "urn:hacp:agent:a" "urn:hacp:agent:s").insert
    "urn:hacp:agent:b" "urn:hacp:agent:s").insert "urn:hacp:agent:s" "urn:hacp:agent:r"⟩

theorem ladder_climbs_tower :
    ∃ esc, raise towerChart "esc-000000000001" "urn:hacp:agent:a" "urn:hacp:agent:b"
        (.task "t-1") "2026-09-04T12:00:00Z" = .ok (esc, "urn:hacp:agent:s") ∧
      ((escalationMachine towerChart).exec esc [.refer, .resolve .split]).mediator =
        some "urn:hacp:agent:r" ∧
      Referred ((escalationMachine towerChart).history esc [.refer, .resolve .split]) := by
  have hacyclic : towerChart.Acyclic := OrgChart.acyclic_of_validate rfl
  have hraise : raise towerChart "esc-000000000001" "urn:hacp:agent:a" "urn:hacp:agent:b"
      (.task "t-1") "2026-09-04T12:00:00Z" = .ok (⟨"esc-000000000001",
        ("urn:hacp:agent:a", "urn:hacp:agent:b"), .task "t-1", "2026-09-04T12:00:00Z", .raised,
        some "urn:hacp:agent:s", none, none⟩, "urn:hacp:agent:s") := rfl
  have h := ladder_climbs hacyclic hraise [.refer, .resolve .split] rfl
  exact ⟨_, hraise, rfl, h.2.2.2.1 rfl⟩

end Escalation
end Hacp.V2
