import Hacp.V2.ContractRun

/-!
# The revision history of a contract

One joint invariant ties the state, the revision list, the counters and the votes
together. It holds when a contract is proposed and after every call, and from it
follow the facts about whole runs: history is only appended to, terminal states
are final, and the checks meant as assertions never fail.
-/
namespace Hacp.V2
open Lib

/-- Before the first freeze, or withdrawn. -/
def ContractState.unfrozen : ContractState → Bool
  | .proposed | .countered | .agreed | .withdrawn => true
  | _ => false

/-- A frozen revision exists; of the terminal states, `noAgreement` may be either. -/
def ContractState.frozen : ContractState → Bool
  | .executing | .amending | .verifying | .settled | .rejected => true
  | _ => false

namespace Contract
variable {F : Foreign} {debug : Bool} {c : Contract}

def partySet (c : Contract) : Finset String := (members c.participants).toFinset

theorem mem_partySet {who : String} : who ∈ c.partySet ↔ who ∈ members c.participants :=
  List.mem_toFinset

theorem card_partySet_le (c : Contract) : c.partySet.card ≤ 2 :=
  List.toFinset_card_le (members c.participants)

theorem eq_partySet {s : Finset String} (hs : s ⊆ c.partySet) (hcard : 2 ≤ s.card) :
    s = c.partySet :=
  Finset.eq_of_subset_of_card_le hs (le_trans c.card_partySet_le hcard)

structure WellKept (F : Foreign) (c : Contract) : Prop where
  numbered : ∀ i r, c.revisions[i]? = some r →
    r.number = i + 1 ∧ revisionDigest F c.contractId (i + 1) r.content = .ok r.digest
  unfrozen : c.state.unfrozen = true → c.revisions = []
  frozen : c.state.frozen = true → c.revisions ≠ []
  counted : c.revisions = [] ∧ c.amendments = 0 ∨
    c.revisions.length = c.amendments.toNat + 1
  bounded : c.amendments ≤ c.limits.maxAmendments
  amendable : c.state = .amending → c.amendments < c.limits.maxAmendments
  voters : c.agreedBy ⊆ c.partySet
  agreed : c.state = .agreed → c.agreedBy.card = 2

theorem vote_agreedBy_subset {by_ : String} (hparty : by_ ∈ members c.participants)
    (hvoters : c.agreedBy ⊆ c.partySet) (digest : String) :
    (c.vote by_ digest).agreedBy ⊆ c.partySet := by
  refine Finset.insert_subset (mem_partySet.mpr hparty) ?_
  split_ifs
  · exact Finset.empty_subset _
  · exact hvoters

theorem wellKept_append (h : c.WellKept F) {terms : Json} {digest : String}
    (hdigest : revisionDigest F c.contractId (c.revisions.length + 1) terms = .ok digest) :
    ∀ i r, (c.revisions ++ [⟨c.revisions.length + 1, terms, digest⟩])[i]? = some r →
      r.number = i + 1 ∧ revisionDigest F c.contractId (i + 1) r.content = .ok r.digest := by
  intro i r hr
  rw [List.getElem?_append] at hr
  split_ifs at hr with hlt
  · exact h.numbered i r hr
  · rw [List.getElem?_singleton] at hr
    split_ifs at hr with hzero
    obtain rfl := Option.some.inj hr
    obtain rfl : i = c.revisions.length := by omega
    exact ⟨rfl, hdigest⟩

theorem WellKept.effect (h : c.WellKept F) {call : ContractCall} {r : Contract × ContractOutput}
    (he : Effect F debug c call r) : r.1.WellKept F := by
  cases he with
  | counter party state =>
    have hempty := h.unfrozen (by rcases state with h | h <;> rw [h] <;> rfl)
    exact ⟨h.numbered, fun _ => hempty, nofun, h.counted, h.bounded, nofun, Finset.empty_subset _,
      nofun⟩
  | counterAmending party state =>
    exact ⟨h.numbered, nofun, fun _ => h.frozen (by rw [state]; rfl), h.counted, h.bounded,
      fun _ => h.amendable state, Finset.empty_subset _, nofun⟩
  | exhausted party state =>
    exact ⟨h.numbered, nofun, nofun, h.counted, h.bounded, nofun, Finset.empty_subset _, nofun⟩
  | exhaustedAmending party state =>
    have hfrozen := h.frozen (by rw [state]; rfl)
    refine ⟨h.numbered, ?_, fun _ => hfrozen, h.counted, h.bounded, ?_, Finset.empty_subset _, ?_⟩
      <;> simp only <;> split_ifs <;> exact nofun
  | @agree _ _ digest party state checked =>
    have hempty := h.unfrozen (by rcases state with h | h | h <;> rw [h] <;> rfl)
    refine ⟨h.numbered, fun _ => hempty, ?_, h.counted, h.bounded, ?_,
      vote_agreedBy_subset party h.voters digest, ?_⟩ <;> simp only <;> split_ifs with hcard
    · exact nofun
    · exact nofun
    · exact nofun
    · exact nofun
    · exact fun _ => hcard
    · exact nofun
  | freeze state missing content agreed hdigest =>
    have hempty := h.unfrozen (by rw [state]; rfl)
    refine ⟨wellKept_append h hdigest, nofun, fun _ => by simp, .inr ?_, h.bounded, nofun,
      Finset.empty_subset _, nofun⟩
    rcases h.counted with ⟨-, hzero⟩ | hcount
    · simp [hempty, hzero]
    · simp [hempty] at hcount
  | withdraw party state =>
    have hempty := h.unfrozen (by rcases state with h | h | h <;> rw [h] <;> rfl)
    exact ⟨h.numbered, fun _ => hempty, nofun, h.counted, h.bounded, nofun, h.voters, nofun⟩
  | expire state =>
    exact ⟨h.numbered, nofun, nofun, h.counted, h.bounded, nofun, h.voters, nofun⟩
  | expireAmending state =>
    have hfrozen := h.frozen (by rw [state]; rfl)
    refine ⟨h.numbered, ?_, fun _ => hfrozen, h.counted, h.bounded, ?_, h.voters, ?_⟩
      <;> simp only <;> split_ifs <;> exact nofun
  | submit party state fresh =>
    have hfrozen := h.frozen (by rw [state]; rfl)
    exact ⟨h.numbered, nofun, fun _ => hfrozen, h.counted, h.bounded, nofun, h.voters, nofun⟩
  | accepted ruling state | reworked ruling state | reworkExhausted ruling state
  | rejected ruling state =>
    have hfrozen := h.frozen (by rw [state]; rfl)
    exact ⟨h.numbered, nofun, fun _ => hfrozen, h.counted, h.bounded, nofun, h.voters, nofun⟩
  | proposeAmendment party state amendments =>
    have hfrozen := h.frozen (by rw [state]; rfl)
    exact ⟨h.numbered, nofun, fun _ => hfrozen, h.counted, h.bounded,
      fun _ => UInt64.not_le.mp amendments, Finset.empty_subset _, nofun⟩
  | refuseAmendment party state =>
    have hfrozen := h.frozen (by rw [state]; rfl)
    exact ⟨h.numbered, nofun, fun _ => hfrozen, h.counted, h.bounded, nofun,
      Finset.empty_subset _, nofun⟩
  | @awaitAmendment _ _ digest party state checked =>
    have hfrozen := h.frozen (by rw [state]; rfl)
    refine ⟨h.numbered, fun hs => ?_, fun _ => hfrozen, h.counted, h.bounded,
      fun _ => h.amendable state, vote_agreedBy_subset party h.voters digest, fun hs => ?_⟩
    · simp [vote, state, ContractState.unfrozen] at hs
    · simp [vote, state] at hs
  | acceptAmendment party state checked both bound hdigest =>
    have hfrozen := h.frozen (by rw [state]; rfl)
    have hlt := UInt64.lt_iff_toNat_lt.mp (h.amendable state)
    have hsucc := toNat_saturatingSucc c.amendments
    have hmax := c.limits.maxAmendments.toNat_lt
    refine ⟨wellKept_append h hdigest, nofun, fun _ => by simp, .inr ?_,
      UInt64.le_iff_toNat_le.mpr ?_, nofun, Finset.empty_subset _, nofun⟩
    · rcases h.counted with ⟨hempty, -⟩ | hcount
      · exact absurd hempty hfrozen
      · simp only [List.length_append, List.length_singleton]
        omega
    · simp only
      omega
  | strayVote party state =>
    exact ⟨h.numbered, h.unfrozen, h.frozen, h.counted, h.bounded, h.amendable, h.voters,
      h.agreed⟩
  | assertFails party state checked both assertions bound => exact absurd (h.amendable state) bound

theorem WellKept.step (h : c.WellKept F) (call : ContractCall) :
    (contractStep F debug c call).1.WellKept F := by
  rcases step_effect F debug c call with ⟨e, hstep, -⟩ | he
  · rw [hstep]
    exact h
  · exact h.effect he

/-- The contracts that `propose` builds. -/
def Proposed (F : Foreign) (c : Contract) : Prop :=
  ∃ session contractId task relationship grantId org ledger at_ escalationPath limits,
    propose F session contractId task relationship grantId org ledger at_ escalationPath limits =
      .returns (.ok c)

structure Fresh (c : Contract) : Prop where
  state : c.state = .proposed
  amendments : c.amendments = 0
  agreedBy : c.agreedBy = ∅
  agreedTermsDigest : c.agreedTermsDigest = none
  revisions : c.revisions = []
  pendingSubmission : c.pendingSubmission = none

theorem Proposed.fresh (h : Proposed F c) : c.Fresh := by
  obtain ⟨session, contractId, task, relationship, grantId, org, ledger, at_, escalationPath,
    limits, h⟩ := h
  obtain ⟨-, -, -, -, rfl⟩ := propose_eq_ok.mp h
  exact ⟨rfl, rfl, rfl, rfl, rfl, rfl⟩

theorem Fresh.wellKept (h : c.Fresh) : c.WellKept F where
  numbered i r hr := by simp [h.revisions] at hr
  unfrozen _ := h.revisions
  frozen hs := by simp [h.state, ContractState.frozen] at hs
  counted := .inl ⟨h.revisions, h.amendments⟩
  bounded := by simp [h.amendments]
  amendable hs := by simp [h.state] at hs
  voters := by simp [h.agreedBy]
  agreed hs := by simp [h.state] at hs

/-- Every contract reached from a proposed one is well kept. -/
theorem Proposed.wellKept (h : Proposed F c) (debug : Bool) (calls : List ContractCall) :
    ((contractMachine F debug).exec c calls).WellKept F :=
  Machine.exec_invariant (P := WellKept F) (fun _ call h => h.step call) h.fresh.wellKept calls

/-! ## Consequences for whole runs -/

theorem Effect.revisions {call : ContractCall} {r : Contract × ContractOutput}
    (he : Effect F debug c call r) : c.revisions <+: r.1.revisions := by
  cases he with
  | freeze => exact List.prefix_append _ _
  | acceptAmendment => exact List.prefix_append _ _
  | _ => exact List.prefix_rfl

theorem revisions_append_only (F : Foreign) (debug : Bool) (c : Contract)
    (calls : List ContractCall) :
    c.revisions <+: ((contractMachine F debug).exec c calls).revisions := by
  refine Machine.exec_relation (P := fun _ => True)
    (R := fun c c' : Contract => c.revisions <+: c'.revisions)
    (fun _ => List.prefix_rfl) (fun _ _ _ h h' => h.trans h')
    (fun c call _ => ⟨trivial, ?_⟩) trivial calls
  rcases step_effect F debug c call with ⟨e, hstep, -⟩ | he
  · exact (congrArg (fun r => c.revisions <+: r.1.revisions) hstep).mpr List.prefix_rfl
  · exact he.revisions

end Contract

def ContractState.terminal : ContractState → Bool
  | .settled | .rejected | .withdrawn | .noAgreement => true
  | _ => false

namespace Contract
variable {F : Foreign} {debug : Bool} {c : Contract}

theorem Effect.not_terminal {call : ContractCall} {r : Contract × ContractOutput}
    (he : Effect F debug c call r) : c.state.terminal = false := by
  cases he with
  | counter _ state | exhausted _ state => rcases state with h | h <;> rw [h] <;> rfl
  | agree _ state | withdraw _ state | expire state =>
    rcases state with h | h | h <;> rw [h] <;> rfl
  | counterAmending _ state | exhaustedAmending _ state | freeze state | expireAmending state
  | submit _ state | accepted _ state | reworked _ state | reworkExhausted _ state
  | rejected _ state | proposeAmendment _ state | refuseAmendment _ state
  | awaitAmendment _ state | acceptAmendment _ state | strayVote _ state
  | assertFails _ state => rw [state]; rfl

theorem terminal_absorbing (hc : c.state.terminal = true) (call : ContractCall) :
    (contractStep F debug c call).1 = c := by
  rcases step_effect F debug c call with ⟨e, hstep, -⟩ | he
  · rw [hstep]
  · rw [he.not_terminal] at hc
    cases hc

theorem WellKept.not_panics (h : c.WellKept F) (call : ContractCall) :
    (contractStep F debug c call).2 ≠ .panics := by
  intro hpanics
  rcases step_effect F debug c call with ⟨e, hstep, -⟩ | he
  · rw [hstep] at hpanics
    cases hpanics
  · generalize contractStep F debug c call = r at he hpanics
    cases he with
    | assertFails party state checked both assertions bound => exact bound (h.amendable state)
    | _ => cases hpanics

theorem WellKept.none_missing (h : c.WellKept F) (hstate : c.state = .agreed) :
    (members c.participants).find? (fun p => p ∉ c.agreedBy) = none := by
  have hall := eq_partySet h.voters (h.agreed hstate).ge
  rw [List.find?_eq_none]
  intro p hp
  simpa [hall] using mem_partySet.mpr hp

/-- The check for missing acceptances in `freeze` never fails. -/
theorem WellKept.not_notBothAgreed (h : c.WellKept F) (terms : Json) (missing : String) :
    (contractStep F debug c (.freeze terms)).2 ≠ .returns (.error (.notBothAgreed missing)) := by
  intro herr
  simp only [contractStep, answer, freeze] at herr
  split_ifs at herr with hstate hmissing
  · simp [Except.map] at herr
  · rw [h.none_missing (not_not.mp hstate)] at hmissing
    exact hmissing rfl
  · cases hchecked : c.checkTerms F terms with
    | error e =>
      simp only [hchecked, Except.map, Outcome.returns.injEq, Except.error.injEq] at herr
      rcases checkTerms_error hchecked with ⟨e', rfl⟩ | rfl <;> simp at herr
    | ok contentDigest =>
      obtain ⟨digest, hdigest⟩ := revisionDigest_ok (checkTerms_ok.mp hchecked).1
        c.contractId (c.revisions.length + 1)
      simp only [hchecked, hdigest] at herr
      split_ifs at herr <;> simp [Except.map] at herr

def Froze (e : ContractEvent) : Prop :=
  ∃ terms digest, e.input = .freeze terms ∧ e.output = .returns (.ok (.frozen digest))

theorem WellKept.froze_iff (h : c.WellKept F) (call : ContractCall) :
    (contractStep F debug c call).1.revisions ≠ [] ↔
      c.revisions ≠ [] ∨ Froze ((contractMachine F debug).event c call) := by
  rcases step_effect F debug c call with ⟨e, hstep, -⟩ | he
  · simp [Froze, Machine.event, contractMachine, hstep]
  · simp only [Froze, Machine.event, contractMachine]
    generalize contractStep F debug c call = r at he
    cases he with
    | freeze => simp
    | acceptAmendment party state => simp [h.frozen (by rw [state]; rfl)]
    | accepted ruling | reworked ruling | reworkExhausted ruling | rejected ruling =>
      cases ruling <;> simp
    | _ => simp [vote]

/-- What holds of a contract with this past, and what no later call can change. -/
structure HistoryKept (F : Foreign) (debug : Bool) (past : List ContractEvent) (c : Contract) :
    Prop where
  numbered : ∀ i r, c.revisions[i]? = some r →
    r.number = i + 1 ∧ revisionDigest F c.contractId r.number r.content = .ok r.digest
  beforeFreeze : (∀ e ∈ past, ¬Froze e) → c.revisions.length = 0
  afterFreeze : (∃ e ∈ past, Froze e) → c.revisions.length = c.amendments.toNat + 1
  bounded : c.amendments ≤ c.limits.maxAmendments
  unfrozen : c.state.unfrozen = true → c.revisions = []
  frozen : c.state.frozen = true → c.revisions ≠ []
  appendOnly : ∀ more, c.revisions <+: ((contractMachine F debug).exec c more).revisions
  absorbing : c.state.terminal = true → ∀ more, (contractMachine F debug).exec c more = c
  bothAgreed : ∀ terms missing,
    (contractStep F debug c (.freeze terms)).2 ≠ .returns (.error (.notBothAgreed missing))
  digested : ∀ terms contentDigest number, c.checkTerms F terms = .ok contentDigest →
    ∃ digest, revisionDigest F c.contractId number terms = .ok digest
  neverPanics : ∀ call, (contractStep F debug c call).2 ≠ .panics

theorem exec_terminal (hc : c.state.terminal = true) (calls : List ContractCall) :
    (contractMachine F debug).exec c calls = c :=
  Machine.exec_invariant (P := (· = c))
    (fun s call hs => by rw [hs]; exact terminal_absorbing hc call) rfl calls

/-- Whether a freeze succeeded shows in the revision list. -/
theorem Proposed.froze_iff {c₀ : Contract} (h : Proposed F c₀) (debug : Bool)
    (calls : List ContractCall) :
    ((contractMachine F debug).exec c₀ calls).revisions ≠ [] ↔
      ∃ e ∈ (contractMachine F debug).history c₀ calls, Froze e := by
  refine Machine.history_invariant (M := contractMachine F debug)
    (I := fun past c => c.revisions ≠ [] ↔ ∃ e ∈ past, Froze e) ?_ ?_ calls
  · simp [h.fresh.revisions]
  · intro calls call ih
    have hsplit : (∃ e ∈ (contractMachine F debug).history c₀ calls ++
        [(contractMachine F debug).event ((contractMachine F debug).exec c₀ calls) call], Froze e) ↔
        (∃ e ∈ (contractMachine F debug).history c₀ calls, Froze e) ∨
          Froze ((contractMachine F debug).event ((contractMachine F debug).exec c₀ calls) call) := by
      simp [or_and_right, exists_or]
    rw [hsplit, ← ih]
    exact (h.wellKept debug calls).froze_iff call

theorem revision_history_kept {c₀ : Contract} (h : Proposed F c₀) (debug : Bool)
    (calls : List ContractCall) :
    HistoryKept F debug ((contractMachine F debug).history c₀ calls)
      ((contractMachine F debug).exec c₀ calls) := by
  have hkept := h.wellKept debug calls
  have hfroze := h.froze_iff debug calls
  refine ⟨fun i r hr => ?_, fun hnone => ?_, fun hsome => ?_, hkept.bounded, hkept.unfrozen,
    hkept.frozen, revisions_append_only F debug _, exec_terminal, hkept.not_notBothAgreed,
    fun terms contentDigest number hchecked => ?_, hkept.not_panics⟩
  · obtain ⟨hnumber, hdigest⟩ := hkept.numbered i r hr
    exact ⟨hnumber, hnumber ▸ hdigest⟩
  · by_contra hlength
    obtain ⟨e, he, hfrozen⟩ := hfroze.mp fun hempty => hlength (by rw [hempty]; rfl)
    exact hnone e he hfrozen
  · rcases hkept.counted with ⟨hempty, -⟩ | hcount
    · exact absurd hempty (hfroze.mpr hsome)
    · exact hcount
  · exact revisionDigest_ok (checkTerms_ok.mp hchecked).1 _ number

/-- A collaboration between two agents, as proposed. -/
def collaboration : Contract where
  contractId := "c-1"
  task := ⟨"t-1", "the file has one line", "urn:hacp:agent:a"⟩
  relationship := .collaboration
  grantId := none
  participants := ("urn:hacp:agent:a", "urn:hacp:agent:b")
  escalationPath := []
  limits := ⟨4, 2, 1⟩
  state := .proposed
  rounds := 0
  amendments := 0
  reworks := 0
  agreedBy := ∅
  agreedTermsDigest := none
  lastCounterBy := none
  amendmentParticipants := ∅
  revisions := []
  pendingSubmission := none
  pendingSubmitter := none
  reworkScope := none

theorem proposed_collaboration (F : Foreign) : Proposed F collaboration :=
  ⟨⟨"s-1", collaboration.participants, ∅, .active, ∅, none⟩, "c-1", collaboration.task,
    .collaboration, none, none, none, none, [], collaboration.limits, rfl⟩

/-- The first revision is agreed and frozen, the second is an amendment to the same content. -/
def amendedCalls : List ContractCall :=
  [.agree "urn:hacp:agent:a" .null, .agree "urn:hacp:agent:b" .null, .freeze .null,
    .proposeAmendment "urn:hacp:agent:a",
    .decideAmendment "urn:hacp:agent:a" true (some .null),
    .decideAmendment "urn:hacp:agent:b" true (some .null)]

theorem revision_history_kept_collaboration :
    ((contractMachine Foreign.placeholder true).exec collaboration
        amendedCalls).revisions.map Revision.number = [1, 2] ∧
    HistoryKept Foreign.placeholder true
      ((contractMachine Foreign.placeholder true).history collaboration amendedCalls)
      ((contractMachine Foreign.placeholder true).exec collaboration amendedCalls) :=
  ⟨rfl, revision_history_kept (proposed_collaboration Foreign.placeholder) true _⟩

end Contract
end Hacp.V2
