import Hacp.V2.ContractHistory

/-!
# Acceptances on record

The recorded acceptances belong to the terms under negotiation. Every way back into
`Executing` clears them but one: the expiry of an amendment in which a single
participant has acted keeps that participant's acceptance of the dropped terms.
-/
namespace Hacp.V2.Contract
open Lib
variable {F : Foreign} {debug : Bool} {c : Contract}

/-- The record of acceptances fits the state of the contract. -/
structure AcceptancesCurrent (c : Contract) : Prop where
  cleared : c.state = .executing ∨ c.state = .verifying ∨ c.state = .settled ∨
    c.state = .rejected → c.agreedBy = ∅ ∧ c.agreedTermsDigest = none
  recorded : c.state = .proposed ∨ c.state = .countered ∨ c.state = .agreed ∨
    c.state = .amending → (c.agreedBy.Nonempty ↔ c.agreedTermsDigest.isSome)
  agreed : c.state = .agreed → c.participants.1 ∈ c.agreedBy ∧ c.participants.2 ∈ c.agreedBy

/-- An expiry that finds an acceptance in an amendment of one participant. -/
def StaleExpiry (c : Contract) (call : ContractCall) : Prop :=
  call = .expireNegotiation ∧ c.state = .amending ∧ c.amendmentParticipants.card < 2 ∧
    c.agreedBy ≠ ∅

theorem WellKept.both_agreed (h : c.WellKept F) (hstate : c.state = .agreed) :
    c.participants.1 ∈ c.agreedBy ∧ c.participants.2 ∈ c.agreedBy := by
  have hall := eq_partySet h.voters (h.agreed hstate).ge
  rw [hall, mem_partySet, mem_partySet]
  simp [members]

theorem AcceptancesCurrent.of_cleared (hby : c.agreedBy = ∅) (hdigest : c.agreedTermsDigest = none)
    (hstate : c.state ≠ .agreed) : c.AcceptancesCurrent where
  cleared _ := ⟨hby, hdigest⟩
  recorded _ := by simp [hby, hdigest]
  agreed hs := absurd hs hstate

/-- A vote records its name and its digest together, in a state where terms are open. -/
theorem AcceptancesCurrent.of_vote (hby : c.agreedBy.Nonempty)
    (hdigest : c.agreedTermsDigest.isSome)
    (hstate : c.state = .agreed ∨ c.state = .proposed ∨ c.state = .amending)
    (hboth : c.state = .agreed → c.participants.1 ∈ c.agreedBy ∧ c.participants.2 ∈ c.agreedBy) :
    c.AcceptancesCurrent where
  cleared hs := by rcases hstate with h | h | h <;> simp [h] at hs
  recorded _ := iff_of_true hby hdigest
  agreed := hboth

/-- The record is not looked at after a withdrawal or a negotiation without agreement. -/
theorem AcceptancesCurrent.of_abandoned (hstate : c.state = .withdrawn ∨ c.state = .noAgreement) :
    c.AcceptancesCurrent := by
  constructor <;> rcases hstate with h | h <;> simp [h]

theorem vote_nonempty (c : Contract) (by_ digest : String) :
    (c.vote by_ digest).agreedBy.Nonempty := Finset.insert_nonempty _ _

/-- Every effect but a stale expiry keeps the record fitting. -/
theorem AcceptancesCurrent.effect (h : c.AcceptancesCurrent) (hkept : c.WellKept F)
    {call : ContractCall} {r : Contract × ContractOutput} (hexpiry : ¬StaleExpiry c call)
    (he : Effect F debug c call r) : r.1.AcceptancesCurrent := by
  have hboth := (hkept.effect he).both_agreed
  cases he with
  | counter | counterAmending | exhausted | freeze | proposeAmendment | refuseAmendment
  | acceptAmendment => exact .of_cleared rfl rfl nofun
  | exhaustedAmending =>
    refine .of_cleared rfl rfl ?_
    simp only
    split_ifs <;> exact nofun
  | @agree by_ _ digest =>
    refine .of_vote (vote_nonempty c by_ digest) rfl ?_ hboth
    simp only
    split_ifs
    · exact .inl rfl
    · exact .inr (.inl rfl)
  | @awaitAmendment by_ _ digest party state =>
    exact .of_vote (vote_nonempty c by_ digest) rfl (.inr (.inr state)) hboth
  | withdraw => exact .of_abandoned (.inl rfl)
  | expire => exact .of_abandoned (.inr rfl)
  | expireAmending state =>
    by_cases hcard : c.amendmentParticipants.card < 2
    · have hnone : c.agreedBy = ∅ := by
        by_contra hsome
        exact hexpiry ⟨rfl, state, hcard, hsome⟩
      have hdigest : c.agreedTermsDigest = none := by
        simpa [hnone] using h.recorded (.inr (.inr (.inr state)))
      exact .of_cleared hnone hdigest (by simp [hcard])
    · exact .of_abandoned (.inr (by simp [hcard]))
  | submit party state =>
    obtain ⟨hby, hdigest⟩ := h.cleared (.inl state)
    exact .of_cleared hby hdigest nofun
  | accepted ruling state | reworked ruling state | reworkExhausted ruling state
  | rejected ruling state =>
    obtain ⟨hby, hdigest⟩ := h.cleared (.inr (.inl state))
    exact .of_cleared hby hdigest nofun
  | strayVote => exact ⟨h.cleared, h.recorded, h.agreed⟩
  | assertFails party state checked both assertions bound =>
    exact absurd (hkept.amendable state) bound

theorem AcceptancesCurrent.step (h : c.AcceptancesCurrent) (hkept : c.WellKept F)
    {call : ContractCall} (hexpiry : ¬StaleExpiry c call) :
    (contractStep F debug c call).1.AcceptancesCurrent := by
  rcases step_effect F debug c call with ⟨e, hstep, -⟩ | he
  · rw [hstep]
    exact h
  · exact h.effect hkept hexpiry he

/-- A stale expiry leaves the contract executing with the acceptance still on record. -/
theorem StaleExpiry.step {call : ContractCall} (h : StaleExpiry c call) :
    ¬(contractStep F debug c call).1.AcceptancesCurrent := by
  obtain ⟨rfl, hstate, hcard, hsome⟩ := h
  intro hcurrent
  have hexecuting : (contractStep F debug c .expireNegotiation).1.state = .executing := by
    simp [contractStep, answer, expireNegotiation, hstate, hcard]
  have hkeeps : (contractStep F debug c .expireNegotiation).1.agreedBy = c.agreedBy := by
    simp [contractStep, answer, expireNegotiation, hstate]
  exact hsome (hkeeps.symm.trans (hcurrent.cleared (.inl hexecuting)).1)

theorem Fresh.acceptancesCurrent (h : c.Fresh) : c.AcceptancesCurrent :=
  .of_cleared h.agreedBy h.agreedTermsDigest (by simp [h.state])

/-- A run keeps the record fitting at every state exactly when none of its calls is a stale
expiry. -/
theorem acceptances_current_iff {c₀ : Contract} (h : Proposed F c₀) (debug : Bool)
    (calls : List ContractCall) :
    (∀ pre, pre <+: calls → ((contractMachine F debug).exec c₀ pre).AcceptancesCurrent) ↔
      ∀ e ∈ (contractMachine F debug).history c₀ calls, ¬StaleExpiry e.before e.input := by
  constructor
  · intro hcurrent e he hexpiry
    obtain ⟨pre, call, post, rfl, rfl⟩ := Machine.mem_history _ he
    have hafter := hcurrent (pre ++ [call]) ⟨post, by simp⟩
    rw [Machine.exec_snoc] at hafter
    exact hexpiry.step hafter
  · rintro hexpiry pre ⟨post, rfl⟩
    refine Machine.history_invariant (M := contractMachine F debug)
      (I := fun past c => (∀ e ∈ past, ¬StaleExpiry e.before e.input) → c.AcceptancesCurrent)
      (fun _ => h.fresh.acceptancesCurrent) (fun calls call ih hpast => ?_) pre fun e he => ?_
    · have hnow := ih fun e he => hpast e (List.mem_append_left _ he)
      have hlast := hpast _ (List.mem_append_right _ List.mem_cons_self)
      exact hnow.step (h.wellKept debug calls) hlast
    · exact hexpiry e (Machine.history_append _ c₀ pre post ▸ List.mem_append_left _ he)

/-- One participant proposes an amendment and accepts it; the expiry drops the amendment. -/
def expiredCalls : List ContractCall :=
  amendedCalls.dropLast ++ [.expireNegotiation]

/-- An amendment that both accept leaves the record fitting, one that expires does not. -/
theorem acceptances_current_iff_collaboration :
    (∀ pre, pre <+: amendedCalls →
      ((contractMachine Foreign.placeholder true).exec collaboration pre).AcceptancesCurrent) ∧
    ¬∀ pre, pre <+: expiredCalls →
      ((contractMachine Foreign.placeholder true).exec collaboration pre).AcceptancesCurrent := by
  have hproposed := proposed_collaboration Foreign.placeholder
  refine ⟨(acceptances_current_iff hproposed true amendedCalls).mpr fun e he hexpiry => ?_,
    fun hcurrent => ?_⟩
  · obtain ⟨pre, call, post, hcalls, rfl⟩ := Machine.mem_history _ he
    have hcall : call ∈ amendedCalls := hcalls ▸ List.mem_append_right _ List.mem_cons_self
    have hexpires : call = .expireNegotiation := hexpiry.1
    simp [hexpires, amendedCalls] at hcall
  · have hlast := (acceptances_current_iff hproposed true expiredCalls).mp hcurrent
      ((contractMachine Foreign.placeholder true).event
        ((contractMachine Foreign.placeholder true).exec collaboration amendedCalls.dropLast)
        .expireNegotiation)
      (by rw [expiredCalls, Machine.history_snoc]; exact List.mem_append_right _ List.mem_cons_self)
    exact hlast ⟨rfl, rfl, by decide, by decide⟩

/-- The expiry leaves the acceptance of the one participant in the executing contract. -/
theorem not_acceptances_current : ¬∀ (F : Foreign) (debug : Bool) (c₀ : Contract), Proposed F c₀ →
    ∀ calls, ((contractMachine F debug).exec c₀ calls).AcceptancesCurrent := by
  intro h
  have hcurrent := h Foreign.placeholder true collaboration (proposed_collaboration _) expiredCalls
  have hcleared := (hcurrent.cleared (.inl rfl)).1
  revert hcleared
  decide

end Hacp.V2.Contract
