import Hacp.V2.ContractHistory

/-!
# Refused calls

A refused call leaves the contract as it was, with one exception: an acceptance of
an amendment that fails on its terms has already recorded the caller as a
participant of the amendment.
-/
namespace Hacp.V2.Contract
open Lib
variable {F : Foreign} {debug : Bool} {c : Contract}

/-- A call that returns an error, other than the exhaustion of rounds, changes nothing. -/
def RefusedCleanly (e : ContractEvent) : Prop :=
  ∀ err, e.output = .returns (.error err) →
    (∀ rounds max, err ≠ .roundsExhausted rounds max) → e.after = e.before

/-- A participant who has not acted in the running amendment accepts it with no terms, with
terms that have no canonical form, or with other terms than those already accepted. -/
def StrayVote (F : Foreign) (c : Contract) (call : ContractCall) : Prop :=
  ∃ by_ terms, call = .decideAmendment by_ true terms ∧ by_ ∈ members c.participants ∧
    c.state = .amending ∧ by_ ∉ c.amendmentParticipants ∧
    (terms = none ∨ ∃ t, terms = some t ∧ ((∃ e, digestOf F t = .error e) ∨
      ∃ accepted digest, c.agreedTermsDigest = some accepted ∧ digestOf F t = .ok digest ∧
        accepted ≠ digest))

theorem checkTerms_error_iff {t : Json} : (∃ e, c.checkTerms F t = .error e) ↔
    (∃ e, digestOf F t = .error e) ∨
      ∃ accepted digest, c.agreedTermsDigest = some accepted ∧ digestOf F t = .ok digest ∧
        accepted ≠ digest := by
  cases hd : digestOf F t with
  | error e => simp [checkTerms, hd, Except.mapError, bind, Except.bind]
  | ok d =>
    cases ha : c.agreedTermsDigest with
    | none => simp [checkTerms, hd, ha, Except.mapError, bind, Except.bind]
    | some a =>
      by_cases had : a = d <;> simp [checkTerms, hd, ha, had, Except.mapError, bind, Except.bind]

/-- A stray vote is refused and leaves the caller recorded. -/
theorem StrayVote.step {call : ContractCall} (h : StrayVote F c call) :
    ¬RefusedCleanly ((contractMachine F debug).event c call) := by
  obtain ⟨by_, terms, rfl, hparty, hstate, hnew, hterms⟩ := h
  have hrefused : terms = none ∨ ∃ t e', terms = some t ∧ c.checkTerms F t = .error e' := by
    rcases hterms with hnone | ⟨t, ht, hfail⟩
    · exact .inl hnone
    · obtain ⟨e, he⟩ := checkTerms_error_iff.mpr hfail
      exact .inr ⟨t, e, ht, he⟩
  obtain ⟨e, hstep, he⟩ := decideAmendment_refused debug hparty hstate hrefused
  intro hclean
  have hsame := hclean e (congrArg Prod.snd hstep) he
  have hparticipants := congrArg Contract.amendmentParticipants ((congrArg Prod.fst hstep).symm.trans
    hsame)
  exact hnew (Finset.insert_eq_self.mp hparticipants)

theorem refusedCleanly_of_not_strayVote {call : ContractCall} (h : ¬StrayVote F c call) :
    RefusedCleanly ((contractMachine F debug).event c call) := by
  intro err herr hexhausted
  simp only [Machine.event, contractMachine] at herr ⊢
  rcases step_effect F debug c call with ⟨e, hstep, -⟩ | he
  · rw [hstep]
  · generalize contractStep F debug c call = r at he herr
    cases he with
    | exhausted | exhaustedAmending =>
      obtain rfl := Except.error.inj (Outcome.returns.inj herr)
      exact absurd rfl (hexhausted _ _)
    | @strayVote by_ terms e party state refused =>
      by_cases hmem : by_ ∈ c.amendmentParticipants
      · simp only [Finset.insert_eq_of_mem hmem]
      · refine absurd ⟨by_, terms, rfl, party, state, hmem, ?_⟩ h
        rcases refused with hnone | ⟨t, e', ht, hchecked⟩
        · exact .inl hnone
        · exact .inr ⟨t, ht, checkTerms_error_iff.mp ⟨e', hchecked⟩⟩
    | _ => cases herr

/-- After every run, the next call refuses without a trace exactly when it is no stray vote. -/
theorem refusedCleanly_iff_not_strayVote (F : Foreign) (debug : Bool) (c₀ : Contract)
    (calls : List ContractCall) (call : ContractCall) :
    RefusedCleanly
        ((contractMachine F debug).event ((contractMachine F debug).exec c₀ calls) call) ↔
      ¬StrayVote F ((contractMachine F debug).exec c₀ calls) call :=
  ⟨fun hclean hstray => hstray.step hclean, refusedCleanly_of_not_strayVote⟩

/-- An acceptance without terms: refused, yet the second participant is now on record, and
an expiry would end the contract. -/
theorem not_refusedCleanly : ¬∀ (F : Foreign) (debug : Bool) (c₀ : Contract), Proposed F c₀ →
    ∀ calls call, RefusedCleanly
      ((contractMachine F debug).event ((contractMachine F debug).exec c₀ calls) call) := by
  intro h
  have hclean := h Foreign.placeholder true collaboration (proposed_collaboration _)
    [.agree "urn:hacp:agent:a" .null, .agree "urn:hacp:agent:b" .null, .freeze .null,
      .proposeAmendment "urn:hacp:agent:a"] (.decideAmendment "urn:hacp:agent:b" true none)
  have hsame := hclean (.illegalTransition "accept an amendment without terms" .amending) rfl
    (by simp)
  have hparticipants := congrArg Contract.amendmentParticipants hsame
  revert hparticipants
  decide

end Hacp.V2.Contract
