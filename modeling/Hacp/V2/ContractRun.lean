import Hacp.Lib.Machine
import Hacp.V2.CanonicalForm
import Hacp.V2.Contract

/-!
# The contract API as a machine

A run is a list of API calls by any callers. Every call is either refused without
a trace or has one of the effects listed once below; each property of runs is
derived from that list.
-/
namespace Hacp.V2
open Lib

inductive ContractCall where
  | counter (by_ : String)
  | agree (by_ : String) (terms : Json)
  | freeze (terms : Json)
  | withdraw (by_ : String)
  | expireNegotiation
  | submit (by_ : String) (submission : Submission)
  | decide (verdict : Verdict)
  | applyVerification (record : Verification)
  | proposeAmendment (by_ : String)
  | decideAmendment (by_ : String) (accept : Bool) (terms : Option Json)

/-- What a successful call gives back: nothing, the digest of the frozen revision, or the
digest of an accepted amendment. -/
inductive ContractReply where
  | done
  | frozen (digest : String)
  | decided (digest : Option String)
  deriving DecidableEq

abbrev ContractOutput := Outcome (Except ContractError ContractReply)

def answer {α : Type} (reply : α → ContractReply) (r : Contract × Except ContractError α) :
    Contract × ContractOutput :=
  (r.1, .returns (r.2.map reply))

def contractStep (F : Foreign) (debug : Bool) (c : Contract) :
    ContractCall → Contract × ContractOutput
  | .counter by_ => answer (fun _ => .done) (c.counter by_)
  | .agree by_ terms => answer (fun _ => .done) (c.agree F by_ terms)
  | .freeze terms => answer .frozen (c.freeze F terms)
  | .withdraw by_ => answer (fun _ => .done) (c.withdraw by_)
  | .expireNegotiation => answer (fun _ => .done) c.expireNegotiation
  | .submit by_ submission => answer (fun _ => .done) (c.submit by_ submission)
  | .decide verdict => answer (fun _ => .done) (c.decide verdict)
  | .applyVerification record => answer (fun _ => .done) (c.applyVerification record)
  | .proposeAmendment by_ => answer (fun _ => .done) (c.proposeAmendment by_)
  | .decideAmendment by_ accept terms =>
    let r := c.decideAmendment F debug by_ accept terms
    (r.1, r.2.map fun r => r.map .decided)

def contractMachine (F : Foreign) (debug : Bool) :
    Machine Contract ContractCall ContractOutput where
  step := contractStep F debug

abbrev ContractEvent := Event Contract ContractCall ContractOutput

namespace Contract
variable {F : Foreign} {debug : Bool} {c : Contract}

/-- The two calls that put a verdict, with what `apply_verification` asks of its record. -/
inductive Ruling (c : Contract) : ContractCall → Verdict → Prop where
  | host {verdict : Verdict} : Ruling c (.decide verdict) verdict
  | record {record : Verification} {verdict : Verdict} {pending : Submission}
      (stated : record.verdict = verdict) (valid : record.validate = .ok ())
      (party : record.verifier ∈ members c.participants)
      (hpending : c.pendingSubmission = some pending) (submitted : c.pendingSubmitter ≠ none)
      (counterparty : c.pendingSubmitter ≠ some record.verifier)
      (contract : record.contractId = c.contractId)
      (revision : record.againstRevision = pending.againstRevision)
      (artifacts : record.artifacts.toFinset = pending.artifacts.toFinset) :
      Ruling c (.applyVerification record) verdict

/-- What a call that leaves a trace can do, with all that was checked before. -/
inductive Effect (F : Foreign) (debug : Bool) (c : Contract) :
    ContractCall → Contract × ContractOutput → Prop where
  | counter {by_ : String} (party : by_ ∈ members c.participants)
      (state : c.state = .proposed ∨ c.state = .countered) (last : c.lastCounterBy ≠ some by_)
      (rounds : ¬c.limits.maxRounds ≤ saturatingSucc c.rounds) :
      Effect F debug c (.counter by_)
        ({ c with
            lastCounterBy := some by_, rounds := saturatingSucc c.rounds, agreedBy := ∅
            agreedTermsDigest := none, state := .countered }, .returns (.ok .done))
  | counterAmending {by_ : String} (party : by_ ∈ members c.participants)
      (state : c.state = .amending) (last : c.lastCounterBy ≠ some by_)
      (rounds : ¬c.limits.maxRounds ≤ saturatingSucc c.rounds) :
      Effect F debug c (.counter by_)
        ({ c with
            lastCounterBy := some by_, rounds := saturatingSucc c.rounds, agreedBy := ∅
            agreedTermsDigest := none, state := .amending
            amendmentParticipants := insert by_ c.amendmentParticipants }, .returns (.ok .done))
  | exhausted {by_ : String} (party : by_ ∈ members c.participants)
      (state : c.state = .proposed ∨ c.state = .countered) (last : c.lastCounterBy ≠ some by_)
      (rounds : c.limits.maxRounds ≤ saturatingSucc c.rounds) :
      Effect F debug c (.counter by_)
        ({ c with
            lastCounterBy := some by_, rounds := saturatingSucc c.rounds, agreedBy := ∅
            agreedTermsDigest := none, state := .noAgreement },
          .returns (.error (.roundsExhausted (saturatingSucc c.rounds) c.limits.maxRounds)))
  | exhaustedAmending {by_ : String} (party : by_ ∈ members c.participants)
      (state : c.state = .amending) (last : c.lastCounterBy ≠ some by_)
      (rounds : c.limits.maxRounds ≤ saturatingSucc c.rounds) :
      Effect F debug c (.counter by_)
        ({ c with
            lastCounterBy := some by_, rounds := saturatingSucc c.rounds, agreedBy := ∅
            agreedTermsDigest := none
            amendmentParticipants := insert by_ c.amendmentParticipants
            state := if (insert by_ c.amendmentParticipants).card < 2 then .executing
              else .noAgreement },
          .returns (.error (.roundsExhausted (saturatingSucc c.rounds) c.limits.maxRounds)))
  | agree {by_ : String} {terms : Json} {digest : String} (party : by_ ∈ members c.participants)
      (state : c.state = .proposed ∨ c.state = .countered ∨ c.state = .agreed)
      (checked : c.checkTerms F terms = .ok digest) :
      Effect F debug c (.agree by_ terms)
        ({ c.vote by_ digest with
            state := if (c.vote by_ digest).agreedBy.card = 2 then .agreed else .proposed },
          .returns (.ok .done))
  | freeze {terms : Json} {contentDigest digest : String} (state : c.state = .agreed)
      (missing : ((members c.participants).find? fun p => p ∉ c.agreedBy).getD "" = "")
      (content : digestOf F terms = .ok contentDigest)
      (agreed : c.agreedTermsDigest = some contentDigest)
      (hdigest : revisionDigest F c.contractId (c.revisions.length + 1) terms = .ok digest) :
      Effect F debug c (.freeze terms)
        ({ c with
            revisions := c.revisions ++ [⟨c.revisions.length + 1, terms, digest⟩]
            agreedBy := ∅, agreedTermsDigest := none, state := .executing },
          .returns (.ok (.frozen digest)))
  | withdraw {by_ : String} (party : by_ ∈ members c.participants)
      (state : c.state = .proposed ∨ c.state = .countered ∨ c.state = .agreed) :
      Effect F debug c (.withdraw by_) ({ c with state := .withdrawn }, .returns (.ok .done))
  | expire (state : c.state = .proposed ∨ c.state = .countered ∨ c.state = .agreed) :
      Effect F debug c .expireNegotiation
        ({ c with state := .noAgreement }, .returns (.ok .done))
  | expireAmending (state : c.state = .amending) :
      Effect F debug c .expireNegotiation
        ({ c with
            state := if c.amendmentParticipants.card < 2 then .executing else .noAgreement },
          .returns (.ok .done))
  | submit {by_ : String} {submission : Submission} (party : by_ ∈ members c.participants)
      (state : c.state = .executing)
      (fresh : submission.againstRevision = c.frozenDigest.getD "") :
      Effect F debug c (.submit by_ submission)
        ({ c with
            pendingSubmission := some submission, pendingSubmitter := some by_
            state := .verifying }, .returns (.ok .done))
  | accepted {call : ContractCall} (ruling : c.Ruling call .accept) (state : c.state = .verifying) :
      Effect F debug c call
        ({ c with
            pendingSubmission := none, reworkScope := none, state := .settled
            pendingSubmitter := none }, .returns (.ok .done))
  | reworked {call : ContractCall} {scope : String} (ruling : c.Ruling call (.rework scope))
      (state : c.state = .verifying) (reworks : ¬c.limits.maxRework ≤ c.reworks) :
      Effect F debug c call
        ({ c with
            pendingSubmission := none, reworks := saturatingSucc c.reworks
            reworkScope := some scope, state := .executing, pendingSubmitter := none },
          .returns (.ok .done))
  | reworkExhausted {call : ContractCall} {scope : String}
      (ruling : c.Ruling call (.rework scope)) (state : c.state = .verifying)
      (reworks : c.limits.maxRework ≤ c.reworks) :
      Effect F debug c call
        ({ c with
            pendingSubmission := none, reworkScope := some scope, state := .rejected
            pendingSubmitter := none }, .returns (.ok .done))
  | rejected {call : ContractCall} (ruling : c.Ruling call .reject) (state : c.state = .verifying) :
      Effect F debug c call
        ({ c with
            pendingSubmission := none, reworkScope := none, state := .rejected
            pendingSubmitter := none }, .returns (.ok .done))
  | proposeAmendment {by_ : String} (party : by_ ∈ members c.participants)
      (state : c.state = .executing) (amendments : ¬c.limits.maxAmendments ≤ c.amendments) :
      Effect F debug c (.proposeAmendment by_)
        ({ c with
            state := .amending, agreedBy := ∅, agreedTermsDigest := none, rounds := 0
            lastCounterBy := none, amendmentParticipants := {by_} }, .returns (.ok .done))
  | refuseAmendment {by_ : String} {terms : Option Json} (party : by_ ∈ members c.participants)
      (state : c.state = .amending) :
      Effect F debug c (.decideAmendment by_ false terms)
        ({ c with
            amendmentParticipants := insert by_ c.amendmentParticipants
            state := .executing, agreedBy := ∅, agreedTermsDigest := none },
          .returns (.ok (.decided none)))
  | awaitAmendment {by_ : String} {terms : Json} {contentDigest : String}
      (party : by_ ∈ members c.participants) (state : c.state = .amending)
      (checked : c.checkTerms F terms = .ok contentDigest)
      (alone : (c.vote by_ contentDigest).agreedBy.card < 2) :
      Effect F debug c (.decideAmendment by_ true (some terms))
        ({ c.vote by_ contentDigest with
            amendmentParticipants := insert by_ c.amendmentParticipants },
          .returns (.ok (.decided none)))
  | acceptAmendment {by_ : String} {terms : Json} {contentDigest digest : String}
      (party : by_ ∈ members c.participants) (state : c.state = .amending)
      (checked : c.checkTerms F terms = .ok contentDigest)
      (both : ¬(c.vote by_ contentDigest).agreedBy.card < 2)
      (bound : debug = true → c.amendments < c.limits.maxAmendments)
      (hdigest : revisionDigest F c.contractId (c.revisions.length + 1) terms = .ok digest) :
      Effect F debug c (.decideAmendment by_ true (some terms))
        ({ c with
            amendmentParticipants := insert by_ c.amendmentParticipants
            amendments := saturatingSucc c.amendments
            revisions := c.revisions ++ [⟨c.revisions.length + 1, terms, digest⟩]
            agreedBy := ∅, agreedTermsDigest := none, state := .executing },
          .returns (.ok (.decided (some digest))))
  /-- Refused, but the caller stays recorded as a participant of the amendment. -/
  | strayVote {by_ : String} {terms : Option Json} {e : ContractError}
      (party : by_ ∈ members c.participants) (state : c.state = .amending)
      (refused : terms = none ∨ ∃ t e', terms = some t ∧ c.checkTerms F t = .error e')
      (error : ∀ rounds max, e ≠ .roundsExhausted rounds max) :
      Effect F debug c (.decideAmendment by_ true terms)
        ({ c with amendmentParticipants := insert by_ c.amendmentParticipants },
          .returns (.error e))
  | assertFails {by_ : String} {terms : Json} {contentDigest : String}
      (party : by_ ∈ members c.participants) (state : c.state = .amending)
      (checked : c.checkTerms F terms = .ok contentDigest)
      (both : ¬(c.vote by_ contentDigest).agreedBy.card < 2) (assertions : debug = true)
      (bound : ¬c.amendments < c.limits.maxAmendments) :
      Effect F debug c (.decideAmendment by_ true (some terms))
        ({ c.vote by_ contentDigest with
            amendmentParticipants := insert by_ c.amendmentParticipants }, .panics)

/-- Refused with an error that is not the exhaustion of rounds, and nothing changed. -/
def Untouched (c : Contract) (r : Contract × ContractOutput) : Prop :=
  ∃ e, r = (c, .returns (.error e)) ∧ ∀ rounds max, e ≠ .roundsExhausted rounds max

/-! ## Terms that pass the check have a revision digest -/

theorem digestOf_isOk_iff (F : Foreign) (v : Json) :
    (∃ d, digestOf F v = .ok d) ↔ v.integersOnly = true := by
  rw [← canonicalJson_isOk_iff]
  simp only [digestOf, bind_eq_ok, Except.ok.injEq]
  constructor
  · rintro ⟨d, text, htext, -⟩
    exact ⟨text, htext⟩
  · rintro ⟨text, htext⟩
    exact ⟨_, text, htext, rfl⟩

theorem revisionDigest_ok {terms : Json} {d : String} (h : digestOf F terms = .ok d)
    (contractId : String) (number : ℕ) :
    ∃ digest, revisionDigest F contractId number terms = .ok digest := by
  have hterms := (digestOf_isOk_iff F terms).mp ⟨d, h⟩
  simp only [revisionDigest, mapError_eq_ok]
  rw [digestOf_isOk_iff]
  simp [Json.integersOnly, Json.integersOnlyMembers, Number.isInteger, hterms]

theorem checkTerms_ok {terms : Json} {d : String} :
    c.checkTerms F terms = .ok d ↔
      digestOf F terms = .ok d ∧ ∀ a, c.agreedTermsDigest = some a → a = d := by
  simp only [checkTerms, bind_eq_ok, mapError_eq_ok, guard_eq_ok, Except.ok.injEq]
  cases c.agreedTermsDigest with
  | none => simp
  | some a => simp [and_comm]

theorem checkTerms_error {terms : Json} {e : ContractError} (h : c.checkTerms F terms = .error e) :
    (∃ e', e = .notCanonical e') ∨ e = .termsMismatch := by
  simp only [checkTerms] at h
  cases hd : digestOf F terms with
  | error e' =>
    rw [hd] at h
    exact .inl ⟨e', (Except.error.inj h).symm⟩
  | ok d =>
    simp only [hd, Except.mapError, bind, Except.bind] at h
    split_ifs at h
    exact .inr (Except.error.inj h).symm

theorem checkTerms_not_exhausted {terms : Json} {e : ContractError}
    (h : c.checkTerms F terms = .error e) (rounds max : UInt64) :
    e ≠ .roundsExhausted rounds max := by
  rcases checkTerms_error h with ⟨e', rfl⟩ | rfl <;> simp

/-! ## Every call is refused without a trace or has a listed effect -/

theorem authorize_cases (c : Contract) (who : String) :
    who ∈ members c.participants ∧ c.authorize who = .ok () ∨
      c.authorize who = .error (.notAParty who c.contractId) := by
  unfold authorize
  split_ifs with hparty
  · exact .inl ⟨hparty, rfl⟩
  · exact .inr rfl

theorem counter_effect (by_ : String) :
    c.Untouched (contractStep F debug c (.counter by_)) ∨
      Effect F debug c (.counter by_) (contractStep F debug c (.counter by_)) := by
  simp only [contractStep, counter]
  rcases c.authorize_cases by_ with ⟨hparty, hok⟩ | herr
  · simp only [hok]
    by_cases hlast : c.lastCounterBy = some by_
    · simp only [hlast, if_true]
      split_ifs <;> exact .inl ⟨_, rfl, by simp⟩
    by_cases hamending : c.state = .amending
    · by_cases hrounds : c.limits.maxRounds ≤ saturatingSucc c.rounds
      · simp only [hamending, hlast, hrounds, or_true, not_true_eq_false, if_false, if_true,
          true_and]
        exact .inr (.exhaustedAmending hparty hamending hlast hrounds)
      · simp only [hamending, hlast, hrounds, or_true, not_true_eq_false, if_false, if_true]
        exact .inr (.counterAmending hparty hamending hlast hrounds)
    by_cases hstate : c.state = .proposed ∨ c.state = .countered
    · by_cases hrounds : c.limits.maxRounds ≤ saturatingSucc c.rounds
      · simp only [hamending, hstate, hlast, hrounds, or_false, not_true_eq_false, if_false,
          if_true, false_and]
        exact .inr (.exhausted hparty hstate hlast hrounds)
      · simp only [hamending, hstate, hlast, hrounds, or_false, not_true_eq_false, if_false]
        exact .inr (.counter hparty hstate hlast hrounds)
    · simp only [hamending, or_false, hstate, not_false_eq_true, if_true]
      exact .inl ⟨_, rfl, by simp⟩
  · simp only [herr]
    exact .inl ⟨_, rfl, by simp⟩

theorem agree_effect (by_ : String) (terms : Json) :
    c.Untouched (contractStep F debug c (.agree by_ terms)) ∨
      Effect F debug c (.agree by_ terms) (contractStep F debug c (.agree by_ terms)) := by
  simp only [contractStep, agree]
  rcases c.authorize_cases by_ with ⟨hparty, hok⟩ | herr
  · simp only [hok]
    split_ifs with hstate
    · cases hchecked : c.checkTerms F terms with
      | error e => exact .inl ⟨e, rfl, checkTerms_not_exhausted hchecked⟩
      | ok digest => exact .inr (.agree hparty hstate hchecked)
    · exact .inl ⟨_, rfl, by simp⟩
  · simp only [herr]
    exact .inl ⟨_, rfl, by simp⟩

theorem freeze_effect (terms : Json) :
    c.Untouched (contractStep F debug c (.freeze terms)) ∨
      Effect F debug c (.freeze terms) (contractStep F debug c (.freeze terms)) := by
  simp only [contractStep, freeze]
  by_cases hstate : c.state = .agreed
  · by_cases hmissing : ((members c.participants).find? fun p => p ∉ c.agreedBy).getD "" = ""
    · simp only [hstate, hmissing, ne_eq, not_true_eq_false, if_false]
      cases hchecked : c.checkTerms F terms with
      | error e => exact .inl ⟨e, rfl, checkTerms_not_exhausted hchecked⟩
      | ok contentDigest =>
        have hcontent := (checkTerms_ok.mp hchecked).1
        by_cases hagreed : c.agreedTermsDigest = some contentDigest
        · obtain ⟨digest, hdigest⟩ :=
            revisionDigest_ok hcontent c.contractId (c.revisions.length + 1)
          simp only [hagreed, hdigest, not_true_eq_false, if_false]
          exact .inr (.freeze hstate hmissing hcontent hagreed hdigest)
        · simp only [hagreed, not_false_eq_true, if_true]
          exact .inl ⟨_, rfl, by simp⟩
    · simp only [hstate, hmissing, ne_eq, not_true_eq_false, not_false_eq_true, if_false, if_true]
      exact .inl ⟨_, rfl, by simp⟩
  · simp only [hstate, ne_eq, not_false_eq_true, if_true]
    exact .inl ⟨_, rfl, by simp⟩

theorem withdraw_effect (by_ : String) :
    c.Untouched (contractStep F debug c (.withdraw by_)) ∨
      Effect F debug c (.withdraw by_) (contractStep F debug c (.withdraw by_)) := by
  simp only [contractStep, withdraw]
  rcases c.authorize_cases by_ with ⟨hparty, hok⟩ | herr
  · simp only [hok]
    split_ifs with hstate
    · exact .inr (.withdraw hparty hstate)
    · exact .inl ⟨_, rfl, by simp⟩
  · simp only [herr]
    exact .inl ⟨_, rfl, by simp⟩

theorem expireNegotiation_effect :
    c.Untouched (contractStep F debug c .expireNegotiation) ∨
      Effect F debug c .expireNegotiation (contractStep F debug c .expireNegotiation) := by
  simp only [contractStep, expireNegotiation]
  by_cases hamending : c.state = .amending
  · simp only [hamending, or_true, not_true_eq_false, if_false, true_and]
    exact .inr (.expireAmending hamending)
  · by_cases hstate : c.state = .proposed ∨ c.state = .countered ∨ c.state = .agreed
    · simp only [hamending, or_false, hstate, not_true_eq_false, if_false, false_and]
      exact .inr (.expire hstate)
    · simp only [hamending, or_false, hstate, not_false_eq_true, if_true]
      exact .inl ⟨_, rfl, by simp⟩

theorem submit_effect (by_ : String) (submission : Submission) :
    c.Untouched (contractStep F debug c (.submit by_ submission)) ∨
      Effect F debug c (.submit by_ submission)
        (contractStep F debug c (.submit by_ submission)) := by
  simp only [contractStep, submit]
  rcases c.authorize_cases by_ with ⟨hparty, hok⟩ | herr
  · simp only [hok]
    split_ifs with hstate hfresh
    · exact .inl ⟨_, rfl, by simp⟩
    · exact .inl ⟨_, rfl, by simp⟩
    · exact .inr (.submit hparty (not_not.mp hstate) (not_not.mp hfresh))
  · simp only [herr]
    exact .inl ⟨_, rfl, by simp⟩

theorem ruling_effect {call : ContractCall} {verdict : Verdict} (hruling : c.Ruling call verdict) :
    c.Untouched (answer (fun _ => .done) (c.decide verdict)) ∨
      Effect F debug c call (answer (fun _ => .done) (c.decide verdict)) := by
  simp only [decide]
  by_cases hstate : c.state = .verifying
  · simp only [hstate, ne_eq, not_true_eq_false, if_false]
    cases verdict with
    | accept => exact .inr (.accepted hruling hstate)
    | rework scope =>
      by_cases hreworks : c.limits.maxRework ≤ c.reworks
      · simp only [hreworks, if_true]
        exact .inr (.reworkExhausted hruling hstate hreworks)
      · simp only [hreworks, if_false]
        exact .inr (.reworked hruling hstate hreworks)
    | reject => exact .inr (.rejected hruling hstate)
  · simp only [hstate, ne_eq, not_false_eq_true, if_true]
    exact .inl ⟨_, rfl, by simp⟩

theorem applyVerification_effect (record : Verification) :
    c.Untouched (contractStep F debug c (.applyVerification record)) ∨
      Effect F debug c (.applyVerification record)
        (contractStep F debug c (.applyVerification record)) := by
  simp only [contractStep, applyVerification]
  cases hvalid : record.validate with
  | error e => exact .inl ⟨_, rfl, by simp⟩
  | ok =>
    rcases c.authorize_cases record.verifier with ⟨hparty, hok⟩ | herr
    · simp only [hok]
      cases hpending : c.pendingSubmission with
      | none => exact .inl ⟨_, rfl, by simp⟩
      | some pending =>
        simp only
        split_ifs with hwrong
        · exact .inl ⟨_, rfl, by simp⟩
        · simp only [not_or, not_not] at hwrong
          obtain ⟨hsubmitted, hcounterparty, hcontract, hrevision, hartifacts⟩ := hwrong
          exact ruling_effect (.record rfl hvalid hparty hpending hsubmitted hcounterparty hcontract
            hrevision hartifacts)
    · simp only [herr]
      exact .inl ⟨_, rfl, by simp⟩

theorem proposeAmendment_effect (by_ : String) :
    c.Untouched (contractStep F debug c (.proposeAmendment by_)) ∨
      Effect F debug c (.proposeAmendment by_)
        (contractStep F debug c (.proposeAmendment by_)) := by
  simp only [contractStep, proposeAmendment]
  rcases c.authorize_cases by_ with ⟨hparty, hok⟩ | herr
  · simp only [hok]
    split_ifs with hstate hbound
    · exact .inl ⟨_, rfl, by simp⟩
    · exact .inl ⟨_, rfl, by simp⟩
    · exact .inr (.proposeAmendment hparty (not_not.mp hstate) hbound)
  · simp only [herr]
    exact .inl ⟨_, rfl, by simp⟩

theorem vote_effect {by_ contentDigest : String} {terms : Json}
    (hparty : by_ ∈ members c.participants) (hstate : c.state = .amending)
    (hchecked : c.checkTerms F terms = .ok contentDigest) :
    Effect F debug c (.decideAmendment by_ true (some terms))
      (contractStep F debug c (.decideAmendment by_ true (some terms))) := by
  have hok : c.authorize by_ = .ok () := if_pos hparty
  -- neither the check nor the vote looks at the amendment's participants
  have hchecked' : checkTerms F { c with
      amendmentParticipants := insert by_ c.amendmentParticipants } terms = .ok contentDigest :=
    hchecked
  have hvote : vote { c with amendmentParticipants := insert by_ c.amendmentParticipants }
      by_ contentDigest = { c.vote by_ contentDigest with
        amendmentParticipants := insert by_ c.amendmentParticipants } := rfl
  obtain ⟨digest, hdigest⟩ := revisionDigest_ok (checkTerms_ok.mp hchecked).1
    c.contractId (c.revisions.length + 1)
  have hdigest' : revisionDigest F (c.vote by_ contentDigest).contractId
      ((c.vote by_ contentDigest).revisions.length + 1) terms = .ok digest := hdigest
  simp only [contractStep, decideAmendment, hok]
  rw [if_neg (not_not.mpr hstate), if_neg (by simp)]
  simp only [hchecked', hvote]
  by_cases halone : (c.vote by_ contentDigest).agreedBy.card < 2
  · rw [if_pos halone]
    exact .awaitAmendment hparty hstate hchecked halone
  · rw [if_neg halone]
    by_cases hassert : debug = true ∧
        ¬(c.vote by_ contentDigest).amendments < (c.vote by_ contentDigest).limits.maxAmendments
    · rw [if_pos hassert]
      exact .assertFails hparty hstate hchecked halone hassert.1 hassert.2
    · rw [if_neg hassert]
      simp only [hdigest']
      exact .acceptAmendment hparty hstate hchecked halone
        (fun hdebug => by_contra fun hbound => hassert ⟨hdebug, hbound⟩) hdigest

/-- An acceptance without terms, or with terms that do not pass the check, is refused only
after the caller was recorded. -/
theorem decideAmendment_refused (debug : Bool) {by_ : String} {terms : Option Json}
    (hparty : by_ ∈ members c.participants) (hstate : c.state = .amending)
    (hrefused : terms = none ∨ ∃ t e', terms = some t ∧ c.checkTerms F t = .error e') :
    ∃ e, contractStep F debug c (.decideAmendment by_ true terms) =
        ({ c with amendmentParticipants := insert by_ c.amendmentParticipants },
          .returns (.error e)) ∧ ∀ rounds max, e ≠ .roundsExhausted rounds max := by
  have hok : c.authorize by_ = .ok () := if_pos hparty
  rcases hrefused with rfl | ⟨t, e, rfl, hchecked⟩
  · simp only [contractStep, decideAmendment, hok]
    rw [if_neg (not_not.mpr hstate), if_neg (by simp)]
    refine ⟨_, rfl, ?_⟩
    simp
  · have hchecked' : checkTerms F { c with
        amendmentParticipants := insert by_ c.amendmentParticipants } t = .error e := hchecked
    simp only [contractStep, decideAmendment, hok]
    rw [if_neg (not_not.mpr hstate), if_neg (by simp)]
    simp only [hchecked']
    exact ⟨e, rfl, checkTerms_not_exhausted hchecked⟩

theorem decideAmendment_effect (by_ : String) (accept : Bool) (terms : Option Json) :
    c.Untouched (contractStep F debug c (.decideAmendment by_ accept terms)) ∨
      Effect F debug c (.decideAmendment by_ accept terms)
        (contractStep F debug c (.decideAmendment by_ accept terms)) := by
  rcases c.authorize_cases by_ with ⟨hparty, hok⟩ | herr
  · by_cases hstate : c.state = .amending
    · cases accept with
      | false =>
        simp only [contractStep, decideAmendment, hok]
        rw [if_neg (not_not.mpr hstate), if_pos trivial]
        exact .inr (.refuseAmendment hparty hstate)
      | true =>
        by_cases hrefused : terms = none ∨ ∃ t e', terms = some t ∧ c.checkTerms F t = .error e'
        · obtain ⟨e, hstep, he⟩ := decideAmendment_refused debug hparty hstate hrefused
          rw [hstep]
          exact .inr (.strayVote hparty hstate hrefused he)
        · push Not at hrefused
          obtain ⟨terms, rfl⟩ := Option.ne_none_iff_exists'.mp hrefused.1
          cases hchecked : c.checkTerms F terms with
          | error e => exact absurd hchecked (hrefused.2 terms e rfl)
          | ok contentDigest => exact .inr (vote_effect hparty hstate hchecked)
    · simp only [contractStep, decideAmendment, hok]
      rw [if_pos hstate]
      exact .inl ⟨_, rfl, by simp⟩
  · simp only [contractStep, decideAmendment, herr]
    exact .inl ⟨_, rfl, by simp⟩

/-- Every call is refused without a trace or has one of the listed effects. -/
theorem step_effect (F : Foreign) (debug : Bool) (c : Contract) (call : ContractCall) :
    c.Untouched (contractStep F debug c call) ∨
      Effect F debug c call (contractStep F debug c call) := by
  cases call with
  | counter by_ => exact counter_effect by_
  | agree by_ terms => exact agree_effect by_ terms
  | freeze terms => exact freeze_effect terms
  | withdraw by_ => exact withdraw_effect by_
  | expireNegotiation => exact expireNegotiation_effect
  | submit by_ submission => exact submit_effect by_ submission
  | decide verdict => exact ruling_effect .host
  | applyVerification record => exact applyVerification_effect record
  | proposeAmendment by_ => exact proposeAmendment_effect by_
  | decideAmendment by_ accept terms => exact decideAmendment_effect by_ accept terms

end Contract
end Hacp.V2
