import Hacp.V2.Grant
import Hacp.V2.Session
import Hacp.V2.Verification

/-!
# The bilateral contract engine

Every operation takes the contract and gives the contract after the call with what
the caller sees. A failing call may already have written to the contract; the model
keeps the order of checks and writes. Error texts that the source renders from an
inner error carry that error instead.
-/
namespace Hacp.V2
open Lib Std

inductive Relationship where
  /-- Peers under no authority relationship. -/
  | collaboration
  /-- Parent to child, carrying a grant and an escalation path. -/
  | delegation
  deriving DecidableEq

structure Task where
  taskId : String
  summary : String
  owner : String
  deriving DecidableEq

structure ContractLimits where
  maxRounds : UInt64
  maxAmendments : UInt64
  maxRework : UInt64
  deriving DecidableEq

inductive ContractState where
  | proposed
  | countered
  /-- Both participants accepted; freeze may happen. -/
  | agreed
  | executing
  | amending
  | verifying
  /-- Accepted after verification. -/
  | settled
  | rejected
  | withdrawn
  | noAgreement
  deriving DecidableEq

structure Revision where
  number : ℕ
  content : Json
  digest : String

structure Submission where
  againstRevision : String
  artifacts : List String
  evidence : List String
  claim : String
  deriving DecidableEq

/-- What a refused verification is told: the record's own fault or a fixed text. -/
inductive VerificationFault where
  | record (e : VerificationError)
  | text (reason : String)
  deriving DecidableEq

inductive ContractError where
  | notAParty (who contract : String)
  | illegalTransition (action : String) (state : ContractState)
  | roundsExhausted (rounds max : UInt64)
  | amendmentsExhausted (amendments max : UInt64)
  | delegationNeedsEscalationPath
  | delegationNeedsGrantId
  | missingDelegationContext
  | grantNotOpen (grantId at_ : String)
  | grantPartyMismatch (grantId grantor grantee delegator performer : String)
  | badEscalationUrn (found : String) (reason : UrnError)
  | badEscalationPath (expected found : List String)
  | grant (e : GrantError)
  | badLimits
  | staleRevision (found expected : String)
  | notBothAgreed (missing : String)
  | notCanonical (e : CanonError)
  | inactiveSession (state : SessionState)
  | termsMismatch
  | repeatedCounter (by_ : String)
  | invalidVerification (fault : VerificationFault)
  deriving DecidableEq

structure Contract where
  contractId : String
  task : Task
  relationship : Relationship
  grantId : Option String
  participants : String × String
  escalationPath : List String
  limits : ContractLimits
  state : ContractState
  /-- Rounds spent in the current negotiation loop. -/
  rounds : UInt64
  /-- Amendments accepted since the first freeze. -/
  amendments : UInt64
  /-- Rework verdicts applied since the first freeze. -/
  reworks : UInt64
  /-- Participants recorded as having accepted the current terms. -/
  agreedBy : Finset String
  /-- Canonical content digest shared by all current acceptances. -/
  agreedTermsDigest : Option String
  lastCounterBy : Option String
  /-- Participants that acted in the current amendment negotiation. -/
  amendmentParticipants : Finset String
  revisions : List Revision
  pendingSubmission : Option Submission
  pendingSubmitter : Option String
  reworkScope : Option String

/-- `u64::saturating_add(1)`. -/
def saturatingSucc (n : UInt64) : UInt64 := if n = UInt64.ofNat (2 ^ 64 - 1) then n else n + 1

theorem toNat_saturatingSucc (n : UInt64) :
    (saturatingSucc n).toNat = min (n.toNat + 1) (2 ^ 64 - 1) := by
  unfold saturatingSucc
  have hlt := n.toNat_lt
  split_ifs with hmax
  · simp [hmax]
  · have hne : n.toNat ≠ 2 ^ 64 - 1 := fun h => hmax (UInt64.toNat_inj.mp (by simp [h]))
    rw [UInt64.toNat_add, UInt64.toNat_one]
    omega

/-- Revision digest: contract identity and revision number are hashed with the content. -/
def revisionDigest (F : Foreign) (contractId : String) (number : ℕ) (terms : Json) :
    Except ContractError String :=
  (digestOf F (.object [("contract_id", .string contractId),
    ("revision", .number (.integer number)), ("content", terms)])).mapError .notCanonical

namespace Contract

def checkEscalationUrns : List String → Except ContractError Unit
  | [] => .ok ()
  | urn :: urns => do
    let _ ← (AgentUrn.parse urn).mapError fun reason => .badEscalationUrn urn reason
    checkEscalationUrns urns

/-- What `propose` asks of a delegation: an open grant from the other participant to the
task owner, and the grantor's own chain as the escalation path. -/
def groundDelegation (F : Foreign) (session : Session) (task : Task) (grantId : Option String)
    (org : Option OrgChart) (ledger : Option GrantLedger) (at_ : Option String)
    (escalationPath : List String) : Outcome (Except ContractError Unit) :=
  match org, ledger, at_ with
  | some org, some ledger, some at_ =>
    match grantId with
    | none => .panics
    | some grantId =>
      let opened : Except ContractError CapabilityGrant := do
        checkEscalationUrns escalationPath
        let grant ← (ledger.grant grantId).mapError .grant
        let isOpen ← (ledger.isOpen F grantId at_).mapError .grant
        if !isOpen then .error (.grantNotOpen grantId at_) else .ok grant
      match opened with
      | .error e => .returns (.error e)
      | .ok grant =>
        match (members session.participants).find? (fun p => p ≠ task.owner) with
        | none => .panics
        | some delegator =>
          if grant.grantee ≠ task.owner ∨ grant.grantor ≠ delegator then
            .returns (.error (.grantPartyMismatch grantId grant.grantor grant.grantee delegator
              task.owner))
          else match org.checkedChain grant.grantor with
            | .error e => .returns (.error (.grant e))
            | .ok chain =>
              if escalationPath ≠ chain.reverse then
                .returns (.error (.badEscalationPath chain.reverse escalationPath))
              else .returns (.ok ())
  | _, _, _ => .returns (.error .missingDelegationContext)

def propose (F : Foreign) (session : Session) (contractId : String) (task : Task)
    (relationship : Relationship) (grantId : Option String) (org : Option OrgChart)
    (ledger : Option GrantLedger) (at_ : Option String) (escalationPath : List String)
    (limits : ContractLimits) : Outcome (Except ContractError Contract) :=
  let contract : Contract := {
    contractId, task, relationship, grantId
    participants := session.participants
    escalationPath, limits
    state := .proposed
    rounds := 0
    amendments := 0
    reworks := 0
    agreedBy := ∅
    agreedTermsDigest := none
    lastCounterBy := none
    amendmentParticipants := ∅
    revisions := []
    pendingSubmission := none
    pendingSubmitter := none
    reworkScope := none }
  if session.state ≠ .active then .returns (.error (.inactiveSession session.state))
  else if limits.maxRounds < 1 ∨ limits.maxAmendments < 1 then .returns (.error .badLimits)
  else if relationship = .delegation ∧ escalationPath = [] then
    .returns (.error .delegationNeedsEscalationPath)
  else if relationship = .delegation ∧ grantId = none then
    .returns (.error .delegationNeedsGrantId)
  else if task.owner ∉ members session.participants then
    .returns (.error (.notAParty task.owner contractId))
  else if relationship = .delegation then
    match groundDelegation F session task grantId org ledger at_ escalationPath with
    | .returns (.ok ()) => .returns (.ok contract)
    | .returns (.error e) => .returns (.error e)
    | .panics => .panics
    | .diverges => .diverges
  else .returns (.ok contract)

/-- A proposal succeeds on an active session of the task owner within working limits, for a
delegation also on its grounds, and gives a contract on which nothing is recorded yet. -/
theorem propose_eq_ok {F : Foreign} {session : Session} {contractId : String} {task : Task}
    {relationship : Relationship} {grantId : Option String} {org : Option OrgChart}
    {ledger : Option GrantLedger} {at_ : Option String} {escalationPath : List String}
    {limits : ContractLimits} {c : Contract} :
    propose F session contractId task relationship grantId org ledger at_ escalationPath limits =
        .returns (.ok c) ↔
      session.state = .active ∧ ¬(limits.maxRounds < 1 ∨ limits.maxAmendments < 1) ∧
        task.owner ∈ members session.participants ∧
        (relationship = .delegation → escalationPath ≠ [] ∧ grantId ≠ none ∧
          groundDelegation F session task grantId org ledger at_ escalationPath =
            .returns (.ok ())) ∧
        c = ⟨contractId, task, relationship, grantId, session.participants, escalationPath, limits,
          .proposed, 0, 0, 0, ∅, none, none, ∅, [], none, none, none⟩ := by
  unfold propose
  by_cases hstate : session.state = .active
  swap
  · simp [hstate]
  by_cases hlimits : limits.maxRounds < 1 ∨ limits.maxAmendments < 1
  · simp only [hstate, hlimits, ne_eq, not_true_eq_false, if_true, if_false, false_and, and_false,
      Outcome.returns.injEq, reduceCtorEq]
  simp only [hstate, hlimits, ne_eq, not_true_eq_false, not_false_eq_true, if_false, true_and]
  by_cases howner : task.owner ∈ members session.participants
  swap
  · simp only [howner, not_false_eq_true, if_true, false_and, iff_false]
    split_ifs <;> exact nofun
  by_cases hdelegation : relationship = .delegation
  swap
  · simp [howner, hdelegation, eq_comm]
  by_cases hpath : escalationPath = []
  · simp [hdelegation, hpath]
  by_cases hgrant : grantId = none
  · simp [hdelegation, hpath, hgrant]
  generalize groundDelegation F session task grantId org ledger at_ escalationPath = grounded
  rcases grounded with (e | ⟨⟨⟩⟩) | - | -
  all_goals simp [howner, hdelegation, hpath, hgrant, eq_comm]

def authorize (c : Contract) (who : String) : Except ContractError Unit :=
  if who ∈ members c.participants then .ok () else .error (.notAParty who c.contractId)

def counter (c : Contract) (by_ : String) : Contract × Except ContractError Unit :=
  match c.authorize by_ with
  | .error e => (c, .error e)
  | .ok () =>
    if ¬(c.state = .proposed ∨ c.state = .countered ∨ c.state = .amending) then
      (c, .error (.illegalTransition "counter" c.state))
    else
      let amending := c.state = .amending
      if c.lastCounterBy = some by_ then (c, .error (.repeatedCounter by_))
      else
        let c := { c with
          lastCounterBy := some by_
          amendmentParticipants :=
            if amending then insert by_ c.amendmentParticipants else c.amendmentParticipants
          rounds := saturatingSucc c.rounds
          -- terms changed under the acceptors' feet
          agreedBy := ∅
          agreedTermsDigest := none }
        if c.limits.maxRounds ≤ c.rounds then
          ({ c with state :=
              if amending ∧ c.amendmentParticipants.card < 2 then .executing else .noAgreement },
            .error (.roundsExhausted c.rounds c.limits.maxRounds))
        else ({ c with state := if amending then .amending else .countered }, .ok ())

section Terms
variable (F : Foreign)

def checkTerms (c : Contract) (terms : Json) : Except ContractError String := do
  let digest ← (digestOf F terms).mapError .notCanonical
  if c.agreedTermsDigest.any (fun accepted => accepted ≠ digest) then .error .termsMismatch
  else .ok digest

/-- Record an acceptance of terms with this digest. Names recorded without any terms, as in
a legacy snapshot, are dropped first. -/
def vote (c : Contract) (by_ digest : String) : Contract :=
  { c with
    agreedBy := insert by_ (if c.agreedTermsDigest = none then ∅ else c.agreedBy)
    agreedTermsDigest := some digest }

def agree (c : Contract) (by_ : String) (terms : Json) : Contract × Except ContractError Unit :=
  match c.authorize by_ with
  | .error e => (c, .error e)
  | .ok () =>
    if ¬(c.state = .proposed ∨ c.state = .countered ∨ c.state = .agreed) then
      (c, .error (.illegalTransition "agree" c.state))
    else match c.checkTerms F terms with
      | .error e => (c, .error e)
      | .ok digest =>
        let c := c.vote by_ digest
        ({ c with state := if c.agreedBy.card = 2 then .agreed else .proposed }, .ok ())

def freeze (c : Contract) (terms : Json) : Contract × Except ContractError String :=
  if c.state ≠ .agreed then (c, .error (.illegalTransition "freeze" c.state))
  else
    let missing := ((members c.participants).find? fun p => p ∉ c.agreedBy).getD ""
    if missing ≠ "" then (c, .error (.notBothAgreed missing))
    else match c.checkTerms F terms with
      | .error e => (c, .error e)
      | .ok contentDigest =>
        if c.agreedTermsDigest ≠ some contentDigest then (c, .error .termsMismatch)
        else
          let number := c.revisions.length + 1
          match revisionDigest F c.contractId number terms with
          | .error e => (c, .error e)
          | .ok digest =>
            ({ c with
                revisions := c.revisions ++ [⟨number, terms, digest⟩]
                agreedBy := ∅
                agreedTermsDigest := none
                state := .executing }, .ok digest)

end Terms

def frozenDigest (c : Contract) : Option String := c.revisions.getLast?.map Revision.digest

def withdraw (c : Contract) (by_ : String) : Contract × Except ContractError Unit :=
  match c.authorize by_ with
  | .error e => (c, .error e)
  | .ok () =>
    if ¬(c.state = .proposed ∨ c.state = .countered ∨ c.state = .agreed) then
      (c, .error (.illegalTransition "withdraw" c.state))
    else ({ c with state := .withdrawn }, .ok ())

/-- Expire the negotiation; a unilateral amendment returns to the current revision. -/
def expireNegotiation (c : Contract) : Contract × Except ContractError Unit :=
  if ¬(c.state = .proposed ∨ c.state = .countered ∨ c.state = .agreed ∨ c.state = .amending) then
    (c, .error (.illegalTransition "expire negotiation" c.state))
  else
    ({ c with state :=
        if c.state = .amending ∧ c.amendmentParticipants.card < 2 then .executing
        else .noAgreement }, .ok ())

def submit (c : Contract) (by_ : String) (submission : Submission) :
    Contract × Except ContractError Unit :=
  match c.authorize by_ with
  | .error e => (c, .error e)
  | .ok () =>
    if c.state ≠ .executing then (c, .error (.illegalTransition "submit" c.state))
    else
      let expected := c.frozenDigest.getD ""
      if submission.againstRevision ≠ expected then
        (c, .error (.staleRevision submission.againstRevision expected))
      else
        ({ c with
            pendingSubmission := some submission
            pendingSubmitter := some by_
            state := .verifying }, .ok ())

/-- Low-level transition for a verdict the host has already validated. -/
def decide (c : Contract) (verdict : Verdict) : Contract × Except ContractError Unit :=
  if c.state ≠ .verifying then (c, .error (.illegalTransition "apply a verdict" c.state))
  else match verdict with
    | .accept =>
      ({ c with
          pendingSubmission := none
          reworkScope := none
          state := .settled
          pendingSubmitter := none }, .ok ())
    | .rework scope =>
      let c := { c with pendingSubmission := none }
      if c.limits.maxRework ≤ c.reworks then
        ({ c with reworkScope := some scope, state := .rejected, pendingSubmitter := none },
          .ok ())
      else
        ({ c with
            reworks := saturatingSucc c.reworks
            reworkScope := some scope
            state := .executing
            pendingSubmitter := none }, .ok ())
    | .reject =>
      ({ c with
          pendingSubmission := none
          reworkScope := none
          state := .rejected
          pendingSubmitter := none }, .ok ())

def applyVerification (c : Contract) (record : Verification) :
    Contract × Except ContractError Unit :=
  match record.validate with
  | .error e => (c, .error (.invalidVerification (.record e)))
  | .ok () =>
    match c.authorize record.verifier with
    | .error e => (c, .error e)
    | .ok () =>
      match c.pendingSubmission with
      | none => (c, .error (.invalidVerification (.text "no pending submission")))
      | some pending =>
        if c.pendingSubmitter = none ∨ c.pendingSubmitter = some record.verifier ∨
            record.contractId ≠ c.contractId ∨
            record.againstRevision ≠ pending.againstRevision ∨
            record.artifacts.toFinset ≠ pending.artifacts.toFinset then
          (c, .error (.invalidVerification
            (.text "wrong verifier, contract, revision or artifacts")))
        else c.decide record.verdict

def proposeAmendment (c : Contract) (by_ : String) : Contract × Except ContractError Unit :=
  match c.authorize by_ with
  | .error e => (c, .error e)
  | .ok () =>
    if c.state ≠ .executing then (c, .error (.illegalTransition "propose an amendment" c.state))
    else if c.limits.maxAmendments ≤ c.amendments then
      (c, .error (.amendmentsExhausted c.amendments c.limits.maxAmendments))
    else
      ({ c with
          state := .amending
          agreedBy := ∅
          agreedTermsDigest := none
          rounds := 0
          lastCounterBy := none
          amendmentParticipants := {by_} }, .ok ())

/-- Decide an amendment. Both accepting freezes the next revision, a refusal returns to
`Executing`. The `debug_assert!` is compiled in exactly when `debug` is set. -/
def decideAmendment (F : Foreign) (debug : Bool) (c : Contract) (by_ : String) (accept : Bool)
    (terms : Option Json) : Contract × Outcome (Except ContractError (Option String)) :=
  match c.authorize by_ with
  | .error e => (c, .returns (.error e))
  | .ok () =>
    if c.state ≠ .amending then
      (c, .returns (.error (.illegalTransition "decide an amendment" c.state)))
    else
      let c := { c with amendmentParticipants := insert by_ c.amendmentParticipants }
      if accept = false then
        ({ c with state := .executing, agreedBy := ∅, agreedTermsDigest := none },
          .returns (.ok none))
      else match terms with
        | none =>
          (c, .returns (.error (.illegalTransition "accept an amendment without terms" c.state)))
        | some terms =>
          match c.checkTerms F terms with
          | .error e => (c, .returns (.error e))
          | .ok contentDigest =>
            let c := c.vote by_ contentDigest
            if c.agreedBy.card < 2 then (c, .returns (.ok none))
            else if debug = true ∧ ¬c.amendments < c.limits.maxAmendments then (c, .panics)
            else
              let c := { c with amendments := saturatingSucc c.amendments }
              let number := c.revisions.length + 1
              match revisionDigest F c.contractId number terms with
              | .error e => (c, .returns (.error e))
              | .ok digest =>
                ({ c with
                    revisions := c.revisions ++ [⟨number, terms, digest⟩]
                    agreedBy := ∅
                    agreedTermsDigest := none
                    state := .executing }, .returns (.ok (some digest)))

end Contract
end Hacp.V2
