import Hacp.V2.ContractHistory

/-!
# How a frozen contract ends

A contract settles through a verification record of the counterparty about the last
submission. What one participant does alone neither ends a running contract nor
touches its revisions.
-/
namespace Hacp.V2.Contract
open Lib
variable {F : Foreign} {debug : Bool} {c : Contract} {past : List ContractEvent}

theorem Effect.identity {call : ContractCall} {r : Contract × ContractOutput}
    (he : Effect F debug c call r) :
    r.1.contractId = c.contractId ∧ r.1.participants = c.participants := by
  cases he <;> exact ⟨rfl, rfl⟩

theorem identity_kept (F : Foreign) (debug : Bool) (c₀ : Contract) (calls : List ContractCall) :
    ((contractMachine F debug).exec c₀ calls).contractId = c₀.contractId ∧
      ((contractMachine F debug).exec c₀ calls).participants = c₀.participants := by
  refine Machine.exec_invariant (P := fun c : Contract =>
    c.contractId = c₀.contractId ∧ c.participants = c₀.participants) (fun c call h => ?_)
    ⟨rfl, rfl⟩ calls
  rcases step_effect F debug c call with ⟨e, hstep, -⟩ | he
  · exact (congrArg (fun r : Contract × ContractOutput =>
      r.1.contractId = c₀.contractId ∧ r.1.participants = c₀.participants) hstep).mpr h
  · exact ⟨he.identity.1.trans h.1, he.identity.2.trans h.2⟩

/-! ## Settlement -/

def Submits (e : ContractEvent) : Prop :=
  ∃ who submission, e.input = .submit who submission ∧ e.output = .returns (.ok .done)

/-- The last successful submission is this one, by `who`. -/
def LastSubmission (past : List ContractEvent) (who : String) (submission : Submission) : Prop :=
  ∃ before e after, past = before ++ e :: after ∧ e.input = .submit who submission ∧
    e.output = .returns (.ok .done) ∧ ∀ x ∈ after, ¬Submits x

theorem LastSubmission.snoc {who : String} {submission : Submission}
    (h : LastSubmission past who submission) {e : ContractEvent} (he : ¬Submits e) :
    LastSubmission (past ++ [e]) who submission := by
  obtain ⟨before, e', after, rfl, hinput, houtput, hafter⟩ := h
  refine ⟨before, e', after ++ [e], by simp, hinput, houtput, fun x hx => ?_⟩
  rw [List.mem_append, List.mem_singleton] at hx
  rcases hx with hx | rfl
  · exact hafter x hx
  · exact he

/-- A successful `apply_verification` in the past accepted the last submission made before it,
by a participant other than its author, on passed checks over its artifacts. -/
def SettledByCounterparty (contractId : String) (participants : String × String)
    (past : List ContractEvent) : Prop :=
  ∃ before e after record author submission, past = before ++ e :: after ∧
    e.input = .applyVerification record ∧ e.output = .returns (.ok .done) ∧
    record.verdict = .accept ∧ record.verifier ∈ members participants ∧
    LastSubmission before author submission ∧ record.verifier ≠ author ∧
    record.contractId = contractId ∧ e.before.frozenDigest = some record.againstRevision ∧
    record.artifacts.toFinset = submission.artifacts.toFinset ∧ submission.artifacts ≠ [] ∧
    record.checks ≠ [] ∧ ∀ check ∈ record.checks, check.passed = true

theorem SettledByCounterparty.snoc {contractId : String} {participants : String × String}
    (h : SettledByCounterparty contractId participants past) (e : ContractEvent) :
    SettledByCounterparty contractId participants (past ++ [e]) := by
  obtain ⟨before, e', after, record, author, submission, rfl, hfacts⟩ := h
  exact ⟨before, e', after ++ [e], record, author, submission, by simp, hfacts⟩

/-- No call of the host put a verdict directly. -/
def NoHostVerdict (past : List ContractEvent) : Prop := ∀ e ∈ past, ∀ verdict, e.input ≠ .decide verdict

structure SubmissionKept (past : List ContractEvent) (c : Contract) : Prop where
  pending : ∀ submission, c.pendingSubmission = some submission → c.state = .verifying ∧
    c.frozenDigest = some submission.againstRevision ∧
    ∃ author, c.pendingSubmitter = some author ∧ LastSubmission past author submission
  settled : c.state = .settled → NoHostVerdict past →
    SettledByCounterparty c.contractId c.participants past

/-- Outside `Verifying` nothing is pending, and it stays so unless the call submits. -/
theorem SubmissionKept.idle (h : SubmissionKept past c) (hstate : c.state ≠ .verifying)
    {c' : Contract} (hpending : c'.pendingSubmission = c.pendingSubmission)
    (hsettled : c'.state ≠ .settled) (e : ContractEvent) : SubmissionKept (past ++ [e]) c' := by
  refine ⟨fun submission hsome => ?_, fun hs => absurd hs hsettled⟩
  exact absurd (h.pending submission (hpending ▸ hsome)).1 hstate

/-- An accepting verdict without the host comes from a fitting record. -/
theorem SubmissionKept.accepted (h : SubmissionKept past c) {call : ContractCall}
    (ruling : c.Ruling call .accept) {c' : Contract} (hid : c'.contractId = c.contractId)
    (hparties : c'.participants = c.participants)
    (hpast : NoHostVerdict (past ++ [⟨c, call, .returns (.ok .done), c'⟩])) :
    SettledByCounterparty c'.contractId c'.participants
      (past ++ [⟨c, call, .returns (.ok .done), c'⟩]) := by
  rw [hid, hparties]
  cases ruling with
  | host =>
    exact absurd rfl (hpast _ (List.mem_append_right _ List.mem_cons_self) .accept)
  | @record record _ pending stated valid party hpending submitted counterparty contract revision
      artifacts =>
    obtain ⟨-, hfrozen, author, hauthor, hlast⟩ := h.pending pending hpending
    obtain ⟨hartifacts, hchecks, hpassed⟩ := Verification.validate_accept valid stated
    refine ⟨past, _, [], record, author, pending, rfl, rfl, rfl, stated, party, hlast, ?_,
      contract, revision ▸ hfrozen, artifacts, ?_, hchecks, hpassed⟩
    · exact fun hself => counterparty (hauthor.trans (congrArg some hself.symm))
    · exact fun hempty => hartifacts (by simpa [hempty] using artifacts)

theorem SubmissionKept.effect (h : SubmissionKept past c) (hkept : c.WellKept F)
    {call : ContractCall} {r : Contract × ContractOutput} (he : Effect F debug c call r) :
    SubmissionKept (past ++ [⟨c, call, r.2, r.1⟩]) r.1 := by
  cases he with
  | @submit author submission party state fresh =>
    refine ⟨fun s hs => ?_, nofun⟩
    obtain rfl := Option.some.inj hs
    refine ⟨rfl, ?_, author, rfl, past, _, [], rfl, rfl, rfl, by simp⟩
    have hfrozen := hkept.frozen (by rw [state]; rfl)
    rw [fresh]
    simp only [frozenDigest, List.getLast?_eq_some_getLast hfrozen]
    rfl
  | accepted ruling => exact ⟨nofun, fun _ hpast => h.accepted ruling rfl rfl hpast⟩
  | reworked | reworkExhausted | rejected => exact ⟨nofun, nofun⟩
  | counter _ state | exhausted _ state =>
    refine h.idle ?_ ?_ ?_ _
    · rcases state with h | h <;> simp [h]
    · rfl
    · exact nofun
  | agree _ state =>
    refine h.idle ?_ ?_ ?_ _
    · rcases state with h | h | h <;> simp [h]
    · rfl
    · simp only
      split_ifs <;> exact nofun
  | withdraw _ state | expire state =>
    refine h.idle ?_ ?_ ?_ _
    · rcases state with h | h | h <;> simp [h]
    · rfl
    · exact nofun
  | exhaustedAmending _ state | expireAmending state =>
    refine h.idle (by simp [state]) ?_ ?_ _
    · rfl
    · simp only
      split_ifs <;> exact nofun
  | counterAmending _ state | freeze state | proposeAmendment _ state | refuseAmendment _ state
  | acceptAmendment _ state =>
    refine h.idle (by simp [state]) ?_ ?_ _
    · rfl
    · exact nofun
  | awaitAmendment _ state | strayVote _ state | assertFails _ state =>
    refine h.idle (by simp [state]) ?_ ?_ _
    · rfl
    · simp [vote, state]

theorem SubmissionKept.step (h : SubmissionKept past c) (hkept : c.WellKept F)
    (call : ContractCall) :
    SubmissionKept (past ++ [(contractMachine F debug).event c call])
      (contractStep F debug c call).1 := by
  simp only [Machine.event, contractMachine]
  rcases step_effect F debug c call with ⟨e, hstep, -⟩ | he
  · rw [hstep]
    refine ⟨fun submission hsome => ?_, fun hs hpast => ?_⟩
    · obtain ⟨hstate, hfrozen, author, hauthor, hlast⟩ := h.pending submission hsome
      exact ⟨hstate, hfrozen, author, hauthor, hlast.snoc (by simp [Submits])⟩
    · exact (h.settled hs fun x hx => hpast x (List.mem_append_left _ hx)).snoc _
  · exact h.effect hkept he

theorem Proposed.submissionKept {c₀ : Contract} (h : Proposed F c₀) (debug : Bool)
    (calls : List ContractCall) :
    SubmissionKept ((contractMachine F debug).history c₀ calls)
      ((contractMachine F debug).exec c₀ calls) := by
  refine Machine.history_invariant (I := SubmissionKept) ?_
    (fun calls call hc => hc.step (h.wellKept debug calls) call) calls
  exact ⟨fun _ hs => by simp [h.fresh.pendingSubmission] at hs,
    fun hs => by simp [h.fresh.state] at hs⟩

/-- A contract that settles without a verdict of the host settled by a record of the
counterparty on the last submission. -/
theorem settled_by_counterparty {c₀ : Contract} (h : Proposed F c₀) (debug : Bool)
    (calls : List ContractCall) (hhost : ∀ call ∈ calls, ∀ verdict, call ≠ .decide verdict)
    (hsettled : ((contractMachine F debug).exec c₀ calls).state = .settled) :
    SettledByCounterparty c₀.contractId c₀.participants
      ((contractMachine F debug).history c₀ calls) := by
  have hpast : NoHostVerdict ((contractMachine F debug).history c₀ calls) := by
    intro e he verdict
    refine hhost e.input ?_ verdict
    rw [← (contractMachine F debug).history_inputs c₀ calls]
    exact List.mem_map_of_mem he
  have hkept := (h.submissionKept debug calls).settled hsettled hpast
  rwa [(identity_kept F debug c₀ calls).1, (identity_kept F debug c₀ calls).2] at hkept

/-- Both agree on terms, one submits an artifact and the other accepts it. -/
def acceptedRun : List ContractCall :=
  let digest := hexText (List.replicate 32 0)
  [.agree "urn:hacp:agent:a" .null, .agree "urn:hacp:agent:b" .null, .freeze .null,
    .submit "urn:hacp:agent:a" ⟨digest, ["file"], [], "done"⟩,
    .applyVerification ⟨"v-0123456789ab", "urn:hacp:agent:b", "c-1", digest, ["file"], [],
      [⟨"file-has-one-line", true, "one line"⟩], .accept, [], []⟩]

theorem settled_by_counterparty_collaboration :
    SettledByCounterparty collaboration.contractId collaboration.participants
      ((contractMachine Foreign.placeholder true).history collaboration acceptedRun) :=
  settled_by_counterparty (proposed_collaboration Foreign.placeholder) true acceptedRun
    (by simp [acceptedRun]) (by decide)

/-! ## One participant alone -/

/-- A call of the participant `x`, or a `freeze` or `expire_negotiation` of the host. -/
def Unilateral (x : String) : ContractCall → Prop
  | .counter by_ | .agree by_ _ | .withdraw by_ | .submit by_ _ | .proposeAmendment by_
  | .decideAmendment by_ _ _ => by_ = x
  | .applyVerification record => record.verifier = x
  | .freeze _ | .expireNegotiation => True
  | .decide _ => False

/-- A running contract in which nobody but `x` has acted since it was executing. -/
structure Alone (x : String) (revisions : List Revision) (c : Contract) : Prop where
  unchanged : c.revisions = revisions
  running : c.state = .executing ∨ c.state = .amending ∨ c.state = .verifying
  amending : c.state = .amending → c.amendmentParticipants ⊆ {x} ∧ c.agreedBy ⊆ {x}
  verifying : c.state = .verifying → c.pendingSubmitter = some x

theorem Alone.of_executing {x : String} {revisions : List Revision}
    (hrevisions : c.revisions = revisions) (hstate : c.state = .executing) :
    Alone x revisions c :=
  ⟨hrevisions, .inl hstate, by simp [hstate], by simp [hstate]⟩

/-- A set of names of one participant never counts as two. -/
theorem card_lt_two {x : String} {s : Finset String} (hs : s ⊆ {x}) : s.card < 2 := by
  have hcard := Finset.card_le_card hs
  rw [Finset.card_singleton] at hcard
  omega

theorem insert_subset_self {x : String} {s : Finset String} (hs : s ⊆ {x}) : insert x s ⊆ {x} :=
  Finset.insert_subset (Finset.mem_singleton_self x) hs

theorem vote_subset {x : String} (hs : c.agreedBy ⊆ {x}) (digest : String) :
    (c.vote x digest).agreedBy ⊆ {x} := by
  refine insert_subset_self ?_
  split_ifs
  · exact Finset.empty_subset _
  · exact hs

/-- The submitter cannot rule on its own submission. -/
theorem Alone.not_ruling {x : String} {revisions : List Revision} (h : Alone x revisions c)
    {call : ContractCall} (hcall : Unilateral x call) (hstate : c.state = .verifying)
    {verdict : Verdict} : ¬c.Ruling call verdict := by
  intro ruling
  cases ruling with
  | host => exact hcall
  | record stated valid party hpending submitted counterparty =>
    exact counterparty ((h.verifying hstate).trans (congrArg some hcall.symm))

theorem Alone.effect {x : String} {revisions : List Revision} (h : Alone x revisions c)
    {call : ContractCall} (hcall : Unilateral x call) {r : Contract × ContractOutput}
    (he : Effect F debug c call r) : Alone x revisions r.1 := by
  have hrunning := h.running
  cases he with
  | counter _ state | exhausted _ state =>
    rcases state with hs | hs <;> simp [hs] at hrunning
  | agree _ state | withdraw _ state | expire state =>
    rcases state with hs | hs | hs <;> simp [hs] at hrunning
  | freeze state => simp [state] at hrunning
  | counterAmending _ state =>
    obtain rfl := hcall
    exact ⟨h.unchanged, .inr (.inl rfl),
      fun _ => ⟨insert_subset_self (h.amending state).1, Finset.empty_subset _⟩, nofun⟩
  | exhaustedAmending _ state =>
    obtain rfl := hcall
    exact .of_executing h.unchanged
      (if_pos (card_lt_two (insert_subset_self (h.amending state).1)))
  | expireAmending state =>
    exact .of_executing h.unchanged (if_pos (card_lt_two (h.amending state).1))
  | submit =>
    obtain rfl := hcall
    exact ⟨h.unchanged, .inr (.inr rfl), nofun, fun _ => rfl⟩
  | accepted ruling state | reworked ruling state | reworkExhausted ruling state
  | rejected ruling state => exact absurd ruling (h.not_ruling hcall state)
  | proposeAmendment =>
    obtain rfl := hcall
    exact ⟨h.unchanged, .inr (.inl rfl),
      fun _ => ⟨Finset.Subset.refl _, Finset.empty_subset _⟩, nofun⟩
  | refuseAmendment => exact .of_executing h.unchanged rfl
  | @awaitAmendment by_ terms digest party state =>
    obtain rfl := hcall
    obtain ⟨hparticipants, hvoters⟩ := h.amending state
    refine ⟨h.unchanged, .inr (.inl state), fun _ => ⟨insert_subset_self hparticipants,
      vote_subset hvoters digest⟩, fun hs => ?_⟩
    simp [vote, state] at hs
  | @acceptAmendment by_ terms digest _ party state checked both =>
    obtain rfl := hcall
    exact absurd (card_lt_two (vote_subset (h.amending state).2 digest)) both
  | @assertFails by_ terms digest party state checked both =>
    obtain rfl := hcall
    exact absurd (card_lt_two (vote_subset (h.amending state).2 digest)) both
  | strayVote _ state =>
    obtain rfl := hcall
    obtain ⟨hparticipants, hvoters⟩ := h.amending state
    exact ⟨h.unchanged, .inr (.inl state), fun _ => ⟨insert_subset_self hparticipants, hvoters⟩,
      h.verifying⟩

theorem Alone.step {x : String} {revisions : List Revision} (h : Alone x revisions c)
    {call : ContractCall} (hcall : Unilateral x call) :
    Alone x revisions (contractStep F debug c call).1 := by
  rcases step_effect F debug c call with ⟨e, hstep, -⟩ | he
  · rw [hstep]
    exact h
  · exact h.effect hcall he

/-- One participant alone, with the host freezing and expiring at will, keeps an executing
contract running and its revisions as they are. -/
theorem unilateral_keeps_running (F : Foreign) (debug : Bool) {c : Contract}
    (hstate : c.state = .executing) (x : String) {calls : List ContractCall}
    (hcalls : ∀ call ∈ calls, Unilateral x call) :
    (((contractMachine F debug).exec c calls).state = .executing ∨
      ((contractMachine F debug).exec c calls).state = .amending ∨
      ((contractMachine F debug).exec c calls).state = .verifying) ∧
    ((contractMachine F debug).exec c calls).revisions = c.revisions := by
  have halone := Machine.exec_invariant_of (M := contractMachine F debug)
    (P := Alone x c.revisions) (A := Unilateral x) (fun _ _ hcall h => h.step hcall)
    (.of_executing rfl hstate) hcalls
  exact ⟨halone.running, halone.unchanged⟩

theorem unilateral_keeps_running_collaboration :
    let c := (contractMachine Foreign.placeholder true).exec collaboration
      [.agree "urn:hacp:agent:a" .null, .agree "urn:hacp:agent:b" .null, .freeze .null]
    let calls : List ContractCall := [.proposeAmendment "urn:hacp:agent:a",
      .decideAmendment "urn:hacp:agent:a" true (some (.bool true)), .expireNegotiation]
    (((contractMachine Foreign.placeholder true).exec c calls).state = .executing ∨
      ((contractMachine Foreign.placeholder true).exec c calls).state = .amending ∨
      ((contractMachine Foreign.placeholder true).exec c calls).state = .verifying) ∧
    ((contractMachine Foreign.placeholder true).exec c calls).revisions = c.revisions :=
  unilateral_keeps_running Foreign.placeholder true (by decide) "urn:hacp:agent:a"
    (by simp [Unilateral])

end Hacp.V2.Contract
