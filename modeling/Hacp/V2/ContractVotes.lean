import Hacp.V2.ContractHistory

/-!
# Votes bind their own terms only

The contract keeps one digest and the set of those who accepted it. Every recorded
acceptance stands: since it was made nothing changed the content under negotiation.
A revision is appended only on the standing acceptances of both participants.
-/
namespace Hacp.V2.Contract
open Lib
variable {F : Foreign} {debug : Bool} {c : Contract} {past : List ContractEvent}

/-- Events after which earlier acceptances no longer speak of the content on the table: a
counter, also the one that exhausts the rounds, a proposed or refused amendment, and every
appended revision. -/
def ChangesContent (e : ContractEvent) : Prop :=
  match e.input with
  | .counter _ => e.output = .returns (.ok .done) ∨
      ∃ rounds max, e.output = .returns (.error (.roundsExhausted rounds max))
  | .proposeAmendment _ => e.output = .returns (.ok .done)
  | .decideAmendment _ false _ => ∃ reply, e.output = .returns (.ok reply)
  | .decideAmendment _ true _ => ∃ digest, e.output = .returns (.ok (.decided (some digest)))
  | .freeze _ => ∃ digest, e.output = .returns (.ok (.frozen digest))
  | _ => False

/-- A successful `agree` of `who` on content with this digest. -/
def Agrees (F : Foreign) (who digest : String) (e : ContractEvent) : Prop :=
  ∃ terms, e.input = .agree who terms ∧ e.output = .returns (.ok .done) ∧
    digestOf F terms = .ok digest

/-- A successful accepting `decide_amendment` of `who` on content with this digest. -/
def AcceptsAmendment (F : Foreign) (who digest : String) (e : ContractEvent) : Prop :=
  ∃ terms reply, e.input = .decideAmendment who true (some terms) ∧
    e.output = .returns (.ok (.decided reply)) ∧ digestOf F terms = .ok digest

/-- Some past event is of this kind and nothing changed the content from it on. -/
def Standing (kind : ContractEvent → Prop) (past : List ContractEvent) : Prop :=
  ∃ before e after, past = before ++ e :: after ∧ kind e ∧ ∀ x ∈ e :: after, ¬ChangesContent x

theorem Standing.snoc {kind : ContractEvent → Prop} (h : Standing kind past) {e : ContractEvent}
    (he : ¬ChangesContent e) : Standing kind (past ++ [e]) := by
  obtain ⟨before, e', after, rfl, hkind, hafter⟩ := h
  refine ⟨before, e', after ++ [e], by simp, hkind, fun x hx => ?_⟩
  rw [← List.cons_append, List.mem_append, List.mem_singleton] at hx
  rcases hx with hx | rfl
  · exact hafter x hx
  · exact he

theorem Standing.last {kind : ContractEvent → Prop} {e : ContractEvent} (hkind : kind e)
    (he : ¬ChangesContent e) : Standing kind (past ++ [e]) :=
  ⟨past, e, [], rfl, hkind, by simpa using he⟩

def Negotiating (s : ContractState) : Prop := s = .proposed ∨ s = .countered ∨ s = .agreed

/-- While a digest is recorded, every recorded name stands for it. A failed assertion leaves
a name behind, in a state where no amendment can be appended any more. -/
structure VotesStand (F : Foreign) (debug : Bool) (past : List ContractEvent) (c : Contract) :
    Prop where
  voters : c.agreedTermsDigest ≠ none → c.agreedBy ⊆ c.partySet
  both : c.agreedTermsDigest ≠ none → c.state = .agreed → c.agreedBy.card = 2
  agrees : ∀ digest, c.agreedTermsDigest = some digest → Negotiating c.state →
    ∀ who ∈ c.agreedBy, Standing (Agrees F who digest) past
  accepts : ∀ digest, c.agreedTermsDigest = some digest → c.state = .amending →
    (debug = true → c.amendments < c.limits.maxAmendments) →
    ∀ who ∈ c.agreedBy, Standing (AcceptsAmendment F who digest) past

theorem VotesStand.of_none (h : c.agreedTermsDigest = none) : VotesStand F debug past c := by
  constructor <;> simp [h]

/-- Votes stay when an event that does not touch them changes at most the state. -/
theorem VotesStand.carry (h : VotesStand F debug past c) {e : ContractEvent}
    (he : ¬ChangesContent e) {c' : Contract} (hvotes : c'.agreedBy = c.agreedBy)
    (hdigest : c'.agreedTermsDigest = c.agreedTermsDigest)
    (hparties : c'.participants = c.participants)
    (hbound : c'.amendments = c.amendments ∧ c'.limits = c.limits)
    (hstate : Negotiating c'.state ∨ c'.state = .amending → c'.state = c.state) :
    VotesStand F debug (past ++ [e]) c' := by
  have hset : c'.partySet = c.partySet := by rw [partySet, hparties, partySet]
  refine ⟨?_, ?_, ?_, ?_⟩ <;> rw [hdigest, hvotes]
  · exact hset ▸ h.voters
  · intro hsome hagreed
    exact h.both hsome (hstate (.inl (.inr (.inr hagreed))) ▸ hagreed)
  · intro digest hsome hneg who hwho
    exact (h.agrees digest hsome (hstate (.inl hneg) ▸ hneg) who hwho).snoc he
  · intro digest hsome hamending hlt who hwho
    rw [hbound.1, hbound.2] at hlt
    exact (h.accepts digest hsome (hstate (.inr hamending) ▸ hamending) hlt who hwho).snoc he

/-- After a vote each recorded name is the voter's or was recorded for the same digest. -/
theorem mem_vote {by_ digest who : String} {terms : Json}
    (hchecked : c.checkTerms F terms = .ok digest) (hwho : who ∈ (c.vote by_ digest).agreedBy) :
    who = by_ ∨ c.agreedTermsDigest = some digest ∧ who ∈ c.agreedBy := by
  rcases Finset.mem_insert.mp hwho with rfl | hwho
  · exact .inl rfl
  · split_ifs at hwho with hnone
    · simp at hwho
    · obtain ⟨accepted, haccepted⟩ := Option.ne_none_iff_exists'.mp hnone
      rw [haccepted, (checkTerms_ok.mp hchecked).2 accepted haccepted]
      exact .inr ⟨rfl, hwho⟩

theorem vote_voters (h : VotesStand F debug past c) {by_ : String}
    (hparty : by_ ∈ members c.participants) (digest : String) :
    (c.vote by_ digest).agreedBy ⊆ c.partySet := by
  refine Finset.insert_subset (mem_partySet.mpr hparty) ?_
  split_ifs with hnone
  · exact Finset.empty_subset _
  · exact h.voters hnone

theorem VotesStand.effect (h : VotesStand F debug past c) {call : ContractCall}
    {r : Contract × ContractOutput} (he : Effect F debug c call r) :
    VotesStand F debug (past ++ [⟨c, call, r.2, r.1⟩]) r.1 := by
  cases he with
  | counter | counterAmending | exhausted | exhaustedAmending | freeze | proposeAmendment
  | refuseAmendment | acceptAmendment => exact .of_none rfl
  | @agree by_ terms digest party state checked =>
    have hnew : ¬ChangesContent ⟨c, .agree by_ terms, .returns (.ok .done),
        { c.vote by_ digest with
          state := if (c.vote by_ digest).agreedBy.card = 2 then .agreed else .proposed }⟩ := id
    refine ⟨fun _ => vote_voters h party digest, fun _ hs => ?_, fun d hd _ who hwho => ?_,
      fun _ _ hs => ?_⟩
    · by_contra hcard
      simp only [hcard, if_false] at hs
      cases hs
    · obtain rfl := Option.some.inj hd
      rcases mem_vote checked hwho with rfl | ⟨hdigest, hwho⟩
      · exact .last ⟨terms, rfl, rfl, (checkTerms_ok.mp checked).1⟩ hnew
      · exact (h.agrees digest hdigest state who hwho).snoc hnew
    · simp only at hs
      split_ifs at hs
  | withdraw => exact h.carry id rfl rfl rfl ⟨rfl, rfl⟩ (by simp [Negotiating])
  | expire => exact h.carry id rfl rfl rfl ⟨rfl, rfl⟩ (by simp [Negotiating])
  | expireAmending =>
    refine h.carry id rfl rfl rfl ⟨rfl, rfl⟩ ?_
    simp only
    split_ifs <;> simp [Negotiating]
  | submit => exact h.carry id rfl rfl rfl ⟨rfl, rfl⟩ (by simp [Negotiating])
  | accepted ruling | reworked ruling | reworkExhausted ruling | rejected ruling =>
    refine h.carry ?_ rfl rfl rfl ⟨rfl, rfl⟩ (by simp [Negotiating])
    cases ruling <;> exact id
  | @awaitAmendment by_ terms digest party state checked alone =>
    have hnew : ¬ChangesContent ⟨c, .decideAmendment by_ true (some terms),
        .returns (.ok (.decided none)), { c.vote by_ digest with
          amendmentParticipants := insert by_ c.amendmentParticipants }⟩ := by
      simp [ChangesContent]
    refine ⟨fun _ => vote_voters h party digest, fun _ hs => ?_, fun _ _ hs => ?_,
      fun d hd _ hbound who hwho => ?_⟩
    · simp [vote, state] at hs
    · simp [vote, state, Negotiating] at hs
    · obtain rfl := Option.some.inj hd
      rcases mem_vote checked hwho with rfl | ⟨hdigest, hwho⟩
      · exact .last ⟨terms, none, rfl, rfl, (checkTerms_ok.mp checked).1⟩ hnew
      · exact (h.accepts digest hdigest state hbound who hwho).snoc hnew
  | strayVote =>
    exact h.carry (by simp [ChangesContent]) rfl rfl rfl ⟨rfl, rfl⟩ fun _ => rfl
  | @assertFails by_ terms digest party state checked both assertions bound =>
    refine ⟨fun _ => vote_voters h party digest, fun _ hs => ?_, fun _ _ hs => ?_,
      fun d hd _ hbound => absurd (hbound assertions) bound⟩
    · simp [vote, state] at hs
    · simp [vote, state, Negotiating] at hs

theorem not_changesContent_of_refused {call : ContractCall} {e : ContractError}
    (he : ∀ rounds max, e ≠ .roundsExhausted rounds max) (c' : Contract) :
    ¬ChangesContent ⟨c, call, .returns (.error e), c'⟩ := by
  cases call with
  | decideAmendment by_ accept terms => cases accept <;> simp [ChangesContent]
  | _ => simp [ChangesContent, he]

theorem VotesStand.step (h : VotesStand F debug past c) (call : ContractCall) :
    VotesStand F debug (past ++ [(contractMachine F debug).event c call])
      (contractStep F debug c call).1 := by
  simp only [Machine.event, contractMachine]
  rcases step_effect F debug c call with ⟨e, hstep, he⟩ | heffect
  · rw [hstep]
    exact h.carry (not_changesContent_of_refused he _) rfl rfl rfl ⟨rfl, rfl⟩ fun _ => rfl
  · exact h.effect heffect

theorem votesStand (F : Foreign) (debug : Bool) {c₀ : Contract}
    (h₀ : c₀.agreedTermsDigest = none) (calls : List ContractCall) :
    VotesStand F debug ((contractMachine F debug).history c₀ calls)
      ((contractMachine F debug).exec c₀ calls) :=
  Machine.history_invariant (I := VotesStand F debug) (.of_none h₀)
    (fun _ call h => h.step call) calls

/-- The acceptance by `who` that an event binding content with this digest rests on. The last
acceptance of an amendment is the binding call itself. -/
def Consented (F : Foreign) (past : List ContractEvent) (e : ContractEvent)
    (who digest : String) : Prop :=
  match e.input with
  | .freeze _ => Standing (Agrees F who digest) past
  | .decideAmendment _ true _ =>
    AcceptsAmendment F who digest e ∨ Standing (AcceptsAmendment F who digest) past
  | _ => False

theorem VotesStand.consented (h : VotesStand F debug past c) {call : ContractCall}
    {r : Contract × ContractOutput} (he : Effect F debug c call r) {rev : Revision}
    (happended : r.1.revisions = c.revisions ++ [rev]) :
    ∃ digest, digestOf F rev.content = .ok digest ∧
      ∀ who ∈ members c.participants, Consented F past ⟨c, call, r.2, r.1⟩ who digest := by
  cases he with
  | @freeze terms contentDigest digest state missing content agreed =>
    obtain rfl := List.singleton_inj.mp (List.append_cancel_left happended)
    have hsome : c.agreedTermsDigest ≠ none := by simp [agreed]
    have hall := eq_partySet (h.voters hsome) (h.both hsome state).ge
    refine ⟨contentDigest, content, fun who hwho => ?_⟩
    exact h.agrees contentDigest agreed (.inr (.inr state)) who (hall ▸ mem_partySet.mpr hwho)
  | @acceptAmendment by_ terms contentDigest digest party state checked both bound =>
    obtain rfl := List.singleton_inj.mp (List.append_cancel_left happended)
    have hall := eq_partySet (vote_voters h party contentDigest) (not_lt.mp both)
    have hcontent := (checkTerms_ok.mp checked).1
    refine ⟨contentDigest, hcontent, fun who hwho => ?_⟩
    rcases mem_vote checked (hall ▸ mem_partySet.mpr hwho) with rfl | ⟨hdigest, hvoted⟩
    · exact .inl ⟨terms, _, rfl, rfl, hcontent⟩
    · exact .inr (h.accepts contentDigest hdigest state bound who hvoted)
  | _ => simp [vote] at happended

/-- From a contract without a recorded digest, every appended revision rests on a standing
acceptance of its content by each participant. -/
theorem appended_revision_consented (F : Foreign) (debug : Bool) {c₀ : Contract}
    (h₀ : c₀.agreedTermsDigest = none) (calls : List ContractCall) (call : ContractCall)
    (rev : Revision)
    (happended : (contractStep F debug ((contractMachine F debug).exec c₀ calls) call).1.revisions =
      ((contractMachine F debug).exec c₀ calls).revisions ++ [rev]) :
    ∃ digest, digestOf F rev.content = .ok digest ∧
      ∀ who ∈ members ((contractMachine F debug).exec c₀ calls).participants,
        Consented F ((contractMachine F debug).history c₀ calls)
          ((contractMachine F debug).event ((contractMachine F debug).exec c₀ calls) call)
          who digest := by
  have hstand := votesStand F debug h₀ calls
  simp only [Machine.event, contractMachine]
  rcases step_effect F debug ((contractMachine F debug).exec c₀ calls) call with
    ⟨e, hstep, -⟩ | he
  · rw [hstep] at happended
    simp at happended
  · exact hstand.consented he happended

theorem appended_revision_consented_collaboration :
    ∃ digest, digestOf Foreign.placeholder .null = .ok digest ∧
      ∀ who ∈ members collaboration.participants, Consented Foreign.placeholder
        ((contractMachine Foreign.placeholder true).history collaboration
          [.agree "urn:hacp:agent:a" .null, .agree "urn:hacp:agent:b" .null])
        ((contractMachine Foreign.placeholder true).event
          ((contractMachine Foreign.placeholder true).exec collaboration
            [.agree "urn:hacp:agent:a" .null, .agree "urn:hacp:agent:b" .null]) (.freeze .null))
        who digest :=
  appended_revision_consented Foreign.placeholder true
    (show collaboration.agreedTermsDigest = none from rfl)
    [.agree "urn:hacp:agent:a" .null, .agree "urn:hacp:agent:b" .null] (.freeze .null)
    ⟨1, .null, hexText (List.replicate 32 0)⟩ rfl

end Hacp.V2.Contract
