import Hacp.V2.ContractHistory
import Mathlib.Data.List.DropRight

/-!
# Negotiation and rework are bounded

The limits of a contract bound whole runs: how often work is submitted, how many
revisions are appended, and how many counters one negotiation takes. Each counter
field agrees with the events it counts, so none reaches the point where a saturating
increment would lose one.
-/
namespace Hacp.V2
open Lib

def ContractState.negotiating : ContractState → Bool
  | .proposed | .countered | .agreed | .amending => true
  | _ => false

/-- A submission was delivered and not sent back. -/
def ContractState.delivered : ContractState → Bool
  | .verifying | .settled | .rejected => true
  | _ => false

namespace Contract
variable {F : Foreign} {debug : Bool} {c : Contract} {past : List ContractEvent}

/-! ## What is counted -/

/-- The author of a counter that took effect, also of one that exhausts the rounds. -/
def counterAuthor (e : ContractEvent) : Option String :=
  match e.input, e.output with
  | .counter by_, .returns (.ok _) => some by_
  | .counter by_, .returns (.error (.roundsExhausted _ _)) => some by_
  | _, _ => none

def counters (run : List ContractEvent) : List String := run.filterMap counterAuthor

def submitted (e : ContractEvent) : Bool :=
  match e.input, e.output with
  | .submit _ _, .returns (.ok _) => true
  | _, _ => false

def amendmentProposed (e : ContractEvent) : Bool :=
  match e.input, e.output with
  | .proposeAmendment _, .returns (.ok _) => true
  | _, _ => false

def amended (e : ContractEvent) : Bool :=
  match e.output with
  | .returns (.ok (.decided (some _))) => true
  | _ => false

def sentBack (e : ContractEvent) : Bool :=
  e.before.state = .verifying && e.after.state = .executing

def appended (e : ContractEvent) : ℕ := e.after.revisions.length - e.before.revisions.length

/-- The events since the last proposed amendment, or since the contract was proposed. -/
def negotiation (past : List ContractEvent) : List ContractEvent :=
  past.rtakeWhile fun e => !amendmentProposed e

theorem counters_append (run run' : List ContractEvent) :
    counters (run ++ run') = counters run ++ counters run' := List.filterMap_append

theorem counters_singleton (e : ContractEvent) : counters [e] = (counterAuthor e).toList := by
  cases h : counterAuthor e <;> simp [counters, h]

theorem negotiation_snoc {e : ContractEvent} (he : amendmentProposed e = false) :
    negotiation (past ++ [e]) = negotiation past ++ [e] :=
  List.rtakeWhile_concat_pos _ _ _ (by simp [he])

theorem negotiation_proposed {e : ContractEvent} (he : amendmentProposed e = true) :
    negotiation (past ++ [e]) = [] :=
  List.rtakeWhile_concat_neg _ _ _ (by simp [he])

theorem counterAuthor_refused {call : ContractCall} {err : ContractError} (c' : Contract)
    (he : ∀ rounds max, err ≠ .roundsExhausted rounds max) :
    counterAuthor ⟨c, call, .returns (.error err), c'⟩ = none := by
  unfold counterAuthor
  split
  · simp_all
  · rename_i h
    exact absurd (Except.error.inj (Outcome.returns.inj h)) (he _ _)
  · rfl

theorem Effect.limits {call : ContractCall} {r : Contract × ContractOutput}
    (he : Effect F debug c call r) : r.1.limits = c.limits := by
  cases he <;> rfl

theorem Ruling.uncounted {call : ContractCall} {verdict : Verdict} (h : c.Ruling call verdict)
    (output : ContractOutput) (c' : Contract) :
    submitted ⟨c, call, output, c'⟩ = false ∧ counterAuthor ⟨c, call, output, c'⟩ = none ∧
      amendmentProposed ⟨c, call, output, c'⟩ = false := by
  cases h <;> exact ⟨rfl, rfl, rfl⟩

/-! ## Submissions -/

/-- Every successful submission was sent back for rework or is the one delivered last. -/
structure SubmissionsTallied (past : List ContractEvent) (c : Contract) : Prop where
  tally : past.countP submitted = c.reworks.toNat + if c.state.delivered then 1 else 0
  bounded : c.reworks ≤ c.limits.maxRework

/-- An event that submits nothing, sends nothing back and settles nothing. -/
theorem SubmissionsTallied.carry (h : SubmissionsTallied past c) {e : ContractEvent}
    (he : submitted e = false) {c' : Contract} (hreworks : c'.reworks = c.reworks)
    (hlimits : c'.limits = c.limits) (hstate : c'.state.delivered = c.state.delivered) :
    SubmissionsTallied (past ++ [e]) c' := by
  refine ⟨?_, by rw [hreworks, hlimits]; exact h.bounded⟩
  rw [List.countP_append, List.countP_singleton, he, h.tally, hreworks, hstate]
  rfl

theorem SubmissionsTallied.effect (h : SubmissionsTallied past c) {call : ContractCall}
    {r : Contract × ContractOutput} (he : Effect F debug c call r) :
    SubmissionsTallied (past ++ [⟨c, call, r.2, r.1⟩]) r.1 := by
  cases he with
  | submit party state =>
    refine ⟨?_, h.bounded⟩
    rw [List.countP_append, h.tally, state]
    rfl
  | reworked ruling state reworks =>
    have hlt := UInt64.lt_iff_toNat_lt.mp (UInt64.not_le.mp reworks)
    have hsucc := toNat_saturatingSucc c.reworks
    have hmax := c.limits.maxRework.toNat_lt
    refine ⟨?_, UInt64.le_iff_toNat_le.mpr (by simp only; omega)⟩
    rw [List.countP_append, List.countP_singleton, (ruling.uncounted _ _).1, h.tally, state]
    simp only [ContractState.delivered, hsucc, if_true, Bool.false_eq_true, if_false]
    omega
  | accepted ruling state | reworkExhausted ruling state | rejected ruling state =>
    exact h.carry (ruling.uncounted _ _).1 rfl rfl (by rw [state]; rfl)
  | counter _ state | exhausted _ state =>
    exact h.carry rfl rfl rfl (by rcases state with h | h <;> rw [h] <;> rfl)
  | withdraw _ state | expire state =>
    exact h.carry rfl rfl rfl (by rcases state with h | h | h <;> rw [h] <;> rfl)
  | agree _ state =>
    refine h.carry rfl rfl rfl ?_
    simp only
    split_ifs <;> rcases state with h | h | h <;> rw [h] <;> rfl
  | exhaustedAmending _ state | expireAmending state =>
    refine h.carry rfl rfl rfl ?_
    simp only [state]
    split_ifs <;> rfl
  | counterAmending _ state => exact h.carry rfl rfl rfl (by rw [state])
  | freeze state | proposeAmendment _ state | refuseAmendment _ state | acceptAmendment _ state =>
    exact h.carry rfl rfl rfl (by rw [state]; rfl)
  | awaitAmendment | strayVote | assertFails => exact h.carry rfl rfl rfl rfl

/-! ## Counters -/

/-- The round counter and the last author agree with the running negotiation. -/
structure RoundsTallied (past : List ContractEvent) (c : Contract) : Prop where
  tally : (counters (negotiation past)).length = c.rounds.toNat
  last : (counters (negotiation past)).getLast? = c.lastCounterBy
  alternate : (counters (negotiation past)).IsChain (· ≠ ·)
  bounded : c.rounds ≤ c.limits.maxRounds
  left : c.state.negotiating = true → c.rounds < c.limits.maxRounds

/-- An event that is neither a counter nor a proposed amendment. -/
theorem RoundsTallied.carry (h : RoundsTallied past c) {e : ContractEvent}
    (he : counterAuthor e = none) (hproposed : amendmentProposed e = false) {c' : Contract}
    (hrounds : c'.rounds = c.rounds) (hlast : c'.lastCounterBy = c.lastCounterBy)
    (hlimits : c'.limits = c.limits)
    (hstate : c'.state.negotiating = true → c.state.negotiating = true) :
    RoundsTallied (past ++ [e]) c' := by
  have hsame : counters (negotiation (past ++ [e])) = counters (negotiation past) := by
    rw [negotiation_snoc hproposed, counters_append, counters_singleton, he]
    simp
  refine ⟨?_, ?_, ?_, ?_, fun hs => ?_⟩
  · rw [hsame, hrounds, h.tally]
  · rw [hsame, hlast, h.last]
  · rw [hsame]
    exact h.alternate
  · rw [hrounds, hlimits]
    exact h.bounded
  · rw [hrounds, hlimits]
    exact h.left (hstate hs)

theorem RoundsTallied.toNat_rounds (h : RoundsTallied past c)
    (hstate : c.state.negotiating = true) :
    (saturatingSucc c.rounds).toNat = c.rounds.toNat + 1 ∧
      c.rounds.toNat + 1 ≤ c.limits.maxRounds.toNat := by
  have hlt := UInt64.lt_iff_toNat_lt.mp (h.left hstate)
  have hmax := c.limits.maxRounds.toNat_lt
  rw [toNat_saturatingSucc]
  omega

theorem RoundsTallied.counter (h : RoundsTallied past c) (hstate : c.state.negotiating = true)
    {by_ : String} (hauthor : c.lastCounterBy ≠ some by_) {e : ContractEvent}
    (he : counterAuthor e = some by_) (hproposed : amendmentProposed e = false) {c' : Contract}
    (hrounds : c'.rounds = saturatingSucc c.rounds) (hlast : c'.lastCounterBy = some by_)
    (hlimits : c'.limits = c.limits)
    (hleft : c'.state.negotiating = true → ¬c.limits.maxRounds ≤ saturatingSucc c.rounds) :
    RoundsTallied (past ++ [e]) c' := by
  obtain ⟨hsucc, hle⟩ := h.toNat_rounds hstate
  have hmore : counters (negotiation (past ++ [e])) = counters (negotiation past) ++ [by_] := by
    rw [negotiation_snoc hproposed, counters_append, counters_singleton, he]
    rfl
  refine ⟨?_, ?_, ?_, ?_, fun hs => ?_⟩
  · rw [hmore, hrounds, hsucc, List.length_append, h.tally]
    rfl
  · rw [hmore, hlast]
    simp
  · rw [hmore, List.isChain_append]
    refine ⟨h.alternate, List.isChain_singleton _, fun x hx y hy hxy => ?_⟩
    rw [h.last] at hx
    obtain rfl := Option.some.inj hy
    exact hauthor (hxy ▸ hx)
  · rw [hrounds, hlimits, UInt64.le_iff_toNat_le, hsucc]
    exact hle
  · rw [hrounds, hlimits]
    exact UInt64.not_le.mp (hleft hs)

theorem RoundsTallied.effect (h : RoundsTallied past c) (hlimits : 1 ≤ c.limits.maxRounds)
    {call : ContractCall} {r : Contract × ContractOutput} (he : Effect F debug c call r) :
    RoundsTallied (past ++ [⟨c, call, r.2, r.1⟩]) r.1 := by
  cases he with
  | counter _ state last rounds =>
    have hopen : c.state.negotiating = true := by rcases state with h | h <;> rw [h] <;> rfl
    exact h.counter hopen last rfl rfl rfl rfl rfl fun _ => rounds
  | counterAmending _ state last rounds =>
    exact h.counter (by rw [state]; rfl) last rfl rfl rfl rfl rfl fun _ => rounds
  | exhausted _ state last =>
    have hopen : c.state.negotiating = true := by rcases state with h | h <;> rw [h] <;> rfl
    exact h.counter hopen last rfl rfl rfl rfl rfl nofun
  | exhaustedAmending _ state last =>
    refine h.counter (by rw [state]; rfl) last rfl rfl rfl rfl rfl ?_
    simp only
    split_ifs <;> exact nofun
  | proposeAmendment =>
    refine ⟨?_, ?_, ?_, UInt64.zero_le, fun _ => hlimits⟩ <;> rw [negotiation_proposed rfl]
    · rfl
    · rfl
    · exact List.isChain_nil
  | agree _ state =>
    have hopen : c.state.negotiating = true := by rcases state with h | h | h <;> rw [h] <;> rfl
    exact h.carry rfl rfl rfl rfl rfl fun _ => hopen
  | expireAmending state => exact h.carry rfl rfl rfl rfl rfl fun _ => by rw [state]; rfl
  | accepted ruling | reworked ruling | reworkExhausted ruling | rejected ruling =>
    obtain ⟨-, hauthor, hproposed⟩ := ruling.uncounted (.returns (.ok .done)) _
    exact h.carry hauthor hproposed rfl rfl rfl nofun
  | freeze | withdraw | expire | submit | refuseAmendment | acceptAmendment =>
    exact h.carry rfl rfl rfl rfl rfl nofun
  | awaitAmendment | assertFails => exact h.carry rfl rfl rfl rfl rfl id
  | strayVote => exact h.carry rfl rfl rfl rfl rfl id

/-! ## Whole runs -/

/-- Everything that is counted, with the limits the contract was proposed with. -/
structure Tallied (limits : ContractLimits) (past : List ContractEvent) (c : Contract) :
    Prop where
  limits : c.limits = limits
  submissions : SubmissionsTallied past c
  rounds : RoundsTallied past c
  revisions : (past.map appended).sum = c.revisions.length

theorem refused_uncounted (call : ContractCall) {e : ContractError} (c' : Contract)
    (he : ∀ rounds max, e ≠ .roundsExhausted rounds max) :
    submitted ⟨c, call, .returns (.error e), c'⟩ = false ∧
      counterAuthor ⟨c, call, .returns (.error e), c'⟩ = none ∧
      amendmentProposed ⟨c, call, .returns (.error e), c'⟩ = false := by
  refine ⟨?_, counterAuthor_refused c' he, ?_⟩ <;> cases call <;> rfl

theorem Tallied.step {limits : ContractLimits} (h : Tallied limits past c)
    (hlimits : 1 ≤ limits.maxRounds) (F : Foreign) (debug : Bool) (call : ContractCall) :
    Tallied limits (past ++ [(contractMachine F debug).event c call])
      (contractStep F debug c call).1 := by
  have hgrows : c.revisions <+: (contractStep F debug c call).1.revisions :=
    revisions_append_only F debug c [call]
  have hrevisions : ((past ++ [(contractMachine F debug).event c call]).map appended).sum =
      (contractStep F debug c call).1.revisions.length := by
    have hle := hgrows.length_le
    simp only [List.map_append, List.sum_append, h.revisions, List.map_singleton,
      List.sum_singleton, appended, Machine.event, contractMachine]
    omega
  rcases step_effect F debug c call with ⟨e, hstep, he⟩ | he
  · obtain ⟨hsubmitted, hauthor, hproposed⟩ := refused_uncounted (c := c) call c he
    refine ⟨?_, ?_, ?_, hrevisions⟩
    · rw [hstep]
      exact h.limits
    · simp only [Machine.event, contractMachine, hstep]
      exact h.submissions.carry hsubmitted rfl rfl rfl
    · simp only [Machine.event, contractMachine, hstep]
      exact h.rounds.carry hauthor hproposed rfl rfl rfl id
  · exact ⟨he.limits.trans h.limits, h.submissions.effect he,
      h.rounds.effect (by rw [h.limits]; exact hlimits) he, hrevisions⟩

theorem Proposed.tallied (h : Proposed F c) :
    Tallied c.limits [] c ∧ 1 ≤ c.limits.maxRounds := by
  obtain ⟨session, contractId, task, relationship, grantId, org, ledger, at_, escalationPath,
    limits, h⟩ := h
  obtain ⟨-, hlimits, -, -, rfl⟩ := propose_eq_ok.mp h
  rw [not_or, UInt64.not_lt, UInt64.not_lt] at hlimits
  have hone : 1 ≤ limits.maxRounds := hlimits.1
  refine ⟨⟨rfl, ⟨rfl, UInt64.zero_le⟩, ⟨rfl, rfl, List.isChain_nil, UInt64.zero_le, fun _ => ?_⟩,
    rfl⟩, hone⟩
  exact hone

theorem Proposed.tallied_exec {c₀ : Contract} (h : Proposed F c₀) (debug : Bool)
    (calls : List ContractCall) :
    Tallied c₀.limits ((contractMachine F debug).history c₀ calls)
      ((contractMachine F debug).exec c₀ calls) :=
  Machine.history_invariant (I := Tallied c₀.limits) h.tallied.1
    (fun _ call ih => ih.step h.tallied.2 F debug call) calls

/-! ## One event -/

/-- A counter in effect takes one round and ends the negotiation exactly at the last one. -/
theorem RoundsTallied.counted (h : RoundsTallied past c) {call : ContractCall}
    {r : Contract × ContractOutput} (he : Effect F debug c call r)
    (hauthor : (counterAuthor ⟨c, call, r.2, r.1⟩).isSome) :
    r.1.rounds.toNat = c.rounds.toNat + 1 ∧
      (r.1.rounds = c.limits.maxRounds ↔ r.1.state.negotiating = false) := by
  have hlast (hopen : c.state.negotiating = true)
      (hreached : c.limits.maxRounds ≤ saturatingSucc c.rounds) :
      saturatingSucc c.rounds = c.limits.maxRounds := by
    obtain ⟨hsucc, hle⟩ := h.toNat_rounds hopen
    exact UInt64.le_antisymm (UInt64.le_iff_toNat_le.mpr (hsucc.symm ▸ hle)) hreached
  cases he with
  | counter _ state last rounds =>
    have hopen : c.state.negotiating = true := by rcases state with h | h <;> rw [h] <;> rfl
    refine ⟨(h.toNat_rounds hopen).1, ?_⟩
    exact iff_of_false (fun heq => rounds (UInt64.le_of_eq heq.symm)) nofun
  | counterAmending _ state last rounds =>
    have hopen : c.state.negotiating = true := by rw [state]; rfl
    refine ⟨(h.toNat_rounds hopen).1, ?_⟩
    exact iff_of_false (fun heq => rounds (UInt64.le_of_eq heq.symm)) nofun
  | exhausted _ state last rounds =>
    have hopen : c.state.negotiating = true := by rcases state with h | h <;> rw [h] <;> rfl
    exact ⟨(h.toNat_rounds hopen).1, iff_of_true (hlast hopen rounds) rfl⟩
  | exhaustedAmending _ state last rounds =>
    have hopen : c.state.negotiating = true := by rw [state]; rfl
    refine ⟨(h.toNat_rounds hopen).1, iff_of_true (hlast hopen rounds) ?_⟩
    simp only
    split_ifs <;> rfl
  | accepted ruling | reworked ruling | reworkExhausted ruling | rejected ruling =>
    rw [(ruling.uncounted _ _).2.1] at hauthor
    cases hauthor
  | strayVote => cases hauthor
  | _ => cases hauthor

/-- Each field counts its events one by one. -/
structure Increments (e : ContractEvent) : Prop where
  rounds : (counterAuthor e).isSome → e.after.rounds.toNat = e.before.rounds.toNat + 1
  reworks : sentBack e = true → e.after.reworks.toNat = e.before.reworks.toNat + 1
  amendments : amended e = true → e.after.amendments.toNat = e.before.amendments.toNat + 1

theorem Effect.sentBack {call : ContractCall} {r : Contract × ContractOutput}
    (he : Effect F debug c call r) (hsent : sentBack ⟨c, call, r.2, r.1⟩ = true) :
    r.1.reworks.toNat = c.reworks.toNat + 1 := by
  simp only [Contract.sentBack, Bool.and_eq_true, decide_eq_true_eq] at hsent
  obtain ⟨hbefore, hafter⟩ := hsent
  cases he with
  | reworked ruling state reworks =>
    have hlt := UInt64.lt_iff_toNat_lt.mp (UInt64.not_le.mp reworks)
    have hmax := c.limits.maxRework.toNat_lt
    simp only [toNat_saturatingSucc]
    omega
  | accepted | reworkExhausted | rejected => cases hafter
  | counter _ state | exhausted _ state => rcases state with h | h <;> simp [h] at hbefore
  | agree _ state | withdraw _ state | expire state =>
    rcases state with h | h | h <;> simp [h] at hbefore
  | counterAmending _ state | exhaustedAmending _ state | freeze state | expireAmending state
  | submit _ state | proposeAmendment _ state | refuseAmendment _ state
  | awaitAmendment _ state | acceptAmendment _ state | strayVote _ state
  | assertFails _ state => simp [state] at hbefore

theorem WellKept.amended (h : c.WellKept F) {call : ContractCall}
    {r : Contract × ContractOutput} (he : Effect F debug c call r)
    (hamended : amended ⟨c, call, r.2, r.1⟩ = true) :
    r.1.amendments.toNat = c.amendments.toNat + 1 := by
  cases he with
  | acceptAmendment _ state =>
    have hlt := UInt64.lt_iff_toNat_lt.mp (h.amendable state)
    have hmax := c.limits.maxAmendments.toNat_lt
    simp only [toNat_saturatingSucc]
    omega
  | _ => cases hamended

theorem increments (hkept : c.WellKept F) (h : RoundsTallied past c) (call : ContractCall) :
    Increments ((contractMachine F debug).event c call) := by
  simp only [Machine.event, contractMachine]
  rcases step_effect F debug c call with ⟨e, hstep, he⟩ | heffect
  · rw [hstep]
    refine ⟨fun hauthor => ?_, fun hsent => ?_, fun hamended => ?_⟩
    · rw [counterAuthor_refused c he] at hauthor
      cases hauthor
    · simp only [sentBack, Bool.and_eq_true, decide_eq_true_eq] at hsent
      simp [hsent.1] at hsent
    · cases hamended
  · exact ⟨fun hauthor => (h.counted heffect hauthor).1, heffect.sentBack, hkept.amended heffect⟩

/-! ## The bounds -/

/-- A stretch of a run in which no amendment is proposed: it lies in one negotiation. -/
def WithinOne (stretch : List ContractEvent) : Prop := ∀ e ∈ stretch, amendmentProposed e = false

/-- A negotiation begins with the contract itself or with a proposed amendment. -/
def Opens (before : List ContractEvent) : Prop :=
  before = [] ∨ ∃ pre e, before = pre ++ [e] ∧ amendmentProposed e = true

theorem negotiation_append {before stretch : List ContractEvent} (h : WithinOne stretch) :
    negotiation (before ++ stretch) = negotiation before ++ stretch := by
  induction stretch using List.reverseRecOn with
  | nil => simp
  | append_singleton stretch e ih =>
    have he : amendmentProposed e = false := h e (by simp)
    have hrest : WithinOne stretch := fun x hx => h x (List.mem_append_left _ hx)
    rw [← List.append_assoc, negotiation_snoc he, ih hrest, List.append_assoc]

theorem Opens.negotiation {before : List ContractEvent} (h : Opens before) :
    negotiation before = [] := by
  rcases h with rfl | ⟨pre, e, rfl, he⟩
  · rfl
  · exact negotiation_proposed he

structure Bounded (limits : ContractLimits) (run : List ContractEvent) : Prop where
  submissions : run.countP submitted ≤ limits.maxRework.toNat + 1
  revisions : (run.map appended).sum ≤ limits.maxAmendments.toNat + 1
  rounds : ∀ before stretch after, run = before ++ stretch ++ after → WithinOne stretch →
    (counters stretch).length ≤ limits.maxRounds.toNat ∧ (counters stretch).IsChain (· ≠ ·)
  ends : ∀ before stretch e after, run = before ++ stretch ++ e :: after → Opens before →
    WithinOne stretch → (counterAuthor e).isSome →
    ((counters (stretch ++ [e])).length = limits.maxRounds.toNat ↔
      e.after.state.negotiating = false)
  increments : ∀ e ∈ run, Increments e

theorem Tallied.within {limits : ContractLimits} {before stretch : List ContractEvent}
    (h : Tallied limits (before ++ stretch) c) (hwithin : WithinOne stretch) :
    (counters stretch).length ≤ limits.maxRounds.toNat ∧ (counters stretch).IsChain (· ≠ ·) := by
  obtain ⟨hlimits, -, ⟨htally, -, halternate, hbounded, -⟩, -⟩ := h
  rw [negotiation_append hwithin, counters_append] at htally halternate
  rw [List.length_append] at htally
  have hle := UInt64.le_iff_toNat_le.mp hbounded
  rw [hlimits] at hle
  exact ⟨by omega, halternate.right_of_append⟩

theorem amendmentProposed_of_counter {e : ContractEvent} (h : (counterAuthor e).isSome) :
    amendmentProposed e = false := by
  obtain ⟨before, call, output, after⟩ := e
  cases call with
  | counter => rfl
  | _ => cases h

/-- The counters since the negotiation began reach the limit exactly when it ends. -/
theorem Tallied.ends {limits : ContractLimits} {before stretch : List ContractEvent}
    {call : ContractCall}
    (h : Tallied limits (before ++ stretch ++ [(contractMachine F debug).event c call])
      (contractStep F debug c call).1)
    (hrounds : RoundsTallied (before ++ stretch) c) (hopens : Opens before)
    (hwithin : WithinOne stretch)
    (hauthor : (counterAuthor ((contractMachine F debug).event c call)).isSome) :
    (counters (stretch ++ [(contractMachine F debug).event c call])).length =
        limits.maxRounds.toNat ↔
      ((contractMachine F debug).event c call).after.state.negotiating = false := by
  have hproposed := amendmentProposed_of_counter hauthor
  have htally := h.rounds.tally
  rw [negotiation_snoc hproposed, negotiation_append hwithin, hopens.negotiation,
    List.nil_append] at htally
  rw [htally, ← h.limits, UInt64.toNat_inj]
  simp only [Machine.event, contractMachine] at hauthor ⊢
  rcases step_effect F debug c call with ⟨e, hstep, he⟩ | heffect
  · rw [hstep, counterAuthor_refused c he] at hauthor
    cases hauthor
  · rw [heffect.limits]
    exact (hrounds.counted heffect hauthor).2

/-- Every run from a proposed contract stays within the limits. -/
theorem run_bounded {c₀ : Contract} (h : Proposed F c₀) (debug : Bool)
    (calls : List ContractCall) :
    Bounded c₀.limits ((contractMachine F debug).history c₀ calls) := by
  have hnow := h.tallied_exec debug calls
  refine ⟨?_, ?_, fun before stretch after hrun hwithin => ?_,
    fun before stretch e after hrun hopens hwithin hauthor => ?_, fun e he => ?_⟩
  · have hle := UInt64.le_iff_toNat_le.mp hnow.submissions.bounded
    rw [hnow.limits] at hle
    rw [hnow.submissions.tally]
    split_ifs <;> omega
  · have hkept := h.wellKept debug calls
    have hle := UInt64.le_iff_toNat_le.mp hkept.bounded
    rw [hnow.limits] at hle
    rw [hnow.revisions]
    rcases hkept.counted with ⟨hempty, -⟩ | hcount
    · simp [hempty]
    · omega
  · obtain ⟨pre, post, rfl, hpre, -⟩ := Machine.history_prefix _ hrun
    have hthen := h.tallied_exec debug pre
    rw [← hpre] at hthen
    exact hthen.within hwithin
  · obtain ⟨pre, call, post, rfl, hpre, rfl⟩ := Machine.history_split _ hrun
    have hthen := h.tallied_exec debug pre
    have hafter := hthen.step h.tallied.2 F debug call
    rw [← hpre] at hthen hafter
    exact hafter.ends hthen.rounds hopens hwithin hauthor
  · obtain ⟨pre, call, post, rfl, rfl⟩ := Machine.mem_history _ he
    exact increments (h.wellKept debug pre) (h.tallied_exec debug pre).rounds call

/-- A round of countering, two revisions, and work that goes back once and is then refused. -/
def reworkedCalls : List ContractCall :=
  let work : Submission := ⟨hexText (List.replicate 32 0), [], [], ""⟩
  [.counter "urn:hacp:agent:a", .counter "urn:hacp:agent:b"] ++ amendedCalls ++
    [.submit "urn:hacp:agent:b" work, .decide (.rework "lines"),
      .submit "urn:hacp:agent:b" work, .decide (.rework "lines")]

theorem run_bounded_collaboration :
    let c := (contractMachine Foreign.placeholder true).exec collaboration reworkedCalls
    (c.revisions.length = 2 ∧ c.amendments = 1 ∧ c.reworks = 1 ∧ c.state = .rejected) ∧
    Bounded collaboration.limits
      ((contractMachine Foreign.placeholder true).history collaboration reworkedCalls) :=
  ⟨by decide +kernel, run_bounded (proposed_collaboration Foreign.placeholder) true _⟩

end Contract
end Hacp.V2
