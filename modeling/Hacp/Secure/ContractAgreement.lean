import Hacp.Secure.ContractView
import Hacp.V2.ContractJson
import Hacp.V2.JsonReader
import Hacp.V2.RevisionDigest

/-!
# The view of contracts the engine reached

The contract engine and the guardian read one lifecycle: the engine as an
enumeration, the guardian as names in a file. When the file holds contracts the
engine reached, the view accepts the current digest of each; which of them let
the empty binding through is told by their states.
-/
namespace Hacp.Secure
open Lib V2 Std

def EngineReached (F : Foreign) (c : Contract) : Prop :=
  ∃ debug c₀, Contract.Proposed F c₀ ∧ (contractMachine F debug).Reachable c₀ c

theorem EngineReached.wellKept {F : Foreign} {c : Contract} (h : EngineReached F c) :
    c.WellKept F := by
  obtain ⟨debug, c₀, hproposed, calls, rfl⟩ := h
  exact hproposed.wellKept debug calls

/-- The entry of the file for a contract: the contract, or a record that wraps it. -/
def EntryFor (c : Contract) (p : String × Json) : Prop :=
  p.1 = c.contractId ∧ contractOf p.2 = c.toJson

/-- The state file of a session that holds these contracts, keyed by their identifiers. -/
structure Holds (state : Json) (context : String) (cs : List Contract) : Prop where
  session : sessionId state = some context
  contracts : ∃ members, (state.get? "contracts").bind Json.asObject = some members ∧
    List.Forall₂ EntryFor cs members

/-- Never frozen, and in a state the guardian takes for a negotiation. -/
def Starting (c : Contract) : Prop := c.revisions = [] ∧ c.state ≠ .agreed

def listed (r : Revision) : ListedRevision := ⟨UInt64.ofNat r.number, r.content, r.digest⟩

section Reading
variable {F : Foreign} {c : Contract} {entry : Json}

theorem asU64_nat {n : ℕ} (h : n < 2 ^ 64) : (Json.nat n).asU64 = some (UInt64.ofNat n) := by
  have hrange : 0 ≤ (n : ℤ) ∧ (n : ℤ) < 2 ^ 64 := ⟨Int.natCast_nonneg n, by exact_mod_cast h⟩
  rw [Json.nat, Json.asU64, if_pos hrange, Int.toNat_natCast]

theorem readRevision_toJson {r : Revision} (h : r.number < 2 ^ 64) :
    readRevision r.toJson = some (listed r) := by
  rw [readRevision_eq_some]
  refine ⟨?_, ?_, ?_⟩
  · have hnumber : r.toJson.get? "number" = some (.nat r.number) := by
      simp [Revision.toJson, Json.get?]
    rw [hnumber, Option.bind_some, asU64_nat h]
    rfl
  · simp [Revision.toJson, Json.get?, List.lookup_cons, listed]
  · simp [Revision.toJson, Json.get?, List.lookup_cons, Json.asStr, listed]

theorem stateName_of_entry (h : contractOf entry = c.toJson) :
    stateName (contractOf entry) = some c.state.name := by
  rw [stateName, h, Contract.toJson_state]
  rfl

theorem listedRevisions_of_entry (h : contractOf entry = c.toJson) :
    listedRevisions (contractOf entry) = some (c.revisions.map Revision.toJson) := by
  rw [listedRevisions, h, Contract.toJson_revisions]
  rfl

theorem limit_lt : limit < 2 ^ 64 := by
  norm_num [limit]

/-- The numbers of a list no longer than a file fit the type of a revision number. -/
theorem number_lt (hk : c.WellKept F) (hlen : c.revisions.length ≤ limit) {r : Revision}
    (hr : r ∈ c.revisions) : r.number < 2 ^ 64 := by
  obtain ⟨i, hi⟩ := List.mem_iff_getElem?.mp hr
  have hlt : i < c.revisions.length := (List.getElem?_eq_some_iff.mp hi).1
  have hle : r.number ≤ c.revisions.length := by
    rw [(hk.numbered i r hi).1]
    exact hlt
  exact (hle.trans hlen).trans_lt limit_lt

theorem toNat_listed (hk : c.WellKept F) (hlen : c.revisions.length ≤ limit) {r : Revision}
    (hr : r ∈ c.revisions) : (listed r).number.toNat = r.number := by
  have hlt := number_lt hk hlen hr
  rw [listed, UInt64.toNat_ofNat', Nat.mod_eq_of_lt (by omega)]

theorem lists_of_entry (hk : c.WellKept F) (hlen : c.revisions.length ≤ limit)
    (h : contractOf entry = c.toJson) (hrev : c.revisions ≠ []) :
    Lists (contractOf entry) (c.revisions.map listed) := by
  refine ⟨⟨_, listedRevisions_of_entry h, ?_⟩, by simpa using hrev⟩
  rw [List.map_map, List.map_map]
  apply List.map_congr_left
  intro r hr
  rw [Function.comp_apply, Function.comp_apply, readRevision_toJson (number_lt hk hlen hr)]

/-- The guardian counts exactly the contracts with a frozen revision. -/
theorem counted_iff (hk : c.WellKept F) (h : contractOf entry = c.toJson) :
    Counted (contractOf entry) ↔ c.revisions ≠ [] := by
  unfold Counted
  rw [stateName_of_entry h, listedRevisions_of_entry h]
  cases hstate : c.state with
  | proposed | countered | agreed | withdrawn =>
    have hnil := hk.unfrozen (by rw [hstate]; rfl)
    simp [hnil, ContractState.name, frozenStates]
  | executing | amending | verifying | settled | rejected =>
    have hne := hk.frozen (by rw [hstate]; rfl)
    simp [hne, ContractState.name, frozenStates]
  | noAgreement => simp [ContractState.name, frozenStates]

theorem recompute_revision (hk : c.WellKept F) (hlen : c.revisions.length ≤ limit) {r : Revision}
    (hr : r ∈ c.revisions) :
    recompute F c.contractId (listed r).number r.content = .ok r.digest := by
  obtain ⟨i, hi⟩ := List.mem_iff_getElem?.mp hr
  obtain ⟨hnumber, hdigest⟩ := hk.numbered i r hi
  rw [← hnumber, revisionDigest, mapError_eq_ok] at hdigest
  rw [recompute, mapError_eq_ok, toNat_listed hk hlen hr]
  exact hdigest

theorem binding_listed (hk : c.WellKept F) (hlen : c.revisions.length ≤ limit) {r : Revision}
    (hr : r ∈ c.revisions) : (listed r).binding = "sha256:" ++ r.digest := by
  rw [ListedRevision.binding]
  exact congrArg _ (bareDigest_of_recompute (recompute_revision hk hlen hr))

theorem consistent_revisions (hk : c.WellKept F) (hlen : c.revisions.length ≤ limit) :
    Consistent F c.contractId (c.revisions.map listed) := by
  constructor
  · rw [List.pairwise_map, List.pairwise_iff_getElem]
    intro i j hi hj hij
    have hni := (hk.numbered i _ (List.getElem?_eq_getElem hi)).1
    have hnj := (hk.numbered j _ (List.getElem?_eq_getElem hj)).1
    rw [UInt64.lt_iff_toNat_lt, toNat_listed hk hlen (List.getElem_mem hi),
      toNat_listed hk hlen (List.getElem_mem hj)]
    omega
  · intro l hl
    obtain ⟨r, hr, rfl⟩ := List.mem_map.mp hl
    have hcomp := recompute_revision hk hlen hr
    rw [ListedRevision.Matches, show (listed r).digest = r.digest from rfl,
      bareDigest_of_recompute hcomp]
    exact hcomp

theorem observeContract_of_kept (hk : c.WellKept F) (hlen : c.revisions.length ≤ limit)
    (h : contractOf entry = c.toJson) (obs : Observation) :
    ∃ obs', observeContract F c.contractId entry obs = .ok obs' ∧
      (obs'.bootstrap = true ↔ obs.bootstrap = true ∨ Starting c) := by
  by_cases hrev : c.revisions = []
  · have hno : stateName (contractOf entry) = some c.state.name := stateName_of_entry h
    have hempty : listedRevisions (contractOf entry) = some [] := by
      rw [listedRevisions_of_entry h, hrev]
      rfl
    unfold observeContract
    simp only [hno, hempty]
    cases hstate : c.state with
    | executing | amending | verifying | settled | rejected =>
      exact absurd hrev (hk.frozen (by rw [hstate]; rfl))
    | agreed => simp [ContractState.name, frozenStates, Starting, hstate]
    | proposed | countered => simp [ContractState.name, frozenStates, Starting, hstate, hrev]
    | withdrawn | noAgreement => simp [ContractState.name, Starting, hstate, hrev]
  · refine ⟨obs.add c.contractId (c.revisions.map listed), ?_, ?_⟩
    · rw [observeContract_of_counted ((counted_iff hk h).mpr hrev)]
      refine ⟨_, lists_of_entry hk hlen h hrev, ?_, consistent_revisions hk hlen, rfl⟩
      intro l hl
      obtain ⟨r, hr, rfl⟩ := List.mem_map.mp hl
      obtain ⟨i, hi⟩ := List.mem_iff_getElem?.mp hr
      have hnumber := (hk.numbered i r hi).1
      rw [UInt64.lt_iff_toNat_lt, toNat_listed hk hlen hr, UInt64.toNat_zero]
      omega
    · simp [Observation.add, Starting, hrev]

end Reading

/-! ## The text of the file -/

section Text
variable {c : Contract} {cs : List Contract} {context : String} {state entry : Json}

theorem revisions_le_weight (h : contractOf entry = c.toJson) :
    c.revisions.length ≤ entry.weight := by
  have hrevisions := Json.weight_get? (Contract.toJson_revisions c)
  have hcontract : (contractOf entry).weight ≤ entry.weight := by
    unfold contractOf
    cases hget : entry.get? "contract" with
    | none => exact Nat.le_refl _
    | some v => exact Json.weight_get? hget
  have hlength := Json.length_lt_weight (c.revisions.map Revision.toJson)
  rw [List.length_map] at hlength
  rw [h] at hcontract
  omega

/-- Entries of the file and contracts correspond. -/
theorem exists_entry {members : List (String × Json)} (h : List.Forall₂ EntryFor cs members)
    {c : Contract} (hc : c ∈ cs) : ∃ p ∈ members, EntryFor c p := by
  induction h with
  | nil => simp at hc
  | cons hp _ ih =>
    rcases List.mem_cons.mp hc with rfl | hc
    · exact ⟨_, List.mem_cons_self, hp⟩
    · obtain ⟨p, hmem, hp'⟩ := ih hc
      exact ⟨p, List.mem_cons_of_mem _ hmem, hp'⟩

theorem Holds.short (h : Holds state context cs) (hc : c ∈ cs) :
    c.revisions.length ≤ state.weight := by
  obtain ⟨-, members, hmembers, hentries⟩ := h
  obtain ⟨v, hv, hobject⟩ := Option.bind_eq_some_iff.mp hmembers
  obtain ⟨p, hp, hentry⟩ := exists_entry hentries hc
  obtain rfl : v = .object members := by
    cases v <;> cases hobject
    rfl
  exact (revisions_le_weight hentry.2).trans
    ((Json.weight_member hp).trans (Json.weight_get? hv))

end Text

/-- Contracts as the file holds them: reached by the engine, with distinct identifiers, and
no longer histories than fit into a file. -/
structure Holdable (F : Foreign) (cs : List Contract) : Prop where
  kept : ∀ c ∈ cs, c.WellKept F
  distinct : (cs.map Contract.contractId).Nodup
  short : ∀ c ∈ cs, c.revisions.length ≤ limit

section Agreement
variable {F : Foreign} {cs : List Contract}

theorem EntryFor.unique {p : String × Json} {c c' : Contract}
    (hcs : Holdable F cs) (hc : c ∈ cs) (hc' : c' ∈ cs) (h : EntryFor c p) (h' : EntryFor c' p) :
    c = c' :=
  List.inj_on_of_nodup_map hcs.distinct hc hc' (h.1.symm.trans h'.1)

theorem observeContracts_of_kept (hcs : Holdable F cs) {contracts : List (String × Json)}
    (h : ∀ p ∈ contracts, ∃ c ∈ cs, EntryFor c p) (obs : Observation) :
    ∃ obs', observeContracts F contracts obs = .ok obs' ∧
      (obs'.bootstrap = true ↔ obs.bootstrap = true ∨
        ∃ p ∈ contracts, ∃ c ∈ cs, EntryFor c p ∧ Starting c) := by
  induction contracts generalizing obs with
  | nil => exact ⟨obs, rfl, by simp⟩
  | cons p contracts ih =>
    obtain ⟨c, hc, hp⟩ := h p List.mem_cons_self
    obtain ⟨obs₁, h₁, hboot₁⟩ := observeContract_of_kept (hcs.kept c hc) (hcs.short c hc) hp.2 obs
    obtain ⟨obs₂, h₂, hboot₂⟩ := ih (fun p' hp' => h p' (List.mem_cons_of_mem _ hp')) obs₁
    refine ⟨obs₂, ?_, ?_⟩
    · rw [observeContracts, hp.1, h₁]
      exact h₂
    · have hhere : (∃ c ∈ cs, EntryFor c p ∧ Starting c) ↔ Starting c := by
        constructor
        · rintro ⟨c', hc', hp', hstart⟩
          exact hp.unique hcs hc hc' hp' ▸ hstart
        · exact fun hstart => ⟨c, hc, hp, hstart⟩
      rw [hboot₂, hboot₁, List.exists_mem_cons_iff, hhere, or_assoc]

theorem exists_contract {members : List (String × Json)} (h : List.Forall₂ EntryFor cs members)
    {p : String × Json} (hp : p ∈ members) : ∃ c ∈ cs, EntryFor c p := by
  induction h with
  | nil => simp at hp
  | cons hp' _ ih =>
    rcases List.mem_cons.mp hp with rfl | hp
    · exact ⟨_, List.mem_cons_self, hp'⟩
    · obtain ⟨c, hmem, hp⟩ := ih hp
      exact ⟨c, List.mem_cons_of_mem _ hmem, hp⟩

theorem Lists.eq_revisions {c : Contract} {entry : Json} {rs : List ListedRevision}
    (hk : c.WellKept F) (hlen : c.revisions.length ≤ limit) (h : contractOf entry = c.toJson)
    (hrs : Lists (contractOf entry) rs) : rs = c.revisions.map listed := by
  obtain ⟨⟨items, hitems, hread⟩, hne⟩ := hrs
  have hrev : c.revisions ≠ [] := by
    intro hnil
    rw [listedRevisions_of_entry h, hnil] at hitems
    obtain rfl : items = [] := (Option.some.inj hitems).symm
    exact hne (List.map_eq_nil_iff.mp hread.symm)
  obtain ⟨items', hitems', hread'⟩ := (lists_of_entry hk hlen h hrev).revisions
  obtain rfl := Option.some.inj (hitems.symm.trans hitems')
  exact List.map_injective_iff.mpr (Option.some_injective _) (hread.symm.trans hread')

/-- What the guardian counted are the contracts with a frozen revision, with their revisions. -/
def Counts (counted : List (String × List ListedRevision)) (cs : List Contract) : Prop :=
  ∀ q, q ∈ counted ↔ ∃ c ∈ cs, c.revisions ≠ [] ∧ q = (c.contractId, c.revisions.map listed)

section Counted
variable {counted : List (String × List ListedRevision)}

theorem Gathers.counts {contracts : List (String × Json)} (hcs : Holdable F cs)
    (hg : Gathers F contracts counted) (hentries : ∀ p ∈ contracts, ∃ c ∈ cs, EntryFor c p)
    (hcontracts : ∀ c ∈ cs, ∃ p ∈ contracts, EntryFor c p) : Counts counted cs := by
  intro q
  constructor
  · intro hq
    obtain ⟨entry, hentry, hcount, hlists⟩ := hg.listed q hq
    obtain ⟨c, hc, hid, hjson⟩ := hentries _ hentry
    exact ⟨c, hc, (counted_iff (hcs.kept c hc) hjson).mp hcount,
      Prod.ext hid (hlists.eq_revisions (hcs.kept c hc) (hcs.short c hc) hjson)⟩
  · rintro ⟨c, hc, hrev, rfl⟩
    obtain ⟨p, hp, hid, hjson⟩ := hcontracts c hc
    obtain ⟨rs, hrs, hlists⟩ := hg.all p hp ((counted_iff (hcs.kept c hc) hjson).mpr hrev)
    rwa [hlists.eq_revisions (hcs.kept c hc) (hcs.short c hc) hjson, hid] at hrs

theorem Counts.superseded (hcs : Holdable F cs) (h : Counts counted cs) (claimed : String) :
    (∀ q ∈ counted, ∀ l ∈ q.2.dropLast, claimed ≠ l.binding) ↔
      ∀ c ∈ cs, ∀ r ∈ c.revisions.dropLast, claimed ≠ "sha256:" ++ r.digest := by
  constructor
  · intro hall c hc r hr
    have hmem : r ∈ c.revisions := List.mem_of_mem_dropLast hr
    rw [← binding_listed (hcs.kept c hc) (hcs.short c hc) hmem]
    apply hall _ ((h _).mpr ⟨c, hc, List.ne_nil_of_mem hmem, rfl⟩)
    rw [← List.map_dropLast]
    exact List.mem_map_of_mem hr
  · intro hall q hq l hl
    obtain ⟨c, hc, -, rfl⟩ := (h q).mp hq
    rw [← List.map_dropLast] at hl
    obtain ⟨r, hr, rfl⟩ := List.mem_map.mp hl
    rw [binding_listed (hcs.kept c hc) (hcs.short c hc) (List.mem_of_mem_dropLast hr)]
    exact hall c hc r hr

theorem Counts.current (hcs : Holdable F cs) (h : Counts counted cs) (claimed : String) :
    (∃ q ∈ counted, ∃ l, q.2.getLast? = some l ∧ claimed = l.binding) ↔
      ∃ c ∈ cs, ∃ r, c.revisions.getLast? = some r ∧ claimed = "sha256:" ++ r.digest := by
  constructor
  · rintro ⟨q, hq, l, hlast, hclaim⟩
    obtain ⟨c, hc, -, rfl⟩ := (h q).mp hq
    rw [List.getLast?_map, Option.map_eq_some_iff] at hlast
    obtain ⟨r, hlast, rfl⟩ := hlast
    exact ⟨c, hc, r, hlast, hclaim.trans
      (binding_listed (hcs.kept c hc) (hcs.short c hc) (List.mem_of_getLast? hlast))⟩
  · rintro ⟨c, hc, r, hlast, hclaim⟩
    have hmem := List.mem_of_getLast? hlast
    refine ⟨_, (h _).mpr ⟨c, hc, List.ne_nil_of_mem hmem, rfl⟩, listed r, ?_,
      hclaim.trans (binding_listed (hcs.kept c hc) (hcs.short c hc) hmem).symm⟩
    rw [List.getLast?_map, hlast]
    rfl

theorem Counts.eq_nil_iff (h : Counts counted cs) : counted = [] ↔ ∀ c ∈ cs, c.revisions = [] := by
  rw [List.eq_nil_iff_forall_not_mem]
  constructor
  · intro hnone c hc
    by_contra hrev
    exact hnone _ ((h _).mpr ⟨c, hc, hrev, rfl⟩)
  · intro hnone q hq
    obtain ⟨c, hc, hrev, -⟩ := (h q).mp hq
    exact hrev (hnone c hc)

end Counted

/-- What the guardian accepts in a file of contracts the engine reached. -/
theorem contractView_accepts (hcs : Holdable F cs) {context : String} {state : Json} {size : ℕ}
    (hsize : size ≤ limit) (hstate : Holds state context cs) :
    ∃ view, contractView F context (.regular size (some state)) = .ok view ∧
      ∀ claimed, view.check F claimed = .ok () ↔
        (∀ c ∈ cs, ∀ r ∈ c.revisions.dropLast, claimed ≠ "sha256:" ++ r.digest) ∧
          ((∃ c ∈ cs, ∃ r, c.revisions.getLast? = some r ∧ claimed = "sha256:" ++ r.digest) ∨
            claimed = "" ∧ ((∃ c ∈ cs, Starting c) ∨ ∀ c ∈ cs, c.revisions = [])) := by
  obtain ⟨hsession, members, hmembers, hentries⟩ := hstate
  have hperm : ∀ p, p ∈ listedContracts state ↔ p ∈ members := by
    intro p
    rw [listedContracts, hmembers, Option.getD_some]
    exact (Json.sortMembers_perm members).mem_iff
  have hlisted : ∀ p ∈ listedContracts state, ∃ c ∈ cs, EntryFor c p := fun p hp =>
    exists_contract hentries ((hperm p).mp hp)
  obtain ⟨obs, hobs, hboot⟩ := observeContracts_of_kept hcs hlisted ⟨[], [], false⟩
  obtain ⟨counted, hg, haccepts⟩ := observeContracts_check hobs
  have hcounts : Counts counted cs := hg.counts hcs hlisted fun c hc => by
    obtain ⟨p, hp, hentry⟩ := exists_entry hentries hc
    exact ⟨p, (hperm p).mpr hp, hentry⟩
  have hstarting : obs.bootstrap = true ↔ ∃ c ∈ cs, Starting c := by
    rw [hboot]
    constructor
    · rintro (h | ⟨p, -, c, hc, -, hstart⟩)
      · cases h
      · exact ⟨c, hc, hstart⟩
    · rintro ⟨c, hc, hstart⟩
      obtain ⟨p, hp, hentry⟩ := exists_entry hentries hc
      exact .inr ⟨p, (hperm p).mpr hp, c, hc, hentry, hstart⟩
  refine ⟨obs.view, ?_, fun claimed => ?_⟩
  · have hfile : (SessionFile.regular size (some state)).state = .ok (some state) := by
      rw [SessionFile.state, if_neg (Nat.not_lt.mpr hsize)]
      rfl
    rw [contractView, hfile]
    simp only [bind, Except.bind, hsession, ne_eq, not_true_eq_false, if_false]
    rw [hobs]
  · rw [haccepts, hcounts.superseded hcs, hcounts.current hcs, hstarting, hcounts.eq_nil_iff]

/-- Without a collision among the hashed records, a digest names one revision. -/
theorem eq_of_digest (hcs : Holdable F cs) (hsha : Set.InjOn F.sha256 (hashedFor cs))
    {c c' : Contract} (hc : c ∈ cs) (hc' : c' ∈ cs) {r r' : Revision} (hr : r ∈ c.revisions)
    (hr' : r' ∈ c'.revisions) (h : r.digest = r'.digest) : c = c' ∧ r.number = r'.number := by
  obtain ⟨hid, hnumber, -⟩ := Contract.eq_of_digest hsha (hcs.kept c hc) (hcs.kept c' hc') hc hc'
    hr hr' h
  exact ⟨List.inj_on_of_nodup_map hcs.distinct hc hc' hid, hnumber⟩

/-- The current digest of a contract is that of no superseded revision. -/
theorem current_ne_superseded (hcs : Holdable F cs) (hsha : Set.InjOn F.sha256 (hashedFor cs))
    {c c' : Contract} (hc : c ∈ cs) (hc' : c' ∈ cs) {r r' : Revision}
    (hr : c.revisions.getLast? = some r) (hr' : r' ∈ c'.revisions.dropLast) :
    r.digest ≠ r'.digest := by
  intro h
  obtain ⟨rfl, hnumber⟩ := eq_of_digest hcs hsha hc hc' (List.mem_of_getLast? hr)
    (List.mem_of_mem_dropLast hr') h
  exact ((hcs.kept c hc).number_lt hr hr').ne' hnumber

/-- The view lets through what the engine's contracts may still send: the current digest of
each, and the empty binding while nothing is frozen or something never was. -/
structure AgreesWith (F : Foreign) (view : ContractView) (cs : List Contract) : Prop where
  current : ∀ c ∈ cs, ∀ digest, c.frozenDigest = some digest →
    view.check F ("sha256:" ++ digest) = .ok ()
  bootstrap : (∀ c ∈ cs, c.frozenDigest = none) ∨ (∃ c ∈ cs, c.frozenDigest = none) →
    view.check F "" = .ok ()

theorem frozenDigest_eq_none {c : Contract} : c.frozenDigest = none ↔ c.revisions = [] := by
  rw [Contract.frozenDigest, Option.map_eq_none_iff, List.getLast?_eq_none_iff]

/-- Every contract is without a frozen revision, or every one has one, or one that has none is in a
state the guardian takes for a negotiation. -/
def NoneOverlooked (cs : List Contract) : Prop :=
  (∀ c ∈ cs, c.revisions = []) ∨ (∀ c ∈ cs, c.revisions ≠ []) ∨
    ∃ c ∈ cs, c.revisions = [] ∧ c.state ≠ .agreed

/-- On contracts the engine reached the view exists; it agrees with them unless some are
frozen and every other one is agreed, a state `contract_view` does not take for a negotiation. -/
theorem contractView_agrees_of_value (hcs : Holdable F cs) {context : String} {state : Json}
    {size : ℕ} (hstate : Holds state context cs) (hsize : size ≤ limit)
    (hsha : Set.InjOn F.sha256 (hashedFor cs)) :
    (∃ view, contractView F context (.regular size (some state)) = .ok view ∧
        AgreesWith F view cs) ↔ NoneOverlooked cs := by
  obtain ⟨view, hview, haccepts⟩ := contractView_accepts hcs hsize hstate
  have hempty : view.check F "" = .ok () ↔
      (∃ c ∈ cs, Starting c) ∨ ∀ c ∈ cs, c.revisions = [] := by
    have hne (digest : String) : "" ≠ "sha256:" ++ digest := (binding_ne_empty digest).symm
    rw [haccepts]
    simp [hne]
  have hcurrent : ∀ c ∈ cs, ∀ digest, c.frozenDigest = some digest →
      view.check F ("sha256:" ++ digest) = .ok () := by
    intro c hc digest hdigest
    obtain ⟨r, hr, rfl⟩ := Option.map_eq_some_iff.mp hdigest
    rw [haccepts]
    refine ⟨fun c' hc' r' hr' heq => ?_, .inl ⟨c, hc, r, hr, rfl⟩⟩
    exact current_ne_superseded hcs hsha hc hc' hr hr' ((String.append_right_inj _).mp heq)
  constructor
  · rintro ⟨view', hview', hagrees⟩
    obtain rfl := Except.ok.inj (hview.symm.trans hview')
    by_cases hnone : ∃ c ∈ cs, c.revisions = []
    · rcases hempty.mp (hagrees.bootstrap (.inr (by simpa [frozenDigest_eq_none] using hnone)))
        with hstart | hall
      · exact .inr (.inr hstart)
      · exact .inl hall
    · exact .inr (.inl fun c hc hrev => hnone ⟨c, hc, hrev⟩)
  · intro h
    refine ⟨view, hview, hcurrent, fun hboot => hempty.mpr ?_⟩
    simp only [frozenDigest_eq_none] at hboot
    rcases h with hall | hfrozen | hstart
    · exact .inr hall
    · rcases hboot with hall | ⟨c, hc, hrev⟩
      · exact .inr hall
      · exact absurd hrev (hfrozen c hc)
    · exact .inl hstart

theorem holdable_of_text (hreached : ∀ c ∈ cs, EngineReached F c)
    (hdistinct : (cs.map Contract.contractId).Nodup) {context : String} {state : Json} {n : ℕ}
    {w : List Char} (htext : Denotes n w state) (hstate : Holds state context cs)
    (hsize : (asBytes (String.ofList w)).length ≤ limit) : Holdable F cs where
  kept c hc := (hreached c hc).wellKept
  distinct := hdistinct
  short c hc := by
    have hchars : w.length ≤ (asBytes (String.ofList w)).length := by
      have hlength := length_toList_le_asBytes (String.ofList w)
      rwa [String.toList_ofList] at hlength
    exact (hstate.short hc).trans (htext.weight_le.trans (hchars.trans hsize))

/-- A file nested deeper than the parser goes is refused. -/
theorem contractView_of_deep {parse : Bytes → Option Json} {context : String} {bytes : Bytes}
    (h : parse bytes = none) :
    contractView F context (.ofBytes parse bytes) = .error .contractMismatch := by
  have hfile : (SessionFile.ofBytes parse bytes).state = .error .contractMismatch := by
    rw [SessionFile.ofBytes, SessionFile.state, h]
    split_ifs <;> rfl
  rw [contractView, hfile]
  rfl

/-- The view of a file of contracts the engine reached agrees with them exactly when the file nests
no deeper than the parser goes and none of its contracts is overlooked: where some are frozen, one
that is agreed and not yet frozen is. -/
theorem contractView_agrees_iff {parse : Bytes → Option Json} (hreads : ReadsJson parse)
    (hdeep : RefusesDeep parse) (hreached : ∀ c ∈ cs, EngineReached F c)
    (hdistinct : (cs.map Contract.contractId).Nodup) {context : String} {state : Json} {n : ℕ}
    {w : List Char} (htext : Denotes n w state) (hname : state.unmarked = true)
    (hstate : Holds state context cs) (hsize : (asBytes (String.ofList w)).length ≤ limit)
    (hsha : Set.InjOn F.sha256 (hashedFor cs)) :
    (∃ view, contractView F context (.ofBytes parse (asBytes (String.ofList w))) = .ok view ∧
        AgreesWith F view cs) ↔
      state.depth ≤ 127 ∧ NoneOverlooked cs := by
  rcases Nat.lt_or_ge 127 state.depth with hlt | hle
  · rw [contractView_of_deep (hdeep n w state htext hlt)]
    refine iff_of_false ?_ fun h => absurd h.1 (Nat.not_le.mpr hlt)
    rintro ⟨view, hview, -⟩
    cases hview
  · have hparsed := hreads w state (htext.of_depth hle) hname
    have hcs := holdable_of_text hreached hdistinct htext hstate hsize
    rw [SessionFile.ofBytes, hparsed]
    exact (contractView_agrees_of_value hcs hstate hsize hsha).trans (iff_and_self.mpr fun _ => hle)

end Agreement

def stateFile (context : String) (cs : List Contract) : Json :=
  .object [("session", .object [("session_id", .string context)]),
    ("contracts", .object (cs.map fun c => (c.contractId, .object [("contract", c.toJson)])))]

theorem holds_stateFile (context : String) (cs : List Contract) :
    Holds (stateFile context cs) context cs := by
  refine ⟨?_, cs.map fun c => (c.contractId, .object [("contract", c.toJson)]), ?_, ?_⟩
  · simp [sessionId, stateFile, Json.get?, Json.asStr]
  · simp [stateFile, Json.get?, List.lookup_cons, Json.asObject]
  · rw [List.forall₂_map_right_iff, List.forall₂_same]
    intro c _
    exact ⟨rfl, by simp [contractOf, Json.get?]⟩

/-- Both parties agreed to the terms, and one of them froze the contract. -/
def frozenContract : Contract :=
  (contractMachine Foreign.placeholder true).exec Contract.collaboration
    [.agree "urn:hacp:agent:a" .null, .agree "urn:hacp:agent:b" .null, .freeze .null]

def agreedContract : Contract :=
  (contractMachine Foreign.placeholder true).exec
    { Contract.collaboration with contractId := "c-2" }
    [.agree "urn:hacp:agent:a" .null, .agree "urn:hacp:agent:b" .null]

theorem revisions_frozenContract :
    frozenContract.revisions = [⟨1, .null, hexLower (List.replicate 32 0)⟩] := by
  rfl

theorem revisions_agreedContract : agreedContract.revisions = [] := by
  rfl

theorem engineReached_examples :
    ∀ c ∈ [frozenContract, agreedContract], EngineReached Foreign.placeholder c := by
  rw [List.forall_mem_cons, List.forall_mem_singleton]
  constructor
  · exact ⟨true, _, Contract.proposed_collaboration _, _, rfl⟩
  · refine ⟨true, _, ?_, _, rfl⟩
    exact ⟨⟨"s-1", Contract.collaboration.participants, ∅, .active, ∅, none⟩, "c-2",
      Contract.collaboration.task, .collaboration, none, none, none, none, [],
      Contract.collaboration.limits, rfl⟩

theorem distinct_examples : ([frozenContract, agreedContract].map Contract.contractId).Nodup := by
  have hids : [frozenContract, agreedContract].map Contract.contractId = ["c-1", "c-2"] := rfl
  rw [hids]
  decide

/-- The set of those who agreed was emptied by the freeze; the other one is in the order of names. -/
theorem agreed_examples : frozenContract.agreedBy.sort byteLe = [] ∧
    agreedContract.agreedBy.sort byteLe = ["urn:hacp:agent:a", "urn:hacp:agent:b"] := by
  have hfrozen : frozenContract.agreedBy = ∅ := by decide +kernel
  have hagreed : agreedContract.agreedBy = {"urn:hacp:agent:a", "urn:hacp:agent:b"} := by
    decide +kernel
  have hsort := Finset.sort_insert byteLe (s := {"urn:hacp:agent:b"}) (a := "urn:hacp:agent:a")
    (by decide) (by decide)
  rw [Finset.sort_singleton] at hsort
  rw [hfrozen, hagreed]
  exact ⟨Finset.sort_empty byteLe, hsort⟩

theorem amending_examples : frozenContract.amendmentParticipants.sort byteLe = [] ∧
    agreedContract.amendmentParticipants.sort byteLe = [] := by
  have hfrozen : frozenContract.amendmentParticipants = ∅ := by decide +kernel
  have hagreed : agreedContract.amendmentParticipants = ∅ := by decide +kernel
  rw [hfrozen, hagreed]
  exact ⟨Finset.sort_empty byteLe, Finset.sort_empty byteLe⟩

def agreedFile : Json := stateFile "s-1" [frozenContract, agreedContract]

def agreedText : List Char := plainText agreedFile

/-- What is asked of the file, seen when the sets are written out. -/
theorem agreedFile_plain : (agreedFile.integersOnly = true ∧ agreedFile.unmarked = true) ∧
    agreedFile.depth ≤ 127 ∧ agreedText.length ≤ 2000 := by
  simp only [agreedText, agreedFile, stateFile, List.map_cons, List.map_nil, Contract.toJson,
    agreed_examples, amending_examples]
  decide +kernel

theorem agreedText_denotes : Denotes 127 agreedText agreedFile :=
  plainText_denotes _ agreedFile_plain.1.1 agreedFile_plain.2.1

theorem agreedText_short : (asBytes (String.ofList agreedText)).length ≤ limit := by
  have hbytes := length_asBytes_le (String.ofList agreedText)
  have hchars := agreedFile_plain.2.2
  rw [String.toList_ofList] at hbytes
  have hlimit : 8000 ≤ limit := by norm_num [limit]
  omega

theorem injOn_examples :
    Set.InjOn Foreign.placeholder.sha256 (hashedFor [frozenContract, agreedContract]) := by
  have hone : ∀ b ∈ hashedFor [frozenContract, agreedContract], ∃ text,
      canonicalJson (revisionRecord frozenContract.contractId 1 .null) = .ok text ∧
        asBytes text = b := by
    rintro b ⟨c, hc, r, hr, text, htext, hb⟩
    rcases List.mem_pair.mp hc with rfl | rfl
    · rw [revisions_frozenContract, List.mem_singleton] at hr
      subst hr
      exact ⟨text, htext, hb⟩
    · rw [revisions_agreedContract] at hr
      exact absurd hr List.not_mem_nil
  intro b hb b' hb' _
  obtain ⟨text, htext, rfl⟩ := hone b hb
  obtain ⟨text', htext', rfl⟩ := hone b' hb'
  rw [Except.ok.inj (htext.symm.trans htext')]

theorem contractView_agrees_iff_examples :
    (∃ view, contractView Foreign.placeholder "s-1"
        (.ofBytes readJson (asBytes (String.ofList agreedText))) = .ok view ∧
        AgreesWith Foreign.placeholder view [frozenContract, agreedContract]) ↔
      agreedFile.depth ≤ 127 ∧ NoneOverlooked [frozenContract, agreedContract] :=
  contractView_agrees_iff readJson_reads readJson_refuses engineReached_examples distinct_examples
    agreedText_denotes agreedFile_plain.1.2 (holds_stateFile _ _) agreedText_short injOn_examples

/-- Beside a frozen contract, one that is agreed and not yet frozen is overlooked: its messages
still claim the empty binding and the view refuses it. -/
theorem not_contractView_agrees :
    ¬ ∀ (F : Foreign) (parse : Bytes → Option Json) (cs : List Contract) (context : String)
        (state : Json) (w : List Char), ReadsJson parse → (∀ c ∈ cs, EngineReached F c) →
      (cs.map Contract.contractId).Nodup → Denotes 127 w state → state.unmarked = true →
      Holds state context cs → (asBytes (String.ofList w)).length ≤ limit →
      Set.InjOn F.sha256 (hashedFor cs) →
      ∃ view, contractView F context (.ofBytes parse (asBytes (String.ofList w))) = .ok view ∧
        AgreesWith F view cs := by
  intro h
  have hagrees := h _ readJson _ "s-1" _ agreedText readJson_reads engineReached_examples
    distinct_examples agreedText_denotes agreedFile_plain.1.2 (holds_stateFile _ _) agreedText_short
    injOn_examples
  rw [SessionFile.ofBytes, readJson_reads _ _ agreedText_denotes agreedFile_plain.1.2] at hagrees
  have hcs := holdable_of_text engineReached_examples distinct_examples agreedText_denotes
    (holds_stateFile _ _) agreedText_short
  rcases (contractView_agrees_of_value hcs (holds_stateFile _ _) agreedText_short
    injOn_examples).mp hagrees with hall | hfrozen | ⟨c, hc, hrev, hstate⟩
  · have hrev := hall frozenContract (by simp)
    rw [revisions_frozenContract] at hrev
    cases hrev
  · exact hfrozen agreedContract (by simp) revisions_agreedContract
  · rcases List.mem_pair.mp hc with rfl | rfl
    · rw [revisions_frozenContract] at hrev
      cases hrev
    · exact hstate rfl

end Hacp.Secure
