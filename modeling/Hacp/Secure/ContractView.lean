import Hacp.Secure.Transport

/-!
# The contract view

Before a message is released the guardian reads `.hacp/session.json`, a file any
process of the user can write, and recomputes the digest of every frozen revision
it lists. The view says which bindings a message may claim. Nothing in the file
is trusted beyond that: a binding is accepted only if it is the recomputed digest
of a last revision, and every listed revision is consistent with its own digest.
-/
namespace Hacp.Secure
open Lib V2 Std

/-- What one read of `.hacp/session.json` finds. -/
inductive SessionFile where
  | notFound
  /-- `open` fails for another reason, the file is not a regular one, or a read fails. -/
  | unreadable
  /-- A regular file of this many bytes, and the value they parse to if they do. -/
  | regular (size : ℕ) (value : Option Json)

/-- The longest file or request the guardian reads. -/
def limit : ℕ := 16 * 1024 * 1024

/-- The value of `ok_or(SecureError::ContractMismatch)`. -/
def orMismatch {α : Type} (v : Option α) : Except SecureError α :=
  match v with
  | some a => .ok a
  | none => .error .contractMismatch

@[simp] theorem orMismatch_eq_ok {α : Type} {v : Option α} {a : α} :
    orMismatch v = .ok a ↔ v = some a := by
  cases v <;> simp [orMismatch]

def SessionFile.ofBytes (parse : Bytes → Option Json) (bytes : Bytes) : SessionFile :=
  .regular bytes.length (parse bytes)

def SessionFile.state : SessionFile → Except SecureError (Option Json)
  | .notFound => .ok none
  | .unreadable => .error .contractMismatch
  | .regular size value =>
    if limit < size then .error .contractMismatch
    else do
      let state ← orMismatch value
      .ok (some state)

/-- `state.pointer("/session/session_id").and_then(Value::as_str)`. -/
def sessionId (state : Json) : Option String :=
  ((state.get? "session").bind (Json.get? "session_id")).bind Json.asStr

/-- The contracts of the state in the order of their keys. -/
def listedContracts (state : Json) : List (String × Json) :=
  Json.sortMembers (((state.get? "contracts").bind Json.asObject).getD [])

/-- The contract of an entry, which may wrap it. -/
def contractOf (entry : Json) : Json := (entry.get? "contract").getD entry

def stateName (c : Json) : Option String := (c.get? "state").bind Json.asStr

def listedRevisions (c : Json) : Option (List Json) := (c.get? "revisions").bind Json.asArray

/-- The states in which a contract has a frozen revision. -/
def frozenStates : List String :=
  ["executing", "verifying", "amending", "settled", "rejected", "noagreement"]

structure ListedRevision where
  number : UInt64
  content : Json
  digest : String

def readRevision (revision : Json) : Option ListedRevision := do
  let number ← (revision.get? "number").bind Json.asU64
  let content ← revision.get? "content"
  let digest ← (revision.get? "digest").bind Json.asStr
  some ⟨number, content, digest⟩

structure Observation where
  observed : List ContractView
  superseded : List String
  bootstrap : Bool

section View
variable (F : Foreign)

def recompute (id : String) (number : UInt64) (content : Json) : Except SecureError String :=
  (digestOf F (.object [("contract_id", .string id),
    ("revision", .number (.integer number.toNat)), ("content", content)])).mapError
      fun _ => .contractMismatch

/-- One turn of the loop over the revisions: a consistent revision above the previous number,
with its recomputed digest. -/
def checkRevision (id : String) (previous : UInt64) (revision : Json) :
    Except SecureError ListedRevision := do
  let number ← orMismatch (((revision.get? "number").bind Json.asU64).filter (previous < ·))
  let content ← orMismatch (revision.get? "content")
  let digest ← orMismatch ((revision.get? "digest").bind Json.asStr)
  let computed ← recompute F id number content
  if ContractView.bareDigest digest ≠ computed then .error .contractMismatch
  else .ok ⟨number, content, computed⟩

def observeRevisions (id : String) (previous : UInt64) (obs : Observation) :
    List Json → Except SecureError Observation
  | [] => .ok obs
  | revision :: revisions => do
    let r ← checkRevision F id previous revision
    let obs := if revisions.isEmpty then
        { obs with observed := obs.observed ++ [.frozen id r.number r.content r.digest] }
      else { obs with superseded := obs.superseded ++ ["sha256:" ++ r.digest] }
    observeRevisions id r.number obs revisions

def observeContract (id : String) (entry : Json) (obs : Observation) :
    Except SecureError Observation :=
  let c := contractOf entry
  let contractState := stateName c
  let obs := { obs with
    bootstrap := obs.bootstrap || contractState ∈ [some "proposed", some "countered"] }
  if contractState ∈ [some "noagreement", some "withdrawn"] ∧
      (listedRevisions c).any List.isEmpty then .ok { obs with bootstrap := true }
  else if contractState = some "withdrawn" then .error .contractMismatch
  else if ¬contractState.any (· ∈ frozenStates) then .ok obs
  else do
    let revisions ← orMismatch ((listedRevisions c).filter (!·.isEmpty))
    observeRevisions F id 0 obs revisions

def observeContracts : List (String × Json) → Observation → Except SecureError Observation
  | [], obs => .ok obs
  | (id, entry) :: contracts, obs => do
    let obs ← observeContract F id entry obs
    observeContracts contracts obs

def Observation.view (obs : Observation) : ContractView :=
  match obs.observed, obs.superseded, obs.bootstrap with
  | [], [], _ => .bootstrap
  | [only], [], false => only
  | _, _, _ => .observed obs.observed obs.superseded obs.bootstrap

def contractView (context : String) (file : SessionFile) : Except SecureError ContractView := do
  match ← file.state with
  | none => .ok .bootstrap
  | some state =>
    if sessionId state ≠ some context then .ok .pending
    else
      let obs ← observeContracts F (listedContracts state) ⟨[], [], false⟩
      .ok obs.view

end View

/-- Whether the view counts a contract: it is recorded in a state after a freeze, and not
as a negotiation that ended without one. -/
def Counted (c : Json) : Prop :=
  (∃ name ∈ frozenStates, stateName c = some name) ∧
    ¬(stateName c = some "noagreement" ∧ (listedRevisions c).any List.isEmpty)

structure Lists (c : Json) (rs : List ListedRevision) : Prop where
  revisions : ∃ items, listedRevisions c = some items ∧ items.map readRevision = rs.map some
  nonempty : rs ≠ []

section Laws
variable {F : Foreign}

/-- The digest a revision carries is the recomputed one. -/
def ListedRevision.Matches (F : Foreign) (id : String) (r : ListedRevision) : Prop :=
  recompute F id r.number r.content = .ok (ContractView.bareDigest r.digest)

def ListedRevision.binding (r : ListedRevision) : String :=
  "sha256:" ++ ContractView.bareDigest r.digest

def ListedRevision.frozen (id : String) (r : ListedRevision) : ContractView :=
  .frozen id r.number r.content (ContractView.bareDigest r.digest)

/-- Revision numbers strictly increase and every carried digest is right. -/
structure Consistent (F : Foreign) (id : String) (rs : List ListedRevision) : Prop where
  increasing : rs.Pairwise fun r r' => r.number < r'.number
  matching : ∀ r ∈ rs, r.Matches F id

def Observation.add (obs : Observation) (id : String) (rs : List ListedRevision) : Observation :=
  { obs with
    observed := obs.observed ++ (rs.getLast?.map (ListedRevision.frozen id)).toList
    superseded := obs.superseded ++ rs.dropLast.map ListedRevision.binding }

theorem readRevision_eq_some {revision : Json} {r : ListedRevision} :
    readRevision revision = some r ↔
      (revision.get? "number").bind Json.asU64 = some r.number ∧
        revision.get? "content" = some r.content ∧
          (revision.get? "digest").bind Json.asStr = some r.digest := by
  unfold readRevision
  simp only [Option.bind_eq_bind, Option.bind_eq_some_iff (x := Option.bind _ _),
    Option.bind_eq_some_iff (x := revision.get? "content"), Option.some.injEq]
  constructor
  · rintro ⟨number, hn, content, hc, digest, hd, rfl⟩
    exact ⟨hn, hc, hd⟩
  · rintro ⟨hn, hc, hd⟩
    exact ⟨_, hn, _, hc, _, hd, rfl⟩

theorem checkRevision_eq_ok {id : String} {previous : UInt64} {revision : Json}
    {r : ListedRevision} :
    checkRevision F id previous revision = .ok r ↔
      ∃ listed, readRevision revision = some listed ∧ previous < listed.number ∧
        listed.Matches F id ∧ r = ⟨listed.number, listed.content,
          ContractView.bareDigest listed.digest⟩ := by
  unfold checkRevision
  simp only [bind_eq_ok, orMismatch_eq_ok, guard_eq_ok, Option.filter_eq_some_iff,
    decide_eq_true_eq, not_not, readRevision_eq_some]
  constructor
  · rintro ⟨number, ⟨hn, hlt⟩, content, hc, digest, hd, computed, hcomp, rfl, hr⟩
    exact ⟨⟨number, content, digest⟩, ⟨hn, hc, hd⟩, hlt, hcomp, (Except.ok.inj hr).symm⟩
  · rintro ⟨listed, ⟨hn, hc, hd⟩, hlt, hcomp, rfl⟩
    exact ⟨_, ⟨hn, hlt⟩, _, hc, _, hd, _, hcomp, rfl, rfl⟩

def Observation.addAll (obs : Observation) (counted : List (String × List ListedRevision)) :
    Observation :=
  counted.foldl (fun obs q => obs.add q.1 q.2) obs

def lastRevisions (counted : List (String × List ListedRevision)) :
    List (String × ListedRevision) :=
  counted.flatMap fun q => (q.2.getLast?.map fun r => (q.1, r)).toList

theorem mem_lastRevisions {counted : List (String × List ListedRevision)}
    {p : String × ListedRevision} :
    p ∈ lastRevisions counted ↔ ∃ q ∈ counted, q.1 = p.1 ∧ q.2.getLast? = some p.2 := by
  simp only [lastRevisions, List.mem_flatMap, Option.mem_toList, Option.map_eq_some_iff]
  constructor
  · rintro ⟨q, hq, r, hr, rfl⟩
    exact ⟨q, hq, rfl, hr⟩
  · rintro ⟨q, hq, hid, hr⟩
    exact ⟨q, hq, p.2, hr, Prod.ext hid rfl⟩

theorem Observation.observed_addAll (obs : Observation)
    (counted : List (String × List ListedRevision)) :
    (obs.addAll counted).observed =
      obs.observed ++ (lastRevisions counted).map fun p => p.2.frozen p.1 := by
  induction counted generalizing obs with
  | nil => simp [addAll, lastRevisions]
  | cons q counted ih =>
    have h := ih (obs.add q.1 q.2)
    cases hlast : q.2.getLast? with
    | none => simpa [addAll, add, lastRevisions, hlast] using h
    | some r => simpa [addAll, add, lastRevisions, hlast] using h

theorem Observation.superseded_addAll (obs : Observation)
    (counted : List (String × List ListedRevision)) :
    (obs.addAll counted).superseded = obs.superseded ++
      counted.flatMap fun q => q.2.dropLast.map ListedRevision.binding := by
  induction counted generalizing obs with
  | nil => simp [addAll]
  | cons q counted ih =>
    have h := ih (obs.add q.1 q.2)
    simpa [addAll, add] using h

theorem isEmpty_of_read {items : List Json} {rs : List ListedRevision}
    (h : items.map readRevision = rs.map some) : items.isEmpty = rs.isEmpty := by
  have hlen := congrArg List.length h
  simp only [List.length_map] at hlen
  rw [Bool.eq_iff_iff, List.isEmpty_iff_length_eq_zero, List.isEmpty_iff_length_eq_zero, hlen]

theorem Observation.add_cons (obs : Observation) (id : String) (r : ListedRevision)
    (rs : List ListedRevision) :
    obs.add id (r :: rs) =
      (if rs.isEmpty then { obs with observed := obs.observed ++ [r.frozen id] }
        else { obs with superseded := obs.superseded ++ [r.binding] }).add id rs := by
  cases rs with
  | nil => simp [add]
  | cons r' rs => simp [add]

/-- The loop over the revisions succeeds exactly on consistent revisions with numbers above
the previous one, and then adds the last as current and the others as superseded. -/
theorem observeRevisions_eq_ok {id : String} {previous : UInt64} {obs obs' : Observation}
    {items : List Json} :
    observeRevisions F id previous obs items = .ok obs' ↔
      ∃ rs, items.map readRevision = rs.map some ∧ (∀ r ∈ rs, previous < r.number) ∧
        Consistent F id rs ∧ obs' = obs.add id rs := by
  induction items generalizing previous obs with
  | nil =>
    constructor
    · intro h
      cases h
      exact ⟨[], rfl, by simp, ⟨.nil, by simp⟩, by simp [Observation.add]⟩
    · rintro ⟨rs, hrs, -, -, rfl⟩
      obtain rfl : rs = [] := by simpa using hrs.symm
      simp [observeRevisions, Observation.add]
  | cons revision items ih =>
    rw [observeRevisions, bind_eq_ok]
    simp only [checkRevision_eq_ok, ih]
    constructor
    · rintro ⟨_, ⟨r, hread, hlt, hmatch, rfl⟩, rs, hrs, habove, hcons, rfl⟩
      refine ⟨r :: rs, by simp [hread, hrs], ?_, ⟨.cons habove hcons.increasing, ?_⟩, ?_⟩
      · intro r' hr'
        rcases List.mem_cons.mp hr' with rfl | hr'
        · exact hlt
        · exact lt_trans hlt (habove r' hr')
      · intro r' hr'
        rcases List.mem_cons.mp hr' with rfl | hr'
        · exact hmatch
        · exact hcons.matching r' hr'
      · rw [Observation.add_cons, isEmpty_of_read hrs]
        rfl
    · rintro ⟨rs, hrs, habove, hcons, rfl⟩
      cases rs with
      | nil => simp at hrs
      | cons r rs =>
        simp only [List.map_cons, List.cons.injEq] at hrs
        refine ⟨_, ⟨r, hrs.1, habove r List.mem_cons_self, hcons.matching r List.mem_cons_self,
          rfl⟩, rs, hrs.2, (List.pairwise_cons.mp hcons.increasing).1,
          ⟨(List.pairwise_cons.mp hcons.increasing).2,
            fun r' hr' => hcons.matching r' (List.mem_cons_of_mem _ hr')⟩, ?_⟩
        rw [Observation.add_cons, isEmpty_of_read hrs.2]
        rfl

theorem ne_of_frozenState {name : String} (h : name ∈ frozenStates) :
    name ≠ "proposed" ∧ name ≠ "countered" ∧ name ≠ "withdrawn" := by
  simp only [frozenStates, List.mem_cons, List.not_mem_nil, or_false] at h
  rcases h with rfl | rfl | rfl | rfl | rfl | rfl <;> simp

theorem observeContract_of_counted {id : String} {entry : Json} {obs obs' : Observation}
    (hc : Counted (contractOf entry)) :
    observeContract F id entry obs = .ok obs' ↔
      ∃ rs, Lists (contractOf entry) rs ∧ (∀ r ∈ rs, 0 < r.number) ∧ Consistent F id rs ∧
        obs' = obs.add id rs := by
  obtain ⟨⟨name, hname, hstate⟩, hended⟩ := hc
  obtain ⟨hp, hk, hw⟩ := ne_of_frozenState hname
  rw [hstate, Option.some.injEq] at hended
  simp only [observeContract, hstate, List.mem_cons, Option.some.injEq, hp, hk, hw,
    List.not_mem_nil, or_false, hended, if_false, Option.any_some, hname, decide_true,
    not_true_eq_false, decide_false, Bool.or_false, bind_eq_ok, orMismatch_eq_ok,
    Option.filter_eq_some_iff, observeRevisions_eq_ok]
  constructor
  · rintro ⟨items, ⟨hitems, hne⟩, rs, hrs, habove, hcons, rfl⟩
    refine ⟨rs, ⟨⟨items, hitems, hrs⟩, ?_⟩, habove, hcons, rfl⟩
    rintro rfl
    simp [isEmpty_of_read hrs] at hne
  · rintro ⟨rs, ⟨⟨items, hitems, hrs⟩, hne⟩, habove, hcons, rfl⟩
    refine ⟨items, ⟨hitems, ?_⟩, rs, hrs, habove, hcons, rfl⟩
    rw [isEmpty_of_read hrs]
    simp [hne]

/-- Any other contract leaves what was observed as it is. -/
theorem observed_of_not_counted {id : String} {entry : Json} {obs obs' : Observation}
    (hc : ¬Counted (contractOf entry)) (h : observeContract F id entry obs = .ok obs') :
    obs'.observed = obs.observed ∧ obs'.superseded = obs.superseded := by
  unfold observeContract at h
  by_cases hended : stateName (contractOf entry) ∈ [some "noagreement", some "withdrawn"] ∧
      (listedRevisions (contractOf entry)).any List.isEmpty
  · rw [if_pos hended] at h
    cases h
    exact ⟨rfl, rfl⟩
  · rw [if_neg hended, guard_eq_ok] at h
    by_cases hfrozen : (stateName (contractOf entry)).any (· ∈ frozenStates)
    · exfalso
      apply hc
      rw [Option.any_eq_true] at hfrozen
      obtain ⟨name, hstate, hname⟩ := hfrozen
      refine ⟨⟨name, of_decide_eq_true hname, hstate⟩, fun hno => hended ⟨?_, hno.2⟩⟩
      simp [hno.1]
    · rw [if_pos hfrozen] at h
      cases h.2
      exact ⟨rfl, rfl⟩

/-- The counted contracts of a list with their revisions: all of them, each consistent. -/
structure Gathers (F : Foreign) (contracts : List (String × Json))
    (counted : List (String × List ListedRevision)) : Prop where
  all : ∀ p ∈ contracts, Counted (contractOf p.2) →
    ∃ rs, (p.1, rs) ∈ counted ∧ Lists (contractOf p.2) rs
  consistent : ∀ q ∈ counted, Consistent F q.1 q.2
  listed : ∀ q ∈ counted, ∃ entry, (q.1, entry) ∈ contracts ∧ Counted (contractOf entry) ∧
    Lists (contractOf entry) q.2

theorem observeContracts_gathers {contracts : List (String × Json)} {obs obs' : Observation}
    (h : observeContracts F contracts obs = .ok obs') :
    ∃ counted, Gathers F contracts counted ∧
      obs'.observed = (obs.addAll counted).observed ∧
      obs'.superseded = (obs.addAll counted).superseded := by
  induction contracts generalizing obs with
  | nil =>
    cases h
    exact ⟨[], ⟨by simp, by simp, by simp⟩, rfl, rfl⟩
  | cons p contracts ih =>
    obtain ⟨id, entry⟩ := p
    rw [observeContracts, bind_eq_ok] at h
    obtain ⟨obs₁, h₁, h⟩ := h
    obtain ⟨counted, hg, hobs, hsup⟩ := ih h
    by_cases hc : Counted (contractOf entry)
    · obtain ⟨rs, hlists, -, hcons, rfl⟩ := (observeContract_of_counted hc).mp h₁
      refine ⟨(id, rs) :: counted, ⟨?_, ?_, ?_⟩, hobs, hsup⟩
      · intro p hp hcp
        rcases List.mem_cons.mp hp with rfl | hp
        · exact ⟨rs, List.mem_cons_self, hlists⟩
        · obtain ⟨rs', hmem, hlists'⟩ := hg.all p hp hcp
          exact ⟨rs', List.mem_cons_of_mem _ hmem, hlists'⟩
      · intro q hq
        rcases List.mem_cons.mp hq with rfl | hq
        · exact hcons
        · exact hg.consistent q hq
      · intro q hq
        rcases List.mem_cons.mp hq with rfl | hq
        · exact ⟨entry, List.mem_cons_self, hc, hlists⟩
        · obtain ⟨entry', hmem, hcounted⟩ := hg.listed q hq
          exact ⟨entry', List.mem_cons_of_mem _ hmem, hcounted⟩
    · obtain ⟨hobs₁, hsup₁⟩ := observed_of_not_counted hc h₁
      refine ⟨counted, ⟨?_, hg.consistent, ?_⟩, ?_, ?_⟩
      · intro p hp hcp
        rcases List.mem_cons.mp hp with rfl | hp
        · exact absurd hcp hc
        · exact hg.all p hp hcp
      · intro q hq
        obtain ⟨entry', hmem, hcounted⟩ := hg.listed q hq
        exact ⟨entry', List.mem_cons_of_mem _ hmem, hcounted⟩
      · rw [hobs, Observation.observed_addAll, Observation.observed_addAll, hobs₁]
      · rw [hsup, Observation.superseded_addAll, Observation.superseded_addAll, hsup₁]

theorem checkFrozen_eq_ok {id digest claimed : String} {number : UInt64} {content : Json} :
    ContractView.checkFrozen F id number content digest claimed = .ok () ↔
      recompute F id number content = .ok (ContractView.bareDigest digest) ∧
        claimed = "sha256:" ++ ContractView.bareDigest digest := by
  unfold ContractView.checkFrozen
  simp only [bind_eq_ok, guard_eq_ok, not_or, not_not]
  constructor
  · rintro ⟨computed, hcomp, ⟨rfl, hclaim⟩, -⟩
    exact ⟨hcomp, hclaim⟩
  · rintro ⟨hcomp, hclaim⟩
    exact ⟨_, hcomp, ⟨rfl, hclaim⟩, trivial⟩

/-- A recomputed digest has no algorithm prefix. -/
theorem bareDigest_of_recompute {id digest : String} {number : UInt64} {content : Json}
    (h : recompute F id number content = .ok digest) : ContractView.bareDigest digest = digest := by
  unfold recompute digestOf at h
  rw [mapError_eq_ok, bind_eq_ok] at h
  obtain ⟨canonical, -, h⟩ := h
  have hdigest : hexText (F.sha256 (asBytes canonical)) = digest := Except.ok.inj h
  unfold ContractView.bareDigest stripPrefix
  rw [if_neg, Option.getD_none]
  intro hprefix
  rw [List.isPrefixOf_iff_prefix] at hprefix
  obtain ⟨rest, hrest⟩ := hprefix
  have hs : 's' ∈ digest.toList := by
    rw [← hrest]
    exact List.mem_append_left _ (by simp)
  rw [← hdigest] at hs
  exact absurd (isLowerHex_of_mem_hexText hs) (by decide)

theorem ListedRevision.Matches.bare {id : String} {r : ListedRevision} (h : r.Matches F id) :
    ContractView.bareDigest (ContractView.bareDigest r.digest) =
      ContractView.bareDigest r.digest :=
  bareDigest_of_recompute h

theorem binding_ne_empty (digest : String) : "sha256:" ++ digest ≠ "" := by
  simp [String.append_eq_empty_iff]

/-- The view of a consistent revision accepts its own binding only. -/
theorem ListedRevision.Matches.check_eq_ok {id claimed : String} {r : ListedRevision}
    (h : r.Matches F id) : (r.frozen id).check F claimed = .ok () ↔ claimed = r.binding := by
  rw [ListedRevision.frozen, ContractView.check, checkFrozen_eq_ok, h.bare]
  exact ⟨fun hc => hc.2, fun hc => ⟨h, hc⟩⟩

/-- On consistent entries the loop of `check` tells whether one of them has the claimed
binding. -/
theorem checkCurrent_consistent (claimed : String) (entries : List (String × ListedRevision))
    (h : ∀ q ∈ entries, q.2.Matches F q.1) (matched : Bool) :
    ContractView.checkCurrent F claimed (entries.map fun q => q.2.frozen q.1) matched =
      .ok (matched || entries.any fun q => q.2.binding == claimed) := by
  induction entries generalizing matched with
  | nil => simp [ContractView.checkCurrent]
  | cons q entries ih =>
    have hq : q.2.Matches F q.1 := h q List.mem_cons_self
    have hbinding : "sha256:" ++ ContractView.bareDigest (ContractView.bareDigest q.2.digest) =
        q.2.binding := by
      rw [hq.bare]
      rfl
    have hcheck : ContractView.checkFrozen F q.1 q.2.number q.2.content
        (ContractView.bareDigest q.2.digest) q.2.binding = .ok () :=
      checkFrozen_eq_ok.mpr ⟨hq.bare.symm ▸ hq, hbinding.symm⟩
    rw [List.map_cons, ListedRevision.frozen, ContractView.checkCurrent, hbinding, hcheck]
    simp only [bind, Except.bind, List.any_cons]
    rw [ih (fun q' hq' => h q' (List.mem_cons_of_mem _ hq')), Bool.or_assoc]

/-- What the view of an observation accepts: no superseded binding, and either that of a
current entry or the empty one while something is still being negotiated. -/
theorem Observation.check_eq_ok {obs : Observation} {entries : List (String × ListedRevision)}
    (hobs : obs.observed = entries.map fun q => q.2.frozen q.1)
    (hmatch : ∀ q ∈ entries, q.2.Matches F q.1) (claimed : String) :
    obs.view.check F claimed = .ok () ↔
      claimed ∉ obs.superseded ∧ ((∃ q ∈ entries, claimed = q.2.binding) ∨
        claimed = "" ∧ (obs.bootstrap = true ∨ entries = [])) := by
  have hseveral :
      (ContractView.observed obs.observed obs.superseded obs.bootstrap).check F claimed = .ok () ↔
        claimed ∉ obs.superseded ∧ ((∃ q ∈ entries, claimed = q.2.binding) ∨
          claimed = "" ∧ (obs.bootstrap = true ∨ entries = [])) := by
    have hnil : obs.observed.isEmpty = true ↔ entries = [] := by
      rw [hobs, List.isEmpty_iff, List.map_eq_nil_iff]
    have hany : (entries.any fun q => q.2.binding == claimed) = true ↔
        ∃ q ∈ entries, claimed = q.2.binding := by
      rw [List.any_eq_true]
      simp only [beq_iff_eq, eq_comm (a := claimed)]
    have hcurrent : ContractView.checkCurrent F claimed obs.observed false =
        .ok (entries.any fun q => q.2.binding == claimed) := by
      rw [hobs, checkCurrent_consistent claimed entries hmatch, Bool.false_or]
    rw [ContractView.check, hcurrent]
    simp only [bind, Except.bind, guard_eq_ok, hany, hnil]
    by_cases hcur : (∃ q ∈ entries, claimed = q.2.binding) ∨
        claimed = "" ∧ (obs.bootstrap = true ∨ entries = [])
    · rw [if_pos hcur]
      exact ⟨fun hc => ⟨hc.1, hcur⟩, fun hc => ⟨hc.1, rfl⟩⟩
    · rw [if_neg hcur]
      simp only [hcur, and_false, iff_false]
      split_ifs <;> simp
  unfold Observation.view
  split
  · next hnil hsup =>
    have hentries : entries = [] := by simpa [hobs] using hnil
    simp [ContractView.check, hentries, hsup]
  · next only hone hsup hstart =>
    rw [hobs] at hone
    obtain ⟨q, rfl, rfl⟩ := List.map_eq_singleton_iff.mp hone
    rw [(hmatch q List.mem_cons_self).check_eq_ok, hsup, hstart]
    simp
  · exact hseveral

/-- What the view of a file accepts, told from the contracts it counts. -/
theorem observeContracts_check {contracts : List (String × Json)} {obs : Observation}
    (h : observeContracts F contracts ⟨[], [], false⟩ = .ok obs) :
    ∃ counted, Gathers F contracts counted ∧ ∀ claimed, obs.view.check F claimed = .ok () ↔
      (∀ q ∈ counted, ∀ r ∈ q.2.dropLast, claimed ≠ r.binding) ∧
        ((∃ q ∈ counted, ∃ r, q.2.getLast? = some r ∧ claimed = r.binding) ∨
          claimed = "" ∧ (obs.bootstrap = true ∨ counted = [])) := by
  obtain ⟨counted, hg, hcur, hsup⟩ := observeContracts_gathers h
  rw [Observation.observed_addAll, List.nil_append] at hcur
  rw [Observation.superseded_addAll, List.nil_append] at hsup
  refine ⟨counted, hg, fun claimed => ?_⟩
  have hmatch : ∀ p ∈ lastRevisions counted, p.2.Matches F p.1 := by
    intro p hp
    obtain ⟨q, hq, hid, hlast⟩ := mem_lastRevisions.mp hp
    exact hid ▸ (hg.consistent q hq).matching p.2 (List.mem_of_getLast? hlast)
  have hnone : lastRevisions counted = [] ↔ counted = [] := by
    constructor
    · intro hlast
      rw [List.eq_nil_iff_forall_not_mem] at hlast ⊢
      intro q hq
      obtain ⟨_, -, -, hlists⟩ := hg.listed q hq
      exact hlast (q.1, _) (mem_lastRevisions.mpr
        ⟨q, hq, rfl, List.getLast?_eq_some_getLast hlists.nonempty⟩)
    · rintro rfl
      rfl
  have hsuperseded : claimed ∉ obs.superseded ↔
      ∀ q ∈ counted, ∀ r ∈ q.2.dropLast, claimed ≠ r.binding := by
    rw [hsup]
    simp only [List.mem_flatMap, List.mem_map, not_exists, not_and, ne_eq, eq_comm (a := claimed)]
  have hcurrent : (∃ p ∈ lastRevisions counted, claimed = p.2.binding) ↔
      ∃ q ∈ counted, ∃ r, q.2.getLast? = some r ∧ claimed = r.binding := by
    constructor
    · rintro ⟨p, hp, hclaim⟩
      obtain ⟨q, hq, -, hlast⟩ := mem_lastRevisions.mp hp
      exact ⟨q, hq, p.2, hlast, hclaim⟩
    · rintro ⟨q, hq, r, hlast, hclaim⟩
      exact ⟨(q.1, r), mem_lastRevisions.mpr ⟨q, hq, rfl, hlast⟩, hclaim⟩
  rw [Observation.check_eq_ok hcur hmatch, hsuperseded, hcurrent, hnone]

/-- What the file says when it authorizes the binding `d` in a context. -/
structure Authorizes (F : Foreign) (state : Json) (context d : String) : Prop where
  names : sessionId state = some context
  /-- Every counted contract lists increasing revisions whose digests are right, and `d` is
  none of its superseded ones. -/
  consistent : ∀ p ∈ listedContracts state, Counted (contractOf p.2) →
    ∃ rs, Lists (contractOf p.2) rs ∧ Consistent F p.1 rs ∧ ∀ r ∈ rs.dropLast, d ≠ r.binding
  /-- `d` is the recomputed digest of the last revision of some counted contract. -/
  current : ∃ p ∈ listedContracts state, Counted (contractOf p.2) ∧
    ∃ rs r computed, Lists (contractOf p.2) rs ∧ rs.getLast? = some r ∧
      recompute F p.1 r.number r.content = .ok computed ∧ d = "sha256:" ++ computed

/-- No content of the file makes the guardian accept a binding other than the recomputed
digest of a last revision, in a file for this context that is consistent throughout. -/
theorem contractView_authorizes {context d : String} {file : SessionFile} {view : ContractView}
    (hview : contractView F context file = .ok view) (hd : d ≠ "")
    (hcheck : view.check F d = .ok ()) :
    ∃ state, file.state = .ok (some state) ∧ Authorizes F state context d := by
  unfold contractView at hview
  rw [bind_eq_ok] at hview
  obtain ⟨state, hfile, hview⟩ := hview
  cases state with
  | none =>
    cases hview
    simp [ContractView.check, hd] at hcheck
  | some state =>
    refine ⟨state, hfile, ?_⟩
    by_cases hctx : sessionId state = some context
    · simp only [hctx, ne_eq, not_true_eq_false, if_false, bind_eq_ok] at hview
      obtain ⟨obs, hobs, hview⟩ := hview
      cases hview
      obtain ⟨counted, hg, haccepts⟩ := observeContracts_check hobs
      obtain ⟨hnot, ⟨q, hq, r, hlast, hclaim⟩ | ⟨hempty, -⟩⟩ := (haccepts d).mp hcheck
      · refine ⟨hctx, ?_, ?_⟩
        · intro p hp hcp
          obtain ⟨rs, hrs, hlists⟩ := hg.all p hp hcp
          exact ⟨rs, hlists, hg.consistent _ hrs, hnot _ hrs⟩
        · obtain ⟨entry, hentry, hcounted, hlists⟩ := hg.listed q hq
          have hmatch := (hg.consistent q hq).matching r (List.mem_of_getLast? hlast)
          exact ⟨(q.1, entry), hentry, hcounted, q.2, r, _, hlists, hlast, hmatch, hclaim⟩
      · exact absurd hempty hd
    · simp only [ne_eq, hctx, not_false_eq_true, if_true] at hview
      cases hview
      simp [ContractView.check, hd] at hcheck

end Laws

/-- Hashes for one run: each text has its length in every byte of its hash. -/
def lengths : Foreign :=
  { Foreign.placeholder with sha256 := fun b => List.replicate 32 (UInt8.ofNat b.length) }

/-- A file with one executing contract, frozen and then amended. -/
def amendedFile : SessionFile :=
  .regular 300 (some (.object [
    ("contracts", .object [("c", .object [("contract", .object [
      ("revisions", .array [
        .object [("content", .null), ("digest", .string (hexLower (List.replicate 32 47))),
          ("number", .number (.integer 1))],
        .object [("content", .bool false), ("digest", .string (hexLower (List.replicate 32 48))),
          ("number", .number (.integer 2))]]),
      ("state", .string "executing")])])]),
    ("session", .object [("session_id", .string "s")])]))

theorem contractView_authorizes_amended :
    ∃ view, contractView lengths "s" amendedFile = .ok view ∧
      view.check lengths ("sha256:" ++ hexLower (List.replicate 32 47)) =
        .error .contractMismatch ∧
      ∃ state, amendedFile.state = .ok (some state) ∧
        Authorizes lengths state "s" ("sha256:" ++ hexLower (List.replicate 32 48)) := by
  have hview : contractView lengths "s" amendedFile = .ok (.observed
      [.frozen "c" 2 (.bool false) (hexLower (List.replicate 32 48))]
      ["sha256:" ++ hexLower (List.replicate 32 47)] false) := rfl
  have hcheck : (ContractView.observed
      [.frozen "c" 2 (.bool false) (hexLower (List.replicate 32 48))]
      ["sha256:" ++ hexLower (List.replicate 32 47)] false).check lengths
        ("sha256:" ++ hexLower (List.replicate 32 48)) = .ok () := by decide +kernel
  exact ⟨_, hview, by decide +kernel, contractView_authorizes hview (binding_ne_empty _) hcheck⟩

end Hacp.Secure
