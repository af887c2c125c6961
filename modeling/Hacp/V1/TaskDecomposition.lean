import Hacp.Lib.Checks
import Hacp.Text

/-!
# The decomposition of a run's goal

The goal is broken up into components, and roles take them on. A decomposition is
accepted when the roles divide the components among themselves: every component has
one role, every role has a component, and the count of agents is the count of roles.
-/
namespace Hacp.V1
open Lib

/-- The communication shape of a run. -/
inductive Topology where
  | solo
  | peer
  | federated
  deriving DecidableEq

def Topology.forAgentCount : ℕ → Topology
  | 0 | 1 => .solo
  | 2 => .peer
  | _ => .federated

structure Component where
  componentId : String
  /-- Artifact ids. -/
  produces : List String
  consumes : List String
  deriving DecidableEq

structure RoleSpec where
  roleId : String
  components : List String
  deriving DecidableEq

structure TaskDecomposition where
  components : List Component
  roles : List RoleSpec
  agentCount : ℕ
  topology : Topology
  /-- Why this many agents. -/
  rationale : String

inductive DecompositionError where
  | countMismatch (count roles : ℕ)
  | topologyMismatch (topology : Topology) (count : ℕ) (required : Topology)
  | unassignedComponent (id : String)
  | multiplyAssignedComponent (component : String) (count : ℕ)
  | unknownComponent (role component : String)
  | unproducedArtifact (consumer artifact : String)
  | missingRationale
  | emptyTeam
  | idleRole (id : String)
  deriving DecidableEq

namespace TaskDecomposition

/-- Every role has a component. -/
def checkIdle (r : RoleSpec) : Except DecompositionError Unit :=
  if r.components = [] then .error (.idleRole r.roleId) else .ok ()

/-- The component is assigned to exactly one role. -/
def checkAssigned (d : TaskDecomposition) (c : Component) : Except DecompositionError Unit :=
  match (d.roles.filter fun r => r.components.contains c.componentId).length with
  | 1 => .ok ()
  | 0 => .error (.unassignedComponent c.componentId)
  | n => .error (.multiplyAssignedComponent c.componentId n)

/-- The role names only components there are. -/
def checkKnown (d : TaskDecomposition) (r : RoleSpec) : Except DecompositionError Unit :=
  r.components.forM fun c =>
    if ¬d.components.any fun x => x.componentId = c then .error (.unknownComponent r.roleId c)
    else .ok ()

/-- Some component produces each artifact the component consumes. -/
def checkProduced (d : TaskDecomposition) (c : Component) : Except DecompositionError Unit :=
  c.consumes.forM fun want =>
    if ¬d.components.any fun x => x.produces.contains want then
      .error (.unproducedArtifact c.componentId want)
    else .ok ()

def validate (d : TaskDecomposition) : Except DecompositionError Unit :=
  let required := Topology.forAgentCount d.agentCount
  if d.agentCount ≠ d.roles.length then .error (.countMismatch d.agentCount d.roles.length)
  else if d.topology ≠ required then
    .error (.topologyMismatch d.topology d.agentCount required)
  else if isBlank d.rationale then .error .missingRationale
  else if d.roles = [] then .error .emptyTeam
  else do
    d.roles.forM checkIdle
    d.components.forM d.checkAssigned
    d.roles.forM d.checkKnown
    d.components.forM d.checkProduced

/-- The roles divide the components among themselves, and the team is of the right size. -/
structure HonestPartition (d : TaskDecomposition) : Prop where
  nonempty : ∀ r ∈ d.roles, r.components ≠ []
  disjoint : d.roles.Pairwise fun r s => r.components.Disjoint s.components
  covers : ∀ id, (∃ r ∈ d.roles, id ∈ r.components) ↔ ∃ c ∈ d.components, c.componentId = id
  someone : 1 ≤ d.agentCount
  agents_le : d.agentCount ≤ (d.components.map Component.componentId).toFinset.card
  topology : d.topology = Topology.forAgentCount d.agentCount
  produced : ∀ c ∈ d.components, ∀ want ∈ c.consumes, ∃ x ∈ d.components, want ∈ x.produces

variable {d : TaskDecomposition}

/-! ## What each check says -/

theorem checkIdle_ok {r : RoleSpec} : checkIdle r = .ok () ↔ r.components ≠ [] := by
  simp [checkIdle]

theorem checkAssigned_ok {c : Component} : d.checkAssigned c = .ok () ↔
    d.roles.countP (fun r => r.components.contains c.componentId) = 1 := by
  rw [checkAssigned, ← List.countP_eq_length_filter]
  split
  · rename_i hone
    exact iff_of_true rfl hone
  · rename_i hzero
    exact iff_of_false (by simp) (by rw [hzero]; decide)
  · rename_i hone _
    exact iff_of_false (by simp) hone

theorem checkKnown_ok {r : RoleSpec} : d.checkKnown r = .ok () ↔
    ∀ id ∈ r.components, ∃ c ∈ d.components, c.componentId = id := by
  rw [checkKnown, forM_eq_ok]
  simp

theorem checkProduced_ok {c : Component} : d.checkProduced c = .ok () ↔
    ∀ want ∈ c.consumes, ∃ x ∈ d.components, want ∈ x.produces := by
  rw [checkProduced, forM_eq_ok]
  simp

theorem validate_eq_ok : d.validate = .ok () ↔ d.agentCount = d.roles.length ∧
    d.topology = Topology.forAgentCount d.agentCount ∧ isBlank d.rationale = false ∧
    d.roles ≠ [] ∧ (∀ r ∈ d.roles, checkIdle r = .ok ()) ∧
    (∀ c ∈ d.components, d.checkAssigned c = .ok ()) ∧
    (∀ r ∈ d.roles, d.checkKnown r = .ok ()) ∧
    ∀ c ∈ d.components, d.checkProduced c = .ok () := by
  unfold validate
  simp only [guard_eq_ok, then_eq_ok, forM_eq_ok, ne_eq, not_not, Bool.not_eq_true]

/-! ## The partition -/

/-- At most one element satisfies `p` exactly when no two positions do. -/
theorem countP_le_one_iff {α : Type*} {p : α → Bool} {l : List α} :
    l.countP p ≤ 1 ↔ l.Pairwise fun a b => ¬(p a = true ∧ p b = true) := by
  induction l with
  | nil => simp
  | cons a l ih =>
    rw [List.pairwise_cons, List.countP_cons, ← ih]
    by_cases ha : p a = true
    · simp only [ha, if_true, true_and]
      rw [← List.countP_eq_zero]
      omega
    · simp [ha]

/-- No component is shared exactly when each is counted at most once. -/
theorem pairwise_disjoint_iff : (d.roles.Pairwise fun r s => r.components.Disjoint s.components) ↔
    ∀ id, d.roles.countP (fun r => r.components.contains id) ≤ 1 := by
  simp only [countP_le_one_iff, List.pairwise_iff_getElem, List.contains_iff_mem, not_and]
  constructor
  · intro h id i j hi hj hij hr hs
    exact h i j hi hj hij hr hs
  · intro h i j hi hj hij id hr hs
    exact h id i j hi hj hij hr hs

/-- The two scans of `validate`, components to roles and roles to components, find a
partition exactly when there is one. -/
theorem scans_iff : ((∀ c ∈ d.components, d.checkAssigned c = .ok ()) ∧
      ∀ r ∈ d.roles, d.checkKnown r = .ok ()) ↔
    (d.roles.Pairwise fun r s => r.components.Disjoint s.components) ∧
      ∀ id, (∃ r ∈ d.roles, id ∈ r.components) ↔ ∃ c ∈ d.components, c.componentId = id := by
  simp only [checkAssigned_ok, checkKnown_ok, pairwise_disjoint_iff]
  have hpos (id : String) : 0 < d.roles.countP (fun r => r.components.contains id) ↔
      ∃ r ∈ d.roles, id ∈ r.components := by
    simp [List.countP_pos_iff]
  constructor
  · rintro ⟨hassigned, hknown⟩
    refine ⟨fun id => ?_, fun id => ⟨?_, ?_⟩⟩
    · rcases Nat.eq_zero_or_pos (d.roles.countP fun r => r.components.contains id) with
        hzero | hsome
      · omega
      · obtain ⟨r, hr, hid⟩ := (hpos id).mp hsome
        obtain ⟨c, hc, rfl⟩ := hknown r hr id hid
        exact (hassigned c hc).le
    · rintro ⟨r, hr, hid⟩
      exact hknown r hr id hid
    · rintro ⟨c, hc, rfl⟩
      have hone := hassigned c hc
      exact (hpos c.componentId).mp (by omega)
  · rintro ⟨hdisjoint, hcovers⟩
    refine ⟨fun c hc => ?_, fun r hr id hid => (hcovers id).mp ⟨r, hr, hid⟩⟩
    have hle := hdisjoint c.componentId
    have hlt := (hpos c.componentId).mpr ((hcovers c.componentId).mpr ⟨c, hc, rfl⟩)
    omega

/-- Disjoint roles with a component each are no more than the components. -/
theorem roles_le (hnonempty : ∀ r ∈ d.roles, r.components ≠ [])
    (hdisjoint : d.roles.Pairwise fun r s => r.components.Disjoint s.components)
    (hcovers : ∀ id, (∃ r ∈ d.roles, id ∈ r.components) ↔
      ∃ c ∈ d.components, c.componentId = id) :
    d.roles.length ≤ (d.components.map Component.componentId).toFinset.card := by
  let first (r : RoleSpec) : String := r.components.headD ""
  have hfirst : ∀ r ∈ d.roles, first r ∈ r.components := by
    intro r hr
    obtain ⟨id, ids, hids⟩ := List.exists_cons_of_ne_nil (hnonempty r hr)
    simp [first, hids]
  have hnodup : (d.roles.map first).Nodup := by
    rw [List.Nodup, List.pairwise_map]
    refine hdisjoint.imp_of_mem fun {r s} hr hs hrs heq => ?_
    exact hrs (hfirst r hr) (heq ▸ hfirst s hs)
  rw [← List.length_map first, ← List.toFinset_card_of_nodup hnodup]
  refine Finset.card_le_card fun id hid => ?_
  obtain ⟨r, hr, rfl⟩ := List.mem_map.mp (List.mem_toFinset.mp hid)
  obtain ⟨c, hc, hname⟩ := (hcovers (first r)).mp ⟨r, hr, hfirst r hr⟩
  exact List.mem_toFinset.mpr (List.mem_map.mpr ⟨c, hc, hname⟩)

/-- A decomposition is valid exactly when it is an honest partition with a matching count
of roles and a rationale. -/
theorem validate_iff_honest (d : TaskDecomposition) : d.validate = .ok () ↔
    d.HonestPartition ∧ d.agentCount = d.roles.length ∧ isBlank d.rationale = false := by
  rw [validate_eq_ok]
  constructor
  · rintro ⟨hcount, htopology, hrationale, hteam, hidle, hassigned, hknown, hproduced⟩
    have hnonempty : ∀ r ∈ d.roles, r.components ≠ [] := fun r hr => checkIdle_ok.mp (hidle r hr)
    obtain ⟨hdisjoint, hcovers⟩ := scans_iff.mp ⟨hassigned, hknown⟩
    refine ⟨⟨hnonempty, hdisjoint, hcovers, ?_, ?_, htopology,
      fun c hc => checkProduced_ok.mp (hproduced c hc)⟩, hcount, hrationale⟩
    · rw [hcount]
      exact List.length_pos_of_ne_nil hteam
    · rw [hcount]
      exact roles_le hnonempty hdisjoint hcovers
  · rintro ⟨h, hcount, hrationale⟩
    obtain ⟨hassigned, hknown⟩ := scans_iff.mpr ⟨h.disjoint, h.covers⟩
    have hteam : d.roles ≠ [] := by
      have hsome := h.someone
      rw [hcount] at hsome
      exact List.ne_nil_of_length_pos hsome
    exact ⟨hcount, h.topology, hrationale, hteam,
      fun r hr => checkIdle_ok.mpr (h.nonempty r hr), hassigned, hknown,
      fun c hc => checkProduced_ok.mpr (h.produced c hc)⟩

end TaskDecomposition
end Hacp.V1
