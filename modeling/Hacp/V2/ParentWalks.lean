import Hacp.V2.EscalationLadder

/-!
# Walks along declared parents

The checked chain of an agent exists exactly when following parents from it never
repeats a node, and is then the whole way up to a root. A chart validates exactly when
every such walk ends and all its entries name agents.
-/
namespace Hacp.V2
open Lib Std

namespace OrgChart
variable {org : OrgChart} {agent : String} {path : List String}

/-- The agent met after `n` steps from `agent` along the declared parents. -/
def ancestor (org : OrgChart) (agent : String) (n : ℕ) : Option String :=
  climb (fun x => org.parentOf[x]?) n agent

def NeverRepeats (org : OrgChart) (agent : String) : Prop :=
  ∀ i j x, org.ancestor agent i = some x → org.ancestor agent j = some x → i = j

/-- From the agent to a root, each next agent the declared parent of the one before. -/
structure WholeChain (org : OrgChart) (agent : String) (path : List String) : Prop where
  starts : path.head? = some agent
  climbs : path.IsChain fun x y => org.parentOf[x]? = some y
  ends : ∃ root, path.getLast? = some root ∧ org.parentOf[root]? = none
  nodup : path.Nodup

def NamesAgents (org : OrgChart) : Prop :=
  ∀ child parent, org.parentOf[child]? = some parent →
    (∃ name, AgentUrn.parse child = .ok name) ∧ ∃ name, AgentUrn.parse parent = .ok name

theorem neverRepeats_of_lineage (h : Lineage (fun x => org.parentOf[x]?) agent path) :
    org.NeverRepeats agent := by
  intro i j x hi hj
  rw [ancestor, h.climb_eq] at hi hj
  have hlt : i < path.length := (List.getElem?_eq_some_iff.mp hi).1
  exact (List.getElem?_inj hlt h.nodup).mp (hi.trans hj.symm)

/-- A cycle on the way is met again after one more round. -/
theorem NeverRepeats.not_meetsCycle (h : org.NeverRepeats agent) : ¬org.MeetsCycle agent := by
  rintro ⟨x, hx, hcycle⟩
  obtain ⟨n, hn⟩ := climb_of_path hx
  obtain ⟨m, hm⟩ := climb_of_above hcycle
  have hagain : org.ancestor agent (n + (m + 1)) = some x := by
    rw [ancestor, climb_add, hn]
    exact hm
  have heq := h n (n + (m + 1)) x hn hagain
  omega

theorem checkedChain_ok_iff_neverRepeats :
    (∃ path, org.checkedChain agent = .ok path) ↔ org.NeverRepeats agent := by
  constructor
  · rintro ⟨path, hpath⟩
    exact neverRepeats_of_lineage (checkedChain_lineage hpath)
  · intro h
    exact checkedChain_ok_iff.mpr h.not_meetsCycle

theorem wholeChain_of_ok (h : org.checkedChain agent = .ok path) : org.WholeChain agent path := by
  have hlineage := checkedChain_lineage h
  obtain ⟨hhead, hchain, hroot⟩ := Lineage.iff_chain.mp hlineage
  refine ⟨hhead, hchain, ?_, hlineage.nodup⟩
  cases hlast : path.getLast? with
  | none =>
    rw [List.getLast?_eq_none_iff] at hlast
    simp [hlast] at hhead
  | some root => exact ⟨root, rfl, hroot root hlast⟩

/-- A chart validates exactly when it is a forest of agents. -/
theorem validate_ok_iff (org : OrgChart) : org.validate = .ok () ↔ org.Acyclic ∧ org.NamesAgents := by
  have hentry (p : String × String) : p ∈ org.parentOf.toList ↔ org.parentOf[p.1]? = some p.2 :=
    ExtTreeMap.mem_toList_iff_getElem?_eq_some
  constructor
  · intro h
    refine ⟨acyclic_of_validate h, fun child parent hparent => ?_⟩
    obtain ⟨hchild, hname, -⟩ := validateEntries_eq_ok.mp h (child, parent) ((hentry _).mpr hparent)
    exact ⟨hchild, hname⟩
  · rintro ⟨hacyclic, hnames⟩
    refine validateEntries_eq_ok.mpr fun p hp => ?_
    obtain ⟨hchild, hparent⟩ := hnames p.1 p.2 ((hentry p).mp hp)
    exact ⟨hchild, hparent, checkedChain_ok_iff.mpr (hacyclic.not_meetsCycle p.1)⟩

/-- The walk of `checked_chain` ends on every chart, with the whole chain exactly when no
node repeats; `validate` accepts exactly the forests of agents. -/
theorem parent_walks (org : OrgChart) :
    (∀ agent, (∃ r, Loop.Returns org.checkedChainTurn ([agent], agent) r ∧
          org.checkedChain agent = r) ∧
        ((∃ path, org.checkedChain agent = .ok path) ↔ org.NeverRepeats agent) ∧
        ∀ path, org.checkedChain agent = .ok path → org.WholeChain agent path) ∧
      (org.validate = .ok () ↔ org.Acyclic ∧ org.NamesAgents) := by
  refine ⟨fun agent => ⟨?_, checkedChain_ok_iff_neverRepeats, fun _ => wholeChain_of_ok⟩,
    validate_ok_iff org⟩
  obtain ⟨r, hr⟩ := GrantLedger.checkedChain_loop_returns org agent
  refine ⟨r, ⟨_, hr⟩, ?_⟩
  rw [checkedChain, hr]
  rfl

end OrgChart
end Hacp.V2
