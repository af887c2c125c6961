import Hacp.V2.PermitSoundness

/-!
# The lowest common supervisor

A declared chart may hold cycles and agents that are their own parent. The walk up from
an agent ends exactly when it meets no cycle; then its chain lists what stands above it.
The lowest common supervisor of two agents is the one below every other one they share,
and there is none exactly when a walk meets a cycle or the two share nobody.
-/
namespace Hacp.V2
open Lib Std

namespace OrgChart
variable {org : OrgChart} {a b s : String}

def ReportsTo (org : OrgChart) (agent parent : String) : Prop := org.parentOf[agent]? = some parent

/-- `upper` is met on the way up from `agent`, after at least one step. -/
def Above (org : OrgChart) (agent upper : String) : Prop :=
  Relation.TransGen org.ReportsTo agent upper

/-- The way up from `agent` comes to an agent that stands above itself. -/
def MeetsCycle (org : OrgChart) (agent : String) : Prop :=
  ∃ x, Relation.ReflTransGen org.ReportsTo agent x ∧ org.Above x x

/-- Where the walk is broken off, it has met a cycle. -/
theorem meetsCycle_of_error {e : GrantError} (h : org.checkedChain a = .error e) :
    org.MeetsCycle a := by
  obtain ⟨r, hr⟩ := GrantLedger.checkedChain_loop_returns org a
  have hpost : ∀ e, r = .error e → org.MeetsCycle a := by
    refine Loop.iterate_post (fun t => Relation.ReflTransGen org.ReportsTo a t.2 ∧
        ∀ x ∈ t.1, Relation.ReflTransGen org.ReportsTo a x ∧
          Relation.ReflTransGen org.ReportsTo x t.2)
      (fun r => ∀ e, r = .error e → org.MeetsCycle a) ?_ ?_ ?_ hr
    · rintro ⟨path, current⟩ t ⟨hcurrent, hpath⟩ hb
      simp only [checkedChainTurn] at hcurrent hpath hb
      cases hparent : org.parentOf[current]? with
      | none => simp [hparent] at hb
      | some parent =>
        simp only [hparent] at hb
        split_ifs at hb
        obtain rfl := Sum.inl.inj hb
        refine ⟨hcurrent.tail hparent, fun x hx => ?_⟩
        rcases List.mem_append.mp hx with hx | hx
        · exact ⟨(hpath x hx).1, (hpath x hx).2.tail hparent⟩
        · obtain rfl := List.mem_singleton.mp hx
          exact ⟨hcurrent.tail hparent, .refl⟩
    · rintro ⟨path, current⟩ r ⟨hcurrent, hpath⟩ hb e rfl
      simp only [checkedChainTurn] at hcurrent hpath hb
      cases hparent : org.parentOf[current]? with
      | none => simp [hparent] at hb
      | some parent =>
        simp only [hparent] at hb
        split_ifs at hb with hseen
        exact ⟨parent, (hpath parent hseen).1, .tail' (hpath parent hseen).2 hparent⟩
    · refine ⟨.refl, fun x hx => ?_⟩
      obtain rfl := List.mem_singleton.mp hx
      exact ⟨.refl, .refl⟩
  rw [checkedChain, hr] at h
  exact hpost e h

theorem not_meetsCycle {path : List String} (h : Lineage (fun x => org.parentOf[x]?) a path) :
    ¬org.MeetsCycle a := by
  rintro ⟨x, hx, hcycle⟩
  exact h.not_above_self (h.mem_iff.mpr hx) hcycle

/-- The checked chain of an agent whose way up meets no cycle lists who stands above it. -/
theorem checkedChain_of_acyclic (h : ¬org.MeetsCycle a) : ∃ path,
    org.checkedChain a = .ok path ∧ ∀ s, s ∈ path.drop 1 ↔ org.Above a s := by
  cases hchain : org.checkedChain a with
  | error e => exact (h (meetsCycle_of_error hchain)).elim
  | ok path => exact ⟨path, rfl, fun s => (checkedChain_lineage hchain).mem_drop_iff⟩

theorem checkedChain_ok_iff : (∃ path, org.checkedChain a = .ok path) ↔ ¬org.MeetsCycle a := by
  constructor
  · rintro ⟨path, hpath⟩
    exact not_meetsCycle (checkedChain_lineage hpath)
  · intro h
    obtain ⟨path, hpath, -⟩ := checkedChain_of_acyclic h
    exact ⟨path, hpath⟩

theorem lca_eq_none_iff : org.lca a b = none ↔
    org.MeetsCycle a ∨ org.MeetsCycle b ∨ ¬∃ s, org.Above a s ∧ org.Above b s := by
  by_cases ha : org.MeetsCycle a
  · cases hchain : org.checkedChain a with
    | error e => simp [lca, hchain, ha]
    | ok path => exact (not_meetsCycle (checkedChain_lineage hchain) ha).elim
  · by_cases hb : org.MeetsCycle b
    · cases hchain : org.checkedChain b with
      | error e => cases hchainA : org.checkedChain a <;> simp [lca, hchain, hchainA, hb]
      | ok path => exact (not_meetsCycle (checkedChain_lineage hchain) hb).elim
    · obtain ⟨pathA, hpathA, hmemA⟩ := checkedChain_of_acyclic ha
      obtain ⟨pathB, hpathB, hmemB⟩ := checkedChain_of_acyclic hb
      simp only [lca, hpathA, hpathB, ha, hb, false_or, List.find?_eq_none, hmemA, hmemB,
        decide_eq_true_eq, not_exists, not_and]

/-- What `lca` answers stands above both, below every other agent that does, and is neither. -/
theorem lca_spec (h : org.lca a b = some s) : ¬org.MeetsCycle a ∧ ¬org.MeetsCycle b ∧
    org.Above a s ∧ org.Above b s ∧
      ∀ x, org.Above a x → org.Above b x → x ≠ s → org.Above s x := by
  have hsome : ¬org.lca a b = none := by simp [h]
  rw [lca_eq_none_iff, not_or, not_or] at hsome
  obtain ⟨ha, hb, -⟩ := hsome
  obtain ⟨pathA, hpathA, hmemA⟩ := checkedChain_of_acyclic ha
  obtain ⟨pathB, hpathB, hmemB⟩ := checkedChain_of_acyclic hb
  have hcommon := lowestCommon_of_lca h
  have hA (x : String) : org.Supervises x a ↔ org.Above a x := by
    rw [← hmemA, mem_drop_iff (checkedChain_lineage hpathA)]
  have hB (x : String) : org.Supervises x b ↔ org.Above b x := by
    rw [← hmemB, mem_drop_iff (checkedChain_lineage hpathB)]
  refine ⟨ha, hb, (hA s).mp hcommon.left, (hB s).mp hcommon.right, fun x hxa hxb hne => ?_⟩
  obtain ⟨path, hpath, hx⟩ := hcommon.lowest x ((hA x).mpr hxa) ((hB x).mpr hxb)
  exact (Relation.reflTransGen_iff_eq_or_transGen.mp (hpath.mem_iff.mp hx)).resolve_left hne

theorem ne_of_above (h : ¬org.MeetsCycle a) (hs : org.Above a s) : s ≠ a := by
  rintro rfl
  exact h ⟨s, .refl, hs⟩

/-- On every chart `lca` ends, is symmetric, and answers with the lowest common supervisor;
it has no answer exactly where a walk meets a cycle or the two share nobody. -/
theorem lca_lowest_common_supervisor (org : OrgChart) (a b : String) :
    (∀ agent, ∃ r, Loop.iterate org.checkedChainTurn (org.parentOf.size + 1) ([agent], agent) =
        some r) ∧
      org.lca a b = org.lca b a ∧
      (org.lca a b = none ↔
        org.MeetsCycle a ∨ org.MeetsCycle b ∨ ¬∃ s, org.Above a s ∧ org.Above b s) ∧
      ∀ s, org.lca a b = some s → org.Above a s ∧ org.Above b s ∧ s ≠ a ∧ s ≠ b ∧
        ∀ x, org.Above a x → org.Above b x → x ≠ s → org.Above s x := by
  refine ⟨GrantLedger.checkedChain_loop_returns org, lca_comm org a b, lca_eq_none_iff,
    fun s hs => ?_⟩
  obtain ⟨ha, hb, hsa, hsb, hlowest⟩ := lca_spec hs
  exact ⟨hsa, hsb, ne_of_above ha hsa, ne_of_above hb hsb, hlowest⟩

end OrgChart
end Hacp.V2
