import Hacp.V1.InterfaceContract

/-!
# A valid interface contract can be built

The check for cycles accepts a contract exactly when its artifacts have a linear order
in which whatever an agent consumes comes before everything it produces.
-/
namespace Hacp.V1
open Lib Relation

namespace InterfaceContract
variable (c : InterfaceContract)

/-- A linear order of all artifacts in which every consumed artifact comes strictly before
each artifact of its consumer. -/
structure BuildOrder (order : List String) : Prop where
  perm : order.Perm (c.artifacts.map ArtifactSpec.artifactId)
  before : ∀ d ∈ c.dependencies, ∀ a ∈ c.artifacts, a.producedBy = d.consumer →
    order.idxOf d.consumes < order.idxOf a.artifactId

variable {c}

theorem mem_edges {x y : String} : (x, y) ∈ c.edges ↔ ∃ d ∈ c.dependencies, ∃ a ∈ c.artifacts,
    a.producedBy = d.consumer ∧ a.artifactId = x ∧ d.consumes = y := by
  simp only [edges, producedBy, List.mem_flatMap, List.mem_map, List.mem_filter,
    decide_eq_true_eq, Prod.mk.injEq]
  constructor
  · rintro ⟨d, hd, a, ⟨ha, hproduced⟩, hx, hy⟩
    exact ⟨d, hd, a, ha, hproduced, hx, hy⟩
  · rintro ⟨d, hd, a, ha, hproduced, hx, hy⟩
    exact ⟨d, hd, a, ⟨ha, hproduced⟩, hx, hy⟩

theorem edge_iff {x y : String} : Walk.Edge c.next x y ↔ (x, y) ∈ c.edges := by
  simp [Walk.Edge, next]

theorem edge_target {x y : String} (h : Walk.Edge c.next x y) :
    ∃ d ∈ c.dependencies, d.consumes = y := by
  obtain ⟨d, hd, -, -, -, -, hy⟩ := mem_edges.mp (edge_iff.mp h)
  exact ⟨d, hd, hy⟩

theorem known_nodes (starts : List String) : Walk.Known c.next
    (starts ++ c.dependencies.map Dependency.consumes).toFinset starts := by
  rintro y p ⟨x, hx, hpath⟩ -
  rw [List.mem_toFinset, List.mem_append, List.mem_map]
  rcases ReflTransGen.cases_tail hpath with rfl | ⟨z, -, hedge⟩
  · exact .inl hx
  · exact .inr (edge_target hedge)

/-- The check returns: without a fault it lists what the artifacts reach, each node after
those it points to. -/
theorem checkAcyclic_cases (c : InterfaceContract) :
    (c.checkAcyclic = .returns (.ok ()) ∧ ∃ w, Walk.Good c.next id w ∧
        ∀ y, y ∈ w.order ↔ Walk.Reached c.next (c.artifacts.map ArtifactSpec.artifactId) y) ∨
      ∃ x, c.checkAcyclic = .returns (.error (.dependencyCycle x)) ∧
        TransGen (Walk.Edge c.next) x x := by
  let starts := c.artifacts.map ArtifactSpec.artifactId
  have hcard : (starts ++ c.dependencies.map Dependency.consumes).toFinset.card <
      c.artifacts.length + c.dependencies.length + 1 := by
    have hle := List.toFinset_card_le (starts ++ c.dependencies.map Dependency.consumes)
    rw [List.length_append, List.length_map, List.length_map] at hle
    omega
  have hkey : ∀ x p, c.next x = .ok p → id p.2 = x := by
    intro x p hp
    obtain rfl := Except.ok.inj hp
    rfl
  have hcheck : c.checkAcyclic = (Walk.outcome (Walk.run c.next .dependencyCycle
      (c.artifacts.length + c.dependencies.length + 1) starts)).map
        (Except.map fun _ => ()) := rfl
  rcases Walk.run_cases ContractError.dependencyCycle hkey (known_nodes starts) hcard with
    ⟨w, hrun, hw, hlisted⟩ | ⟨e, hrun, y, -, hfault⟩
  · refine .inl ⟨by rw [hcheck, hrun]; rfl, w, hw, fun y => ?_⟩
    rw [← hlisted y, List.map_id]
  · rcases hfault with herror | ⟨rfl, hcycle⟩
    · cases herror
    · exact .inr ⟨y, by rw [hcheck, hrun]; rfl, hcycle⟩

/-- Along the edges a build order goes back. -/
theorem BuildOrder.index_lt {order : List String} (h : c.BuildOrder order) {x y : String}
    (hxy : TransGen (Walk.Edge c.next) x y) : order.idxOf y < order.idxOf x := by
  have hedge {x y : String} (hxy : Walk.Edge c.next x y) : order.idxOf y < order.idxOf x := by
    obtain ⟨d, hd, a, ha, hproduced, rfl, rfl⟩ := mem_edges.mp (edge_iff.mp hxy)
    exact h.before d hd a ha hproduced
  induction hxy with
  | single hxy => exact hedge hxy
  | tail _ hyz ih => exact (hedge hyz).trans ih

/-- The order in which a walk without a fault completes the artifacts is a build order. -/
theorem buildOrder_of_good (hunique : (c.artifacts.map ArtifactSpec.artifactId).Nodup)
    (hknown : ∀ d ∈ c.dependencies, (c.artifact d.consumes).isSome)
    {w : Walk String String} (hw : Walk.Good c.next id w)
    (hlisted : ∀ y, y ∈ w.order ↔
      Walk.Reached c.next (c.artifacts.map ArtifactSpec.artifactId) y) :
    c.BuildOrder w.order := by
  have hnodup : w.order.Nodup := by simpa using hw.nodup
  refine ⟨(List.perm_ext_iff_of_nodup hnodup hunique).mpr fun y => ?_, ?_⟩
  · rw [hlisted]
    refine ⟨?_, Walk.Reached.self⟩
    rintro ⟨x, hx, hpath⟩
    rcases ReflTransGen.cases_tail hpath with rfl | ⟨z, -, hedge⟩
    · exact hx
    · obtain ⟨d, hd, rfl⟩ := edge_target hedge
      obtain ⟨a, ha⟩ := Option.isSome_iff_exists.mp (hknown d hd)
      have hid : a.artifactId = d.consumes := by simpa using List.find?_some ha
      exact List.mem_map.mpr ⟨a, List.mem_of_find?_eq_some ha, hid⟩
  · intro d hd a ha hproduced
    have hedge : Walk.Edge c.next a.artifactId d.consumes :=
      edge_iff.mpr (mem_edges.mpr ⟨d, hd, a, ha, hproduced, rfl, rfl⟩)
    have hmem : a.artifactId ∈ w.order :=
      (hlisted _).mpr (.self (List.mem_map_of_mem ha))
    obtain ⟨l₁, l₂, hl⟩ := List.append_of_mem hmem
    have hbefore : d.consumes ∈ l₁ := by simpa using hw.entered hl hedge
    have hnot : a.artifactId ∉ l₁ := fun hin => by
      rw [hl] at hnodup
      exact List.disjoint_of_nodup_append hnodup hin List.mem_cons_self
    rw [hl, List.idxOf_append_of_mem hbefore, List.idxOf_append_of_notMem hnot,
      List.idxOf_cons_self]
    have hlt := List.idxOf_lt_length_of_mem hbefore
    omega

/-- With distinct artifacts and known dependencies the check accepts what can be built and
reports a cycle for everything else. -/
theorem acyclic_iff_buildable (c : InterfaceContract)
    (hunique : (c.artifacts.map ArtifactSpec.artifactId).Nodup)
    (hknown : ∀ d ∈ c.dependencies, (c.artifact d.consumes).isSome) :
    ∃ res, c.checkAcyclic = .returns res ∧
      (res = .ok () ↔ ∃ order, c.BuildOrder order) ∧
      ((∃ x, res = .error (.dependencyCycle x)) ↔ ¬∃ order, c.BuildOrder order) := by
  rcases checkAcyclic_cases c with ⟨hcheck, w, hw, hlisted⟩ | ⟨x, hcheck, hcycle⟩
  · have horder := buildOrder_of_good hunique hknown hw hlisted
    exact ⟨.ok (), hcheck, iff_of_true rfl ⟨_, horder⟩,
      iff_of_false (by simp) (not_not.mpr ⟨_, horder⟩)⟩
  · have hno : ¬∃ order, c.BuildOrder order := by
      rintro ⟨order, horder⟩
      exact absurd (horder.index_lt hcycle) (lt_irrefl _)
    exact ⟨.error (.dependencyCycle x), hcheck, iff_of_false (by simp) hno,
      iff_of_true ⟨x, rfl⟩ hno⟩

/-- Two workers, one of which consumes what the other produces. -/
def pipeline : InterfaceContract where
  contractId := "c-1"
  goal := "g"
  artifacts := [⟨"x", "urn:hacp:agent:a", "x", .file, none, [], [], none⟩,
    ⟨"y", "urn:hacp:agent:b", "y", .file, none, [], [], none⟩]
  dependencies := [⟨"urn:hacp:agent:b", "x"⟩]
  integration := none

theorem acyclic_iff_buildable_pipeline : (pipeline.artifacts.map ArtifactSpec.artifactId).Nodup ∧
    ∃ res, pipeline.checkAcyclic = .returns res ∧
      (res = .ok () ↔ ∃ order, pipeline.BuildOrder order) ∧
      ((∃ x, res = .error (.dependencyCycle x)) ↔ ¬∃ order, pipeline.BuildOrder order) :=
  ⟨by decide, acyclic_iff_buildable pipeline (by decide) (by decide)⟩

/-! ## The whole validation -/

theorem checkArtifacts_ok {artifacts : List ArtifactSpec} {seen : List String}
    (h : checkArtifacts seen artifacts = .ok ()) :
    (artifacts.map ArtifactSpec.artifactId).Nodup ∧
      ∀ a ∈ artifacts, a.artifactId ∉ seen ∧ a.validate = .ok () := by
  induction artifacts generalizing seen with
  | nil => simp
  | cons a artifacts ih =>
    rw [checkArtifacts, guard_eq_ok, bind_eq_ok] at h
    obtain ⟨hnew, u, hvalid, hrest⟩ := h
    obtain ⟨hnodup, hall⟩ := ih hrest
    refine ⟨List.nodup_cons.mpr ⟨fun hmem => ?_, hnodup⟩, fun b hb => ?_⟩
    · obtain ⟨b, hb, hid⟩ := List.mem_map.mp hmem
      exact (hall b hb).1 (hid ▸ List.mem_cons_self)
    · rcases List.mem_cons.mp hb with rfl | hb
      · exact ⟨hnew, hvalid⟩
      · exact ⟨fun hseen => (hall b hb).1 (List.mem_cons_of_mem _ hseen), (hall b hb).2⟩

theorem checkFields_ok (h : c.checkFields = .ok ()) :
    (c.artifacts.map ArtifactSpec.artifactId).Nodup ∧
      ∀ d ∈ c.dependencies, (c.artifact d.consumes).isSome := by
  simp only [checkFields, guard_eq_ok, bind_eq_ok] at h
  obtain ⟨-, -, u, hartifacts, v, hdependencies, -⟩ := h
  refine ⟨(checkArtifacts_ok hartifacts).1, fun d hd => ?_⟩
  unfold checkDependencies at hdependencies
  split at hdependencies
  · cases hdependencies
  · rename_i hnone
    simpa [Option.isSome_iff_ne_none] using List.find?_eq_none.mp hnone d hd

/-- A valid contract is one whose fields are in order and which can be built. -/
theorem validate_ok_iff (c : InterfaceContract) : c.validate = .returns (.ok ()) ↔
    c.checkFields = .ok () ∧ ∃ order, c.BuildOrder order := by
  unfold validate
  cases hfields : c.checkFields with
  | error e => simp
  | ok u =>
    obtain ⟨hunique, hknown⟩ := checkFields_ok hfields
    rcases checkAcyclic_cases c with ⟨hcheck, w, hw, hlisted⟩ | ⟨x, hcheck, hcycle⟩
    · exact iff_of_true hcheck ⟨rfl, _, buildOrder_of_good hunique hknown hw hlisted⟩
    · refine iff_of_false (by simp [hcheck]) ?_
      rintro ⟨-, order, horder⟩
      exact absurd (horder.index_lt hcycle) (lt_irrefl _)

end InterfaceContract
end Hacp.V1
