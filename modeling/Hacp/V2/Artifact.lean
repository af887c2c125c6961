import Hacp.Lib.RecordGraph

/-!
# Artifacts and their provenance

An artifact names the artifacts it derives from. Its ancestry is everything it derives
from, directly or not, each artifact after its own ancestors; it is refused when an
ancestor is missing or a cycle can be reached.
-/
namespace Hacp.V2
open Lib

/-- Who may see an artifact, as a widening ladder. -/
inductive Visibility where
  | participants
  | supervisors
  | sessionObservers
  | deployment
  deriving DecidableEq

structure Artifact where
  artifactId : String
  mediaType : String
  digest : String
  size : UInt64
  producer : String
  taskId : String
  contractId : String
  contractRevision : String
  /-- The artifacts this one derives from, by id. -/
  derivedFrom : List String
  location : String
  visibility : Visibility
  deriving DecidableEq

inductive ArtifactError where
  | cycle (id : String)
  | unknownArtifact (id : String)
  deriving DecidableEq

namespace Artifact

def provenance : RecordKind Artifact String := ⟨artifactId, derivedFrom⟩

/-- What `visit` does at an id without a colour. The root has none and is refused by name. -/
def enter (artifacts : List Artifact) (root id : String) :
    Except ArtifactError (List String × Artifact) :=
  if id = root then .error (.cycle id)
  else match artifacts.find? fun a => a.artifactId = id with
    | none => .error (.unknownArtifact id)
    | some artifact => .ok (artifact.derivedFrom, artifact)

/-- The recursion colours one more listed artifact at each level. -/
def visit (artifacts : List Artifact) (root id : String) (walk : Walk String Artifact) :
    Option (Except ArtifactError (Walk String Artifact)) :=
  Walk.visit (enter artifacts root) .cycle (artifacts.length + 1) id walk

/-- Every transitive `derived_from`, in discovery order. -/
def ancestry (artifacts : List Artifact) (id : String) :
    Outcome (Except ArtifactError (List Artifact)) :=
  match artifacts.find? fun a => a.artifactId = id with
  | none => .returns (.error (.unknownArtifact id))
  | some start =>
    Walk.outcome (Walk.visitAll (visit artifacts id) start.derivedFrom {})

theorem first_eq (artifacts : List Artifact) (id : String) :
    provenance.first artifacts id = artifacts.find? fun a => a.artifactId = id := rfl

theorem enters (artifacts : List Artifact) (root : String) :
    provenance.Enters artifacts root (enter artifacts root) where
  entered := by
    intro x p hp
    unfold enter at hp
    split_ifs at hp with hroot
    split at hp
    · cases hp
    · rename_i artifact hfind
      obtain rfl := Except.ok.inj hp
      exact ⟨hfind, rfl⟩
  admitted := by
    intro x hx hne
    obtain ⟨artifact, hfind⟩ := Option.isSome_iff_exists.mp hx
    refine ⟨(artifact.derivedFrom, artifact), ?_⟩
    rw [first_eq] at hfind
    simp [enter, hne, hfind]

/-- The ancestry of an artifact exists exactly when nothing it reaches is missing or on a
cycle, and is then complete, free of repeats and ordered. -/
theorem ancestry_complete (artifacts : List Artifact) (id : String) :
    ∃ res, ancestry artifacts id = .returns res ∧
      ((∃ order, res = .ok order) ↔ provenance.Closed artifacts id) ∧
      ∀ order, res = .ok order → provenance.Closure artifacts id order := by
  cases hfind : provenance.first artifacts id with
  | none =>
    refine ⟨.error (.unknownArtifact id), ?_,
      iff_of_false (by simp) (RecordKind.not_closed_of_missing hfind), by simp⟩
    rw [first_eq] at hfind
    simp only [ancestry, hfind]
  | some start =>
    obtain ⟨res, hres, hspec⟩ := (enters artifacts id).outcome_spec ArtifactError.cycle hfind
    refine ⟨res, ?_, hspec⟩
    rw [← hres]
    rw [first_eq] at hfind
    simp only [ancestry, hfind]
    rfl

end Artifact
end Hacp.V2
