import Hacp.Lib.RecordGraph
import Hacp.V2.Verification

/-!
# Attestation

A verification record names the records it stands on. The closure of a record lists
everything it stands on, directly or not, each record after those it attests. The
walk gives the starting record no colour, yet it meets every cycle through it.
-/
namespace Hacp.V2
open Lib

namespace Verification

def attestation : RecordKind Verification String := ⟨verificationId, attests⟩

/-- What `visit` does at an id without a colour. -/
def enter (records : List Verification) (id : String) :
    Except VerificationError (List String × Verification) :=
  match records.find? fun v => v.verificationId = id with
  | none => .error (.unknownVerification id)
  | some record => .ok (record.attests, record)

/-- The recursion colours one more listed record at each level. -/
def visit (records : List Verification) (id : String) (walk : Walk String Verification) :
    Option (Except VerificationError (Walk String Verification)) :=
  Walk.visit (enter records) .cycle (records.length + 1) id walk

/-- The child records a verification stands on, in discovery order. -/
def attestationClosure (records : List Verification) (id : String) :
    Outcome (Except VerificationError (List Verification)) :=
  match records.find? fun v => v.verificationId = id with
  | none => .returns (.error (.unknownVerification id))
  | some start => Walk.outcome (Walk.visitAll (visit records) start.attests {})

theorem first_eq (records : List Verification) (id : String) :
    attestation.first records id = records.find? fun v => v.verificationId = id := rfl

theorem enters (records : List Verification) (start : String) :
    attestation.Enters records start (enter records) where
  entered := by
    intro x p hp
    unfold enter at hp
    split at hp
    · cases hp
    · rename_i record hfind
      obtain rfl := Except.ok.inj hp
      exact ⟨hfind, rfl⟩
  admitted := by
    intro x hx _
    obtain ⟨record, hfind⟩ := Option.isSome_iff_exists.mp hx
    refine ⟨(record.attests, record), ?_⟩
    rw [first_eq] at hfind
    simp [enter, hfind]

/-- The closure of a record exists exactly when nothing it reaches is missing or on a
cycle, cycles through the record itself included, and is then complete, free of repeats
and ordered. -/
theorem attestation_complete (records : List Verification) (id : String) :
    ∃ res, attestationClosure records id = .returns res ∧
      ((∃ order, res = .ok order) ↔ attestation.Closed records id) ∧
      ∀ order, res = .ok order → attestation.Closure records id order := by
  cases hfind : attestation.first records id with
  | none =>
    refine ⟨.error (.unknownVerification id), ?_,
      iff_of_false (by simp) (RecordKind.not_closed_of_missing hfind), by simp⟩
    rw [first_eq] at hfind
    simp only [attestationClosure, hfind]
  | some start =>
    obtain ⟨res, hres, hspec⟩ :=
      (enters records id).outcome_spec VerificationError.cycle hfind
    refine ⟨res, ?_, hspec⟩
    rw [← hres]
    rw [first_eq] at hfind
    simp only [attestationClosure, hfind]
    rfl

end Verification
end Hacp.V2
