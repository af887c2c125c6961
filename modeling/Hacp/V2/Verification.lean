import Hacp.Lib.Checks
import Hacp.V2.AgentUrn

/-!
# Verification records

A verdict record names who verified what against which frozen revision. An Accept
on signals alone, without subject artifacts or a passing check, is refused.
-/
namespace Hacp.V2
open Lib

/-- The verdict a verifier reaches; the contract engine applies it. -/
inductive Verdict where
  | accept
  | rework (scope : String)
  | reject
  deriving DecidableEq

structure Check where
  name : String
  passed : Bool
  detail : String
  deriving DecidableEq

structure Verification where
  verificationId : String
  verifier : String
  contractId : String
  /-- The frozen revision digest this verification answers. -/
  againstRevision : String
  artifacts : List String
  evidence : List String
  checks : List Check
  verdict : Verdict
  reasons : List String
  attests : List String
  deriving DecidableEq

inductive VerificationError where
  | badId (found : String)
  | badVerifier (reason : UrnError)
  | badRevision (found : String)
  | signalsAreNotEvidence
  | failedChecks
  | cycle (id : String)
  | unknownVerification (id : String)
  deriving DecidableEq

/-- `artifact::is_digest_shape`. -/
def isDigestShape (s : String) : Bool := (asBytes s).length == 64 && s.toList.all isLowerHex

namespace Verification

def validate (v : Verification) : Except VerificationError Unit :=
  match stripPrefix "v-" v.verificationId with
  | none => .error (.badId v.verificationId)
  | some hex => do
    if (asBytes hex).length < 12 ∨ ¬hex.toList.all isLowerHex then
      .error (.badId v.verificationId)
    else
      let _ ← (AgentUrn.parse v.verifier).mapError .badVerifier
      if ¬isDigestShape v.againstRevision then .error (.badRevision v.againstRevision)
      else if v.verdict = .accept ∧ (v.artifacts = [] ∨ ¬v.checks.any (fun c => c.passed)) then
        .error .signalsAreNotEvidence
      else if v.verdict = .accept ∧ v.checks.any (fun c => !c.passed) then .error .failedChecks
      else .ok ()

def decide (verificationId verifier contractId againstRevision : String)
    (artifacts evidence : List String) (checks : List Check) (verdict : Verdict)
    (reasons attests : List String) : Except VerificationError Verification := do
  let record : Verification := ⟨verificationId, verifier, contractId, againstRevision, artifacts,
    evidence, checks, verdict, reasons, attests⟩
  record.validate
  .ok record

theorem validate_accept {v : Verification} (h : v.validate = .ok ()) (hv : v.verdict = .accept) :
    v.artifacts ≠ [] ∧ v.checks ≠ [] ∧ ∀ c ∈ v.checks, c.passed = true := by
  unfold validate at h
  split at h
  · cases h
  · simp only [bind_eq_ok, guard_eq_ok, hv, true_and] at h
    obtain ⟨-, -, -, -, hsignals, hfailed, -⟩ := h
    rw [not_or, not_not, List.any_eq_true] at hsignals
    obtain ⟨hartifacts, c, hc, -⟩ := hsignals
    refine ⟨hartifacts, List.ne_nil_of_mem hc, fun c hc => ?_⟩
    by_contra hpassed
    exact hfailed (List.any_eq_true.mpr ⟨c, hc, by simpa using hpassed⟩)

end Verification
end Hacp.V2
