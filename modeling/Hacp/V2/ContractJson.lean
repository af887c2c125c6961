import Hacp.V2.ContractHistory
import Mathlib.Data.Finset.Sort

/-!
# The serialized contract

The JSON value that a contract serializes to, with the field and variant names of the
source. Sets are written in the byte order of their elements, as a `BTreeSet` is, and a
missing grant identifier is left out.
-/
namespace Hacp.V2

instance : Std.Antisymm byteLe := ⟨fun _ _ => byteLe_antisymm⟩

instance : Std.Total byteLe := ⟨byteLe_total⟩

instance : IsTrans String byteLe := ⟨fun _ _ _ => byteLe_trans⟩

namespace Json

def nat (n : ℕ) : Json := .number (.integer n)

def strings (items : List String) : Json := .array (items.map .string)

/-- A missing value is written as `null`. -/
def optional (v : Option Json) : Json := v.getD .null

end Json

def Relationship.name : Relationship → String
  | .collaboration => "collaboration"
  | .delegation => "delegation"

def ContractState.name : ContractState → String
  | .proposed => "proposed"
  | .countered => "countered"
  | .agreed => "agreed"
  | .executing => "executing"
  | .amending => "amending"
  | .verifying => "verifying"
  | .settled => "settled"
  | .rejected => "rejected"
  | .withdrawn => "withdrawn"
  | .noAgreement => "noagreement"

def Task.toJson (t : Task) : Json :=
  .object [("task_id", .string t.taskId), ("summary", .string t.summary),
    ("owner", .string t.owner)]

def ContractLimits.toJson (l : ContractLimits) : Json :=
  .object [("max_rounds", .nat l.maxRounds.toNat), ("max_amendments", .nat l.maxAmendments.toNat),
    ("max_rework", .nat l.maxRework.toNat)]

def Revision.toJson (r : Revision) : Json :=
  .object [("number", .nat r.number), ("content", r.content), ("digest", .string r.digest)]

def Submission.toJson (s : Submission) : Json :=
  .object [("against_revision", .string s.againstRevision), ("artifacts", .strings s.artifacts),
    ("evidence", .strings s.evidence), ("claim", .string s.claim)]

def Contract.toJson (c : Contract) : Json :=
  .object ([("contract_id", .string c.contractId), ("task", c.task.toJson),
      ("relationship", .string c.relationship.name)] ++
    (c.grantId.map fun id => ("grant_id", Json.string id)).toList ++
    [("participants", .strings [c.participants.1, c.participants.2]),
      ("escalation_path", .strings c.escalationPath), ("limits", c.limits.toJson),
      ("state", .string c.state.name), ("rounds", .nat c.rounds.toNat),
      ("amendments", .nat c.amendments.toNat), ("reworks", .nat c.reworks.toNat),
      ("agreed_by", .strings (c.agreedBy.sort byteLe)),
      ("agreed_terms_digest", .optional (c.agreedTermsDigest.map .string)),
      ("last_counter_by", .optional (c.lastCounterBy.map .string)),
      ("amendment_participants", .strings (c.amendmentParticipants.sort byteLe)),
      ("revisions", .array (c.revisions.map Revision.toJson)),
      ("pending_submission", .optional (c.pendingSubmission.map Submission.toJson)),
      ("pending_submitter", .optional (c.pendingSubmitter.map .string)),
      ("rework_scope", .optional (c.reworkScope.map .string))])

namespace Contract

@[simp] theorem toJson_state (c : Contract) :
    c.toJson.get? "state" = some (.string c.state.name) := by
  cases h : c.grantId <;> simp [toJson, Json.get?, h, List.lookup_cons]

@[simp] theorem toJson_revisions (c : Contract) :
    c.toJson.get? "revisions" = some (.array (c.revisions.map Revision.toJson)) := by
  cases h : c.grantId <;> simp [toJson, Json.get?, h, List.lookup_cons]

end Contract
end Hacp.V2
