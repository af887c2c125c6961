import Hacp.Lib.Checks
import Hacp.Lib.Numeral
import Hacp.Text

/-!
# The envelope of the first protocol version

Actor identifiers, message kinds and the shape check of an envelope. Bodies are opaque
to the check, and a kind that is in no registry passes it.
-/
namespace Hacp.V1
open Lib

def protocol : String := "HACP/1.1"

def protocolMajor : ℕ := 1

/-! ## Actor URNs -/

namespace Urn

def all : String := "urn:hacp:all"

def agentPrefix : String := "urn:hacp:agent:"
def coordinatorPrefix : String := "urn:hacp:coordinator:"
def arbiterPrefix : String := "urn:hacp:arbiter:"

def coordinator (name : String) : String := coordinatorPrefix ++ name

def arbiter (name : String) : String := arbiterPrefix ++ name

def agent (role runShort : String) : String := agentPrefix ++ role ++ "-" ++ runShort

/-- A role may contain hyphens, so the split is at the last one. -/
def parseAgent (urn : String) : Option (String × String) := do
  let rest ← stripPrefix agentPrefix urn
  let (role, run) ← rsplitOnce '-' rest
  if role = "" ∨ run = "" then none else some (role, run)

/-- The identifiers split into a role and a run are those put together from them. -/
theorem parseAgent_eq_some {urn role run : String} : parseAgent urn = some (role, run) ↔
    urn = agent role run ∧ role ≠ "" ∧ run ≠ "" ∧ '-' ∉ run.toList := by
  unfold parseAgent agent
  simp only [Option.bind_eq_bind, Option.bind_eq_some_iff, stripPrefix_iff, Prod.exists,
    rsplitOnce_eq_some]
  constructor
  · rintro ⟨rest, rfl, role', run', ⟨hsep, rfl⟩, h⟩
    split_ifs at h with hempty
    obtain ⟨rfl, rfl⟩ := Prod.mk.inj (Option.some.inj h)
    rw [not_or] at hempty
    exact ⟨by simp only [String.append_assoc]; rfl, hempty.1, hempty.2, hsep⟩
  · rintro ⟨rfl, hrole, hrun, hsep⟩
    refine ⟨role ++ "-" ++ run, by simp only [String.append_assoc], role, run, ⟨hsep, rfl⟩, ?_⟩
    rw [if_neg (not_or.mpr ⟨hrole, hrun⟩)]

def isAgent (urn : String) : Bool := (parseAgent urn).isSome

def isCoordinator (urn : String) : Bool := (stripPrefix coordinatorPrefix urn).isSome

def isArbiter (urn : String) : Bool := (stripPrefix arbiterPrefix urn).isSome

def isBroadcast (urn : String) : Bool := urn = all

/-- One of the four shapes that carry no vendor, product or model identity. -/
def isNeutral (urn : String) : Bool :=
  isAgent urn || isCoordinator urn || isArbiter urn || isBroadcast urn

theorem isNeutral_iff {urn : String} : isNeutral urn = true ↔
    (∃ role run, urn = agent role run ∧ role ≠ "" ∧ run ≠ "" ∧ '-' ∉ run.toList) ∨
      (∃ name, urn = coordinator name) ∨ (∃ name, urn = arbiter name) ∨ urn = all := by
  have hagent : isAgent urn = true ↔
      ∃ role run, urn = agent role run ∧ role ≠ "" ∧ run ≠ "" ∧ '-' ∉ run.toList := by
    rw [isAgent, Option.isSome_iff_exists, Prod.exists]
    exact exists₂_congr fun role run => parseAgent_eq_some
  have hnamed (pre : String) : (stripPrefix pre urn).isSome = true ↔ ∃ name, urn = pre ++ name := by
    rw [Option.isSome_iff_exists]
    exact exists_congr fun name => stripPrefix_iff
  rw [isNeutral, Bool.or_eq_true, Bool.or_eq_true, Bool.or_eq_true, hagent, isCoordinator, hnamed,
    isArbiter, hnamed, isBroadcast, decide_eq_true_eq, or_assoc, or_assoc]
  rfl

/-- The bytes behind a plus sign, if there is one. -/
def withoutSign : Bytes → Bytes
  | 43 :: digits => digits
  | digits => digits

/-- `text.parse::<u8>()`: an optional plus sign, then digits. -/
def parseU8 (text : String) : Option ℕ :=
  let digits := withoutSign (asBytes text)
  if digits = [] ∨ !digits.all isAsciiDigit then none else readDigits 256 0 (digits.map digitOf)

def protocolSupported (protocol : String) : Bool :=
  match stripPrefix "HACP/" protocol with
  | none => false
  | some v =>
    match splitOnce '.' v with
    | none => false
    | some (major, minor) =>
      -- a well-formed minor is required, but its value does not matter
      if minor = "" ∨ !(asBytes minor).all isAsciiDigit then false
      else ((parseU8 major).map (· == protocolMajor)).getD false

end Urn

/-! ## Message kinds -/

namespace Kinds

/-- Every kind of the registry. Membership is informational. -/
def registry : List String :=
  ["hello", "heartbeat", "run.started", "run.plan", "run.completed", "run.failed", "role.offer",
    "role.accepted", "role.declined", "contract.drafted", "contract.amendment",
    "contract.amendment.accepted", "contract.amendment.rejected", "contract.frozen",
    "peer.question", "peer.answer", "peer.proposal", "peer.accepted", "peer.rejected",
    "dispute.raised", "dispute.ruling", "contract.change.requested", "contract.amended",
    "interface.impacted", "work.started", "artifact.published", "question", "answer",
    "report.submitted", "report.verdict", "rework.requested", "rework.completed",
    "error.protocol"]

def requiresInReplyTo : List String :=
  ["answer", "peer.answer", "role.accepted", "role.declined", "contract.amendment.accepted",
    "contract.amendment.rejected", "dispute.ruling", "report.verdict", "rework.completed"]

end Kinds

/-! ## The envelope -/

inductive EnvelopeError where
  | protocolMismatch (found expected : String)
  | empty (field : String)
  | badActor (urn : String)
  | broadcastNotAllowed (field : String)
  | missingInReplyTo (kind : String)
  deriving DecidableEq

/-- One message on the bus, as far as its shape is checked. -/
structure Envelope where
  protocol : String
  messageId : String
  /-- The run this message belongs to. -/
  runId : String
  from_ : String
  to_ : String
  kind : String
  inReplyTo : Option String
  deriving DecidableEq

namespace Envelope

def validate (e : Envelope) : Except EnvelopeError Unit :=
  if !Urn.protocolSupported e.protocol then .error (.protocolMismatch e.protocol V1.protocol)
  else if e.messageId = "" then .error (.empty "message_id")
  else if e.runId = "" then .error (.empty "run_id")
  else if !Urn.isNeutral e.from_ then .error (.badActor e.from_)
  else if Urn.isBroadcast e.from_ then .error (.broadcastNotAllowed "from")
  else if !Urn.isNeutral e.to_ then .error (.badActor e.to_)
  else if e.kind = "" then .error (.empty "kind")
  else if e.kind ∈ Kinds.requiresInReplyTo ∧ e.inReplyTo.isNone then
    .error (.missingInReplyTo e.kind)
  else .ok ()

end Envelope
end Hacp.V1
