import Hacp.Lib.Checks
import Hacp.Lib.Lookup
import Hacp.V2.AgentUrn
import Hacp.V2.CanonicalForm

/-!
# The wire unit

An envelope has nine known fields and carries every field it does not know in `extra`,
flattened into the same object. Validation keeps the two apart and lets only values with
a canonical form pass. `serde_json` is taken to reproduce the value of a single field.
-/
namespace Hacp.V2
open Lib Std

def protocol : String := "HACP/2.0"

inductive BodyError where
  /-- `must be a JSON object` -/
  | notObject
  | canon (e : CanonError)
  deriving DecidableEq

inductive ExtensionError where
  /-- `collides with a reserved field` -/
  | reserved
  | canon (e : CanonError)
  deriving DecidableEq

inductive EnvelopeError where
  | wrongProtocol (required found : String)
  | badMessageId (found : String)
  | badSessionId
  | badFrom (found : String) (reason : UrnError)
  | badTo (found : String) (reason : UrnError)
  | badKind
  | badTimestamp (reason : CanonError)
  | badInReplyTo (found : String)
  | badBody (reason : BodyError)
  | badExtension (field : String) (reason : ExtensionError)
  deriving DecidableEq

structure Envelope where
  protocol : String
  messageId : String
  sessionId : String
  from_ : String
  to_ : String
  kind : String
  timestamp : String
  inReplyTo : Option String
  body : Json
  /-- Fields this build does not know. -/
  extra : ExtTreeMap String Json

/-- `m-` and at least twelve lowercase hexadecimal digits. -/
def isMessageIdShape (s : String) : Bool :=
  match stripPrefix "m-" s with
  | none => false
  | some hex => 12 ≤ (asBytes hex).length && hex.toList.all isLowerHex

def reservedFields : List String :=
  ["protocol", "message_id", "session_id", "from", "to", "kind", "timestamp", "in_reply_to",
    "body"]

def Json.isObject : Json → Bool
  | .object _ => true
  | _ => false

namespace Envelope
variable (F : Foreign)

def checkInReplyTo : Option String → Except EnvelopeError Unit
  | none => .ok ()
  | some reply => if !isMessageIdShape reply then .error (.badInReplyTo reply) else .ok ()

/-- Extension fields are checked in the order of their names. -/
def checkExtra : List (String × Json) → Except EnvelopeError Unit
  | [] => .ok ()
  | (field, value) :: fields =>
    if field ∈ reservedFields then .error (.badExtension field .reserved)
    else do
      let _ ← (canonicalJson value).mapError fun e => .badExtension field (.canon e)
      checkExtra fields

def validate (e : Envelope) : Except EnvelopeError Unit :=
  if e.protocol ≠ V2.protocol then .error (.wrongProtocol V2.protocol e.protocol)
  else if !isMessageIdShape e.messageId then .error (.badMessageId e.messageId)
  else if e.sessionId = "" then .error .badSessionId
  else do
    let _ ← (AgentUrn.parse e.from_).mapError fun reason => .badFrom e.from_ reason
    let _ ← (AgentUrn.parse e.to_).mapError fun reason => .badTo e.to_ reason
    if e.kind = "" then .error .badKind
    else do
      (validateTimestamp F e.timestamp).mapError .badTimestamp
      checkInReplyTo e.inReplyTo
      if !e.body.isObject then .error (.badBody .notObject)
      else do
        let _ ← (canonicalJson e.body).mapError fun e => .badBody (.canon e)
        checkExtra e.extra.toList

/-- The known fields as they are serialized, an absent reply as an explicit `null`. -/
def known (e : Envelope) : List (String × Json) :=
  [("protocol", .string e.protocol), ("message_id", .string e.messageId),
    ("session_id", .string e.sessionId), ("from", .string e.from_), ("to", .string e.to_),
    ("kind", .string e.kind), ("timestamp", .string e.timestamp),
    ("in_reply_to", (e.inReplyTo.map .string).getD .null), ("body", e.body)]

/-- `#[derive(Serialize)]`, with `extra` flattened. -/
def members (e : Envelope) : List (String × Json) := e.known ++ e.extra.toList

def toJson (e : Envelope) : Json := .object e.members

/-- An optional field that is absent or `null` has no value. -/
def optionalStr : Option Json → Option (Option String)
  | none | some .null => some none
  | some (.string s) => some (some s)
  | some _ => none

/-- The known fields are read under their names; the others are collected. -/
def ofMembers (members : List (String × Json)) : Option Envelope := do
  let protocol ← (members.lookup "protocol").bind Json.asStr
  let messageId ← (members.lookup "message_id").bind Json.asStr
  let sessionId ← (members.lookup "session_id").bind Json.asStr
  let from_ ← (members.lookup "from").bind Json.asStr
  let to_ ← (members.lookup "to").bind Json.asStr
  let kind ← (members.lookup "kind").bind Json.asStr
  let timestamp ← (members.lookup "timestamp").bind Json.asStr
  let inReplyTo ← optionalStr (members.lookup "in_reply_to")
  let body ← members.lookup "body"
  let extra := ExtTreeMap.ofList (members.filter fun p => p.1 ∉ reservedFields)
  some { protocol, messageId, sessionId, from_, to_, kind, timestamp, inReplyTo, body, extra }

/-- `#[derive(Deserialize)]`: a flattened type is read from an object only, and no known field
may be repeated in it. -/
def ofJson : Json → Option Envelope
  | .object members =>
    if ((members.map Prod.fst).filter (· ∈ reservedFields)).Nodup then ofMembers members else none
  | _ => none

variable {F}

theorem checkExtra_eq_ok {fields : List (String × Json)} : checkExtra fields = .ok () ↔
    ∀ p ∈ fields, p.1 ∉ reservedFields ∧ p.2.integersOnly = true := by
  induction fields with
  | nil => simp [checkExtra]
  | cons p fields ih =>
    obtain ⟨field, value⟩ := p
    simp only [checkExtra, guard_eq_ok, bind_eq_ok, mapError_eq_ok, ih, List.forall_mem_cons]
    rw [← canonicalJson_isOk_iff, exists_and_right, and_assoc]

theorem validate_values {e : Envelope} (h : e.validate F = .ok ()) :
    e.body.isObject = true ∧ e.body.integersOnly = true ∧
      ∀ p ∈ e.extra.toList, p.1 ∉ reservedFields ∧ p.2.integersOnly = true := by
  unfold validate at h
  simp only [guard_eq_ok, bind_eq_ok, mapError_eq_ok] at h
  obtain ⟨-, -, -, -, -, -, -, -, -, -, -, -, hobject, text, htext, hextra⟩ := h
  exact ⟨by simpa using hobject, (canonicalJson_isOk_iff _).mp ⟨text, htext⟩,
    checkExtra_eq_ok.mp hextra⟩

end Envelope
end Hacp.V2
