import Hacp.Text

/-!
# Agent identifiers

`urn:hacp:agent:<local-name>` with one to 64 characters of `[a-z0-9._-]`. An error
is kept as the facts its message is rendered from.
-/
namespace Hacp.V2

inductive UrnError where
  /-- `not an agent URN: {urn:?}` -/
  | notAgentUrn (urn : String)
  /-- `agent local name must be 1-64 chars, got {len}` -/
  | localNameLength (len : ℕ)
  /-- `agent local name {name:?} may use only [a-z0-9._-]` -/
  | localNameCharset (name : String)
  deriving DecidableEq

namespace AgentUrn

def agentPrefix : String := "urn:hacp:agent:"

def isLocalNameChar (c : Char) : Bool :=
  c.isLower || c.isDigit || c == '.' || c == '_' || c == '-'

def validateLocalName (name : String) : Except UrnError Unit :=
  let len := (asBytes name).length
  if ¬(1 ≤ len ∧ len ≤ 64) then .error (.localNameLength len)
  else if ¬name.toList.all isLocalNameChar then .error (.localNameCharset name)
  else .ok ()

/-- Validate shape and return the local name. -/
def parse (urn : String) : Except UrnError String :=
  match stripPrefix agentPrefix urn with
  | none => .error (.notAgentUrn urn)
  | some rest => do
    validateLocalName rest
    .ok rest

end AgentUrn
end Hacp.V2
