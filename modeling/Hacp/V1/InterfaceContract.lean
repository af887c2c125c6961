import Hacp.Lib.Checks
import Hacp.Lib.DepthFirst
import Hacp.V2.Json

/-!
# The interface contract of the first protocol version

What each worker produces and consumes. A contract is valid when its fields are
filled in, its artifacts are distinct, its dependencies known, and no artifact is
needed, directly or not, to produce itself.
-/
namespace Hacp.V1
open Lib
open V2 (Json)

inductive ContractError where
  | empty (field : String)
  | duplicateArtifact (id : String)
  | artifact (artifact detail : String)
  | unknownDependency (id : String)
  | dependencyCycle (id : String)
  deriving DecidableEq

inductive ArtifactFormat where
  | rustCrate
  | json
  | file
  deriving DecidableEq

structure ArtifactSpec where
  artifactId : String
  /-- The agent URN of the single producer. -/
  producedBy : String
  path : String
  format : ArtifactFormat
  schema : Option Json
  /-- Paths relative to the artifact whose contents are frozen. -/
  interfaceFiles : List String
  /-- Input and output of each example. -/
  examples : List (Json × Json)
  /-- The command of the build probe. -/
  check : Option String

/-- `consumer` depends on the artifact `consumes`. -/
structure Dependency where
  consumer : String
  consumes : String
  deriving DecidableEq

structure InterfaceContract where
  contractId : String
  goal : String
  artifacts : List ArtifactSpec
  dependencies : List Dependency
  /-- The command run on the merged result. -/
  integration : Option String

namespace ArtifactSpec

def err (a : ArtifactSpec) (detail : String) : ContractError := .artifact a.artifactId detail

def checkSchema (a : ArtifactSpec) : Except ContractError Unit :=
  match a.format, a.schema.isSome with
  | .json, false => .error (a.err "format \"json\" requires a schema")
  | .json, true => .ok ()
  | _, true => .error (a.err "schema is only valid with format \"json\"")
  | _, false => .ok ()

def validate (a : ArtifactSpec) : Except ContractError Unit := do
  if a.artifactId = "" then .error (.empty "artifact_id")
  else if a.producedBy = "" then .error (a.err "produced_by must name exactly one agent")
  else if isBlank a.path then .error (a.err "path must not be empty")
  else
    a.checkSchema
    if a.check.any isBlank then .error (a.err "check.command must not be empty")
    else if a.examples.any fun e => e.1.asStr.isNone || e.2.asStr.isNone then
      .error (a.err "examples must have string input and output in v1")
    else .ok ()

end ArtifactSpec

namespace InterfaceContract

def artifact (c : InterfaceContract) (id : String) : Option ArtifactSpec :=
  c.artifacts.find? fun a => a.artifactId = id

def producedBy (c : InterfaceContract) (agentUrn : String) : List ArtifactSpec :=
  c.artifacts.filter fun a => a.producedBy = agentUrn

/-- Each artifact in turn: its id must be new, then its own fields are checked. -/
def checkArtifacts (seen : List String) : List ArtifactSpec → Except ContractError Unit
  | [] => .ok ()
  | a :: artifacts =>
    if a.artifactId ∈ seen then .error (.duplicateArtifact a.artifactId)
    else do
      a.validate
      checkArtifacts (a.artifactId :: seen) artifacts

def checkDependencies (c : InterfaceContract) : Except ContractError Unit :=
  match c.dependencies.find? fun d => (c.artifact d.consumes).isNone with
  | some d => .error (.unknownDependency d.consumes)
  | none => .ok ()

/-- Everything `validate` checks before the dependency cycles. -/
def checkFields (c : InterfaceContract) : Except ContractError Unit :=
  if c.contractId = "" then .error (.empty "contract_id")
  else if isBlank c.goal then .error (.empty "goal")
  else do
    checkArtifacts [] c.artifacts
    c.checkDependencies
    if c.integration.any isBlank then .error (.empty "integration.command") else .ok ()

/-- Artifact to artifact: producing the first requires the second. -/
def edges (c : InterfaceContract) : List (String × String) :=
  c.dependencies.flatMap fun d => (c.producedBy d.consumer).map fun produced =>
    (produced.artifactId, d.consumes)

/-- The nodes a node points to. The source keeps the marks only; the order in which nodes
become done is recorded beside them. -/
def next (c : InterfaceContract) (node : String) :
    Except ContractError (List String × String) :=
  .ok ((c.edges.filter fun e => e.1 = node).map Prod.snd, node)

/-- The recursion opens one more artifact or dependency target at each level. -/
def walk (c : InterfaceContract) (node : String) (marks : Walk String String) :
    Option (Except ContractError (Walk String String)) :=
  Walk.visit c.next .dependencyCycle (c.artifacts.length + c.dependencies.length + 1) node marks

def checkAcyclic (c : InterfaceContract) : Outcome (Except ContractError Unit) :=
  (Walk.outcome (Walk.visitAll c.walk (c.artifacts.map ArtifactSpec.artifactId) {})).map
    (Except.map fun _ => ())

def validate (c : InterfaceContract) : Outcome (Except ContractError Unit) :=
  match c.checkFields with
  | .error e => .returns (.error e)
  | .ok () => c.checkAcyclic

end InterfaceContract
end Hacp.V1
