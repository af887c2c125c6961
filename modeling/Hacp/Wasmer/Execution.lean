import Hacp.V2.Json
import Hacp.Wasmer.Sandbox

/-!
# Authorization of an execution request

The body of an authenticated message is read as a payload, checked against the
operator's policy and turned into the request the sandbox receives. The base64
decoder is code of another crate and a parameter.
-/
namespace Hacp.V2.Json

mutual
/-- The bytes of all strings and keys of a value. -/
def textBytes : Json → ℕ
  | .string s => (asBytes s).length
  | .array items => textBytesItems items
  | .object members => textBytesMembers members
  | _ => 0

def textBytesItems : List Json → ℕ
  | [] => 0
  | v :: vs => v.textBytes + textBytesItems vs

def textBytesMembers : List (String × Json) → ℕ
  | [] => 0
  | (key, v) :: ms => (asBytes key).length + v.textBytes + textBytesMembers ms
end

theorem textBytes_le_items {v : Json} {vs : List Json} (h : v ∈ vs) :
    v.textBytes ≤ textBytesItems vs := by
  induction vs with
  | nil => cases h
  | cons w vs ih =>
    rw [textBytesItems]
    rcases List.mem_cons.mp h with rfl | h
    · omega
    · have hle := ih h
      omega

theorem textBytes_le_members {p : String × Json} {ms : List (String × Json)} (h : p ∈ ms) :
    p.2.textBytes ≤ textBytesMembers ms := by
  induction ms with
  | nil => cases h
  | cons q ms ih =>
    rw [textBytesMembers]
    rcases List.mem_cons.mp h with rfl | h
    · omega
    · have hle := ih h
      omega

end Hacp.V2.Json

namespace Hacp.Wasmer
open Lib V2

/-! ## The payload -/

structure PayloadFile where
  path : String
  contentB64 : String
  deriving DecidableEq

/-- Variables are in the order of their names. -/
structure ExecutionPayload where
  package : String
  args : List String
  files : List PayloadFile
  env : List (String × String)
  network : List String
  timeoutMs : UInt64
  maxOutputBytes : Option UInt64
  deriving DecidableEq

/-- `#[derive(Deserialize)]` with `deny_unknown_fields`: an object of known members, or an
array of the fields in order that may end early. -/
def readRecord {α : Type} (fields : List String) (read : (String → Option Json) → Option α) :
    Json → Option α
  | .object members =>
    if (members.map Prod.fst).Nodup ∧ ∀ p ∈ members, p.1 ∈ fields then
      read fun key => members.lookup key
    else none
  | .array items =>
    if items.length ≤ fields.length then read fun key => (fields.zip items).lookup key else none
  | _ => none

/-- `#[serde(default)]`. -/
def orDefault {α : Type} (default : α) (read : Json → Option α) : Option Json → Option α
  | none => some default
  | some v => read v

def readItems {α : Type} (read : Json → Option α) (v : Json) : Option (List α) :=
  v.asArray.bind fun items => items.mapM read

/-- A map of strings, by key. -/
def readStrings (v : Json) : Option (List (String × String)) :=
  v.asObject.bind fun members =>
    (Json.sortMembers members).mapM fun p => p.2.asStr.map fun s => (p.1, s)

/-- `Option<usize>`. -/
def readUsize? : Json → Option (Option UInt64)
  | .null => some none
  | v => v.asU64.map some

def PayloadFile.ofJson : Json → Option PayloadFile :=
  readRecord ["path", "content_b64"] fun get => do
    let path ← (get "path").bind Json.asStr
    let contentB64 ← (get "content_b64").bind Json.asStr
    some { path, contentB64 }

namespace ExecutionPayload

def fields : List String :=
  ["package", "args", "files", "env", "network", "timeout_ms", "max_output_bytes"]

def ofFields (get : String → Option Json) : Option ExecutionPayload := do
  let package ← (get "package").bind Json.asStr
  let args ← orDefault [] (readItems Json.asStr) (get "args")
  let files ← orDefault [] (readItems PayloadFile.ofJson) (get "files")
  let env ← orDefault [] readStrings (get "env")
  let network ← orDefault [] (readItems Json.asStr) (get "network")
  let timeoutMs ← (get "timeout_ms").bind Json.asU64
  let maxOutputBytes ← orDefault none readUsize? (get "max_output_bytes")
  some { package, args, files, env, network, timeoutMs, maxOutputBytes }

def ofJson : Json → Option ExecutionPayload := readRecord fields ofFields

end ExecutionPayload

/-! ## The policy -/

/-- The operator's policy. A `usize` is one of a 64-bit host. -/
structure ExecutionPolicy where
  allowedPeers : List String
  allowedPackages : List String
  maxTimeoutMs : UInt64
  maxOutputBytes : UInt64
  maxArgs : UInt64
  maxFiles : UInt64
  maxTotalFileBytes : UInt64
  allowedEnv : List String
  allowedNetwork : List String

/-- What a malformed request is reported with. -/
inductive Malformed where
  /-- The message of the failed deserialization. -/
  | schema
  /-- `file {path} is not base64`. -/
  | notBase64 (path : String)
  deriving DecidableEq

inductive Denial where
  | unbound
  | peerNotAllowed (peer : String)
  | malformed (reason : Malformed)
  | packageNotAllowed (package : String)
  | timeoutOutOfPolicy (ms : UInt64)
  | outputLimitOutOfPolicy (bytes : UInt64)
  | tooManyArgs (n : ℕ)
  | tooManyFiles (n : ℕ)
  | filesTooLarge
  | envNotAllowed (key : String)
  | networkNotAllowed (rule : String)
  deriving DecidableEq

/-- A body in the memory of a 64-bit host. -/
structure Body where
  value : Json
  resident : value.textBytes < 2 ^ 64

/-- `usize::saturating_add`. -/
def saturatingAdd (a b : ℕ) : ℕ := min (a + b) (2 ^ 64 - 1)

namespace ExecutionPolicy
variable (policy : ExecutionPolicy)

/-- The output limit of a payload, or that of the policy. -/
def outputLimit (payload : ExecutionPayload) : UInt64 :=
  payload.maxOutputBytes.getD policy.maxOutputBytes

def check (payload : ExecutionPayload) : Except Denial Unit :=
  if payload.package ∉ policy.allowedPackages then .error (.packageNotAllowed payload.package)
  else if payload.timeoutMs = 0 ∨ policy.maxTimeoutMs < payload.timeoutMs then
    .error (.timeoutOutOfPolicy payload.timeoutMs)
  else if policy.outputLimit payload = 0 ∨ policy.maxOutputBytes < policy.outputLimit payload then
    .error (.outputLimitOutOfPolicy (policy.outputLimit payload))
  else if policy.maxArgs.toNat < payload.args.length then .error (.tooManyArgs payload.args.length)
  else if policy.maxFiles.toNat < payload.files.length then
    .error (.tooManyFiles payload.files.length)
  else .ok ()

/-- The checks in front of the file loop. -/
def preliminary (sender contract : String) (body : Body) : Except Denial ExecutionPayload :=
  if contract = "" then .error .unbound
  else if sender ∉ policy.allowedPeers then .error (.peerNotAllowed sender)
  else match ExecutionPayload.ofJson body.value with
    | none => .error (.malformed .schema)
    | some payload => do
      policy.check payload
      .ok payload

/-- The file loop, from a total on. -/
def decodeFiles (decode : String → Option Bytes) :
    ℕ → List PayloadFile → Except Denial (List SandboxFile)
  | _, [] => .ok []
  | total, file :: rest =>
    -- the encoded size is looked at first so that an oversized payload is never decoded
    if policy.maxTotalFileBytes.toNat < (asBytes file.contentB64).length / 4 * 3 then
      .error .filesTooLarge
    else match decode file.contentB64 with
      | none => .error (.malformed (.notBase64 file.path))
      | some contents =>
        if policy.maxTotalFileBytes.toNat < saturatingAdd total contents.length then
          .error .filesTooLarge
        else do
          let files ← decodeFiles decode (saturatingAdd total contents.length) rest
          .ok ({ path := file.path, contents } :: files)

def grantEnv : List (String × String) → Except Denial (List Capability)
  | [] => .ok []
  | (key, value) :: rest =>
    if isReserved key ∨ key ∉ policy.allowedEnv then .error (.envNotAllowed key)
    else do
      let capabilities ← grantEnv rest
      .ok (.env key value :: capabilities)

def checkNetwork (rules : List String) : Except Denial Unit :=
  match rules.find? fun rule => rule ∉ policy.allowedNetwork with
  | some rule => .error (.networkNotAllowed rule)
  | none => .ok ()

def networkGrants (rules : List String) : List Capability :=
  if rules.isEmpty then [] else [.network rules]

def authorize (decode : String → Option Bytes) (sender contract : String) (body : Body) :
    Except Denial ExecutionRequest := do
  let payload ← policy.preliminary sender contract body
  let files ← policy.decodeFiles decode 0 payload.files
  let granted ← policy.grantEnv payload.env
  policy.checkNetwork payload.network
  .ok {
    package := payload.package
    args := payload.args
    files
    capabilities := granted ++ networkGrants payload.network
    limits := {
      timeout := .fromMillis payload.timeoutMs
      maxOutputBytes := policy.outputLimit payload } }

end ExecutionPolicy
end Hacp.Wasmer
