import Hacp.Lib.UnixPath
import Hacp.Lib.Checks
import Hacp.Text

/-!
# The sandbox executor

A request names a package, its arguments, files by value and the capabilities it is
granted. The executor checks it, stages its files in a fresh directory and turns the
grants into the arguments of one `wasmer` process.
-/
namespace Hacp.Wasmer
open Lib Lib.UnixPath

def guestWorkDir : String := "/work"

def reservedEnvPrefix : String := "HACP_"

structure Duration where
  nanos : ℕ
  deriving DecidableEq

def Duration.fromMillis (ms : UInt64) : Duration := ⟨ms.toNat * 1000000⟩

/-- A file handed to the guest by value. -/
structure SandboxFile where
  path : String
  contents : Bytes
  deriving DecidableEq

inductive Capability where
  | env (key value : String)
  | network (rules : List String)
  deriving DecidableEq

structure ResourceLimits where
  timeout : Duration
  maxOutputBytes : UInt64
  deriving DecidableEq

structure ExecutionRequest where
  package : String
  args : List String
  files : List SandboxFile
  capabilities : List Capability
  limits : ResourceLimits
  deriving DecidableEq

inductive ExecutionFailure where
  | invalidRequest (msg : String)
  /-- `Io`, of a staging directory that cannot be used as a volume. -/
  | unusableVolume (workDir : Path)
  deriving DecidableEq

structure WasmerCliExecutor where
  wasmerBin : Path
  wasmerDir : Path
  stagingRoot : Path
  allowedPackages : List String

/-! ## Texts -/

/-- `text.contains(needle)`. -/
def contains (text needle : String) : Bool := text.toList.tails.any needle.toList.isPrefixOf

/-- `key.to_ascii_uppercase().starts_with(RESERVED_ENV_PREFIX)`. -/
def isReserved (key : String) : Bool :=
  reservedEnvPrefix.toList.isPrefixOf (key.toList.map Char.toUpper)

/-- The key starts with the reserved prefix in some letter case. -/
def StartsReserved (key : String) : Prop :=
  ∃ start, start <+: key.toList ∧ start.map Char.toUpper = reservedEnvPrefix.toList

theorem isReserved_iff {key : String} : isReserved key = true ↔ StartsReserved key := by
  unfold isReserved StartsReserved
  rw [List.isPrefixOf_iff_prefix]
  constructor
  · intro h
    refine ⟨key.toList.take reservedEnvPrefix.toList.length, List.take_prefix _ _, ?_⟩
    rw [List.map_take]
    exact (List.prefix_iff_eq_take.mp h).symm
  · rintro ⟨start, hstart, hupper⟩
    rw [← hupper]
    exact hstart.map Char.toUpper

def nul : Char := Char.ofNat 0

/-- `c.is_ascii_alphabetic() || c == '_'`. -/
def startsName (c : Char) : Bool := c.isAlpha || c == '_'

/-- `c.is_ascii_alphanumeric() || c == '_'`. -/
def isNameChar (c : Char) : Bool := c.isAlphanum || c == '_'

/-! ## Validation -/

def invalid (msg : String) : Except ExecutionFailure Unit := .error (.invalidRequest msg)

def confined (path : String) : Bool :=
  !path.isEmpty && !path.toList.contains nul &&
    (components (asBytes path)).all Component.isNormal

def checkFile (file : SandboxFile) : Except ExecutionFailure Unit :=
  if confined file.path then .ok ()
  else invalid s!"file path `{file.path}` must be relative to {guestWorkDir} with no root, `.` or `..`"

def isAllowRule (rule : String) : Bool :=
  contains rule ":allow=" && !rule.toList.contains ',' && !rule.toList.any isWhitespace

def checkRule (rule : String) : Except ExecutionFailure Unit :=
  if isAllowRule rule then .ok () else invalid s!"network rule `{rule}` is not a single allow rule"

def wellFormedKey (key : String) : Bool :=
  key.toList.head?.any startsName && key.toList.all isNameChar

def checkCapability : Capability → Except ExecutionFailure Unit
  | .env key value =>
    if !wellFormedKey key || value.toList.contains nul then
      invalid s!"malformed environment variable `{key}`"
    else if isReserved key then
      invalid s!"environment variable `{key}` uses the reserved {reservedEnvPrefix} prefix"
    else .ok ()
  | .network rules =>
    -- an empty rule list would become a bare `--net`, which is full host networking
    if rules.isEmpty then invalid "network capability needs at least one explicit allow rule"
    else rules.forM checkRule

namespace WasmerCliExecutor
variable (executor : WasmerCliExecutor) (request : ExecutionRequest)

def validate : Except ExecutionFailure Unit :=
  if request.package ∉ executor.allowedPackages then
    invalid s!"package `{request.package}` is not on the executor allowlist"
  else if request.limits.timeout.nanos = 0 then invalid "timeout must be greater than zero"
  else do
    request.files.forM checkFile
    request.capabilities.forM checkCapability

end WasmerCliExecutor

/-! ## The command -/

inductive Stdio where
  | null
  | piped
  deriving DecidableEq

/-- A process to spawn. Its environment is cleared first. -/
structure Command where
  program : Path
  env : List (String × Path)
  currentDir : Path
  stdin : Stdio
  stdout : Stdio
  stderr : Stdio
  args : List String
  deriving DecidableEq

/-- `Path::to_str`. -/
def toStr (path : Path) : Option String := String.fromUTF8? path.toByteArray

def envArgs : Capability → List String
  | .env key value => ["--env", key ++ "=" ++ value]
  | .network _ => []

def Capability.rules : Capability → List String
  | .env _ _ => []
  | .network rules => rules

namespace ExecutionRequest
variable (request : ExecutionRequest)

def netRules : List String := request.capabilities.flatMap Capability.rules

def netArgs : List String :=
  if request.netRules.isEmpty then [] else ["--net=" ++ ",".intercalate request.netRules]

def options (work : String) : List String :=
  ["run", "--quiet", "--no-tty", "--volume", work ++ ":" ++ guestWorkDir] ++
    request.capabilities.flatMap envArgs ++ request.netArgs

end ExecutionRequest

def WasmerCliExecutor.command (executor : WasmerCliExecutor) (request : ExecutionRequest)
    (runDir workDir : Path) : Except ExecutionFailure Command :=
  match (toStr workDir).filter fun p => !p.toList.contains ':' with
  | none => .error (.unusableVolume workDir)
  | some work => .ok {
      program := executor.wasmerBin
      -- the host environment is never inherited
      env := [("WASMER_DIR", executor.wasmerDir)]
      currentDir := runDir
      stdin := .null
      stdout := .piped
      stderr := .piped
      args := request.options work ++ request.package :: "--" :: request.args }

/-! ## Staging -/

inductive StagingStep where
  | createDir (path : Path)
  | createDirAll (components : List Component)
  /-- `create_new` and `write_all`. -/
  | writeNew (path : Path) (contents : Bytes)
  deriving DecidableEq

def stageFile (workDir : Path) (file : SandboxFile) : List StagingStep :=
  let dest := join workDir (asBytes file.path)
  ((parent dest).map StagingStep.createDirAll).toList ++ [.writeNew dest file.contents]

/-- The steps in order. The first one to fail ends the staging. -/
def stageFiles (workDir : Path) (files : List SandboxFile) : List StagingStep :=
  .createDir workDir :: files.flatMap (stageFile workDir)

/-! ## What validation lets through -/

theorem asBytes_eq_nil {s : String} : asBytes s = [] ↔ s = "" := by
  constructor
  · intro h
    exact asBytes_injective h
  · rintro rfl
    rfl

theorem confined_of {path : String} (h : confined path = true) : Confined (asBytes path) := by
  simp only [confined, Bool.and_eq_true, Bool.not_eq_true', List.all_eq_true] at h
  refine ⟨fun hnil => ?_, h.2⟩
  rw [asBytes_eq_nil.mp hnil] at h
  exact absurd h.1.1 (by decide)

theorem checkFile_eq_ok {file : SandboxFile} :
    checkFile file = .ok () ↔ confined file.path = true := by
  unfold checkFile invalid
  cases confined file.path <;> simp

theorem checkRule_eq_ok {rule : String} : checkRule rule = .ok () ↔ isAllowRule rule = true := by
  unfold checkRule invalid
  cases isAllowRule rule <;> simp

theorem checkCapability_env {key value : String} :
    checkCapability (.env key value) = .ok () ↔
      (wellFormedKey key = true ∧ nul ∉ value.toList) ∧ isReserved key = false := by
  unfold checkCapability invalid
  rw [guard_eq_ok, guard_eq_ok]
  simp

theorem checkCapability_network {rules : List String} :
    checkCapability (.network rules) = .ok () ↔
      rules ≠ [] ∧ ∀ rule ∈ rules, isAllowRule rule = true := by
  unfold checkCapability invalid
  rw [guard_eq_ok, forM_eq_ok]
  simp only [checkRule_eq_ok, List.isEmpty_iff, ne_eq]

theorem WasmerCliExecutor.validate_eq_ok {executor : WasmerCliExecutor}
    {request : ExecutionRequest} :
    executor.validate request = .ok () ↔
      request.package ∈ executor.allowedPackages ∧ request.limits.timeout.nanos ≠ 0 ∧
      (∀ file ∈ request.files, confined file.path = true) ∧
      ∀ c ∈ request.capabilities, checkCapability c = .ok () := by
  unfold validate invalid
  rw [guard_eq_ok, guard_eq_ok, then_eq_ok, forM_eq_ok, forM_eq_ok]
  simp only [checkFile_eq_ok, not_not, ne_eq]

theorem toStr_asBytes (s : String) : toStr (asBytes s) = some s := by
  have hbytes : (asBytes s).toByteArray = s.toByteArray := by
    rw [← String.utf8Encode_toList]
    rfl
  unfold toStr String.fromUTF8?
  rw [hbytes, dif_pos s.isValidUTF8]
  rfl

end Hacp.Wasmer
