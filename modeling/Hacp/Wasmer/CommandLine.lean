import Hacp.Lib.Splitting
import Hacp.Wasmer.Sandbox

/-!
# The command line read back

Grants are flattened into strings that another program splits again. Read the way
that program reads them, the options of a validated request are the grants and
nothing else, and what staging writes stays below the work directory.
-/
namespace Hacp.Wasmer
open Lib Lib.UnixPath

/-! ## Reading options -/

inductive CliOption where
  | flag (text : String)
  | volume (mapping : String)
  | env (binding : String)
  /-- A `--net` without rules is full host networking. -/
  | net (rules : Option String)
  deriving DecidableEq

def readArg (arg : String) : CliOption :=
  if arg = "--net" then .net none
  else match stripPrefix "--net=" arg with
    | some rules => .net (some rules)
    | none => .flag arg

/-- `--volume` and `--env` take the argument after them as their value. -/
def readOptions : List String → List CliOption
  | [] => []
  | [arg] => [readArg arg]
  | arg :: value :: rest =>
    if arg = "--volume" then .volume value :: readOptions rest
    else if arg = "--env" then .env value :: readOptions rest
    else readArg arg :: readOptions (value :: rest)

def CliOption.binding? : CliOption → Option String
  | .env binding => some binding
  | _ => none

/-- `text.split(sep)`. -/
def splitText (sep : Char) (text : String) : List String :=
  (text.toList.splitOn sep).map String.ofList

theorem readOptions_volume {value : String} {rest : List String} :
    readOptions ("--volume" :: value :: rest) = .volume value :: readOptions rest := by
  rw [readOptions, if_pos rfl]

theorem readOptions_env {value : String} {rest : List String} :
    readOptions ("--env" :: value :: rest) = .env value :: readOptions rest := by
  rw [readOptions, if_neg (by decide), if_pos rfl]

theorem readOptions_arg {arg : String} {rest : List String} (hvolume : arg ≠ "--volume")
    (henv : arg ≠ "--env") : readOptions (arg :: rest) = readArg arg :: readOptions rest := by
  cases rest with
  | nil => rfl
  | cons value rest => rw [readOptions, if_neg hvolume, if_neg henv]

theorem readArg_net (rules : String) : readArg ("--net=" ++ rules) = .net (some rules) := by
  have hbare : "--net=" ++ rules ≠ "--net" := by
    intro h
    have hlen := congrArg (fun s => s.toList.length) h
    simp at hlen
  rw [readArg, if_neg hbare, stripPrefix_append]

theorem splitText_join {sep : Char} {texts : List String} (hne : texts ≠ [])
    (h : ∀ text ∈ texts, sep ∉ text.toList) :
    splitText sep ((String.singleton sep).intercalate texts) = texts := by
  unfold splitText
  rw [String.toList_intercalate, String.toList_singleton, List.splitOn_intercalate]
  · rw [List.map_map]
    exact List.map_id'' (fun text => String.ofList_toList) texts
  · intro cs hcs
    obtain ⟨text, htext, rfl⟩ := List.mem_map.mp hcs
    exact h text htext
  · simpa using hne

/-! ## The options of a request -/

/-- The variable a capability grants. -/
def Capability.envGrant : Capability → Option (String × String)
  | .env key value => some (key, value)
  | .network _ => none

namespace ExecutionRequest
variable {request : ExecutionRequest}

def guestEnv (request : ExecutionRequest) : List (String × String) :=
  request.capabilities.filterMap Capability.envGrant

theorem mem_guestEnv {key value : String} :
    (key, value) ∈ request.guestEnv ↔ .env key value ∈ request.capabilities := by
  unfold guestEnv
  rw [List.mem_filterMap]
  constructor
  · rintro ⟨c, hc, hvar⟩
    cases c with
    | env k v =>
      cases Option.some.inj hvar
      exact hc
    | network rules => cases hvar
  · intro h
    exact ⟨_, h, rfl⟩

theorem mem_netRules {rule : String} :
    rule ∈ request.netRules ↔ ∃ rules, .network rules ∈ request.capabilities ∧ rule ∈ rules := by
  unfold netRules
  rw [List.mem_flatMap]
  constructor
  · rintro ⟨c, hc, hrule⟩
    cases c with
    | env key value => cases hrule
    | network rules => exact ⟨rules, hc, hrule⟩
  · rintro ⟨rules, hc, hrule⟩
    exact ⟨_, hc, hrule⟩

theorem readOptions_envArgs (cs : List Capability) (rest : List String) :
    readOptions (cs.flatMap envArgs ++ rest) =
      (cs.filterMap Capability.envGrant).map (fun v => .env (v.1 ++ "=" ++ v.2)) ++
        readOptions rest := by
  induction cs with
  | nil => rfl
  | cons c cs ih =>
    cases c with
    | network rules => exact ih
    | env key value =>
      rw [List.flatMap_cons, List.append_assoc]
      change readOptions ("--env" :: _ :: (cs.flatMap envArgs ++ rest)) = _
      rw [readOptions_env, ih]
      rfl

theorem readOptions_netArgs :
    readOptions request.netArgs =
      if request.netRules = [] then [] else [.net (some (",".intercalate request.netRules))] := by
  unfold netArgs
  by_cases hnil : request.netRules = []
  · rw [if_pos hnil, hnil]
    rfl
  · rw [if_neg hnil, if_neg (by simpa using hnil)]
    change [readArg _] = _
    rw [readArg_net]

/-- The options of a request, read back. -/
theorem readOptions_options (work : String) :
    readOptions (request.options work) =
      [.flag "run", .flag "--quiet", .flag "--no-tty", .volume (work ++ ":" ++ guestWorkDir)] ++
        (request.guestEnv.map (fun v => .env (v.1 ++ "=" ++ v.2)) ++
          readOptions request.netArgs) := by
  have hrun : readArg "run" = .flag "run" := by decide
  have hquiet : readArg "--quiet" = .flag "--quiet" := by decide
  have htty : readArg "--no-tty" = .flag "--no-tty" := by decide
  unfold options
  rw [List.append_assoc]
  simp only [List.cons_append, List.nil_append]
  rw [readOptions_arg (by decide) (by decide), readOptions_arg (by decide) (by decide),
    readOptions_arg (by decide) (by decide), readOptions_volume, readOptions_envArgs, hrun, hquiet,
    htty]
  rfl

/-- Every `--net` of the options carries all granted rules; there is one when there are
rules to carry. -/
theorem net_mem_options {work : String} {rules : Option String} :
    .net rules ∈ readOptions (request.options work) ↔
      request.netRules ≠ [] ∧ rules = some (",".intercalate request.netRules) := by
  rw [readOptions_options, readOptions_netArgs]
  by_cases hnil : request.netRules = []
  · simp [hnil]
  · simp [hnil]

theorem bindings_options (work : String) :
    (readOptions (request.options work)).filterMap CliOption.binding? =
      request.guestEnv.map fun v => v.1 ++ "=" ++ v.2 := by
  have hnet : (readOptions request.netArgs).filterMap CliOption.binding? = [] := by
    rw [readOptions_netArgs]
    split_ifs
    · rfl
    · rfl
  rw [readOptions_options, List.filterMap_append, List.filterMap_append, hnet, List.append_nil,
    List.filterMap_map]
  change [] ++ _ = _
  rw [List.nil_append, ← List.filterMap_eq_map]
  rfl

/-- Nothing in front of the package name is taken for the end of the options. -/
theorem separator_not_mem_options (work : String) : "--" ∉ request.options work := by
  have hother {s : String} (c : Char) (hc : c ∈ s.toList) (hne : c ∉ "--".toList) : "--" ≠ s := by
    rintro rfl
    exact hne hc
  unfold options netArgs
  rw [List.mem_append, List.mem_append]
  rintro ((hfixed | henv) | hnet)
  · have hmapping : "--" ≠ work ++ ":" ++ guestWorkDir := hother ':' (by simp) (by decide)
    simp [hmapping] at hfixed
  · obtain ⟨c, -, harg⟩ := List.mem_flatMap.mp henv
    cases c with
    | network rules => cases harg
    | env key value =>
      have hbinding : "--" ≠ key ++ "=" ++ value := hother '=' (by simp) (by decide)
      simp [envArgs, hbinding] at harg
  · have hjoined : "--" ≠ "--net=" ++ ",".intercalate request.netRules :=
      hother '=' (by simp) (by decide)
    split_ifs at hnet
    · cases hnet
    · exact hjoined (List.mem_singleton.mp hnet)

end ExecutionRequest

/-! ## What validation makes of them -/

theorem isAllowRule_iff {rule : String} :
    isAllowRule rule = true ↔ ":allow=".toList <:+: rule.toList ∧ ',' ∉ rule.toList ∧
      ∀ c ∈ rule.toList, isWhitespace c = false := by
  have hinfix : contains rule ":allow=" = true ↔ ":allow=".toList <:+: rule.toList := by
    unfold contains
    rw [List.any_eq_true, List.infix_iff_prefix_suffix]
    simp only [List.mem_tails, List.isPrefixOf_iff_prefix, and_comm]
  unfold isAllowRule
  rw [Bool.and_eq_true, Bool.and_eq_true, hinfix, and_assoc]
  simp

theorem equals_not_mem {key : String} (h : wellFormedKey key = true) : '=' ∉ key.toList := by
  intro hmem
  rw [wellFormedKey, Bool.and_eq_true, List.all_eq_true] at h
  exact absurd (h.2 '=' hmem) (by decide)

/-- The path of a step is the work directory followed by names; a file has at least one. -/
def StagingStep.StaysBelow (workDir : Path) : StagingStep → Prop
  | .createDir path => path = workDir
  | .createDirAll cs =>
    ∃ ns : List Bytes, cs = components workDir ++ ns.map Component.normal
  | .writeNew path _ =>
    ∃ ns : List Bytes, ns ≠ [] ∧ components path = components workDir ++ ns.map Component.normal

theorem stageFile_staysBelow {workDir : Path} {file : SandboxFile}
    (h : confined file.path = true) {step : StagingStep} (hstep : step ∈ stageFile workDir file) :
    step.StaysBelow workDir := by
  have hconf := confined_of h
  obtain ⟨ns, hne, hns⟩ := hconf.exists_names
  simp only [stageFile, hconf.parent_join, Option.map_some, Option.toList_some, List.mem_append,
    List.mem_singleton] at hstep
  rcases hstep with rfl | rfl
  · refine ⟨ns.dropLast, ?_⟩
    rw [hns, List.map_dropLast]
  · refine ⟨ns, hne, ?_⟩
    rw [hconf.components_join, hns]

theorem stageFiles_staysBelow {workDir : Path} {files : List SandboxFile}
    (h : ∀ file ∈ files, confined file.path = true) :
    ∀ step ∈ stageFiles workDir files, step.StaysBelow workDir := by
  intro step hstep
  rw [stageFiles, List.mem_cons] at hstep
  rcases hstep with rfl | hstep
  · rfl
  · obtain ⟨file, hfile, hstep⟩ := List.mem_flatMap.mp hstep
    exact stageFile_staysBelow (h file hfile) hstep

/-! ## The grants of a validated request -/

/-- What the options say when they are read back. -/
structure GrantsExactly (request : ExecutionRequest) (options : List String) : Prop where
  /-- There is a `--net` exactly when there is a network capability. -/
  net : (∃ rules, .net rules ∈ readOptions options) ↔
    ∃ rules, .network rules ∈ request.capabilities
  /-- It carries the granted rules in order. -/
  rules : ∀ rules, .net rules ∈ readOptions options →
    rules.map (splitText ',') = some request.netRules
  allow : ∀ rule ∈ request.netRules, ":allow=".toList <:+: rule.toList
  /-- The variables are the granted ones in order. -/
  env : ((readOptions options).filterMap CliOption.binding?).map (splitOnce '=') =
    request.guestEnv.map some
  unreserved : ∀ grant ∈ request.guestEnv, ¬StartsReserved grant.1
  /-- The end of the options is not among them. -/
  ended : "--" ∉ options

theorem grantsExactly_options {request : ExecutionRequest}
    (h : ∀ c ∈ request.capabilities, checkCapability c = .ok ()) (work : String) :
    GrantsExactly request (request.options work) := by
  have hrules {rules : List String} (hc : .network rules ∈ request.capabilities) :=
    checkCapability_network.mp (h _ hc)
  have hallow : ∀ rule ∈ request.netRules, isAllowRule rule = true := by
    intro rule hrule
    obtain ⟨rules, hc, hmem⟩ := ExecutionRequest.mem_netRules.mp hrule
    exact (hrules hc).2 rule hmem
  have hgrant : ∀ grant ∈ request.guestEnv,
      wellFormedKey grant.1 = true ∧ isReserved grant.1 = false := by
    intro grant hmem
    have hc := checkCapability_env.mp (h _ (ExecutionRequest.mem_guestEnv.mp hmem))
    exact ⟨hc.1.1, hc.2⟩
  constructor
  · simp only [ExecutionRequest.net_mem_options]
    constructor
    · rintro ⟨-, hne, -⟩
      obtain ⟨rule, hrule⟩ := List.exists_mem_of_ne_nil _ hne
      obtain ⟨rules, hc, -⟩ := ExecutionRequest.mem_netRules.mp hrule
      exact ⟨rules, hc⟩
    · rintro ⟨rules, hc⟩
      obtain ⟨rule, hrule⟩ := List.exists_mem_of_ne_nil _ (hrules hc).1
      exact ⟨_, List.ne_nil_of_mem (ExecutionRequest.mem_netRules.mpr ⟨rules, hc, hrule⟩), rfl⟩
  · intro rules hnet
    obtain ⟨hne, rfl⟩ := ExecutionRequest.net_mem_options.mp hnet
    have hjoin := splitText_join hne fun rule hrule => (isAllowRule_iff.mp (hallow rule hrule)).2.1
    exact congrArg some hjoin
  · exact fun rule hrule => (isAllowRule_iff.mp (hallow rule hrule)).1
  · rw [ExecutionRequest.bindings_options, List.map_map]
    apply List.map_congr_left
    intro grant hmem
    exact splitOnce_append (equals_not_mem (hgrant grant hmem).1)
  · intro grant hmem hreserved
    have hfalse := (hgrant grant hmem).2
    rw [isReserved_iff.mpr hreserved] at hfalse
    cases hfalse
  · exact ExecutionRequest.separator_not_mem_options work

namespace WasmerCliExecutor
variable {executor : WasmerCliExecutor} {request : ExecutionRequest}

theorem command_eq_ok {runDir workDir : Path} {cmd : Command}
    (h : executor.command request runDir workDir = .ok cmd) :
    ∃ work, toStr workDir = some work ∧
      cmd.args = request.options work ++ request.package :: "--" :: request.args := by
  unfold command at h
  cases hwork : (toStr workDir).filter fun p => !p.toList.contains ':' with
  | none =>
    rw [hwork] at h
    cases h
  | some work =>
    rw [hwork] at h
    cases h
    exact ⟨work, (Option.filter_eq_some_iff.mp hwork).1, rfl⟩

/-- The command of a validated request grants what was validated, passes the request's own
arguments after the separator, and the files are staged below the work directory. -/
theorem command_grants_exactly (h : executor.validate request = .ok ()) (runDir workDir : Path) :
    (∀ cmd, executor.command request runDir workDir = .ok cmd → ∃ options,
      cmd.args = options ++ request.package :: "--" :: request.args ∧
        GrantsExactly request options) ∧
    ∀ step ∈ stageFiles workDir request.files, step.StaysBelow workDir := by
  obtain ⟨-, -, hfiles, hcapabilities⟩ := validate_eq_ok.mp h
  constructor
  · intro cmd hcmd
    obtain ⟨work, -, hargs⟩ := command_eq_ok hcmd
    exact ⟨_, hargs, grantsExactly_options hcapabilities work⟩
  · exact stageFiles_staysBelow hfiles

def sampleRequest : ExecutionRequest where
  package := "python/python@3.13.20"
  args := ["/work/src/main.py", "--net"]
  files := [⟨"src/main.py", asBytes "print(1)"⟩]
  capabilities := [.env "GREETING" "a=b", .network ["ipv4:allow=127.0.0.1:80", "dns:allow=x:443"]]
  limits := ⟨.fromMillis 1000, 1024⟩

def sampleExecutor : WasmerCliExecutor :=
  ⟨asBytes "/usr/bin/wasmer", asBytes "/home/.wasmer", asBytes "/tmp", ["python/python@3.13.20"]⟩

theorem command_grants_exactly_sample :
    ∃ options, GrantsExactly sampleRequest options ∧
      sampleExecutor.command sampleRequest (asBytes "/tmp/run") (asBytes "/tmp/run/work") =
        .ok ⟨asBytes "/usr/bin/wasmer", [("WASMER_DIR", asBytes "/home/.wasmer")],
          asBytes "/tmp/run", .null, .piped, .piped,
          options ++ ["python/python@3.13.20", "--", "/work/src/main.py", "--net"]⟩ := by
  have hvalid : sampleExecutor.validate sampleRequest = .ok () := by rfl
  have hcmd : sampleExecutor.command sampleRequest (asBytes "/tmp/run") (asBytes "/tmp/run/work") =
      .ok ⟨asBytes "/usr/bin/wasmer", [("WASMER_DIR", asBytes "/home/.wasmer")],
        asBytes "/tmp/run", .null, .piped, .piped, sampleRequest.options "/tmp/run/work" ++
          ["python/python@3.13.20", "--", "/work/src/main.py", "--net"]⟩ := by
    unfold command
    rw [toStr_asBytes]
    rfl
  obtain ⟨options, hargs, hgrants⟩ := (command_grants_exactly hvalid _ _).1 _ hcmd
  rw [List.append_cancel_right hargs] at hcmd
  exact ⟨options, hgrants, hcmd⟩

end WasmerCliExecutor
end Hacp.Wasmer
