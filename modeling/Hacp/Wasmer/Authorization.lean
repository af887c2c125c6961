import Hacp.Lib.Base64
import Hacp.Lib.Lookup
import Hacp.Wasmer.Execution

/-!
# What authorization lets through

A request comes only from an authenticated, bound message within the policy, and
every bound holds of the value the request carries. The file loop refuses a size
early, on the encoded text; that refusal is the exact one only up to padding.
-/
namespace Hacp.Wasmer
open Lib V2

/-- `base64::engine::general_purpose::STANDARD` accepts padded canonical text and no other. -/
def StandardDecoder (decode : String → Option Bytes) : Prop :=
  ∀ text bytes, decode text = some bytes ↔ text = Base64.encode bytes

theorem standardDecoder_decode : StandardDecoder Base64.decode :=
  fun _ _ => Base64.decode_eq_some

theorem length_asBytes_encode (bytes : Bytes) :
    (asBytes (Base64.encode bytes)).length = (bytes.length + 2) / 3 * 4 := by
  rw [asBytes, Base64.encode, String.toList_ofList, List.length_flatMap,
    List.map_congr_left (g := fun _ => 1) fun c hc => Base64.length_utf8_of_mem hc]
  simp [Base64.length_encodeChars]

/-! ## Reading a body that is in memory -/

theorem readRecord_eq_some {α : Type} {fields : List String}
    {read : (String → Option Json) → Option α} {v : Json} {a : α}
    (h : readRecord fields read v = some a) :
    ∃ get, read get = some a ∧ ∀ key w, get key = some w → w.textBytes ≤ v.textBytes := by
  cases v with
  | object members =>
    rw [readRecord, Option.ite_none_right_eq_some] at h
    refine ⟨_, h.2, fun key w hw => ?_⟩
    exact Json.textBytes_le_members (pairs_mem_of_lookup hw)
  | array items =>
    rw [readRecord, Option.ite_none_right_eq_some] at h
    refine ⟨_, h.2, fun key w hw => ?_⟩
    exact Json.textBytes_le_items (List.of_mem_zip (pairs_mem_of_lookup hw)).2
  | null => cases h
  | bool b => cases h
  | number n => cases h
  | string s => cases h

def encodedBytes (files : List PayloadFile) : ℕ :=
  (files.map fun file => (asBytes file.contentB64).length).sum

theorem PayloadFile.ofJson_bytes {v : Json} {file : PayloadFile}
    (h : PayloadFile.ofJson v = some file) : (asBytes file.contentB64).length ≤ v.textBytes := by
  obtain ⟨get, hread, hget⟩ := readRecord_eq_some h
  obtain ⟨path, -, hread⟩ := Option.bind_eq_some_iff.mp hread
  obtain ⟨contentB64, hcontent, hread⟩ := Option.bind_eq_some_iff.mp hread
  cases Option.some.inj hread
  obtain ⟨w, hw, hstr⟩ := Option.bind_eq_some_iff.mp hcontent
  have hle := hget _ _ hw
  rw [Json.asStr_eq_some.mp hstr] at hle
  exact hle

theorem encodedBytes_mapM {items : List Json} {files : List PayloadFile}
    (h : items.mapM PayloadFile.ofJson = some files) :
    encodedBytes files ≤ Json.textBytesItems items := by
  induction items generalizing files with
  | nil =>
    cases Option.some.inj h
    exact Nat.zero_le _
  | cons v items ih =>
    rw [List.mapM_cons] at h
    obtain ⟨file, hfile, h⟩ := Option.bind_eq_some_iff.mp h
    obtain ⟨rest, hrest, h⟩ := Option.bind_eq_some_iff.mp h
    cases Option.some.inj h
    have hhead := PayloadFile.ofJson_bytes hfile
    have htail := ih hrest
    rw [encodedBytes, List.map_cons, List.sum_cons, Json.textBytesItems]
    exact Nat.add_le_add hhead htail

theorem ExecutionPayload.ofJson_bytes {v : Json} {payload : ExecutionPayload}
    (h : ExecutionPayload.ofJson v = some payload) :
    encodedBytes payload.files ≤ v.textBytes := by
  obtain ⟨get, hread, hget⟩ := readRecord_eq_some h
  obtain ⟨package, -, hread⟩ := Option.bind_eq_some_iff.mp hread
  obtain ⟨args, -, hread⟩ := Option.bind_eq_some_iff.mp hread
  obtain ⟨files, hfiles, hread⟩ := Option.bind_eq_some_iff.mp hread
  obtain ⟨env, -, hread⟩ := Option.bind_eq_some_iff.mp hread
  obtain ⟨network, -, hread⟩ := Option.bind_eq_some_iff.mp hread
  obtain ⟨timeoutMs, -, hread⟩ := Option.bind_eq_some_iff.mp hread
  obtain ⟨maxOutputBytes, -, hread⟩ := Option.bind_eq_some_iff.mp hread
  cases Option.some.inj hread
  change encodedBytes files ≤ _
  cases hmember : get "files" with
  | none =>
    rw [hmember] at hfiles
    cases Option.some.inj hfiles
    exact Nat.zero_le _
  | some w =>
    rw [hmember] at hfiles
    obtain ⟨items, hitems, hmap⟩ := Option.bind_eq_some_iff.mp hfiles
    have hle := hget _ _ hmember
    cases w with
    | array vs =>
      cases Option.some.inj hitems
      exact (encodedBytes_mapM hmap).trans hle
    | null => cases hitems
    | bool b => cases hitems
    | number n => cases hitems
    | string s => cases hitems
    | object ms => cases hitems

/-! ## The file loop -/

def totalBytes (contents : List Bytes) : ℕ := (contents.map List.length).sum

theorem totalBytes_cons (bytes : Bytes) (contents : List Bytes) :
    totalBytes (bytes :: contents) = bytes.length + totalBytes contents := by
  simp [totalBytes]

theorem encodedBytes_cons (file : PayloadFile) (files : List PayloadFile) :
    encodedBytes (file :: files) = (asBytes file.contentB64).length + encodedBytes files := by
  simp [encodedBytes]

namespace ExecutionPolicy
variable {policy : ExecutionPolicy} {decode : String → Option Bytes}

/-- One turn of the loop on a file that decodes. The early check compares the size with the
limit rounded down to a multiple of three. -/
theorem decodeFiles_cons (hdecode : StandardDecoder decode) {total : ℕ} {file : PayloadFile}
    {bytes : Bytes} (hfile : decode file.contentB64 = some bytes) (rest : List PayloadFile)
    (hroom : total + encodedBytes (file :: rest) < 2 ^ 64) :
    policy.decodeFiles decode total (file :: rest) =
      if policy.maxTotalFileBytes.toNat / 3 * 3 < bytes.length ∨
          policy.maxTotalFileBytes.toNat < total + bytes.length then .error .filesTooLarge
      else policy.decodeFiles decode (total + bytes.length) rest >>= fun files =>
        .ok ({ path := file.path, contents := bytes } :: files) := by
  have hlen : (asBytes file.contentB64).length = (bytes.length + 2) / 3 * 4 := by
    rw [(hdecode _ _).mp hfile, length_asBytes_encode]
  rw [encodedBytes_cons, hlen] at hroom
  have hadd : saturatingAdd total bytes.length = total + bytes.length :=
    Nat.min_eq_left (by omega)
  have hearly : policy.maxTotalFileBytes.toNat < (bytes.length + 2) / 3 * 4 / 4 * 3 ↔
      policy.maxTotalFileBytes.toNat / 3 * 3 < bytes.length := by omega
  rw [decodeFiles, hlen, hfile]
  simp only [hadd, hearly]
  by_cases hsize : policy.maxTotalFileBytes.toNat / 3 * 3 < bytes.length
  · rw [if_pos hsize, if_pos (Or.inl hsize)]
  · rw [if_neg hsize]
    simp only [hsize, false_or]

theorem room_rest (hdecode : StandardDecoder decode) {total : ℕ} {file : PayloadFile}
    {bytes : Bytes} (hfile : decode file.contentB64 = some bytes) {rest : List PayloadFile}
    (hroom : total + encodedBytes (file :: rest) < 2 ^ 64) :
    total + bytes.length + encodedBytes rest < 2 ^ 64 := by
  rw [encodedBytes_cons, (hdecode _ _).mp hfile, length_asBytes_encode] at hroom
  omega

/-- A loop that ends has staged the decoded contents in order, within the limit. -/
theorem decodeFiles_sound (hdecode : StandardDecoder decode) {total : ℕ} {files : List PayloadFile}
    {staged : List SandboxFile} (hroom : total + encodedBytes files < 2 ^ 64)
    (htotal : total ≤ policy.maxTotalFileBytes.toNat)
    (h : policy.decodeFiles decode total files = .ok staged) :
    List.Forall₂ (fun file s => s.path = file.path ∧ decode file.contentB64 = some s.contents)
      files staged ∧
    total + totalBytes (staged.map SandboxFile.contents) ≤ policy.maxTotalFileBytes.toNat := by
  induction files generalizing total staged with
  | nil =>
    cases h
    exact ⟨.nil, htotal⟩
  | cons file rest ih =>
    cases hfile : decode file.contentB64 with
    | none =>
      rw [decodeFiles, hfile] at h
      split_ifs at h
    | some bytes =>
      rw [decodeFiles_cons hdecode hfile rest hroom] at h
      split_ifs at h with hsize
      obtain ⟨files, hrest, hcons⟩ := bind_eq_ok.mp h
      cases hcons
      rw [not_or, not_lt, not_lt] at hsize
      obtain ⟨hstaged, hle⟩ := ih (room_rest hdecode hfile hroom) hsize.2 hrest
      refine ⟨.cons ⟨rfl, hfile⟩ hstaged, ?_⟩
      rw [List.map_cons, totalBytes_cons, ← Nat.add_assoc]
      exact hle

/-- The loop finds the files too large for their total, or for a single file whose size is
above the limit once that is rounded down to a multiple of three. -/
theorem decodeFiles_tooLarge (hdecode : StandardDecoder decode) {total : ℕ}
    {files : List PayloadFile} {contents : List Bytes}
    (hcontents : List.Forall₂ (fun file bytes => decode file.contentB64 = some bytes)
      files contents)
    (hroom : total + encodedBytes files < 2 ^ 64)
    (htotal : total ≤ policy.maxTotalFileBytes.toNat) :
    policy.decodeFiles decode total files = .error .filesTooLarge ↔
      policy.maxTotalFileBytes.toNat < total + totalBytes contents ∨
        ∃ bytes ∈ contents, policy.maxTotalFileBytes.toNat / 3 * 3 < bytes.length := by
  induction hcontents generalizing total with
  | nil =>
    have hle : ¬policy.maxTotalFileBytes.toNat < total + totalBytes [] := not_lt.mpr htotal
    simp [decodeFiles, hle]
  | @cons file bytes rest contents hfile hrest ih =>
    rw [decodeFiles_cons hdecode hfile rest hroom, totalBytes_cons, ← Nat.add_assoc]
    simp only [List.mem_cons, exists_eq_or_imp]
    split_ifs with hsize
    · refine iff_of_true rfl ?_
      rcases hsize with hsize | hsize
      · exact Or.inr (Or.inl hsize)
      · exact Or.inl (by omega)
    · rw [not_or] at hsize
      have hih := ih (room_rest hdecode hfile hroom) (not_lt.mp hsize.2)
      simp only [hsize.1, false_or, ← hih]
      cases policy.decodeFiles decode (total + bytes.length) rest with
      | error e => rfl
      | ok files => simp [bind, Except.bind]

/-! ## The chain of checks -/

theorem check_eq_ok {payload : ExecutionPayload} :
    policy.check payload = .ok () ↔
      payload.package ∈ policy.allowedPackages ∧
      (payload.timeoutMs ≠ 0 ∧ payload.timeoutMs ≤ policy.maxTimeoutMs) ∧
      (policy.outputLimit payload ≠ 0 ∧ policy.outputLimit payload ≤ policy.maxOutputBytes) ∧
      payload.args.length ≤ policy.maxArgs.toNat ∧
      payload.files.length ≤ policy.maxFiles.toNat := by
  unfold check
  rw [guard_eq_ok, guard_eq_ok, guard_eq_ok, guard_eq_ok, guard_eq_ok]
  simp only [not_not, not_or, not_lt, UInt64.not_lt, ne_eq, and_true]

theorem preliminary_eq_ok {sender contract : String} {body : Body} {payload : ExecutionPayload} :
    policy.preliminary sender contract body = .ok payload ↔
      contract ≠ "" ∧ sender ∈ policy.allowedPeers ∧
      ExecutionPayload.ofJson body.value = some payload ∧ policy.check payload = .ok () := by
  unfold preliminary
  rw [guard_eq_ok, guard_eq_ok, not_not]
  refine and_congr_right fun _ => and_congr_right fun _ => ?_
  cases ExecutionPayload.ofJson body.value with
  | none => simp
  | some read =>
    rw [then_eq_ok, Option.some.injEq, Except.ok.injEq]
    constructor
    · rintro ⟨hcheck, rfl⟩
      exact ⟨rfl, hcheck⟩
    · rintro ⟨rfl, hcheck⟩
      exact ⟨hcheck, rfl⟩

theorem grantEnv_eq_ok {env : List (String × String)} {granted : List Capability} :
    policy.grantEnv env = .ok granted ↔
      (∀ v ∈ env, isReserved v.1 = false ∧ v.1 ∈ policy.allowedEnv) ∧
      granted = env.map fun v => .env v.1 v.2 := by
  induction env generalizing granted with
  | nil =>
    rw [grantEnv]
    constructor
    · intro h
      cases h
      exact ⟨by simp, rfl⟩
    · rintro ⟨-, rfl⟩
      rfl
  | cons v env ih =>
    obtain ⟨key, value⟩ := v
    rw [grantEnv, guard_eq_ok, bind_eq_ok, List.forall_mem_cons, List.map_cons, and_assoc]
    simp only [ih, not_or, not_not, Bool.not_eq_true, Except.ok.injEq]
    constructor
    · rintro ⟨hkey, rest, ⟨hrest, rfl⟩, rfl⟩
      exact ⟨hkey, hrest, rfl⟩
    · rintro ⟨hkey, hrest, rfl⟩
      exact ⟨hkey, _, ⟨hrest, rfl⟩, rfl⟩

theorem checkNetwork_eq_ok {rules : List String} :
    policy.checkNetwork rules = .ok () ↔ ∀ rule ∈ rules, rule ∈ policy.allowedNetwork := by
  unfold checkNetwork
  cases hfind : rules.find? fun rule => rule ∉ policy.allowedNetwork with
  | none => simpa using hfind
  | some rule =>
    have hrule := List.find?_some hfind
    have hmem := List.mem_of_find?_eq_some hfind
    refine iff_of_false (fun h => by cases h) fun hall => ?_
    exact of_decide_eq_true hrule (hall rule hmem)

theorem authorize_eq_ok {sender contract : String} {body : Body} {request : ExecutionRequest} :
    policy.authorize decode sender contract body = .ok request ↔
      ∃ payload staged, policy.preliminary sender contract body = .ok payload ∧
      policy.decodeFiles decode 0 payload.files = .ok staged ∧
      (∀ v ∈ payload.env, isReserved v.1 = false ∧ v.1 ∈ policy.allowedEnv) ∧
      (∀ rule ∈ payload.network, rule ∈ policy.allowedNetwork) ∧
      request = {
        package := payload.package
        args := payload.args
        files := staged
        capabilities := payload.env.map (fun v => .env v.1 v.2) ++ networkGrants payload.network
        limits := ⟨.fromMillis payload.timeoutMs, policy.outputLimit payload⟩ } := by
  unfold authorize
  simp only [bind_eq_ok, grantEnv_eq_ok, Except.ok.injEq]
  constructor
  · rintro ⟨payload, hpre, staged, hfiles, granted, ⟨henv, rfl⟩, ⟨⟩, hnet, rfl⟩
    exact ⟨payload, staged, hpre, hfiles, henv, checkNetwork_eq_ok.mp hnet, rfl⟩
  · rintro ⟨payload, staged, hpre, hfiles, henv, hnet, rfl⟩
    exact ⟨payload, hpre, staged, hfiles, _, ⟨henv, rfl⟩, ⟨⟩, checkNetwork_eq_ok.mpr hnet, rfl⟩

theorem grantEnv_failsAs (env : List (String × String)) :
    FailsAs (· ≠ .filesTooLarge) (policy.grantEnv env) := by
  induction env with
  | nil => exact .ok _
  | cons v env ih =>
    rw [grantEnv]
    exact .guard (by simp) (.bind ih fun _ => .ok _)

theorem checkNetwork_failsAs (rules : List String) :
    FailsAs (· ≠ .filesTooLarge) (policy.checkNetwork rules) := by
  unfold checkNetwork
  cases rules.find? fun rule => rule ∉ policy.allowedNetwork with
  | none => exact .ok _
  | some rule => exact .error (by simp)

theorem authorize_tooLarge {sender contract : String} {body : Body} {payload : ExecutionPayload}
    (h : policy.preliminary sender contract body = .ok payload) :
    policy.authorize decode sender contract body = .error .filesTooLarge ↔
      policy.decodeFiles decode 0 payload.files = .error .filesTooLarge := by
  unfold authorize
  rw [h]
  change (policy.decodeFiles decode 0 payload.files >>= _) = _ ↔ _
  cases policy.decodeFiles decode 0 payload.files with
  | error e => simp [bind, Except.bind]
  | ok staged =>
    refine iff_of_false (fun hlarge => ?_) (by simp)
    have hrest {f : List Capability → ExecutionRequest} : FailsAs (· ≠ .filesTooLarge)
        (policy.grantEnv payload.env >>= fun granted =>
          policy.checkNetwork payload.network >>= fun _ => .ok (f granted)) :=
      .bind (grantEnv_failsAs _) fun _ => .bind (checkNetwork_failsAs _) fun _ => .ok _
    exact hrest _ hlarge rfl

/-- What holds of a request that was authorized, with the payload its body reads as. -/
structure Authorized (policy : ExecutionPolicy) (sender contract : String)
    (payload : ExecutionPayload) (request : ExecutionRequest) : Prop where
  bound : contract ≠ ""
  peer : sender ∈ policy.allowedPeers
  package : request.package ∈ policy.allowedPackages
  timeout : (Duration.fromMillis 1).nanos ≤ request.limits.timeout.nanos ∧
    request.limits.timeout.nanos ≤ (Duration.fromMillis policy.maxTimeoutMs).nanos
  output : 1 ≤ request.limits.maxOutputBytes ∧
    request.limits.maxOutputBytes ≤ policy.maxOutputBytes
  argCount : request.args.length ≤ policy.maxArgs.toNat
  fileCount : request.files.length ≤ policy.maxFiles.toNat
  /-- The files are those of the payload in order, decoded. -/
  files : List.Forall₂
    (fun file staged => staged.path = file.path ∧
      file.contentB64 = Base64.encode staged.contents) payload.files request.files
  total : totalBytes (request.files.map SandboxFile.contents) ≤ policy.maxTotalFileBytes.toNat
  env : ∀ key value, .env key value ∈ request.capabilities →
    key ∈ policy.allowedEnv ∧ ¬StartsReserved key
  network : ∀ rules, .network rules ∈ request.capabilities →
    ∀ rule ∈ rules, rule ∈ policy.allowedNetwork
  /-- An empty rule list is no network capability. -/
  offline : payload.network = [] → ∀ rules, .network rules ∉ request.capabilities
  /-- Everything else is the payload's too, or the default of the policy. -/
  source : request = {
    package := payload.package
    args := payload.args
    files := request.files
    capabilities := payload.env.map (fun v => .env v.1 v.2) ++
      if payload.network = [] then [] else [.network payload.network]
    limits := ⟨.fromMillis payload.timeoutMs,
      payload.maxOutputBytes.getD policy.maxOutputBytes⟩ }

theorem networkGrants_eq (rules : List String) :
    networkGrants rules = if rules = [] then [] else [.network rules] := by
  cases rules <;> rfl

theorem env_mem_granted {env : List (String × String)} {rules : List String} {key value : String}
    (h : .env key value ∈ env.map (fun v => Capability.env v.1 v.2) ++ networkGrants rules) :
    (key, value) ∈ env := by
  rw [networkGrants_eq, List.mem_append, List.mem_map] at h
  rcases h with ⟨v, hv, heq⟩ | h
  · cases heq
    exact hv
  · split_ifs at h
    · cases h
    · cases List.mem_singleton.mp h

theorem network_mem_granted {env : List (String × String)} {rules granted : List String}
    (h : .network granted ∈ env.map (fun v => Capability.env v.1 v.2) ++ networkGrants rules) :
    rules ≠ [] ∧ granted = rules := by
  rw [networkGrants_eq, List.mem_append, List.mem_map] at h
  rcases h with ⟨v, -, heq⟩ | h
  · cases heq
  · split_ifs at h with hnil
    · cases h
    · cases List.mem_singleton.mp h
      exact ⟨hnil, rfl⟩

theorem room (body : Body) {payload : ExecutionPayload}
    (h : ExecutionPayload.ofJson body.value = some payload) :
    0 + encodedBytes payload.files < 2 ^ 64 := by
  have hbytes := ExecutionPayload.ofJson_bytes h
  have hresident := body.resident
  omega

theorem timeout_bounds {ms max : UInt64} (hzero : ms ≠ 0) (hmax : ms ≤ max) :
    (Duration.fromMillis 1).nanos ≤ (Duration.fromMillis ms).nanos ∧
      (Duration.fromMillis ms).nanos ≤ (Duration.fromMillis max).nanos := by
  rw [ne_eq, ← UInt64.toNat_inj] at hzero
  rw [UInt64.le_iff_toNat_le] at hmax
  simp only [Duration.fromMillis, UInt64.toNat_zero, UInt64.toNat_one] at hzero ⊢
  omega

/-- Authorization is sound. -/
theorem authorize_sound (hdecode : StandardDecoder decode) {sender contract : String}
    {body : Body} {request : ExecutionRequest}
    (h : policy.authorize decode sender contract body = .ok request) :
    ∃ payload, ExecutionPayload.ofJson body.value = some payload ∧
      policy.Authorized sender contract payload request := by
  obtain ⟨payload, staged, hpre, hfiles, henv, hnetwork, rfl⟩ := authorize_eq_ok.mp h
  obtain ⟨hbound, hpeer, hjson, hcheck⟩ := preliminary_eq_ok.mp hpre
  obtain ⟨hpackage, ⟨hzero, hmax⟩, ⟨hempty, hlimit⟩, hargs, hcount⟩ := check_eq_ok.mp hcheck
  obtain ⟨hstaged, htotal⟩ :=
    decodeFiles_sound hdecode (room body hjson) (Nat.zero_le _) hfiles
  refine ⟨payload, hjson, ?_⟩
  constructor
  · exact hbound
  · exact hpeer
  · exact hpackage
  · exact timeout_bounds hzero hmax
  · refine ⟨?_, hlimit⟩
    rw [ne_eq, ← UInt64.toNat_inj, UInt64.toNat_zero] at hempty
    rw [UInt64.le_iff_toNat_le, UInt64.toNat_one]
    exact Nat.one_le_iff_ne_zero.mpr hempty
  · exact hargs
  · rw [← hstaged.length_eq]
    exact hcount
  · exact hstaged.imp fun _ _ hfile => ⟨hfile.1, (hdecode _ _).mp hfile.2⟩
  · rw [Nat.zero_add] at htotal
    exact htotal
  · intro key value hmem
    obtain ⟨hfree, hallowed⟩ := henv _ (env_mem_granted hmem)
    refine ⟨hallowed, fun hreserved => ?_⟩
    rw [isReserved_iff.mpr hreserved] at hfree
    cases hfree
  · intro rules hmem
    rw [(network_mem_granted hmem).2]
    exact hnetwork
  · exact fun hnil rules hmem => (network_mem_granted hmem).1 hnil
  · rw [networkGrants_eq]
    rfl

def samplePolicy (maxTotalFileBytes : UInt64) : ExecutionPolicy where
  allowedPeers := ["urn:hacp:agent:a"]
  allowedPackages := ["python/python@3.13.20"]
  maxTimeoutMs := 10000
  maxOutputBytes := 65536
  maxArgs := 8
  maxFiles := 4
  maxTotalFileBytes
  allowedEnv := ["SANDBOX_GREETING"]
  allowedNetwork := []

def sampleBody : Body where
  value := .object [
    ("args", .array [.string "/work/main.py"]),
    ("env", .object [("SANDBOX_GREETING", .string "hello")]),
    ("files", .array [.object [("content_b64", .string "MDEyMzQ1Njc4OWFiY2RlZg=="),
      ("path", .string "main.py")]]),
    ("package", .string "python/python@3.13.20"),
    ("timeout_ms", .number (.integer 5000))]
  resident := by decide

def samplePayload : ExecutionPayload where
  package := "python/python@3.13.20"
  args := ["/work/main.py"]
  files := [⟨"main.py", "MDEyMzQ1Njc4OWFiY2RlZg=="⟩]
  env := [("SANDBOX_GREETING", "hello")]
  network := []
  timeoutMs := 5000
  maxOutputBytes := none

def sampleContents : Bytes := [48, 49, 50, 51, 52, 53, 54, 55, 56, 57, 97, 98, 99, 100, 101, 102]

theorem authorize_sound_sample :
    ∃ payload, ExecutionPayload.ofJson sampleBody.value = some payload ∧
      (samplePolicy 65536).Authorized "urn:hacp:agent:a" "sha256:33" payload
        { package := "python/python@3.13.20"
          args := ["/work/main.py"]
          files := [⟨"main.py", sampleContents⟩]
          capabilities := [.env "SANDBOX_GREETING" "hello"]
          limits := ⟨.fromMillis 5000, 65536⟩ } :=
  authorize_sound standardDecoder_decode (by rfl)

/-- The early check agrees with the exact one when the total is over the limit, or when no
file alone is above the limit rounded down to a multiple of three. -/
theorem early_check_agrees (hdecode : StandardDecoder decode) {sender contract : String}
    {body : Body} {payload : ExecutionPayload} {contents : List Bytes}
    (hpre : policy.preliminary sender contract body = .ok payload)
    (hcontents : List.Forall₂ (fun file bytes => decode file.contentB64 = some bytes)
      payload.files contents) :
    (policy.authorize decode sender contract body = .error .filesTooLarge ↔
      policy.maxTotalFileBytes.toNat < totalBytes contents) ↔
    (policy.maxTotalFileBytes.toNat < totalBytes contents ∨
      ∀ bytes ∈ contents, bytes.length ≤ policy.maxTotalFileBytes.toNat / 3 * 3) := by
  have hjson := (preliminary_eq_ok.mp hpre).2.2.1
  rw [authorize_tooLarge hpre,
    decodeFiles_tooLarge hdecode hcontents (room body hjson) (Nat.zero_le _), Nat.zero_add]
  by_cases hlarge : policy.maxTotalFileBytes.toNat < totalBytes contents
  · simp [hlarge]
  · simp [hlarge]

theorem early_check_agrees_sample :
    ((samplePolicy 18).authorize Base64.decode "urn:hacp:agent:a" "sha256:33" sampleBody =
        .error .filesTooLarge ↔ (18 : UInt64).toNat < totalBytes [sampleContents]) ↔
      ((18 : UInt64).toNat < totalBytes [sampleContents] ∨
        ∀ bytes ∈ [sampleContents], bytes.length ≤ (18 : UInt64).toNat / 3 * 3) := by
  have hpre : (samplePolicy 18).preliminary "urn:hacp:agent:a" "sha256:33" sampleBody =
      .ok samplePayload := by rfl
  exact early_check_agrees standardDecoder_decode hpre (.cons (by rfl) .nil)

/-- Sixteen bytes are refused under a limit of sixteen. -/
theorem early_check_refuses_padding :
    (samplePolicy 16).preliminary "urn:hacp:agent:a" "sha256:33" sampleBody =
        .ok samplePayload ∧
      List.Forall₂ (fun file bytes => Base64.decode file.contentB64 = some bytes)
        samplePayload.files [sampleContents] ∧
      (samplePolicy 16).authorize Base64.decode "urn:hacp:agent:a" "sha256:33" sampleBody =
        .error .filesTooLarge ∧
      ¬(samplePolicy 16).maxTotalFileBytes.toNat < totalBytes [sampleContents] :=
  ⟨by rfl, .cons (by rfl) .nil, by rfl, by decide⟩

end ExecutionPolicy
end Hacp.Wasmer
