import Hacp.Secure.Workflow
import Hacp.Wasmer.Execution

/-!
# The execution service

The service opens its context at the guardian, reports what the guardian rejected, runs the
delivered requests that the policy authorizes, and answers every request to its sender under the
binding it came with. It has no keys: the guardian authenticates the sender and checks the
binding before anything is delivered.
-/
namespace Hacp.Wasmer
open Lib V2 Secure

def requestKind : String := "sandbox.execution.request"

def resultKind : String := "sandbox.execution.result"

/-! ## Results -/

inductive Failure where
  | invalidRequest (msg : String)
  | runtimeUnavailable (msg : String)
  | timedOut (after : Duration)
  | io (msg : String)

structure ExecutionResult where
  exitCode : Option Int32
  stdout : String
  stderr : String
  outputTruncated : Bool
  duration : Duration
  failure : Option Failure

/-- The fraction of a unit that is divided into `10 ^ width` parts, without zeros at its end. -/
def fractionText (width part : ℕ) : String :=
  if part = 0 then ""
  else
    let digits := Nat.toDigits 10 part
    let padded := List.replicate (width - digits.length) '0' ++ digits
    "." ++ String.ofList (padded.reverse.dropWhile (· = '0')).reverse

/-- `{:?}` of a duration, in the largest unit that is not empty. -/
def Duration.text (d : Duration) : String :=
  if 10 ^ 9 ≤ d.nanos then
    toString (d.nanos / 10 ^ 9) ++ fractionText 9 (d.nanos % 10 ^ 9) ++ "s"
  else if 10 ^ 6 ≤ d.nanos then
    toString (d.nanos / 10 ^ 6) ++ fractionText 6 (d.nanos % 10 ^ 6) ++ "ms"
  else if 10 ^ 3 ≤ d.nanos then
    toString (d.nanos / 10 ^ 3) ++ fractionText 3 (d.nanos % 10 ^ 3) ++ "µs"
  else toString d.nanos ++ "ns"

def Failure.kind : Failure → String
  | .invalidRequest _ => "InvalidRequest"
  | .runtimeUnavailable _ => "RuntimeUnavailable"
  | .timedOut _ => "TimedOut"
  | .io _ => "Io"

/-- What the requester is told: a fixed text where the message is about the host. -/
def Failure.detail : Failure → String
  | .invalidRequest msg => msg
  | .runtimeUnavailable _ => "wasmer runtime unavailable"
  | .timedOut after => "execution timed out after " ++ after.text
  | .io _ => "sandbox host error"

def Failure.toJson (failure : Failure) : Json :=
  .object [("detail", .string failure.detail), ("kind", .string failure.kind)]

/-- A failure without what it says about the host. -/
def Failure.shown : Failure → Failure
  | .runtimeUnavailable _ => .runtimeUnavailable ""
  | .io _ => .io ""
  | .invalidRequest msg => .invalidRequest msg
  | .timedOut after => .timedOut after

inductive Status where
  | executed
  | failed
  | denied
  | rejected
  | ignored
  deriving DecidableEq

namespace ExecutionResult

def shown (result : ExecutionResult) : ExecutionResult :=
  { result with failure := result.failure.map Failure.shown }

/-- What the outcome of a run says of it. -/
def status (result : ExecutionResult) : Status :=
  if result.failure.isNone then .executed else .failed

def detail (result : ExecutionResult) : String :=
  match result.failure with
  | none => "exit " ++ (result.exitCode.map fun c => toString c.toInt).getD "none"
  | some fault => fault.kind

def millis (result : ExecutionResult) : ℕ :=
  min (result.duration.nanos / 1000000) (2 ^ 64 - 1)

def resultBody (result : ExecutionResult) : Json :=
  .object [("duration_ms", natural result.millis),
    ("exit_code", (result.exitCode.map fun c => .number (.integer c.toInt)).getD .null),
    ("failure", (result.failure.map Failure.toJson).getD .null),
    ("output_truncated", .bool result.outputTruncated),
    ("status", .string (if result.failure.isNone then "completed" else "failed")),
    ("stderr", .string result.stderr), ("stdout", .string result.stdout)]

theorem shown_same (result : ExecutionResult) : resultBody result.shown = resultBody result ∧
    result.shown.status = result.status ∧ result.shown.detail = result.detail := by
  obtain ⟨exitCode, stdout, stderr, truncated, duration, _ | fault⟩ := result
  · exact ⟨rfl, rfl, rfl⟩
  · cases fault <;> exact ⟨rfl, rfl, rfl⟩

theorem told_alike {r r' : ExecutionResult} (h : r.shown = r'.shown) :
    resultBody r = resultBody r' ∧ r.status = r'.status ∧ r.detail = r'.detail := by
  obtain ⟨hbody, hstatus, hdetail⟩ := r.shown_same
  obtain ⟨hbody', hstatus', hdetail'⟩ := r'.shown_same
  rw [h] at hbody hstatus hdetail
  exact ⟨hbody.symm.trans hbody', hstatus.symm.trans hstatus', hdetail.symm.trans hdetail'⟩

end ExecutionResult

/-! ## Denials -/

def Denial.code : Denial → String
  | .unbound => "Unbound"
  | .peerNotAllowed _ => "PeerNotAllowed"
  | .malformed _ => "Malformed"
  | .packageNotAllowed _ => "PackageNotAllowed"
  | .timeoutOutOfPolicy _ => "TimeoutOutOfPolicy"
  | .outputLimitOutOfPolicy _ => "OutputLimitOutOfPolicy"
  | .tooManyArgs _ => "TooManyArgs"
  | .tooManyFiles _ => "TooManyFiles"
  | .filesTooLarge => "FilesTooLarge"
  | .envNotAllowed _ => "EnvNotAllowed"
  | .networkNotAllowed _ => "NetworkNotAllowed"

/-- The text of a denial, given that of the failed deserialization. -/
def Denial.text (schema : String) : Denial → String
  | .unbound => "request is not bound to a frozen HACP contract"
  | .peerNotAllowed peer => s!"{peer} may not request execution"
  | .malformed .schema => s!"malformed execution request: {schema}"
  | .malformed (.notBase64 path) => s!"malformed execution request: file `{path}` is not base64"
  | .packageNotAllowed package => s!"package `{package}` is not allowed by policy"
  | .timeoutOutOfPolicy ms => s!"timeout {ms} ms is outside policy"
  | .outputLimitOutOfPolicy bytes => s!"output limit {bytes} bytes is outside policy"
  | .tooManyArgs n => s!"{n} arguments exceed policy"
  | .tooManyFiles n => s!"{n} files exceed policy"
  | .filesTooLarge => "staged files exceed the policy size limit"
  | .envNotAllowed key => s!"guest variable `{key}` is not allowed by policy"
  | .networkNotAllowed rule => s!"network rule `{rule}` is not allowed by policy"

def denialBody (schema : String) (denial : Denial) : Json :=
  .object [("denial", .object [("code", .string denial.code),
    ("detail", .string (denial.text schema))]), ("status", .string "denied")]

/-- The authorization of a value. Every value is in memory; the bound is that of its address
space. -/
def ExecutionPolicy.authorizeValue (policy : ExecutionPolicy) (decode : String → Option Bytes)
    (sender contract : String) (v : Json) : Except Denial ExecutionRequest :=
  if resident : v.textBytes < 2 ^ 64 then policy.authorize decode sender contract ⟨v, resident⟩
  else .error (.malformed .schema)

/-! ## Outcomes -/

/-- What the service did with one entry of a report. -/
structure Outcome where
  messageId : Option String
  from_ : Option String
  status : Status
  detail : String
  replied : Bool
  deriving DecidableEq

def Outcome.rejected (e : SecureError) : Outcome := ⟨none, none, .rejected, e.name, false⟩

/-! ## Deliveries -/

structure Delivered where
  from_ : String
  contract : String
  message : V2.Envelope

section Decode
variable (F : Foreign) (C : Crates) (local_ context : String)

/-- The checks of `decode` on a payload and the authenticated sender. -/
def readDelivered (from_ contract : String) (payload : Bytes) : Except SecureError Delivered := do
  let m ← orSchema ((C.tokens payload).bind V2.Envelope.ofJson)
  (m.validate F).mapError fun _ => SecureError.schemaViolation
  if m.from_ ≠ from_ ∨ m.to_ ≠ local_ ∨ m.sessionId ≠ context then .error .identityMismatch
  else .ok ⟨from_, contract, m⟩

def decode (d : Json) : Except SecureError Delivered :=
  if (d.at_ "sid").asStr.all (· = "") then .error .downgradeDetected
  else do
    let from_ ← orSchema (d.at_ "from").asStr
    let contract ← orSchema (d.at_ "contract").asStr
    let text ← orSchema (d.at_ "payload_b64").asStr
    let payload ← orSchema (C.base64 text)
    readDelivered F C local_ context from_ contract payload

/-- `decode`, on a delivery of the transport. -/
def decodeDelivery (d : Delivery) : Except SecureError Delivered :=
  if d.sid = "" then .error .downgradeDetected
  else readDelivered F C local_ context d.from_ d.contract d.payload

end Decode

/-- What a report is to the service: the rejections under the keys they are remembered by, and the
deliveries. -/
structure Report where
  rejections : List ((String × String) × SecureError)
  deliveries : List (Except SecureError Delivered)

section Report
variable (F : Foreign) (C : Crates) (local_ context : String)

/-- An entry of a report under `field`, about what `subject` names. -/
def rejectionOf (field subject : String) (entry : Json) : (String × String) × SecureError :=
  let error := (SecureError.ofJson (entry.at_ "error")).getD .guardianUnavailable
  ((field ++ ":" ++ (entry.at_ subject).asStr.getD "", error.name), error)

def entriesOf (report : Json) (field : String) : List Json := (report.at_ field).asArray.getD []

def readReport (report : Json) : Report where
  rejections := (entriesOf report "rejected").map (rejectionOf "rejected" "file") ++
    (entriesOf report "aborted").map (rejectionOf "aborted" "sid")
  deliveries := (entriesOf report "delivered").map (decode F C local_ context)

/-- The report of what the guardian has gathered. -/
def reportOf (b : Gathered) : Report where
  rejections := (b.rejected.map fun r => (("rejected:" ++ r.1, r.2.name), r.2)) ++
    b.aborted.map fun a => (("aborted:" ++ a.1, a.2.name), a.2)
  deliveries := b.delivered.map (decodeDelivery F C local_ context)

end Report

def guardianReport (C : Crates) (write : Json → Bytes) {σ : Type} (socket : Socket σ) (s : σ)
    (context : String) : σ × Except SecureError Json :=
  match Client.request C write socket s (Request.open_ context).toJson with
  | (s, .error e) => (s, .error e)
  | (s, .ok report) =>
    if ["delivered", "rejected", "aborted"].all fun field => (report.at_ field).asArray.isSome then
      (s, .ok report)
    else (s, .error .guardianUnavailable)

/-! ## The service -/

/-- What the service finds on its host: the executor, and fresh identifiers and timestamps. -/
structure Host (ω : Type) where
  execute : ω → ExecutionRequest → ω × ExecutionResult
  /-- `uuid::Uuid::new_v4().simple()` and `canonical_now()`. -/
  mint : ω → ω × String × String
  /-- The message of the failed deserialization of a body. -/
  schemaError : Json → String

structure ExecutionService where
  socketPath : String
  local_ : String
  context : String
  policy : ExecutionPolicy

/-- A request that was run, the message it came in, and what came of it. -/
structure Run where
  delivered : Delivered
  request : ExecutionRequest
  result : ExecutionResult

structure Serving (σ ω : Type) where
  socket : σ
  host : ω
  /-- Rejections that were reported. -/
  reported : Finset (String × String)
  runs : List Run

def Serving.ran {σ ω : Type} (s : Serving σ ω) : List (Delivered × ExecutionRequest) :=
  s.runs.map fun r => (r.delivered, r.request)

def Serving.start {σ ω : Type} (socket : σ) (host : ω) : Serving σ ω := ⟨socket, host, ∅, []⟩

/-- `Envelope::new`. -/
def newEnvelope (minted : String × String) (sessionId from_ to_ kind : String) (body : Json) :
    V2.Envelope where
  protocol := V2.protocol
  messageId := "m-" ++ minted.1
  sessionId := sessionId
  from_ := from_
  to_ := to_
  kind := kind
  timestamp := minted.2
  inReplyTo := none
  body := body
  extra := ∅

namespace ExecutionService

def validateIdentities (local_ context : String) (others : List String) : Except SecureError Unit :=
  if context = "" ∨ (AgentUrn.parse local_).toOption.isNone ∨
      others.any fun urn => (AgentUrn.parse urn).toOption.isNone then .error .schemaViolation
  else .ok ()

def new (socketPath local_ context : String) (policy : ExecutionPolicy) :
    Except SecureError ExecutionService := do
  validateIdentities local_ context policy.allowedPeers
  .ok ⟨socketPath, local_, context, policy⟩

def replyTo (x : ExecutionService) (d : Delivered) (minted : String × String) (body : Json) :
    V2.Envelope :=
  { newEnvelope minted x.context x.local_ d.from_ resultKind body with
    inReplyTo := some d.message.messageId }

section Step
variable (C : Crates) {σ ω : Type} (host : Host ω) (x : ExecutionService)
  (send : Workflow → σ → V2.Envelope → String → σ × Except SecureError Unit)

/-- A request is authorized and run, or denied: its status, its detail and the body of the reply. -/
def perform (s : Serving σ ω) (d : Delivered) : Serving σ ω × Status × String × Json :=
  match x.policy.authorizeValue C.base64 d.from_ d.contract d.message.body with
  | .ok request =>
    let (h, result) := host.execute s.host request
    ({ s with host := h, runs := s.runs ++ [⟨d, request, result⟩] }, result.status,
      result.detail, result.resultBody)
  | .error denial =>
    (s, .denied, denial.code, denialBody (host.schemaError d.message.body) denial)

/-- The reply, which carries the binding of the request. -/
def reply (s : Serving σ ω) (d : Delivered) (body : Json) : Serving σ ω × Bool :=
  let (h, minted) := host.mint s.host
  let s := { s with host := h }
  match Workflow.new x.socketPath x.local_ d.from_ x.context with
  | .error _ => (s, false)
  | .ok workflow =>
    let (socket, result) := send workflow s.socket (x.replyTo d minted body) d.contract
    ({ s with socket := socket }, result.isOk)

def handle (s : Serving σ ω) (delivery : Except SecureError Delivered) : Serving σ ω × Outcome :=
  match delivery with
  | .error e => (s, .rejected e)
  | .ok d =>
    if d.message.kind ≠ requestKind then
      (s, ⟨some d.message.messageId, some d.from_, .ignored, "kind " ++ d.message.kind, false⟩)
    else
      let (s, status, detail, body) := perform C host x s d
      let (s, replied) := reply host x send s d body
      (s, ⟨some d.message.messageId, some d.from_, status, detail, replied⟩)

/-- One turn of the loop over the rejections: each distinct one is reported once. -/
def reportTurn (s : Finset (String × String) × List Outcome)
    (entry : (String × String) × SecureError) : Finset (String × String) × List Outcome :=
  if entry.1 ∈ s.1 then s else (insert entry.1 s.1, s.2 ++ [.rejected entry.2])

def deliveryTurn (s : Serving σ ω × List Outcome) (delivery : Except SecureError Delivered) :
    Serving σ ω × List Outcome :=
  let (t, outcome) := handle C host x send s.1 delivery
  (t, s.2 ++ [outcome])

def process (s : Serving σ ω) (report : Report) : Serving σ ω × List Outcome :=
  let (reported, outcomes) := report.rejections.foldl reportTurn (s.reported, [])
  report.deliveries.foldl (deliveryTurn C host x send) ({ s with reported := reported }, outcomes)

end Step

section Steps
variable (F : Foreign) (C : Crates) (write : Json → Bytes) {σ ω : Type} (host : Host ω)
  (x : ExecutionService)

def step (socket : Socket σ) (s : Serving σ ω) :
    Serving σ ω × Except SecureError (List Outcome) :=
  match guardianReport C write socket s.socket x.context with
  | (t, .error e) => ({ s with socket := t }, .error e)
  | (t, .ok report) =>
    let (s, outcomes) := process C host x (fun w => w.send F C write socket)
      { s with socket := t } (readReport F C x.local_ x.context report)
    (s, .ok outcomes)

/-- `step` where nothing is written as text but the messages. -/
def askStep (ask : σ → Request → σ × Except SecureError Response) (s : Serving σ ω) :
    Serving σ ω × Except SecureError (List Outcome) :=
  match ask s.socket (.open_ x.context) with
  | (t, .error e) => ({ s with socket := t }, .error e)
  | (t, .ok (.opened b)) =>
    let (s, outcomes) := process C host x (fun w => w.askSend F write ask)
      { s with socket := t } (reportOf F C x.local_ x.context b)
    (s, .ok outcomes)
  | (t, .ok _) => ({ s with socket := t }, .error .guardianUnavailable)

def machine (socket : Socket σ) : Machine (Serving σ ω) Unit (Except SecureError (List Outcome)) where
  step s _ := x.step F C write host socket s

def asked (ask : σ → Request → σ × Except SecureError Response) :
    Machine (Serving σ ω) Unit (Except SecureError (List Outcome)) where
  step s _ := x.askStep F C write host ask s

end Steps

/-! ## Text makes no difference -/

section Agree
variable {F : Foreign} {C : Crates} {write : Json → Bytes} {local_ context : String}

theorem decode_toJson (hserde : Serde C write) (d : Delivery) :
    decode F C local_ context d.toJson = decodeDelivery F C local_ context d := by
  have hsid : (d.toJson.at_ "sid").asStr = some d.sid := rfl
  have hfrom : (d.toJson.at_ "from").asStr = some d.from_ := rfl
  have hcontract : (d.toJson.at_ "contract").asStr = some d.contract := rfl
  have hpayload : (d.toJson.at_ "payload_b64").asStr = some (Base64.encode d.payload) := rfl
  unfold decode decodeDelivery
  rw [hsid, hfrom, hcontract, hpayload]
  simp [orSchema, hserde.base64, bind, Except.bind]

/-- An entry of a report names its error and its subject. -/
theorem rejectionOf_entry {field subject : String} {entry : Json} {e : SecureError} (text : String)
    (herror : entry.at_ "error" = e.toJson) (hsubject : (entry.at_ subject).asStr = some text) :
    rejectionOf field subject entry = ((field ++ ":" ++ text, e.name), e) := by
  unfold rejectionOf
  rw [herror, hsubject, SecureError.ofJson_toJson]
  rfl

theorem readReport_opened (hserde : Serde C write) (b : Gathered) :
    readReport F C local_ context (Response.opened b).toJson = reportOf F C local_ context b := by
  have hdelivered : entriesOf (Response.opened b).toJson "delivered" =
      b.delivered.map Delivery.toJson := rfl
  have hrejected : entriesOf (Response.opened b).toJson "rejected" = b.rejected.map rejectedJson :=
    rfl
  have haborted : entriesOf (Response.opened b).toJson "aborted" = b.aborted.map abortedJson := rfl
  have hrejection (r : String × SecureError) :
      rejectionOf "rejected" "file" (rejectedJson r) = (("rejected:" ++ r.1, r.2.name), r.2) :=
    rejectionOf_entry r.1 rfl rfl
  have habortion (a : String × SecureError) :
      rejectionOf "aborted" "sid" (abortedJson a) = (("aborted:" ++ a.1, a.2.name), a.2) :=
    rejectionOf_entry a.1 rfl rfl
  unfold readReport reportOf
  rw [hdelivered, hrejected, haborted]
  simp [Function.comp_def, hrejection, habortion, decode_toJson hserde]

section Asked
variable {σ ω : Type} {socket : Socket σ} {ask : σ → Request → σ × Except SecureError Response}
  (hask : ∀ s r, Client.request C write socket s r.toJson =
    ((ask s r).1, (ask s r).2.map Response.toJson))
include hask

theorem step_eq_ask (hserde : Serde C write) (host : Host ω) (x : ExecutionService)
    (s : Serving σ ω) : x.step F C write host socket s = x.askStep F C write host ask s := by
  have hsend : (fun w : Workflow => w.send F C write socket) = fun w => w.askSend F write ask := by
    funext w t m contract
    exact Workflow.send_eq_ask hask t m contract
  unfold step askStep guardianReport
  rw [hask, hsend]
  obtain ⟨t, e | r⟩ := ask s.socket (.open_ x.context)
  · rfl
  · cases r with
    | opened b =>
      have harrays : (["delivered", "rejected", "aborted"].all fun field =>
          ((Response.opened b).toJson.at_ field).asArray.isSome) = true := rfl
      dsimp only [Except.map]
      rw [if_pos harrays]
      dsimp only
      rw [readReport_opened hserde]
    | session pending peer mode => rfl
    | sealed sid seq path => rfl
    | status mode sessions insecure => rfl
    | fingerprint urn digest => rfl

/-- Where the socket answers as the guardian does, the polls are those without text. -/
theorem machine_eq_asked (hserde : Serde C write) (host : Host ω) (x : ExecutionService) :
    x.machine F C write host socket = x.asked F C write host ask := by
  unfold machine asked
  congr
  funext s poll
  exact step_eq_ask hask hserde host x s

end Asked
end Agree
end ExecutionService
end Hacp.Wasmer
