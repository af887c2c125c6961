import Hacp.Secure.Client
import Hacp.V2.EnvelopeForwarding

/-!
# The workflow of an agent

An agent without keys sends and receives its messages through the guardian. A workflow is bound
to one peer and one context; it accepts a message only where the session's peer and the addresses
inside the message agree, and reports everything else that a delivery brings as an error.
-/
namespace Hacp.Secure
open Lib V2 RateBudget

structure Workflow where
  local_ : String
  remote : String
  context : String

structure Inbox where
  messages : List V2.Envelope
  errors : List SecureError
  held : Bool

namespace Inbox

def empty : Inbox := ⟨[], [], false⟩

def take (inbox : Inbox) : Except SecureError V2.Envelope → Inbox
  | .ok m => { inbox with messages := inbox.messages ++ [m] }
  | .error e => { inbox with errors := inbox.errors ++ [e] }

def addErrors (inbox : Inbox) (es : List SecureError) : Inbox :=
  { inbox with errors := inbox.errors ++ es }

end Inbox

def failure {ε α : Type} : Except ε α → Option ε
  | .ok _ => none
  | .error e => some e

/-- The value of `ok_or(SecureError::GuardianUnavailable)`. -/
def orUnavailable {α : Type} (v : Option α) : Except SecureError α :=
  match v with
  | some a => .ok a
  | none => .error .guardianUnavailable

namespace Workflow

def new (socket local_ remote context : String) : Except SecureError Workflow :=
  if socket = "" ∨ local_ = remote ∨ context = "" then .error .schemaViolation
  else do
    let _ ← (AgentUrn.parse local_).mapError fun _ => SecureError.schemaViolation
    let _ ← (AgentUrn.parse remote).mapError fun _ => SecureError.schemaViolation
    .ok ⟨local_, remote, context⟩

section Calls
variable (F : Foreign) (C : Crates) (write : Json → Bytes) (w : Workflow)

/-- The entries of this workflow in the status of the guardian, and which of them is the session. -/
def select (status : Json) : Except SecureError (Option String) := do
  let entries ← orUnavailable (status.at_ "sessions").asArray
  match entries.filter fun s => (s.at_ "peer").asStr = some w.remote ∧
      (s.at_ "hacp_session").asStr = some w.context with
  | [] => .ok none
  | [s] =>
    if (s.at_ "state").asStr = some "Established" ∨ (s.at_ "state").asStr = some "AckSent" then
      match (s.at_ "sid").asStr with
      | some sid => if sid = "" then .error .sessionUnknown else .ok (some sid)
      | none => .error .sessionUnknown
    else .error .sessionExpired
  | _ => .error .sessionUnknown

/-- The checks of `send` in front of its requests. -/
def outgoing (m : V2.Envelope) : Except SecureError Unit := do
  (m.validate F).mapError fun _ => SecureError.schemaViolation
  if m.from_ ≠ w.local_ ∨ m.to_ ≠ w.remote ∨ m.sessionId ≠ w.context then .error .identityMismatch
  else .ok ()

/-- The checks of `decode` on the bytes of a payload. -/
def readPayload (payload : Bytes) : Except SecureError V2.Envelope := do
  let m ← orSchema ((C.tokens payload).bind V2.Envelope.ofJson)
  (m.validate F).mapError fun _ => SecureError.schemaViolation
  if m.from_ ≠ w.remote ∨ m.to_ ≠ w.local_ ∨ m.sessionId ≠ w.context then .error .identityMismatch
  else .ok m

def decode (d : Json) : Except SecureError V2.Envelope :=
  if (d.at_ "sid").asStr.all (· = "") then .error .downgradeDetected
  else if (d.at_ "from").asStr ≠ some w.remote then .error .identityMismatch
  else do
    let text ← orSchema (d.at_ "payload_b64").asStr
    let payload ← orSchema (C.base64 text)
    w.readPayload F C payload

def errorOf (entry : Json) : SecureError :=
  (SecureError.ofJson (entry.at_ "error")).getD .guardianUnavailable

/-- `receive`, on what the guardian answers. -/
def readInbox (response : Json) : Except SecureError Inbox := do
  let delivered ← orUnavailable (response.at_ "delivered").asArray
  let inbox := delivered.foldl (fun (inbox : Inbox) d => inbox.take (w.decode F C d)) .empty
  let rejected ← orUnavailable (response.at_ "rejected").asArray
  let aborted ← orUnavailable (response.at_ "aborted").asArray
  let inbox := (inbox.addErrors (rejected.map errorOf)).addErrors (aborted.map errorOf)
  let held ← orUnavailable (response.at_ "held").asArray
  .ok { inbox with held := !held.isEmpty }

variable {σ : Type} (socket : Socket σ) (s : σ)

def session : σ × Except SecureError (Option String) :=
  match Client.request C write socket s Request.status.toJson with
  | (s, .error e) => (s, .error e)
  | (s, .ok status) => (s, w.select status)

def ensureSession (initiator : Bool) : σ × Except SecureError Unit :=
  match w.session C write socket s with
  | (s, .error e) => (s, .error e)
  | (s, .ok (some _)) => (s, .ok ())
  | (s, .ok none) =>
    if initiator then
      match Client.request C write socket s (Request.session w.remote w.context).toJson with
      | (s, .error e) => (s, .error e)
      | (s, .ok _) => (s, .ok ())
    else (s, .ok ())

def send (m : V2.Envelope) (contract : String) : σ × Except SecureError Unit :=
  match w.outgoing F m with
  | .error e => (s, .error e)
  | .ok () =>
    match w.session C write socket s with
    | (s, .error e) => (s, .error e)
    | (s, .ok none) => (s, .error .sessionUnknown)
    | (s, .ok (some sid)) =>
      let payload := write m.toJson
      match Client.request C write socket s
          (Request.seal_ sid contract (Base64.encode payload)).toJson with
      | (s, .error e) => (s, .error e)
      | (s, .ok _) => (s, .ok ())

def receive : σ × Except SecureError Inbox :=
  match Client.request C write socket s (Request.open_ w.context).toJson with
  | (s, .error e) => (s, .error e)
  | (s, .ok response) => (s, w.readInbox F C response)

end Calls

/-! ## The same calls without text -/

section Asked
variable (F : Foreign) (C : Crates) (write : Json → Bytes) (w : Workflow)

def sessionIn (sessions : List SessionStatus) : Except SecureError (Option String) :=
  match sessions.filter fun s => s.info.peer = w.remote ∧ s.info.hacpSession = w.context with
  | [] => .ok none
  | [s] => if s.info.sid = "" then .error .sessionUnknown else .ok (some s.info.sid)
  | _ => .error .sessionUnknown

def accept (d : Delivery) : Except SecureError V2.Envelope :=
  if d.sid = "" then .error .downgradeDetected
  else if d.from_ ≠ w.remote then .error .identityMismatch
  else w.readPayload F C d.payload

def inboxOf (b : Gathered) : Inbox where
  messages := b.delivered.filterMap fun d => (w.accept F C d).toOption
  errors := (b.delivered.filterMap fun d => failure (w.accept F C d)) ++ b.rejected.map Prod.snd ++
    b.aborted.map Prod.snd
  held := !b.held.isEmpty

variable {σ : Type} (ask : σ → Request → σ × Except SecureError Response) (s : σ)

def askSession : σ × Except SecureError (Option String) :=
  match ask s .status with
  | (s, .error e) => (s, .error e)
  | (s, .ok (.status _ sessions _)) => (s, w.sessionIn sessions)
  | (s, .ok _) => (s, .error .guardianUnavailable)

def askEnsure (initiator : Bool) : σ × Except SecureError Unit :=
  match w.askSession ask s with
  | (s, .error e) => (s, .error e)
  | (s, .ok (some _)) => (s, .ok ())
  | (s, .ok none) =>
    if initiator then
      let (s, result) := ask s (.session w.remote w.context)
      (s, result.map fun _ => ())
    else (s, .ok ())

def askSend (m : V2.Envelope) (contract : String) : σ × Except SecureError Unit :=
  match w.outgoing F m with
  | .error e => (s, .error e)
  | .ok () =>
    match w.askSession ask s with
    | (s, .error e) => (s, .error e)
    | (s, .ok none) => (s, .error .sessionUnknown)
    | (s, .ok (some sid)) =>
      let (s, result) := ask s (.seal_ sid contract (Base64.encode (write m.toJson)))
      (s, result.map fun _ => ())

def askReceive : σ × Except SecureError Inbox :=
  match ask s (.open_ w.context) with
  | (s, .error e) => (s, .error e)
  | (s, .ok (.opened b)) => (s, .ok (w.inboxOf F C b))
  | (s, .ok _) => (s, .error .guardianUnavailable)

end Asked

/-! ## Calls -/

inductive Call where
  | ensureSession (initiator : Bool)
  | send (message : V2.Envelope) (contract : String)
  | receive

/-- What a call returns: an inbox from `receive`, nothing from the others. -/
abbrev Outcome := Except SecureError (Option Inbox)

section Machines
variable (F : Foreign) (C : Crates) (write : Json → Bytes) {σ : Type}

def quiet (r : σ × Except SecureError Unit) : σ × Outcome := (r.1, r.2.map fun _ => none)

def listed (r : σ × Except SecureError Inbox) : σ × Outcome := (r.1, r.2.map some)

def machine (socket : Socket σ) : Machine σ (Workflow × Call) Outcome where
  step s i :=
    match i.2 with
    | .ensureSession initiator => quiet (i.1.ensureSession C write socket s initiator)
    | .send m contract => quiet (i.1.send F C write socket s m contract)
    | .receive => listed (i.1.receive F C write socket s)

/-- The calls where nothing is written as text but the messages. -/
def asked (ask : σ → Request → σ × Except SecureError Response) :
    Machine σ (Workflow × Call) Outcome where
  step s i :=
    match i.2 with
    | .ensureSession initiator => quiet (i.1.askEnsure ask s initiator)
    | .send m contract => quiet (i.1.askSend F write ask s m contract)
    | .receive => listed (i.1.askReceive F C ask s)

end Machines

/-! ## Text makes no difference -/

section Agree
variable {F : Foreign} {C : Crates} {write : Json → Bytes} {w : Workflow}

/-- The session is found in the text of a status as in the status. -/
theorem select_status (mode : Mode) (sessions : List SessionStatus) (insecure : List String) :
    w.select (Response.status mode sessions insecure).toJson = w.sessionIn sessions := by
  have hsessions : (sessions.map (SessionStatus.toJson mode)).filter (fun s =>
      (s.at_ "peer").asStr = some w.remote ∧ (s.at_ "hacp_session").asStr = some w.context) =
      (sessions.filter fun s => s.info.peer = w.remote ∧ s.info.hacpSession = w.context).map
        (SessionStatus.toJson mode) := by
    rw [List.filter_map]
    congr 2
    funext s
    simp [SessionStatus.toJson, Json.at_, Json.get?, Json.asStr, List.lookup_cons]
  have hinsecure : (insecure.map insecureJson).filter (fun s =>
      (s.at_ "peer").asStr = some w.remote ∧ (s.at_ "hacp_session").asStr = some w.context) =
      [] := by
    rw [List.filter_eq_nil_iff]
    intro v hv
    obtain ⟨urn, -, rfl⟩ := List.mem_map.mp hv
    simp [insecureJson, Json.at_, Json.get?, Json.asStr, List.lookup_cons]
  have hentries : ((Response.status mode sessions insecure).toJson.at_ "sessions").asArray =
      some (sessions.map (SessionStatus.toJson mode) ++ insecure.map insecureJson) := rfl
  unfold select sessionIn
  rw [hentries]
  simp only [orUnavailable, bind, Except.bind]
  rw [List.filter_append, hsessions, hinsecure, List.append_nil]
  generalize sessions.filter (fun s => s.info.peer = w.remote ∧ s.info.hacpSession = w.context) = found
  rcases found with _ | ⟨s, _ | ⟨t, found⟩⟩
  · rfl
  · have hstate : ((s.toJson mode).at_ "state").asStr = some s.info.state.text := rfl
    have hsid : ((s.toJson mode).at_ "sid").asStr = some s.info.sid := rfl
    simp only [List.map_cons, List.map_nil, hstate, hsid]
    cases s.info.state <;> simp [SessionState.text]
  · rfl

theorem decode_toJson (hserde : Serde C write) (d : Delivery) :
    w.decode F C d.toJson = w.accept F C d := by
  have hsid : (d.toJson.at_ "sid").asStr = some d.sid := rfl
  have hfrom : (d.toJson.at_ "from").asStr = some d.from_ := rfl
  have hpayload : (d.toJson.at_ "payload_b64").asStr = some (Base64.encode d.payload) := rfl
  unfold decode accept
  rw [hsid, hfrom, hpayload]
  simp [orSchema, hserde.base64, bind, Except.bind]

theorem foldl_take {α : Type} (f : α → Except SecureError V2.Envelope) (ds : List α)
    (inbox : Inbox) :
    ds.foldl (fun (inbox : Inbox) d => inbox.take (f d)) inbox =
      ⟨inbox.messages ++ ds.filterMap fun d => (f d).toOption,
        inbox.errors ++ ds.filterMap fun d => failure (f d), inbox.held⟩ := by
  induction ds generalizing inbox with
  | nil => simp
  | cons d ds ih =>
    rw [List.foldl_cons, ih]
    cases h : f d with
    | ok m => simp [Inbox.take, Except.toOption, failure, h]
    | error e => simp [Inbox.take, Except.toOption, failure, h]

theorem errors_toJson (entries : List (String × SecureError)) :
    (entries.map rejectedJson).map errorOf = entries.map Prod.snd ∧
      (entries.map abortedJson).map errorOf = entries.map Prod.snd := by
  have hrejected (r : String × SecureError) : errorOf (rejectedJson r) = r.2 := by
    have hat : (rejectedJson r).at_ "error" = r.2.toJson := rfl
    rw [errorOf, hat, SecureError.ofJson_toJson, Option.getD_some]
  have haborted (a : String × SecureError) : errorOf (abortedJson a) = a.2 := by
    have hat : (abortedJson a).at_ "error" = a.2.toJson := rfl
    rw [errorOf, hat, SecureError.ofJson_toJson, Option.getD_some]
  simp [Function.comp_def, hrejected, haborted]

theorem readInbox_opened (hserde : Serde C write) (b : Gathered) :
    w.readInbox F C (Response.opened b).toJson = .ok (w.inboxOf F C b) := by
  have hdelivered : ((Response.opened b).toJson.at_ "delivered").asArray =
      some (b.delivered.map Delivery.toJson) := rfl
  have hrejected : ((Response.opened b).toJson.at_ "rejected").asArray =
      some (b.rejected.map rejectedJson) := rfl
  have haborted : ((Response.opened b).toJson.at_ "aborted").asArray =
      some (b.aborted.map abortedJson) := rfl
  have hheld : ((Response.opened b).toJson.at_ "held").asArray = some (b.held.map Held.toJson) := rfl
  unfold readInbox
  rw [hdelivered, hrejected, haborted, hheld]
  simp only [orUnavailable, bind, Except.bind, List.foldl_map, decode_toJson hserde]
  rw [foldl_take (w.accept F C)]
  simp [Inbox.addErrors, Inbox.empty, inboxOf, (errors_toJson _).1, (errors_toJson _).2]

section Asked
variable {σ : Type} {socket : Socket σ} {ask : σ → Request → σ × Except SecureError Response}
  (hask : ∀ s r, Client.request C write socket s r.toJson =
    ((ask s r).1, (ask s r).2.map Response.toJson))
include hask

theorem session_eq_ask (s : σ) : w.session C write socket s = w.askSession ask s := by
  unfold session askSession
  rw [hask]
  obtain ⟨t, e | r⟩ := ask s .status
  · rfl
  · cases r with
    | status mode sessions insecure => exact Prod.ext rfl (select_status mode sessions insecure)
    | session pending peer mode => rfl
    | sealed sid seq path => rfl
    | opened b => rfl
    | fingerprint urn digest => rfl

theorem ensureSession_eq_ask (s : σ) (initiator : Bool) :
    w.ensureSession C write socket s initiator = w.askEnsure ask s initiator := by
  unfold ensureSession askEnsure
  rw [session_eq_ask hask]
  obtain ⟨t, e | _ | sid⟩ := w.askSession ask s
  · rfl
  · dsimp only
    split_ifs
    · rw [hask]
      obtain ⟨t, e | r⟩ := ask t (.session w.remote w.context)
      · rfl
      · rfl
    · rfl
  · rfl

theorem send_eq_ask (s : σ) (m : V2.Envelope) (contract : String) :
    w.send F C write socket s m contract = w.askSend F write ask s m contract := by
  unfold send askSend
  rw [session_eq_ask hask]
  obtain e | _ := w.outgoing F m
  · rfl
  · obtain ⟨t, e | _ | sid⟩ := w.askSession ask s
    · rfl
    · rfl
    · dsimp only
      rw [hask]
      obtain ⟨t, e | r⟩ := ask t (.seal_ sid contract (Base64.encode (write m.toJson)))
      · rfl
      · rfl

theorem receive_eq_ask (hserde : Serde C write) (s : σ) :
    w.receive F C write socket s = w.askReceive F C ask s := by
  unfold receive askReceive
  rw [hask]
  obtain ⟨t, e | r⟩ := ask s (.open_ w.context)
  · rfl
  · cases r with
    | opened b => exact Prod.ext rfl (readInbox_opened hserde b)
    | session pending peer mode => rfl
    | sealed sid seq path => rfl
    | status mode sessions insecure => rfl
    | fingerprint urn digest => rfl

/-- Where the socket answers as the guardian does, the calls are those without text. -/
theorem machine_eq_asked (hserde : Serde C write) :
    machine F C write socket = asked F C write ask := by
  unfold machine asked
  congr
  funext s ⟨w, call⟩
  cases call with
  | ensureSession initiator => exact congrArg quiet (ensureSession_eq_ask hask s initiator)
  | send m contract => exact congrArg quiet (send_eq_ask hask s m contract)
  | receive => exact congrArg listed (receive_eq_ask hask hserde s)

end Asked
end Agree
end Workflow
end Hacp.Secure
