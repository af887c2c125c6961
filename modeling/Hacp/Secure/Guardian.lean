import Hacp.Lib.Machine
import Hacp.Lib.Scan
import Hacp.Secure.ContractView
import Hacp.Secure.EnvelopeCodec
import Hacp.Secure.Handshake

/-!
# The guardian

The process that owns the session manager and the transport. It answers one request at
a time and reads everything else from files that any process of the user can write: the
handshakes and messages of the edge, and the control state. What it finds there is an
input of the request, read by read.
-/
namespace Hacp.Secure
open Lib V2 Std

/-- The functions of other crates that the guardian calls itself. -/
structure Crates where
  /-- `serde_json::from_slice` into a derived type, which sees every member as it is written. -/
  tokens : Bytes → Option Json
  /-- `serde_json::from_slice::<Value>`, where a repeated member has its last value. -/
  value : Bytes → Option Json
  /-- `STANDARD.decode` of the `base64` crate. -/
  base64 : String → Option Bytes
  /-- `SigningKey::from_bytes(seed).verifying_key().to_bytes()`. -/
  publicKey : Vector UInt8 32 → Vector UInt8 32

structure Pin where
  urn : String
  ed25519Pub : String
  requireSecure : Bool

inductive Mode where
  | degraded
  | standard (agentUid : UInt32)

def Mode.label : Mode → String
  | .degraded => "degraded"
  | .standard _ => "standard"

inductive EdgeError where
  | schemaViolation
  | guardianUnavailable

def EdgeError.error : EdgeError → SecureError
  | .schemaViolation => .schemaViolation
  | .guardianUnavailable => .guardianUnavailable

/-- One file of the edge and what happens while it is handled. -/
structure EdgeFile where
  name : String
  raw : Except EdgeError Bytes
  /-- What a read of the control state finds. -/
  session : SessionFile
  entropy : Entropy
  /-- How writing an answer ends. -/
  written : Except EdgeError Unit

structure Outside where
  /-- What the read of the control state by `seal` finds. -/
  session : SessionFile
  entropy : Entropy
  written : Except EdgeError Unit
  /-- The files in the handshake directory of the context. -/
  handshakes : List EdgeFile
  /-- The files in the directory of a session. -/
  messages : String → List EdgeFile
  /-- What the read of the control state before the observation of a session finds. -/
  observed : String → SessionFile

structure Gathered where
  delivered : List Delivery
  held : List Held
  rejected : List (String × SecureError)
  aborted : List (String × SecureError)

namespace Gathered

def empty : Gathered := ⟨[], [], [], []⟩

/-- `append_report`: an abort takes back what the session delivered. -/
def appendReport (b : Gathered) (report : ReceiveReport) (file sid : String) : Gathered :=
  let b : Gathered :=
    { b with
      delivered := b.delivered ++ report.delivered
      held := b.held ++ report.held
      rejected := b.rejected ++ report.rejected.map fun e => (file, e) }
  match report.aborted with
  | none => b
  | some e =>
    { b with
      delivered := b.delivered.filter fun d => d.sid ≠ sid
      aborted := b.aborted ++ [(sid, e)] }

end Gathered

structure Guardian where
  endpoint : Endpoint
  handshakes : Handshakes
  pins : ExtTreeMap String Pin
  local_ : String
  mode : Mode
  blocked : Finset String

/-- An open request under way, with the identifiers of the sessions it has established. -/
structure Intake where
  guardian : Guardian
  gathered : Gathered
  established : List String

inductive Request where
  | session (peer hacpSession : String)
  | seal_ (sid contract payloadB64 : String)
  | open_ (hacpSession : String)
  | status
  | fingerprint

structure SessionStatus where
  info : SessionInfo
  sendSeq : UInt64
  recvHigh : Option UInt64
  held : ℕ

inductive Response where
  | session (sidPending peer : String) (mode : Mode)
  | sealed (sid : String) (seq : Option UInt64) (path : String)
  | opened (gathered : Gathered)
  | status (mode : Mode) (sessions : List SessionStatus) (insecure : List String)
  | fingerprint (urn fingerprint : String)

/-- The answer to a request, with the identifiers of the sessions it established and with what
it encrypted. -/
structure Handled where
  result : Except SecureError Response
  established : List String
  encrypted : Option Encryption

/-- The value of `ok_or(SecureError::SchemaViolation)`. -/
def orSchema {α : Type} (v : Option α) : Except SecureError α :=
  match v with
  | some a => .ok a
  | none => .error .schemaViolation

/-! ## Requests -/

def operations : List String := ["session", "seal", "open", "status", "fingerprint"]

def allowedFields : String → List String
  | "session" => ["op", "peer", "hacp_session"]
  | "seal" => ["op", "sid", "contract", "payload_b64"]
  | "open" => ["op", "hacp_session"]
  | _ => ["op"]

/-- `#[serde(tag = "op", rename_all = "lowercase", deny_unknown_fields)]`. -/
def Request.ofJson : Json → Option Request
  | .object members =>
    let field key := (members.lookup key).bind Json.asStr
    if (members.map Prod.fst).Nodup then do
      let op ← field "op"
      if ∀ p ∈ members, p.1 ∈ allowedFields op then
        match op with
        | "session" => do
          let peer ← field "peer"
          let hacpSession ← field "hacp_session"
          some (.session peer hacpSession)
        | "seal" => do
          let sid ← field "sid"
          let contract ← field "contract"
          let payloadB64 ← field "payload_b64"
          some (.seal_ sid contract payloadB64)
        | "open" => do
          let hacpSession ← field "hacp_session"
          some (.open_ hacpSession)
        | "status" => some .status
        | "fingerprint" => some .fingerprint
        | _ => none
      else none
    else none
  | _ => none

/-- The checks of `dispatch` in front of the request. -/
def Request.ofBytes (C : Crates) (bytes : Bytes) : Except SecureError Request :=
  if limit < bytes.length then .error .schemaViolation
  else do
    let v ← orSchema (C.value bytes)
    let op ← orSchema ((v.get? "op").bind Json.asStr)
    if op ∉ operations then .error .unknownOperation
    else
      let members ← orSchema v.asObject
      if members.length ≠ (allowedFields op).length ∨ ¬∀ p ∈ members, p.1 ∈ allowedFields op then
        .error .schemaViolation
      else orSchema ((C.tokens bytes).bind Request.ofJson)

namespace Guardian

/-! ## Loading -/

def addPin (pins : ExtTreeMap String Pin) (p : Pin) : Except SecureError (ExtTreeMap String Pin) :=
  if urn p.urn = false ∨ p.urn ∈ pins then .error .identityMismatch
  else do
    let _ ← bytes32 p.ed25519Pub
    .ok (pins.insert p.urn p)

/-- `load`, on what the private store holds. -/
def load (local_ : String) (seed : Vector UInt8 32) (pins : List Pin) (mode : Mode) :
    Except SecureError Guardian := do
  let party ← Party.new local_ seed
  let pins ← pins.foldlM addPin ∅
  .ok ⟨⟨⟨∅⟩, party.manager⟩, party.handshakes, pins, local_, mode, ∅⟩

/-! ## The parts of a guardian -/

def active (g : Guardian) : ExtTreeMap String Session := g.endpoint.manager.active

def party (g : Guardian) : Party := ⟨g.endpoint.manager, g.handshakes⟩

def setParty (g : Guardian) (p : Party) : Guardian :=
  { g with endpoint.manager := p.manager, handshakes := p.handshakes }

def setEndpoint (g : Guardian) (x : Endpoint) : Guardian := { g with endpoint := x }

/-- `self.manager.sessions()`, those of one context. -/
def sessionsOf (g : Guardian) (context : String) : List SessionInfo :=
  (g.active.toList.map fun p => p.2.info).filter fun s => s.hacpSession = context

/-- `self.pins.values().any(|pin| pin.require_secure)`. -/
def requiresSecure (g : Guardian) : Bool := g.pins.toList.any fun p => p.2.requireSecure

def allowedContext (g : Guardian) (context : String) : Except SecureError Unit :=
  if context = "" then .error .schemaViolation
  else if context ∈ g.blocked then .error .downgradeDetected
  else .ok ()

/-- Close sessions one after the other, whatever the transport answers. -/
def closeAll (x : Endpoint) (sessions : List SessionInfo) : Endpoint :=
  sessions.foldl (fun x s => (x.close s.sid).1) x

def abortContext (g : Guardian) (context : String) : Guardian :=
  let g := g.setEndpoint (closeAll g.endpoint (g.sessionsOf context))
  { g.setParty (g.party.closeContext context) with blocked := insert context g.blocked }

end Guardian

/-! ## Answers on the edge -/

/-- `write_handshake`: the file is named after the session or the nonce. -/
def writeHandshake (env : SecureEnvelope) (written : Except EdgeError Unit) :
    Except SecureError Unit := do
  let _ ← orSchema (env.sid.or env.nonce)
  written.mapError EdgeError.error

/-- `{seq:020}`. -/
def paddedSeq (seq : UInt64) : String :=
  let digits := toString seq.toNat
  String.ofList (List.replicate (20 - digits.length) '0') ++ digits

def writeMessage (env : SecureEnvelope) (written : Except EdgeError Unit) :
    Except SecureError String := do
  let sid ← orSchema env.sid
  let seq ← orSchema env.seq
  let from_ ← orSchema (stripPrefix "urn:hacp:agent:" env.from_)
  written.mapError EdgeError.error
  .ok (".hacp-secure/" ++ sid ++ "/" ++ paddedSeq seq ++ "-" ++ from_ ++ ".json")

/-! ## Opening -/

namespace Intake

def start (g : Guardian) : Intake := ⟨g, .empty, []⟩

def deliver (k : Intake) (d : Delivery) : Intake :=
  { k with gathered.delivered := k.gathered.delivered ++ [d] }

def reject (k : Intake) (file : String) (e : SecureError) : Intake :=
  { k with gathered.rejected := k.gathered.rejected ++ [(file, e)] }

/-- What a handshake leaves, with the identifier of the session it established. -/
def shook (k : Intake) (p : Party) (sid : Option String) : Intake :=
  { k with guardian := k.guardian.setParty p, established := k.established ++ sid.toList }

/-- The contract view is refused: the session is over, and what it delivered stays. -/
def refuse (k : Intake) (sid : String) (e : SecureError) : Intake :=
  { k with
    guardian := k.guardian.setEndpoint (k.guardian.endpoint.close sid).1
    gathered.aborted := k.gathered.aborted ++ [(sid, e)] }

def report (k : Intake) (result : Endpoint × ReceiveReport) (file sid : String) : Intake :=
  { k with
    guardian := k.guardian.setEndpoint result.1
    gathered := k.gathered.appendReport result.2 file sid }

def abortContext (k : Intake) (context : String) : Intake :=
  { k with guardian := k.guardian.abortContext context }

def downgraded (k : Intake) : Intake :=
  { k with
    gathered.delivered := []
    gathered.aborted := k.gathered.aborted ++ [("", .downgradeDetected)] }

end Intake

/-- Decides the membership below. -/
local instance lawfulBEq_optionString : LawfulBEq (Option String) := Option.instLawfulBEq String

/-- Whether bytes that are no envelope were meant as one. -/
def looksSecure (object : Option Json) : Bool :=
  object.any fun v => (v.get? "v").isSome ||
    (v.get? "kind").bind Json.asStr ∈ [some "hello", some "ack", some "msg"]

section Receive
variable (F : Foreign) (K : KeyExchange) (C : Crates)

def receivePlain (context : String) (k : Intake) (bytes : Bytes) (object : Option Json) :
    Intake × Except SecureError Unit :=
  let g := k.guardian
  -- the sender is not authenticated, so it cannot select a weaker pin
  if g.requiresSecure then (k.abortContext context, .error .downgradeDetected)
  else
    let from_ := (object.bind (Json.get? "from")).bind Json.asStr
    let to_ := (object.bind (Json.get? "to")).bind Json.asStr
    let pin := from_.bind fun urn => g.pins[urn]?
    if (pin.any fun p => !p.requireSecure) ∧ to_ = some g.local_ then
      (k.deliver ⟨"", from_.getD "", "", 0, bytes⟩, .ok ())
    else if (pin.any fun p => p.requireSecure) ∨ g.requiresSecure then
      (k.abortContext context, .error .downgradeDetected)
    else (k, .error .identityMismatch)

def receiveHello (context : String) (k : Intake) (f : EdgeFile) (env : SecureEnvelope) :
    Intake × Except SecureError Unit :=
  match k.guardian.pins[env.from_]? with
  | none => (k, .error .identityMismatch)
  | some pin =>
    match bytes32 pin.ed25519Pub with
    | .error e => (k, .error e)
    | .ok key =>
      match k.guardian.party.respondOnce F K context env key f.entropy with
      | (p, inserted, .error e) => (k.shook p (inserted.map (·.info.sid)), .error e)
      | (p, inserted, .ok none) => (k.shook p (inserted.map (·.info.sid)), .ok ())
      | (p, inserted, .ok (some ack)) =>
        (k.shook p (inserted.map (·.info.sid)), writeHandshake ack f.written)

def receiveAck (context : String) (k : Intake) (env : SecureEnvelope) :
    Intake × Except SecureError Unit :=
  match k.guardian.party.complete F K context env with
  | (p, ⟨_, .error e⟩) => (k.shook p none, .error e)
  | (p, ⟨consumed, .ok sid⟩) => (k.shook p (consumed.map fun _ => sid), .ok ())

def receiveMsg (context : String) (k : Intake) (f : EdgeFile) (env : SecureEnvelope) :
    Intake × Except SecureError Unit :=
  match env.sid with
  | none => (k, .error .schemaViolation)
  | some sid =>
    match k.guardian.endpoint.manager.info sid with
    | .error e => (k, .error e)
    | .ok info =>
      if info.hacpSession ≠ context then (k, .error .sessionUnknown)
      else
        match contractView F context f.session with
        | .error e => (k.refuse sid e, .error e)
        | .ok view => (k.report (k.guardian.endpoint.receive F env view) f.name sid, .ok ())

/-- The closure `receive` runs on one file. -/
def receiveFile (context : String) (k : Intake) (f : EdgeFile) :
    Intake × Except SecureError Unit :=
  match f.raw with
  | .error e => (k, .error e.error)
  | .ok bytes =>
    match SecureEnvelope.fromJson F C.tokens bytes with
    | .error e =>
      let object := C.value bytes
      if looksSecure object then (k, .error e) else receivePlain context k bytes object
    | .ok env =>
      -- our own outbound files on the shared edge
      if env.from_ = k.guardian.local_ ∧ env.to_ ≠ k.guardian.local_ then (k, .ok ())
      else
        match env.kind with
        | .hello => receiveHello F K context k f env
        | .ack => receiveAck F K context k env
        | .msg => receiveMsg F context k f env

/-- One turn of the loop over the files of a phase, which a downgrade leaves. -/
def fileTurn (context : String) (k : Intake) (f : EdgeFile) : Intake ⊕ Intake :=
  match receiveFile F K C context k f with
  | (k, .ok ()) => .inl k
  | (k, .error e) =>
    if e = .downgradeDetected then .inr (k.reject f.name e).downgraded
    else .inl (k.reject f.name e)

def handshakePhase (context : String) (edge : Outside) (k : Intake) : Intake ⊕ Intake :=
  Scan.run (fileTurn F K C context) k edge.handshakes

/-- The files of the sessions that are active when the message phase begins. -/
def messageFiles (context : String) (edge : Outside) (k : Intake) : List EdgeFile :=
  (k.guardian.sessionsOf context).flatMap fun s => edge.messages s.sid

def messagePhase (context : String) (edge : Outside) (k : Intake) : Intake ⊕ Intake :=
  Scan.run (fileTurn F K C context) k (messageFiles context edge k)

/-- Both phases end where their loop does, however it ends. -/
def phases (context : String) (edge : Outside) (g : Guardian) : Intake :=
  let k := (handshakePhase F K C context edge (.start g)).elim id id
  (messagePhase F K C context edge k).elim id id

/-- One turn of the last loop, which a contract view that is refused leaves. -/
def observeTurn (context : String) (edge : Outside) (k : Intake) (s : SessionInfo) :
    Intake ⊕ Intake × SecureError :=
  match contractView F context (edge.observed s.sid) with
  | .error e => .inr (k, e)
  | .ok view => .inl (k.report (k.guardian.endpoint.observe F s.sid view) "observation" s.sid)

namespace Guardian

def receive (g : Guardian) (context : String) (edge : Outside) :
    Guardian × Except SecureError Gathered × List String :=
  match g.allowedContext context with
  | .error e => (g, .error e, [])
  | .ok () =>
    let k := phases F K C context edge g
    match Scan.run (observeTurn F context edge) k (k.guardian.sessionsOf context) with
    | .inl k => (k.guardian, .ok k.gathered, k.established)
    | .inr (k, e) => (k.guardian, .error e, k.established)

/-! ## The other requests -/

def openSession (g : Guardian) (peer context : String) (edge : Outside) :
    Guardian × Except SecureError Response :=
  match g.allowedContext context with
  | .error e => (g, .error e)
  | .ok () =>
    match g.pins[peer]? with
    | none => (g, .error .identityMismatch)
    | some pin =>
      match bytes32 pin.ed25519Pub with
      | .error e => (g, .error e)
      | .ok key =>
        match g.party.initiate F K peer context key edge.entropy with
        | (p, .error e) => (g.setParty p, .error e)
        | (p, .ok hello) =>
          (g.setParty p, do
            let pending ← orSchema hello.nonce
            writeHandshake hello edge.written
            .ok (.session pending peer g.mode))

def sealMessage (g : Guardian) (sid contract payloadB64 : String) (edge : Outside) :
    Guardian × Except SecureError Response × Option Encryption :=
  match (do
      let info ← g.endpoint.manager.info sid
      g.allowedContext info.hacpSession
      let payload ← orSchema (C.base64 payloadB64)
      let view ← contractView F info.hacpSession edge.session
      .ok (payload, view) : Except SecureError (Bytes × ContractView)) with
  | .error e => (g, .error e, none)
  | .ok (payload, view) =>
    match g.endpoint.seal_ F sid contract payload view with
    | (x, ⟨encrypted, .error e⟩) => (g.setEndpoint x, .error e, encrypted)
    | (x, ⟨encrypted, .ok env⟩) =>
      (g.setEndpoint x, do
        let path ← writeMessage env edge.written
        .ok (.sealed sid env.seq path), encrypted)

def status (g : Guardian) : Response :=
  let sessions := g.active.toList.map fun p =>
    let w := g.endpoint.windowOf p.2.info.sid
    (⟨p.2.info, w.sendSeq, w.high, w.held.size⟩ : SessionStatus)
  .status g.mode sessions
    ((g.pins.toList.filter fun p => !p.2.requireSecure).map fun p => p.2.urn)

def fingerprint (g : Guardian) : Response :=
  .fingerprint g.local_
    (encodeHex (F.sha256 (C.publicKey g.endpoint.manager.identity).toList))

def handle (g : Guardian) (request : Request) (edge : Outside) : Guardian × Handled :=
  match request with
  | .session peer context =>
    let (g, result) := g.openSession F K peer context edge
    (g, ⟨result, [], none⟩)
  | .seal_ sid contract payloadB64 =>
    let (g, result, encrypted) := g.sealMessage F C sid contract payloadB64 edge
    (g, ⟨result, [], encrypted⟩)
  | .open_ context =>
    let (g, result, established) := g.receive F K C context edge
    (g, ⟨result.map .opened, established, none⟩)
  | .status => (g, ⟨.ok g.status, [], none⟩)
  | .fingerprint => (g, ⟨.ok (g.fingerprint F C), [], none⟩)

def dispatch (g : Guardian) (bytes : Bytes) (edge : Outside) : Guardian × Handled :=
  match Request.ofBytes C bytes with
  | .error e => (g, ⟨.error e, [], none⟩)
  | .ok request => g.handle F K C request edge

def machine : Machine Guardian (Bytes × Outside) Handled where
  step g i := g.dispatch F K C i.1 i.2

end Guardian
end Receive
end Hacp.Secure
