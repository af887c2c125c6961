import Hacp.Lib.Loop
import Hacp.Secure.SessionManager

/-!
# The transport

For each session the transport keeps the next number to send, the highest number it
has accepted, the next number to deliver, and envelopes it holds back: above the
accepted mark until the gap closes, up to it until their contract binding is
observed. It shares every call with the session manager. An abort closes the session
in both and clears the report.
-/
namespace Hacp.Secure
open Lib V2 Std

/-- What the control state says about contracts when a call is made. -/
inductive ContractView where
  | bootstrap
  | pending
  /-- Several independent contracts; `current` entries are `frozen`. -/
  | observed (current : List ContractView) (superseded : List String) (bootstrap : Bool)
  | frozen (contractId : String) (revision : UInt64) (content : Json) (digest : String)

namespace ContractView
variable (F : Foreign)

/-- The digest without its algorithm prefix. -/
def bareDigest (digest : String) : String := (stripPrefix "sha256:" digest).getD digest

/-- The `Frozen` arm of `check`. -/
def checkFrozen (contractId : String) (revision : UInt64) (content : Json)
    (digest claimed : String) : Except SecureError Unit := do
  let computed ← (digestOf F (.object [("contract_id", .string contractId),
    ("revision", .number (.integer revision.toNat)), ("content", content)])).mapError
      fun _ => .contractMismatch
  if bareDigest digest ≠ computed ∨ claimed ≠ "sha256:" ++ computed then .error .contractMismatch
  else .ok ()

/-- The loop over the current entries: each must check against its own binding, and the
result says whether one of them is the claimed one. -/
def checkCurrent (claimed : String) : List ContractView → Bool → Except SecureError Bool
  | [], matched => .ok matched
  | .frozen contractId revision content digest :: entries, matched => do
    let binding := "sha256:" ++ bareDigest digest
    checkFrozen F contractId revision content digest binding
    checkCurrent claimed entries (matched || binding == claimed)
  | _ :: _, _ => .error .contractMismatch

def check (view : ContractView) (claimed : String) : Except SecureError Unit :=
  match view with
  | .observed current superseded starting => do
    let matched ← checkCurrent F claimed current false
    if claimed ∈ superseded then .error .contractMismatch
    else if matched ∨ (claimed = "" ∧ (starting ∨ current.isEmpty)) then .ok ()
    else if claimed ≠ "" ∧ (starting ∨ current.isEmpty) then .error .contractPending
    else .error .contractMismatch
  | .bootstrap | .pending => if claimed = "" then .ok () else .error .contractPending
  | .frozen contractId revision content digest =>
    checkFrozen F contractId revision content digest claimed

abbrev Unbound (e : SecureError) : Prop := e = .contractMismatch ∨ e = .contractPending

theorem checkFrozen_fails (contractId : String) (revision : UInt64) (content : Json)
    (digest claimed : String) :
    FailsAs Unbound (checkFrozen F contractId revision content digest claimed) :=
  .bind (.mapError_const (.inl rfl)) fun _ => .guard (.inl rfl) (.ok _)

theorem checkCurrent_fails (claimed : String) (entries : List ContractView) (matched : Bool) :
    FailsAs Unbound (checkCurrent F claimed entries matched) := by
  induction entries generalizing matched with
  | nil => exact .ok _
  | cons entry entries ih =>
    cases entry with
    | frozen contractId revision content digest =>
      exact .bind (checkFrozen_fails F _ _ _ _ _) fun _ => ih _
    | bootstrap => exact .error (.inl rfl)
    | pending => exact .error (.inl rfl)
    | observed _ _ _ => exact .error (.inl rfl)

theorem check_fails (view : ContractView) (claimed : String) :
    FailsAs Unbound (view.check F claimed) := by
  cases view with
  | bootstrap => exact .ite (.ok _) (.error (.inr rfl))
  | pending => exact .ite (.ok _) (.error (.inr rfl))
  | observed current superseded starting =>
    exact .bind (checkCurrent_fails F _ _ _) fun _ =>
      .guard (.inl rfl) (.ite (.ok _) (.guard (.inr rfl) (.error (.inl rfl))))
  | frozen contractId revision content digest => exact checkFrozen_fails F _ _ _ _ _

end ContractView

structure Delivery where
  sid : String
  from_ : String
  contract : String
  seq : UInt64
  payload : Bytes
  deriving DecidableEq

inductive HeldReason where
  | contractPending
  | sequencePending
  deriving DecidableEq

structure Held where
  sid : String
  seq : UInt64
  reason : HeldReason
  deriving DecidableEq

structure ReceiveReport where
  delivered : List Delivery
  held : List Held
  rejected : List SecureError
  aborted : Option SecureError
  deriving DecidableEq

namespace ReceiveReport

def empty : ReceiveReport := ⟨[], [], [], none⟩

def reject (r : ReceiveReport) (e : SecureError) : ReceiveReport :=
  { r with rejected := r.rejected ++ [e] }

def hold (r : ReceiveReport) (h : Held) : ReceiveReport := { r with held := r.held ++ [h] }

def deliver (r : ReceiveReport) (d : Delivery) : ReceiveReport :=
  { r with delivered := r.delivered ++ [d] }

end ReceiveReport

structure Window where
  sendSeq : UInt64
  high : Option UInt64
  deliveryNext : UInt64
  held : ExtTreeMap UInt64 SecureEnvelope

namespace Window

def empty : Window := ⟨0, none, 0, ∅⟩

/-- The number after the accepted mark; the mark stays below the last number. -/
def next (w : Window) : UInt64 :=
  match w.high with
  | none => 0
  | some n => n + 1

/-- `w.high.is_some_and(|high| seq <= high)`. -/
def accepted (w : Window) (seq : UInt64) : Bool := w.high.any fun high => seq ≤ high

end Window

structure Transport where
  windows : ExtTreeMap String Window

/-- A transport and the session manager every call is given. -/
structure Endpoint where
  transport : Transport
  manager : SessionManager

namespace Endpoint

def window (x : Endpoint) (sid : String) : Option Window := x.transport.windows[sid]?

/-- The window of a session, the default one if none has been made yet. -/
def windowOf (x : Endpoint) (sid : String) : Window := (x.window sid).getD .empty

def putWindow (x : Endpoint) (sid : String) (w : Window) : Endpoint :=
  { x with transport.windows := x.transport.windows.insert sid w }

def dropWindow (x : Endpoint) (sid : String) : Endpoint :=
  { x with transport.windows := x.transport.windows.erase sid }

/-- `windows.retain(|known, _| manager.info(known).is_ok())`. -/
def retain (x : Endpoint) : Endpoint :=
  { x with transport.windows := x.transport.windows.filter fun known _ => (x.manager.info known).isOk }

def close (x : Endpoint) (sid : String) : Endpoint × Except SecureError Unit :=
  let (manager, result) := x.manager.close sid
  ({ x.dropWindow sid with manager := manager }, result)

variable (F : Foreign)

def seal_ (x : Endpoint) (sid contract : String) (payload : Bytes) (view : ContractView) :
    Endpoint × Sealing :=
  let x := x.retain
  match x.manager.info sid with
  | .error e => (x, ⟨none, .error e⟩)
  | .ok _ =>
    -- pending is a receive disposition: the sender may observe a revision first
    match (match view.check F contract with
      | .ok () | .error .contractPending => none
      | .error e => some e) with
    | some e => ((x.close sid).1, ⟨none, .error e⟩)
    | none =>
      let w := x.windowOf sid
      let x := x.putWindow sid w
      if w.sendSeq = u64Max then ((x.close sid).1, ⟨none, .error .sessionExhausted⟩)
      else
        match x.manager.seal_ F sid w.sendSeq contract payload with
        | (manager, ⟨encrypted, .error e⟩) =>
          ({ x with manager := manager }, ⟨encrypted, .error e⟩)
        | (manager, ⟨encrypted, .ok envelope⟩) =>
          -- committed before the envelope leaves
          ({ x with manager := manager }.putWindow sid { w with sendSeq := w.sendSeq + 1 },
            ⟨encrypted, .ok envelope⟩)

def abort (x : Endpoint) (sid : String) (error : SecureError) (report : ReceiveReport) :
    Endpoint × ReceiveReport :=
  ((x.close sid).1, { report with delivered := [], held := [], aborted := some error })

/-- How a loop of `drain` is left: `break` goes on behind it, `return` ends the call. -/
inductive Exit where
  | broke (x : Endpoint) (report : ReceiveReport)
  | returned (x : Endpoint) (report : ReceiveReport)

/-- One turn of the first loop: authenticate the envelope held right above the mark. -/
def authenticateTurn (sid : String) (view : ContractView) :
    Endpoint × ReceiveReport → (Endpoint × ReceiveReport) ⊕ Exit
  | (x, report) =>
    match x.window sid with
    | none => .inr (.returned x report)
    | some w =>
      match w.held[w.next]? with
      | none => .inr (.broke x report)
      | some env =>
        match x.manager.openAuthenticated F env with
        | (manager, .error e) =>
          .inr (.broke ({ x with manager := manager }.putWindow sid
            { w with held := w.held.erase w.next }) (report.reject e))
        | (manager, .ok _) =>
          let x := { x with manager := manager }.putWindow sid { w with high := some w.next }
          match view.check F env.contract with
          | .ok () | .error .contractPending => .inl (x, report)
          | .error e =>
            let (x, report) := x.abort sid e report
            .inr (.returned x report)

/-- One turn of the second loop: deliver the envelope at the delivery position. -/
def deliverTurn (sid : String) (view : ContractView) :
    Endpoint × ReceiveReport → (Endpoint × ReceiveReport) ⊕ Exit
  | (x, report) =>
    match x.window sid with
    | none => .inr (.returned x report)
    | some w =>
      if ¬w.accepted w.deliveryNext then .inr (.broke x report)
      else
        match w.held[w.deliveryNext]? with
        | none => .inr (.broke x report)
        | some env =>
          match view.check F env.contract with
          | .error .contractPending => .inr (.broke x report)
          | .error e =>
            let (x, report) := x.abort sid e report
            .inr (.returned x report)
          | .ok () =>
            match x.manager.openAuthenticated F env with
            | (manager, .error e) =>
              let (x, report) := { x with manager := manager }.abort sid e report
              .inr (.returned x report)
            | (manager, .ok payload) =>
              .inl ({ x with manager := manager }.putWindow sid
                { w with
                  held := w.held.erase w.deliveryNext
                  deliveryNext := w.deliveryNext + 1 },
                report.deliver ⟨sid, env.from_, env.contract, w.deliveryNext, payload⟩)

/-- The third loop: report what stays held, and abort on a contradictory binding. -/
def reportHeld (sid : String) (view : ContractView) (x : Endpoint) (w : Window) :
    List (UInt64 × SecureEnvelope) → ReceiveReport → Endpoint × ReceiveReport
  | [], report => (x, report)
  | (seq, env) :: rest, report =>
    if w.accepted seq then
      match view.check F env.contract with
      | .ok () | .error .contractPending =>
        reportHeld sid view x w rest (report.hold ⟨sid, seq, .contractPending⟩)
      | .error e => x.abort sid e report
    else reportHeld sid view x w rest (report.hold ⟨sid, seq, .sequencePending⟩)

/-- Turns that are enough for either loop, which moves over held envelopes only. -/
def turns (x : Endpoint) (sid : String) : ℕ := (x.window sid).elim 0 (fun w => w.held.size) + 1

/-- A loop of `drain`, run for as many turns as it can need. -/
def runLoop (turn : Endpoint × ReceiveReport → (Endpoint × ReceiveReport) ⊕ Exit) (sid : String)
    (x : Endpoint) (report : ReceiveReport) : Exit :=
  (Loop.iterate turn (x.turns sid) (x, report)).getD (.returned x report)

def drain (x : Endpoint) (sid : String) (view : ContractView) (report : ReceiveReport) :
    Endpoint × ReceiveReport :=
  match runLoop (authenticateTurn F sid view) sid x report with
  | .returned x report => (x, report)
  | .broke x report =>
    match runLoop (deliverTurn F sid view) sid x report with
    | .returned x report => (x, report)
    | .broke x report =>
      match x.window sid with
      | none => (x, report)
      | some w => reportHeld F sid view x w w.held.toList report

/-- The part of `receive` behind the signature check, for a window already there. -/
def admission (x : Endpoint) (sid : String) (seq : UInt64) (w : Window) (env : SecureEnvelope)
    (view : ContractView) : Endpoint × ReceiveReport :=
  let report := ReceiveReport.empty
  if w.accepted seq ∨ seq ∈ w.held then (x, report.reject .replayRejected)
  else if seq = u64Max then x.abort sid .sessionExhausted report
  else if w.next < seq then
    if 64 ≤ w.held.size then x.abort sid .holdOverflow report
    else if (w.held.keys.filter fun n => w.next ≤ n).max?.any fun newest => newest < seq then
      x.abort sid .sequenceGap report
    else
      (x.putWindow sid { w with held := w.held.insert seq env },
        report.hold ⟨sid, seq, .sequencePending⟩)
  else
    match x.manager.openAuthenticated F env with
    | (manager, .error e) => ({ x with manager := manager }, report.reject e)
    | (manager, .ok _) =>
      let w := { w with high := some seq }
      let x := { x with manager := manager }.putWindow sid w
      match (match view.check F env.contract with
        | .ok () | .error .contractPending => none
        | .error e => some e) with
      | some e => x.abort sid e report
      | none =>
        if 64 ≤ w.held.size then x.abort sid .holdOverflow report
        else
          -- ciphertext is held even when it can be delivered at once
          (x.putWindow sid { w with held := w.held.insert seq env }).drain F sid view report

def receive (x : Endpoint) (env : SecureEnvelope) (view : ContractView) :
    Endpoint × ReceiveReport :=
  let x := x.retain
  match env.validate F with
  | .error e => (x, ReceiveReport.empty.reject e)
  | .ok () =>
    if env.kind ≠ .msg then (x, ReceiveReport.empty.reject .schemaViolation)
    else
      match env.sid, env.seq with
      | some sid, some seq =>
        match x.manager.verifyMessage F env with
        | .error e => (x, ReceiveReport.empty.reject e)
        | .ok () =>
          let w := x.windowOf sid
          (x.putWindow sid w).admission F sid seq w env view
      -- `expect`: a validated message has both
      | _, _ => (x, ReceiveReport.empty)

def observe (x : Endpoint) (sid : String) (view : ContractView) : Endpoint × ReceiveReport :=
  match x.manager.info sid with
  | .error e => (x.dropWindow sid, ReceiveReport.empty.reject e)
  | .ok _ => x.drain F sid view .empty

end Endpoint
end Hacp.Secure
