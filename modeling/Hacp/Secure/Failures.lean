import Hacp.Secure.ContractView
import Hacp.Secure.Handshake
import Hacp.Secure.Tidy

/-!
# What never reports a downgrade

The session manager, the transport and the contract view fail in many ways, but only
the guardian itself takes anything for a downgrade.
-/
namespace Hacp.Secure
open Lib V2 Std

abbrev Undegraded (e : SecureError) : Prop := e ≠ .downgradeDetected

theorem SecureEnvelope.Malformed.undegraded {e : SecureError} (h : Malformed e) : Undegraded e := by
  rw [h]
  decide

theorem ContractView.Unbound.undegraded {e : SecureError} (h : Unbound e) : Undegraded e := by
  rcases h with rfl | rfl <;> decide

theorem required_fails (v : Option String) : FailsAs Undegraded (required v) := by
  cases v with
  | none => exact .error (by decide)
  | some s => exact .ok s

theorem decodeHex_undegraded (s : String) : FailsAs Undegraded (decodeHex s) :=
  (SecureEnvelope.decodeHex_fails s).imp fun _ h => h.undegraded

/-! ## Handshakes -/

section Handshakes
variable {F : Foreign} {K : KeyExchange}

theorem contextOk_fails (context : String) : FailsAs Undegraded (contextOk context) :=
  .guard (by decide) (.ok _)

theorem drawn_fails (v : Option (Vector UInt8 32)) : FailsAs Undegraded (drawn v) := by
  cases v with
  | none => exact .error (by decide)
  | some bytes => exact .ok bytes

theorem bytes32_fails (hex : String) : FailsAs Undegraded (bytes32 hex) := by
  have hdecode := decodeHex_undegraded hex
  unfold bytes32
  cases hbytes : decodeHex hex with
  | error e => exact .error (hdecode e hbytes)
  | ok bytes =>
    dsimp only
    split_ifs
    · exact .ok _
    · exact .error (by decide)

theorem fieldBytes_fails (field : Option String) :
    FailsAs Undegraded (SecureEnvelope.fieldBytes field) := by
  cases field with
  | none => exact .error (by decide)
  | some s => exact decodeHex_undegraded s

theorem header_undegraded (e : SecureEnvelope) : FailsAs Undegraded (e.header F) :=
  (SecureEnvelope.header_fails F e).imp fun _ h => h.undegraded

theorem validate_undegraded (e : SecureEnvelope) : FailsAs Undegraded (e.validate F) :=
  (SecureEnvelope.validate_fails F e).imp fun _ h => h.undegraded

theorem helloSigningInput_fails (e : SecureEnvelope) (context : String) :
    FailsAs Undegraded (e.helloSigningInput F context) :=
  .bind (header_undegraded e) fun _ => .guard (by decide) <|
    .bind (fieldBytes_fails _) fun _ => .bind (fieldBytes_fails _) fun _ => .ok _

theorem ackSigningInput_fails (e : SecureEnvelope) (context : String) (hello : SecureEnvelope) :
    FailsAs Undegraded (e.ackSigningInput F context hello) :=
  .bind (header_undegraded e) fun _ => .bind (header_undegraded hello) fun _ =>
    .guard (by decide) <| .bind (fieldBytes_fails _) fun _ => .bind (fieldBytes_fails _) fun _ =>
      .bind (fieldBytes_fails _) fun _ => .bind (fieldBytes_fails _) fun _ => .ok _

theorem schedule_fails (shared ni nr : Vector UInt8 32) (context initiator responder : String) :
    FailsAs Undegraded (schedule K shared ni nr context initiator responder) := by
  unfold schedule
  -- each of the three outputs is there or is not
  refine .bind ?_ fun _ => .bind ?_ fun _ => .bind ?_ fun _ => .ok _
  all_goals
    dsimp only
    split
    · exact .ok _
    · exact .error (by decide)

theorem establish_fails (secret : EphemeralSecret) (peer ni nr : Vector UInt8 32)
    (context initiator responder : String) :
    FailsAs Undegraded (secret.establish K peer ni nr context initiator responder) :=
  .guard (by decide) (schedule_fails _ _ _ _ _ _)

theorem nextOrder_fails (h : Handshakes) : FailsAs Undegraded h.nextOrder :=
  .guard (by decide) (.ok _)

namespace Party
variable (p : Party)

theorem checkHello_fails (context : String) (hello : SecureEnvelope) (pin : Vector UInt8 32) :
    FailsAs Undegraded (p.checkHello F context hello pin) :=
  .bind (validate_undegraded hello) fun _ => .bind (contextOk_fails context) fun _ =>
    .guard (by decide) <| .guard (by decide) <|
      .bind (helloSigningInput_fails hello context) fun _ =>
        .bind (required_fails _) fun _ => .guard (by decide) (.ok _)

theorem material_fails (env : SecureEnvelope) : FailsAs Undegraded (material env) :=
  .bind (required_fails _) fun _ => .bind (bytes32_fails _) fun _ =>
    .bind (required_fails _) fun _ => .bind (bytes32_fails _) fun _ => .ok _

theorem ack_fails (context : String) (hello : SecureEnvelope) (entropy : Entropy) :
    FailsAs Undegraded (p.ack F K context hello entropy) :=
  .bind (drawn_fails _) fun _ => .bind (drawn_fails _) fun _ =>
    .bind (material_fails hello) fun _ => .bind (establish_fails _ _ _ _ _ _ _) fun _ =>
      .bind (ackSigningInput_fails _ context hello) fun _ =>
        .bind (validate_undegraded _) fun _ => .ok _

theorem respond_fails (context : String) (hello : SecureEnvelope) (pin : Vector UInt8 32)
    (entropy : Entropy) : FailsAs Undegraded (p.respond F K context hello pin entropy).2.result := by
  unfold respond
  cases hcheck : p.checkHello F context hello pin with
  | error e => exact .error (p.checkHello_fails context hello pin e hcheck)
  | ok sig =>
    dsimp only
    generalize p.handshakes.rememberHello context sig = h
    cases answered ⟨p.manager, h⟩ context hello pin with
    | some ack => exact .ok ack
    | none =>
      dsimp only
      cases hack : ack F K ⟨p.manager, h⟩ context hello entropy with
      | error e => exact .error (ack_fails _ context hello entropy e hack)
      | ok made =>
        dsimp only
        cases horder : h.nextOrder with
        | error e => exact .error (nextOrder_fails h e horder)
        | ok order => exact .ok _

theorem respondOnce_fails (context : String) (hello : SecureEnvelope) (pin : Vector UInt8 32)
    (entropy : Entropy) :
    FailsAs Undegraded (p.respondOnce F K context hello pin entropy).2.2 := by
  unfold respondOnce
  cases hcheck : p.checkHello F context hello pin with
  | error e => exact .error (p.checkHello_fails context hello pin e hcheck)
  | ok sig =>
    dsimp only
    split_ifs
    · exact .ok none
    · have hrespond := p.respond_fails (F := F) (K := K) context hello pin entropy
      cases hresult : (p.respond F K context hello pin entropy).2.result with
      | error e => exact .error (hrespond e hresult)
      | ok ack => exact .ok (some ack)

theorem checkAck_fails (context : String) (ack : SecureEnvelope) :
    FailsAs Undegraded (p.checkAck F context ack) :=
  .bind (validate_undegraded ack) fun _ => .bind (contextOk_fails context) fun _ =>
    .guard (by decide) (.guard (by decide) (required_fails _))

theorem selectPending_fails (context : String) (ack : SecureEnvelope) (i : ℕ)
    (qs : List Pending) : FailsAs Undegraded (selectPending F context ack i qs) := by
  induction qs generalizing i with
  | nil => exact .ok none
  | cons q qs ih =>
    exact .ite (.bind (ackSigningInput_fails ack context q.hello) fun _ =>
      .bind (required_fails _) fun _ => .ite (.ok _) (ih _)) (ih _)

theorem derive_fails (context : String) (ack : SecureEnvelope) (q : Pending) :
    FailsAs Undegraded (p.derive K context ack q) :=
  .bind (required_fails _) fun _ => .bind (bytes32_fails _) fun _ =>
    .bind (required_fails _) fun _ => .bind (bytes32_fails _) fun _ =>
      .bind (required_fails _) fun _ => .bind (bytes32_fails _) fun _ =>
        establish_fails _ _ _ _ _ _ _

theorem complete_fails (context : String) (ack : SecureEnvelope) :
    FailsAs Undegraded (p.complete F K context ack).2.result := by
  unfold complete
  cases hcheck : p.checkAck F context ack with
  | error e => exact .error (p.checkAck_fails context ack e hcheck)
  | ok sid =>
    dsimp only
    split_ifs
    · exact .ok sid
    · cases hselect : selectPending F context ack 0 p.handshakes.pending with
      | error e => exact .error (selectPending_fails context ack 0 _ e hselect)
      | ok selected =>
        cases selected with
        | none => exact .error (by decide)
        | some found =>
          dsimp only
          cases hderive : p.derive K context ack found.2 with
          | error e => exact .error (p.derive_fails context ack found.2 e hderive)
          | ok derived =>
            dsimp only
            split_ifs
            · exact .error (by decide)
            · exact .ok _

end Party
end Handshakes

/-! ## The contract view -/

section View
variable {F : Foreign}

theorem orMismatch_fails {α : Type} (v : Option α) : FailsAs Undegraded (orMismatch v) := by
  cases v with
  | none => exact .error (by decide)
  | some a => exact .ok a

theorem observeRevisions_fails (id : String) (previous : UInt64) (obs : Observation)
    (revisions : List Json) : FailsAs Undegraded (observeRevisions F id previous obs revisions) := by
  induction revisions generalizing previous obs with
  | nil => exact .ok obs
  | cons revision revisions ih =>
    refine .bind ?_ fun _ => ih _ _
    exact .bind (orMismatch_fails _) fun _ => .bind (orMismatch_fails _) fun _ =>
      .bind (orMismatch_fails _) fun _ => .bind (.mapError_const (by decide)) fun _ =>
        .guard (by decide) (.ok _)

theorem observeContract_fails (id : String) (entry : Json) (obs : Observation) :
    FailsAs Undegraded (observeContract F id entry obs) :=
  .ite (.ok _) <| .guard (by decide) <| .ite (.ok _) <|
    .bind (orMismatch_fails _) fun _ => observeRevisions_fails _ _ _ _

theorem observeContracts_fails (contracts : List (String × Json)) (obs : Observation) :
    FailsAs Undegraded (observeContracts F contracts obs) := by
  induction contracts generalizing obs with
  | nil => exact .ok obs
  | cons entry contracts ih => exact .bind (observeContract_fails _ _ _) fun _ => ih _

theorem contractView_fails (context : String) (file : SessionFile) :
    FailsAs Undegraded (contractView F context file) := by
  have hstate : FailsAs Undegraded file.state := by
    cases file with
    | notFound => exact .ok none
    | unreadable => exact .error (by decide)
    | regular size value =>
      exact .guard (by decide) (.bind (orMismatch_fails _) fun _ => .ok _)
  refine .bind hstate fun state => ?_
  cases state with
  | none => exact .ok _
  | some state => exact .ite (.ok _) (.bind (observeContracts_fails _ _) fun _ => .ok _)

end View

/-! ## The transport -/

section Transport
variable {F : Foreign} {sid : String} {view : ContractView}

theorem verifyMessage_fails (m : SessionManager) (env : SecureEnvelope) :
    FailsAs Undegraded (m.verifyMessage F env) := by
  refine .bind (validate_undegraded env) fun _ => .guard (by decide) <|
    .bind (required_fails _) fun k => ?_
  cases m.active[k]? with
  | none => exact .error (by decide)
  | some s =>
    have hinput : FailsAs Undegraded (env.messageSigningInput F) :=
      (SecureEnvelope.messageSigningInput_fails F env).imp fun _ h => h.undegraded
    exact .guard (by decide) <| .bind hinput fun _ => .bind (required_fails _) fun _ =>
      .guard (by decide) (.ok _)

theorem openCiphertext_fails (s : Session) (env : SecureEnvelope) (seq : UInt64) :
    FailsAs Undegraded (SessionManager.openCiphertext F s env seq) := by
  have haad : FailsAs Undegraded (env.aadBytes F) :=
    (SecureEnvelope.aadBytes_fails F env).imp fun _ h => h.undegraded
  refine .bind haad fun aad => .bind (required_fails _) fun _ =>
    .bind (decodeHex_undegraded _) fun bytes => ?_
  unfold SessionKeys.open_
  cases F.decrypt (s.keys.receiveKey s.initiator) (nonce96 seq) aad bytes with
  | none => exact .error (by decide)
  | some pt => exact .ok pt

theorem openAuthenticated_fails (m : SessionManager) (env : SecureEnvelope) :
    FailsAs Undegraded (m.openAuthenticated F env).2 := by
  unfold SessionManager.openAuthenticated
  cases hverified : m.verifyMessage F env with
  | error e => exact .error (verifyMessage_fails m env e hverified)
  | ok _ =>
    dsimp only
    split
    · next k seq _ _ =>
      split_ifs
      · exact .error (by decide)
      · cases m.active[k]? with
        | none => exact .error (by decide)
        | some s =>
          dsimp only
          cases hopen : SessionManager.openCiphertext F s env seq with
          | error e => exact .error (openCiphertext_fails s env seq e hopen)
          | ok pt => exact .ok pt
    · exact .error (by decide)

/-- The report may tell of an abort, but of no downgrade. -/
abbrev ReceiveReport.Undegraded (r : ReceiveReport) : Prop := r.aborted ≠ some .downgradeDetected

namespace Endpoint

/-- The report with which a loop of `drain` is left. -/
def Exit.report : Exit → ReceiveReport
  | .broke _ report | .returned _ report => report

variable {x : Endpoint} {report : ReceiveReport}

theorem abort_undegraded {e : SecureError} (he : Secure.Undegraded e) :
    (x.abort sid e report).2.Undegraded := fun h => he (Option.some.inj h)

theorem runLoop_undegraded {turn : Endpoint × ReceiveReport → (Endpoint × ReceiveReport) ⊕ Exit}
    (hturn : ∀ s, s.2.Undegraded →
      Sum.elim (fun s => s.2.Undegraded) (fun e => e.report.Undegraded) (turn s))
    (hreport : report.Undegraded) : (runLoop turn sid x report).report.Undegraded := by
  unfold runLoop
  cases hrun : Loop.iterate turn (x.turns sid) (x, report) with
  | none => exact hreport
  | some e =>
    refine Loop.iterate_post (fun s => s.2.Undegraded) (fun e => e.report.Undegraded) ?_ ?_
      hreport hrun
    · intro s s' hs hnext
      have h := hturn s hs
      rwa [hnext] at h
    · intro s e hs hexit
      have h := hturn s hs
      rwa [hexit] at h

theorem authenticateTurn_undegraded (s : Endpoint × ReceiveReport) (hs : s.2.Undegraded) :
    Sum.elim (fun s => s.2.Undegraded) (fun e => e.report.Undegraded)
      (authenticateTurn F sid view s) := by
  obtain ⟨x, report⟩ := s
  unfold authenticateTurn
  dsimp only
  cases x.window sid with
  | none => exact hs
  | some w =>
    dsimp only
    cases w.held[w.next]? with
    | none => exact hs
    | some env =>
      dsimp only
      generalize x.manager.openAuthenticated F env = opened
      obtain ⟨m, e | pt⟩ := opened
      · exact hs
      · dsimp only
        cases hcheck : view.check F env.contract with
        | ok _ => exact hs
        | error e =>
          by_cases he : e = .contractPending
          · subst he
            exact hs
          · have hbound := ContractView.check_fails F view env.contract e hcheck
            split
            · exact hs
            · exact hs
            · next e' _ heq =>
              obtain rfl := Except.error.inj heq
              exact abort_undegraded hbound.undegraded

theorem deliverTurn_undegraded (s : Endpoint × ReceiveReport) (hs : s.2.Undegraded) :
    Sum.elim (fun s => s.2.Undegraded) (fun e => e.report.Undegraded)
      (deliverTurn F sid view s) := by
  obtain ⟨x, report⟩ := s
  unfold deliverTurn
  dsimp only
  cases x.window sid with
  | none => exact hs
  | some w =>
    dsimp only
    by_cases haccepted : w.accepted w.deliveryNext = true
    case neg =>
      rw [if_pos haccepted]
      exact hs
    case pos =>
      rw [if_neg (not_not_intro haccepted)]
      cases w.held[w.deliveryNext]? with
      | none => exact hs
      | some env =>
        dsimp only
        cases hcheck : view.check F env.contract with
        | error e =>
          have hbound := ContractView.check_fails F view env.contract e hcheck
          split
          · exact hs
          · next e' _ heq =>
            obtain rfl := Except.error.inj heq
            exact abort_undegraded hbound.undegraded
          · next heq => cases heq
        | ok _ =>
          have hfails := openAuthenticated_fails (F := F) x.manager env
          dsimp only
          generalize x.manager.openAuthenticated F env = opened at hfails
          obtain ⟨m, e | pt⟩ := opened
          · exact abort_undegraded (hfails e rfl)
          · exact hs

theorem reportHeld_undegraded (x : Endpoint) (w : Window) (items : List (UInt64 × SecureEnvelope))
    (hreport : report.Undegraded) : (reportHeld F sid view x w items report).2.Undegraded := by
  induction items generalizing report with
  | nil => exact hreport
  | cons item items ih =>
    obtain ⟨seq, env⟩ := item
    unfold reportHeld
    split_ifs
    · cases hcheck : view.check F env.contract with
      | ok _ => exact ih hreport
      | error e =>
        have hbound := ContractView.check_fails F view env.contract e hcheck
        split
        · exact ih hreport
        · exact ih hreport
        · next e' _ heq =>
          obtain rfl := Except.error.inj heq
          exact abort_undegraded hbound.undegraded
    · exact ih hreport

theorem drain_undegraded (x : Endpoint) (hreport : report.Undegraded) :
    (x.drain F sid view report).2.Undegraded := by
  unfold drain
  have hauthenticated : (runLoop (authenticateTurn F sid view) sid x report).report.Undegraded :=
    runLoop_undegraded authenticateTurn_undegraded hreport
  cases hfirst : runLoop (authenticateTurn F sid view) sid x report with
  | returned y r =>
    rw [hfirst] at hauthenticated
    exact hauthenticated
  | broke y r =>
    rw [hfirst] at hauthenticated
    have hdelivered : (runLoop (deliverTurn F sid view) sid y r).report.Undegraded :=
      runLoop_undegraded deliverTurn_undegraded hauthenticated
    dsimp only
    cases hsecond : runLoop (deliverTurn F sid view) sid y r with
    | returned z r' =>
      rw [hsecond] at hdelivered
      exact hdelivered
    | broke z r' =>
      rw [hsecond] at hdelivered
      dsimp only
      cases z.window sid with
      | none => exact hdelivered
      | some w => exact reportHeld_undegraded z w _ hdelivered

theorem admission_undegraded (x : Endpoint) (seq : UInt64) (w : Window) (env : SecureEnvelope)
    (view : ContractView) : (x.admission F sid seq w env view).2.Undegraded := by
  have hempty : ReceiveReport.empty.Undegraded := nofun
  unfold admission
  dsimp only
  split
  · exact hempty
  · split
    · exact abort_undegraded (by decide)
    · split
      · split
        · exact abort_undegraded (by decide)
        · split
          · exact abort_undegraded (by decide)
          · exact hempty
      · generalize x.manager.openAuthenticated F env = opened
        obtain ⟨m, e | pt⟩ := opened
        · exact hempty
        · dsimp only
          split
          · next e he =>
            have hcheck : view.check F env.contract = .error e := by
              split at he
              · cases he
              · cases he
              · next heq =>
                rw [heq, Option.some.inj he]
            have hbound := ContractView.check_fails F view env.contract e hcheck
            exact abort_undegraded hbound.undegraded
          · split
            · exact abort_undegraded (by decide)
            · exact drain_undegraded _ hempty

theorem receive_undegraded (x : Endpoint) (env : SecureEnvelope) (view : ContractView) :
    (x.receive F env view).2.Undegraded := by
  have hempty : ReceiveReport.empty.Undegraded := nofun
  by_cases hv : x.manager.verifyMessage F env = .ok ()
  · obtain ⟨k, seq, s, hb, -⟩ := belongs_of_verified hv
    rw [receive_verified hb]
    exact admission_undegraded _ seq _ env view
  · obtain ⟨e, he⟩ := receive_refused hv view
    rw [he]
    exact hempty

theorem observe_undegraded (x : Endpoint) (sid : String) (view : ContractView) :
    (x.observe F sid view).2.Undegraded := by
  have hempty : ReceiveReport.empty.Undegraded := nofun
  unfold observe
  cases x.manager.info sid with
  | error e => exact hempty
  | ok _ => exact drain_undegraded x hempty

end Endpoint
end Transport
end Hacp.Secure
