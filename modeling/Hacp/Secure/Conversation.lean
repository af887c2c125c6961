import Hacp.Secure.Answers
import Hacp.Secure.RefusedViews

/-!
# A conversation

While a session holds nothing back, the messages that come in order are delivered one by one
and what is sealed goes out under the next number. So an agent that has answered a hello
hands on any payloads it is sent, request by request, and seals any of its own.
-/
namespace Hacp.Secure
open Lib V2 Std SessionManager Window

/-! ## A session that holds nothing back -/

namespace Endpoint
variable {F : Foreign} {x y : Endpoint} {sid : String} {n m : UInt64} {env : SecureEnvelope}
  {view : ContractView} {s : Session}

/-- Nothing is held, the first `n` messages are out, and `m` have been sent. -/
structure Clear (x : Endpoint) (sid : String) (n m : UInt64) : Prop where
  held : (x.windowOf sid).held = ∅
  next : (x.windowOf sid).next = n
  position : (x.windowOf sid).deliveryNext = n
  sendSeq : (x.windowOf sid).sendSeq = m

namespace Clear

theorem unheld (h : Clear x sid n m) (k : UInt64) : (x.windowOf sid).held[k]? = none := by
  rw [h.held]
  exact ExtTreeMap.getElem?_empty

end Clear

/-! ### Draining -/

section Drain
variable {w : Window} {report : ReceiveReport}

theorem deliverTurn_idle (hw : x.window sid = some w) (hheld : w.held = ∅) :
    deliverTurn F sid view (x, report) = .inr (.broke x report) := by
  simp only [deliverTurn, hw, hheld, ExtTreeMap.getElem?_empty, ite_self]

theorem reportHeld_idle (hheld : w.held = ∅) :
    reportHeld F sid view x w w.held.toList report = (x, report) := by
  rw [ExtTreeMap.toList_eq_nil_iff.mpr hheld, reportHeld]

theorem turns_held (hw : x.window sid = some w) (he : w.held[n]? = some env) :
    ∃ k, x.turns sid = k + 2 := by
  have hsize : w.held.size ≠ 0 := fun hzero => by
    rw [ExtTreeMap.eq_empty_iff_size_eq_zero.mpr hzero, ExtTreeMap.getElem?_empty] at he
    cases he
  obtain ⟨k, hk⟩ := Nat.exists_eq_succ_of_ne_zero hsize
  exact ⟨k, by rw [turns, hw, Option.elim, hk]⟩

theorem Clear.drain (h : Clear x sid n m) (report : ReceiveReport) :
    x.drain F sid view report = (x, report) := by
  cases hw : x.window sid with
  | none => exact drain_no_window hw
  | some w =>
    have hheld : w.held = ∅ := windowOf_eq hw ▸ h.held
    have hauthenticate : authenticateTurn F sid view (x, report) = .inr (.broke x report) := by
      simp only [authenticateTurn, hw, hheld, ExtTreeMap.getElem?_empty]
    simp only [Endpoint.drain, runLoop, turns, Loop.iterate_succ_exit hauthenticate,
      Loop.iterate_succ_exit (deliverTurn_idle hw hheld), Option.getD_some, hw,
      reportHeld_idle hheld]

/-- Where only the envelope at the delivery position is held, it is delivered. -/
theorem drain_one (hw : x.window sid = some w)
    (hheld : ∀ k, w.held[k]? = if k = n then some env else none) (hhigh : w.high = some n)
    (hposition : w.deliveryNext = n) (hsend : w.sendSeq = m) (hn : n ≠ u64Max)
    (haddressed : Addressed sid n env) (hbound : view.check F env.contract = .ok ()) {pt : Bytes}
    (hopen : (x.manager.openAuthenticated F env).2 = .ok pt) :
    ∃ y, x.drain F sid view .empty =
        (y, ⟨[⟨sid, env.from_, env.contract, n, pt⟩], [], [], none⟩) ∧
      Clear y sid (n + 1) m ∧ Alike sid x.manager y.manager := by
  obtain ⟨s, hs, hopened⟩ : ∃ s, x.manager.active[sid]? = some s ∧
      x.manager.openAuthenticated F env = (x.manager.put sid s.opened, .ok pt) := by
    rcases haddressed.openAuthenticated (F := F) hn x.manager with ⟨e, he⟩ | ⟨s, pt', hs, he⟩
    · rw [he] at hopen
      cases hopen
    · rw [he] at hopen
      obtain rfl := Except.ok.inj hopen
      exact ⟨s, hs, he⟩
  obtain ⟨w', hw'⟩ : ∃ w', w' = { w with held := w.held.erase n, deliveryNext := n + 1 } := ⟨_, rfl⟩
  obtain ⟨y, hy⟩ : ∃ y, y = { x with manager := x.manager.put sid s.opened }.putWindow sid w' :=
    ⟨_, rfl⟩
  have hwindow : y.window sid = some w' := by rw [hy, window_putWindow, if_pos rfl]
  have hempty : w'.held = ∅ := by
    rw [hw']
    refine ExtTreeMap.ext_getElem? fun k => ?_
    rw [ExtTreeMap.getElem?_empty, lookup_erase, hheld]
    split_ifs <;> rfl
  have hnext : w.next = n + 1 := by rw [Window.next, hhigh]
  refine ⟨y, ?_, ?_, hy ▸ .put hs⟩
  · -- the first loop stops at once, the second after one turn
    have hauthenticate : authenticateTurn F sid view (x, .empty) = .inr (.broke x .empty) := by
      have hsucc : n + 1 ≠ n := fun h =>
        absurd (congrArg UInt64.toNat h) (by rw [toNat_succ hn]; omega)
      simp only [authenticateTurn, hw, hnext, hheld, if_neg hsucc]
    have hdeliver : deliverTurn F sid view (x, .empty) =
        .inl (y, ⟨[⟨sid, env.from_, env.contract, n, pt⟩], [], [], none⟩) := by
      have haccepted : w.accepted n = true := by simp [accepted, hhigh]
      simp only [deliverTurn, hw, hposition, haccepted, not_true_eq_false, if_false, hheld, if_true,
        hbound, hopened, hy, hw']
      rfl
    obtain ⟨k, hk⟩ := turns_held hw ((hheld n).trans (if_pos rfl))
    simp only [Endpoint.drain, runLoop, hk, Loop.iterate_succ_exit hauthenticate,
      Loop.iterate_succ_continue hdeliver, Loop.iterate_succ_exit (deliverTurn_idle hwindow hempty),
      Option.getD_some, hwindow, reportHeld_idle hempty]
  · refine ⟨?_, ?_, ?_, ?_⟩
    all_goals rw [windowOf_eq hwindow]
    · exact hempty
    · rw [hw']
      exact hnext
    · rw [hw']
    · rw [hw']
      exact hsend

end Drain

namespace Clear

theorem observe (h : Clear x sid n m) (hs : x.manager.active[sid]? = some s)
    (view : ContractView) : x.observe F sid view = (x, .empty) := by
  simp only [Endpoint.observe, info, hs, h.drain]

theorem receive (hx : Tidy x) (h : Clear x sid n m) (haddressed : Addressed sid n env)
    (hverified : x.manager.verifyMessage F env = .ok ()) {pt : Bytes}
    (hopen : (x.manager.openAuthenticated F env).2 = .ok pt) (hn : n ≠ u64Max)
    (hbound : view.check F env.contract = .ok ()) :
    ∃ y, x.receive F env view = (y, ⟨[⟨sid, env.from_, env.contract, n, pt⟩], [], [], none⟩) ∧
      Clear y sid (n + 1) m ∧ Alike sid x.manager y.manager := by
  have hnext : InOrder F x sid n env view :=
    ⟨haddressed, hverified, ⟨pt, hopen⟩, h.next.symm, h.position.symm, hn, hbound,
      fun k e he => by rw [h.unheld k] at he; cases he⟩
  have hroom : (x.windowOf sid).held.size < 64 := by
    rw [h.held, ExtTreeMap.size_empty]
    omega
  obtain ⟨s, y, hs, hmanager, -, hwindow, hreceive⟩ := hnext.receive_eq hx hroom
  have halike : Alike sid x.manager y.manager := hmanager ▸ .put hs
  obtain ⟨z, hdrain, hclear, halike'⟩ := drain_one hwindow
    (fun k => by rw [taking, lookup_insert, h.unheld]) rfl h.position h.sendSeq hn haddressed hbound
    ((halike.sameKeys.openAuthenticated haddressed.sid).trans hopen)
  exact ⟨z, hreceive.trans hdrain, hclear, halike.trans halike'⟩

/-- What the manager seals goes out under the next number. -/
theorem seal_ (h : Clear x sid n m) (hs : x.manager.active[sid]? = some s) (hm : m ≠ u64Max)
    {contract : String} {payload : Bytes} (hbound : view.check F contract = .ok ())
    {manager : SessionManager} {spent : Option Encryption}
    (hseal : x.manager.seal_ F sid m contract payload = (manager, ⟨spent, .ok env⟩)) :
    ∃ y, x.seal_ F sid contract payload view = (y, ⟨spent, .ok env⟩) ∧ y.manager = manager ∧
      Clear y sid n (m + 1) := by
  have hinfo : x.retain.manager.info sid = .ok s.info := by
    change x.manager.info sid = _
    simp only [info, hs]
  have hmanager : (x.retain.putWindow sid (x.windowOf sid)).manager.seal_ F sid m contract
      payload = (manager, ⟨spent, .ok env⟩) := hseal
  refine ⟨{ x.retain.putWindow sid (x.windowOf sid) with manager := manager }.putWindow sid
    { x.windowOf sid with sendSeq := m + 1 }, ?_, rfl, ?_⟩
  · simp only [Endpoint.seal_, hinfo, hbound, windowOf_retain hs, h.sendSeq, if_neg hm, hmanager]
  · obtain ⟨hheld, hnext, hposition, hsend⟩ := h
    refine ⟨?_, ?_, ?_, ?_⟩
    all_goals rw [windowOf_putWindow]
    · exact hheld
    · exact hnext
    · exact hposition

end Clear
end Endpoint

/-! ## An agent in one session -/

namespace Conversation
open Guardian hiding exchange
open Endpoint Burst LateRefusal

def session (m : UInt64) : Session := { opened.opened with info.sendSeq := m }

/-- Agent `a` in the one session, `n` messages of which are out; it has sent `m`. -/
structure Talking (n m : UInt64) (g : Guardian) : Prop where
  sane : Sane g
  local_ : g.local_ = "urn:hacp:agent:a"
  name : g.endpoint.manager.local_ = "urn:hacp:agent:a"
  blocked : g.blocked = ∅
  active : ∃ s : Session, s.opened = session m ∧
    ∀ i : String, g.active[i]? = if i = sid then some s else none
  secure : ∀ p ∈ g.pins.toList, p.2.requireSecure = true
  mode : g.mode = .degraded
  clear : Clear g.endpoint sid n m

structure Accepts (control : SessionFile) (contract : String) : Prop where
  binding : Binding contract
  view : ∃ view, contractView foreign "s-1" control = .ok view ∧ view.check foreign contract = .ok ()

def letters (control : SessionFile) (contract : String) : List Bytes → UInt64 → List EdgeFile
  | [], _ => []
  | p :: ps, n => fileOf (letter contract p n) control :: letters control contract ps (n + 1)

def deliveries (contract : String) : List Bytes → UInt64 → List Delivery
  | [], _ => []
  | p :: ps, n => ⟨sid, "urn:hacp:agent:b", contract, n, p⟩ :: deliveries contract ps (n + 1)

theorem deliveries_of (contract : String) (ps : List Bytes) (n : UInt64) :
    ((deliveries contract ps n).filter fun d => d.sid = sid) = deliveries contract ps n := by
  refine List.filter_eq_self.mpr ?_
  induction ps generalizing n with
  | nil => simp [deliveries]
  | cons p ps ih => simpa [deliveries] using ih (n + 1)

/-- Files of the edge beside a control state. -/
def mail (control : SessionFile) (handshakes messages : List EdgeFile) : Outside :=
  ⟨control, ⟨none, none⟩, .ok (), handshakes, fun _ => messages, fun _ => control⟩

def agreed : SessionFile :=
  .regular 200 (some (.object [
    ("contracts", .object [("c-1", .object [("contract", .object [
      ("revisions", .array [.object [("content", .null),
        ("digest", .string (hexLower (List.replicate 32 0))), ("number", .number (.integer 1))]]),
      ("state", .string "executing")])])]),
    ("session", .object [("session_id", .string "s-1")])]))

def binding : String := "sha256:" ++ hexLower (List.replicate 32 0)

theorem accepts_agreed : Accepts agreed binding where
  binding _ := ⟨hexLower (List.replicate 32 0), by decide, by decide⟩
  view := ⟨.frozen "c-1" 1 .null (hexLower (List.replicate 32 0)), rfl, rfl⟩

/-- The hello comes with messages under the binding of the contract. -/
def opening (ps : List Bytes) : Outside :=
  mail agreed [fileOf hello .notFound] (letters agreed binding ps 0)

def arriving (ps : List Bytes) (n : UInt64) : Outside := mail agreed [] (letters agreed binding ps n)

section Receive
variable {C : Crates} {n m : UInt64} {g : Guardian} {k : Intake} {control : SessionFile}
  {contract : String}

theorem Talking.sessionsOf (h : Talking n m g) : ∃ s : Session, s.opened = session m ∧
    (∀ i : String, g.active[i]? = if i = sid then some s else none) ∧
    g.sessionsOf "s-1" = [s.info] := by
  obtain ⟨s, hs, hactive⟩ := h.active
  have hcontext : s.info.hacpSession = "s-1" := congrArg (·.info.hacpSession) hs
  exact ⟨s, hs, hactive, hcontext ▸ sessionsOf_singleton hactive⟩

theorem Talking.setEndpoint (h : Talking n m g) {x : Endpoint} {report : ReceiveReport} {n' : UInt64}
    (hreports : Reports sid g.endpoint (x, report)) (hclear : Clear x sid n' m)
    (halike : Alike sid g.endpoint.manager x.manager) : Talking n' m (g.setEndpoint x) := by
  obtain ⟨s, hs, hactive⟩ := h.active
  have hsession := halike.session
  rw [show g.endpoint.manager.active[sid]? = some s from (hactive sid).trans (if_pos rfl),
    Option.map_some, Option.map_eq_some_iff] at hsession
  obtain ⟨t, ht, hsame⟩ := hsession
  refine ⟨h.sane.setEndpoint hreports.tidy hreports.dwindles, h.local_,
    halike.local_.trans h.name, h.blocked, ⟨t, hsame.trans hs, fun i => ?_⟩,
    h.secure, h.mode, hclear⟩
  by_cases hi : i = sid
  · rw [if_pos hi, hi]
    exact ht
  · rw [if_neg hi]
    exact (hreports.others i hi).trans ((hactive i).trans (if_neg hi))

/-- Deliveries and nothing else have been added to what was gathered. -/
def extended (b : Gathered) (ds : List Delivery) : Gathered := { b with delivered := b.delivered ++ ds }

theorem extended_nil (b : Gathered) : extended b [] = b := by rw [extended, List.append_nil]

theorem appendReport_extended (b : Gathered) (ds : List Delivery) (file i : String) :
    b.appendReport ⟨ds, [], [], none⟩ file i = extended b ds := by
  rw [Gathered.appendReport, extended, List.map_nil, List.append_nil, List.append_nil]

theorem letter_turn (hreads : ReadsJson C.tokens) (haccepts : Accepts control contract)
    (h : Talking n m k.guardian) (hn : n ≠ u64Max) (p : Bytes) :
    ∃ k', fileTurn foreign exchange C "s-1" k (fileOf (letter contract p n) control) = .inl k' ∧
      Talking (n + 1) m k'.guardian ∧
      k'.gathered = extended k.gathered [⟨sid, "urn:hacp:agent:b", contract, n, p⟩] ∧
      k'.established = k.established := by
  obtain ⟨hbinding, view, hview, hbound⟩ := haccepts
  obtain ⟨s, hs, hactive⟩ := h.active
  have hactive : k.guardian.active[sid]? = some s := (hactive sid).trans (if_pos rfl)
  have hcontext : s.info.hacpSession = "s-1" := congrArg (·.info.hacpSession) hs
  have hpeer : s.info.peer = "urn:hacp:agent:b" := congrArg (·.info.peer) hs
  have hfile := receiveFile_letter hreads h.local_ hactive hcontext hbinding p n control
  rw [hview] at hfile
  dsimp only at hfile
  obtain ⟨x, hreceive, hclear, halike⟩ := h.clear.receive
    h.sane.tidy (addressed contract p n) (verified_letter hbinding p n h.name hactive hpeer)
    (open_letter hbinding p n hn h.name hactive hpeer) hn hbound
  have hreports : Reports sid k.guardian.endpoint
      (k.guardian.endpoint.receive foreign (letter contract p n) view) := .receive h.sane.tidy rfl _
  rw [hreceive] at hfile hreports
  refine ⟨k.report (x, ⟨[⟨sid, "urn:hacp:agent:b", contract, n, p⟩], [], [], none⟩) "0.json" sid, ?_,
    h.setEndpoint hreports hclear halike, appendReport_extended k.gathered _ "0.json" sid, rfl⟩
  rw [fileTurn, hfile]
  rfl

theorem observe_turn (h : Talking n m k.guardian) (edge : Outside) {view : ContractView}
    (hedge : contractView foreign "s-1" (edge.observed sid) = .ok view) {s : SessionInfo}
    (hsid : s.sid = sid) :
    ∃ k', observeTurn foreign "s-1" edge k s = .inl k' ∧ Talking n m k'.guardian ∧
      k'.gathered = k.gathered ∧ k'.established = k.established := by
  obtain ⟨t, -, hactive⟩ := h.active
  have hactive : k.guardian.endpoint.manager.active[sid]? = some t := (hactive sid).trans (if_pos rfl)
  have hobserve := h.clear.observe (F := foreign) hactive view
  have hreports : Reports sid k.guardian.endpoint
      (k.guardian.endpoint.observe foreign sid view) := .observe h.sane.tidy sid _
  have hturn : observeTurn foreign "s-1" edge k s = .inl (k.report
      (k.guardian.endpoint.observe foreign sid view) "observation" sid) := by
    rw [observeTurn, hsid, hedge]
  rw [hobserve] at hturn hreports
  exact ⟨_, hturn, h.setEndpoint hreports h.clear (.refl sid _),
    (appendReport_extended k.gathered [] "observation" sid).trans (extended_nil _), rfl⟩

/-- Whatever the payloads are, all of them are delivered. -/
theorem letters_run (hreads : ReadsJson C.tokens) (haccepts : Accepts control contract)
    (ps : List Bytes) (h : Talking n m k.guardian) (hn : n.toNat + ps.length < UInt64.size) :
    ∃ k', Scan.run (fileTurn foreign exchange C "s-1") k (letters control contract ps n) = .inl k' ∧
      Talking (n + UInt64.ofNat ps.length) m k'.guardian ∧
      k'.gathered = extended k.gathered (deliveries contract ps n) ∧
      k'.established = k.established := by
  induction ps generalizing n k with
  | nil => exact ⟨k, rfl, by simpa using h, (extended_nil _).symm, rfl⟩
  | cons p ps ih =>
    have hmax : n ≠ u64Max := by
      rintro rfl
      rw [u64Max_toNat, List.length_cons] at hn
      simp only [UInt64.size] at hn
      omega
    have hnext : (n + 1).toNat + ps.length < UInt64.size := by
      rw [toNat_succ hmax]
      rw [List.length_cons] at hn
      omega
    obtain ⟨k', hturn, htalking, hgathered, hestablished⟩ := letter_turn hreads haccepts h hmax p
    obtain ⟨k'', hrun, htalking', hgathered', hestablished'⟩ := ih htalking hnext
    refine ⟨k'', ?_, ?_, ?_, hestablished'.trans hestablished⟩
    · rw [letters, Scan.run_cons_inl hturn, hrun]
    · have hcount : n + UInt64.ofNat (ps.length + 1) = n + 1 + UInt64.ofNat ps.length := by
        rw [UInt64.ofNat_add, UInt64.add_comm (UInt64.ofNat ps.length), ← UInt64.add_assoc]
        rfl
      rwa [List.length_cons, hcount]
    · rw [hgathered', hgathered, extended, extended, extended, List.append_assoc,
        List.singleton_append, deliveries]

theorem messages_run (hreads : ReadsJson C.tokens) (haccepts : Accepts control contract)
    (handshakes : List EdgeFile) (ps : List Bytes) (h : Talking n m k.guardian)
    (hn : n.toNat + ps.length < UInt64.size) {l : List EdgeFile}
    (hphase : handshakePhase foreign exchange C "s-1" (mail control handshakes l) (.start g) = .inl k)
    (hl : l = letters control contract ps n) (hallowed : g.allowedContext "s-1" = .ok ()) :
    ∃ g', g.receive foreign exchange C "s-1" (mail control handshakes l) =
        (g', .ok (extended k.gathered (deliveries contract ps n)), k.established) ∧
      Talking (n + UInt64.ofNat ps.length) m g' := by
  subst hl
  obtain ⟨hbinding, view, hview, hbound⟩ := id haccepts
  obtain ⟨s, hs, hactive, hsessions⟩ := h.sessionsOf
  have hfiles : messageFiles "s-1" (mail control handshakes (letters control contract ps n)) k =
      letters control contract ps n := by
    rw [messageFiles, hsessions, List.flatMap_singleton]
    rfl
  obtain ⟨k', hrun, htalking, hgathered, hestablished⟩ := letters_run hreads haccepts ps h hn
  have hphases : phases foreign exchange C "s-1"
      (mail control handshakes (letters control contract ps n)) g = k' := by
    rw [phases, hphase]
    dsimp only [Sum.elim_inl, id]
    rw [messagePhase, hfiles, hrun]
    rfl
  obtain ⟨s', hs', -, hsessions'⟩ := htalking.sessionsOf
  have hsid : s'.info.sid = sid := congrArg (·.info.sid) hs'
  obtain ⟨k'', hturn, htalking', hgathered', hestablished'⟩ :=
    observe_turn htalking (mail control handshakes (letters control contract ps n)) hview hsid
  have hobserve : Scan.run (observeTurn foreign "s-1"
      (mail control handshakes (letters control contract ps n))) k'
        (k'.guardian.sessionsOf "s-1") = .inl k'' := by
    rw [hsessions', Scan.run_cons_inl hturn]
    rfl
  refine ⟨k''.guardian, ?_, htalking'⟩
  rw [receive_ok hallowed hphases hobserve, hestablished', hestablished, hgathered', hgathered]

theorem Talking.allowed (h : Talking n m g) : g.allowedContext "s-1" = .ok () := by
  rw [allowedContext_eq_ok, h.blocked]
  exact ⟨by decide, Finset.notMem_empty _⟩

/-- An open request delivers the payloads that came since the last one. -/
theorem Talking.receive (hreads : ReadsJson C.tokens) (haccepts : Accepts control contract)
    (h : Talking n m g) (ps : List Bytes) (hn : n.toNat + ps.length < UInt64.size) :
    ∃ g', g.receive foreign exchange C "s-1" (mail control [] (letters control contract ps n)) =
        (g', .ok (extended .empty (deliveries contract ps n)), []) ∧
      Talking (n + UInt64.ofNat ps.length) m g' :=
  messages_run (k := .start g) hreads haccepts [] ps h hn rfl rfl h.allowed

theorem Talking.of_opened (h : Opened k) : Talking 0 0 k.guardian := by
  have hwindow : k.guardian.endpoint.windowOf sid = .empty := windowOf_none h.window
  refine ⟨h.sane, h.local_, h.name, h.blocked, ⟨opened, rfl, h.active⟩,
    h.secure, h.mode, ?_, ?_, ?_, ?_⟩
  all_goals rw [hwindow]
  all_goals rfl

/-- The first open request answers the hello and delivers what came with it. -/
theorem receive_hello (hreads : ReadsJson C.tokens)
    (haccepts : Accepts control contract)
    (hg : load "urn:hacp:agent:a" (.replicate 32 1) [securePin] .degraded = .ok g)
    (ps : List Bytes) (hn : ps.length < UInt64.size) :
    ∃ g', g.receive foreign exchange C "s-1"
        (mail control [fileOf hello .notFound] (letters control contract ps 0)) =
          (g', .ok (extended .empty (deliveries contract ps 0)), [sid]) ∧
      Talking (UInt64.ofNat ps.length) 0 g' := by
  obtain ⟨k, hk, hturn⟩ := hello_turn hreads hg
  have hphase : handshakePhase foreign exchange C "s-1"
      (mail control [fileOf hello .notFound] (letters control contract ps 0)) (.start g) = .inl k :=
    Scan.run_cons_inl hturn
  obtain ⟨g', hreceive, htalking⟩ := messages_run hreads haccepts
    [fileOf hello .notFound] ps (.of_opened hk) (by simpa using hn) hphase rfl (LateRefusal.allowed hg)
  rw [hk.established, hk.gathered] at hreceive
  exact ⟨g', hreceive, by simpa using htalking⟩

end Receive

/-! ### Sealing -/

section Seal
variable {C : Crates} {n m : UInt64} {g : Guardian} {manager : SessionManager} {s : Session}
  {control : SessionFile} {contract : String}

theorem header_draft (hname : manager.local_ = "urn:hacp:agent:a")
    (hpeer : s.info.peer = "urn:hacp:agent:b") (hbinding : Binding contract)
    (ct sig : Option String)
    (hct : ∀ t ∈ ct, 32 ≤ (asBytes t).length ∧ (decodeHex t).isOk = true)
    (hsig : ∀ t ∈ sig, fixedHex t 64 = true) :
    ({ manager.draft s sid m contract with ct := ct, sig := sig } : SecureEnvelope).header foreign =
      .ok () := by
  have hsid : fixedHex sid 16 = true := fixedHex_encodeHex.mpr rfl
  have hfrom : urn "urn:hacp:agent:a" = true := by decide
  have hto : urn "urn:hacp:agent:b" = true := by decide
  rw [SecureEnvelope.header_eq_ok]
  simpa [draft, hname, hpeer, hfrom, hto, hsid] using ⟨hbinding, hsig, hct⟩

/-- Any payload is sealed under the next number. -/
theorem manager_seals (hname : manager.local_ = "urn:hacp:agent:a")
    (hs : manager.active[sid]? = some s) (hpeer : s.info.peer = "urn:hacp:agent:b")
    (hbinding : Binding contract) (hsend : s.info.sendSeq = m) (hm : m ≠ u64Max)
    (payload : Bytes) :
    ∃ env : SecureEnvelope, manager.seal_ foreign sid m contract payload =
        (manager.put sid { s with info.sendSeq := m + 1 },
          ⟨some ⟨sid, s.keys.sendKey s.initiator, m⟩, .ok env⟩) ∧
      env.sid = some sid ∧ env.seq = some m ∧ env.from_ = "urn:hacp:agent:a" := by
  obtain ⟨bytes, hbytes, hlong⟩ : ∃ bytes, bytes = payload ++ List.replicate 16 (0 : UInt8) ∧
      16 ≤ bytes.length := ⟨_, rfl, by simp⟩
  have hct : ∀ t ∈ some (encodeHex bytes), 32 ≤ (asBytes t).length ∧ (decodeHex t).isOk = true := by
    rintro _ ⟨rfl⟩
    rw [length_asBytes_encodeHex, decodeHex_encodeHex]
    exact ⟨by omega, rfl⟩
  have hdraft : (manager.draft s sid m contract).header foreign = .ok () :=
    header_draft hname hpeer hbinding none none nofun nofun
  obtain ⟨aad, haad⟩ := SecureEnvelope.aadBytes_of_header hdraft
  obtain ⟨aad', haad'⟩ := SecureEnvelope.aadBytes_of_header
    (header_draft (m := m) hname hpeer hbinding _ none hct nofun)
  have hencrypt : foreign.encrypt (s.keys.sendKey s.initiator) (nonce96 m) aad payload =
      some bytes := hbytes ▸ rfl
  have hsealed : s.keys.seal_ foreign s.initiator m aad payload = .ok bytes := by
    rw [SessionKeys.seal_, hencrypt]
  obtain ⟨input, hinput⟩ : ∃ input, ({ manager.draft s sid m contract with
      ct := some (encodeHex bytes) } : SecureEnvelope).messageSigningInput foreign = .ok input :=
    ⟨_, SecureEnvelope.messageSigningInput_eq_ok.mpr
      ⟨rfl, aad', _, _, haad', rfl, decodeHex_encodeHex _, rfl⟩⟩
  have hsig : ∀ t ∈ some (sign foreign manager.identity input), fixedHex t 64 = true := by
    intro t ht
    rw [← Option.some.inj ht, sign]
    exact fixedHex_encodeHex.mpr Vector.length_toList
  have hvalid : ({ manager.draft s sid m contract with
      ct := some (encodeHex bytes), sig := some (sign foreign manager.identity input) } :
        SecureEnvelope).validate foreign = .ok () := by
    rw [SecureEnvelope.validate, header_draft hname hpeer hbinding _ _ hct hsig]
    rfl
  have hfinish : manager.finish foreign { manager.draft s sid m contract with
      ct := some (encodeHex bytes) } = .ok { manager.draft s sid m contract with
        ct := some (encodeHex bytes), sig := some (sign foreign manager.identity input) } := by
    simp only [finish, hinput, hvalid, bind, Except.bind]
  refine ⟨{ manager.draft s sid m contract with
    ct := some (encodeHex bytes), sig := some (sign foreign manager.identity input) }, ?_, rfl, rfl,
    hname⟩
  simp only [SessionManager.seal_, hs, hsend, or_self, if_neg hm, ne_eq, not_true_eq_false, if_false,
    haad, hsealed, hfinish]

def pathOf (m : UInt64) : String :=
  ".hacp-secure/" ++ sid ++ "/" ++ paddedSeq m ++ "-" ++ "a" ++ ".json"

/-- A message that is sealed is written to the edge or not; its number is spent either way. -/
theorem Talking.seal_ (haccepts : Accepts control contract) (h : Talking n m g) (hm : m ≠ u64Max)
    {text : String} {payload : Bytes} (htext : C.base64 text = some payload) (edge : Outside)
    (hedge : edge.session = control) :
    ∃ g', g.sealMessage foreign C sid contract text edge = (g',
        (edge.written.mapError EdgeError.error).map fun _ => .sealed sid (some m) (pathOf m),
        some ⟨sid, .replicate 32 0, m⟩) ∧ Talking n (m + 1) g' := by
  obtain ⟨hbinding, view, hview, hbound⟩ := haccepts
  obtain ⟨s, hs, hactive⟩ := h.active
  have hsession : g.endpoint.manager.active[sid]? = some s := (hactive sid).trans (if_pos rfl)
  have hcontext : s.info.hacpSession = "s-1" := congrArg (·.info.hacpSession) hs
  have hpeer : s.info.peer = "urn:hacp:agent:b" := congrArg (·.info.peer) hs
  have hsend : s.info.sendSeq = m := congrArg (·.info.sendSeq) hs
  have hkeys : s.opened.keys.sendKey s.opened.initiator = .replicate 32 0 := by
    rw [hs]
    rfl
  have hkey : s.keys.sendKey s.initiator = .replicate 32 0 := hkeys
  have hinfo : g.endpoint.manager.info sid = .ok s.info := by simp only [info, hsession]
  obtain ⟨env, hseal, hsid, hseq, hfrom⟩ := manager_seals h.name hsession hpeer hbinding
    hsend hm payload
  obtain ⟨y, hy, hmanager, hclear⟩ :=
    h.clear.seal_ hsession hm hbound hseal
  have hpath : stripPrefix "urn:hacp:agent:" env.from_ = some "a" := by
    rw [hfrom]
    decide
  refine ⟨g.setEndpoint y, ?_, ?_⟩
  · simp only [sealMessage, hinfo, hcontext, h.allowed, htext, orSchema, hedge, hview, bind,
      Except.bind, hy, hkey, writeMessage, hsid, hseq, hpath]
    cases edge.written <;> rfl
  · have hendpoint : (g.endpoint.seal_ foreign sid contract payload view).1 = y := by rw [hy]
    have htidy : Tidy y := hendpoint ▸ h.sane.tidy.seal_ (F := foreign) sid contract payload view
    have hdwindles : Dwindles g.endpoint.manager y.manager := hendpoint ▸
      .seal_ (F := foreign) g.handshakes g.endpoint sid contract payload view
    refine ⟨h.sane.setEndpoint htidy hdwindles, h.local_, ?_, h.blocked,
      ⟨{ s with info.sendSeq := m + 1 }, ?_, fun i => ?_⟩, h.secure, h.mode, hclear⟩
    · change y.manager.local_ = _
      rw [hmanager]
      exact h.name
    · change ({ s.opened with info.sendSeq := m + 1 } : Session) = _
      rw [hs]
      rfl
    · change y.manager.active[i]? = _
      rw [hmanager, active_put, show g.endpoint.manager.active[i]? = _ from hactive i]
      split_ifs <;> rfl

end Seal
end Conversation
end Hacp.Secure
