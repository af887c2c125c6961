import Hacp.Secure.HandshakeSuccess
import Hacp.Secure.InOrder
import Hacp.Secure.LostDeliveries

/-!
# A control state that is refused late

The control state is read again before each message and each observation, so it may be
refused when an open request has already delivered something. A message then ends its
session and leaves what it delivered in the answer; an observation ends the request and
leaves the sessions where the lost deliveries brought them.
-/
namespace Hacp.Secure
open Lib V2 Std SessionManager Endpoint

section Opening
variable {F : Foreign} {K : KeyExchange} {C : Crates} {context : String}

theorem Party.respondOnce_unseen {p : Party} {hello : SecureEnvelope} {pin : Vector UInt8 32}
    {sig : String} (hcheck : p.checkHello F context hello pin = .ok sig)
    (hunseen : (context, sig) ∉ p.handshakes.seenHellos) (entropy : Entropy) :
    p.respondOnce F K context hello pin entropy =
      ((p.respond F K context hello pin entropy).1,
        (p.respond F K context hello pin entropy).2.inserted,
        (p.respond F K context hello pin entropy).2.result.map some) := by
  rw [respondOnce, hcheck]
  exact if_neg hunseen

variable {k k' : Intake} {f : EdgeFile} {env : SecureEnvelope}

theorem receiveFile_parsed {bytes : Bytes} (hraw : f.raw = .ok bytes)
    (hparsed : SecureEnvelope.fromJson F C.tokens bytes = .ok env)
    (hown : ¬(env.from_ = k.guardian.local_ ∧ env.to_ ≠ k.guardian.local_)) :
    receiveFile F K C context k f =
      match env.kind with
      | .hello => receiveHello F K context k f env
      | .ack => receiveAck F K context k env
      | .msg => receiveMsg F context k f env := by
  rw [receiveFile, hraw]
  dsimp only
  rw [hparsed]
  exact if_neg hown

theorem receiveHello_answered {pin : Pin} {key : Vector UInt8 32} {p : Party} {s : Session}
    {ack : SecureEnvelope} (hpin : k.guardian.pins[env.from_]? = some pin)
    (hkey : bytes32 pin.ed25519Pub = .ok key)
    (hanswer : k.guardian.party.respondOnce F K context env key f.entropy =
      (p, some s, .ok (some ack))) (hwritten : writeHandshake ack f.written = .ok ()) :
    receiveHello F K context k f env = (k.shook p (some s.info.sid), .ok ()) := by
  rw [receiveHello, hpin]
  simp only [hkey, hanswer, hwritten]
  rfl

theorem receiveMsg_active {sid : String} {s : Session} (hsid : env.sid = some sid)
    (hs : k.guardian.active[sid]? = some s) (hcontext : s.info.hacpSession = context) :
    receiveMsg F context k f env =
      match contractView F context f.session with
      | .error e => (k.refuse sid e, .error e)
      | .ok view => (k.report (k.guardian.endpoint.receive F env view) f.name sid, .ok ()) := by
  have hinfo : k.guardian.endpoint.manager.info sid = .ok s.info := by
    rw [info, show k.guardian.endpoint.manager.active[sid]? = some s from hs]
  rw [receiveMsg, hsid]
  simp only [hinfo]
  exact if_neg (not_not_intro hcontext)

namespace Guardian
variable {g : Guardian} {edge : Outside}

theorem receive_ok (hallowed : g.allowedContext context = .ok ())
    (hphases : phases F K C context edge g = k)
    (hrun : Scan.run (observeTurn F context edge) k (k.guardian.sessionsOf context) = .inl k') :
    g.receive F K C context edge = (k'.guardian, .ok k'.gathered, k'.established) := by
  subst hphases
  simp only [Guardian.receive, hallowed, hrun]

theorem receive_error (hallowed : g.allowedContext context = .ok ())
    (hphases : phases F K C context edge g = k) {e : SecureError}
    (hrun : Scan.run (observeTurn F context edge) k (k.guardian.sessionsOf context) = .inr (k', e)) :
    g.receive F K C context edge = (k'.guardian, .error e, k'.established) := by
  subst hphases
  simp only [Guardian.receive, hallowed, hrun]

theorem load_party {local_ : String} {seed : Vector UInt8 32} {pins : List Pin} {mode : Mode}
    (h : load local_ seed pins mode = .ok g) :
    g.party = ⟨⟨local_, seed, ∅⟩, ⟨[], ∅, ∅, [], 0⟩⟩ ∧ g.local_ = local_ := by
  unfold load Party.new at h
  simp only [bind_eq_ok, Except.ok.injEq] at h
  obtain ⟨party, hparty, known, -, rfl⟩ := h
  split_ifs at hparty
  obtain rfl := Except.ok.inj hparty
  exact ⟨rfl, rfl⟩

theorem active_singleton {sid : String} {s : Session}
    (h : ∀ k : String, g.active[k]? = if k = sid then some s else none) :
    g.active.toList = [(sid, s)] := by
  have hmem (p : String × Session) : p ∈ g.active.toList ↔ p = (sid, s) := by
    obtain ⟨k, t⟩ := p
    rw [ExtTreeMap.mem_toList_iff_getElem?_eq_some, h k, Prod.mk.injEq]
    split_ifs with hk
    · simp [hk, eq_comm]
    · simp [hk]
  have hnodup : g.active.toList.Nodup := .of_map Prod.fst (toList_nodup g.active)
  have hperm : g.active.toList.Perm [(sid, s)] :=
    (List.perm_ext_iff_of_nodup hnodup (List.nodup_singleton _)).mpr fun p => by
      rw [hmem, List.mem_singleton]
  exact List.perm_singleton.mp hperm

theorem sessionsOf_singleton {sid : String} {s : Session}
    (h : ∀ k : String, g.active[k]? = if k = sid then some s else none) :
    g.sessionsOf s.info.hacpSession = [s.info] := by
  simp [sessionsOf, active_singleton h]

end Guardian
end Opening

/-! ## One hello and its messages -/

namespace LateRefusal
open Guardian Burst

variable {C : Crates}

def exchange : KeyExchange := ⟨fun _ _ => .replicate 32 1, fun _ _ _ n => some (.replicate n 0)⟩

def hello : SecureEnvelope :=
  helloOf "urn:hacp:agent:b" "urn:hacp:agent:a" (.replicate 32 4) (.replicate 32 5)
    (some (.replicate 64 0))

def fileOf (env : SecureEnvelope) (session : SessionFile) : EdgeFile where
  name := "0.json"
  raw := (env.canonicalBytes foreign).mapError fun _ => .schemaViolation
  session := session
  entropy := ⟨some (.replicate 32 6), some (.replicate 32 7)⟩
  written := .ok ()

def opened : Session :=
  ⟨⟨sid, "urn:hacp:agent:b", "urn:hacp:agent:a", "s-1", .ackSent, 0⟩,
    ⟨.replicate 32 0, .replicate 32 0⟩, .replicate 32 3, false⟩

theorem urn_a : urn "urn:hacp:agent:a" = true := by decide

theorem urn_b : urn "urn:hacp:agent:b" = true := by decide

theorem sid_eq : encodeHex (Vector.replicate 16 (0 : UInt8)).toList = sid := rfl

theorem establishes : EphemeralSecret.establish exchange ⟨.replicate 32 6⟩ (.replicate 32 4)
    (.replicate 32 5) (.replicate 32 7) "s-1" "urn:hacp:agent:b" "urn:hacp:agent:a" =
      .ok (encodeHex (Vector.replicate 16 0).toList, opened.keys) := by
  have hnonzero : ¬(exchange.x25519 (.replicate 32 6) (.replicate 32 4)).all (· == 0) = true := by
    simp [exchange]
  simp only [EphemeralSecret.establish, if_neg hnonzero]
  rfl

theorem answers (seed : Vector UInt8 32) : (Party.respond foreign exchange
    ⟨⟨"urn:hacp:agent:a", seed, ∅⟩, ⟨[], ∅, ∅, [], 0⟩⟩ "s-1" hello (.replicate 32 3)
      ⟨some (.replicate 32 6), some (.replicate 32 7)⟩).2 =
        ⟨some opened, .ok (ackOf "urn:hacp:agent:b" "urn:hacp:agent:a" (.replicate 32 1)
          (.replicate 32 7) (.replicate 16 0) (some (.replicate 64 0)))⟩ :=
  Party.respond_of_new urn_b urn_a (by decide) (by decide) rfl rfl establishes rfl

theorem checks (seed : Vector UInt8 32) : Party.checkHello foreign
    ⟨⟨"urn:hacp:agent:a", seed, ∅⟩, ⟨[], ∅, ∅, [], 0⟩⟩ "s-1" hello (.replicate 32 3) =
      .ok (encodeHex (Vector.replicate 64 0).toList) :=
  Party.checkHello_of_new seed urn_b urn_a (by decide) (by decide) rfl

/-- A manager without a past answers the hello with the session. -/
theorem responded (seed : Vector UInt8 32) : ∃ p, ∃ ack : SecureEnvelope, ack.sid = some sid ∧
    Party.respondOnce foreign exchange ⟨⟨"urn:hacp:agent:a", seed, ∅⟩, ⟨[], ∅, ∅, [], 0⟩⟩ "s-1"
      hello (.replicate 32 3) ⟨some (.replicate 32 6), some (.replicate 32 7)⟩ =
        (p, some opened, .ok (some ack)) ∧
    p.manager.local_ = "urn:hacp:agent:a" ∧
    ∀ k : String, p.manager.active[k]? = if k = sid then some opened else none := by
  have hanswer := answers seed
  have hunseen : ("s-1", encodeHex (Vector.replicate 64 (0 : UInt8)).toList) ∉
      (∅ : Finset (String × String)) := Finset.notMem_empty _
  rw [Party.respondOnce_unseen (checks seed) hunseen]
  rcases Party.respond_cases (F := foreign) (K := exchange)
    ⟨⟨"urn:hacp:agent:a", seed, ∅⟩, ⟨[], ∅, ∅, [], 0⟩⟩ "s-1" hello (.replicate 32 3)
    ⟨some (.replicate 32 6), some (.replicate 32 7)⟩ with ⟨h, result, -, -, -, hsame⟩ |
    ⟨env, k, keys, order, q, s, -, -, hroom, hs, hsame⟩
  · rw [hsame] at hanswer
    cases hanswer
  rw [hsame, Answer.mk.injEq] at hanswer
  rw [hsame]
  obtain ⟨hopened, hack⟩ := hanswer
  have hopened : s = opened := Option.some.inj hopened
  have hk : k = sid := by
    rw [hs] at hopened
    exact congrArg (·.info.sid) hopened
  refine ⟨q.insertSession k s ⟨order, hello, env⟩, env, ?_, ?_, hroom.trimmed.local_, fun k' => ?_⟩
  · rw [Except.ok.inj hack]
    exact congrArg some sid_eq
  · rw [hopened]
    rfl
  · rw [Party.active_insertSession, hopened, hk]
    refine if_congr Iff.rfl rfl ?_
    rcases hroom.trimmed.active k' with hold | hnone
    · exact hold.trans ExtTreeMap.getElem?_empty
    · exact hnone

/-- A guardian with the one session of the hello, from which nothing was received. -/
structure Opened (k : Intake) : Prop where
  sane : Sane k.guardian
  local_ : k.guardian.local_ = "urn:hacp:agent:a"
  blocked : k.guardian.blocked = ∅
  name : k.guardian.endpoint.manager.local_ = "urn:hacp:agent:a"
  active : ∀ i : String, k.guardian.active[i]? = if i = sid then some opened else none
  window : k.guardian.endpoint.window sid = none
  secure : ∀ p ∈ k.guardian.pins.toList, p.2.requireSecure = true
  mode : k.guardian.mode = .degraded
  gathered : k.gathered = .empty
  established : k.established = [sid]

theorem receiveFile_fileOf (k : Intake) {env : SecureEnvelope} (hreads : ReadsJson C.tokens)
    (hvalid : env.validate foreign = .ok ())
    (hown : ¬(env.from_ = k.guardian.local_ ∧ env.to_ ≠ k.guardian.local_)) (session : SessionFile) :
    receiveFile foreign exchange C "s-1" k (fileOf env session) =
      match env.kind with
      | .hello => receiveHello foreign exchange "s-1" k (fileOf env session) env
      | .ack => receiveAck foreign exchange "s-1" k env
      | .msg => receiveMsg foreign "s-1" k (fileOf env session) env := by
  obtain ⟨bytes, hbytes, hparsed⟩ := SecureEnvelope.fromJson_canonicalBytes hreads hvalid
  have hraw : (fileOf env session).raw = .ok bytes := by
    rw [fileOf, hbytes]
    rfl
  exact receiveFile_parsed hraw hparsed hown

theorem hello_turn {g : Guardian} (hreads : ReadsJson C.tokens)
    (hg : load "urn:hacp:agent:a" (.replicate 32 1) [securePin] .degraded = .ok g) :
    ∃ k, Opened k ∧
      fileTurn foreign exchange C "s-1" (.start g) (fileOf hello .notFound) = .inl k := by
  obtain ⟨hparty, hlocal⟩ := load_party hg
  obtain ⟨hendpoint, hblocked, hpins⟩ := load_eq_ok hg
  obtain ⟨hsecure, hmode⟩ := load_secure hg
  obtain ⟨p, ack, hack, hresponded, hname, hactive⟩ := responded (.replicate 32 1)
  have hvalid : hello.validate foreign = .ok () := validate_helloOf urn_b urn_a (.replicate 64 0)
  have hown : ¬(hello.from_ = (Intake.start g).guardian.local_ ∧
      hello.to_ ≠ (Intake.start g).guardian.local_) := fun hcon => hcon.2 hlocal.symm
  have hpin : (Intake.start g).guardian.pins[hello.from_]? = some securePin :=
    hpins securePin (List.mem_singleton_self _)
  have hkey : bytes32 securePin.ed25519Pub = .ok (.replicate 32 3) := Party.bytes32_eq_ok.mpr rfl
  have hwritten : writeHandshake ack (fileOf hello .notFound).written = .ok () := by
    rw [writeHandshake, hack]
    rfl
  have hfile : receiveFile foreign exchange C "s-1" (.start g) (fileOf hello .notFound) =
      ((Intake.start g).shook p (some sid), .ok ()) := by
    have hanswer : (Intake.start g).guardian.party.respondOnce foreign exchange "s-1" hello
        (.replicate 32 3) (fileOf hello .notFound).entropy = (p, some opened, .ok (some ack)) := by
      rw [show (Intake.start g).guardian.party = _ from hparty]
      exact hresponded
    rw [receiveFile_fileOf _ hreads hvalid hown]
    exact receiveHello_answered hpin hkey hanswer hwritten
  have hstep := receiveFile_step foreign exchange C "s-1" (.start g) (fileOf hello .notFound)
  rw [hfile] at hstep
  refine ⟨(Intake.start g).shook p (some sid), ⟨hstep.sane (load_sane hg), hlocal, hblocked, hname,
    hactive,
    ?_, hsecure, hmode, rfl, rfl⟩, ?_⟩
  · change g.endpoint.window sid = none
    rw [hendpoint]
    exact ExtTreeMap.getElem?_empty
  · rw [fileTurn, hfile]

/-- The first message has been delivered, and the session is still the only one. -/
structure Delivered (k : Intake) : Prop where
  sane : Sane k.guardian
  local_ : k.guardian.local_ = "urn:hacp:agent:a"
  active : ∃ s : Session, s.info.hacpSession = "s-1" ∧
    ∀ i : String, k.guardian.active[i]? = if i = sid then some s else none
  delivered : ∃ d ∈ k.gathered.delivered, d.sid = sid
  position : (k.guardian.endpoint.windowOf sid).deliveryNext ≠ 0
  established : k.established = [sid]

theorem receiveFile_letter {k : Intake} (hreads : ReadsJson C.tokens)
    (hlocal : k.guardian.local_ = "urn:hacp:agent:a") {s : Session}
    (hs : k.guardian.active[sid]? = some s) (hcontext : s.info.hacpSession = "s-1")
    {contract : String} (hbinding : Binding contract) (payload : Bytes) (n : UInt64)
    (session : SessionFile) :
    receiveFile foreign exchange C "s-1" k (fileOf (letter contract payload n) session) =
      match contractView foreign "s-1" session with
      | .error e => (k.refuse sid e, .error e)
      | .ok view => (k.report (k.guardian.endpoint.receive foreign (letter contract payload n) view)
          "0.json" sid, .ok ()) := by
  have hown : ¬((letter contract payload n).from_ = k.guardian.local_ ∧
      (letter contract payload n).to_ ≠ k.guardian.local_) := fun hcon => hcon.2 hlocal.symm
  rw [receiveFile_fileOf k hreads (validate_letter hbinding payload n) hown]
  exact receiveMsg_active rfl hs hcontext

/-- The first message is delivered, and its session stays active behind it. -/
theorem message_taken {k : Intake} (hk : Opened k) :
    ∃ s, (k.guardian.endpoint.receive foreign (message 0) .bootstrap).1.manager.active[sid]? = some s ∧
      s.opened = opened.opened ∧ Taken foreign k.guardian.endpoint sid 0 (message 0)
        (k.guardian.endpoint.receive foreign (message 0) .bootstrap).2 := by
  have hs : k.guardian.endpoint.manager.active[sid]? = some opened := (hk.active sid).trans (if_pos rfl)
  have hwindow : k.guardian.endpoint.windowOf sid = .empty := windowOf_none hk.window
  have hnext : InOrder foreign k.guardian.endpoint sid 0 (message 0) .bootstrap := {
    addressed := addressed "" [] 0
    verified := verified_letter binding_empty [] 0 hk.name hs rfl
    opens := openable_letter binding_empty [] 0 (by decide) hk.name hs rfl
    next := by rw [hwindow]; rfl
    position := by rw [hwindow]; rfl
    below := by decide
    bound := rfl
    heldBound := fun n e he => by
      rw [hwindow, show Window.empty.held[n]? = none from ExtTreeMap.getElem?_empty] at he
      cases he }
  have htaken := (hnext.taken_iff hk.sane.tidy).mpr (by rw [hwindow]; decide)
  have hadmitted : Admitted sid k.guardian.endpoint.retain
      (k.guardian.endpoint.receive foreign (message 0) .bootstrap) :=
    hk.sane.tidy.receive rfl .bootstrap
  generalize k.guardian.endpoint.receive foreign (message 0) .bootstrap = result
    at htaken hadmitted ⊢
  cases hadmitted with
  | ended hab => exact absurd htaken.aborted hab.aborted
  | kept _ halike =>
    have hsession := halike.session
    rw [show k.guardian.endpoint.retain.manager.active[sid]? = some opened from hs,
      Option.map_some, Option.map_eq_some_iff] at hsession
    obtain ⟨s, hactive, hsame⟩ := hsession
    exact ⟨s, hactive, hsame, htaken⟩

theorem message_turn {k : Intake} (hk : Opened k) :
    ∃ k', Delivered k' ∧
      fileTurn foreign exchange crates "s-1" k (fileOf (message 0) .notFound) = .inl k' := by
  obtain ⟨s, hactive, hsame, htaken⟩ := message_taken hk
  have hwindow : k.guardian.endpoint.windowOf sid = .empty := windowOf_none hk.window
  have hreports : Reports sid k.guardian.endpoint
      (k.guardian.endpoint.receive foreign (message 0) .bootstrap) := .receive hk.sane.tidy rfl _
  have hfile := receiveFile_letter (C := crates) readJson_reads hk.local_
    ((hk.active sid).trans (if_pos rfl)) rfl binding_empty [] 0 .notFound
  rw [show letter "" [] 0 = message 0 from rfl] at hfile
  rw [show contractView foreign "s-1" .notFound = .ok .bootstrap from rfl] at hfile
  dsimp only at hfile
  generalize k.guardian.endpoint.receive foreign (message 0) .bootstrap = result
    at hactive htaken hreports hfile
  obtain ⟨pt, rest, hdelivered, -⟩ := htaken.first
  have hstep := receiveFile_step foreign exchange crates "s-1" k (fileOf (message 0) .notFound)
  rw [hfile] at hstep
  have hgathered : (k.report result "0.json" sid).gathered.delivered = result.2.delivered := by
    change (k.gathered.appendReport result.2 "0.json" sid).delivered = _
    rw [Gathered.appendReport, htaken.aborted, hk.gathered]
    exact List.nil_append _
  have hcontext : s.info.hacpSession = "s-1" := congrArg (·.info.hacpSession) hsame
  refine ⟨k.report result "0.json" sid, ⟨hstep.sane hk.sane, hk.local_, ⟨s, hcontext, fun i => ?_⟩,
    ?_, ?_, hk.established⟩, ?_⟩
  · by_cases hi : i = sid
    · rw [if_pos hi, hi]
      exact hactive
    · rw [if_neg hi]
      exact (hreports.others i hi).trans ((hk.active i).trans (if_neg hi))
  · rw [hgathered, hdelivered]
    exact ⟨_, List.mem_cons_self, rfl⟩
  · rcases hreports.outcome with ⟨e, he, -, -⟩ | ⟨-, hposition⟩
    · rw [htaken.aborted] at he
      cases he
    · have hmoved := hposition s hactive
      rw [hwindow, hdelivered, List.length_cons] at hmoved
      intro hzero
      change (result.1.windowOf sid).deliveryNext = 0 at hzero
      rw [hzero] at hmoved
      exact absurd hmoved (by simp)
  · rw [fileTurn, hfile]

/-- The second message ends the session; what the first delivered stays. -/
theorem refused_turn {k : Intake} (hk : Delivered k) :
    ∃ k', fileTurn foreign exchange crates "s-1" k (fileOf (message 1) .unreadable) = .inl k' ∧
      (∀ i : String, k'.guardian.active[i]? = none) ∧
      k'.gathered.delivered = k.gathered.delivered ∧
      (∃ p ∈ k'.gathered.aborted, p.1 = sid) ∧ k'.established = [sid] := by
  obtain ⟨s, hcontext, hactive⟩ := hk.active
  have hfile := receiveFile_letter (C := crates) readJson_reads hk.local_
    ((hactive sid).trans (if_pos rfl)) hcontext binding_empty [] 1 .unreadable
  rw [show letter "" [] 1 = message 1 from rfl] at hfile
  rw [show contractView foreign "s-1" .unreadable = .error .contractMismatch from rfl] at hfile
  dsimp only at hfile
  refine ⟨(k.refuse sid .contractMismatch).reject "0.json" .contractMismatch, ?_, fun i => ?_, rfl,
    ?_, hk.established⟩
  · rw [fileTurn, hfile]
    rfl
  · by_cases hi : i = sid
    · rw [hi]
      exact (gone_close sid k.guardian.endpoint).session
    · exact ((Frame.close sid k.guardian.endpoint).active i hi).trans
        ((hactive i).trans (if_neg hi))
  · exact ⟨_, List.mem_append_right _ (List.mem_singleton_self _), rfl⟩

/-- A hello in front of the messages; every observation finds the same control state. -/
def edge (files : List EdgeFile) (observed : SessionFile) : Outside where
  session := .notFound
  entropy := ⟨none, none⟩
  written := .ok ()
  handshakes := [fileOf hello .notFound]
  messages _ := files
  observed _ := observed

/-- The control state is refused before the second message. -/
def messageRefused : Outside :=
  edge [fileOf (message 0) .notFound, fileOf (message 1) .unreadable] .notFound

def observationRefused : Outside := edge [fileOf (message 0) .notFound] .unreadable

section Run
variable {g : Guardian}
  (hg : load "urn:hacp:agent:a" (.replicate 32 1) [securePin] .degraded = .ok g)
include hg

theorem allowed : g.allowedContext "s-1" = .ok () := by
  rw [allowedContext_eq_ok, (load_eq_ok hg).2.1]
  exact ⟨by decide, Finset.notMem_empty _⟩

theorem fresh : Fresh g [sid] := by
  refine ⟨List.nodup_singleton _, fun i hi => ?_⟩
  have hnone : g.endpoint = .new "urn:hacp:agent:a" (.replicate 32 1) := (load_eq_ok hg).1
  rw [Has, Guardian.active, hnone]
  rintro (hactive | hwindow)
  · exact hactive ExtTreeMap.getElem?_empty
  · exact hwindow ExtTreeMap.getElem?_empty

theorem phases_edge (files : List EdgeFile) (observed : SessionFile) :
    ∃ k, Opened k ∧ phases foreign exchange crates "s-1" (edge files observed) g =
      (Scan.run (fileTurn foreign exchange crates "s-1") k files).elim id id := by
  obtain ⟨k, hk, hturn⟩ := hello_turn (C := crates) readJson_reads hg
  have hfirst : handshakePhase foreign exchange crates "s-1" (edge files observed) (.start g) = .inl k :=
    Scan.run_cons_inl hturn
  have hfiles : messageFiles "s-1" (edge files observed) k = files := by
    have hsessions : k.guardian.sessionsOf "s-1" = [opened.info] := sessionsOf_singleton hk.active
    rw [messageFiles, hsessions, List.flatMap_singleton]
    rfl
  refine ⟨k, hk, ?_⟩
  rw [phases, hfirst]
  dsimp only [Sum.elim_inl, id]
  rw [messagePhase, hfiles]

/-- The second message finds a control state that is refused. -/
theorem receive_late : ∃ g' gathered,
    g.receive foreign exchange crates "s-1" messageRefused = (g', .ok gathered, [sid]) ∧
    (∃ p ∈ gathered.aborted, p.1 = sid) ∧ ∃ d ∈ gathered.delivered, d.sid = sid := by
  obtain ⟨k, hk, hphases⟩ := phases_edge hg
    [fileOf (message 0) .notFound, fileOf (message 1) .unreadable] .notFound
  obtain ⟨k', hk', hturn'⟩ := message_turn hk
  obtain ⟨k'', hturn'', hover, hdelivered, haborted, hestablished⟩ := refused_turn hk'
  rw [Scan.run_cons_inl hturn', Scan.run_cons_inl hturn''] at hphases
  have hsessions : k''.guardian.sessionsOf "s-1" = [] := by
    refine sessionsOf_eq_nil fun i s hs => ?_
    rw [hover i] at hs
    cases hs
  refine ⟨k''.guardian, k''.gathered, ?_, haborted, hdelivered ▸ hk'.delivered⟩
  have hrun : Scan.run (observeTurn foreign "s-1" messageRefused) k''
      (k''.guardian.sessionsOf "s-1") = .inl k'' := by
    rw [hsessions]
    rfl
  rw [← hestablished]
  exact receive_ok (allowed hg) hphases hrun

theorem receive_failing : ∃ g' s,
    g.receive foreign exchange crates "s-1" observationRefused =
      (g', .error .contractMismatch, [sid]) ∧
    g'.active[sid]? = some s ∧
      (g'.endpoint.windowOf sid).deliveryNext ≠ (g.endpoint.windowOf sid).deliveryNext := by
  obtain ⟨k, hk, hphases⟩ := phases_edge hg [fileOf (message 0) .notFound] .unreadable
  obtain ⟨k', hk', hturn'⟩ := message_turn hk
  rw [Scan.run_cons_inl hturn'] at hphases
  obtain ⟨s, hcontext, hactive⟩ := hk'.active
  have hsessions : k'.guardian.sessionsOf "s-1" = [s.info] := hcontext ▸ sessionsOf_singleton hactive
  refine ⟨k'.guardian, s, ?_, (hactive sid).trans (if_pos rfl), ?_⟩
  · have hrun : Scan.run (observeTurn foreign "s-1" observationRefused) k'
        (k'.guardian.sessionsOf "s-1") = .inr (k', .contractMismatch) := by
      rw [hsessions]
      rfl
    rw [← hk'.established]
    exact receive_error (allowed hg) hphases hrun
  · have hstart : g.endpoint.windowOf sid = .empty := windowOf_none (not_has ((fresh hg).2 sid
      (List.mem_singleton_self _))).2
    rw [hstart]
    exact hk'.position

end Run

end LateRefusal

/-! ## Open requests of every guardian -/

namespace Guardian
variable {F : Foreign} {K : KeyExchange} {C : Crates} {context : String}

def Reached (F : Foreign) (K : KeyExchange) (C : Crates) (g : Guardian) : Prop :=
  ∃ local_ seed pins mode g₀ inputs, load local_ seed pins mode = .ok g₀ ∧
    g = (machine F K C).exec g₀ inputs

theorem Reached.of_load {local_ : String} {seed : Vector UInt8 32} {pins : List Pin} {mode : Mode}
    {g : Guardian} (h : load local_ seed pins mode = .ok g) : Reached F K C g :=
  ⟨local_, seed, pins, mode, g, [], h, rfl⟩

theorem Reached.sane {g : Guardian} (h : Reached F K C g) : Sane g := by
  obtain ⟨_, _, _, _, g₀, inputs, hload, rfl⟩ := h
  exact (kept_exec F K C (load_sane hload) inputs).sane

variable {g g' : Guardian} {edge : Outside} {established : List String}

/-- The answer lists no delivery of a session it lists as aborted, unless a message of the session
finds the control state refused after a delivery, and no downgrade clears the deliveries. -/
theorem aborted_purged_iff (hg : Reached F K C g) {gathered : Gathered}
    (h : g.receive F K C context edge = (g', .ok gathered, established))
    (hfresh : Fresh g established) (i : String) :
    ((∃ p ∈ gathered.aborted, p.1 = i) → ∀ d ∈ gathered.delivered, d.sid ≠ i) ↔
      (∃ t ∈ fileTurns F K C context edge g, Downgrades F C t) ∨
        ∀ t ∈ fileTurns F K C context edge g, ¬Unpurged F C context i t := by
  have hexposes := not_congr (receive_exposes hg.sane h hfresh i)
  rw [Gathered.Exposed, not_and, not_not, Gathered.deliveriesOf_eq_nil, not_and_or] at hexposes
  rw [hexposes]
  simp only [not_forall, not_exists, not_and, not_not, exists_prop]

theorem aborted_session_delivers : ∃ g g' gathered,
    load "urn:hacp:agent:a" (.replicate 32 1) [securePin] .degraded = .ok g ∧
    g.receive Burst.foreign LateRefusal.exchange crates "s-1" LateRefusal.messageRefused =
      (g', .ok gathered, [Burst.sid]) ∧
    ¬∀ i, (∃ p ∈ gathered.aborted, p.1 = i) → ∀ d ∈ gathered.delivered, d.sid ≠ i := by
  obtain ⟨g, hg⟩ := load_securePin
  obtain ⟨g', gathered, hreceive, haborted, d, hd, hsid⟩ := LateRefusal.receive_late hg
  exact ⟨g, g', gathered, hg, hreceive, fun hclaim => hclaim Burst.sid haborted d hd hsid⟩

theorem aborted_purged_iff_messageRefused : ∃ g g' gathered,
    load "urn:hacp:agent:a" (.replicate 32 1) [securePin] .degraded = .ok g ∧
    g.receive Burst.foreign LateRefusal.exchange crates "s-1" LateRefusal.messageRefused =
      (g', .ok gathered, [Burst.sid]) ∧
    (((∃ p ∈ gathered.aborted, p.1 = Burst.sid) → ∀ d ∈ gathered.delivered, d.sid ≠ Burst.sid) ↔
      (∃ t ∈ fileTurns Burst.foreign LateRefusal.exchange crates "s-1" LateRefusal.messageRefused g,
          Downgrades Burst.foreign crates t) ∨
        ∀ t ∈ fileTurns Burst.foreign LateRefusal.exchange crates "s-1" LateRefusal.messageRefused g,
          ¬Unpurged Burst.foreign crates "s-1" Burst.sid t) := by
  obtain ⟨g, hg⟩ := load_securePin
  obtain ⟨g', gathered, hreceive, -⟩ := LateRefusal.receive_late hg
  exact ⟨g, g', gathered, hg, hreceive,
    aborted_purged_iff (.of_load hg) hreceive (LateRefusal.fresh hg) Burst.sid⟩

/-- An open request that fails leaves the position of every session that is still active, unless an
observation finds the control state refused after such a session delivered something. -/
theorem failed_open_keeps_iff (hg : Reached F K C g) {e : SecureError}
    (h : g.receive F K C context edge = (g', .error e, established))
    (hfresh : Fresh g established) :
    (∀ (sid : String) (s : Session), g'.active[sid]? = some s →
      (g'.endpoint.windowOf sid).deliveryNext = (g.endpoint.windowOf sid).deliveryNext) ↔
    (g.allowedContext context = .ok () →
      ∀ t ∈ observeTurns F K C context edge g, ¬Stranded F context edge t) :=
  receive_failed_position hg.sane h hfresh

theorem failed_open_loses : ∃ g g',
    load "urn:hacp:agent:a" (.replicate 32 1) [securePin] .degraded = .ok g ∧
    g.receive Burst.foreign LateRefusal.exchange crates "s-1" LateRefusal.observationRefused =
      (g', .error .contractMismatch, [Burst.sid]) ∧
    ¬∀ (sid : String) (s : Session), g'.active[sid]? = some s →
      (g'.endpoint.windowOf sid).deliveryNext = (g.endpoint.windowOf sid).deliveryNext := by
  obtain ⟨g, hg⟩ := load_securePin
  obtain ⟨g', s, hreceive, hactive, hmoved⟩ := LateRefusal.receive_failing hg
  exact ⟨g, g', hg, hreceive, fun hclaim => hmoved (hclaim Burst.sid s hactive)⟩

theorem failed_open_keeps_iff_observationRefused : ∃ g g',
    load "urn:hacp:agent:a" (.replicate 32 1) [securePin] .degraded = .ok g ∧
    g.receive Burst.foreign LateRefusal.exchange crates "s-1" LateRefusal.observationRefused =
      (g', .error .contractMismatch, [Burst.sid]) ∧
    ((∀ (sid : String) (s : Session), g'.active[sid]? = some s →
        (g'.endpoint.windowOf sid).deliveryNext = (g.endpoint.windowOf sid).deliveryNext) ↔
      (g.allowedContext "s-1" = .ok () →
        ∀ t ∈ observeTurns Burst.foreign LateRefusal.exchange crates "s-1"
          LateRefusal.observationRefused g,
          ¬Stranded Burst.foreign "s-1" LateRefusal.observationRefused t)) := by
  obtain ⟨g, hg⟩ := load_securePin
  obtain ⟨g', s, hreceive, -⟩ := LateRefusal.receive_failing hg
  exact ⟨g, g', hg, hreceive,
    failed_open_keeps_iff (.of_load hg) hreceive (LateRefusal.fresh hg)⟩

end Guardian
end Hacp.Secure
