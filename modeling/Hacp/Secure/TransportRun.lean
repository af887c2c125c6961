import Hacp.Lib.Machine
import Hacp.Secure.Calls

/-!
# Runs of a transport

A run starts with no session. Handshakes establish sessions and evict half-open ones;
between them come the calls of the transport, in any order and about any session. What
a call does to one session is told in four cases, and every session's history follows.
-/
namespace Hacp.Secure
open Lib Std SessionManager Window

inductive Call where
  | seal_ (sid contract : String) (payload : Bytes) (view : ContractView)
  | receive (env : SecureEnvelope) (view : ContractView)
  | observe (sid : String) (view : ContractView)
  | close (sid : String)

inductive Reply where
  | sealed (sealing : Sealing)
  | reported (report : ReceiveReport)
  | closed (result : Except SecureError Unit)
  | silent

/-- A call, or what a handshake does to the active sessions: `respond` and `complete` insert
one that has sent nothing, `bound_pending` removes one. -/
inductive Input where
  | call (c : Call)
  | establish (s : Session)
  | evict (sid : String)

def Call.view : Call → Option ContractView
  | .receive _ view | .observe _ view => some view
  | .seal_ _ _ _ _ | .close _ => none

/-- A call that cannot end the session but by an abort. -/
def Call.Spares (sid : String) : Call → Prop
  | .receive _ _ | .observe _ _ => True
  | .seal_ k _ _ _ | .close k => k ≠ sid

namespace Reply

def delivered : Reply → List Delivery
  | .reported report => report.delivered
  | _ => []

def encrypted : Reply → Option Encryption
  | .sealed sealing => sealing.encrypted
  | _ => none

def sealing : Reply → Option Sealing
  | .sealed sealing => some sealing
  | _ => none

def report : Reply → Option ReceiveReport
  | .reported report => some report
  | _ => none

def deliveriesOf (r : Reply) (sid : String) : List Delivery :=
  r.delivered.filter fun d => d.sid = sid

def encryptionsOf (r : Reply) (sid : String) : List Encryption :=
  r.encrypted.toList.filter fun e => e.sid = sid

end Reply

namespace Endpoint
variable (F : Foreign)

def call (x : Endpoint) : Call → Endpoint × Reply
  | .seal_ sid contract payload view =>
    let (x, sealing) := x.seal_ F sid contract payload view
    (x, .sealed sealing)
  | .receive env view =>
    let (x, report) := x.receive F env view
    (x, .reported report)
  | .observe sid view =>
    let (x, report) := x.observe F sid view
    (x, .reported report)
  | .close sid =>
    let (x, result) := x.close sid
    (x, .closed result)

def step (x : Endpoint) : Input → Endpoint × Reply
  | .call c => x.call F c
  | .establish s =>
    ({ x with manager := x.manager.put s.info.sid { s with info.sendSeq := 0 } }, .silent)
  | .evict sid => ({ x with manager := x.manager.remove sid }, .silent)

def machine : Machine Endpoint Input Reply where
  step := step F

/-- `Transport::new` beside a manager without sessions. -/
def new (local_ : String) (identity : Vector UInt8 32) : Endpoint :=
  ⟨⟨∅⟩, ⟨local_, identity, ∅⟩⟩

variable {F} {x y z : Endpoint} {sid k : String} {s : Session} {E : SecureEnvelope → Prop}

/-! ## What a call does to one session -/

/-- A session the call is not about. -/
structure Still (sid : String) (x y : Endpoint) : Prop where
  local_ : y.manager.local_ = x.manager.local_
  session : y.manager.active[sid]? = x.manager.active[sid]?
  window : y.window sid = x.window sid ∨ x.manager.active[sid]? = none ∧ y.window sid = none

theorem Still.refl (sid : String) (x : Endpoint) : Still sid x x := ⟨rfl, rfl, .inl rfl⟩

theorem Still.retain (sid : String) (x : Endpoint) : Still sid x x.retain where
  local_ := rfl
  session := rfl
  window := by
    rw [window_retain]
    cases h : x.manager.active[sid]? with
    | none => exact .inr ⟨rfl, rfl⟩
    | some s => exact .inl rfl

theorem Still.frame (h : Still sid x y) (hf : Frame k y z) (hk : sid ≠ k) : Still sid x z where
  local_ := hf.local_.trans h.local_
  session := (hf.active sid hk).trans h.session
  window := by
    rw [hf.window sid hk]
    exact h.window

theorem Still.windowOf (h : Still sid x y) (hs : x.manager.active[sid]? = some s) :
    y.windowOf sid = x.windowOf sid := by
  rcases h.window with hw | ⟨hnone, -⟩
  · rw [Endpoint.windowOf, hw, Endpoint.windowOf]
  · rw [hs] at hnone
    cases hnone

theorem Still.live (h : Still sid x y) (hlive : Live F E sid x s) : Live F E sid y s := by
  have hwindow := h.windowOf hlive.session
  have hkeys : SameKeys sid x.manager y.manager := ⟨h.local_, by rw [h.session]⟩
  refine ⟨h.session.trans hlive.session, ?_, ?_, ?_⟩
  · rw [hwindow]
    exact hlive.sound.imp fun n env ha => ha.of_sameKeys hkeys
  · rw [hwindow]
    exact hlive.settled
  · rw [hwindow, hlive.lockstep]

def Keeps (sid : String) (x y : Endpoint) : Prop :=
  ∀ n, (x.windowOf sid).Has n → (y.windowOf sid).Has n

/-- What a call does to one session, with what it delivers and encrypts for it. -/
inductive Moves (F : Foreign) (E : SecureEnvelope → Prop) (sid : String) (x : Endpoint) :
    Endpoint → List Delivery → List Encryption → Prop
  | still {y : Endpoint} : Still sid x y → Moves F E sid x y [] []
  | ended {y : Endpoint} {s : Session} (spent : Option Encryption) :
      x.manager.active[sid]? = some s → y.manager.active[sid]? = none →
      (∀ enc ∈ spent, s.info.sendSeq ≠ u64Max ∧
        enc = ⟨sid, s.keys.sendKey s.initiator, s.info.sendSeq⟩) →
      Moves F E sid x y [] spent.toList
  | kept {y : Endpoint} {s t : Session} {ds : List Delivery} (view : ContractView) :
      x.manager.active[sid]? = some s → Live F E sid y t →
      SameKeys sid x.manager y.manager → t.info.sendSeq = s.info.sendSeq →
      Batch F x.manager (Arrived F x sid E) sid view (x.windowOf sid).deliveryNext
        (y.windowOf sid).deliveryNext ds →
      (Opens F x.manager (Arrived F x sid E) → Keeps sid x y) →
      Moves F E sid x y ds []
  | sent {y : Endpoint} {s : Session} : x.manager.active[sid]? = some s →
      Live F E sid y { s with info.sendSeq := s.info.sendSeq + 1 } → s.info.sendSeq ≠ u64Max →
      SameKeys sid x.manager y.manager →
      y.windowOf sid = { x.windowOf sid with sendSeq := (x.windowOf sid).sendSeq + 1 } →
      Moves F E sid x y [] [⟨sid, s.keys.sendKey s.initiator, s.info.sendSeq⟩]

namespace Moves
variable {ds : List Delivery} {encs : List Encryption}

theorem inactive (h : Moves F E sid x y ds encs) (hx : x.manager.active[sid]? = none) :
    y.manager.active[sid]? = none := by
  cases h with
  | still hstill => exact hstill.session.trans hx
  | ended _ _ hgone => exact hgone
  | kept _ hs => simp [hx] at hs
  | sent hs => simp [hx] at hs

theorem sameKeys (h : Moves F E sid x y ds encs) {t : Session}
    (ht : y.manager.active[sid]? = some t) : SameKeys sid x.manager y.manager := by
  cases h with
  | still hstill => exact ⟨hstill.local_, by rw [hstill.session]⟩
  | ended _ _ hgone => simp [hgone] at ht
  | kept _ _ _ hkeys => exact hkeys
  | sent _ _ _ hkeys => exact hkeys

/-- A session that lives on and encrypts nothing keeps its number to send. -/
theorem unspent (h : Moves F E sid x y ds []) {t : Session}
    (ht : y.manager.active[sid]? = some t) :
    ∃ s, x.manager.active[sid]? = some s ∧ t.info.sendSeq = s.info.sendSeq := by
  generalize hencs : ([] : List Encryption) = encs at h
  cases h with
  | still hstill => exact ⟨t, hstill.session.symm.trans ht, rfl⟩
  | ended _ _ hgone => simp [hgone] at ht
  | @kept s t' _ _ hs hlive _ hsend =>
    obtain rfl := Option.some.inj (hlive.session.symm.trans ht)
    exact ⟨s, hs, hsend⟩
  | sent => simp at hencs

theorem live (h : Moves F E sid x y ds encs)
    (hlive : ∀ s, x.manager.active[sid]? = some s → Live F E sid x s) {t : Session}
    (ht : y.manager.active[sid]? = some t) : Live F E sid y t := by
  cases h with
  | still hstill => exact hstill.live (hlive t (hstill.session.symm.trans ht))
  | ended _ _ hgone => simp [hgone] at ht
  | kept _ _ hlive' =>
    obtain rfl := Option.some.inj (hlive'.session.symm.trans ht)
    exact hlive'
  | sent _ hlive' =>
    obtain rfl := Option.some.inj (hlive'.session.symm.trans ht)
    exact hlive'

theorem batch (h : Moves F E sid x y ds encs) {t : Session}
    (ht : y.manager.active[sid]? = some t) :
    ∃ view, Batch F x.manager (Arrived F x sid E) sid view (x.windowOf sid).deliveryNext
      (y.windowOf sid).deliveryNext ds := by
  cases h with
  | still hstill =>
    rw [hstill.windowOf (hstill.session.symm.trans ht)]
    exact ⟨.bootstrap, .nil⟩
  | ended _ _ hgone => simp [hgone] at ht
  | kept view _ _ _ _ hbatch => exact ⟨view, hbatch⟩
  | sent _ _ _ _ hwindow =>
    rw [hwindow]
    exact ⟨.bootstrap, .nil⟩

/-- Nothing is delivered for a session that is not active afterwards. -/
theorem undelivered (h : Moves F E sid x y ds encs) (hy : y.manager.active[sid]? = none) :
    ds = [] := by
  cases h with
  | still => rfl
  | ended => rfl
  | kept _ _ hlive => simp [hlive.session] at hy
  | sent => rfl

/-- A session that lives on loses nothing that can be opened. -/
theorem keeps (h : Moves F E sid x y ds encs) {t : Session} (ht : y.manager.active[sid]? = some t)
    (hopens : Opens F x.manager (Arrived F x sid E)) : Keeps sid x y := by
  cases h with
  | still hstill =>
    intro n hn
    rwa [hstill.windowOf (hstill.session.symm.trans ht)]
  | ended _ _ hgone => simp [hgone] at ht
  | kept _ _ _ _ _ _ hkeeps => exact hkeeps hopens
  | sent _ _ _ _ hwindow =>
    intro n hn
    rw [hwindow]
    exact hn

end Moves

theorem Reported.frame {view : ContractView} {post : Window → Prop}
    {result : Endpoint × ReceiveReport} (h : Reported F E k view post x s result) :
    Frame k x result.1 := by
  cases h with
  | ended hab => exact hab.frame
  | live _ hframe => exact hframe

theorem Reported.aborted {view : ContractView} {post : Window → Prop}
    {result : Endpoint × ReceiveReport} (h : Reported F E k view post x s result)
    (hab : result.2.aborted ≠ none) : result.2.delivered = [] := by
  cases h with
  | ended hended => exact hended.delivered
  | live _ _ _ _ _ _ _ _ hnone => exact absurd hnone hab

/-- Every delivery of a report was checked. -/
theorem Reported.delivers {view : ContractView} {post : Window → Prop}
    {result : Endpoint × ReceiveReport} (h : Reported F E k view post x s result) :
    ∀ d ∈ result.2.delivered, ∃ env, Delivers F x.manager (Arrived F x k E) k view d env := by
  cases h with
  | ended hab => simp [hab.delivered]
  | live t _ _ _ _ hbatch => exact hbatch.each

theorem Reported.sid_eq {view : ContractView} {post : Window → Prop}
    {result : Endpoint × ReceiveReport} (h : Reported F E k view post x s result) :
    ∀ d ∈ result.2.delivered, d.sid = k := by
  intro d hd
  obtain ⟨env, hd⟩ := h.delivers d hd
  exact hd.sid

theorem Reported.moves {view : ContractView} {post : Window → Prop}
    {result : Endpoint × ReceiveReport} (h : Reported F E k view post y s result)
    (hs : x.manager.active[k]? = some s) (hstill : ∀ sid, Still sid x y)
    (hmanager : y.manager = x.manager) (hwindow : y.windowOf k = x.windowOf k) (sid : String) :
    Moves F E sid x result.1 ((Reply.reported result.2).deliveriesOf sid)
      ((Reply.reported result.2).encryptionsOf sid) := by
  have hsid := h.sid_eq
  by_cases hk : sid = k
  · subst hk
    have hall : (Reply.reported result.2).deliveriesOf sid = result.2.delivered :=
      List.filter_eq_self.mpr fun d hd => by simpa using hsid d hd
    rw [hall]
    cases h with
    | ended hab =>
      rw [hab.delivered]
      exact .ended none hs hab.gone.session (by simp)
    | live t hframe hkeys hsend hlive hbatch hkeeps hpost hab =>
      have harrived : Arrived F y sid E = Arrived F x sid E := by
        funext n env
        rw [Arrived, hmanager, Arrived]
      rw [hmanager, harrived, hwindow] at hbatch hkeeps
      rw [hmanager] at hkeys
      exact .kept view hs hlive hkeys hsend hbatch hkeeps
  · have hnone : (Reply.reported result.2).deliveriesOf sid = [] :=
      List.filter_eq_nil_iff.mpr fun d hd => by simpa [hsid d hd] using Ne.symm hk
    rw [hnone]
    exact .still ((hstill sid).frame h.frame hk)

theorem Sealed.frame {contract : String} {payload : Bytes} {result : Endpoint × Sealing}
    (h : Sealed F E k contract payload x s result) : Frame k x result.1 := by
  cases h with
  | ended hframe => exact hframe
  | refused hframe => exact hframe
  | sent hframe => exact hframe

theorem Sealed.sid_eq {contract : String} {payload : Bytes} {result : Endpoint × Sealing}
    (h : Sealed F E k contract payload y s result) : ∀ enc ∈ result.2.encrypted, enc.sid = k := by
  cases h with
  | ended _ _ _ hspent => exact fun enc henc => (hspent enc henc).2 ▸ rfl
  | refused => simp
  | sent => simp

theorem Sealed.moves {contract : String} {payload : Bytes} {result : Endpoint × Sealing}
    (h : Sealed F E k contract payload x.retain s result) (hs : x.manager.active[k]? = some s)
    (sid : String) :
    Moves F E sid x result.1 ((Reply.sealed result.2).deliveriesOf sid)
      ((Reply.sealed result.2).encryptionsOf sid) := by
  have hdeliveries : (Reply.sealed result.2).deliveriesOf sid = [] := rfl
  have hsid : ∀ enc ∈ result.2.encrypted.toList, enc.sid = k := fun enc henc =>
    h.sid_eq enc (Option.mem_toList.mp henc)
  rw [hdeliveries]
  by_cases hk : sid = k
  · subst hk
    have hall : (Reply.sealed result.2).encryptionsOf sid = result.2.encrypted.toList :=
      List.filter_eq_self.mpr fun enc henc => by simpa using hsid enc henc
    rw [hall]
    cases h with
    | ended hframe hgone hne hspent => exact .ended _ hs hgone hspent
    | refused hframe hlive hmanager hwindow hne =>
      have hsame := hwindow.trans (windowOf_retain hs)
      refine .kept .bootstrap hs hlive ⟨?_, ?_⟩ rfl ?_ ?_
      · rw [hmanager]
        rfl
      · rw [hmanager]
        rfl
      · rw [hsame]
        exact .nil
      · exact fun _ n hn => hsame ▸ hn
    | sent hframe hlive hmax hkeys hwindow hemits =>
      refine .sent hs hlive hmax hkeys ?_
      rw [hwindow, windowOf_retain hs]
  · have hnone : (Reply.sealed result.2).encryptionsOf sid = [] :=
      List.filter_eq_nil_iff.mpr fun enc henc => by simpa [hsid enc henc] using Ne.symm hk
    rw [hnone]
    exact .still ((Still.retain sid x).frame h.frame hk)

theorem seal_unknown (hs : x.manager.active[k]? = none) (contract : String) (payload : Bytes)
    (view : ContractView) :
    x.seal_ F k contract payload view = (x.retain, ⟨none, .error .sessionUnknown⟩) := by
  have hinfo : x.retain.manager.info k = .error .sessionUnknown := by
    change x.manager.info k = _
    simp only [info, hs]
  simp only [seal_, hinfo]

/-- What a call does: it is refused and changes nothing that matters, it is about one active
session, or it closes one. -/
inductive Called (F : Foreign) (E : SecureEnvelope → Prop) (x : Endpoint) :
    Call → Endpoint × Reply → Prop
  | unknown {k contract : String} {payload : Bytes} {view : ContractView} :
      x.manager.active[k]? = none →
      Called F E x (.seal_ k contract payload view)
        (x.retain, .sealed ⟨none, .error .sessionUnknown⟩)
  | rejected {c : Call} {y : Endpoint} (e : SecureError) : (∀ sid, Still sid x y) →
      y.manager = x.manager → Called F E x c (y, .reported (ReceiveReport.empty.reject e))
  | reported {c : Call} {k : String} {s : Session} {view : ContractView} {post : Window → Prop}
      {y : Endpoint} {result : Endpoint × ReceiveReport} : c.view = some view →
      x.manager.active[k]? = some s → (y = x ∨ y = x.retain) →
      Reported F E k view post y s result →
      Called F E x c (result.1, .reported result.2)
  | sealed {k contract : String} {payload : Bytes} {view : ContractView} {s : Session}
      {result : Endpoint × Sealing} : x.manager.active[k]? = some s →
      Sealed F E k contract payload x.retain s result →
      Called F E x (.seal_ k contract payload view) (result.1, .sealed result.2)
  | closed {k : String} :
      Called F E x (.close k) ((x.close k).1, .closed (x.close k).2)

section Calls
variable (hlive : ∀ (k : String) s, x.manager.active[k]? = some s → Live F E k x s)
  (c : Call) (hE : ∀ env view, c = .receive env view → E env)
include hlive hE

theorem call_called : Called F E x c (x.call F c) := by
  cases c with
  | seal_ k contract payload view =>
    cases hs : x.manager.active[k]? with
    | none =>
      simp only [call, seal_unknown hs]
      exact .unknown hs
    | some s => exact .sealed hs (seal_sealed (hlive k s hs) contract payload view)
  | receive env view =>
    by_cases hv : x.manager.verifyMessage F env = .ok ()
    · obtain ⟨k, seq, s, hb, hs⟩ := belongs_of_verified hv
      exact .reported rfl hs (.inr rfl) (receive_reported (hlive k s hs) hb (hE env view rfl) view)
    · obtain ⟨e, he⟩ := receive_refused hv view
      simp only [call, he]
      exact .rejected e (fun sid => .retain sid x) rfl
  | observe k view =>
    cases hs : x.manager.active[k]? with
    | none =>
      simp only [call, observe_unknown hs]
      refine .rejected _ (fun sid => ⟨rfl, rfl, ?_⟩) rfl
      rw [window_dropWindow]
      by_cases hk : sid = k
      · rw [if_pos hk]
        exact .inr ⟨hk ▸ hs, rfl⟩
      · rw [if_neg hk]
        exact .inl rfl
    | some s => exact .reported rfl hs (.inl rfl) (observe_reported (hlive k s hs) view)
  | close k => exact .closed

/-- Whatever the call, every session moves in one of the four ways. -/
theorem call_moves (sid : String) :
    Moves F E sid x (x.call F c).1 ((x.call F c).2.deliveriesOf sid)
      ((x.call F c).2.encryptionsOf sid) := by
  have hcalled := call_called hlive c hE
  generalize x.call F c = result at hcalled ⊢
  cases hcalled with
  | unknown => exact .still (.retain sid x)
  | rejected e hstill => exact .still (hstill sid)
  | reported _ hs hy hreported =>
    rcases hy with rfl | rfl
    · exact hreported.moves hs (fun sid => .refl sid _) rfl rfl sid
    · exact hreported.moves hs (fun sid => .retain sid x) rfl (windowOf_retain hs) sid
  | sealed hs hsealed => exact hsealed.moves hs sid
  | @closed k =>
    change Moves F E sid x (x.close k).1 [] []
    by_cases hk : sid = k
    · subst hk
      cases hs : x.manager.active[sid]? with
      | none =>
        refine .still ⟨(Frame.close sid x).local_, ?_, .inr ⟨hs, (gone_close sid x).window⟩⟩
        rw [hs, (gone_close sid x).session]
      | some s => exact .ended none hs (gone_close sid x).session (by simp)
    · exact .still ((Still.refl sid x).frame (Frame.close k x) hk)

/-- What a call delivers was verified, opened and checked against the call's own view. -/
theorem call_delivers : ∀ d ∈ (x.call F c).2.delivered, ∃ view env, c.view = some view ∧
    Delivers F x.manager (Arrived F x d.sid E) d.sid view d env := by
  have hcalled := call_called hlive c hE
  generalize x.call F c = result at hcalled ⊢
  intro d hd
  cases hcalled with
  | unknown => cases hd
  | rejected => cases hd
  | sealed => cases hd
  | closed => cases hd
  | @reported _ k s view post y result hview _ hy hreported =>
    obtain ⟨env, hdelivers⟩ := hreported.delivers d hd
    obtain rfl := hdelivers.sid
    rcases hy with rfl | rfl
    · exact ⟨view, env, hview, hdelivers⟩
    · exact ⟨view, env, hview, hdelivers⟩

theorem call_aborted {report : ReceiveReport} (hreport : (x.call F c).2 = .reported report)
    (hab : report.aborted ≠ none) : report.delivered = [] := by
  have hcalled := call_called hlive c hE
  generalize x.call F c = result at hcalled hreport
  cases hcalled with
  | unknown => cases hreport
  | sealed => cases hreport
  | closed => cases hreport
  | rejected =>
    obtain rfl := Reply.reported.inj hreport
    rfl
  | reported _ _ _ hreported =>
    obtain rfl := Reply.reported.inj hreport
    exact hreported.aborted hab

/-- A receiving call that does not abort leaves every session active, and so does a call about
another session. -/
theorem call_spares {sid : String} (hspares : c.Spares sid)
    (hab : ∀ report, (x.call F c).2 = .reported report → report.aborted = none) {s : Session}
    (hs : x.manager.active[sid]? = some s) : ∃ t, (x.call F c).1.manager.active[sid]? = some t := by
  have hcalled := call_called hlive c hE
  have hframe {k : String} {y z : Endpoint} (h : Frame k y z) (hk : sid ≠ k)
      (hy : y.manager.active[sid]? = x.manager.active[sid]?) :
      ∃ t, z.manager.active[sid]? = some t := ⟨s, (h.active sid hk).trans (hy.trans hs)⟩
  generalize x.call F c = result at hcalled hab ⊢
  cases hcalled with
  | unknown => exact ⟨s, hs⟩
  | rejected _ _ hmanager => exact ⟨s, hmanager ▸ hs⟩
  | sealed _ hsealed => exact hframe hsealed.frame (Ne.symm hspares) rfl
  | @closed k => exact hframe (Frame.close k x) (Ne.symm hspares) rfl
  | @reported _ k s' _ _ y _ _ _ hy hreported =>
    by_cases hk : sid = k
    · subst hk
      cases hreported with
      | ended hended => exact absurd (hab _ rfl) hended.aborted
      | live t _ _ _ hlive' => exact ⟨t, hlive'.session⟩
    · apply hframe hreported.frame hk
      rcases hy with rfl | rfl <;> rfl

theorem call_owner : (x.call F c).1.manager.local_ = x.manager.local_ ∧
    (x.call F c).1.manager.identity = x.manager.identity := by
  have hcalled := call_called hlive c hE
  generalize x.call F c = result at hcalled ⊢
  cases hcalled with
  | unknown => exact ⟨rfl, rfl⟩
  | rejected _ _ hmanager => exact ⟨by rw [hmanager], by rw [hmanager]⟩
  | reported _ _ hy hreported =>
    rcases hy with rfl | rfl
    · exact ⟨hreported.frame.local_, hreported.frame.identity⟩
    · exact ⟨hreported.frame.local_, hreported.frame.identity⟩
  | sealed _ hsealed => exact ⟨hsealed.frame.local_, hsealed.frame.identity⟩
  | @closed k => exact ⟨(Frame.close k x).local_, (Frame.close k x).identity⟩

/-- Sealing is never refused because the two counters disagree. -/
theorem call_in_step (sealing : Sealing) (h : (x.call F c).2 = .sealed sealing) :
    sealing.result ≠ .error .replayRejected := by
  have hcalled := call_called hlive c hE
  generalize x.call F c = result at hcalled h
  cases hcalled with
  | rejected => cases h
  | reported => cases h
  | closed => cases h
  | unknown =>
    obtain rfl := Reply.sealed.inj h
    simp
  | sealed _ hsealed =>
    obtain rfl := Reply.sealed.inj h
    cases hsealed with
    | ended _ _ hne _ => simpa using hne
    | refused _ _ _ _ hne => simpa using hne
    | sent => simp

end Calls
end Endpoint
end Hacp.Secure
