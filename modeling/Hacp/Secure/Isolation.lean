import Hacp.Lib.Unwinding
import Hacp.Secure.Aborts

/-!
# Sessions do not interfere

What a call about a session does and reports is decided by whose endpoint it is, by the
session and by its window, as long as the window holds envelopes of that session only.
Calls about other sessions touch none of these, so nothing that happens to other sessions
shows in the reports and results of one.
-/
namespace Hacp.Secure
open Lib Std SessionManager Window

namespace SessionManager
variable {F : Foreign} {m n : SessionManager} {sid : String} {env : SecureEnvelope}

structure Same (sid : String) (m n : SessionManager) : Prop where
  local_ : n.local_ = m.local_
  identity : n.identity = m.identity
  session : n.active[sid]? = m.active[sid]?

namespace Same
variable (h : Same sid m n)
include h

theorem sameKeys : SameKeys sid m n := ⟨h.local_, by rw [h.session]⟩

theorem put (s : Session) : Same sid (m.put sid s) (n.put sid s) where
  local_ := h.local_
  identity := h.identity
  session := by rw [active_put, active_put, if_pos rfl, if_pos rfl]

theorem remove : Same sid (m.remove sid) (n.remove sid) where
  local_ := h.local_
  identity := h.identity
  session := by rw [active_remove, active_remove, if_pos rfl, if_pos rfl]

theorem info : m.info sid = n.info sid := by
  unfold SessionManager.info
  rw [h.session]

theorem close : Together (Same sid) (m.close sid) (n.close sid) := by
  unfold SessionManager.close
  rw [h.session]
  cases m.active[sid]? with
  | none => exact ⟨rfl, h⟩
  | some s => exact ⟨rfl, h.remove⟩

theorem seal_ (seq : UInt64) (contract : String) (payload : Bytes) :
    Together (Same sid) (m.seal_ F sid seq contract payload) (n.seal_ F sid seq contract payload) := by
  have hdraft (s : Session) : n.draft s sid seq contract = m.draft s sid seq contract := by
    rw [draft, draft, h.local_]
  have hfinish (env : SecureEnvelope) : n.finish F env = m.finish F env := by
    rw [finish, finish, h.identity]
  unfold SessionManager.seal_
  rw [h.session]
  cases m.active[sid]? with
  | none => exact ⟨rfl, h⟩
  | some s =>
    dsimp only
    split_ifs
    · exact ⟨rfl, h.remove⟩
    · exact ⟨rfl, h⟩
    · rw [hdraft s]
      cases (m.draft s sid seq contract).aadBytes F with
      | error e => exact ⟨rfl, h⟩
      | ok aad =>
        dsimp only
        cases s.keys.seal_ F s.initiator seq aad payload with
        | error e => exact ⟨rfl, h⟩
        | ok ct =>
          dsimp only
          rw [hfinish]
          cases m.finish F { m.draft s sid seq contract with ct := some (encodeHex ct) } with
          | error e => exact ⟨rfl, (h.put _).remove⟩
          | ok env => exact ⟨rfl, h.put _⟩

theorem openAuthenticated (hsid : env.sid = some sid) :
    Together (Same sid) (m.openAuthenticated F env) (n.openAuthenticated F env) := by
  unfold SessionManager.openAuthenticated
  rw [h.sameKeys.verifyMessage hsid, hsid]
  cases m.verifyMessage F env with
  | error e => exact ⟨rfl, h⟩
  | ok _ =>
    cases env.seq with
    | none => exact ⟨rfl, h⟩
    | some seq =>
      dsimp only
      split_ifs
      · exact ⟨rfl, h.remove⟩
      · rw [h.session]
        cases m.active[sid]? with
        | none => exact ⟨rfl, h⟩
        | some s =>
          dsimp only
          cases openCiphertext F s env seq with
          | error e => exact ⟨rfl, h⟩
          | ok pt => exact ⟨rfl, h.put _⟩

end Same
end SessionManager

def Window.Own (sid : String) (w : Window) : Prop :=
  ∀ (n : UInt64) (env : SecureEnvelope), w.held[n]? = some env → env.sid = some sid

namespace Window.Own
variable {sid : String} {w : Window}

theorem empty (sid : String) : Own sid .empty := by
  intro n env henv
  simp [Window.empty] at henv

theorem insert (h : Own sid w) {seq : UInt64} {env : SecureEnvelope} (henv : env.sid = some sid) :
    Own sid { w with held := w.held.insert seq env } := by
  intro n e he
  rw [lookup_insert] at he
  split_ifs at he
  · exact Option.some.inj he ▸ henv
  · exact h n e he

theorem erase (h : Own sid w) (seq : UInt64) : Own sid { w with held := w.held.erase seq } := by
  intro n e he
  rw [lookup_erase] at he
  split_ifs at he
  exact h n e he

end Window.Own

namespace Endpoint
variable {F : Foreign} {x y z : Endpoint} {sid k : String} {w : Window} {view : ContractView}
  {report : ReceiveReport} {env : SecureEnvelope}

/-- Two endpoints that are the same for one session, whose window is its own. -/
structure Same (sid : String) (x y : Endpoint) : Prop where
  manager : SessionManager.Same sid x.manager y.manager
  window : y.window sid = x.window sid
  own : ∀ w, x.window sid = some w → Own sid w

inductive SameExit (sid : String) : Exit → Exit → Prop
  | broke {x y : Endpoint} (report : ReceiveReport) : Same sid x y →
      SameExit sid (.broke x report) (.broke y report)
  | returned {x y : Endpoint} (report : ReceiveReport) : Same sid x y →
      SameExit sid (.returned x report) (.returned y report)

namespace Same

theorem symm (h : Same sid x y) : Same sid y x where
  manager := ⟨h.manager.local_.symm, h.manager.identity.symm, h.manager.session.symm⟩
  window := h.window.symm
  own w hw := h.own w (h.window ▸ hw)

theorem trans (h : Same sid x y) (h' : Same sid y z) : Same sid x z where
  manager := ⟨h'.manager.local_.trans h.manager.local_, h'.manager.identity.trans h.manager.identity,
    h'.manager.session.trans h.manager.session⟩
  window := h'.window.trans h.window
  own := h.own

theorem putWindow (h : Same sid x y) (hw : Own sid w) :
    Same sid (x.putWindow sid w) (y.putWindow sid w) where
  manager := h.manager
  window := by rw [window_putWindow, window_putWindow, if_pos rfl, if_pos rfl]
  own w' hw' := by
    rw [window_putWindow, if_pos rfl] at hw'
    exact Option.some.inj hw' ▸ hw

theorem withManager (h : Same sid x y) {m n : SessionManager} (hmn : SessionManager.Same sid m n) :
    Same sid { x with manager := m } { y with manager := n } := ⟨hmn, h.window, h.own⟩

theorem close (h : SessionManager.Same sid x.manager y.manager) :
    Together (Same sid) (x.close sid) (y.close sid) := by
  obtain ⟨hresult, hmanager⟩ := h.close
  refine ⟨hresult, hmanager, ?_, fun w hw => ?_⟩
  · rw [(gone_close sid x).window, (gone_close sid y).window]
  · rw [(gone_close sid x).window] at hw
    cases hw

theorem abort (h : Same sid x y) (e : SecureError) (report : ReceiveReport) :
    Together (Same sid) (x.abort sid e report) (y.abort sid e report) :=
  ⟨rfl, (Same.close h.manager).2⟩

theorem retain (h : Same sid x y) : Same sid x.retain y.retain where
  manager := h.manager
  window := by rw [window_retain, window_retain, h.manager.session, h.window]
  own w hw := by
    rw [window_retain] at hw
    split_ifs at hw
    exact h.own w hw

theorem of_frame (hown : ∀ w, x.window sid = some w → Own sid w) (hf : Frame k x y) (hk : sid ≠ k) :
    Same sid x y where
  manager := ⟨hf.local_, hf.identity, hf.active sid hk⟩
  window := hf.window sid hk
  own := hown

/-! ## Calls about the session -/

theorem authenticateTurn {p q : Endpoint × ReceiveReport} (h : Together (Same sid) p q) :
    Sum.LiftRel (Together (Same sid)) (SameExit sid) (authenticateTurn F sid view p)
      (authenticateTurn F sid view q) := by
  obtain ⟨x, r⟩ := p
  obtain ⟨y, r'⟩ := q
  obtain ⟨hr, h⟩ := h
  dsimp only at hr h
  subst hr
  simp only [Endpoint.authenticateTurn, h.window]
  cases hw : x.window sid with
  | none => exact .inr (.returned r h)
  | some w =>
    have hown := h.own w hw
    dsimp only
    cases henv : w.held[w.next]? with
    | none => exact .inr (.broke r h)
    | some env =>
      have hopen := h.manager.openAuthenticated (F := F) (hown _ _ henv)
      dsimp only
      generalize x.manager.openAuthenticated F env = a at hopen ⊢
      generalize y.manager.openAuthenticated F env = b at hopen ⊢
      obtain ⟨m, result⟩ := a
      obtain ⟨n, result'⟩ := b
      obtain ⟨hresult, hmn⟩ := hopen
      dsimp only at hresult hmn
      subst hresult
      cases result with
      | error e => exact .inr (.broke _ ((h.withManager hmn).putWindow (hown.erase _)))
      | ok pt =>
        have hnext : Same sid ({ x with manager := m }.putWindow sid { w with high := some w.next })
            ({ y with manager := n }.putWindow sid { w with high := some w.next }) :=
          (h.withManager hmn).putWindow hown
        dsimp only
        cases view.check F env.contract with
        | ok _ => exact .inl ⟨rfl, hnext⟩
        | error e =>
          by_cases he : e = .contractPending
          · subst he
            exact .inl ⟨rfl, hnext⟩
          · simp only
            exact .inr (.returned _ (hnext.abort e r).2)

theorem deliverTurn {p q : Endpoint × ReceiveReport} (h : Together (Same sid) p q) :
    Sum.LiftRel (Together (Same sid)) (SameExit sid) (deliverTurn F sid view p)
      (deliverTurn F sid view q) := by
  obtain ⟨x, r⟩ := p
  obtain ⟨y, r'⟩ := q
  obtain ⟨hr, h⟩ := h
  dsimp only at hr h
  subst hr
  simp only [Endpoint.deliverTurn, h.window]
  cases hw : x.window sid with
  | none => exact .inr (.returned r h)
  | some w =>
    have hown := h.own w hw
    dsimp only
    by_cases hacc : w.accepted w.deliveryNext
    · rw [if_neg (not_not_intro hacc), if_neg (not_not_intro hacc)]
      cases henv : w.held[w.deliveryNext]? with
      | none => exact .inr (.broke r h)
      | some env =>
        dsimp only
        cases view.check F env.contract with
        | error e =>
          by_cases he : e = .contractPending
          · subst he
            exact .inr (.broke r h)
          · simp only
            exact .inr (.returned _ (h.abort e r).2)
        | ok _ =>
          have hopen := h.manager.openAuthenticated (F := F) (hown _ _ henv)
          dsimp only
          generalize x.manager.openAuthenticated F env = a at hopen ⊢
          generalize y.manager.openAuthenticated F env = b at hopen ⊢
          obtain ⟨m, result⟩ := a
          obtain ⟨n, result'⟩ := b
          obtain ⟨hresult, hmn⟩ := hopen
          dsimp only at hresult hmn
          subst hresult
          cases result with
          | error e => exact .inr (.returned _ ((h.withManager hmn).abort e r).2)
          | ok pt => exact .inl ⟨rfl, (h.withManager hmn).putWindow (hown.erase _)⟩
    · rw [if_pos hacc, if_pos hacc]
      exact .inr (.broke r h)

theorem runLoop {turn : Endpoint × ReceiveReport → (Endpoint × ReceiveReport) ⊕ Exit}
    (hturn : ∀ p q, Together (Same sid) p q →
      Sum.LiftRel (Together (Same sid)) (SameExit sid) (turn p) (turn q))
    (h : Same sid x y) (report : ReceiveReport) :
    SameExit sid (runLoop turn sid x report) (runLoop turn sid y report) := by
  have hturns : y.turns sid = x.turns sid := by rw [turns, turns, h.window]
  have hloops := Loop.iterate_related hturn (x.turns sid) (s := (x, report)) (t := (y, report))
    ⟨rfl, h⟩
  unfold Endpoint.runLoop
  rw [hturns]
  generalize Loop.iterate turn (x.turns sid) (x, report) = a at hloops
  generalize Loop.iterate turn (x.turns sid) (y, report) = b at hloops
  cases hloops with
  | some hexit => exact hexit
  | none => exact .returned report h

theorem reportHeld (h : Same sid x y) (w : Window) (items : List (UInt64 × SecureEnvelope))
    (report : ReceiveReport) :
    Together (Same sid) (reportHeld F sid view x w items report)
      (reportHeld F sid view y w items report) := by
  induction items generalizing report with
  | nil => exact ⟨rfl, h⟩
  | cons item items ih =>
    obtain ⟨seq, env⟩ := item
    rw [Endpoint.reportHeld, Endpoint.reportHeld]
    split_ifs
    · cases view.check F env.contract with
      | ok _ => exact ih _
      | error e =>
        by_cases he : e = .contractPending
        · subst he
          exact ih _
        · simp only
          exact h.abort e report
    · exact ih _

theorem drain (h : Same sid x y) (report : ReceiveReport) :
    Together (Same sid) (x.drain F sid view report) (y.drain F sid view report) := by
  have hauthenticate : ∀ p q, Together (Same sid) p q → Sum.LiftRel (Together (Same sid))
      (SameExit sid) (Endpoint.authenticateTurn F sid view p)
        (Endpoint.authenticateTurn F sid view q) := fun p q => authenticateTurn
  have hdeliver : ∀ p q, Together (Same sid) p q → Sum.LiftRel (Together (Same sid))
      (SameExit sid) (Endpoint.deliverTurn F sid view p) (Endpoint.deliverTurn F sid view q) :=
    fun p q => deliverTurn
  have hfirst := h.runLoop hauthenticate report
  unfold Endpoint.drain
  generalize Endpoint.runLoop (Endpoint.authenticateTurn F sid view) sid x report = a at hfirst ⊢
  generalize Endpoint.runLoop (Endpoint.authenticateTurn F sid view) sid y report = b at hfirst ⊢
  cases hfirst with
  | returned r h => exact ⟨rfl, h⟩
  | @broke x y r h =>
    have hsecond := h.runLoop hdeliver r
    dsimp only
    generalize Endpoint.runLoop (Endpoint.deliverTurn F sid view) sid x r = a at hsecond ⊢
    generalize Endpoint.runLoop (Endpoint.deliverTurn F sid view) sid y r = b at hsecond ⊢
    cases hsecond with
    | returned r h => exact ⟨rfl, h⟩
    | @broke x y r h =>
      simp only [h.window]
      cases x.window sid with
      | none => exact ⟨rfl, h⟩
      | some w => exact h.reportHeld w _ r

theorem admission (h : Same sid x y) (hw : Own sid w) (henv : env.sid = some sid) (seq : UInt64) :
    Together (Same sid) (x.admission F sid seq w env view) (y.admission F sid seq w env view) := by
  unfold Endpoint.admission
  by_cases hseen : w.accepted seq ∨ seq ∈ w.held
  · rw [if_pos hseen, if_pos hseen]
    exact ⟨rfl, h⟩
  rw [if_neg hseen, if_neg hseen]
  by_cases hmax : seq = u64Max
  · rw [if_pos hmax, if_pos hmax]
    exact h.abort _ _
  rw [if_neg hmax, if_neg hmax]
  by_cases hgap : w.next < seq
  · rw [if_pos hgap, if_pos hgap]
    split_ifs
    · exact h.abort _ _
    · exact h.abort _ _
    · exact ⟨rfl, h.putWindow (hw.insert henv)⟩
  · rw [if_neg hgap, if_neg hgap]
    have hopen := h.manager.openAuthenticated (F := F) henv
    generalize x.manager.openAuthenticated F env = a at hopen ⊢
    generalize y.manager.openAuthenticated F env = b at hopen ⊢
    obtain ⟨m, result⟩ := a
    obtain ⟨n, result'⟩ := b
    obtain ⟨hresult, hmn⟩ := hopen
    dsimp only at hresult hmn
    subst hresult
    cases result with
    | error e => exact ⟨rfl, h.withManager hmn⟩
    | ok pt =>
      have hnext : Same sid ({ x with manager := m }.putWindow sid { w with high := some seq })
          ({ y with manager := n }.putWindow sid { w with high := some seq }) :=
        (h.withManager hmn).putWindow hw
      dsimp only
      split
      · exact hnext.abort _ _
      · split_ifs
        · exact hnext.abort _ _
        · have hheld : Own sid { w with high := some seq, held := w.held.insert seq env } :=
            Own.insert hw henv
          exact (hnext.putWindow hheld).drain _

theorem windowOf (h : Same sid x y) : y.windowOf sid = x.windowOf sid := by
  rw [Endpoint.windowOf, Endpoint.windowOf, h.window]

theorem own_windowOf (h : Same sid x y) : Own sid (x.windowOf sid) := by
  rw [Endpoint.windowOf]
  cases hw : x.window sid with
  | none => exact .empty sid
  | some w => exact h.own w hw

theorem receive (h : Same sid x.retain y.retain) (henv : env.sid = some sid) (view : ContractView) :
    Together (Same sid) (x.receive F env view) (y.receive F env view) := by
  have hverify : y.retain.manager.verifyMessage F env = x.retain.manager.verifyMessage F env :=
    h.manager.sameKeys.verifyMessage henv
  unfold Endpoint.receive
  dsimp only
  rw [henv, hverify]
  cases env.validate F with
  | error e => exact ⟨rfl, h⟩
  | ok _ =>
    dsimp only
    by_cases hkind : env.kind = .msg
    · rw [if_neg (not_not_intro hkind), if_neg (not_not_intro hkind)]
      cases env.seq with
      | none => exact ⟨rfl, h⟩
      | some seq =>
        dsimp only
        cases x.retain.manager.verifyMessage F env with
        | error e => exact ⟨rfl, h⟩
        | ok _ =>
          dsimp only
          rw [h.windowOf]
          exact (h.putWindow h.own_windowOf).admission h.own_windowOf henv seq
    · rw [if_pos hkind, if_pos hkind]
      exact ⟨rfl, h⟩

theorem seal_ (h : Same sid x.retain y.retain) (contract : String) (payload : Bytes)
    (view : ContractView) :
    Together (Same sid) (x.seal_ F sid contract payload view) (y.seal_ F sid contract payload view) := by
  unfold Endpoint.seal_
  dsimp only
  rw [← h.manager.info, h.windowOf]
  cases x.retain.manager.info sid with
  | error e => exact ⟨rfl, h⟩
  | ok _ =>
    dsimp only
    split
    · exact ⟨rfl, (Same.close h.manager).2⟩
    · have hput := h.putWindow h.own_windowOf
      by_cases hmax : (x.retain.windowOf sid).sendSeq = u64Max
      · rw [if_pos hmax, if_pos hmax]
        exact ⟨rfl, (Same.close hput.manager).2⟩
      · rw [if_neg hmax, if_neg hmax]
        have hseal := hput.manager.seal_ (F := F) (x.retain.windowOf sid).sendSeq contract payload
        generalize (x.retain.putWindow sid _).manager.seal_ F sid _ contract payload = a at hseal ⊢
        generalize (y.retain.putWindow sid _).manager.seal_ F sid _ contract payload = b at hseal ⊢
        obtain ⟨m, encrypted, result⟩ := a
        obtain ⟨n, sealing⟩ := b
        obtain ⟨hresult, hmn⟩ := hseal
        dsimp only at hresult hmn
        subst hresult
        cases result with
        | error e => exact ⟨rfl, hput.withManager hmn⟩
        | ok env => exact ⟨rfl, (hput.withManager hmn).putWindow h.own_windowOf⟩

/-- The sweep spares the window of an active session. -/
theorem of_retain (h : Same sid x.retain y.retain) {s : Session}
    (hs : x.manager.active[sid]? = some s) : Same sid x y where
  manager := h.manager
  window := by
    have hwindow := h.window
    have hs' : y.manager.active[sid]? = some s := h.manager.session.trans hs
    rw [window_retain, window_retain, hs, hs'] at hwindow
    exact hwindow
  own w hw := by
    apply h.own w
    rw [window_retain, hs]
    exact hw

theorem dropWindow (h : SessionManager.Same sid x.manager y.manager) :
    Same sid (x.dropWindow sid) (y.dropWindow sid) where
  manager := h
  window := by rw [window_dropWindow, window_dropWindow, if_pos rfl, if_pos rfl]
  own w hw := by
    rw [window_dropWindow, if_pos rfl] at hw
    cases hw

theorem observe (h : Same sid x.retain y.retain) (view : ContractView) :
    Together (Same sid) (x.observe F sid view) (y.observe F sid view) := by
  unfold Endpoint.observe
  have hinfo : x.manager.info sid = y.manager.info sid := h.manager.info
  rw [← hinfo]
  cases hs : x.manager.active[sid]? with
  | none =>
    have hnone : x.manager.info sid = .error .sessionUnknown := by
      unfold SessionManager.info
      rw [hs]
    rw [hnone]
    exact ⟨rfl, dropWindow h.manager⟩
  | some s =>
    have hsome : x.manager.info sid = .ok s.info := by
      unfold SessionManager.info
      rw [hs]
    rw [hsome]
    exact (h.of_retain hs).drain _

end Same

/-! ## Calls about other sessions -/

theorem Tidy.own (h : Tidy x) (w : Window) (hw : x.window sid = some w) : Own sid w := by
  intro n env henv
  rw [← windowOf_eq hw] at henv
  exact ((h sid).1.own n env henv).sid

theorem Tidy.same (h : Tidy x) (sid : String) : Same sid x x := ⟨⟨rfl, rfl, rfl⟩, rfl, h.own⟩

theorem Tidy.swept (h : Tidy x) (sid : String) : Same sid x.retain x.retain.retain where
  manager := ⟨rfl, rfl, rfl⟩
  window := by
    rw [window_retain, window_retain]
    change (if x.manager.active[sid]?.isSome then _ else none) = _
    split_ifs <;> rfl
  own := h.retain.own

/-- Whether it started with a sweep or not, what happens to one session leaves the others. -/
theorem Tidy.of_frame_same (h : Tidy x) (hf : Frame k x y ∨ Frame k x.retain y) (hk : sid ≠ k) :
    Same sid x.retain y.retain := by
  rcases hf with hf | hf
  · exact (Same.of_frame h.own hf hk).retain
  · exact (h.swept sid).trans (Same.of_frame h.retain.own hf hk).retain

theorem Admitted.frame {result : Endpoint × ReceiveReport} (h : Admitted k x result) :
    Frame k x result.1 := by
  cases h with
  | ended hab => exact hab.frame
  | kept hframe => exact hframe

/-- A call leaves every session as it was that it is not about, but for the sweep. -/
theorem Tidy.call_same (h : Tidy x) {c : Call} (hc : c.sid ≠ some sid) :
    Same sid x.retain (x.call F c).1.retain := by
  have hother {k : String} (hk : c.sid = some k) : sid ≠ k := fun hsid => hc (hsid ▸ hk)
  cases c with
  | seal_ k contract payload view =>
    exact h.of_frame_same (.inr (seal_own x k contract payload view).1) (hother rfl)
  | receive env view =>
    by_cases hv : x.manager.verifyMessage F env = .ok ()
    · obtain ⟨k, seq, s, hb, -⟩ := belongs_of_verified hv
      exact h.of_frame_same (.inr (h.receive hb.sid view).frame) (hother hb.sid)
    · obtain ⟨e, he⟩ := receive_refused hv view
      simp only [Endpoint.call, he]
      exact h.swept sid
  | observe k view =>
    cases hs : x.manager.active[k]? with
    | none =>
      simp only [Endpoint.call, observe_unknown hs]
      exact h.of_frame_same (.inl (Frame.dropWindow k x)) (hother rfl)
    | some s => exact h.of_frame_same (.inl (h.observe hs view).frame) (hother rfl)
  | close k => exact h.of_frame_same (.inl (Frame.close k x)) (hother rfl)

/-! ## Runs -/

/-- An endpoint that takes the calls of the transport and no handshakes. -/
def callMachine (F : Foreign) : Machine Endpoint Call Reply where
  step := Endpoint.call F

theorem call_together (h : Same sid x.retain y.retain) {c : Call} (hc : c.sid = some sid) :
    Together (fun x y => Same sid x.retain y.retain) (x.call F c) (y.call F c) := by
  cases c with
  | seal_ k contract payload view =>
    obtain rfl := Option.some.inj hc
    obtain ⟨hreply, hsame⟩ := h.seal_ (F := F) contract payload view
    exact ⟨congrArg Reply.sealed hreply, hsame.retain⟩
  | receive env view =>
    obtain ⟨hreply, hsame⟩ := h.receive (F := F) hc view
    exact ⟨congrArg Reply.reported hreply, hsame.retain⟩
  | observe k view =>
    obtain rfl := Option.some.inj hc
    obtain ⟨hreply, hsame⟩ := h.observe (F := F) view
    exact ⟨congrArg Reply.reported hreply, hsame.retain⟩
  | close k =>
    obtain rfl := Option.some.inj hc
    have hclose : Together (Same k) (x.close k) (y.close k) := Same.close h.manager
    obtain ⟨hreply, hsame⟩ := hclose
    exact ⟨congrArg Reply.closed hreply, hsame.retain⟩

/-- Calls about other sessions leave what a session sees of the endpoint, and calls about it answer
by what it sees. -/
theorem call_unwinding (F : Foreign) (sid : String) :
    (callMachine F).Unwinding (fun c => c.sid = some sid)
      (fun x y => Tidy x ∧ Same sid x.retain y.retain) where
  respects x y c hc h := ⟨h.1.call c, (h.1.call_same hc).symm.trans h.2⟩
  consistent x y c hc h := by
    obtain ⟨hreply, hsame⟩ := call_together (F := F) h.2 hc
    exact ⟨hreply, h.1.call c, hsame⟩

/-- Of any transport a run has led to and any session manager: two runs of its calls in which the
calls about a session are the same, with the same envelopes and views, give the same reports and
results for these calls, whatever is called about other sessions in between. -/
theorem sessions_do_not_interfere (F : Foreign) (local_ : String) (identity : Vector UInt8 32)
    (inputs : List Input) (manager : SessionManager) (sid : String) {cs ds : List Call}
    (hsame : cs.filter (fun c => c.sid = some sid) = ds.filter fun c => c.sid = some sid) :
    let x : Endpoint := ⟨(reached F local_ identity inputs).transport, manager⟩
    ((callMachine F).answers x cs).filter (fun a => a.1.sid = some sid) =
      ((callMachine F).answers x ds).filter fun a => a.1.sid = some sid := by
  intro x
  have htidy : Tidy x := tidy_reached F local_ identity inputs
  exact (call_unwinding F sid).noninterference ⟨htidy, (htidy.same sid).retain⟩ hsame

/-- One session takes a message that closes its gap and seals an answer. In one of the two runs the
other session is aborted in between. -/
theorem sessions_do_not_interfere_aborted :
    let x : Endpoint := ⟨(reached Burst.foreign "urn:hacp:agent:a" (.replicate 32 1)
      Burst.shared).transport, (reached Burst.foreign "urn:hacp:agent:a" (.replicate 32 1)
        Burst.shared).manager⟩
    let taken : Call := .receive (Burst.message 0) .bootstrap
    let aborted : Call := .receive (Burst.messageOf Burst.other 0) Burst.superseding
    let sealed : Call := .seal_ Burst.sid "" [1] .bootstrap
    (((callMachine Burst.foreign).answers x [taken, aborted, sealed]).filterMap fun a =>
        a.2.report.map fun r => (r.delivered.map Delivery.seq, r.aborted)) =
      [([0, 1], none), ([], some .contractMismatch)] ∧
    ((callMachine Burst.foreign).answers x [taken, aborted, sealed]).filter
        (fun a => a.1.sid = some Burst.sid) =
      ((callMachine Burst.foreign).answers x [taken, sealed]).filter
        fun a => a.1.sid = some Burst.sid := by
  intro x taken aborted sealed
  refine ⟨by decide +kernel, ?_⟩
  have hsame : [taken, aborted, sealed].filter (fun c => c.sid = some Burst.sid) =
      [taken, sealed].filter fun c => c.sid = some Burst.sid := by
    have hother : ¬aborted.sid = some Burst.sid := by decide +kernel
    have htaken : taken.sid = some Burst.sid := rfl
    have hsealed : sealed.sid = some Burst.sid := rfl
    simp [hother, htaken, hsealed]
  exact sessions_do_not_interfere Burst.foreign "urn:hacp:agent:a" (.replicate 32 1) Burst.shared
    _ Burst.sid hsame

end Endpoint
end Hacp.Secure
