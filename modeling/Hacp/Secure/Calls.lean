import Hacp.Secure.Drain

/-!
# What one call does to a session

A session that is active has a sound window whose send counter agrees with the
manager's. A call about the session keeps this or ends the session; a call about
another session leaves it alone.
-/
namespace Hacp.Secure
open Lib Std SessionManager Window

namespace Endpoint
variable {F : Foreign} {x y : Endpoint} {sid : String} {s : Session}
  {E : SecureEnvelope → Prop} {view : ContractView} {report : ReceiveReport}

theorem windowOf_eq {w : Window} (h : x.window sid = some w) : x.windowOf sid = w := by
  rw [windowOf, h, Option.getD_some]

@[simp] theorem windowOf_putWindow (w : Window) : (x.putWindow sid w).windowOf sid = w :=
  windowOf_eq (by rw [window_putWindow, if_pos rfl])

/-- An envelope of the session among those that have arrived. -/
def Arrived (F : Foreign) (x : Endpoint) (sid : String) (E : SecureEnvelope → Prop) (n : UInt64)
    (env : SecureEnvelope) : Prop :=
  Belongs F x.manager sid n env ∧ E env

/-- An active session between calls. -/
structure Live (F : Foreign) (E : SecureEnvelope → Prop) (sid : String) (x : Endpoint)
    (s : Session) : Prop where
  session : x.manager.active[sid]? = some s
  sound : (x.windowOf sid).Sound (Arrived F x sid E)
  settled : (x.windowOf sid).Settled
  lockstep : (x.windowOf sid).sendSeq = s.info.sendSeq

theorem Arrived.of_sameKeys {n : UInt64} {env : SecureEnvelope} (h : Arrived F x sid E n env)
    (hkeys : SameKeys sid x.manager y.manager) : Arrived F y sid E n env :=
  ⟨h.1.of_sameKeys hkeys, h.2⟩

theorem Live.mono (h : Live F E sid x s) {E' : SecureEnvelope → Prop} (hE : ∀ e, E e → E' e) :
    Live F E' sid x s :=
  { h with sound := h.sound.imp fun _ _ ha => ⟨ha.1, hE _ ha.2⟩ }

/-! ## Retaining the windows of active sessions -/

theorem window_retain (k : String) :
    x.retain.window k = if x.manager.active[k]?.isSome then x.window k else none := by
  change (x.transport.windows.filter fun known _ => (x.manager.info known).isOk)[k]? = _
  rw [ExtTreeMap.getElem?_filter', info_isOk]
  cases x.manager.active[k]? with
  | none => simp
  | some t => cases hw : x.transport.windows[k]? <;> simp [window, hw]

theorem windowOf_retain (h : x.manager.active[sid]? = some s) :
    x.retain.windowOf sid = x.windowOf sid := by
  rw [windowOf, window_retain, h]
  rfl

theorem Live.retain (h : Live F E sid x s) : Live F E sid x.retain s where
  session := h.session
  sound := by
    rw [windowOf_retain h.session]
    exact h.sound
  settled := by
    rw [windowOf_retain h.session]
    exact h.settled
  lockstep := by
    rw [windowOf_retain h.session]
    exact h.lockstep

/-! ## Receiving and observing -/

/-- What a receiving call makes of an active session: the session is over and nothing is
delivered, or it lives on and a batch is delivered, with `post` true of its window. -/
inductive Reported (F : Foreign) (E : SecureEnvelope → Prop) (sid : String) (view : ContractView)
    (post : Window → Prop) (x : Endpoint) (s : Session) : Endpoint × ReceiveReport → Prop
  | ended {y : Endpoint} {r : ReceiveReport} : Aborted sid x y r →
      Reported F E sid view post x s (y, r)
  | live {y : Endpoint} {r : ReceiveReport} (t : Session) : Frame sid x y →
      SameKeys sid x.manager y.manager → t.info.sendSeq = s.info.sendSeq → Live F E sid y t →
      Batch F x.manager (Arrived F x sid E) sid view (x.windowOf sid).deliveryNext
        (y.windowOf sid).deliveryNext r.delivered →
      (Opens F x.manager (Arrived F x sid E) →
        ∀ n, (x.windowOf sid).Has n → (y.windowOf sid).Has n) →
      post (y.windowOf sid) → r.aborted = none → Reported F E sid view post x s (y, r)

theorem Reported.rejected (h : Live F E sid x s) {post : Window → Prop}
    (hpost : post (x.windowOf sid)) (e : SecureError) :
    Reported F E sid view post x s (x, ReceiveReport.empty.reject e) :=
  .live s (Frame.refl sid x) ⟨rfl, rfl⟩ rfl h .nil (fun _ _ hn => hn) hpost rfl

/-- Draining from a state that differs from `x` in the window only. -/
theorem Reported.of_drained (h : Live F E sid x s) {x' : Endpoint} {w' : Window}
    {post : Window → Prop} {result : Endpoint × ReceiveReport} (hframe : Frame sid x x')
    (halike : Alike sid x.manager x'.manager) (hpos : w'.deliveryNext = (x.windowOf sid).deliveryNext)
    (hseq : w'.sendSeq = (x.windowOf sid).sendSeq)
    (hhas : ∀ n, (x.windowOf sid).Has n → w'.Has n)
    (hdrained : Drained F (Arrived F x sid E) sid x' w' view .empty result)
    (hpost : ∀ w : Window, (Opens F x.manager (Arrived F x sid E) → ∀ n, w'.Has n → w.Has n) →
      w.Stalled F view → post w) :
    Reported F E sid view post x s result := by
  have hopens : Opens F x.manager (Arrived F x sid E) → Opens F x'.manager (Arrived F x sid E) := by
    intro ho n env ha
    rw [halike.sameKeys.openAuthenticated ha.1.sid]
    exact ho n env ha
  cases hdrained with
  | aborted hab _ => exact .ended (hab.of_frame hframe)
  | kept w ds hy hsettled hstalled hbatch hdelivered haborted =>
    have hkeys := (halike.trans hy.alike).sameKeys
    obtain ⟨t, ht, hsend⟩ := (halike.trans hy.alike).get h.session
    rename_i y r
    have hwindow : y.windowOf sid = w := windowOf_eq hy.window
    refine .live t (hframe.trans hy.frame) hkeys hsend ?_ ?_ ?_ ?_ haborted
    · refine ⟨ht, ?_, ?_, ?_⟩
      · rw [hwindow]
        exact hy.sound.imp fun n env ha => ha.of_sameKeys hkeys
      · rwa [hwindow]
      · rw [hwindow, hy.drains.sendSeq, hseq, h.lockstep, hsend]
    · rw [hwindow, hdelivered, ← hpos]
      refine ⟨hbatch.seqs, hbatch.next, fun d hd => ?_⟩
      obtain ⟨env, hd⟩ := hbatch.each d hd
      exact ⟨env, { hd with
        opened := (halike.sameKeys.openAuthenticated hd.held.1.sid).symm.trans hd.opened }⟩
    · rw [hwindow]
      exact fun ho n hn => hy.drains.keeps hy.origin (hopens ho) n (hhas n hn)
    · rw [hwindow]
      exact hpost w (fun ho => hy.drains.keeps hy.origin (hopens ho)) hstalled

theorem drain_no_window (hx : x.window sid = none) : x.drain F sid view report = (x, report) := by
  have hturn : authenticateTurn F sid view (x, report) = .inr (.returned x report) := by
    simp only [authenticateTurn, hx]
  unfold drain runLoop turns
  rw [hx, Option.elim, Loop.iterate_succ_exit hturn, Option.getD_some]

/-- The state in which the window is drained: the next envelope was accepted and is held. -/
def accept (x : Endpoint) (sid : String) (s : Session) (w : Window) (env : SecureEnvelope) : Endpoint :=
  ({ x with manager := x.manager.put sid s.opened }.putWindow sid
    { w with high := some w.next }).putWindow sid
    { w with high := some w.next, held := w.held.insert w.next env }

theorem Frame.accept (sid : String) (x : Endpoint) (s : Session) (w : Window) (env : SecureEnvelope) :
    Frame sid x (x.accept sid s w env) :=
  ((Frame.put sid x s.opened).trans (Frame.putWindow sid _ _)).trans (Frame.putWindow sid _ _)

/-- What admitting a verified message comes to: it is rejected, the session is over, it is held
above a gap, or it is the next one and the window is drained. -/
inductive AdmissionStep (F : Foreign) (sid : String) (seq : UInt64) (w : Window)
    (env : SecureEnvelope) (view : ContractView) (x : Endpoint) : Endpoint × ReceiveReport → Prop
  | rejected (e : SecureError) : w.Has seq ∨ ¬Openable F x.manager env →
      AdmissionStep F sid seq w env view x (x, ReceiveReport.empty.reject e)
  | aborted {y : Endpoint} {r : ReceiveReport} : Aborted sid x y r →
      AdmissionStep F sid seq w env view x (y, r)
  | held : w.next < seq → seq ≠ u64Max → w.held.size < 64 →
      AdmissionStep F sid seq w env view x
        (x.putWindow sid { w with held := w.held.insert seq env },
          ReceiveReport.empty.hold ⟨sid, seq, .sequencePending⟩)
  | drained (s : Session) : seq = w.next → seq ≠ u64Max → w.held.size < 64 →
      x.manager.active[sid]? = some s →
      AdmissionStep F sid seq w env view x ((x.accept sid s w env).drain F sid view .empty)

theorem admission_step {w : Window} {seq : UInt64} {env : SecureEnvelope}
    (hhigh : w.high ≠ some u64Max) (ha : Addressed sid seq env) :
    AdmissionStep F sid seq w env view x (x.admission F sid seq w env view) := by
  unfold admission
  by_cases hseen : w.accepted seq ∨ seq ∈ w.held
  · rw [if_pos hseen]
    exact .rejected _ (.inl (hseen.imp_left (accepted_iff hhigh seq).mp))
  rw [if_neg hseen]
  rw [not_or] at hseen
  by_cases hmax : seq = u64Max
  · rw [if_pos hmax]
    exact .aborted (aborted_abort x sid _ _)
  rw [if_neg hmax]
  by_cases hgap : w.next < seq
  · rw [if_pos hgap]
    by_cases hfull : 64 ≤ w.held.size
    · rw [if_pos hfull]
      exact .aborted (aborted_abort x sid _ _)
    rw [if_neg hfull]
    split
    · exact .aborted (aborted_abort x sid _ _)
    · exact .held hgap hmax (Nat.not_le.mp hfull)
  · have hnext : seq = w.next := by
      have hge := UInt64.not_lt.mp fun hlt => hseen.1 ((accepted_iff hhigh seq).mpr hlt)
      exact UInt64.le_antisymm (UInt64.not_lt.mp hgap) hge
    rw [if_neg hgap]
    rcases ha.openAuthenticated (F := F) hmax x.manager with ⟨e, hopen⟩ | ⟨s, pt, hs, hopen⟩
    · rw [hopen]
      refine .rejected e (.inr ?_)
      rintro ⟨pt, hpt⟩
      rw [hopen] at hpt
      cases hpt
    rw [hopen]
    dsimp only
    have hframe := (Frame.put sid x s.opened).trans
      (Frame.putWindow sid { x with manager := x.manager.put sid s.opened }
        { w with high := some seq })
    split
    · exact .aborted ((aborted_abort _ sid _ _).of_frame hframe)
    by_cases hfull : 64 ≤ w.held.size
    · rw [if_pos hfull]
      exact .aborted ((aborted_abort _ sid _ _).of_frame hframe)
    rw [if_neg hfull]
    subst hnext
    exact .drained s rfl hmax (Nat.not_le.mp hfull) hs

/-- An envelope above a gap is held in a window that stays settled. -/
theorem Window.Settled.hold_above {w : Window} (h : w.Settled) {seq : UInt64} {env : SecureEnvelope}
    (hseq : w.next < seq) : Window.Settled { w with held := w.held.insert seq env } := by
  intro hn
  rcases (mem_insert_iff _ _ _ _).mp hn with hn | hn
  · exact UInt64.lt_irrefl _ (hn ▸ hseq)
  · exact h hn

theorem admit_reported (h : Live F E sid x s) {w : Window} {seq : UInt64} {env : SecureEnvelope}
    (hw : x.window sid = some w) (hb : Belongs F x.manager sid seq env) (hE : E env) :
    Reported F E sid view
      (fun w' => Opens F x.manager (Arrived F x sid E) → w'.Has seq) x s
      (x.admission F sid seq w env view) := by
  have hwindow := windowOf_eq hw
  have hsound := h.sound
  have hsettled := h.settled
  rw [hwindow] at hsound hsettled
  have hstep : AdmissionStep F sid seq w env view x (x.admission F sid seq w env view) :=
    admission_step hsound.high_ne_max hb.addressed
  generalize x.admission F sid seq w env view = result at hstep ⊢
  cases hstep with
  | rejected e hreason =>
    refine .rejected h (fun ho => ?_) e
    rw [hwindow]
    exact hreason.resolve_right fun hclosed => hclosed (ho seq env ⟨hb, hE⟩)
  | aborted hab => exact .ended hab
  | held hgap hmax hsize =>
    have hlive : Live F E sid (x.putWindow sid { w with held := w.held.insert seq env }) s := by
      refine ⟨h.session, ?_, ?_, ?_⟩
      · rw [windowOf_putWindow]
        exact hsound.hold_above hgap hmax hsize ⟨hb, hE⟩
      · rw [windowOf_putWindow]
        exact Window.Settled.hold_above hsettled hgap
      · rw [windowOf_putWindow, ← h.lockstep, hwindow]
    refine .live s (Frame.putWindow sid x _) ⟨rfl, rfl⟩ rfl hlive ?_ ?_ ?_ rfl
    · rw [windowOf_putWindow, hwindow]
      exact .nil
    · rw [windowOf_putWindow, hwindow]
      exact fun _ n hn => hn.imp_right fun hn => (mem_insert_iff _ _ _ _).mpr (.inr hn)
    · rw [windowOf_putWindow]
      exact fun _ => .inr ((mem_insert_iff _ _ _ _).mpr (.inl rfl))
  | drained s' hnext hmax hsize hs' =>
    subst hnext
    have hw' := hsound.hold_next hmax hsize ⟨hb, hE⟩
    refine .of_drained h (Frame.accept sid x s' w env) (Alike.put hs') ?_ ?_ ?_
      (drain_drained ?_ _ _ (.start ?_ hw')) ?_
    · rw [hwindow]
    · rw [hwindow]
    · rw [hwindow]
      rintro n (hn | hn)
      · exact .inl ((lt_succ_iff hmax).mpr (UInt64.le_of_lt hn))
      · exact .inr ((mem_insert_iff _ _ _ _).mpr (.inr hn))
    · exact fun n e ha => ha.1.addressed
    · rw [accept, window_putWindow, if_pos rfl]
    · exact fun w'' hkeeps _ ho => hkeeps ho _ (.inr ((mem_insert_iff _ _ _ _).mpr (.inl rfl)))

/-- Making the default window of a session is no change. -/
theorem Live.touch (h : Live F E sid x s) : Live F E sid (x.putWindow sid (x.windowOf sid)) s where
  session := h.session
  sound := by
    rw [windowOf_putWindow]
    exact h.sound
  settled := by
    rw [windowOf_putWindow]
    exact h.settled
  lockstep := by
    rw [windowOf_putWindow]
    exact h.lockstep

theorem Reported.of_touch {post : Window → Prop} {result : Endpoint × ReceiveReport}
    (h : Reported F E sid view post (x.putWindow sid (x.windowOf sid)) s result) :
    Reported F E sid view post x s result := by
  have hframe := Frame.putWindow sid x (x.windowOf sid)
  cases h with
  | ended hab => exact .ended (hab.of_frame hframe)
  | live t hf hkeys hsend hlive hbatch hkeeps hpost hab =>
    rw [windowOf_putWindow] at hbatch hkeeps
    exact .live t (hframe.trans hf) hkeys hsend hlive hbatch hkeeps hpost hab

theorem receive_refused {env : SecureEnvelope} (h : x.manager.verifyMessage F env ≠ .ok ())
    (view : ContractView) :
    ∃ e, x.receive F env view = (x.retain, ReceiveReport.empty.reject e) := by
  unfold receive
  cases hvalid : env.validate F with
  | error e => exact ⟨e, rfl⟩
  | ok _ =>
    by_cases hkind : env.kind = .msg
    · obtain ⟨-, ⟨sid, hsid⟩, ⟨seq, hseq⟩, -⟩ := SecureEnvelope.validate_msg hvalid hkind
      simp only [hsid, hseq, if_neg (not_not_intro hkind)]
      have hsame : x.retain.manager = x.manager := rfl
      rw [hsame]
      cases hv : x.manager.verifyMessage F env with
      | error e => exact ⟨e, rfl⟩
      | ok _ => exact absurd hv h
    · exact ⟨.schemaViolation, by simp only [if_pos hkind]⟩

/-- A message that verifies belongs to an active session. -/
theorem belongs_of_verified {env : SecureEnvelope} (h : x.manager.verifyMessage F env = .ok ()) :
    ∃ sid seq s, Belongs F x.manager sid seq env ∧ x.manager.active[sid]? = some s := by
  obtain ⟨hvalid, hkind, sid, s, hsid, hs, -⟩ := verifyMessage_eq_ok.mp h
  obtain ⟨-, -, ⟨seq, hseq⟩, -⟩ := SecureEnvelope.validate_msg hvalid hkind
  exact ⟨sid, seq, s, ⟨hsid, hseq, h⟩, hs⟩

theorem receive_verified {seq : UInt64} {env : SecureEnvelope}
    (hb : Belongs F x.manager sid seq env) (view : ContractView) :
    x.receive F env view = (x.retain.putWindow sid (x.retain.windowOf sid)).admission F sid seq
      (x.retain.windowOf sid) env view := by
  obtain ⟨hvalid, hkind, -⟩ := verifyMessage_eq_ok.mp hb.verified
  unfold receive
  have hv : x.retain.manager.verifyMessage F env = .ok () := hb.verified
  simp only [hvalid, hkind, hb.sid, hb.seq, hv, ne_eq, not_true_eq_false, if_false]

theorem receive_reported (h : Live F E sid x s) {seq : UInt64} {env : SecureEnvelope}
    (hb : Belongs F x.manager sid seq env) (hE : E env) (view : ContractView) :
    Reported F E sid view (fun w => Opens F x.manager (Arrived F x sid E) → w.Has seq) x.retain s
      (x.receive F env view) := by
  rw [receive_verified hb]
  refine (admit_reported h.retain.touch ?_ hb hE).of_touch
  rw [window_putWindow, if_pos rfl]

theorem observe_reported (h : Live F E sid x s) (view : ContractView) :
    Reported F E sid view (fun w => w.Stalled F view) x s (x.observe F sid view) := by
  have hobserve : x.observe F sid view = x.drain F sid view .empty := by
    simp only [observe, info, h.session]
  rw [hobserve]
  cases hw : x.window sid with
  | none =>
    rw [drain_no_window hw]
    refine .live s (Frame.refl sid x) ⟨rfl, rfl⟩ rfl h .nil (fun _ _ hn => hn) (.inl ?_) rfl
    rw [windowOf, hw]
    exact UInt64.lt_irrefl _
  | some w =>
    have hsound := h.sound
    rw [windowOf_eq hw] at hsound
    have hb : ∀ n env, Arrived F x sid E n env → Addressed sid n env := fun _ _ ha => ha.1.addressed
    refine .of_drained h (Frame.refl sid x) (Alike.refl sid _) ?_ ?_ ?_
      (drain_drained hb _ _ (.start hw hsound)) fun _ _ hstalled => hstalled
    all_goals rw [windowOf_eq hw]
    exact fun _ hn => hn

theorem observe_unknown (h : x.manager.active[sid]? = none) :
    x.observe F sid view = (x.dropWindow sid, ReceiveReport.empty.reject .sessionUnknown) := by
  simp only [observe, info, h]

/-! ## Sealing -/

/-- The envelope a session emits for its next number. -/
def Emits (F : Foreign) (m : SessionManager) (s : Session) (sid contract : String)
    (payload : Bytes) (env : SecureEnvelope) : Prop :=
  ∃ aad ct, (m.draft s sid s.info.sendSeq contract).aadBytes F = .ok aad ∧
    s.keys.seal_ F s.initiator s.info.sendSeq aad payload = .ok ct ∧
    m.finish F { m.draft s sid s.info.sendSeq contract with ct := some (encodeHex ct) } = .ok env

/-- What a sealing call makes of an active session: the session is over, having spent at most
its next number; or it is as before and no number is spent; or it emits an envelope and both
counters move on. -/
inductive Sealed (F : Foreign) (E : SecureEnvelope → Prop) (sid contract : String)
    (payload : Bytes) (x : Endpoint) (s : Session) : Endpoint × Sealing → Prop
  | ended {y : Endpoint} {spent : Option Encryption} {e : SecureError} : Frame sid x y →
      y.manager.active[sid]? = none → e ≠ .replayRejected →
      (∀ enc ∈ spent, s.info.sendSeq ≠ u64Max ∧
        enc = ⟨sid, s.keys.sendKey s.initiator, s.info.sendSeq⟩) →
      Sealed F E sid contract payload x s (y, ⟨spent, .error e⟩)
  | refused {y : Endpoint} {e : SecureError} : Frame sid x y → Live F E sid y s →
      y.manager = x.manager → y.windowOf sid = x.windowOf sid → e ≠ .replayRejected →
      Sealed F E sid contract payload x s (y, ⟨none, .error e⟩)
  | sent {y : Endpoint} {env : SecureEnvelope} : Frame sid x y →
      Live F E sid y { s with info.sendSeq := s.info.sendSeq + 1 } → s.info.sendSeq ≠ u64Max →
      SameKeys sid x.manager y.manager →
      y.windowOf sid = { x.windowOf sid with sendSeq := (x.windowOf sid).sendSeq + 1 } →
      Emits F x.manager s sid contract payload env →
      Sealed F E sid contract payload x s
        (y, ⟨some ⟨sid, s.keys.sendKey s.initiator, s.info.sendSeq⟩, .ok env⟩)

/-- What a sealing call does: the session is unknown, the call ends it, or the manager seals under
the window's number, which is spent when there is an envelope. -/
inductive SealCall (F : Foreign) (sid contract : String) (payload : Bytes) (x : Endpoint) :
    Endpoint × Sealing → Prop
  | unknown : x.manager.active[sid]? = none →
      SealCall F sid contract payload x (x.retain, ⟨none, .error .sessionUnknown⟩)
  | ended {y : Endpoint} {s : Session} (e : SecureError) : x.manager.active[sid]? = some s →
      Frame sid x.retain y → Gone sid y → e = .contractMismatch ∨ e = .sessionExhausted →
      SealCall F sid contract payload x (y, ⟨none, .error e⟩)
  | failed {s : Session} {m : SessionManager} {spent : Option Encryption} {e : SecureError} :
      x.manager.active[sid]? = some s → (x.windowOf sid).sendSeq ≠ u64Max →
      x.manager.seal_ F sid (x.windowOf sid).sendSeq contract payload = (m, ⟨spent, .error e⟩) →
      SealCall F sid contract payload x
        ({ x.retain.putWindow sid (x.windowOf sid) with manager := m }, ⟨spent, .error e⟩)
  | sealed {s : Session} {m : SessionManager} {spent : Option Encryption} {env : SecureEnvelope} :
      x.manager.active[sid]? = some s → (x.windowOf sid).sendSeq ≠ u64Max →
      x.manager.seal_ F sid (x.windowOf sid).sendSeq contract payload = (m, ⟨spent, .ok env⟩) →
      SealCall F sid contract payload x
        ({ x.retain.putWindow sid (x.windowOf sid) with manager := m }.putWindow sid
          { x.windowOf sid with sendSeq := (x.windowOf sid).sendSeq + 1 }, ⟨spent, .ok env⟩)

theorem seal_call (x : Endpoint) (sid contract : String) (payload : Bytes) (view : ContractView) :
    SealCall F sid contract payload x (x.seal_ F sid contract payload view) := by
  unfold seal_
  cases hs : x.manager.active[sid]? with
  | none =>
    have hinfo : x.retain.manager.info sid = .error .sessionUnknown := by
      change x.manager.info sid = _
      simp only [info, hs]
    simp only [hinfo]
    exact .unknown hs
  | some s =>
    have hinfo : x.retain.manager.info sid = .ok s.info := by
      change x.manager.info sid = _
      simp only [info, hs]
    simp only [hinfo, windowOf_retain hs]
    split
    · next e he =>
      -- the view rejects the binding
      have hreject : view.check F contract = .error e ∧ e ≠ .contractPending := by
        split at he
        · cases he
        · cases he
        · next e' hne hcheck =>
          obtain rfl := Option.some.inj he
          exact ⟨hcheck, hne⟩
      exact .ended e hs (Frame.close sid _) (gone_close sid _)
        (.inl ((ContractView.check_fails F view contract e hreject.1).resolve_right hreject.2))
    · by_cases hmax : (x.windowOf sid).sendSeq = u64Max
      · rw [if_pos hmax]
        exact .ended _ hs ((Frame.putWindow sid x.retain _).trans (Frame.close sid _))
          (gone_close sid _) (.inr rfl)
      · rw [if_neg hmax, manager_putWindow]
        have hmanager : x.retain.manager = x.manager := rfl
        rw [hmanager]
        split
        · next hseal => exact .failed hs hmax hseal
        · next hseal => exact .sealed hs hmax hseal

theorem seal_sealed (h : Live F E sid x s) (contract : String) (payload : Bytes)
    (view : ContractView) :
    Sealed F E sid contract payload x.retain s (x.seal_ F sid contract payload view) := by
  have hcall := seal_call (F := F) x sid contract payload view
  have hstep := seal_step (F := F) x.manager sid (x.windowOf sid).sendSeq contract payload
  have hlive := h.retain.touch
  rw [windowOf_retain h.session] at hlive
  have hframe := Frame.putWindow sid x.retain (x.windowOf sid)
  have hlock := h.lockstep
  generalize x.seal_ F sid contract payload view = result at hcall ⊢
  cases hcall with
  | unknown hnone =>
    rw [h.session] at hnone
    cases hnone
  | ended e hs hframe hgone he =>
    refine .ended hframe hgone.session ?_ (by simp)
    rcases he with rfl | rfl <;> decide
  | failed hs hmax hseal =>
    rw [hseal] at hstep
    cases hstep with
    | unknown hnone =>
      rw [h.session] at hnone
      cases hnone
    | exhausted hs' hor =>
      obtain rfl := Option.some.inj (h.session.symm.trans hs')
      rw [← hlock, or_self] at hor
      exact absurd hor hmax
    | outOfStep hs' hne =>
      obtain rfl := Option.some.inj (h.session.symm.trans hs')
      exact absurd hlock hne
    | refused hne =>
      exact .refused hframe hlive rfl ((windowOf_putWindow _).trans (windowOf_retain hs).symm) hne
    | failed hs' hlt heq hne =>
      obtain rfl := Option.some.inj (h.session.symm.trans hs')
      rw [hlock] at hlt ⊢
      refine .ended ?_ ?_ hne ?_
      · exact hframe.trans ((Frame.put sid _ _).trans (Frame.remove sid _))
      · rw [active_remove, if_pos rfl]
      · rintro enc ⟨⟩
        exact ⟨hlt, rfl⟩
  | sealed hs hmax hseal =>
    rw [hseal] at hstep
    cases hstep with
    | sealed hs' hlt heq haad hct hfinish =>
      obtain rfl := Option.some.inj (h.session.symm.trans hs')
      rw [hlock] at hlt haad hct hfinish ⊢
      have hkeys : SameKeys sid x.manager (x.manager.put sid
          { s with info.sendSeq := s.info.sendSeq + 1 }) := by
        refine ⟨rfl, ?_⟩
        rw [active_put, if_pos rfl, h.session]
        rfl
      refine .sent ?_ ?_ hlt hkeys ?_ ⟨_, _, haad, hct, hfinish⟩
      · exact hframe.trans ((Frame.put sid _ _).trans (Frame.putWindow sid _ _))
      · refine ⟨?_, ?_, ?_, ?_⟩
        · exact (active_put _).trans (if_pos rfl)
        · rw [windowOf_putWindow]
          exact (h.sound.sent _).imp fun n env ha => ha.of_sameKeys hkeys
        · rw [windowOf_putWindow]
          exact h.settled
        · rw [windowOf_putWindow]
      · rw [windowOf_putWindow, windowOf_retain hs, hlock]

end Endpoint
end Hacp.Secure
