import Hacp.Secure.TransportHistory

/-!
# Windows of any run

Between calls every window is in order, whatever was established, evicted or called
before. A message that is admitted to such a window either ends its session or moves
the delivery position by as many numbers as the report delivers.
-/
namespace Hacp.Secure
open Lib Std SessionManager Window

namespace Endpoint
variable {F : Foreign} {x y : Endpoint} {sid k : String} {w : Window}

def InShape (sid : String) (w : Window) : Prop := w.Sound (Addressed sid) ∧ w.Settled

def Tidy (x : Endpoint) : Prop := ∀ sid, InShape sid (x.windowOf sid)

theorem inShape_empty (sid : String) : InShape sid .empty := ⟨sound_empty, settled_empty⟩

theorem windowOf_none (h : x.window sid = none) : x.windowOf sid = .empty := by
  rw [windowOf, h, Option.getD_none]

/-- A change to one session is judged by its window. -/
theorem Tidy.of_frame (h : Tidy x) (hf : Frame k x y) (hk : InShape k (y.windowOf k)) : Tidy y := by
  intro sid
  by_cases hsid : sid = k
  · subst hsid
    exact hk
  · have hsame : y.windowOf sid = x.windowOf sid := by
      rw [windowOf, hf.window sid hsid, windowOf]
    rw [hsame]
    exact h sid

theorem Tidy.of_gone (h : Tidy x) (hf : Frame k x y) (hk : y.window k = none) : Tidy y :=
  h.of_frame hf (windowOf_none hk ▸ inShape_empty k)

theorem Tidy.retain (h : Tidy x) : Tidy x.retain := by
  intro sid
  cases hs : x.manager.active[sid]? with
  | some s =>
    rw [windowOf_retain hs]
    exact h sid
  | none =>
    have hnone : x.retain.window sid = none := by
      rw [window_retain, hs]
      rfl
    rw [windowOf_none hnone]
    exact inShape_empty sid

theorem Tidy.putWindow (h : Tidy x) (hw : InShape sid w) : Tidy (x.putWindow sid w) :=
  h.of_frame (Frame.putWindow sid x w) ((windowOf_putWindow w).symm ▸ hw)

theorem Tidy.close (h : Tidy x) (sid : String) : Tidy (x.close sid).1 :=
  h.of_gone (Frame.close sid x) (gone_close sid x).window

theorem Tidy.aborted (h : Tidy x) {report : ReceiveReport} (hab : Aborted sid x y report) : Tidy y :=
  h.of_gone hab.frame hab.gone.window

/-- What a receiving call makes of a session whose window is in order: it is over and nothing
is delivered, or the delivery position passed exactly what is delivered. -/
inductive Admitted (sid : String) (x : Endpoint) : Endpoint × ReceiveReport → Prop
  | ended {y : Endpoint} {r : ReceiveReport} : Aborted sid x y r → Admitted sid x (y, r)
  | kept {y : Endpoint} {r : ReceiveReport} : Frame sid x y → Alike sid x.manager y.manager →
      InShape sid (y.windowOf sid) → r.aborted = none → (∀ d ∈ r.delivered, d.sid = sid) →
      (y.windowOf sid).deliveryNext.toNat =
        (x.windowOf sid).deliveryNext.toNat + r.delivered.length → Admitted sid x (y, r)

theorem Tidy.admitted (h : Tidy x) {result : Endpoint × ReceiveReport}
    (hresult : Admitted sid x result) : Tidy result.1 := by
  cases hresult with
  | ended hab => exact h.aborted hab
  | kept hframe _ hshape => exact h.of_frame hframe hshape

theorem Tidy.rejected (h : Tidy x) (sid : String) (e : SecureError) :
    Admitted sid x (x, ReceiveReport.empty.reject e) :=
  .kept (Frame.refl sid x) (Alike.refl sid _) (h sid) rfl (fun _ hd => absurd hd List.not_mem_nil)
    rfl

theorem drain_admitted (hf : Frame sid x y) (halike : Alike sid x.manager y.manager)
    (hy : y.window sid = some w) (hw : w.Sound (Addressed sid))
    (hpos : w.deliveryNext = (x.windowOf sid).deliveryNext) (view : ContractView) :
    Admitted sid x (y.drain F sid view .empty) := by
  have hdrained := drain_drained (F := F) (fun _ _ ha => ha) view .empty (.start hy hw)
  generalize y.drain F sid view .empty = result at hdrained ⊢
  cases hdrained with
  | aborted hab _ => exact .ended (hab.of_frame hf)
  | kept w' ds hz hsettled _ hbatch hdelivered haborted =>
    have hds : _ = ds := hdelivered.trans (List.nil_append ds)
    refine .kept (hf.trans hz.frame) (halike.trans hz.alike) ?_ haborted ?_ ?_
    · rw [windowOf_eq hz.window]
      exact ⟨hz.sound, hsettled⟩
    · intro d hd
      obtain ⟨env, hdelivers⟩ := hbatch.each d (hds ▸ hd)
      exact hdelivers.sid
    · rw [windowOf_eq hz.window, hbatch.next, hpos, hds]

theorem Tidy.admission (h : Tidy x) (hx : x.window sid = some w) {seq : UInt64} {env : SecureEnvelope}
    (ha : Addressed sid seq env) (view : ContractView) :
    Admitted sid x (x.admission F sid seq w env view) := by
  have hwindow := windowOf_eq hx
  obtain ⟨hsound, hsettled⟩ := hwindow ▸ h sid
  have hstep : AdmissionStep F sid seq w env view x (x.admission F sid seq w env view) :=
    admission_step hsound.high_ne_max ha
  generalize x.admission F sid seq w env view = result at hstep ⊢
  cases hstep with
  | rejected e => exact h.rejected sid e
  | aborted hab => exact .ended hab
  | held hgap hmax hsize =>
    refine .kept (Frame.putWindow sid x _) (Alike.refl sid _) ?_ rfl ?_ ?_
    · rw [windowOf_putWindow]
      exact ⟨hsound.hold_above hgap hmax hsize ha, Window.Settled.hold_above hsettled hgap⟩
    · exact fun d hd => absurd hd List.not_mem_nil
    · rw [windowOf_putWindow, hwindow]
      rfl
  | drained s hnext hmax hsize hs =>
    subst hnext
    refine drain_admitted (Frame.accept sid x s w env) (Alike.put hs) ?_
      (hsound.hold_next hmax hsize ha) ?_ view
    · rw [accept, window_putWindow, if_pos rfl]
    · rw [hwindow]

/-- Making the default window of a session is no change. -/
theorem Admitted.of_touch {result : Endpoint × ReceiveReport}
    (h : Admitted sid (x.putWindow sid (x.windowOf sid)) result) : Admitted sid x result := by
  have hframe := Frame.putWindow sid x (x.windowOf sid)
  cases h with
  | ended hab => exact .ended (hab.of_frame hframe)
  | kept hf halike hshape haborted hall hpos =>
    rw [windowOf_putWindow] at hpos
    exact .kept (hframe.trans hf) halike hshape haborted hall hpos

/-- A received envelope changes at most the session it names. -/
theorem Tidy.receive (h : Tidy x) {env : SecureEnvelope} (hsid : env.sid = some sid)
    (view : ContractView) : Admitted sid x.retain (x.receive F env view) := by
  by_cases hv : x.manager.verifyMessage F env = .ok ()
  · obtain ⟨k, seq, s, hb, -⟩ := belongs_of_verified hv
    obtain rfl := Option.some.inj (hb.sid.symm.trans hsid)
    rw [receive_verified hb]
    have hput : (x.retain.putWindow k (x.retain.windowOf k)).window k =
        some (x.retain.windowOf k) := by rw [window_putWindow, if_pos rfl]
    exact ((h.retain.putWindow (h.retain k)).admission hput hb.addressed view).of_touch
  · obtain ⟨e, he⟩ := receive_refused hv view
    rw [he]
    exact h.retain.rejected sid e

theorem Tidy.observe (h : Tidy x) {s : Session} (hs : x.manager.active[sid]? = some s)
    (view : ContractView) : Admitted sid x (x.observe F sid view) := by
  have hobserve : x.observe F sid view = x.drain F sid view .empty := by
    simp only [Endpoint.observe, SessionManager.info, hs]
  rw [hobserve]
  cases hw : x.window sid with
  | none =>
    rw [drain_no_window hw]
    exact .kept (Frame.refl sid x) (Alike.refl sid _) (h sid) rfl
      (fun _ hd => absurd hd List.not_mem_nil) rfl
  | some w =>
    exact drain_admitted (Frame.refl sid x) (Alike.refl sid _) hw (windowOf_eq hw ▸ (h sid).1)
      (windowOf_eq hw ▸ rfl) view

/-- Sealing touches the send counter of a window only, or ends the session. -/
theorem Tidy.seal_ (h : Tidy x) (sid contract : String) (payload : Bytes) (view : ContractView) :
    Tidy (x.seal_ F sid contract payload view).1 := by
  have hretain := h.retain
  have hcall := seal_call (F := F) x sid contract payload view
  generalize x.seal_ F sid contract payload view = result at hcall ⊢
  cases hcall with
  | unknown => exact hretain
  | ended e _ hframe hgone => exact hretain.of_gone hframe hgone.window
  | failed => exact hretain.putWindow (h sid)
  | @sealed s m _ env =>
    have hsent : InShape sid { x.windowOf sid with sendSeq := (x.windowOf sid).sendSeq + 1 } :=
      ⟨(h sid).1.sent _, (h sid).2⟩
    have hmanager : Tidy { x.retain.putWindow sid (x.windowOf sid) with manager := m } :=
      hretain.putWindow (h sid)
    exact hmanager.putWindow hsent

theorem Tidy.call (h : Tidy x) (c : Call) : Tidy (x.call F c).1 := by
  cases c with
  | seal_ sid contract payload view => exact h.seal_ sid contract payload view
  | receive env view =>
    by_cases hv : x.manager.verifyMessage F env = .ok ()
    · obtain ⟨sid, seq, s, hb, -⟩ := belongs_of_verified hv
      exact h.retain.admitted (h.receive hb.sid view)
    · obtain ⟨e, he⟩ := receive_refused hv view
      simp only [Endpoint.call, he]
      exact h.retain
  | observe sid view =>
    cases hs : x.manager.active[sid]? with
    | none =>
      simp only [Endpoint.call, observe_unknown hs]
      refine h.of_gone (Frame.dropWindow sid x) ?_
      rw [window_dropWindow, if_pos rfl]
    | some s => exact h.admitted (h.observe hs view)
  | close sid => exact h.close sid

theorem tidy_step (h : Tidy x) (i : Input) : Tidy ((machine F).step x i).1 := by
  cases i with
  | call c => exact h.call c
  | establish s => exact h
  | evict sid => exact h

theorem tidy_reached (F : Foreign) (local_ : String) (identity : Vector UInt8 32)
    (inputs : List Input) : Tidy ((machine F).exec (new local_ identity) inputs) :=
  Machine.exec_invariant (P := Tidy) (fun _ i h => tidy_step h i)
    (fun sid => by
      rw [windowOf_none ExtTreeMap.getElem?_empty]
      exact inShape_empty sid) inputs

end Endpoint
end Hacp.Secure
