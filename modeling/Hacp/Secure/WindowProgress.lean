import Mathlib.Data.List.Intervals
import Hacp.Secure.Tidy

/-!
# What windows hold, and what draining leaves

An envelope is held only after a call received it and its signature was verified under
the session's pin. A call that drains a window delivers until nothing that was accepted
is left, or until the binding at the delivery position is pending under its view.
-/
namespace Hacp.Secure
open Lib Std SessionManager Window

namespace Endpoint
variable {F : Foreign} {x y : Endpoint} {sid k : String} {w : Window} {view : ContractView}
  {env : SecureEnvelope} {P : String → UInt64 → SecureEnvelope → Prop}

def Holds (P : String → UInt64 → SecureEnvelope → Prop) (x : Endpoint) : Prop :=
  ∀ sid n env, (x.windowOf sid).held[n]? = some env → P sid n env

theorem Holds.of_frame (h : Holds P x) (hf : Frame k x y)
    (hk : ∀ n env, (y.windowOf k).held[n]? = some env → P k n env) : Holds P y := by
  intro sid n env henv
  by_cases hsid : sid = k
  · subst hsid
    exact hk n env henv
  · rw [windowOf, hf.window sid hsid] at henv
    exact h sid n env henv

theorem Holds.of_gone (h : Holds P x) (hf : Frame k x y) (hk : y.window k = none) : Holds P y := by
  apply h.of_frame hf
  intro n env henv
  rw [windowOf_none hk] at henv
  simp [Window.empty] at henv

theorem Holds.of_held (h : Holds P x) (hf : Frame k x y)
    (hk : (y.windowOf k).held = (x.windowOf k).held) : Holds P y :=
  h.of_frame hf fun n env henv => h k n env (hk ▸ henv)

theorem Holds.retain (h : Holds P x) : Holds P x.retain := by
  intro sid n env henv
  cases hs : x.manager.active[sid]? with
  | some s =>
    rw [windowOf_retain hs] at henv
    exact h sid n env henv
  | none =>
    have hnone : x.retain.window sid = none := by
      rw [window_retain, hs]
      rfl
    rw [windowOf_none hnone] at henv
    simp [Window.empty] at henv

theorem Holds.touch (h : Holds P x) (sid : String) : Holds P (x.putWindow sid (x.windowOf sid)) :=
  h.of_held (Frame.putWindow sid x _) (by rw [windowOf_putWindow])

/-- A window was drawn to another one: nothing deliverable is left, and the report lists what was
passed. -/
structure Drawn (F : Foreign) (sid : String) (view : ContractView) (before after : Window)
    (report : ReceiveReport) : Prop where
  stalled : after.Stalled F view
  own : ∀ d ∈ report.delivered, d.sid = sid
  listed : report.delivered.map (fun d => d.seq.toNat) =
    List.Ico before.deliveryNext.toNat after.deliveryNext.toNat

theorem Drawn.of_batch {m : SessionManager} {p : UInt64 → SecureEnvelope → Prop} {w' : Window}
    {report : ReceiveReport} (hstalled : w'.Stalled F view)
    (hbatch : Batch F m p sid view w.deliveryNext w'.deliveryNext report.delivered) :
    Drawn F sid view w w' report where
  stalled := hstalled
  own d hd := by
    obtain ⟨env, hdelivers⟩ := hbatch.each d hd
    exact hdelivers.sid
  listed := by
    rw [hbatch.seqs, hbatch.next, List.Ico, Nat.add_sub_cancel_left]

theorem Drawn.of_empty {report : ReceiveReport} (hnone : report.delivered = []) :
    Drawn F sid view w .empty report where
  stalled := .inl (UInt64.lt_irrefl _)
  own := by simp [hnone]
  listed := by
    rw [hnone]
    exact (List.Ico.eq_nil_of_le (Nat.zero_le _)).symm

/-- Draining holds nothing new, and unless it aborts it draws the window. -/
theorem drain_settles (hx : x.window sid = some w) (hw : w.Sound (Addressed sid))
    (view : ContractView) (h : Holds P x) :
    Holds P (x.drain F sid view .empty).1 ∧
      ((x.drain F sid view .empty).2.aborted = none →
        Drawn F sid view w ((x.drain F sid view .empty).1.windowOf sid)
          (x.drain F sid view .empty).2) := by
  have hdrained := drain_drained (F := F) (fun _ _ ha => ha) view .empty (.start hx hw)
  generalize x.drain F sid view .empty = result at hdrained ⊢
  cases hdrained with
  | aborted hab _ => exact ⟨h.of_gone hab.frame hab.gone.window, fun hnone => absurd hnone hab.aborted⟩
  | kept w' ds hy hsettled hstalled hbatch hlisted _ =>
    obtain rfl : _ = ds := hlisted
    have hwindow := windowOf_eq hy.window
    dsimp only
    rw [hwindow]
    refine ⟨h.of_frame hy.frame fun n env henv => ?_, fun _ => .of_batch hstalled hbatch⟩
    rw [hwindow] at henv
    apply h sid n env
    rw [windowOf_eq hx]
    exact hy.drains.subset n env henv

/-- A verified message that is next in order and opens. -/
structure NextUp (F : Foreign) (x : Endpoint) (sid : String) (env : SecureEnvelope) : Prop where
  belongs : Belongs F x.manager sid (x.windowOf sid).next env
  opens : Openable F x.manager env

/-- Admission holds at most the envelope itself, and one that is next in order is drained. -/
theorem admission_settles {seq : UInt64} (hx : x.window sid = some w) (ht : InShape sid w)
    (ha : Addressed sid seq env) (view : ContractView) (h : Holds P x) (hP : P sid seq env) :
    Holds P (x.admission F sid seq w env view).1 ∧
      (seq = w.next → Openable F x.manager env →
        (x.admission F sid seq w env view).2.aborted = none →
          Drawn F sid view w ((x.admission F sid seq w env view).1.windowOf sid)
            (x.admission F sid seq w env view).2) := by
  obtain ⟨hsound, hsettled⟩ := ht
  have hnew (n : UInt64) (e : SecureEnvelope) (he : (w.held.insert seq env)[n]? = some e) :
      P sid n e := by
    rw [lookup_insert] at he
    split_ifs at he with hn
    · obtain rfl := Option.some.inj he
      exact hn ▸ hP
    · exact h sid n e (windowOf_eq hx ▸ he)
  have hstep : AdmissionStep F sid seq w env view x (x.admission F sid seq w env view) :=
    admission_step hsound.high_ne_max ha
  generalize x.admission F sid seq w env view = result at hstep ⊢
  cases hstep with
  | rejected e hreason =>
    refine ⟨h, fun hseq hopens _ => ?_⟩
    rcases hreason with hhas | hclosed
    · subst hseq
      exact absurd hhas (not_or.mpr ⟨UInt64.lt_irrefl _, hsettled⟩)
    · exact absurd hopens hclosed
  | aborted hab =>
    exact ⟨h.of_gone hab.frame hab.gone.window, fun _ _ hnone => absurd hnone hab.aborted⟩
  | held hgap hmax hsize =>
    refine ⟨h.of_frame (Frame.putWindow sid x _) ?_, fun hseq => ?_⟩
    · rw [windowOf_putWindow]
      exact hnew
    · subst hseq
      exact absurd hgap (UInt64.lt_irrefl _)
  | drained s hnext hmax hsize hs =>
    subst hnext
    have haccept : (x.accept sid s w env).window sid =
        some { w with high := some w.next, held := w.held.insert w.next env } := by
      rw [accept, window_putWindow, if_pos rfl]
    have hheld : Holds P (x.accept sid s w env) := by
      apply h.of_frame (Frame.accept sid x s w env)
      rw [windowOf_eq haccept]
      exact hnew
    obtain ⟨hholds, hdrawn⟩ := drain_settles (F := F) haccept (hsound.hold_next hmax hsize ha)
      view hheld
    -- accepting the envelope leaves the delivery position
    refine ⟨hholds, fun _ _ hkept => ?_⟩
    obtain ⟨hstalled, hown, hlisted⟩ := hdrawn hkept
    exact ⟨hstalled, hown, hlisted⟩

theorem receive_settles (ht : Tidy x) (view : ContractView) (h : Holds P x)
    (hP : ∀ sid seq, Belongs F x.manager sid seq env → P sid seq env) :
    Holds P (x.receive F env view).1 ∧
      ∀ sid, NextUp F x sid env → (x.receive F env view).2.aborted = none →
        Drawn F sid view (x.windowOf sid) ((x.receive F env view).1.windowOf sid)
          (x.receive F env view).2 := by
  by_cases hv : x.manager.verifyMessage F env = .ok ()
  · obtain ⟨k, seq, s, hb, hs⟩ := belongs_of_verified hv
    rw [receive_verified hb]
    have hput : (x.retain.putWindow k (x.retain.windowOf k)).window k =
        some (x.retain.windowOf k) := by rw [window_putWindow, if_pos rfl]
    obtain ⟨hholds, hdrawn⟩ := admission_settles (F := F) hput (ht.retain k) hb.addressed view
      (h.retain.touch k) (hP k seq hb)
    refine ⟨hholds, fun sid horder => ?_⟩
    obtain rfl := Option.some.inj (hb.sid.symm.trans horder.belongs.sid)
    obtain rfl := Option.some.inj (hb.seq.symm.trans horder.belongs.seq)
    rw [windowOf_retain hs] at hdrawn ⊢
    exact hdrawn rfl horder.opens
  · obtain ⟨e, he⟩ := receive_refused hv view
    rw [he]
    exact ⟨h.retain, fun sid horder => absurd horder.belongs.verified hv⟩

theorem observe_settles (ht : Tidy x) (sid : String) (view : ContractView) (h : Holds P x) :
    Holds P (x.observe F sid view).1 ∧ ((x.observe F sid view).2.aborted = none →
      Drawn F sid view (x.windowOf sid) ((x.observe F sid view).1.windowOf sid)
        (x.observe F sid view).2) := by
  cases hs : x.manager.active[sid]? with
  | none =>
    have hnone : (x.dropWindow sid).window sid = none := by rw [window_dropWindow, if_pos rfl]
    rw [observe_unknown hs]
    refine ⟨h.of_gone (Frame.dropWindow sid x) hnone, fun _ => ?_⟩
    rw [windowOf_none hnone]
    exact .of_empty rfl
  | some s =>
    have hobserve : x.observe F sid view = x.drain F sid view .empty := by
      simp only [Endpoint.observe, SessionManager.info, hs]
    rw [hobserve]
    cases hw : x.window sid with
    | none =>
      rw [drain_no_window hw]
      refine ⟨h, fun _ => ?_⟩
      rw [windowOf_none hw]
      exact .of_empty rfl
    | some w =>
      have hwindow := windowOf_eq hw
      rw [hwindow]
      exact drain_settles hw (hwindow ▸ (ht sid).1) view h

theorem seal_holds (sid contract : String) (payload : Bytes) (view : ContractView) (h : Holds P x) :
    Holds P (x.seal_ F sid contract payload view).1 := by
  have hcall := seal_call (F := F) x sid contract payload view
  generalize x.seal_ F sid contract payload view = result at hcall ⊢
  cases hcall with
  | unknown => exact h.retain
  | ended e _ hframe hgone => exact h.retain.of_gone hframe hgone.window
  | failed hs =>
    have htouch := h.retain.touch sid
    rw [windowOf_retain hs] at htouch
    exact htouch
  | @sealed s m spent env hs =>
    have htouch := h.retain.touch sid
    rw [windowOf_retain hs] at htouch
    have hmanager : Holds P { x.retain.putWindow sid (x.windowOf sid) with manager := m } := htouch
    apply hmanager.of_frame (Frame.putWindow sid _ _)
    intro n env henv
    rw [windowOf_putWindow] at henv
    exact h sid n env henv

/-! ## Runs -/

/-- The envelope was received under the session and its own number, and its signature was verified
under the pin the session had then. -/
def Verified (F : Foreign) (past : History) (sid : String) (n : UInt64)
    (env : SecureEnvelope) : Prop :=
  ∃ e ∈ past, ∃ view, e.input = .call (.receive env view) ∧ Belongs F e.before.manager sid n env

/-- A call that accepts the next message of a session, or observes it. -/
inductive Draws (F : Foreign) (sid : String) (view : ContractView) (x : Endpoint) : Input → Prop
  | receive {env : SecureEnvelope} : NextUp F x sid env → Draws F sid view x (.call (.receive env view))
  | observe : Draws F sid view x (.call (.observe sid view))

theorem Verified.mono {past : History} (rest : History) {n : UInt64}
    (h : Verified F past sid n env) : Verified F (past ++ rest) sid n env := by
  obtain ⟨e, he, hverified⟩ := h
  exact ⟨e, List.mem_append_left rest he, hverified⟩

theorem Holds.mono {Q : String → UInt64 → SecureEnvelope → Prop} (h : Holds P x)
    (hPQ : ∀ sid n env, P sid n env → Q sid n env) : Holds Q x :=
  fun sid n env henv => hPQ sid n env (h sid n env henv)

theorem Holds.step {past : History} (h : Holds (Verified F past) x) (ht : Tidy x) (i : Input) :
    Holds (Verified F (past ++ [(machine F).event x i])) ((machine F).step x i).1 := by
  have hbefore : Holds (Verified F (past ++ [(machine F).event x i])) x :=
    h.mono fun _ _ _ hv => hv.mono _
  cases i with
  | establish s => exact hbefore
  | evict sid => exact hbefore
  | call c =>
    cases c with
    | seal_ sid contract payload view => exact seal_holds sid contract payload view hbefore
    | receive env view =>
      refine (receive_settles ht view hbefore fun sid seq hb => ?_).1
      exact ⟨_, List.mem_append_right past (List.mem_singleton_self _), view, rfl, hb⟩
    | observe sid view => exact (observe_settles ht sid view hbefore).1
    | close sid => exact hbefore.of_gone (Frame.close sid x) (gone_close sid x).window

section Runs
variable (F) (local_ : String) (identity : Vector UInt8 32) (inputs : List Input)

theorem run_holds : Holds (Verified F (runHistory F local_ identity inputs))
    (reached F local_ identity inputs) := by
  refine Machine.history_invariant (M := machine F) (s := new local_ identity)
    (I := fun past x => Holds (Verified F past) x) ?_ ?_ inputs
  · intro sid n env henv
    rw [windowOf_none ExtTreeMap.getElem?_empty] at henv
    simp [Window.empty] at henv
  · exact fun is i ih => ih.step (tidy_reached F local_ identity is) i

/-- In every run, whatever is called with whatever envelopes: a window holds at most 64 envelopes,
each under its own number and with a verified signature; nothing below the delivery position is
held, which is at most one above the accepted mark, and from it up to the mark everything is; the
number right above the mark is not. A call that accepts the next message or observes the session
either aborts or lists the numbers from the old delivery position to the new one, which is above the
mark or at an envelope whose binding is pending under the view just given. -/
theorem windows_sound_progress :
    (∀ sid, let w := (reached F local_ identity inputs).windowOf sid
      w.Sound (Verified F (runHistory F local_ identity inputs) sid) ∧ w.Settled ∧
        (w.high = none → w.deliveryNext = 0)) ∧
    ∀ e ∈ runHistory F local_ identity inputs, ∀ sid view report, Draws F sid view e.before e.input →
      e.output = .reported report → report.aborted = none →
        let w := e.after.windowOf sid
        (w.deliveryNext = w.next ∨ ∃ env, w.held[w.deliveryNext]? = some env ∧
          view.check F env.contract = .error .contractPending) ∧
        (∀ d ∈ report.delivered, d.sid = sid) ∧
        report.delivered.map (fun d => d.seq.toNat) =
          List.Ico (e.before.windowOf sid).deliveryNext.toNat w.deliveryNext.toNat := by
  have htidy := tidy_reached F local_ identity
  refine ⟨fun sid => ?_, fun e he sid view report hdraws hreport hkept => ?_⟩
  · obtain ⟨hsound, hsettled⟩ := htidy inputs sid
    refine ⟨{ hsound with own := run_holds F local_ identity inputs sid }, hsettled, fun hnone => ?_⟩
    have hposition := hsound.position
    rw [Window.next, hnone] at hposition
    exact UInt64.le_antisymm hposition UInt64.zero_le
  · obtain ⟨pre, i, post, -, rfl⟩ := (machine F).mem_history he
    have hbefore := htidy pre
    have hafter : Tidy ((machine F).event (reached F local_ identity pre) i).after :=
      tidy_step hbefore i
    have hdrawn : Drawn F sid view ((reached F local_ identity pre).windowOf sid)
        (((machine F).event (reached F local_ identity pre) i).after.windowOf sid) report := by
      have hall : Holds (fun _ _ _ => True) (reached F local_ identity pre) := fun _ _ _ _ => trivial
      cases hdraws with
      | receive hnext =>
        cases hreport
        exact (receive_settles hbefore view hall fun _ _ _ => trivial).2 sid hnext hkept
      | observe =>
        cases hreport
        exact (observe_settles hbefore sid view hall).2 hkept
    refine ⟨hdrawn.stalled.imp_left fun hle => ?_, hdrawn.own, hdrawn.listed⟩
    exact UInt64.le_antisymm (hafter sid).1.position (UInt64.not_lt.mp hle)

/-- Message 0 comes while message 1 is held: both are listed, and nothing is left. -/
theorem windows_sound_progress_drained :
    let e := (machine Burst.foreign).event
      (reached Burst.foreign "urn:hacp:agent:a" (.replicate 32 1) (Burst.drained.take 2))
      (.call (.receive (Burst.message 0) .bootstrap))
    let w := e.after.windowOf Burst.sid
    (e.before.windowOf Burst.sid).held.size = 1 ∧
    e.output.delivered.map Delivery.seq = [0, 1] ∧
    (w.deliveryNext = w.next ∨ ∃ env, w.held[w.deliveryNext]? = some env ∧
      ContractView.bootstrap.check Burst.foreign env.contract = .error .contractPending) ∧
    e.output.delivered.map (fun d => d.seq.toNat) =
      List.Ico (e.before.windowOf Burst.sid).deliveryNext.toNat w.deliveryNext.toNat := by
  intro e w
  have hnext : NextUp Burst.foreign e.before Burst.sid (Burst.message 0) :=
    ⟨⟨rfl, by decide +kernel, by decide +kernel⟩, [], by decide +kernel⟩
  have hmem : e ∈ runHistory Burst.foreign "urn:hacp:agent:a" (.replicate 32 1) Burst.drained :=
    .tail _ (.tail _ (.head _))
  have hreported (x : Endpoint) (env : SecureEnvelope) (view : ContractView) : ∃ report,
      ((machine Burst.foreign).event x (.call (.receive env view))).output = .reported report :=
    ⟨_, rfl⟩
  obtain ⟨report, hreport⟩ : ∃ report, e.output = .reported report := hreported _ _ _
  have hkept : e.output.report.map ReceiveReport.aborted = some none := by decide +kernel
  rw [hreport] at hkept
  obtain ⟨hstalled, -, hlisted⟩ := (windows_sound_progress Burst.foreign "urn:hacp:agent:a"
    (.replicate 32 1) Burst.drained).2 e hmem Burst.sid .bootstrap report (.receive hnext) hreport
    (Option.some.inj hkept)
  refine ⟨by decide +kernel, by decide +kernel, hstalled, ?_⟩
  rw [hreport]
  exact hlisted

end Runs
end Endpoint
end Hacp.Secure
