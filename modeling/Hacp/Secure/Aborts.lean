import Hacp.Secure.InOrder

/-!
# Aborts

Whatever was established, evicted or called before: a call that reports an abort leaves
neither a window nor a session behind, its report is empty, and nothing more is
delivered or sealed for that identifier until it is established anew.
-/
namespace Hacp.Secure
open Lib Std SessionManager Window

def Call.sid : Call → Option String
  | .seal_ sid _ _ _ | .observe sid _ | .close sid => some sid
  | .receive env _ => env.sid

/-- A report with an abort, or a failure to seal for a rejected contract binding or for want of
sequence numbers. -/
inductive Reply.Aborts : Reply → Prop
  | report {report : ReceiveReport} : report.aborted ≠ none → Aborts (.reported report)
  | binding {sealing : Sealing} : sealing.result = .error .contractMismatch →
      Aborts (.sealed sealing)
  | exhausted {sealing : Sealing} : sealing.result = .error .sessionExhausted →
      Aborts (.sealed sealing)

theorem Reply.Aborts.of_report {report : ReceiveReport} (h : Aborts (.reported report)) :
    report.aborted ≠ none := by
  cases h with
  | report hab => exact hab

theorem Reply.Aborts.of_sealed {sealing : Sealing} (h : Aborts (.sealed sealing)) :
    ∃ e, sealing.result = .error e ∧ (e = .contractMismatch ∨ e = .sessionExhausted) := by
  cases h with
  | binding he => exact ⟨_, he, .inl rfl⟩
  | exhausted he => exact ⟨_, he, .inr rfl⟩

def Reply.held : Reply → List Held
  | .reported report => report.held
  | _ => []

def Reply.envelope : Reply → Option SecureEnvelope
  | .sealed sealing => sealing.result.toOption
  | _ => none

namespace Endpoint
variable {F : Foreign} {x y : Endpoint} {sid k : String} {w : Window} {view : ContractView}

/-! ## The two send counters -/

/-- A session that has sent something and its window have the same number to send. A session that
has sent nothing may have the window of an earlier session of its identifier. -/
def Counted (x : Endpoint) : Prop :=
  ∀ (sid : String) s, x.manager.active[sid]? = some s → s.info.sendSeq ≠ 0 →
    (x.windowOf sid).sendSeq = s.info.sendSeq

/-- A change to one session is judged by its own counters. -/
theorem Counted.of_frame (h : Counted x) (hf : Frame k x y)
    (hk : ∀ s, y.manager.active[k]? = some s → s.info.sendSeq ≠ 0 →
      (y.windowOf k).sendSeq = s.info.sendSeq) : Counted y := by
  intro sid s hs hne
  by_cases hsid : sid = k
  · subst hsid
    exact hk s hs hne
  · have hwindow : y.windowOf sid = x.windowOf sid := by
      rw [windowOf, hf.window sid hsid, windowOf]
    rw [hwindow]
    exact h sid s ((hf.active sid hsid).symm.trans hs) hne

theorem Counted.of_gone (h : Counted x) (hf : Frame k x y) (hk : y.manager.active[k]? = none) :
    Counted y := by
  refine h.of_frame hf fun s hs => ?_
  rw [hk] at hs
  cases hs

theorem Counted.retain (h : Counted x) : Counted x.retain := by
  intro sid s hs hne
  have hactive : x.manager.active[sid]? = some s := hs
  rw [windowOf_retain hactive]
  exact h sid s hactive hne

theorem Counted.of_alike (h : Counted x) (hf : Frame k x y) (halike : Alike k x.manager y.manager)
    (hseq : (y.windowOf k).sendSeq = (x.windowOf k).sendSeq) : Counted y := by
  refine h.of_frame hf fun t ht hne => ?_
  obtain ⟨s, hs, hsend⟩ := halike.symm.get ht
  rw [hseq, ← hsend]
  exact h k s hs (hsend ▸ hne)

theorem drain_sendSeq (hx : x.window sid = some w) (hw : w.Sound (Addressed sid))
    (hab : (x.drain F sid view .empty).2.aborted = none) :
    ((x.drain F sid view .empty).1.windowOf sid).sendSeq = w.sendSeq := by
  have hdrained := drain_drained (F := F) (fun _ _ ha => ha) view .empty (.start hx hw)
  generalize x.drain F sid view .empty = result at hdrained hab ⊢
  cases hdrained with
  | aborted haborted _ => exact absurd hab haborted.aborted
  | kept w' ds hy =>
    rw [windowOf_eq hy.window]
    exact hy.drains.sendSeq

theorem admission_sendSeq (hx : x.window sid = some w) (hw : w.Sound (Addressed sid)) {seq : UInt64}
    {env : SecureEnvelope} (ha : Addressed sid seq env)
    (hab : (x.admission F sid seq w env view).2.aborted = none) :
    ((x.admission F sid seq w env view).1.windowOf sid).sendSeq = w.sendSeq := by
  have hstep : AdmissionStep F sid seq w env view x (x.admission F sid seq w env view) :=
    admission_step hw.high_ne_max ha
  generalize x.admission F sid seq w env view = result at hstep hab ⊢
  cases hstep with
  | rejected e => rw [windowOf_eq hx]
  | aborted haborted => exact absurd hab haborted.aborted
  | held => rw [windowOf_putWindow]
  | drained s hnext hmax hsize hs =>
    subst hnext
    refine (drain_sendSeq ?_ (hw.hold_next hmax hsize ha) hab).trans rfl
    rw [accept, window_putWindow, if_pos rfl]

/-- A receiving call keeps both counters of its session, or aborts. -/
theorem Counted.admitted (h : Counted x) {result : Endpoint × ReceiveReport}
    (hresult : Admitted sid x result)
    (hseq : result.2.aborted = none → (result.1.windowOf sid).sendSeq = (x.windowOf sid).sendSeq) :
    Counted result.1 := by
  cases hresult with
  | ended hab => exact h.of_gone hab.frame hab.gone.session
  | kept hframe halike _ hnone => exact h.of_alike hframe halike (hseq hnone)

theorem Counted.receive (h : Counted x) (htidy : Tidy x) (env : SecureEnvelope)
    (view : ContractView) : Counted (x.receive F env view).1 := by
  by_cases hv : x.manager.verifyMessage F env = .ok ()
  · obtain ⟨sid, seq, s, hb, -⟩ := belongs_of_verified hv
    refine h.retain.admitted (htidy.receive hb.sid view) fun hab => ?_
    rw [receive_verified hb view] at hab ⊢
    refine admission_sendSeq ?_ (htidy.retain sid).1 hb.addressed hab
    rw [window_putWindow, if_pos rfl]
  · obtain ⟨e, he⟩ := receive_refused hv view
    rw [he]
    exact h.retain

theorem Counted.observe (h : Counted x) (htidy : Tidy x) (sid : String) (view : ContractView) :
    Counted (x.observe F sid view).1 := by
  cases hs : x.manager.active[sid]? with
  | none =>
    rw [observe_unknown hs]
    exact h.of_gone (Frame.dropWindow sid x) hs
  | some s =>
    refine h.admitted (htidy.observe hs view) fun hab => ?_
    have hobserve : x.observe F sid view = x.drain F sid view .empty := by
      simp only [Endpoint.observe, SessionManager.info, hs]
    rw [hobserve] at hab ⊢
    cases hw : x.window sid with
    | none => rw [drain_no_window hw]
    | some w =>
      rw [drain_sendSeq hw (windowOf_eq hw ▸ (htidy sid).1) hab, windowOf_eq hw]

/-- What the manager does when it seals under a number that the window does not exhaust. -/
theorem Counted.seal_ (h : Counted x) (sid contract : String) (payload : Bytes)
    (view : ContractView) : Counted (x.seal_ F sid contract payload view).1 := by
  have hcall := seal_call (F := F) x sid contract payload view
  have hstep := seal_step (F := F) x.manager sid (x.windowOf sid).sendSeq contract payload
  have hput := Frame.putWindow sid x.retain (x.windowOf sid)
  generalize x.seal_ F sid contract payload view = result at hcall ⊢
  cases hcall with
  | unknown => exact h.retain
  | ended e _ hframe hgone => exact h.retain.of_gone hframe hgone.session
  | failed hs hmax hseal =>
    rw [hseal] at hstep
    have hsame : Counted (x.retain.putWindow sid (x.windowOf sid)) :=
      h.retain.of_alike hput (Alike.refl sid _)
        ((congrArg sendSeq (windowOf_putWindow _)).trans
          (congrArg sendSeq (windowOf_retain hs)).symm)
    cases hstep with
    | unknown => exact hsame
    | outOfStep => exact hsame
    | refused => exact hsame
    | exhausted =>
      exact hsame.of_gone (Frame.remove sid _) ((active_remove sid).trans (if_pos rfl))
    | failed =>
      exact hsame.of_gone ((Frame.put sid _ _).trans (Frame.remove sid _))
        ((active_remove sid).trans (if_pos rfl))
  | @sealed s m spent env hs hmax hseal =>
    rw [hseal] at hstep
    cases hstep with
    | sealed hs' hlt heq =>
      refine h.retain.of_frame (hput.trans ((Frame.put sid _ _).trans (Frame.putWindow sid _ _))) ?_
      intro t ht _
      obtain rfl := Option.some.inj (((active_put sid).trans (if_pos rfl)).symm.trans ht)
      rw [windowOf_putWindow]
      exact congrArg (· + 1) heq

/-! ## The call that aborts -/

theorem Counted.call (h : Counted x) (htidy : Tidy x) (c : Call) : Counted (x.call F c).1 := by
  cases c with
  | seal_ sid contract payload view => exact h.seal_ sid contract payload view
  | receive env view => exact h.receive htidy env view
  | observe sid view => exact h.observe htidy sid view
  | close sid => exact h.of_gone (Frame.close sid x) (gone_close sid x).session

theorem Counted.unexhausted (h : Counted x) {contract : String} {payload : Bytes} {e : SecureError}
    (hmax : (x.windowOf sid).sendSeq ≠ u64Max)
    (hfail : (x.manager.seal_ F sid (x.windowOf sid).sendSeq contract payload).2.result = .error e) :
    e ≠ .contractMismatch ∧ e ≠ .sessionExhausted := by
  rw [← not_or]
  intro he
  obtain ⟨s, hs, hlast | hlast⟩ := seal_exhausted hfail he
  · exact hmax hlast
  · have hne : s.info.sendSeq ≠ 0 := by
      rw [hlast]
      decide
    exact hmax ((h sid s hs hne).trans hlast)

/-- An abort leaves neither window nor session behind, and its reply carries nothing. -/
theorem call_aborts (h : Counted x) (htidy : Tidy x) {c : Call} (hab : (x.call F c).2.Aborts) :
    ∃ sid, c.sid = some sid ∧ Gone sid (x.call F c).1 ∧ (x.call F c).2.delivered = [] ∧
      (x.call F c).2.held = [] ∧ (x.call F c).2.envelope = none := by
  have hreported {sid : String} {y : Endpoint} {result : Endpoint × ReceiveReport}
      (hadm : Admitted sid y result) (haborted : result.2.aborted ≠ none) :
      Gone sid result.1 ∧ result.2.delivered = [] ∧ result.2.held = [] := by
    cases hadm with
    | ended hended => exact ⟨hended.gone, hended.delivered, hended.held⟩
    | kept _ _ _ hnone => exact absurd hnone haborted
  cases c with
  | close sid => cases hab
  | observe sid view =>
    have hnone : (x.observe F sid view).2.aborted ≠ none := hab.of_report
    cases hs : x.manager.active[sid]? with
    | none =>
      rw [observe_unknown hs] at hnone
      exact absurd rfl hnone
    | some s =>
      obtain ⟨hgone, hdelivered, hheld⟩ := hreported (htidy.observe hs view) hnone
      exact ⟨sid, rfl, hgone, hdelivered, hheld, rfl⟩
  | receive env view =>
    have hnone : (x.receive F env view).2.aborted ≠ none := hab.of_report
    by_cases hv : x.manager.verifyMessage F env = .ok ()
    · obtain ⟨sid, seq, s, hb, -⟩ := belongs_of_verified hv
      obtain ⟨hgone, hdelivered, hheld⟩ := hreported (htidy.receive hb.sid view) hnone
      exact ⟨sid, hb.sid, hgone, hdelivered, hheld, rfl⟩
    · obtain ⟨e, he⟩ := receive_refused hv view
      rw [he] at hnone
      exact absurd rfl hnone
  | seal_ sid contract payload view =>
    obtain ⟨e, hfail, he⟩ : ∃ e, (x.seal_ F sid contract payload view).2.result = .error e ∧
        (e = .contractMismatch ∨ e = .sessionExhausted) := hab.of_sealed
    have hcall := seal_call (F := F) x sid contract payload view
    refine ⟨sid, rfl, ?_, rfl, rfl, ?_⟩
    · simp only [Endpoint.call]
      generalize x.seal_ F sid contract payload view = result at hfail hcall ⊢
      cases hcall with
      | unknown =>
        obtain rfl := Except.error.inj hfail
        simp at he
      | ended _ _ _ hgone => exact hgone
      | @failed s m spent e' hs hmax hseal =>
        obtain rfl := Except.error.inj hfail
        have hne := h.unexhausted hmax (congrArg (fun r => r.2.result) hseal)
        exact (he.elim hne.1 hne.2).elim
      | sealed => cases hfail
    · simp only [Endpoint.call, Reply.envelope, hfail, Except.toOption]

/-! ## After the abort -/

/-- The reply has nothing of a session: no delivery, no ciphertext, no envelope. -/
structure Unheard (sid : String) (r : Reply) : Prop where
  delivered : ∀ d ∈ r.delivered, d.sid ≠ sid
  encrypted : ∀ enc ∈ r.encrypted, enc.sid ≠ sid
  envelope : ∀ env ∈ r.envelope, env.sid ≠ some sid

/-- Nothing of `sid` in a reply that is all about `k`. -/
theorem Unheard.of_other {r : Reply} (hk : sid ≠ k) (hdelivered : ∀ d ∈ r.delivered, d.sid = k)
    (hencrypted : ∀ enc ∈ r.encrypted, enc.sid = k) (henvelope : ∀ env ∈ r.envelope, env.sid = some k) :
    Unheard sid r where
  delivered d hd heq := hk (heq.symm.trans (hdelivered d hd))
  encrypted enc henc heq := hk (heq.symm.trans (hencrypted enc henc))
  envelope env henv heq := hk (Option.some.inj (heq.symm.trans (henvelope env henv)))

theorem Gone.of_frame (h : Gone sid x) (hf : Frame k x y) (hk : sid ≠ k) : Gone sid y :=
  ⟨(hf.window sid hk).trans h.window, (hf.active sid hk).trans h.session⟩

theorem Gone.retain (h : Gone sid x) : Gone sid x.retain := by
  refine ⟨?_, h.session⟩
  rw [window_retain, h.session]
  rfl

theorem seal_own (x : Endpoint) (k contract : String) (payload : Bytes) (view : ContractView) :
    Frame k x.retain (x.seal_ F k contract payload view).1 ∧
      (∀ enc ∈ (x.seal_ F k contract payload view).2.encrypted, enc.sid = k) ∧
      ∀ env, (x.seal_ F k contract payload view).2.result = .ok env → env.sid = some k := by
  have hcall := seal_call (F := F) x k contract payload view
  have hstep := seal_step (F := F) x.manager k (x.windowOf k).sendSeq contract payload
  have hput := Frame.putWindow k x.retain (x.windowOf k)
  generalize x.seal_ F k contract payload view = result at hcall ⊢
  cases hcall with
  | unknown => exact ⟨Frame.refl k _, by simp, by simp⟩
  | ended e _ hframe => exact ⟨hframe, by simp, by simp⟩
  | failed hs hmax hseal =>
    rw [hseal] at hstep
    refine ⟨hput.trans ?_, ?_, by simp⟩
    · cases hstep with
      | unknown => exact Frame.refl k _
      | outOfStep => exact Frame.refl k _
      | refused => exact Frame.refl k _
      | exhausted => exact Frame.remove k _
      | failed => exact (Frame.put k _ _).trans (Frame.remove k _)
    · cases hstep <;> simp
  | sealed hs hmax hseal =>
    rw [hseal] at hstep
    cases hstep with
    | sealed hs' hlt heq haad hct hfinish =>
      refine ⟨hput.trans ((Frame.put k _ _).trans (Frame.putWindow k _ _)), by simp, ?_⟩
      rintro env ⟨⟩
      obtain ⟨input, -, hfinish⟩ := bind_eq_ok.mp hfinish
      obtain ⟨-, -, henv⟩ := bind_eq_ok.mp hfinish
      rw [← Except.ok.inj henv]
      rfl

/-- A session that is gone stays gone under a call, and the call has nothing of it. -/
theorem Gone.call (h : Gone sid x) (htidy : Tidy x) (c : Call) :
    Gone sid (x.call F c).1 ∧ Unheard sid (x.call F c).2 := by
  have hadmitted {k : String} {y : Endpoint} {result : Endpoint × ReceiveReport} (hk : sid ≠ k)
      (hy : Gone sid y) (hadm : Admitted k y result) :
      Gone sid result.1 ∧ Unheard sid (.reported result.2) := by
    cases hadm with
    | ended hab =>
      refine ⟨hy.of_frame hab.frame hk, .of_other hk (fun d hd => ?_) ?_ ?_⟩
      · simp [Reply.delivered, hab.delivered] at hd
      · simp [Reply.encrypted]
      · simp [Reply.envelope]
    | kept hframe _ _ _ hsid =>
      exact ⟨hy.of_frame hframe hk, .of_other hk hsid (by simp [Reply.encrypted])
        (by simp [Reply.envelope])⟩
  have hrejected (e : SecureError) : Unheard sid (.reported (ReceiveReport.empty.reject e)) :=
    ⟨fun d hd => absurd hd List.not_mem_nil, by simp [Reply.encrypted], by simp [Reply.envelope]⟩
  cases c with
  | seal_ k contract payload view =>
    by_cases hk : sid = k
    · subst hk
      simp only [Endpoint.call, seal_unknown h.session]
      exact ⟨h.retain, ⟨fun d hd => absurd hd List.not_mem_nil, by simp [Reply.encrypted],
        by simp [Reply.envelope, Except.toOption]⟩⟩
    · obtain ⟨hframe, hencrypted, henvelope⟩ := seal_own (F := F) x k contract payload view
      refine ⟨h.retain.of_frame hframe hk, .of_other hk (fun d hd => absurd hd List.not_mem_nil)
        hencrypted fun env henv => henvelope env ?_⟩
      simp only [Endpoint.call, Reply.envelope, Option.mem_def] at henv
      generalize (x.seal_ F k contract payload view).2.result = result at henv ⊢
      cases result with
      | error e => cases henv
      | ok env' => rw [Option.some.inj henv]
  | receive env view =>
    by_cases hv : x.manager.verifyMessage F env = .ok ()
    · obtain ⟨k, seq, s, hb, hs⟩ := belongs_of_verified hv
      have hk : sid ≠ k := by
        rintro rfl
        rw [h.session] at hs
        cases hs
      exact hadmitted hk h.retain (htidy.receive hb.sid view)
    · obtain ⟨e, he⟩ := receive_refused hv view
      simp only [Endpoint.call, he]
      exact ⟨h.retain, hrejected e⟩
  | observe k view =>
    cases hs : x.manager.active[k]? with
    | none =>
      simp only [Endpoint.call, observe_unknown hs]
      refine ⟨⟨?_, h.session⟩, hrejected _⟩
      rw [window_dropWindow]
      split_ifs
      · rfl
      · exact h.window
    | some s =>
      have hk : sid ≠ k := by
        rintro rfl
        rw [h.session] at hs
        cases hs
      exact hadmitted hk h (htidy.observe hs view)
  | close k =>
    refine ⟨?_, ⟨fun d hd => absurd hd List.not_mem_nil, by simp [Reply.encrypted, Endpoint.call],
      by simp [Reply.envelope, Endpoint.call]⟩⟩
    by_cases hk : sid = k
    · subst hk
      exact gone_close sid x
    · exact h.of_frame (Frame.close k x) hk

/-- Only establishing it brings a session back. -/
theorem Gone.step (h : Gone sid x) (htidy : Tidy x) {i : Input} (hi : i.established ≠ some sid) :
    Gone sid (x.step F i).1 ∧ Unheard sid (x.step F i).2 := by
  have hsilent : Unheard sid .silent :=
    ⟨fun d hd => absurd hd List.not_mem_nil, by simp [Reply.encrypted], by simp [Reply.envelope]⟩
  cases i with
  | call c => exact h.call htidy c
  | establish s =>
    have hk : sid ≠ s.info.sid := fun heq => hi (heq ▸ rfl)
    exact ⟨h.of_frame (Frame.put s.info.sid x _) hk, hsilent⟩
  | evict k =>
    refine ⟨⟨h.window, ?_⟩, hsilent⟩
    change (x.manager.remove k).active[sid]? = none
    rw [active_remove]
    split_ifs
    · rfl
    · exact h.session

theorem Gone.run (h : Gone sid x) (htidy : Tidy x) {inputs : List Input}
    (hinputs : ∀ i ∈ inputs, i.established ≠ some sid) :
    ∀ e ∈ (machine F).history x inputs, Gone sid e.after ∧ Unheard sid e.output := by
  induction inputs generalizing x with
  | nil => simp
  | cons i inputs ih =>
    have hstep := h.step (F := F) htidy (hinputs i List.mem_cons_self)
    intro e he
    rcases List.mem_cons.mp he with rfl | he
    · exact hstep
    · exact ih hstep.1 (tidy_step htidy i) (fun j hj => hinputs j (List.mem_cons_of_mem i hj)) e he

/-! ## Runs -/

theorem Counted.step (h : Counted x) (htidy : Tidy x) (i : Input) : Counted (x.step F i).1 := by
  cases i with
  | call c => exact h.call htidy c
  | establish s =>
    refine h.of_frame (Frame.put s.info.sid x _) fun t ht hne => ?_
    obtain rfl := Option.some.inj (((active_put _).trans (if_pos rfl)).symm.trans ht)
    exact absurd rfl hne
  | evict k => exact h.of_gone (Frame.remove k x) ((active_remove k).trans (if_pos rfl))

theorem counted_new (local_ : String) (identity : Vector UInt8 32) : Counted (new local_ identity) := by
  intro sid s hs
  have hnone : (new local_ identity).manager.active[sid]? = none := ExtTreeMap.getElem?_empty
  rw [hnone] at hs
  cases hs

theorem counted_reached (F : Foreign) (local_ : String) (identity : Vector UInt8 32)
    (inputs : List Input) : Counted (reached F local_ identity inputs) := by
  have hrun : Counted (reached F local_ identity inputs) ∧ Tidy (reached F local_ identity inputs) :=
    Machine.exec_invariant (P := fun x => Counted x ∧ Tidy x)
      (fun _ i h => ⟨h.1.step h.2 i, tidy_step h.2 i⟩)
      ⟨counted_new local_ identity, tidy_reached F local_ identity []⟩ inputs
  exact hrun.1

/-- A call that reports an abort ends its session for good: the reply delivers, holds and seals
nothing, neither a window nor a session is left, and this stays so in every continuation that does
not establish the identifier anew, in which nothing of it is delivered, encrypted or sealed. -/
theorem abort_total (F : Foreign) (local_ : String) (identity : Vector UInt8 32)
    (inputs : List Input) (c : Call)
    (hab : ((reached F local_ identity inputs).call F c).2.Aborts) :
    ∃ sid, c.sid = some sid ∧
      ((reached F local_ identity inputs).call F c).2.delivered = [] ∧
      ((reached F local_ identity inputs).call F c).2.held = [] ∧
      ((reached F local_ identity inputs).call F c).2.envelope = none ∧
      ((reached F local_ identity inputs).call F c).1.window sid = none ∧
      ((reached F local_ identity inputs).call F c).1.manager.active[sid]? = none ∧
      ∀ continuation : List Input, (∀ i ∈ continuation, i.established ≠ some sid) →
        ∀ e ∈ (machine F).history ((reached F local_ identity inputs).call F c).1 continuation,
          (∀ d ∈ e.output.delivered, d.sid ≠ sid) ∧ (∀ enc ∈ e.output.encrypted, enc.sid ≠ sid) ∧
          (∀ env ∈ e.output.envelope, env.sid ≠ some sid) ∧
          e.after.window sid = none ∧ e.after.manager.active[sid]? = none := by
  have hcounted := counted_reached F local_ identity inputs
  have htidy := tidy_reached F local_ identity inputs
  obtain ⟨sid, hsid, hgone, hdelivered, hheld, henvelope⟩ := call_aborts hcounted htidy hab
  refine ⟨sid, hsid, hdelivered, hheld, henvelope, hgone.window, hgone.session, ?_⟩
  intro continuation hcontinuation e he
  obtain ⟨hafter, hunheard⟩ := hgone.run (htidy.call c) hcontinuation e he
  exact ⟨hunheard.delivered, hunheard.encrypted, hunheard.envelope, hafter.window, hafter.session⟩

/-- The message in front of 64 held ones ends the session, and they are never delivered. -/
theorem abort_total_burst :
    ((Burst.after 64).call Burst.foreign (.receive (Burst.message 0) .bootstrap)).2.Aborts ∧
    ∀ e ∈ (machine Burst.foreign).history
        ((Burst.after 64).call Burst.foreign (.receive (Burst.message 0) .bootstrap)).1
        [.call (.receive (Burst.message 1) .bootstrap), .call (.observe Burst.sid .bootstrap)],
      ∀ d ∈ e.output.delivered, d.sid ≠ Burst.sid := by
  have hburst (turns : ℕ) (hle : turns ≤ 64) (hge : 64 ≤ turns) :
      ((Burst.after turns).call Burst.foreign (.receive (Burst.message 0) .bootstrap)).2.Aborts ∧
      ∀ e ∈ (machine Burst.foreign).history
          ((Burst.after turns).call Burst.foreign (.receive (Burst.message 0) .bootstrap)).1
          [.call (.receive (Burst.message 1) .bootstrap), .call (.observe Burst.sid .bootstrap)],
        ∀ d ∈ e.output.delivered, d.sid ≠ Burst.sid := by
    have hfull : 64 ≤ ((Burst.after turns).windowOf Burst.sid).held.size :=
      hge.trans_eq (Burst.filled_after hle).size.symm
    have htidy : Tidy (Burst.after turns) := tidy_reached _ _ _ _
    have hover := (Burst.inOrder hle).overflow htidy hfull
    have hab : ((Burst.after turns).call Burst.foreign
        (.receive (Burst.message 0) .bootstrap)).2.Aborts := by
      rw [call]
      exact .report hover
    obtain ⟨sid, hsid, -, -, -, -, -, hrest⟩ := abort_total Burst.foreign "urn:hacp:agent:a"
      (.replicate 32 1) (Burst.inputs turns) (.receive (Burst.message 0) .bootstrap) hab
    obtain rfl : Burst.sid = sid := Option.some.inj hsid
    exact ⟨hab, fun e he => (hrest _ (by simp [Input.established]) e he).1⟩
  exact hburst 64 (Nat.le_refl 64) (Nat.le_refl 64)

end Endpoint
end Hacp.Secure
