import Hacp.Secure.Window

/-!
# What draining a window does

Draining either aborts, and then the session is gone and the report is empty, or it
delivers the envelopes at consecutive positions, each checked against the present view
and opened once more. The rest of the endpoint is as it was.
-/
namespace Hacp.Secure
open Lib Std SessionManager Window

namespace Endpoint
variable {x y z : Endpoint} {sid : String}

@[simp] theorem window_putWindow (w : Window) (k : String) :
    (x.putWindow sid w).window k = if k = sid then some w else x.window k :=
  lookup_insert x.transport.windows sid k w

@[simp] theorem window_dropWindow (k : String) :
    (x.dropWindow sid).window k = if k = sid then none else x.window k :=
  lookup_erase x.transport.windows sid k

@[simp] theorem window_manager (m : SessionManager) (k : String) :
    ({ x with manager := m } : Endpoint).window k = x.window k := rfl

@[simp] theorem manager_putWindow (w : Window) : (x.putWindow sid w).manager = x.manager := rfl

/-- Everything that belongs to other sessions is as it was. -/
structure Frame (sid : String) (x y : Endpoint) : Prop where
  local_ : y.manager.local_ = x.manager.local_
  identity : y.manager.identity = x.manager.identity
  active : ∀ k : String, k ≠ sid → y.manager.active[k]? = x.manager.active[k]?
  window : ∀ k : String, k ≠ sid → y.window k = x.window k

namespace Frame

theorem refl (sid : String) (x : Endpoint) : Frame sid x x := ⟨rfl, rfl, fun _ _ => rfl, fun _ _ => rfl⟩

theorem trans (h : Frame sid x y) (h' : Frame sid y z) : Frame sid x z where
  local_ := h'.local_.trans h.local_
  identity := h'.identity.trans h.identity
  active k hk := (h'.active k hk).trans (h.active k hk)
  window k hk := (h'.window k hk).trans (h.window k hk)

theorem putWindow (sid : String) (x : Endpoint) (w : Window) : Frame sid x (x.putWindow sid w) where
  local_ := rfl
  identity := rfl
  active _ _ := rfl
  window k hk := by rw [window_putWindow, if_neg hk]

theorem dropWindow (sid : String) (x : Endpoint) : Frame sid x (x.dropWindow sid) where
  local_ := rfl
  identity := rfl
  active _ _ := rfl
  window k hk := by rw [window_dropWindow, if_neg hk]

theorem put (sid : String) (x : Endpoint) (s : Session) :
    Frame sid x { x with manager := x.manager.put sid s } where
  local_ := rfl
  identity := rfl
  active k hk := by rw [active_put, if_neg hk]
  window _ _ := rfl

theorem remove (sid : String) (x : Endpoint) :
    Frame sid x { x with manager := x.manager.remove sid } where
  local_ := rfl
  identity := rfl
  active k hk := by rw [active_remove, if_neg hk]
  window _ _ := rfl

theorem close (sid : String) (x : Endpoint) : Frame sid x (x.close sid).1 := by
  have hdrop := dropWindow sid x
  unfold Endpoint.close SessionManager.close
  cases x.manager.active[sid]? with
  | none => exact hdrop
  | some s => exact hdrop.trans (remove sid (x.dropWindow sid))

end Frame

/-- The session is gone from the transport and from the manager. -/
structure Gone (sid : String) (x : Endpoint) : Prop where
  window : x.window sid = none
  session : x.manager.active[sid]? = none

theorem gone_close (sid : String) (x : Endpoint) : Gone sid (x.close sid).1 := by
  refine ⟨?_, close_fst⟩
  change (x.dropWindow sid).window sid = none
  rw [window_dropWindow, if_pos rfl]

structure Aborted (sid : String) (x y : Endpoint) (report : ReceiveReport) : Prop where
  frame : Frame sid x y
  gone : Gone sid y
  delivered : report.delivered = []
  held : report.held = []
  aborted : report.aborted ≠ none

theorem aborted_abort (x : Endpoint) (sid : String) (e : SecureError) (report : ReceiveReport) :
    Aborted sid x (x.abort sid e report).1 (x.abort sid e report).2 where
  frame := Frame.close sid x
  gone := gone_close sid x
  delivered := rfl
  held := rfl
  aborted := by simp [abort]

theorem Aborted.of_frame {report : ReceiveReport} (h : Frame sid x y)
    (h' : Aborted sid y z report) : Aborted sid x z report :=
  { h' with frame := h.trans h'.frame }

/-! ## The state between turns -/

/-- An envelope of the session under its own number. -/
structure Addressed (sid : String) (seq : UInt64) (env : SecureEnvelope) : Prop where
  sid : env.sid = some sid
  seq : env.seq = some seq

/-- Opening an envelope of the session changes at most whether it is established. -/
theorem Addressed.openAuthenticated {F : Foreign} {seq : UInt64} {env : SecureEnvelope}
    (h : Addressed sid seq env) (hmax : seq ≠ u64Max) (m : SessionManager) :
    (∃ e, m.openAuthenticated F env = (m, .error e)) ∨
      ∃ s pt, m.active[sid]? = some s ∧ m.openAuthenticated F env = (m.put sid s.opened, .ok pt) := by
  cases hv : m.verifyMessage F env with
  | error e => exact .inl ⟨e, by simp only [SessionManager.openAuthenticated, hv]⟩
  | ok _ =>
    obtain ⟨s, hs, hopen⟩ := openAuthenticated_of_verified hv h.sid h.seq hmax
    cases hct : openCiphertext F s env seq with
    | error e =>
      rw [hct] at hopen
      exact .inl ⟨e, hopen⟩
    | ok pt =>
      rw [hct] at hopen
      exact .inr ⟨s, pt, hs, hopen⟩

/-- An envelope of the session under its own number, with a valid signature. -/
structure Belongs (F : Foreign) (m : SessionManager) (sid : String) (seq : UInt64)
    (env : SecureEnvelope) : Prop where
  sid : env.sid = some sid
  seq : env.seq = some seq
  verified : m.verifyMessage F env = .ok ()

theorem Belongs.addressed {F : Foreign} {m : SessionManager} {seq : UInt64} {env : SecureEnvelope}
    (h : Belongs F m sid seq env) : Addressed sid seq env := ⟨h.sid, h.seq⟩

theorem Belongs.of_sameKeys {F : Foreign} {m n : SessionManager} {seq : UInt64}
    {env : SecureEnvelope} (h : Belongs F m sid seq env) (hmn : SameKeys sid m n) :
    Belongs F n sid seq env :=
  ⟨h.sid, h.seq, (hmn.verifyMessage h.sid).trans h.verified⟩

def Openable (F : Foreign) (m : SessionManager) (env : SecureEnvelope) : Prop :=
  ∃ pt, (m.openAuthenticated F env).2 = .ok pt

def Opens (F : Foreign) (m : SessionManager) (P : UInt64 → SecureEnvelope → Prop) : Prop :=
  ∀ n env, P n env → ∃ pt, (m.openAuthenticated F env).2 = .ok pt

/-- What draining makes of a window: both marks only rise, the higher one over envelopes that
open, and above it only what does not open is lost. -/
structure Drains (F : Foreign) (m : SessionManager) (w w' : Window) : Prop where
  sendSeq : w'.sendSeq = w.sendSeq
  subset : ∀ (n : UInt64) (env : SecureEnvelope), w'.held[n]? = some env → w.held[n]? = some env
  mark : w.next ≤ w'.next
  position : w.deliveryNext ≤ w'.deliveryNext
  opened : ∀ n : UInt64, w.next ≤ n → n < w'.next →
    ∃ env, w.held[n]? = some env ∧ Openable F m env
  kept : ∀ (n : UInt64) (env : SecureEnvelope), w.held[n]? = some env → w'.next ≤ n →
    Openable F m env → w'.held[n]? = some env

namespace Drains
variable {F : Foreign} {m : SessionManager} {w w' w'' : Window} {env : SecureEnvelope}

theorem refl (F : Foreign) (m : SessionManager) (w : Window) : Drains F m w w where
  sendSeq := rfl
  subset _ _ h := h
  mark := UInt64.le_rfl
  position := UInt64.le_rfl
  opened _ hlo hhi := absurd hhi (UInt64.not_lt.mpr hlo)
  kept _ _ h _ _ := h

theorem trans (h : Drains F m w w') (h' : Drains F m w' w'') : Drains F m w w'' where
  sendSeq := h'.sendSeq.trans h.sendSeq
  subset n env hn := h.subset n env (h'.subset n env hn)
  mark := UInt64.le_trans h.mark h'.mark
  position := UInt64.le_trans h.position h'.position
  opened n hlo hhi := by
    by_cases hn : n < w'.next
    · exact h.opened n hlo hn
    · obtain ⟨env, henv, hopen⟩ := h'.opened n (UInt64.not_lt.mp hn) hhi
      exact ⟨env, h.subset n env henv, hopen⟩
  kept n env hn hle hopen :=
    h'.kept n env (h.kept n env hn (UInt64.le_trans h'.mark hle) hopen) hle hopen

/-- The envelope right above the mark opens and raises it. -/
theorem advance (henv : w.held[w.next]? = some env) (hmax : w.next ≠ u64Max)
    (hopen : Openable F m env) : Drains F m w { w with high := some w.next } where
  sendSeq := rfl
  subset _ _ h := h
  mark := UInt64.le_of_lt ((lt_succ_iff hmax).mpr UInt64.le_rfl)
  position := UInt64.le_rfl
  opened n hlo hhi := by
    obtain rfl := UInt64.le_antisymm hlo ((lt_succ_iff hmax).mp hhi)
    exact ⟨env, henv, hopen⟩
  kept _ _ h _ _ := h

/-- The envelope right above the mark does not open and is dropped. -/
theorem drop (henv : w.held[w.next]? = some env) (hclosed : ¬Openable F m env) :
    Drains F m w { w with held := w.held.erase w.next } where
  sendSeq := rfl
  subset n e he := by
    rw [lookup_erase] at he
    split at he
    · cases he
    · exact he
  mark := UInt64.le_rfl
  position := UInt64.le_rfl
  opened _ hlo hhi := absurd hhi (UInt64.not_lt.mpr hlo)
  kept n e he _ hopen := by
    rw [lookup_erase]
    by_cases hn : n = w.next
    · subst hn
      obtain rfl := Option.some.inj (henv.symm.trans he)
      exact absurd hopen hclosed
    · rw [if_neg hn, he]

/-- What is taken out at the delivery position stands below the mark. -/
theorem deliver (hlt : w.deliveryNext < w.next) (hmax : w.deliveryNext ≠ u64Max) :
    Drains F m w { w with
      held := w.held.erase w.deliveryNext
      deliveryNext := w.deliveryNext + 1 } where
  sendSeq := rfl
  subset n e he := by
    rw [lookup_erase] at he
    split at he
    · cases he
    · exact he
  mark := UInt64.le_rfl
  position := UInt64.le_of_lt ((lt_succ_iff hmax).mpr UInt64.le_rfl)
  opened _ hlo hhi := absurd hhi (UInt64.not_lt.mpr hlo)
  kept n e he hle _ := by
    have hn : n ≠ w.deliveryNext := fun hcon =>
      absurd hlt (UInt64.not_lt.mpr (hcon ▸ hle))
    rw [lookup_erase, if_neg hn, he]

/-- Where everything opens, no number is lost. -/
theorem keeps {P : UInt64 → SecureEnvelope → Prop} (h : Drains F m w w') (hw : w.Sound P)
    (hopens : Opens F m P) (n : UInt64) (hn : w.Has n) : w'.Has n := by
  by_cases hlt : n < w'.next
  · exact .inl hlt
  · rcases hn with hn | hn
    · exact absurd (UInt64.lt_of_lt_of_le hn h.mark) hlt
    · obtain ⟨env, henv⟩ := (mem_iff_lookup _ _).mp hn
      have hkept := h.kept n env henv (UInt64.not_lt.mp hlt) (hopens n env (hw.own n env henv))
      exact .inr ((mem_iff_lookup _ _).mpr ⟨env, hkept⟩)

end Drains

/-- A state of draining that started from `x₀` with the window `w₀`. -/
structure Draining (F : Foreign) (P : UInt64 → SecureEnvelope → Prop) (sid : String)
    (x₀ : Endpoint) (w₀ : Window) (x : Endpoint) (w : Window) : Prop where
  frame : Frame sid x₀ x
  alike : Alike sid x₀.manager x.manager
  window : x.window sid = some w
  origin : w₀.Sound P
  sound : w.Sound P
  drains : Drains F x₀.manager w₀ w

/-- What can end the draining of a window: a binding the view contradicts, or an envelope
accepted before that no longer opens. -/
def Contradicted (F : Foreign) (P : UInt64 → SecureEnvelope → Prop) (view : ContractView)
    (m : SessionManager) (w : Window) : Prop :=
  (∃ n env e, P n env ∧ view.check F env.contract = .error e ∧ e ≠ .contractPending) ∨
    ∃ (n : UInt64) (env : SecureEnvelope), w.held[n]? = some env ∧ w.deliveryNext ≤ n ∧
      n < w.next ∧ ¬Openable F m env

structure Delivers (F : Foreign) (m : SessionManager) (P : UInt64 → SecureEnvelope → Prop)
    (sid : String) (view : ContractView) (d : Delivery) (env : SecureEnvelope) : Prop where
  sid : d.sid = sid
  held : P d.seq env
  from_ : d.from_ = env.from_
  contract : d.contract = env.contract
  bound : view.check F env.contract = .ok ()
  opened : (m.openAuthenticated F env).2 = .ok d.payload

/-- A loop whose turns keep an invariant and lower a measure below the budget leaves with
what every exit establishes, and the budget is not what ends it. -/
theorem runLoop_spec {turn : Endpoint × ReceiveReport → (Endpoint × ReceiveReport) ⊕ Exit}
    {report : ReceiveReport} (inv : Endpoint × ReceiveReport → Prop)
    (μ : Endpoint × ReceiveReport → ℕ) (post : Exit → Prop) (hinv : inv (x, report))
    (hμ : μ (x, report) < x.turns sid)
    (hturn : ∀ s s', inv s → turn s = .inl s' → inv s' ∧ μ s' < μ s)
    (hexit : ∀ s e, inv s → turn s = .inr e → post e) :
    Loop.Returns turn (x, report) (runLoop turn sid x report) ∧ post (runLoop turn sid x report) := by
  obtain ⟨e, he⟩ := Loop.exists_iterate_of_variant inv μ hturn hinv hμ
  have hrun : runLoop turn sid x report = e := by
    rw [runLoop, he, Option.getD_some]
  rw [hrun]
  exact ⟨⟨_, he⟩, Loop.iterate_post inv post (fun s s' hs h => (hturn s s' hs h).1) hexit hinv he⟩

/-- Deliveries at consecutive positions. -/
structure Batch (F : Foreign) (m : SessionManager) (P : UInt64 → SecureEnvelope → Prop)
    (sid : String) (view : ContractView) (first next : UInt64) (ds : List Delivery) : Prop where
  seqs : ds.map (fun d => d.seq.toNat) = List.range' first.toNat ds.length
  next : next.toNat = first.toNat + ds.length
  each : ∀ d ∈ ds, ∃ env, Delivers F m P sid view d env

def Authenticated (F : Foreign) (P : UInt64 → SecureEnvelope → Prop) (sid : String)
    (x₀ : Endpoint) (w₀ w : Window) (view : ContractView) (report : ReceiveReport) : Exit → Prop
  | .broke y r => r.delivered = report.delivered ∧ r.aborted = report.aborted ∧
      ∃ w' : Window, w'.Settled ∧ w'.deliveryNext = w.deliveryNext ∧ Draining F P sid x₀ w₀ y w'
  | .returned y r => Aborted sid x₀ y r ∧ Contradicted F P view x₀.manager w₀

def DeliveredBatch (F : Foreign) (P : UInt64 → SecureEnvelope → Prop) (sid : String)
    (x₀ : Endpoint) (w₀ w : Window) (view : ContractView) (report : ReceiveReport) : Exit → Prop
  | .broke y r => ∃ w' ds, Draining F P sid x₀ w₀ y w' ∧ w'.Settled ∧ w'.Stalled F view ∧
      Batch F x₀.manager P sid view w.deliveryNext w'.deliveryNext ds ∧
      r.delivered = report.delivered ++ ds ∧ r.aborted = report.aborted
  | .returned y r => Aborted sid x₀ y r ∧ Contradicted F P view x₀.manager w₀

theorem Batch.nil {F : Foreign} {m : SessionManager} {P : UInt64 → SecureEnvelope → Prop}
    {view : ContractView} {first : UInt64} : Batch F m P sid view first first [] :=
  ⟨rfl, rfl, fun _ h => absurd h List.not_mem_nil⟩

theorem Batch.snoc {F : Foreign} {m : SessionManager} {P : UInt64 → SecureEnvelope → Prop}
    {view : ContractView} {first next : UInt64} {ds : List Delivery} {d : Delivery}
    (h : Batch F m P sid view first next ds) (hseq : d.seq = next) (hmax : next ≠ u64Max)
    (hd : ∃ env, Delivers F m P sid view d env) :
    Batch F m P sid view first (next + 1) (ds ++ [d]) where
  seqs := by
    rw [List.map_append, h.seqs, List.length_append, List.map_singleton, hseq, h.next,
      List.length_singleton, List.range'_concat, Nat.one_mul]
  next := by
    rw [toNat_succ hmax, h.next, List.length_append, List.length_singleton, Nat.add_assoc]
  each e he := by
    rcases List.mem_append.mp he with he | he
    · exact h.each e he
    · rwa [List.mem_singleton.mp he]

section Turns
variable {F : Foreign} {P : UInt64 → SecureEnvelope → Prop} {x₀ : Endpoint} {w₀ w : Window}

theorem Draining.start (hx : x₀.window sid = some w₀) (hw : w₀.Sound P) :
    Draining F P sid x₀ w₀ x₀ w₀ :=
  ⟨Frame.refl sid x₀, Alike.refl sid _, hx, hw, hw, .refl F x₀.manager w₀⟩

theorem Draining.putWindow (h : Draining F P sid x₀ w₀ x w) {w' : Window} (hw : w'.Sound P)
    (hdrains : Drains F x₀.manager w w') : Draining F P sid x₀ w₀ (x.putWindow sid w') w' where
  frame := h.frame.trans (Frame.putWindow sid x w')
  alike := h.alike
  window := by rw [window_putWindow, if_pos rfl]
  origin := h.origin
  sound := hw
  drains := h.drains.trans hdrains

theorem Draining.established (h : Draining F P sid x₀ w₀ x w) {s : Session}
    (hs : x.manager.active[sid]? = some s) :
    Draining F P sid x₀ w₀ { x with manager := x.manager.put sid s.opened } w where
  frame := h.frame.trans (Frame.put sid x s.opened)
  alike := h.alike.trans (Alike.put hs)
  window := h.window
  origin := h.origin
  sound := h.sound
  drains := h.drains

variable (hP : ∀ n env, P n env → Addressed sid n env)
  (view : ContractView) (report : ReceiveReport)
include hP

theorem authenticate_turn (h : Draining F P sid x₀ w₀ x w) :
    match authenticateTurn F sid view (x, report) with
    | .inl (y, r) => r = report ∧ w.next ∈ w.held ∧
        Draining F P sid x₀ w₀ y { w with high := some w.next }
    | .inr (.broke y r) => r.delivered = report.delivered ∧ r.aborted = report.aborted ∧
        ∃ w' : Window, w'.Settled ∧ w'.deliveryNext = w.deliveryNext ∧
          Draining F P sid x₀ w₀ y w'
    | .inr (.returned y r) => Aborted sid x₀ y r ∧ Contradicted F P view x₀.manager w₀ := by
  simp only [authenticateTurn, h.window]
  cases henv : w.held[w.next]? with
  | none => exact ⟨rfl, rfl, w, (lookup_eq_none_iff _ _).mp henv, rfl, h⟩
  | some env =>
    have hnext : w.next ∈ w.held := (mem_iff_lookup _ _).mpr ⟨env, henv⟩
    have hmax : w.next ≠ u64Max := fun he => h.sound.max_not_held (he ▸ hnext)
    have hheld := h.sound.own _ _ henv
    have hsame := h.alike.sameKeys.openAuthenticated (F := F) (hP _ _ hheld).sid
    dsimp only
    rcases (hP _ _ hheld).openAuthenticated hmax x.manager with ⟨e, hopen⟩ | ⟨s, pt, hs, hopen⟩
    · -- honest ciphertext never takes this branch
      rw [hopen] at hsame ⊢
      refine ⟨rfl, rfl, { w with held := w.held.erase w.next }, ?_, rfl,
        h.putWindow h.sound.drop_next (.drop henv ?_)⟩
      · exact fun hn => ((mem_erase_iff _ _ _).mp hn).1 rfl
      · rintro ⟨pt, hpt⟩
        rw [← hsame] at hpt
        cases hpt
    · rw [hopen] at hsame ⊢
      have hnow := (h.established hs).putWindow (h.sound.advance hnext)
        (.advance henv hmax ⟨pt, hsame.symm⟩)
      dsimp only
      cases hcheck : view.check F env.contract with
      | ok _ => exact ⟨rfl, hnext, hnow⟩
      | error e =>
        by_cases he : e = .contractPending
        · subst he
          exact ⟨rfl, hnext, hnow⟩
        · simp only
          exact ⟨(aborted_abort _ sid e report).of_frame hnow.frame,
            .inl ⟨_, env, e, hheld, hcheck, he⟩⟩

theorem deliver_turn (h : Draining F P sid x₀ w₀ x w) :
    match deliverTurn F sid view (x, report) with
    | .inl (y, r) => ∃ d, r = report.deliver d ∧ d.seq = w.deliveryNext ∧
        w.deliveryNext < w.next ∧ (∃ env, Delivers F x₀.manager P sid view d env) ∧
        Draining F P sid x₀ w₀ y { w with
          held := w.held.erase w.deliveryNext
          deliveryNext := w.deliveryNext + 1 }
    | .inr (.broke y r) => y = x ∧ r = report ∧ w.Stalled F view
    | .inr (.returned y r) => Aborted sid x₀ y r ∧ Contradicted F P view x₀.manager w₀ := by
  simp only [deliverTurn, h.window]
  by_cases hacc : w.accepted w.deliveryNext
  · have hlt := (accepted_iff h.sound.high_ne_max _).mp hacc
    have hmax := h.sound.deliveryNext_ne_max hlt
    obtain ⟨env, henv⟩ := (mem_iff_lookup _ _).mp (h.sound.complete _ UInt64.le_rfl hlt)
    have hheld := h.sound.own _ _ henv
    simp only [if_neg (not_not_intro hacc), henv]
    cases hcheck : view.check F env.contract with
    | error e =>
      by_cases he : e = .contractPending
      · subst he
        exact ⟨rfl, rfl, .inr ⟨env, henv, hcheck⟩⟩
      · simp only
        exact ⟨(aborted_abort _ sid e report).of_frame h.frame,
          .inl ⟨_, env, e, hheld, hcheck, he⟩⟩
    | ok _ =>
      dsimp only
      have hpayload := h.alike.sameKeys.openAuthenticated (F := F) (hP _ _ hheld).sid
      rcases (hP _ _ hheld).openAuthenticated hmax x.manager with ⟨e, hopen⟩ | ⟨s, pt, hs, hopen⟩
      · rw [hopen] at hpayload ⊢
        have hclosed : ¬Openable F x₀.manager env := by
          rintro ⟨pt, hpt⟩
          rw [← hpayload] at hpt
          cases hpt
        refine ⟨(aborted_abort _ sid e report).of_frame h.frame,
          .inr ⟨_, env, h.drains.subset _ _ henv, h.drains.position, ?_, hclosed⟩⟩
        -- what the first loop accepted has just been opened
        apply UInt64.not_le.mp
        intro hle
        obtain ⟨env', henv', hopenable⟩ := h.drains.opened _ hle hlt
        obtain rfl := Option.some.inj (henv'.symm.trans (h.drains.subset _ _ henv))
        exact hclosed hopenable
      · rw [hopen] at hpayload ⊢
        exact ⟨_, rfl, rfl, hlt, ⟨env, rfl, hheld, rfl, rfl, hcheck, hpayload.symm⟩,
          (h.established hs).putWindow (h.sound.deliver hlt) (.deliver hlt hmax)⟩
  · rw [if_pos hacc]
    exact ⟨rfl, rfl, .inl fun hlt => hacc ((accepted_iff h.sound.high_ne_max _).mpr hlt)⟩

/-- The first loop raises the mark over every envelope that is held without a gap. -/
theorem authenticate_loop (h : Draining F P sid x₀ w₀ x w) :
    Loop.Returns (authenticateTurn F sid view) (x, report)
        (runLoop (authenticateTurn F sid view) sid x report) ∧
      Authenticated F P sid x₀ w₀ w view report
        (runLoop (authenticateTurn F sid view) sid x report) := by
  apply runLoop_spec (fun s => s.2 = report ∧ ∃ w', w'.deliveryNext = w.deliveryNext ∧
    Draining F P sid x₀ w₀ s.1 w') (fun s => (s.1.window sid).elim 0 aboveMark)
  · exact ⟨rfl, w, rfl, h⟩
  · rw [turns, h.window]
    exact Nat.lt_succ_of_le (aboveMark_le w)
  · rintro ⟨y, r⟩ ⟨z, r'⟩ ⟨rfl, w', hpos, hw'⟩ hturn
    have hspec := authenticate_turn hP view r hw'
    rw [hturn] at hspec
    obtain ⟨rfl, hnext, hz⟩ := hspec
    refine ⟨⟨rfl, { w' with high := some w'.next }, hpos, hz⟩, ?_⟩
    rw [hz.window, hw'.window]
    exact aboveMark_advance hw'.sound hnext
  · rintro ⟨y, r⟩ e ⟨rfl, w', hpos, hw'⟩ hturn
    have hspec := authenticate_turn hP view r hw'
    rw [hturn] at hspec
    cases e with
    | returned z r' => exact hspec
    | broke z r' =>
      obtain ⟨hdelivered, haborted, w'', hsettled, hpos', hz⟩ := hspec
      exact ⟨hdelivered, haborted, w'', hsettled, hpos'.trans hpos, hz⟩

/-- The second loop delivers a batch and stops where nothing more can be delivered. -/
theorem deliver_loop (h : Draining F P sid x₀ w₀ x w) (hsettled : w.Settled) :
    Loop.Returns (deliverTurn F sid view) (x, report)
        (runLoop (deliverTurn F sid view) sid x report) ∧
      DeliveredBatch F P sid x₀ w₀ w view report
        (runLoop (deliverTurn F sid view) sid x report) := by
  apply runLoop_spec (fun s => ∃ w' ds, Draining F P sid x₀ w₀ s.1 w' ∧ w'.Settled ∧
    Batch F x₀.manager P sid view w.deliveryNext w'.deliveryNext ds ∧
    s.2.delivered = report.delivered ++ ds ∧ s.2.aborted = report.aborted)
    (fun s => (s.1.window sid).elim 0 fun w => w.held.size)
  · exact ⟨w, [], h, hsettled, .nil, (List.append_nil _).symm, rfl⟩
  · rw [turns, h.window]
    exact Nat.lt_succ_self _
  · rintro ⟨y, r⟩ ⟨z, r'⟩ ⟨w', ds, hw', hsettled', hbatch, hdelivered, haborted⟩ hturn
    have hspec := deliver_turn hP view r hw'
    rw [hturn] at hspec
    obtain ⟨d, rfl, hseq, hlt, hdelivers, hz⟩ := hspec
    have hmem := hw'.sound.complete _ UInt64.le_rfl hlt
    refine ⟨⟨_, ds ++ [d], hz, ?_, hbatch.snoc hseq (hw'.sound.deliveryNext_ne_max hlt) hdelivers,
      ?_, haborted⟩, ?_⟩
    · exact fun hn => hsettled' ((mem_erase_iff _ _ _).mp hn).2
    · rw [ReceiveReport.deliver, hdelivered, List.append_assoc]
    · rw [hz.window, hw'.window]
      exact size_erase_lt hmem
  · rintro ⟨y, r⟩ e ⟨w', ds, hw', hsettled', hbatch, hdelivered, haborted⟩ hturn
    have hspec := deliver_turn hP view r hw'
    rw [hturn] at hspec
    cases e with
    | returned z r' => exact hspec
    | broke z r' =>
      obtain ⟨rfl, rfl, hstalled⟩ := hspec
      exact ⟨w', ds, hw', hsettled', hstalled, hbatch, hdelivered, haborted⟩

omit hP in
/-- The third loop delivers nothing; it reports what stays or aborts. -/
theorem reportHeld_cases (sid : String) (x : Endpoint) (w : Window)
    (items : List (UInt64 × SecureEnvelope))
    (hitems : ∀ p ∈ items, P p.1 p.2) :
    (Aborted sid x (reportHeld F sid view x w items report).1
        (reportHeld F sid view x w items report).2 ∧
      ∃ n env e, P n env ∧ view.check F env.contract = .error e ∧ e ≠ .contractPending) ∨
      ((reportHeld F sid view x w items report).1 = x ∧
        (reportHeld F sid view x w items report).2.delivered = report.delivered ∧
        (reportHeld F sid view x w items report).2.aborted = report.aborted) := by
  induction items generalizing report with
  | nil => exact .inr ⟨rfl, rfl, rfl⟩
  | cons item items ih =>
    obtain ⟨seq, env⟩ := item
    have hrest (r : ReceiveReport) := ih r fun p hp => hitems p (List.mem_cons_of_mem _ hp)
    by_cases hacc : w.accepted seq
    · simp only [reportHeld, if_pos hacc]
      cases hcheck : view.check F env.contract with
      | ok _ => exact hrest _
      | error e =>
        by_cases he : e = .contractPending
        · subst he
          exact hrest _
        · simp only
          exact .inl ⟨aborted_abort x sid e report,
            seq, env, e, hitems _ List.mem_cons_self, hcheck, he⟩
    · simp only [reportHeld, if_neg hacc]
      exact hrest _

inductive Drained (F : Foreign) (P : UInt64 → SecureEnvelope → Prop) (sid : String)
    (x₀ : Endpoint) (w₀ : Window) (view : ContractView) (report : ReceiveReport) :
    Endpoint × ReceiveReport → Prop
  | aborted {y : Endpoint} {r : ReceiveReport} : Aborted sid x₀ y r →
      Contradicted F P view x₀.manager w₀ → Drained F P sid x₀ w₀ view report (y, r)
  | kept {y : Endpoint} {r : ReceiveReport} (w : Window) (ds : List Delivery) :
      Draining F P sid x₀ w₀ y w → w.Settled → w.Stalled F view →
      Batch F x₀.manager P sid view w₀.deliveryNext w.deliveryNext ds →
      r.delivered = report.delivered ++ ds → r.aborted = report.aborted →
      Drained F P sid x₀ w₀ view report (y, r)

theorem drain_drained (h : Draining F P sid x₀ w₀ x₀ w₀) :
    Drained F P sid x₀ w₀ view report (x₀.drain F sid view report) := by
  have hfirst := (authenticate_loop hP view report h).2
  unfold drain
  cases hexit : runLoop (authenticateTurn F sid view) sid x₀ report with
  | returned y r =>
    rw [hexit] at hfirst
    exact .aborted hfirst.1 hfirst.2
  | broke y r =>
    rw [hexit] at hfirst
    obtain ⟨hdelivered, haborted, w, hsettled, hpos, hy⟩ := hfirst
    have hsecond := (deliver_loop hP view r hy hsettled).2
    dsimp only
    cases hexit' : runLoop (deliverTurn F sid view) sid y r with
    | returned z r' =>
      rw [hexit'] at hsecond
      exact .aborted hsecond.1 hsecond.2
    | broke z r' =>
      rw [hexit'] at hsecond
      obtain ⟨w', ds, hz, hsettled', hstalled, hbatch, hdelivered', haborted'⟩ := hsecond
      simp only [hz.window]
      have hitems : ∀ p ∈ w'.held.toList, P p.1 p.2 := fun p hp =>
        hz.sound.own _ _ (ExtTreeMap.mem_toList_iff_getElem?_eq_some.mp hp)
      have hthird := reportHeld_cases (F := F) view r' sid z w' w'.held.toList hitems
      rcases hrest : reportHeld F sid view z w' w'.held.toList r' with ⟨z', r''⟩
      rw [hrest] at hthird
      rcases hthird with ⟨hab, hcause⟩ | ⟨rfl, hd, ha⟩
      · exact .aborted (hab.of_frame hz.frame) (.inl hcause)
      · refine .kept w' ds hz hsettled' hstalled (hpos ▸ hbatch) ?_ ?_
        · rw [hd, hdelivered', hdelivered]
        · rw [ha, haborted', haborted]

theorem drain_returns (h : Draining F P sid x₀ w₀ x₀ w₀) :
    Loop.Returns (authenticateTurn F sid view) (x₀, report)
        (runLoop (authenticateTurn F sid view) sid x₀ report) ∧
      ∀ y r, runLoop (authenticateTurn F sid view) sid x₀ report = .broke y r →
        Loop.Returns (deliverTurn F sid view) (y, r) (runLoop (deliverTurn F sid view) sid y r) := by
  obtain ⟨hreturns, hfirst⟩ := authenticate_loop hP view report h
  refine ⟨hreturns, fun y r hexit => ?_⟩
  rw [hexit] at hfirst
  obtain ⟨-, -, w, hsettled, -, hy⟩ := hfirst
  exact (deliver_loop hP view r hy hsettled).1

end Turns

end Endpoint
end Hacp.Secure
