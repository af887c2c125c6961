import Hacp.Secure.OpenRequest

/-!
# What an open request loses

The answer to an open request lists an aborted session with its deliveries when a refused
control state ended it after it delivered. A request that fails in its last loop drops the
whole answer, though the sessions it delivered from have moved on.
-/
namespace Hacp.Secure
open Lib V2 Std SessionManager Endpoint

variable {F : Foreign} {K : KeyExchange} {C : Crates} {context sid i : String}

/-! ## The turns of a request -/

/-- The file holds plain bytes where a pin requires secure delivery. -/
def Downgrades (F : Foreign) (C : Crates) (t : Intake × EdgeFile) : Prop :=
  HoldsPlain F C t.2 ∧ t.1.guardian.requiresSecure = true

/-- An observation begins, the control state is refused, and an active session has an entry among
the deliveries. -/
def Stranded (F : Foreign) (context : String) (edge : Outside) (t : Intake × SessionInfo) : Prop :=
  (∃ e, contractView F context (edge.observed t.2.sid) = .error e) ∧
    ∃ d ∈ t.1.gathered.delivered, ∃ s, t.1.guardian.active[d.sid]? = some s

section Turns
variable (F : Foreign) (K : KeyExchange) (C : Crates)

/-- The files of both phases, each with the state in which its turn begins. -/
def fileTurns (context : String) (edge : Outside) (g : Guardian) : List (Intake × EdgeFile) :=
  let k := (handshakePhase F K C context edge (.start g)).elim id id
  Scan.turns (fileTurn F K C context) (.start g) edge.handshakes ++
    Scan.turns (fileTurn F K C context) k (messageFiles context edge k)

def observeTurns (context : String) (edge : Outside) (g : Guardian) : List (Intake × SessionInfo) :=
  let k := phases F K C context edge g
  Scan.turns (observeTurn F context edge) k (k.guardian.sessionsOf context)

end Turns

namespace Tracked
variable {g₀ : Guardian} {k k' : Intake} {f : EdgeFile}

theorem fileTurn (h : Tracked g₀ k) (hturn : fileTurn F K C context k f = .inl k')
    (hfresh : Fresh g₀ k'.established) :
    Tracked g₀ k' ∧ ∀ i, k'.gathered.Exposed i ↔
      k.gathered.Exposed i ∨ Unpurged F C context i (k, f) := by
  obtain ⟨k₁, r, hstep, hr, rfl | ⟨e, rfl⟩⟩ := fileTurn_inl hturn
  · exact h.step hstep hr hfresh
  · obtain ⟨htracked, hexposed⟩ := h.step hstep hr hfresh
    exact ⟨htracked.reject f.name e, hexposed⟩

end Tracked

theorem FileStep.established {k k' : Intake} {f : EdgeFile} {r : Except SecureError Unit}
    (h : FileStep F C context k f (k', r)) : ∃ l, k'.established = k.established ++ l := by
  cases h with
  | shook => exact ⟨_, rfl⟩
  | passed => exact ⟨[], (List.append_nil _).symm⟩
  | downgraded => exact ⟨[], (List.append_nil _).symm⟩
  | plain => exact ⟨[], (List.append_nil _).symm⟩
  | refused => exact ⟨[], (List.append_nil _).symm⟩
  | reported => exact ⟨[], (List.append_nil _).symm⟩

theorem fresh_before {g₀ : Guardian} {k k' : Intake} {f : EdgeFile}
    (hturn : fileTurn F K C context k f = .inl k') (h : Fresh g₀ k'.established) :
    Fresh g₀ k.established := by
  obtain ⟨k₁, r, hstep, -, rfl | ⟨e, rfl⟩⟩ := fileTurn_inl hturn
  · obtain ⟨l, hl⟩ := hstep.established
    exact .of_append (hl ▸ h)
  · obtain ⟨l, hl⟩ := hstep.established
    exact .of_append (hl ▸ h : Fresh g₀ (k.established ++ l))

namespace Tracked
variable {g₀ : Guardian} {k k' : Intake}

theorem fileLoop (h : Tracked g₀ k) {files : List EdgeFile}
    (hrun : Scan.run (Secure.fileTurn F K C context) k files = .inl k')
    (hfresh : Fresh g₀ k'.established) (i : String) :
    Tracked g₀ k' ∧ (k'.gathered.Exposed i ↔ k.gathered.Exposed i ∨
      ∃ t ∈ Scan.turns (Secure.fileTurn F K C context) k files, Unpurged F C context i t) :=
  Scan.run_marks (G := fun k => Fresh g₀ k.established) (I := Tracked g₀)
    (P := fun k => k.gathered.Exposed i) (Q := Unpurged F C context i)
    (fun _ _ _ hturn hG => fresh_before hturn hG)
    (fun _ _ _ hI hG hturn => (hI.fileTurn hturn hG).imp_right fun hexposed => hexposed i)
    h hrun hfresh

end Tracked

theorem not_downgrades {k k' : Intake} {files : List EdgeFile}
    (hrun : Scan.run (fileTurn F K C context) k files = .inl k') :
    ∀ t ∈ Scan.turns (fileTurn F K C context) k files, ¬Downgrades F C t := by
  intro t ht hdown
  obtain ⟨k₁, hleaves⟩ := fileTurn_leaves.mpr hdown
  have hinr := Scan.run_eq_inr.mpr ⟨t, ht, hleaves⟩
  rw [hrun] at hinr
  cases hinr

theorem downgrades_of_inr {k k' : Intake} {files : List EdgeFile}
    (hrun : Scan.run (fileTurn F K C context) k files = .inr k') :
    ∃ t ∈ Scan.turns (fileTurn F K C context) k files, Downgrades F C t := by
  obtain ⟨t, ht, hturn⟩ := Scan.run_eq_inr.mp hrun
  exact ⟨t, ht, fileTurn_leaves.mp ⟨k', hturn⟩⟩

/-- Behind both phases: a downgrade ended the request, or every session is tracked. -/
theorem phases_marks {g : Guardian} (hg : Sane g) (edge : Outside)
    (hfresh : Fresh g (phases F K C context edge g).established) (i : String) :
    Ended g context (phases F K C context edge g) ∧
        (∃ t ∈ fileTurns F K C context edge g, Downgrades F C t) ∨
      Tracked g (phases F K C context edge g) ∧
        (∀ t ∈ fileTurns F K C context edge g, ¬Downgrades F C t) ∧
        ((phases F K C context edge g).gathered.Exposed i ↔
          ∃ t ∈ fileTurns F K C context edge g, Unpurged F C context i t) := by
  have hkeeps (files : List EdgeFile) {k : Intake} (hk : Running g context k) :
      Sum.elim (Running g context) (Ended g context) (Scan.run (fileTurn F K C context) k files) :=
    Scan.run_keeps (fun k f _ h => h.fileTurn) hk
  have hfirst := hkeeps edge.handshakes (.start hg)
  cases hhand : Scan.run (fileTurn F K C context) (.start g) edge.handshakes with
  | inr k =>
    rw [hhand] at hfirst
    have hended : Ended g context k := hfirst
    have hphases : phases F K C context edge g = k := by
      simp only [phases, handshakePhase, hhand, Sum.elim_inr, id, hended.messagePhase,
        Sum.elim_inl]
    obtain ⟨t, ht, hdown⟩ := downgrades_of_inr hhand
    rw [hphases]
    exact .inl ⟨hended, t, List.mem_append_left _ ht, hdown⟩
  | inl k =>
    rw [hhand] at hfirst
    have hsecond := hkeeps (messageFiles context edge k) hfirst
    have hturns : fileTurns F K C context edge g =
        Scan.turns (fileTurn F K C context) (.start g) edge.handshakes ++
          Scan.turns (fileTurn F K C context) k (messageFiles context edge k) := by
      simp only [fileTurns, handshakePhase, hhand, Sum.elim_inl, id]
    rw [hturns]
    cases hmessages : Scan.run (fileTurn F K C context) k (messageFiles context edge k) with
    | inr k' =>
      rw [hmessages] at hsecond
      have hphases : phases F K C context edge g = k' := by
        simp only [phases, handshakePhase, hhand, Sum.elim_inl, id, messagePhase, hmessages,
          Sum.elim_inr]
      obtain ⟨t, ht, hdown⟩ := downgrades_of_inr hmessages
      rw [hphases]
      exact .inl ⟨hsecond, t, List.mem_append_right _ ht, hdown⟩
    | inl k' =>
      have hphases : phases F K C context edge g = k' := by
        simp only [phases, handshakePhase, hhand, Sum.elim_inl, id, messagePhase, hmessages]
      rw [hphases] at hfresh ⊢
      have hbefore : Fresh g k.established :=
        Scan.run_back (G := fun k => Fresh g k.established)
          (fun _ _ _ hturn hG => fresh_before hturn hG) hmessages hfresh
      obtain ⟨htracked, hexposed⟩ := (Tracked.start hg).fileLoop hhand hbefore i
      obtain ⟨htracked', hexposed'⟩ := htracked.fileLoop hmessages hfresh i
      have hnothing : ¬(Intake.start g).gathered.Exposed i := fun h => h.2 rfl
      refine .inr ⟨htracked', fun t ht => ?_, ?_⟩
      · rcases List.mem_append.mp ht with ht | ht
        · exact not_downgrades hhand t ht
        · exact not_downgrades hmessages t ht
      · rw [hexposed', hexposed, or_iff_right hnothing]
        simp only [List.mem_append, or_and_right, exists_or]

/-! ## The observations -/

namespace Tracked
variable {g₀ : Guardian} {k k' : Intake}

/-- An observation exposes nothing. -/
theorem observeTurn (h : Tracked g₀ k) {edge : Outside} {s : SessionInfo}
    (hseen : Seen g₀ k s.sid) (hsid : s.sid ≠ "")
    (hturn : Secure.observeTurn F context edge k s = .inl k') :
    Tracked g₀ k' ∧ k'.established = k.established ∧
      ∀ i, k'.gathered.Exposed i ↔ k.gathered.Exposed i := by
  unfold Secure.observeTurn at hturn
  cases hview : contractView F context (edge.observed s.sid) with
  | error e =>
    rw [hview] at hturn
    cases hturn
  | ok view =>
    rw [hview] at hturn
    obtain rfl := Sum.inl.inj hturn
    have hreports : Reports s.sid k.guardian.endpoint
        (k.guardian.endpoint.observe F s.sid view) := .observe h.sane.tidy s.sid view
    have hlive : (∃ t, k.guardian.active[s.sid]? = some t) ∨
        (k.guardian.endpoint.observe F s.sid view).2.delivered = [] ∧
          (k.guardian.endpoint.observe F s.sid view).2.aborted = none := by
      cases hs : k.guardian.active[s.sid]? with
      | some t => exact .inl ⟨t, rfl⟩
      | none =>
        rw [observe_unknown hs]
        exact .inr ⟨rfl, rfl⟩
    obtain ⟨htracked, hexposed⟩ := h.report hreports hseen hsid hlive "observation"
    exact ⟨htracked, rfl, hexposed⟩

end Tracked

/-- What the observations of a request keep: the sessions are tracked, and nothing was established
or exposed. -/
structure Observing (g₀ : Guardian) (i : String) (k k' : Intake) : Prop where
  tracked : Tracked g₀ k'
  established : k'.established = k.established
  exposed : k'.gathered.Exposed i ↔ k.gathered.Exposed i

theorem Observing.turn {g₀ : Guardian} {k k' : Intake} (h : Observing g₀ i k k') {edge : Outside}
    {s : SessionInfo} (hseen : Seen g₀ k s.sid) (hsid : s.sid ≠ "") :
    Sum.elim (Observing g₀ i k) (fun r => Observing g₀ i k r.1)
      (observeTurn F context edge k' s) := by
  have hseen' : Seen g₀ k' s.sid := by
    rw [Seen, h.established]
    exact hseen
  cases hturn : observeTurn F context edge k' s with
  | inl k'' =>
    obtain ⟨htracked, hestablished, hexposed⟩ := h.tracked.observeTurn hseen' hsid hturn
    exact ⟨htracked, hestablished.trans h.established, (hexposed i).trans h.exposed⟩
  | inr r =>
    unfold observeTurn at hturn
    split at hturn
    · obtain rfl := Sum.inr.inj hturn
      exact h
    · cases hturn

theorem Tracked.seen_of_mem {g₀ : Guardian} {k : Intake} (h : Tracked g₀ k) {s : SessionInfo}
    (hs : s ∈ k.guardian.sessionsOf context) : Seen g₀ k s.sid ∧ s.sid ≠ "" := by
  obtain ⟨t, ht, -⟩ := (Guardian.mem_sessionsOf h.sane).mp hs
  exact ⟨h.known s.sid (.of_active ht), (h.sane.named s.sid t ht).2⟩

variable (F context) in
theorem observing {g₀ : Guardian} {k : Intake} (h : Tracked g₀ k) (edge : Outside) (i : String) :
    Sum.elim (Observing g₀ i k) (fun r => Observing g₀ i k r.1)
      (Scan.run (observeTurn F context edge) k (k.guardian.sessionsOf context)) :=
  Scan.run_keeps (fun _ _ hs hk => hk.turn (h.seen_of_mem hs).1 (h.seen_of_mem hs).2)
    ⟨h, rfl, .rfl⟩

variable (F context) in
theorem observe_established (k : Intake) (edge : Outside) (sessions : List SessionInfo) :
    Sum.elim (fun k' : Intake => k'.established = k.established)
      (fun r : Intake × SecureError => r.1.established = k.established)
      (Scan.run (observeTurn F context edge) k sessions) := by
  refine Scan.run_keeps (I := fun k' : Intake => k'.established = k.established)
    (fun k' s _ hk => ?_) rfl
  unfold observeTurn
  cases contractView F context (edge.observed s.sid) with
  | error e => exact hk
  | ok view => exact hk

theorem observeTurn_eq_inr {k k' : Intake} {edge : Outside} {s : SessionInfo} {e : SecureError} :
    observeTurn F context edge k s = .inr (k', e) ↔
      k' = k ∧ contractView F context (edge.observed s.sid) = .error e := by
  unfold observeTurn
  cases contractView F context (edge.observed s.sid) with
  | error e' => simp [eq_comm]
  | ok view => simp

namespace Guardian
variable {g g' : Guardian} {edge : Outside} {established : List String}

/-- How an open request that was allowed ends. -/
theorem receive_allowed {result : Except SecureError Gathered}
    (h : g.receive F K C context edge = (g', result, established)) :
    (∃ e, g.allowedContext context = .error e ∧ g' = g ∧ result = .error e) ∨
      g.allowedContext context = .ok () ∧
      (phases F K C context edge g).established = established ∧
      ((∃ k, Scan.run (observeTurn F context edge) (phases F K C context edge g)
          ((phases F K C context edge g).guardian.sessionsOf context) = .inl k ∧
            g' = k.guardian ∧ result = .ok k.gathered) ∨
        ∃ k e, Scan.run (observeTurn F context edge) (phases F K C context edge g)
          ((phases F K C context edge g).guardian.sessionsOf context) = .inr (k, e) ∧
            g' = k.guardian ∧ result = .error e) := by
  unfold receive at h
  cases hallowed : g.allowedContext context with
  | error e =>
    rw [hallowed] at h
    cases h
    exact .inl ⟨e, rfl, rfl, rfl⟩
  | ok _ =>
    rw [hallowed] at h
    have hsame := observe_established F context
      (phases F K C context edge g) edge
      ((phases F K C context edge g).guardian.sessionsOf context)
    dsimp only at h
    refine .inr ⟨rfl, ?_⟩
    cases hrun : Scan.run (observeTurn F context edge) (phases F K C context edge g)
        ((phases F K C context edge g).guardian.sessionsOf context) with
    | inl k =>
      rw [hrun] at h hsame
      cases h
      exact ⟨hsame.symm, .inl ⟨k, rfl, rfl, rfl⟩⟩
    | inr r =>
      obtain ⟨k, e⟩ := r
      rw [hrun] at h hsame
      cases h
      exact ⟨hsame.symm, .inr ⟨k, e, rfl, rfl, rfl⟩⟩

/-- Which aborted sessions have entries in the answer. -/
theorem receive_exposes (hg : Sane g) {gathered : Gathered}
    (h : g.receive F K C context edge = (g', .ok gathered, established))
    (hfresh : Fresh g established) (i : String) :
    gathered.Exposed i ↔ (∀ t ∈ fileTurns F K C context edge g, ¬Downgrades F C t) ∧
      ∃ t ∈ fileTurns F K C context edge g, Unpurged F C context i t := by
  rcases receive_allowed h with ⟨e, -, -, herror⟩ | ⟨-, hphases, hobserved⟩
  · cases herror
  rcases hobserved with ⟨k, hrun, -, hok⟩ | ⟨k, e, -, -, herror⟩
  swap
  · cases herror
  obtain rfl := Except.ok.inj hok
  rcases phases_marks hg edge (hphases ▸ hfresh) i with ⟨hended, t, ht, hdown⟩ |
    ⟨htracked, hnone, hexposed⟩
  · rw [hended.sessionsOf] at hrun
    obtain rfl := Sum.inl.inj hrun
    refine iff_of_false (fun hexp => hexp.2 ?_) fun hcon => hcon.1 t ht hdown
    rw [Gathered.deliveriesOf, hended.delivered]
    rfl
  · have hobserving := observing F context htracked edge i
    rw [hrun] at hobserving
    rw [hobserving.exposed, hexposed]
    exact (and_iff_right hnone).symm

/-- A request that fails moves a session exactly if an active session has an entry among the
deliveries when the control state is refused. -/
theorem receive_failed_position (hg : Sane g) {e : SecureError}
    (h : g.receive F K C context edge = (g', .error e, established))
    (hfresh : Fresh g established) :
    (∀ (sid : String) (s : Session), g'.active[sid]? = some s →
      (g'.endpoint.windowOf sid).deliveryNext = (g.endpoint.windowOf sid).deliveryNext) ↔
    (g.allowedContext context = .ok () →
      ∀ t ∈ observeTurns F K C context edge g, ¬Stranded F context edge t) := by
  rcases receive_allowed h with ⟨e', hrefused, rfl, -⟩ | ⟨hallowed, hphases, hobserved⟩
  · rw [hrefused]
    exact iff_of_true (fun _ _ _ => rfl) nofun
  rcases hobserved with ⟨k, -, -, hok⟩ | ⟨k, e', hrun, rfl, -⟩
  · cases hok
  have htracked : Tracked g k := by
    rcases phases_marks hg edge (hphases ▸ hfresh) "" with ⟨hended, -⟩ | ⟨htracked, -⟩
    · rw [hended.sessionsOf] at hrun
      cases hrun
    · have hobserving := observing F context htracked edge ""
      rw [hrun] at hobserving
      exact hobserving.tracked
  have hmoved {sid : String} {s : Session} (hs : k.guardian.active[sid]? = some s) :
      (k.guardian.endpoint.windowOf sid).deliveryNext = (g.endpoint.windowOf sid).deliveryNext ↔
        k.gathered.deliveriesOf sid = [] := by
    rw [← UInt64.toNat_inj, htracked.position sid s hs, ← List.length_eq_zero_iff]
    omega
  obtain ⟨t, ht, hrefused⟩ := Scan.run_eq_inr.mp hrun
  obtain ⟨rfl, hview⟩ := observeTurn_eq_inr.mp hrefused
  constructor
  · rintro hkept - u hu ⟨⟨e'', hview'⟩, d, hd, s, hs⟩
    have hsame := (Scan.run_eq_inr.mpr ⟨u, hu, observeTurn_eq_inr.mpr ⟨rfl, hview'⟩⟩).symm.trans hrun
    have hstate : u.1 = t.1 := (Prod.mk.inj (Sum.inr.inj hsame)).1
    rw [hstate] at hd hs
    have hnone := (hmoved hs).mp (hkept d.sid s hs)
    exact Gathered.deliveriesOf_eq_nil.mp hnone d hd rfl
  · intro hnone sid s hs
    rw [hmoved hs, Gathered.deliveriesOf_eq_nil]
    rintro d hd rfl
    exact hnone hallowed t ht ⟨⟨_, hview⟩, d, hd, s, hs⟩

end Guardian
end Hacp.Secure
