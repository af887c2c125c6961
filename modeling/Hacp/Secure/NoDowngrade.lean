import Hacp.Lib.Machine
import Hacp.Secure.GuardianSteps
import Hacp.V2.JsonReader

/-!
# No downgrade

Where a pin requires secure delivery, bytes that are no envelope end their context: its
sessions and pending handshakes go, the request delivers nothing, and nothing of the
context comes to be again as long as the guardian runs.
-/
namespace Hacp.Secure
open Lib V2 Std SessionManager Endpoint

variable {F : Foreign} {K : KeyExchange} {C : Crates} {context sid : String}

/-! ## Closed contexts -/

namespace Guardian

/-- No session of the context is active and no handshake of it pending. -/
structure Closed (g : Guardian) (context : String) : Prop where
  active : ∀ (sid : String) (s : Session), g.active[sid]? = some s → s.info.hacpSession ≠ context
  pending : ∀ h ∈ g.handshakes.pending, h.hacpSession ≠ context

namespace Closed
variable {g : Guardian}

theorem setEndpoint (h : g.Closed context) {x : Endpoint}
    (hx : Dwindles g.endpoint.manager x.manager) : (g.setEndpoint x).Closed context where
  active sid t ht := by
    obtain ⟨s, hs, hfixed⟩ := hx sid t ht
    have hsame : t.info.hacpSession = s.info.hacpSession := congrArg (·.info.hacpSession) hfixed
    rw [hsame]
    exact h.active sid s hs
  pending := h.pending

theorem setParty (h : g.Closed context) {q : Party} {new : Option String} {c : String}
    (hq : Shaken c g.party q new) (hc : context ≠ c) : (g.setParty q).Closed context where
  active sid t ht := by
    rcases hq.active sid t ht with hs | ⟨-, -, hcontext⟩
    · exact h.active sid t hs
    · rw [hcontext]
      exact hc.symm
  pending x hx := by
    rcases hq.pending x hx with hold | hcontext
    · exact h.pending x hold
    · rw [hcontext]
      exact hc.symm

theorem abortContext (h : g.Closed context) (c : String) : (g.abortContext c).Closed context where
  active := (h.setEndpoint (g.abortContext_dwindles c)).active
  pending x hx := h.pending x ((g.abortContext_pending c).mp hx).1

end Closed

theorem abortContext_closed (g : Guardian) (context : String) :
    (g.abortContext context).Closed context where
  active _ _ ht := g.abortContext_clears context ht
  pending _ hx := ((g.abortContext_pending context).mp hx).2

def Shut (g : Guardian) : Prop := ∀ context ∈ g.blocked, g.Closed context

end Guardian

/-! ## What a report adds -/

namespace Gathered
variable {b : Gathered} {report : ReceiveReport} {file : String}

theorem mem_delivered {d : Delivery} (h : d ∈ (b.appendReport report file sid).delivered) :
    d ∈ b.delivered ∨ d ∈ report.delivered := by
  unfold appendReport at h
  cases hab : report.aborted with
  | none =>
    rw [hab] at h
    exact List.mem_append.mp h
  | some e =>
    rw [hab] at h
    exact List.mem_append.mp (List.mem_of_mem_filter h)

theorem mem_aborted {p : String × SecureError} :
    p ∈ (b.appendReport report file sid).aborted ↔
      p ∈ b.aborted ∨ ∃ e, report.aborted = some e ∧ p = (sid, e) := by
  unfold appendReport
  cases report.aborted with
  | none => simp
  | some e => simp

end Gathered

/-! ## An open request -/

structure Running (g₀ : Guardian) (context : String) (k : Intake) : Prop where
  sane : Sane k.guardian
  pins : k.guardian.pins = g₀.pins
  blocked : k.guardian.blocked = g₀.blocked
  others : ∀ c ≠ context, g₀.Closed c → k.guardian.Closed c
  secure : g₀.requiresSecure = true → ∀ d ∈ k.gathered.delivered, d.sid ≠ ""
  undegraded : ∀ p ∈ k.gathered.aborted, Undegraded p.2

structure Ended (g₀ : Guardian) (context : String) (k : Intake) : Prop where
  sane : Sane k.guardian
  pins : k.guardian.pins = g₀.pins
  blocked : k.guardian.blocked = insert context g₀.blocked
  closed : k.guardian.Closed context
  others : ∀ c ≠ context, g₀.Closed c → k.guardian.Closed c
  delivered : k.gathered.delivered = []

namespace Running
variable {g₀ : Guardian} {k k' : Intake} {f : EdgeFile}

theorem start (h : Sane g₀) : Running g₀ context (.start g₀) where
  sane := h
  pins := rfl
  blocked := rfl
  others _ _ hc := hc
  secure _ _ hd := absurd hd List.not_mem_nil
  undegraded _ hp := absurd hp List.not_mem_nil

/-- The transport reports on a session of the guardian. -/
theorem report (h : Running g₀ context k) {result : Endpoint × ReceiveReport}
    (hresult : Reports sid k.guardian.endpoint result) (hsid : sid ≠ "") (file : String) :
    Running g₀ context (k.report result file sid) where
  sane := h.sane.setEndpoint hresult.tidy hresult.dwindles
  pins := h.pins
  blocked := h.blocked
  others c hc hclosed := (h.others c hc hclosed).setEndpoint hresult.dwindles
  secure hsecure d hd := by
    rcases Gathered.mem_delivered hd with hold | hnew
    · exact h.secure hsecure d hold
    · rw [hresult.delivered d hnew]
      exact hsid
  undegraded p hp := by
    rcases Gathered.mem_aborted.mp hp with hold | ⟨e, he, rfl⟩
    · exact h.undegraded p hold
    · exact fun hcon => hresult.undegraded (he.trans (congrArg some hcon))

theorem step (h : Running g₀ context k) {r : Except SecureError Unit}
    (hstep : FileStep F C context k f (k', r)) (hr : r ≠ .error .downgradeDetected) :
    Running g₀ context k' := by
  cases hstep with
  | passed => exact h
  | shook _ hshaken =>
    exact ⟨h.sane.setParty hshaken, h.pins, h.blocked,
      fun c hc hclosed => (h.others c hc hclosed).setParty hshaken hc, h.secure, h.undegraded⟩
  | downgraded => exact absurd rfl hr
  | plain _ hinsecure =>
    have hpins : k.guardian.requiresSecure = g₀.requiresSecure := by
      rw [Guardian.requiresSecure, Guardian.requiresSecure, h.pins]
    refine ⟨h.sane, h.pins, h.blocked, h.others, fun hsecure => ?_, h.undegraded⟩
    rw [← hpins, hinsecure] at hsecure
    cases hsecure
  | refused _ hview =>
    refine ⟨h.sane.close _, h.pins, h.blocked,
      fun c hc hclosed => (h.others c hc hclosed).setEndpoint (.close k.guardian.endpoint _),
      h.secure, fun p hp => ?_⟩
    rcases List.mem_append.mp hp with hold | hnew
    · exact h.undegraded p hold
    · rw [List.mem_singleton.mp hnew]
      exact contractView_fails context f.session _ hview
  | reported hmessage =>
    obtain ⟨hsid, s, hs, -⟩ := messageOf_eq_some hmessage
    exact h.report (.receive h.sane.tidy hsid _) (h.sane.named _ s hs).2 f.name

theorem fileTurn (h : Running g₀ context k) :
    Sum.elim (Running g₀ context) (Ended g₀ context) (fileTurn F K C context k f) := by
  cases hturn : Secure.fileTurn F K C context k f with
  | inl k' =>
    obtain ⟨k₁, r, hstep, hr, rfl | ⟨e, rfl⟩⟩ := fileTurn_inl hturn
    · exact h.step hstep hr
    · have h₁ := h.step hstep hr
      exact ⟨h₁.sane, h₁.pins, h₁.blocked, h₁.others, h₁.secure, h₁.undegraded⟩
  | inr k' =>
    obtain ⟨-, rfl⟩ := fileTurn_inr hturn
    refine ⟨Guardian.abortContext_sane h.sane context, h.pins, ?_,
      k.guardian.abortContext_closed context,
      fun c hc hclosed => (h.others c hc hclosed).abortContext context, rfl⟩
    exact congrArg (insert context) h.blocked

theorem observeTurn (h : Running g₀ context k) {edge : Outside} {s : SessionInfo}
    (hs : s.sid ≠ "") :
    Sum.elim (Running g₀ context) (fun r => Running g₀ context r.1)
      (observeTurn F context edge k s) := by
  unfold Secure.observeTurn
  cases contractView F context (edge.observed s.sid) with
  | error e => exact h
  | ok view => exact h.report (.observe h.sane.tidy s.sid view) hs "observation"

end Running

theorem either_of_elim {I J : Intake → Prop} {r : Intake ⊕ Intake} (h : Sum.elim I J r) :
    I (r.elim id id) ∨ J (r.elim id id) := by
  cases r with
  | inl k => exact .inl h
  | inr k => exact .inr h

namespace Ended
variable {g₀ : Guardian} {k : Intake}

theorem sessionsOf (h : Ended g₀ context k) : k.guardian.sessionsOf context = [] :=
  Guardian.sessionsOf_eq_nil h.closed.active

theorem messagePhase (h : Ended g₀ context k) (edge : Outside) :
    messagePhase F K C context edge k = .inl k := by
  rw [Secure.messagePhase, messageFiles, h.sessionsOf]
  rfl

end Ended

/-- Behind both phases a downgrade was found, or none. -/
theorem phases_either {g : Guardian} (hg : Sane g) (edge : Outside) :
    Running g context (phases F K C context edge g) ∨ Ended g context (phases F K C context edge g) := by
  have hfiles (files : List EdgeFile) {k : Intake} (hk : Running g context k) :
      Sum.elim (Running g context) (Ended g context) (Scan.run (fileTurn F K C context) k files) :=
    Scan.run_keeps (fun k f _ h => h.fileTurn) hk
  rcases either_of_elim (hfiles edge.handshakes (.start hg)) with hrunning | hended
  · exact either_of_elim (hfiles _ hrunning)
  · have hphase := hended.messagePhase (F := F) (K := K) (C := C) edge
    rw [phases, handshakePhase, hphase]
    exact .inr hended

inductive Received (g : Guardian) (context : String) :
    Guardian × Except SecureError Gathered × List String → Prop
  | barred {e : SecureError} : g.allowedContext context = .error e →
      Received g context (g, .error e, [])
  | running {k : Intake} {result : Except SecureError Gathered} : context ∉ g.blocked →
      Running g context k → (∀ b, result = .ok b → b = k.gathered) →
      Received g context (k.guardian, result, k.established)
  | ended {k : Intake} : Ended g context k →
      Received g context (k.guardian, .ok k.gathered, k.established)

theorem allowedContext_eq_ok {g : Guardian} :
    g.allowedContext context = .ok () ↔ context ≠ "" ∧ context ∉ g.blocked := by
  simp [Guardian.allowedContext, guard_eq_ok]

theorem receive_received {g : Guardian} (hg : Sane g) (context : String) (edge : Outside) :
    Received g context (g.receive F K C context edge) := by
  unfold Guardian.receive
  cases hallowed : g.allowedContext context with
  | error e => exact .barred hallowed
  | ok _ =>
    have hopen := (allowedContext_eq_ok.mp hallowed).2
    dsimp only
    rcases phases_either (F := F) (K := K) (C := C) hg edge with hrunning | hended
    · have hobserved : Sum.elim (Running g context) (fun r => Running g context r.1)
          (Scan.run (observeTurn F context edge) (phases F K C context edge g)
            ((phases F K C context edge g).guardian.sessionsOf context)) := by
        refine Scan.run_keeps (fun k s hs h => h.observeTurn ?_) hrunning
        obtain ⟨t, ht, -⟩ := (Guardian.mem_sessionsOf hrunning.sane).mp hs
        exact (hrunning.sane.named s.sid t ht).2
      cases hrun : Scan.run (observeTurn F context edge) (phases F K C context edge g)
          ((phases F K C context edge g).guardian.sessionsOf context) with
      | inl k =>
        rw [hrun] at hobserved
        exact .running hopen hobserved fun b hb => (Except.ok.inj hb).symm
      | inr r =>
        rw [hrun] at hobserved
        exact .running hopen hobserved nofun
    · rw [hended.sessionsOf]
      exact .ended hended

/-! ## Any request -/

/-- The guardian after a request, which keeps what is shut. -/
structure Kept (g g' : Guardian) : Prop where
  sane : Sane g'
  pins : g'.pins = g.pins
  blocked : g.blocked ⊆ g'.blocked
  shut : g.Shut → g'.Shut

namespace Kept
variable {g : Guardian}

theorem refl (h : Sane g) : Kept g g := ⟨h, rfl, Finset.Subset.refl _, id⟩

theorem trans {g' g'' : Guardian} (h : Kept g g') (h' : Kept g' g'') : Kept g g'' :=
  ⟨h'.sane, h'.pins.trans h.pins, h.blocked.trans h'.blocked, fun hshut => h'.shut (h.shut hshut)⟩

theorem setParty (h : Sane g) {q : Party} {new : Option String}
    (hq : Shaken context g.party q new) (hopen : context ∉ g.blocked) : Kept g (g.setParty q) where
  sane := h.setParty hq
  pins := rfl
  blocked := Finset.Subset.refl _
  shut hshut c hc := (hshut c hc).setParty hq fun heq => hopen (heq ▸ hc)

theorem received (h : Sane g) {r : Guardian × Except SecureError Gathered × List String}
    (hr : Received g context r) : Kept g r.1 := by
  cases hr with
  | barred => exact .refl h
  | running hopen hk =>
    refine ⟨hk.sane, hk.pins, hk.blocked.ge, fun hshut c hc => ?_⟩
    rw [hk.blocked] at hc
    exact hk.others c (fun heq => hopen (heq ▸ hc)) (hshut c hc)
  | ended hk =>
    refine ⟨hk.sane, hk.pins, hk.blocked ▸ Finset.subset_insert _ _, fun hshut c hc => ?_⟩
    rw [hk.blocked, Finset.mem_insert] at hc
    by_cases hcontext : c = context
    · exact hcontext ▸ hk.closed
    · exact hk.others c hcontext (hshut c (hc.resolve_left hcontext))

end Kept

variable (F K C) in
theorem handle_kept {g : Guardian} (h : Sane g) (request : Request) (edge : Outside) :
    Kept g (g.handle F K C request edge).1 := by
  cases request with
  | session peer context =>
    simp only [Guardian.handle, Guardian.openSession]
    cases hallowed : g.allowedContext context with
    | error e => exact .refl h
    | ok _ =>
      dsimp only
      cases g.pins[peer]? with
      | none => exact .refl h
      | some pin =>
        dsimp only
        cases bytes32 pin.ed25519Pub with
        | error e => exact .refl h
        | ok key =>
          have hshaken := g.party.initiate_shaken (F := F) (K := K) peer context key edge.entropy
          have hopen := (allowedContext_eq_ok.mp hallowed).2
          dsimp only
          generalize g.party.initiate F K peer context key edge.entropy = answer at hshaken
          obtain ⟨p, e | hello⟩ := answer
          · exact .setParty h hshaken hopen
          · exact .setParty h hshaken hopen
  | seal_ sid contract payload =>
    simp only [Guardian.handle, Guardian.sealMessage]
    split
    · exact .refl h
    · next payload view _ =>
      have hdwindles : Dwindles g.endpoint.manager _ :=
        .seal_ (F := F) g.handshakes g.endpoint sid contract payload view
      have htidy := h.tidy.seal_ (F := F) sid contract payload view
      generalize g.endpoint.seal_ F sid contract payload view = answer at hdwindles htidy
      have hkept : Kept g (g.setEndpoint answer.1) :=
        ⟨h.setEndpoint htidy hdwindles, rfl, Finset.Subset.refl _,
          fun hshut c hc => (hshut c hc).setEndpoint hdwindles⟩
      obtain ⟨x, encrypted, e | env⟩ := answer
      · exact hkept
      · exact hkept
  | open_ context => exact .received h (receive_received h context edge)
  | status => exact .refl h
  | fingerprint => exact .refl h

variable (F K C) in
theorem dispatch_kept {g : Guardian} (h : Sane g) (bytes : Bytes) (edge : Outside) :
    Kept g (g.dispatch F K C bytes edge).1 := by
  unfold Guardian.dispatch
  cases Request.ofBytes C bytes with
  | error e => exact .refl h
  | ok request => exact handle_kept F K C h request edge

/-! ## Runs of a guardian -/

theorem addPin_eq_ok {pins pins' : ExtTreeMap String Pin} {p : Pin}
    (h : Guardian.addPin pins p = .ok pins') : p.urn ∉ pins ∧ pins' = pins.insert p.urn p := by
  unfold Guardian.addPin at h
  simp only [guard_eq_ok, bind_eq_ok, not_or, Except.ok.injEq] at h
  obtain ⟨⟨-, hnew⟩, -, -, rfl⟩ := h
  exact ⟨hnew, rfl⟩

/-- Every pin of the list is found under its name, and none is lost. -/
theorem pins_of_foldlM {pins pins' : ExtTreeMap String Pin} {list : List Pin}
    (h : list.foldlM Guardian.addPin pins = .ok pins') :
    (∀ p ∈ list, pins'[p.urn]? = some p) ∧
      ∀ (urn : String) (p : Pin), pins[urn]? = some p → pins'[urn]? = some p := by
  induction list generalizing pins with
  | nil =>
    obtain rfl := Except.ok.inj h
    exact ⟨fun _ hp => absurd hp List.not_mem_nil, fun _ _ hp => hp⟩
  | cons p list ih =>
    rw [List.foldlM_cons, bind_eq_ok] at h
    obtain ⟨added, hadd, hrest⟩ := h
    obtain ⟨hnew, rfl⟩ := addPin_eq_ok hadd
    obtain ⟨hlist, hkeep⟩ := ih hrest
    refine ⟨List.forall_mem_cons.mpr ⟨hkeep _ _ ?_, hlist⟩, fun urn q hq => hkeep urn q ?_⟩
    · rw [lookup_insert, if_pos rfl]
    · have hne : urn ≠ p.urn := fun heq => hnew ((mem_iff_lookup _ _).mpr ⟨q, heq ▸ hq⟩)
      rw [lookup_insert, if_neg hne]
      exact hq

namespace Guardian
variable {local_ : String} {seed : Vector UInt8 32} {pins : List Pin} {mode : Mode} {g : Guardian}

theorem load_eq_ok (h : load local_ seed pins mode = .ok g) :
    g.endpoint = .new local_ seed ∧ g.blocked = ∅ ∧ ∀ p ∈ pins, g.pins[p.urn]? = some p := by
  unfold load Party.new at h
  simp only [bind_eq_ok, Except.ok.injEq] at h
  obtain ⟨party, hparty, known, hpins, rfl⟩ := h
  split_ifs at hparty
  obtain rfl := Except.ok.inj hparty
  exact ⟨rfl, rfl, (pins_of_foldlM hpins).1⟩

theorem load_sane (h : load local_ seed pins mode = .ok g) : Sane g where
  tidy := by
    rw [(load_eq_ok h).1]
    exact tidy_reached Foreign.placeholder local_ seed []
  named sid s hs := by
    rw [active, (load_eq_ok h).1] at hs
    have hnone : (Endpoint.new local_ seed).manager.active[sid]? = none := ExtTreeMap.getElem?_empty
    rw [hnone] at hs
    cases hs

theorem load_shut (h : load local_ seed pins mode = .ok g) : g.Shut := by
  intro context hcontext
  rw [(load_eq_ok h).2.1] at hcontext
  exact absurd hcontext (Finset.notMem_empty context)

theorem load_requiresSecure (h : load local_ seed pins mode = .ok g)
    (hpin : ∃ p ∈ pins, p.requireSecure = true) : g.requiresSecure = true := by
  obtain ⟨p, hp, hsecure⟩ := hpin
  exact requiresSecure_of_pin ((load_eq_ok h).2.2 p hp) hsecure

/-- A request that names the context, or a session that is not one of another context. -/
inductive Concerns (g : Guardian) (context : String) : Request → Prop
  | session (peer : String) : Concerns g context (.session peer context)
  | open_ : Concerns g context (.open_ context)
  | seal_ (sid contract payloadB64 : String) :
      (∀ s, g.active[sid]? = some s → s.info.hacpSession = context) →
      Concerns g context (.seal_ sid contract payloadB64)

/-- Nothing is done for a blocked context. -/
theorem handle_refuses (hblocked : context ∈ g.blocked) (hclosed : g.Closed context)
    {request : Request} (h : Concerns g context request) (edge : Outside) :
    ∃ e, (g.handle F K C request edge).2.result = .error e := by
  have hnot : g.allowedContext context ≠ .ok () := fun hok =>
    (allowedContext_eq_ok.mp hok).2 hblocked
  cases h with
  | session peer =>
    simp only [handle, openSession]
    cases hallowed : g.allowedContext context with
    | error e => exact ⟨e, rfl⟩
    | ok _ => exact absurd hallowed hnot
  | open_ =>
    simp only [handle, receive]
    cases hallowed : g.allowedContext context with
    | error e => exact ⟨e, rfl⟩
    | ok _ => exact absurd hallowed hnot
  | seal_ sid contract payloadB64 hsid =>
    have hinfo : g.endpoint.manager.info sid = .error .sessionUnknown := by
      cases hs : g.active[sid]? with
      | none => rw [info, show g.endpoint.manager.active[sid]? = none from hs]
      | some s => exact absurd (hsid s hs) (hclosed.active sid s hs)
    simp only [handle, sealMessage, hinfo, bind, Except.bind]
    exact ⟨_, rfl⟩

theorem handle_opened {request : Request} {edge : Outside} {gathered : Gathered}
    (h : (g.handle F K C request edge).2.result = .ok (.opened gathered)) :
    ∃ context, request = .open_ context ∧ (g.receive F K C context edge).2.1 = .ok gathered := by
  cases request with
  | session peer context =>
    simp only [handle, openSession] at h
    split at h
    · cases h
    · split at h
      · cases h
      · split at h
        · cases h
        · split at h
          · cases h
          · simp [bind_eq_ok] at h
  | seal_ sid contract payload =>
    simp only [handle, sealMessage] at h
    split at h
    · cases h
    · split at h
      · cases h
      · simp [bind_eq_ok] at h
  | open_ context =>
    refine ⟨context, rfl, ?_⟩
    simp only [handle] at h
    cases hresult : (g.receive F K C context edge).2.1 with
    | error e =>
      rw [hresult] at h
      cases h
    | ok b =>
      rw [hresult] at h
      cases h
      rfl
  | status => cases h
  | fingerprint => cases h

theorem dispatch_opened {bytes : Bytes} {edge : Outside} {gathered : Gathered}
    (h : (g.dispatch F K C bytes edge).2.result = .ok (.opened gathered)) :
    ∃ context, Request.ofBytes C bytes = .ok (.open_ context) ∧
      (g.receive F K C context edge).2.1 = .ok gathered ∧
      (g.dispatch F K C bytes edge).1 = (g.receive F K C context edge).1 := by
  unfold dispatch at h
  cases hrequest : Request.ofBytes C bytes with
  | error e =>
    rw [hrequest] at h
    cases h
  | ok request =>
    rw [hrequest] at h
    obtain ⟨context, rfl, hreceive⟩ := handle_opened h
    refine ⟨context, rfl, hreceive, ?_⟩
    rw [dispatch, hrequest]
    rfl

/-- What an open request answers is free of plain bytes. Where it found a downgrade it is empty,
and the context is blocked. -/
theorem receive_sound (hg : Sane g) (hsecure : g.requiresSecure = true) {edge : Outside}
    {gathered : Gathered} (h : (g.receive F K C context edge).2.1 = .ok gathered) :
    (∀ d ∈ gathered.delivered, d.sid ≠ "") ∧
      ((∃ p ∈ gathered.aborted, p.2 = .downgradeDetected) →
        gathered.delivered = [] ∧ context ∈ (g.receive F K C context edge).1.blocked) := by
  have hreceived := receive_received (F := F) (K := K) (C := C) hg context edge
  generalize g.receive F K C context edge = result at h hreceived
  cases hreceived with
  | barred => cases h
  | running _ hk hresult =>
    obtain rfl := hresult gathered h
    refine ⟨hk.secure hsecure, ?_⟩
    rintro ⟨p, hp, hdowngraded⟩
    exact absurd hdowngraded (hk.undegraded p hp)
  | ended hk =>
    obtain rfl := Except.ok.inj h
    rw [hk.delivered, hk.blocked]
    exact ⟨fun _ hd => absurd hd List.not_mem_nil, fun _ => ⟨rfl, Finset.mem_insert_self _ _⟩⟩

variable (F K C) in
theorem kept_exec (hg : Sane g) (inputs : List (Bytes × Outside)) :
    Kept g ((machine F K C).exec g inputs) :=
  Machine.exec_relation (P := Sane) (R := fun g g' => Sane g → Kept g g') (fun _ => .refl)
    (fun _ _ _ hab hbc ha => (hab ha).trans (hbc (hab ha).sane))
    (fun _ i hg => ⟨(dispatch_kept F K C hg i.1 i.2).sane,
      fun hg => dispatch_kept F K C hg i.1 i.2⟩) hg inputs hg

variable (F K C) in
/-- Where a pin requires secure delivery, plain bytes are never delivered, and a request that
detects a downgrade delivers nothing and blocks its context. A context is closed from the request
that blocks it, and every later request about it fails. -/
theorem no_downgrade (hload : load local_ seed pins mode = .ok g)
    (hpin : ∃ p ∈ pins, p.requireSecure = true) (inputs : List (Bytes × Outside)) :
    ∀ e ∈ (machine F K C).history g inputs,
      (∀ gathered, e.output.result = .ok (.opened gathered) →
        (∀ d ∈ gathered.delivered, d.sid ≠ "") ∧
          ((∃ p ∈ gathered.aborted, p.2 = .downgradeDetected) → gathered.delivered = [] ∧
            ∃ context, Request.ofBytes C e.input.1 = .ok (.open_ context) ∧
              context ∈ e.after.blocked)) ∧
      ∀ context ∈ e.after.blocked, e.after.Closed context ∧
        ∀ continuation : List (Bytes × Outside),
          ∀ e' ∈ (machine F K C).history e.after continuation,
            context ∈ e'.after.blocked ∧ e'.after.Closed context ∧
              ∀ request, Request.ofBytes C e'.input.1 = .ok request →
                Concerns e'.before context request → ∃ error, e'.output.result = .error error := by
  intro e he
  obtain ⟨before, i, rest, rfl, rfl⟩ := (machine F K C).mem_history he
  have hstart := load_sane hload
  have hbefore := kept_exec F K C hstart before
  have hafter := hbefore.trans (dispatch_kept F K C hbefore.sane i.1 i.2)
  have hshut := hafter.shut (load_shut hload)
  refine ⟨fun gathered hopened => ?_, fun context hcontext => ⟨hshut context hcontext, ?_⟩⟩
  · have hsecure : ((machine F K C).exec g before).requiresSecure = true := by
      rw [requiresSecure, hbefore.pins]
      exact load_requiresSecure hload hpin
    obtain ⟨context, hrequest, hreceive, hafter⟩ := dispatch_opened hopened
    obtain ⟨hplain, hdowngraded⟩ := receive_sound hbefore.sane hsecure hreceive
    refine ⟨hplain, fun hdetected => ?_⟩
    obtain ⟨hempty, hblocked⟩ := hdowngraded hdetected
    rw [← hafter] at hblocked
    exact ⟨hempty, context, hrequest, hblocked⟩
  · intro continuation e' he'
    obtain ⟨pre, j, post, rfl, rfl⟩ := (machine F K C).mem_history he'
    have hpre := kept_exec F K C hafter.sane pre
    have hblocked := hpre.blocked hcontext
    have hclosed := hpre.shut hshut context hblocked
    have hstep := dispatch_kept F K C hpre.sane j.1 j.2
    refine ⟨hstep.blocked hblocked, hstep.shut (hpre.shut hshut) context (hstep.blocked hblocked), ?_⟩
    intro request hrequest hconcerns
    obtain ⟨error, hrefused⟩ := handle_refuses (F := F) (K := K) (C := C) hblocked hclosed hconcerns j.2
    refine ⟨error, ?_⟩
    change (Guardian.dispatch F K C _ j.1 j.2).2.result = .error error
    rw [dispatch, show Request.ofBytes C j.1 = .ok request from hrequest]
    exact hrefused

/-- Plain bytes in front of the handshakes are reported as a downgrade. -/
theorem receive_downgraded (hg : Sane g) (hallowed : g.allowedContext context = .ok ())
    {edge : Outside} {f : EdgeFile} {rest : List EdgeFile} (hedge : edge.handshakes = f :: rest)
    (hplain : HoldsPlain F C f) (hsecure : g.requiresSecure = true) :
    ∃ gathered, (g.receive F K C context edge).2.1 = .ok gathered ∧
      ∃ p ∈ gathered.aborted, p.2 = .downgradeDetected := by
  obtain ⟨k, hturn⟩ := (fileTurn_leaves (F := F) (K := K) (C := C) (k := .start g)).mpr
    ⟨hplain, hsecure⟩
  have hphase : handshakePhase F K C context edge (.start g) = .inr k := by
    rw [handshakePhase, hedge]
    exact Scan.run_cons_inr hturn
  have hended : Ended g context k := by
    have hfiles : Sum.elim (Running g context) (Ended g context)
        (handshakePhase F K C context edge (.start g)) :=
      Scan.run_keeps (fun _ _ _ h => h.fileTurn) (.start hg)
    rwa [hphase] at hfiles
  have hphases : phases F K C context edge g = k := by
    rw [phases, hphase]
    exact congrArg (fun r => r.elim id id) (hended.messagePhase edge)
  refine ⟨k.gathered, ?_, ("", .downgradeDetected), ?_, rfl⟩
  · simp only [receive, hallowed, hphases, hended.sessionsOf]
    rfl
  · rw [(fileTurn_inr hturn).2]
    exact List.mem_append_right _ List.mem_cons_self

/-! ## A guardian with a secure pin -/

def securePin : Pin := ⟨"urn:hacp:agent:b", encodeHex (List.replicate 32 3), true⟩

theorem addPin_securePin :
    addPin ∅ securePin = .ok ((∅ : ExtTreeMap String Pin).insert securePin.urn securePin) := by
  have hurn : urn securePin.urn = true := by decide
  have hkey : bytes32 securePin.ed25519Pub = .ok (.replicate 32 3) := Party.bytes32_eq_ok.mpr rfl
  have hnew : securePin.urn ∉ (∅ : ExtTreeMap String Pin) := ExtTreeMap.not_mem_empty
  simp [addPin, hurn, hkey, hnew, bind, Except.bind]

theorem load_securePin :
    ∃ g, load "urn:hacp:agent:a" (.replicate 32 1) [securePin] .degraded = .ok g := by
  have hlocal : urn "urn:hacp:agent:a" = true := by decide
  rw [load, Party.new, if_pos hlocal]
  simp only [List.foldlM_cons, List.foldlM_nil, addPin_securePin, bind, Except.bind, pure,
    Except.pure]
  exact ⟨_, rfl⟩

theorem load_secure {g : Guardian}
    (hg : load "urn:hacp:agent:a" (.replicate 32 1) [securePin] .degraded = .ok g) :
    (∀ p ∈ g.pins.toList, p.2.requireSecure = true) ∧ g.mode = .degraded := by
  have hlocal : urn "urn:hacp:agent:a" = true := by decide
  rw [load, Party.new, if_pos hlocal] at hg
  simp only [List.foldlM_cons, List.foldlM_nil, addPin_securePin, bind, Except.bind, pure,
    Except.pure, Except.ok.injEq] at hg
  subst hg
  refine ⟨fun p hp => ?_, rfl⟩
  have hlookup := ExtTreeMap.mem_toList_iff_getElem?_eq_some.mp hp
  dsimp only at hlookup
  rw [lookup_insert, ExtTreeMap.getElem?_empty] at hlookup
  split_ifs at hlookup
  rw [← Option.some.inj hlookup]
  rfl

def crates : Crates := ⟨readJson, readJson, fun _ => none, fun _ => .replicate 32 0⟩

def exchange : KeyExchange := ⟨fun _ _ => .replicate 32 0, fun _ _ _ _ => none⟩

def openRequest : Json := .object [("op", .string "open"), ("hacp_session", .string "s-1")]

def openBytes : Bytes := asBytes (String.ofList (plainText openRequest))

theorem length_openBytes : openBytes.length ≤ 64 := by
  rw [openBytes, asBytes, String.toList_ofList]
  decide

theorem ofBytes_openBytes : Request.ofBytes crates openBytes = .ok (.open_ "s-1") := by
  have hread : readJson openBytes = some openRequest :=
    readJson_reads _ _ (plainText_denotes openRequest rfl (by decide)) rfl
  have hvalue : crates.value openBytes = some openRequest := hread
  have htokens : crates.tokens openBytes = some openRequest := hread
  have hlimit : ¬limit < openBytes.length := by
    have hlength := length_openBytes
    norm_num [limit]
    omega
  have hrequest : Request.ofJson openRequest = some (.open_ "s-1") := by
    simp [Request.ofJson, openRequest, allowedFields, List.lookup_cons, Json.asStr]
  have hop : (openRequest.get? "op").bind Json.asStr = some "open" := rfl
  have hmembers : openRequest.asObject =
      some [("op", .string "open"), ("hacp_session", .string "s-1")] := rfl
  simp [Request.ofBytes, hlimit, hvalue, htokens, hrequest, hop, hmembers, orSchema, bind,
    Except.bind, operations, allowedFields]

/-- Bytes that are no envelope. -/
def plainFile : EdgeFile := ⟨"hello-0.json", .ok [104, 105], .notFound, ⟨none, none⟩, .ok ()⟩

def plainEdge : Outside where
  session := .notFound
  entropy := ⟨none, none⟩
  written := .ok ()
  handshakes := [plainFile]
  messages _ := []
  observed _ := .notFound

theorem history_twice (i : Bytes × Outside) : ∃ first second,
    (machine F K C).history g [i, i] = [first, second] ∧ first.input = i ∧
      first.output = (g.dispatch F K C i.1 i.2).2 ∧
      (machine F K C).history first.after [i] = [second] ∧ second.input = i :=
  ⟨_, _, rfl, rfl, rfl, rfl, rfl⟩

/-- The first request finds plain bytes and blocks the context, the second one is refused. -/
theorem no_downgrade_plain : ∃ g,
    load "urn:hacp:agent:a" (.replicate 32 1) [securePin] .degraded = .ok g ∧
    ∃ first second, (machine Foreign.placeholder exchange crates).history g
        [(openBytes, plainEdge), (openBytes, plainEdge)] = [first, second] ∧
      (∃ gathered, first.output.result = .ok (.opened gathered) ∧
        (∃ p ∈ gathered.aborted, p.2 = .downgradeDetected) ∧ gathered.delivered = []) ∧
      "s-1" ∈ first.after.blocked ∧ first.after.Closed "s-1" ∧
      ∃ error, second.output.result = .error error := by
  obtain ⟨g, hload⟩ := load_securePin
  have hpin : ∃ p ∈ [securePin], p.requireSecure = true :=
    ⟨securePin, List.mem_singleton_self _, rfl⟩
  have hallowed : g.allowedContext "s-1" = .ok () := by
    rw [allowedContext_eq_ok, (load_eq_ok hload).2.1]
    exact ⟨by decide, Finset.notMem_empty _⟩
  have hedge : plainEdge.handshakes = [plainFile] := rfl
  have hplain : HoldsPlain Foreign.placeholder crates plainFile :=
    ⟨[104, 105], .schemaViolation, rfl, rfl, rfl⟩
  obtain ⟨gathered, hreceive, hdetected⟩ := receive_downgraded (K := exchange) (load_sane hload)
    hallowed hedge hplain (load_requiresSecure hload hpin)
  obtain ⟨first, second, hhistory, hinput, houtput, hlater, hagain⟩ :=
    history_twice (F := Foreign.placeholder) (K := exchange) (C := crates) (g := g)
      (openBytes, plainEdge)
  have hopened : first.output.result = .ok (.opened gathered) := by
    rw [houtput, dispatch, ofBytes_openBytes]
    simp only [handle, hreceive, Except.map]
  have hrun := no_downgrade Foreign.placeholder exchange crates hload hpin
    [(openBytes, plainEdge), (openBytes, plainEdge)] first (hhistory ▸ List.mem_cons_self)
  obtain ⟨hempty, context, hrequest, hblocked⟩ := (hrun.1 gathered hopened).2 hdetected
  obtain rfl : context = "s-1" := by
    rw [hinput, ofBytes_openBytes] at hrequest
    simpa using hrequest.symm
  obtain ⟨hclosed, hrefused⟩ := hrun.2 "s-1" hblocked
  obtain ⟨-, -, herror⟩ := hrefused [(openBytes, plainEdge)] second
    (hlater ▸ List.mem_cons_self)
  exact ⟨g, hload, first, second, hhistory, ⟨gathered, hopened, hdetected, hempty⟩, hblocked,
    hclosed, herror (.open_ "s-1") (by rw [hagain, ofBytes_openBytes]) .open_⟩

end Guardian
end Hacp.Secure
