import Hacp.Secure.Failures
import Hacp.Secure.Guardian
import Hacp.Secure.HandshakeAgreement

/-!
# What one file does

A file of the edge is passed over, finishes a handshake, delivers plain bytes, ends the
context, or is a message of an active session: then its session ends because the contract
view is refused, or the transport reports on it. Whatever it is, the windows stay in order
and every session keeps its own identifier.
-/
namespace Hacp.Secure
open Lib V2 Std SessionManager Endpoint

variable {F : Foreign} {K : KeyExchange} {C : Crates} {context sid : String}

/-! ## Sessions that end or make progress -/

def Dwindles (m n : SessionManager) : Prop :=
  ∀ (sid : String) (t : Session), n.active[sid]? = some t →
    ∃ s, m.active[sid]? = some s ∧ t.fixed = s.fixed

namespace Dwindles
variable {m n r : SessionManager} {x y : Endpoint} {k : String}

theorem refl (m : SessionManager) : Dwindles m m := fun _ t ht => ⟨t, ht, rfl⟩

theorem trans (h : Dwindles m n) (h' : Dwindles n r) : Dwindles m r := by
  intro sid u hu
  obtain ⟨t, ht, hut⟩ := h' sid u hu
  obtain ⟨s, hs, hts⟩ := h sid t ht
  exact ⟨s, hs, hut.trans hts⟩

theorem inactive (h : Dwindles m n) (hm : m.active[k]? = none) : n.active[k]? = none := by
  cases hn : n.active[k]? with
  | none => rfl
  | some t =>
    obtain ⟨s, hs, -⟩ := h k t hn
    rw [hm] at hs
    cases hs

theorem of_frame (hf : Frame k x y) (hk : ∀ t, y.manager.active[k]? = some t →
    ∃ s, x.manager.active[k]? = some s ∧ t.fixed = s.fixed) : Dwindles x.manager y.manager := by
  intro sid t ht
  by_cases hsid : sid = k
  · subst hsid
    exact hk t ht
  · rw [hf.active sid hsid] at ht
    exact ⟨t, ht, rfl⟩

theorem of_gone (hf : Frame k x y) (hk : y.manager.active[k]? = none) :
    Dwindles x.manager y.manager :=
  of_frame hf fun t ht => by
    rw [hk] at ht
    cases ht

theorem of_alike (hf : Frame k x y) (h : Alike k x.manager y.manager) :
    Dwindles x.manager y.manager := by
  refine of_frame hf fun t ht => ?_
  have hmap := congrArg (Option.map Session.fixed) h.session
  rw [Option.map_map, Option.map_map, ht, Option.map_some] at hmap
  obtain ⟨s, hs, hfixed⟩ := Option.map_eq_some_iff.mp hmap.symm
  exact ⟨s, hs, hfixed.symm⟩

theorem admitted {result : Endpoint × ReceiveReport} (h : Admitted k x result) :
    Dwindles x.manager result.1.manager := by
  cases h with
  | ended hab => exact of_gone hab.frame hab.gone.session
  | kept hf halike => exact of_alike hf halike

theorem close (x : Endpoint) (sid : String) : Dwindles x.manager (x.close sid).1.manager :=
  of_gone (Frame.close sid x) (gone_close sid x).session

theorem closeContext (p : Party) (context : String) :
    Dwindles p.manager (p.closeContext context).manager :=
  (p.closeContext_continues context).active

theorem seal_ (h : Handshakes) (x : Endpoint) (sid contract : String) (payload : Bytes)
    (view : ContractView) :
    Dwindles x.manager (x.seal_ F sid contract payload view).1.manager := by
  have hmanager := (Party.seal_continues (F := F) ⟨x.manager, h⟩ sid (x.windowOf sid).sendSeq
    contract payload).active
  have hcall := seal_call (F := F) x sid contract payload view
  generalize x.seal_ F sid contract payload view = result at hcall ⊢
  cases hcall with
  | unknown => exact refl x.manager
  | ended e _ hframe hgone => exact of_gone (x := x.retain) hframe hgone.session
  | failed _ _ hseal =>
    rw [hseal] at hmanager
    exact hmanager
  | sealed _ _ hseal =>
    rw [hseal] at hmanager
    exact hmanager

end Dwindles

/-! ## What the transport does when it is asked about one session -/

/-- Other sessions are as they were, and windows at most dropped. This one is over and delivers
nothing, or its position passed what is delivered. -/
structure Reports (sid : String) (x : Endpoint) (result : Endpoint × ReceiveReport) : Prop where
  tidy : Tidy result.1
  dwindles : Dwindles x.manager result.1.manager
  others : ∀ k : String, k ≠ sid → result.1.manager.active[k]? = x.manager.active[k]?
  windows : ∀ (k : String) (w : Window), result.1.window k = some w → k = sid ∨ x.window k = some w
  elsewhere : ∀ (k : String) (s : Session), k ≠ sid → x.manager.active[k]? = some s →
    result.1.windowOf k = x.windowOf k
  delivered : ∀ d ∈ result.2.delivered, d.sid = sid
  undegraded : result.2.Undegraded
  outcome : (∃ e, result.2.aborted = some e ∧ result.2.delivered = [] ∧
      result.1.manager.active[sid]? = none) ∨
    result.2.aborted = none ∧ ∀ s, result.1.manager.active[sid]? = some s →
      (result.1.windowOf sid).deliveryNext.toNat =
        (x.windowOf sid).deliveryNext.toNat + result.2.delivered.length

namespace Reports
variable {x y : Endpoint} {result : Endpoint × ReceiveReport}

/-- The call may first drop windows of sessions that are over. -/
theorem of_admitted (hy : Tidy y) (hmanager : y.manager = x.manager)
    (hwindow : ∀ (k : String) (w : Window), y.window k = some w → x.window k = some w)
    (hactive : ∀ (k : String) (s : Session), x.manager.active[k]? = some s →
      y.windowOf k = x.windowOf k)
    (h : Admitted sid y result) (hresult : result.2.Undegraded) : Reports sid x result := by
  have hframe : Frame sid y result.1 := by
    cases h with
    | ended hab => exact hab.frame
    | kept hf => exact hf
  refine ⟨hy.admitted h, hmanager ▸ .admitted h, fun k hk => hmanager ▸ hframe.active k hk,
    fun k w hw => ?_, fun k s hk hs => ?_, ?_, hresult, ?_⟩
  · by_cases hk : k = sid
    · exact .inl hk
    · rw [hframe.window k hk] at hw
      exact .inr (hwindow k w hw)
  · rw [← hactive k s hs, windowOf, windowOf, hframe.window k hk]
  · cases h with
    | ended hab =>
      rw [hab.delivered]
      exact fun _ hd => absurd hd List.not_mem_nil
    | kept _ _ _ _ hsid => exact hsid
  · cases h with
    | ended hab =>
      obtain ⟨e, he⟩ := Option.ne_none_iff_exists'.mp hab.aborted
      exact .inl ⟨e, he, hab.delivered, hab.gone.session⟩
    | kept hf halike _ haborted _ hposition =>
      refine .inr ⟨haborted, fun t ht => ?_⟩
      obtain ⟨s, hs, -⟩ := Dwindles.of_alike hf halike sid t ht
      rw [hposition, hactive sid s (hmanager ▸ hs)]

theorem receive (hx : Tidy x) {env : SecureEnvelope} (hsid : env.sid = some sid)
    (view : ContractView) : Reports sid x (x.receive F env view) := by
  refine of_admitted hx.retain rfl (fun k w hw => ?_) (fun k s hs => windowOf_retain hs)
    (hx.receive hsid view) (receive_undegraded x env view)
  rw [window_retain] at hw
  split_ifs at hw
  exact hw

theorem observe (hx : Tidy x) (sid : String) (view : ContractView) :
    Reports sid x (x.observe F sid view) := by
  cases hs : x.manager.active[sid]? with
  | some s =>
    exact of_admitted hx rfl (fun _ _ hw => hw) (fun _ _ _ => rfl) (hx.observe hs view)
      (observe_undegraded x sid view)
  | none =>
    rw [observe_unknown hs]
    have hdrop := Frame.dropWindow sid x
    have hgone : (x.dropWindow sid).window sid = none := by rw [window_dropWindow, if_pos rfl]
    refine ⟨hx.of_gone hdrop hgone, .refl x.manager, fun _ _ => rfl, fun k w hw => ?_,
      fun k s hk _ => ?_, fun _ hd => absurd hd List.not_mem_nil, nofun,
      .inr ⟨rfl, fun s hsome => ?_⟩⟩
    · by_cases hk : k = sid
      · exact .inl hk
      · exact .inr (hdrop.window k hk ▸ hw)
    · rw [windowOf, windowOf, hdrop.window k hk]
    · have hnone : (x.dropWindow sid).manager.active[sid]? = none := hs
      rw [hnone] at hsome
      cases hsome

end Reports

/-! ## What a handshake does to the sessions -/

/-- Sessions and pending handshakes were dropped; what came to be belongs to the context. -/
structure Shaken (context : String) (p q : Party) (sid : Option String) : Prop where
  active : ∀ (k : String) (t : Session), q.manager.active[k]? = some t →
    p.manager.active[k]? = some t ∨ sid = some k ∧ t.info.sid = k ∧ t.info.hacpSession = context
  pending : ∀ h ∈ q.handshakes.pending, h ∈ p.handshakes.pending ∨ h.hacpSession = context
  nonempty : ∀ k ∈ sid, k ≠ ""

namespace Shaken
variable {p q : Party}

theorem refl (context : String) (p : Party) : Shaken context p p none :=
  ⟨fun _ _ h => .inl h, fun _ h => .inl h, nofun⟩

theorem of_trimmed (h : Party.Trimmed p q) : Shaken context p q none where
  active k t ht := by
    rcases h.active k with hsame | hnone
    · exact .inl (hsame ▸ ht)
    · rw [hnone] at ht
      cases ht
  pending q hq := .inl (h.pending.subset hq)
  nonempty := nofun

theorem insert (h : Shaken context p q none) {s : Session} {x : Exchange} (hsid : s.info.sid = sid)
    (hcontext : s.info.hacpSession = context) (hne : sid ≠ "") :
    Shaken context p (q.insertSession sid s x) (some sid) where
  active k t ht := by
    rw [Party.active_insertSession] at ht
    split_ifs at ht with hk
    · obtain rfl := Option.some.inj ht
      exact .inr ⟨congrArg some hk.symm, hsid.trans hk.symm, hcontext⟩
    · exact (h.active k t ht).imp_right fun hnone => by cases hnone.1
  pending := h.pending
  nonempty k hk := Option.some.inj hk ▸ hne

end Shaken

/-- The identifier of a session is the text of 16 bytes. -/
theorem established_ne {secret : EphemeralSecret} {peer ni nr : Vector UInt8 32}
    {initiator responder : String} {keys : SessionKeys}
    (h : secret.establish K peer ni nr context initiator responder = .ok (sid, keys)) :
    sid ≠ "" := by
  unfold EphemeralSecret.establish schedule at h
  simp only [guard_eq_ok, bind_eq_ok, Except.ok.injEq, Prod.mk.injEq] at h
  obtain ⟨-, bytes, -, -, -, -, -, rfl, -⟩ := h
  intro hempty
  have hlength := congrArg (fun s : String => s.toList.length) hempty
  have hdecode := decodeHex_encodeHex bytes.toList
  rw [hempty] at hdecode
  have hnil : decodeHex "" = .ok [] := rfl
  rw [hnil, Except.ok.injEq] at hdecode
  have hsize := congrArg List.length hdecode
  rw [Vector.length_toList] at hsize
  cases hsize

namespace Party

theorem initiate_shaken (p : Party) (peer context : String) (pin : Vector UInt8 32)
    (entropy : Entropy) : Shaken context p (p.initiate F K peer context pin entropy).1 none := by
  rcases p.initiate_cases (F := F) (K := K) peer context pin entropy with
    ⟨e, h⟩ | ⟨env, ephemeral, order, q, -, -, hroom, h⟩
  · rw [h]
    exact .refl context p
  · rw [h]
    have htrim : Shaken context (p.withOrder order) q none := .of_trimmed hroom.trimmed
    refine ⟨htrim.active, fun x hx => ?_, nofun⟩
    rcases List.mem_append.mp hx with hx | hx
    · exact htrim.pending x hx
    · rw [List.mem_singleton.mp hx]
      exact .inr rfl

theorem respondOnce_shaken (p : Party) (context : String) (hello : SecureEnvelope)
    (pin : Vector UInt8 32) (entropy : Entropy) :
    Shaken context p (p.respondOnce F K context hello pin entropy).1
      ((p.respondOnce F K context hello pin entropy).2.1.map (·.info.sid)) := by
  rcases p.respondOnce_cases (F := F) (K := K) context hello pin entropy with ⟨result, h⟩ | h
  · rw [h]
    exact .refl context p
  · rw [h]
    rcases p.respond_cases (F := F) (K := K) context hello pin entropy with
      ⟨handshakes, result, hpending, -, -, h⟩ | ⟨env, sid, keys, order, q, s, hack, -, hroom, rfl, h⟩
    · rw [h]
      exact ⟨fun _ _ ht => .inl ht, fun x hx => .inl (hpending ▸ hx), nofun⟩
    · rw [h]
      obtain ⟨ephemeral, epub, ni, nr, -, -, -, -, -, -, hestablish⟩ := ack_ok hack
      have hne : sid ≠ "" := established_ne hestablish
      have htrim : Shaken context (p.withOrder order) q none := .of_trimmed hroom.trimmed
      have hdropped : Shaken context p q none := ⟨htrim.active, htrim.pending, htrim.nonempty⟩
      exact hdropped.insert rfl rfl hne

def Completed (completion : Completion) : Option String :=
  completion.consumed.bind fun _ => completion.result.toOption

theorem complete_shaken (p : Party) (context : String) (ack : SecureEnvelope) :
    Shaken context p (p.complete F K context ack).1 (Completed (p.complete F K context ack).2) := by
  rcases p.complete_cases (F := F) (K := K) context ack with
    ⟨result, h, -⟩ | ⟨i, h, sid, keys, -, -, -, -, hderive, -, hcomplete⟩
  · rw [h]
    exact .refl context p
  · rw [hcomplete]
    have hdrop : Shaken context p (p.dropPending i) none :=
      .of_trimmed ((Trimmed.refl p).dropPending i)
    refine hdrop.insert rfl rfl ?_
    unfold derive at hderive
    simp only [bind_eq_ok] at hderive
    obtain ⟨_, -, _, -, _, -, _, -, _, -, _, -, hestablish⟩ := hderive
    exact established_ne hestablish

end Party

/-! ## Guardians in order -/

/-- The windows are in order, and every session is listed under its own identifier. -/
structure Sane (g : Guardian) : Prop where
  tidy : Tidy g.endpoint
  named : ∀ (sid : String) (s : Session), g.active[sid]? = some s → s.info.sid = sid ∧ sid ≠ ""

namespace Sane
variable {g : Guardian}

theorem setEndpoint (h : Sane g) {x : Endpoint} (htidy : Tidy x)
    (hactive : Dwindles g.endpoint.manager x.manager) : Sane (g.setEndpoint x) where
  tidy := htidy
  named sid t ht := by
    obtain ⟨s, hs, hfixed⟩ := hactive sid t ht
    have hsid : t.info.sid = s.info.sid := congrArg (·.info.sid) hfixed
    exact hsid ▸ h.named sid s hs

theorem setParty (h : Sane g) {q : Party} {new : Option String}
    (hq : Shaken context g.party q new) : Sane (g.setParty q) where
  tidy := h.tidy
  named sid t ht := by
    rcases hq.active sid t ht with hs | ⟨hnew, hsid, -⟩
    · exact h.named sid t hs
    · exact ⟨hsid, hq.nonempty sid hnew⟩

theorem close (h : Sane g) (sid : String) : Sane (g.setEndpoint (g.endpoint.close sid).1) :=
  h.setEndpoint (h.tidy.close sid) (.close g.endpoint sid)

end Sane

namespace Guardian
variable (g : Guardian)

theorem closeAll_tidy {x : Endpoint} (hx : Tidy x) (sessions : List SessionInfo) :
    Tidy (closeAll x sessions) := by
  induction sessions generalizing x with
  | nil => exact hx
  | cons s sessions ih => exact ih (hx.close s.sid)

theorem closeAll_dwindles (x : Endpoint) (sessions : List SessionInfo) :
    Dwindles x.manager (closeAll x sessions).manager := by
  induction sessions generalizing x with
  | nil => exact .refl x.manager
  | cons s sessions ih => exact (Dwindles.close x s.sid).trans (ih (x.close s.sid).1)

theorem abortContext_dwindles (context : String) :
    Dwindles g.endpoint.manager (g.abortContext context).endpoint.manager :=
  (closeAll_dwindles g.endpoint (g.sessionsOf context)).trans
    (.closeContext (g.setEndpoint _).party context)

theorem abortContext_sane {g : Guardian} (h : Sane g) (context : String) :
    Sane (g.abortContext context) :=
  have htidy : Tidy (g.abortContext context).endpoint :=
    closeAll_tidy h.tidy (g.sessionsOf context)
  ⟨htidy, (h.setEndpoint htidy (g.abortContext_dwindles context)).named⟩

/-- Nothing of the context is left. -/
theorem abortContext_clears (context : String) {t : Session}
    (ht : (g.abortContext context).active[sid]? = some t) : t.info.hacpSession ≠ context := by
  have hactive : ((g.setEndpoint (closeAll g.endpoint (g.sessionsOf context))).party.closeContext
      context).manager.active[sid]? = some t := ht
  rw [Party.closeContext, ExtTreeMap.getElem?_filter', Option.filter_eq_some_iff] at hactive
  exact of_decide_eq_true hactive.2

theorem abortContext_pending (context : String) {h : Pending} :
    h ∈ (g.abortContext context).handshakes.pending ↔
      h ∈ g.handshakes.pending ∧ h.hacpSession ≠ context := by
  have hpending : (g.abortContext context).handshakes.pending =
      g.handshakes.pending.filter fun q => q.hacpSession ≠ context := rfl
  rw [hpending, List.mem_filter, decide_eq_true_eq]

theorem sessionsOf_eq_nil {g : Guardian} (h : ∀ (sid : String) (s : Session),
    g.active[sid]? = some s → s.info.hacpSession ≠ context) : g.sessionsOf context = [] := by
  rw [sessionsOf, List.filter_eq_nil_iff]
  intro info hinfo
  obtain ⟨⟨k, s⟩, hmem, rfl⟩ := List.mem_map.mp hinfo
  rw [ExtTreeMap.mem_toList_iff_getElem?_eq_some] at hmem
  simpa using h k s hmem

theorem mem_sessionsOf {g : Guardian} (hg : Sane g) {info : SessionInfo} :
    info ∈ g.sessionsOf context ↔
      ∃ s, g.active[info.sid]? = some s ∧ s.info = info ∧ info.hacpSession = context := by
  rw [sessionsOf, List.mem_filter, List.mem_map, decide_eq_true_eq]
  constructor
  · rintro ⟨⟨⟨k, s⟩, hmem, rfl⟩, hcontext⟩
    rw [ExtTreeMap.mem_toList_iff_getElem?_eq_some] at hmem
    exact ⟨s, (hg.named k s hmem).1.symm ▸ hmem, rfl, hcontext⟩
  · rintro ⟨s, hs, rfl, hcontext⟩
    exact ⟨⟨(s.info.sid, s), ExtTreeMap.mem_toList_iff_getElem?_eq_some.mpr hs, rfl⟩, hcontext⟩

end Guardian

/-! ## One file -/

/-- The message that a file holds, if it is one of an active session of the context. -/
def messageOf (F : Foreign) (C : Crates) (context : String) (g : Guardian) (f : EdgeFile) :
    Option (String × SecureEnvelope) :=
  match f.raw with
  | .error _ => none
  | .ok bytes =>
    match SecureEnvelope.fromJson F C.tokens bytes with
    | .error _ => none
    | .ok env =>
      if (env.from_ = g.local_ ∧ env.to_ ≠ g.local_) ∨ env.kind ≠ .msg then none
      else
        env.sid.bind fun sid => (g.active[sid]?).bind fun s =>
          if s.info.hacpSession = context then some (sid, env) else none

theorem messageOf_eq_some {g : Guardian} {f : EdgeFile} {env : SecureEnvelope}
    (h : messageOf F C context g f = some (sid, env)) :
    env.sid = some sid ∧ ∃ s, g.active[sid]? = some s ∧ s.info.hacpSession = context := by
  unfold messageOf at h
  split at h
  · cases h
  · split at h
    · cases h
    · split at h
      · cases h
      · simp only [Option.bind_eq_some_iff, Option.ite_none_right_eq_some, Option.some.injEq,
          Prod.mk.injEq] at h
        obtain ⟨k, hk, s, hs, hcontext, rfl, rfl⟩ := h
        exact ⟨hk, s, hs, hcontext⟩

/-- The file holds bytes that were not meant as an envelope. -/
def HoldsPlain (F : Foreign) (C : Crates) (f : EdgeFile) : Prop :=
  ∃ bytes e, f.raw = .ok bytes ∧ SecureEnvelope.fromJson F C.tokens bytes = .error e ∧
    looksSecure (C.value bytes) = false

theorem messageOf_of_plain {g : Guardian} {f : EdgeFile} (h : HoldsPlain F C f) :
    messageOf F C context g f = none := by
  obtain ⟨bytes, e, hraw, hparsed, -⟩ := h
  simp only [messageOf, hraw, hparsed]

variable (F K C context) in
inductive FileStep (k : Intake) (f : EdgeFile) : Intake × Except SecureError Unit → Prop
  | passed {r : Except SecureError Unit} : messageOf F C context k.guardian f = none →
      FailsAs Undegraded r → FileStep k f (k, r)
  | shook {q : Party} {new : Option String} {r : Except SecureError Unit} :
      messageOf F C context k.guardian f = none → Shaken context k.guardian.party q new →
      FailsAs Undegraded r → FileStep k f (k.shook q new, r)
  | downgraded : HoldsPlain F C f → k.guardian.requiresSecure = true →
      FileStep k f (k.abortContext context, .error .downgradeDetected)
  | plain {d : Delivery} : HoldsPlain F C f → k.guardian.requiresSecure = false → d.sid = "" →
      FileStep k f (k.deliver d, .ok ())
  | refused {sid : String} {env : SecureEnvelope} {e : SecureError} :
      messageOf F C context k.guardian f = some (sid, env) →
      contractView F context f.session = .error e → FileStep k f (k.refuse sid e, .error e)
  | reported {sid : String} {env : SecureEnvelope} {view : ContractView} :
      messageOf F C context k.guardian f = some (sid, env) →
      contractView F context f.session = .ok view →
      FileStep k f (k.report (k.guardian.endpoint.receive F env view) f.name sid, .ok ())

section Files
variable {k : Intake} {f : EdgeFile} {env : SecureEnvelope}

theorem writeHandshake_fails (env : SecureEnvelope) (written : Except EdgeError Unit) :
    FailsAs Undegraded (writeHandshake env written) := by
  have hkey : FailsAs Undegraded (orSchema (env.sid.or env.nonce)) := by
    cases env.sid.or env.nonce with
    | none => exact .error (by decide)
    | some key => exact .ok key
  refine .bind hkey fun _ => ?_
  cases written with
  | ok _ => exact .ok ()
  | error e => cases e <;> exact .error (by decide)

theorem requiresSecure_of_pin {g : Guardian} {urn : String} {pin : Pin}
    (h : g.pins[urn]? = some pin) (hpin : pin.requireSecure = true) : g.requiresSecure = true := by
  rw [Guardian.requiresSecure, List.any_eq_true]
  exact ⟨(urn, pin), ExtTreeMap.mem_toList_iff_getElem?_eq_some.mpr h, hpin⟩

theorem fromJson_undegraded (bytes : Bytes) :
    FailsAs Undegraded (SecureEnvelope.fromJson F C.tokens bytes) := by
  unfold SecureEnvelope.fromJson
  cases (C.tokens bytes).bind SecureEnvelope.ofJson with
  | none => exact .error (by decide)
  | some env => exact .bind (validate_undegraded env) fun _ => .ok env

theorem receivePlain_step {bytes : Bytes} {object : Option Json} (h : HoldsPlain F C f) :
    FileStep F C context k f (receivePlain context k bytes object) := by
  unfold receivePlain
  by_cases hsecure : k.guardian.requiresSecure = true
  · simp only [if_pos hsecure]
    exact .downgraded h hsecure
  · have hinsecure : k.guardian.requiresSecure = false := Bool.eq_false_iff.mpr hsecure
    simp only [if_neg hsecure]
    split_ifs with hplain hpinned
    · exact .plain h hinsecure rfl
    · -- a pin that requires secure delivery would have been noticed before
      rw [Option.any_eq_true, or_iff_left hsecure] at hpinned
      obtain ⟨pin, hpin, hrequires⟩ := hpinned
      obtain ⟨urn, -, hurn⟩ := Option.bind_eq_some_iff.mp hpin
      exact absurd (requiresSecure_of_pin hurn hrequires) hsecure
    · exact .passed (messageOf_of_plain h) (.error (by decide))

theorem receiveHello_step (h : messageOf F C context k.guardian f = none) :
    FileStep F C context k f (receiveHello F K context k f env) := by
  unfold receiveHello
  cases k.guardian.pins[env.from_]? with
  | none => exact .passed h (.error (by decide))
  | some pin =>
    dsimp only
    cases hkey : bytes32 pin.ed25519Pub with
    | error e => exact .passed h (.error (bytes32_fails _ e hkey))
    | ok key =>
      have hshaken := k.guardian.party.respondOnce_shaken (F := F) (K := K) context env key f.entropy
      have hfails := k.guardian.party.respondOnce_fails (F := F) (K := K) context env key f.entropy
      dsimp only
      generalize k.guardian.party.respondOnce F K context env key f.entropy = answer at hshaken hfails
      obtain ⟨p, inserted, result⟩ := answer
      cases result with
      | error e => exact .shook h hshaken (.error (hfails e rfl))
      | ok sent =>
        cases sent with
        | none => exact .shook h hshaken (.ok ())
        | some ack => exact .shook h hshaken (writeHandshake_fails ack f.written)

theorem receiveAck_step (h : messageOf F C context k.guardian f = none) :
    FileStep F C context k f (receiveAck F K context k env) := by
  have hshaken := k.guardian.party.complete_shaken (F := F) (K := K) context env
  have hfails := k.guardian.party.complete_fails (F := F) (K := K) context env
  unfold receiveAck
  generalize k.guardian.party.complete F K context env = answer at hshaken hfails
  obtain ⟨p, consumed, result⟩ := answer
  cases result with
  | error e =>
    have hnone : Party.Completed ⟨consumed, .error e⟩ = none := by
      cases consumed <;> rfl
    rw [hnone] at hshaken
    exact .shook h hshaken (.error (hfails e rfl))
  | ok sid =>
    have hsome : Party.Completed ⟨consumed, .ok sid⟩ = consumed.map fun _ => sid := by
      cases consumed <;> rfl
    rw [hsome] at hshaken
    exact .shook h hshaken (.ok ())

theorem receiveMsg_step (h : messageOf F C context k.guardian f =
      env.sid.bind fun sid => (k.guardian.active[sid]?).bind fun s =>
        if s.info.hacpSession = context then some (sid, env) else none) :
    FileStep F C context k f (receiveMsg F context k f env) := by
  unfold receiveMsg
  cases hsid : env.sid with
  | none =>
    rw [hsid] at h
    exact .passed h (.error (by decide))
  | some sid =>
    rw [hsid, Option.bind_some] at h
    cases hs : k.guardian.active[sid]? with
    | none =>
      have hinfo : k.guardian.endpoint.manager.info sid = .error .sessionUnknown := by
        rw [info, show k.guardian.endpoint.manager.active[sid]? = none from hs]
      rw [hs] at h
      simp only [hinfo]
      exact .passed h (.error (by decide))
    | some s =>
      have hinfo : k.guardian.endpoint.manager.info sid = .ok s.info := by
        rw [info, show k.guardian.endpoint.manager.active[sid]? = some s from hs]
      rw [hs, Option.bind_some] at h
      simp only [hinfo]
      by_cases hcontext : s.info.hacpSession = context
      · rw [if_pos hcontext] at h
        rw [if_neg (not_not_intro hcontext)]
        cases hview : contractView F context f.session with
        | error e => exact .refused h hview
        | ok view => exact .reported h hview
      · rw [if_neg hcontext] at h
        rw [if_pos hcontext]
        exact .passed h (.error (by decide))

variable (F K C context) in
theorem receiveFile_step (k : Intake) (f : EdgeFile) :
    FileStep F C context k f (receiveFile F K C context k f) := by
  unfold receiveFile
  cases hraw : f.raw with
  | error e =>
    have hnone : messageOf F C context k.guardian f = none := by simp only [messageOf, hraw]
    refine .passed hnone ?_
    cases e <;> exact .error (by decide)
  | ok bytes =>
    dsimp only
    cases hparsed : SecureEnvelope.fromJson F C.tokens bytes with
    | error e =>
      have hnone : messageOf F C context k.guardian f = none := by
        simp only [messageOf, hraw, hparsed]
      dsimp only
      split_ifs with hsecure
      · exact .passed hnone (.error (fromJson_undegraded bytes e hparsed))
      · exact receivePlain_step ⟨bytes, e, hraw, hparsed, Bool.eq_false_iff.mpr hsecure⟩
    | ok env =>
      dsimp only
      by_cases hown : env.from_ = k.guardian.local_ ∧ env.to_ ≠ k.guardian.local_
      · rw [if_pos hown]
        refine .passed ?_ (.ok ())
        simp only [messageOf, hraw, hparsed, if_pos (Or.inl hown)]
      · rw [if_neg hown]
        have hother (hkind : env.kind ≠ .msg) : messageOf F C context k.guardian f = none := by
          simp only [messageOf, hraw, hparsed, if_pos (Or.inr hkind)]
        cases hkind : env.kind with
        | hello => exact receiveHello_step (hother (by rw [hkind]; decide))
        | ack => exact receiveAck_step (hother (by rw [hkind]; decide))
        | msg =>
          have hmessage : messageOf F C context k.guardian f =
              env.sid.bind fun sid => (k.guardian.active[sid]?).bind fun s =>
                if s.info.hacpSession = context then some (sid, env) else none := by
            simp only [messageOf, hraw, hparsed]
            rw [if_neg (by rw [hkind]; simpa using hown)]
          dsimp only
          exact receiveMsg_step hmessage

variable {k' : Intake}

/-- A turn that passes on has no downgrade to report; it may have a rejection. -/
theorem fileTurn_inl (h : fileTurn F K C context k f = .inl k') :
    ∃ k₁ r, FileStep F C context k f (k₁, r) ∧ r ≠ .error .downgradeDetected ∧
      (k' = k₁ ∨ ∃ e, k' = k₁.reject f.name e) := by
  have hstep := receiveFile_step F K C context k f
  unfold fileTurn at h
  generalize receiveFile F K C context k f = result at h hstep
  obtain ⟨k₁, e | _⟩ := result
  · dsimp only at h
    split_ifs at h with he
    exact ⟨k₁, _, hstep, fun hcon => he (Except.error.inj hcon), .inr ⟨e, (Sum.inl.inj h).symm⟩⟩
  · exact ⟨k₁, _, hstep, nofun, .inl (Sum.inl.inj h).symm⟩

/-- A turn that leaves the loop has ended the context. -/
theorem fileTurn_inr (h : fileTurn F K C context k f = .inr k') :
    (HoldsPlain F C f ∧ k.guardian.requiresSecure = true) ∧
      k' = ((k.abortContext context).reject f.name .downgradeDetected).downgraded := by
  have hstep := receiveFile_step F K C context k f
  unfold fileTurn at h
  generalize receiveFile F K C context k f = result at h hstep
  obtain ⟨k₁, e | _⟩ := result
  · dsimp only at h
    split_ifs at h with he
    subst he
    obtain rfl := Sum.inr.inj h
    cases hstep with
    | passed _ hfails => exact absurd rfl (hfails _ rfl)
    | shook _ _ hfails => exact absurd rfl (hfails _ rfl)
    | downgraded hplain hsecure => exact ⟨⟨hplain, hsecure⟩, rfl⟩
    | refused _ hview => exact absurd rfl (contractView_fails context f.session _ hview)
  · cases h

/-- The loop is left for plain bytes where a pin requires secure delivery. -/
theorem fileTurn_leaves : (∃ k', fileTurn F K C context k f = .inr k') ↔
    HoldsPlain F C f ∧ k.guardian.requiresSecure = true := by
  constructor
  · rintro ⟨k', h⟩
    exact (fileTurn_inr h).1
  · rintro ⟨⟨bytes, e, hraw, hparsed, hlooks⟩, hsecure⟩
    have hfile : receiveFile F K C context k f =
        (k.abortContext context, .error .downgradeDetected) := by
      simp only [receiveFile, hraw, hparsed, hlooks, receivePlain, hsecure, if_true,
        Bool.false_eq_true, if_false]
    exact ⟨_, by rw [fileTurn, hfile]; rfl⟩

theorem FileStep.sane {r : Except SecureError Unit} (h : FileStep F C context k f (k', r))
    (hk : Sane k.guardian) : Sane k'.guardian := by
  cases h with
  | passed => exact hk
  | shook _ hshaken => exact hk.setParty hshaken
  | downgraded => exact Guardian.abortContext_sane hk context
  | plain => exact hk
  | refused => exact hk.close _
  | @reported sid env view hmessage =>
    have hreports : Reports sid k.guardian.endpoint (k.guardian.endpoint.receive F env view) :=
      .receive hk.tidy (messageOf_eq_some hmessage).1 view
    exact hk.setEndpoint hreports.tidy hreports.dwindles

end Files
end Hacp.Secure
