import Hacp.Lib.Machine
import Hacp.Secure.HandshakeSuccess
import Hacp.Secure.Window

/-!
# Agreement of initiator and responder

Any number of managers run any number of handshakes. Whatever they receive is chosen
by the attacker, who reorders, drops, replays and alters at will; what it cannot do
is sign for a manager, and the two sides of a key exchange compute one secret.
A completed handshake was then answered by the peer, with the same keys.
-/
namespace Hacp.Secure
open Lib Std

/-- A call of a session manager: the handshake, and what the transport does in between. -/
inductive HandshakeCall where
  | initiate (peer context : String) (pin : Vector UInt8 32) (entropy : Entropy)
  | respond (context : String) (hello : SecureEnvelope) (pin : Vector UInt8 32)
      (entropy : Entropy)
  | complete (context : String) (ack : SecureEnvelope)
  | seal_ (sid : String) (seq : UInt64) (contract : String) (payload : Bytes)
  | open_ (env : SecureEnvelope)
  | close (sid : String)
  | closeContext (context : String)

inductive HandshakeReply where
  | offered (result : Except SecureError SecureEnvelope)
  | answered (answer : Answer)
  | completed (completion : Completion)
  | sealed (sealing : Sealing)
  | opened (result : Except SecureError Bytes)
  | closed

section Managers
variable (F : Foreign) (K : KeyExchange)

def Party.call (p : Party) : HandshakeCall → Party × HandshakeReply
  | .initiate peer context pin entropy =>
    let (p, result) := p.initiate F K peer context pin entropy
    (p, .offered result)
  | .respond context hello pin entropy =>
    let (p, answer) := p.respond F K context hello pin entropy
    (p, .answered answer)
  | .complete context ack =>
    let (p, completion) := p.complete F K context ack
    (p, .completed completion)
  | .seal_ sid seq contract payload =>
    let (manager, sealing) := p.manager.seal_ F sid seq contract payload
    ({ p with manager := manager }, .sealed sealing)
  | .open_ env =>
    let (manager, result) := p.manager.openAuthenticated F env
    ({ p with manager := manager }, .opened result)
  | .close sid => ({ p with manager := (p.manager.close sid).1 }, .closed)
  | .closeContext context => (p.closeContext context, .closed)

def managers (ι : Type*) [DecidableEq ι] :
    Machine (ι → Party) (ι × HandshakeCall) HandshakeReply where
  step x c :=
    let (p, reply) := (x c.1).call F K c.2
    (Function.update x c.1 p, reply)

end Managers

abbrev HandshakeEvent (ι : Type*) := Event (ι → Party) (ι × HandshakeCall) HandshakeReply

def HandshakeCall.received : HandshakeCall → Option SecureEnvelope
  | .respond _ hello _ _ => some hello
  | .complete _ ack => some ack
  | .open_ env => some env
  | _ => none

/-- The transcript whose signature leaves the manager with a reply. -/
def issued : HandshakeCall → HandshakeReply → Option Signed
  | .initiate _ context _ _, .offered (.ok hello) => some (.hello context hello)
  | .respond context hello _ _, .answered ⟨some _, .ok ack⟩ => some (.ack context ack hello)
  | .seal_ _ _ _ _, .sealed ⟨_, .ok env⟩ => some (.msg env)
  | _, _ => none

/-! ## Sessions between handshakes -/

def Session.fixed (s : Session) : Session :=
  { s with info.state := .established, info.sendSeq := 0 }

namespace Party
variable {F : Foreign} {K : KeyExchange} {p q r : Party}

/-- Handshakes and sessions were dropped, and sessions made progress. -/
structure Continues (p q : Party) : Prop where
  local_ : q.manager.local_ = p.manager.local_
  identity : q.manager.identity = p.manager.identity
  active : ∀ (sid : String) (t : Session), q.manager.active[sid]? = some t →
    ∃ s, p.manager.active[sid]? = some s ∧ t.fixed = s.fixed
  pending : q.handshakes.pending.Sublist p.handshakes.pending
  exchanges : q.handshakes.exchanges = p.handshakes.exchanges
  order : q.handshakes.order = p.handshakes.order

theorem Trimmed.continues (h : Trimmed p q) : Continues p q := by
  refine ⟨h.local_, h.identity, fun sid t ht => ?_, h.pending, h.exchanges, h.order⟩
  rcases h.active sid with heq | hnone
  · exact ⟨t, heq.symm.trans ht, rfl⟩
  · rw [hnone] at ht
    cases ht

theorem Continues.refl (p : Party) : Continues p p := (Trimmed.refl p).continues

theorem continues_of_manager {m : SessionManager} (hlocal : m.local_ = p.manager.local_)
    (hidentity : m.identity = p.manager.identity)
    (hactive : ∀ (sid : String) (t : Session), m.active[sid]? = some t →
      ∃ s, p.manager.active[sid]? = some s ∧ t.fixed = s.fixed) :
    Continues p { p with manager := m } :=
  ⟨hlocal, hidentity, hactive, List.Sublist.refl _, rfl, rfl⟩

theorem fixed_of_put {m : SessionManager} {k : String} {s t : Session}
    (hs : m.active[k]? = some s) (ht : t.fixed = s.fixed) (sid : String) (u : Session)
    (hu : (m.put k t).active[sid]? = some u) :
    ∃ v, m.active[sid]? = some v ∧ u.fixed = v.fixed := by
  rw [SessionManager.active_put] at hu
  split_ifs at hu with hk
  · cases hu
    exact ⟨s, hk ▸ hs, ht⟩
  · exact ⟨u, hu, rfl⟩

theorem fixed_of_remove {m : SessionManager} {k : String} (sid : String) (u : Session)
    (hu : (m.remove k).active[sid]? = some u) :
    ∃ v, m.active[sid]? = some v ∧ u.fixed = v.fixed := by
  rw [SessionManager.active_remove] at hu
  split_ifs at hu
  exact ⟨u, hu, rfl⟩

theorem seal_continues (p : Party) (sid : String) (seq : UInt64) (contract : String)
    (payload : Bytes) :
    Continues p { p with manager := (p.manager.seal_ F sid seq contract payload).1 } := by
  have hstep := SessionManager.seal_step (F := F) p.manager sid seq contract payload
  generalize p.manager.seal_ F sid seq contract payload = r at hstep
  cases hstep with
  | unknown hs => exact .refl p
  | exhausted hs hmax => exact continues_of_manager rfl rfl fixed_of_remove
  | outOfStep hs hseq => exact .refl p
  | refused he => exact .refl p
  | failed hs hmax hseq he =>
    refine continues_of_manager rfl rfl fun k u hu => ?_
    obtain ⟨v, hv, hfix⟩ := fixed_of_remove k u hu
    obtain ⟨w, hw, hfix'⟩ := fixed_of_put hs (by rfl) k v hv
    exact ⟨w, hw, hfix.trans hfix'⟩
  | sealed hs hmax hseq haad hct hfinish =>
    exact continues_of_manager rfl rfl (fixed_of_put hs (by rfl))

theorem open_continues (p : Party) (env : SecureEnvelope) :
    Continues p { p with manager := (p.manager.openAuthenticated F env).1 } := by
  unfold SessionManager.openAuthenticated
  split
  · exact .refl p
  · split
    · next sid seq hsid hseq =>
      split_ifs
      · exact continues_of_manager rfl rfl fixed_of_remove
      · split
        · exact .refl p
        · next s hs =>
          split
          · exact .refl p
          · exact continues_of_manager rfl rfl (fixed_of_put hs (by rfl))
    · exact .refl p

theorem close_continues (p : Party) (sid : String) :
    Continues p { p with manager := (p.manager.close sid).1 } := by
  unfold SessionManager.close
  split
  · exact continues_of_manager rfl rfl fixed_of_remove
  · exact .refl p

theorem closeContext_continues (p : Party) (context : String) :
    Continues p (p.closeContext context) := by
  refine ⟨rfl, rfl, fun sid t ht => ⟨t, ?_, rfl⟩, List.filter_sublist, rfl, rfl⟩
  rw [closeContext, ExtTreeMap.getElem?_filter', Option.filter_eq_some_iff] at ht
  exact ht.1

theorem derive_ok {context : String} {ack : SecureEnvelope} {h : Pending} {sid : String}
    {keys : SessionKeys} (hderive : p.derive K context ack h = .ok (sid, keys)) :
    ∃ epub ni nr : Vector UInt8 32, ack.epub = some (encodeHex epub.toList) ∧
      h.hello.nonce = some (encodeHex ni.toList) ∧ ack.nonce = some (encodeHex nr.toList) ∧
      h.ephemeral.establish K epub ni nr context p.manager.local_ ack.from_ =
        .ok (sid, keys) := by
  unfold derive at hderive
  simp only [bind_eq_ok, SessionManager.required_eq_ok, bytes32_eq_ok] at hderive
  obtain ⟨-, hepub, epub, rfl, -, hni, ni, rfl, -, hnr, nr, rfl, hkeys⟩ := hderive
  exact ⟨epub, ni, nr, hepub, hni, hnr, hkeys⟩

end Party

/-! ## What the past says about a manager -/

section Agreement
variable {ι : Type*} {F : Foreign} {K : KeyExchange}
  {key : Vector UInt8 32 → Vector UInt8 32} {name : ι → String} {seed : ι → Vector UInt8 32}
  {past : List (HandshakeEvent ι)}

/-- What the envelope is signed for under the key of a manager, a manager of that key signed in
an earlier call. -/
def Attested (F : Foreign) (key : Vector UInt8 32 → Vector UInt8 32)
    (seed : ι → Vector UInt8 32) (past : List (HandshakeEvent ι)) (env : SecureEnvelope) : Prop :=
  ∀ sig j input, env.sig = some sig → verify F (key (seed j)) input sig = true →
    ∃ e' ∈ past, ∃ signed, key (seed e'.input.1) = key (seed j) ∧
      issued e'.input.2 e'.output = some signed ∧ signed.input F = .ok input

/-- Nobody but a manager signs under its key: all envelopes that managers receive are attested
by what happened before. -/
def Unforgeable (F : Foreign) (key : Vector UInt8 32 → Vector UInt8 32)
    (seed : ι → Vector UInt8 32) (history : List (HandshakeEvent ι)) : Prop :=
  ∀ past e rest, history = past ++ e :: rest → ∀ env, e.input.2.received = some env →
    Attested F key seed past env

def Offered (past : List (HandshakeEvent ι)) (i : ι)
    (context : String) (pin : Vector UInt8 32) (hello : SecureEnvelope) : Prop :=
  ∃ e ∈ past, ∃ peer entropy, e.input = (i, .initiate peer context pin entropy) ∧
    e.output = .offered (.ok hello)

/-- Some manager with the pinned key and the name of the peer answered the offer in the same
context: its `respond` inserted a session of the same identifier and the same keys, as the
responder. -/
def AnsweredBy (key : Vector UInt8 32 → Vector UInt8 32) (name : ι → String)
    (seed : ι → Vector UInt8 32)
    (past : List (HandshakeEvent ι)) (sid : String)
    (s : Session) (hello : SecureEnvelope) : Prop :=
  ∃ e ∈ past, ∃ j received pin entropy t ack,
    e.input = (j, .respond s.info.hacpSession received pin entropy) ∧
    e.output = .answered ⟨some t, .ok ack⟩ ∧
    key (seed j) = s.pin ∧ name j = s.info.peer ∧
    received.from_ = hello.from_ ∧ received.to_ = hello.to_ ∧
    received.epub = hello.epub ∧ received.nonce = hello.nonce ∧
    (e.after j).manager.active[sid]? = some t ∧ t.info.sid = sid ∧ t.keys = s.keys ∧
    t.initiator = false

/-- The session an initiator holds after a completed handshake: it offered the hello, and
where the pinned key is that of a manager, the peer answered it. -/
structure Agreed (key : Vector UInt8 32 → Vector UInt8 32) (name : ι → String)
    (seed : ι → Vector UInt8 32)
    (past : List (HandshakeEvent ι)) (i : ι) (sid : String)
    (s : Session) (x : Exchange) : Prop where
  initiator : s.initiator = true
  named : s.info.sid = sid
  peer : s.info.peer = x.ack.from_
  offered : Offered past i s.info.hacpSession s.pin x.hello
  from_ : x.hello.from_ = name i
  to_ : x.hello.to_ = s.info.peer
  answered : (∃ j, key (seed j) = s.pin) → AnsweredBy key name seed past sid s x.hello

variable {past' : List (HandshakeEvent ι)} {i : ι} {p q : Party} {sid : String} {s t : Session}
  {x : Exchange} {e : HandshakeEvent ι}

theorem Offered.mono (hsub : past ⊆ past') {context : String} {pin : Vector UInt8 32}
    {hello : SecureEnvelope} (h : Offered past i context pin hello) :
    Offered past' i context pin hello := by
  obtain ⟨e, he, hrest⟩ := h
  exact ⟨e, hsub he, hrest⟩

theorem Agreed.mono (hsub : past ⊆ past') (h : Agreed key name seed past i sid s x) :
    Agreed key name seed past' i sid s x := by
  refine ⟨h.initiator, h.named, h.peer, h.offered.mono hsub, h.from_, h.to_, fun hj => ?_⟩
  obtain ⟨e, he, hrest⟩ := h.answered hj
  exact ⟨e, hsub he, hrest⟩

/-- Agreement does not depend on the progress of the session. -/
theorem Agreed.of_fixed (h : Agreed key name seed past i sid s x) (hfix : t.fixed = s.fixed) :
    Agreed key name seed past i sid t x := by
  simp only [Session.fixed, Session.mk.injEq, SessionInfo.mk.injEq] at hfix
  obtain ⟨⟨hsid, hpeer, -, hcontext, -, -⟩, hkeys, hpin, hinitiator⟩ := hfix
  refine ⟨hinitiator.trans h.initiator, hsid.trans h.named, hpeer.trans h.peer, ?_, h.from_,
    h.to_.trans hpeer.symm, ?_⟩
  · rw [hcontext, hpin]
    exact h.offered
  · rw [hpin]
    intro hj
    unfold AnsweredBy
    rw [hcontext, hpin, hpeer, hkeys]
    exact h.answered hj

/-! ## One step -/

/-- The recorded events are calls of managers under their own names. -/
def Genuine (F : Foreign) (K : KeyExchange) (name : ι → String) (past : List (HandshakeEvent ι)) :
    Prop :=
  ∀ e ∈ past, (e.before e.input.1).manager.local_ = name e.input.1 ∧
    ((e.before e.input.1).call F K e.input.2) = (e.after e.input.1, e.output)

/-- The signature of an ack leaves with an answer that inserted a session. -/
theorem issued_eq_ack {c : HandshakeCall} {reply : HandshakeReply} {context : String}
    {ack offer : SecureEnvelope} (h : issued c reply = some (.ack context ack offer)) :
    ∃ pin entropy t, c = .respond context offer pin entropy ∧
      reply = .answered ⟨some t, .ok ack⟩ := by
  unfold issued at h
  split at h
  · cases h
  · obtain ⟨rfl, rfl, rfl⟩ := Signed.ack.inj (Option.some.inj h)
    exact ⟨_, _, _, rfl, rfl⟩
  · cases h
  · cases h

theorem issued_ack (hpast : Genuine F K name past) (he : e ∈ past) {context : String}
    {ack offer : SecureEnvelope}
    (hissued : issued e.input.2 e.output = some (.ack context ack offer)) :
    ∃ pin entropy t, e.input.2 = .respond context offer pin entropy ∧
      e.output = .answered ⟨some t, .ok ack⟩ ∧ ack.from_ = name e.input.1 ∧
      (e.after e.input.1).manager.active[t.info.sid]? = some t ∧ t.initiator = false ∧
      ∃ (ephemeral : EphemeralSecret) (epub ni nr : Vector UInt8 32),
        offer.epub = some (encodeHex epub.toList) ∧ offer.nonce = some (encodeHex ni.toList) ∧
        ack.epub = some (encodeHex (ephemeral.publicKey K).toList) ∧
        ack.nonce = some (encodeHex nr.toList) ∧
        ephemeral.establish K epub ni nr context offer.from_ (name e.input.1) =
          .ok (t.info.sid, t.keys) := by
  obtain ⟨hlocal, hcall⟩ := hpast e he
  obtain ⟨pin, entropy, t, hin, hout⟩ := issued_eq_ack hissued
  rw [hin, hout] at hcall
  simp only [Party.call] at hcall
  rcases Party.respond_cases (F := F) (K := K) (e.before e.input.1) context offer pin entropy with
    ⟨h, result, -, -, -, hrespond⟩ | ⟨env, sid, keys, order, q, u, hack, -, -, ht, hrespond⟩
  · rw [hrespond] at hcall
    cases (Prod.mk.inj hcall).2
  · rw [hrespond] at hcall
    obtain ⟨hafter, hanswer⟩ := Prod.mk.inj hcall
    cases hanswer
    obtain ⟨ephemeral, epub, ni, nr, -, hepub, hni, hfrom, hepub', hnr, hestablish⟩ :=
      Party.ack_ok hack
    rw [hlocal] at hfrom hestablish
    refine ⟨pin, entropy, t, hin, hout, hfrom, ?_, ?_, ephemeral, epub, ni, nr, hepub, hni, hepub',
      hnr, ?_⟩
    · rw [← hafter, ht, Party.active_insertSession, if_pos rfl]
    · rw [ht]
    · rw [ht]
      exact hestablish

theorem encodeHex_toList_inj {v w : Vector UInt8 32}
    (h : encodeHex v.toList = encodeHex w.toList) : v = w := by
  have hdecoded := decodeHex_encodeHex v.toList
  rw [h, decodeHex_encodeHex] at hdecoded
  exact (Vector.toList_inj.mp (Except.ok.inj hdecoded)).symm

/-! ## The account of a manager -/

variable [DecidableEq ι]

/-- The pending handshakes a manager has consumed, by their order. -/
def consumedBy (past : List (HandshakeEvent ι)) (i : ι) :
    List UInt64 :=
  past.filterMap fun e =>
    match e.output with
    | .completed completion =>
      if e.input.1 = i then completion.consumed.map Pending.order else none
    | _ => none

structure Accounted (K : KeyExchange) (key : Vector UInt8 32 → Vector UInt8 32) (name : ι → String)
    (seed : ι → Vector UInt8 32)
    (past : List (HandshakeEvent ι)) (i : ι) (p : Party) :
    Prop where
  local_ : p.manager.local_ = name i
  identity : p.manager.identity = seed i
  pending : ∀ q ∈ p.handshakes.pending, Offered past i q.hacpSession q.pin q.hello ∧
    q.hello.from_ = name i ∧ q.hello.epub = some (encodeHex (q.ephemeral.publicKey K).toList)
  distinct : (p.handshakes.pending.map Pending.order).Nodup
  numbered : ∀ q ∈ p.handshakes.pending, q.order ≤ p.handshakes.order
  spent : ∀ order ∈ consumedBy past i, order ≤ p.handshakes.order ∧
    order ∉ p.handshakes.pending.map Pending.order
  once : (consumedBy past i).Nodup
  sessions : ∀ (sid : String) (s : Session), p.manager.active[sid]? = some s →
    s.initiator = true →
    ∃ x, p.handshakes.exchanges[sid]? = some x ∧ Agreed key name seed past i sid s x

theorem Accounted.extend (h : Accounted K key name seed past i p)
    (he : consumedBy (past ++ [e]) i = consumedBy past i) :
    Accounted K key name seed (past ++ [e]) i p := by
  have hsub : past ⊆ past ++ [e] := List.subset_append_left _ _
  refine ⟨h.local_, h.identity, fun q hq => ?_, h.distinct, h.numbered, ?_, ?_, ?_⟩
  · obtain ⟨hoffered, hrest⟩ := h.pending q hq
    exact ⟨hoffered.mono hsub, hrest⟩
  · rw [he]
    exact h.spent
  · rw [he]
    exact h.once
  · intro sid s hs hinit
    obtain ⟨x, hx, hagreed⟩ := h.sessions sid s hs hinit
    exact ⟨x, hx, hagreed.mono hsub⟩

theorem Accounted.continues (h : Accounted K key name seed past i p)
    (hc : Party.Continues p q) : Accounted K key name seed past i q := by
  have hmap := hc.pending.map Pending.order
  refine ⟨hc.local_.trans h.local_, hc.identity.trans h.identity,
    fun r hr => h.pending r (hc.pending.subset hr), h.distinct.sublist hmap, fun r hr => ?_,
    fun order horder => ?_, h.once, fun sid t ht hinit => ?_⟩
  · rw [hc.order]
    exact h.numbered r (hc.pending.subset hr)
  · obtain ⟨hle, hnot⟩ := h.spent order horder
    rw [hc.order]
    exact ⟨hle, fun hmem => hnot (hmap.subset hmem)⟩
  · obtain ⟨s, hs, hfix⟩ := hc.active sid t ht
    have hinit' : s.initiator = true := by
      simp only [Session.fixed, Session.mk.injEq] at hfix
      exact hfix.2.2.2 ▸ hinit
    obtain ⟨x, hx, hagreed⟩ := h.sessions sid s hs hinit'
    exact ⟨x, hc.exchanges ▸ hx, hagreed.of_fixed hfix⟩

theorem Accounted.withOrder (h : Accounted K key name seed past i p) {order : UInt64}
    (horder : p.handshakes.nextOrder = .ok order) :
    Accounted K key name seed past i (p.withOrder order) ∧
      (∀ q ∈ p.handshakes.pending, q.order < order) ∧
      ∀ spent ∈ consumedBy past i, spent < order := by
  unfold Handshakes.nextOrder at horder
  rw [guard_eq_ok, Except.ok.injEq] at horder
  obtain ⟨hmax, rfl⟩ := horder
  have hlt : p.handshakes.order < p.handshakes.order + 1 := (lt_succ_iff hmax).mpr (UInt64.le_refl _)
  refine ⟨⟨h.local_, h.identity, h.pending, h.distinct, fun q hq => ?_, fun o ho => ?_, h.once,
    h.sessions⟩, fun q hq => ?_, fun o ho => ?_⟩
  · exact UInt64.le_of_lt (UInt64.lt_of_le_of_lt (h.numbered q hq) hlt)
  · exact ⟨UInt64.le_of_lt (UInt64.lt_of_le_of_lt (h.spent o ho).1 hlt), (h.spent o ho).2⟩
  · exact UInt64.lt_of_le_of_lt (h.numbered q hq) hlt
  · exact UInt64.lt_of_le_of_lt (h.spent o ho).1 hlt

/-- After a successful `complete` the initiator holds a session that the peer agreed to. -/
theorem complete_agreed
    (hcommute : ∀ a b, K.x25519 a (K.x25519 b basepoint) = K.x25519 b (K.x25519 a basepoint))
    (hpast : Genuine F K name past) (h : Accounted K key name seed past i p) {context : String}
    {ack : SecureEnvelope}
    (hattested : Attested F key seed past ack)
    (hok : (p.complete F K context ack).2.result = .ok sid) :
    ∃ s x, (p.complete F K context ack).1.manager.active[sid]? = some s ∧
      (p.complete F K context ack).1.handshakes.exchanges[sid]? = some x ∧ x.ack = ack ∧
      s.info.hacpSession = context ∧ Agreed key name seed past i sid s x := by
  rcases Party.complete_cases (F := F) (K := K) p context ack with
    ⟨result, hcomplete, hbefore⟩ |
      ⟨k, q, sid', keys, hq, hto, hcontext, ⟨input, sig, hinput, hsig, hverify⟩, hderive, hsid,
        hcomplete⟩
  · rw [hcomplete] at hok ⊢
    obtain ⟨hbefore, -⟩ := hbefore sid hok
    unfold Party.completedBefore at hbefore
    split at hbefore
    · next s x hs hx =>
      simp only [Bool.decide_and, Bool.decide_eq_true, Bool.and_eq_true, decide_eq_true_eq] at hbefore
      obtain ⟨hinit, hcontext, hack⟩ := hbefore
      obtain ⟨x', hx', hagreed⟩ := h.sessions sid s hs hinit
      obtain rfl := Option.some.inj (hx.symm.trans hx')
      exact ⟨s, x, hs, hx, hack, hcontext, hagreed⟩
    · cases hbefore
  · rw [hcomplete] at hok ⊢
    obtain rfl := Except.ok.inj hok
    obtain ⟨hoffered, hfrom, hepub⟩ := h.pending q (List.mem_of_getElem? hq)
    refine ⟨_, _, by rw [Party.active_insertSession, if_pos rfl],
      by rw [Party.exchanges_insertSession, if_pos rfl], rfl, rfl, rfl, rfl, rfl, ?_, hfrom, hto, ?_⟩
    · rw [← hcontext]
      exact hoffered
    · rintro ⟨j, hpin⟩
      have hpinned : key (seed j) = q.pin := hpin
      rw [← hpinned] at hverify
      obtain ⟨e', he', signed, hkey, hissued, hsigned⟩ := hattested sig j input hsig hverify
      have halike := Signed.alike_of_input_eq
        (show (Signed.ack context ack q.hello).input F = .ok input from hinput) hsigned
      cases signed with
      | hello context' offer => cases halike
      | msg env => cases halike
      | ack context' ack' offer =>
        obtain ⟨⟨rfl, hackFrom, -, hackEpub, hackNonce⟩, hofferFrom, hofferTo, hofferEpub,
          hofferNonce⟩ := halike
        obtain ⟨pin, entropy, t, hin, hout, hname, hactive, hinit, ephemeral, epub, ni, nr, hepub',
          hni, hepub'', hnr, hestablish⟩ := issued_ack hpast he' hissued
        obtain ⟨epub', ni', nr', hackKey, hnonce, hackNonce', hderived⟩ := Party.derive_ok hderive
        -- the responder derived from the key of the initiator, the initiator from its answer
        have hkeyI : epub = q.ephemeral.publicKey K := by
          apply encodeHex_toList_inj
          exact Option.some.inj (hepub'.symm.trans (hofferEpub.symm.trans hepub))
        have hkeyR : epub' = ephemeral.publicKey K := by
          apply encodeHex_toList_inj
          exact Option.some.inj (hackKey.symm.trans (hackEpub.trans hepub''))
        have hni' : ni = ni' := by
          apply encodeHex_toList_inj
          exact Option.some.inj (hni.symm.trans (hofferNonce.symm.trans hnonce))
        have hnr' : nr = nr' := by
          apply encodeHex_toList_inj
          exact Option.some.inj (hnr.symm.trans (hackNonce.symm.trans hackNonce'))
        rw [hkeyR, establish_agrees hcommute, ← hkeyI, ← hni', ← hnr', h.local_, ← hfrom,
          hofferFrom, hackFrom, hname] at hderived
        obtain ⟨hsid', hkeys'⟩ := Prod.mk.inj (Except.ok.inj (hestablish.symm.trans hderived))
        refine ⟨e', he', e'.input.1, offer, pin, entropy, t, ack', ?_, hout, hkey.trans hpin,
          (hackFrom.trans hname).symm, hofferFrom.symm, hofferTo.symm, hofferEpub.symm,
          hofferNonce.symm, ?_, hsid', hkeys', hinit⟩
        · rw [← hin]
        · rw [← hsid']
          exact hactive

theorem consumedBy_snoc (past : List (HandshakeEvent ι)) (e : HandshakeEvent ι) (i : ι) :
    consumedBy (past ++ [e]) i = consumedBy past i ++ consumedBy [e] i :=
  List.filterMap_append

theorem consumedBy_other (he : e.input.1 ≠ i) : consumedBy [e] i = [] := by
  unfold consumedBy
  rw [List.filterMap_cons_none, List.filterMap_nil]
  split
  · exact if_neg he
  · rfl

theorem accounted_new (hnew : Party.new (name i) (seed i) = .ok p) :
    Accounted K key name seed [] i p := by
  unfold Party.new at hnew
  split_ifs at hnew
  obtain rfl := Except.ok.inj hnew
  refine ⟨rfl, rfl, ?_, List.nodup_nil, ?_, ?_, List.nodup_nil, fun sid s hs => ?_⟩
  · intro q hq
    cases hq
  · intro q hq
    cases hq
  · intro order horder
    cases horder
  · rw [ExtTreeMap.getElem?_empty] at hs
    cases hs

/-- A new pending handshake has an order of its own. -/
theorem Accounted.initiate (h : Accounted K key name seed past i p) {peer context : String}
    {pin : Vector UInt8 32} {entropy : Entropy}
    (hin : e.input = (i, .initiate peer context pin entropy))
    (hout : e.output = .offered (p.initiate F K peer context pin entropy).2) :
    Accounted K key name seed (past ++ [e]) i (p.initiate F K peer context pin entropy).1 := by
  have hnone : consumedBy (past ++ [e]) i = consumedBy past i := by
    rw [consumedBy_snoc]
    simp [consumedBy, hout]
  rcases Party.initiate_cases (F := F) (K := K) p peer context pin entropy with
    ⟨error, hsame⟩ | ⟨env, ephemeral, order, q, hhello, horder, hroom, hnew⟩
  · rw [hsame]
    exact h.extend hnone
  · rw [hnew] at hout ⊢
    obtain ⟨hordered, hpending, hspent⟩ := h.withOrder horder
    have hq := (hordered.continues hroom.trimmed.continues).extend (e := e) hnone
    obtain ⟨hfrom, -, hepub⟩ := Party.hello_ok hhello
    have horder' : q.handshakes.order = order := hroom.trimmed.order
    refine ⟨hq.local_, hq.identity, ?_, ?_, ?_, ?_, hq.once, hq.sessions⟩
    · intro r hr
      rcases List.mem_append.mp hr with hr | hr
      · exact hq.pending r hr
      · obtain rfl := List.mem_singleton.mp hr
        exact ⟨⟨e, List.mem_append_right _ (List.mem_singleton_self e), peer, entropy, hin, hout⟩,
          hfrom.trans h.local_, hepub⟩
    · rw [List.map_append, List.nodup_append']
      refine ⟨hq.distinct, List.nodup_singleton _, ?_⟩
      rw [List.map_singleton, List.disjoint_singleton]
      intro hmem
      obtain ⟨r, hr, hr'⟩ := List.mem_map.mp hmem
      exact UInt64.ne_of_lt (hpending r (hroom.trimmed.pending.subset hr)) hr'
    · intro r hr
      rcases List.mem_append.mp hr with hr | hr
      · exact hq.numbered r hr
      · obtain rfl := List.mem_singleton.mp hr
        exact UInt64.le_of_eq horder'.symm
    · intro spent hmem
      obtain ⟨hle, hnot⟩ := hq.spent spent hmem
      refine ⟨hle, ?_⟩
      rw [List.map_append, List.mem_append, List.map_singleton, List.mem_singleton]
      rintro (hold | rfl)
      · exact hnot hold
      · exact UInt64.lt_irrefl _ (hspent _ (hnone ▸ hmem))

/-- A responder's session is no initiator's. -/
theorem Accounted.respond (h : Accounted K key name seed past i p) {context : String}
    {hello : SecureEnvelope} {pin : Vector UInt8 32} {entropy : Entropy}
    (hout : e.output = .answered (p.respond F K context hello pin entropy).2) :
    Accounted K key name seed (past ++ [e]) i (p.respond F K context hello pin entropy).1 := by
  have hnone : consumedBy (past ++ [e]) i = consumedBy past i := by
    rw [consumedBy_snoc]
    simp [consumedBy, hout]
  rcases Party.respond_cases (F := F) (K := K) p context hello pin entropy with
    ⟨k, result, hpending, hexchanges, horder, hsame⟩ |
      ⟨env, sid, keys, order, q, s, -, horder, hroom, hs, hnew⟩
  · rw [hsame]
    refine (h.continues (q := ⟨p.manager, k⟩)
      ⟨rfl, rfl, fun sid t ht => ⟨t, ht, rfl⟩, ?_, ?_, ?_⟩).extend hnone
    · exact hpending ▸ List.Sublist.refl _
    · exact hexchanges
    · exact horder
  · rw [hnew]
    have hq := ((h.withOrder horder).1.continues hroom.trimmed.continues).extend (e := e) hnone
    refine ⟨hq.local_, hq.identity, hq.pending, hq.distinct, hq.numbered, hq.spent, hq.once, ?_⟩
    intro k t ht hinit
    rw [Party.active_insertSession] at ht
    rw [Party.exchanges_insertSession]
    split_ifs at ht ⊢ with hk
    · rw [← Option.some.inj ht, hs] at hinit
      cases hinit
    · exact hq.sessions k t ht hinit

/-- A consumed handshake is pending no more. -/
theorem Accounted.complete
    (hcommute : ∀ a b, K.x25519 a (K.x25519 b basepoint) = K.x25519 b (K.x25519 a basepoint))
    (hpast : Genuine F K name past) (h : Accounted K key name seed past i p) {context : String}
    {ack : SecureEnvelope}
    (hattested : Attested F key seed past ack)
    (hin : e.input.1 = i)
    (hout : e.output = .completed (p.complete F K context ack).2) :
    Accounted K key name seed (past ++ [e]) i (p.complete F K context ack).1 := by
  have hagreed (sid : String) (hok : (p.complete F K context ack).2.result = .ok sid) :=
    complete_agreed hcommute hpast h hattested hok
  rcases Party.complete_cases (F := F) (K := K) p context ack with
    ⟨result, hsame, -⟩ | ⟨k, q, sid, keys, hq, -, -, -, -, -, hnew⟩
  · rw [hsame] at hout ⊢
    refine h.extend ?_
    rw [consumedBy_snoc]
    simp [consumedBy, hout]
  · rw [hnew] at hout hagreed ⊢
    have hconsumed : consumedBy (past ++ [e]) i = consumedBy past i ++ [q.order] := by
      rw [consumedBy_snoc]
      simp [consumedBy, hout, hin]
    have hmem : q ∈ p.handshakes.pending := List.mem_of_getElem? hq
    have hsub : (p.handshakes.pending.eraseIdx k).Sublist p.handshakes.pending :=
      List.eraseIdx_sublist _ _
    have hfresh : q.order ∉ consumedBy past i := fun hspent =>
      (h.spent _ hspent).2 (List.mem_map_of_mem hmem)
    have hgone : q.order ∉ (p.handshakes.pending.eraseIdx k).map Pending.order := by
      obtain ⟨hlt, rfl⟩ := List.getElem?_eq_some_iff.mp hq
      have hperm := (List.getElem_cons_eraseIdx_perm hlt).map Pending.order
      exact (List.nodup_cons.mp (hperm.nodup_iff.mpr h.distinct)).1
    refine ⟨h.local_, h.identity, fun r hr => ?_, h.distinct.sublist (hsub.map _),
      fun r hr => h.numbered r (hsub.subset hr), fun order horder => ?_, ?_, ?_⟩
    · obtain ⟨hoffered, hrest⟩ := h.pending r (hsub.subset hr)
      exact ⟨hoffered.mono (List.subset_append_left _ _), hrest⟩
    · rw [hconsumed, List.mem_append, List.mem_singleton] at horder
      rcases horder with horder | rfl
      · obtain ⟨hle, hnot⟩ := h.spent order horder
        exact ⟨hle, fun hr => hnot ((hsub.map _).subset hr)⟩
      · exact ⟨h.numbered q hmem, hgone⟩
    · rw [hconsumed, List.nodup_append']
      exact ⟨h.once, List.nodup_singleton _, List.disjoint_singleton.mpr hfresh⟩
    · intro k' t ht hinit
      by_cases hk : k' = sid
      · subst hk
        obtain ⟨s, x, hs, hx, -, -, hagreed⟩ := hagreed k' rfl
        obtain rfl := Option.some.inj (hs.symm.trans ht)
        exact ⟨x, hx, hagreed.mono (List.subset_append_left _ _)⟩
      · rw [Party.active_insertSession, if_neg hk] at ht
        rw [Party.exchanges_insertSession, if_neg hk]
        obtain ⟨x, hx, hagreed⟩ := h.sessions k' t ht hinit
        exact ⟨x, hx, hagreed.mono (List.subset_append_left _ _)⟩

/-- The calls between handshakes consume nothing and only let sessions make progress. -/
theorem Accounted.call
    (hcommute : ∀ a b, K.x25519 a (K.x25519 b basepoint) = K.x25519 b (K.x25519 a basepoint))
    (hpast : Genuine F K name past) (h : Accounted K key name seed past i p) (c : HandshakeCall)
    (hattested : ∀ env, c.received = some env → Attested F key seed past env)
    (hin : e.input = (i, c)) (hout : e.output = (p.call F K c).2) :
    Accounted K key name seed (past ++ [e]) i (p.call F K c).1 := by
  have hnone (hquiet : consumedBy [e] i = []) : consumedBy (past ++ [e]) i = consumedBy past i := by
    rw [consumedBy_snoc, hquiet, List.append_nil]
  cases c with
  | initiate peer context pin entropy => exact h.initiate hin hout
  | respond context hello pin entropy => exact h.respond hout
  | complete context ack =>
    exact h.complete hcommute hpast (hattested ack rfl) (congrArg Prod.fst hin) hout
  | seal_ sid seq contract payload =>
    refine (h.continues (p.seal_continues sid seq contract payload)).extend (hnone ?_)
    simp [consumedBy, hout, Party.call]
  | open_ env =>
    refine (h.continues (p.open_continues env)).extend (hnone ?_)
    simp [consumedBy, hout, Party.call]
  | close sid =>
    refine (h.continues (p.close_continues sid)).extend (hnone ?_)
    simp [consumedBy, hout, Party.call]
  | closeContext context =>
    refine (h.continues (p.closeContext_continues context)).extend (hnone ?_)
    simp [consumedBy, hout, Party.call]

/-! ## Whole runs -/

variable {x₀ : ι → Party} {calls : List (ι × HandshakeCall)}

structure Settled (F : Foreign) (K : KeyExchange) (key : Vector UInt8 32 → Vector UInt8 32)
    (name : ι → String) (seed : ι → Vector UInt8 32) (past : List (HandshakeEvent ι))
    (x : ι → Party) : Prop where
  genuine : Genuine F K name past
  accounted : ∀ i, Accounted K key name seed past i (x i)

theorem settled_step
    (hcommute : ∀ a b, K.x25519 a (K.x25519 b basepoint) = K.x25519 b (K.x25519 a basepoint))
    {x : ι → Party} (h : Settled F K key name seed past x) (c : ι × HandshakeCall)
    (hattested : ∀ env, c.2.received = some env → Attested F key seed past env) :
    Settled F K key name seed (past ++ [(managers F K ι).event x c])
      ((managers F K ι).step x c).1 := by
  obtain ⟨i, c⟩ := c
  refine ⟨fun e he => ?_, fun j => ?_⟩
  · rcases List.mem_append.mp he with he | he
    · exact h.genuine e he
    · obtain rfl := List.mem_singleton.mp he
      exact ⟨(h.accounted i).local_, by simp [Machine.event, managers]⟩
  · by_cases hj : j = i
    · subst hj
      have hcall := (h.accounted j).call hcommute h.genuine c hattested
        (e := (managers F K ι).event x (j, c)) rfl rfl
      simpa [managers] using hcall
    · have hother : ((managers F K ι).step x (i, c)).1 j = x j := by
        simp [managers, Function.update_of_ne hj]
      rw [hother]
      refine (h.accounted j).extend ?_
      have hij : i ≠ j := Ne.symm hj
      rw [consumedBy_snoc, consumedBy_other hij, List.append_nil]

omit [DecidableEq ι] in
theorem Unforgeable.of_append {rest : List (HandshakeEvent ι)}
    (h : Unforgeable F key seed (past ++ rest)) : Unforgeable F key seed past := by
  intro earlier e later heq env henv
  refine h earlier e (later ++ rest) ?_ env henv
  rw [heq, List.append_assoc, List.cons_append]

theorem settled
    (hcommute : ∀ a b, K.x25519 a (K.x25519 b basepoint) = K.x25519 b (K.x25519 a basepoint))
    (hstart : ∀ i, Party.new (name i) (seed i) = .ok (x₀ i))
    (hrun : Unforgeable F key seed ((managers F K ι).history x₀ calls)) :
    Settled F K key name seed ((managers F K ι).history x₀ calls)
      ((managers F K ι).exec x₀ calls) := by
  revert hrun
  refine Machine.history_invariant (M := managers F K ι) (s := x₀)
    (I := fun past x => Unforgeable F key seed past → Settled F K key name seed past x) ?_ ?_ calls
  · intro _
    exact ⟨fun e he => absurd he List.not_mem_nil, fun i => accounted_new (hstart i)⟩
  · intro earlier c ih hrun
    refine settled_step hcommute (ih hrun.of_append) c fun env henv => ?_
    exact hrun _ _ [] rfl env henv

structure HandshakesAgree (key : Vector UInt8 32 → Vector UInt8 32) (name : ι → String)
    (seed : ι → Vector UInt8 32) (history : List (HandshakeEvent ι)) : Prop where
  /-- After a `complete` that succeeds, the initiator holds a session of the identifier and the
  context, made from this ack, on which the peer agrees. -/
  completed : ∀ past e rest, history = past ++ e :: rest → ∀ i context ack completion sid,
    e.input = (i, .complete context ack) → e.output = .completed completion →
    completion.result = .ok sid →
    ∃ s x, (e.after i).manager.active[sid]? = some s ∧
      (e.after i).handshakes.exchanges[sid]? = some x ∧ x.ack = ack ∧
      s.info.hacpSession = context ∧ Agreed key name seed past i sid s x
  /-- No pending handshake is consumed twice; its order tells it from all others. -/
  once : ∀ i, (consumedBy history i).Nodup
  distinct : ∀ e ∈ history, ∀ i, ((e.after i).handshakes.pending.map Pending.order).Nodup

/-- Any managers make any calls, on any envelopes that are not forged. -/
theorem handshake_agreement
    (hcommute : ∀ a b, K.x25519 a (K.x25519 b basepoint) = K.x25519 b (K.x25519 a basepoint))
    (hstart : ∀ i, Party.new (name i) (seed i) = .ok (x₀ i))
    (hrun : Unforgeable F key seed ((managers F K ι).history x₀ calls)) :
    HandshakesAgree key name seed ((managers F K ι).history x₀ calls) := by
  refine ⟨?_, fun i => ((settled hcommute hstart hrun).accounted i).once, ?_⟩
  · intro past e rest hsplit i context ack completion sid hin hout hok
    have hattested := hrun past e rest hsplit
    obtain ⟨js, c, ks, rfl, rfl, rfl⟩ := Machine.history_split _ hsplit
    have hpast : Unforgeable F key seed ((managers F K ι).history x₀ js) :=
      Unforgeable.of_append (hsplit ▸ hrun)
    have hsettled := settled hcommute hstart hpast
    obtain rfl : c = (i, .complete context ack) := hin
    obtain rfl := HandshakeReply.completed.inj hout
    have hagreed := complete_agreed hcommute hsettled.genuine (hsettled.accounted i)
      (hattested ack rfl) hok
    simpa [Machine.event, managers, Party.call] using hagreed
  · intro e he i
    obtain ⟨past, rest, hsplit⟩ := List.append_of_mem he
    obtain ⟨js, c, ks, rfl, rfl, rfl⟩ := Machine.history_split _ hsplit
    have hpast : Unforgeable F key seed ((managers F K ι).history x₀ (js ++ [c])) := by
      have hwhole : Unforgeable F key seed
          ((managers F K ι).history x₀ (js ++ [c]) ++ rest) := by
        rw [Machine.history_snoc, List.append_assoc, List.singleton_append, ← hsplit]
        exact hrun
      exact hwhole.of_append
    have hsettled := settled hcommute hstart hpast
    rw [Machine.exec_snoc] at hsettled
    exact (hsettled.accounted i).distinct

end Agreement

/-! ## The handshake of the crate's golden test -/

namespace GoldenHandshake

/-- The identity keys of initiator and responder, whose seeds are 32 ones and 32 twos. -/
def publicA : Vector UInt8 32 := ⟨#[
    138, 136, 227, 221, 116, 9, 241, 149, 253, 82, 219, 45, 60, 186, 93, 114, 202, 103, 9, 191,
    29, 148, 18, 27, 243, 116, 136, 1, 180, 15, 111, 92], by decide⟩

def publicB : Vector UInt8 32 := #v[
    129, 57, 119, 14, 168, 125, 23, 95, 86, 163, 84, 102, 195, 76, 126, 204, 203, 141, 138, 145,
    180, 238, 55, 162, 93, 246, 15, 91, 143, 201, 179, 148]

def epubA : Vector UInt8 32 := #v[
    93, 254, 221, 59, 107, 212, 127, 111, 162, 142, 225, 93, 150, 157, 91, 176, 234, 83, 119,
    77, 72, 139, 218, 249, 223, 28, 110, 1, 36, 179, 239, 34]

def epubB : Vector UInt8 32 := #v[
    172, 1, 178, 32, 158, 134, 53, 79, 184, 83, 35, 123, 93, 224, 244, 250, 177, 60, 127, 203,
    244, 51, 166, 28, 1, 147, 105, 97, 127, 236, 241, 11]

/-- The secret that scalars of 32 threes and 32 fours share. -/
def shared : Vector UInt8 32 := #v[
    64, 228, 122, 63, 82, 91, 220, 172, 73, 29, 65, 137, 120, 215, 219, 90, 246, 35, 172, 122,
    254, 118, 35, 198, 215, 138, 93, 79, 206, 157, 15, 99]

def helloSig : Vector UInt8 64 := #v[
    39, 122, 93, 107, 234, 15, 210, 86, 242, 190, 178, 75, 184, 255, 234, 229, 157, 249, 191,
    230, 83, 137, 197, 255, 100, 162, 198, 171, 198, 106, 238, 210, 164, 148, 96, 215, 206, 160,
    220, 201, 57, 149, 125, 219, 3, 12, 17, 70, 60, 100, 253, 26, 131, 118, 151, 254, 107, 10,
    3, 175, 67, 163, 2, 0]

def ackSig : Vector UInt8 64 := #v[
    250, 106, 1, 179, 143, 140, 186, 125, 44, 142, 59, 136, 20, 99, 83, 141, 182, 93, 149, 150,
    221, 168, 16, 175, 11, 144, 80, 206, 136, 181, 82, 225, 127, 61, 218, 142, 52, 64, 204, 158,
    145, 235, 63, 6, 196, 212, 212, 122, 79, 224, 179, 7, 75, 106, 100, 14, 230, 125, 14, 120,
    39, 186, 45, 15]

def sidBytes : Vector UInt8 16 := #v[
    144, 164, 71, 124, 162, 38, 244, 241, 201, 9, 29, 189, 25, 255, 129, 52]

def i2r : Vector UInt8 32 := ⟨#[
    41, 226, 179, 150, 185, 228, 158, 24, 32, 194, 210, 195, 96, 129, 162, 87, 90, 197, 226,
    195, 57, 205, 74, 219, 112, 127, 188, 87, 81, 222, 13, 7], by decide⟩

def r2i : Vector UInt8 32 := ⟨#[
    202, 25, 23, 122, 68, 43, 231, 110, 119, 21, 79, 86, 32, 126, 145, 151, 230, 83, 12, 137,
    100, 29, 223, 232, 67, 249, 81, 23, 10, 166, 163, 233], by decide⟩

def context : String := "s-golden"

def name (initiator : Bool) : String :=
  if initiator then "urn:hacp:agent:a" else "urn:hacp:agent:b"

def seed (initiator : Bool) : Vector UInt8 32 := .replicate 32 (if initiator then 1 else 2)

def key (seed : Vector UInt8 32) : Vector UInt8 32 :=
  if seed = .replicate 32 1 then publicA else publicB

def hello : SecureEnvelope := helloOf (name true) (name false) epubA (.replicate 32 5) helloSig

def ack : SecureEnvelope :=
  ackOf (name true) (name false) epubB (.replicate 32 6) sidBytes ackSig

def signature (seed : Vector UInt8 32) : Vector UInt8 64 :=
  if seed = .replicate 32 1 then helloSig else ackSig

theorem signature_seed : signature (seed true) = helloSig ∧ signature (seed false) = ackSig := by
  decide

/-- Agrees with the real functions on the two signed transcripts. -/
def foreign : Foreign where
  sha256 _ := List.replicate 32 0
  naiveDateTime _ := true
  rfc3339 _ := true
  sign seed _ := signature seed
  verifyStrict pk input sig :=
    (pk == publicA && sig == helloSig &&
      input == helloInput context (name true) (name false) epubA (.replicate 32 5)) ||
    (pk == publicB && sig == ackSig &&
      input == ackInput context (name true) (name false) epubA (.replicate 32 5) epubB
        (.replicate 32 6))
  encrypt _ _ _ _ := none
  decrypt _ _ _ _ := none

/-- Agrees with the real functions on the two scalars and their public keys. -/
def exchange : KeyExchange where
  x25519 scalar point :=
    if point = basepoint then
      if scalar = .replicate 32 3 then epubA
      else if scalar = .replicate 32 4 then epubB else .replicate 32 0
    else if (scalar = .replicate 32 3 ∧ point = epubB) ∨ (scalar = .replicate 32 4 ∧ point = epubA)
    then shared else .replicate 32 0
  expand _ _ info n :=
    if h : n = 16 then some (h ▸ sidBytes)
    else if h : n = 32 then
      some (h ▸ if info = sessionInfo context (name true) (name false) "k_i2r" then i2r else r2i)
    else none

def start (initiator : Bool) : Party := ⟨⟨name initiator, seed initiator, ∅⟩, ⟨[], ∅, ∅, [], 0⟩⟩

def calls : List (Bool × HandshakeCall) :=
  [(true, .initiate (name false) context publicB ⟨some (.replicate 32 3), some (.replicate 32 5)⟩),
   (false, .respond context hello publicA ⟨some (.replicate 32 4), some (.replicate 32 6)⟩),
   (true, .complete context ack)]

def history : List (HandshakeEvent Bool) := (managers foreign exchange Bool).history start calls

theorem commutes (a b : Vector UInt8 32) :
    exchange.x25519 a (exchange.x25519 b basepoint) =
      exchange.x25519 b (exchange.x25519 a basepoint) := by
  have hA : epubA ≠ basepoint := by decide
  have hB : epubB ≠ basepoint := by decide
  have hAB : epubA ≠ epubB := by decide
  have hzero : Vector.replicate 32 0 ≠ basepoint ∧ Vector.replicate 32 0 ≠ epubA ∧
      Vector.replicate 32 0 ≠ epubB := by decide
  have hscalar : Vector.replicate 32 (3 : UInt8) ≠ .replicate 32 4 := by decide
  simp only [exchange]
  grind

theorem started (i : Bool) : Party.new (name i) (seed i) = .ok (start i) := by
  cases i <;> exact if_pos (by decide)

theorem urn_name (i : Bool) : urn (name i) = true := by
  cases i <;> decide

theorem name_ne : name true ≠ name false := by decide

theorem established : EphemeralSecret.establish exchange ⟨.replicate 32 4⟩ epubA (.replicate 32 5)
    (.replicate 32 6) context (name true) (name false) =
      .ok (encodeHex sidBytes.toList, ⟨i2r, r2i⟩) := by
  decide +kernel

def awaiting : Party :=
  ⟨⟨name true, seed true, ∅⟩, ⟨[⟨hello, context, publicB, ⟨.replicate 32 3⟩, 1⟩], ∅, ∅, [], 1⟩⟩

theorem offers : (start true).initiate foreign exchange (name false) context publicB
    ⟨some (.replicate 32 3), some (.replicate 32 5)⟩ = (awaiting, .ok hello) :=
  Party.initiate_of_new (urn_name true) (urn_name false) name_ne (by decide) (by decide)
    signature_seed.1

theorem answers : ∃ p s, (start false).respond foreign exchange context hello publicA
    ⟨some (.replicate 32 4), some (.replicate 32 6)⟩ = (p, ⟨some s, .ok ack⟩) := by
  have hverify : foreign.verifyStrict publicA (helloInput context (name true) (name false) epubA
      (.replicate 32 5)) helloSig = true := by simp [foreign]
  have hepub : exchange.x25519 (.replicate 32 4) basepoint = epubB := by decide
  have hanswer : ((start false).respond foreign exchange context hello publicA
      ⟨some (.replicate 32 4), some (.replicate 32 6)⟩).2 = ⟨_, .ok ack⟩ :=
    Party.respond_of_new (urn_name true) (urn_name false) name_ne (by decide) hepub hverify
      established signature_seed.2
  cases hrespond : (start false).respond foreign exchange context hello publicA
    ⟨some (.replicate 32 4), some (.replicate 32 6)⟩ with
  | mk p answer =>
    rw [hrespond] at hanswer
    obtain rfl : answer = _ := hanswer
    exact ⟨p, _, rfl⟩

theorem completes : ∃ p q, awaiting.complete foreign exchange context ack =
    (p, ⟨some q, .ok (encodeHex sidBytes.toList)⟩) := by
  have hestablish : EphemeralSecret.establish exchange ⟨.replicate 32 3⟩ epubB (.replicate 32 5)
      (.replicate 32 6) context (name true) (name false) = _ :=
    (establish_agrees commutes ⟨.replicate 32 3⟩ ⟨.replicate 32 4⟩ _ _ _ _ _).trans established
  have hverify : foreign.verifyStrict publicB (ackInput context (name true) (name false) epubA
      (.replicate 32 5) epubB (.replicate 32 6)) ackSig = true := by simp [foreign]
  obtain ⟨p, q, hcomplete, -⟩ := Party.complete_of_pending (seed true) (urn_name true)
    (urn_name false) name_ne (by decide) hverify hestablish awaiting.handshakes rfl
  exact ⟨p, q, hcomplete⟩

/-- The hello is offered, the ack answers it, and the handshake completes. -/
theorem runs : ∃ e₀ e₁ e₂, history = [e₀, e₁, e₂] ∧ [e₀, e₁, e₂].map Event.input = calls ∧
    issued e₀.input.2 e₀.output = some (.hello context hello) ∧
    issued e₁.input.2 e₁.output = some (.ack context ack hello) ∧
    ∃ q, e₂.output = .completed ⟨some q, .ok (encodeHex sidBytes.toList)⟩ := by
  have houtput (x : Bool → Party) (i : Bool) (c : HandshakeCall) :
    ((managers foreign exchange Bool).event x (i, c)).output = ((x i).call foreign exchange c).2 :=
      rfl
  have hstate (x : Bool → Party) (i j : Bool) (c : HandshakeCall) :
      ((managers foreign exchange Bool).step x (i, c)).1 j =
        if j = i then ((x i).call foreign exchange c).1 else x j :=
    Function.update_apply x i _ j
  refine ⟨_, _, _, rfl, rfl, ?_, ?_, ?_⟩
  · rw [houtput, Party.call, offers]
    rfl
  · obtain ⟨p, s, hanswers⟩ := answers
    rw [houtput, hstate, if_neg Bool.false_ne_true, Party.call, hanswers]
    rfl
  · obtain ⟨p, q, hcompletes⟩ := completes
    have hoffered : ((start true).call foreign exchange (.initiate (name false) context publicB
        ⟨some (.replicate 32 3), some (.replicate 32 5)⟩)).1 = awaiting := by
      rw [Party.call, offers]
    rw [houtput, hstate, if_neg Bool.noConfusion, hstate, if_pos rfl, hoffered, Party.call,
      hcompletes]
    exact ⟨q, rfl⟩

theorem verified {pk : Vector UInt8 32} {input : Bytes} {sig : Vector UInt8 64}
    (h : foreign.verifyStrict pk input sig = true) :
    (pk = publicA ∧ sig = helloSig ∧ hello.helloSigningInput foreign context = .ok input) ∨
      (pk = publicB ∧ sig = ackSig ∧ ack.ackSigningInput foreign context hello = .ok input) := by
  simp only [foreign, Bool.or_eq_true, Bool.and_eq_true, beq_iff_eq] at h
  rcases h with ⟨⟨hpk, hsig⟩, hinput⟩ | ⟨⟨hpk, hsig⟩, hinput⟩
  · rw [hinput]
    exact .inl ⟨hpk, hsig, helloSigningInput_helloOf (urn_name true) (urn_name false) _⟩
  · rw [hinput]
    exact .inr ⟨hpk, hsig, ackSigningInput_ackOf (urn_name true) (urn_name false) _ _ _⟩

theorem unforgeable : Unforgeable foreign key seed history := by
  intro past e rest hsplit env henv sig j input hsig hverify
  have hsigs : helloSig ≠ ackSig := by decide
  obtain ⟨e₀, e₁, e₂, hhistory, hcalls, hissued, hissued', -⟩ := runs
  simp only [calls, List.map_cons, List.map_nil, List.cons.injEq, and_true] at hcalls
  obtain ⟨hinput₀, hinput₁, hinput₂⟩ := hcalls
  rw [hhistory] at hsplit
  rcases past with _ | ⟨e₀, _ | ⟨e₁, _ | ⟨e₂, past⟩⟩⟩
  · obtain ⟨rfl, -⟩ := List.cons.inj hsplit
    rw [hinput₀] at henv
    cases henv
  · obtain ⟨rfl, hlater⟩ := List.cons.inj hsplit
    obtain ⟨rfl, -⟩ := List.cons.inj hlater
    rw [hinput₁] at henv
    obtain rfl : hello = env := Option.some.inj henv
    obtain rfl : encodeHex helloSig.toList = sig := Option.some.inj hsig
    rw [verify_encodeHex] at hverify
    rcases verified hverify with ⟨hpk, -, hinput⟩ | ⟨-, hother, -⟩
    · refine ⟨_, List.mem_singleton_self _, .hello context hello, ?_, hissued, hinput⟩
      rw [hpk, hinput₀]
      rfl
    · exact absurd hother hsigs
  · obtain ⟨rfl, hlater⟩ := List.cons.inj hsplit
    obtain ⟨rfl, hlast⟩ := List.cons.inj hlater
    obtain ⟨rfl, -⟩ := List.cons.inj hlast
    rw [hinput₂] at henv
    obtain rfl : ack = env := Option.some.inj henv
    obtain rfl : encodeHex ackSig.toList = sig := Option.some.inj hsig
    rw [verify_encodeHex] at hverify
    rcases verified hverify with ⟨-, hother, -⟩ | ⟨hpk, -, hinput⟩
    · exact absurd hother.symm hsigs
    · refine ⟨_, List.mem_cons_of_mem _ (List.mem_singleton_self _), .ack context ack hello, ?_,
        hissued', hinput⟩
      rw [hpk, hinput₁]
      rfl
  · have hlength := congrArg List.length hsplit
    simp at hlength

end GoldenHandshake

theorem handshake_agreement_golden :
    HandshakesAgree GoldenHandshake.key GoldenHandshake.name GoldenHandshake.seed
        GoldenHandshake.history ∧
      ∃ e ∈ GoldenHandshake.history, ∃ completion, e.output = .completed completion ∧
        completion.result = .ok (encodeHex GoldenHandshake.sidBytes.toList) := by
  refine ⟨handshake_agreement GoldenHandshake.commutes GoldenHandshake.started
    GoldenHandshake.unforgeable, ?_⟩
  obtain ⟨e₀, e₁, e₂, hhistory, -, -, -, q, hcompleted⟩ := GoldenHandshake.runs
  refine ⟨e₂, ?_, _, hcompleted, rfl⟩
  rw [hhistory]
  exact List.mem_cons_of_mem _ (List.mem_cons_of_mem _ (List.mem_singleton_self e₂))

end Hacp.Secure
