import Hacp.Secure.HalfOpen

/-!
# Runs of one session manager

Whatever a manager is called with and in whatever order, the quota of half-open
handshakes is kept for every peer. A call that makes room for a handshake takes away
at most the oldest half-open entry of that peer.
-/
namespace Hacp.Secure
open Lib Std

inductive ManagerCall where
  | handshake (c : HandshakeCall)
  | respondOnce (context : String) (hello : SecureEnvelope) (pin : Vector UInt8 32)
      (entropy : Entropy)

inductive ManagerReply where
  | handshake (reply : HandshakeReply)
  | answeredOnce (inserted : Option Session) (result : Except SecureError (Option SecureEnvelope))

def managerMachine (F : Foreign) (K : KeyExchange) : Machine Party ManagerCall ManagerReply where
  step p
    | .handshake c =>
      let (p, reply) := p.call F K c
      (p, .handshake reply)
    | .respondOnce context hello pin entropy =>
      let (p, inserted, result) := p.respondOnce F K context hello pin entropy
      (p, .answeredOnce inserted result)

abbrev ManagerEvent := Event Party ManagerCall ManagerReply

/-- The peer for whose handshake a call makes room. -/
def ManagerCall.peer : ManagerCall → Option String
  | .handshake (.initiate peer _ _ _) => some peer
  | .handshake (.respond _ hello _ _) | .respondOnce _ hello _ _ => some hello.from_
  | .handshake _ => none

def ManagerCall.nonce : ManagerCall → Option (Vector UInt8 32)
  | .handshake (.respond _ _ _ entropy) | .respondOnce _ _ _ entropy => entropy.nonce
  | .handshake _ => none

def ManagerReply.inserted : ManagerReply → Option String
  | .handshake (.answered answer) => answer.inserted.map (·.info.sid)
  | .handshake (.completed ⟨some _, .ok sid⟩) => some sid
  | .handshake _ => none
  | .answeredOnce inserted _ => inserted.map (·.info.sid)

/-- The nonces that salt the keys and the identifier of a session. -/
def Exchange.salt (x : Exchange) : Option String × Option String := (x.hello.nonce, x.ack.nonce)

/-- What is random does not repeat: a nonce drawn for an answer is not that of an earlier ack, and
identifiers, which are expanded from the nonces, are equal for equal nonces only. -/
structure Unrepeated (history : List ManagerEvent) : Prop where
  drawn : history.Pairwise fun e e' => ∀ nonce sid x, e'.input.nonce = some nonce →
    e.output.inserted = some sid → e.after.handshakes.exchanges[sid]? = some x →
    x.ack.nonce ≠ some (encodeHex nonce.toList)
  derived : ∀ e ∈ history, ∀ e' ∈ history, ∀ sid x x', e.output.inserted = some sid →
    e'.output.inserted = some sid → e.after.handshakes.exchanges[sid]? = some x →
    e'.after.handshakes.exchanges[sid]? = some x' → x.salt = x'.salt

namespace Party
variable {F : Foreign} {K : KeyExchange} {p q r : Party} {peer sid : String}

/-- What a call costs that makes room for a handshake with a peer: no established session and no
entry of another peer, and of the peer's own entries at most the oldest. -/
structure Spares (peer : String) (p q : Party) : Prop where
  sessions : ∀ (sid : String) s, p.manager.active[sid]? = some s →
    s.info.state = .established ∨ s.info.peer ≠ peer → q.manager.active[sid]? = some s
  entries : ∀ peer' e order, p.Holds peer' e order → ¬q.Holds peer' e order →
    peer' = peer ∧ ∀ e' order', p.Holds peer e' order' → e' ≠ e → order < order'

theorem Spares.of_same (hpending : q.handshakes.pending = p.handshakes.pending)
    (hactive : q.manager.active = p.manager.active)
    (hexchanges : q.handshakes.exchanges = p.handshakes.exchanges) : Spares peer p q where
  sessions sid s hs _ := hactive ▸ hs
  entries peer' e order he hgone := by
    refine absurd ?_ hgone
    cases e with
    | pending k => exact ⟨hpending ▸ he.1, he.2⟩
    | session k =>
      obtain ⟨s, x, hs, hpeer, hstate, hx, hn⟩ := he
      exact ⟨s, x, hactive ▸ hs, hpeer, hstate, hexchanges ▸ hx, hn⟩

/-- Making room costs at most the oldest entry, and what is added afterwards takes nothing away. -/
theorem Quota.spares (h : p.Quota) {order : UInt64} (hroom : MadeRoom peer (p.withOrder order) q)
    (hsessions : ∀ (sid : String) s, p.manager.active[sid]? = some s →
      q.manager.active[sid]? = some s → r.manager.active[sid]? = some s)
    (hentries : ∀ peer' e n, p.Holds peer' e n → q.Holds peer' e n → r.Holds peer' e n) :
    Spares peer p r := by
  obtain ⟨-, hevicts⟩ := hroom.room (p := p.withOrder order) h.covered (h.bounded peer)
  refine ⟨fun sid s hs hlive => ?_, fun peer' e n he hgone => ?_⟩
  · rcases hevicts.active hs with hkept | ⟨-, hpeer, hstate⟩
    · exact hsessions sid s hs hkept
    · rw [hstate] at hlive
      exact absurd hpeer (hlive.resolve_left nofun)
  · rcases hevicts.holds hroom.trimmed.exchanges he with hkept | ⟨rfl, hold⟩
    · exact absurd (hentries peer' e n he hkept) hgone
    · refine ⟨rfl, fun e' n' he' hne => UInt64.lt_of_le_of_ne (hold.2 e' n' he') ?_⟩
      rintro rfl
      exact hne (h.distinct peer' peer' e' e n he' he)

theorem initiate_spares (h : p.Quota) (peer context : String) (pin : Vector UInt8 32)
    (entropy : Entropy) : Spares peer p (p.initiate F K peer context pin entropy).1 := by
  rcases initiate_cases (F := F) (K := K) p peer context pin entropy with
    ⟨e, hsame⟩ | ⟨env, ephemeral, order, q, hhello, horder, hroom, hnew⟩
  · rw [hsame]
    exact .of_same rfl rfl rfl
  · rw [hnew]
    refine h.spares hroom (fun sid s _ hs => hs) fun peer' e n _ he => ?_
    cases e with
    | pending k => exact ⟨List.mem_append_left _ he.1, he.2⟩
    | session sid => exact he

/-- An answer takes nothing away where its identifier is new. -/
theorem respond_spares (h : p.Quota) (context : String) (hello : SecureEnvelope)
    (pin : Vector UInt8 32) (entropy : Entropy)
    (hnew : ∀ s, (p.respond F K context hello pin entropy).2.inserted = some s →
      p.manager.active[s.info.sid]? = none) :
    Spares hello.from_ p (p.respond F K context hello pin entropy).1 := by
  rcases respond_cases (F := F) (K := K) p context hello pin entropy with
    ⟨k, result, hpending, hexchanges, horder, hsame⟩ |
      ⟨env, sid, keys, order, q, s, -, horder, hroom, rfl, hanswer⟩
  · rw [hsame]
    exact .of_same hpending rfl hexchanges
  · rw [hanswer] at hnew ⊢
    have hfree : p.manager.active[sid]? = none := hnew _ rfl
    have hne {k : String} {t : Session} (ht : p.manager.active[k]? = some t) : k ≠ sid := by
      rintro rfl
      rw [hfree] at ht
      cases ht
    refine h.spares hroom (fun k t ht hkept => ?_) fun peer' e n he hkept => ?_
    · rw [active_insertSession, if_neg (hne ht), hkept]
    · cases e with
      | pending k => exact hkept
      | session k =>
        obtain ⟨t, -, ht, -⟩ := he
        obtain ⟨t', x, ht', hpeer, hstate, hx, hn⟩ := hkept
        refine ⟨t', x, ?_, hpeer, hstate, ?_, hn⟩
        · rw [active_insertSession, if_neg (hne ht), ht']
        · rw [exchanges_insertSession, if_neg (hne ht), hx]

theorem respond_inserted {context : String} {hello : SecureEnvelope} {pin : Vector UInt8 32}
    {entropy : Entropy} {s : Session}
    (h : (p.respond F K context hello pin entropy).2.inserted = some s) :
    ∃ nonce x, entropy.nonce = some nonce ∧
      (p.respond F K context hello pin entropy).1.handshakes.exchanges[s.info.sid]? = some x ∧
      x.ack.nonce = some (encodeHex nonce.toList) := by
  rcases respond_cases (F := F) (K := K) p context hello pin entropy with
    ⟨k, result, -, -, -, hsame⟩ | ⟨env, sid, keys, order, q, s', hack, -, -, rfl, hanswer⟩
  · rw [hsame] at h
    cases h
  · rw [hanswer] at h ⊢
    obtain rfl := Option.some.inj h
    obtain ⟨-, -, -, nonce, hdrawn, -, -, -, -, hnonce, -⟩ := ack_ok hack
    exact ⟨nonce, _, hdrawn, (exchanges_insertSession sid).trans (if_pos rfl), hnonce⟩

/-- Answering once is answering, or neither answering nor changing anything. -/
theorem respondOnce_same (p : Party) (context : String) (hello : SecureEnvelope)
    (pin : Vector UInt8 32) (entropy : Entropy) :
    ((p.respondOnce F K context hello pin entropy).1 = p ∧
      (p.respondOnce F K context hello pin entropy).2.1 = none) ∨
    ((p.respondOnce F K context hello pin entropy).1 = (p.respond F K context hello pin entropy).1 ∧
      (p.respondOnce F K context hello pin entropy).2.1 =
        (p.respond F K context hello pin entropy).2.inserted) := by
  rcases respondOnce_cases (F := F) (K := K) p context hello pin entropy with ⟨result, h⟩ | h
  · rw [h]
    exact .inl ⟨rfl, rfl⟩
  · rw [h]
    exact .inr ⟨rfl, rfl⟩

end Party

/-! ## Runs of one manager -/

section Runs
variable {F : Foreign} {K : KeyExchange} {p : Party} {past : List ManagerEvent}

/-- Only what a call has inserted is active after it and was not before. -/
theorem manager_active (c : ManagerCall) {sid : String} {s : Session}
    (hs : ((managerMachine F K).step p c).1.manager.active[sid]? = some s) :
    (∃ t, p.manager.active[sid]? = some t) ∨
      ((managerMachine F K).step p c).2.inserted = some sid := by
  have hwanes {q : Party} (h : Party.Wanes p q) (hq : q.manager.active[sid]? = some s) :
      ∃ t, p.manager.active[sid]? = some t := by
    obtain ⟨t, ht, -⟩ := h.active sid s hq
    exact ⟨t, ht⟩
  have hrespond {context : String} {hello : SecureEnvelope} {pin : Vector UInt8 32}
      {entropy : Entropy}
      (h : (p.respond F K context hello pin entropy).1.manager.active[sid]? = some s) :
      (∃ t, p.manager.active[sid]? = some t) ∨
        (p.respond F K context hello pin entropy).2.inserted.map (·.info.sid) = some sid := by
    rcases Party.respond_cases (F := F) (K := K) p context hello pin entropy with
      ⟨k, result, -, -, -, hsame⟩ | ⟨env, sid', keys, order, q, s', -, -, hroom, rfl, hanswer⟩
    · rw [hsame] at h
      exact .inl ⟨s, h⟩
    · rw [hanswer, Party.active_insertSession] at h
      rw [hanswer]
      split_ifs at h with hsid
      · exact .inr (congrArg some hsid.symm)
      · obtain ⟨t, ht, -⟩ := hroom.trimmed.wanes.active sid s h
        exact .inl ⟨t, ht⟩
  cases c with
  | respondOnce context hello pin entropy =>
    rcases Party.respondOnce_same (F := F) (K := K) p context hello pin entropy with
      ⟨hstate, -⟩ | ⟨hstate, hinserted⟩
    · exact .inl ⟨s, hstate ▸ hs⟩
    · refine (hrespond (hstate ▸ hs)).imp_right fun h => ?_
      change Option.map _ (p.respondOnce F K context hello pin entropy).2.1 = _
      rw [hinserted, h]
  | handshake c =>
    cases c with
    | initiate peer context pin entropy =>
      refine .inl ?_
      change (p.initiate F K peer context pin entropy).1.manager.active[sid]? = some s at hs
      rcases Party.initiate_cases (F := F) (K := K) p peer context pin entropy with
        ⟨e, hsame⟩ | ⟨env, ephemeral, order, q, -, -, hroom, hnew⟩
      · rw [hsame] at hs
        exact ⟨s, hs⟩
      · rw [hnew] at hs
        obtain ⟨t, ht, -⟩ := hroom.trimmed.wanes.active sid s hs
        exact ⟨t, ht⟩
    | respond context hello pin entropy => exact hrespond hs
    | complete context ack =>
      change (p.complete F K context ack).1.manager.active[sid]? = some s at hs
      change _ ∨ ManagerReply.inserted
        (.handshake (.completed (p.complete F K context ack).2)) = some sid
      rcases Party.complete_cases (F := F) (K := K) p context ack with
        ⟨result, hsame, -⟩ | ⟨i, h, sid', keys, -, -, -, -, -, -, hnew⟩
      · rw [hsame] at hs
        exact .inl ⟨s, hs⟩
      · rw [hnew, Party.active_insertSession] at hs
        rw [hnew]
        split_ifs at hs with hsid
        · exact .inr (congrArg some hsid.symm)
        · exact .inl ⟨s, hs⟩
    | seal_ sid' seq contract payload =>
      exact .inl (hwanes (p.seal_wanes sid' seq contract payload) hs)
    | open_ env => exact .inl (hwanes (p.open_wanes env) hs)
    | close sid' => exact .inl (hwanes (p.close_wanes sid') hs)
    | closeContext context => exact .inl (hwanes (p.closeContext_wanes context) hs)

theorem manager_inserted (c : ManagerCall) {sid : String}
    (h : ((managerMachine F K).step p c).2.inserted = some sid) :
    ∃ x, ((managerMachine F K).step p c).1.handshakes.exchanges[sid]? = some x ∧
      (c.peer ≠ none → ∃ nonce, c.nonce = some nonce ∧
        x.ack.nonce = some (encodeHex nonce.toList)) := by
  have hrespond {context : String} {hello : SecureEnvelope} {pin : Vector UInt8 32}
      {entropy : Entropy}
      (h : (p.respond F K context hello pin entropy).2.inserted.map (·.info.sid) = some sid) :
      ∃ x, (p.respond F K context hello pin entropy).1.handshakes.exchanges[sid]? = some x ∧
        ∃ nonce, entropy.nonce = some nonce ∧ x.ack.nonce = some (encodeHex nonce.toList) := by
    obtain ⟨s, hs, rfl⟩ := Option.map_eq_some_iff.mp h
    obtain ⟨nonce, x, hdrawn, hx, hnonce⟩ := Party.respond_inserted hs
    exact ⟨x, hx, nonce, hdrawn, hnonce⟩
  cases c with
  | respondOnce context hello pin entropy =>
    rcases Party.respondOnce_same (F := F) (K := K) p context hello pin entropy with
      ⟨-, hnone⟩ | ⟨hstate, hinserted⟩
    · change Option.map _ (p.respondOnce F K context hello pin entropy).2.1 = _ at h
      rw [hnone] at h
      cases h
    · change Option.map _ (p.respondOnce F K context hello pin entropy).2.1 = _ at h
      rw [hinserted] at h
      obtain ⟨x, hx, hnonce⟩ := hrespond h
      exact ⟨x, hstate ▸ hx, fun _ => hnonce⟩
  | handshake c =>
    cases c with
    | respond context hello pin entropy =>
      obtain ⟨x, hx, hnonce⟩ := hrespond h
      exact ⟨x, hx, fun _ => hnonce⟩
    | complete context ack =>
      change ManagerReply.inserted
        (.handshake (.completed (p.complete F K context ack).2)) = some sid at h
      change ∃ x, (p.complete F K context ack).1.handshakes.exchanges[sid]? = some x ∧ _
      rcases Party.complete_cases (F := F) (K := K) p context ack with
        ⟨result, hsame, -⟩ | ⟨i, k, sid', keys, -, -, -, -, -, -, hnew⟩
      · rw [hsame] at h
        cases h
      · rw [hnew] at h ⊢
        obtain rfl := Option.some.inj h
        exact ⟨_, (Party.exchanges_insertSession sid').trans (if_pos rfl), fun hpeer => absurd rfl hpeer⟩
    | initiate peer context pin entropy => cases h
    | seal_ sid' seq contract payload => cases h
    | open_ env => cases h
    | close sid' => cases h
    | closeContext context => cases h

structure ManagerInv (past : List ManagerEvent) (p : Party) : Prop where
  quota : p.Quota
  inserted : ∀ (sid : String) s, p.manager.active[sid]? = some s →
    ∃ e ∈ past, e.output.inserted = some sid ∧ ∃ x, e.after.handshakes.exchanges[sid]? = some x

theorem quota_step (h : p.Quota) (c : ManagerCall) : ((managerMachine F K).step p c).1.Quota := by
  cases c with
  | handshake c => exact h.call c
  | respondOnce context hello pin entropy =>
    change (p.respondOnce F K context hello pin entropy).1.Quota
    rcases Party.respondOnce_same (F := F) (K := K) p context hello pin entropy with
      ⟨hstate, -⟩ | ⟨hstate, -⟩
    · exact hstate.symm ▸ h
    · exact hstate.symm ▸ h.respond context hello pin entropy

theorem ManagerInv.step (h : ManagerInv past p) (c : ManagerCall) :
    ManagerInv (past ++ [(managerMachine F K).event p c]) ((managerMachine F K).step p c).1 := by
  refine ⟨quota_step h.quota c, fun sid s hs => ?_⟩
  rcases manager_active c hs with ⟨t, ht⟩ | hinserted
  · obtain ⟨e, he, hsid⟩ := h.inserted sid t ht
    exact ⟨e, List.mem_append_left _ he, hsid⟩
  · obtain ⟨x, hx, -⟩ := manager_inserted c hinserted
    exact ⟨_, List.mem_append_right _ (List.mem_singleton_self _), hinserted, x, hx⟩

theorem quota_new {local_ : String} {identity : Vector UInt8 32}
    (h : Party.new local_ identity = .ok p) : p.Quota := by
  unfold Party.new at h
  split_ifs at h
  obtain rfl := Except.ok.inj h
  have hnone (sid : String) : (∅ : ExtTreeMap String Session)[sid]? = none :=
    ExtTreeMap.getElem?_empty
  have hholds (peer : String) (e : HalfOpen) (order : UInt64)
      (he : Party.Holds ⟨⟨local_, identity, ∅⟩, ⟨[], ∅, ∅, [], 0⟩⟩ peer e order) : False := by
    cases e with
    | pending k => exact List.not_mem_nil he.1
    | session sid =>
      obtain ⟨s, x, hs, -⟩ := he
      rw [hnone] at hs
      cases hs
  refine ⟨fun sid s hs => ?_, fun peer => ?_, fun peer e order he => (hholds peer e order he).elim,
    fun peer peer' e e' order he => (hholds peer e order he).elim⟩
  · rw [hnone] at hs
    cases hs
  · have hempty : Party.ackSent ⟨⟨local_, identity, ∅⟩, ⟨[], ∅, ∅, [], 0⟩⟩ peer = ∅ := by
      ext sid
      rw [Party.mem_ackSent]
      simp
    rw [Party.halfOpenCount, hempty]
    exact Nat.zero_le 4

/-- Where nothing random repeats, an answer never takes the identifier of an active session. -/
theorem Unrepeated.fresh {rest : List ManagerEvent} {e : ManagerEvent}
    (h : Unrepeated (past ++ e :: rest)) (hinv : ManagerInv past e.before) {sid : String}
    {x : Exchange} {nonce : Vector UInt8 32} (hsid : e.output.inserted = some sid)
    (hx : e.after.handshakes.exchanges[sid]? = some x) (hdrawn : e.input.nonce = some nonce)
    (hnonce : x.ack.nonce = some (encodeHex nonce.toList)) :
    e.before.manager.active[sid]? = none := by
  rw [Option.eq_none_iff_forall_ne_some]
  intro s hs
  obtain ⟨e', he', hsid', x', hx'⟩ := hinv.inserted sid s hs
  have hmem : e ∈ past ++ e :: rest := List.mem_append_right _ List.mem_cons_self
  have hsalt := h.derived e' (List.mem_append_left _ he') e hmem sid x' x hsid' hsid hx' hx
  have hsame : x'.ack.nonce = x.ack.nonce := congrArg Prod.snd hsalt
  have hordered := (List.pairwise_append.mp h.drawn).2.2 e' he' e List.mem_cons_self
  exact hordered nonce sid x' hdrawn hsid' hx' (hsame.trans hnonce)

/-- A call that makes room for a peer spares everything else. -/
theorem ManagerInv.spares {rest : List ManagerEvent} (hinv : ManagerInv past p) (c : ManagerCall)
    (hrun : ((managerMachine F K).step p c).2.inserted ≠ none →
      Unrepeated (past ++ (managerMachine F K).event p c :: rest)) {peer : String}
    (hpeer : c.peer = some peer) :
    Party.Spares peer p ((managerMachine F K).step p c).1 := by
  have hnew (sid : String) (h : ((managerMachine F K).step p c).2.inserted = some sid) :
      p.manager.active[sid]? = none := by
    obtain ⟨x, hx, hdrawn⟩ := manager_inserted c h
    obtain ⟨nonce, hnonce, hack⟩ := hdrawn (by simp [hpeer])
    exact (hrun (by rw [h]; exact Option.some_ne_none sid)).fresh hinv h hx hnonce hack
  cases c with
  | respondOnce context hello pin entropy =>
    obtain rfl := Option.some.inj hpeer
    change Party.Spares hello.from_ p (p.respondOnce F K context hello pin entropy).1
    change ∀ sid, Option.map _ (p.respondOnce F K context hello pin entropy).2.1 = some sid → _ at hnew
    rcases Party.respondOnce_same (F := F) (K := K) p context hello pin entropy with
      ⟨hstate, -⟩ | ⟨hstate, hinserted⟩
    · rw [hstate]
      exact .of_same rfl rfl rfl
    · rw [hstate]
      rw [hinserted] at hnew
      exact Party.respond_spares hinv.quota context hello pin entropy fun s hs =>
        hnew s.info.sid (congrArg (Option.map _) hs)
  | handshake c =>
    cases c with
    | initiate peer' context pin entropy =>
      obtain rfl := Option.some.inj hpeer
      exact Party.initiate_spares hinv.quota peer' context pin entropy
    | respond context hello pin entropy =>
      obtain rfl := Option.some.inj hpeer
      exact Party.respond_spares hinv.quota context hello pin entropy fun s hs =>
        hnew s.info.sid (congrArg (Option.map _) hs)
    | complete context ack => cases hpeer
    | seal_ sid seq contract payload => cases hpeer
    | open_ env => cases hpeer
    | close sid => cases hpeer
    | closeContext context => cases hpeer

variable {local_ : String} {identity : Vector UInt8 32} {p₀ : Party}

theorem manager_inv (hstart : Party.new local_ identity = .ok p₀) (calls : List ManagerCall) :
    ManagerInv ((managerMachine F K).history p₀ calls) ((managerMachine F K).exec p₀ calls) := by
  refine Machine.history_invariant (M := managerMachine F K) (I := ManagerInv) ?_ ?_ calls
  · refine ⟨quota_new hstart, fun sid s hs => ?_⟩
    unfold Party.new at hstart
    split_ifs at hstart
    obtain rfl := Except.ok.inj hstart
    simp at hs
  · exact fun earlier c ih => ih.step c

/-- Whatever calls a manager takes, no peer has more than four half-open handshakes with it, and
the loop that sees to this stops. A call that makes room for a peer takes away no established
session, nothing of another peer, and of the peer itself only the entry with the smallest number;
where the call inserts a session, as an answer does, this is said of runs that repeat nothing. -/
theorem half_open_bounded (F : Foreign) (K : KeyExchange)
    (hstart : Party.new local_ identity = .ok p₀) (calls : List ManagerCall) :
    (∀ peer, ((managerMachine F K).exec p₀ calls).halfOpenCount peer ≤ 4) ∧
    (∀ p peer, Loop.Returns (Party.boundTurn peer) p (p.boundPending peer)) ∧
    (∀ e ∈ (managerMachine F K).history p₀ calls,
      (e.output.inserted ≠ none → Unrepeated ((managerMachine F K).history p₀ calls)) →
        ∀ peer, e.input.peer = some peer → Party.Spares peer e.before e.after) := by
  refine ⟨(manager_inv hstart calls).quota.bounded, Party.boundPending_loop,
    fun e he hrun peer hpeer => ?_⟩
  obtain ⟨pre, c, post, rfl, rfl⟩ := (managerMachine F K).mem_history he
  rw [Machine.history_append] at hrun
  exact (manager_inv hstart pre).spares c hrun hpeer

end Runs

/-- A run in which only the last call inserts a session repeats nothing. -/
theorem Unrepeated.of_last {past : List ManagerEvent} {e : ManagerEvent}
    (h : ∀ e' ∈ past, e'.output.inserted = none) : Unrepeated (past ++ [e]) where
  drawn := by
    refine List.pairwise_append.mpr ⟨?_, List.pairwise_singleton _ _, ?_⟩
    · exact List.pairwise_of_forall_mem_list fun e' he' _ _ _ sid _ _ hsid => by simp [h e' he'] at hsid
    · exact fun e' he' _ _ _ sid _ _ hsid => by simp [h e' he'] at hsid
  derived e₁ he₁ e₂ he₂ sid x x' hsid hsid' hx hx' := by
    have hlast {e' : ManagerEvent} (he' : e' ∈ past ++ [e]) (hsid : e'.output.inserted = some sid) :
        e' = e := by
      rcases List.mem_append.mp he' with he' | he'
      · simp [h e' he'] at hsid
      · exact List.mem_singleton.mp he'
    obtain rfl := hlast he₁ hsid
    obtain rfl := hlast he₂ hsid'
    rw [Option.some.inj (hx.symm.trans hx')]

/-! ## Five offers and an answer -/

namespace GoldenHandshake

def offer : ManagerCall :=
  .handshake (.initiate "urn:hacp:agent:c" context publicB
    ⟨some (.replicate 32 3), some (.replicate 32 5)⟩)

/-- Five offers, and the answer to the hello of another peer. -/
def crowded : List ManagerCall :=
  List.replicate 5 offer ++
    [.respondOnce context hello publicA ⟨some (.replicate 32 4), some (.replicate 32 6)⟩]

theorem unrepeated_crowded :
    Unrepeated ((managerMachine foreign exchange).history (start false) crowded) := by
  rw [crowded, Machine.history_append]
  refine .of_last fun e he => ?_
  obtain ⟨pre, c, post, hcalls, rfl⟩ := Machine.mem_history _ he
  have hc : c = offer := List.eq_of_mem_replicate
    (hcalls ▸ List.mem_append_right pre List.mem_cons_self)
  subst hc
  rfl

end GoldenHandshake

theorem half_open_bounded_crowded :
    let M := managerMachine GoldenHandshake.foreign GoldenHandshake.exchange
    (M.exec (GoldenHandshake.start false) GoldenHandshake.crowded).halfOpenCount "urn:hacp:agent:c" ≤ 4 ∧
      ∀ e ∈ M.history (GoldenHandshake.start false) GoldenHandshake.crowded,
        ∀ peer, e.input.peer = some peer → Party.Spares peer e.before e.after := by
  obtain ⟨hbounded, -, hspares⟩ := half_open_bounded GoldenHandshake.foreign
    GoldenHandshake.exchange (GoldenHandshake.started false) GoldenHandshake.crowded
  exact ⟨hbounded _, fun e he => hspares e he fun _ => GoldenHandshake.unrepeated_crowded⟩

end Hacp.Secure
