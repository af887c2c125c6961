import Hacp.Lib.Loop
import Hacp.Secure.SessionManager
import Hacp.Secure.SigningInput
import Mathlib.Data.List.MinMax

/-!
# The handshake

The half of the session manager that establishes sessions. An initiator keeps a
pending handshake until an ack completes it; a responder answers a hello with a
fresh key and inserts its session at once, half open until a message proves the
peer. Random bytes are inputs of a call, and may be missing.
-/
namespace Hacp.Secure
open Lib Std

/-- A hello that awaits its ack, with the secret behind its key. -/
structure Pending where
  hello : SecureEnvelope
  hacpSession : String
  pin : Vector UInt8 32
  ephemeral : EphemeralSecret
  order : UInt64

/-- What an active session keeps of its handshake: public data only. -/
structure Exchange where
  order : UInt64
  hello : SecureEnvelope
  ack : SecureEnvelope

/-- The fields of the session manager that only handshakes use. -/
structure Handshakes where
  pending : List Pending
  /-- The handshake of each active session. -/
  exchanges : ExtTreeMap String Exchange
  seenHellos : Finset (String × String)
  seenHelloOrder : List (String × String)
  order : UInt64

structure Party where
  manager : SessionManager
  handshakes : Handshakes

/-- The random bytes of one call; a source that fails gives none. -/
structure Entropy where
  scalar : Option (Vector UInt8 32)
  nonce : Option (Vector UInt8 32)

structure Answer where
  inserted : Option Session
  result : Except SecureError SecureEnvelope

structure Completion where
  consumed : Option Pending
  result : Except SecureError String

def seenHelloLimit : ℕ := 1024

def drawn (v : Option (Vector UInt8 32)) : Except SecureError (Vector UInt8 32) :=
  match v with
  | some bytes => .ok bytes
  | none => .error .guardianUnavailable

def contextOk (context : String) : Except SecureError Unit :=
  if context = "" then .error .schemaViolation else .ok ()

def bytes32 (hex : String) : Except SecureError (Vector UInt8 32) :=
  match decodeHex hex with
  | .error e => .error e
  | .ok bytes =>
    if h : bytes.length = 32 then .ok ⟨bytes.toArray, h⟩ else .error .schemaViolation

def handshake (kind : Kind) (from_ to_ : String) (epub nonce : Vector UInt8 32) :
    SecureEnvelope where
  v := 1
  kind := kind
  from_ := from_
  to_ := to_
  contract := ""
  sid := none
  seq := none
  epub := some (encodeHex epub.toList)
  nonce := some (encodeHex nonce.toList)
  sig := none
  ct := none
  ts := none

namespace Handshakes

def nextOrder (h : Handshakes) : Except SecureError UInt64 :=
  if h.order = u64Max then .error .sessionExhausted else .ok (h.order + 1)

/-- Mark a hello as answered; beyond the limit the oldest marks are forgotten. -/
def rememberHello (h : Handshakes) (context signature : String) : Handshakes :=
  let key := (context, signature)
  if key ∈ h.seenHellos then h
  else
    let order := h.seenHelloOrder ++ [key]
    let excess := order.length - seenHelloLimit
    { h with
      seenHellos := insert key h.seenHellos \ (order.take excess).toFinset
      seenHelloOrder := order.drop excess }

end Handshakes

namespace Party

/-- `with_identity`. -/
def new (local_ : String) (identity : Vector UInt8 32) : Except SecureError Party :=
  if urn local_ then .ok ⟨⟨local_, identity, ∅⟩, ⟨[], ∅, ∅, [], 0⟩⟩ else .error .schemaViolation

def dropPending (p : Party) (i : ℕ) : Party :=
  { p with handshakes.pending := p.handshakes.pending.eraseIdx i }

def withOrder (p : Party) (order : UInt64) : Party := { p with handshakes.order := order }

def evict (p : Party) (sid : String) : Party := { p with manager := p.manager.remove sid }

/-- The half-open sessions with a peer, each with the order of its handshake. -/
def halfOpen (p : Party) (peer : String) : List (String × UInt64) :=
  p.manager.active.toList.filterMap fun (sid, s) =>
    if s.info.peer = peer ∧ s.info.state = .ackSent then
      (p.handshakes.exchanges[sid]?).map fun e => (sid, e.order)
    else none

/-- The pending handshakes with a peer, each with its place in the queue. -/
def pendingWith (p : Party) (peer : String) : List (Pending × ℕ) :=
  p.handshakes.pending.zipIdx.filter fun q => q.1.hello.to_ = peer

/-- One turn of the loop of `bound_pending`: drop the oldest handshake with the peer, of
either kind, while there are four. -/
def boundTurn (peer : String) (p : Party) : Party ⊕ Party :=
  if (p.pendingWith peer).length + (p.halfOpen peer).length < 4 then .inr p
  else
    match (p.pendingWith peer).argmin (·.1.order.toNat),
        (p.halfOpen peer).argmin (·.2.toNat) with
    | some (oldest, i), some (sid, order) =>
      .inl (if oldest.order < order then p.dropPending i else p.evict sid)
    | some (_, i), none => .inl (p.dropPending i)
    | none, some (sid, _) => .inl (p.evict sid)
    | none, none => .inr p

/-- `bound_pending`, for as many turns as there is something to drop. -/
def boundPending (p : Party) (peer : String) : Party :=
  (Loop.iterate (boundTurn peer)
    (p.handshakes.pending.length + p.manager.active.size + 1) p).getD p

def closeContext (p : Party) (context : String) : Party where
  manager := { p.manager with
    active := p.manager.active.filter fun _ s => s.info.hacpSession ≠ context }
  handshakes := { p.handshakes with
    pending := p.handshakes.pending.filter fun q => q.hacpSession ≠ context }

def insertSession (p : Party) (sid : String) (s : Session) (e : Exchange) : Party where
  manager := p.manager.put sid s
  handshakes := { p.handshakes with exchanges := p.handshakes.exchanges.insert sid e }

variable (F : Foreign) (K : KeyExchange)

def hello (p : Party) (peer context : String) (entropy : Entropy) :
    Except SecureError (SecureEnvelope × EphemeralSecret) := do
  contextOk context
  if ¬urn peer ∨ peer = p.manager.local_ then .error .identityMismatch
  else
    let scalar ← drawn entropy.scalar
    let nonce ← drawn entropy.nonce
    let ephemeral : EphemeralSecret := ⟨scalar⟩
    let hello := handshake .hello p.manager.local_ peer (ephemeral.publicKey K) nonce
    let input ← hello.helloSigningInput F context
    let hello := { hello with sig := some (sign F p.manager.identity input) }
    hello.validate F
    .ok (hello, ephemeral)

def initiate (p : Party) (peer context : String) (pin : Vector UInt8 32) (entropy : Entropy) :
    Party × Except SecureError SecureEnvelope :=
  match p.hello F K peer context entropy with
  | .error e => (p, .error e)
  | .ok (hello, ephemeral) =>
    match p.handshakes.nextOrder with
    | .error e => (p, .error e)
    | .ok order =>
      let p := (p.withOrder order).boundPending peer
      ({ p with handshakes.pending :=
          p.handshakes.pending ++ [⟨hello, context, pin, ephemeral, order⟩] }, .ok hello)

/-- The checks of a received hello, up to its signature, which is returned. -/
def checkHello (p : Party) (context : String) (hello : SecureEnvelope) (pin : Vector UInt8 32) :
    Except SecureError String := do
  hello.validate F
  contextOk context
  if hello.kind ≠ .hello then .error .schemaViolation
  else if hello.to_ ≠ p.manager.local_ ∨ hello.from_ = p.manager.local_ then
    .error .identityMismatch
  else
    let transcript ← hello.helloSigningInput F context
    let sig ← required hello.sig
    if ¬verify F pin transcript sig then .error .badHandshakeSignature else .ok sig

def answered (p : Party) (context : String) (hello : SecureEnvelope) (pin : Vector UInt8 32) :
    Option SecureEnvelope :=
  p.manager.active.toList.findSome? fun (sid, s) =>
    (p.handshakes.exchanges[sid]?).bind fun e =>
      if s.initiator = false ∧ s.info.hacpSession = context ∧ s.pin = pin ∧
          e.hello.sig = hello.sig ∧ e.hello.from_ = hello.from_ then some e.ack else none

def material (env : SecureEnvelope) : Except SecureError (Vector UInt8 32 × Vector UInt8 32) := do
  let epub ← required env.epub
  let epub ← bytes32 epub
  let nonce ← required env.nonce
  let nonce ← bytes32 nonce
  .ok (epub, nonce)

/-- A fresh ack for a hello, with the identifier and the keys of the new session. -/
def ack (p : Party) (context : String) (hello : SecureEnvelope) (entropy : Entropy) :
    Except SecureError (SecureEnvelope × String × SessionKeys) := do
  let scalar ← drawn entropy.scalar
  let nr ← drawn entropy.nonce
  let ephemeral : EphemeralSecret := ⟨scalar⟩
  let (epub, ni) ← material hello
  let (sid, keys) ← ephemeral.establish K epub ni nr context hello.from_ p.manager.local_
  let ack := { handshake .ack p.manager.local_ hello.from_ (ephemeral.publicKey K) nr with
    sid := some sid }
  let input ← ack.ackSigningInput F context hello
  let ack := { ack with sig := some (sign F p.manager.identity input) }
  ack.validate F
  .ok (ack, sid, keys)

def respond (p : Party) (context : String) (hello : SecureEnvelope) (pin : Vector UInt8 32)
    (entropy : Entropy) : Party × Answer :=
  match p.checkHello F context hello pin with
  | .error e => (p, ⟨none, .error e⟩)
  | .ok sig =>
    let p := { p with handshakes := p.handshakes.rememberHello context sig }
    match p.answered context hello pin with
    -- a retransmitted hello gets the ack it had, never a second one for the same key
    | some ack => (p, ⟨none, .ok ack⟩)
    | none =>
      match p.ack F K context hello entropy with
      | .error e => (p, ⟨none, .error e⟩)
      | .ok (ack, sid, keys) =>
        match p.handshakes.nextOrder with
        | .error e => (p, ⟨none, .error e⟩)
        | .ok order =>
          let p := (p.withOrder order).boundPending hello.from_
          let s : Session := {
            info := ⟨sid, hello.from_, p.manager.local_, context, .ackSent, 0⟩
            keys, pin
            initiator := false }
          (p.insertSession sid s ⟨order, hello, ack⟩, ⟨some s, .ok ack⟩)

/-- Answer a hello only if this manager has never answered it; with the session it inserted. -/
def respondOnce (p : Party) (context : String) (hello : SecureEnvelope) (pin : Vector UInt8 32)
    (entropy : Entropy) : Party × Option Session × Except SecureError (Option SecureEnvelope) :=
  match p.checkHello F context hello pin with
  | .error e => (p, none, .error e)
  | .ok sig =>
    if (context, sig) ∈ p.handshakes.seenHellos then (p, none, .ok none)
    else
      let (p, answer) := p.respond F K context hello pin entropy
      (p, answer.inserted, answer.result.map some)

/-- The checks of a received ack, up to its session identifier, which is returned. -/
def checkAck (p : Party) (context : String) (ack : SecureEnvelope) : Except SecureError String := do
  ack.validate F
  contextOk context
  if ack.kind ≠ .ack then .error .schemaViolation
  else if ack.to_ ≠ p.manager.local_ ∨ ack.from_ = p.manager.local_ then .error .identityMismatch
  else required ack.sid

/-- An ack names no hello: the first pending handshake of its route and context that it is
signed for, with its place in the queue. -/
def selectPending (context : String) (ack : SecureEnvelope) (i : ℕ) :
    List Pending → Except SecureError (Option (ℕ × Pending))
  | [] => .ok none
  | q :: qs =>
    if q.hello.to_ = ack.from_ ∧ q.hacpSession = context then do
      let input ← ack.ackSigningInput F context q.hello
      let sig ← required ack.sig
      if verify F q.pin input sig then .ok (some (i, q)) else selectPending context ack (i + 1) qs
    else selectPending context ack (i + 1) qs

def derive (p : Party) (context : String) (ack : SecureEnvelope) (q : Pending) :
    Except SecureError (String × SessionKeys) := do
  let epub ← required ack.epub
  let epub ← bytes32 epub
  let ni ← required q.hello.nonce
  let ni ← bytes32 ni
  let nr ← required ack.nonce
  let nr ← bytes32 nr
  q.ephemeral.establish K epub ni nr context p.manager.local_ ack.from_

def completedBefore (p : Party) (context sid : String) (ack : SecureEnvelope) : Bool :=
  match p.manager.active[sid]?, p.handshakes.exchanges[sid]? with
  | some s, some e => s.initiator ∧ s.info.hacpSession = context ∧ e.ack = ack
  | _, _ => false

def complete (p : Party) (context : String) (ack : SecureEnvelope) : Party × Completion :=
  match p.checkAck F context ack with
  | .error e => (p, ⟨none, .error e⟩)
  | .ok sid =>
    if p.completedBefore context sid ack then (p, ⟨none, .ok sid⟩)
    else
      match selectPending F context ack 0 p.handshakes.pending with
      | .error e => (p, ⟨none, .error e⟩)
      | .ok none => (p, ⟨none, .error .badHandshakeSignature⟩)
      | .ok (some (i, q)) =>
        match p.derive K context ack q with
        | .error e => (p, ⟨none, .error e⟩)
        | .ok (derived, keys) =>
          if derived ≠ sid then (p, ⟨none, .error .badHandshakeSignature⟩)
          else
            let s : Session := {
              info := ⟨derived, ack.from_, p.manager.local_, context, .established, 0⟩
              keys
              pin := q.pin
              initiator := true }
            ((p.dropPending i).insertSession derived s ⟨q.order, q.hello, ack⟩,
              ⟨some q, .ok derived⟩)

/-! ## What a call leaves alone -/

variable {F K} {p q : Party} {peer context : String}

@[simp] theorem active_insertSession {sid : String} {s : Session} {x : Exchange} (k : String) :
    (p.insertSession sid s x).manager.active[k]? =
      if k = sid then some s else p.manager.active[k]? :=
  lookup_insert p.manager.active sid k s

@[simp] theorem exchanges_insertSession {sid : String} {s : Session} {x : Exchange} (k : String) :
    (p.insertSession sid s x).handshakes.exchanges[k]? =
      if k = sid then some x else p.handshakes.exchanges[k]? :=
  lookup_insert p.handshakes.exchanges sid k x

/-- Handshakes and sessions were dropped, and nothing else changed. -/
structure Trimmed (p q : Party) : Prop where
  local_ : q.manager.local_ = p.manager.local_
  identity : q.manager.identity = p.manager.identity
  active : ∀ sid : String, q.manager.active[sid]? = p.manager.active[sid]? ∨
    q.manager.active[sid]? = none
  pending : q.handshakes.pending.Sublist p.handshakes.pending
  exchanges : q.handshakes.exchanges = p.handshakes.exchanges
  order : q.handshakes.order = p.handshakes.order

theorem Trimmed.refl (p : Party) : Trimmed p p :=
  ⟨rfl, rfl, fun _ => .inl rfl, List.Sublist.refl _, rfl, rfl⟩

theorem Trimmed.dropPending (h : Trimmed p q) (i : ℕ) : Trimmed p (q.dropPending i) :=
  ⟨h.local_, h.identity, h.active, (List.eraseIdx_sublist _ _).trans h.pending, h.exchanges,
    h.order⟩

theorem Trimmed.evict (h : Trimmed p q) (sid : String) : Trimmed p (q.evict sid) := by
  refine ⟨h.local_, h.identity, fun k => ?_, h.pending, h.exchanges, h.order⟩
  rw [Party.evict, SessionManager.active_remove]
  split_ifs
  · exact .inr rfl
  · exact h.active k

theorem boundTurn_trimmed (h : Trimmed p q) {r : Party} (hturn : boundTurn peer q = .inl r) :
    Trimmed p r := by
  unfold boundTurn at hturn
  split at hturn
  · cases hturn
  · split at hturn
    · rw [Sum.inl.injEq] at hturn
      split at hturn <;> subst hturn
      · exact h.dropPending _
      · exact h.evict _
    · cases hturn
      exact h.dropPending _
    · cases hturn
      exact h.evict _
    · cases hturn

theorem boundTurn_exit {r : Party} (hturn : boundTurn peer q = .inr r) : r = q := by
  unfold boundTurn at hturn
  split at hturn
  · exact (Sum.inr.inj hturn).symm
  · split at hturn
    · cases hturn
    · cases hturn
    · cases hturn
    · exact (Sum.inr.inj hturn).symm

theorem boundPending_trimmed (p : Party) (peer : String) : Trimmed p (p.boundPending peer) := by
  unfold boundPending
  cases h : Loop.iterate (boundTurn peer)
      (p.handshakes.pending.length + p.manager.active.size + 1) p with
  | none => exact Trimmed.refl p
  | some r =>
    refine Loop.iterate_post (Trimmed p) (Trimmed p) ?_ ?_ (Trimmed.refl p) h
    · exact fun _ _ hs hturn => boundTurn_trimmed hs hturn
    · intro _ _ hs hturn
      rw [boundTurn_exit hturn]
      exact hs

/-- `q` is `p` after room was made for a handshake with the peer; what is remembered of hellos
does not matter. -/
def MadeRoom (peer : String) (p q : Party) : Prop :=
  ∃ h : Handshakes, h.pending = p.handshakes.pending ∧ h.exchanges = p.handshakes.exchanges ∧
    h.order = p.handshakes.order ∧ q = boundPending ⟨p.manager, h⟩ peer

theorem MadeRoom.trimmed (h : MadeRoom peer p q) : Trimmed p q := by
  obtain ⟨k, hpending, hexchanges, horder, rfl⟩ := h
  have htrim := boundPending_trimmed ⟨p.manager, k⟩ peer
  exact ⟨htrim.local_, htrim.identity, htrim.active, hpending ▸ htrim.pending,
    htrim.exchanges.trans hexchanges, htrim.order.trans horder⟩

theorem dropPending_shorter {i : ℕ} {h : Pending} (hi : (h, i) ∈ q.pendingWith peer) :
    (q.dropPending i).handshakes.pending.length < q.handshakes.pending.length := by
  obtain ⟨hmem, -⟩ := List.mem_filter.mp hi
  have hlt := List.snd_lt_of_mem_zipIdx hmem
  rw [dropPending, List.length_eraseIdx_of_lt (by omega)]
  omega

theorem evict_smaller {sid : String} {order : UInt64} (hsid : (sid, order) ∈ q.halfOpen peer) :
    (q.evict sid).manager.active.size < q.manager.active.size := by
  obtain ⟨⟨k, s⟩, hmem, hsome⟩ := List.mem_filterMap.mp hsid
  have hk : k = sid := by
    dsimp only at hsome
    split_ifs at hsome
    obtain ⟨e, -, he⟩ := Option.map_eq_some_iff.mp hsome
    exact congrArg Prod.fst he
  rw [ExtTreeMap.mem_toList_iff_getElem?_eq_some, hk] at hmem
  exact size_erase_lt ((mem_iff_lookup _ _).mpr ⟨s, hmem⟩)

/-- Every turn drops something, so the turns allowed are enough. -/
theorem boundTurn_drops {r : Party} (hturn : boundTurn peer q = .inl r) :
    r.handshakes.pending.length + r.manager.active.size <
      q.handshakes.pending.length + q.manager.active.size := by
  have hpending {h : Pending} {i : ℕ}
      (hmin : (h, i) ∈ (q.pendingWith peer).argmin (·.1.order.toNat)) :
      (q.dropPending i).handshakes.pending.length + (q.dropPending i).manager.active.size <
        q.handshakes.pending.length + q.manager.active.size :=
    Nat.add_lt_add_right (dropPending_shorter (List.argmin_mem hmin)) _
  have hevict {sid : String} {order : UInt64}
      (hmin : (sid, order) ∈ (q.halfOpen peer).argmin (·.2.toNat)) :
      (q.evict sid).handshakes.pending.length + (q.evict sid).manager.active.size <
        q.handshakes.pending.length + q.manager.active.size :=
    Nat.add_lt_add_left (evict_smaller (List.argmin_mem hmin)) _
  unfold boundTurn at hturn
  split at hturn
  · cases hturn
  · split at hturn
    · next hp ha =>
      rw [Sum.inl.injEq] at hturn
      split at hturn <;> subst hturn
      · exact hpending hp
      · exact hevict ha
    · next hp _ =>
      cases hturn
      exact hpending hp
    · next _ ha =>
      cases hturn
      exact hevict ha
    · cases hturn

theorem boundPending_returns (p : Party) (peer : String) :
    ∃ r, Loop.iterate (boundTurn peer)
      (p.handshakes.pending.length + p.manager.active.size + 1) p = some r :=
  Loop.exists_iterate_of_variant (fun _ => True)
    (fun q => q.handshakes.pending.length + q.manager.active.size)
    (fun _ _ _ hturn => ⟨trivial, boundTurn_drops hturn⟩) trivial (Nat.lt_succ_self _)

/-! ## What a call does -/

/-- The signed hello carries the key of the secret and goes from this manager to the peer. -/
theorem hello_ok {entropy : Entropy} {env : SecureEnvelope} {ephemeral : EphemeralSecret}
    (h : p.hello F K peer context entropy = .ok (env, ephemeral)) :
    env.from_ = p.manager.local_ ∧ env.to_ = peer ∧
      env.epub = some (encodeHex (ephemeral.publicKey K).toList) := by
  unfold hello at h
  simp only [bind_eq_ok, guard_eq_ok, Except.ok.injEq, Prod.mk.injEq] at h
  obtain ⟨-, -, -, scalar, -, nonce, -, input, -, -, -, rfl, rfl⟩ := h
  exact ⟨rfl, rfl, rfl⟩

/-- A successful `initiate` appends a pending handshake; a failing one changes nothing. -/
theorem initiate_cases (p : Party) (peer context : String) (pin : Vector UInt8 32)
    (entropy : Entropy) :
    (∃ e, p.initiate F K peer context pin entropy = (p, .error e)) ∨
      ∃ env ephemeral order q, p.hello F K peer context entropy = .ok (env, ephemeral) ∧
        p.handshakes.nextOrder = .ok order ∧ MadeRoom peer (p.withOrder order) q ∧
        p.initiate F K peer context pin entropy =
          ({ q with handshakes.pending :=
              q.handshakes.pending ++ [⟨env, context, pin, ephemeral, order⟩] }, .ok env) := by
  unfold initiate
  cases hhello : p.hello F K peer context entropy with
  | error e => exact .inl ⟨e, rfl⟩
  | ok made =>
    obtain ⟨env, ephemeral⟩ := made
    cases horder : p.handshakes.nextOrder with
    | error e => exact .inl ⟨e, rfl⟩
    | ok order =>
      exact .inr ⟨env, ephemeral, order, _, rfl, rfl, ⟨_, rfl, rfl, rfl, rfl⟩, rfl⟩

theorem bytes32_eq_ok {hex : String} {v : Vector UInt8 32} :
    bytes32 hex = .ok v ↔ hex = encodeHex v.toList := by
  unfold bytes32
  cases hdecode : decodeHex hex with
  | error e =>
    refine ⟨nofun, fun h => ?_⟩
    rw [h, decodeHex_encodeHex] at hdecode
    cases hdecode
  | ok bytes =>
    rw [decodeHex_eq_ok] at hdecode
    subst hdecode
    dsimp only
    constructor
    · intro h
      split_ifs at h
      rw [← Except.ok.inj h]
      rfl
    · intro h
      have hbytes : bytes = v.toList := by
        have hdecoded := decodeHex_encodeHex bytes
        rw [h, decodeHex_encodeHex] at hdecoded
        exact (Except.ok.inj hdecoded).symm
      subst hbytes
      rw [dif_pos (by simp)]
      rfl

theorem drawn_eq_ok {v : Option (Vector UInt8 32)} {bytes : Vector UInt8 32} :
    drawn v = .ok bytes ↔ v = some bytes := by
  cases v <;> simp [drawn]

/-- A fresh ack carries the key of a new secret, and the identifier is the one derived. -/
theorem ack_ok {hello env : SecureEnvelope} {entropy : Entropy} {sid : String} {keys : SessionKeys}
    (h : p.ack F K context hello entropy = .ok (env, sid, keys)) :
    ∃ (ephemeral : EphemeralSecret) (epub ni nr : Vector UInt8 32), entropy.nonce = some nr ∧
      hello.epub = some (encodeHex epub.toList) ∧ hello.nonce = some (encodeHex ni.toList) ∧
      env.from_ = p.manager.local_ ∧
      env.epub = some (encodeHex (ephemeral.publicKey K).toList) ∧
      env.nonce = some (encodeHex nr.toList) ∧
      ephemeral.establish K epub ni nr context hello.from_ p.manager.local_ = .ok (sid, keys) := by
  unfold ack material at h
  simp only [bind_eq_ok, Except.ok.injEq, Prod.mk.injEq, SessionManager.required_eq_ok,
    bytes32_eq_ok] at h
  obtain ⟨scalar, -, nr, hnr, ⟨epub, ni⟩, ⟨-, hepub, epub', rfl, -, hnonce, ni', rfl, hpair⟩,
    ⟨sid', keys'⟩, hkeys, input, -, -, -, rfl, rfl, rfl⟩ := h
  obtain ⟨rfl, rfl⟩ := Prod.mk.inj hpair
  exact ⟨⟨scalar⟩, epub', ni', nr, drawn_eq_ok.mp hnr, hepub, hnonce, rfl, rfl, rfl, hkeys⟩

/-- A successful `respond` inserts a half-open session, unless it finds the ack it gave the
same hello before; a failing one changes at most what it remembers of the hello. -/
theorem respond_cases (p : Party) (context : String) (hello : SecureEnvelope)
    (pin : Vector UInt8 32) (entropy : Entropy) :
    (∃ h result, h.pending = p.handshakes.pending ∧ h.exchanges = p.handshakes.exchanges ∧
      h.order = p.handshakes.order ∧
      p.respond F K context hello pin entropy = ({ p with handshakes := h }, ⟨none, result⟩)) ∨
    ∃ env sid keys order q s, p.ack F K context hello entropy = .ok (env, sid, keys) ∧
      p.handshakes.nextOrder = .ok order ∧ MadeRoom hello.from_ (p.withOrder order) q ∧
      s = ⟨⟨sid, hello.from_, p.manager.local_, context, .ackSent, 0⟩, keys, pin, false⟩ ∧
      p.respond F K context hello pin entropy =
        (q.insertSession sid s ⟨order, hello, env⟩, ⟨some s, .ok env⟩) := by
  unfold respond
  cases hcheck : p.checkHello F context hello pin with
  | error e => exact .inl ⟨p.handshakes, _, rfl, rfl, rfl, rfl⟩
  | ok sig =>
    have hremember : (p.handshakes.rememberHello context sig).pending = p.handshakes.pending ∧
        (p.handshakes.rememberHello context sig).exchanges = p.handshakes.exchanges ∧
        (p.handshakes.rememberHello context sig).order = p.handshakes.order := by
      unfold Handshakes.rememberHello
      dsimp only
      split_ifs <;> exact ⟨rfl, rfl, rfl⟩
    obtain ⟨hpending, hexchanges, horder⟩ := hremember
    dsimp only
    generalize p.handshakes.rememberHello context sig = h at hpending hexchanges horder ⊢
    cases hanswered : ({ p with handshakes := h } : Party).answered context hello pin with
    | some ack => exact .inl ⟨h, _, hpending, hexchanges, horder, rfl⟩
    | none =>
      have hack : ({ p with handshakes := h } : Party).ack F K context hello entropy =
          p.ack F K context hello entropy := rfl
      have hnext : h.nextOrder = p.handshakes.nextOrder := by
        rw [Handshakes.nextOrder, Handshakes.nextOrder, horder]
      dsimp only
      rw [hack, hnext]
      cases hmade : p.ack F K context hello entropy with
      | error e => exact .inl ⟨h, _, hpending, hexchanges, horder, rfl⟩
      | ok made =>
        obtain ⟨env, sid, keys⟩ := made
        dsimp only
        cases hnumber : p.handshakes.nextOrder with
        | error e => exact .inl ⟨h, _, hpending, hexchanges, horder, rfl⟩
        | ok order =>
          have hroom : MadeRoom hello.from_ (p.withOrder order)
              ((Party.withOrder ⟨p.manager, h⟩ order).boundPending hello.from_) :=
            ⟨{ h with order := order }, hpending, hexchanges, rfl, rfl⟩
          dsimp only
          generalize (Party.withOrder ⟨p.manager, h⟩ order).boundPending hello.from_ = q
            at hroom ⊢
          refine .inr ⟨env, sid, keys, order, q, _, rfl, rfl, hroom, rfl, ?_⟩
          rw [hroom.trimmed.local_]
          rfl

theorem respondOnce_cases (p : Party) (context : String) (hello : SecureEnvelope)
    (pin : Vector UInt8 32) (entropy : Entropy) :
    (∃ result, p.respondOnce F K context hello pin entropy = (p, none, result)) ∨
      p.respondOnce F K context hello pin entropy =
        ((p.respond F K context hello pin entropy).1,
          (p.respond F K context hello pin entropy).2.inserted,
          (p.respond F K context hello pin entropy).2.result.map some) := by
  unfold respondOnce
  cases p.checkHello F context hello pin with
  | error e => exact .inl ⟨_, rfl⟩
  | ok sig =>
    by_cases hseen : (context, sig) ∈ p.handshakes.seenHellos
    · exact .inl ⟨_, if_pos hseen⟩
    · exact .inr (if_neg hseen)

theorem selectPending_some {ack : SecureEnvelope} {i k : ℕ} {qs : List Pending} {h : Pending}
    (hsel : selectPending F context ack k qs = .ok (some (i, h))) :
    k ≤ i ∧ qs[i - k]? = some h ∧ h.hello.to_ = ack.from_ ∧ h.hacpSession = context ∧
      ∃ input sig, ack.ackSigningInput F context h.hello = .ok input ∧ ack.sig = some sig ∧
        verify F h.pin input sig = true := by
  induction qs generalizing k with
  | nil => cases hsel
  | cons h' qs ih =>
    have hlater (hrest : selectPending F context ack (k + 1) qs = .ok (some (i, h))) :
        k ≤ i ∧ (h' :: qs)[i - k]? = some h ∧ h.hello.to_ = ack.from_ ∧ h.hacpSession = context ∧
          ∃ input sig, ack.ackSigningInput F context h.hello = .ok input ∧ ack.sig = some sig ∧
            verify F h.pin input sig = true := by
      obtain ⟨hle, hget, hrest⟩ := ih hrest
      refine ⟨by omega, ?_, hrest⟩
      rw [show i - k = i - (k + 1) + 1 by omega, List.getElem?_cons_succ]
      exact hget
    rw [selectPending] at hsel
    split at hsel
    · next hroute =>
      simp only [bind_eq_ok, SessionManager.required_eq_ok] at hsel
      obtain ⟨input, hinput, sig, hsig, hsel⟩ := hsel
      split at hsel
      · next hverify =>
        obtain ⟨rfl, rfl⟩ := Prod.mk.inj (Option.some.inj (Except.ok.inj hsel))
        exact ⟨le_rfl, by simp, hroute.1, hroute.2, input, sig, hinput, hsig, hverify⟩
      · exact hlater hsel
    · exact hlater hsel

/-- A completion that consumes a pending handshake inserts an established session under the
identifier of the ack; any other leaves the manager as it is. -/
theorem complete_cases (p : Party) (context : String) (ack : SecureEnvelope) :
    (∃ result, p.complete F K context ack = (p, ⟨none, result⟩) ∧
      ∀ sid, result = .ok sid → p.completedBefore context sid ack = true ∧
        ack.sid = some sid) ∨
    ∃ i h sid keys, p.handshakes.pending[i]? = some h ∧ h.hello.to_ = ack.from_ ∧
      h.hacpSession = context ∧
      (∃ input sig, ack.ackSigningInput F context h.hello = .ok input ∧ ack.sig = some sig ∧
        verify F h.pin input sig = true) ∧
      p.derive K context ack h = .ok (sid, keys) ∧ ack.sid = some sid ∧
      p.complete F K context ack =
        ((p.dropPending i).insertSession sid
          ⟨⟨sid, ack.from_, p.manager.local_, context, .established, 0⟩, keys, h.pin, true⟩
          ⟨h.order, h.hello, ack⟩, ⟨some h, .ok sid⟩) := by
  unfold complete
  cases hcheck : p.checkAck F context ack with
  | error e => exact .inl ⟨_, rfl, nofun⟩
  | ok sid =>
    have hsid : ack.sid = some sid := by
      unfold checkAck at hcheck
      simp only [bind_eq_ok, guard_eq_ok, SessionManager.required_eq_ok] at hcheck
      obtain ⟨-, -, -, -, -, -, hsid⟩ := hcheck
      exact hsid
    dsimp only
    by_cases hbefore : p.completedBefore context sid ack = true
    · rw [if_pos hbefore]
      exact .inl ⟨_, rfl, fun k hk => Except.ok.inj hk ▸ ⟨hbefore, hsid⟩⟩
    · rw [if_neg hbefore]
      cases hsel : selectPending F context ack 0 p.handshakes.pending with
      | error e => exact .inl ⟨_, rfl, nofun⟩
      | ok selected =>
        cases selected with
        | none => exact .inl ⟨_, rfl, nofun⟩
        | some found =>
          obtain ⟨i, h⟩ := found
          obtain ⟨-, hget, hto, hcontext, hverify⟩ := selectPending_some hsel
          dsimp only
          cases hderive : p.derive K context ack h with
          | error e => exact .inl ⟨_, rfl, nofun⟩
          | ok derived =>
            obtain ⟨derived, keys⟩ := derived
            dsimp only
            by_cases hne : derived ≠ sid
            · rw [if_pos hne]
              exact .inl ⟨_, rfl, nofun⟩
            · rw [if_neg hne]
              rw [not_not] at hne
              subst hne
              exact .inr ⟨i, h, derived, keys, hget, hto, hcontext, hverify, hderive, hsid, rfl⟩

end Party
end Hacp.Secure
