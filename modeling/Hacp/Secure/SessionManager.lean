import Hacp.Lib.Checks
import Hacp.Lib.Lookup
import Hacp.Secure.Crypto

/-!
# Established sessions

The session manager holds the identity seed and, for every session identifier, the
keys, the pinned peer key and the next sequence number to send. Sealing spends the
number as soon as ciphertext exists; whatever fails afterwards ends the session.
-/
namespace Hacp.Secure
open Lib Std

def u64Max : UInt64 := 0xFFFFFFFFFFFFFFFF

inductive SessionState where
  | ackSent
  | established
  deriving DecidableEq

structure SessionInfo where
  sid : String
  peer : String
  local_ : String
  hacpSession : String
  state : SessionState
  sendSeq : UInt64
  deriving DecidableEq

structure Session where
  info : SessionInfo
  keys : SessionKeys
  /-- The pinned identity key of the peer. -/
  pin : Vector UInt8 32
  initiator : Bool
  deriving DecidableEq

def Session.opened (s : Session) : Session := { s with info.state := .established }

/-- What decides how messages of the session are checked and opened. -/
def Session.credentials (s : Session) : SessionKeys × Vector UInt8 32 × Bool × String :=
  (s.keys, s.pin, s.initiator, s.info.peer)

structure SessionManager where
  local_ : String
  /-- The seed of the identity key. -/
  identity : Vector UInt8 32
  active : ExtTreeMap String Session

/-- One call of `SessionKeys::seal` that produced ciphertext. -/
structure Encryption where
  sid : String
  key : Vector UInt8 32
  seq : UInt64
  deriving DecidableEq

def Encryption.nonce (e : Encryption) : Bytes := nonce96 e.seq

/-- What a sealing call returns, with the encryption it performed. -/
structure Sealing where
  encrypted : Option Encryption
  result : Except SecureError SecureEnvelope

def required (v : Option String) : Except SecureError String :=
  match v with
  | some s => .ok s
  | none => .error .schemaViolation

namespace SessionManager

def info (m : SessionManager) (sid : String) : Except SecureError SessionInfo :=
  match m.active[sid]? with
  | some s => .ok s.info
  | none => .error .sessionUnknown

def remove (m : SessionManager) (sid : String) : SessionManager :=
  { m with active := m.active.erase sid }

def put (m : SessionManager) (sid : String) (s : Session) : SessionManager :=
  { m with active := m.active.insert sid s }

def close (m : SessionManager) (sid : String) : SessionManager × Except SecureError Unit :=
  match m.active[sid]? with
  | some _ => (m.remove sid, .ok ())
  | none => (m, .error .sessionUnknown)

/-- The envelope of the next message, before it is encrypted and signed. -/
def draft (m : SessionManager) (s : Session) (sid : String) (seq : UInt64) (contract : String) :
    SecureEnvelope where
  v := 1
  kind := .msg
  from_ := m.local_
  to_ := s.info.peer
  contract := contract
  sid := some sid
  seq := some seq
  epub := none
  nonce := none
  sig := none
  ct := none
  ts := none

variable (F : Foreign)

def finish (m : SessionManager) (env : SecureEnvelope) : Except SecureError SecureEnvelope := do
  let input ← env.messageSigningInput F
  let env := { env with sig := some (sign F m.identity input) }
  env.validate F
  .ok env

def seal_ (m : SessionManager) (sid : String) (seq : UInt64) (contract : String)
    (payload : Bytes) : SessionManager × Sealing :=
  match m.active[sid]? with
  | none => (m, ⟨none, .error .sessionUnknown⟩)
  | some s =>
    if seq = u64Max ∨ s.info.sendSeq = u64Max then
      (m.remove sid, ⟨none, .error .sessionExhausted⟩)
    else if seq ≠ s.info.sendSeq then (m, ⟨none, .error .replayRejected⟩)
    else
      let env := m.draft s sid seq contract
      match env.aadBytes F with
      | .error e => (m, ⟨none, .error e⟩)
      | .ok aad =>
        match s.keys.seal_ F s.initiator seq aad payload with
        | .error e => (m, ⟨none, .error e⟩)
        | .ok ct =>
          let spent : Encryption := ⟨sid, s.keys.sendKey s.initiator, seq⟩
          -- burned before any later fallible work: the ciphertext spends this nonce
          let burned := m.put sid { s with info.sendSeq := s.info.sendSeq + 1 }
          match m.finish F { env with ct := some (encodeHex ct) } with
          | .error e => (burned.remove sid, ⟨some spent, .error e⟩)
          | .ok env => (burned, ⟨some spent, .ok env⟩)

def verifyMessage (m : SessionManager) (env : SecureEnvelope) : Except SecureError Unit := do
  env.validate F
  if env.kind ≠ .msg then .error .schemaViolation
  else
    let sid ← required env.sid
    match m.active[sid]? with
    | none => .error .sessionUnknown
    | some s =>
      if env.from_ ≠ s.info.peer ∨ env.to_ ≠ m.local_ then .error .identityMismatch
      else do
        let input ← env.messageSigningInput F
        let sig ← required env.sig
        if ¬verify F s.pin input sig then .error .badMessageSignature else .ok ()

/-- `keys.open` over the header and the decoded ciphertext of an envelope. -/
def openCiphertext (s : Session) (env : SecureEnvelope) (seq : UInt64) :
    Except SecureError Bytes := do
  let aad ← env.aadBytes F
  let ct ← required env.ct
  let bytes ← decodeHex ct
  s.keys.open_ F s.initiator seq aad bytes

def openAuthenticated (m : SessionManager) (env : SecureEnvelope) :
    SessionManager × Except SecureError Bytes :=
  match m.verifyMessage F env with
  | .error e => (m, .error e)
  | .ok () =>
    match env.sid, env.seq with
    | some sid, some seq =>
      if seq = u64Max then (m.remove sid, .error .sessionExhausted)
      else
        match m.active[sid]? with
        | none => (m, .error .sessionUnknown)
        | some s =>
          match openCiphertext F s env seq with
          | .error e => (m, .error e)
          | .ok pt => (m.put sid s.opened, .ok pt)
    | _, _ => (m, .error .schemaViolation)

variable {F} {m : SessionManager} {sid : String} {env : SecureEnvelope}

@[simp] theorem active_remove (k : String) :
    (m.remove sid).active[k]? = if k = sid then none else m.active[k]? :=
  lookup_erase m.active sid k

@[simp] theorem active_put {s : Session} (k : String) :
    (m.put sid s).active[k]? = if k = sid then some s else m.active[k]? :=
  lookup_insert m.active sid k s

theorem info_isOk : (m.info sid).isOk = m.active[sid]?.isSome := by
  unfold info
  cases m.active[sid]? <;> rfl

theorem close_fst : (m.close sid).1.active[sid]? = none := by
  unfold close
  cases h : m.active[sid]? with
  | none => exact h
  | some s => simp

theorem required_eq_ok {v : Option String} {t : String} : required v = .ok t ↔ v = some t := by
  cases v <;> simp [required]

theorem verifyMessage_eq_ok :
    m.verifyMessage F env = .ok () ↔ env.validate F = .ok () ∧ env.kind = .msg ∧
      ∃ sid s, env.sid = some sid ∧ m.active[sid]? = some s ∧ env.from_ = s.info.peer ∧
        env.to_ = m.local_ ∧ ∃ input sig, env.messageSigningInput F = .ok input ∧
          env.sig = some sig ∧ verify F s.pin input sig = true := by
  unfold verifyMessage
  simp only [bind_eq_ok, guard_eq_ok, required_eq_ok, not_not, Unique.exists_iff]
  refine and_congr_right fun _ => and_congr_right fun _ => exists_congr fun sid => ?_
  cases hs : m.active[sid]? with
  | none => simp
  | some s => simp [bind_eq_ok, guard_eq_ok, required_eq_ok, and_assoc]

theorem openCiphertext_of_fields {s : Session} {seq : UInt64} {aad bytes : Bytes} {ct : String}
    (haad : env.aadBytes F = .ok aad) (hct : env.ct = some ct)
    (hbytes : decodeHex ct = .ok bytes) :
    openCiphertext F s env seq = s.keys.open_ F s.initiator seq aad bytes := by
  simp only [openCiphertext, haad, hct, required, hbytes, bind, Except.bind]

/-- A verified message is decrypted under its own session, which is then established. -/
theorem openAuthenticated_of_verified {seq : UInt64} (hverified : m.verifyMessage F env = .ok ())
    (hsid : env.sid = some sid) (hseq : env.seq = some seq) (hmax : seq ≠ u64Max) :
    ∃ s, m.active[sid]? = some s ∧ m.openAuthenticated F env =
      match openCiphertext F s env seq with
      | .error e => (m, .error e)
      | .ok pt => (m.put sid s.opened, .ok pt) := by
  obtain ⟨-, -, k, s, hk, hs, -⟩ := verifyMessage_eq_ok.mp hverified
  obtain rfl := Option.some.inj (hk.symm.trans hsid)
  refine ⟨s, hs, ?_⟩
  simp only [openAuthenticated, hverified, hsid, hseq, if_neg hmax, hs]

/-- Two managers that treat the messages of a session alike: it has the same keys and the
same peer in both, or is in neither. -/
structure SameKeys (sid : String) (m n : SessionManager) : Prop where
  local_ : n.local_ = m.local_
  credentials : n.active[sid]?.map Session.credentials = m.active[sid]?.map Session.credentials

namespace SameKeys
variable {n : SessionManager}

theorem cases (h : SameKeys sid m n) :
    (m.active[sid]? = none ∧ n.active[sid]? = none) ∨ ∃ s t, m.active[sid]? = some s ∧
      n.active[sid]? = some t ∧ t.credentials = s.credentials := by
  have hmap := h.credentials
  cases hs : m.active[sid]? with
  | none =>
    rw [hs, Option.map_none, Option.map_eq_none_iff] at hmap
    exact .inl ⟨rfl, hmap⟩
  | some s =>
    rw [hs, Option.map_some, Option.map_eq_some_iff] at hmap
    obtain ⟨t, ht, hst⟩ := hmap
    exact .inr ⟨s, t, rfl, ht, hst⟩

theorem refl (sid : String) (m : SessionManager) : SameKeys sid m m := ⟨rfl, rfl⟩

theorem trans {p : SessionManager} (h : SameKeys sid m n) (h' : SameKeys sid n p) :
    SameKeys sid m p :=
  ⟨h'.local_.trans h.local_, h'.credentials.trans h.credentials⟩

theorem symm (h : SameKeys sid m n) : SameKeys sid n m := ⟨h.local_.symm, h.credentials.symm⟩

theorem verifyMessage (h : SameKeys sid m n) (hsid : env.sid = some sid) :
    n.verifyMessage F env = m.verifyMessage F env := by
  unfold SessionManager.verifyMessage
  rw [h.local_, hsid]
  rcases h.cases with ⟨hm, hn⟩ | ⟨s, t, hs, ht, hst⟩
  · simp only [required, bind, Except.bind, hm, hn]
  · simp only [Session.credentials, Prod.mk.injEq] at hst
    simp only [required, bind, Except.bind, hs, ht, hst]

theorem openAuthenticated (h : SameKeys sid m n) (hsid : env.sid = some sid) :
    (n.openAuthenticated F env).2 = (m.openAuthenticated F env).2 := by
  unfold SessionManager.openAuthenticated
  rw [h.verifyMessage hsid, hsid]
  cases m.verifyMessage F env with
  | error e => rfl
  | ok _ =>
    cases env.seq with
    | none => rfl
    | some seq =>
      by_cases hmax : seq = u64Max
      · simp only [if_pos hmax]
      · rcases h.cases with ⟨hm, hn⟩ | ⟨s, t, hs, ht, hst⟩
        · simp only [if_neg hmax, hm, hn]
        · simp only [Session.credentials, Prod.mk.injEq] at hst
          have hopen : openCiphertext F t env seq = openCiphertext F s env seq := by
            simp only [openCiphertext, hst]
          simp only [if_neg hmax, hs, ht, hopen]
          cases openCiphertext F s env seq <;> rfl

end SameKeys

/-- Two managers whose entries for a session differ at most in whether it is established. -/
structure Alike (sid : String) (m n : SessionManager) : Prop where
  local_ : n.local_ = m.local_
  session : n.active[sid]?.map Session.opened = m.active[sid]?.map Session.opened

namespace Alike
variable {n p : SessionManager}

theorem refl (sid : String) (m : SessionManager) : Alike sid m m := ⟨rfl, rfl⟩

theorem trans (h : Alike sid m n) (h' : Alike sid n p) : Alike sid m p :=
  ⟨h'.local_.trans h.local_, h'.session.trans h.session⟩

theorem symm (h : Alike sid m n) : Alike sid n m := ⟨h.local_.symm, h.session.symm⟩

theorem put {s : Session} (hs : m.active[sid]? = some s) : Alike sid m (m.put sid s.opened) where
  local_ := rfl
  session := by
    rw [active_put, if_pos rfl, hs]
    rfl

theorem sameKeys (h : Alike sid m n) : SameKeys sid m n where
  local_ := h.local_
  credentials := by
    have hmap := congrArg (Option.map Session.credentials) h.session
    rw [Option.map_map, Option.map_map] at hmap
    exact hmap

/-- A session of one manager is a session of the other, with the same number to send. -/
theorem get (h : Alike sid m n) {s : Session} (hs : m.active[sid]? = some s) :
    ∃ t, n.active[sid]? = some t ∧ t.info.sendSeq = s.info.sendSeq := by
  have hmap := congrArg (Option.map fun t : Session => t.info.sendSeq) h.session
  rw [Option.map_map, Option.map_map, hs, Option.map_some, Option.map_eq_some_iff] at hmap
  exact hmap

end Alike

inductive SealStep (F : Foreign) (m : SessionManager) (sid : String) (seq : UInt64)
    (contract : String) (payload : Bytes) : SessionManager × Sealing → Prop
  | unknown : m.active[sid]? = none →
      SealStep F m sid seq contract payload (m, ⟨none, .error .sessionUnknown⟩)
  | exhausted {s : Session} : m.active[sid]? = some s → seq = u64Max ∨ s.info.sendSeq = u64Max →
      SealStep F m sid seq contract payload (m.remove sid, ⟨none, .error .sessionExhausted⟩)
  | outOfStep {s : Session} : m.active[sid]? = some s → seq ≠ s.info.sendSeq →
      SealStep F m sid seq contract payload (m, ⟨none, .error .replayRejected⟩)
  | refused {e : SecureError} : e ≠ .replayRejected →
      SealStep F m sid seq contract payload (m, ⟨none, .error e⟩)
  /-- The nonce is spent and the session is over. -/
  | failed {s : Session} {e : SecureError} : m.active[sid]? = some s → seq ≠ u64Max →
      seq = s.info.sendSeq → e ≠ .replayRejected →
      SealStep F m sid seq contract payload
        ((m.put sid { s with info.sendSeq := s.info.sendSeq + 1 }).remove sid,
          ⟨some ⟨sid, s.keys.sendKey s.initiator, seq⟩, .error e⟩)
  | sealed {s : Session} {aad ct : Bytes} {env : SecureEnvelope} : m.active[sid]? = some s →
      seq ≠ u64Max → seq = s.info.sendSeq →
      (m.draft s sid seq contract).aadBytes F = .ok aad →
      s.keys.seal_ F s.initiator seq aad payload = .ok ct →
      m.finish F { m.draft s sid seq contract with ct := some (encodeHex ct) } = .ok env →
      SealStep F m sid seq contract payload
        (m.put sid { s with info.sendSeq := s.info.sendSeq + 1 },
          ⟨some ⟨sid, s.keys.sendKey s.initiator, seq⟩, .ok env⟩)

theorem finish_fails (m : SessionManager) (env : SecureEnvelope) :
    FailsAs SecureEnvelope.Malformed (m.finish F env) :=
  .bind (SecureEnvelope.messageSigningInput_fails F env) fun _ =>
    .bind (SecureEnvelope.validate_fails F _) fun _ => .ok _

theorem seal_step (m : SessionManager) (sid : String) (seq : UInt64) (contract : String)
    (payload : Bytes) : SealStep F m sid seq contract payload
      (m.seal_ F sid seq contract payload) := by
  unfold seal_
  cases hs : m.active[sid]? with
  | none => exact .unknown hs
  | some s =>
    by_cases hmax : seq = u64Max ∨ s.info.sendSeq = u64Max
    · simp only [if_pos hmax]
      exact .exhausted hs hmax
    · by_cases hseq : seq = s.info.sendSeq
      · have hlt : seq ≠ u64Max := fun h => hmax (.inl h)
        simp only [if_neg hmax, if_neg (not_not_intro hseq)]
        cases haad : (m.draft s sid seq contract).aadBytes F with
        | error e =>
          refine .refused ?_
          rw [SecureEnvelope.aadBytes_fails F _ e haad]
          decide
        | ok aad =>
          dsimp only
          cases hct : s.keys.seal_ F s.initiator seq aad payload with
          | error e =>
            refine .refused ?_
            rw [SessionKeys.seal_fails F _ _ _ _ _ e hct]
            decide
          | ok ct =>
            dsimp only
            cases hfinish :
                m.finish F { m.draft s sid seq contract with ct := some (encodeHex ct) } with
            | error e =>
              refine .failed hs hlt hseq ?_
              rw [finish_fails m _ e hfinish]
              decide
            | ok env => exact .sealed hs hlt hseq haad hct hfinish
      · simp only [if_neg hmax, if_pos hseq]
        exact .outOfStep hs hseq

/-- The manager never judges a contract binding, and it runs out of numbers only where a counter
stands at the last one. -/
theorem seal_exhausted {seq : UInt64} {contract : String} {payload : Bytes} {e : SecureError}
    (h : (m.seal_ F sid seq contract payload).2.result = .error e)
    (he : e = .contractMismatch ∨ e = .sessionExhausted) :
    ∃ s, m.active[sid]? = some s ∧ (seq = u64Max ∨ s.info.sendSeq = u64Max) := by
  cases hs : m.active[sid]? with
  | none =>
    simp only [seal_, hs, Except.error.injEq] at h
    subst h
    simp at he
  | some s =>
    by_cases hmax : seq = u64Max ∨ s.info.sendSeq = u64Max
    · exact ⟨s, rfl, hmax⟩
    exfalso
    have hfails : FailsAs (fun e => e ≠ .contractMismatch ∧ e ≠ .sessionExhausted)
        (m.seal_ F sid seq contract payload).2.result := by
      unfold seal_
      simp only [hs, if_neg hmax]
      split_ifs
      · exact .error (by decide)
      · cases haad : (m.draft s sid seq contract).aadBytes F with
        | error e =>
          rw [SecureEnvelope.aadBytes_fails F _ e haad]
          exact .error (by decide)
        | ok aad =>
          dsimp only
          cases hct : s.keys.seal_ F s.initiator seq aad payload with
          | error e =>
            rw [SessionKeys.seal_fails F _ _ _ _ _ e hct]
            exact .error (by decide)
          | ok ct =>
            dsimp only
            cases hfinish :
                m.finish F { m.draft s sid seq contract with ct := some (encodeHex ct) } with
            | error e =>
              rw [finish_fails m _ e hfinish]
              exact .error (by decide)
            | ok env => exact .ok env
    obtain ⟨hmismatch, hexhausted⟩ := hfails e h
    exact he.elim hmismatch hexhausted

end SessionManager
end Hacp.Secure
