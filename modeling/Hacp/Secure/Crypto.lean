import Hacp.Secure.Envelope

/-!
# Guardian-private primitives

Each direction of a session has its own key, and a message is sealed under the
nonce its sequence number determines. Different sequence numbers give different
nonces. The keys and the identifier of a session are expanded from the shared
secret of two ephemeral keys.
-/
namespace Hacp.Secure
open Lib

/-- `seq.to_be_bytes()`. -/
def beBytes (seq : UInt64) : Bytes :=
  [7, 6, 5, 4, 3, 2, 1, 0].map fun k => UInt8.ofNat (seq.toNat / 256 ^ k)

/-- Four zero bytes and the big-endian sequence number. -/
def nonce96 (seq : UInt64) : Bytes := List.replicate 4 0 ++ beBytes seq

example : nonce96 (UInt64.ofNat (2 ^ 32)) = [0, 0, 0, 0, 0, 0, 0, 1, 0, 0, 0, 0] := by decide

/-- A number below `256 ^ k` is determined by its `k` low bytes. -/
theorem eq_of_bytes (k : ℕ) {m n : ℕ} (hm : m < 256 ^ k) (hn : n < 256 ^ k)
    (h : ∀ i < k, m / 256 ^ i % 256 = n / 256 ^ i % 256) : m = n := by
  induction k generalizing m n with
  | zero => omega
  | succ k ih =>
    have hlow : m % 256 = n % 256 := by simpa using h 0 (by omega)
    have hhigh : m / 256 = n / 256 := by
      rw [pow_succ] at hm hn
      refine ih (Nat.div_lt_of_lt_mul (by omega)) (Nat.div_lt_of_lt_mul (by omega)) fun i hi => ?_
      have hi := h (i + 1) (by omega)
      rwa [pow_succ', ← Nat.div_div_eq_div_mul, ← Nat.div_div_eq_div_mul] at hi
    omega

theorem nonce96_injective : Function.Injective nonce96 := by
  intro m n h
  have hbytes := List.append_cancel_left h
  apply UInt64.toNat_inj.mp
  apply eq_of_bytes 8 m.toNat_lt n.toNat_lt
  intro i hi
  have hmem : i ∈ [7, 6, 5, 4, 3, 2, 1, 0] := by
    interval_cases i <;> decide
  have hbyte := List.map_inj_left.mp hbytes i hmem
  simpa [← UInt8.toNat_inj] using hbyte

/-- The two directional keys of a session, initiator to responder and back. -/
structure SessionKeys where
  i2r : Vector UInt8 32
  r2i : Vector UInt8 32
  deriving DecidableEq

/-! ## Key agreement -/

structure KeyExchange where
  /-- `x25519_dalek::x25519(scalar, point)`. -/
  x25519 : Vector UInt8 32 → Vector UInt8 32 → Vector UInt8 32
  /-- `Hkdf::<Sha256>::new(Some(&salt), shared).expand(info, out)` for an `out` of `n` bytes. -/
  expand : Bytes → Vector UInt8 32 → Bytes → (n : ℕ) → Option (Vector UInt8 n)

/-- `x25519_dalek::X25519_BASEPOINT_BYTES`. -/
def basepoint : Vector UInt8 32 := ⟨#[9] ++ Array.replicate 31 0, by simp⟩

/-- What the outputs of one key schedule are expanded from, each under its own label. -/
def sessionInfo (context initiator responder label : String) : Bytes :=
  asBytes "HACP-SECURE/v1/session" ++ asBytes context ++ asBytes initiator ++
    asBytes responder ++ asBytes label

def sessionLabels : List String := ["sid", "k_i2r", "k_r2i"]

def schedule (K : KeyExchange) (shared ni nr : Vector UInt8 32)
    (context initiator responder : String) : Except SecureError (String × SessionKeys) :=
  let salt := ni.toList ++ nr.toList
  let output (label : String) (n : ℕ) : Except SecureError (Vector UInt8 n) :=
    match K.expand salt shared (sessionInfo context initiator responder label) n with
    | some out => .ok out
    | none => .error .guardianUnavailable
  do
    let sid ← output "sid" 16
    let i2r ← output "k_i2r" 32
    let r2i ← output "k_r2i" 32
    .ok (encodeHex sid.toList, ⟨i2r, r2i⟩)

structure EphemeralSecret where
  scalar : Vector UInt8 32

namespace EphemeralSecret

def publicKey (K : KeyExchange) (secret : EphemeralSecret) : Vector UInt8 32 :=
  K.x25519 secret.scalar basepoint

/-- A shared secret of zeros is refused: it would make the keys predictable. -/
def establish (K : KeyExchange) (secret : EphemeralSecret) (peer ni nr : Vector UInt8 32)
    (context initiator responder : String) : Except SecureError (String × SessionKeys) :=
  let shared := K.x25519 secret.scalar peer
  if shared.all (· == 0) then .error .badHandshakeSignature
  else schedule K shared ni nr context initiator responder

end EphemeralSecret

section
variable (F : Foreign)

/-- A signature is hexadecimal text of 64 bytes. -/
def verify (pk : Vector UInt8 32) (input : Bytes) (sig : String) : Bool :=
  match decodeHex sig with
  | .error _ => false
  | .ok bytes =>
    if h : bytes.length = 64 then F.verifyStrict pk input ⟨bytes.toArray, h⟩ else false

def sign (seed : Vector UInt8 32) (input : Bytes) : String :=
  encodeHex (F.sign seed input).toList

namespace SessionKeys

/-- The key messages are sealed with: an initiator sends from initiator to responder. -/
def sendKey (keys : SessionKeys) (initiator : Bool) : Vector UInt8 32 :=
  if initiator then keys.i2r else keys.r2i

def receiveKey (keys : SessionKeys) (initiator : Bool) : Vector UInt8 32 :=
  if initiator then keys.r2i else keys.i2r

def seal_ (keys : SessionKeys) (initiator : Bool) (seq : UInt64) (aad pt : Bytes) :
    Except SecureError Bytes :=
  match F.encrypt (keys.sendKey initiator) (nonce96 seq) aad pt with
  | some ct => .ok ct
  | none => .error .guardianUnavailable

def open_ (keys : SessionKeys) (initiator : Bool) (seq : UInt64) (aad ct : Bytes) :
    Except SecureError Bytes :=
  match F.decrypt (keys.receiveKey initiator) (nonce96 seq) aad ct with
  | some pt => .ok pt
  | none => .error .tamperDetected

theorem seal_fails (keys : SessionKeys) (initiator : Bool) (seq : UInt64) (aad pt : Bytes) :
    FailsAs (· = .guardianUnavailable) (keys.seal_ F initiator seq aad pt) := by
  unfold seal_
  cases F.encrypt (keys.sendKey initiator) (nonce96 seq) aad pt with
  | some ct => exact .ok ct
  | none => exact .error rfl

end SessionKeys
end
end Hacp.Secure
