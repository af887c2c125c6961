import Hacp.Text

/-!
# The code the source calls and does not contain

Hashing, signatures, authenticated encryption and date parsing come from other
crates. They are parameters of the model; what a result needs of them is stated
where it is used.
-/
namespace Hacp

structure Foreign where
  /-- `sha2::Sha256`. -/
  sha256 : Bytes → Bytes
  /-- `chrono::NaiveDateTime::parse_from_str(s, "%Y-%m-%dT%H:%M:%SZ").is_ok()`. -/
  naiveDateTime : String → Bool
  /-- `chrono::DateTime::parse_from_rfc3339(s).is_ok()`. -/
  rfc3339 : String → Bool
  /-- `ed25519_dalek::SigningKey::from_bytes(seed).sign(input).to_bytes()`. -/
  sign : Vector UInt8 32 → Bytes → Vector UInt8 64
  /-- `VerifyingKey::from_bytes(pk)` succeeds and `verify_strict(input, sig)` accepts. -/
  verifyStrict : Vector UInt8 32 → Bytes → Vector UInt8 64 → Bool
  /-- `ChaCha20Poly1305::new(key).encrypt(nonce, Payload { msg, aad })`. -/
  encrypt : Vector UInt8 32 → Bytes → Bytes → Bytes → Option Bytes
  /-- `ChaCha20Poly1305::new(key).decrypt(nonce, Payload { msg, aad })`. -/
  decrypt : Vector UInt8 32 → Bytes → Bytes → Bytes → Option Bytes

/-- Functions for runs on fixed inputs whose outcome hangs on no hash, key or date. -/
def Foreign.placeholder : Foreign where
  sha256 _ := List.replicate 32 0
  naiveDateTime _ := true
  rfc3339 _ := true
  sign _ _ := Vector.replicate 64 0
  verifyStrict _ _ _ := false
  encrypt _ _ _ _ := none
  decrypt _ _ _ _ := none

end Hacp
