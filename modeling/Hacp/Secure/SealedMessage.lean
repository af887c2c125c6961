import Hacp.Secure.Calls
import Hacp.Secure.SigningInput

/-!
# From one end of a session to the other

An envelope that one end emits verifies at the other and opens to the payload. Any
envelope with the same signed bytes is the same message: it has the same number and
contract and opens to the same payload.
-/
namespace Hacp.Secure
open Lib Std SessionManager

namespace SecureEnvelope
variable {F : Foreign} {e e' : SecureEnvelope}

def SignedAlike (F : Foreign) (e e' : SecureEnvelope) : Prop :=
  ∃ input, e.messageSigningInput F = .ok input ∧ e'.messageSigningInput F = .ok input

theorem aadObject_with (e : SecureEnvelope) (ct sig : Option String) :
    ({ e with ct := ct, sig := sig }).aadObject = e.aadObject := by
  unfold aadObject toObject member
  simp only [List.filter_append]
  cases ct <;> cases sig <;> cases e.ct <;> cases e.sig <;> rfl

/-- With the signature and the ciphertext set, the header bytes stay what they are. -/
theorem aadBytes_with {ct sig : Option String} {aad : Bytes} (h : e.aadBytes F = .ok aad)
    (hheader : ({ e with ct := ct, sig := sig }).header F = .ok ()) :
    ({ e with ct := ct, sig := sig }).aadBytes F = .ok aad := by
  obtain ⟨-, text, htext, haad⟩ := aadBytes_eq_ok.mp h
  exact aadBytes_eq_ok.mpr ⟨hheader, text, by rw [aadObject_with]; exact htext, haad⟩

namespace SignedAlike
variable (h : SignedAlike F e e')
include h

theorem eq : { e with sig := none } = { e' with sig := none } := by
  obtain ⟨input, he, he'⟩ := h
  exact messageSigningInput_inj he he'

theorem seq_eq : e.seq = e'.seq := (congrArg seq h.eq :)

theorem contract_eq : e.contract = e'.contract := (congrArg contract h.eq :)

/-- The same ciphertext under the same header opens alike. -/
theorem openCiphertext_eq (s : Session) (n : UInt64) :
    openCiphertext F s e n = openCiphertext F s e' n := by
  have hct : e.ct = e'.ct := (congrArg ct h.eq :)
  obtain ⟨input, he, he'⟩ := h
  obtain ⟨-, aad, text, bytes, haad, htext, hbytes, rfl⟩ := messageSigningInput_eq_ok.mp he
  obtain ⟨-, aad', text', bytes', haad', htext', hbytes', hinput⟩ :=
    messageSigningInput_eq_ok.mp he'
  obtain rfl : text = text' := Option.some.inj (by rw [← htext, ← htext', hct])
  obtain rfl : bytes = bytes' := Except.ok.inj (hbytes.symm.trans hbytes')
  obtain rfl : aad = aad' := by
    have hheader := List.append_cancel_right hinput
    exact List.append_cancel_left hheader
  simp only [openCiphertext, haad, haad', htext, htext']

end SignedAlike

/-- Two verified messages with the same signed bytes open alike. -/
theorem SignedAlike.openAuthenticated_eq {m : SessionManager} (h : SignedAlike F e e')
    (he : m.verifyMessage F e = .ok ()) (he' : m.verifyMessage F e' = .ok ()) :
    m.openAuthenticated F e = m.openAuthenticated F e' := by
  have hsid : e.sid = e'.sid := (congrArg sid h.eq :)
  have hopen := fun s n => h.openCiphertext_eq s n
  simp only [openAuthenticated, he, he', hsid, h.seq_eq, hopen]

end SecureEnvelope

open SecureEnvelope

theorem verify_sign {F : Foreign} {pin seed : Vector UInt8 32} {input : Bytes}
    (h : F.verifyStrict pin input (F.sign seed input) = true) :
    verify F pin input (sign F seed input) = true := by
  rw [sign, verify_encodeHex]
  exact h

/-- What the two ends of a session have in common after the handshake: the sender's key is the
receiver's key for the other direction, each names the other, and the receiver has pinned the
key the sender signs with. -/
structure Matched (F : Foreign) (sid : String) (m n : SessionManager) (s r : Session) : Prop where
  sender : m.active[sid]? = some s
  receiver : n.active[sid]? = some r
  key : s.keys.sendKey s.initiator = r.keys.receiveKey r.initiator
  from_ : r.info.peer = m.local_
  to_ : s.info.peer = n.local_
  pin : ∀ input, F.verifyStrict r.pin input (F.sign m.identity input) = true

/-- Authenticated encryption is undone under the same key, nonce and header. -/
def Decrypts (F : Foreign) : Prop :=
  ∀ key nonce aad pt ct, F.encrypt key nonce aad pt = some ct → F.decrypt key nonce aad ct = some pt

namespace Endpoint
variable {F : Foreign} {sid contract : String} {payload : Bytes} {m n : SessionManager}
  {s r : Session} {env : SecureEnvelope}

theorem Emits.fields (h : Emits F m s sid contract payload env) :
    ∃ aad ct input, (m.draft s sid s.info.sendSeq contract).aadBytes F = .ok aad ∧
      s.keys.seal_ F s.initiator s.info.sendSeq aad payload = .ok ct ∧
      env = { m.draft s sid s.info.sendSeq contract with
        ct := some (encodeHex ct), sig := some (sign F m.identity input) } ∧
      input = asBytes "HACP-SECURE/v1/msg" ++ aad ++ ct ∧ env.validate F = .ok () := by
  obtain ⟨aad, ct, haad, hct, hfinish⟩ := h
  unfold finish at hfinish
  obtain ⟨input, hinput, hfinish⟩ := bind_eq_ok.mp hfinish
  obtain ⟨⟨⟩, hvalid, henv⟩ := bind_eq_ok.mp hfinish
  obtain rfl := Except.ok.inj henv
  obtain ⟨-, aad', text, bytes, haad', htext, hbytes, rfl⟩ := messageSigningInput_eq_ok.mp hinput
  obtain ⟨hheader, -⟩ := aadBytes_eq_ok.mp haad'
  have hsame := aadBytes_with haad hheader
  obtain rfl := Except.ok.inj (haad'.symm.trans hsame)
  obtain rfl := Option.some.inj htext
  obtain rfl := Except.ok.inj ((decodeHex_encodeHex ct).symm.trans hbytes)
  exact ⟨aad', _, _, haad, hct, rfl, rfl, hvalid⟩

/-- What one end emits the other end accepts and opens. -/
theorem Emits.arrives (h : Emits F m s sid contract payload env) (hm : Matched F sid m n s r)
    (hdecrypts : Decrypts F) (hmax : s.info.sendSeq ≠ u64Max) :
    Belongs F n sid s.info.sendSeq env ∧ (n.openAuthenticated F env).2 = .ok payload := by
  obtain ⟨aad, ct, input, haad, hct, henv, hinput, hvalid⟩ := h.fields
  have hkind : env.kind = .msg := by rw [henv]; rfl
  have hsid : env.sid = some sid := by rw [henv]; rfl
  have hseq : env.seq = some s.info.sendSeq := by rw [henv]; rfl
  have htext : env.ct = some (encodeHex ct) := by rw [henv]
  have hsig : env.sig = some (sign F m.identity input) := by rw [henv]
  obtain ⟨hheader, -⟩ := validate_msg hvalid hkind
  have haad' : env.aadBytes F = .ok aad := by
    rw [henv] at hheader ⊢
    exact aadBytes_with haad hheader
  have hsigned : env.messageSigningInput F = .ok input :=
    messageSigningInput_eq_ok.mpr ⟨hkind, aad, _, ct, haad', htext, decodeHex_encodeHex ct, hinput⟩
  have hverified : n.verifyMessage F env = .ok () := by
    refine verifyMessage_eq_ok.mpr ⟨hvalid, hkind, sid, r, hsid, hm.receiver, ?_, ?_, input, _,
      hsigned, hsig, verify_sign (hm.pin input)⟩
    · rw [hm.from_, henv]
      rfl
    · rw [← hm.to_, henv]
      rfl
  refine ⟨⟨hsid, hseq, hverified⟩, ?_⟩
  obtain ⟨r', hr', hopen⟩ := openAuthenticated_of_verified hverified hsid hseq hmax
  obtain rfl := Option.some.inj (hm.receiver.symm.trans hr')
  have hpayload : openCiphertext F r env s.info.sendSeq = .ok payload := by
    have hencrypt : F.encrypt (s.keys.sendKey s.initiator) (nonce96 s.info.sendSeq) aad payload =
        some ct := by
      unfold SessionKeys.seal_ at hct
      split at hct
      · next henc => rw [henc, Except.ok.inj hct]
      · cases hct
    have hdecrypt := hdecrypts _ _ _ _ _ hencrypt
    rw [hm.key] at hdecrypt
    rw [openCiphertext_of_fields haad' htext (decodeHex_encodeHex ct), SessionKeys.open_, hdecrypt]
  rw [hopen, hpayload]

end Endpoint
end Hacp.Secure
