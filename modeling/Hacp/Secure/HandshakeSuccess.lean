import Hacp.Secure.Handshake
import Hacp.Secure.Transcripts

/-!
# An undisturbed handshake succeeds

Two managers of different names that have no handshake and no session complete one
when the network hands over what they send: the hello passes every check of the
responder and the ack every check of the initiator, and both derive one session.
-/
namespace Hacp.Secure
open Lib Std

section
variable {F : Foreign} {K : KeyExchange} {a b context : String}
  {epub epub' ni nr : Vector UInt8 32}

/-! ## What is sent -/

theorem fixedHex_toList {n : ℕ} (v : Vector UInt8 n) : fixedHex (encodeHex v.toList) n = true :=
  fixedHex_encodeHex.mpr v.length_toList

/-- A hello of the initiator `a` to the responder `b`, before or after it is signed. -/
def helloOf (a b : String) (epub ni : Vector UInt8 32) (sig : Option (Vector UInt8 64)) :
    SecureEnvelope :=
  { handshake .hello a b epub ni with sig := sig.map fun sig => encodeHex sig.toList }

def ackOf (a b : String) (epub nr : Vector UInt8 32) (sid : Vector UInt8 16)
    (sig : Option (Vector UInt8 64)) : SecureEnvelope :=
  { handshake .ack b a epub nr with
    sid := some (encodeHex sid.toList)
    sig := sig.map fun sig => encodeHex sig.toList }

def helloInput (context a b : String) (epub ni : Vector UInt8 32) : Bytes :=
  asBytes "HACP-SECURE/v1/hello" ++ asBytes context ++ asBytes a ++ asBytes b ++ epub.toList ++
    ni.toList

def ackInput (context a b : String) (epub ni epub' nr : Vector UInt8 32) : Bytes :=
  asBytes "HACP-SECURE/v1/ack" ++ asBytes context ++ asBytes b ++ asBytes a ++ epub.toList ++
    ni.toList ++ epub'.toList ++ nr.toList

theorem header_helloOf (ha : urn a = true) (hb : urn b = true) (sig : Option (Vector UInt8 64)) :
    (helloOf a b epub ni sig).header F = .ok () := by
  cases sig <;> simp [SecureEnvelope.header, helloOf, handshake, fixedHex_toList, ha, hb]

theorem header_ackOf (ha : urn a = true) (hb : urn b = true) (sid : Vector UInt8 16)
    (sig : Option (Vector UInt8 64)) : (ackOf a b epub nr sid sig).header F = .ok () := by
  cases sig <;> simp [SecureEnvelope.header, ackOf, handshake, fixedHex_toList, ha, hb]

theorem validate_helloOf (ha : urn a = true) (hb : urn b = true) (sig : Vector UInt8 64) :
    (helloOf a b epub ni (some sig)).validate F = .ok () := by
  rw [SecureEnvelope.validate, header_helloOf ha hb]
  simp [helloOf, handshake, bind, Except.bind]

theorem validate_ackOf (ha : urn a = true) (hb : urn b = true) (sid : Vector UInt8 16)
    (sig : Vector UInt8 64) : (ackOf a b epub nr sid (some sig)).validate F = .ok () := by
  rw [SecureEnvelope.validate, header_ackOf ha hb]
  simp [ackOf, handshake, bind, Except.bind]

theorem helloSigningInput_helloOf (ha : urn a = true) (hb : urn b = true)
    (sig : Option (Vector UInt8 64)) :
    (helloOf a b epub ni sig).helloSigningInput F context =
      .ok (helloInput context a b epub ni) := by
  rw [SecureEnvelope.helloSigningInput, header_helloOf ha hb]
  simp [helloOf, handshake, SecureEnvelope.fieldBytes, decodeHex_encodeHex, bind, Except.bind,
    helloInput]

theorem ackSigningInput_ackOf (ha : urn a = true) (hb : urn b = true) (sid : Vector UInt8 16)
    (sig sig' : Option (Vector UInt8 64)) :
    (ackOf a b epub' nr sid sig).ackSigningInput F context (helloOf a b epub ni sig') =
      .ok (ackInput context a b epub ni epub' nr) := by
  rw [SecureEnvelope.ackSigningInput, header_ackOf ha hb, header_helloOf ha hb]
  simp [helloOf, ackOf, handshake, SecureEnvelope.fieldBytes, decodeHex_encodeHex, bind,
    Except.bind, ackInput]

/-! ## Calls without a past -/

/-- The two sides of an exchange compute one secret, and so derive one identifier and one pair
of keys. -/
theorem establish_agrees
    (hcommute : ∀ a b, K.x25519 a (K.x25519 b basepoint) = K.x25519 b (K.x25519 a basepoint))
    (a b : EphemeralSecret) (ni nr : Vector UInt8 32) (context initiator responder : String) :
    a.establish K (b.publicKey K) ni nr context initiator responder =
      b.establish K (a.publicKey K) ni nr context initiator responder := by
  unfold EphemeralSecret.establish EphemeralSecret.publicKey
  rw [hcommute a.scalar b.scalar]

namespace Party
variable {p : Party}

theorem boundPending_of_empty (hpending : p.handshakes.pending = [])
    (hactive : p.manager.active = ∅) (peer : String) : p.boundPending peer = p := by
  have hhalf : p.halfOpen peer = [] := by
    rw [halfOpen, hactive, ExtTreeMap.toList_eq_nil_iff.mpr rfl, List.filterMap_nil]
  have hwith : p.pendingWith peer = [] := by
    rw [pendingWith, hpending]
    rfl
  have hturn : boundTurn peer p = .inr p := by
    rw [boundTurn, hhalf, hwith]
    rfl
  rw [boundPending, Loop.iterate_succ_exit hturn, Option.getD_some]

variable {scalar seed pin : Vector UInt8 32} {sid : Vector UInt8 16} {keys : SessionKeys}
  {sig : Vector UInt8 64}

theorem new_ok (ha : urn a = true) : Party.new a seed = .ok ⟨⟨a, seed, ∅⟩, ⟨[], ∅, ∅, [], 0⟩⟩ :=
  if_pos ha

theorem nextOrder_of_new {h : Handshakes} (hnew : h.order = 0) : h.nextOrder = .ok 1 := by
  rw [Handshakes.nextOrder, hnew]
  rfl

theorem initiate_of_new (ha : urn a = true) (hb : urn b = true) (hne : a ≠ b)
    (hcontext : context ≠ "") (hepub : K.x25519 scalar basepoint = epub)
    (hsig : F.sign seed (helloInput context a b epub ni) = sig) :
    Party.initiate F K ⟨⟨a, seed, ∅⟩, ⟨[], ∅, ∅, [], 0⟩⟩ b context pin ⟨some scalar, some ni⟩ =
      (⟨⟨a, seed, ∅⟩, ⟨[⟨helloOf a b epub ni (some sig), context, pin, ⟨scalar⟩, 1⟩], ∅, ∅, [], 1⟩⟩,
        .ok (helloOf a b epub ni (some sig))) := by
  have hunsigned : (helloOf a b epub ni none).helloSigningInput F context = _ :=
    helloSigningInput_helloOf ha hb none
  have hvalid : (helloOf a b epub ni (some sig)).validate F = .ok () := validate_helloOf ha hb sig
  have hhello : Party.hello F K ⟨⟨a, seed, ∅⟩, ⟨[], ∅, ∅, [], 0⟩⟩ b context
      ⟨some scalar, some ni⟩ = .ok (helloOf a b epub ni (some sig), ⟨scalar⟩) := by
    unfold Party.hello
    simp only [contextOk, if_neg hcontext, hb, Ne.symm hne, not_true_eq_false, or_self, if_false,
      drawn, EphemeralSecret.publicKey, hepub, bind, Except.bind]
    rw [show handshake .hello a b epub ni = helloOf a b epub ni none from rfl, hunsigned]
    simp only [sign, hsig]
    rw [show ({ helloOf a b epub ni none with sig := some (encodeHex sig.toList) } :
      SecureEnvelope) = helloOf a b epub ni (some sig) from rfl, hvalid]
  unfold Party.initiate
  rw [hhello]
  dsimp only
  rw [nextOrder_of_new rfl]
  dsimp only [Party.withOrder]
  rw [boundPending_of_empty rfl rfl]
  rfl

theorem checkHello_of_new (seed : Vector UInt8 32) (ha : urn a = true) (hb : urn b = true) (hne : a ≠ b)
    (hcontext : context ≠ "")
    (hverify : F.verifyStrict pin (helloInput context a b epub ni) sig = true) :
    Party.checkHello F ⟨⟨b, seed, ∅⟩, ⟨[], ∅, ∅, [], 0⟩⟩ context
      (helloOf a b epub ni (some sig)) pin = .ok (encodeHex sig.toList) := by
  unfold Party.checkHello
  rw [validate_helloOf ha hb, helloSigningInput_helloOf ha hb]
  simp only [contextOk, if_neg hcontext, bind, Except.bind]
  rw [show (helloOf a b epub ni (some sig)).sig = some (encodeHex sig.toList) from rfl]
  simp [helloOf, handshake, required, verify_encodeHex, hverify, hne]

theorem respond_of_new (ha : urn a = true) (hb : urn b = true) (hne : a ≠ b)
    (hcontext : context ≠ "") (hepub : K.x25519 scalar basepoint = epub')
    (hverify : F.verifyStrict pin (helloInput context a b epub ni) sig = true)
    (hestablish : EphemeralSecret.establish K ⟨scalar⟩ epub ni nr context a b =
      .ok (encodeHex sid.toList, keys))
    {sig' : Vector UInt8 64} (hsig : F.sign seed (ackInput context a b epub ni epub' nr) = sig') :
    (Party.respond F K ⟨⟨b, seed, ∅⟩, ⟨[], ∅, ∅, [], 0⟩⟩ context
      (helloOf a b epub ni (some sig)) pin ⟨some scalar, some nr⟩).2 =
      ⟨some ⟨⟨encodeHex sid.toList, a, b, context, .ackSent, 0⟩, keys, pin, false⟩,
        .ok (ackOf a b epub' nr sid (some sig'))⟩ := by
  have hcheck := checkHello_of_new seed ha hb hne hcontext hverify
  have hmaterial : material (helloOf a b epub ni (some sig)) = .ok (epub, ni) := by
    have hepub : bytes32 (encodeHex epub.toList) = .ok epub := bytes32_eq_ok.mpr rfl
    have hni : bytes32 (encodeHex ni.toList) = .ok ni := bytes32_eq_ok.mpr rfl
    simp [material, helloOf, handshake, required, hepub, hni, bind, Except.bind]
  have hack (p : Party) (hp : p.manager = ⟨b, seed, ∅⟩) :
      p.ack F K context (helloOf a b epub ni (some sig)) ⟨some scalar, some nr⟩ =
        .ok (ackOf a b epub' nr sid (some sig'), encodeHex sid.toList, keys) := by
    have hfrom : (helloOf a b epub ni (some sig)).from_ = a := rfl
    unfold Party.ack
    simp only [drawn, hmaterial, hp, hfrom, hestablish, EphemeralSecret.publicKey, hepub, bind,
      Except.bind]
    rw [show ({ handshake .ack b a epub' nr with sid := some (encodeHex sid.toList) } :
      SecureEnvelope) = ackOf a b epub' nr sid none from rfl, ackSigningInput_ackOf ha hb]
    simp only [sign, hsig]
    change ((ackOf a b epub' nr sid (some sig')).validate F >>= fun _ =>
      .ok (ackOf a b epub' nr sid (some sig'), encodeHex sid.toList, keys)) = _
    rw [validate_ackOf ha hb]
    rfl
  have hremember : ∃ seen list, Handshakes.rememberHello ⟨[], ∅, ∅, [], 0⟩ context
      (encodeHex sig.toList) = ⟨[], ∅, seen, list, 0⟩ := by
    unfold Handshakes.rememberHello
    dsimp only
    split_ifs <;> exact ⟨_, _, rfl⟩
  obtain ⟨seen, list, hremember⟩ := hremember
  have hanswered (h : Handshakes) : Party.answered ⟨⟨b, seed, ∅⟩, h⟩ context
      (helloOf a b epub ni (some sig)) pin = none := by
    rw [Party.answered, ExtTreeMap.toList_eq_nil_iff.mpr rfl, List.findSome?_nil]
  unfold Party.respond
  rw [hcheck]
  dsimp only
  rw [hremember, hanswered, hack _ rfl]
  dsimp only
  rw [nextOrder_of_new rfl]
  dsimp only [Party.withOrder]
  rw [boundPending_of_empty rfl rfl]
  rfl

theorem complete_of_pending (seed : Vector UInt8 32) (ha : urn a = true) (hb : urn b = true)
    (hne : a ≠ b)
    (hcontext : context ≠ "")
    (hverify : F.verifyStrict pin (ackInput context a b epub ni epub' nr) sig = true)
    (hestablish : EphemeralSecret.establish K ⟨scalar⟩ epub' ni nr context a b =
      .ok (encodeHex sid.toList, keys)) {sig' : Option (Vector UInt8 64)} (h : Handshakes)
    (hpending : h.pending = [⟨helloOf a b epub ni sig', context, pin, ⟨scalar⟩, 1⟩]) :
    ∃ p q, Party.complete F K ⟨⟨a, seed, ∅⟩, h⟩ context (ackOf a b epub' nr sid (some sig)) =
        (p, ⟨some q, .ok (encodeHex sid.toList)⟩) ∧
      p.manager.active[encodeHex sid.toList]? =
        some ⟨⟨encodeHex sid.toList, b, a, context, .established, 0⟩, keys, pin, true⟩ := by
  have hcheck : Party.checkAck F ⟨⟨a, seed, ∅⟩, h⟩ context (ackOf a b epub' nr sid (some sig)) =
      .ok (encodeHex sid.toList) := by
    unfold Party.checkAck
    rw [validate_ackOf ha hb]
    simp [contextOk, hcontext, ackOf, handshake, required, Ne.symm hne, bind, Except.bind]
  have hbefore : Party.completedBefore ⟨⟨a, seed, ∅⟩, h⟩ context (encodeHex sid.toList)
      (ackOf a b epub' nr sid (some sig)) = false := by
    unfold Party.completedBefore
    rw [ExtTreeMap.getElem?_empty]
  have hselect : selectPending F context (ackOf a b epub' nr sid (some sig)) 0
      [⟨helloOf a b epub ni sig', context, pin, ⟨scalar⟩, 1⟩] =
      .ok (some (0, ⟨helloOf a b epub ni sig', context, pin, ⟨scalar⟩, 1⟩)) := by
    unfold selectPending
    rw [if_pos ⟨rfl, rfl⟩, ackSigningInput_ackOf ha hb]
    rw [show (ackOf a b epub' nr sid (some sig)).sig = some (encodeHex sig.toList) from rfl]
    simp [required, verify_encodeHex, hverify, bind, Except.bind]
  have hderive : Party.derive K ⟨⟨a, seed, ∅⟩, h⟩ context (ackOf a b epub' nr sid (some sig))
      ⟨helloOf a b epub ni sig', context, pin, ⟨scalar⟩, 1⟩ =
      .ok (encodeHex sid.toList, keys) := by
    have hni : bytes32 (encodeHex ni.toList) = .ok ni := bytes32_eq_ok.mpr rfl
    have hepub : bytes32 (encodeHex epub'.toList) = .ok epub' := bytes32_eq_ok.mpr rfl
    have hnr : bytes32 (encodeHex nr.toList) = .ok nr := bytes32_eq_ok.mpr rfl
    simp [Party.derive, ackOf, helloOf, handshake, required, hni, hepub, hnr, hestablish, bind,
      Except.bind]
  unfold Party.complete
  rw [hcheck]
  dsimp only
  rw [hbefore, if_neg Bool.false_ne_true, hpending, hselect]
  dsimp only
  rw [hderive]
  dsimp only
  rw [if_neg (not_not.mpr rfl)]
  exact ⟨_, _, rfl, by rw [active_insertSession, if_pos rfl]; rfl⟩

end Party

/-- Where signatures verify and the key schedule gives keys, initiator and responder end up
with one session identifier and one pair of keys. -/
theorem handshake_succeeds {key : Vector UInt8 32 → Vector UInt8 32}
    (hcommute : ∀ a b, K.x25519 a (K.x25519 b basepoint) = K.x25519 b (K.x25519 a basepoint))
    (hsigned : ∀ seed input, F.verifyStrict (key seed) input (F.sign seed input) = true)
    (ha : urn a = true) (hb : urn b = true) (hne : a ≠ b) (hcontext : context ≠ "")
    {seedA seedB scalarA scalarB : Vector UInt8 32} {p q : Party}
    (hp : Party.new a seedA = .ok p) (hq : Party.new b seedB = .ok q)
    {sid : Vector UInt8 16} {keys : SessionKeys}
    (hestablish : EphemeralSecret.establish K ⟨scalarB⟩ (K.x25519 scalarA basepoint) ni nr
      context a b = .ok (encodeHex sid.toList, keys)) :
    ∃ p' hello s ack p'' h t,
      p.initiate F K b context (key seedB) ⟨some scalarA, some ni⟩ = (p', .ok hello) ∧
      (q.respond F K context hello (key seedA) ⟨some scalarB, some nr⟩).2 = ⟨some s, .ok ack⟩ ∧
      p'.complete F K context ack = (p'', ⟨some h, .ok s.info.sid⟩) ∧
      p''.manager.active[s.info.sid]? = some t ∧ t.keys = s.keys := by
  rw [Party.new_ok ha, Except.ok.injEq] at hp
  rw [Party.new_ok hb, Except.ok.injEq] at hq
  subst hp hq
  have hinitiate : Party.initiate F K ⟨⟨a, seedA, ∅⟩, ⟨[], ∅, ∅, [], 0⟩⟩ b context (key seedB)
      ⟨some scalarA, some ni⟩ = _ := Party.initiate_of_new ha hb hne hcontext rfl rfl
  have hrespond : (Party.respond F K ⟨⟨b, seedB, ∅⟩, ⟨[], ∅, ∅, [], 0⟩⟩ context _ (key seedA)
      ⟨some scalarB, some nr⟩).2 = _ := Party.respond_of_new ha hb hne hcontext rfl
    (hsigned seedA (helloInput context a b (K.x25519 scalarA basepoint) ni)) hestablish rfl
  have hestablish' := (establish_agrees hcommute ⟨scalarA⟩ ⟨scalarB⟩ ni nr context a b).trans
    hestablish
  generalize some (F.sign seedA (helloInput context a b (K.x25519 scalarA basepoint) ni)) = sig
    at hinitiate hrespond
  generalize hh : (⟨[⟨helloOf a b (K.x25519 scalarA basepoint) ni sig, context, key seedB,
    ⟨scalarA⟩, 1⟩], ∅, ∅, [], 1⟩ : Handshakes) = h at hinitiate
  have hpending : h.pending = [⟨helloOf a b (K.x25519 scalarA basepoint) ni sig, context,
    key seedB, ⟨scalarA⟩, 1⟩] := by rw [← hh]
  obtain ⟨p'', h, hcomplete, hactive⟩ := Party.complete_of_pending seedA ha hb hne
    hcontext (hsigned seedB (ackInput context a b (K.x25519 scalarA basepoint) ni
      (K.x25519 scalarB basepoint) nr)) hestablish' h hpending
  exact ⟨_, _, _, _, p'', h, _, hinitiate, hrespond, hcomplete, hactive, rfl⟩

end
end Hacp.Secure
