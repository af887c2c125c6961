import Hacp.Foreign
import Hacp.Lib.Checks
import Hacp.V2.Canon

/-!
# Secure envelopes

Public wire values and their canonical inputs. A hello or an ack carries handshake
material, a message a session identifier, a sequence number and ciphertext. What is
signed for a message is its canonical header followed by the ciphertext bytes.
-/
namespace Hacp.Secure
open Lib V2

inductive SecureError where
  | schemaViolation
  | downgradeDetected
  | sessionUnknown
  | sessionExpired
  | sessionExhausted
  | identityMismatch
  | badHandshakeSignature
  | badMessageSignature
  | replayRejected
  | sequenceGap
  | holdOverflow
  | tamperDetected
  | contractPending
  | contractMismatch
  | guardianUnavailable
  | rateLimited
  | unknownOperation
  deriving DecidableEq

inductive Kind where
  | hello
  | ack
  | msg
  deriving DecidableEq

/-- The lowercase name on the wire. -/
def Kind.text : Kind → String
  | .hello => "hello"
  | .ack => "ack"
  | .msg => "msg"

structure SecureEnvelope where
  v : UInt8
  kind : Kind
  from_ : String
  to_ : String
  contract : String
  sid : Option String
  seq : Option UInt64
  epub : Option String
  nonce : Option String
  sig : Option String
  ct : Option String
  ts : Option String
  deriving DecidableEq

def encodeHex (bytes : Bytes) : String := hexText bytes

def decodeHex (s : String) : Except SecureError Bytes :=
  if (asBytes s).length % 2 ≠ 0 ∨ ¬s.toList.all isLowerHex then .error .schemaViolation
  else .ok (hexPairs s.toList)

def fixedHex (s : String) (len : ℕ) : Bool := (asBytes s).length == len * 2 && (decodeHex s).isOk

def urn (s : String) : Bool :=
  (stripPrefix "urn:hacp:agent:" s).any fun name =>
    name.toList.head?.any Char.isAlphanum &&
      name.toList.all fun c => c.isLower || c.isDigit || c == '-'

/-- `matches!(s.as_bytes().get(10), Some(b'T' | b't'))`. -/
def dateTimeMark (s : String) : Bool := (asBytes s)[10]?.any fun b => b == 84 || b == 116

namespace SecureEnvelope
variable (F : Foreign)

def header (e : SecureEnvelope) : Except SecureError Unit :=
  let bad := Except.error .schemaViolation
  if e.v ≠ 1 ∨ ¬urn e.from_ ∨ ¬urn e.to_ then bad
  else if e.contract ≠ "" ∧ ¬(stripPrefix "sha256:" e.contract).any (fixedHex · 32) then bad
  else if [(e.sid, 16), (e.epub, 32), (e.nonce, 32), (e.sig, 64)].any
      (fun p => p.1.any fun s => !fixedHex s p.2) then bad
  else if e.ct.any (fun s => (asBytes s).length < 32 || !(decodeHex s).isOk) then bad
  else if e.ts.any (fun s => !dateTimeMark s || !F.rfc3339 s) then bad
  else match e.kind with
    | .hello => if e.contract ≠ "" ∨ e.epub = none ∨ e.nonce = none then bad else .ok ()
    | .ack =>
      if e.contract ≠ "" ∨ e.epub = none ∨ e.nonce = none then bad
      else if e.sid = none then bad else .ok ()
    | .msg => if e.sid = none ∨ e.seq = none then bad else .ok ()

def validate (e : SecureEnvelope) : Except SecureError Unit := do
  e.header F
  if e.sig = none ∨ (e.kind = .msg ∧ e.ct = none) then .error .schemaViolation else .ok ()

/-- An optional member is written only when it is present. -/
def member (key : String) (value : Option Json) : List (String × Json) :=
  value.toList.map fun v => (key, v)

/-- The members of `serde_json::to_value(self)`. -/
def toObject (e : SecureEnvelope) : List (String × Json) :=
  [("v", .number (.integer e.v.toNat)), ("kind", .string e.kind.text), ("from", .string e.from_),
    ("to", .string e.to_), ("contract", .string e.contract)] ++
  member "sid" (e.sid.map .string) ++
  member "seq" (e.seq.map fun n => .number (.integer n.toNat)) ++
  member "epub" (e.epub.map .string) ++ member "nonce" (e.nonce.map .string) ++
  member "sig" (e.sig.map .string) ++ member "ct" (e.ct.map .string) ++
  member "ts" (e.ts.map .string)

def aadBytes (e : SecureEnvelope) : Except SecureError Bytes := do
  e.header F
  let obj := e.toObject.filter fun p => p.1 ≠ "ct" && p.1 ≠ "sig"
  let canonical ← (canonicalJson (.object obj)).mapError fun _ => .schemaViolation
  .ok (asBytes canonical)

def messageSigningInput (e : SecureEnvelope) : Except SecureError Bytes := do
  if e.kind ≠ .msg then .error .schemaViolation
  else
    let aad ← e.aadBytes F
    match e.ct with
    | none => .error .schemaViolation
    | some ct => do
      let bytes ← decodeHex ct
      .ok (asBytes "HACP-SECURE/v1/msg" ++ aad ++ bytes)

def fieldBytes : Option String → Except SecureError Bytes
  | none => .error .schemaViolation
  | some s => decodeHex s

def helloSigningInput (e : SecureEnvelope) (hacpSession : String) : Except SecureError Bytes := do
  e.header F
  if e.kind ≠ .hello then .error .schemaViolation
  else
    let epub ← fieldBytes e.epub
    let nonce ← fieldBytes e.nonce
    .ok (asBytes "HACP-SECURE/v1/hello" ++ asBytes hacpSession ++ asBytes e.from_ ++
      asBytes e.to_ ++ epub ++ nonce)

/-- An ack is signed together with the key and the nonce of the hello it answers. -/
def ackSigningInput (e : SecureEnvelope) (hacpSession : String) (hello : SecureEnvelope) :
    Except SecureError Bytes := do
  e.header F
  hello.header F
  if e.kind ≠ .ack ∨ hello.kind ≠ .hello ∨ e.from_ ≠ hello.to_ ∨ e.to_ ≠ hello.from_ then
    .error .schemaViolation
  else
    let helloEpub ← fieldBytes hello.epub
    let helloNonce ← fieldBytes hello.nonce
    let epub ← fieldBytes e.epub
    let nonce ← fieldBytes e.nonce
    .ok (asBytes "HACP-SECURE/v1/ack" ++ asBytes hacpSession ++ asBytes e.from_ ++
      asBytes e.to_ ++ helloEpub ++ helloNonce ++ epub ++ nonce)

/-! ## An envelope fails in one way only -/

abbrev Malformed (e : SecureError) : Prop := e = .schemaViolation

theorem decodeHex_fails (s : String) : FailsAs Malformed (decodeHex s) :=
  .guard rfl (.ok _)

theorem header_fails (e : SecureEnvelope) : FailsAs Malformed (e.header F) := by
  unfold header
  refine .guard rfl (.guard rfl (.guard rfl (.guard rfl (.guard rfl ?_))))
  cases e.kind with
  | hello => exact .guard rfl (.ok _)
  | ack => exact .guard rfl (.guard rfl (.ok _))
  | msg => exact .guard rfl (.ok _)

theorem validate_fails (e : SecureEnvelope) : FailsAs Malformed (e.validate F) :=
  .bind (header_fails F e) fun _ => .guard rfl (.ok _)

theorem aadBytes_fails (e : SecureEnvelope) : FailsAs Malformed (e.aadBytes F) :=
  .bind (header_fails F e) fun _ => .bind (.mapError_const rfl) fun _ => .ok _

theorem messageSigningInput_fails (e : SecureEnvelope) :
    FailsAs Malformed (e.messageSigningInput F) := by
  unfold messageSigningInput
  refine .guard rfl (.bind (aadBytes_fails F e) fun _ => ?_)
  cases e.ct with
  | none => exact .error rfl
  | some ct => exact .bind (decodeHex_fails ct) fun _ => .ok _

variable {F}

theorem header_eq_ok {e : SecureEnvelope} : e.header F = .ok () ↔
    (e.v = 1 ∧ urn e.from_ = true ∧ urn e.to_ = true) ∧
    (e.contract ≠ "" → ∃ s, stripPrefix "sha256:" e.contract = some s ∧ fixedHex s 32 = true) ∧
    ((∀ s, e.sid = some s → fixedHex s 16 = true) ∧ (∀ s, e.epub = some s → fixedHex s 32 = true) ∧
      (∀ s, e.nonce = some s → fixedHex s 32 = true) ∧
      ∀ s, e.sig = some s → fixedHex s 64 = true) ∧
    (∀ s, e.ct = some s → 32 ≤ (asBytes s).length ∧ (decodeHex s).isOk = true) ∧
    (∀ s, e.ts = some s → dateTimeMark s = true ∧ F.rfc3339 s = true) ∧
    (e.kind ≠ .msg → e.contract = "" ∧ e.epub ≠ none ∧ e.nonce ≠ none) ∧
    (e.kind ≠ .hello → e.sid ≠ none) ∧ (e.kind = .msg → e.seq ≠ none) := by
  unfold header
  simp only [guard_eq_ok]
  refine and_congr ?_ (and_congr ?_ (and_congr ?_ (and_congr ?_ (and_congr ?_ ?_))))
  · simp
  · simp [Option.any_eq_true]
  · simp [Option.any_eq_false]
  · simp [Option.any_eq_false]
  · simp [Option.any_eq_false]
  · cases e.kind <;> simp [guard_eq_ok, and_assoc]

structure Valid (F : Foreign) (e : SecureEnvelope) : Prop where
  version : e.v = 1
  sender : urn e.from_ = true
  recipient : urn e.to_ = true
  contract : e.contract ≠ "" →
    ∃ s, stripPrefix "sha256:" e.contract = some s ∧ fixedHex s 32 = true
  sid : ∀ s, e.sid = some s → fixedHex s 16 = true
  epub : ∀ s, e.epub = some s → fixedHex s 32 = true
  nonce : ∀ s, e.nonce = some s → fixedHex s 32 = true
  sig : ∃ s, e.sig = some s ∧ fixedHex s 64 = true
  ct : ∀ s, e.ct = some s → 32 ≤ (asBytes s).length ∧ (decodeHex s).isOk = true
  ts : ∀ s, e.ts = some s → dateTimeMark s = true ∧ F.rfc3339 s = true
  handshake : e.kind ≠ .msg → e.contract = "" ∧ e.epub ≠ none ∧ e.nonce ≠ none
  session : e.kind ≠ .hello → e.sid ≠ none
  data : e.kind = .msg → e.seq ≠ none ∧ e.ct ≠ none

theorem validate_eq_ok {e : SecureEnvelope} : e.validate F = .ok () ↔ e.Valid F := by
  simp only [validate, bind_eq_ok, guard_eq_ok, Unique.exists_iff, and_true, not_or, not_and]
  constructor
  · rintro ⟨hheader, hsigned, hdata⟩
    obtain ⟨⟨hv, hfrom, hto⟩, hcontract, ⟨hsid, hepub, hnonce, hsig⟩, hct, hts, hshake, hsession,
      hseq⟩ := header_eq_ok.mp hheader
    obtain ⟨s, hs⟩ := Option.ne_none_iff_exists'.mp hsigned
    exact ⟨hv, hfrom, hto, hcontract, hsid, hepub, hnonce, ⟨s, hs, hsig s hs⟩, hct, hts, hshake,
      hsession, fun hk => ⟨hseq hk, hdata hk⟩⟩
  · intro h
    obtain ⟨s, hs, hhex⟩ := h.sig
    have hsig : ∀ s', e.sig = some s' → fixedHex s' 64 = true := by
      intro s' hs'
      rwa [← Option.some.inj (hs.symm.trans hs')]
    refine ⟨header_eq_ok.mpr ⟨⟨h.version, h.sender, h.recipient⟩, h.contract,
      ⟨h.sid, h.epub, h.nonce, hsig⟩, h.ct, h.ts, h.handshake, h.session,
      fun hk => (h.data hk).1⟩, ?_, fun hk => (h.data hk).2⟩
    simp [hs]

/-- A valid message names its session and its number and carries ciphertext. -/
theorem validate_msg {e : SecureEnvelope} (h : e.validate F = .ok ()) (hkind : e.kind = .msg) :
    e.header F = .ok () ∧ (∃ sid, e.sid = some sid) ∧ (∃ seq, e.seq = some seq) ∧
      (∃ sig, e.sig = some sig) ∧ ∃ ct, e.ct = some ct := by
  have hheader : e.header F = .ok () := (bind_eq_ok.mp h).choose_spec.1
  have hvalid := validate_eq_ok.mp h
  obtain ⟨sig, hsig, -⟩ := hvalid.sig
  have hsid : e.sid ≠ none := hvalid.session (by rw [hkind]; decide)
  obtain ⟨hseq, hct⟩ := hvalid.data hkind
  exact ⟨hheader, Option.ne_none_iff_exists'.mp hsid, Option.ne_none_iff_exists'.mp hseq,
    ⟨sig, hsig⟩, Option.ne_none_iff_exists'.mp hct⟩

end SecureEnvelope
end Hacp.Secure
