import Hacp.Secure.Crypto
import Hacp.Secure.SigningInput
import Hacp.V2.AgentUrn

/-!
# Signed transcripts cannot be mistaken for one another

A hello and an ack are signed over texts of any length set side by side with no
mark between them. They are read back from the end: keys and nonces have a fixed
length, and the name that ends an agent URN has no colon, so the last colon ends
its fixed prefix. The three kinds of transcript differ in one byte of their tag.
-/
namespace Hacp.Secure
open Lib V2

/-- Texts that end in a mark and a tail without it agree in front of the mark and behind it. -/
theorem append_mark_inj {α : Type*} {c : α} {x y n m : List α} (hn : c ∉ n) (hm : c ∉ m)
    (h : x ++ c :: n = y ++ c :: m) : x = y ∧ n = m := by
  rcases List.append_eq_append_iff.mp h with ⟨z, hy, hz⟩ | ⟨z, hx, hz⟩
  · cases z with
    | nil => simp_all
    | cons d z =>
      obtain ⟨-, htail⟩ := List.cons_eq_cons.mp hz
      exact absurd (htail ▸ by simp) hn
  · cases z with
    | nil => simp_all
    | cons d z =>
      obtain ⟨-, htail⟩ := List.cons_eq_cons.mp hz
      exact absurd (htail ▸ by simp) hm

/-! ## Agent URNs at the end of a text -/

/-- An agent URN by the rules of the envelope or by those of the registry. -/
def NamesAgent (s : String) : Prop := urn s = true ∨ (AgentUrn.parse s).isOk = true

/-- Behind its fixed prefix an agent URN has no colon. -/
theorem NamesAgent.name {s : String} (h : NamesAgent s) :
    ∃ name : List Char, s.toList = "urn:hacp:agent".toList ++ ':' :: name ∧ ':' ∉ name := by
  have hname {rest : String} (hrest : stripPrefix "urn:hacp:agent:" s = some rest)
      (hall : rest.toList.all AgentUrn.isLocalNameChar = true) :
      ∃ name : List Char, s.toList = "urn:hacp:agent".toList ++ ':' :: name ∧ ':' ∉ name := by
    refine ⟨rest.toList, stripPrefix_eq_some.mp hrest, fun hcolon => ?_⟩
    exact absurd (List.all_eq_true.mp hall ':' hcolon) (by decide)
  rcases h with h | h
  · rw [urn, Option.any_eq_true] at h
    obtain ⟨rest, hrest, htest⟩ := h
    refine hname hrest (List.all_eq_true.mpr fun c hc => ?_)
    rw [Bool.and_eq_true] at htest
    have hchar := List.all_eq_true.mp htest.2 c hc
    simp only [AgentUrn.isLocalNameChar]
    grind
  · cases hrest : stripPrefix "urn:hacp:agent:" s with
    | none => simp [AgentUrn.parse, AgentUrn.agentPrefix, hrest, Except.isOk, Except.toBool] at h
    | some rest =>
      refine hname hrest ?_
      by_contra hall
      simp only [AgentUrn.parse, AgentUrn.agentPrefix, hrest, AgentUrn.validateLocalName] at h
      split_ifs at h <;> simp [Except.isOk, Except.toBool, bind, Except.bind] at h

theorem append_agent_inj {x y : List Char} {s t : String} (hs : NamesAgent s) (ht : NamesAgent t)
    (h : x ++ s.toList = y ++ t.toList) : x = y ∧ s = t := by
  obtain ⟨n, hn, hcolon⟩ := hs.name
  obtain ⟨m, hm, hcolon'⟩ := ht.name
  rw [hn, hm, ← List.append_assoc, ← List.append_assoc] at h
  obtain ⟨hfront, rfl⟩ := append_mark_inj hcolon hcolon' h
  exact ⟨List.append_cancel_right hfront, String.toList_injective (hn.trans hm.symm)⟩

/-- A context of any content and two agent URNs are told apart from the end. -/
theorem parties_inj {c c' a a' b b' : String} (ha : NamesAgent a) (ha' : NamesAgent a')
    (hb : NamesAgent b) (hb' : NamesAgent b') (h : c ++ a ++ b = c' ++ a' ++ b') :
    c = c' ∧ a = a' ∧ b = b' := by
  have hlist := congrArg String.toList h
  simp only [String.toList_append] at hlist
  obtain ⟨hfront, rfl⟩ := append_agent_inj hb hb' hlist
  obtain ⟨hcontext, rfl⟩ := append_agent_inj ha ha' hfront
  exact ⟨String.toList_injective hcontext, rfl, rfl⟩

/-! ## The info of the key schedule -/

theorem label_eq_of_getLast : ∀ label ∈ sessionLabels, ∀ label' ∈ sessionLabels,
    label.toList.getLast? = label'.toList.getLast? → label = label' := by
  decide

theorem getLast?_append_label (x : List Char) {label : String} (h : label ∈ sessionLabels) :
    (x ++ label.toList).getLast? = label.toList.getLast? := by
  have hsome : ∀ label ∈ sessionLabels, label.toList.getLast?.isSome = true := by decide
  rw [List.getLast?_append, Option.or_of_isSome (hsome label h)]

theorem sessionInfo_inj {c c' i i' r r' label label' : String} (hi : NamesAgent i)
    (hi' : NamesAgent i') (hr : NamesAgent r) (hr' : NamesAgent r')
    (hlabel : label ∈ sessionLabels) (hlabel' : label' ∈ sessionLabels)
    (h : sessionInfo c i r label = sessionInfo c' i' r' label') :
    c = c' ∧ i = i' ∧ r = r' ∧ label = label' := by
  simp only [sessionInfo, List.append_assoc, List.append_cancel_left_eq] at h
  simp only [← asBytes_append] at h
  have htext := asBytes_injective h
  have hlist := congrArg String.toList htext
  simp only [String.toList_append, ← List.append_assoc] at hlist
  have hlast := congrArg List.getLast? hlist
  rw [getLast?_append_label _ hlabel, getLast?_append_label _ hlabel'] at hlast
  obtain rfl := label_eq_of_getLast label hlabel label' hlabel' hlast
  have hfront := List.append_cancel_right hlist
  simp only [← String.toList_append] at hfront
  obtain ⟨hc, hinitiator, hresponder⟩ := parties_inj hi hi' hr hr' (String.toList_injective hfront)
  exact ⟨hc, hinitiator, hresponder, rfl⟩

/-! ## Signed transcripts -/

namespace SecureEnvelope
variable {F : Foreign} {e e' hello hello' : SecureEnvelope} {c c' : String} {input : Bytes}

theorem fieldBytes_eq_ok {field : Option String} {bytes : Bytes} :
    fieldBytes field = .ok bytes ↔ field = some (encodeHex bytes) := by
  cases field with
  | none => simp [fieldBytes]
  | some s =>
    rw [fieldBytes, decodeHex_eq_ok, Option.some.injEq]
    exact eq_comm

/-- A header names two agents, and its keys and nonces have 32 bytes. -/
structure Fixed (e : SecureEnvelope) : Prop where
  from_ : NamesAgent e.from_
  to_ : NamesAgent e.to_
  epub : ∀ bytes, e.epub = some (encodeHex bytes) → bytes.length = 32
  nonce : ∀ bytes, e.nonce = some (encodeHex bytes) → bytes.length = 32

theorem header_fixed (h : e.header F = .ok ()) : e.Fixed := by
  obtain ⟨⟨-, hfrom, hto⟩, -, ⟨-, hepub, hnonce, -⟩, -⟩ := header_eq_ok.mp h
  exact ⟨.inl hfrom, .inl hto, fun bytes hb => fixedHex_encodeHex.mp (hepub _ hb),
    fun bytes hb => fixedHex_encodeHex.mp (hnonce _ hb)⟩

theorem helloSigningInput_ok (h : e.helloSigningInput F c = .ok input) :
    e.Fixed ∧ e.kind = .hello ∧ ∃ epub nonce, e.epub = some (encodeHex epub) ∧
      e.nonce = some (encodeHex nonce) ∧
      input = asBytes "HACP-SECURE/v1/hello" ++ asBytes (c ++ e.from_ ++ e.to_) ++
        (epub ++ nonce) := by
  obtain ⟨_, hheader, h⟩ := bind_eq_ok.mp h
  rw [guard_eq_ok, not_not] at h
  obtain ⟨hkind, h⟩ := h
  obtain ⟨epub, hepub, h⟩ := bind_eq_ok.mp h
  obtain ⟨nonce, hnonce, h⟩ := bind_eq_ok.mp h
  refine ⟨header_fixed hheader, hkind, epub, nonce, fieldBytes_eq_ok.mp hepub,
    fieldBytes_eq_ok.mp hnonce, ?_⟩
  rw [← Except.ok.inj h]
  simp only [asBytes_append, List.append_assoc]

theorem ackSigningInput_ok (h : e.ackSigningInput F c hello = .ok input) :
    e.Fixed ∧ hello.Fixed ∧ e.kind = .ack ∧ hello.kind = .hello ∧ e.from_ = hello.to_ ∧
      e.to_ = hello.from_ ∧ ∃ helloEpub helloNonce epub nonce,
      hello.epub = some (encodeHex helloEpub) ∧ hello.nonce = some (encodeHex helloNonce) ∧
      e.epub = some (encodeHex epub) ∧ e.nonce = some (encodeHex nonce) ∧
      input = asBytes "HACP-SECURE/v1/ack" ++ asBytes (c ++ e.from_ ++ e.to_) ++
        ((helloEpub ++ helloNonce) ++ (epub ++ nonce)) := by
  obtain ⟨_, hheader, h⟩ := bind_eq_ok.mp h
  obtain ⟨_, hheader', h⟩ := bind_eq_ok.mp h
  rw [guard_eq_ok, not_or, not_or, not_or, not_not, not_not, not_not, not_not] at h
  obtain ⟨⟨hkind, hkind', hfrom, hto⟩, h⟩ := h
  obtain ⟨helloEpub, hhelloEpub, h⟩ := bind_eq_ok.mp h
  obtain ⟨helloNonce, hhelloNonce, h⟩ := bind_eq_ok.mp h
  obtain ⟨epub, hepub, h⟩ := bind_eq_ok.mp h
  obtain ⟨nonce, hnonce, h⟩ := bind_eq_ok.mp h
  refine ⟨header_fixed hheader, header_fixed hheader', hkind, hkind', hfrom, hto, helloEpub,
    helloNonce, epub, nonce, fieldBytes_eq_ok.mp hhelloEpub, fieldBytes_eq_ok.mp hhelloNonce,
    fieldBytes_eq_ok.mp hepub, fieldBytes_eq_ok.mp hnonce, ?_⟩
  rw [← Except.ok.inj h]
  simp only [asBytes_append, List.append_assoc]

/-- Texts of two envelopes in front of tails of one length agree, and so do the tails. -/
theorem transcript_inj (he : e.Fixed) (he' : e'.Fixed) {tag x y : Bytes}
    (hlen : x.length = y.length)
    (h : tag ++ asBytes (c ++ e.from_ ++ e.to_) ++ x = tag ++ asBytes (c' ++ e'.from_ ++ e'.to_) ++ y) :
    (c = c' ∧ e.from_ = e'.from_ ∧ e.to_ = e'.to_) ∧ x = y := by
  obtain ⟨htext, htail⟩ := List.append_inj' h hlen
  have hparties := asBytes_injective (List.append_cancel_left htext)
  exact ⟨parties_inj he.from_ he'.from_ he.to_ he'.to_ hparties, htail⟩

/-- Two hellos with one signing input come from one context and carry one offer. -/
theorem helloSigningInput_inj (h : e.helloSigningInput F c = .ok input)
    (h' : e'.helloSigningInput F c' = .ok input) :
    c = c' ∧ e.from_ = e'.from_ ∧ e.to_ = e'.to_ ∧ e.epub = e'.epub ∧ e.nonce = e'.nonce := by
  obtain ⟨he, -, epub, nonce, hepub, hnonce, rfl⟩ := helloSigningInput_ok h
  obtain ⟨he', -, epub', nonce', hepub', hnonce', heq⟩ := helloSigningInput_ok h'
  have hlen : epub.length = epub'.length := (he.epub _ hepub).trans (he'.epub _ hepub').symm
  have hlen' : nonce.length = nonce'.length :=
    (he.nonce _ hnonce).trans (he'.nonce _ hnonce').symm
  obtain ⟨⟨hc, hfrom, hto⟩, htail⟩ :=
    transcript_inj he he' (by rw [List.length_append, List.length_append, hlen, hlen']) heq
  obtain ⟨rfl, rfl⟩ := List.append_inj htail hlen
  exact ⟨hc, hfrom, hto, hepub.trans hepub'.symm, hnonce.trans hnonce'.symm⟩

/-- Two acks with one signing input answer one offer in one context with one offer of their own. -/
theorem ackSigningInput_inj (h : e.ackSigningInput F c hello = .ok input)
    (h' : e'.ackSigningInput F c' hello' = .ok input) :
    (c = c' ∧ e.from_ = e'.from_ ∧ e.to_ = e'.to_ ∧ e.epub = e'.epub ∧ e.nonce = e'.nonce) ∧
      hello.from_ = hello'.from_ ∧ hello.to_ = hello'.to_ ∧ hello.epub = hello'.epub ∧
      hello.nonce = hello'.nonce := by
  obtain ⟨he, hh, -, -, hf, ht, hepub₁, hnonce₁, epub, nonce, hhepub, hhnonce, hepub, hnonce, rfl⟩ :=
    ackSigningInput_ok h
  obtain ⟨he', hh', -, -, hf', ht', hepub₁', hnonce₁', epub', nonce', hhepub', hhnonce', hepub',
    hnonce', heq⟩ := ackSigningInput_ok h'
  have hlen : hepub₁.length = hepub₁'.length := (hh.epub _ hhepub).trans (hh'.epub _ hhepub').symm
  have hlen₂ : hnonce₁.length = hnonce₁'.length :=
    (hh.nonce _ hhnonce).trans (hh'.nonce _ hhnonce').symm
  have hlen₃ : epub.length = epub'.length := (he.epub _ hepub).trans (he'.epub _ hepub').symm
  have hlen₄ : nonce.length = nonce'.length :=
    (he.nonce _ hnonce).trans (he'.nonce _ hnonce').symm
  obtain ⟨⟨hc, hfrom, hto⟩, htail⟩ :=
    transcript_inj he he' (by simp only [List.length_append]; omega) heq
  obtain ⟨hoffer, hanswer⟩ := List.append_inj htail (by simp only [List.length_append]; omega)
  obtain ⟨rfl, rfl⟩ := List.append_inj hoffer hlen
  obtain ⟨rfl, rfl⟩ := List.append_inj hanswer hlen₃
  exact ⟨⟨hc, hfrom, hto, hepub.trans hepub'.symm, hnonce.trans hnonce'.symm⟩,
    by rw [← ht, ← ht', hto], by rw [← hf, ← hf', hfrom], hhepub.trans hhepub'.symm,
    hhnonce.trans hhnonce'.symm⟩

end SecureEnvelope

inductive Signed where
  | hello (context : String) (e : SecureEnvelope)
  | ack (context : String) (e offer : SecureEnvelope)
  | msg (e : SecureEnvelope)
  deriving DecidableEq

namespace Signed
variable {F : Foreign}

def input (F : Foreign) : Signed → Except SecureError Bytes
  | .hello context e => e.helloSigningInput F context
  | .ack context e offer => e.ackSigningInput F context offer
  | .msg e => e.messageSigningInput F

/-- The same kind, and agreement on everything the signature is to cover. -/
def Alike : Signed → Signed → Prop
  | hello c e, hello c' e' =>
    c = c' ∧ e.from_ = e'.from_ ∧ e.to_ = e'.to_ ∧ e.epub = e'.epub ∧ e.nonce = e'.nonce
  | ack c e h, ack c' e' h' =>
    (c = c' ∧ e.from_ = e'.from_ ∧ e.to_ = e'.to_ ∧ e.epub = e'.epub ∧ e.nonce = e'.nonce) ∧
      h.from_ = h'.from_ ∧ h.to_ = h'.to_ ∧ h.epub = h'.epub ∧ h.nonce = h'.nonce
  | msg e, msg e' => { e with sig := none } = { e' with sig := none }
  | _, _ => False

def kind : Signed → Kind
  | .hello _ _ => .hello
  | .ack _ _ _ => .ack
  | .msg _ => .msg

/-- The byte in which the tags of the three kinds differ: their first letter. -/
def letter : Kind → UInt8
  | .hello => 104
  | .ack => 97
  | .msg => 109

theorem letter_injective : ∀ k k' : Kind, letter k = letter k' → k = k' := by
  intro k k'
  cases k <;> cases k' <;> decide

theorem input_letter {s : Signed} {bytes : Bytes} (h : s.input F = .ok bytes) :
    bytes[15]? = some (letter s.kind) := by
  have htag {tag rest : Bytes} {b : UInt8} (hb : tag[15]? = some b) :
      (tag ++ rest)[15]? = some b := by
    rw [List.getElem?_append_left (List.getElem?_eq_some_iff.mp hb).1, hb]
  cases s with
  | hello context e =>
    obtain ⟨-, -, -, -, -, -, rfl⟩ := SecureEnvelope.helloSigningInput_ok h
    have hb : (asBytes "HACP-SECURE/v1/hello")[15]? = some (letter .hello) := by decide
    rw [List.append_assoc]
    exact htag hb
  | ack context e offer =>
    obtain ⟨-, -, -, -, -, -, -, -, -, -, -, -, -, -, rfl⟩ := SecureEnvelope.ackSigningInput_ok h
    have hb : (asBytes "HACP-SECURE/v1/ack")[15]? = some (letter .ack) := by decide
    rw [List.append_assoc]
    exact htag hb
  | msg e =>
    obtain ⟨-, -, -, -, -, -, -, rfl⟩ := SecureEnvelope.messageSigningInput_eq_ok.mp h
    have hb : (asBytes "HACP-SECURE/v1/msg")[15]? = some (letter .msg) := by decide
    rw [List.append_assoc]
    exact htag hb

theorem alike_of_input_eq {s s' : Signed} {bytes : Bytes} (h : s.input F = .ok bytes)
    (h' : s'.input F = .ok bytes) : s.Alike s' := by
  have hkind : s.kind = s'.kind :=
    letter_injective _ _ (Option.some.inj ((input_letter h).symm.trans (input_letter h')))
  cases s with
  | hello context e =>
    cases s' with
    | hello => exact SecureEnvelope.helloSigningInput_inj h h'
    | ack => cases hkind
    | msg => cases hkind
  | ack context e offer =>
    cases s' with
    | hello => cases hkind
    | ack => exact SecureEnvelope.ackSigningInput_inj h h'
    | msg => cases hkind
  | msg e =>
    cases s' with
    | hello => cases hkind
    | ack => cases hkind
    | msg => exact SecureEnvelope.messageSigningInput_inj h h'

end Signed

/-- Equal bytes mean equal content, for signatures and for the key schedule. -/
structure TranscriptsSeparated (F : Foreign) : Prop where
  signed : ∀ (s s' : Signed) (bytes : Bytes), s.input F = .ok bytes → s'.input F = .ok bytes →
    s.Alike s'
  derived : ∀ context initiator responder label context' initiator' responder' label',
    NamesAgent initiator → NamesAgent responder → NamesAgent initiator' → NamesAgent responder' →
    label ∈ sessionLabels → label' ∈ sessionLabels →
    sessionInfo context initiator responder label =
      sessionInfo context' initiator' responder' label' →
    context = context' ∧ initiator = initiator' ∧ responder = responder' ∧ label = label'

/-- No signature serves another transcript and no key schedule another session. -/
theorem transcripts_separated (F : Foreign) : TranscriptsSeparated F where
  signed _ _ _ h h' := Signed.alike_of_input_eq h h'
  derived _ _ _ _ _ _ _ _ hi hr hi' hr' hl hl' h := sessionInfo_inj hi hi' hr hr' hl hl' h

end Hacp.Secure
