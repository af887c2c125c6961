import Hacp.V1.ProtocolVersion

/-!
# What the shape check reports

The check stops at the first thing that is wrong with an envelope. An envelope passes if
nothing is wrong with it, and an error is about something that is. Of a kind the check knows
only whether it answers something, so a kind that a newer version brings passes.
-/
namespace Hacp.V1
open Lib

/-- An agent, a coordinator or an arbiter. -/
def Urn.IsActor (urn : String) : Prop :=
  (∃ role run, urn = agent role run ∧ role ≠ "" ∧ run ≠ "" ∧ '-' ∉ run.toList) ∨
    (∃ name, urn = coordinator name) ∨ ∃ name, urn = arbiter name

theorem Urn.isNeutral_iff_isActor {urn : String} :
    isNeutral urn = true ↔ IsActor urn ∨ urn = all := by
  rw [isNeutral_iff, IsActor, or_assoc, or_assoc]

theorem Urn.isBroadcast_iff {urn : String} : isBroadcast urn = true ↔ urn = all :=
  decide_eq_true_iff

namespace Envelope
variable {e : Envelope} {error : EnvelopeError}

/-- What can be wrong with an envelope, with the error that tells it. -/
inductive Fault (e : Envelope) : EnvelopeError → Prop where
  | protocol : ¬Urn.InGrammar e.protocol → ¬Urn.SpelledAtLength e.protocol →
      Fault e (.protocolMismatch e.protocol V1.protocol)
  | messageId : e.messageId = "" → Fault e (.empty "message_id")
  | runId : e.runId = "" → Fault e (.empty "run_id")
  | sender : ¬Urn.IsActor e.from_ → e.from_ ≠ Urn.all → Fault e (.badActor e.from_)
  | sent : e.from_ = Urn.all → Fault e (.broadcastNotAllowed "from")
  | recipient : ¬Urn.IsActor e.to_ → e.to_ ≠ Urn.all → Fault e (.badActor e.to_)
  | kind : e.kind = "" → Fault e (.empty "kind")
  | reply : e.kind ∈ Kinds.requiresInReplyTo → e.inReplyTo = none →
      Fault e (.missingInReplyTo e.kind)

theorem Fault.of_error (h : e.validate = .error error) : Fault e error := by
  have hactor {urn : String} (hurn : (!Urn.isNeutral urn) = true) :
      ¬Urn.IsActor urn ∧ urn ≠ Urn.all := by
    rwa [Bool.not_eq_true', ← Bool.not_eq_true, Urn.isNeutral_iff_isActor, not_or] at hurn
  unfold validate at h
  split_ifs at h with hprotocol hmessage hrun hsender hsent hrecipient hkind hreply
  · cases h
    rw [Bool.not_eq_true', ← Bool.not_eq_true, Urn.protocolSupported_cases, not_or] at hprotocol
    exact .protocol hprotocol.1 hprotocol.2
  · cases h
    exact .messageId hmessage
  · cases h
    exact .runId hrun
  · cases h
    exact .sender (hactor hsender).1 (hactor hsender).2
  · cases h
    exact .sent (Urn.isBroadcast_iff.mp hsent)
  · cases h
    exact .recipient (hactor hrecipient).1 (hactor hrecipient).2
  · cases h
    exact .kind hkind
  · cases h
    exact .reply hreply.1 (Option.isNone_iff_eq_none.mp hreply.2)

theorem validate_eq_ok_iff : e.validate = .ok () ↔ ∀ error, ¬Fault e error := by
  constructor
  · intro h error hfault
    unfold validate at h
    simp only [guard_eq_ok, Bool.not_eq_true', Bool.not_eq_false, Urn.protocolSupported_cases,
      Urn.isNeutral_iff_isActor, Urn.isBroadcast_iff, Option.isNone_iff_eq_none] at h
    obtain ⟨hprotocol, hmessage, hrun, hsender, hsent, hrecipient, hkind, hreply, -⟩ := h
    cases hfault with
    | protocol hgrammar hspelled => exact hprotocol.elim hgrammar hspelled
    | messageId hempty => exact hmessage hempty
    | runId hempty => exact hrun hempty
    | sender hactor hall => exact hsender.elim hactor hall
    | sent hall => exact hsent hall
    | recipient hactor hall => exact hrecipient.elim hactor hall
    | kind hempty => exact hkind hempty
    | reply hrequired hnone => exact hreply ⟨hrequired, hnone⟩
  · intro hnone
    cases h : e.validate with
    | ok => rfl
    | error error => exact absurd (.of_error h) (hnone error)

/-- No two kinds outside the registry are told apart. -/
theorem validate_unregistered {kind : String} (hknown : e.kind ∉ Kinds.registry)
    (h : kind ∉ Kinds.registry) (hne : e.kind ≠ "") (hne' : kind ≠ "") :
    { e with kind }.validate = e.validate := by
  have hsub : Kinds.requiresInReplyTo ⊆ Kinds.registry := by decide
  have hfree : e.kind ∉ Kinds.requiresInReplyTo := fun hmem => hknown (hsub hmem)
  have hfree' : kind ∉ Kinds.requiresInReplyTo := fun hmem => h (hsub hmem)
  simp only [validate, hne, hne', hfree, hfree', if_false, false_and]

/-- The check accepts an envelope exactly when nothing is wrong with it, an error it reports is
about something that is wrong, and no kind outside the registry makes a difference. -/
theorem shape_check_exact (e : Envelope) :
    (e.validate = .ok () ↔ ∀ error, ¬Fault e error) ∧
      (∀ error, e.validate = .error error → Fault e error) ∧
      ∀ kind, e.kind ∉ Kinds.registry → kind ∉ Kinds.registry → e.kind ≠ "" → kind ≠ "" →
        { e with kind }.validate = e.validate :=
  ⟨validate_eq_ok_iff, fun _ => .of_error, fun _ => validate_unregistered⟩

/-- A minor and a kind of a newer version pass. -/
example : Envelope.validate ⟨"HACP/1.9", "m-1", "r-1", Urn.agent "job-store" "7f3a", Urn.all,
    "peer.hint", none⟩ = .ok () := by decide

end Envelope
end Hacp.V1
