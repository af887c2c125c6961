import Hacp.V2.Session
import Hacp.Lib.Machine
import Hacp.Lib.Checks
import Hacp.Lib.Lookup

/-!
# Sessions stay bilateral

Whatever is called on a session that was opened, in any order and by anybody, its two
participants are the only authors, observers are neither of them and see lifecycle
events alone, and an end, once reached, is final. A call either passes all its checks
and makes the one change it is for, or leaves the session as it was.
-/
namespace Hacp.V2
open Lib Std

inductive SessionCall where
  | accept (by_ : String)
  | declareFeatures (who : String) (features : List String)
  | closeForCapabilityMismatch (feature : String)
  | grantObserver (observer : String) (kinds : List String)
  | close (by_ reason : String)
  | abandon (reason : String)

def sessionMachine : Machine Session SessionCall (Except SessionError Unit) where
  step s call := match call with
    | .accept by_ => s.accept by_
    | .declareFeatures who features => s.declareFeatures who features
    | .closeForCapabilityMismatch feature => s.closeForCapabilityMismatch feature
    | .grantObserver observer kinds => s.grantObserver observer kinds
    | .close by_ reason => s.close by_ reason
    | .abandon reason => s.abandon reason

def SessionState.Ended (state : SessionState) : Prop := state = .closed ∨ state = .abandoned

namespace Session
variable {s t : Session}

/-- The checks a call passed, and what it made of the session. -/
inductive Passes (s : Session) : SessionCall → Session → Prop where
  | accept {by_ : String} (hauthor : s.authorizeAuthor by_ = .ok ()) (hstate : s.state = .opening)
      (hopener : by_ ≠ s.participants.1) : Passes s (.accept by_) { s with state := .active }
  | declareFeatures {who : String} (features : List String)
      (hauthor : s.authorizeAuthor who = .ok ()) (hstate : ¬s.state.Ended) :
      Passes s (.declareFeatures who features) { s with
        declared := s.declared.insert who ((s.declared[who]?).getD ∅ ∪ features.toFinset) }
  | closeForCapabilityMismatch (feature : String) (hstate : s.state = .active) :
      Passes s (.closeForCapabilityMismatch feature) { s with
        state := .closed, closeReason := some ("capability-mismatch: " ++ feature) }
  | grantObserver {observer : String} {kinds : List String} (hstate : s.state = .active)
      (hobserver : observer ∉ members s.participants) (hkinds : ∀ k ∈ kinds, k ∈ lifecycleEvents)
      (hfeature : s.featureAvailable observerEvents = true) :
      Passes s (.grantObserver observer kinds) { s with
        observers := s.observers.insert observer ⟨kinds.toFinset⟩ }
  | close {by_ : String} (reason : String) (hauthor : s.authorizeAuthor by_ = .ok ())
      (hstate : s.state = .active) :
      Passes s (.close by_ reason) { s with state := .closed, closeReason := some reason }
  | abandon (reason : String) (hstate : ¬s.state.Ended) :
      Passes s (.abandon reason) { s with state := .abandoned, closeReason := some reason }

theorem closeInternal_cases (s : Session) (reason : String) :
    s.state = .active ∧ s.closeInternal reason =
        ({ s with state := .closed, closeReason := some reason }, .ok ()) ∨
      ∃ e, s.closeInternal reason = (s, .error e) := by
  unfold closeInternal
  by_cases hstate : s.state = .active
  · exact Or.inl ⟨hstate, if_neg (not_not.mpr hstate)⟩
  · exact Or.inr ⟨_, if_pos hstate⟩

theorem Passes.not_ended {call : SessionCall} (h : Passes s call t) : ¬s.state.Ended := by
  cases h with
  | accept _ hstate => simp [hstate, SessionState.Ended]
  | declareFeatures _ _ hstate => exact hstate
  | closeForCapabilityMismatch _ hstate => simp [hstate, SessionState.Ended]
  | grantObserver hstate => simp [hstate, SessionState.Ended]
  | close _ _ hstate => simp [hstate, SessionState.Ended]
  | abandon _ hstate => exact hstate

/-- A call passes all its checks, or it fails and leaves the session as it was. -/
theorem step_cases (s : Session) (call : SessionCall) :
    (∃ t, sessionMachine.step s call = (t, .ok ()) ∧ Passes s call t) ∨
      ∃ e, sessionMachine.step s call = (s, .error e) := by
  cases call with
  | accept by_ =>
    simp only [sessionMachine, accept]
    cases hauthor : s.authorizeAuthor by_ with
    | error e => exact Or.inr ⟨e, rfl⟩
    | ok =>
      simp only
      split_ifs with hstate hopener
      · exact Or.inr ⟨_, rfl⟩
      · exact Or.inr ⟨_, rfl⟩
      · exact Or.inl ⟨_, rfl, .accept hauthor (not_not.mp hstate) hopener⟩
  | declareFeatures who features =>
    simp only [sessionMachine, declareFeatures]
    cases hauthor : s.authorizeAuthor who with
    | error e => exact Or.inr ⟨e, rfl⟩
    | ok =>
      simp only
      split_ifs with hstate
      · exact Or.inr ⟨_, rfl⟩
      · exact Or.inl ⟨_, rfl, .declareFeatures features hauthor hstate⟩
  | closeForCapabilityMismatch feature =>
    rcases s.closeInternal_cases ("capability-mismatch: " ++ feature) with ⟨hstate, h⟩ | ⟨e, h⟩
    · exact Or.inl ⟨_, h, .closeForCapabilityMismatch feature hstate⟩
    · exact Or.inr ⟨e, h⟩
  | grantObserver observer kinds =>
    simp only [sessionMachine, grantObserver]
    cases hkinds : kinds.find? (fun k => k ∉ lifecycleEvents) with
    | some k =>
      split_ifs
      · exact Or.inr ⟨_, rfl⟩
      · exact Or.inr ⟨_, rfl⟩
      · exact Or.inr ⟨_, rfl⟩
      · exact Or.inr ⟨_, rfl⟩
    | none =>
      split_ifs with hstate hobserver hfeature
      · exact Or.inr ⟨_, rfl⟩
      · exact Or.inr ⟨_, rfl⟩
      · exact Or.inr ⟨_, rfl⟩
      · refine Or.inl ⟨_, rfl, .grantObserver (not_not.mp hstate) hobserver ?_ ?_⟩
        · simpa using List.find?_eq_none.mp hkinds
        · exact (Bool.not_eq_false _).mp hfeature
  | close by_ reason =>
    simp only [sessionMachine, close]
    cases hauthor : s.authorizeAuthor by_ with
    | error e => exact Or.inr ⟨e, rfl⟩
    | ok =>
      rcases s.closeInternal_cases reason with ⟨hstate, h⟩ | ⟨e, h⟩
      · exact Or.inl ⟨_, h, .close reason hauthor hstate⟩
      · exact Or.inr ⟨e, h⟩
  | abandon reason =>
    simp only [sessionMachine, abandon]
    split_ifs with hstate
    · exact Or.inr ⟨_, rfl⟩
    · exact Or.inl ⟨_, rfl, .abandon reason hstate⟩

/-- What a passing call keeps and a failing one cannot break, every call keeps. -/
theorem step_keeps {P : Session → Prop} (hs : P s) {call : SessionCall}
    (hpasses : ∀ t, Passes s call t → P t) : P (sessionMachine.step s call).1 := by
  rcases s.step_cases call with ⟨t, ht, h⟩ | ⟨e, he⟩
  · rw [ht]
    exact hpasses t h
  · rw [he]
    exact hs

theorem open_eq_ok {sessionId opener acceptor : String}
    (h : open_ sessionId opener acceptor = .ok s) :
    opener ≠ acceptor ∧ s = ⟨sessionId, (opener, acceptor), ∅, .opening, ∅, none⟩ := by
  unfold open_ at h
  rw [guard_eq_ok] at h
  obtain ⟨hne, h⟩ := h
  obtain ⟨_, -, h⟩ := bind_eq_ok.mp h
  obtain ⟨_, -, h⟩ := bind_eq_ok.mp h
  exact ⟨hne, (Except.ok.inj h).symm⟩

def Declared (s : Session) (who feature : String) : Prop :=
  ∃ features, s.declared[who]? = some features ∧ feature ∈ features

theorem featureAvailable_iff {feature : String} : s.featureAvailable feature = true ↔
    s.Declared s.participants.1 feature ∧ s.Declared s.participants.2 feature := by
  simp [featureAvailable, Declared, Option.any_eq_true]

/-- Declaring adds features and withdraws none. -/
theorem declared_insert {who other feature : String} {features : Finset String} :
    Declared { s with declared := s.declared.insert who ((s.declared[who]?).getD ∅ ∪ features) }
        other feature ↔ s.Declared other feature ∨ other = who ∧ feature ∈ features := by
  simp only [Declared, lookup_insert]
  by_cases hwho : other = who
  · subst hwho
    cases s.declared[other]? <;> simp
  · simp [hwho]

/-- What holds of a session that `opener` opened with `acceptor`. -/
structure Bilateral (opener acceptor : String) (s : Session) : Prop where
  participants : s.participants = (opener, acceptor)
  differ : opener ≠ acceptor
  outsiders : ∀ observer ∈ s.observers, observer ≠ opener ∧ observer ≠ acceptor
  lifecycle : ∀ (observer : String) (grant : ObserverGrant), s.observers[observer]? = some grant →
    ∀ kind ∈ grant.kinds, kind ∈ lifecycleEvents
  hosted : ∀ observer ∈ s.observers,
    s.Declared opener observerEvents ∧ s.Declared acceptor observerEvents
  declarers : ∀ who ∈ s.declared, who = opener ∨ who = acceptor
  reason : s.closeReason.isSome ↔ s.state.Ended

namespace Bilateral
variable {opener acceptor : String}

theorem mem_members (h : Bilateral opener acceptor s) {who : String} :
    who ∈ members s.participants ↔ who = opener ∨ who = acceptor := by
  rw [h.participants]
  simp [members]

/-- Who receives events is no participant, and both participants host observers. -/
theorem observerReceives (h : Bilateral opener acceptor s) {observer kind : String}
    (hreceives : s.observerReceives observer kind = true) :
    observer ≠ opener ∧ observer ≠ acceptor ∧ kind ∈ lifecycleEvents ∧
      s.Declared opener observerEvents ∧ s.Declared acceptor observerEvents := by
  obtain ⟨grant, hgrant, hkind⟩ := (Option.any_eq_true _ _).mp hreceives
  have hobserver : observer ∈ s.observers := (mem_iff_lookup _ _).mpr ⟨grant, hgrant⟩
  obtain ⟨hopener, hacceptor⟩ := h.outsiders observer hobserver
  exact ⟨hopener, hacceptor, h.lifecycle observer grant hgrant kind (of_decide_eq_true hkind),
    h.hosted observer hobserver⟩

/-- The participants author and nobody else. -/
theorem authorizeAuthor_iff (h : Bilateral opener acceptor s) (who : String) :
    s.authorizeAuthor who = .ok () ↔ who = opener ∨ who = acceptor := by
  unfold authorizeAuthor
  rw [guard_eq_ok, ← h.mem_members]
  by_cases hwho : who ∈ members s.participants
  · simp only [hwho, if_true, and_true, iff_true]
    intro hobserver
    have hne := h.outsiders who hobserver
    exact (h.mem_members.mp hwho).elim hne.1 hne.2
  · simp [hwho]

theorem of_open {sessionId : String} (h : open_ sessionId opener acceptor = .ok s) :
    Bilateral opener acceptor s := by
  obtain ⟨hne, rfl⟩ := open_eq_ok h
  exact {
    participants := rfl
    differ := hne
    outsiders := by simp
    lifecycle := by simp
    hosted := by simp
    declarers := by simp
    reason := by simp [SessionState.Ended] }

/-- A call that ends or starts the traffic touches neither map. -/
theorem with_state (h : Bilateral opener acceptor s) {state : SessionState}
    {closeReason : Option String} (hreason : closeReason.isSome ↔ state.Ended) :
    Bilateral opener acceptor { s with state := state, closeReason := closeReason } :=
  { h with reason := hreason }

theorem passes (h : Bilateral opener acceptor s) {call : SessionCall} (hcall : Passes s call t) :
    Bilateral opener acceptor t := by
  cases hcall with
  | accept _ hstate _ =>
    have hreason := h.reason
    simp only [hstate, SessionState.Ended, reduceCtorEq, or_self, iff_false] at hreason
    exact h.with_state (by simp [hreason, SessionState.Ended])
  | @declareFeatures who features hauthor _ =>
    refine { h with hosted := fun o ho => ?_, declarers := fun x hx => ?_ }
    · obtain ⟨hopener, hacceptor⟩ := h.hosted o ho
      exact ⟨declared_insert.mpr (Or.inl hopener), declared_insert.mpr (Or.inl hacceptor)⟩
    · rcases (mem_insert_iff _ _ _ _).mp hx with rfl | hx
      · exact (h.authorizeAuthor_iff x).mp hauthor
      · exact h.declarers x hx
  | closeForCapabilityMismatch => exact h.with_state (by simp [SessionState.Ended])
  | @grantObserver observer kinds _ hobserver hkinds hfeature =>
    rw [h.mem_members, not_or] at hobserver
    rw [featureAvailable_iff, h.participants] at hfeature
    refine { h with
      outsiders := fun o ho => ?_
      lifecycle := fun o g hg => ?_
      hosted := fun _ _ => hfeature }
    · rcases (mem_insert_iff _ _ _ _).mp ho with rfl | ho
      · exact hobserver
      · exact h.outsiders o ho
    · rw [lookup_insert] at hg
      split_ifs at hg with ho
      · obtain rfl := Option.some.inj hg
        intro k hk
        exact hkinds k (List.mem_toFinset.mp hk)
      · exact h.lifecycle o g hg
  | close => exact h.with_state (by simp [SessionState.Ended])
  | abandon => exact h.with_state (by simp [SessionState.Ended])

theorem exec (h : Bilateral opener acceptor s) (calls : List SessionCall) :
    Bilateral opener acceptor (sessionMachine.exec s calls) :=
  Machine.exec_invariant (fun _ _ hs => step_keeps hs fun _ => hs.passes) h calls

end Bilateral

/-- Features are never withdrawn, and nothing follows an end. -/
structure Onward (s t : Session) : Prop where
  declared : ∀ who feature, s.Declared who feature → t.Declared who feature
  ended : s.state.Ended → t = s

namespace Onward

theorem refl (s : Session) : Onward s s := ⟨fun _ _ h => h, fun _ => rfl⟩

theorem trans {u : Session} (hst : Onward s t) (htu : Onward t u) : Onward s u where
  declared who feature h := htu.declared who feature (hst.declared who feature h)
  ended h := by
    have ht := hst.ended h
    subst ht
    exact htu.ended h

theorem passes {call : SessionCall} (hcall : Passes s call t) : Onward s t where
  ended h := (hcall.not_ended h).elim
  declared who feature h := by
    cases hcall with
    | declareFeatures => exact declared_insert.mpr (Or.inl h)
    | accept => exact h
    | closeForCapabilityMismatch => exact h
    | grantObserver => exact h
    | close => exact h
    | abandon => exact h

theorem exec (s : Session) (calls : List SessionCall) :
    Onward s (sessionMachine.exec s calls) :=
  Machine.exec_relation (P := fun _ => True) refl (fun _ _ _ => trans)
    (fun s _ _ => ⟨trivial, step_keeps (refl s) fun _ => passes⟩) trivial calls

end Onward

/-- A session becomes active by its second participant's acceptance and in no other way. -/
theorem Bilateral.active_by_accept {opener acceptor : String} (h : Bilateral opener acceptor s)
    {call : SessionCall} (hbefore : s.state ≠ .active)
    (hafter : (sessionMachine.step s call).1.state = .active) :
    s.state = .opening ∧ call = .accept acceptor := by
  rcases s.step_cases call with ⟨t, ht, hpasses⟩ | ⟨e, he⟩
  · rw [ht] at hafter
    cases hpasses with
    | accept hauthor hstate hopener =>
      rw [h.participants] at hopener
      obtain rfl := ((h.authorizeAuthor_iff _).mp hauthor).resolve_left hopener
      exact ⟨hstate, rfl⟩
    | declareFeatures => exact (hbefore hafter).elim
    | closeForCapabilityMismatch => cases hafter
    | grantObserver => exact (hbefore hafter).elim
    | close => cases hafter
    | abandon => cases hafter
  · rw [he] at hafter
    exact (hbefore hafter).elim

/-- Whatever was called on a session since it was opened, it is bilateral, later calls go
onward from it, only acceptance activates it, and a call that fails changes nothing. -/
theorem stays_bilateral {sessionId opener acceptor : String} {s₀ : Session}
    (hopen : open_ sessionId opener acceptor = .ok s₀) (calls : List SessionCall) :
    Bilateral opener acceptor (sessionMachine.exec s₀ calls) ∧
      (∀ who, (sessionMachine.exec s₀ calls).authorizeAuthor who = .ok () ↔
        who = opener ∨ who = acceptor) ∧
      (∀ more, Onward (sessionMachine.exec s₀ calls) (sessionMachine.exec s₀ (calls ++ more))) ∧
      (∀ call, (sessionMachine.exec s₀ calls).state ≠ .active →
        (sessionMachine.exec s₀ (calls ++ [call])).state = .active →
        (sessionMachine.exec s₀ calls).state = .opening ∧ call = .accept acceptor) ∧
      (∀ call e, (sessionMachine.step (sessionMachine.exec s₀ calls) call).2 = .error e →
        sessionMachine.exec s₀ (calls ++ [call]) = sessionMachine.exec s₀ calls) ∧
      ∀ observer kind, (sessionMachine.exec s₀ calls).observerReceives observer kind = true →
        observer ≠ opener ∧ observer ≠ acceptor ∧ kind ∈ lifecycleEvents ∧
          (sessionMachine.exec s₀ calls).Declared opener observerEvents ∧
          (sessionMachine.exec s₀ calls).Declared acceptor observerEvents := by
  have hbilateral := (Bilateral.of_open hopen).exec calls
  refine ⟨hbilateral, hbilateral.authorizeAuthor_iff, fun more => ?_, fun call => ?_,
    fun call e he => ?_, fun _ _ => hbilateral.observerReceives⟩
  · rw [Machine.exec_append]
    exact Onward.exec _ more
  · rw [Machine.exec_snoc]
    exact hbilateral.active_by_accept
  · rw [Machine.exec_snoc]
    rcases step_cases (sessionMachine.exec s₀ calls) call with ⟨t, ht, -⟩ | ⟨e', he'⟩
    · rw [ht] at he
      cases he
    · rw [he']

/-- A session of `a` with `b`, as opened. -/
def peers : Session :=
  ⟨"s-1", ("urn:hacp:agent:a", "urn:hacp:agent:b"), ∅, .opening, ∅, none⟩

/-- `b` accepts, both declare that they host observers, and `o` becomes one. -/
def observedCalls : List SessionCall :=
  [.accept "urn:hacp:agent:b", .declareFeatures "urn:hacp:agent:a" ["observer-events"],
    .declareFeatures "urn:hacp:agent:b" ["observer-events"],
    .grantObserver "urn:hacp:agent:o" ["session.close"]]

theorem stays_bilateral_observed :
    (sessionMachine.exec peers observedCalls).observerReceives "urn:hacp:agent:o"
        "session.close" = true ∧
      Bilateral "urn:hacp:agent:a" "urn:hacp:agent:b" (sessionMachine.exec peers observedCalls) ∧
      ∀ who, (sessionMachine.exec peers observedCalls).authorizeAuthor who = .ok () ↔
        who = "urn:hacp:agent:a" ∨ who = "urn:hacp:agent:b" := by
  have h := stays_bilateral
    (show open_ "s-1" "urn:hacp:agent:a" "urn:hacp:agent:b" = .ok peers from rfl) observedCalls
  exact ⟨by decide, h.1, h.2.1⟩

end Session
end Hacp.V2
