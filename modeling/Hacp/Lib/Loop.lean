import Mathlib.Tactic

/-!
# While loops

A loop body maps the loop state to a next state or to the value the loop leaves
with. Running it under a step budget may give nothing; a loop returns when some
budget is enough, and then every larger budget gives the same value.
-/
namespace Hacp.Lib

/-- How a call ends: with a value, with a panic, or not at all. -/
inductive Outcome (α : Type*) where
  | returns (a : α)
  | panics
  | diverges
  deriving DecidableEq

def Outcome.map {α β : Type*} (f : α → β) : Outcome α → Outcome β
  | .returns a => .returns (f a)
  | .panics => .panics
  | .diverges => .diverges

namespace Loop
variable {σ ρ : Type*}

def iterate (body : σ → σ ⊕ ρ) : ℕ → σ → Option ρ
  | 0, _ => none
  | n + 1, s => match body s with
    | .inl s' => iterate body n s'
    | .inr r => some r

def Returns (body : σ → σ ⊕ ρ) (s : σ) (r : ρ) : Prop := ∃ n, iterate body n s = some r

variable {body : σ → σ ⊕ ρ}

theorem iterate_succ_continue {s s' : σ} (h : body s = .inl s') (n : ℕ) :
    iterate body (n + 1) s = iterate body n s' := by
  simp only [iterate, h]

theorem iterate_succ_exit {s : σ} {r : ρ} (h : body s = .inr r) (n : ℕ) :
    iterate body (n + 1) s = some r := by
  simp only [iterate, h]

theorem iterate_mono {n m : ℕ} (hnm : n ≤ m) {s : σ} {r : ρ}
    (h : iterate body n s = some r) : iterate body m s = some r := by
  induction n generalizing m s with
  | zero => simp [iterate] at h
  | succ n ih =>
    obtain ⟨m, rfl⟩ : ∃ k, m = k + 1 := ⟨m - 1, by omega⟩
    cases hb : body s with
    | inl s' =>
      rw [iterate_succ_continue hb] at h ⊢
      exact ih (by omega) h
    | inr r' =>
      rw [iterate_succ_exit hb] at h ⊢
      exact h

theorem Returns.unique {s : σ} {r r' : ρ} (h : Returns body s r) (h' : Returns body s r') :
    r = r' := by
  obtain ⟨n, hn⟩ := h
  obtain ⟨m, hm⟩ := h'
  have hmax := iterate_mono (le_max_left n m) hn
  rw [iterate_mono (le_max_right n m) hm] at hmax
  exact (Option.some.inj hmax).symm

theorem returns_continue {s s' : σ} {r : ρ} (h : body s = .inl s') :
    Returns body s r ↔ Returns body s' r := by
  constructor
  · rintro ⟨n, hn⟩
    cases n with
    | zero => cases hn
    | succ n => exact ⟨n, (iterate_succ_continue h n).symm.trans hn⟩
  · rintro ⟨n, hn⟩
    exact ⟨n + 1, (iterate_succ_continue h n).trans hn⟩

theorem returns_exit {s : σ} {r r' : ρ} (h : body s = .inr r') : Returns body s r ↔ r' = r := by
  constructor
  · intro hr
    exact Returns.unique ⟨1, iterate_succ_exit h 0⟩ hr
  · rintro rfl
    exact ⟨1, iterate_succ_exit h 0⟩

/-- The variant rule: a measure that falls on every turn bounds the number of turns. -/
theorem exists_iterate_of_variant (inv : σ → Prop) (μ : σ → ℕ)
    (hstep : ∀ s s', inv s → body s = .inl s' → inv s' ∧ μ s' < μ s)
    {n : ℕ} {s : σ} (hs : inv s) (hn : μ s < n) : ∃ r, iterate body n s = some r := by
  induction n generalizing s with
  | zero => omega
  | succ n ih =>
    cases hb : body s with
    | inl s' =>
      obtain ⟨hinv, hlt⟩ := hstep s s' hs hb
      rw [iterate_succ_continue hb]
      exact ih hinv (by omega)
    | inr r => exact ⟨r, iterate_succ_exit hb n⟩

/-- The invariant rule: what every turn keeps and every exit turns into `post`. -/
theorem iterate_post (inv : σ → Prop) (post : ρ → Prop)
    (hstep : ∀ s s', inv s → body s = .inl s' → inv s')
    (hexit : ∀ s r, inv s → body s = .inr r → post r)
    {n : ℕ} {s : σ} {r : ρ} (hs : inv s) (h : iterate body n s = some r) : post r := by
  induction n generalizing s with
  | zero => simp [iterate] at h
  | succ n ih =>
    cases hb : body s with
    | inl s' =>
      rw [iterate_succ_continue hb] at h
      exact ih (hstep s s' hs hb) h
    | inr r' =>
      rw [iterate_succ_exit hb] at h
      exact Option.some.inj h ▸ hexit s r' hs hb

/-- Bodies that take related states to related results make related loops. -/
theorem iterate_related {τ π : Type*} {body' : τ → τ ⊕ π} {R : σ → τ → Prop} {Q : ρ → π → Prop}
    (hbody : ∀ s t, R s t → Sum.LiftRel R Q (body s) (body' t)) (n : ℕ) {s : σ} {t : τ}
    (hst : R s t) : Option.Rel Q (iterate body n s) (iterate body' n t) := by
  induction n generalizing s t with
  | zero => exact .none
  | succ n ih =>
    have hturn := hbody s t hst
    rw [iterate, iterate]
    generalize body s = a at hturn
    generalize body' t = b at hturn
    cases hturn with
    | inl hnext => exact ih hnext
    | inr hexit => exact .some hexit

end Loop
end Hacp.Lib
