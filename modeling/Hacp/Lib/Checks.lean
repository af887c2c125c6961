import Mathlib.Tactic

/-!
# Chains of checks

A fallible function is a chain of checks that stops at the first one to fail. A
chain succeeds exactly when every link does; the rules below take a successful
chain apart link by link. A chain fails only as one of its links does.
-/
namespace Hacp.Lib
universe u
variable {ε ε' : Type*} {α β : Type u}

theorem bind_eq_ok {x : Except ε α} {f : α → Except ε β} {b : β} :
    x >>= f = .ok b ↔ ∃ a, x = .ok a ∧ f a = .ok b := by
  cases x with
  | error e => simp [bind, Except.bind]
  | ok a => simp [bind, Except.bind]

theorem then_eq_ok {x : Except ε PUnit} {f : PUnit → Except ε β} {b : β} :
    x >>= f = .ok b ↔ x = .ok ⟨⟩ ∧ f ⟨⟩ = .ok b := by
  rw [bind_eq_ok]
  exact ⟨fun ⟨⟨⟩, h⟩ => h, fun h => ⟨⟨⟩, h⟩⟩

theorem mapError_eq_ok {x : Except ε α} {f : ε → ε'} {a : α} :
    x.mapError f = .ok a ↔ x = .ok a := by
  cases x with
  | error e => simp [Except.mapError]
  | ok b => simp [Except.mapError]

theorem guard_eq_ok {c : Prop} [Decidable c] {e : ε} {x : Except ε α} {a : α} :
    (if c then .error e else x) = .ok a ↔ ¬c ∧ x = .ok a := by
  by_cases hc : c <;> simp [hc]

theorem forM_eq_ok {γ : Type*} {check : γ → Except ε PUnit.{u + 1}} {l : List γ} :
    l.forM check = .ok ⟨⟩ ↔ ∀ x ∈ l, check x = .ok ⟨⟩ := by
  induction l with
  | nil => exact iff_of_true rfl (by simp)
  | cons x l ih =>
    change (check x >>= fun _ => l.forM check) = _ ↔ _
    rw [then_eq_ok, List.forall_mem_cons, ← ih]

/-- Every failure of the call is one of `P`. -/
def FailsAs (P : ε → Prop) (x : Except ε α) : Prop := ∀ e, x = .error e → P e

namespace FailsAs
variable {P : ε → Prop}

theorem ok (a : α) : FailsAs P (.ok a) := fun _ h => by cases h

theorem error {e : ε} (h : P e) : FailsAs P (.error e : Except ε α) := by
  intro e' he
  cases he
  exact h

theorem imp {Q : ε → Prop} {x : Except ε α} (h : FailsAs P x) (hPQ : ∀ e, P e → Q e) :
    FailsAs Q x := fun e he => hPQ e (h e he)

theorem bind {x : Except ε α} {f : α → Except ε β} (hx : FailsAs P x)
    (hf : ∀ a, FailsAs P (f a)) : FailsAs P (x >>= f) := by
  cases x with
  | error e' =>
    intro e he
    cases he
    exact hx e' rfl
  | ok a => exact hf a

theorem mapError_const {x : Except ε' α} {e : ε} (h : P e) :
    FailsAs P (x.mapError fun _ => e) := by
  cases x with
  | error e' => exact error h
  | ok a => exact ok a

theorem ite {c : Prop} [Decidable c] {x y : Except ε α} (hx : FailsAs P x) (hy : FailsAs P y) :
    FailsAs P (if c then x else y) := by
  by_cases hc : c
  · rwa [if_pos hc]
  · rwa [if_neg hc]

theorem guard {c : Prop} [Decidable c] {e : ε} {x : Except ε α} (h : P e) (hx : FailsAs P x) :
    FailsAs P (if c then .error e else x) :=
  ite (error h) hx

end FailsAs
end Hacp.Lib
