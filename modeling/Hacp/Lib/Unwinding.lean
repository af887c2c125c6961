import Hacp.Lib.Machine

/-!
# Non-interference by unwinding

Some inputs of a machine concern an observer and the others do not. Where a relation
between states is kept by the others on one side alone, and by those that do on both
sides with the same answers, an observer cannot tell which others were taken.
-/
namespace Hacp.Lib

/-- Two steps that answer the same and lead to related states. -/
def Together {σ τ ο : Type*} (R : σ → τ → Prop) (p : σ × ο) (q : τ × ο) : Prop :=
  p.2 = q.2 ∧ R p.1 q.1

namespace Machine
variable {σ ι ο : Type*}

/-- What an observer is related to: inputs that do not concern it keep a state related to one it
was related to, and those that do get the same answer and keep the states related. -/
structure Unwinding (M : Machine σ ι ο) (concerns : ι → Prop) (R : σ → σ → Prop) : Prop where
  respects : ∀ s t i, ¬concerns i → R s t → R (M.step s i).1 t
  consistent : ∀ s t i, concerns i → R s t → Together R (M.step s i) (M.step t i)

variable {M : Machine σ ι ο} {concerns : ι → Prop} [DecidablePred concerns] {R : σ → σ → Prop}

/-- The answers to the inputs that concern the observer are the answers of the run in which the
others are left out. -/
theorem Unwinding.purge (h : M.Unwinding concerns R) {s t : σ} (hst : R s t) (is : List ι) :
    (M.answers s is).filter (fun a => concerns a.1) =
      M.answers t (is.filter fun i => concerns i) := by
  induction is generalizing s t with
  | nil => rfl
  | cons i is ih =>
    rw [answers_cons]
    by_cases hi : concerns i
    · obtain ⟨hanswer, hnext⟩ := h.consistent s t i hi hst
      rw [List.filter_cons_of_pos (by simpa using hi), List.filter_cons_of_pos (by simpa using hi),
        answers_cons, hanswer, ih hnext]
    · rw [List.filter_cons_of_neg (by simpa using hi), List.filter_cons_of_neg (by simpa using hi)]
      exact ih (h.respects s t i hi hst)

/-- Two runs with the same inputs for the observer have the same answers for it. -/
theorem Unwinding.noninterference (h : M.Unwinding concerns R) {s : σ} (hs : R s s)
    {is js : List ι} (hsame : is.filter (fun i => concerns i) = js.filter fun i => concerns i) :
    (M.answers s is).filter (fun a => concerns a.1) =
      (M.answers s js).filter fun a => concerns a.1 := by
  rw [h.purge hs, h.purge hs, hsame]

end Machine
end Hacp.Lib
