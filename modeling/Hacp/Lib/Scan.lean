import Mathlib.Tactic

/-!
# Loops over a list that a turn may leave

A turn passes a state on to the next item, or leaves the loop with a result and the
remaining items untouched. What every turn keeps, the loop keeps; and when every turn
says how a fact about the state comes about, the turns taken say it of the whole loop.
-/
namespace Hacp.Lib.Scan
variable {σ ι ρ : Type*}

def run (turn : σ → ι → σ ⊕ ρ) : σ → List ι → σ ⊕ ρ
  | s, [] => .inl s
  | s, i :: is =>
    match turn s i with
    | .inl s => run turn s is
    | .inr r => .inr r

/-- The turns that are taken, each with the state it begins in. -/
def turns (turn : σ → ι → σ ⊕ ρ) : σ → List ι → List (σ × ι)
  | _, [] => []
  | s, i :: is => (s, i) ::
    match turn s i with
    | .inl s => turns turn s is
    | .inr _ => []

variable {turn : σ → ι → σ ⊕ ρ} {s s' : σ} {i : ι} {is : List ι} {r : ρ}

theorem run_cons_inl (h : turn s i = .inl s') : run turn s (i :: is) = run turn s' is := by
  rw [run, h]

theorem run_cons_inr (h : turn s i = .inr r) : run turn s (i :: is) = .inr r := by
  rw [run, h]

theorem turns_cons_inl (h : turn s i = .inl s') :
    turns turn s (i :: is) = (s, i) :: turns turn s' is := by
  rw [turns, h]

theorem turns_cons_inr (h : turn s i = .inr r) : turns turn s (i :: is) = [(s, i)] := by
  rw [turns, h]

/-- What every turn that is taken keeps holds behind the loop, and its consequence where a turn
leaves it. -/
theorem run_keeps_turns {I : σ → Prop} {J : ρ → Prop}
    (hturn : ∀ t ∈ turns turn s is, I t.1 → Sum.elim I J (turn t.1 t.2)) (hs : I s) :
    Sum.elim I J (run turn s is) := by
  induction is generalizing s with
  | nil => exact hs
  | cons i is ih =>
    cases hi : turn s i with
    | inl s' =>
      rw [turns_cons_inl hi] at hturn
      have hfirst := hturn (s, i) List.mem_cons_self hs
      rw [hi] at hfirst
      rw [run_cons_inl hi]
      exact ih (fun t ht => hturn t (List.mem_cons_of_mem _ ht)) hfirst
    | inr r =>
      rw [turns_cons_inr hi] at hturn
      have hfirst := hturn (s, i) (List.mem_singleton_self _) hs
      rw [hi] at hfirst
      rwa [run_cons_inr hi]

theorem mem_of_mem_turns {t : σ × ι} (ht : t ∈ turns turn s is) : t.2 ∈ is := by
  induction is generalizing s with
  | nil => cases ht
  | cons i is ih =>
    cases hi : turn s i with
    | inl s' =>
      rw [turns_cons_inl hi] at ht
      rcases List.mem_cons.mp ht with rfl | ht
      · exact List.mem_cons_self
      · exact List.mem_cons_of_mem i (ih ht)
    | inr r =>
      rw [turns_cons_inr hi] at ht
      obtain rfl := List.mem_singleton.mp ht
      exact List.mem_cons_self

theorem run_keeps {I : σ → Prop} {J : ρ → Prop}
    (hturn : ∀ s, ∀ i ∈ is, I s → Sum.elim I J (turn s i)) (hs : I s) :
    Sum.elim I J (run turn s is) :=
  run_keeps_turns (fun t ht => hturn t.1 t.2 (mem_of_mem_turns ht)) hs

/-- The loop is left exactly where one of its turns leaves it. -/
theorem run_eq_inr : run turn s is = .inr r ↔ ∃ t ∈ turns turn s is, turn t.1 t.2 = .inr r := by
  induction is generalizing s with
  | nil => simp [run, turns]
  | cons i is ih =>
    cases hi : turn s i with
    | inl s' =>
      rw [run_cons_inl hi, turns_cons_inl hi, List.exists_mem_cons_iff, ih]
      simp [hi]
    | inr r' =>
      rw [run_cons_inr hi, turns_cons_inr hi]
      simp [hi]

theorem run_back {G : σ → Prop} (hturn : ∀ s i s', turn s i = .inl s' → G s' → G s)
    (hrun : run turn s is = .inl s') (hG : G s') : G s := by
  induction is generalizing s with
  | nil =>
    cases hrun
    exact hG
  | cons i is ih =>
    cases hi : turn s i with
    | inl s₁ =>
      rw [run_cons_inl hi] at hrun
      exact hturn s i s₁ hi (ih hrun)
    | inr r =>
      rw [run_cons_inr hi] at hrun
      cases hrun

/-- Where every turn keeps `I` and makes `P` true only as `Q` says, `P` holds behind the loop if
it did in front of it or one of its turns made it true. All of this may depend on a fact `G`
that a turn cannot make true. -/
theorem run_marks {G I P : σ → Prop} {Q : σ × ι → Prop}
    (hback : ∀ s i s', turn s i = .inl s' → G s' → G s)
    (hturn : ∀ s i s', I s → G s' → turn s i = .inl s' → I s' ∧ (P s' ↔ P s ∨ Q (s, i)))
    (hs : I s) (hrun : run turn s is = .inl s') (hG : G s') :
    I s' ∧ (P s' ↔ P s ∨ ∃ t ∈ turns turn s is, Q t) := by
  induction is generalizing s with
  | nil =>
    cases hrun
    simp [turns, hs]
  | cons i is ih =>
    cases hi : turn s i with
    | inl s₁ =>
      rw [run_cons_inl hi] at hrun
      obtain ⟨hI, hfirst⟩ := hturn s i s₁ hs (run_back hback hrun hG) hi
      obtain ⟨hI', hrest⟩ := ih hI hrun
      rw [turns_cons_inl hi, List.exists_mem_cons_iff, ← or_assoc, ← hfirst]
      exact ⟨hI', hrest⟩
    | inr r =>
      rw [run_cons_inr hi] at hrun
      cases hrun

end Hacp.Lib.Scan
