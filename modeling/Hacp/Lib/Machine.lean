import Mathlib.Data.List.Induction
import Mathlib.Tactic

/-!
# Runs of a deterministic machine

A machine answers every input with an output and a next state. A run is a list
of inputs; its history records each step with the states around it. Facts about
whole runs are proved from facts about one step by the rules below, the last of
which lets an invariant mention everything that has happened so far. Where a step of
one machine is a run of another, the history of that run is cut into one part a step.
-/
namespace Hacp.Lib

structure Machine (σ ι ο : Type*) where
  step : σ → ι → σ × ο

/-- One step of a run, with the states before and after it. -/
structure Event (σ ι ο : Type*) where
  before : σ
  input : ι
  output : ο
  after : σ

namespace Machine
variable {σ ι ο : Type*} (M : Machine σ ι ο)

def exec (s : σ) : List ι → σ
  | [] => s
  | i :: is => exec (M.step s i).1 is

def event (s : σ) (i : ι) : Event σ ι ο := ⟨s, i, (M.step s i).2, (M.step s i).1⟩

def history (s : σ) : List ι → List (Event σ ι ο)
  | [] => []
  | i :: is => M.event s i :: history (M.step s i).1 is

def answers (s : σ) (is : List ι) : List (ι × ο) :=
  (M.history s is).map fun e => (e.input, e.output)

def Reachable (s t : σ) : Prop := ∃ is, M.exec s is = t

@[simp] theorem exec_nil (s : σ) : M.exec s [] = s := rfl

@[simp] theorem history_nil (s : σ) : M.history s [] = [] := rfl

theorem history_cons (s : σ) (i : ι) (is : List ι) :
    M.history s (i :: is) = M.event s i :: M.history (M.step s i).1 is := rfl

variable {M} in
theorem history_of_step {s t : σ} {i : ι} {o : ο} (h : M.step s i = (t, o)) (is : List ι) :
    M.history s (i :: is) = ⟨s, i, o, t⟩ :: M.history t is := by
  rw [history_cons, event, h]

variable {M} in
theorem exec_of_step {s t : σ} {i : ι} {o : ο} (h : M.step s i = (t, o)) (is : List ι) :
    M.exec s (i :: is) = M.exec t is := by
  rw [exec, h]

theorem exec_append (s : σ) (is js : List ι) :
    M.exec s (is ++ js) = M.exec (M.exec s is) js := by
  induction is generalizing s with
  | nil => rfl
  | cons i is ih => exact ih _

theorem history_append (s : σ) (is js : List ι) :
    M.history s (is ++ js) = M.history s is ++ M.history (M.exec s is) js := by
  induction is generalizing s with
  | nil => rfl
  | cons i is ih =>
    simp only [List.cons_append, history, exec]
    rw [ih]

theorem exec_snoc (s : σ) (is : List ι) (i : ι) :
    M.exec s (is ++ [i]) = (M.step (M.exec s is) i).1 :=
  M.exec_append s is [i]

theorem history_snoc (s : σ) (is : List ι) (i : ι) :
    M.history s (is ++ [i]) = M.history s is ++ [M.event (M.exec s is) i] :=
  M.history_append s is [i]

theorem history_inputs (s : σ) (is : List ι) :
    (M.history s is).map Event.input = is := by
  induction is generalizing s with
  | nil => rfl
  | cons i is ih =>
    simp only [history, List.map_cons, event]
    rw [ih]

/-- Every recorded event is the step taken after some prefix of the inputs. -/
theorem mem_history {s : σ} {is : List ι} {e : Event σ ι ο} (h : e ∈ M.history s is) :
    ∃ pre i post, is = pre ++ i :: post ∧ e = M.event (M.exec s pre) i := by
  induction is generalizing s with
  | nil => simp [history] at h
  | cons i is ih =>
    rcases List.mem_cons.mp h with rfl | h
    · exact ⟨[], i, is, rfl, rfl⟩
    · obtain ⟨pre, j, post, rfl, rfl⟩ := ih h
      exact ⟨i :: pre, j, post, rfl, rfl⟩

theorem history_prefix {s : σ} {is : List ι} {pre post : List (Event σ ι ο)}
    (h : M.history s is = pre ++ post) :
    ∃ js ks, is = js ++ ks ∧ pre = M.history s js ∧ post = M.history (M.exec s js) ks := by
  induction pre generalizing s is with
  | nil => exact ⟨[], is, rfl, rfl, h.symm⟩
  | cons e pre ih =>
    cases is with
    | nil => cases h
    | cons i is =>
      obtain ⟨rfl, hrest⟩ := List.cons.inj h
      obtain ⟨js, ks, rfl, rfl, rfl⟩ := ih hrest
      exact ⟨i :: js, ks, rfl, rfl, rfl⟩

/-- What a history has in front of an event is the history of the inputs before it. -/
theorem history_split {s : σ} {is : List ι} {pre post : List (Event σ ι ο)} {e : Event σ ι ο}
    (h : M.history s is = pre ++ e :: post) :
    ∃ js i ks, is = js ++ i :: ks ∧ pre = M.history s js ∧ e = M.event (M.exec s js) i := by
  obtain ⟨js, ks, rfl, hpre, hpost⟩ := M.history_prefix h
  cases ks with
  | nil => cases hpost
  | cons i ks => exact ⟨js, i, ks, rfl, hpre, (List.cons.inj hpost).1⟩

@[simp] theorem answers_nil (s : σ) : M.answers s [] = [] := rfl

theorem answers_cons (s : σ) (i : ι) (is : List ι) :
    M.answers s (i :: is) = (i, (M.step s i).2) :: M.answers (M.step s i).1 is := rfl

theorem answers_append (s : σ) (is js : List ι) :
    M.answers s (is ++ js) = M.answers s is ++ M.answers (M.exec s is) js := by
  rw [answers, history_append, List.map_append, answers, answers]

theorem answers_snoc (s : σ) (is : List ι) (i : ι) :
    M.answers s (is ++ [i]) = M.answers s is ++ [(i, (M.step (M.exec s is) i).2)] :=
  M.answers_append s is [i]

theorem answers_split {s : σ} {is : List ι} {pre post : List (ι × ο)} {i : ι} {o : ο}
    (h : M.answers s is = pre ++ (i, o) :: post) :
    ∃ js ks, is = js ++ i :: ks ∧ pre = M.answers s js ∧ o = (M.step (M.exec s js) i).2 := by
  induction pre generalizing s is with
  | nil =>
    cases is with
    | nil => cases h
    | cons j is =>
      obtain ⟨hanswer, -⟩ := List.cons.inj h
      obtain ⟨rfl, rfl⟩ := Prod.mk.inj hanswer
      exact ⟨[], is, rfl, rfl, rfl⟩
  | cons p pre ih =>
    cases is with
    | nil => cases h
    | cons j is =>
      obtain ⟨rfl, hrest⟩ := List.cons.inj h
      obtain ⟨js, ks, rfl, rfl, rfl⟩ := ih hrest
      exact ⟨j :: js, ks, rfl, rfl, rfl⟩

theorem Reachable.refl (s : σ) : M.Reachable s s := ⟨[], rfl⟩

variable {M}

theorem Reachable.step {s t : σ} (h : M.Reachable s t) (i : ι) :
    M.Reachable s (M.step t i).1 := by
  obtain ⟨is, rfl⟩ := h
  exact ⟨is ++ [i], M.exec_snoc s is i⟩

/-- What one step keeps, a whole run keeps. -/
theorem exec_invariant {P : σ → Prop} (hstep : ∀ s i, P s → P (M.step s i).1)
    {s : σ} (hs : P s) (is : List ι) : P (M.exec s is) := by
  induction is generalizing s with
  | nil => exact hs
  | cons i is ih => exact ih (hstep s i hs)

/-- Steps restricted to admitted inputs keep `P` along every run of such inputs. -/
theorem exec_invariant_of {P : σ → Prop} {A : ι → Prop}
    (hstep : ∀ s i, A i → P s → P (M.step s i).1)
    {s : σ} (hs : P s) {is : List ι} (his : ∀ i ∈ is, A i) : P (M.exec s is) := by
  induction is generalizing s with
  | nil => exact hs
  | cons i is ih =>
    exact ih (hstep s i (his i List.mem_cons_self) hs)
      (fun j hj => his j (List.mem_cons_of_mem _ hj))

/-- A preorder that every step respects from an invariant state relates the ends of a run. -/
theorem exec_relation {P : σ → Prop} {R : σ → σ → Prop} (hrefl : ∀ s, R s s)
    (htrans : ∀ a b c, R a b → R b c → R a c)
    (hstep : ∀ s i, P s → P (M.step s i).1 ∧ R s (M.step s i).1)
    {s : σ} (hs : P s) (is : List ι) : R s (M.exec s is) := by
  induction is generalizing s with
  | nil => exact hrefl s
  | cons i is ih => exact htrans _ _ _ (hstep s i hs).2 (ih (hstep s i hs).1)

/-- Two machines that stay related answer alike. -/
theorem answers_eq_of_related {τ : Type*} {N : Machine τ ι ο} {R : σ → τ → Prop}
    (hstep : ∀ s t i, R s t → (M.step s i).2 = (N.step t i).2 ∧ R (M.step s i).1 (N.step t i).1)
    {s : σ} {t : τ} (hst : R s t) (is : List ι) : M.answers s is = N.answers t is := by
  induction is generalizing s t with
  | nil => rfl
  | cons i is ih =>
    obtain ⟨houtput, hnext⟩ := hstep s t i hst
    rw [answers_cons, answers_cons, houtput, ih hnext]

/-- Two machines that stay related by every input stay related over a run. -/
theorem exec_related {τ ο' : Type*} {N : Machine τ ι ο'} {R : σ → τ → Prop}
    (hstep : ∀ s t i, R s t → R (M.step s i).1 (N.step t i).1)
    {s : σ} {t : τ} (hst : R s t) (is : List ι) : R (M.exec s is) (N.exec t is) := by
  induction is generalizing s t with
  | nil => exact hst
  | cons i is ih => exact ih (hstep s t i hst)

/-- Where every step of a machine is a run of another one, every run of it is. What the steps
say of both histories holds of the whole runs. -/
theorem exec_simulation {σ' ι' ο' : Type*} {N : Machine σ' ι' ο'} {f : σ → σ'} {P : σ → Prop}
    {R : List (Event σ ι ο) → List (Event σ' ι' ο') → Prop} (hnil : R [] [])
    (hstep : ∀ s i, P s → ∃ js, N.exec (f s) js = f (M.step s i).1 ∧ P (M.step s i).1 ∧
      ∀ h k, R h k → R (h ++ [M.event s i]) (k ++ N.history (f s) js))
    {s : σ} (hs : P s) (is : List ι) :
    ∃ js, N.exec (f s) js = f (M.exec s is) ∧ P (M.exec s is) ∧
      R (M.history s is) (N.history (f s) js) := by
  induction is using List.reverseRecOn with
  | nil => exact ⟨[], rfl, hs, hnil⟩
  | append_singleton is i ih =>
    obtain ⟨js, hexec, hP, hR⟩ := ih
    obtain ⟨ks, hexec', hP', hR'⟩ := hstep (M.exec s is) i hP
    rw [← hexec] at hexec' hR'
    refine ⟨js ++ ks, ?_, ?_, ?_⟩
    · rw [N.exec_append, hexec', M.exec_snoc]
    · rwa [M.exec_snoc]
    · rw [M.history_snoc, N.history_append]
      exact hR' _ _ hR

/-- An invariant about the past as well as the present. The step hypothesis may use
that the present state is the one the history leads to. -/
theorem history_invariant {s : σ} {I : List (Event σ ι ο) → σ → Prop} (h₀ : I [] s)
    (hstep : ∀ is i, I (M.history s is) (M.exec s is) →
      I (M.history s is ++ [M.event (M.exec s is) i]) (M.step (M.exec s is) i).1)
    (is : List ι) : I (M.history s is) (M.exec s is) := by
  induction is using List.reverseRecOn with
  | nil => exact h₀
  | append_singleton is i ih =>
    rw [history_snoc, exec_snoc]
    exact hstep is i ih

end Machine

/-! ## Histories cut into parts -/

/-- A list cut into parts that match the entries of another list one by one. -/
inductive Cut {α β : Type*} (Q : α → List β → Prop) : List α → List β → Prop
  | nil : Cut Q [] []
  | snoc {as : List α} {bs part : List β} {a : α} :
      Cut Q as bs → Q a part → Cut Q (as ++ [a]) (bs ++ part)

namespace Cut
variable {α β γ : Type*} {Q : α → List β → Prop} {as : List α} {bs : List β}

theorem part_of_mem (h : Cut Q as bs) {a : α} (ha : a ∈ as) : ∃ part, Q a part ∧ part ⊆ bs := by
  induction h with
  | nil => cases ha
  | snoc _ hpart ih =>
    rcases List.mem_append.mp ha with hold | hnew
    · obtain ⟨part, hQ, hsub⟩ := ih hold
      exact ⟨part, hQ, fun b hb => List.mem_append_left _ (hsub hb)⟩
    · obtain rfl := List.mem_singleton.mp hnew
      exact ⟨_, hpart, fun b hb => List.mem_append_right _ hb⟩

theorem entry_of_mem (h : Cut Q as bs) {b : β} (hb : b ∈ bs) :
    ∃ a ∈ as, ∃ part, Q a part ∧ b ∈ part := by
  induction h with
  | nil => cases hb
  | snoc _ hpart ih =>
    rcases List.mem_append.mp hb with hold | hnew
    · obtain ⟨a, ha, part, hQ, hmem⟩ := ih hold
      exact ⟨a, List.mem_append_left _ ha, part, hQ, hmem⟩
    · exact ⟨_, List.mem_append_right _ (List.mem_singleton_self _), _, hpart, hnew⟩

/-- What every entry lists is listed in its part, so it is listed in order in the whole. -/
theorem flatMap_sublist (h : Cut Q as bs) {f : α → List γ} {g : β → List γ}
    (hQ : ∀ a part, Q a part → (f a).Sublist (part.flatMap g)) :
    (as.flatMap f).Sublist (bs.flatMap g) := by
  induction h with
  | nil => exact .slnil
  | snoc _ hpart ih =>
    rw [List.flatMap_append, List.flatMap_append, List.flatMap_singleton]
    exact ih.append (hQ _ _ hpart)

theorem flatMap_eq (h : Cut Q as bs) {f : α → List γ} {g : β → List γ}
    (hQ : ∀ a part, Q a part → f a = part.flatMap g) : as.flatMap f = bs.flatMap g := by
  induction h with
  | nil => rfl
  | snoc _ hpart ih =>
    rw [List.flatMap_append, List.flatMap_append, List.flatMap_singleton, ih, hQ _ _ hpart]

end Cut
end Hacp.Lib
