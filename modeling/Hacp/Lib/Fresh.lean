import Mathlib.Data.Finset.Basic
import Mathlib.Tactic

/-!
# What is fresh among keyed entries

A loop that remembers the keys it has seen keeps the first entry of every key. What it keeps over
two lists, one after the other, is what it keeps over both together.
-/
namespace Hacp.Lib.Fresh
variable {κ α : Type*} [DecidableEq κ]

/-- The entries whose key was not seen and does not stand in front of them. -/
def entries (seen : Finset κ) : List (κ × α) → List (κ × α)
  | [] => []
  | p :: ps => if p.1 ∈ seen then entries seen ps else p :: entries (insert p.1 seen) ps

def keys (seen : Finset κ) (ps : List (κ × α)) : Finset κ := seen ∪ (ps.map Prod.fst).toFinset

variable {seen : Finset κ} {p : κ × α} {ps qs : List (κ × α)}

@[simp] theorem entries_nil : entries seen ([] : List (κ × α)) = [] := rfl

@[simp] theorem keys_nil : keys seen ([] : List (κ × α)) = seen := by simp [keys]

theorem entries_cons_seen (h : p.1 ∈ seen) : entries seen (p :: ps) = entries seen ps := if_pos h

theorem entries_cons_new (h : p.1 ∉ seen) :
    entries seen (p :: ps) = p :: entries (insert p.1 seen) ps := if_neg h

theorem keys_cons : keys seen (p :: ps) = keys (insert p.1 seen) ps := by
  simp [keys]

theorem keys_append : keys seen (ps ++ qs) = keys (keys seen ps) qs := by
  simp [keys]

theorem entries_append : entries seen (ps ++ qs) = entries seen ps ++ entries (keys seen ps) qs := by
  induction ps generalizing seen with
  | nil => simp
  | cons p ps ih =>
    by_cases h : p.1 ∈ seen
    · rw [List.cons_append, entries_cons_seen h, entries_cons_seen h, ih, keys_cons,
        Finset.insert_eq_of_mem h]
    · rw [List.cons_append, entries_cons_new h, entries_cons_new h, ih, keys_cons, List.cons_append]

/-- An entry is kept where it is the first with its key. -/
theorem mem_entries_iff : p ∈ entries seen ps ↔
    ∃ pre post, ps = pre ++ p :: post ∧ p.1 ∉ seen ∧ p.1 ∉ pre.map Prod.fst := by
  induction ps generalizing seen with
  | nil => simp
  | cons q ps ih =>
    by_cases h : q.1 ∈ seen
    · rw [entries_cons_seen h, ih]
      constructor
      · rintro ⟨pre, post, rfl, hseen, hpre⟩
        refine ⟨q :: pre, post, rfl, hseen, ?_⟩
        rw [List.map_cons, List.mem_cons, not_or]
        exact ⟨fun heq => hseen (heq ▸ h), hpre⟩
      · rintro ⟨_ | ⟨r, pre⟩, post, hsplit, hseen, hpre⟩
        · obtain ⟨rfl, rfl⟩ := List.cons.inj hsplit
          exact absurd h hseen
        · obtain ⟨rfl, rfl⟩ := List.cons.inj hsplit
          exact ⟨pre, post, rfl, hseen, fun hmem => hpre (List.mem_cons_of_mem _ hmem)⟩
    · rw [entries_cons_new h, List.mem_cons, ih]
      constructor
      · rintro (rfl | ⟨pre, post, rfl, hseen, hpre⟩)
        · exact ⟨[], ps, rfl, h, List.not_mem_nil⟩
        · rw [Finset.mem_insert, not_or] at hseen
          refine ⟨q :: pre, post, rfl, hseen.2, ?_⟩
          rw [List.map_cons, List.mem_cons, not_or]
          exact ⟨hseen.1, hpre⟩
      · rintro ⟨_ | ⟨r, pre⟩, post, hsplit, hseen, hpre⟩
        · exact .inl (List.cons.inj hsplit).1.symm
        · obtain ⟨rfl, rfl⟩ := List.cons.inj hsplit
          rw [List.map_cons, List.mem_cons, not_or] at hpre
          refine .inr ⟨pre, post, rfl, ?_, hpre.2⟩
          rw [Finset.mem_insert, not_or]
          exact ⟨hpre.1, hseen⟩

theorem entries_sublist : (entries seen ps).Sublist ps := by
  induction ps generalizing seen with
  | nil => exact .refl _
  | cons q ps ih =>
    by_cases h : q.1 ∈ seen
    · rw [entries_cons_seen h]
      exact ih.cons q
    · rw [entries_cons_new h]
      exact ih.cons_cons q

/-- Every key is kept once. -/
theorem entries_nodup : ((entries seen ps).map Prod.fst).Nodup := by
  induction ps generalizing seen with
  | nil => exact .nil
  | cons q ps ih =>
    by_cases h : q.1 ∈ seen
    · rw [entries_cons_seen h]
      exact ih
    · rw [entries_cons_new h, List.map_cons, List.nodup_cons]
      refine ⟨fun hmem => ?_, ih⟩
      obtain ⟨r, hr, hkey⟩ := List.mem_map.mp hmem
      obtain ⟨-, -, -, hseen, -⟩ := mem_entries_iff.mp hr
      exact hseen (hkey ▸ Finset.mem_insert_self _ _)

theorem foldl_entries {β : Type*} (f : α → β) (ps : List (κ × α)) (seen : Finset κ)
    (listed : List β) :
    ps.foldl (fun s p => if p.1 ∈ s.1 then s else (insert p.1 s.1, s.2 ++ [f p.2]))
        (seen, listed) =
      (keys seen ps, listed ++ (entries seen ps).map fun p => f p.2) := by
  induction ps generalizing seen listed with
  | nil => simp
  | cons p ps ih =>
    rw [List.foldl_cons]
    by_cases h : p.1 ∈ seen
    · rw [if_pos h, ih, entries_cons_seen h, keys_cons, Finset.insert_eq_of_mem h]
    · rw [if_neg h, ih, entries_cons_new h, keys_cons]
      simp

end Hacp.Lib.Fresh
