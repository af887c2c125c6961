import Mathlib.Tactic

/-!
# Joining with a separator and splitting again

Joined pieces split into the pieces of the pieces. Two lists of pieces therefore join
to one text exactly when their finer pieces agree in order, and a join can be undone
when no piece contains the separator.
-/
namespace Hacp.Lib
variable {α ι : Type*} [BEq α] [LawfulBEq α] {sep : α}

theorem splitOn_join {xs : List (List α)} (h : xs ≠ []) :
    ([sep].intercalate xs).splitOn sep = xs.flatMap (List.splitOn sep) := by
  induction xs with
  | nil => exact absurd rfl h
  | cons x xs ih =>
    cases xs with
    | nil => simp
    | cons y ys =>
      rw [List.intercalate_cons_cons, List.append_assoc, List.singleton_append,
        List.splitOn_append_cons_self, ih (by simp)]
      simp only [List.flatMap_cons]

theorem splitOn_injective : Function.Injective (List.splitOn sep) := by
  intro x y h
  have hjoin := congrArg [sep].intercalate h
  simpa using hjoin

/-- Two joins agree exactly when the finer pieces do. -/
theorem join_eq_iff {xs ys : List (List α)} (hx : xs ≠ []) (hy : ys ≠ []) :
    [sep].intercalate xs = [sep].intercalate ys ↔
      xs.flatMap (List.splitOn sep) = ys.flatMap (List.splitOn sep) := by
  rw [← splitOn_join hx, ← splitOn_join hy, splitOn_injective.eq_iff]

/-- The finer pieces and how many of them each piece has determine the pieces. -/
theorem pieces_determined {keys : List ι} {f g : ι → List α}
    (hpieces : keys.flatMap (fun k => (f k).splitOn sep) =
      keys.flatMap (fun k => (g k).splitOn sep))
    (hlen : ∀ k ∈ keys, ((f k).splitOn sep).length = ((g k).splitOn sep).length) :
    ∀ k ∈ keys, f k = g k := by
  rw [List.flatMap_def, List.flatMap_def] at hpieces
  have heach : keys.map (fun k => (f k).splitOn sep) = keys.map (fun k => (g k).splitOn sep) := by
    refine List.eq_iff_flatten_eq.mpr ⟨hpieces, ?_⟩
    rw [List.map_map, List.map_map]
    exact List.map_congr_left hlen
  intro k hk
  exact splitOn_injective (List.map_inj_left.mp heach k hk)

theorem splitOn_replicate (n : ℕ) :
    (List.replicate n sep).splitOn sep = List.replicate (n + 1) [] := by
  induction n with
  | zero => simp
  | succ n ih =>
    rw [List.replicate_succ, List.splitOn_cons_eq_if_modifyHead, if_pos (by simp), ih,
      ← List.replicate_succ]

end Hacp.Lib
