import Mathlib.Data.Finset.Card
import Mathlib.Data.List.DropRight
import Mathlib.Tactic

/-!
# A memory that forgets the oldest

A set of keys for lookup and a queue of the same keys in the order they came. A new
key goes to the end of the queue, and beyond the limit the front is forgotten in both.
As long as no more different keys came than the limit, nothing is ever forgotten.
-/
namespace Hacp.Lib

structure Memory (α : Type*) where
  keys : Finset α
  order : List α

namespace Memory
variable {α : Type*} [DecidableEq α] {limit : ℕ} {m : Memory α} {k : α}

def remember (limit : ℕ) (m : Memory α) (k : α) : Memory α :=
  if k ∈ m.keys then m
  else
    let order := m.order ++ [k]
    let excess := order.length - limit
    ⟨insert k m.keys \ (order.take excess).toFinset, order.drop excess⟩

theorem remember_of_mem (hk : k ∈ m.keys) : m.remember limit k = m := if_pos hk

def remembered (limit : ℕ) (keys : List α) : Memory α := keys.foldl (remember limit) ⟨∅, []⟩

theorem remembered_snoc (limit : ℕ) (keys : List α) (k : α) :
    remembered limit (keys ++ [k]) = remember limit (remembered limit keys) k := by
  simp [remembered]

/-- The set and the queue hold the same keys, each once and no more than the limit. -/
structure InStep (limit : ℕ) (m : Memory α) : Prop where
  keys : m.keys = m.order.toFinset
  nodup : m.order.Nodup
  bounded : m.order.length ≤ limit

theorem InStep.card (h : m.InStep limit) : m.keys.card = m.order.length := by
  rw [h.keys, List.toFinset_card_of_nodup h.nodup]

theorem InStep.nodup_snoc (h : m.InStep limit) (hk : k ∉ m.keys) : (m.order ++ [k]).Nodup := by
  rw [h.keys, List.mem_toFinset] at hk
  simp only [List.nodup_append, h.nodup, List.nodup_singleton, List.mem_singleton, true_and]
  intro a ha b hb
  subst hb
  intro hab
  subst hab
  exact hk ha

theorem toFinset_drop {xs : List α} (hxs : xs.Nodup) (n : ℕ) :
    (xs.drop n).toFinset = xs.toFinset \ (xs.take n).toFinset := by
  ext a
  have hsplit : a ∈ xs ↔ a ∈ xs.take n ∨ a ∈ xs.drop n := by
    rw [← List.mem_append, List.take_append_drop]
  have hapart : a ∈ xs.take n → a ∉ xs.drop n := fun htake hdrop =>
    List.disjoint_take_drop hxs le_rfl htake hdrop
  simp only [Finset.mem_sdiff, List.mem_toFinset, hsplit]
  constructor
  · intro hdrop
    exact ⟨.inr hdrop, fun htake => hapart htake hdrop⟩
  · intro ⟨hmem, htake⟩
    exact hmem.resolve_left htake

theorem InStep.remember (h : m.InStep limit) (k : α) : (m.remember limit k).InStep limit := by
  unfold Memory.remember
  split_ifs with hk
  · exact h
  · have hnodup := h.nodup_snoc hk
    constructor
    · dsimp only
      rw [toFinset_drop hnodup, h.keys]
      ext a
      simp
    · exact hnodup.drop
    · dsimp only
      rw [List.length_drop]
      omega

theorem remembered_inStep (limit : ℕ) (keys : List α) : (remembered limit keys).InStep limit := by
  induction keys using List.reverseRecOn with
  | nil => exact ⟨rfl, List.nodup_nil, Nat.zero_le _⟩
  | append_singleton keys k ih =>
    rw [remembered_snoc]
    exact ih.remember k

theorem remember_keys (hroom : k ∉ m.keys → m.order.length < limit) :
    (m.remember limit k).keys = insert k m.keys := by
  unfold remember
  split_ifs with hk
  · exact (Finset.insert_eq_of_mem hk).symm
  · have hexcess : (m.order ++ [k]).length - limit = 0 := by
      rw [List.length_append, List.length_singleton]
      have hlt := hroom hk
      omega
    dsimp only
    rw [hexcess]
    simp

/-- No more different keys than the limit: all of them are remembered. -/
theorem remembered_keys {keys : List α} (hfew : keys.toFinset.card ≤ limit) :
    (remembered limit keys).keys = keys.toFinset := by
  induction keys using List.reverseRecOn with
  | nil => rfl
  | append_singleton keys k ih =>
    have hsplit : (keys ++ [k]).toFinset = insert k keys.toFinset := by
      ext a
      simp
    rw [hsplit] at hfew ⊢
    have hbefore := ih ((Finset.card_le_card (Finset.subset_insert k _)).trans hfew)
    rw [remembered_snoc, remember_keys, hbefore]
    intro hk
    rw [← (remembered_inStep limit keys).card, hbefore]
    rw [hbefore] at hk
    rw [Finset.card_insert_of_notMem hk] at hfew
    omega

end Memory
end Hacp.Lib
