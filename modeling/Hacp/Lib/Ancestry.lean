import Hacp.Lib.Loop
import Std.Data.ExtTreeMap

/-!
# Parent links

A partial function `parent` gives each node at most one parent. The lineage of a
node is the list of nodes met on the way up to a node without a parent; it is
unique, has no repeats, and exists exactly for the nodes from which the walk up
ends. A loop that follows the links is bounded by the length of the lineage, and a
lineage inside a finite map by the size of the map.
-/
namespace Hacp.Lib
variable {α : Type*}

/-- The nodes from `a` up to a root, both included. -/
inductive Lineage (parent : α → Option α) : α → List α → Prop where
  | root {a : α} (h : parent a = none) : Lineage parent a [a]
  | child {a b : α} {l : List α} (h : parent a = some b) (up : Lineage parent b l) :
      Lineage parent a (a :: l)

namespace Lineage
variable {parent : α → Option α} {a b : α} {l m : List α}

theorem head (h : Lineage parent a l) : ∃ up, l = a :: up := by
  cases h with
  | root => exact ⟨[], rfl⟩
  | child _ up => exact ⟨_, rfl⟩

theorem self_mem (h : Lineage parent a l) : a ∈ l := by
  obtain ⟨up, rfl⟩ := h.head
  exact List.mem_cons_self

theorem unique (h : Lineage parent a l) (h' : Lineage parent a m) : l = m := by
  induction h generalizing m with
  | root hr =>
    cases h' with
    | root => rfl
    | child hp _ => simp [hr] at hp
  | child hp _ ih =>
    cases h' with
    | root hr => simp [hr] at hp
    | child hp' up' =>
      obtain rfl := Option.some.inj (hp.symm.trans hp')
      rw [ih up']

/-- From any of its nodes on, a lineage is the lineage of that node. -/
theorem of_append {pre post : List α} (h : Lineage parent a (pre ++ b :: post)) :
    Lineage parent b (b :: post) := by
  generalize hl : pre ++ b :: post = l at h
  induction h generalizing pre with
  | root hr =>
    cases pre with
    | nil =>
      obtain ⟨rfl, rfl⟩ := List.cons.inj hl
      exact .root hr
    | cons c pre => simp at hl
  | child hp up ih =>
    cases pre with
    | nil =>
      obtain ⟨rfl, rfl⟩ := List.cons.inj hl
      exact .child hp up
    | cons c pre => exact ih (List.cons.inj hl).2

/-- Every node met on the way has the rest of the way as its own lineage. -/
theorem suffix_of_mem (h : Lineage parent a l) (hb : b ∈ l) :
    ∃ m, Lineage parent b m ∧ m <:+ l := by
  obtain ⟨pre, post, rfl⟩ := List.append_of_mem hb
  exact ⟨b :: post, h.of_append, List.suffix_append pre _⟩

theorem nodup (h : Lineage parent a l) : l.Nodup := by
  induction h with
  | root => exact List.nodup_singleton _
  | child hp up ih =>
    refine List.nodup_cons.mpr ⟨fun hmem => ?_, ih⟩
    obtain ⟨m, hm, hsuffix⟩ := up.suffix_of_mem hmem
    rw [hm.unique (.child hp up)] at hsuffix
    have hlen := hsuffix.length_le
    simp at hlen

/-- The nodes on the way up are those that can be reached along the links. -/
theorem mem_iff (h : Lineage parent a l) :
    b ∈ l ↔ Relation.ReflTransGen (fun x y => parent x = some y) a b := by
  constructor
  · intro hb
    induction h with
    | root =>
      obtain rfl := List.mem_singleton.mp hb
      exact .refl
    | child hp _ ih =>
      rcases List.mem_cons.mp hb with rfl | hb
      · exact .refl
      · exact .head hp (ih hb)
  · intro hb
    induction hb using Relation.ReflTransGen.head_induction_on generalizing l with
    | refl => exact h.self_mem
    | head hxy _ ih =>
      cases h with
      | root hr => simp [hr] at hxy
      | child hp up =>
        obtain rfl := Option.some.inj (hp.symm.trans hxy)
        exact List.mem_cons_of_mem _ (ih up)

/-- Only the parents of the nodes on the way matter. -/
theorem congr {parent' : α → Option α} (h : Lineage parent a l)
    (heq : ∀ x ∈ l, parent' x = parent x) : Lineage parent' a l := by
  induction h with
  | root hr => exact .root ((heq _ List.mem_cons_self).trans hr)
  | child hp _ ih =>
    exact .child ((heq _ List.mem_cons_self).trans hp)
      (ih fun x hx => heq x (List.mem_cons_of_mem _ hx))

/-- On another way that meets `a`, nothing before `a` is above `a`. -/
theorem find_of_mem [DecidableEq α] (h : Lineage parent a l) (h' : Lineage parent b m)
    (ha : a ∈ m) : m.find? (fun x => decide (x ∈ l)) = some a := by
  induction h' with
  | root =>
    obtain rfl := List.mem_singleton.mp ha
    simp [h.self_mem]
  | @child b c up hp hup ih =>
    rcases List.mem_cons.mp ha with rfl | ha
    · simp [h.self_mem]
    · have hb : b ∉ l := fun hb => by
        obtain ⟨m, hm, hsuffix⟩ := h.suffix_of_mem hb
        rw [hm.unique (.child hp hup)] at hsuffix
        obtain ⟨m', hm', hsuffix'⟩ := hup.suffix_of_mem ha
        rw [hm'.unique h] at hsuffix'
        have hle := hsuffix.length_le
        have hle' := hsuffix'.length_le
        simp only [List.length_cons] at hle
        omega
      rw [List.find?_cons_of_neg (by simpa using hb)]
      exact ih ha

/-- Two ways up first meet at the same node, whichever of them is followed. -/
theorem find_comm [DecidableEq α] (h : Lineage parent a l) (h' : Lineage parent b m) :
    l.find? (fun x => decide (x ∈ m)) = m.find? (fun x => decide (x ∈ l)) := by
  induction h with
  | @root a hr =>
    by_cases ha : a ∈ m
    · rw [find_of_mem (.root hr) h' ha]
      simp [ha]
    · have hnone : m.find? (fun x => decide (x ∈ [a])) = none := by
        rw [List.find?_eq_none]
        intro x hx hxa
        simp only [List.mem_singleton, decide_eq_true_eq] at hxa
        exact ha (hxa ▸ hx)
      rw [hnone]
      simp [ha]
  | @child a c up hp hup ih =>
    by_cases ha : a ∈ m
    · rw [find_of_mem (.child hp hup) h' ha]
      simp [ha]
    · rw [List.find?_cons_of_neg (by simpa using ha), ih]
      refine List.find?_congr fun x hx => ?_
      have hxa : x ≠ a := fun hxa => ha (hxa ▸ hx)
      simp [hxa]

/-- A lineage is a list from its node to a root in which each node is followed by its parent. -/
theorem iff_chain : Lineage parent a l ↔ l.head? = some a ∧
    l.IsChain (fun x y => parent x = some y) ∧ ∀ r ∈ l.getLast?, parent r = none := by
  constructor
  · intro h
    induction h with
    | root hr => simp [hr]
    | @child a b up hp hup ih =>
      obtain ⟨rest, rfl⟩ := hup.head
      rw [List.isChain_cons_cons, List.getLast?_cons_cons]
      exact ⟨rfl, ⟨hp, ih.2.1⟩, ih.2.2⟩
  · induction l generalizing a with
    | nil => simp
    | cons b rest ih =>
      rintro ⟨hhead, hchain, hroot⟩
      obtain rfl := Option.some.inj hhead
      cases rest with
      | nil => exact .root (hroot b rfl)
      | cons c rest =>
        rw [List.isChain_cons_cons] at hchain
        rw [List.getLast?_cons_cons] at hroot
        exact .child hchain.1 (ih ⟨rfl, hchain.2, hroot⟩)

theorem tail (h : Lineage parent a l) : l.drop 1 = [] ∨ ∃ b, Lineage parent b (l.drop 1) := by
  cases h with
  | root => exact .inl rfl
  | child _ up => exact .inr ⟨_, up⟩

theorem forall_mem {P : α → Prop} (h : Lineage parent a l) (ha : P a)
    (hup : ∀ x y, x ∈ l → parent x = some y → P x → P y) : ∀ x ∈ l, P x := by
  induction h with
  | root =>
    intro x hx
    obtain rfl := List.mem_singleton.mp hx
    exact ha
  | child hp up ih =>
    intro x hx
    rcases List.mem_cons.mp hx with rfl | hx
    · exact ha
    · exact ih (hup _ _ List.mem_cons_self hp ha)
        (fun x y hx => hup x y (List.mem_cons_of_mem _ hx)) x hx

/-- Strictly above a node stands its way up without the node itself. -/
theorem mem_drop_iff (h : Lineage parent a l) :
    b ∈ l.drop 1 ↔ Relation.TransGen (fun x y => parent x = some y) a b := by
  rw [Relation.TransGen.head'_iff]
  cases h with
  | root hr => simp [hr]
  | @child _ c up hp hup =>
    rw [List.drop_one, List.tail_cons, hup.mem_iff]
    constructor
    · exact fun hb => ⟨c, hp, hb⟩
    · rintro ⟨c', hp', hb⟩
      obtain rfl := Option.some.inj (hp.symm.trans hp')
      exact hb

theorem not_above_self (h : Lineage parent a l) (hb : b ∈ l) :
    ¬Relation.TransGen (fun x y => parent x = some y) b b := by
  obtain ⟨m, hm, -⟩ := h.suffix_of_mem hb
  rw [← hm.mem_drop_iff]
  obtain ⟨up, rfl⟩ := hm.head
  exact (List.nodup_cons.mp hm.nodup).1

/-- A loop whose turns either exit or move to the parent exits within the lineage. -/
theorem loop_returns {σ ρ : Type*} {body : σ → σ ⊕ ρ} {post : ρ → Prop} (node : σ → Option α)
    (hroot : ∀ s, node s = none → ∃ r, body s = .inr r ∧ post r)
    (h : Lineage parent a l)
    (hturn : ∀ s, ∀ x ∈ l, node s = some x → (∃ r, body s = .inr r ∧ post r) ∨
      ∃ s', body s = .inl s' ∧ node s' = parent x)
    {s : σ} (hs : node s = some a) {n : ℕ} (hn : l.length < n) :
    ∃ r, Loop.iterate body n s = some r ∧ post r := by
  induction h generalizing s n with
  | root hr =>
    obtain ⟨n, rfl⟩ : ∃ k, n = k + 2 := ⟨n - 2, by simp at hn; omega⟩
    rcases hturn s _ List.mem_cons_self hs with ⟨r, hb, hpost⟩ | ⟨s', hb, hnode⟩
    · exact ⟨r, Loop.iterate_succ_exit hb _, hpost⟩
    · obtain ⟨r, hb', hpost⟩ := hroot s' (hnode.trans hr)
      exact ⟨r, by rw [Loop.iterate_succ_continue hb, Loop.iterate_succ_exit hb'], hpost⟩
  | child hp _ ih =>
    obtain ⟨n, rfl⟩ : ∃ k, n = k + 1 := ⟨n - 1, by simp at hn; omega⟩
    rcases hturn s _ List.mem_cons_self hs with ⟨r, hb, hpost⟩ | ⟨s', hb, hnode⟩
    · exact ⟨r, Loop.iterate_succ_exit hb _, hpost⟩
    · rw [Loop.iterate_succ_continue hb]
      exact ih (fun s x hx => hturn s x (List.mem_cons_of_mem _ hx)) (hnode.trans hp)
        (by simp at hn; omega)

end Lineage

/-! ## Steps up -/

/-- The node met after `n` steps up. -/
def climb (parent : α → Option α) : ℕ → α → Option α
  | 0, a => some a
  | n + 1, a => (parent a).bind (climb parent n)

section Climbs
variable {parent : α → Option α} {a b : α}

theorem climb_add (n m : ℕ) (a : α) :
    climb parent (n + m) a = (climb parent n a).bind (climb parent m) := by
  induction n generalizing a with
  | zero => simp [climb]
  | succ n ih =>
    rw [Nat.succ_add, climb, climb]
    cases parent a with
    | none => rfl
    | some p => exact ih p

theorem climb_of_path (h : Relation.ReflTransGen (fun x y => parent x = some y) a b) :
    ∃ n, climb parent n a = some b := by
  induction h using Relation.ReflTransGen.head_induction_on with
  | refl => exact ⟨0, rfl⟩
  | head hxy _ ih =>
    obtain ⟨n, hn⟩ := ih
    exact ⟨n + 1, by rw [climb, hxy]; exact hn⟩

theorem climb_of_above (h : Relation.TransGen (fun x y => parent x = some y) a b) :
    ∃ n, climb parent (n + 1) a = some b := by
  obtain ⟨c, hac, hcb⟩ := Relation.TransGen.head'_iff.mp h
  obtain ⟨n, hn⟩ := climb_of_path hcb
  exact ⟨n, by rw [climb, hac]; exact hn⟩

/-- The lineage lists the steps. -/
theorem Lineage.climb_eq {l : List α} (h : Lineage parent a l) (n : ℕ) :
    climb parent n a = l[n]? := by
  induction h generalizing n with
  | root hr => cases n <;> simp [climb, hr]
  | child hp _ ih =>
    cases n with
    | zero => rfl
    | succ n =>
      rw [climb, hp, List.getElem?_cons_succ]
      exact ih n

end Climbs

section FiniteMaps
variable {κ β : Type*} {cmp : κ → κ → Ordering} [Std.TransCmp cmp] [Std.LawfulEqCmp cmp]

theorem length_le_size {m : Std.ExtTreeMap κ β cmp} {l : List κ} (hl : l.Nodup)
    (hmem : ∀ x ∈ l, x ∈ m) : l.length ≤ m.size := by
  rw [← Std.ExtTreeMap.length_keys]
  exact (List.subperm_of_subset hl fun x hx =>
    Std.ExtTreeMap.mem_keys.mpr (hmem x hx)).length_le

theorem card_le_size [DecidableEq κ] {m : Std.ExtTreeMap κ β cmp} {s : Finset κ}
    (hmem : ∀ x ∈ s, x ∈ m) : s.card ≤ m.size := by
  rw [← Finset.length_toList]
  exact length_le_size s.nodup_toList fun x hx => hmem x (Finset.mem_toList.mp hx)

end FiniteMaps
end Hacp.Lib
