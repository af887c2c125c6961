import Mathlib.Tactic
import Std.Data.ExtTreeMap

/-!
# Lookups after an update

In a map whose keys compare equal only when they are equal, an update changes the
lookup at its own key and at no other. The entries are listed in key order, so a
search meets the least key first. In a list of pairs with distinct keys the order of
the pairs does not matter to a lookup.
-/
namespace Hacp.Lib
open Std
variable {α β : Type*} [Ord α] [TransOrd α] [LawfulEqOrd α] (t : ExtTreeMap α β) (k a : α) (v : β)

theorem lookup_insert [DecidableEq α] :
    (t.insert k v)[a]? = if a = k then some v else t[a]? := by
  by_cases h : a = k
  · subst h
    simp
  · rw [if_neg h, ExtTreeMap.getElem?_insert, if_neg]
    rwa [Std.compare_eq_iff_eq, eq_comm]

theorem lookup_erase [DecidableEq α] :
    (t.erase k)[a]? = if a = k then none else t[a]? := by
  by_cases h : a = k
  · subst h
    simp
  · rw [if_neg h, ExtTreeMap.getElem?_erase, if_neg]
    rwa [Std.compare_eq_iff_eq, eq_comm]

theorem mem_insert_iff : a ∈ t.insert k v ↔ a = k ∨ a ∈ t := by
  rw [ExtTreeMap.mem_insert, Std.compare_eq_iff_eq, eq_comm]

theorem mem_erase_iff : a ∈ t.erase k ↔ a ≠ k ∧ a ∈ t := by
  rw [ExtTreeMap.mem_erase, ne_eq, Std.compare_eq_iff_eq, eq_comm]

omit [LawfulEqOrd α] in
theorem lookup_eq_none_iff : t[a]? = none ↔ a ∉ t := by
  rw [ExtTreeMap.mem_iff_isSome_getElem?]
  simp

omit [LawfulEqOrd α] in
theorem mem_iff_lookup : a ∈ t ↔ ∃ v, t[a]? = some v := by
  rw [ExtTreeMap.mem_iff_isSome_getElem?, Option.isSome_iff_exists]

omit [LawfulEqOrd α] in
theorem size_erase_lt {t : ExtTreeMap α β} {k : α} (h : k ∈ t) : (t.erase k).size < t.size := by
  have hpos : t.size ≠ 0 := fun hzero =>
    ExtTreeMap.not_mem_empty (ExtTreeMap.eq_empty_iff_size_eq_zero.mpr hzero ▸ h)
  rw [ExtTreeMap.size_erase, if_pos (ExtTreeMap.contains_iff_mem.mpr h)]
  omega

/-- A search through the entries finds the passing entry with the least key. -/
theorem find?_toList_eq_some {t : ExtTreeMap α β} {p : α × β → Bool} {k : α} {v : β} :
    t.toList.find? p = some (k, v) ↔
      t[k]? = some v ∧ p (k, v) = true ∧
        ∀ k' v', t[k']? = some v' → p (k', v') = true → (compare k k').isLE = true := by
  have hleast {k : α} {v : β} (h : t.toList.find? p = some (k, v)) :
      t[k]? = some v ∧ p (k, v) = true ∧
        ∀ k' v', t[k']? = some v' → p (k', v') = true → (compare k k').isLE = true := by
    obtain ⟨hp, pre, post, hsplit, hpre⟩ := List.find?_eq_some_iff_append.mp h
    refine ⟨ExtTreeMap.mem_toList_iff_getElem?_eq_some.mp (List.mem_of_find?_eq_some h), hp,
      fun k' v' hk' hp' => ?_⟩
    have hmem := ExtTreeMap.mem_toList_iff_getElem?_eq_some.mpr hk'
    have hordered := t.ordered_keys_toList
    rw [hsplit, List.pairwise_append, List.pairwise_cons] at hordered
    rw [hsplit, List.mem_append, List.mem_cons] at hmem
    rcases hmem with hmem | hmem | hmem
    · have hnot := hpre _ hmem
      simp [hp'] at hnot
    · obtain ⟨rfl, rfl⟩ := Prod.mk.inj hmem
      simp [compare_self]
    · have hlt := hordered.2.1.1 _ hmem
      simp only at hlt
      rw [hlt]
      rfl
  refine ⟨hleast, fun ⟨hk, hp, hmin⟩ => ?_⟩
  cases hfind : t.toList.find? p with
  | none =>
    have hnone := List.find?_eq_none.mp hfind _
      (ExtTreeMap.mem_toList_iff_getElem?_eq_some.mpr hk)
    exact absurd hp hnone
  | some e =>
    obtain ⟨k', v'⟩ := e
    obtain ⟨hk', hp', hmin'⟩ := hleast hfind
    have hsame : compare k k' = .eq :=
      OrientedCmp.isLE_antisymm (hmin k' v' hk' hp') (hmin' k v hk hp)
    obtain rfl := LawfulEqOrd.eq_of_compare hsame
    rw [Option.some.inj (hk.symm.trans hk')]

/-! ## Lists of pairs -/

section Pairs
variable {κ γ : Type*} [DecidableEq κ]

theorem pairs_lookup_cons (k a : κ) (v : γ) (ps : List (κ × γ)) :
    ((k, v) :: ps).lookup a = if a = k then some v else ps.lookup a := by
  by_cases h : a = k
  · rw [if_pos h, h, List.lookup_cons_self]
  · rw [if_neg h, List.lookup_cons, beq_false_of_ne h]

theorem pairs_mem_of_lookup {ps : List (κ × γ)} {k : κ} {v : γ} (h : ps.lookup k = some v) :
    (k, v) ∈ ps := by
  obtain ⟨before, after, rfl, -⟩ := List.lookup_eq_some_iff.mp h
  exact List.mem_append_right _ List.mem_cons_self

theorem pairs_lookup_map (f : κ → γ → γ) (ps : List (κ × γ)) (a : κ) :
    (ps.map fun p => (p.1, f p.1 p.2)).lookup a = (ps.lookup a).map (f a) := by
  induction ps with
  | nil => rfl
  | cons p ps ih =>
    rw [List.map_cons, pairs_lookup_cons, pairs_lookup_cons, ih]
    split_ifs with h
    · rw [h, Option.map_some]
    · rfl

/-- With distinct keys a lookup finds every pair of the list. -/
theorem pairs_lookup_eq_some_iff {ps : List (κ × γ)} (hkeys : (ps.map Prod.fst).Nodup) {k : κ}
    {v : γ} : ps.lookup k = some v ↔ (k, v) ∈ ps := by
  induction ps with
  | nil => simp
  | cons p ps ih =>
    obtain ⟨hfresh, hrest⟩ := List.nodup_cons.mp hkeys
    rw [pairs_lookup_cons, List.mem_cons, Prod.mk.injEq]
    by_cases h : k = p.1
    · have hmem : (k, v) ∉ ps := fun hmem => hfresh (h ▸ List.mem_map_of_mem hmem)
      simp [h, eq_comm, h ▸ hmem]
    · simp [h, ih hrest]

theorem pairs_lookup_perm {ps qs : List (κ × γ)} (hkeys : (ps.map Prod.fst).Nodup)
    (h : ps.Perm qs) (k : κ) : ps.lookup k = qs.lookup k := by
  have hkeys' : (qs.map Prod.fst).Nodup := (h.map Prod.fst).nodup_iff.mp hkeys
  ext v
  rw [pairs_lookup_eq_some_iff hkeys, pairs_lookup_eq_some_iff hkeys', h.mem_iff]

/-- With distinct keys the lookups determine a list up to the order of its pairs. -/
theorem pairs_perm_of_lookup {ps qs : List (κ × γ)} (hps : (ps.map Prod.fst).Nodup)
    (hqs : (qs.map Prod.fst).Nodup) (h : ∀ k, ps.lookup k = qs.lookup k) : ps.Perm qs := by
  rw [List.perm_ext_iff_of_nodup hps.of_map hqs.of_map]
  rintro ⟨k, v⟩
  rw [← pairs_lookup_eq_some_iff hps, ← pairs_lookup_eq_some_iff hqs, h k]

theorem pairs_lookup_filter (p : κ → Prop) [DecidablePred p] (ps : List (κ × γ)) (k : κ) :
    (ps.filter fun q => p q.1).lookup k = if p k then ps.lookup k else none := by
  induction ps with
  | nil => simp
  | cons q ps ih =>
    obtain ⟨key, v⟩ := q
    by_cases hkey : p key
    · rw [List.filter_cons_of_pos (by simpa using hkey), pairs_lookup_cons, pairs_lookup_cons, ih]
      by_cases hk : k = key
      · rw [if_pos hk, if_pos hk, if_pos (hk ▸ hkey)]
      · rw [if_neg hk, if_neg hk]
    · rw [List.filter_cons_of_neg (by simpa using hkey), pairs_lookup_cons, ih]
      by_cases hk : k = key
      · rw [if_neg (hk ▸ hkey), if_neg (hk ▸ hkey)]
      · rw [if_neg hk]

end Pairs

section Entries
variable {κ γ : Type*} [DecidableEq κ] [Ord κ] [TransOrd κ] [LawfulEqOrd κ]

omit [DecidableEq κ] [LawfulEqOrd κ] in
theorem toList_nodup (t : ExtTreeMap κ γ) : (t.toList.map Prod.fst).Nodup := by
  rw [ExtTreeMap.map_fst_toList_eq_keys]
  exact ExtTreeMap.nodup_keys

theorem toList_lookup (t : ExtTreeMap κ γ) (k : κ) : t.toList.lookup k = t[k]? := by
  ext v
  rw [pairs_lookup_eq_some_iff (toList_nodup t), ExtTreeMap.mem_toList_iff_getElem?_eq_some]

theorem ofList_lookup {ps : List (κ × γ)} (hkeys : (ps.map Prod.fst).Nodup) (k : κ) :
    (ExtTreeMap.ofList ps)[k]? = ps.lookup k := by
  cases hlookup : ps.lookup k with
  | some v =>
    have hdistinct : ps.Pairwise fun p q => ¬compare p.1 q.1 = .eq := by
      refine (List.pairwise_map.mp hkeys).imp fun hne heq => hne ?_
      exact LawfulEqOrd.eq_of_compare heq
    exact ExtTreeMap.getElem?_ofList_of_mem ReflOrd.compare_self hdistinct
      ((pairs_lookup_eq_some_iff hkeys).mp hlookup)
  | none =>
    apply ExtTreeMap.getElem?_ofList_of_contains_eq_false
    rw [List.contains_eq_mem, decide_eq_false_iff_not, List.mem_map]
    rintro ⟨⟨key, v⟩, hmem, rfl⟩
    rw [(pairs_lookup_eq_some_iff hkeys).mpr hmem] at hlookup
    cases hlookup

theorem ofList_toList (t : ExtTreeMap κ γ) : ExtTreeMap.ofList t.toList = t := by
  ext k v
  rw [ofList_lookup (toList_nodup t), toList_lookup]

end Entries
end Hacp.Lib
