import Hacp.Lib.Readable

/-!
# Readers

A reader takes a value off the front of a text and hands back the rest. It reads a
word when it finds the word's value whatever admissible text follows. A reader of
items gives a reader of separated lists with a closing mark.
-/
namespace Hacp.Lib
variable {α β C : Type*}

abbrev Reader (α C : Type*) := List C → Option (α × List C)

/-- `D` says which texts may follow the word. -/
def Reads (read : Reader α C) (word : List C) (D : List C → Prop) (a : α) : Prop :=
  ∀ r, D r → read (word ++ r) = some (a, r)

/-- A reader that finds no value in the word, whatever admissible text follows. -/
def Refuses (read : Reader α C) (word : List C) (D : List C → Prop) : Prop :=
  ∀ r, D r → read (word ++ r) = none

theorem listTail_map (enc : β → List C) (f : α → β) (sep close : C) (xs : List α) :
    listTail enc sep close (xs.map f) = listTail (fun x => enc (f x)) sep close xs := by
  induction xs with
  | nil => rfl
  | cons x xs ih => rw [List.map_cons, listTail, listTail, ih]

theorem listText_map (enc : β → List C) (f : α → β) (sep close : C) (xs : List α) :
    listText enc sep close (xs.map f) = listText (fun x => enc (f x)) sep close xs := by
  cases xs with
  | nil => rfl
  | cons x xs => rw [List.map_cons, listText, listText, listTail_map]

/-- Every further item takes its separator, and the list its closing mark. -/
theorem length_lt_listTail (enc : α → List C) (sep close : C) (xs : List α) :
    xs.length < (listTail enc sep close xs).length := by
  induction xs with
  | nil => simp [listTail]
  | cons x xs ih =>
    simp only [listTail, List.length_cons, List.length_append]
    omega

theorem sum_le_length_listTail {enc : α → List C} {f : α → ℕ} (sep close : C) {xs : List α}
    (h : ∀ x ∈ xs, f x ≤ (enc x).length) :
    (xs.map f).sum ≤ (listTail enc sep close xs).length := by
  induction xs with
  | nil => simp
  | cons x xs ih =>
    have hboth := List.forall_mem_cons.mp h
    have hrest := ih hboth.2
    simp only [List.map_cons, List.sum_cons, listTail, List.length_cons, List.length_append]
    omega

theorem sum_le_length_listText {enc : α → List C} {f : α → ℕ} (sep close : C) {xs : List α}
    (h : ∀ x ∈ xs, f x ≤ (enc x).length) :
    (xs.map f).sum ≤ (listText enc sep close xs).length := by
  cases xs with
  | nil => simp
  | cons x xs =>
    have hboth := List.forall_mem_cons.mp h
    have hrest := sum_le_length_listTail sep close hboth.2
    simp only [List.map_cons, List.sum_cons, listText, List.length_append]
    omega

theorem forall_mem_listTail {P : C → Prop} {enc : α → List C} {sep close : C} (hsep : P sep)
    (hclose : P close) {xs : List α} (h : ∀ x ∈ xs, ∀ c ∈ enc x, P c) :
    ∀ c ∈ listTail enc sep close xs, P c := by
  induction xs with
  | nil => simpa [listTail] using hclose
  | cons x xs ih =>
    have hboth := List.forall_mem_cons.mp h
    rw [listTail, List.forall_mem_append, List.forall_mem_cons]
    exact ⟨⟨hsep, hboth.1⟩, ih hboth.2⟩

theorem forall_mem_listText {P : C → Prop} {enc : α → List C} {sep close : C} (hsep : P sep)
    (hclose : P close) {xs : List α} (h : ∀ x ∈ xs, ∀ c ∈ enc x, P c) :
    ∀ c ∈ listText enc sep close xs, P c := by
  cases xs with
  | nil => simpa [listText] using hclose
  | cons x xs =>
    have hboth := List.forall_mem_cons.mp h
    rw [listText, List.forall_mem_append]
    exact ⟨hboth.1, forall_mem_listTail hsep hclose hboth.2⟩

section Lists
variable [DecidableEq C] (read : Reader α C) (sep close : C)

/-- The rest of a separated list, of at most as many items as the fuel counts. -/
def readTail : ℕ → Reader (List α) C
  | 0, _ => none
  | _ + 1, [] => none
  | fuel + 1, c :: r =>
    if c = close then some ([], r)
    else if c = sep then do
      let (x, r) ← read r
      let (xs, r) ← readTail fuel r
      some (x :: xs, r)
    else none

def readList : Reader (List α) C
  | [] => none
  | c :: r =>
    if c = close then some ([], r)
    else do
      let (x, r) ← read (c :: r)
      let (xs, r) ← readTail read sep close r.length r
      some (x :: xs, r)

variable {read sep close} {D : List C → Prop}

theorem reads_tail (hsep : ∀ r, D (sep :: r)) (hclose : ∀ r, D (close :: r)) (hne : sep ≠ close)
    {items : List (List C × α)} (hitems : ∀ p ∈ items, Reads read p.1 D p.2) {fuel : ℕ}
    (hfuel : items.length < fuel) (r : List C) :
    readTail read sep close fuel (listTail Prod.fst sep close items ++ r) =
      some (items.map Prod.snd, r) := by
  induction items generalizing fuel with
  | nil =>
    obtain ⟨n, rfl⟩ := Nat.exists_eq_add_of_lt hfuel
    simp [listTail, readTail]
  | cons p items ih =>
    cases fuel with
    | zero => simp at hfuel
    | succ fuel =>
      have hp := hitems p List.mem_cons_self (listTail Prod.fst sep close items ++ r)
        (listTail_head hsep hclose items r)
      have hrest := ih (fun q hq => hitems q (List.mem_cons_of_mem _ hq))
        (Nat.lt_of_succ_lt_succ hfuel)
      simp only [listTail, List.cons_append, List.append_assoc, readTail, if_neg hne, if_true, hp,
        Option.bind_eq_bind, Option.bind_some, hrest, List.map_cons]

/-- A reader of the items reads their list, when no item begins with the closing mark. -/
theorem reads_list (hsep : ∀ r, D (sep :: r)) (hclose : ∀ r, D (close :: r)) (hne : sep ≠ close)
    {items : List (List C × α)} (hitems : ∀ p ∈ items, Reads read p.1 D p.2)
    (hhead : ∀ p ∈ items, ∃ c w, p.1 = c :: w ∧ c ≠ close) :
    Reads (readList read sep close) (listText Prod.fst sep close items) (fun _ => True)
      (items.map Prod.snd) := by
  intro r _
  cases items with
  | nil => simp [listText, readList]
  | cons p items =>
    obtain ⟨c, w, hcw, hc⟩ := hhead p List.mem_cons_self
    have hp := hitems p List.mem_cons_self (listTail Prod.fst sep close items ++ r)
      (listTail_head hsep hclose items r)
    have hlength := length_lt_listTail Prod.fst sep close items
    have hfuel : items.length < (listTail Prod.fst sep close items ++ r).length := by
      rw [List.length_append]
      omega
    have hrest := reads_tail hsep hclose hne
      (fun q hq => hitems q (List.mem_cons_of_mem _ hq)) hfuel r
    simp only [hcw, List.cons_append] at hp
    simp only [listText, List.append_assoc, hcw, List.cons_append, readList, if_neg hc, hp,
      Option.bind_eq_bind, Option.bind_some, hrest, List.map_cons]

theorem refuses_tail (hsep : ∀ r, D (sep :: r)) (hclose : ∀ r, D (close :: r)) (hne : sep ≠ close)
    {items : List (List C × α)}
    (hitems : ∀ p ∈ items, Reads read p.1 D p.2 ∨ Refuses read p.1 D)
    (hsome : ∃ p ∈ items, Refuses read p.1 D) (fuel : ℕ) (r : List C) :
    readTail read sep close fuel (listTail Prod.fst sep close items ++ r) = none := by
  induction items generalizing fuel with
  | nil => simp at hsome
  | cons p items ih =>
    cases fuel with
    | zero => rfl
    | succ fuel =>
      have hfollows : D (listTail Prod.fst sep close items ++ r) := listTail_head hsep hclose items r
      simp only [listTail, List.cons_append, List.append_assoc, readTail, if_neg hne, if_true]
      rcases hitems p List.mem_cons_self with hread | hnone
      · obtain ⟨q, hq, hrefused⟩ := hsome
        rcases List.mem_cons.mp hq with rfl | hq
        · simp [hrefused _ hfollows]
        · have hrest := ih (fun q hq => hitems q (List.mem_cons_of_mem _ hq)) ⟨q, hq, hrefused⟩ fuel
          simp [hread _ hfollows, hrest]
      · simp [hnone _ hfollows]

/-- A list is refused when one of its items is and those before it are read. -/
theorem refuses_list (hsep : ∀ r, D (sep :: r)) (hclose : ∀ r, D (close :: r)) (hne : sep ≠ close)
    {items : List (List C × α)}
    (hitems : ∀ p ∈ items, Reads read p.1 D p.2 ∨ Refuses read p.1 D)
    (hsome : ∃ p ∈ items, Refuses read p.1 D)
    (hhead : ∀ p ∈ items, ∃ c w, p.1 = c :: w ∧ c ≠ close) :
    Refuses (readList read sep close) (listText Prod.fst sep close items) (fun _ => True) := by
  intro r _
  cases items with
  | nil => simp at hsome
  | cons p items =>
    obtain ⟨c, w, hcw, hc⟩ := hhead p List.mem_cons_self
    have hfollows : D (listTail Prod.fst sep close items ++ r) := listTail_head hsep hclose items r
    have htext : listText Prod.fst sep close (p :: items) ++ r =
        c :: (w ++ (listTail Prod.fst sep close items ++ r)) := by
      simp [listText, hcw]
    have hfirst : p.1 ++ (listTail Prod.fst sep close items ++ r) =
        c :: (w ++ (listTail Prod.fst sep close items ++ r)) := by
      simp [hcw]
    rw [htext]
    simp only [readList, if_neg hc]
    rcases hitems p List.mem_cons_self with hread | hnone
    · have hread := hread _ hfollows
      rw [hfirst] at hread
      obtain ⟨q, hq, hrefused⟩ := hsome
      rcases List.mem_cons.mp hq with rfl | hq
      · have hrefused := hrefused _ hfollows
        rw [hfirst] at hrefused
        simp [hrefused]
      · have hrest := refuses_tail hsep hclose hne
          (fun q hq => hitems q (List.mem_cons_of_mem _ hq)) ⟨q, hq, hrefused⟩
          (listTail Prod.fst sep close items ++ r).length r
        simp only [hread, Option.bind_eq_bind, Option.bind_some, hrest, Option.bind_none]
    · have hnone := hnone _ hfollows
      rw [hfirst] at hnone
      simp [hnone]

end Lists
end Hacp.Lib
