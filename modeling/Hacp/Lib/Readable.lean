import Mathlib.Data.List.Flatten
import Mathlib.Tactic

/-!
# Encodings that can be read back

An encoding is readable at a value when the value and the text that follows can
both be recovered from the concatenation, whatever valid value the other side
encodes. The combinators cover runs of a character class, escaped strings with a
closing quote, pairs, and separated lists with a closing bracket.
-/
namespace Hacp.Lib
variable {α β C : Type*}

/-- `P` says which values may stand on the other side, `D` which texts may follow. -/
def ReadsBack (enc : α → List C) (P : α → Prop) (D : List C → Prop) (a : α) : Prop :=
  ∀ ⦃b : α⦄ ⦃r s : List C⦄, P b → D r → D s → enc a ++ r = enc b ++ s → a = b ∧ r = s

/-- No code word is a proper prefix of another, whatever follows. -/
def PrefixFree (code : α → List C) : Prop :=
  ∀ ⦃a b : α⦄ ⦃r s : List C⦄, code a ++ r = code b ++ s → a = b ∧ r = s

/-- A run of `p`-characters ends where the first other character stands. -/
theorem run_append_inj {p : C → Bool} {a b r s : List C} (ha : ∀ c ∈ a, p c)
    (hb : ∀ c ∈ b, p c) (hr : ∀ c ∈ r.head?, p c = false) (hs : ∀ c ∈ s.head?, p c = false)
    (h : a ++ r = b ++ s) : a = b ∧ r = s := by
  induction a generalizing b with
  | nil =>
    cases b with
    | nil => exact ⟨rfl, h⟩
    | cons c b =>
      have hc := hr c (by rw [List.nil_append] at h; simp [h])
      simp [hb c List.mem_cons_self] at hc
  | cons c a ih =>
    cases b with
    | nil =>
      have hc := hs c (by rw [List.nil_append] at h; simp [← h])
      simp [ha c List.mem_cons_self] at hc
    | cons d b =>
      obtain ⟨rfl, hrest⟩ := List.cons.inj h
      obtain ⟨rfl, rfl⟩ := ih (fun x hx => ha x (List.mem_cons_of_mem _ hx))
        (fun x hx => hb x (List.mem_cons_of_mem _ hx)) hrest
      exact ⟨rfl, rfl⟩

/-- A string of prefix-free code words followed by a terminator no code word starts with. -/
theorem flatMap_terminated {code : α → List C} (hcode : PrefixFree code) {t : C}
    (ht : ∀ a r s, code a ++ r ≠ t :: s) {xs ys : List α} {r s : List C}
    (h : xs.flatMap code ++ t :: r = ys.flatMap code ++ t :: s) : xs = ys ∧ r = s := by
  induction xs generalizing ys with
  | nil =>
    cases ys with
    | nil => simpa using h
    | cons y ys => exact absurd (by simpa using h.symm) (ht y (ys.flatMap code ++ t :: s) r)
  | cons x xs ih =>
    cases ys with
    | nil => exact absurd (by simpa using h) (ht x (xs.flatMap code ++ t :: r) s)
    | cons y ys =>
      simp only [List.flatMap_cons, List.append_assoc] at h
      obtain ⟨rfl, hrest⟩ := hcode h
      obtain ⟨rfl, rfl⟩ := ih hrest
      exact ⟨rfl, rfl⟩

/-- Two strings of prefix-free code words that agree as texts with tails agree as far
as the shorter one goes. -/
theorem flatMap_comparable {code : α → List C} (hcode : PrefixFree code) {xs ys : List α}
    {r s : List C} (h : xs.flatMap code ++ r = ys.flatMap code ++ s) :
    (∃ zs, ys = xs ++ zs ∧ r = zs.flatMap code ++ s) ∨
      (∃ zs, xs = ys ++ zs ∧ s = zs.flatMap code ++ r) := by
  induction xs generalizing ys with
  | nil => exact .inl ⟨ys, rfl, h⟩
  | cons x xs ih =>
    cases ys with
    | nil => exact .inr ⟨x :: xs, rfl, h.symm⟩
    | cons y ys =>
      simp only [List.flatMap_cons, List.append_assoc] at h
      obtain ⟨rfl, hrest⟩ := hcode h
      rcases ih hrest with ⟨zs, rfl, hr⟩ | ⟨zs, rfl, hs⟩
      · exact .inl ⟨zs, rfl, hr⟩
      · exact .inr ⟨zs, rfl, hs⟩

def pairText (f : α → List C) (sep : C) (g : β → List C) (p : α × β) : List C :=
  f p.1 ++ sep :: g p.2

theorem pairText_readsBack {f : α → List C} {sep : C} {g : β → List C} {P : β → Prop}
    {D : List C → Prop} {p : α × β}
    (hf : ∀ a, ReadsBack f (fun _ => True) (fun _ => True) a) (hg : ReadsBack g P D p.2) :
    ReadsBack (pairText f sep g) (fun q => P q.2) D p := by
  intro q r s hq hr hs h
  simp only [pairText, List.append_assoc, List.cons_append] at h
  obtain ⟨hfst, hrest⟩ := hf p.1 trivial trivial trivial h
  obtain ⟨hsnd, hrs⟩ := hg hq hr hs (List.cons.inj hrest).2
  exact ⟨Prod.ext hfst hsnd, hrs⟩

/-- The rest of a separated list, from the separator or the closing mark on. -/
def listTail (enc : α → List C) (sep close : C) : List α → List C
  | [] => [close]
  | x :: xs => sep :: enc x ++ listTail enc sep close xs

def listText (enc : α → List C) (sep close : C) : List α → List C
  | [] => [close]
  | x :: xs => enc x ++ listTail enc sep close xs

theorem listTail_eq_intercalate (enc : α → List C) (sep close : C) (x : α) (xs : List α) :
    enc x ++ listTail enc sep close xs =
      [sep].intercalate ((x :: xs).map enc) ++ [close] := by
  induction xs generalizing x with
  | nil => simp [listTail, List.intercalate]
  | cons y xs ih =>
    have hy := ih y
    simp only [List.intercalate, List.map_cons, List.intersperse_cons_cons, List.flatten_cons,
      List.append_assoc] at hy ⊢
    simp only [listTail, List.cons_append]
    rw [hy]
    simp

theorem listText_eq_intercalate (enc : α → List C) (sep close : C) (xs : List α) :
    listText enc sep close xs = [sep].intercalate (xs.map enc) ++ [close] := by
  cases xs with
  | nil => simp [listText, List.intercalate]
  | cons x xs => exact listTail_eq_intercalate enc sep close x xs

section Lists
variable {enc : α → List C} {P : α → Prop} {D : List C → Prop} {sep close : C}

theorem listTail_head (hsep : ∀ r, D (sep :: r)) (hclose : ∀ r, D (close :: r))
    (xs : List α) (r : List C) : D (listTail enc sep close xs ++ r) := by
  cases xs with
  | nil => exact hclose r
  | cons x xs => exact hsep _

theorem listTail_readsBack (hsep : ∀ r, D (sep :: r)) (hclose : ∀ r, D (close :: r))
    (hne : sep ≠ close) {xs : List α} (hxs : ∀ x ∈ xs, ReadsBack enc P D x) :
    ReadsBack (listTail enc sep close) (fun ys => ∀ y ∈ ys, P y) (fun _ => True) xs := by
  intro ys r s hys _ _ h
  induction xs generalizing ys with
  | nil =>
    cases ys with
    | nil => simpa [listTail] using h
    | cons y ys => exact absurd (List.cons.inj h).1.symm hne
  | cons x xs ih =>
    cases ys with
    | nil => exact absurd (List.cons.inj h).1 hne
    | cons y ys =>
      simp only [listTail, List.cons_append, List.append_assoc] at h
      obtain ⟨rfl, hrest⟩ := hxs x List.mem_cons_self (hys y List.mem_cons_self)
        (listTail_head hsep hclose xs r) (listTail_head hsep hclose ys s) (List.cons.inj h).2
      obtain ⟨rfl, rfl⟩ := ih (fun z hz => hxs z (List.mem_cons_of_mem _ hz))
        (fun z hz => hys z (List.mem_cons_of_mem _ hz)) hrest
      exact ⟨rfl, rfl⟩

theorem listText_readsBack (hsep : ∀ r, D (sep :: r)) (hclose : ∀ r, D (close :: r))
    (hne : sep ≠ close) (hhead : ∀ x r s, P x → enc x ++ r ≠ close :: s)
    {xs : List α} (hP : ∀ x ∈ xs, P x) (hxs : ∀ x ∈ xs, ReadsBack enc P D x) :
    ReadsBack (listText enc sep close) (fun ys => ∀ y ∈ ys, P y) (fun _ => True) xs := by
  intro ys r s hys _ _ h
  cases xs with
  | nil =>
    cases ys with
    | nil => simpa [listText] using h
    | cons y ys =>
      simp only [listText, List.append_assoc, List.cons_append, List.nil_append] at h
      exact absurd h.symm (hhead y _ _ (hys y List.mem_cons_self))
  | cons x xs =>
    cases ys with
    | nil =>
      simp only [listText, List.append_assoc, List.cons_append, List.nil_append] at h
      exact absurd h (hhead x _ _ (hP x List.mem_cons_self))
    | cons y ys =>
      simp only [listText, List.append_assoc] at h
      obtain ⟨rfl, hrest⟩ := hxs x List.mem_cons_self (hys y List.mem_cons_self)
        (listTail_head hsep hclose xs r) (listTail_head hsep hclose ys s) h
      obtain ⟨rfl, rfl⟩ := listTail_readsBack hsep hclose hne
        (fun z hz => hxs z (List.mem_cons_of_mem _ hz))
        (fun z hz => hys z (List.mem_cons_of_mem _ hz)) trivial trivial hrest
      exact ⟨rfl, rfl⟩

end Lists
end Hacp.Lib
