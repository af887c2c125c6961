import Mathlib.Tactic

/-!
# Writers that append

A writer takes the chunks written so far and appends its own, or fails. Whether it fails
and what it appends does not depend on what was there before: it follows a text when its
chunks read as that text, and it refuses when it fails on every output. Both pass to
writers run one after another.
-/
namespace Hacp.Lib

/-- A writer over an output of chunks. -/
def Appender (ε κ : Type*) := List κ → Except ε (List κ)

namespace Appender
variable {ε κ C : Type*}

def emit (chunk : κ) : Appender ε κ := fun out => .ok (out ++ [chunk])

def skip : Appender ε κ := fun out => .ok out

def andThen (first second : Appender ε κ) : Appender ε κ := fun out => do
  let out ← first out
  second out

/-- The writer appends chunks that read as `text` if it is to pass, and fails otherwise. -/
inductive Follows (read : κ → List C) (w : Appender ε κ) : Bool → List C → Prop where
  | writes {text : List C} (chunks : List κ) (h : ∀ out, w out = .ok (out ++ chunks))
      (htext : chunks.flatMap read = text) : Follows read w true text
  | refuses {text : List C} (h : ∀ out, ∃ e, w out = .error e) : Follows read w false text

namespace Follows
variable {read : κ → List C} {first second : Appender ε κ} {a b : Bool} {s t : List C}

theorem emit (chunk : κ) : Follows read (emit chunk : Appender ε κ) true (read chunk) :=
  .writes [chunk] (fun _ => rfl) (by simp)

theorem skip : Follows read (skip : Appender ε κ) true [] :=
  .writes [] (fun out => by simp [Appender.skip]) rfl

theorem andThen (hfirst : Follows read first a s) (hsecond : Follows read second b t) :
    Follows read (first.andThen second) (a && b) (s ++ t) := by
  cases hfirst with
  | refuses h =>
    refine .refuses fun out => ?_
    obtain ⟨e, he⟩ := h out
    exact ⟨e, by rw [Appender.andThen, he]; rfl⟩
  | writes chunks h htext =>
    cases hsecond with
    | refuses h' =>
      refine .refuses fun out => ?_
      obtain ⟨e, he⟩ := h' (out ++ chunks)
      exact ⟨e, by rw [Appender.andThen, h]; exact he⟩
    | writes chunks' h' htext' =>
      refine .writes (chunks ++ chunks') (fun out => ?_) ?_
      · rw [Appender.andThen, h, ← List.append_assoc]
        exact h' (out ++ chunks)
      · rw [List.flatMap_append, htext, htext']

theorem congr (h : Follows read first a s) (hab : a = b) (hst : s = t) :
    Follows read first b t := hab ▸ hst ▸ h

end Follows

def separated (sep : C) (i : ℕ) (texts : List (List C)) : List C :=
  if i = 0 then [sep].intercalate texts else texts.flatMap (sep :: ·)

theorem separated_nil (sep : C) (i : ℕ) : separated sep i [] = [] := by
  unfold separated
  split_ifs <;> rfl

theorem separated_cons (sep : C) (i : ℕ) (text : List C) (texts : List (List C)) :
    separated sep i (text :: texts) =
      (if i = 0 then [] else [sep]) ++ text ++ separated sep (i + 1) texts := by
  have hrest (text : List C) (texts : List (List C)) :
      [sep].intercalate (text :: texts) = text ++ texts.flatMap (sep :: ·) := by
    induction texts generalizing text with
    | nil => simp [List.intercalate]
    | cons next texts ih =>
      rw [List.flatMap_cons, List.cons_append, ← ih next]
      simp [List.intercalate]
  unfold separated
  by_cases hi : i = 0
  · simp [hi, hrest]
  · simp [hi]

end Appender
end Hacp.Lib
