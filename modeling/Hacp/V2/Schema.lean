import Hacp.Lib.Lookup
import Hacp.Lib.Pattern
import Hacp.V2.Json

/-!
# JSON schemas

The keywords that the published schemas are written with. A schema is the set of values
it accepts. A keyword constrains the values of its own type and accepts all others;
`type` says which type a value has. Numbers are those written as integers.
-/
namespace Hacp.V2
open Lib

abbrev Schema := Json → Prop

namespace Schema

inductive JsonType where
  | object
  | string
  | integer
  deriving DecidableEq

def type (t : JsonType) : Schema
  | .object _ => t = .object
  | .string _ => t = .string
  | .number (.integer _) => t = .integer
  | _ => False

/-- The keywords of one schema hold together, and so do the parts of `allOf`. -/
def allOf (parts : List Schema) : Schema := fun v => ∀ s ∈ parts, s v

def const (w : Json) : Schema := fun v => Json.SameValue v w

def enum (ws : List Json) : Schema := fun v => ∃ w ∈ ws, Json.SameValue v w

/-- A pattern between `^` and `$` matches a string as a whole. -/
def pattern (r : RegularExpression Char) : Schema
  | .string s => s.toList ∈ r.matches'
  | _ => True

def minimum (bound : ℤ) : Schema
  | .number (.integer i) => bound ≤ i
  | _ => True

def maximum (bound : ℤ) : Schema
  | .number (.integer i) => i ≤ bound
  | _ => True

def format (test : String → Bool) : Schema
  | .string s => test s = true
  | _ => True

def properties (ps : List (String × Schema)) : Schema
  | .object members => ∀ p ∈ ps, ∀ v, members.lookup p.1 = some v → p.2 v
  | _ => True

/-- `"additionalProperties": false` beside properties of these names. -/
def noAdditionalProperties (names : List String) : Schema
  | .object members => ∀ m ∈ members, m.1 ∈ names
  | _ => True

def required (names : List String) : Schema
  | .object members => ∀ name ∈ names, ∃ v, members.lookup name = some v
  | _ => True

/-- `if` and `then`. -/
def ifThen (condition consequence : Schema) : Schema := fun v => condition v → consequence v

theorem sameValue_string {v : Json} {s : String} : Json.SameValue v (.string s) ↔ v = .string s := by
  cases v <;> simp [Json.SameValue]

theorem sameValue_integer {v : Json} {i : ℤ} :
    Json.SameValue v (.number (.integer i)) ↔ v = .number (.integer i) := by
  cases v <;> simp [Json.SameValue]

theorem type_string {v : Json} : type .string v ↔ ∃ s, v = .string s := by
  cases v with
  | number n => cases n <;> simp [type]
  | _ => simp [type]

theorem type_integer {v : Json} : type .integer v ↔ ∃ i, v = .number (.integer i) := by
  cases v with
  | number n => cases n <;> simp [type]
  | _ => simp [type]

theorem text_iff {r : RegularExpression Char} {v : Json} :
    type .string v ∧ pattern r v ↔ ∃ s, v = .string s ∧ s.toList ∈ r.matches' := by
  rw [type_string]
  constructor
  · rintro ⟨⟨s, rfl⟩, h⟩
    exact ⟨s, rfl, h⟩
  · rintro ⟨s, rfl, h⟩
    exact ⟨⟨s, rfl⟩, h⟩

theorem formatted_iff {test : String → Bool} {v : Json} :
    type .string v ∧ format test v ↔ ∃ s, v = .string s ∧ test s = true := by
  rw [type_string]
  constructor
  · rintro ⟨⟨s, rfl⟩, h⟩
    exact ⟨s, rfl, h⟩
  · rintro ⟨s, rfl, h⟩
    exact ⟨⟨s, rfl⟩, h⟩

theorem bounded_iff {lo hi : ℤ} {v : Json} : type .integer v ∧ minimum lo v ∧ maximum hi v ↔
    ∃ i, v = .number (.integer i) ∧ lo ≤ i ∧ i ≤ hi := by
  rw [type_integer]
  constructor
  · rintro ⟨⟨i, rfl⟩, h⟩
    exact ⟨i, rfl, h⟩
  · rintro ⟨i, rfl, h⟩
    exact ⟨⟨i, rfl⟩, h⟩

/-- What holds of a value that is there tells which value that is. -/
theorem optional_iff {α : Type} {write : α → Json} {P : α → Prop} {x : Option Json} :
    (∀ v, x = some v → ∃ a, v = write a ∧ P a) ↔
      ∃ o : Option α, x = o.map write ∧ ∀ a, o = some a → P a := by
  constructor
  · intro h
    cases x with
    | none => exact ⟨none, rfl, fun a ha => by cases ha⟩
    | some v =>
      obtain ⟨a, rfl, ha⟩ := h v rfl
      refine ⟨some a, rfl, fun b hb => ?_⟩
      rwa [← Option.some.inj hb]
  · rintro ⟨o, rfl, h⟩ v hv
    obtain ⟨a, ha, rfl⟩ := Option.map_eq_some_iff.mp hv
    exact ⟨a, rfl, h a ha⟩

end Schema
end Hacp.V2
