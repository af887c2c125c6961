import Hacp.Text

/-!
# JSON values

The value type of `serde_json` with `arbitrary_precision`: a number keeps the
decimal text it was written with. The parser gives every integer one text and
every object distinct keys; a number is therefore an integer or the text of one
written with a fraction or an exponent, and distinct keys are a predicate.
-/
namespace Hacp.V2

/-- `.`, `e` and `E` mark a number that was not written as an integer. -/
def isFractionMark (c : Char) : Bool := c == '.' || c == 'e' || c == 'E'

inductive Number where
  | integer (value : ℤ)
  | fractional (text : String) (marked : text.toList.any isFractionMark = true)
  deriving DecidableEq

/-- The decimal text a number prints as. -/
def Number.text : Number → String
  | .integer value => toString value
  | .fractional text _ => text

def Number.isInteger : Number → Bool
  | .integer _ => true
  | .fractional _ _ => false

inductive Json where
  | null
  | bool (b : Bool)
  | number (n : Number)
  | string (s : String)
  | array (items : List Json)
  | object (members : List (String × Json))

namespace Json

def get? (key : String) : Json → Option Json
  | .object members => members.lookup key
  | _ => none

def asStr : Json → Option String
  | .string s => some s
  | _ => none

def asArray : Json → Option (List Json)
  | .array items => some items
  | _ => none

def asObject : Json → Option (List (String × Json))
  | .object members => some members
  | _ => none

/-- The text of an integer parsed as `u64`; a text with a fraction mark never parses. -/
def asU64 : Json → Option UInt64
  | .number (.integer value) =>
    if 0 ≤ value ∧ value < 2 ^ 64 then some (UInt64.ofNat value.toNat) else none
  | _ => none

theorem asStr_eq_some {v : Json} {s : String} : v.asStr = some s ↔ v = .string s := by
  cases v <;> simp [asStr]

/-- A reader that undoes a writer reads a member that was written. -/
theorem bind_eq_some_write {α : Type} {read : Json → Option α} {write : α → Json}
    (h : ∀ v a, read v = some a ↔ v = write a) {value : Option Json} {a : α} :
    value.bind read = some a ↔ value = some (write a) := by
  cases value <;> simp [h]

mutual
/-- No number at any depth was written with a fraction or an exponent. -/
def integersOnly : Json → Bool
  | .number n => n.isInteger
  | .array items => integersOnlyItems items
  | .object members => integersOnlyMembers members
  | _ => true

def integersOnlyItems : List Json → Bool
  | [] => true
  | v :: vs => v.integersOnly && integersOnlyItems vs

def integersOnlyMembers : List (String × Json) → Bool
  | [] => true
  | (_, v) :: ms => v.integersOnly && integersOnlyMembers ms
end

mutual
/-- Objects have distinct keys at every depth, as the parser builds them. -/
def distinctKeys : Json → Prop
  | .array items => distinctKeysItems items
  | .object members => (members.map Prod.fst).Nodup ∧ distinctKeysMembers members
  | _ => True

def distinctKeysItems : List Json → Prop
  | [] => True
  | v :: vs => v.distinctKeys ∧ distinctKeysItems vs

def distinctKeysMembers : List (String × Json) → Prop
  | [] => True
  | (_, v) :: ms => v.distinctKeys ∧ distinctKeysMembers ms
end

mutual
/-- Equality up to the order of object members. Arrays stay ordered, strings compare by
their code points, integers by value. -/
def SameValue : Json → Json → Prop
  | .null, .null => True
  | .bool a, .bool b => a = b
  | .number m, .number n => m = n
  | .string s, .string t => s = t
  | .array xs, .array ys => SameItems xs ys
  | .object ms, .object ns => SameMembers ms ns
  | _, _ => False

def SameItems : List Json → List Json → Prop
  | [], [] => True
  | v :: vs, w :: ws => SameValue v w ∧ SameItems vs ws
  | _, _ => False

/-- Each member in turn has a partner of the same key and value on the other side. -/
def SameMembers : List (String × Json) → List (String × Json) → Prop
  | [], ns => ns = []
  | (k, v) :: ms, ns => ∃ w rest, ns.Perm ((k, w) :: rest) ∧ SameValue v w ∧ SameMembers ms rest
end

/-- The order of members by the bytes of their keys. -/
def keyLe {α : Type*} (p q : String × α) : Prop := byteLe p.1 q.1

instance {α : Type*} : DecidableRel (keyLe (α := α)) := fun p q =>
  inferInstanceAs (Decidable (byteLe p.1 q.1))

instance {α : Type*} : Std.Total (keyLe (α := α)) := ⟨fun p q => byteLe_total p.1 q.1⟩

instance {α : Type*} : IsTrans (String × α) keyLe := ⟨fun _ _ _ => byteLe_trans⟩

/-- `pairs.sort_by(|a, b| a.0.as_bytes().cmp(b.0.as_bytes()))`. -/
def sortMembers {α : Type*} (ms : List (String × α)) : List (String × α) :=
  ms.insertionSort keyLe

theorem sortMembers_perm {α : Type*} (ms : List (String × α)) : (sortMembers ms).Perm ms :=
  List.perm_insertionSort _ _

theorem sortMembers_sorted {α : Type*} (ms : List (String × α)) :
    (sortMembers ms).Pairwise keyLe :=
  List.pairwise_insertionSort _ _

theorem sortMembers_map {α β : Type*} (f : α → β) (ms : List (String × α)) :
    sortMembers (ms.map fun p => (p.1, f p.2)) = (sortMembers ms).map fun p => (p.1, f p.2) :=
  (List.map_insertionSort keyLe keyLe (fun p => (p.1, f p.2)) ms (fun _ _ _ _ => Iff.rfl)).symm

/-- With distinct keys the sorted list depends only on which members there are. -/
theorem sortMembers_eq_of_perm {α : Type*} {ms ns : List (String × α)}
    (hkeys : (ms.map Prod.fst).Nodup) (h : ms.Perm ns) : sortMembers ms = sortMembers ns := by
  apply List.Perm.eq_of_pairwise _ (sortMembers_sorted ms) (sortMembers_sorted ns)
  · exact (sortMembers_perm ms).trans (h.trans (sortMembers_perm ns).symm)
  · intro p q hp hq hpq hqp
    have hp' : p ∈ ms := (sortMembers_perm ms).mem_iff.mp hp
    have hq' : q ∈ ms := h.mem_iff.mpr ((sortMembers_perm ns).mem_iff.mp hq)
    exact List.inj_on_of_nodup_map hkeys hp' hq' (byteLe_antisymm hpq hqp)

mutual
/-- The value with the members of every object in key order. -/
def normalize : Json → Json
  | .array items => .array (normalizeItems items)
  | .object members => .object (sortMembers (normalizeMembers members))
  | v => v

def normalizeItems : List Json → List Json
  | [] => []
  | v :: vs => v.normalize :: normalizeItems vs

def normalizeMembers : List (String × Json) → List (String × Json)
  | [] => []
  | (k, v) :: ms => (k, v.normalize) :: normalizeMembers ms
end

theorem normalizeMembers_eq_map (ms : List (String × Json)) :
    normalizeMembers ms = ms.map fun p => (p.1, p.2.normalize) := by
  induction ms with
  | nil => rfl
  | cons p ms ih => simp only [normalizeMembers, ih, List.map_cons]

theorem integersOnlyItems_iff (vs : List Json) :
    integersOnlyItems vs = true ↔ ∀ v ∈ vs, v.integersOnly = true := by
  induction vs with
  | nil => simp [integersOnlyItems]
  | cons v vs ih => simp [integersOnlyItems, ih]

theorem integersOnlyMembers_iff (ms : List (String × Json)) :
    integersOnlyMembers ms = true ↔ ∀ p ∈ ms, p.2.integersOnly = true := by
  induction ms with
  | nil => simp [integersOnlyMembers]
  | cons p ms ih => simp [integersOnlyMembers, ih]

theorem distinctKeysMembers_iff (ms : List (String × Json)) :
    distinctKeysMembers ms ↔ ∀ p ∈ ms, p.2.distinctKeys := by
  induction ms with
  | nil => simp [distinctKeysMembers]
  | cons p ms ih => simp [distinctKeysMembers, ih]

end Json
end Hacp.V2
