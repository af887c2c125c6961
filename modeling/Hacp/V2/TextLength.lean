import Hacp.V2.CanonicalForm

/-!
# How long a text is

The text of a JSON value is at most as long as a count over the value says: at most six signs
for a character, and at most four bytes for a sign. The order of the members does not matter.
-/
namespace Hacp.V2
open Lib

namespace Json

mutual
/-- A bound on the text of a value: at most six signs are written for a character. -/
def span : Json → ℕ
  | .null => 4
  | .bool _ => 5
  | .number n => n.text.length
  | .string s => 6 * s.length + 2
  | .array items => spanItems items + 2
  | .object members => spanMembers members + 2

def spanItems : List Json → ℕ
  | [] => 0
  | item :: items => item.span + 1 + spanItems items

def spanMembers : List (String × Json) → ℕ
  | [] => 0
  | (key, item) :: members => 6 * key.length + 4 + item.span + spanMembers members
end

end Json

theorem length_writeString_le (s : String) : (writeString s).length ≤ 6 * s.length + 2 := by
  have hescape (c : Char) : (escapeChar c).length ≤ 6 := by
    unfold escapeChar
    split_ifs <;> simp [controlEscape]
  have hchars (cs : List Char) : (cs.flatMap escapeChar).length ≤ 6 * cs.length := by
    induction cs with
    | nil => exact Nat.le_refl 0
    | cons c cs ih =>
      have hc := hescape c
      rw [List.flatMap_cons, List.length_append, List.length_cons]
      omega
  have hs := hchars s.toList
  rw [writeString, List.length_cons, List.length_append, List.length_singleton]
  rw [String.length_toList] at hs
  omega

theorem length_intercalate_le (texts : List (List Char)) :
    ([','].intercalate texts).length ≤ (texts.map fun t => t.length + 1).sum := by
  induction texts with
  | nil => exact Nat.le_refl 0
  | cons t texts ih =>
    cases texts with
    | nil => simp
    | cons u texts =>
      rw [List.intercalate_cons_cons, List.map_cons, List.sum_cons]
      simp only [List.length_append, List.length_singleton]
      omega

mutual
theorem length_plainText_le : (v : Json) → (plainText v).length ≤ v.span
  | .null => Nat.le_refl 4
  | .bool true => by decide
  | .bool false => by decide
  | .number n => Nat.le_of_eq String.length_toList
  | .string s => length_writeString_le s
  | .array items => by
    have hitems := (length_intercalate_le _).trans (length_plainTexts_le items)
    rw [plainText, Json.span]
    simp only [List.cons_append, List.length_cons, List.length_append, List.length_nil]
    omega
  | .object members => by
    have hmembers := (length_intercalate_le _).trans (length_plainPairs_le members)
    rw [plainText, Json.span]
    simp only [List.cons_append, List.length_cons, List.length_append, List.length_nil]
    omega

theorem length_plainTexts_le : (items : List Json) →
    ((plainTexts items).map fun t => t.length + 1).sum ≤ Json.spanItems items
  | [] => Nat.le_refl 0
  | item :: items => by
    have hitem := length_plainText_le item
    have hitems := length_plainTexts_le items
    rw [plainTexts, Json.spanItems, List.map_cons, List.sum_cons]
    omega

theorem length_plainPairs_le : (members : List (String × Json)) →
    ((plainPairs members).map fun t => t.length + 1).sum ≤ Json.spanMembers members
  | [] => Nat.le_refl 0
  | (key, item) :: members => by
    have hkey := length_writeString_le key
    have hitem := length_plainText_le item
    have hmembers := length_plainPairs_le members
    rw [plainPairs, Json.spanMembers, List.map_cons, List.sum_cons]
    simp only [List.length_append, List.length_cons]
    omega
end

theorem length_asBytes_ofList_le (cs : List Char) :
    (asBytes (String.ofList cs)).length ≤ 4 * cs.length := by
  rw [asBytes, String.toList_ofList]
  induction cs with
  | nil => exact Nat.le_refl 0
  | cons c cs ih =>
    have hc : (String.utf8EncodeChar c).length ≤ 4 := by
      rw [String.length_utf8EncodeChar]
      exact c.utf8Size_le_four
    rw [List.flatMap_cons, List.length_append, List.length_cons]
    omega

theorem span_integer_le (n : UInt64) : (Json.number (.integer n.toNat)).span ≤ 20 := by
  have hlt : n.toNat < 10 ^ 20 := n.toNat_lt.trans (by norm_num)
  have hdigits := (Nat.length_toDigits_le_iff (b := 10) (by omega) (by omega)).mpr hlt
  have htext := integer_text_toList (n.toNat : ℤ)
  rw [if_neg (Int.not_lt.mpr (Int.natCast_nonneg _))] at htext
  rw [Json.span, ← String.length_toList, htext]
  exact hdigits

/-! ## The canonical text -/

theorem spanMembers_eq_sum (members : List (String × Json)) :
    Json.spanMembers members = (members.map fun p => 6 * p.1.length + 4 + p.2.span).sum := by
  induction members with
  | nil => rfl
  | cons p members ih => rw [Json.spanMembers, ih, List.map_cons, List.sum_cons]

mutual
theorem span_normalize : (v : Json) → v.normalize.span = v.span
  | .null | .bool _ | .number _ | .string _ => rfl
  | .array items => by rw [Json.normalize, Json.span, Json.span, spanItems_normalize items]
  | .object members => by
    have hsorted := ((Json.sortMembers_perm (Json.normalizeMembers members)).map
      fun p => 6 * p.1.length + 4 + p.2.span).sum_eq
    rw [← spanMembers_eq_sum, ← spanMembers_eq_sum] at hsorted
    rw [Json.normalize, Json.span, Json.span, hsorted, spanMembers_normalize members]

theorem spanItems_normalize : (items : List Json) →
    Json.spanItems (Json.normalizeItems items) = Json.spanItems items
  | [] => rfl
  | item :: items => by
    rw [Json.normalizeItems, Json.spanItems, Json.spanItems, span_normalize item,
      spanItems_normalize items]

theorem spanMembers_normalize : (members : List (String × Json)) →
    Json.spanMembers (Json.normalizeMembers members) = Json.spanMembers members
  | [] => rfl
  | (_, item) :: members => by
    rw [Json.normalizeMembers, Json.spanMembers, Json.spanMembers, span_normalize item,
      spanMembers_normalize members]
end

theorem length_canonicalJson_le {v : Json} {text : String} (h : canonicalJson v = .ok text) :
    (asBytes text).length ≤ 4 * v.span := by
  rw [canonicalJson_ok ((canonicalJson_isOk_iff v).mp ⟨text, h⟩)] at h
  obtain rfl := Except.ok.inj h
  have hbytes := length_asBytes_ofList_le (plainText v.normalize)
  have htext := length_plainText_le v.normalize
  rw [span_normalize] at htext
  omega

end Hacp.V2
