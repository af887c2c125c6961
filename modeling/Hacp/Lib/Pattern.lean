import Mathlib.Computability.RegularExpressions
import Mathlib.Tactic

/-!
# Patterns of character classes

Regular expressions as patterns write them: literals, character classes and their
repetitions. A repeated class matches the words of its characters, and how often it is
repeated says how long they are.
-/
namespace Hacp.Lib
open RegularExpression Computability
variable {α : Type*} {cs x : List α}

def oneOf (cs : List α) : RegularExpression α := (cs.map char).sum

def literal (cs : List α) : RegularExpression α := (cs.map char).prod

def atLeast (n : ℕ) (P : RegularExpression α) : RegularExpression α := P ^ n * star P

theorem mem_oneOf : x ∈ (oneOf cs).matches' ↔ ∃ c ∈ cs, x = [c] := by
  induction cs with
  | nil => simp [oneOf, Language.notMem_zero]
  | cons d cs ih =>
    rw [oneOf] at ih ⊢
    rw [List.map_cons, List.sum_cons, matches'_add, Language.mem_add, ih, matches'_char,
      List.exists_mem_cons_iff]
    rfl

theorem mem_literal : x ∈ (literal cs).matches' ↔ x = cs := by
  induction cs generalizing x with
  | nil => exact Language.mem_one x
  | cons d cs ih =>
    rw [literal] at ih ⊢
    rw [List.map_cons, List.prod_cons, matches'_mul, Language.mem_mul]
    constructor
    · rintro ⟨a, rfl, b, hb, rfl⟩
      rw [ih.mp hb]
      rfl
    · rintro rfl
      exact ⟨[d], rfl, cs, ih.mpr rfl, rfl⟩

theorem mem_oneOf_pow {n : ℕ} :
    x ∈ (oneOf cs).matches' ^ n ↔ x.length = n ∧ ∀ c ∈ x, c ∈ cs := by
  induction n generalizing x with
  | zero =>
    rw [pow_zero, Language.mem_one, List.length_eq_zero_iff]
    constructor
    · rintro rfl
      simp
    · exact fun h => h.1
  | succ n ih =>
    rw [pow_succ', Language.mem_mul]
    constructor
    · rintro ⟨a, ha, b, hb, rfl⟩
      obtain ⟨c, hc, rfl⟩ := mem_oneOf.mp ha
      obtain ⟨hlen, hall⟩ := ih.mp hb
      exact ⟨by simp [hlen], List.forall_mem_cons.mpr ⟨hc, hall⟩⟩
    · rintro ⟨hlen, hall⟩
      cases x with
      | nil => simp at hlen
      | cons c x =>
        obtain ⟨hc, hall⟩ := List.forall_mem_cons.mp hall
        exact ⟨[c], mem_oneOf.mpr ⟨c, hc, rfl⟩, x, ih.mpr ⟨by simpa using hlen, hall⟩, rfl⟩

theorem mem_oneOf_star : x ∈ (oneOf cs).star.matches' ↔ ∀ c ∈ x, c ∈ cs := by
  rw [matches'_star, Language.kstar_eq_iSup_pow, Language.mem_iSup]
  simp only [mem_oneOf_pow]
  constructor
  · rintro ⟨n, -, hall⟩
    exact hall
  · exact fun hall => ⟨x.length, rfl, hall⟩

theorem mem_atLeast_pow {m n : ℕ} : x ∈ (atLeast n (oneOf cs ^ m)).matches' ↔
    m ∣ x.length ∧ m * n ≤ x.length ∧ ∀ c ∈ x, c ∈ cs := by
  rw [atLeast, matches'_mul, matches'_pow, matches'_star, matches'_pow, Language.kstar_eq_iSup_pow,
    Language.mem_mul]
  simp only [Language.mem_iSup, ← pow_mul, mem_oneOf_pow]
  constructor
  · rintro ⟨a, ⟨ha, hall⟩, b, ⟨k, hb, hall'⟩, rfl⟩
    rw [List.length_append, ha, hb, ← Nat.mul_add]
    refine ⟨Nat.dvd_mul_right m _, Nat.mul_le_mul_left m (Nat.le_add_right n k), ?_⟩
    exact List.forall_mem_append.mpr ⟨hall, hall'⟩
  · rintro ⟨⟨k, hk⟩, hle, hall⟩
    refine ⟨x.take (m * n), ⟨?_, ?_⟩, x.drop (m * n), ⟨k - n, ?_, ?_⟩, List.take_append_drop _ x⟩
    · rw [List.length_take, min_eq_left hle]
    · exact fun c hc => hall c (List.mem_of_mem_take hc)
    · rw [List.length_drop, hk, Nat.mul_sub]
    · exact fun c hc => hall c (List.mem_of_mem_drop hc)

def charRange (a b : Char) : List Char :=
  (List.range' a.toNat (b.toNat + 1 - a.toNat)).map Char.ofNat

/-- Below the surrogates the characters of a range are those in between. -/
theorem mem_charRange {a b c : Char} (hb : b.toNat < 0xD800) :
    c ∈ charRange a b ↔ a.toNat ≤ c.toNat ∧ c.toNat ≤ b.toNat := by
  simp only [charRange, List.mem_map, List.mem_range'_1]
  constructor
  · rintro ⟨n, ⟨hlo, hhi⟩, rfl⟩
    have hvalid : n.isValidChar := .inl (by omega)
    have hn : (Char.ofNat n).toNat = n := by
      rw [Char.ofNat, dif_pos hvalid]
      rfl
    omega
  · rintro ⟨hlo, hhi⟩
    exact ⟨c.toNat, by omega, Char.ofNat_toNat c⟩

end Hacp.Lib
