import Hacp.Lib.Calendar
import Mathlib.Data.Char
import Mathlib.Data.Nat.Digits.Defs

/-!
# Reading decimal numerals

A numeral is the digits of a number behind any number of zeros. A bounded reader takes
the digits one after the other and gives up when the number read so far is too large.
-/
namespace Hacp.Lib
variable {limit m n d : ℕ} {ds : List ℕ}

/-- Reads on from a number; no number on the way reaches `limit`. -/
def readDigits (limit : ℕ) : ℕ → List ℕ → Option ℕ
  | n, [] => some n
  | n, d :: ds => if n * 10 + d < limit then readDigits limit (n * 10 + d) ds else none

theorem readDigits_eq_some (hn : n < limit) :
    readDigits limit n ds = some m ↔ n * 10 ^ ds.length + decimal ds = m ∧ m < limit := by
  induction ds generalizing n with
  | nil =>
    rw [readDigits, Option.some.injEq, decimal, List.length_nil, pow_zero, mul_one, add_zero]
    exact ⟨fun h => ⟨h, h ▸ hn⟩, fun h => h.1⟩
  | cons d ds ih =>
    have hvalue : n * 10 ^ (d :: ds).length + decimal (d :: ds) =
        (n * 10 + d) * 10 ^ ds.length + decimal ds := by
      rw [decimal, List.length_cons]
      ring
    rw [readDigits, hvalue]
    split_ifs with hlt
    · exact ih hlt
    · -- the digits that follow do not make the number smaller
      have hle : n * 10 + d ≤ (n * 10 + d) * 10 ^ ds.length :=
        Nat.le_mul_of_pos_right _ (Nat.pow_pos (by decide))
      refine iff_of_false (by simp) ?_
      rintro ⟨rfl, hm⟩
      omega

theorem decimal_append {es : List ℕ} :
    decimal (ds ++ es) = decimal ds * 10 ^ es.length + decimal es := by
  induction ds with
  | nil => simp [decimal]
  | cons d ds ih =>
    rw [List.cons_append, decimal, ih, decimal, List.length_append]
    ring

theorem decimal_snoc : decimal (ds ++ [d]) = decimal ds * 10 + d := by
  rw [decimal_append]
  simp [decimal]

@[simp] theorem decimal_zeros (k : ℕ) : decimal (List.replicate k 0) = 0 := by
  induction k with
  | zero => rfl
  | succ k ih => rw [List.replicate_succ, decimal, ih, zero_mul]

/-- The digits that denote a number are its own digits behind zeros. -/
theorem exists_zeros (h : ∀ d ∈ ds, d < 10) :
    ∃ k, ds = List.replicate k 0 ++ (Nat.digits 10 (decimal ds)).reverse := by
  induction ds using List.reverseRecOn with
  | nil => exact ⟨0, by simp [decimal]⟩
  | append_singleton ds d ih =>
    rw [List.forall_mem_append, List.forall_mem_singleton] at h
    obtain ⟨k, hk⟩ := ih h.1
    by_cases hzero : d = 0 ∧ decimal ds = 0
    · obtain ⟨rfl, hds⟩ := hzero
      rw [hds, Nat.digits_zero, List.reverse_nil, List.append_nil] at hk
      refine ⟨k + 1, ?_⟩
      rw [decimal_snoc, hds, zero_mul, add_zero, Nat.digits_zero, List.reverse_nil,
        List.append_nil, List.replicate_succ', ← hk]
    · refine ⟨k, ?_⟩
      rw [decimal_snoc, Nat.add_comm, Nat.mul_comm,
        Nat.digits_add 10 (by decide) d _ h.2 (not_and_or.mp hzero), List.reverse_cons,
        ← List.append_assoc, ← hk]

theorem decimal_digits (n : ℕ) : decimal (Nat.digits 10 n).reverse = n := by
  induction n using Nat.strong_induction_on with
  | _ n ih =>
    by_cases hn : n = 0
    · rw [hn, Nat.digits_zero]
      rfl
    · rw [Nat.digits_def' (by decide) (Nat.pos_of_ne_zero hn), List.reverse_cons, decimal_snoc,
        ih (n / 10) (Nat.div_lt_self (Nat.pos_of_ne_zero hn) (by decide))]
      omega

/-- A reader with room for a number reads it from each of its numerals. -/
theorem readDigits_numeral (hn : n < limit) (k : ℕ) :
    readDigits limit 0 (List.replicate k 0 ++ (Nat.digits 10 n).reverse) = some n := by
  rw [readDigits_eq_some (Nat.zero_lt_of_lt hn), zero_mul, zero_add, decimal_append,
    decimal_zeros, zero_mul, zero_add, decimal_digits]
  exact ⟨rfl, hn⟩

theorem numeral_of_readDigits (hlimit : 0 < limit) (h : ∀ d ∈ ds, d < 10)
    (hread : readDigits limit 0 ds = some n) :
    ∃ k, ds = List.replicate k 0 ++ (Nat.digits 10 n).reverse := by
  rw [readDigits_eq_some hlimit, zero_mul, zero_add] at hread
  rw [← hread.1]
  exact exists_zeros h

/-! ## Digits as characters -/

theorem ofDigitChars_eq_decimal (cs : List Char) :
    Nat.ofDigitChars 10 cs 0 = decimal (cs.map fun c => c.toNat - 48) := by
  induction cs with
  | nil => rfl
  | cons c cs ih =>
    rw [Nat.ofDigitChars_cons, Nat.ofDigitChars_eq_ofDigitChars_zero, ih, List.map_cons, decimal,
      List.length_map]
    change 10 ^ cs.length * (10 * 0 + (c.toNat - 48)) + _ = _
    ring

/-- Digit strings of one length compare as the numbers they are read as. -/
theorem compare_digitChars {cs ds : List Char} (hlen : cs.length = ds.length)
    (hcs : ∀ c ∈ cs, c.isDigit = true) (hds : ∀ d ∈ ds, d.isDigit = true) :
    compare (Nat.ofDigitChars 10 cs 0) (Nat.ofDigitChars 10 ds 0) = compare cs ds := by
  have hbound {l : List Char} (hl : ∀ c ∈ l, c.isDigit = true) :
      ∀ n ∈ l.map (fun c => c.toNat - 48), n < 10 := by
    intro n hn
    obtain ⟨c, hc, rfl⟩ := List.mem_map.mp hn
    have hdigit := Char.isDigit_iff_toNat.mp (hl c hc)
    have h9 : '9'.toNat = 57 := rfl
    omega
  rw [ofDigitChars_eq_decimal, ofDigitChars_eq_decimal,
    compare_decimal (by simpa using hlen) (hbound hcs) (hbound hds)]
  refine compare_map fun c hc d hd => ?_
  have hc' := Char.isDigit_iff_toNat.mp (hcs c hc)
  have hd' := Char.isDigit_iff_toNat.mp (hds d hd)
  have h0 : '0'.toNat = 48 := rfl
  have hval (e : Char) : e.toNat = e.val.toNat := rfl
  refine compare_of_strictMono (f := fun e : Char => e.toNat - 48) (fun h => ?_) fun h => ?_
  · have hlt := UInt32.lt_iff_toNat_lt.mp (Char.lt_def.mp h)
    rw [← hval, ← hval] at hlt
    omega
  · have hlt := UInt32.lt_iff_toNat_lt.mp (Char.lt_def.mp h)
    rw [← hval, ← hval] at hlt
    omega

/-- Lists that compare as less are less. -/
theorem lt_of_compareLex {α : Type*} [LinearOrder α] {l m : List α}
    (h : List.compareLex compare l m = .lt) : l < m := by
  induction l generalizing m with
  | nil =>
    cases m with
    | nil => cases h
    | cons b m => exact List.nil_lt_cons b m
  | cons a l ih =>
    cases m with
    | nil => cases h
    | cons b m =>
      rw [List.compareLex_cons_cons, Ordering.then_eq_lt] at h
      rw [List.cons_lt_cons_iff]
      rcases h with hab | ⟨hab, hrest⟩
      · exact .inl (compare_lt_iff_lt.mp hab)
      · exact .inr ⟨compare_eq_iff_eq.mp hab, ih hrest⟩

theorem ofDigitChars_padded (k n : ℕ) :
    Nat.ofDigitChars 10 (List.replicate k '0' ++ Nat.toDigits 10 n) 0 = n := by
  rw [Nat.ofDigitChars_append, Nat.ofDigitChars_replicate_zero, mul_zero,
    Nat.ofDigitChars_ten_toDigits]

end Hacp.Lib
