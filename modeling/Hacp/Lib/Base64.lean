import Mathlib.Tactic

/-!
# Padded base64

Three bytes are four letters of the alphabet; a last group of one or two bytes is
padded with `=`. Reading is strict: a text is accepted when it is the encoding of
the bytes it reads as, so the padding and the unused bits of the last letter are
those the encoder writes.
-/
namespace Hacp.Lib.Base64

/-- The letter of a number below 64. -/
def letter (n : ℕ) : Char :=
  Char.ofNat (if n < 26 then n + 65 else if n < 52 then n + 71 else if n < 62 then n - 4
    else if n = 62 then 43 else 47)

/-- The number of a letter; 0 for any other character. -/
def digit (c : Char) : ℕ :=
  if 'A' ≤ c ∧ c ≤ 'Z' then c.toNat - 65 else if 'a' ≤ c ∧ c ≤ 'z' then c.toNat - 71
  else if '0' ≤ c ∧ c ≤ '9' then c.toNat + 4 else if c = '+' then 62
  else if c = '/' then 63 else 0

theorem letter_spec : ∀ n < 64, digit (letter n) = n ∧ letter n ≠ '=' := by decide

theorem digit_letter {n : ℕ} (h : n < 64) : digit (letter n) = n := (letter_spec n h).1

theorem letter_ne_pad {n : ℕ} (h : n < 64) : letter n ≠ '=' := (letter_spec n h).2

def encodeChars : List UInt8 → List Char
  | [] => []
  | [a] => [letter (a.toNat / 4), letter (a.toNat % 4 * 16), '=', '=']
  | [a, b] => [letter (a.toNat / 4), letter (a.toNat % 4 * 16 + b.toNat / 16),
      letter (b.toNat % 16 * 4), '=']
  | a :: b :: c :: rest => letter (a.toNat / 4) :: letter (a.toNat % 4 * 16 + b.toNat / 16) ::
      letter (b.toNat % 16 * 4 + c.toNat / 64) :: letter (c.toNat % 64) :: encodeChars rest

def encode (bytes : List UInt8) : String := String.ofList (encodeChars bytes)

/-- The bytes of four letters: three, or as many as the padding leaves. -/
def readGroup (w x y z : Char) : List UInt8 :=
  [UInt8.ofNat (digit w * 4 + digit x / 16), UInt8.ofNat (digit x % 16 * 16 + digit y / 4),
    UInt8.ofNat (digit y % 4 * 64 + digit z)].take
      (if y = '=' then 1 else if z = '=' then 2 else 3)

def readChars : List Char → List UInt8
  | w :: x :: y :: z :: rest => readGroup w x y z ++ readChars rest
  | _ => []

def decode (s : String) : Option (List UInt8) :=
  if encodeChars (readChars s.toList) = s.toList then some (readChars s.toList) else none

theorem readChars_encodeChars (bytes : List UInt8) : readChars (encodeChars bytes) = bytes := by
  induction bytes using encodeChars.induct with
  | case1 => rfl
  | case2 a =>
    have ha := a.toNat_lt
    simp only [encodeChars, readChars, readGroup, if_true, List.take_succ_cons, List.take_zero,
      List.append_nil]
    rw [digit_letter (by omega), digit_letter (by omega)]
    have hval : a.toNat / 4 * 4 + a.toNat % 4 * 16 / 16 = a.toNat := by omega
    rw [hval, UInt8.ofNat_toNat]
  | case3 a b =>
    have ha := a.toNat_lt
    have hb := b.toNat_lt
    simp only [encodeChars, readChars, readGroup, if_true, List.append_nil]
    rw [if_neg (letter_ne_pad (by omega)), digit_letter (by omega), digit_letter (by omega),
      digit_letter (by omega)]
    have hfst : a.toNat / 4 * 4 + (a.toNat % 4 * 16 + b.toNat / 16) / 16 = a.toNat := by omega
    have hsnd : (a.toNat % 4 * 16 + b.toNat / 16) % 16 * 16 + b.toNat % 16 * 4 / 4 =
        b.toNat := by omega
    rw [hfst, hsnd, UInt8.ofNat_toNat, UInt8.ofNat_toNat]
    rfl
  | case4 a b c rest ih =>
    have ha := a.toNat_lt
    have hb := b.toNat_lt
    have hc := c.toNat_lt
    simp only [encodeChars, readChars, readGroup]
    rw [if_neg (letter_ne_pad (by omega)), if_neg (letter_ne_pad (by omega)),
      digit_letter (by omega), digit_letter (by omega), digit_letter (by omega),
      digit_letter (by omega), ih]
    have hfst : a.toNat / 4 * 4 + (a.toNat % 4 * 16 + b.toNat / 16) / 16 = a.toNat := by omega
    have hsnd : (a.toNat % 4 * 16 + b.toNat / 16) % 16 * 16 +
        (b.toNat % 16 * 4 + c.toNat / 64) / 4 = b.toNat := by omega
    have hthd : (b.toNat % 16 * 4 + c.toNat / 64) % 4 * 64 + c.toNat % 64 = c.toNat := by omega
    rw [hfst, hsnd, hthd, UInt8.ofNat_toNat, UInt8.ofNat_toNat, UInt8.ofNat_toNat]
    rfl

theorem decode_eq_some {s : String} {bytes : List UInt8} :
    decode s = some bytes ↔ s = encode bytes := by
  unfold decode
  constructor
  · intro h
    split_ifs at h with henc
    rw [← Option.some.inj h, encode, henc, String.ofList_toList]
  · intro h
    have hread : readChars s.toList = bytes := by
      rw [h, encode, String.toList_ofList, readChars_encodeChars]
    rw [hread, if_pos]
    rw [h, encode, String.toList_ofList]

/-- Four letters for every three bytes or part of three. -/
theorem length_encodeChars (bytes : List UInt8) :
    (encodeChars bytes).length = (bytes.length + 2) / 3 * 4 := by
  induction bytes using encodeChars.induct with
  | case1 => rfl
  | case2 a => simp [encodeChars]
  | case3 a b => simp [encodeChars]
  | case4 a b c rest ih =>
    simp only [encodeChars, List.length_cons, ih]
    omega

theorem length_utf8_of_mem {bytes : List UInt8} {c : Char} (hc : c ∈ encodeChars bytes) :
    (String.utf8EncodeChar c).length = 1 := by
  have hone : ∀ n < 64, (String.utf8EncodeChar (letter n)).length = 1 := by decide
  have hpad : (String.utf8EncodeChar '=').length = 1 := by decide
  induction bytes using encodeChars.induct with
  | case1 => cases hc
  | case2 a =>
    have ha := a.toNat_lt
    simp only [encodeChars, List.mem_cons, List.not_mem_nil, or_false] at hc
    rcases hc with rfl | rfl | rfl | rfl
    · exact hone _ (by omega)
    · exact hone _ (by omega)
    · exact hpad
    · exact hpad
  | case3 a b =>
    have ha := a.toNat_lt
    have hb := b.toNat_lt
    simp only [encodeChars, List.mem_cons, List.not_mem_nil, or_false] at hc
    rcases hc with rfl | rfl | rfl | rfl
    · exact hone _ (by omega)
    · exact hone _ (by omega)
    · exact hone _ (by omega)
    · exact hpad
  | case4 a b c rest ih =>
    have ha := a.toNat_lt
    have hb := b.toNat_lt
    have hc' := c.toNat_lt
    simp only [encodeChars, List.mem_cons] at hc
    rcases hc with rfl | rfl | rfl | rfl | hc
    · exact hone _ (by omega)
    · exact hone _ (by omega)
    · exact hone _ (by omega)
    · exact hone _ (by omega)
    · exact ih hc

end Hacp.Lib.Base64
