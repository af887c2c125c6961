import Hacp.V1.Envelope

/-!
# The versions the gate lets through

A version is `HACP/`, a major, a dot and the digits of a minor. The minor is scanned for
digits. The major is not: it goes to the integer parser of the standard library, which
takes a plus sign and zeros in front of a number. The versions let through are those whose
major is the one of this build in any such spelling.
-/
namespace Hacp.V1
open Lib

namespace Urn

/-! ## Numbers as bytes -/

def digitByte (d : ℕ) : UInt8 := UInt8.ofNat (d + 48)

theorem digitByte_digitOf {b : UInt8} (h : isAsciiDigit b = true) : digitByte (digitOf b) = b := by
  rw [digitByte, digitOf, Nat.sub_add_cancel (digit_bounds h).1, UInt8.ofNat_toNat]

theorem isAsciiDigit_digitByte {d : ℕ} (h : d < 10) : isAsciiDigit (digitByte d) = true :=
  (isAsciiDigit_ofNat (by omega)).mpr (by omega)

theorem digitOf_digitByte {d : ℕ} (h : d < 10) : digitOf (digitByte d) = d := by
  have hbyte : d + 48 < UInt8.size := by
    rw [UInt8.size]
    omega
  rw [digitOf, digitByte, UInt8.toNat_ofNat_of_lt' hbyte, Nat.add_sub_cancel]

def numeral (n : ℕ) : Bytes := (Nat.digits 10 n).reverse.map digitByte

theorem digits_lt {n d : ℕ} (h : d ∈ (Nat.digits 10 n).reverse) : d < 10 :=
  Nat.digits_lt_base (by decide) (List.mem_reverse.mp h)

theorem isAsciiDigit_of_mem {n zeros : ℕ} {b : UInt8}
    (h : b ∈ List.replicate zeros 48 ++ numeral n) : isAsciiDigit b = true := by
  rcases List.mem_append.mp h with h | h
  · rw [List.eq_of_mem_replicate h]
    rfl
  · obtain ⟨d, hd, rfl⟩ := List.mem_map.mp h
    exact isAsciiDigit_digitByte (digits_lt hd)

theorem map_digitOf_numeral (n : ℕ) : (numeral n).map digitOf = (Nat.digits 10 n).reverse := by
  rw [numeral, List.map_map]
  exact (List.map_congr_left fun d hd => digitOf_digitByte (digits_lt hd)).trans (List.map_id _)

theorem reads_digits_iff {n : ℕ} {digits : Bytes} (hn : n < 256) :
    (∀ b ∈ digits, isAsciiDigit b = true) ∧ readDigits 256 0 (digits.map digitOf) = some n ↔
      ∃ zeros, digits = List.replicate zeros 48 ++ numeral n := by
  constructor
  · rintro ⟨hdigits, hread⟩
    have hlt : ∀ d ∈ digits.map digitOf, d < 10 := by
      intro d hd
      obtain ⟨b, hb, rfl⟩ := List.mem_map.mp hd
      have hbounds := digit_bounds (hdigits b hb)
      rw [digitOf]
      omega
    obtain ⟨zeros, hzeros⟩ := numeral_of_readDigits (by decide) hlt hread
    have hback : (digits.map digitOf).map digitByte = digits := by
      rw [List.map_map]
      exact (List.map_congr_left fun b hb => digitByte_digitOf (hdigits b hb)).trans (List.map_id _)
    refine ⟨zeros, ?_⟩
    rw [← hback, hzeros, List.map_append, List.map_replicate]
    rfl
  · rintro ⟨zeros, rfl⟩
    refine ⟨fun b hb => isAsciiDigit_of_mem hb, ?_⟩
    rw [List.map_append, List.map_replicate, map_digitOf_numeral]
    exact readDigits_numeral hn zeros

theorem withoutSign_iff {bytes digits : Bytes} (h : ∀ rest, digits ≠ 43 :: rest) :
    withoutSign bytes = digits ↔ bytes = digits ∨ bytes = 43 :: digits := by
  constructor
  · rintro rfl
    fun_cases withoutSign bytes with
    | case1 digits => exact .inr rfl
    | case2 digits hsign => exact .inl rfl
  · rintro (rfl | rfl)
    · fun_cases withoutSign bytes with
      | case1 digits => exact absurd rfl (h digits)
      | case2 digits hsign => rfl
    · rfl

/-- A text is read as `n` when it spells `n` out, with zeros or a plus sign in front or not. -/
theorem parseU8_eq_some {text : String} {n : ℕ} (hpos : 0 < n) (hn : n < 256) :
    parseU8 text = some n ↔ ∃ zeros, asBytes text = List.replicate zeros 48 ++ numeral n ∨
      asBytes text = 43 :: (List.replicate zeros 48 ++ numeral n) := by
  have hsign (zeros : ℕ) (rest : Bytes) : List.replicate zeros 48 ++ numeral n ≠ 43 :: rest := by
    intro h
    have hdigit := isAsciiDigit_of_mem (h ▸ List.mem_cons_self)
    exact absurd hdigit (by decide)
  have hread : parseU8 text = some n ↔ (∀ b ∈ withoutSign (asBytes text), isAsciiDigit b = true) ∧
      readDigits 256 0 ((withoutSign (asBytes text)).map digitOf) = some n := by
    unfold parseU8
    simp only [Option.ite_none_left_eq_some, not_or, Bool.not_eq_true', Bool.not_eq_false,
      List.all_eq_true]
    refine ⟨fun h => ⟨h.1.2, h.2⟩, fun h => ⟨⟨fun hempty => ?_, h.1⟩, h.2⟩⟩
    -- no digits are the number zero
    rw [hempty] at h
    exact hpos.ne (Option.some.inj h.2)
  rw [hread, reads_digits_iff hn]
  exact exists_congr fun zeros => withoutSign_iff (hsign zeros)

/-! ## The grammar -/

/-- One or more ASCII digits. -/
def IsMinor (text : String) : Prop := text ≠ "" ∧ ∀ c ∈ text.toList, c.isDigit = true

/-- `HACP/1.` and the digits of a minor. -/
def InGrammar (s : String) : Prop := ∃ minor, IsMinor minor ∧ s = "HACP/1." ++ minor

def zeroText (zeros : ℕ) : String := String.ofList (List.replicate zeros '0')

/-- The major of this build behind a sign, which may be empty, and zeros. -/
def spelled (sign : String) (zeros : ℕ) : String := sign ++ zeroText zeros ++ "1"

theorem asBytes_spelled (sign : String) (zeros : ℕ) :
    asBytes (spelled sign zeros) = asBytes sign ++ (List.replicate zeros 48 ++ numeral 1) := by
  have hzeros : asBytes (zeroText zeros) = List.replicate zeros 48 := by
    rw [asBytes, zeroText, String.toList_ofList]
    induction zeros with
    | zero => rfl
    | succ zeros ih =>
      rw [List.replicate_succ, List.flatMap_cons, ih, List.replicate_succ]
      rfl
  rw [spelled, asBytes_append, asBytes_append, hzeros, List.append_assoc]
  rfl

theorem parseU8_major {text : String} : parseU8 text = some protocolMajor ↔
    ∃ sign zeros, (sign = "" ∨ sign = "+") ∧ text = spelled sign zeros := by
  rw [parseU8_eq_some (by decide) (by decide), exists_comm]
  refine exists_congr fun zeros => ?_
  constructor
  · rintro (h | h)
    · refine ⟨"", .inl rfl, asBytes_injective ?_⟩
      rw [h, asBytes_spelled]
      rfl
    · refine ⟨"+", .inr rfl, asBytes_injective ?_⟩
      rw [h, asBytes_spelled]
      rfl
  · rintro ⟨sign, rfl | rfl, rfl⟩
    · rw [asBytes_spelled]
      exact .inl rfl
    · rw [asBytes_spelled]
      exact .inr rfl

/-- A plus sign or a zero stands in front of the major. -/
def SpelledAtLength (s : String) : Prop :=
  ∃ sign zeros minor, (sign = "" ∧ 0 < zeros ∨ sign = "+") ∧ IsMinor minor ∧
    s = "HACP/" ++ spelled sign zeros ++ "." ++ minor

theorem malformed_iff {minor : String} :
    (minor = "" ∨ (!(asBytes minor).all isAsciiDigit) = true) ↔ ¬IsMinor minor := by
  rw [IsMinor, ← digits_asBytes, not_and_or, not_not, Bool.not_eq_true', ← List.all_eq_true,
    Bool.not_eq_true]

theorem dot_not_mem_spelled {sign : String} (hsign : sign = "" ∨ sign = "+") (zeros : ℕ) :
    '.' ∉ (spelled sign zeros).toList := by
  rw [spelled, zeroText, String.toList_append, String.toList_append, String.toList_ofList]
  rcases hsign with rfl | rfl
  · simp
  · simp

theorem protocolSupported_iff {s : String} : protocolSupported s = true ↔
    ∃ sign zeros minor, (sign = "" ∨ sign = "+") ∧ IsMinor minor ∧
      s = "HACP/" ++ spelled sign zeros ++ "." ++ minor := by
  constructor
  · intro h
    unfold protocolSupported at h
    split at h
    · cases h
    · rename_i v hv
      split at h
      · cases h
      · rename_i major minor hsplit
        split_ifs at h with hminor
        rw [malformed_iff, not_not] at hminor
        obtain ⟨-, rfl⟩ := splitOnce_eq_some.mp hsplit
        have hmajor : parseU8 major = some protocolMajor := by
          simpa [Option.getD_eq_iff] using h
        obtain ⟨sign, zeros, hsign, rfl⟩ := parseU8_major.mp hmajor
        refine ⟨sign, zeros, minor, hsign, hminor, ?_⟩
        rw [stripPrefix_iff.mp hv, ← String.append_assoc, ← String.append_assoc]
        rfl
  · rintro ⟨sign, zeros, minor, hsign, hminor, rfl⟩
    have hv : stripPrefix "HACP/" ("HACP/" ++ spelled sign zeros ++ "." ++ minor) =
        some (spelled sign zeros ++ "." ++ minor) :=
      stripPrefix_iff.mpr (by simp only [String.append_assoc])
    have hsplit : splitOnce '.' (spelled sign zeros ++ "." ++ minor) =
        some (spelled sign zeros, minor) :=
      splitOnce_eq_some.mpr ⟨dot_not_mem_spelled hsign zeros, rfl⟩
    have hmajor : parseU8 (spelled sign zeros) = some protocolMajor :=
      parseU8_major.mpr ⟨sign, zeros, hsign, rfl⟩
    unfold protocolSupported
    simp only [hv, hsplit, hmajor, malformed_iff, hminor]
    simp

/-- The gate lets through the grammar and what is spelled at length. -/
theorem protocolSupported_cases {s : String} :
    protocolSupported s = true ↔ InGrammar s ∨ SpelledAtLength s := by
  rw [protocolSupported_iff]
  constructor
  · rintro ⟨sign, zeros, minor, rfl | rfl, hminor, rfl⟩
    · cases zeros with
      | zero => exact .inl ⟨minor, hminor, rfl⟩
      | succ zeros => exact .inr ⟨"", zeros + 1, minor, .inl ⟨rfl, zeros.succ_pos⟩, hminor, rfl⟩
    · exact .inr ⟨"+", zeros, minor, .inr rfl, hminor, rfl⟩
  · rintro (⟨minor, hminor, rfl⟩ | ⟨sign, zeros, minor, hsign, hminor, rfl⟩)
    · exact ⟨"", 0, minor, .inl rfl, hminor, rfl⟩
    · exact ⟨sign, zeros, minor, hsign.imp And.left id, hminor, rfl⟩

example : protocolSupported V1.protocol = true := by decide

theorem InGrammar.not_spelledAtLength {s : String} (h : InGrammar s) : ¬SpelledAtLength s := by
  obtain ⟨minor, -, rfl⟩ := h
  rintro ⟨sign, zeros, minor', hsign, -, heq⟩
  have hlist := congrArg String.toList heq
  simp only [spelled, zeroText, String.toList_append, String.toList_ofList] at hlist
  -- the character behind the slash is a one on the left, a plus sign or a zero on the right
  rcases hsign with ⟨rfl, hpos⟩ | rfl
  · obtain ⟨k, rfl⟩ : ∃ k, zeros = k + 1 := ⟨zeros - 1, by omega⟩
    simp [List.replicate_succ] at hlist
  · simp at hlist

/-- The gate follows the grammar except where the major is spelled at length. -/
theorem version_gate_grammar_iff (s : String) :
    (protocolSupported s = true ↔ InGrammar s) ↔ ¬SpelledAtLength s := by
  rw [protocolSupported_cases]
  constructor
  · rintro hiff hlong
    exact (hiff.mp (.inr hlong)).not_spelledAtLength hlong
  · intro hlong
    exact or_iff_left hlong

/-- A sign and a leading zero are let through. -/
theorem not_version_gate_grammar :
    ¬(protocolSupported "HACP/+1.0" = true ↔ InGrammar "HACP/+1.0") ∧
      ¬(protocolSupported "HACP/01.0" = true ↔ InGrammar "HACP/01.0") := by
  refine ⟨fun h => ?_, fun h => ?_⟩
  · obtain ⟨minor, -, heq⟩ := h.mp (by decide)
    simpa using congrArg String.toList heq
  · obtain ⟨minor, -, heq⟩ := h.mp (by decide)
    simpa using congrArg String.toList heq

end Urn

end Hacp.V1
