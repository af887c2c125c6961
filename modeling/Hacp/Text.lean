import Hacp.Lib.Readable
import Mathlib.Data.List.Sort
import Mathlib.Data.List.TakeWhile

/-!
# Strings as the source handles them

A source string is a sequence of Unicode scalar values, as a Lean string is.
What the source compares, hashes and signs are the UTF-8 bytes of a string; the
byte order of keys and the hexadecimal text of a byte string are defined here.
-/
namespace Hacp
open Lib

abbrev Bytes := List UInt8

/-- The UTF-8 bytes of a string. -/
def asBytes (s : String) : Bytes := s.toList.flatMap String.utf8EncodeChar

theorem utf8_prefixFree : PrefixFree String.utf8EncodeChar := by
  intro c d r s h
  have hc := ByteArray.utf8DecodeChar?_utf8EncodeChar_append (b := r.toByteArray) (c := c)
  have hd := ByteArray.utf8DecodeChar?_utf8EncodeChar_append (b := s.toByteArray) (c := d)
  rw [← List.toByteArray_append, h, List.toByteArray_append, hd] at hc
  obtain rfl := Option.some.inj hc
  exact ⟨rfl, List.append_cancel_left h⟩

theorem asBytes_injective : Function.Injective asBytes := by
  intro s t h
  have hcmp := flatMap_comparable utf8_prefixFree (r := []) (s := [])
    (by simpa only [List.append_nil, asBytes] using h)
  have hnil (cs : List Char) (hcs : [] = cs.flatMap String.utf8EncodeChar ++ []) : cs = [] := by
    cases cs with
    | nil => rfl
    | cons c cs => simp [String.utf8EncodeChar_ne_nil] at hcs
  apply String.toList_inj.mp
  rcases hcmp with ⟨zs, hzs, hr⟩ | ⟨zs, hzs, hr⟩
  · rw [hzs, hnil zs hr, List.append_nil]
  · rw [hzs, hnil zs hr, List.append_nil]

theorem asBytes_append (s t : String) : asBytes (s ++ t) = asBytes s ++ asBytes t := by
  simp [asBytes, String.toList_append]

/-- A character takes one to four bytes. -/
theorem length_toList_le_asBytes (s : String) : s.toList.length ≤ (asBytes s).length := by
  rw [asBytes, List.length_flatMap]
  have hone : ∀ n ∈ s.toList.map fun c => (String.utf8EncodeChar c).length, 1 ≤ n :=
    List.forall_mem_map.mpr fun c _ => by
      rw [String.length_utf8EncodeChar]
      exact c.utf8Size_pos
  simpa using List.length_le_sum_of_one_le _ hone

theorem length_asBytes_le (s : String) : (asBytes s).length ≤ 4 * s.toList.length := by
  rw [asBytes, List.length_flatMap]
  have hfour : ∀ n ∈ s.toList.map fun c => (String.utf8EncodeChar c).length, n ≤ 4 :=
    List.forall_mem_map.mpr fun c _ => by
      rw [String.length_utf8EncodeChar]
      exact c.utf8Size_le_four
  have hsum := List.sum_le_card_nsmul _ 4 hfour
  rwa [List.length_map, smul_eq_mul, Nat.mul_comm] at hsum

/-- Byte-wise order of strings, the order of `as_bytes().cmp`. -/
def byteLe (a b : String) : Prop := (compare (asBytes a) (asBytes b)).isLE = true

instance : DecidableRel byteLe := fun a b =>
  inferInstanceAs (Decidable ((compare (asBytes a) (asBytes b)).isLE = true))

theorem byteLe_refl (a : String) : byteLe a a := by
  unfold byteLe
  rw [Std.ReflOrd.compare_self]
  rfl

theorem byteLe_trans {a b c : String} (hab : byteLe a b) (hbc : byteLe b c) : byteLe a c :=
  Std.TransCmp.isLE_trans hab hbc

theorem byteLe_antisymm {a b : String} (hab : byteLe a b) (hba : byteLe b a) : a = b :=
  asBytes_injective (Std.LawfulEqOrd.eq_of_compare (Std.OrientedCmp.isLE_antisymm hab hba))

theorem byteLe_total (a b : String) : byteLe a b ∨ byteLe b a := by
  unfold byteLe
  rw [Std.OrientedOrd.eq_swap (a := asBytes b) (b := asBytes a)]
  cases compare (asBytes a) (asBytes b) <;> simp

/-- `str::strip_prefix`. -/
def stripPrefix (pre s : String) : Option String :=
  if pre.toList.isPrefixOf s.toList then some (String.ofList (s.toList.drop pre.toList.length))
  else none

theorem stripPrefix_append (pre s : String) : stripPrefix pre (pre ++ s) = some s := by
  simp [stripPrefix, String.toList_append]

theorem stripPrefix_eq_some {pre s t : String} :
    stripPrefix pre s = some t ↔ s.toList = pre.toList ++ t.toList := by
  constructor
  · intro h
    unfold stripPrefix at h
    split_ifs at h with hpre
    obtain ⟨r, hr⟩ := List.isPrefixOf_iff_prefix.mp hpre
    rw [← Option.some.inj h, ← hr, List.drop_left, String.toList_ofList]
  · intro h
    rw [← String.toList_append] at h
    rw [String.toList_inj.mp h, stripPrefix_append]

theorem stripPrefix_iff {pre s t : String} : stripPrefix pre s = some t ↔ s = pre ++ t := by
  rw [stripPrefix_eq_some, ← String.toList_append, String.toList_inj]

/-- `str::split_once`. -/
def splitOnce (sep : Char) (text : String) : Option (String × String) :=
  match text.toList.dropWhile (· != sep) with
  | [] => none
  | _ :: after => some (String.ofList (text.toList.takeWhile (· != sep)), String.ofList after)

theorem splitOnce_append {sep : Char} {before after : String} (h : sep ∉ before.toList) :
    splitOnce sep (before ++ String.singleton sep ++ after) = some (before, after) := by
  have hall : ∀ c ∈ before.toList, (c != sep) = true := by
    intro c hc
    rw [bne_iff_ne]
    rintro rfl
    exact h hc
  unfold splitOnce
  rw [String.toList_append, String.toList_append, String.toList_singleton, List.append_assoc,
    List.dropWhile_append_of_pos hall, List.takeWhile_append_of_pos hall]
  simp

theorem splitOnce_eq_some {sep : Char} {text before after : String} :
    splitOnce sep text = some (before, after) ↔
      sep ∉ before.toList ∧ text = before ++ String.singleton sep ++ after := by
  constructor
  · intro h
    unfold splitOnce at h
    split at h
    · cases h
    · rename_i c rest hdrop
      obtain ⟨rfl, rfl⟩ := Prod.mk.inj (Option.some.inj h)
      obtain rfl : c = sep := by
        have hhead := List.head?_dropWhile_not (· != sep) text.toList
        simpa [hdrop] using hhead
      refine ⟨?_, ?_⟩
      · rw [String.toList_ofList]
        intro hmem
        simpa using List.mem_takeWhile_imp hmem
      · rw [← String.toList_inj, String.toList_append, String.toList_append, String.toList_ofList,
          String.toList_ofList, String.toList_singleton, List.append_assoc,
          List.singleton_append, ← hdrop,
          List.takeWhile_append_dropWhile]
  · rintro ⟨hsep, rfl⟩
    exact splitOnce_append hsep

/-- `str::rsplit_once`. -/
def rsplitOnce (sep : Char) (text : String) : Option (String × String) :=
  (splitOnce sep (String.ofList text.toList.reverse)).map fun p =>
    (String.ofList p.2.toList.reverse, String.ofList p.1.toList.reverse)

theorem rsplitOnce_eq_some {sep : Char} {text before after : String} :
    rsplitOnce sep text = some (before, after) ↔
      sep ∉ after.toList ∧ text = before ++ String.singleton sep ++ after := by
  unfold rsplitOnce
  simp only [Option.map_eq_some_iff, Prod.exists, splitOnce_eq_some, Prod.mk.injEq]
  constructor
  · rintro ⟨front, back, ⟨hsep, htext⟩, rfl, rfl⟩
    refine ⟨by simpa using hsep, ?_⟩
    have hrev := congrArg (fun s => s.toList.reverse) htext
    rw [← String.toList_inj]
    simpa [String.toList_append] using hrev
  · rintro ⟨hsep, rfl⟩
    refine ⟨String.ofList after.toList.reverse, String.ofList before.toList.reverse, ⟨?_, ?_⟩,
      ?_, ?_⟩
    · simpa using hsep
    · rw [← String.toList_inj]
      simp [String.toList_append]
    · simp
    · simp

/-- `u8::is_ascii_digit`. -/
def isAsciiDigit (b : UInt8) : Bool := 48 ≤ b && b ≤ 57

def digitOf (b : UInt8) : ℕ := b.toNat - 48

theorem digit_bounds {b : UInt8} (h : isAsciiDigit b = true) : 48 ≤ b.toNat ∧ b.toNat ≤ 57 := by
  simp only [isAsciiDigit, Bool.and_eq_true, decide_eq_true_eq, UInt8.le_iff_toNat_le] at h
  exact h

theorem isAsciiDigit_ofNat {n : ℕ} (h : n < 256) :
    isAsciiDigit (UInt8.ofNat n) = true ↔ 48 ≤ n ∧ n ≤ 57 := by
  rw [isAsciiDigit, Bool.and_eq_true, decide_eq_true_eq, decide_eq_true_eq, UInt8.le_iff_toNat_le,
    UInt8.le_iff_toNat_le, UInt8.toNat_ofNat_of_lt' h]
  rfl

/-- Only a character of a single byte has ASCII digits for its bytes. -/
theorem digits_utf8EncodeChar {c : Char} :
    (∀ b ∈ String.utf8EncodeChar c, isAsciiDigit b = true) ↔ c.isDigit = true := by
  have hval : c.val.toNat = c.toNat := rfl
  have h0 : '0'.toNat = 48 := rfl
  have h9 : '9'.toNat = 57 := rfl
  rw [Char.isDigit_iff_toNat]
  fun_cases String.utf8EncodeChar c with
  | case1 v h =>
    rw [List.forall_mem_singleton, isAsciiDigit_ofNat (by omega)]
    rfl
  | case2 v h h' =>
    simp only [List.forall_mem_cons]
    rw [isAsciiDigit_ofNat (by omega)]
    omega
  | case3 v h h' h'' =>
    simp only [List.forall_mem_cons]
    rw [isAsciiDigit_ofNat (by omega)]
    omega
  | case4 v h h' h'' =>
    simp only [List.forall_mem_cons]
    rw [isAsciiDigit_ofNat (by omega)]
    omega

theorem digits_asBytes {s : String} :
    (∀ b ∈ asBytes s, isAsciiDigit b = true) ↔ ∀ c ∈ s.toList, c.isDigit = true := by
  rw [asBytes, List.forall_mem_flatMap]
  exact forall₂_congr fun c _ => digits_utf8EncodeChar

/-- `char::is_whitespace`, the Unicode property `White_Space`. -/
def isWhitespace (c : Char) : Bool :=
  let n := c.toNat
  (9 ≤ n && n ≤ 13) || n == 0x20 || n == 0x85 || n == 0xA0 || n == 0x1680 ||
    (0x2000 ≤ n && n ≤ 0x200A) || n == 0x2028 || n == 0x2029 || n == 0x202F || n == 0x205F ||
    n == 0x3000

/-- `s.trim().is_empty()`. -/
def isBlank (s : String) : Bool := s.toList.all isWhitespace

/-- `c.is_ascii_hexdigit() && !c.is_ascii_uppercase()`. -/
def isLowerHex (c : Char) : Bool := c.isDigit || ('a' ≤ c && c ≤ 'f')

def hexDigit (n : ℕ) : Char := Char.ofNat (if n < 10 then n + 48 else n + 87)

def hexByte (b : UInt8) : List Char := [hexDigit (b.toNat / 16), hexDigit (b.toNat % 16)]

def hexText (bytes : Bytes) : String := String.ofList (bytes.flatMap hexByte)

def digitValue (c : Char) : ℕ := if c ≤ '9' then c.toNat - 48 else c.toNat - 87

/-- Pairs of digits back to bytes, for texts of even length. -/
def hexPairs : List Char → Bytes
  | c :: d :: rest => UInt8.ofNat (digitValue c * 16 + digitValue d) :: hexPairs rest
  | _ => []

theorem hexDigit_spec : ∀ n < 16, isLowerHex (hexDigit n) = true ∧ digitValue (hexDigit n) = n := by
  decide

theorem isLowerHex_of_mem_hexText {bytes : Bytes} {c : Char} (hc : c ∈ (hexText bytes).toList) :
    isLowerHex c = true := by
  rw [hexText, String.toList_ofList, List.mem_flatMap] at hc
  obtain ⟨b, -, hc⟩ := hc
  have hb := b.toNat_lt
  simp only [hexByte, List.mem_cons, List.not_mem_nil, or_false] at hc
  rcases hc with rfl | rfl
  · exact (hexDigit_spec _ (by omega)).1
  · exact (hexDigit_spec _ (by omega)).1

@[simp] theorem length_hexText (bytes : Bytes) :
    (hexText bytes).toList.length = 2 * bytes.length := by
  rw [hexText, String.toList_ofList]
  induction bytes with
  | nil => rfl
  | cons b bytes ih =>
    rw [List.flatMap_cons, List.length_append, ih, List.length_cons]
    simp only [hexByte, List.length_cons, List.length_nil]
    omega

theorem hexPairs_hexText (bytes : Bytes) : hexPairs (hexText bytes).toList = bytes := by
  rw [hexText, String.toList_ofList]
  induction bytes with
  | nil => rfl
  | cons b bytes ih =>
    have hb := b.toNat_lt
    have hhi := (hexDigit_spec (b.toNat / 16) (by omega)).2
    have hlo := (hexDigit_spec (b.toNat % 16) (by omega)).2
    rw [List.flatMap_cons]
    simp only [hexByte, List.cons_append, List.nil_append, hexPairs, hhi, hlo]
    rw [ih]
    congr 1
    have hval : b.toNat / 16 * 16 + b.toNat % 16 = b.toNat := by omega
    rw [hval, UInt8.ofNat_toNat]

theorem hexText_injective : Function.Injective hexText := by
  intro x y h
  rw [← hexPairs_hexText x, h, hexPairs_hexText]

theorem exists_hexDigit_of_lowerHex {c : Char} (h : isLowerHex c = true) :
    ∃ n < 16, c = hexDigit n := by
  simp only [isLowerHex, Bool.or_eq_true, Bool.and_eq_true, decide_eq_true_eq, Char.isDigit,
    Char.le_def, UInt32.le_iff_toNat_le] at h
  have hval : c.val.toNat = c.toNat := rfl
  have h0 : '0'.val.toNat = 48 := rfl
  have h9 : '9'.val.toNat = 57 := rfl
  have ha : 'a'.val.toNat = 97 := rfl
  have hf : 'f'.val.toNat = 102 := rfl
  rcases h with ⟨hlo, hhi⟩ | ⟨hlo, hhi⟩
  · refine ⟨c.toNat - 48, by omega, ?_⟩
    rw [hexDigit, if_pos (by omega), Nat.sub_add_cancel (by omega), Char.ofNat_toNat]
  · refine ⟨c.toNat - 87, by omega, ?_⟩
    rw [hexDigit, if_neg (by omega), Nat.sub_add_cancel (by omega), Char.ofNat_toNat]

theorem length_asBytes_of_lowerHex {s : String} (h : s.toList.all isLowerHex = true) :
    (asBytes s).length = s.toList.length := by
  have hone : ∀ n < 16, (String.utf8EncodeChar (hexDigit n)).length = 1 := by decide
  rw [asBytes, List.length_flatMap, List.map_congr_left (g := fun _ => 1)]
  · simp
  · intro c hc
    obtain ⟨n, hn, rfl⟩ := exists_hexDigit_of_lowerHex (List.all_eq_true.mp h c hc)
    exact hone n hn

theorem hexByte_pair {c d : Char} (hc : isLowerHex c = true) (hd : isLowerHex d = true) :
    hexByte (UInt8.ofNat (digitValue c * 16 + digitValue d)) = [c, d] := by
  obtain ⟨m, hm, rfl⟩ := exists_hexDigit_of_lowerHex hc
  obtain ⟨n, hn, rfl⟩ := exists_hexDigit_of_lowerHex hd
  rw [(hexDigit_spec m hm).2, (hexDigit_spec n hn).2, hexByte, UInt8.toNat_ofNat',
    Nat.mod_eq_of_lt (by omega)]
  congr 2
  · omega
  · congr 1
    omega

theorem hexText_hexPairs : (cs : List Char) → cs.all isLowerHex = true → cs.length % 2 = 0 →
    (hexPairs cs).flatMap hexByte = cs
  | [], _, _ => rfl
  | [_], _, hlen => by simp at hlen
  | c :: d :: rest, hall, hlen => by
    simp only [List.all_cons, Bool.and_eq_true] at hall
    have hrest := hexText_hexPairs rest hall.2.2 (by simp only [List.length_cons] at hlen; omega)
    rw [hexPairs, List.flatMap_cons, hexByte_pair hall.1 hall.2.1, hrest]
    rfl

end Hacp
