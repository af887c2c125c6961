import Hacp.V2.JsonText

/-!
# A reader of JSON texts

The reader takes a compact text apart by its first character and finds the value the
text denotes. It is the parser that results about any parser are tried on: what they
ask of a parser, it does.
-/
namespace Hacp.V2
open Lib

/-- The parser finds the value of every text that nests no deeper than `serde_json` goes and does
not use the name `serde_json` keeps. -/
def ReadsJson (parse : Bytes → Option Json) : Prop :=
  ∀ w v, Denotes 127 w v → v.unmarked = true → parse (asBytes (String.ofList w)) = some v

/-- Deeper texts the parser gives up on. -/
def RefusesDeep (parse : Bytes → Option Json) : Prop :=
  ∀ n w v, Denotes n w v → 127 < v.depth → parse (asBytes (String.ofList w)) = none

def readCode (a b d e : Char) : Option Char :=
  let n := codePoint (digitValue a) (digitValue b) (digitValue d) (digitValue e)
  if [a, b, d, e].all isLowerHex ∧ n.isValidChar then some (Char.ofNat n) else none

/-- The characters up to the closing quote. -/
def readChars : Reader (List Char) Char
  | '"' :: r => some ([], r)
  | '\\' :: '"' :: r => (readChars r).map fun p => ('"' :: p.1, p.2)
  | '\\' :: '\\' :: r => (readChars r).map fun p => ('\\' :: p.1, p.2)
  | '\\' :: 'u' :: a :: b :: d :: e :: r => do
    let c ← readCode a b d e
    let (s, r) ← readChars r
    some (c :: s, r)
  | '\\' :: _ => none
  | c :: r => if c.toNat ≤ 0x1F then none else (readChars r).map fun p => (c :: p.1, p.2)
  | [] => none

/-- A number in the digits it prints as. -/
def readNatural (cs : List Char) : Option (ℕ × List Char) :=
  let ds := cs.takeWhile Char.isDigit
  let n := Nat.ofDigitChars 10 ds 0
  if Nat.toDigits 10 n = ds then some (n, cs.dropWhile Char.isDigit) else none

def readInteger : Reader ℤ Char
  | '-' :: r => (readNatural r).bind fun p => if p.1 = 0 then none else some (-p.1, p.2)
  | r => (readNatural r).map fun p => (↑p.1, p.2)

def readMember (read : Reader Json Char) : Reader (String × Json) Char
  | '"' :: r => do
    let (key, r) ← readChars r
    match r with
    | ':' :: r => do
      let (v, r) ← read r
      some ((String.ofList key, v), r)
    | _ => none
  | _ => none

def readScalar : Reader Json Char
  | 'n' :: 'u' :: 'l' :: 'l' :: r => some (.null, r)
  | 't' :: 'r' :: 'u' :: 'e' :: r => some (.bool true, r)
  | 'f' :: 'a' :: 'l' :: 's' :: 'e' :: r => some (.bool false, r)
  | '"' :: r => (readChars r).map fun p => (.string (String.ofList p.1), p.2)
  | cs => (readInteger cs).map fun p => (.number (.integer p.1), p.2)

/-- A value of brackets nested at most as deep as the fuel counts. -/
def readValue : ℕ → Reader Json Char
  | 0 => readScalar
  | fuel + 1 => fun cs =>
    match cs with
    | '[' :: r => (readList (readValue fuel) ',' ']' r).map fun p => (.array p.1, p.2)
    | '{' :: r =>
      (readList (readMember (readValue fuel)) ',' '}' r).map fun p => (.object p.1, p.2)
    | cs => readScalar cs

def readJson (bytes : Bytes) : Option Json := do
  let cs ← bytes.toByteArray.utf8Decode?
  let (v, r) ← readValue 127 cs.toList
  if r.isEmpty then some v else none

/-! ## The reader finds what a text denotes -/

theorem readCode_hexDigit {a b d e : ℕ} {c : Char} (ha : a < 16) (hb : b < 16) (hd : d < 16)
    (he : e < 16) (hc : c.toNat = codePoint a b d e) :
    readCode (hexDigit a) (hexDigit b) (hexDigit d) (hexDigit e) = some c := by
  obtain ⟨hha, hva⟩ := hexDigit_spec a ha
  obtain ⟨hhb, hvb⟩ := hexDigit_spec b hb
  obtain ⟨hhd, hvd⟩ := hexDigit_spec d hd
  obtain ⟨hhe, hve⟩ := hexDigit_spec e he
  simp only [readCode, hva, hvb, hvd, hve, ← hc, List.all_cons, List.all_nil, hha, hhb, hhd, hhe,
    Bool.and_self, true_and, Char.ofNat_toNat]
  exact if_pos c.valid

theorem readChars_char {w : List Char} {c : Char} (h : SpellsChar w c) (r : List Char) :
    readChars (w ++ r) = (readChars r).map fun p => (c :: p.1, p.2) := by
  cases h with
  | plain hquote hslash hcontrol =>
    simp only [List.cons_append, List.nil_append]
    rw [readChars]
    · exact if_neg (by omega)
    all_goals grind
  | quote => rfl
  | backslash => rfl
  | code ha hb hd he hc =>
    simp only [List.cons_append, List.nil_append, readChars, readCode_hexDigit ha hb hd he hc]
    cases readChars r <;> rfl

theorem readChars_spells {w s : List Char} (h : Spells w s) (r : List Char) :
    readChars (w ++ '"' :: r) = some (s, r) := by
  induction h with
  | nil => rfl
  | cons hchar hrest ih => rw [List.append_assoc, readChars_char hchar, ih, Option.map_some]

theorem readNatural_reads (n : ℕ) : Reads readNatural (Nat.toDigits 10 n) Delimited n := by
  intro r hr
  have hdigits : ∀ c ∈ Nat.toDigits 10 n, c.isDigit = true := fun c hc =>
    Nat.isDigit_of_mem_toDigits (by decide) (by decide) hc
  have htake : r.takeWhile Char.isDigit = [] := by
    cases r with
    | nil => rfl
    | cons c r => exact List.takeWhile_cons_of_neg (by simp [hr c rfl])
  have hdrop : r.dropWhile Char.isDigit = r := by
    cases r with
    | nil => rfl
    | cons c r => exact List.dropWhile_cons_of_neg (by simp [hr c rfl])
  simp only [readNatural, List.takeWhile_append_of_pos hdigits, List.dropWhile_append_of_pos hdigits,
    htake, hdrop, List.append_nil, Nat.ofDigitChars_ten_toDigits, if_true]

theorem readInteger_reads (i : ℤ) :
    Reads readInteger (Number.integer i).text.toList Delimited i := by
  intro r hr
  rw [integer_text_toList]
  split_ifs with hi
  · simp only [List.cons_append, readInteger, readNatural_reads i.natAbs r hr, Option.bind_some]
    rw [if_neg (by omega)]
    congr 2
    omega
  · have hread := readNatural_reads i.natAbs r hr
    cases hd : Nat.toDigits 10 i.natAbs ++ r with
    | nil => simp [Nat.toDigits_ne_nil] at hd
    | cons c cs =>
      have hc := toDigits_head hd
      rw [hd] at hread
      rw [readInteger, hread]
      · simp only [Option.map_some]
        congr 2
        omega
      · intro s hs
        rw [(List.cons.inj hs).1] at hc
        simp at hc

theorem denotes_head {n : ℕ} {w : List Char} {v : Json} (h : Denotes n w v) :
    ∃ c cs, w = c :: cs ∧ c ≠ ']' := by
  cases h with
  | integer i =>
    obtain ⟨c, cs, hc, hnumber⟩ := integer_text_head i
    refine ⟨c, cs, hc, ?_⟩
    rintro rfl
    rcases hnumber with hminus | hdigit
    · exact absurd hminus (by decide)
    · exact absurd hdigit (by decide)
  | _ => exact ⟨_, _, rfl, by decide⟩

theorem readMember_reads {read : Reader Json Char} {m : (List Char × String) × List Char × Json}
    (hkey : Spells m.1.1 m.1.2.toList) (hvalue : Reads read m.2.1 Delimited m.2.2) :
    Reads (readMember read) (memberText m) Delimited (m.1.2, m.2.2) := by
  intro r hr
  have hchars := readChars_spells hkey (':' :: m.2.1 ++ r)
  simp only [memberText, List.cons_append, List.append_assoc] at hchars ⊢
  simp only [readMember, hchars, hvalue r hr, Option.bind_eq_bind, Option.bind_some,
    String.ofList_toList]

/-- A number is what is left when no other value begins with the character. -/
theorem readScalar_integer (i : ℤ) :
    Reads readScalar (Number.integer i).text.toList Delimited (.number (.integer i)) := by
  intro r hr
  have hread := readInteger_reads i r hr
  obtain ⟨c, cs, hc, hnumber⟩ := integer_text_head i
  have hother (d : Char) (hd : ¬(d = '-' ∨ d.isDigit = true)) : c ≠ d := fun h => hd (h ▸ hnumber)
  rw [hc, List.cons_append] at hread ⊢
  unfold readScalar
  split
  case h_1 hs => exact absurd (List.cons.inj hs).1 (hother 'n' (by decide))
  case h_2 hs => exact absurd (List.cons.inj hs).1 (hother 't' (by decide))
  case h_3 hs => exact absurd (List.cons.inj hs).1 (hother 'f' (by decide))
  case h_4 hs => exact absurd (List.cons.inj hs).1 (hother '"' (by decide))
  case h_5 => simp only [hread, Option.map_some]

theorem readValue_scalar (fuel : ℕ) {c : Char} (harray : c ≠ '[') (hobject : c ≠ '{')
    (r : List Char) : readValue fuel (c :: r) = readScalar (c :: r) := by
  cases fuel with
  | zero => rfl
  | succ fuel => grind [readValue]

theorem readValue_integer (fuel : ℕ) (i : ℤ) :
    Reads (readValue fuel) (Number.integer i).text.toList Delimited (.number (.integer i)) := by
  intro r hr
  have hread := readScalar_integer i r hr
  obtain ⟨c, cs, hc, hnumber⟩ := integer_text_head i
  have hother (d : Char) (hd : ¬(d = '-' ∨ d.isDigit = true)) : c ≠ d := fun h => hd (h ▸ hnumber)
  rw [hc, List.cons_append] at hread ⊢
  rw [readValue_scalar fuel (hother '[' (by decide)) (hother '{' (by decide)), hread]

theorem readValue_reads {n : ℕ} {w : List Char} {v : Json} (h : Denotes n w v) :
    Reads (readValue n) w Delimited v := by
  induction h with
  | @null n | @true n | @false n =>
    intro r _
    exact readValue_scalar n (by decide) (by decide) _
  | integer i => exact readValue_integer _ i
  | @string n _ _ hs =>
    intro r _
    have hchars := readChars_spells hs r
    simp only [List.cons_append, List.append_assoc, List.nil_append]
    rw [readValue_scalar n (by decide) (by decide)]
    simp only [readScalar, hchars, Option.map_some, String.ofList_toList]
  | @array n items h ih =>
    intro r _
    have hlist : Reads (readList (readValue n) ',' ']') (listText Prod.fst ',' ']' items)
        (fun _ => True) (items.map Prod.snd) :=
      reads_list (delimited_cons (by decide)) (delimited_cons (by decide)) (by decide) ih
        fun p hp => denotes_head (h p hp)
    simp only [List.cons_append]
    rw [readValue]
    simp only [hlist r trivial, Option.map_some]
  | @object n members hkeys h ih =>
    intro r _
    let words := members.map fun m => (memberText m, (m.1.2, m.2.2))
    have hwords : ∀ p ∈ words, Reads (readMember (readValue n)) p.1 Delimited p.2 :=
      List.forall_mem_map.mpr fun m hm => readMember_reads (hkeys m hm) (ih m hm)
    have hlist : Reads (readList (readMember (readValue n)) ',' '}')
        (listText Prod.fst ',' '}' words) (fun _ => True) (words.map Prod.snd) :=
      reads_list (delimited_cons (by decide)) (delimited_cons (by decide)) (by decide) hwords
        (List.forall_mem_map.mpr fun m hm => ⟨_, _, rfl, by decide⟩)
    simp only [words, listText_map, List.map_map, Function.comp_def] at hlist
    simp only [List.cons_append]
    rw [readValue]
    simp only [hlist r trivial, Option.map_some]

/-! ## The reader gives up on what nests too deep -/

theorem readMember_refuses {read : Reader Json Char} {m : (List Char × String) × List Char × Json}
    (hkey : Spells m.1.1 m.1.2.toList) (hvalue : Refuses read m.2.1 Delimited) :
    Refuses (readMember read) (memberText m) Delimited := by
  intro r hr
  have hchars := readChars_spells hkey (':' :: m.2.1 ++ r)
  simp only [memberText, List.cons_append, List.append_assoc] at hchars ⊢
  simp only [readMember, hchars, hvalue r hr, Option.bind_eq_bind, Option.bind_some,
    Option.bind_none]

/-- What a text may nest is bounded by what its value does. -/
theorem Denotes.of_depth {n m : ℕ} {w : List Char} {v : Json} (h : Denotes n w v)
    (hdepth : v.depth ≤ m) : Denotes m w v := by
  induction h generalizing m with
  | null => exact .null
  | true => exact .true
  | false => exact .false
  | integer i => exact .integer i
  | string hs => exact .string hs
  | array h ih =>
    obtain ⟨m, rfl⟩ := Nat.exists_eq_add_of_le' (Nat.one_le_of_lt hdepth)
    have hitems := Json.depthItems_le_iff.mp (Nat.le_of_succ_le_succ hdepth)
    exact .array fun p hp => ih p hp (hitems p.2 (List.mem_map_of_mem hp))
  | object hkeys h ih =>
    obtain ⟨m, rfl⟩ := Nat.exists_eq_add_of_le' (Nat.one_le_of_lt hdepth)
    have hmembers := Json.depthMembers_le_iff.mp (Nat.le_of_succ_le_succ hdepth)
    exact .object hkeys fun p hp => ih p hp (hmembers (p.1.2, p.2.2)
      (List.mem_map_of_mem (f := fun m => (m.1.2, m.2.2)) hp))

theorem readScalar_bracket {c : Char} (hc : c = '[' ∨ c = '{') (r : List Char) :
    readScalar (c :: r) = none := by
  have hdigit : c.isDigit = false := by rcases hc with rfl | rfl <;> decide
  have hnatural : readNatural (c :: r) = none := by
    simp [readNatural, hdigit]
  rcases hc with rfl | rfl <;> simp [readScalar, readInteger, hnatural]

/-- A value is read as far as it nests, and given up where it nests deeper. -/
theorem readValue_refuses {n : ℕ} {w : List Char} {v : Json} (h : Denotes n w v) {fuel : ℕ}
    (hdepth : fuel < v.depth) : Refuses (readValue fuel) w Delimited := by
  induction h generalizing fuel with
  | null | true | false | integer | string => exact absurd hdepth (Nat.not_lt_zero fuel)
  | @array n items h ih =>
    intro r _
    cases fuel with
    | zero => exact readScalar_bracket (.inl rfl) _
    | succ fuel =>
      have hdeep : ∃ p ∈ items, fuel < p.2.depth := by
        by_contra hnone
        have hshallow : ∀ p ∈ items, p.2.depth ≤ fuel := by simpa using hnone
        exact absurd (Nat.lt_of_succ_lt_succ hdepth) (Nat.not_lt.mpr
          (Json.depthItems_le_iff.mpr (List.forall_mem_map.mpr hshallow)))
      obtain ⟨q, hq, hrefused⟩ := hdeep
      have hlist : Refuses (readList (readValue fuel) ',' ']') (listText Prod.fst ',' ']' items)
          (fun _ => True) := by
        refine refuses_list (delimited_cons (by decide)) (delimited_cons (by decide)) (by decide)
          (fun p hp => ?_) ⟨q, hq, ih q hq hrefused⟩ fun p hp => denotes_head (h p hp)
        rcases Nat.lt_or_ge fuel p.2.depth with hlt | hle
        · exact .inr (ih p hp hlt)
        · exact .inl (readValue_reads ((h p hp).of_depth hle))
      simp only [List.cons_append]
      rw [readValue]
      simp only [hlist r trivial, Option.map_none]
  | @object n members hkeys h ih =>
    intro r _
    cases fuel with
    | zero => exact readScalar_bracket (.inr rfl) _
    | succ fuel =>
      let words := members.map fun m => (memberText m, (m.1.2, m.2.2))
      have hdeep : ∃ m ∈ members, fuel < m.2.2.depth := by
        by_contra hnone
        have hshallow : ∀ m ∈ members, m.2.2.depth ≤ fuel := by
          intro m hm
          exact Nat.not_lt.mp fun hlt => hnone ⟨m, hm, hlt⟩
        exact absurd (Nat.lt_of_succ_lt_succ hdepth) (Nat.not_lt.mpr
          (Json.depthMembers_le_iff.mpr (List.forall_mem_map.mpr hshallow)))
      obtain ⟨q, hq, hrefused⟩ := hdeep
      have hwords : ∀ p ∈ words, Reads (readMember (readValue fuel)) p.1 Delimited p.2 ∨
          Refuses (readMember (readValue fuel)) p.1 Delimited := by
        refine List.forall_mem_map.mpr fun m hm => ?_
        rcases Nat.lt_or_ge fuel m.2.2.depth with hlt | hle
        · exact .inr (readMember_refuses (hkeys m hm) (ih m hm hlt))
        · exact .inl (readMember_reads (hkeys m hm) (readValue_reads ((h m hm).of_depth hle)))
      have hlist : Refuses (readList (readMember (readValue fuel)) ',' '}')
          (listText Prod.fst ',' '}' words) (fun _ => True) :=
        refuses_list (delimited_cons (by decide)) (delimited_cons (by decide)) (by decide) hwords
          ⟨_, List.mem_map_of_mem hq, readMember_refuses (hkeys q hq) (ih q hq hrefused)⟩
          (List.forall_mem_map.mpr fun m hm => ⟨_, _, rfl, by decide⟩)
      simp only [words, listText_map] at hlist
      simp only [List.cons_append]
      rw [readValue]
      simp only [hlist r trivial, Option.map_none]

theorem utf8Decode?_asBytes (s : String) :
    (asBytes s).toByteArray.utf8Decode? = some s.toList.toArray :=
  List.utf8Decode?_utf8Encode

theorem readJson_reads : ReadsJson readJson := by
  intro w v h _
  have hread := readValue_reads h [] (fun c hc => by simp at hc)
  rw [List.append_nil] at hread
  simp only [readJson, utf8Decode?_asBytes, String.toList_ofList, hread, Option.bind_eq_bind,
    Option.bind_some, List.isEmpty_nil, if_true]

theorem readJson_refuses : RefusesDeep readJson := by
  intro n w v h hdepth
  have hrefused := readValue_refuses h hdepth [] (fun c hc => by simp at hc)
  rw [List.append_nil] at hrefused
  simp only [readJson, utf8Decode?_asBytes, String.toList_ofList, hrefused, Option.bind_eq_bind,
    Option.bind_some, Option.bind_none]

end Hacp.V2
