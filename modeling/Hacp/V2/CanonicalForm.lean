import Hacp.V2.Canon

/-!
# The canonical form identifies a JSON value

Rendering sorts the members and then writes a text that can be read back: every
string, number and bracket ends where its own syntax says so. Two values with
distinct keys therefore have one canonical text exactly when they differ in the
order of object members only.
-/
namespace Hacp.V2
open Lib

mutual
/-- The text of a value in the member order it has, numbers unchecked. -/
def plainText : Json → List Char
  | .null => ['n', 'u', 'l', 'l']
  | .bool true => ['t', 'r', 'u', 'e']
  | .bool false => ['f', 'a', 'l', 's', 'e']
  | .number n => n.text.toList
  | .string s => writeString s
  | .array items => '[' :: [','].intercalate (plainTexts items) ++ [']']
  | .object members => '{' :: [','].intercalate (plainPairs members) ++ ['}']

def plainTexts : List Json → List (List Char)
  | [] => []
  | item :: items => plainText item :: plainTexts items

def plainPairs : List (String × Json) → List (List Char)
  | [] => []
  | (key, item) :: members => (writeString key ++ ':' :: plainText item) :: plainPairs members
end

theorem plainTexts_eq_map (items : List Json) : plainTexts items = items.map plainText := by
  induction items with
  | nil => rfl
  | cons item items ih => simp only [plainTexts, ih, List.map_cons]

theorem plainPairs_eq_map (members : List (String × Json)) :
    plainPairs members = members.map (pairText writeString ':' plainText) := by
  induction members with
  | nil => rfl
  | cons p members ih => simp only [plainPairs, ih, List.map_cons, pairText]

/-! ## Rendering is total on integers -/

theorem isDigit_not_fractionMark {c : Char} (h : c.isDigit = true) : isFractionMark c = false := by
  rw [Char.isDigit_iff_toNat] at h
  by_contra hc
  simp only [isFractionMark, Bool.not_eq_false, Bool.or_eq_true, beq_iff_eq] at hc
  rcases hc with (rfl | rfl) | rfl <;> simp at h

theorem integer_text_toList (i : ℤ) :
    (Number.integer i).text.toList =
      if i < 0 then '-' :: Nat.toDigits 10 i.natAbs else Nat.toDigits 10 i.natAbs := by
  cases i with
  | ofNat n => simp [Number.text, Int.toString_eq_repr, Int.repr]
  | negSucc n =>
    have hneg : Int.negSucc n < 0 := Int.negSucc_lt_zero n
    simp [Number.text, Int.toString_eq_repr, Int.repr, hneg]

theorem integer_text_unmarked (i : ℤ) :
    (Number.integer i).text.toList.any isFractionMark = false := by
  have hdigits : ∀ c ∈ Nat.toDigits 10 i.natAbs, isFractionMark c = false := fun c hc =>
    isDigit_not_fractionMark (Nat.isDigit_of_mem_toDigits (by decide) (by decide) hc)
  rw [integer_text_toList, List.any_eq_false]
  intro c hc
  split at hc
  · rcases List.mem_cons.mp hc with rfl | hc
    · decide
    · simp [hdigits c hc]
  · simp [hdigits c hc]

theorem writeNumber_integer {n : Number} (h : n.isInteger = true) (path : String) :
    writeNumber n path = .ok n.text.toList := by
  cases n with
  | integer i => simp only [writeNumber, integer_text_unmarked, Bool.false_eq_true, if_false]
  | fractional text marked => simp [Number.isInteger] at h

theorem writeNumber_fractional {n : Number} (h : n.isInteger = false) (path : String) :
    writeNumber n path = .error (.nonIntegerNumber n.text path) := by
  cases n with
  | integer i => simp [Number.isInteger] at h
  | fractional text marked => simp only [writeNumber, Number.text, marked, if_true]

theorem writePairs_ok (f : Json → List Char) (ms : List (String × Json)) :
    writePairs (ms.map fun p => (p.1, .ok (f p.2))) =
      .ok (ms.map (pairText writeString ':' f)) := by
  induction ms with
  | nil => rfl
  | cons p ms ih =>
    simp only [List.map_cons, writePairs, ih]
    rfl

theorem writePairs_error {ps : List (String × Except CanonError (List Char))}
    {p : String × Except CanonError (List Char)} (hp : p ∈ ps) {e : CanonError}
    (he : p.2 = .error e) : ∃ e', writePairs ps = .error e' := by
  induction ps with
  | nil => simp at hp
  | cons q ps ih =>
    obtain ⟨key, item⟩ := q
    cases item with
    | error e' => exact ⟨e', rfl⟩
    | ok text =>
      rcases List.mem_cons.mp hp with rfl | hp
      · simp at he
      · obtain ⟨e', hrest⟩ := ih hp
        exact ⟨e', by simp only [writePairs, hrest]; rfl⟩

mutual
/-- On integers only, rendering gives the plain text of the normalized value. -/
theorem writeValue_ok (path : String) : (v : Json) → v.integersOnly = true →
    writeValue path v = .ok (plainText v.normalize)
  | .null, _ => rfl
  | .bool true, _ => rfl
  | .bool false, _ => rfl
  | .number _, h => writeNumber_integer h path
  | .string _, _ => rfl
  | .array items, h => by
    simp only [writeValue, writeItems_ok path 0 items h]
    rfl
  | .object members, h => by
    have hsorted := Json.sortMembers_map (β := Except CanonError (List Char))
      (fun v => .ok (plainText v)) (Json.normalizeMembers members)
    simp only [writeValue, writeMembers_ok path members h]
    rw [hsorted, writePairs_ok, ← plainPairs_eq_map]
    rfl

theorem writeItems_ok (path : String) (i : ℕ) : (vs : List Json) →
    Json.integersOnlyItems vs = true →
    writeItems path i vs = .ok (plainTexts (Json.normalizeItems vs))
  | [], _ => rfl
  | v :: vs, h => by
    have hboth := Bool.and_eq_true_iff.mp h
    simp only [writeItems, writeValue_ok _ v hboth.1, writeItems_ok path (i + 1) vs hboth.2]
    rfl

theorem writeMembers_ok (path : String) : (ms : List (String × Json)) →
    Json.integersOnlyMembers ms = true →
    writeMembers path ms =
      (Json.normalizeMembers ms).map fun p => (p.1, .ok (plainText p.2))
  | [], _ => rfl
  | (key, v) :: ms, h => by
    have hboth := Bool.and_eq_true_iff.mp h
    simp only [writeMembers, writeValue_ok _ v hboth.1, writeMembers_ok path ms hboth.2]
    rfl
end

mutual
/-- A number with a fraction or exponent at any depth makes rendering fail. -/
theorem writeValue_error (path : String) : (v : Json) → v.integersOnly = false →
    ∃ e, writeValue path v = .error e
  | .null, h => by simp [Json.integersOnly] at h
  | .bool _, h => by simp [Json.integersOnly] at h
  | .number n, h => ⟨_, writeNumber_fractional h path⟩
  | .string _, h => by simp [Json.integersOnly] at h
  | .array items, h => by
    obtain ⟨e, he⟩ := writeItems_error path 0 items h
    exact ⟨e, by simp only [writeValue, he]; rfl⟩
  | .object members, h => by
    obtain ⟨p, hp, e, he⟩ := writeMembers_error path members h
    have hsorted := (Json.sortMembers_perm (writeMembers path members)).mem_iff.mpr hp
    obtain ⟨e', he'⟩ := writePairs_error hsorted he
    exact ⟨e', by simp only [writeValue, he']; rfl⟩

theorem writeItems_error (path : String) (i : ℕ) : (vs : List Json) →
    Json.integersOnlyItems vs = false → ∃ e, writeItems path i vs = .error e
  | [], h => by simp [Json.integersOnlyItems] at h
  | v :: vs, h => by
    cases hv : v.integersOnly with
    | false =>
      obtain ⟨e, he⟩ := writeValue_error (path ++ "[" ++ toString i ++ "]") v hv
      exact ⟨e, by simp only [writeItems, he]; rfl⟩
    | true =>
      have hvs : Json.integersOnlyItems vs = false := by
        simpa only [Json.integersOnlyItems, hv, Bool.true_and] using h
      obtain ⟨e, he⟩ := writeItems_error path (i + 1) vs hvs
      exact ⟨e, by simp only [writeItems, writeValue_ok _ v hv, he]; rfl⟩

theorem writeMembers_error (path : String) : (ms : List (String × Json)) →
    Json.integersOnlyMembers ms = false →
    ∃ p ∈ writeMembers path ms, ∃ e, p.2 = .error e
  | [], h => by simp [Json.integersOnlyMembers] at h
  | (key, v) :: ms, h => by
    cases hv : v.integersOnly with
    | false =>
      obtain ⟨e, he⟩ := writeValue_error (path ++ "." ++ key) v hv
      exact ⟨_, List.mem_cons_self, e, he⟩
    | true =>
      have hms : Json.integersOnlyMembers ms = false := by
        simpa only [Json.integersOnlyMembers, hv, Bool.true_and] using h
      obtain ⟨p, hp, e, he⟩ := writeMembers_error path ms hms
      exact ⟨p, List.mem_cons_of_mem _ hp, e, he⟩
end

theorem canonicalJson_ok {v : Json} (h : v.integersOnly = true) :
    canonicalJson v = .ok (String.ofList (plainText v.normalize)) := by
  simp only [canonicalJson, writeValue_ok "$" v h]
  rfl

theorem canonicalJson_isOk_iff (v : Json) :
    (∃ s, canonicalJson v = .ok s) ↔ v.integersOnly = true := by
  constructor
  · rintro ⟨s, hs⟩
    by_contra hv
    obtain ⟨e, he⟩ := writeValue_error "$" v (by simpa using hv)
    simp only [canonicalJson, he] at hs
    cases hs
  · exact fun h => ⟨_, canonicalJson_ok h⟩

/-! ## The text can be read back -/

/-- A text that does not continue a number. -/
def Delimited (r : List Char) : Prop := ∀ c ∈ r.head?, c.isDigit = false

theorem hexDigit_inj {m n : ℕ} (hm : m < 16) (hn : n < 16) (h : hexDigit m = hexDigit n) :
    m = n := by
  rw [← (hexDigit_spec m hm).2, h, (hexDigit_spec n hn).2]

theorem controlEscape_inj {c d : Char} (hc : c.toNat ≤ 0x1F) (hd : d.toNat ≤ 0x1F)
    {r s : List Char} (h : controlEscape c ++ r = controlEscape d ++ s) : c = d ∧ r = s := by
  simp only [controlEscape, List.cons_append, List.nil_append, List.cons.injEq, true_and] at h
  obtain ⟨hhi, hlo, hrs⟩ := h
  have hhi' := hexDigit_inj (by omega) (by omega) hhi
  have hlo' := hexDigit_inj (by omega) (by omega) hlo
  exact ⟨Char.toNat_inj.mp (by omega), hrs⟩

theorem escapeChar_cases (c : Char) :
    (c = '"' ∧ escapeChar c = ['\\', '"']) ∨ (c = '\\' ∧ escapeChar c = ['\\', '\\']) ∨
      (c.toNat ≤ 0x1F ∧ escapeChar c = controlEscape c) ∨
      (c ≠ '"' ∧ c ≠ '\\' ∧ escapeChar c = [c]) := by
  unfold escapeChar
  split_ifs with hquote hslash hcontrol
  · exact .inl ⟨hquote, rfl⟩
  · exact .inr (.inl ⟨hslash, rfl⟩)
  · exact .inr (.inr (.inl ⟨hcontrol, rfl⟩))
  · exact .inr (.inr (.inr ⟨hquote, hslash, rfl⟩))

theorem escapeChar_prefixFree : PrefixFree escapeChar := by
  intro c d r s h
  rcases escapeChar_cases c with ⟨rfl, hc⟩ | ⟨rfl, hc⟩ | ⟨hcc, hc⟩ | ⟨hcq, hcs, hc⟩ <;>
  rcases escapeChar_cases d with ⟨rfl, hd⟩ | ⟨rfl, hd⟩ | ⟨hdc, hd⟩ | ⟨hdq, hds, hd⟩ <;>
  simp only [hc, hd] at h
  case inr.inr.inl.inr.inr.inl => exact controlEscape_inj hcc hdc h
  all_goals grind [controlEscape]

theorem escapeChar_head (c : Char) (r s : List Char) : escapeChar c ++ r ≠ '"' :: s := by
  rcases escapeChar_cases c with ⟨rfl, hc⟩ | ⟨rfl, hc⟩ | ⟨-, hc⟩ | ⟨hq, -, hc⟩ <;> rw [hc]
  · simp
  · simp
  · simp [controlEscape]
  · simp [hq]

theorem writeString_readsBack (s : String) :
    ReadsBack writeString (fun _ => True) (fun _ => True) s := by
  intro t r r' _ _ _ h
  simp only [writeString, List.cons_append, List.append_assoc, List.nil_append] at h
  obtain ⟨hst, hrs⟩ :=
    flatMap_terminated escapeChar_prefixFree escapeChar_head (List.cons.inj h).2
  exact ⟨String.toList_inj.mp hst, hrs⟩

theorem toDigits_readsBack (n : ℕ) :
    ReadsBack (Nat.toDigits 10) (fun _ => True) Delimited n := by
  intro m r s _ hr hs h
  have hdigits (k : ℕ) : ∀ c ∈ Nat.toDigits 10 k, c.isDigit = true := fun c hc =>
    Nat.isDigit_of_mem_toDigits (by decide) (by decide) hc
  obtain ⟨hnm, hrs⟩ := run_append_inj (hdigits n) (hdigits m) hr hs h
  refine ⟨?_, hrs⟩
  rw [← Nat.ofDigitChars_ten_toDigits (n := n), hnm, Nat.ofDigitChars_ten_toDigits]

theorem toDigits_head {n : ℕ} {c : Char} {r s : List Char}
    (h : Nat.toDigits 10 n ++ r = c :: s) : c.isDigit = true := by
  cases hd : Nat.toDigits 10 n with
  | nil => exact absurd hd Nat.toDigits_ne_nil
  | cons d ds =>
    rw [hd] at h
    obtain rfl := (List.cons.inj h).1
    exact Nat.isDigit_of_mem_toDigits (by decide) (by decide) (hd ▸ List.mem_cons_self)

/-- An integer begins with its sign or a digit. -/
theorem integer_text_head (i : ℤ) : ∃ c cs, (Number.integer i).text.toList = c :: cs ∧
    (c = '-' ∨ c.isDigit = true) := by
  rw [integer_text_toList]
  split_ifs
  · exact ⟨_, _, rfl, .inl rfl⟩
  · cases hd : Nat.toDigits 10 i.natAbs with
    | nil => exact absurd hd Nat.toDigits_ne_nil
    | cons d ds =>
      refine ⟨d, ds, rfl, .inr ?_⟩
      exact Nat.isDigit_of_mem_toDigits (by decide) (by decide) (hd ▸ List.mem_cons_self)

theorem integer_text_readsBack (i j : ℤ) {r s : List Char} (hr : Delimited r)
    (hs : Delimited s)
    (h : (Number.integer i).text.toList ++ r = (Number.integer j).text.toList ++ s) :
    i = j ∧ r = s := by
  rw [integer_text_toList, integer_text_toList] at h
  split_ifs at h with hi hj hj
  · obtain ⟨habs, hrs⟩ := toDigits_readsBack _ trivial hr hs (List.cons.inj h).2
    exact ⟨by omega, hrs⟩
  · exact absurd (toDigits_head h.symm) (by decide)
  · exact absurd (toDigits_head h) (by decide)
  · obtain ⟨habs, hrs⟩ := toDigits_readsBack _ trivial hr hs h
    exact ⟨by omega, hrs⟩

/-- The constructor a text belongs to shows in its first character. -/
def headKind (c : Char) : ℕ :=
  if c = 'n' then 0 else if c = 't' then 1 else if c = 'f' then 2 else if c = '"' then 3
  else if c = '[' then 4 else if c = '{' then 5 else 6

def Json.kind : Json → ℕ
  | .null => 0
  | .bool true => 1
  | .bool false => 2
  | .string _ => 3
  | .array _ => 4
  | .object _ => 5
  | .number _ => 6

theorem headKind_number {c : Char} (h : c = '-' ∨ c.isDigit = true) : headKind c = 6 := by
  rcases h with rfl | h
  · decide
  · unfold headKind
    split_ifs with h1 h2 h3 h4 h5 h6 <;> first | rfl | (subst_vars; simp at h)

theorem plainText_head {v : Json} (hv : v.integersOnly = true) :
    ∃ c cs, plainText v = c :: cs ∧ headKind c = v.kind := by
  match v, hv with
  | .null, _ => exact ⟨_, _, rfl, by decide⟩
  | .bool true, _ => exact ⟨_, _, rfl, by decide⟩
  | .bool false, _ => exact ⟨_, _, rfl, by decide⟩
  | .string s, _ => exact ⟨_, _, rfl, rfl⟩
  | .array items, _ => exact ⟨_, _, rfl, rfl⟩
  | .object members, _ => exact ⟨_, _, rfl, rfl⟩
  | .number (.integer i), _ =>
    obtain ⟨c, cs, hc, hnumber⟩ := integer_text_head i
    exact ⟨c, cs, hc, headKind_number hnumber⟩
  | .number (.fractional text marked), h => simp [Json.integersOnly, Number.isInteger] at h

theorem kind_eq_of_text {v w : Json} (hv : v.integersOnly = true) (hw : w.integersOnly = true)
    {r s : List Char} (h : plainText v ++ r = plainText w ++ s) : v.kind = w.kind := by
  obtain ⟨c, cs, hc, hck⟩ := plainText_head hv
  obtain ⟨d, ds, hd, hdk⟩ := plainText_head hw
  rw [hc, hd] at h
  rw [← hck, ← hdk, (List.cons.inj h).1]

theorem plainText_ne_close {v : Json} (hv : v.integersOnly = true) (r s : List Char) :
    plainText v ++ r ≠ ']' :: s := by
  intro h
  obtain ⟨c, cs, hc, hck⟩ := plainText_head hv
  rw [hc] at h
  obtain rfl := (List.cons.inj h).1
  have hclose : headKind ']' = 6 := by decide
  match v, hv with
  | .number (.integer i), _ =>
    obtain ⟨d, ds, hd, hnumber⟩ := integer_text_head i
    rw [plainText, hd] at hc
    obtain rfl := (List.cons.inj hc).1
    rcases hnumber with hminus | hdigit
    · exact absurd hminus (by decide)
    · exact absurd hdigit (by decide)
  | .null, _ | .bool true, _ | .bool false, _ | .string _, _ | .array _, _ | .object _, _ =>
    simp [Json.kind, hclose] at hck

theorem plainText_array (items : List Json) :
    plainText (.array items) = '[' :: listText plainText ',' ']' items := by
  rw [plainText, plainTexts_eq_map, listText_eq_intercalate]
  rfl

theorem plainText_object (members : List (String × Json)) :
    plainText (.object members) =
      '{' :: listText (pairText writeString ':' plainText) ',' '}' members := by
  rw [plainText, plainPairs_eq_map, listText_eq_intercalate]
  rfl

theorem delimited_cons {c : Char} (hc : c.isDigit = false) (r : List Char) :
    Delimited (c :: r) := by
  intro d hd
  obtain rfl := Option.some.inj hd
  exact hc

theorem array_readsBack {items items' : List Json} {r s : List Char}
    (hitems : ∀ v ∈ items, ReadsBack plainText (fun w => w.integersOnly = true) Delimited v)
    (hP : Json.integersOnlyItems items = true) (hP' : Json.integersOnlyItems items' = true)
    (h : plainText (.array items) ++ r = plainText (.array items') ++ s) :
    items = items' ∧ r = s := by
  rw [plainText_array, plainText_array] at h
  exact listText_readsBack (delimited_cons (by decide)) (delimited_cons (by decide)) (by decide)
    (fun v r s hv => plainText_ne_close hv r s) ((Json.integersOnlyItems_iff items).mp hP) hitems
    ((Json.integersOnlyItems_iff items').mp hP') trivial trivial (List.cons.inj h).2

theorem object_readsBack {members members' : List (String × Json)} {r s : List Char}
    (hmembers : ∀ p ∈ members,
      ReadsBack plainText (fun w => w.integersOnly = true) Delimited p.2)
    (hP : Json.integersOnlyMembers members = true)
    (hP' : Json.integersOnlyMembers members' = true)
    (h : plainText (.object members) ++ r = plainText (.object members') ++ s) :
    members = members' ∧ r = s := by
  rw [plainText_object, plainText_object] at h
  have hhead (p : String × Json) (r s : List Char) (_ : p.2.integersOnly = true) :
      pairText writeString ':' plainText p ++ r ≠ '}' :: s := by
    simp [pairText, writeString]
  exact listText_readsBack (delimited_cons (by decide)) (delimited_cons (by decide)) (by decide)
    hhead ((Json.integersOnlyMembers_iff members).mp hP)
    (fun p hp => pairText_readsBack writeString_readsBack (hmembers p hp))
    ((Json.integersOnlyMembers_iff members').mp hP') trivial trivial (List.cons.inj h).2

mutual
/-- A text of integers only determines the value it was written from and what follows it. -/
theorem plainText_readsBack : (v : Json) → v.integersOnly = true →
    ReadsBack plainText (fun w => w.integersOnly = true) Delimited v
  | .null, hv => by
    intro w r s hw _ _ h
    cases w <;> have hk := kind_eq_of_text hv hw h <;> simp [Json.kind] at hk
    case null => exact ⟨rfl, List.append_cancel_left h⟩
    case bool b => cases b <;> simp at hk
  | .bool a, hv => by
    intro w r s hw _ _ h
    cases a <;> cases w <;> have hk := kind_eq_of_text hv hw h <;> simp [Json.kind] at hk
    all_goals rename_i b; cases b <;> simp at hk; exact ⟨rfl, List.append_cancel_left h⟩
  | .string a, hv => by
    intro w r s hw _ _ h
    cases w <;> have hk := kind_eq_of_text hv hw h <;> simp [Json.kind] at hk
    case bool b => cases b <;> simp at hk
    case string b =>
      obtain ⟨rfl, hrs⟩ := writeString_readsBack a trivial trivial trivial h
      exact ⟨rfl, hrs⟩
  | .number (.fractional text marked), hv => by simp [Json.integersOnly, Number.isInteger] at hv
  | .number (.integer i), hv => by
    intro w r s hw hr hs h
    cases w <;> have hk := kind_eq_of_text hv hw h <;> simp [Json.kind] at hk
    case bool b => cases b <;> simp at hk
    case number n =>
      cases n with
      | fractional text marked => simp [Json.integersOnly, Number.isInteger] at hw
      | integer j =>
        obtain ⟨rfl, hrs⟩ := integer_text_readsBack i j hr hs h
        exact ⟨rfl, hrs⟩
  | .array items, hv => by
    intro w r s hw _ _ h
    cases w <;> have hk := kind_eq_of_text hv hw h <;> simp [Json.kind] at hk
    case bool b => cases b <;> simp at hk
    case array items' =>
      obtain ⟨rfl, hrs⟩ := array_readsBack (plainItems_readsBack items hv) hv hw h
      exact ⟨rfl, hrs⟩
  | .object members, hv => by
    intro w r s hw _ _ h
    cases w <;> have hk := kind_eq_of_text hv hw h <;> simp [Json.kind] at hk
    case bool b => cases b <;> simp at hk
    case object members' =>
      obtain ⟨rfl, hrs⟩ := object_readsBack (plainMembers_readsBack members hv) hv hw h
      exact ⟨rfl, hrs⟩

theorem plainItems_readsBack : (vs : List Json) → Json.integersOnlyItems vs = true →
    ∀ v ∈ vs, ReadsBack plainText (fun w => w.integersOnly = true) Delimited v
  | [], _ => by simp
  | v :: vs, h => by
    have hboth := Bool.and_eq_true_iff.mp h
    exact List.forall_mem_cons.mpr
      ⟨plainText_readsBack v hboth.1, plainItems_readsBack vs hboth.2⟩

theorem plainMembers_readsBack : (ms : List (String × Json)) →
    Json.integersOnlyMembers ms = true →
    ∀ p ∈ ms, ReadsBack plainText (fun w => w.integersOnly = true) Delimited p.2
  | [], _ => by simp
  | (_, v) :: ms, h => by
    have hboth := Bool.and_eq_true_iff.mp h
    exact List.forall_mem_cons.mpr
      ⟨plainText_readsBack v hboth.1, plainMembers_readsBack ms hboth.2⟩
end

/-! ## Equality up to member order is equality of normal forms -/

mutual
theorem sameValue_iff : (v w : Json) → v.distinctKeys → w.distinctKeys →
    (Json.SameValue v w ↔ v.normalize = w.normalize)
  | .null, w, _, _ => by cases w <;> simp [Json.SameValue, Json.normalize]
  | .bool a, w, _, _ => by cases w <;> simp [Json.SameValue, Json.normalize]
  | .number m, w, _, _ => by cases w <;> simp [Json.SameValue, Json.normalize]
  | .string s, w, _, _ => by cases w <;> simp [Json.SameValue, Json.normalize]
  | .array xs, w, hv, hw => by
    cases w with
    | array ys =>
      simp only [Json.SameValue, Json.normalize, Json.array.injEq]
      exact sameItems_iff xs ys hv hw
    | _ => simp [Json.SameValue, Json.normalize]
  | .object ms, w, hv, hw => by
    cases w with
    | object ns =>
      simp only [Json.SameValue, Json.normalize, Json.object.injEq]
      rw [sameMembers_iff ms ns hv.2 hw.2]
      have hkeys : ((Json.normalizeMembers ms).map Prod.fst).Nodup := by
        rw [Json.normalizeMembers_eq_map, List.map_map]
        exact hv.1
      constructor
      · exact Json.sortMembers_eq_of_perm hkeys
      · intro h
        have hms := Json.sortMembers_perm (Json.normalizeMembers ms)
        rw [h] at hms
        exact hms.symm.trans (Json.sortMembers_perm _)
    | _ => simp [Json.SameValue, Json.normalize]

theorem sameItems_iff : (vs ws : List Json) → Json.distinctKeysItems vs →
    Json.distinctKeysItems ws →
    (Json.SameItems vs ws ↔ Json.normalizeItems vs = Json.normalizeItems ws)
  | [], ws, _, _ => by cases ws <;> simp [Json.SameItems, Json.normalizeItems]
  | v :: vs, ws, hv, hw => by
    cases ws with
    | nil => simp [Json.SameItems, Json.normalizeItems]
    | cons w ws =>
      simp only [Json.SameItems, Json.normalizeItems, List.cons.injEq]
      rw [sameValue_iff v w hv.1 hw.1, sameItems_iff vs ws hv.2 hw.2]

theorem sameMembers_iff : (ms ns : List (String × Json)) → Json.distinctKeysMembers ms →
    Json.distinctKeysMembers ns →
    (Json.SameMembers ms ns ↔ (Json.normalizeMembers ms).Perm (Json.normalizeMembers ns))
  | [], ns, _, _ => by
    cases ns with
    | nil => simp [Json.SameMembers, Json.normalizeMembers]
    | cons p ns => simp [Json.SameMembers, Json.normalizeMembers]
  | (k, v) :: ms, ns, hv, hn => by
    have hnmem := (Json.distinctKeysMembers_iff ns).mp hn
    simp only [Json.SameMembers, Json.normalizeMembers]
    constructor
    · rintro ⟨w, rest, hperm, hvw, hrest⟩
      have hrestkeys : Json.distinctKeysMembers rest := (Json.distinctKeysMembers_iff rest).mpr
        fun p hp => hnmem p (hperm.mem_iff.mpr (List.mem_cons_of_mem _ hp))
      have hw : w.distinctKeys := hnmem (k, w) (hperm.mem_iff.mpr List.mem_cons_self)
      rw [sameValue_iff v w hv.1 hw] at hvw
      rw [sameMembers_iff ms rest hv.2 hrestkeys] at hrest
      have hns : (Json.normalizeMembers ns).Perm
          ((k, w.normalize) :: Json.normalizeMembers rest) := by
        rw [Json.normalizeMembers_eq_map, Json.normalizeMembers_eq_map]
        exact hperm.map _
      rw [hvw]
      exact (hrest.cons _).trans hns.symm
    · intro h
      -- the first member on the left names the member to pull out on the right
      have hmem : (k, v.normalize) ∈ Json.normalizeMembers ns :=
        h.mem_iff.mp List.mem_cons_self
      rw [Json.normalizeMembers_eq_map, List.mem_map] at hmem
      obtain ⟨⟨k', w⟩, hin, heq⟩ := hmem
      obtain ⟨rfl, hwv⟩ := Prod.mk.inj heq
      obtain ⟨pre, post, rfl⟩ := List.append_of_mem hin
      have hmiddle : (pre ++ (k', w) :: post).Perm ((k', w) :: (pre ++ post)) :=
        List.perm_middle
      have hrestkeys : Json.distinctKeysMembers (pre ++ post) :=
        (Json.distinctKeysMembers_iff _).mpr fun p hp =>
          hnmem p (hmiddle.mem_iff.mpr (List.mem_cons_of_mem _ hp))
      refine ⟨w, pre ++ post, hmiddle, ?_, ?_⟩
      · exact (sameValue_iff v w hv.1 (hnmem (k', w) hin)).mpr hwv.symm
      · rw [sameMembers_iff ms (pre ++ post) hv.2 hrestkeys]
        have hns : (Json.normalizeMembers (pre ++ (k', w) :: post)).Perm
            ((k', w.normalize) :: Json.normalizeMembers (pre ++ post)) := by
          rw [Json.normalizeMembers_eq_map, Json.normalizeMembers_eq_map]
          exact hmiddle.map _
        have hboth := h.trans hns
        simp only at hwv
        rw [hwv] at hboth
        exact hboth.cons_inv
end

/-! ## The canonical text -/

theorem sortMembers_integersOnly (ms : List (String × Json)) :
    Json.integersOnlyMembers (Json.sortMembers ms) = Json.integersOnlyMembers ms := by
  rw [Bool.eq_iff_iff, Json.integersOnlyMembers_iff, Json.integersOnlyMembers_iff]
  exact forall_congr' fun p => by rw [(Json.sortMembers_perm ms).mem_iff]

mutual
theorem normalize_integersOnly : (v : Json) → v.normalize.integersOnly = v.integersOnly
  | .null | .bool _ | .number _ | .string _ => rfl
  | .array items => by
    simp only [Json.normalize, Json.integersOnly, normalizeItems_integersOnly items]
  | .object members => by
    simp only [Json.normalize, Json.integersOnly, sortMembers_integersOnly,
      normalizeMembers_integersOnly members]

theorem normalizeItems_integersOnly : (vs : List Json) →
    Json.integersOnlyItems (Json.normalizeItems vs) = Json.integersOnlyItems vs
  | [] => rfl
  | v :: vs => by
    simp only [Json.normalizeItems, Json.integersOnlyItems, normalize_integersOnly v,
      normalizeItems_integersOnly vs]

theorem normalizeMembers_integersOnly : (ms : List (String × Json)) →
    Json.integersOnlyMembers (Json.normalizeMembers ms) = Json.integersOnlyMembers ms
  | [] => rfl
  | (_, v) :: ms => by
    simp only [Json.normalizeMembers, Json.integersOnlyMembers, normalize_integersOnly v,
      normalizeMembers_integersOnly ms]
end

theorem normalize_eq_of_canonicalJson {v w : Json} {s : String} (hv : canonicalJson v = .ok s)
    (hw : canonicalJson w = .ok s) : v.normalize = w.normalize := by
  have hvi := (canonicalJson_isOk_iff v).mp ⟨s, hv⟩
  have hwi := (canonicalJson_isOk_iff w).mp ⟨s, hw⟩
  rw [canonicalJson_ok hvi] at hv
  rw [canonicalJson_ok hwi, ← hv] at hw
  have htext := String.ofList_injective (Except.ok.inj hw)
  have hempty : Delimited [] := fun c hc => by simp at hc
  rw [← normalize_integersOnly] at hvi hwi
  exact (plainText_readsBack v.normalize hvi hwi hempty hempty (by rw [htext])).1

/-- The canonical text exists exactly for values of integers, and it is a faithful identity:
two values have one text, and one byte string to hash, exactly when they are equal up to the
order of object members. -/
theorem canonicalJson_faithful (v w : Json) (hv : v.distinctKeys) (hw : w.distinctKeys) :
    ((∃ s, canonicalJson v = .ok s) ↔ v.integersOnly = true) ∧
      ∀ s t, canonicalJson v = .ok s → canonicalJson w = .ok t →
        (s = t ↔ Json.SameValue v w) ∧ (asBytes s = asBytes t ↔ Json.SameValue v w) := by
  refine ⟨canonicalJson_isOk_iff v, fun s t hs ht => ?_⟩
  have htext : s = t ↔ Json.SameValue v w := by
    rw [sameValue_iff v w hv hw]
    constructor
    · rintro rfl
      exact normalize_eq_of_canonicalJson hs ht
    · intro hnorm
      rw [canonicalJson_ok ((canonicalJson_isOk_iff v).mp ⟨s, hs⟩)] at hs
      rw [canonicalJson_ok ((canonicalJson_isOk_iff w).mp ⟨t, ht⟩), ← hnorm] at ht
      exact Except.ok.inj (hs.symm.trans ht)
  exact ⟨htext, asBytes_injective.eq_iff.trans htext⟩

/-- `{"z":[1,{"k":"v"}],"a":-2}` and the same members in the other order. -/
theorem canonicalJson_faithful_reordered :
    canonicalJson (.object [("z", .array [.number (.integer 1), .object [("k", .string "v")]]),
        ("a", .number (.integer (-2)))]) = .ok "\x7b\"a\":-2,\"z\":[1,\x7b\"k\":\"v\"\x7d]\x7d" ∧
      Json.SameValue
        (.object [("z", .array [.number (.integer 1), .object [("k", .string "v")]]),
          ("a", .number (.integer (-2)))])
        (.object [("a", .number (.integer (-2))),
          ("z", .array [.number (.integer 1), .object [("k", .string "v")]])]) := by
  refine ⟨by decide, ?_⟩
  refine ((canonicalJson_faithful _ _ ?_ ?_).2 "\x7b\"a\":-2,\"z\":[1,\x7b\"k\":\"v\"\x7d]\x7d"
    "\x7b\"a\":-2,\"z\":[1,\x7b\"k\":\"v\"\x7d]\x7d" (by decide) (by decide)).1.mp rfl
  · simp [Json.distinctKeys, Json.distinctKeysMembers, Json.distinctKeysItems]
  · simp [Json.distinctKeys, Json.distinctKeysMembers, Json.distinctKeysItems]

end Hacp.V2
