import Hacp.Lib.Lookup
import Hacp.Lib.Reader
import Hacp.V2.CanonicalForm

/-!
# JSON texts

Which value a text denotes, apart from how the text came about: strings with their
escapes, decimal integers, brackets within a bounded depth. Texts are compact and
keep the members of an object in the order they are written in. The canonical text of
a value is one of these and denotes it.
-/
namespace Hacp.V2
open Lib

def codePoint (a b c d : ℕ) : ℕ := ((a * 16 + b) * 16 + c) * 16 + d

/-- One character inside a string. -/
inductive SpellsChar : List Char → Char → Prop where
  | plain {c : Char} (hquote : c ≠ '"') (hslash : c ≠ '\\') (hcontrol : 0x1F < c.toNat) :
      SpellsChar [c] c
  | quote : SpellsChar ['\\', '"'] '"'
  | backslash : SpellsChar ['\\', '\\'] '\\'
  | code {a b d e : ℕ} {c : Char} (ha : a < 16) (hb : b < 16) (hd : d < 16) (he : e < 16)
      (hc : c.toNat = codePoint a b d e) :
      SpellsChar ['\\', 'u', hexDigit a, hexDigit b, hexDigit d, hexDigit e] c

inductive Spells : List Char → List Char → Prop where
  | nil : Spells [] []
  | cons {w cs s : List Char} {c : Char} (hchar : SpellsChar w c) (hrest : Spells cs s) :
      Spells (w ++ cs) (c :: s)

def memberText (m : (List Char × String) × List Char × Json) : List Char :=
  '"' :: m.1.1 ++ '"' :: ':' :: m.2.1

/-- The text denotes the value and nests at most so many brackets. -/
inductive Denotes : ℕ → List Char → Json → Prop where
  | null {n : ℕ} : Denotes n ['n', 'u', 'l', 'l'] .null
  | true {n : ℕ} : Denotes n ['t', 'r', 'u', 'e'] (.bool true)
  | false {n : ℕ} : Denotes n ['f', 'a', 'l', 's', 'e'] (.bool false)
  | integer {n : ℕ} (i : ℤ) : Denotes n (Number.integer i).text.toList (.number (.integer i))
  | string {n : ℕ} {cs : List Char} {s : String} (h : Spells cs s.toList) :
      Denotes n ('"' :: cs ++ ['"']) (.string s)
  | array {n : ℕ} {items : List (List Char × Json)} (h : ∀ p ∈ items, Denotes n p.1 p.2) :
      Denotes (n + 1) ('[' :: listText Prod.fst ',' ']' items) (.array (items.map Prod.snd))
  | object {n : ℕ} {members : List ((List Char × String) × List Char × Json)}
      (hkeys : ∀ m ∈ members, Spells m.1.1 m.1.2.toList)
      (h : ∀ m ∈ members, Denotes n m.2.1 m.2.2) :
      Denotes (n + 1) ('{' :: listText memberText ',' '}' members)
        (.object (members.map fun m => (m.1.2, m.2.2)))

mutual
def Json.depth : Json → ℕ
  | .array items => depthItems items + 1
  | .object members => depthMembers members + 1
  | _ => 0

def Json.depthItems : List Json → ℕ
  | [] => 0
  | v :: vs => max v.depth (depthItems vs)

def Json.depthMembers : List (String × Json) → ℕ
  | [] => 0
  | (_, v) :: ms => max v.depth (depthMembers ms)
end

theorem Json.depthItems_le_iff {vs : List Json} {n : ℕ} :
    depthItems vs ≤ n ↔ ∀ v ∈ vs, v.depth ≤ n := by
  induction vs with
  | nil => simp [depthItems]
  | cons v vs ih => simp [depthItems, ih]

theorem Json.depthMembers_le_iff {ms : List (String × Json)} {n : ℕ} :
    depthMembers ms ≤ n ↔ ∀ p ∈ ms, p.2.depth ≤ n := by
  induction ms with
  | nil => simp [depthMembers]
  | cons p ms ih => simp [depthMembers, ih]

mutual
def Json.weight : Json → ℕ
  | .array items => weightItems items + 1
  | .object members => weightMembers members + 1
  | _ => 1

def Json.weightItems : List Json → ℕ
  | [] => 0
  | v :: vs => v.weight + weightItems vs

def Json.weightMembers : List (String × Json) → ℕ
  | [] => 0
  | (_, v) :: ms => v.weight + weightMembers ms
end

theorem Json.weightItems_eq_sum (vs : List Json) : weightItems vs = (vs.map weight).sum := by
  induction vs with
  | nil => rfl
  | cons v vs ih => rw [weightItems, ih, List.map_cons, List.sum_cons]

theorem Json.weightMembers_eq_sum (ms : List (String × Json)) :
    weightMembers ms = (ms.map fun p => p.2.weight).sum := by
  induction ms with
  | nil => rfl
  | cons p ms ih => rw [weightMembers, ih, List.map_cons, List.sum_cons]

theorem Json.one_le_weight (v : Json) : 1 ≤ v.weight := by
  cases v <;> simp [weight]

theorem Json.length_lt_weight (items : List Json) : items.length < (Json.array items).weight := by
  rw [weight, weightItems_eq_sum, Nat.lt_succ_iff]
  have hone : ∀ n ∈ items.map weight, 1 ≤ n :=
    List.forall_mem_map.mpr fun v _ => v.one_le_weight
  simpa using List.length_le_sum_of_one_le _ hone

theorem Json.weight_member {ms : List (String × Json)} {p : String × Json} (h : p ∈ ms) :
    p.2.weight ≤ (Json.object ms).weight := by
  rw [weight, weightMembers_eq_sum]
  exact (List.single_le_sum (fun _ _ => Nat.zero_le _) _
    (List.mem_map_of_mem (f := fun p => p.2.weight) h)).trans (Nat.le_succ _)

theorem Json.weight_get? {v u : Json} {key : String} (h : v.get? key = some u) :
    u.weight ≤ v.weight := by
  cases v with
  | object ms => exact weight_member (p := (key, u)) (pairs_mem_of_lookup h)
  | _ => cases h

/-- A text is at least as long as its value has parts. -/
theorem Denotes.weight_le {n : ℕ} {w : List Char} {v : Json} (h : Denotes n w v) :
    v.weight ≤ w.length := by
  induction h with
  | null | true | false => simp [Json.weight]
  | integer i =>
    have hone : (Json.number (.integer i)).weight = 1 := by simp [Json.weight]
    rw [integer_text_toList, hone]
    split_ifs
    · simp
    · exact List.length_pos_of_ne_nil Nat.toDigits_ne_nil
  | string => simp [Json.weight]
  | array h ih =>
    rw [Json.weight, Json.weightItems_eq_sum, List.map_map, List.length_cons]
    exact Nat.succ_le_succ (sum_le_length_listText ',' ']' ih)
  | @object _ members hkeys h ih =>
    rw [Json.weight, Json.weightMembers_eq_sum, List.map_map, List.length_cons]
    refine Nat.succ_le_succ (sum_le_length_listText ',' '}' fun m hm => (ih m hm).trans ?_)
    simp only [memberText, List.cons_append, List.length_cons, List.length_append]
    omega

/-- The name under which `serde_json`, with `arbitrary_precision`, hands on the text of a number. -/
def numberMarker : String := "$serde_json::private::Number"

mutual
/-- No object has a member under the name kept for numbers. -/
def Json.unmarked : Json → Bool
  | .array items => unmarkedItems items
  | .object members => unmarkedMembers members
  | _ => true

def Json.unmarkedItems : List Json → Bool
  | [] => true
  | v :: vs => v.unmarked && unmarkedItems vs

def Json.unmarkedMembers : List (String × Json) → Bool
  | [] => true
  | (key, v) :: ms => key != numberMarker && v.unmarked && unmarkedMembers ms
end

theorem Json.unmarkedItems_iff (vs : List Json) :
    unmarkedItems vs = true ↔ ∀ v ∈ vs, v.unmarked = true := by
  induction vs with
  | nil => simp [unmarkedItems]
  | cons v vs ih => simp [unmarkedItems, ih]

theorem Json.unmarkedMembers_iff (ms : List (String × Json)) :
    unmarkedMembers ms = true ↔ ∀ p ∈ ms, p.1 ≠ numberMarker ∧ p.2.unmarked = true := by
  induction ms with
  | nil => simp [unmarkedMembers]
  | cons p ms ih => simp [unmarkedMembers, ih]

/-! ## The canonical text denotes its value -/

theorem escapeChar_spells (c : Char) : SpellsChar (escapeChar c) c := by
  unfold escapeChar
  split_ifs with hquote hslash hcontrol
  · exact hquote ▸ .quote
  · exact hslash ▸ .backslash
  · refine .code (a := 0) (b := 0) (by decide) (by decide) (by omega) (by omega) ?_
    simp only [codePoint]
    omega
  · exact .plain hquote hslash (by omega)

theorem escapes_spell (s : List Char) : Spells (s.flatMap escapeChar) s := by
  induction s with
  | nil => exact .nil
  | cons c s ih => exact .cons (escapeChar_spells c) ih

mutual
theorem plainText_denotes {n : ℕ} : (v : Json) → v.integersOnly = true → v.depth ≤ n →
    Denotes n (plainText v) v
  | .null, _, _ => .null
  | .bool Bool.true, _, _ => .true
  | .bool Bool.false, _, _ => .false
  | .number (.integer i), _, _ => .integer i
  | .number (.fractional _ _), h, _ => by simp [Json.integersOnly, Number.isInteger] at h
  | .string s, _, _ => .string (escapes_spell s.toList)
  | .array items, h, hn => by
    obtain ⟨m, rfl⟩ := Nat.exists_eq_add_of_le' hn
    have hitems := plainItems_denote (n := m + Json.depthItems items) items h (by omega)
    have hwords : ∀ p ∈ items.map fun v => (plainText v, v),
        Denotes (m + Json.depthItems items) p.1 p.2 := List.forall_mem_map.mpr hitems
    have harray := Denotes.array hwords
    simp only [listText_map, List.map_map, Function.comp_def, List.map_id'] at harray
    rw [plainText_array]
    exact harray
  | .object members, h, hn => by
    obtain ⟨m, rfl⟩ := Nat.exists_eq_add_of_le' hn
    have hmembers := plainMembers_denote (n := m + Json.depthMembers members) members h (by omega)
    let words := members.map fun p => ((p.1.toList.flatMap escapeChar, p.1), (plainText p.2, p.2))
    have hkeys : ∀ q ∈ words, Spells q.1.1 q.1.2.toList :=
      List.forall_mem_map.mpr fun p _ => escapes_spell p.1.toList
    have hvalues : ∀ q ∈ words, Denotes (m + Json.depthMembers members) q.2.1 q.2.2 :=
      List.forall_mem_map.mpr hmembers
    have hobject := Denotes.object hkeys hvalues
    simp only [words, listText_map, List.map_map, Function.comp_def, List.map_id',
      memberText] at hobject
    have hpair : (fun p : String × Json =>
        '"' :: p.1.toList.flatMap escapeChar ++ '"' :: ':' :: plainText p.2) =
        pairText writeString ':' plainText := by
      funext p
      simp [pairText, writeString]
    rw [plainText_object, ← hpair]
    exact hobject

theorem plainItems_denote {n : ℕ} : (vs : List Json) → Json.integersOnlyItems vs = true →
    Json.depthItems vs ≤ n → ∀ v ∈ vs, Denotes n (plainText v) v
  | [], _, _ => by simp
  | v :: vs, h, hn => by
    have hboth := Bool.and_eq_true_iff.mp h
    have hdepth := Nat.max_le.mp hn
    exact List.forall_mem_cons.mpr
      ⟨plainText_denotes v hboth.1 hdepth.1, plainItems_denote vs hboth.2 hdepth.2⟩

theorem plainMembers_denote {n : ℕ} : (ms : List (String × Json)) →
    Json.integersOnlyMembers ms = true → Json.depthMembers ms ≤ n →
    ∀ p ∈ ms, Denotes n (plainText p.2) p.2
  | [], _, _ => by simp
  | (_, v) :: ms, h, hn => by
    have hboth := Bool.and_eq_true_iff.mp h
    have hdepth := Nat.max_le.mp hn
    exact List.forall_mem_cons.mpr
      ⟨plainText_denotes v hboth.1 hdepth.1, plainMembers_denote ms hboth.2 hdepth.2⟩
end

/-! ## Texts have no control characters -/

theorem visible_hexDigit : ∀ n < 16, 0x1F < (hexDigit n).toNat := by decide

theorem SpellsChar.visible {w : List Char} {c : Char} (h : SpellsChar w c) :
    ∀ d ∈ w, 0x1F < d.toNat := by
  cases h with
  | plain hquote hslash hcontrol => simpa using hcontrol
  | quote => simp
  | backslash => simp
  | code ha hb hd he hc =>
    simp only [List.forall_mem_cons]
    exact ⟨by decide, by decide, visible_hexDigit _ ha, visible_hexDigit _ hb, visible_hexDigit _ hd,
      visible_hexDigit _ he, by simp⟩

theorem Spells.visible {w s : List Char} (h : Spells w s) : ∀ d ∈ w, 0x1F < d.toNat := by
  induction h with
  | nil => simp
  | cons hchar hrest ih =>
    intro d hd
    rcases List.mem_append.mp hd with hd | hd
    · exact hchar.visible d hd
    · exact ih d hd

theorem visible_digits (n : ℕ) : ∀ d ∈ Nat.toDigits 10 n, 0x1F < d.toNat := by
  intro d hd
  have hdigit := Char.isDigit_iff_toNat.mp
    (Nat.isDigit_of_mem_toDigits (by decide) (by decide) hd)
  have h0 : '0'.toNat = 48 := rfl
  omega

theorem Denotes.visible {n : ℕ} {w : List Char} {v : Json} (h : Denotes n w v) :
    ∀ d ∈ w, 0x1F < d.toNat := by
  induction h with
  | null => simp
  | true => simp
  | false => simp
  | integer i =>
    rw [integer_text_toList]
    split_ifs
    · rw [List.forall_mem_cons]
      exact ⟨by decide, visible_digits _⟩
    · exact visible_digits _
  | string hs =>
    rw [List.forall_mem_append, List.forall_mem_cons]
    exact ⟨⟨by decide, hs.visible⟩, by simp⟩
  | array h ih =>
    rw [List.forall_mem_cons]
    exact ⟨by decide, forall_mem_listText (by decide) (by decide) ih⟩
  | object hkeys h ih =>
    rw [List.forall_mem_cons]
    refine ⟨by decide, forall_mem_listText (by decide) (by decide) fun m hm => ?_⟩
    rw [memberText, List.forall_mem_append, List.forall_mem_cons, List.forall_mem_cons,
      List.forall_mem_cons]
    exact ⟨⟨by decide, (hkeys m hm).visible⟩, by decide, by decide, ih m hm⟩

end Hacp.V2
