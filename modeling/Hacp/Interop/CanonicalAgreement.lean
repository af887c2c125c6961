import Hacp.Interop.Peer

/-!
# Where the two canonicalizers agree

The peer's writer follows, chunk by chunk, the plain text of the normalized value where
every number is an integer that can be printed and the frames suffice, and refuses every
other value. The reference implementation asks only for integers, so the two differ on
integers of too many digits and on values that nest too deep. Key order is the one place
where the two could see different lists; both sort them by their encoded bytes.
-/
namespace Hacp.Interop
open Lib V2 Appender

/-- The characters a chunk stands for. -/
abbrev FollowsText (w : Out) (passes : Bool) (text : List Char) : Prop :=
  Follows String.toList w passes text

mutual
/-- The frames that writing a value takes. -/
def frames : Json → ℕ
  | .string _ => 2
  | .array items => framesItems items + 1
  | .object members => framesMembers members + 1
  | _ => 1

def framesItems : List Json → ℕ
  | [] => 0
  | v :: vs => max (frames v) (framesItems vs)

def framesMembers : List (String × Json) → ℕ
  | [] => 0
  | (_, v) :: ms => max (frames v) (framesMembers ms)
end

mutual
/-- Every number is an integer of no more digits than are printed. -/
def printable : Json → Bool
  | .number (.integer i) => (Nat.toDigits 10 i.natAbs).length ≤ maxStrDigits
  | .number (.fractional _ _) => false
  | .array items => printableItems items
  | .object members => printableMembers members
  | _ => true

def printableItems : List Json → Bool
  | [] => true
  | v :: vs => printable v && printableItems vs

def printableMembers : List (String × Json) → Bool
  | [] => true
  | (_, v) :: ms => printable v && printableMembers ms
end

theorem one_le_frames (v : Json) : 1 ≤ frames v := by
  cases v <;> simp [frames]

theorem format04x_control {c : Char} (hc : c.toNat < 0x20) :
    (format04x c.toNat).toList = ['0', '0', hexDigit (c.toNat / 16), hexDigit (c.toNat % 16)] := by
  have hall : ∀ n < 0x20,
      (format04x n).toList = ['0', '0', hexDigit (n / 16), hexDigit (n % 16)] := by decide
  exact hall c.toNat hc

/-- The peer escapes a character as the reference implementation does. -/
theorem stringChunk_toList (c : Char) : (stringChunk c).toList = escapeChar c := by
  unfold stringChunk escapeChar
  by_cases hquote : c = '"'
  · simp [hquote]
  · by_cases hslash : c = '\\'
    · simp [hslash]
    · by_cases hcontrol : c.toNat < 0x20
      · rw [if_neg hquote, if_neg hslash, if_pos hcontrol, if_neg hquote, if_neg hslash,
          if_pos (Nat.le_of_lt_succ hcontrol), String.toList_append, format04x_control hcontrol]
        rfl
      · rw [if_neg hquote, if_neg hslash, if_neg hcontrol, if_neg hquote, if_neg hslash,
          if_neg (fun h => hcontrol (Nat.lt_succ_of_le h))]
        simp [Char.toString]

theorem writeChars_follows (chars : List Char) :
    FollowsText (writeChars chars) true (chars.flatMap escapeChar) := by
  refine .writes (chars.map stringChunk) (fun out => ?_) ?_
  · induction chars generalizing out with
    | nil => simp [writeChars]
    | cons c chars ih => simp [writeChars, ih]
  · rw [List.flatMap_map]
    exact List.flatMap_congr fun c _ => stringChunk_toList c

theorem writeString_succ (free : ℕ) (s : String) : writeString (free + 1) s =
    (emit "\"").andThen ((writeChars s.toList).andThen (emit "\"")) := by
  funext out
  rfl

theorem writeString_follows (free : ℕ) (s : String) :
    FollowsText (writeString free s) (decide (1 ≤ free)) (V2.writeString s) := by
  cases free with
  | zero => exact .refuses fun _ => ⟨_, rfl⟩
  | succ free =>
    rw [writeString_succ]
    exact ((Follows.emit "\"").andThen ((writeChars_follows s.toList).andThen
      (Follows.emit "\""))).congr (by simp) rfl

theorem comma_follows (i : ℕ) : FollowsText (comma i) true (if i = 0 then [] else [',']) := by
  by_cases hi : i = 0
  · have hskip : comma i = skip := by
      funext out
      simp [comma, hi, skip]
    rw [hskip, if_pos hi]
    exact .skip
  · have hemit : comma i = emit "," := by
      funext out
      simp [comma, hi, emit]
    rw [hemit, if_neg hi]
    exact .emit ","

/-- With these frames left, the peer reads and writes `v` as the reference implementation does, if it
can. -/
def Agrees (free : ℕ) (v : Json) : Prop :=
  FollowsText (write (loads v) free) (printable v && decide (frames v ≤ free)) (plainText v.normalize)

theorem agrees_no_frame (v : Json) : Agrees 0 v := by
  have hframes : decide (frames v ≤ 0) = false :=
    decide_eq_false (Nat.not_le.mpr (one_le_frames v))
  unfold Agrees
  rw [hframes, Bool.and_false]
  refine .refuses fun out => ⟨exceeded, ?_⟩
  cases loads v <;> rfl

theorem writeItems_cons (free i : ℕ) (item : PyValue) (items : List PyValue) :
    writeItems free i (item :: items) =
      (comma i).andThen ((write item free).andThen (writeItems free (i + 1) items)) := by
  funext out
  rfl

theorem writeItems_follows {free : ℕ} {vs : List Json} (hvs : ∀ v ∈ vs, Agrees free v) (i : ℕ) :
    FollowsText (writeItems free i (loadsItems vs))
      (printableItems vs && decide (framesItems vs ≤ free))
      (separated ',' i (plainTexts (Json.normalizeItems vs))) := by
  induction vs generalizing i with
  | nil =>
    rw [Json.normalizeItems, plainTexts, separated_nil]
    exact .skip
  | cons v vs ih =>
    rw [List.forall_mem_cons] at hvs
    rw [loadsItems, writeItems_cons, Json.normalizeItems, plainTexts, separated_cons,
      List.append_assoc]
    refine ((comma_follows i).andThen (hvs.1.andThen (ih hvs.2 (i + 1)))).congr ?_ rfl
    rw [printableItems, framesItems, Bool.eq_iff_iff]
    simp only [Bool.and_eq_true, decide_eq_true_eq, Nat.max_le]
    tauto

theorem writeEntries_cons (free i : ℕ) (key : String) (item : Out) (entries : List (String × Out)) :
    writeEntries free i ((key, item) :: entries) = (comma i).andThen ((writeString free key).andThen
      ((emit ":").andThen (item.andThen (writeEntries free (i + 1) entries)))) := by
  funext out
  rfl

/-- A value takes the frame that its key takes. -/
theorem writeEntries_follows {free : ℕ} {ms : List (String × Json)}
    (hms : ∀ p ∈ ms, Agrees free p.2) (i : ℕ) :
    FollowsText (writeEntries free i (ms.map fun p => (p.1, write (loads p.2) free)))
      (printableMembers ms && decide (framesMembers ms ≤ free))
      (separated ',' i (plainPairs (Json.normalizeMembers ms))) := by
  induction ms generalizing i with
  | nil =>
    rw [Json.normalizeMembers, plainPairs, separated_nil]
    exact .skip
  | cons p ms ih =>
    obtain ⟨key, v⟩ := p
    rw [List.forall_mem_cons] at hms
    rw [List.map_cons, writeEntries_cons, Json.normalizeMembers, plainPairs, separated_cons,
      List.append_assoc]
    have hentry := (writeString_follows free key).andThen
      ((Follows.emit ":").andThen (hms.1.andThen (ih hms.2 (i + 1))))
    refine ((comma_follows i).andThen hentry).congr ?_ (by simp)
    have hone := one_le_frames v
    rw [printableMembers, framesMembers, Bool.eq_iff_iff]
    simp only [Bool.and_eq_true, decide_eq_true_eq, Nat.max_le]
    grind

theorem entryWriters_loads (free : ℕ) (ms : List (String × Json)) :
    entryWriters free (loadsMembers ms) = ms.map fun p => (p.1, write (loads p.2) free) := by
  induction ms with
  | nil => rfl
  | cons p ms ih =>
    rw [loadsMembers, entryWriters, ih, List.map_cons]

/-- With distinct keys there is one order by key bytes. -/
theorem sortedByKey_eq_sortMembers {α : Type} {free : ℕ} {items : List (String × α)}
    (hkeys : (items.map Prod.fst).Nodup) (hfree : free ≠ 0 ∨ items = []) :
    sortedByKey free items = .ok (Json.sortMembers items) := by
  let sorted := items.mergeSort fun p q => (compare (asBytes p.1) (asBytes q.1)).isLE
  have hsorted : sorted.Pairwise Json.keyLe := by
    apply List.pairwise_mergeSort
    · exact fun p q r => byteLe_trans
    · intro p q
      rw [Bool.or_eq_true]
      exact byteLe_total p.1 q.1
  have hperm : sorted.Perm items := List.mergeSort_perm items _
  have heq : sorted = Json.sortMembers items := by
    apply List.Perm.eq_of_pairwise _ hsorted (Json.sortMembers_sorted items)
      (hperm.trans (Json.sortMembers_perm items).symm)
    intro p q hp hq hpq hqp
    have hq' : q ∈ items := (Json.sortMembers_perm items).mem_iff.mp hq
    exact List.inj_on_of_nodup_map hkeys (hperm.mem_iff.mp hp) hq' (byteLe_antisymm hpq hqp)
  have hcalls : ¬(free = 0 ∧ ¬items.isEmpty) := by
    rintro ⟨rfl, hne⟩
    rcases hfree with hfree | rfl
    · exact hfree rfl
    · exact hne rfl
  rw [sortedByKey, if_neg hcalls]
  exact congrArg _ heq

theorem sortedByKey_loads {free : ℕ} {members : List (String × Json)}
    (hkeys : (members.map Prod.fst).Nodup) (hfree : free ≠ 0 ∨ members = []) :
    sortedByKey free (entryWriters free (loadsMembers members)) =
      .ok ((Json.sortMembers members).map fun p => (p.1, write (loads p.2) free)) := by
  rw [entryWriters_loads, sortedByKey_eq_sortMembers]
  · exact congrArg _ (Json.sortMembers_map (fun v => write (loads v) free) members)
  · simpa [List.map_map, Function.comp_def] using hkeys
  · simpa using hfree

/-- What is asked of every member does not depend on their order. -/
theorem printableMembers_iff (ms : List (String × Json)) :
    printableMembers ms = true ↔ ∀ p ∈ ms, printable p.2 = true := by
  induction ms with
  | nil => simp [printableMembers]
  | cons p ms ih => simp [printableMembers, ih]

theorem framesMembers_le_iff {ms : List (String × Json)} {n : ℕ} :
    framesMembers ms ≤ n ↔ ∀ p ∈ ms, frames p.2 ≤ n := by
  induction ms with
  | nil => simp [framesMembers]
  | cons p ms ih => simp [framesMembers, ih]

theorem passes_sort (ms : List (String × Json)) (free : ℕ) :
    (printableMembers (Json.sortMembers ms) && decide (framesMembers (Json.sortMembers ms) ≤ free)) =
      (printableMembers ms && decide (framesMembers ms ≤ free)) := by
  rw [Bool.eq_iff_iff]
  simp only [Bool.and_eq_true, decide_eq_true_eq, printableMembers_iff, framesMembers_le_iff,
    (Json.sortMembers_perm ms).mem_iff]

theorem normalizeMembers_sort (members : List (String × Json)) :
    Json.normalizeMembers (Json.sortMembers members) =
      Json.sortMembers (Json.normalizeMembers members) := by
  rw [Json.normalizeMembers_eq_map, Json.normalizeMembers_eq_map]
  exact (Json.sortMembers_map Json.normalize members).symm

theorem write_list (free : ℕ) (items : List PyValue) : write (.list items) (free + 1) =
    (emit "[").andThen ((writeItems free 0 items).andThen (emit "]")) := by
  funext out
  rfl

theorem write_int (free : ℕ) (value : ℤ) :
    FollowsText (write (.int value) (free + 1))
      (decide ((Nat.toDigits 10 value.natAbs).length ≤ maxStrDigits))
      (Number.integer value).text.toList := by
  by_cases hdigits : maxStrDigits < (Nat.toDigits 10 value.natAbs).length
  · rw [decide_eq_false (Nat.not_le.mpr hdigits)]
    exact .refuses fun out => ⟨_, by rw [write, str, if_pos hdigits]; rfl⟩
  · rw [decide_eq_true (Nat.not_lt.mp hdigits)]
    refine .writes [toString value] (fun out => ?_) (by simp [Number.text])
    rw [write, str, if_neg hdigits]
    rfl

/-- The entries of a dict are written in the order of their keys, which takes a frame if there are
any. -/
theorem write_dict {free : ℕ} {members : List (String × Json)} (hkeys : (members.map Prod.fst).Nodup)
    (hmembers : ∀ p ∈ members, Agrees free p.2) :
    FollowsText (write (.dict (loadsMembers members)) (free + 1))
      (printableMembers members && decide (framesMembers members ≤ free))
      (plainText (Json.object members).normalize) := by
  by_cases hfree : free ≠ 0 ∨ members = []
  · have hsorted : ∀ p ∈ Json.sortMembers members, Agrees free p.2 := fun p hp =>
      hmembers p ((Json.sortMembers_perm members).mem_iff.mp hp)
    have hentries := writeEntries_follows hsorted 0
    rw [passes_sort, normalizeMembers_sort] at hentries
    have hwrite : write (.dict (loadsMembers members)) (free + 1) =
        (emit "\x7b").andThen ((writeEntries free 0 ((Json.sortMembers members).map fun p =>
          (p.1, write (loads p.2) free))).andThen (emit "\x7d")) := by
      funext out
      rw [write, sortedByKey_loads hkeys hfree]
      rfl
    rw [hwrite]
    exact ((Follows.emit "\x7b").andThen (hentries.andThen (Follows.emit "\x7d"))).congr
      (by simp) rfl
  · rw [not_or, not_not] at hfree
    obtain ⟨rfl, hne⟩ := hfree
    obtain ⟨p, ms, rfl⟩ := List.exists_cons_of_ne_nil hne
    have hframes : ¬framesMembers (p :: ms) ≤ 0 := fun hle =>
      absurd (framesMembers_le_iff.mp hle p List.mem_cons_self) (Nat.not_le.mpr (one_le_frames _))
    rw [decide_eq_false hframes, Bool.and_false]
    refine .refuses fun out => ⟨exceeded, ?_⟩
    rw [write, loadsMembers, entryWriters, sortedByKey, if_pos ⟨rfl, by simp⟩]
    rfl

mutual
theorem agrees : (v : Json) → v.distinctKeys → (free : ℕ) → Agrees free v
  | v, _, 0 => agrees_no_frame v
  | .null, _, free + 1 => (Follows.emit "null").congr (by simp [printable, frames]) rfl
  | .bool true, _, free + 1 => (Follows.emit "true").congr (by simp [printable, frames]) rfl
  | .bool false, _, free + 1 => (Follows.emit "false").congr (by simp [printable, frames]) rfl
  | .number (.integer value), _, free + 1 =>
    (write_int free value).congr (by simp [printable, frames]) rfl
  | .number (.fractional _ _), _, free + 1 => .refuses fun _ => ⟨_, rfl⟩
  | .string s, _, free + 1 =>
    (writeString_follows free s).congr (by simp [printable, frames]) rfl
  | .array items, h, free + 1 => by
    have hitems := writeItems_follows (agreesItems items h free) 0
    unfold Agrees
    rw [loads, write_list]
    exact ((Follows.emit "[").andThen (hitems.andThen (Follows.emit "]"))).congr
      (by simp [printable, frames]) rfl
  | .object members, h, free + 1 =>
    (write_dict h.1 (agreesMembers members h.2 free)).congr (by simp [printable, frames]) rfl

theorem agreesItems : (vs : List Json) → Json.distinctKeysItems vs → (free : ℕ) →
    ∀ v ∈ vs, Agrees free v
  | [], _, _ => by simp
  | v :: vs, h, free => by
    rw [List.forall_mem_cons]
    exact ⟨agrees v h.1 free, agreesItems vs h.2 free⟩

theorem agreesMembers : (ms : List (String × Json)) → Json.distinctKeysMembers ms → (free : ℕ) →
    ∀ p ∈ ms, Agrees free p.2
  | [], _, _ => by simp
  | (key, v) :: ms, h, free => by
    rw [List.forall_mem_cons]
    exact ⟨agrees v h.1 free, agreesMembers ms h.2 free⟩
end

/-- One text on both sides, or a refusal on both. -/
inductive SameResult : Except CanonError String → Except PyException String → Prop where
  | text (s : String) : SameResult (.ok s) (.ok s)
  | refused (e : CanonError) (e' : PyException) : SameResult (.error e) (.error e')

theorem canonical_of_writes {free : ℕ} {w : Json} (hw : w.distinctKeys) (hprint : printable w = true)
    (hframes : frames w < free) :
    canonical free (loads w) = .ok (String.ofList (plainText w.normalize)) := by
  obtain ⟨free, rfl⟩ := Nat.exists_eq_add_of_le' (Nat.one_le_of_lt hframes)
  have h := agrees w hw free
  unfold Agrees at h
  rw [hprint, decide_eq_true (Nat.le_of_lt_succ hframes), Bool.and_true] at h
  generalize plainText w.normalize = text at h
  cases h with
  | writes chunks h htext =>
    have hjoin : String.join chunks = String.ofList (chunks.flatMap String.toList) := by
      apply String.toList_injective
      rw [String.toList_ofList, String.toList_join]
    rw [canonical, h, ← htext, ← hjoin]
    rfl

theorem canonical_of_refuses {free : ℕ} {w : Json} (hw : w.distinctKeys)
    (h : ¬(printable w = true ∧ frames w < free)) : ∃ e, canonical free (loads w) = .error e := by
  cases free with
  | zero => exact ⟨exceeded, rfl⟩
  | succ free =>
    have hrefuses := agrees w hw free
    have hpasses : (printable w && decide (frames w ≤ free)) = false := by
      rw [Bool.eq_false_iff]
      simpa [Nat.lt_succ_iff] using h
    unfold Agrees at hrefuses
    rw [hpasses] at hrefuses
    cases hrefuses with
    | refuses h =>
      obtain ⟨e, he⟩ := h []
      exact ⟨e, by rw [canonical, he]; rfl⟩

mutual
theorem integersOnly_of_printable : (v : Json) → printable v = true → v.integersOnly = true
  | .null, _ => rfl
  | .bool _, _ => rfl
  | .number (.integer _), _ => rfl
  | .number (.fractional _ _), h => by cases h
  | .string _, _ => rfl
  | .array items, h => integersOnlyItems_of_printable items h
  | .object members, h => integersOnlyMembers_of_printable members h

theorem integersOnlyItems_of_printable : (vs : List Json) → printableItems vs = true →
    Json.integersOnlyItems vs = true
  | [], _ => rfl
  | v :: vs, h => by
    have hboth := Bool.and_eq_true_iff.mp h
    exact Bool.and_eq_true_iff.mpr
      ⟨integersOnly_of_printable v hboth.1, integersOnlyItems_of_printable vs hboth.2⟩

theorem integersOnlyMembers_of_printable : (ms : List (String × Json)) →
    printableMembers ms = true → Json.integersOnlyMembers ms = true
  | [], _ => rfl
  | (_, v) :: ms, h => by
    have hboth := Bool.and_eq_true_iff.mp h
    exact Bool.and_eq_true_iff.mpr
      ⟨integersOnly_of_printable v hboth.1, integersOnlyMembers_of_printable ms hboth.2⟩
end

/-- Two values that differ in the order of object members only, one of them written by the reference
implementation and the other one by the peer with so many frames left: they have one result exactly
when a number is no integer, or no integer has too many digits and the frames suffice. -/
theorem canonical_agrees_iff {v w : Json} (hv : v.distinctKeys) (hw : w.distinctKeys)
    (hsame : Json.SameValue v w) (free : ℕ) :
    SameResult (canonicalJson v) (canonical free (loads w)) ↔
      v.integersOnly = false ∨ printable w = true ∧ frames w < free := by
  have hnormal : v.normalize = w.normalize := (sameValue_iff v w hv hw).mp hsame
  have hintegers : w.integersOnly = v.integersOnly := by
    rw [← normalize_integersOnly, ← hnormal, normalize_integersOnly]
  by_cases hprints : printable w = true ∧ frames w < free
  · have hpass := hintegers.symm.trans (integersOnly_of_printable w hprints.1)
    rw [canonicalJson_ok hpass, hnormal, canonical_of_writes hw hprints.1 hprints.2]
    exact iff_of_true (.text _) (.inr hprints)
  · obtain ⟨e', he'⟩ := canonical_of_refuses hw hprints
    rw [he']
    cases hpass : v.integersOnly with
    | true =>
      rw [canonicalJson_ok hpass]
      refine iff_of_false (fun h => by cases h) ?_
      rintro (h | h)
      · cases h
      · exact hprints h
    | false =>
      have hrust : ¬∃ s, canonicalJson v = .ok s := by
        rw [canonicalJson_isOk_iff, hpass]
        exact Bool.false_ne_true
      cases hresult : canonicalJson v with
      | ok s => exact (hrust ⟨s, hresult⟩).elim
      | error e => exact iff_of_true (.refused e e') (.inl rfl)

/-- A control character, a key order and a large integer, read in two orders. -/
theorem canonical_agrees_iff_reordered :
    canonicalJson (.object [("a", .number (.integer (-2 ^ 70))), ("b", .string "\x01\"")]) =
        .ok "\x7b\"a\":-1180591620717411303424,\"b\":\"\\u0001\\\"\"\x7d" ∧
      SameResult
        (canonicalJson (.object [("a", .number (.integer (-2 ^ 70))), ("b", .string "\x01\"")]))
        (canonical (recursionLimit - 1)
          (loads (.object [("b", .string "\x01\""), ("a", .number (.integer (-2 ^ 70)))]))) := by
  refine ⟨by decide, (canonical_agrees_iff ?_ ?_ ?_ _).mpr (.inr (by decide))⟩
  · simp [Json.distinctKeys, Json.distinctKeysMembers]
  · simp [Json.distinctKeys, Json.distinctKeysMembers]
  · refine ⟨_, _, List.Perm.swap _ _ _, rfl, ?_⟩
    exact ⟨_, _, List.Perm.refl _, rfl, rfl⟩

/-- An integer of one digit more than are printed. -/
def longInteger : Json := .number (.integer (10 ^ maxStrDigits))

theorem not_printable_longInteger : ¬printable longInteger = true := by
  have hpower (k : ℕ) (hk : 0 < k) : ¬(Nat.toDigits 10 ((10 : ℤ) ^ k).natAbs).length ≤ k := by
    rw [Nat.length_toDigits_le_iff (by decide) hk, Int.natAbs_pow]
    exact Nat.lt_irrefl _
  simpa only [longInteger, printable, decide_eq_true_eq] using hpower maxStrDigits (by decide)

/-- The reference implementation prints it and the peer does not, however many frames are left. -/
theorem not_canonical_agrees :
    ¬ ∀ v : Json, v.distinctKeys → ∃ free, SameResult (canonicalJson v) (canonical free (loads v)) := by
  intro h
  obtain ⟨free, hsame⟩ := h longInteger trivial
  obtain ⟨e, he⟩ : ∃ e, canonical free (loads longInteger) = .error e :=
    canonical_of_refuses trivial fun hprints => not_printable_longInteger hprints.1
  obtain ⟨s, hs⟩ : ∃ s, canonicalJson longInteger = .ok s := ⟨_, canonicalJson_ok rfl⟩
  rw [he, hs] at hsame
  cases hsame

end Hacp.Interop
