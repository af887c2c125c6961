import Mathlib.Algebra.BigOperators.Group.Finset.Basic
import Mathlib.Data.Prod.Lex
import Mathlib.Tactic

/-!
# Comparing positions and dates

A position is a place in one of several blocks that are laid end to end. Positions
compare first by block and then by place; digits, days of a year, days of the calendar
and seconds of a day are all positions. An instant is a count of seconds, and a leap
second stands between the second it is named after and the next.
-/
namespace Hacp.Lib

section Comparison
variable {α : Type*} [LinearOrder α]

theorem then_congr {a b : α} {x y : Ordering} (h : a = b → x = y) :
    (compare a b).then x = (compare a b).then y := by
  cases hab : compare a b with
  | lt => rfl
  | gt => rfl
  | eq => exact h (compare_eq_iff_eq.mp hab)

theorem compare_of_strictMono {β : Type*} [LinearOrder β] {f : α → β} {a b : α}
    (hlt : a < b → f a < f b) (hgt : b < a → f b < f a) : compare (f a) (f b) = compare a b := by
  rcases lt_trichotomy a b with hab | rfl | hab
  · rw [compare_lt_iff_lt.mpr hab, compare_lt_iff_lt.mpr (hlt hab)]
  · rw [compare_eq_iff_eq.mpr rfl, compare_eq_iff_eq.mpr rfl]
  · rw [compare_gt_iff_gt.mpr hab, compare_gt_iff_gt.mpr (hgt hab)]

end Comparison

section Lists
variable {α β : Type*} [Ord α] [Ord β]

theorem compare_append {x y r s : List α} (h : x.length = y.length) :
    compare (x ++ r) (y ++ s) = (compare x y).then (compare r s) := by
  induction x generalizing y with
  | nil =>
    obtain rfl : y = [] := List.eq_nil_of_length_eq_zero h.symm
    rfl
  | cons a x ih =>
    cases y with
    | nil => simp at h
    | cons b y =>
      rw [List.cons_append, List.cons_append, List.compare_cons_cons, List.compare_cons_cons,
        ih (by simpa using h), Ordering.then_assoc]

theorem compare_map {f : α → β} {x y : List α}
    (h : ∀ a ∈ x, ∀ b ∈ y, compare (f a) (f b) = compare a b) :
    compare (x.map f) (y.map f) = compare x y := by
  induction x generalizing y with
  | nil => cases y <;> rfl
  | cons a x ih =>
    cases y with
    | nil => rfl
    | cons b y =>
      rw [List.map_cons, List.map_cons, List.compare_cons_cons, List.compare_cons_cons,
        h a List.mem_cons_self b List.mem_cons_self,
        ih fun c hc d hd => h c (List.mem_cons_of_mem _ hc) d (List.mem_cons_of_mem _ hd)]

/-- From position `i` on, a block of `n` places and what follows it. -/
theorem compare_drop_block {x y : List α} {i : ℕ} (n : ℕ) (hx : i + n ≤ x.length)
    (hy : i + n ≤ y.length) : compare (x.drop i) (y.drop i) =
      (compare ((x.drop i).take n) ((y.drop i).take n)).then
        (compare (x.drop (i + n)) (y.drop (i + n))) := by
  rw [← compare_append, ← List.drop_drop, ← List.drop_drop, List.take_append_drop,
    List.take_append_drop]
  rw [List.length_take, List.length_take, List.length_drop, List.length_drop]
  omega

/-- From position `i` on, a place that holds the same on both sides. -/
theorem compare_drop_mark [Std.ReflOrd α] {x y : List α} {i : ℕ} {c : α} (hx : x[i]? = some c)
    (hy : y[i]? = some c) :
    compare (x.drop i) (y.drop i) = compare (x.drop (i + 1)) (y.drop (i + 1)) := by
  obtain ⟨hi, hc⟩ := List.getElem?_eq_some_iff.mp hx
  obtain ⟨hj, hc'⟩ := List.getElem?_eq_some_iff.mp hy
  rw [List.drop_eq_getElem_cons hi, List.drop_eq_getElem_cons hj, hc, hc',
    List.compare_cons_cons, Std.ReflOrd.compare_self]
  rfl

end Lists

/-! ## Positions -/

/-- Place `o` of block `i`, counted from the start of the first block. -/
def position (len : ℕ → ℕ) (i o : ℕ) : ℕ := ∑ j ∈ Finset.range i, len j + o

section Positions
variable {len : ℕ → ℕ} {i i' o o' n : ℕ}

theorem position_lt (ho : o < len i) (hi : i < n) :
    position len i o < ∑ j ∈ Finset.range n, len j := by
  calc position len i o < ∑ j ∈ Finset.range i, len j + len i := Nat.add_lt_add_left ho _
    _ = ∑ j ∈ Finset.range (i + 1), len j := (Finset.sum_range_succ len i).symm
    _ ≤ ∑ j ∈ Finset.range n, len j :=
      Finset.sum_le_sum_of_subset (Finset.range_mono hi)

theorem compare_position (ho : o < len i) (ho' : o' < len i') :
    compare (position len i o) (position len i' o') = (compare i i').then (compare o o') := by
  rcases lt_trichotomy i i' with hlt | rfl | hgt
  · have hpos : position len i o < position len i' o' :=
      (position_lt ho hlt).trans_le (Nat.le_add_right _ _)
    rw [compare_lt_iff_lt.mpr hpos, compare_lt_iff_lt.mpr hlt]
    rfl
  · rw [compare_eq_iff_eq.mpr (rfl : i = i)]
    exact compare_of_strictMono (fun h => Nat.add_lt_add_left h _)
      (fun h => Nat.add_lt_add_left h _)
  · have hpos : position len i' o' < position len i o :=
      (position_lt ho' hgt).trans_le (Nat.le_add_right _ _)
    rw [compare_gt_iff_gt.mpr hpos, compare_gt_iff_gt.mpr hgt]
    rfl

theorem position_const (k : ℕ) : position (fun _ => k) i o = i * k + o := by
  rw [position, Finset.sum_const, Finset.card_range, smul_eq_mul]

/-- Blocks of one length: a digit and what stands below it. -/
theorem compare_radix {k : ℕ} (ho : o < k) (ho' : o' < k) :
    compare (i * k + o) (i' * k + o') = (compare i i').then (compare o o') := by
  rw [← position_const, ← position_const]
  exact compare_position ho ho'

end Positions

/-! ## Decimal digits -/

/-- The number that a list of decimal digits denotes. -/
def decimal : List ℕ → ℕ
  | [] => 0
  | d :: ds => d * 10 ^ ds.length + decimal ds

theorem decimal_lt {ds : List ℕ} (h : ∀ d ∈ ds, d < 10) : decimal ds < 10 ^ ds.length := by
  induction ds with
  | nil => simp [decimal]
  | cons d ds ih =>
    rw [List.forall_mem_cons] at h
    have htail := ih h.2
    have hhead : (d + 1) * 10 ^ ds.length ≤ 10 * 10 ^ ds.length :=
      Nat.mul_le_mul_right _ h.1
    rw [decimal, List.length_cons, pow_succ]
    linarith

/-- Digit strings of one length compare as the numbers they denote. -/
theorem compare_decimal {ds es : List ℕ} (hlen : ds.length = es.length)
    (hd : ∀ d ∈ ds, d < 10) (he : ∀ e ∈ es, e < 10) :
    compare (decimal ds) (decimal es) = compare ds es := by
  induction ds generalizing es with
  | nil =>
    obtain rfl : es = [] := List.eq_nil_of_length_eq_zero hlen.symm
    rfl
  | cons d ds ih =>
    cases es with
    | nil => simp at hlen
    | cons e es =>
      rw [List.forall_mem_cons] at hd he
      have hlen' : ds.length = es.length := by simpa using hlen
      have htail := decimal_lt he.2
      rw [← hlen'] at htail
      rw [decimal, decimal, ← hlen', compare_radix (decimal_lt hd.2) htail, ih hlen' hd.2 he.2]
      exact List.compare_cons_cons.symm

/-! ## The Gregorian calendar -/

namespace Calendar

def isLeap (year : ℕ) : Bool := year % 4 == 0 && (year % 100 != 0 || year % 400 == 0)

def daysInMonth (year month : ℕ) : ℕ :=
  match month with
  | 2 => if isLeap year then 29 else 28
  | 4 | 6 | 9 | 11 => 30
  | _ => 31

structure RealDate (year month day : ℕ) : Prop where
  one_le_month : 1 ≤ month
  month_le : month ≤ 12
  one_le_day : 1 ≤ day
  day_le : day ≤ daysInMonth year month

instance (year month day : ℕ) : Decidable (RealDate year month day) :=
  decidable_of_iff (1 ≤ month ∧ month ≤ 12 ∧ 1 ≤ day ∧ day ≤ daysInMonth year month)
    ⟨fun ⟨h, h', h'', h'''⟩ => ⟨h, h', h'', h'''⟩, fun ⟨h, h', h'', h'''⟩ => ⟨h, h', h'', h'''⟩⟩

def monthLength (year months : ℕ) : ℕ := daysInMonth year (months + 1)

def dayOfYear (year month day : ℕ) : ℕ := position (monthLength year) (month - 1) (day - 1)

def daysInYear (year : ℕ) : ℕ := ∑ m ∈ Finset.range 12, monthLength year m

def dayNumber (year month day : ℕ) : ℕ := position daysInYear year (dayOfYear year month day)

example : daysInYear 2000 = 366 ∧ daysInYear 1900 = 365 ∧ daysInYear 2024 = 366 := by decide

section Dates
variable {y m d y' m' d' : ℕ}

theorem RealDate.day_lt (h : RealDate y m d) : d - 1 < monthLength y (m - 1) := by
  have hday := h.one_le_day
  have hle := h.day_le
  rw [monthLength, Nat.sub_add_cancel h.one_le_month]
  omega

theorem RealDate.dayOfYear_lt (h : RealDate y m d) : dayOfYear y m d < daysInYear y := by
  have hmonth := h.one_le_month
  have hle := h.month_le
  exact position_lt h.day_lt (by omega)

theorem compare_pred {a b : ℕ} (ha : 1 ≤ a) (hb : 1 ≤ b) :
    compare (a - 1) (b - 1) = compare a b :=
  compare_of_strictMono (f := fun n => n - 1) (fun h => by omega) (fun h => by omega)

theorem compare_dayNumber (h : RealDate y m d) (h' : RealDate y' m' d') :
    compare (dayNumber y m d) (dayNumber y' m' d') =
      (compare y y').then ((compare m m').then (compare d d')) := by
  rw [dayNumber, dayNumber, compare_position h.dayOfYear_lt h'.dayOfYear_lt]
  refine then_congr fun hy => ?_
  subst hy
  rw [dayOfYear, dayOfYear, compare_position h.day_lt h'.day_lt,
    compare_pred h.one_le_month h'.one_le_month, compare_pred h.one_le_day h'.one_le_day]

end Dates

/-- A second of the calendar: the seconds before it without leap seconds, and 1 for the leap
second after it. -/
abbrev Instant := ℕ ×ₗ ℕ

/-- The instant of a date and a time of day; second 60 is the leap second after second 59. -/
def instant (year month day hour minute second : ℕ) : Instant :=
  toLex (((dayNumber year month day * 24 + hour) * 60 + minute) * 60 + min second 59, second / 60)

structure RealTime (hour minute second : ℕ) : Prop where
  hour_lt : hour < 24
  minute_lt : minute < 60
  second_le : second ≤ 60

instance (hour minute second : ℕ) : Decidable (RealTime hour minute second) :=
  decidable_of_iff (hour < 24 ∧ minute < 60 ∧ second ≤ 60)
    ⟨fun ⟨h, h', h''⟩ => ⟨h, h', h''⟩, fun ⟨h, h', h''⟩ => ⟨h, h', h''⟩⟩

section Times
variable {y m d h n s y' m' d' h' n' s' : ℕ}

theorem compare_second (hs : s ≤ 60) (hs' : s' ≤ 60) :
    (compare (min s 59) (min s' 59)).then (compare (s / 60) (s' / 60)) = compare s s' := by
  have hsecond (t : ℕ) (ht : t ≤ 60) : t = t / 60 + min t 59 := by omega
  rcases lt_trichotomy (min s 59) (min s' 59) with hlt | heq | hgt
  · have hss : s < s' := by omega
    rw [compare_lt_iff_lt.mpr hlt, compare_lt_iff_lt.mpr hss]
    rfl
  · rw [heq, compare_eq_iff_eq.mpr rfl]
    exact (compare_of_strictMono (f := fun t => t / 60) (fun _ => by omega) (fun _ => by omega))
  · have hss : s' < s := by omega
    rw [compare_gt_iff_gt.mpr hgt, compare_gt_iff_gt.mpr hss]
    rfl

/-- Instants compare field by field, from the year down to the second. -/
theorem compare_instant (hdate : RealDate y m d) (htime : RealTime h n s)
    (hdate' : RealDate y' m' d') (htime' : RealTime h' n' s') :
    compare (instant y m d h n s) (instant y' m' d' h' n' s') =
      (compare y y').then ((compare m m').then ((compare d d').then
        ((compare h h').then ((compare n n').then (compare s s'))))) := by
  have hlex (a b a' b' : ℕ) : compare (toLex (a, b)) (toLex (a', b')) =
      (compare a a').then (compare b b') := rfl
  rw [instant, instant, hlex, compare_radix (by omega) (by omega),
    compare_radix htime.minute_lt htime'.minute_lt,
    compare_radix htime.hour_lt htime'.hour_lt, compare_dayNumber hdate hdate']
  simp only [Ordering.then_assoc]
  rw [compare_second htime.second_le htime'.second_le]

end Times
end Calendar
end Hacp.Lib
