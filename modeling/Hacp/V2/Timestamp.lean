import Hacp.Lib.Calendar
import Hacp.V2.PermitAdmission

/-!
# Comparing timestamps is comparing instants

A canonical timestamp has its fields in fixed places, from the year down to the second,
each in decimal digits. Comparing two of them byte by byte compares the fields in this
order, and so do the instants they denote. Windows and expiries, which the grants compare
as strings, are therefore chronological.
-/
namespace Hacp.V2
open Lib Lib.Calendar

def block (s : String) (start len : ℕ) : List UInt8 := ((asBytes s).drop start).take len

/-- The number in the `len` digits from byte `start` on. -/
def field (s : String) (start len : ℕ) : ℕ := decimal ((block s start len).map digitOf)

/-- The characters stand where `YYYY-MM-DDTHH:MM:SSZ` has them. -/
structure Shaped (s : String) : Prop where
  length : (asBytes s).length = 20
  marks : ∀ m ∈ timestampMarks, (asBytes s)[m.1]? = some m.2
  digits : ∀ i ∈ timestampDigits, ((asBytes s)[i]?).any isAsciiDigit = true

/-- The fields name a day of the calendar and a time of day. -/
def DenotesTime (s : String) : Prop :=
  RealDate (field s 0 4) (field s 5 2) (field s 8 2) ∧
    RealTime (field s 11 2) (field s 14 2) (field s 17 2)

instance (s : String) : Decidable (DenotesTime s) := inferInstanceAs (Decidable (_ ∧ _))

def instantOf (s : String) : Instant :=
  instant (field s 0 4) (field s 5 2) (field s 8 2) (field s 11 2) (field s 14 2) (field s 17 2)

/-- `chrono` accepts a string of the checked shape exactly when its month, day of month, hour
and minute are real and its second is at most 60. -/
def ChronoReads (F : Foreign) : Prop := ∀ s, Shaped s → (F.naiveDateTime s = true ↔ DenotesTime s)

theorem validateTimestamp_ok {F : Foreign} {s : String} :
    validateTimestamp F s = .ok () ↔ Shaped s ∧ F.naiveDateTime s = true := by
  unfold validateTimestamp
  simp only [guard_eq_ok]
  constructor
  · rintro ⟨hshape, hdigits, hreal⟩
    rw [not_or, not_not] at hshape
    refine ⟨⟨hshape.1, fun m hm => ?_, ?_⟩, ?_⟩
    · by_contra hne
      exact hshape.2 (List.any_eq_true.mpr ⟨m, hm, by simpa using hne⟩)
    · rw [Bool.not_eq_true, Bool.not_eq_false'] at hdigits
      exact List.all_eq_true.mp hdigits
    · by_contra hno
      simp [hno] at hreal
  · rintro ⟨⟨hlen, hmarks, hdigits⟩, hreal⟩
    refine ⟨?_, ?_, by simp [hreal]⟩
    · rintro (hne | hmark)
      · exact hne hlen
      · obtain ⟨m, hm, hne⟩ := List.any_eq_true.mp hmark
        exact of_decide_eq_true hne (hmarks m hm)
    · rw [Bool.not_eq_true, Bool.not_eq_false']
      exact List.all_eq_true.mpr hdigits

theorem compare_digitOf {a b : UInt8} (ha : isAsciiDigit a = true) (hb : isAsciiDigit b = true) :
    compare (digitOf a) (digitOf b) = compare a b := by
  have ha' := digit_bounds ha
  have hb' := digit_bounds hb
  have hbytes : compare a.toNat b.toNat = compare a b := by
    change compareOfLessAndEq _ _ = compareOfLessAndEq _ _
    simp only [compareOfLessAndEq, UInt8.lt_iff_toNat_lt, ← UInt8.toNat_inj]
  rw [← hbytes, digitOf, digitOf]
  rcases Nat.lt_trichotomy a.toNat b.toNat with hlt | heq | hgt
  · rw [compare_lt_iff_lt.mpr hlt, compare_lt_iff_lt.mpr (by omega)]
  · rw [heq]
    simp
  · rw [compare_gt_iff_gt.mpr hgt, compare_gt_iff_gt.mpr (by omega)]

section Blocks
variable {s t : String} {start len : ℕ}

theorem Shaped.digit_of_mem (h : Shaped s) (hblock : ∀ k < len, start + k ∈ timestampDigits)
    {b : UInt8} (hb : b ∈ block s start len) : isAsciiDigit b = true := by
  obtain ⟨k, hk⟩ := List.mem_iff_getElem?.mp hb
  rw [block, List.getElem?_take, List.getElem?_drop] at hk
  split_ifs at hk with hlt
  have hdigit := h.digits _ (hblock k hlt)
  rwa [hk, Option.any_some] at hdigit

theorem Shaped.length_block (h : Shaped s) (hle : start + len ≤ 20) :
    (block s start len).length = len := by
  rw [block, List.length_take, List.length_drop, h.length]
  omega

theorem compare_block (hs : Shaped s) (ht : Shaped t) (hle : start + len ≤ 20)
    (hblock : ∀ k < len, start + k ∈ timestampDigits) :
    compare (block s start len) (block t start len) =
      compare (field s start len) (field t start len) := by
  have hlen : ((block s start len).map digitOf).length =
      ((block t start len).map digitOf).length := by
    rw [List.length_map, List.length_map, hs.length_block hle, ht.length_block hle]
  have hdigit {u : String} (hu : Shaped u) : ∀ d ∈ (block u start len).map digitOf, d < 10 := by
    intro d hd
    obtain ⟨b, hb, rfl⟩ := List.mem_map.mp hd
    have hbounds := digit_bounds (hu.digit_of_mem hblock hb)
    rw [digitOf]
    omega
  rw [field, field, compare_decimal hlen (hdigit hs) (hdigit ht)]
  exact (compare_map fun a ha b hb =>
    compare_digitOf (hs.digit_of_mem hblock ha) (ht.digit_of_mem hblock hb)).symm

end Blocks

/-- Strings of the checked shape compare field by field. -/
theorem compare_shaped {s t : String} (hs : Shaped s) (ht : Shaped t) :
    compare (asBytes s) (asBytes t) =
      (compare (field s 0 4) (field t 0 4)).then ((compare (field s 5 2) (field t 5 2)).then
        ((compare (field s 8 2) (field t 8 2)).then ((compare (field s 11 2) (field t 11 2)).then
          ((compare (field s 14 2) (field t 14 2)).then
            (compare (field s 17 2) (field t 17 2)))))) := by
  let rest (i : ℕ) : Ordering := compare ((asBytes s).drop i) ((asBytes t).drop i)
  have hfield (start len : ℕ) (hle : start + len ≤ 20)
      (hblock : ∀ k < len, start + k ∈ timestampDigits) :
      rest start = (compare (field s start len) (field t start len)).then (rest (start + len)) := by
    rw [← compare_block hs ht hle hblock]
    exact compare_drop_block len (by rw [hs.length]; exact hle) (by rw [ht.length]; exact hle)
  have hmark (i : ℕ) (c : UInt8) (h : (i, c) ∈ timestampMarks) : rest i = rest (i + 1) :=
    compare_drop_mark (hs.marks _ h) (ht.marks _ h)
  have hend : rest 20 = .eq := by
    simp only [rest]
    rw [List.drop_eq_nil_of_le hs.length.le, List.drop_eq_nil_of_le ht.length.le]
    rfl
  change rest 0 = _
  rw [hfield 0 4 (by decide) (by decide), hmark 4 45 (by decide),
    hfield 5 2 (by decide) (by decide), hmark 7 45 (by decide),
    hfield 8 2 (by decide) (by decide), hmark 10 84 (by decide),
    hfield 11 2 (by decide) (by decide), hmark 13 58 (by decide),
    hfield 14 2 (by decide) (by decide), hmark 16 58 (by decide),
    hfield 17 2 (by decide) (by decide), hmark 19 90 (by decide), hend]
  simp only [Ordering.then_eq]

section Chronology
variable {F : Foreign} (hchrono : ChronoReads F) {s t : String}
include hchrono

theorem compare_timestamps (hs : validateTimestamp F s = .ok ())
    (ht : validateTimestamp F t = .ok ()) :
    compare (asBytes s) (asBytes t) = compare (instantOf s) (instantOf t) := by
  obtain ⟨hshape, hreal⟩ := validateTimestamp_ok.mp hs
  obtain ⟨hshape', hreal'⟩ := validateTimestamp_ok.mp ht
  obtain ⟨hdate, htime⟩ := (hchrono s hshape).mp hreal
  obtain ⟨hdate', htime'⟩ := (hchrono t hshape').mp hreal'
  rw [compare_shaped hshape hshape', instantOf, instantOf,
    compare_instant hdate htime hdate' htime']

theorem byteLe_iff_le (hs : validateTimestamp F s = .ok ())
    (ht : validateTimestamp F t = .ok ()) : byteLe s t ↔ instantOf s ≤ instantOf t := by
  rw [byteLe, compare_timestamps hchrono hs ht, ← Ordering.ne_gt_iff_isLE]
  exact compare_le_iff_le

end Chronology

/-- The expiry of the request and the ends of the windows of a grant and all its ancestors. -/
def Deadlines (L : GrantLedger) (request : CollaborationRequest) (grantId : String) :
    Set Instant :=
  {i | i = instantOf request.expires ∨
    ∃ x g, L.Descends grantId x ∧ L.grants[x]? = some g ∧ i = instantOf g.validUntil}

/-- The expiry that issuing by preauthorization computes is the earliest deadline. -/
theorem expires_isLeast {F : Foreign} (hchrono : ChronoReads F) {org : OrgChart}
    {L : GrantLedger} (hL : L.Sound) (hshaped : L.Shaped F) {request : CollaborationRequest}
    {at_ grantId : String} {p : CollaborationPermit} {g : CapabilityGrant}
    (h : CollaborationPermit.Issued F org L request at_ p grantId g) :
    IsLeast (Deadlines L request grantId) (instantOf p.expires) := by
  obtain ⟨g', hg', -⟩ := h.grantor
  have hid := GrantLedger.mem_grants hg'
  obtain ⟨l, hl⟩ := hL.lineage grantId
  obtain ⟨lowered, hloop, -, -, hone⟩ := hL.expiry_loop request.expires hl hid
    (Nat.lt_succ_of_le (hL.length_lineage_le hid hl))
  obtain rfl : p.expires = lowered := Option.some.inj (Option.some.inj (h.lowered.symm.trans hloop))
  obtain ⟨hvalid, hle, hup⟩ := h.expires_canonical hL hshaped
  refine ⟨?_, ?_⟩
  · rcases hone with heq | ⟨x, hx, gx, hgx, heq⟩
    · exact .inl (congrArg instantOf heq)
    · exact .inr ⟨x, gx, hl.mem_iff.mp hx, hgx, congrArg instantOf heq⟩
  · rintro i (rfl | ⟨x, gx, hx, hgx, rfl⟩)
    · exact (byteLe_iff_le hchrono hvalid (CollaborationPermit.request_valid h.valid).2).mp hle
    · exact (byteLe_iff_le hchrono hvalid
        (CapabilityGrant.checkShape_window (hshaped x gx hgx)).2).mp (hup x gx hx hgx)

/-- Comparing timestamps as strings is comparing instants, and so the windows and the expiry
minimum of the grant code are chronological. -/
theorem string_order_chronological (F : Foreign) (hchrono : ChronoReads F) :
    (∀ s t, validateTimestamp F s = .ok () → validateTimestamp F t = .ok () →
      compare (asBytes s) (asBytes t) = compare (instantOf s) (instantOf t)) ∧
    (∀ (g : CapabilityGrant) at_, g.checkShape F = .ok () → validateTimestamp F at_ = .ok () →
      (g.windowOpen at_ = true ↔
        instantOf g.validFrom ≤ instantOf at_ ∧ instantOf at_ ≤ instantOf g.validUntil)) ∧
    ∀ calls permitId org request at_ p,
      CollaborationPermit.byPreauthorization F permitId org ((ledgerMachine F).exec {} calls)
        request at_ = .returns (.ok p) →
      ∃ grantId, p.basis = .preauthorization grantId ∧
        IsLeast (Deadlines ((ledgerMachine F).exec {} calls) request grantId)
          (instantOf p.expires) := by
  refine ⟨fun s t hs ht => compare_timestamps hchrono hs ht, fun g at_ hg hat => ?_, ?_⟩
  · obtain ⟨hfrom, huntil⟩ := CapabilityGrant.checkShape_window hg
    rw [CapabilityGrant.windowOpen, Bool.and_eq_true, decide_eq_true_eq, decide_eq_true_eq,
      byteLe_iff_le hchrono hfrom hat, byteLe_iff_le hchrono hat huntil]
  · intro calls permitId org request at_ p hp
    obtain ⟨grantId, g, hissued⟩ := CollaborationPermit.byPreauthorization_issued hp
    obtain ⟨-, -, -, -, hbasis⟩ := hissued.named
    exact ⟨grantId, hbasis, expires_isLeast hchrono (GrantLedger.sound_exec F calls)
      (GrantLedger.shaped_exec F calls) hissued⟩

/-- Date parsing that reads the calendar. -/
def calendarReader : Foreign :=
  { Foreign.placeholder with naiveDateTime := fun s => decide (DenotesTime s) }

theorem chronoReads_calendar : ChronoReads calendarReader := fun _ _ => decide_eq_true_iff

/-- The last second of February in a leap year and the first of March. -/
theorem string_order_chronological_leap :
    compare (asBytes "2024-02-29T23:59:60Z") (asBytes "2024-03-01T00:00:00Z") =
      compare (instantOf "2024-02-29T23:59:60Z") (instantOf "2024-03-01T00:00:00Z") :=
  (string_order_chronological calendarReader chronoReads_calendar).1 _ _
    (validateTimestamp_ok.mpr ⟨⟨by decide, by decide, by decide⟩, by decide⟩)
    (validateTimestamp_ok.mpr ⟨⟨by decide, by decide, by decide⟩, by decide⟩)

end Hacp.V2
