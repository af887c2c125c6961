import Hacp.Lib.SlidingWindow

/-!
# The guardian's request budget

One budget spans every connection and every kind of request. A request is admitted when
fewer than `cap` were admitted in the sixty seconds that end with it; what is refused is
logged at most once a minute, whether or not requests are admitted in between.
-/
namespace Hacp.Secure
open Lib Lib.SlidingWindow

/-- Sixty seconds, in the nanoseconds an instant counts. -/
def minute : ℕ := 60 * 10 ^ 9

structure RateBudget where
  cap : UInt32
  window : List ℕ
  /-- Audit throttling is independent of admission recovery. -/
  lastLimitedLog : Option ℕ

namespace RateBudget

def new (cap : UInt32) : RateBudget := ⟨cap, [], none⟩

def permitAt (rate : RateBudget) (now : ℕ) : RateBudget × Bool :=
  let window := rate.window.dropWhile fun oldest => minute ≤ now - oldest
  if UInt32.ofNat window.length ≥ rate.cap then ({ rate with window := window }, false)
  else ({ rate with window := window ++ [now] }, true)

def shouldLogRateLimitAt (rate : RateBudget) (now : ℕ) : RateBudget × Bool :=
  if rate.lastLimitedLog.any (fun last => now - last < minute) then (rate, false)
  else ({ rate with lastLimitedLog := some now }, true)

def permitMachine : Machine RateBudget ℕ Bool where
  step rate now := rate.permitAt now

/-- A request's two readings of the clock, the second only taken when the first is refused. -/
structure Arrival where
  now : ℕ
  logNow : ℕ

inductive Gate where
  | admitted
  | refused (logged : Bool)

/-- The part of `handle_bytes` before `dispatch`. -/
def gate (rate : RateBudget) (arrival : Arrival) : RateBudget × Gate :=
  match rate.permitAt arrival.now with
  | (rate, true) => (rate, .admitted)
  | (rate, false) =>
    let (rate, logged) := rate.shouldLogRateLimitAt arrival.logNow
    (rate, .refused logged)

def gateMachine : Machine RateBudget Arrival Gate where
  step rate arrival := rate.gate arrival

/-- The instant of the `RateLimited` record that a request leaves in the audit log. -/
def record : Arrival × Gate → Option ℕ
  | (arrival, .refused true) => some arrival.logNow
  | (_, .refused false) => none
  | (_, .admitted) => none

def records (answers : List (Arrival × Gate)) : List ℕ := answers.filterMap record

/-- Every reading of the clock in a run, in order. -/
def instants (arrivals : List Arrival) : List ℕ := arrivals.flatMap fun a => [a.now, a.logNow]

/-- The window never outgrows the cap, so its length fits the type of the cap. -/
theorem permitAt_eq_trimmed {rate : RateBudget} (hlength : rate.window.length ≤ rate.cap.toNat)
    (now : ℕ) :
    (rate.permitAt now).2 = ((trimmed minute rate.cap.toNat).step rate.window now).2 ∧
      (rate.permitAt now).1.window = ((trimmed minute rate.cap.toNat).step rate.window now).1 ∧
      (rate.permitAt now).1.cap = rate.cap ∧
      (rate.permitAt now).1.window.length ≤ rate.cap.toNat := by
  have hevict : (evict minute now rate.window).length ≤ rate.cap.toNat :=
    (List.dropWhile_sublist _).length_le.trans hlength
  have hcap := rate.cap.toNat_lt
  have hfull : UInt32.ofNat (evict minute now rate.window).length ≥ rate.cap ↔
      ¬(evict minute now rate.window).length < rate.cap.toNat := by
    rw [ge_iff_le, UInt32.le_iff_toNat_le, UInt32.toNat_ofNat', Nat.mod_eq_of_lt (by omega)]
    omega
  have hunfold : rate.permitAt now =
      if UInt32.ofNat (evict minute now rate.window).length ≥ rate.cap then
        ({ rate with window := evict minute now rate.window }, false)
      else ({ rate with window := evict minute now rate.window ++ [now] }, true) := rfl
  rw [hunfold, trimmed_step]
  by_cases hroom : (evict minute now rate.window).length < rate.cap.toNat
  · rw [if_pos hroom, if_neg (by rw [hfull]; exact not_not.mpr hroom)]
    refine ⟨rfl, rfl, rfl, ?_⟩
    rw [List.length_append, List.length_singleton]
    exact hroom
  · rw [if_neg hroom, if_pos (hfull.mpr hroom)]
    exact ⟨rfl, rfl, rfl, hevict⟩

theorem permits_eq_trimmed (cap : UInt32) (times : List ℕ) :
    permitMachine.answers (new cap) times = (trimmed minute cap.toNat).answers [] times := by
  apply Machine.answers_eq_of_related
    (R := fun rate queue => rate.cap = cap ∧ rate.window = queue ∧ queue.length ≤ cap.toNat)
  · rintro rate queue now ⟨rfl, rfl, hlength⟩
    obtain ⟨hanswer, hwindow, hcap, hbound⟩ := permitAt_eq_trimmed hlength now
    exact ⟨hanswer, hcap, hwindow, hwindow ▸ hbound⟩
  · exact ⟨rfl, rfl, Nat.zero_le _⟩

theorem permitAt_lastLimitedLog (rate : RateBudget) (now : ℕ) :
    (rate.permitAt now).1.lastLimitedLog = rate.lastLimitedLog := by
  unfold permitAt
  simp only
  split_ifs <;> rfl

theorem gate_cases (rate : RateBudget) (arrival : Arrival) :
    (rate.gate arrival).2 = .refused true ∧
        (∀ last ∈ rate.lastLimitedLog, minute ≤ arrival.logNow - last) ∧
        (rate.gate arrival).1.lastLimitedLog = some arrival.logNow ∨
      (rate.gate arrival).2 ≠ .refused true ∧
        (rate.gate arrival).1.lastLimitedLog = rate.lastLimitedLog := by
  have hkept := rate.permitAt_lastLimitedLog arrival.now
  unfold gate
  generalize rate.permitAt arrival.now = answer at hkept ⊢
  rcases answer with ⟨rate', _ | _⟩
  · simp only [shouldLogRateLimitAt] at hkept ⊢
    split_ifs with hrecent
    · exact Or.inr ⟨by simp, hkept⟩
    · refine Or.inl ⟨rfl, fun last hlast => ?_, rfl⟩
      rw [← hkept] at hlast
      rw [Option.mem_def.mp hlast] at hrecent
      simpa using hrecent
  · exact Or.inr ⟨by simp, hkept⟩

theorem gateMachine_step (rate : RateBudget) (arrival : Arrival) :
    gateMachine.step rate arrival = rate.gate arrival := rfl

theorem record_eq_none {arrival : Arrival} {gate : Gate} (h : gate ≠ .refused true) :
    record (arrival, gate) = none := by
  rcases gate with _ | _ | _
  · rfl
  · rfl
  · exact (h rfl).elim

theorem records_append (xs ys : List (Arrival × Gate)) :
    records (xs ++ ys) = records xs ++ records ys := List.filterMap_append

/-- In a spaced list nothing lies after its last entry. -/
theorem le_getLast {times : List ℕ} (h : times.Pairwise fun a b => a + minute ≤ b) {last : ℕ}
    (hlast : times.getLast? = some last) {a : ℕ} (ha : a ∈ times) : a ≤ last := by
  obtain ⟨pre, rfl⟩ := List.getLast?_eq_some_iff.mp hlast
  rw [List.pairwise_append] at h
  rcases List.mem_append.mp ha with ha | ha
  · exact (Nat.le_add_right _ _).trans (h.2.2 a ha last (List.mem_singleton_self last))
  · exact (List.mem_singleton.mp ha).le

/-- Records are a minute apart, and the last one is the throttle's. -/
theorem records_spaced (cap : UInt32) {arrivals : List Arrival}
    (hsorted : (instants arrivals).Pairwise (· ≤ ·)) :
    (records (gateMachine.answers (new cap) arrivals)).Pairwise (fun a b => a + minute ≤ b) ∧
      (gateMachine.exec (new cap) arrivals).lastLimitedLog =
        (records (gateMachine.answers (new cap) arrivals)).getLast? ∧
      ∀ a ∈ records (gateMachine.answers (new cap) arrivals), a ∈ instants arrivals := by
  induction arrivals using List.reverseRecOn with
  | nil => exact ⟨List.Pairwise.nil, rfl, by simp [records]⟩
  | append_singleton arrivals r ih =>
    have hinstants : instants (arrivals ++ [r]) = instants arrivals ++ [r.now, r.logNow] := by
      simp [instants]
    rw [hinstants] at hsorted ⊢
    rw [List.pairwise_append] at hsorted
    obtain ⟨hsorted, -, hlater⟩ := hsorted
    obtain ⟨hspaced, hlast, hmem⟩ := ih hsorted
    rw [Machine.answers_snoc, Machine.exec_snoc, records_append, gateMachine_step]
    generalize hold : records (gateMachine.answers (new cap) arrivals) = old at hspaced hlast hmem
    rcases gate_cases (gateMachine.exec (new cap) arrivals) r with ⟨hout, hlog, hnext⟩ |
      ⟨hout, hnext⟩
    · have hrecord : records [(r, ((gateMachine.exec (new cap) arrivals).gate r).2)] =
          [r.logNow] := by
        rw [hout]
        rfl
      rw [hrecord]
      refine ⟨?_, by simpa using hnext, fun a ha => ?_⟩
      · rw [List.pairwise_append]
        refine ⟨hspaced, List.pairwise_singleton _ _, fun a ha b hb => ?_⟩
        rw [List.mem_singleton.mp hb]
        obtain ⟨last, hgetLast⟩ := List.getLast?_isSome.mpr (List.ne_nil_of_mem ha) |>
          Option.isSome_iff_exists.mp
        have hle := le_getLast hspaced hgetLast ha
        have hlater := hlater last (hmem last (List.mem_of_getLast? hgetLast)) r.logNow (by simp)
        have hlog := hlog last (hlast.trans hgetLast)
        omega
      · rcases List.mem_append.mp ha with ha | ha
        · exact List.mem_append_left _ (hmem a ha)
        · rw [List.mem_singleton.mp ha]
          simp
    · have hrecord : records [(r, ((gateMachine.exec (new cap) arrivals).gate r).2)] = [] := by
        simp only [records, List.filterMap_cons, List.filterMap_nil, record_eq_none hout]
      rw [hrecord, List.append_nil]
      exact ⟨hspaced, hnext.trans hlast, fun a ha => List.mem_append_left _ (hmem a ha)⟩

/-- The budget is an exact sliding window: a request is admitted exactly when fewer than `cap`
were in the minute that ends with it, no minute holds more than `cap`, a refused request
delays none after it, and the records of refusals are a minute apart. -/
theorem exact_sliding_window (cap : UInt32) {times : List ℕ} (hsorted : times.Pairwise (· ≤ ·))
    {arrivals : List Arrival} (hinstants : (instants arrivals).Pairwise (· ≤ ·)) :
    (∀ pre t admitted post, permitMachine.answers (new cap) times = pre ++ (t, admitted) :: post →
        (admitted = true ↔ recent minute t (admissions pre) < cap.toNat)) ∧
      (∀ t, recent minute t (admissions (permitMachine.answers (new cap) times)) ≤ cap.toNat) ∧
      (∀ pre t post rest, times = pre ++ t :: post →
        permitMachine.answers (new cap) times =
          permitMachine.answers (new cap) pre ++ (t, false) :: rest →
        permitMachine.answers (new cap) (pre ++ post) =
          permitMachine.answers (new cap) pre ++ rest) ∧
      (records (gateMachine.answers (new cap) arrivals)).Pairwise fun a b => a + minute ≤ b := by
  simp only [permits_eq_trimmed]
  refine ⟨fun pre t admitted post => trimmed_admits_iff hsorted, trimmed_recent_le hsorted, ?_,
    (records_spaced cap hinstants).1⟩
  rintro pre t post rest rfl
  exact trimmed_rejected hsorted

/-- A burst across the boundary of a minute, and what is left of the budget after it. -/
def burst : List ℕ :=
  [0, 59700000000, 59700000000, 60100000000, 60100000000, 119700000000]

/-- The same requests, each asking the throttle at once if it is refused. -/
def burstArrivals : List Arrival := burst.map fun now => ⟨now, now⟩

theorem exact_sliding_window_burst :
    permitMachine.answers (new 3) burst = [(0, true), (59700000000, true), (59700000000, true),
        (60100000000, true), (60100000000, false), (119700000000, true)] ∧
      (∀ t, recent minute t (admissions (permitMachine.answers (new 3) burst)) ≤ 3) ∧
      (records (gateMachine.answers (new 3) burstArrivals)).Pairwise fun a b => a + minute ≤ b := by
  have hburst : burst.Pairwise (· ≤ ·) := by decide
  have harrivals : (instants burstArrivals).Pairwise (· ≤ ·) := by decide
  have h := exact_sliding_window 3 hburst harrivals
  exact ⟨by decide, h.2.1, h.2.2.2⟩

end RateBudget
end Hacp.Secure
