import Hacp.Secure.Transport

/-!
# The receive window

Between calls a window holds at most 64 envelopes, each under its own number. What has
been accepted and not yet delivered is held without a hole, nothing delivered is held,
and the number right above the accepted mark is never held.
-/
namespace Hacp.Secure
open Lib Std

theorem u64Max_toNat : u64Max.toNat = 2 ^ 64 - 1 := rfl

theorem toNat_lt_of_ne_max {n : UInt64} (h : n ≠ u64Max) : n.toNat < 2 ^ 64 - 1 := by
  have hn := n.toNat_lt
  have hne : n.toNat ≠ u64Max.toNat := fun heq => h (UInt64.toNat_inj.mp heq)
  rw [u64Max_toNat] at hne
  omega

/-- Below the last number the successor does not wrap. -/
theorem toNat_succ {n : UInt64} (h : n ≠ u64Max) : (n + 1).toNat = n.toNat + 1 := by
  have hn := toNat_lt_of_ne_max h
  rw [UInt64.toNat_add, UInt64.toNat_one, Nat.mod_eq_of_lt (by omega)]

theorem succ_le_iff {n m : UInt64} (h : n ≠ u64Max) : n + 1 ≤ m ↔ n < m := by
  rw [UInt64.le_iff_toNat_le, UInt64.lt_iff_toNat_lt, toNat_succ h]
  omega

theorem lt_succ_iff {n m : UInt64} (h : n ≠ u64Max) : m < n + 1 ↔ m ≤ n := by
  rw [UInt64.le_iff_toNat_le, UInt64.lt_iff_toNat_lt, toNat_succ h]
  omega

namespace Window

/-- `P` says which envelopes may be held under which number. -/
structure Sound (P : UInt64 → SecureEnvelope → Prop) (w : Window) : Prop where
  own : ∀ n env, w.held[n]? = some env → P n env
  bounded : w.held.size ≤ 64
  high_ne_max : w.high ≠ some u64Max
  max_not_held : u64Max ∉ w.held
  position : w.deliveryNext ≤ w.next
  undelivered : ∀ n ∈ w.held, w.deliveryNext ≤ n
  complete : ∀ n, w.deliveryNext ≤ n → n < w.next → n ∈ w.held

/-- Accepted, or held above the mark. -/
def Has (w : Window) (n : UInt64) : Prop := n < w.next ∨ n ∈ w.held

/-- The gap above the mark is open. -/
def Settled (w : Window) : Prop := w.next ∉ w.held

/-- Nothing more can be delivered under the view: all that was accepted is out, or the
binding at the delivery position is pending. -/
def Stalled (F : Foreign) (view : ContractView) (w : Window) : Prop :=
  ¬w.deliveryNext < w.next ∨ ∃ env, w.held[w.deliveryNext]? = some env ∧
    view.check F env.contract = .error .contractPending

variable {P : UInt64 → SecureEnvelope → Prop} {w : Window}

theorem accepted_iff (hw : w.high ≠ some u64Max) (n : UInt64) :
    w.accepted n = true ↔ n < w.next := by
  unfold accepted next
  cases hh : w.high with
  | none => simp
  | some h =>
    have hmax : h ≠ u64Max := fun he => hw (by rw [hh, he])
    simp only [Option.any_some, decide_eq_true_eq, lt_succ_iff hmax]

/-- How many held envelopes the first loop of `drain` can still accept. -/
def aboveMark (w : Window) : ℕ := (w.held.keys.filter fun n => w.next ≤ n).length

theorem aboveMark_le (w : Window) : w.aboveMark ≤ w.held.size := by
  rw [aboveMark, ← ExtTreeMap.length_keys]
  exact List.length_filter_le _ _

theorem aboveMark_advance (h : Sound P w) (hnext : w.next ∈ w.held) :
    aboveMark { w with high := some w.next } < w.aboveMark := by
  have hmax : w.next ≠ u64Max := fun he => h.max_not_held (he ▸ hnext)
  have hsub : (w.held.keys.filter fun n => w.next + 1 ≤ n) =
      (w.held.keys.filter fun n => w.next ≤ n).filter fun n => w.next + 1 ≤ n := by
    rw [List.filter_filter]
    apply List.filter_congr
    intro n _
    have hle : w.next + 1 ≤ n → w.next ≤ n := fun hn =>
      UInt64.le_of_lt ((succ_le_iff hmax).mp hn)
    by_cases hn : w.next + 1 ≤ n <;> simp [hn, hle]
  change (w.held.keys.filter fun n => w.next + 1 ≤ n).length < _
  rw [hsub, aboveMark, List.length_filter_lt_length_iff_exists]
  refine ⟨w.next, List.mem_filter.mpr ⟨ExtTreeMap.mem_keys.mpr hnext, ?_⟩, ?_⟩
  · simp
  · simp [succ_le_iff hmax]

theorem sound_empty : Sound P empty := by
  refine ⟨?_, ?_, ?_, ?_, ?_, ?_, ?_⟩ <;> simp [empty, next]

theorem settled_empty : Settled empty := by
  simp [Settled, empty]

namespace Sound
variable (h : Sound P w)
include h

theorem imp {Q : UInt64 → SecureEnvelope → Prop} (hPQ : ∀ n env, P n env → Q n env) :
    Sound Q w :=
  { h with own := fun n env he => hPQ n env (h.own n env he) }

theorem sent (n : UInt64) : Sound P { w with sendSeq := n } :=
  ⟨h.own, h.bounded, h.high_ne_max, h.max_not_held, h.position, h.undelivered, h.complete⟩

theorem deliveryNext_ne_max (hnext : w.deliveryNext < w.next) : w.deliveryNext ≠ u64Max := by
  intro hmax
  exact h.max_not_held (hmax ▸ h.complete _ UInt64.le_rfl hnext)

/-- An envelope above the mark is held until the gap closes. -/
theorem hold_above {seq : UInt64} {env : SecureEnvelope} (hseq : w.next < seq)
    (hmax : seq ≠ u64Max) (hsize : w.held.size < 64) (hP : P seq env) :
    Sound P { w with held := w.held.insert seq env } where
  own n e he := by
    rw [lookup_insert] at he
    split at he
    · next hn =>
      obtain rfl := Option.some.inj he
      exact hn ▸ hP
    · exact h.own n e he
  bounded := by
    have hle := ExtTreeMap.size_insert_le (t := w.held) (k := seq) (v := env)
    dsimp only
    omega
  high_ne_max := h.high_ne_max
  max_not_held := by
    rw [mem_insert_iff, not_or]
    exact ⟨fun he => hmax he.symm, h.max_not_held⟩
  position := h.position
  undelivered n hn := by
    rcases (mem_insert_iff _ _ _ _).mp hn with rfl | hn
    · exact UInt64.le_trans h.position (UInt64.le_of_lt hseq)
    · exact h.undelivered n hn
  complete n hlo hhi := (mem_insert_iff _ _ _ _).mpr (.inr (h.complete n hlo hhi))

/-- The message that comes next is accepted and held at once. -/
theorem hold_next {env : SecureEnvelope} (hmax : w.next ≠ u64Max) (hsize : w.held.size < 64)
    (hP : P w.next env) :
    Sound P { w with high := some w.next, held := w.held.insert w.next env } where
  own n e he := by
    rw [lookup_insert] at he
    split at he
    · next hn =>
      obtain rfl := Option.some.inj he
      exact hn ▸ hP
    · exact h.own n e he
  bounded := by
    have hle := ExtTreeMap.size_insert_le (t := w.held) (k := w.next) (v := env)
    dsimp only
    omega
  high_ne_max he := hmax (Option.some.inj he)
  max_not_held := by
    rw [mem_insert_iff, not_or]
    exact ⟨fun he => hmax he.symm, h.max_not_held⟩
  position := by
    exact UInt64.le_trans h.position (UInt64.le_of_lt ((lt_succ_iff hmax).mpr UInt64.le_rfl))
  undelivered n hn := by
    rcases (mem_insert_iff _ _ _ _).mp hn with rfl | hn
    · exact h.position
    · exact h.undelivered n hn
  complete n hlo hhi := by
    rw [mem_insert_iff]
    rcases UInt64.lt_or_eq_of_le ((lt_succ_iff hmax).mp hhi) with hlt | rfl
    · exact .inr (h.complete n hlo hlt)
    · exact .inl rfl

/-- A held envelope right above the mark raises it. -/
theorem advance (hnext : w.next ∈ w.held) : Sound P { w with high := some w.next } where
  own := h.own
  bounded := h.bounded
  high_ne_max he := h.max_not_held (Option.some.inj he ▸ hnext)
  max_not_held := h.max_not_held
  position := by
    have hmax : w.next ≠ u64Max := fun he => h.max_not_held (he ▸ hnext)
    exact UInt64.le_trans h.position (UInt64.le_of_lt ((lt_succ_iff hmax).mpr UInt64.le_rfl))
  undelivered := h.undelivered
  complete n hlo hhi := by
    have hmax : w.next ≠ u64Max := fun he => h.max_not_held (he ▸ hnext)
    rcases UInt64.lt_or_eq_of_le ((lt_succ_iff hmax).mp hhi) with hlt | rfl
    · exact h.complete n hlo hlt
    · exact hnext

theorem drop_next : Sound P { w with held := w.held.erase w.next } where
  own n e he := by
    rw [lookup_erase] at he
    split at he
    · cases he
    · exact h.own n e he
  bounded := Nat.le_trans ExtTreeMap.size_erase_le h.bounded
  high_ne_max := h.high_ne_max
  max_not_held hm := h.max_not_held ((mem_erase_iff _ _ _).mp hm).2
  position := h.position
  undelivered n hn := h.undelivered n ((mem_erase_iff _ _ _).mp hn).2
  complete n hlo hhi :=
    (mem_erase_iff _ _ _).mpr ⟨UInt64.ne_of_lt hhi, h.complete n hlo hhi⟩

/-- Delivery moves the position by one. -/
theorem deliver (hnext : w.deliveryNext < w.next) :
    Sound P { w with
      held := w.held.erase w.deliveryNext
      deliveryNext := w.deliveryNext + 1 } where
  own n e he := by
    rw [lookup_erase] at he
    split at he
    · cases he
    · exact h.own n e he
  bounded := Nat.le_trans ExtTreeMap.size_erase_le h.bounded
  high_ne_max := h.high_ne_max
  max_not_held hm := h.max_not_held ((mem_erase_iff _ _ _).mp hm).2
  position := (succ_le_iff (h.deliveryNext_ne_max hnext)).mpr hnext
  undelivered n hn := by
    obtain ⟨hne, hn⟩ := (mem_erase_iff _ _ _).mp hn
    apply (succ_le_iff (h.deliveryNext_ne_max hnext)).mpr
    exact UInt64.lt_of_le_of_ne (h.undelivered n hn) hne.symm
  complete n hlo hhi := by
    have hlt := (succ_le_iff (h.deliveryNext_ne_max hnext)).mp hlo
    exact (mem_erase_iff _ _ _).mpr ⟨(UInt64.ne_of_lt hlt).symm,
      h.complete n (UInt64.le_of_lt hlt) hhi⟩

end Sound
end Window
end Hacp.Secure
