import Hacp.Lib.Machine

/-!
# Sliding windows

A limiter admits a request when fewer than `cap` requests were admitted in the interval of
length `span` that ends with it. The one that remembers every admission is the
specification. The one that keeps a queue and evicts from its front gives the same
answers, as long as time does not go backwards.
-/
namespace Hacp.Lib

namespace SlidingWindow

/-- `a` lies in the half-open interval of length `span` that ends with `t`. -/
def Within (span t a : ℕ) : Prop := a ≤ t ∧ t < a + span

instance (span t : ℕ) : DecidablePred (Within span t) :=
  fun _ => inferInstanceAs (Decidable (_ ∧ _))

def recent (span t : ℕ) (admitted : List ℕ) : ℕ := admitted.countP fun a => Within span t a

def limiter (span cap : ℕ) : Machine (List ℕ) ℕ Bool where
  step admitted t :=
    if recent span t admitted < cap then (admitted ++ [t], true) else (admitted, false)

/-- Drops from the front what has left the interval. -/
def evict (span t : ℕ) (queue : List ℕ) : List ℕ := queue.dropWhile fun a => span ≤ t - a

/-- The limiter that keeps what it has not evicted. -/
def trimmed (span cap : ℕ) : Machine (List ℕ) ℕ Bool where
  step queue t :=
    let queue := evict span t queue
    if queue.length < cap then (queue ++ [t], true) else (queue, false)

def admissions (answers : List (ℕ × Bool)) : List ℕ := (answers.filter Prod.snd).map Prod.fst

variable {span cap t u : ℕ}

theorem limiter_step (admitted : List ℕ) (t : ℕ) : (limiter span cap).step admitted t =
    if recent span t admitted < cap then (admitted ++ [t], true) else (admitted, false) := rfl

theorem trimmed_step (queue : List ℕ) (t : ℕ) : (trimmed span cap).step queue t =
    if (evict span t queue).length < cap then (evict span t queue ++ [t], true)
    else (evict span t queue, false) := rfl

theorem admissions_append (xs ys : List (ℕ × Bool)) :
    admissions (xs ++ ys) = admissions xs ++ admissions ys := by
  simp [admissions]

theorem limiter_admissions (times : List ℕ) :
    admissions ((limiter span cap).answers [] times) = (limiter span cap).exec [] times := by
  induction times using List.reverseRecOn with
  | nil => rfl
  | append_singleton times t ih =>
    rw [Machine.answers_snoc, Machine.exec_snoc, admissions_append, ih, limiter_step]
    split_ifs <;> simp [admissions]

theorem limiter_sublist (times : List ℕ) :
    ((limiter span cap).exec [] times).Sublist times := by
  induction times using List.reverseRecOn with
  | nil => exact List.Sublist.refl _
  | append_singleton times t ih =>
    rw [Machine.exec_snoc, limiter_step]
    split_ifs
    · exact ih.append (List.Sublist.refl _)
    · exact ih.trans (List.sublist_append_left _ _)

theorem Within.earlier {a : ℕ} (h : Within span t a) (hau : a ≤ u) (hut : u ≤ t) :
    Within span u a := by
  obtain ⟨-, hlt⟩ := h
  exact ⟨hau, by omega⟩

/-- No interval holds more admissions than the cap. -/
theorem limiter_recent_le {times : List ℕ} (hsorted : times.Pairwise (· ≤ ·)) (t : ℕ) :
    recent span t ((limiter span cap).exec [] times) ≤ cap := by
  induction times using List.reverseRecOn with
  | nil => exact Nat.zero_le _
  | append_singleton times u ih =>
    rw [List.pairwise_append] at hsorted
    obtain ⟨hsorted, -, hlast⟩ := hsorted
    have hle := ih hsorted
    rw [Machine.exec_snoc]
    generalize hadmitted : (limiter span cap).exec [] times = admitted at hle
    have hbefore : ∀ a ∈ admitted, a ≤ u := by
      intro a ha
      rw [← hadmitted] at ha
      exact hlast a ((limiter_sublist times).subset ha) u (List.mem_singleton_self u)
    rw [limiter_step]
    split_ifs with hcap
    · have hsplit : recent span t (admitted ++ [u]) =
          recent span t admitted + if Within span t u then 1 else 0 := by
        simp [recent, List.countP_append, List.countP_cons]
      rw [hsplit]
      by_cases hu : Within span t u
      · -- everything recent at `t` was recent when `u` was admitted
        have hmono : recent span t admitted ≤ recent span u admitted := by
          apply List.countP_mono_left
          intro a ha h
          rw [decide_eq_true_eq] at h ⊢
          exact h.earlier (hbefore a ha) hu.1
        rw [if_pos hu]
        omega
      · rw [if_neg hu]
        exact hle
    · exact hle

/-- Eviction from the front of an ordered queue leaves what is recent. -/
theorem evict_eq_filter {queue : List ℕ} (hsorted : queue.Pairwise (· ≤ ·))
    (hle : ∀ a ∈ queue, a ≤ t) : evict span t queue = queue.filter fun a => Within span t a := by
  induction queue with
  | nil => rfl
  | cons a queue ih =>
    rw [List.pairwise_cons] at hsorted
    rw [List.forall_mem_cons] at hle
    by_cases hold : span ≤ t - a
    · have hout : ¬Within span t a := by
        rintro ⟨-, hlt⟩
        omega
      have hrest := ih hsorted.2 hle.2
      simp only [evict] at hrest
      simp [evict, hold, hout, hrest]
    · have hall : ∀ b ∈ a :: queue, Within span t b := by
        intro b hb
        have hab : a ≤ b := by
          rcases List.mem_cons.mp hb with rfl | hb
          · exact le_rfl
          · exact hsorted.1 b hb
        have hbt : b ≤ t := by
          rcases List.mem_cons.mp hb with rfl | hb
          · exact hle.1
          · exact hle.2 b hb
        exact ⟨hbt, by omega⟩
      rw [List.filter_eq_self.mpr fun b hb => decide_eq_true (hall b hb)]
      simp [evict, hold]

theorem filter_recent_append {admitted : List ℕ} (hle : ∀ a ∈ admitted, a ≤ u) (hut : u ≤ t) :
    (admitted.filter fun a => Within span u a).filter (fun a => Within span t a) =
      admitted.filter fun a => Within span t a := by
  rw [List.filter_filter]
  apply List.filter_congr
  intro a ha
  rw [Bool.and_eq_left_iff_imp, decide_eq_true_eq, decide_eq_true_eq]
  exact fun h => h.earlier (hle a ha) hut

/-- What the queue holds once it is trimmed are the recent ones among all admissions. -/
theorem trimmed_exec {times : List ℕ} (hsorted : times.Pairwise (· ≤ ·)) {t : ℕ}
    (hle : ∀ a ∈ times, a ≤ t) : evict span t ((trimmed span cap).exec [] times) =
      ((limiter span cap).exec [] times).filter fun a => Within span t a := by
  induction times using List.reverseRecOn generalizing t with
  | nil => rfl
  | append_singleton times u ih =>
    rw [List.pairwise_append] at hsorted
    obtain ⟨hsorted, -, hlast⟩ := hsorted
    have htu : u ≤ t := hle u (by simp)
    have hbefore : ∀ a ∈ times, a ≤ u := fun a ha => hlast a ha u (List.mem_singleton_self u)
    have hadmitted : ∀ a ∈ (limiter span cap).exec [] times, a ≤ u := fun a ha =>
      hbefore a ((limiter_sublist times).subset ha)
    have hkept : ((limiter span cap).exec [] times).Sublist times := limiter_sublist times
    have hordered := hsorted.sublist hkept
    have hcount : (evict span u ((trimmed span cap).exec [] times)).length =
        recent span u ((limiter span cap).exec [] times) := by
      rw [ih hsorted hbefore, recent, List.countP_eq_length_filter]
    rw [Machine.exec_snoc, Machine.exec_snoc, trimmed_step, limiter_step, hcount,
      ih hsorted hbefore]
    split_ifs
    · rw [evict_eq_filter, List.filter_append, filter_recent_append hadmitted htu,
        List.filter_append]
      · rw [List.pairwise_append]
        refine ⟨hordered.filter _, List.pairwise_singleton _ _, fun a ha b hb => ?_⟩
        rw [List.mem_singleton.mp hb]
        exact hadmitted a (List.mem_of_mem_filter ha)
      · intro a ha
        rcases List.mem_append.mp ha with ha | ha
        · exact (hadmitted a (List.mem_of_mem_filter ha)).trans htu
        · exact List.mem_singleton.mp ha ▸ htu
    · rw [evict_eq_filter, filter_recent_append hadmitted htu]
      · exact hordered.filter _
      · exact fun a ha => (hadmitted a (List.mem_of_mem_filter ha)).trans htu

/-- The queue answers like the limiter that forgets nothing. -/
theorem trimmed_answers {times : List ℕ} (hsorted : times.Pairwise (· ≤ ·)) :
    (trimmed span cap).answers [] times = (limiter span cap).answers [] times := by
  induction times using List.reverseRecOn with
  | nil => rfl
  | append_singleton times u ih =>
    rw [List.pairwise_append] at hsorted
    obtain ⟨hsorted, -, hlast⟩ := hsorted
    have hbefore : ∀ a ∈ times, a ≤ u := fun a ha => hlast a ha u (List.mem_singleton_self u)
    rw [Machine.answers_snoc, Machine.answers_snoc, ih hsorted, trimmed_step, limiter_step,
      trimmed_exec hsorted hbefore, recent, List.countP_eq_length_filter]
    split_ifs <;> rfl

section Answers
variable {times : List ℕ} (hsorted : times.Pairwise (· ≤ ·))
include hsorted

/-- A request is admitted exactly when the interval that ends with it has room. -/
theorem trimmed_admits_iff {pre post : List (ℕ × Bool)} {b : Bool}
    (h : (trimmed span cap).answers [] times = pre ++ (t, b) :: post) :
    b = true ↔ recent span t (admissions pre) < cap := by
  rw [trimmed_answers hsorted] at h
  obtain ⟨js, ks, -, rfl, rfl⟩ := Machine.answers_split _ h
  rw [limiter_admissions, limiter_step]
  split_ifs with hcap <;> simp [hcap]

theorem trimmed_recent_le (t : ℕ) :
    recent span t (admissions ((trimmed span cap).answers [] times)) ≤ cap := by
  rw [trimmed_answers hsorted, limiter_admissions]
  exact limiter_recent_le hsorted t

end Answers

/-- Leaving a rejected request out changes no other answer. -/
theorem trimmed_rejected {pre post : List ℕ} (hsorted : (pre ++ t :: post).Pairwise (· ≤ ·))
    {rest : List (ℕ × Bool)} (h : (trimmed span cap).answers [] (pre ++ t :: post) =
      (trimmed span cap).answers [] pre ++ (t, false) :: rest) :
    (trimmed span cap).answers [] (pre ++ post) = (trimmed span cap).answers [] pre ++ rest := by
  have hless : (pre ++ post).Pairwise (· ≤ ·) :=
    hsorted.sublist ((List.sublist_cons_self t post).append_left pre)
  have hpre : pre.Pairwise (· ≤ ·) := hsorted.sublist (List.sublist_append_left _ _)
  rw [trimmed_answers hsorted, trimmed_answers hpre, Machine.answers_append,
    List.append_cancel_left_eq, Machine.answers_cons] at h
  rw [trimmed_answers hless, trimmed_answers hpre, Machine.answers_append,
    List.append_cancel_left_eq]
  obtain ⟨hanswer, hrest⟩ := List.cons.inj h
  rw [Prod.mk.injEq] at hanswer
  have hkept : ((limiter span cap).step ((limiter span cap).exec [] pre) t).1 =
      (limiter span cap).exec [] pre := by
    have hrejected := hanswer.2
    rw [limiter_step] at hrejected ⊢
    split_ifs at hrejected ⊢
    rfl
  rw [hkept] at hrest
  exact hrest

end SlidingWindow
end Hacp.Lib
