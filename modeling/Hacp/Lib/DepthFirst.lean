import Hacp.Lib.Loop
import Mathlib.Logic.Relation

/-!
# Coloured depth-first walks

A walk enters a node, visits its children in order and then lists the node. A node
in progress that is met again closes a cycle; a listed node is not entered again.
The walk returns under any budget above the number of nodes it can enter, and it
succeeds exactly when every node it can reach may be entered and lies on no cycle.
-/
namespace Hacp.Lib
open Relation

inductive Color where
  | inProgress
  | done
  deriving DecidableEq

structure Walk (α β : Type*) where
  colors : α → Option Color := fun _ => none
  order : List β := []

namespace Walk
variable {α β ε : Type*}

def visitAll (visit : α → Walk α β → Option (Except ε (Walk α β))) :
    List α → Walk α β → Option (Except ε (Walk α β))
  | [], w => some (.ok w)
  | x :: xs, w => match visit x w with
    | some (.ok w) => visitAll visit xs w
    | r => r

section Operations
variable [DecidableEq α]

def start (w : Walk α β) (x : α) : Walk α β :=
  { w with colors := Function.update w.colors x (some .inProgress) }

def finish (w : Walk α β) (x : α) (b : β) : Walk α β :=
  ⟨Function.update w.colors x (some .done), w.order ++ [b]⟩

/-- One node under a budget for the depth of the recursion. `enter` gives the children of
a node and what is listed for it. -/
def visit (enter : α → Except ε (List α × β)) (cycle : α → ε) :
    ℕ → α → Walk α β → Option (Except ε (Walk α β))
  | 0, _, _ => none
  | n + 1, x, w => match w.colors x with
    | some .done => some (.ok w)
    | some .inProgress => some (.error (cycle x))
    | none => match enter x with
      | .error e => some (.error e)
      | .ok (children, b) => match visitAll (visit enter cycle n) children (w.start x) with
        | some (.ok w) => some (.ok (w.finish x b))
        | r => r

/-- A whole walk, from the nodes it starts at. -/
def run (enter : α → Except ε (List α × β)) (cycle : α → ε) (n : ℕ) (starts : List α) :
    Option (Except ε (Walk α β)) :=
  visitAll (visit enter cycle n) starts {}

def outcome : Option (Except ε (Walk α β)) → Outcome (Except ε (List β))
  | none => .diverges
  | some r => .returns (r.map Walk.order)

@[simp] theorem start_order (w : Walk α β) (x : α) : (w.start x).order = w.order := rfl

@[simp] theorem start_colors (w : Walk α β) (x y : α) :
    (w.start x).colors y = if y = x then some .inProgress else w.colors y := by
  simp [start, Function.update_apply]

@[simp] theorem finish_order (w : Walk α β) (x : α) (b : β) :
    (w.finish x b).order = w.order ++ [b] := rfl

@[simp] theorem finish_colors (w : Walk α β) (x y : α) (b : β) :
    (w.finish x b).colors y = if y = x then some .done else w.colors y := by
  simp [finish, Function.update_apply]

end Operations

def Edge (enter : α → Except ε (List α × β)) (x y : α) : Prop :=
  ∃ p, enter x = .ok p ∧ y ∈ p.1

def Reached (enter : α → Except ε (List α × β)) (starts : List α) (y : α) : Prop :=
  ∃ x ∈ starts, ReflTransGen (Edge enter) x y

variable (enter : α → Except ε (List α × β)) (key : β → α)

/-- What is done is what is listed; it is listed once, after its children. -/
structure Good (w : Walk α β) : Prop where
  done_iff : ∀ x, w.colors x = some .done ↔ x ∈ w.order.map key
  nodup : (w.order.map key).Nodup
  closed : ∀ l₁ b l₂, w.order = l₁ ++ b :: l₂ →
    ∃ children, enter (key b) = .ok (children, b) ∧ ∀ y ∈ children, y ∈ l₁.map key

/-- What visiting the nodes `xs` does: they are done, the order only grows, by nodes that
they reach, and what is in progress stays so. -/
structure Visited (xs : List α) (w w' : Walk α β) : Prop where
  added : ∃ l, w'.order = w.order ++ l ∧ ∀ b ∈ l, Reached enter xs (key b)
  inProgress : ∀ x, w'.colors x = some .inProgress ↔ w.colors x = some .inProgress
  done : ∀ x ∈ xs, w'.colors x = some .done

variable {enter key}

theorem good_empty : Good enter key ({} : Walk α β) where
  done_iff := by simp
  nodup := by simp
  closed := by simp

theorem Good.done_of_order {w w' : Walk α β} (hw : Good enter key w) (hw' : Good enter key w')
    {l : List β} (hl : w'.order = w.order ++ l) {x : α} (hx : w.colors x = some .done) :
    w'.colors x = some .done := by
  rw [hw'.done_iff, hl, List.map_append]
  exact List.mem_append_left _ ((hw.done_iff x).mp hx)

theorem Visited.refl {w : Walk α β} {x : α} (hx : w.colors x = some .done) :
    Visited enter key [x] w w where
  added := ⟨[], by simp, by simp⟩
  inProgress _ := Iff.rfl
  done := by simpa using hx

theorem Visited.nil (w : Walk α β) : Visited enter key [] w w where
  added := ⟨[], by simp, by simp⟩
  inProgress _ := Iff.rfl
  done := by simp

theorem Visited.cons {w w₁ w₂ : Walk α β} {x : α} {xs : List α} (hw₁ : Good enter key w₁)
    (hw₂ : Good enter key w₂) (h : Visited enter key [x] w w₁)
    (hrest : Visited enter key xs w₁ w₂) : Visited enter key (x :: xs) w w₂ := by
  obtain ⟨l, hl, hreach⟩ := h.added
  obtain ⟨m, hm, hreach'⟩ := hrest.added
  refine ⟨⟨l ++ m, ?_, ?_⟩, fun y => (hrest.inProgress y).trans (h.inProgress y), ?_⟩
  · rw [hm, hl, List.append_assoc]
  · intro b hb
    rcases List.mem_append.mp hb with hb | hb
    · obtain ⟨y, hy, hpath⟩ := hreach b hb
      obtain rfl := List.mem_singleton.mp hy
      exact ⟨y, List.mem_cons_self, hpath⟩
    · obtain ⟨y, hy, hpath⟩ := hreach' b hb
      exact ⟨y, List.mem_cons_of_mem _ hy, hpath⟩
  · intro y hy
    rcases List.mem_cons.mp hy with rfl | hy
    · exact hw₁.done_of_order hw₂ hm (h.done y List.mem_cons_self)
    · exact hrest.done y hy

theorem visitAll_ok {visit : α → Walk α β → Option (Except ε (Walk α β))}
    (hvisit : ∀ x w w', Good enter key w → visit x w = some (.ok w') →
      Good enter key w' ∧ Visited enter key [x] w w')
    {xs : List α} {w w' : Walk α β} (hw : Good enter key w)
    (h : visitAll visit xs w = some (.ok w')) :
    Good enter key w' ∧ Visited enter key xs w w' := by
  induction xs generalizing w with
  | nil =>
    obtain rfl : w = w' := by simpa [visitAll] using h
    exact ⟨hw, .nil w⟩
  | cons x xs ih =>
    rw [visitAll] at h
    split at h
    · rename_i w₁ hx
      obtain ⟨hw₁, hvisited⟩ := hvisit x w w₁ hw hx
      obtain ⟨hw', hrest⟩ := ih hw₁ h
      exact ⟨hw', .cons hw₁ hw' hvisited hrest⟩
    · rename_i hno
      exact absurd h (hno w')

section Runs
variable [DecidableEq α] {cycle : α → ε}

/-- Nothing that is listed changes when a new node is started. -/
theorem Good.start {w : Walk α β} (hw : Good enter key w) {x : α} (hx : w.colors x = none) :
    Good enter key (w.start x) where
  done_iff y := by
    rw [start_colors, start_order, ← hw.done_iff]
    by_cases hy : y = x
    · simp [hy, hx]
    · simp [hy]
  nodup := hw.nodup
  closed := hw.closed

/-- A node is listed after its children. -/
theorem Good.finish {w : Walk α β} (hw : Good enter key w) {x : α} {children : List α} {b : β}
    (henter : enter x = .ok (children, b)) (hkey : key b = x)
    (hx : w.colors x = some .inProgress)
    (hchildren : ∀ y ∈ children, w.colors y = some .done) : Good enter key (w.finish x b) := by
  have hnew : x ∉ w.order.map key := by
    rw [← hw.done_iff, hx]
    simp
  refine ⟨fun y => ?_, ?_, ?_⟩
  · rw [finish_colors, finish_order, List.map_append, List.map_singleton, List.mem_append,
      List.mem_singleton, hkey, ← hw.done_iff]
    by_cases hy : y = x <;> simp [hy]
  · rw [finish_order, List.map_append, List.map_singleton, hkey]
    exact hw.nodup.append (List.nodup_singleton x) (by simpa using hnew)
  · intro l₁ b' l₂ hl
    rw [finish_order] at hl
    rcases List.eq_nil_or_concat l₂ with rfl | ⟨l₂, c, rfl⟩
    · obtain ⟨rfl, hb⟩ := List.append_inj' hl rfl
      obtain rfl := (List.cons.inj hb).1
      exact ⟨children, by rw [hkey, henter],
        fun y hy => (hw.done_iff y).mp (hchildren y hy)⟩
    · have hsplit : w.order ++ [b] = (l₁ ++ b' :: l₂) ++ [c] := by simpa using hl
      exact hw.closed l₁ b' l₂ (List.append_inj' hsplit rfl).1

/-- The children visited between its start and its end, a node is visited. -/
theorem Visited.finish {w w' : Walk α β} {x : α} {children : List α} {b : β}
    (henter : enter x = .ok (children, b)) (hkey : key b = x) (hx : w.colors x = none)
    (h : Visited enter key children (w.start x) w') :
    Visited enter key [x] w (w'.finish x b) := by
  obtain ⟨l, hl, hreach⟩ := h.added
  refine ⟨⟨l ++ [b], ?_, ?_⟩, fun y => ?_, ?_⟩
  · rw [finish_order, hl, start_order, List.append_assoc]
  · intro b' hb
    rcases List.mem_append.mp hb with hb | hb
    · obtain ⟨y, hy, hpath⟩ := hreach b' hb
      exact ⟨x, List.mem_singleton_self x, .head ⟨_, henter, hy⟩ hpath⟩
    · obtain rfl := List.mem_singleton.mp hb
      exact ⟨x, List.mem_singleton_self x, hkey ▸ .refl⟩
  · rw [finish_colors]
    by_cases hy : y = x
    · simp [hy, hx]
    · rw [if_neg hy, h.inProgress, start_colors, if_neg hy]
  · simp

theorem visit_ok (hkey : ∀ x p, enter x = .ok p → key p.2 = x) {n : ℕ} {x : α}
    {w w' : Walk α β} (hw : Good enter key w) (h : visit enter cycle n x w = some (.ok w')) :
    Good enter key w' ∧ Visited enter key [x] w w' := by
  induction n generalizing x w w' with
  | zero => simp [visit] at h
  | succ n ih =>
    rw [visit] at h
    split at h
    · rename_i hx
      obtain rfl : w = w' := by simpa using h
      exact ⟨hw, .refl hx⟩
    · simp at h
    · rename_i hx
      split at h
      · simp at h
      · rename_i children b henter
        split at h
        · rename_i w₁ hchildren
          obtain rfl : w₁.finish x b = w' := by simpa using h
          obtain ⟨hw₁, hvisited⟩ := visitAll_ok (fun _ _ _ => ih) (hw.start hx) hchildren
          have hb := hkey x _ henter
          have hprogress : w₁.colors x = some .inProgress := by
            rw [hvisited.inProgress]
            simp
          exact ⟨hw₁.finish henter hb hprogress hvisited.done, .finish henter hb hx hvisited⟩
        · rename_i hno
          exact absurd h (hno w')

end Runs

/-! ## Failures -/

/-- What a failure reports: a node that may not be entered or one on a cycle. -/
def Fault (enter : α → Except ε (List α × β)) (cycle : α → ε) (starts : List α) (e : ε) : Prop :=
  ∃ y, Reached enter starts y ∧
    (enter y = .error e ∨ e = cycle y ∧ TransGen (Edge enter) y y)

variable {cycle : α → ε}

theorem Fault.mono {xs ys : List α} {e : ε} (h : Fault enter cycle xs e)
    (hsub : ∀ x ∈ xs, Reached enter ys x) : Fault enter cycle ys e := by
  obtain ⟨y, ⟨x, hx, hpath⟩, hy⟩ := h
  obtain ⟨z, hz, hpath'⟩ := hsub x hx
  exact ⟨y, ⟨z, hz, hpath'.trans hpath⟩, hy⟩

theorem Reached.self {x : α} {xs : List α} (hx : x ∈ xs) : Reached enter xs x := ⟨x, hx, .refl⟩

theorem visitAll_error {visit : α → Walk α β → Option (Except ε (Walk α β))}
    (hok : ∀ x w w', Good enter key w → visit x w = some (.ok w') →
      Good enter key w' ∧ Visited enter key [x] w w')
    (herror : ∀ x w e, Good enter key w →
      (∀ g, w.colors g = some .inProgress → TransGen (Edge enter) g x) →
      visit x w = some (.error e) → Fault enter cycle [x] e)
    {xs : List α} {w : Walk α β} {e : ε} (hw : Good enter key w)
    (hpath : ∀ g, w.colors g = some .inProgress → ∀ x ∈ xs, TransGen (Edge enter) g x)
    (h : visitAll visit xs w = some (.error e)) : Fault enter cycle xs e := by
  induction xs generalizing w with
  | nil => simp [visitAll] at h
  | cons x xs ih =>
    rw [visitAll] at h
    split at h
    · rename_i w₁ hx
      obtain ⟨hw₁, hvisited⟩ := hok x w w₁ hw hx
      have hpath₁ : ∀ g, w₁.colors g = some .inProgress →
          ∀ y ∈ xs, TransGen (Edge enter) g y := fun g hg y hy =>
        hpath g ((hvisited.inProgress g).mp hg) y (List.mem_cons_of_mem _ hy)
      exact (ih hw₁ hpath₁ h).mono fun y hy => .self (List.mem_cons_of_mem _ hy)
    · have hx := herror x w e hw (fun g hg => hpath g hg x List.mem_cons_self) h
      refine hx.mono fun y hy => ?_
      obtain rfl := List.mem_singleton.mp hy
      exact .self List.mem_cons_self

/-- Every node in progress reaches the one being visited, so meeting one closes a cycle. -/
theorem visit_error [DecidableEq α] (hkey : ∀ x p, enter x = .ok p → key p.2 = x) {n : ℕ}
    {x : α} {w : Walk α β} {e : ε} (hw : Good enter key w)
    (hpath : ∀ g, w.colors g = some .inProgress → TransGen (Edge enter) g x)
    (h : visit enter cycle n x w = some (.error e)) : Fault enter cycle [x] e := by
  induction n generalizing x w e with
  | zero => simp [visit] at h
  | succ n ih =>
    rw [visit] at h
    split at h
    · simp at h
    · rename_i hx
      obtain rfl : cycle x = e := by simpa using h
      exact ⟨x, .self (List.mem_singleton_self x), .inr ⟨rfl, hpath x hx⟩⟩
    · rename_i hx
      split at h
      · rename_i henter
        obtain rfl : _ = e := by simpa using h
        exact ⟨x, .self (List.mem_singleton_self x), .inl henter⟩
      · rename_i children b henter
        split at h
        · simp at h
        · have hedge : ∀ y ∈ children, Edge enter x y := fun y hy => ⟨_, henter, hy⟩
          have hprogress : ∀ g, (w.start x).colors g = some .inProgress →
              ∀ y ∈ children, TransGen (Edge enter) g y := by
            intro g hg y hy
            rw [start_colors] at hg
            split_ifs at hg with hgx
            · exact hgx ▸ .single (hedge y hy)
            · exact (hpath g hg).tail (hedge y hy)
          have hfault := visitAll_error (fun _ _ _ => visit_ok hkey) (fun _ _ _ => ih)
            (hw.start hx) hprogress h
          exact hfault.mono fun y hy =>
            ⟨x, List.mem_singleton_self x, .single (hedge y hy)⟩

/-! ## Termination -/

/-- Every node in reach that may be entered is one of `known`. -/
def Known (enter : α → Except ε (List α × β)) (known : Finset α) (starts : List α) : Prop :=
  ∀ y p, Reached enter starts y → enter y = .ok p → y ∈ known

def fresh (known : Finset α) (w : Walk α β) : Finset α := known.filter fun x => w.colors x = none

theorem Visited.fresh_subset {known : Finset α} {xs : List α} {w w' : Walk α β}
    (hw : Good enter key w) (hw' : Good enter key w') (h : Visited enter key xs w w') :
    fresh known w' ⊆ fresh known w := by
  intro x hx
  rw [fresh, Finset.mem_filter] at hx ⊢
  refine ⟨hx.1, ?_⟩
  obtain ⟨l, hl, -⟩ := h.added
  cases hcolor : w.colors x with
  | none => rfl
  | some c =>
    cases c with
    | inProgress =>
      have hstill := (h.inProgress x).mpr hcolor
      simp [hx.2] at hstill
    | done =>
      have hstill := hw.done_of_order hw' hl hcolor
      simp [hx.2] at hstill

theorem visitAll_returns {known : Finset α} {n : ℕ}
    {visit : α → Walk α β → Option (Except ε (Walk α β))}
    (hok : ∀ x w w', Good enter key w → visit x w = some (.ok w') →
      Good enter key w' ∧ Visited enter key [x] w w')
    {xs : List α} (hreturns : ∀ x ∈ xs, ∀ w, Good enter key w → (fresh known w).card < n →
      ∃ r, visit x w = some r)
    {w : Walk α β} (hw : Good enter key w) (hn : (fresh known w).card < n) :
    ∃ r, visitAll visit xs w = some r := by
  induction xs generalizing w with
  | nil => exact ⟨.ok w, rfl⟩
  | cons x xs ih =>
    obtain ⟨r, hr⟩ := hreturns x List.mem_cons_self w hw hn
    cases r with
    | error e => exact ⟨.error e, by simp only [visitAll, hr]⟩
    | ok w₁ =>
      obtain ⟨hw₁, hvisited⟩ := hok x w w₁ hw hr
      have hsub : fresh known w₁ ⊆ fresh known w := hvisited.fresh_subset hw hw₁
      have hle := Finset.card_le_card hsub
      obtain ⟨r, hrest⟩ :=
        ih (fun y hy => hreturns y (List.mem_cons_of_mem _ hy)) hw₁ (by omega)
      exact ⟨r, by simp only [visitAll, hr, hrest]⟩

/-- Each level of the recursion colours one more of the nodes that may be entered. -/
theorem visit_returns [DecidableEq α] (hkey : ∀ x p, enter x = .ok p → key p.2 = x)
    {known : Finset α} {n : ℕ} {x : α} (hknown : Known enter known [x])
    {w : Walk α β} (hw : Good enter key w) (hn : (fresh known w).card < n) :
    ∃ r, visit enter cycle n x w = some r := by
  induction n generalizing x w with
  | zero => omega
  | succ n ih =>
    rw [visit]
    split
    · exact ⟨_, rfl⟩
    · exact ⟨_, rfl⟩
    · rename_i hx
      split
      · exact ⟨_, rfl⟩
      · rename_i children b henter
        have hlt : fresh known (w.start x) ⊂ fresh known w := by
          refine Finset.ssubset_iff_of_subset (fun y hy => ?_) |>.mpr ⟨x, ?_, ?_⟩
          · simp only [fresh, Finset.mem_filter, start_colors] at hy ⊢
            split_ifs at hy with hyx
            · simp at hy
            · exact hy
          · simp [fresh, hx, hknown x _ (.self (List.mem_singleton_self x)) henter]
          · simp [fresh]
        have hcard := Finset.card_lt_card hlt
        have hbelow : ∀ y ∈ children, Known enter known [y] := by
          rintro y hy z p ⟨y', hy', hpath⟩ hp
          obtain rfl := List.mem_singleton.mp hy'
          exact hknown z p ⟨x, List.mem_singleton_self x, .head ⟨_, henter, hy⟩ hpath⟩ hp
        obtain ⟨r, hr⟩ := visitAll_returns (fun _ _ _ => visit_ok hkey)
          (fun y hy _ => ih (hbelow y hy)) (hw.start hx) (by omega)
        rw [hr]
        cases r with
        | error e => exact ⟨_, rfl⟩
        | ok w₁ => exact ⟨_, rfl⟩

/-! ## Whole walks -/

/-- Every node the walk can reach may be entered and lies on no cycle. -/
def Clear (enter : α → Except ε (List α × β)) (starts : List α) : Prop :=
  ∀ y, Reached enter starts y → (∃ p, enter y = .ok p) ∧ ¬TransGen (Edge enter) y y

theorem Fault.not_clear {starts : List α} {e : ε} (h : Fault enter cycle starts e) :
    ¬Clear enter starts := by
  obtain ⟨y, hy, hfault⟩ := h
  intro hclear
  obtain ⟨⟨p, hp⟩, hacyclic⟩ := hclear y hy
  rcases hfault with herror | ⟨-, hcycle⟩
  · rw [hp] at herror
    cases herror
  · exact hacyclic hcycle

theorem Good.entered {w : Walk α β} (hw : Good enter key w) {l₁ l₂ : List β} {b : β}
    (hl : w.order = l₁ ++ b :: l₂) {y : α} (hy : Edge enter (key b) y) : y ∈ l₁.map key := by
  obtain ⟨children, henter, hchildren⟩ := hw.closed l₁ b l₂ hl
  obtain ⟨p, hp, hmem⟩ := hy
  obtain rfl := Except.ok.inj (henter.symm.trans hp)
  exact hchildren y hmem

/-- Everything strictly below a listed node is listed before it. -/
theorem Good.below_before {w : Walk α β} (hw : Good enter key w) {l₁ l₂ : List β} {b : β}
    (hl : w.order = l₁ ++ b :: l₂) {y : α} (hy : TransGen (Edge enter) (key b) y) :
    y ∈ l₁.map key := by
  induction hy with
  | single hedge => exact hw.entered hl hedge
  | tail _ hedge ih =>
    obtain ⟨c, hc, rfl⟩ := List.mem_map.mp ih
    obtain ⟨m₁, m₂, rfl⟩ := List.append_of_mem hc
    have hbefore : w.order = m₁ ++ c :: (m₂ ++ b :: l₂) := by simpa using hl
    have hearlier := hw.entered hbefore hedge
    rw [List.map_append]
    exact List.mem_append_left _ hearlier

theorem Good.listed_clear {w : Walk α β} (hw : Good enter key w) {y : α}
    (hy : y ∈ w.order.map key) : (∃ p, enter y = .ok p) ∧ ¬TransGen (Edge enter) y y := by
  obtain ⟨b, hb, rfl⟩ := List.mem_map.mp hy
  obtain ⟨l₁, l₂, hl⟩ := List.append_of_mem hb
  obtain ⟨children, henter, -⟩ := hw.closed l₁ b l₂ hl
  refine ⟨⟨_, henter⟩, fun hcycle => ?_⟩
  have hbefore := hw.below_before hl hcycle
  have hnodup := hw.nodup
  rw [hl, List.map_append, List.map_cons] at hnodup
  exact List.disjoint_of_nodup_append hnodup hbefore List.mem_cons_self

theorem listed_iff {starts : List α} {w : Walk α β} (hw : Good enter key w)
    (h : Visited enter key starts {} w) {y : α} :
    y ∈ w.order.map key ↔ Reached enter starts y := by
  obtain ⟨l, hl, hreach⟩ := h.added
  constructor
  · intro hy
    obtain ⟨b, hb, rfl⟩ := List.mem_map.mp hy
    exact hreach b (by simpa [hl] using hb)
  · rintro ⟨x, hx, hpath⟩
    induction hpath with
    | refl => exact (hw.done_iff x).mp (h.done x hx)
    | tail _ hedge ih =>
      obtain ⟨b, hb, rfl⟩ := List.mem_map.mp ih
      obtain ⟨l₁, l₂, hl⟩ := List.append_of_mem hb
      rw [hl, List.map_append]
      exact List.mem_append_left _ (hw.entered hl hedge)

/-- A walk lists what it reaches, or reports a fault. -/
theorem run_cases [DecidableEq α] (cycle : α → ε) (hkey : ∀ x p, enter x = .ok p → key p.2 = x)
    {starts : List α} {known : Finset α} (hknown : Known enter known starts) {n : ℕ}
    (hn : known.card < n) :
    (∃ w, run enter cycle n starts = some (.ok w) ∧ Good enter key w ∧
        ∀ y, y ∈ w.order.map key ↔ Reached enter starts y) ∨
      ∃ e, run enter cycle n starts = some (.error e) ∧ Fault enter cycle starts e := by
  have hfresh : (fresh known ({} : Walk α β)).card < n :=
    (Finset.card_le_card (Finset.filter_subset _ _)).trans_lt hn
  have hone : ∀ x ∈ starts, Known enter known [x] := by
    rintro x hx y p ⟨x', hx', hpath⟩ hp
    obtain rfl := List.mem_singleton.mp hx'
    exact hknown y p ⟨x', hx, hpath⟩ hp
  have hreturns : ∃ r, run enter cycle n starts = some r :=
    visitAll_returns (fun _ _ _ => visit_ok hkey)
      (fun x hx _ => visit_returns hkey (hone x hx)) good_empty hfresh
  obtain ⟨r, hr⟩ := hreturns
  cases r with
  | ok w =>
    obtain ⟨hw, hvisited⟩ := visitAll_ok (fun _ _ _ => visit_ok hkey) good_empty hr
    exact .inl ⟨w, hr, hw, fun y => listed_iff hw hvisited⟩
  | error e =>
    exact .inr ⟨e, hr, visitAll_error (fun _ _ _ => visit_ok hkey)
      (fun _ _ _ => visit_error hkey) good_empty (by simp) hr⟩

end Walk
end Hacp.Lib
