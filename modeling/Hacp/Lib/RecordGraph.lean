import Hacp.Lib.DepthFirst

/-!
# Collections of records that name each other

A collection is a list of records, each with a name and the names it links to; of
records with one name the first counts. The closure of a name lists everything it
links to, directly or not, each record after the records below it. It exists exactly
when nothing reachable is missing and no cycle can be reached.
-/
namespace Hacp.Lib
open Relation

structure RecordKind (ρ α : Type*) where
  name : ρ → α
  links : ρ → List α

namespace RecordKind
variable {ρ α ε : Type*} [DecidableEq α] (K : RecordKind ρ α) (records : List ρ)

/-- The record that counts for a name. -/
def first (x : α) : Option ρ := records.find? fun r => K.name r = x

def Links (x y : α) : Prop := ∃ r, K.first records x = some r ∧ y ∈ K.links r

/-- Everything reachable is present, and no cycle is reachable. -/
def Closed (x : α) : Prop :=
  ∀ y, ReflTransGen (K.Links records) x y →
    (K.first records y).isSome ∧ ¬TransGen (K.Links records) y y

/-- The list holds each record strictly below `x` once, after all the records below it. -/
structure Closure (x : α) (order : List ρ) : Prop where
  nodup : (order.map K.name).Nodup
  mem_iff : ∀ r, r ∈ order ↔
    K.first records (K.name r) = some r ∧ TransGen (K.Links records) x (K.name r)
  covers : ∀ y, y ∈ order.map K.name ↔ TransGen (K.Links records) x y
  not_self : x ∉ order.map K.name
  placed : ∀ l₁ r l₂, order = l₁ ++ r :: l₂ →
    ∀ y, TransGen (K.Links records) (K.name r) y → y ∈ l₁.map K.name

/-- The entry of a walk through the collection gives the record of a name and its links;
it may refuse no name that is present, unless it is the root. -/
structure Enters (root : α) (enter : α → Except ε (List α × ρ)) : Prop where
  entered : ∀ {x p}, enter x = .ok p → K.first records x = some p.2 ∧ p.1 = K.links p.2
  admitted : ∀ {x}, (K.first records x).isSome → x ≠ root → ∃ p, enter x = .ok p

variable {K records} {root : α} {enter : α → Except ε (List α × ρ)}

theorem name_of_first {x : α} {r : ρ} (h : K.first records x = some r) : K.name r = x := by
  simpa using List.find?_some h

theorem mem_of_first {x : α} {r : ρ} (h : K.first records x = some r) : r ∈ records :=
  List.mem_of_find?_eq_some h

namespace Enters

theorem key (h : K.Enters records root enter) (x : α) (p : List α × ρ) (hp : enter x = .ok p) :
    K.name p.2 = x :=
  name_of_first (h.entered hp).1

theorem known (h : K.Enters records root enter) (starts : List α) :
    Walk.Known enter (records.map K.name).toFinset starts := by
  intro x p _ hp
  obtain ⟨hfirst, -⟩ := h.entered hp
  rw [List.mem_toFinset, List.mem_map]
  exact ⟨p.2, mem_of_first hfirst, name_of_first hfirst⟩

theorem links_of_edge (h : K.Enters records root enter) {x y : α}
    (hxy : Walk.Edge enter x y) : K.Links records x y := by
  obtain ⟨p, hp, hy⟩ := hxy
  obtain ⟨hfirst, hlinks⟩ := h.entered hp
  exact ⟨p.2, hfirst, hlinks ▸ hy⟩

theorem edge_of_links (h : K.Enters records root enter) {x y : α} {p : List α × ρ}
    (hp : enter x = .ok p) (hxy : K.Links records x y) : Walk.Edge enter x y := by
  obtain ⟨r, hr, hy⟩ := hxy
  obtain ⟨hfirst, hlinks⟩ := h.entered hp
  obtain rfl := Option.some.inj (hfirst.symm.trans hr)
  exact ⟨p, hp, hlinks ▸ hy⟩

variable {r : ρ}

theorem below_of_reached (h : K.Enters records root enter) (hr : K.first records root = some r)
    {y : α} (hy : Walk.Reached enter (K.links r) y) : TransGen (K.Links records) root y := by
  obtain ⟨x, hx, hpath⟩ := hy
  have hlink : K.Links records root x := ⟨r, hr, hx⟩
  exact .head' hlink (ReflTransGen.mono (fun _ _ => h.links_of_edge) _ _ hpath)

/-- Where the walk meets no fault, it follows every link. -/
theorem reached_of_below (h : K.Enters records root enter) (hr : K.first records root = some r)
    (hclear : Walk.Clear enter (K.links r)) {y : α} (hy : TransGen (K.Links records) root y) :
    Walk.Reached enter (K.links r) y := by
  induction hy with
  | single hlink =>
    obtain ⟨r', hr', hy⟩ := hlink
    obtain rfl := Option.some.inj (hr.symm.trans hr')
    exact .self hy
  | tail _ hlink ih =>
    obtain ⟨⟨p, hp⟩, -⟩ := hclear _ ih
    obtain ⟨x, hx, hpath⟩ := ih
    exact ⟨x, hx, hpath.tail (h.edge_of_links hp hlink)⟩

theorem path_of_links (h : K.Enters records root enter)
    (hclear : Walk.Clear enter (K.links r)) {x y : α}
    (hx : Walk.Reached enter (K.links r) x) (hxy : TransGen (K.Links records) x y) :
    TransGen (Walk.Edge enter) x y := by
  induction hxy with
  | single hlink =>
    obtain ⟨⟨p, hp⟩, -⟩ := hclear x hx
    exact .single (h.edge_of_links hp hlink)
  | tail _ hlink ih =>
    obtain ⟨s, hs, hpath⟩ := hx
    obtain ⟨⟨p, hp⟩, -⟩ := hclear _ ⟨s, hs, hpath.trans ih.to_reflTransGen⟩
    exact ih.tail (h.edge_of_links hp hlink)

/-- The walk is clear exactly when the collection is closed below the root. A cycle through
the root is a cycle that the root reaches. -/
theorem clear_iff (h : K.Enters records root enter) (hr : K.first records root = some r) :
    Walk.Clear enter (K.links r) ↔ K.Closed records root := by
  constructor
  · intro hclear y hy
    have hno (hreached : Walk.Reached enter (K.links r) y) :
        ¬TransGen (K.Links records) y y := fun hcycle =>
      (hclear y hreached).2 (h.path_of_links hclear hreached hcycle)
    rcases reflTransGen_iff_eq_or_transGen.mp hy with rfl | hbelow
    · exact ⟨by simp [hr], fun hcycle =>
        hno (h.reached_of_below hr hclear hcycle) hcycle⟩
    · have hreached := h.reached_of_below hr hclear hbelow
      obtain ⟨⟨p, hp⟩, -⟩ := hclear y hreached
      exact ⟨by simp [(h.entered hp).1], hno hreached⟩
  · intro hclosed y hy
    have hbelow := h.below_of_reached hr hy
    obtain ⟨hpresent, hacyclic⟩ := hclosed y hbelow.to_reflTransGen
    have hne : y ≠ root := by
      rintro rfl
      exact hacyclic hbelow
    exact ⟨h.admitted hpresent hne,
      fun hcycle => hacyclic (TransGen.mono (fun _ _ => h.links_of_edge) _ _ hcycle)⟩

theorem closure (h : K.Enters records root enter) (hr : K.first records root = some r)
    (hclosed : K.Closed records root) {w : Walk α ρ} (hw : Walk.Good enter K.name w)
    (hlisted : ∀ y, y ∈ w.order.map K.name ↔ Walk.Reached enter (K.links r) y) :
    K.Closure records root w.order := by
  have hclear := (h.clear_iff hr).mpr hclosed
  have hcovers : ∀ y, y ∈ w.order.map K.name ↔ TransGen (K.Links records) root y := fun y =>
    (hlisted y).trans ⟨h.below_of_reached hr, h.reached_of_below hr hclear⟩
  refine ⟨hw.nodup, fun s => ⟨fun hs => ?_, ?_⟩, hcovers, fun hself => ?_, ?_⟩
  · obtain ⟨l₁, l₂, hl⟩ := List.append_of_mem hs
    obtain ⟨children, henter, -⟩ := hw.closed l₁ s l₂ hl
    exact ⟨(h.entered henter).1, (hcovers _).mp (List.mem_map_of_mem hs)⟩
  · rintro ⟨hfirst, hbelow⟩
    obtain ⟨t, ht, hname⟩ := List.mem_map.mp ((hcovers _).mpr hbelow)
    obtain ⟨l₁, l₂, hl⟩ := List.append_of_mem ht
    obtain ⟨children, henter, -⟩ := hw.closed l₁ t l₂ hl
    have hfirst' := (h.entered henter).1
    rw [hname, hfirst] at hfirst'
    obtain rfl := Option.some.inj hfirst'
    exact ht
  · exact (hclosed root .refl).2 ((hcovers root).mp hself)
  · intro l₁ s l₂ hl y hy
    have hs : K.name s ∈ w.order.map K.name := by simp [hl]
    exact hw.below_before hl (h.path_of_links hclear ((hlisted _).mp hs) hy)

/-- The walk from the links of the root: it returns, it succeeds exactly on a closed
collection, and then it lists the closure. -/
theorem run_spec (h : K.Enters records root enter) (cycle : α → ε)
    (hr : K.first records root = some r) :
    (K.Closed records root ∧ ∃ w, Walk.run enter cycle (records.length + 1) (K.links r) =
        some (.ok w) ∧ K.Closure records root w.order) ∨
      (¬K.Closed records root ∧ ∃ e, Walk.run enter cycle (records.length + 1) (K.links r) =
        some (.error e) ∧ Walk.Fault enter cycle (K.links r) e) := by
  have hcard : (records.map K.name).toFinset.card < records.length + 1 := by
    have hle := List.toFinset_card_le (records.map K.name)
    rw [List.length_map] at hle
    omega
  rcases Walk.run_cases cycle h.key (h.known (K.links r)) hcard with
    ⟨w, hrun, hw, hlisted⟩ | ⟨e, hrun, hfault⟩
  · have hclear : Walk.Clear enter (K.links r) := fun y hy =>
      hw.listed_clear ((hlisted y).mpr hy)
    have hclosed := (h.clear_iff hr).mp hclear
    exact .inl ⟨hclosed, w, hrun, h.closure hr hclosed hw hlisted⟩
  · exact .inr ⟨fun hclosed => hfault.not_clear ((h.clear_iff hr).mpr hclosed), e, hrun, hfault⟩

theorem outcome_spec (h : K.Enters records root enter) (cycle : α → ε)
    (hr : K.first records root = some r) :
    ∃ res, Walk.outcome (Walk.run enter cycle (records.length + 1) (K.links r)) = .returns res ∧
      ((∃ order, res = .ok order) ↔ K.Closed records root) ∧
      ∀ order, res = .ok order → K.Closure records root order := by
  rcases h.run_spec cycle hr with ⟨hclosed, w, hrun, hclosure⟩ | ⟨hopen, e, hrun, -⟩
  · refine ⟨.ok w.order, by rw [hrun]; rfl, iff_of_true ⟨_, rfl⟩ hclosed, ?_⟩
    rintro order hok
    obtain rfl := Except.ok.inj hok
    exact hclosure
  · exact ⟨.error e, by rw [hrun]; rfl, iff_of_false (by simp) hopen, by simp⟩

end Enters

theorem not_closed_of_missing (h : K.first records root = none) : ¬K.Closed records root := by
  intro hclosed
  simpa [h] using (hclosed root .refl).1

end RecordKind
end Hacp.Lib
