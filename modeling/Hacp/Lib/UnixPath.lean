import Mathlib.Tactic

/-!
# Paths of a Unix host

A path is a string of bytes. Its components are what stands between separators,
without empty pieces and without `.` except at the front; joining a relative path
appends its components.
-/
namespace Hacp.Lib.UnixPath

abbrev Path := List UInt8

def separator : UInt8 := 47

def dot : UInt8 := 46

inductive Component where
  | rootDir
  | curDir
  | parentDir
  | normal (name : List UInt8)
  deriving DecidableEq

def Component.isNormal : Component → Bool
  | .normal _ => true
  | _ => false

/-- The root, or the one `.` that counts. -/
def lead (path : Path) : List Component :=
  if path.head? = some separator then [.rootDir]
  else if (path.splitOn separator).head? = some [dot] then [.curDir]
  else []

def component (segment : List UInt8) : Option Component :=
  if segment = [] ∨ segment = [dot] then none
  else if segment = [dot, dot] then some .parentDir
  else some (.normal segment)

def names (path : Path) : List Component := (path.splitOn separator).filterMap component

def components (path : Path) : List Component := lead path ++ names path

def join (base path : Path) : Path :=
  if path.head? = some separator then path
  else if base = [] ∨ base.getLast? = some separator then base ++ path
  else base ++ separator :: path

/-- `Path::parent`, as the components of the result. -/
def parent (path : Path) : Option (List Component) :=
  match (components path).getLast? with
  | none => none
  | some .rootDir => none
  | some _ => some (components path).dropLast

/-- Relative, not empty, and free of `..` and of a leading `.`. -/
def Confined (path : Path) : Prop := path ≠ [] ∧ ∀ c ∈ components path, c.isNormal = true

variable {base path : Path}

theorem names_append : names (base ++ separator :: path) = names base ++ names path := by
  rw [names, List.splitOn_append_cons_self, List.filterMap_append]
  rfl

@[simp] theorem names_nil : names [] = [] := by
  simp [names, component]

theorem lead_append : lead (base ++ separator :: path) = lead (base ++ [separator]) := by
  obtain ⟨s, rest, hs⟩ := List.exists_cons_of_ne_nil (List.splitOn_ne_nil separator base)
  unfold lead
  rw [List.splitOn_append_cons_self, List.splitOn_append_cons_self, hs]
  cases base with
  | nil => rfl
  | cons b base => rfl

theorem components_append :
    components (base ++ separator :: path) = components (base ++ [separator]) ++ names path := by
  unfold components
  rw [lead_append, names_append, names_append, names_nil, List.append_nil, List.append_assoc]

theorem components_trailing (h : base ≠ []) : components (base ++ [separator]) = components base := by
  have hlead : lead (base ++ [separator]) = lead base := by
    obtain ⟨b, bs, rfl⟩ := List.exists_cons_of_ne_nil h
    obtain ⟨s, rest, hs⟩ := List.exists_cons_of_ne_nil (List.splitOn_ne_nil separator (b :: bs))
    unfold lead
    rw [List.splitOn_append_cons_self, hs]
    rfl
  unfold components
  rw [hlead, names_append, names_nil, List.append_nil]

namespace Confined

theorem lead_eq_nil (h : Confined path) : lead path = [] := by
  have hmem (c : Component) (hc : c ∈ lead path) : c.isNormal = true :=
    h.2 c (List.mem_append_left _ hc)
  unfold lead at hmem ⊢
  split_ifs at hmem ⊢ with hroot hcur
  · cases hmem .rootDir (List.mem_singleton_self _)
  · cases hmem .curDir (List.mem_singleton_self _)
  · rfl

theorem components_eq (h : Confined path) : components path = names path := by
  rw [components, h.lead_eq_nil, List.nil_append]

theorem head_ne (h : Confined path) : path.head? ≠ some separator := by
  intro hroot
  have hlead := h.lead_eq_nil
  rw [lead, if_pos hroot] at hlead
  cases hlead

theorem components_ne_nil (h : Confined path) : components path ≠ [] := by
  have hlead := h.lead_eq_nil
  have hhead := h.head_ne
  rw [h.components_eq]
  obtain ⟨b, bs, rfl⟩ := List.exists_cons_of_ne_nil h.1
  obtain ⟨s, rest, hs⟩ := List.exists_cons_of_ne_nil (List.splitOn_ne_nil separator bs)
  have hb : (b == separator) = false := by
    simpa using hhead
  have hsplit : (b :: bs).splitOn separator = (b :: s) :: rest := by
    rw [List.splitOn_cons_eq_if_modifyHead, if_neg (by simp [hb]), hs]
    rfl
  unfold lead at hlead
  rw [if_neg hhead, hsplit] at hlead
  -- the first piece has a first byte and is not the leading `.`
  have hdot : b :: s ≠ [dot] := by
    intro hdot
    rw [hdot] at hlead
    cases hlead
  unfold names
  rw [hsplit, List.filterMap_cons, component, if_neg (by simp [hdot])]
  split_ifs <;> simp

theorem exists_names (h : Confined path) :
    ∃ ns : List (List UInt8), ns ≠ [] ∧ components path = ns.map Component.normal := by
  have hnormal : ∀ cs : List Component, (∀ c ∈ cs, c.isNormal = true) →
      ∃ ns : List (List UInt8), cs = ns.map Component.normal := by
    intro cs hcs
    induction cs with
    | nil => exact ⟨[], rfl⟩
    | cons c cs ih =>
      obtain ⟨ns, rfl⟩ := ih fun d hd => hcs d (List.mem_cons_of_mem _ hd)
      have hc := hcs c List.mem_cons_self
      cases c with
      | normal n => exact ⟨n :: ns, rfl⟩
      | rootDir => cases hc
      | curDir => cases hc
      | parentDir => cases hc
  obtain ⟨ns, hns⟩ := hnormal (components path) h.2
  refine ⟨ns, ?_, hns⟩
  rintro rfl
  exact h.components_ne_nil hns

theorem components_join (h : Confined path) :
    components (join base path) = components base ++ components path := by
  unfold join
  rw [if_neg h.head_ne]
  split_ifs with hbase
  · rcases hbase with rfl | hlast
    · simp [components, lead]
    · obtain ⟨b, rfl⟩ := List.getLast?_eq_some_iff.mp hlast
      rw [List.append_assoc, List.singleton_append, components_append, h.components_eq]
  · rw [components_append, components_trailing (fun hnil => hbase (Or.inl hnil)),
      h.components_eq]

/-- The parent of a joined path is at or below the base. -/
theorem parent_join (h : Confined path) :
    parent (join base path) = some (components base ++ (components path).dropLast) := by
  obtain ⟨front, c, hc⟩ := List.eq_nil_or_concat' (components path) |>.resolve_left
    h.components_ne_nil
  have hnormal : c.isNormal = true := h.2 c (by simp [hc])
  unfold parent
  rw [h.components_join, hc, ← List.append_assoc]
  cases c with
  | normal name => simp
  | rootDir => cases hnormal
  | curDir => cases hnormal
  | parentDir => cases hnormal

end Confined
end Hacp.Lib.UnixPath
