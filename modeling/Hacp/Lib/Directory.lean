import Hacp.Lib.Lookup

/-!
# Directories

A directory gives names to files. A file is reached under all its names, and through an open
descriptor after its last name is gone; entries of other kinds have no contents. A writer
that changes nothing but a name of its own, and files that have no other name, leaves what
everyone else reads as it is.
-/
namespace Hacp.Lib
open Std

inductive DirectoryEntry where
  | file (inode : ℕ)
  | other
deriving DecidableEq

structure Directory (α : Type*) where
  entries : ExtTreeMap String DirectoryEntry
  contents : ℕ → List α
  /-- No file has an inode from here on. -/
  next : ℕ

inductive LinkError where
  | alreadyExists
  | notFound

namespace Directory
variable {α : Type*} (d : Directory α)

def empty {α : Type*} : Directory α := ⟨∅, fun _ => [], 0⟩

def read (name : String) : Option (List α) :=
  match d.entries[name]? with
  | some (.file i) => some (d.contents i)
  | _ => none

def create (name : String) : Option (Directory α × ℕ) :=
  if name ∈ d.entries then none
  else some (⟨d.entries.insert name (.file d.next), Function.update d.contents d.next [], d.next + 1⟩,
    d.next)

def append (i : ℕ) (xs : List α) : Directory α :=
  { d with contents := Function.update d.contents i (d.contents i ++ xs) }

def link (old new : String) : Except LinkError (Directory α) :=
  match d.entries[old]? with
  | none => .error .notFound
  | some e =>
    if new ∈ d.entries then .error .alreadyExists
    else .ok { d with entries := d.entries.insert new e }

def unlink (name : String) : Directory α := { d with entries := d.entries.erase name }

structure Sound : Prop where
  bound : ∀ (n : String) (i : ℕ), d.entries[n]? = some (.file i) → i < d.next

variable {d} {d' d'' : Directory α} {t n new : String} {i : ℕ} {xs : List α}

theorem sound_empty : (empty : Directory α).Sound where
  bound n i h := by
    have hnone : (empty : Directory α).entries[n]? = none := ExtTreeMap.getElem?_empty
    rw [hnone] at h
    cases h

theorem read_empty (n : String) : (empty : Directory α).read n = none := by
  have hnone : (empty : Directory α).entries[n]? = none := ExtTreeMap.getElem?_empty
  rw [read, hnone]

theorem read_eq_some {bytes : List α} :
    d.read n = some bytes ↔ ∃ i, d.entries[n]? = some (.file i) ∧ d.contents i = bytes := by
  unfold read
  cases d.entries[n]? with
  | none => simp
  | some e => cases e <;> simp

theorem create_eq_some {r : Directory α × ℕ} :
    d.create n = some r ↔ n ∉ d.entries ∧ r =
      (⟨d.entries.insert n (.file d.next), Function.update d.contents d.next [], d.next + 1⟩,
        d.next) := by
  unfold create
  split_ifs with h <;> simp [h, eq_comm]

theorem link_eq_ok : d.link t new = .ok d' ↔
    ∃ e, d.entries[t]? = some e ∧ new ∉ d.entries ∧
      d' = { d with entries := d.entries.insert new e } := by
  unfold link
  cases d.entries[t]? with
  | none => simp
  | some e =>
    dsimp only
    split_ifs with h <;> simp [h, eq_comm]

/-- A change by a writer whose own name is `t`: nothing happens to the other names, a name that
appears is one for the file of `t` or for a new file, and a file under another name stays as it
is. -/
structure Change (t : String) (d d' : Directory α) : Prop where
  entries : ∀ (n : String) e, n ≠ t → d.entries[n]? = some e → d'.entries[n]? = some e
  files : ∀ (n : String) i, d'.entries[n]? = some (.file i) →
    d.entries[n]? = some (.file i) ∨ d.next ≤ i ∨ d.entries[t]? = some (.file i)
  contents : ∀ (n : String) i, n ≠ t → d.entries[n]? = some (.file i) → d'.contents i = d.contents i
  next : d.next ≤ d'.next

namespace Change

theorem refl (t : String) (d : Directory α) : Change t d d :=
  ⟨fun _ _ _ h => h, fun _ _ h => .inl h, fun _ _ _ _ => rfl, le_rfl⟩

theorem create (hd : d.Sound) (t : String) :
    Change t d
      ⟨d.entries.insert t (.file d.next), Function.update d.contents d.next [], d.next + 1⟩ where
  entries n e hn he := by rwa [lookup_insert, if_neg hn]
  files n i hi := by
    rw [lookup_insert] at hi
    split_ifs at hi
    · exact .inr (.inl (DirectoryEntry.file.inj (Option.some.inj hi)).le)
    · exact .inl hi
  contents n i _ hi := Function.update_of_ne (hd.bound n i hi).ne _ _
  next := Nat.le_succ _

/-- Only a file that has no other name is written to. -/
theorem append (hown : ∀ n : String, d.entries[n]? = some (.file i) → n = t) (xs : List α) :
    Change t d (d.append i xs) where
  entries _ _ _ he := he
  files _ _ hi := .inl hi
  contents n j hn hj := by
    refine Function.update_of_ne (fun hji => hn (hown n ?_)) _ _
    rwa [← hji]
  next := le_rfl

theorem link {e : DirectoryEntry} (ht : d.entries[t]? = some e) (hnew : new ∉ d.entries) :
    Change t d { d with entries := d.entries.insert new e } where
  entries n e' _ he := by
    rw [lookup_insert, if_neg]
    · exact he
    · rintro rfl
      exact hnew ((mem_iff_lookup _ _).mpr ⟨e', he⟩)
  files n i hi := by
    rw [lookup_insert] at hi
    split_ifs at hi
    · exact .inr (.inr (ht.trans hi))
    · exact .inl hi
  contents _ _ _ _ := rfl
  next := le_rfl

theorem unlink (t : String) (d : Directory α) : Change t d (d.unlink t) where
  entries n e hn he := by
    rw [Directory.unlink, lookup_erase, if_neg hn]
    exact he
  files n i hi := by
    rw [Directory.unlink, lookup_erase] at hi
    split_ifs at hi
    exact .inl hi
  contents _ _ _ _ := rfl
  next := le_rfl

theorem sound (h : Change t d d') (hd : d.Sound)
    (hnew : ∀ (n : String) i, d'.entries[n]? = some (.file i) → d.next ≤ i → i < d'.next) :
    d'.Sound where
  bound n i hi := by
    rcases h.files n i hi with hold | hfresh | ht
    · exact (hd.bound n i hold).trans_le h.next
    · exact hnew n i hi hfresh
    · exact (hd.bound t i ht).trans_le h.next

/-- Nobody else reads anything else. -/
theorem read (h : Change t d d') (hn : n ≠ t) {bytes : List α} (hread : d.read n = some bytes) :
    d'.read n = some bytes := by
  obtain ⟨i, hi, hcontents⟩ := read_eq_some.mp hread
  exact read_eq_some.mpr ⟨i, h.entries n _ hn hi, (h.contents n i hn hi).trans hcontents⟩

theorem mem (h : Change t d d') (hn : n ≠ t) (hmem : n ∈ d.entries) : n ∈ d'.entries := by
  obtain ⟨e, he⟩ := (mem_iff_lookup _ _).mp hmem
  exact (mem_iff_lookup _ _).mpr ⟨e, h.entries n e hn he⟩

end Change
end Directory
end Hacp.Lib
