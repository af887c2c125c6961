import Hacp.Foreign
import Hacp.Lib.Splitting
import Hacp.V1.InterfaceContract

/-!
# The digest of a frozen interface

The digest is taken over the contents of the listed files, joined with newlines. A
newline may also stand inside a file, so the digest tells two states apart unless they
have the same lines in the listed order and divide them differently among the files.
-/
namespace Hacp.V1
open Lib

def newline : UInt8 := 10

namespace ArtifactSpec
variable (F : Foreign) {ε : Type*}

/-- The bytes handed to the hasher, from the file at position `i` on. -/
def hashed (read : String → Except ε Bytes) (i : ℕ) : List String → Except ε Bytes
  | [] => .ok []
  | path :: paths => do
    let contents ← read path
    let rest ← hashed read (i + 1) paths
    .ok ((if i > 0 then [newline] else []) ++ contents ++ rest)

/-- SHA-256 over the contents of each of `interface_files`, in listed order, newline-joined. -/
def interfaceDigest (a : ArtifactSpec) (read : String → Except ε Bytes) : Except ε String := do
  let bytes ← hashed read 0 a.interfaceFiles
  .ok ("sha256:" ++ hexText (F.sha256 bytes))

def reader (contents : String → Bytes) (path : String) : Except ε Bytes := .ok (contents path)

def lines (contents : Bytes) : List Bytes := contents.splitOn newline

/-- The two states have the same lines in the listed order, divided differently. -/
def Redivided (a : ArtifactSpec) (before after : String → Bytes) : Prop :=
  a.interfaceFiles.flatMap (fun p => lines (before p)) =
      a.interfaceFiles.flatMap (fun p => lines (after p)) ∧
    ∃ p ∈ a.interfaceFiles, (lines (before p)).length ≠ (lines (after p)).length

/-- The digest notices every difference between the two states. -/
def Detects (ε : Type*) (a : ArtifactSpec) (before after : String → Bytes) : Prop :=
  a.interfaceDigest F (reader before : String → Except ε Bytes) =
      a.interfaceDigest F (reader after) →
    ∀ p ∈ a.interfaceFiles, before p = after p

theorem hashed_succ (contents : String → Bytes) (i : ℕ) (paths : List String) :
    hashed (reader contents : String → Except ε Bytes) (i + 1) paths =
      .ok (paths.flatMap fun p => newline :: contents p) := by
  induction paths generalizing i with
  | nil => rfl
  | cons path paths ih =>
    rw [hashed, reader, ih]
    simp [bind, Except.bind]

theorem join_eq_flatMap (x : Bytes) (paths : List String) (contents : String → Bytes) :
    [newline].intercalate (x :: paths.map contents) =
      x ++ paths.flatMap fun p => newline :: contents p := by
  induction paths generalizing x with
  | nil => simp
  | cons path paths ih =>
    rw [List.map_cons, List.intercalate_cons_cons, ih]
    simp

theorem hashed_eq (contents : String → Bytes) (paths : List String) :
    hashed (reader contents : String → Except ε Bytes) 0 paths =
      .ok ([newline].intercalate (paths.map contents)) := by
  cases paths with
  | nil => rfl
  | cons path paths =>
    rw [List.map_cons, join_eq_flatMap, hashed, reader, hashed_succ]
    simp [bind, Except.bind]

variable {F} (hsha : Function.Injective F.sha256) (a : ArtifactSpec)
include hsha

theorem interfaceDigest_eq_iff (before after : String → Bytes) :
    a.interfaceDigest F (reader before : String → Except ε Bytes) =
        a.interfaceDigest F (reader after) ↔
      [newline].intercalate (a.interfaceFiles.map before) =
        [newline].intercalate (a.interfaceFiles.map after) := by
  simp only [interfaceDigest, hashed_eq, bind, Except.bind, Except.ok.injEq, String.append_right_inj]
  rw [hexText_injective.eq_iff, hsha.eq_iff]

theorem detects_iff (before after : String → Bytes) :
    a.Detects F ε before after ↔ ¬a.Redivided before after := by
  unfold Detects
  rw [interfaceDigest_eq_iff hsha]
  by_cases hnil : a.interfaceFiles = []
  · simp [hnil, Redivided]
  · rw [join_eq_iff (by simpa using hnil) (by simpa using hnil), List.flatMap_map,
      List.flatMap_map]
    constructor
    · rintro hall ⟨hlines, p, hp, hlen⟩
      rw [hall hlines p hp] at hlen
      exact hlen rfl
    · intro hnot hlines
      refine pieces_determined hlines fun p hp => ?_
      by_contra hlen
      exact hnot ⟨hlines, p, hp, hlen⟩

/-! ## When the interface is frozen -/

omit hsha

theorem length_lines_replicate (n : ℕ) : (lines (List.replicate n newline)).length = n + 1 := by
  rw [lines, splitOn_replicate, List.length_replicate]

/-- Contents of newlines only: `n` in the file `p` and none elsewhere. -/
def newlinesIn (p : String) (n : ℕ) (path : String) : Bytes :=
  List.replicate (if path = p then n else 0) newline

theorem lines_newlinesIn (p : String) (n : ℕ) (paths : List String) :
    paths.flatMap (fun path => lines (newlinesIn p n path)) =
      List.replicate (paths.length + paths.count p * n) [] := by
  induction paths with
  | nil => simp
  | cons path paths ih =>
    rw [List.flatMap_cons, ih, newlinesIn, lines, splitOn_replicate, List.replicate_append_replicate]
    congr 1
    by_cases h : path = p
    · simp only [h, List.length_cons, List.count_cons_self, if_true]
      ring
    · simp only [h, List.length_cons, if_false, List.count_cons_of_ne h]
      ring

/-- Newlines can be moved between any two different files: as many as the other file is
listed times. -/
theorem redivided_of_two {p q : String} (hp : p ∈ a.interfaceFiles) (hq : q ∈ a.interfaceFiles)
    (hne : p ≠ q) : a.Redivided (newlinesIn p (a.interfaceFiles.count q))
      (newlinesIn q (a.interfaceFiles.count p)) := by
  refine ⟨?_, p, hp, ?_⟩
  · rw [lines_newlinesIn, lines_newlinesIn, mul_comm]
  · rw [newlinesIn, newlinesIn, if_pos rfl, if_neg hne, length_lines_replicate,
      length_lines_replicate]
    have hpos := List.count_pos_iff.mpr hq
    omega

/-- One file, however often it is listed, cannot be divided differently. -/
theorem not_redivided_of_one (hone : ∀ p ∈ a.interfaceFiles, ∀ q ∈ a.interfaceFiles, p = q)
    (before after : String → Bytes) : ¬a.Redivided before after := by
  rintro ⟨hlines, p, hp, hlen⟩
  have hall : a.interfaceFiles = List.replicate a.interfaceFiles.length p :=
    List.eq_replicate_of_mem fun q hq => hone q hq p hp
  have hcount (state : String → Bytes) : (a.interfaceFiles.flatMap fun q => lines (state q)).length =
      a.interfaceFiles.length * (lines (state p)).length := by
    rw [hall, List.length_flatMap, List.map_replicate, List.sum_replicate, List.length_replicate,
      smul_eq_mul]
  have hsame := congrArg List.length hlines
  rw [hcount, hcount] at hsame
  exact hlen (Nat.eq_of_mul_eq_mul_left (List.length_pos_of_mem hp) hsame)

/-- The digest tells two states apart unless the same lines are divided differently; it
freezes the interface for good exactly when no two different files are listed. -/
theorem frozen_iff (F : Foreign) (hsha : Function.Injective F.sha256) (ε : Type)
    (a : ArtifactSpec) :
    (∀ before after, a.Detects F ε before after ↔ ¬a.Redivided before after) ∧
      ((∀ before after, a.Detects F ε before after) ↔
        ∀ p ∈ a.interfaceFiles, ∀ q ∈ a.interfaceFiles, p = q) := by
  refine ⟨detects_iff hsha a, ⟨fun hall p hp q hq => ?_, fun hone before after => ?_⟩⟩
  · by_contra hne
    exact (detects_iff hsha a _ _).mp (hall _ _) (redivided_of_two a hp hq hne)
  · exact (detects_iff hsha a before after).mpr (not_redivided_of_one a hone before after)

/-- A hash that keeps its input. -/
def plainHash : Foreign := { Foreign.placeholder with sha256 := id }

def pair : ArtifactSpec :=
  ⟨"a", "urn:hacp:agent:a-1", "p", .file, none, ["one.txt", "two.txt"], [], none⟩

theorem frozen_iff_pair : Function.Injective plainHash.sha256 ∧
    (∀ before after, pair.Detects plainHash Empty before after ↔ ¬pair.Redivided before after) ∧
      ((∀ before after, pair.Detects plainHash Empty before after) ↔
        ∀ p ∈ pair.interfaceFiles, ∀ q ∈ pair.interfaceFiles, p = q) :=
  ⟨fun _ _ h => h, frozen_iff plainHash (fun _ _ h => h) Empty pair⟩

/-- The last newline of one file moves to the start of the next. -/
def endOfOne (path : String) : Bytes := if path = "one.txt" then [97, newline] else [98]

def startOfTwo (path : String) : Bytes := if path = "one.txt" then [97] else [newline, 98]

theorem moved_newline_unnoticed :
    pair.interfaceDigest plainHash (reader endOfOne : String → Except Empty Bytes) =
        pair.interfaceDigest plainHash (reader startOfTwo) ∧
      Function.Injective plainHash.sha256 ∧ "one.txt" ∈ pair.interfaceFiles ∧
      endOfOne "one.txt" ≠ startOfTwo "one.txt" :=
  ⟨rfl, fun _ _ h => h, by decide, by decide⟩

end ArtifactSpec
end Hacp.V1
