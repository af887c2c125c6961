import Hacp.Lib.Loop
import Hacp.Wasmer.Authorization

/-!
# Capturing the output of the guest

The output of the guest is read in chunks until it ends. Only the first bytes are kept,
as many as the limit allows; the rest is read and thrown away, and the capture notes that
something was. A reader is a state that answers each read and moves on.
-/
namespace Hacp.Wasmer
open Lib

/-- What one read puts into the buffer; nothing at the end of the stream. -/
structure Chunk where
  bytes : Bytes
  fits : bytes.length ≤ 8192

/-- The kinds of error a read ends in, told apart as far as the capture does. -/
inductive ReadError where
  | interrupted
  | other
  deriving DecidableEq

structure Captured where
  kept : Bytes
  truncated : Bool
  deriving DecidableEq

namespace Captured

def empty : Captured := { kept := [], truncated := false }

def extend (c : Captured) (limit : UInt64) (chunk : Bytes) : Captured :=
  let room := limit.toNat - c.kept.length
  { kept := c.kept ++ chunk.take (min chunk.length room)
    truncated := c.truncated || decide (room < chunk.length) }

end Captured

section Stream
variable {σ : Type*} (read : σ → Except ReadError Chunk × σ) (limit : UInt64)

/-- One turn of the loop: a read, and what becomes of its answer. -/
def captureTurn : σ × Captured → (σ × Captured) ⊕ Captured
  | (stream, c) =>
    match read stream with
    | (.ok chunk, stream) =>
      if chunk.bytes = [] then .inr c else .inl (stream, c.extend limit chunk.bytes)
    | (.error .interrupted, stream) => .inl (stream, c)
    | (.error .other, _) => .inr c

/-- The capture of a stream, if a number of turns is enough for it. -/
def capture (turns : ℕ) : Option σ → Option Captured
  | none => some .empty
  | some stream => Loop.iterate (captureTurn read limit) turns (stream, .empty)

/-- The bytes a stream gives before it ends, however its reads divide them up. -/
inductive Delivers : σ → Bytes → Prop
  | ended {s s' : σ} {chunk : Chunk} (h : read s = (.ok chunk, s')) (hempty : chunk.bytes = []) :
    Delivers s []
  | failed {s s' : σ} (h : read s = (.error .other, s')) : Delivers s []
  | interrupted {s s' : σ} {rest : Bytes} (h : read s = (.error .interrupted, s'))
    (hrest : Delivers s' rest) : Delivers s rest
  | chunk {s s' : σ} {chunk : Chunk} {rest : Bytes} (h : read s = (.ok chunk, s'))
    (hne : chunk.bytes ≠ []) (hrest : Delivers s' rest) : Delivers s (chunk.bytes ++ rest)

end Stream

namespace Captured
variable {limit : UInt64} {seen : Bytes} {c : Captured}

/-- The capture of exactly the bytes seen. -/
structure Of (limit : UInt64) (seen : Bytes) (c : Captured) : Prop where
  kept : c.kept = seen.take limit.toNat
  truncated : c.truncated = true ↔ limit.toNat < seen.length

theorem of_empty (limit : UInt64) : Of limit [] .empty where
  kept := List.take_nil.symm
  truncated := by simp [empty]

theorem Of.unique {c' : Captured} (h : Of limit seen c) (h' : Of limit seen c') : c = c' := by
  obtain ⟨kept, truncated⟩ := c
  obtain ⟨kept', truncated'⟩ := c'
  congr 1
  · exact h.kept.trans h'.kept.symm
  · exact Bool.eq_iff_iff.mpr (h.truncated.trans h'.truncated.symm)

/-- Taking in a chunk captures it behind what was seen before. -/
theorem Of.extend (h : Of limit seen c) (chunk : Bytes) :
    Of limit (seen ++ chunk) (c.extend limit chunk) := by
  have hroom : limit.toNat - c.kept.length = limit.toNat - seen.length := by
    rw [h.kept, List.length_take]
    omega
  refine ⟨?_, ?_⟩
  · rw [Captured.extend, hroom, List.take_append, h.kept, min_comm,
      ← List.take_eq_take_min]
  · simp only [Captured.extend, hroom, Bool.or_eq_true, decide_eq_true_eq, h.truncated,
      List.length_append]
    omega

end Captured

section Turns
variable {σ : Type*} {read : σ → Except ReadError Chunk × σ} {limit : UInt64} {stream next : σ}
  {chunk : Chunk} {c : Captured}

theorem captureTurn_chunk (h : read stream = (.ok chunk, next)) (hne : chunk.bytes ≠ []) :
    captureTurn read limit (stream, c) = .inl (next, c.extend limit chunk.bytes) := by
  simp only [captureTurn, h, if_neg hne]

theorem captureTurn_ended (h : read stream = (.ok chunk, next)) (hempty : chunk.bytes = []) :
    captureTurn read limit (stream, c) = .inr c := by
  simp only [captureTurn, h, if_pos hempty]

theorem captureTurn_interrupted (h : read stream = (.error .interrupted, next)) :
    captureTurn read limit (stream, c) = .inl (next, c) := by
  simp only [captureTurn, h]

theorem captureTurn_failed (h : read stream = (.error .other, next)) :
    captureTurn read limit (stream, c) = .inr c := by
  simp only [captureTurn, h]

theorem Delivers.returns {bytes : Bytes} (h : Delivers read stream bytes) {seen : Bytes}
    (hc : c.Of limit seen) : ∃ out, Loop.Returns (captureTurn read limit) (stream, c) out ∧
      out.Of limit (seen ++ bytes) := by
  induction h generalizing seen c with
  | ended h hempty =>
    rw [List.append_nil]
    exact ⟨c, (Loop.returns_exit (captureTurn_ended h hempty)).mpr rfl, hc⟩
  | failed h =>
    rw [List.append_nil]
    exact ⟨c, (Loop.returns_exit (captureTurn_failed h)).mpr rfl, hc⟩
  | interrupted h _ ih =>
    obtain ⟨out, hreturns, hout⟩ := ih hc
    exact ⟨out, (Loop.returns_continue (captureTurn_interrupted h)).mpr hreturns, hout⟩
  | chunk h hne _ ih =>
    obtain ⟨out, hreturns, hout⟩ := ih (hc.extend _)
    rw [List.append_assoc] at hout
    exact ⟨out, (Loop.returns_continue (captureTurn_chunk h hne)).mpr hreturns, hout⟩

theorem read_cases (read : σ → Except ReadError Chunk × σ) (stream : σ) :
    (∃ chunk next, read stream = (.ok chunk, next) ∧ chunk.bytes = []) ∨
      (∃ next, read stream = (.error .other, next)) ∨
      (∃ next, read stream = (.error .interrupted, next)) ∨
      ∃ chunk next, read stream = (.ok chunk, next) ∧ chunk.bytes ≠ [] := by
  cases hread : read stream with
  | mk answer next =>
    cases answer with
    | ok chunk =>
      by_cases hempty : chunk.bytes = []
      · exact .inl ⟨chunk, next, rfl, hempty⟩
      · exact .inr (.inr (.inr ⟨chunk, next, rfl, hempty⟩))
    | error e =>
      cases e with
      | interrupted => exact .inr (.inr (.inl ⟨next, rfl⟩))
      | other => exact .inr (.inl ⟨next, rfl⟩)

/-- A capture that returns has come to the end of the stream. -/
theorem delivers_of_iterate {turns : ℕ} {out : Captured}
    (h : Loop.iterate (captureTurn read limit) turns (stream, c) = some out) :
    ∃ bytes, Delivers read stream bytes := by
  induction turns generalizing stream c with
  | zero => cases h
  | succ turns ih =>
    obtain ⟨chunk, next, hread, hempty⟩ | ⟨next, hread⟩ | ⟨next, hread⟩ |
      ⟨chunk, next, hread, hne⟩ := read_cases read stream
    · exact ⟨[], .ended hread hempty⟩
    · exact ⟨[], .failed hread⟩
    · rw [Loop.iterate_succ_continue (captureTurn_interrupted hread)] at h
      obtain ⟨bytes, hbytes⟩ := ih h
      exact ⟨bytes, .interrupted hread hbytes⟩
    · rw [Loop.iterate_succ_continue (captureTurn_chunk hread hne)] at h
      obtain ⟨bytes, hbytes⟩ := ih h
      exact ⟨chunk.bytes ++ bytes, .chunk hread hne hbytes⟩

theorem captured_of {turns : ℕ} {out : Captured}
    (h : capture read limit turns (some stream) = some out) :
    ∃ bytes, Delivers read stream bytes ∧ out.Of limit bytes := by
  obtain ⟨bytes, hbytes⟩ := delivers_of_iterate h
  obtain ⟨out', h', hout⟩ := hbytes.returns (Captured.of_empty limit)
  obtain rfl := Loop.Returns.unique ⟨turns, h⟩ h'
  exact ⟨bytes, hbytes, hout⟩

/-- No more of the output is kept than the operator's policy allows. -/
theorem ExecutionPolicy.Authorized.kept_le {policy : ExecutionPolicy} {sender contract : String}
    {payload : ExecutionPayload} {request : ExecutionRequest}
    (h : policy.Authorized sender contract payload request) {turns : ℕ} {out : Captured}
    (hout : capture read request.limits.maxOutputBytes turns (some stream) = some out) :
    out.kept.length ≤ policy.maxOutputBytes.toNat := by
  obtain ⟨bytes, -, hof⟩ := captured_of hout
  rw [hof.kept, List.length_take]
  exact (min_le_left _ _).trans (UInt64.le_iff_toNat_le.mp h.output.2)

end Turns

/-- A stream is captured exactly when it ends, and then as its first bytes up to the limit,
with a note whether it had more. -/
theorem capture_exact {σ : Type*} (read : σ → Except ReadError Chunk × σ) (limit : UInt64)
    (stream : σ) (out : Captured) :
    (∃ turns, capture read limit turns (some stream) = some out) ↔
      ∃ bytes, Delivers read stream bytes ∧ out.kept = bytes.take (min limit.toNat bytes.length) ∧
        (out.truncated = true ↔ limit.toNat < bytes.length) := by
  constructor
  · rintro ⟨turns, h⟩
    obtain ⟨bytes, hbytes, hout⟩ := captured_of h
    exact ⟨bytes, hbytes, hout.kept.trans List.take_eq_take_min, hout.truncated⟩
  · rintro ⟨bytes, hbytes, hkept, htruncated⟩
    obtain ⟨out', h', hout⟩ := hbytes.returns (Captured.of_empty limit)
    have hof : out.Of limit bytes := ⟨hkept.trans List.take_eq_take_min.symm, htruncated⟩
    rw [hof.unique hout]
    exact h'

/-- The limit falls on the end of a chunk. -/
example : capture (fun answers : List (Except ReadError Chunk) =>
      (answers.headD (.error .other), answers.tail)) 2 4
    (some [.ok ⟨[1, 2], by decide⟩, .error .interrupted, .ok ⟨[3], by decide⟩]) =
      some { kept := [1, 2], truncated := true } := by
  decide

end Hacp.Wasmer
