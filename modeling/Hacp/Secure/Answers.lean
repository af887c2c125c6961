import Hacp.Lib.Base64
import Hacp.Secure.Service
import Hacp.V2.JsonReader

/-!
# Requests and answers as text

The guardian reads a request from one line of JSON and answers with one. An error is named in
its answer, a payload is written in base64, and the members of every object stand in the order
of their names, as the map of a `serde_json::Value` keeps them. What is written is read back.
-/
namespace Hacp.V2.Json

mutual
/-- The members of every object stand in the order of distinct names. -/
def Ordered : Json → Prop
  | .array items => OrderedItems items
  | .object members =>
    ((members.map Prod.fst).Pairwise fun k l => byteLe k l ∧ k ≠ l) ∧ OrderedMembers members
  | _ => True

def OrderedItems : List Json → Prop
  | [] => True
  | v :: vs => v.Ordered ∧ OrderedItems vs

def OrderedMembers : List (String × Json) → Prop
  | [] => True
  | (_, v) :: ms => v.Ordered ∧ OrderedMembers ms
end

theorem orderedItems_iff (vs : List Json) : OrderedItems vs ↔ ∀ v ∈ vs, v.Ordered := by
  induction vs with
  | nil => simp [OrderedItems]
  | cons v vs ih => simp [OrderedItems, ih]

theorem orderedMembers_iff (ms : List (String × Json)) :
    OrderedMembers ms ↔ ∀ p ∈ ms, p.2.Ordered := by
  induction ms with
  | nil => simp [OrderedMembers]
  | cons p ms ih => simp [OrderedMembers, ih]

/-- A value without fractions whose names are in their order, none of them the one kept for numbers,
and whose brackets nest at most so deep. -/
structure Plain (n : ℕ) (v : Json) : Prop where
  integers : v.integersOnly = true
  unmarked : v.unmarked = true
  ordered : v.Ordered
  depth : v.depth ≤ n

namespace Plain
variable {n : ℕ}

theorem null : Plain n .null := ⟨rfl, rfl, trivial, Nat.zero_le _⟩

theorem bool (b : Bool) : Plain n (.bool b) := ⟨rfl, rfl, trivial, Nat.zero_le _⟩

theorem string (s : String) : Plain n (.string s) := ⟨rfl, rfl, trivial, Nat.zero_le _⟩

theorem integer (i : ℤ) : Plain n (.number (.integer i)) := ⟨rfl, rfl, trivial, Nat.zero_le _⟩

theorem array {vs : List Json} (h : ∀ v ∈ vs, Plain n v) : Plain (n + 1) (.array vs) where
  integers := (integersOnlyItems_iff vs).mpr fun v hv => (h v hv).integers
  unmarked := (unmarkedItems_iff vs).mpr fun v hv => (h v hv).unmarked
  ordered := (orderedItems_iff vs).mpr fun v hv => (h v hv).ordered
  depth := Nat.succ_le_succ (depthItems_le_iff.mpr fun v hv => (h v hv).depth)

theorem object {ms : List (String × Json)}
    (hkeys : ((ms.map Prod.fst).Pairwise fun k l => byteLe k l ∧ k ≠ l) ∧
      numberMarker ∉ ms.map Prod.fst)
    (h : ∀ p ∈ ms, Plain n p.2) : Plain (n + 1) (.object ms) where
  integers := (integersOnlyMembers_iff ms).mpr fun p hp => (h p hp).integers
  unmarked := (unmarkedMembers_iff ms).mpr fun p hp =>
    ⟨fun hkey => hkeys.2 (hkey ▸ List.mem_map_of_mem hp), (h p hp).unmarked⟩
  ordered := ⟨hkeys.1, (orderedMembers_iff ms).mpr fun p hp => (h p hp).ordered⟩
  depth := Nat.succ_le_succ (depthMembers_le_iff.mpr fun p hp => (h p hp).depth)

theorem members {ms : List (String × Json)} (keys : List String) (hnames : ms.map Prod.fst = keys)
    (hkeys : (keys.Pairwise fun k l => byteLe k l ∧ k ≠ l) ∧ numberMarker ∉ keys)
    (h : ∀ v ∈ ms.map Prod.snd, Plain n v) : Plain (n + 1) (.object ms) :=
  .object (hnames ▸ hkeys) (List.forall_mem_map.mp h)

theorem mono {m : ℕ} {v : Json} (h : Plain n v) (hle : n ≤ m) : Plain m v :=
  ⟨h.integers, h.unmarked, h.ordered, h.depth.trans hle⟩

end Plain

def asBool : Json → Option Bool
  | .bool b => some b
  | _ => none

/-- `value[key]`, which is `null` where there is no such member. -/
def at_ (v : Json) (key : String) : Json := (v.get? key).getD .null

end Hacp.V2.Json

namespace Hacp.Secure
open Lib V2

/-! ## Errors -/

namespace SecureError

def all : List SecureError :=
  [.schemaViolation, .downgradeDetected, .sessionUnknown, .sessionExpired, .sessionExhausted,
    .identityMismatch, .badHandshakeSignature, .badMessageSignature, .replayRejected, .sequenceGap,
    .holdOverflow, .tamperDetected, .contractPending, .contractMismatch, .guardianUnavailable,
    .rateLimited, .unknownOperation]

/-- What an error prints as, and the name it is serialized under. -/
def name : SecureError → String
  | .schemaViolation => "SchemaViolation"
  | .downgradeDetected => "DowngradeDetected"
  | .sessionUnknown => "SessionUnknown"
  | .sessionExpired => "SessionExpired"
  | .sessionExhausted => "SessionExhausted"
  | .identityMismatch => "IdentityMismatch"
  | .badHandshakeSignature => "BadHandshakeSignature"
  | .badMessageSignature => "BadMessageSignature"
  | .replayRejected => "ReplayRejected"
  | .sequenceGap => "SequenceGap"
  | .holdOverflow => "HoldOverflow"
  | .tamperDetected => "TamperDetected"
  | .contractPending => "ContractPending"
  | .contractMismatch => "ContractMismatch"
  | .guardianUnavailable => "GuardianUnavailable"
  | .rateLimited => "RateLimited"
  | .unknownOperation => "UnknownOperation"

def ofName (s : String) : Option SecureError := all.find? fun e => e.name = s

def toJson (e : SecureError) : Json := .string e.name

/-- A variant without content is read from its name, or from an object that gives it `null`. -/
def ofJson : Json → Option SecureError
  | .string s => ofName s
  | .object [(s, .null)] => ofName s
  | _ => none

theorem ofJson_toJson (e : SecureError) : ofJson e.toJson = some e := by
  cases e <;> decide

end SecureError

/-! ## Requests -/

def Request.toJson : Request → Json
  | .session peer hacpSession =>
    .object [("hacp_session", .string hacpSession), ("op", .string "session"),
      ("peer", .string peer)]
  | .seal_ sid contract payloadB64 =>
    .object [("contract", .string contract), ("op", .string "seal"),
      ("payload_b64", .string payloadB64), ("sid", .string sid)]
  | .open_ hacpSession => .object [("hacp_session", .string hacpSession), ("op", .string "open")]
  | .status => .object [("op", .string "status")]
  | .fingerprint => .object [("op", .string "fingerprint")]

/-! ## Answers -/

def natural (n : ℕ) : Json := .number (.integer n)

def HeldReason.text : HeldReason → String
  | .contractPending => "ContractPending"
  | .sequencePending => "SequencePending"

def SessionState.text : SessionState → String
  | .ackSent => "AckSent"
  | .established => "Established"

def Delivery.toJson (d : Delivery) : Json :=
  .object [("contract", .string d.contract), ("from", .string d.from_),
    ("payload_b64", .string (Base64.encode d.payload)), ("seq", natural d.seq.toNat),
    ("sid", .string d.sid)]

def Held.toJson (h : Held) : Json :=
  .object [("reason", .string h.reason.text), ("seq", natural h.seq.toNat), ("sid", .string h.sid)]

def rejectedJson (r : String × SecureError) : Json :=
  .object [("error", r.2.toJson), ("file", .string r.1)]

def abortedJson (a : String × SecureError) : Json :=
  .object [("error", a.2.toJson), ("sid", .string a.1)]

def SessionStatus.toJson (mode : Mode) (s : SessionStatus) : Json :=
  .object [("hacp_session", .string s.info.hacpSession), ("held", natural s.held),
    ("mode", .string mode.label), ("peer", .string s.info.peer),
    ("recv_high", (s.recvHigh.map fun n => natural n.toNat).getD .null),
    ("send_seq", natural s.sendSeq.toNat), ("sid", .string s.info.sid),
    ("state", .string s.info.state.text)]

/-- The entry for a peer that is pinned without secure sessions. -/
def insecureJson (urn : String) : Json :=
  .object [("held", natural 0), ("peer", .string urn), ("recv_high", .null),
    ("send_seq", natural 0), ("sid", .string ""), ("state", .string "insecure")]

def Response.toJson : Response → Json
  | .session sidPending peer mode =>
    .object [("mode", .string mode.label), ("ok", .bool true), ("peer", .string peer),
      ("sid_pending", .string sidPending)]
  | .sealed sid seq path =>
    .object [("envelope_path", .string path), ("ok", .bool true),
      ("seq", (seq.map fun n => natural n.toNat).getD .null), ("sid", .string sid)]
  | .opened b =>
    .object [("aborted", .array (b.aborted.map abortedJson)),
      ("delivered", .array (b.delivered.map Delivery.toJson)),
      ("held", .array (b.held.map Held.toJson)), ("ok", .bool true),
      ("rejected", .array (b.rejected.map rejectedJson))]
  | .status mode sessions insecure =>
    .object [("mode", .string mode.label), ("ok", .bool true),
      ("sessions", .array (sessions.map (SessionStatus.toJson mode) ++ insecure.map insecureJson))]
  | .fingerprint urn digest =>
    .object [("ed25519_pub_fingerprint", .string digest), ("ok", .bool true),
      ("urn", .string urn)]

def errorAnswer (e : SecureError) : Json :=
  .object [("detail", .string e.name), ("error", e.toJson), ("ok", .bool false)]

def answerJson : Except SecureError Response → Json
  | .ok r => r.toJson
  | .error e => errorAnswer e

def Served.answer : Served → Option Json
  | .dropped => none
  | .malformed => some (errorAnswer .schemaViolation)
  | .limited _ => some (errorAnswer .rateLimited)
  | .handled answer => some (answerJson answer.result)

/-! ## What is written is plain -/

section Plain
open Json

theorem plain_natural {n : ℕ} (k : ℕ) : Plain n (natural k) := .integer _

theorem SecureError.plain {n : ℕ} (e : SecureError) : Plain n e.toJson := .string _

theorem Request.plain (r : Request) : Plain 1 r.toJson := by
  cases r with
  | session peer context =>
    exact .members ["hacp_session", "op", "peer"] rfl (by decide) (by simp [Plain.string])
  | seal_ sid contract payload =>
    exact .members ["contract", "op", "payload_b64", "sid"] rfl (by decide)
      (by simp [Plain.string])
  | open_ context => exact .members ["hacp_session", "op"] rfl (by decide) (by simp [Plain.string])
  | status => exact .members ["op"] rfl (by decide) (by simp [Plain.string])
  | fingerprint => exact .members ["op"] rfl (by decide) (by simp [Plain.string])

theorem Delivery.plain (d : Delivery) : Plain 1 d.toJson :=
  .members ["contract", "from", "payload_b64", "seq", "sid"] rfl (by decide)
    (by simp [Plain.string, plain_natural])

theorem Held.plain (h : Held) : Plain 1 h.toJson :=
  .members ["reason", "seq", "sid"] rfl (by decide) (by simp [Plain.string, plain_natural])

theorem plain_rejected (r : String × SecureError) : Plain 1 (rejectedJson r) :=
  .members ["error", "file"] rfl (by decide) (by simp [Plain.string, SecureError.plain])

theorem plain_aborted (a : String × SecureError) : Plain 1 (abortedJson a) :=
  .members ["error", "sid"] rfl (by decide) (by simp [Plain.string, SecureError.plain])

theorem plain_sequence (n : Option UInt64) :
    Plain 0 ((n.map fun n => natural n.toNat).getD .null) := by
  cases n with
  | none => exact .null
  | some n => exact plain_natural _

theorem SessionStatus.plain (mode : Mode) (s : SessionStatus) : Plain 1 (s.toJson mode) :=
  .members ["hacp_session", "held", "mode", "peer", "recv_high", "send_seq", "sid", "state"] rfl
    (by decide) (by simp [Plain.string, plain_natural, plain_sequence])

theorem plain_insecure (urn : String) : Plain 1 (insecureJson urn) :=
  .members ["held", "peer", "recv_high", "send_seq", "sid", "state"] rfl (by decide)
    (by simp [Plain.string, plain_natural, Plain.null])

/-- The entries of a list that are all written alike. -/
theorem plain_entries {α : Type} {n : ℕ} {write : α → Json} (h : ∀ a, Plain n (write a))
    (as : List α) : Plain (n + 1) (.array (as.map write)) :=
  .array (List.forall_mem_map.mpr fun a _ => h a)

theorem Response.plain (r : Response) : Plain 3 r.toJson := by
  cases r with
  | session pending peer mode =>
    exact .members ["mode", "ok", "peer", "sid_pending"] rfl (by decide)
      (by simp [Plain.string, Plain.bool])
  | sealed sid seq path =>
    exact .members ["envelope_path", "ok", "seq", "sid"] rfl (by decide)
      (by simp [Plain.string, Plain.bool, (plain_sequence seq).mono (Nat.zero_le 2)])
  | opened b =>
    exact .members ["aborted", "delivered", "held", "ok", "rejected"] rfl (by decide)
      (by simp [Plain.bool, plain_entries plain_aborted, plain_entries Delivery.plain,
        plain_entries Held.plain, plain_entries plain_rejected])
  | status mode sessions insecure =>
    have hentries : ∀ v ∈ sessions.map (SessionStatus.toJson mode) ++ insecure.map insecureJson,
        Plain 1 v := by
      intro v hv
      rcases List.mem_append.mp hv with hv | hv
      · exact List.forall_mem_map.mpr (fun s _ => s.plain mode) v hv
      · exact List.forall_mem_map.mpr (fun urn _ => plain_insecure urn) v hv
    exact .members ["mode", "ok", "sessions"] rfl (by decide)
      (by simp [Plain.string, Plain.bool, Plain.array hentries])
  | fingerprint urn digest =>
    exact .members ["ed25519_pub_fingerprint", "ok", "urn"] rfl (by decide)
      (by simp [Plain.string, Plain.bool])

theorem plain_errorAnswer (e : SecureError) : Plain 3 (errorAnswer e) :=
  .members ["detail", "error", "ok"] rfl (by decide)
    (by simp [Plain.string, Plain.bool, SecureError.plain])

theorem plain_answerJson (result : Except SecureError Response) : Plain 3 (answerJson result) := by
  cases result with
  | error e => exact plain_errorAnswer e
  | ok r => exact r.plain

end Plain

/-! ## Requests are read back -/

theorem Request.ofJson_toJson (r : Request) : Request.ofJson r.toJson = some r := by
  cases r with
  | session peer context => rfl
  | seal_ sid contract payload => rfl
  | open_ context => rfl
  | status => rfl
  | fingerprint => rfl

/-- What is relied on in `serde_json` and `base64`: the text `write` gives a value is one line and
is read back, with or without the end of the line behind it, and so is a payload. -/
structure Serde (C : Crates) (write : Json → Bytes) : Prop where
  line : ∀ v, Json.Plain 127 v → newline ∉ write v
  value : ∀ v, Json.Plain 127 v → C.value (write v ++ [newline]) = some v
  tokens : ∀ v, v.integersOnly = true → v.unmarked = true → v.depth ≤ 127 →
    C.tokens (write v) = some v ∧ C.tokens (write v ++ [newline]) = some v
  base64 : ∀ bytes, C.base64 (Base64.encode bytes) = some bytes

section Read
variable {C : Crates} {write : Json → Bytes}

/-- A request that is written on a line within the limit is the request that is read. -/
theorem Request.ofBytes_write (hserde : Serde C write) (r : Request)
    (hsize : (write r.toJson).length < limit) :
    Request.ofBytes C (write r.toJson ++ [newline]) = .ok r := by
  have hplain := r.plain.mono (show 1 ≤ 127 by omega)
  have hvalue := hserde.value _ hplain
  have htokens := (hserde.tokens _ hplain.integers hplain.unmarked hplain.depth).2
  have hlength : ¬limit < (write r.toJson ++ [newline]).length := by simpa using hsize
  have hread := r.ofJson_toJson
  unfold Request.ofBytes
  rw [if_neg hlength, hvalue, htokens, Option.bind_some, hread]
  cases r with
  | session peer context => rfl
  | seal_ sid contract payload => rfl
  | open_ context => rfl
  | status => rfl
  | fingerprint => rfl

end Read

/-! ## Compact texts

The canonical form is one way to write a value on one line. -/

theorem newline_not_mem_utf8 {c : Char} (h : 0x1F < c.toNat) :
    newline ∉ String.utf8EncodeChar c := by
  have hval : c.val.toNat = c.toNat := rfl
  have hbyte {n : ℕ} (hn : n < 256) (hne : n ≠ 10) : newline ≠ UInt8.ofNat n := by
    intro heq
    have hnat := congrArg UInt8.toNat heq
    rw [UInt8.toNat_ofNat_of_lt' hn] at hnat
    exact hne hnat.symm
  fun_cases String.utf8EncodeChar c with
  | case1 v h => simpa using hbyte (by omega) (by omega)
  | case2 v h h' =>
    simp only [List.mem_cons, List.not_mem_nil, or_false, not_or]
    exact ⟨hbyte (by omega) (by omega), hbyte (by omega) (by omega)⟩
  | case3 v h h' h'' =>
    simp only [List.mem_cons, List.not_mem_nil, or_false, not_or]
    exact ⟨hbyte (by omega) (by omega), hbyte (by omega) (by omega), hbyte (by omega) (by omega)⟩
  | case4 v h h' h'' =>
    simp only [List.mem_cons, List.not_mem_nil, or_false, not_or]
    exact ⟨hbyte (by omega) (by omega), hbyte (by omega) (by omega), hbyte (by omega) (by omega),
      hbyte (by omega) (by omega)⟩

def compact (v : Json) : Bytes := asBytes (String.ofList (plainText v))

/-- The reader of a line leaves its end aside. -/
def readJsonLine (bytes : Bytes) : Option Json :=
  readJson (if bytes.getLast? = some newline then bytes.dropLast else bytes)

def lineCrates : Crates :=
  ⟨readJsonLine, readJsonLine, Base64.decode, fun _ => .replicate 32 0⟩

theorem newline_not_mem_denoted {n : ℕ} {w : List Char} {v : Json} (h : Denotes n w v) :
    newline ∉ asBytes (String.ofList w) := by
  intro hmem
  rw [asBytes, String.toList_ofList] at hmem
  obtain ⟨c, hc, hbyte⟩ := List.mem_flatMap.mp hmem
  exact newline_not_mem_utf8 (h.visible c hc) hbyte

theorem newline_not_mem_compact {v : Json} (h : v.integersOnly = true) : newline ∉ compact v :=
  newline_not_mem_denoted (plainText_denotes v h (Nat.le_refl _))

theorem readJsonLine_reads : ReadsJson readJsonLine := by
  intro w v h hname
  have hend : (asBytes (String.ofList w)).getLast? ≠ some newline := fun hlast =>
    newline_not_mem_denoted h (List.mem_of_getLast? hlast)
  rw [readJsonLine, if_neg hend, readJson_reads w v h hname]

theorem readJsonLine_compact {v : Json} (h : v.integersOnly = true) (hname : v.unmarked = true)
    (hdepth : v.depth ≤ 127) :
    readJsonLine (compact v) = some v ∧ readJsonLine (compact v ++ [newline]) = some v := by
  have hdenotes := plainText_denotes v h hdepth
  refine ⟨readJsonLine_reads _ _ hdenotes hname, ?_⟩
  rw [readJsonLine, List.getLast?_concat, if_pos rfl, List.dropLast_concat]
  exact readJson_reads _ _ hdenotes hname

theorem Serde.compact : Serde lineCrates compact where
  line _ hv := newline_not_mem_compact hv.integers
  value _ hv := (readJsonLine_compact hv.integers hv.unmarked hv.depth).2
  tokens _ hints hname hdepth := readJsonLine_compact hints hname hdepth
  base64 _ := Base64.decode_eq_some.mpr rfl

end Hacp.Secure
