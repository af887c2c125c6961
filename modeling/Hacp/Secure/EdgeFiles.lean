import Hacp.Lib.Numeral
import Hacp.Secure.EdgeWrites
import Hacp.Secure.InOrder
import Hacp.V2.JsonReader
import Hacp.V2.TextLength

/-!
# The files of the edge

A handshake is named after its session or nonce, a message after its number in twenty digits
and its sender. However the writers of a directory take turns, a name that ends in `.json`
names one whole envelope for good, and the messages of a session are read in the order of
their numbers.
-/
namespace Hacp.Secure
open Lib V2 Std

/-! ## Names -/

def tmpName (uuid : String) : String := "." ++ uuid ++ ".tmp"

def handshakeName (env : SecureEnvelope) : Except SecureError String := do
  let key ← orSchema (env.sid.or env.nonce)
  .ok ((if env.kind = .hello then "hello" else "ack") ++ "-" ++ key ++ ".json")

/-- `{seq:020}-{from}.json`. -/
def sequenceName (seq : UInt64) (from_ : String) : String := paddedSeq seq ++ "-" ++ from_ ++ ".json"

def messageName (env : SecureEnvelope) : Except SecureError String := do
  let _ ← orSchema env.sid
  let seq ← orSchema env.seq
  let from_ ← orSchema (stripPrefix "urn:hacp:agent:" env.from_)
  .ok (sequenceName seq from_)

/-- `n.ends_with(".json")`. -/
def isJsonName (name : String) : Bool := ".json".toList.isSuffixOf name.toList

def edgeJob (F : Foreign) (uuid name : String) (env : SecureEnvelope) : EdgeJob :=
  ⟨tmpName uuid, name, env.canonicalBytes F⟩

/-- A run of `write_edge` for the envelope, by `write_handshake` or `write_message`. -/
inductive EdgeJob.Writes (F : Foreign) (env : SecureEnvelope) : EdgeJob → Prop
  | handshake (uuid : String) {name : String} : handshakeName env = .ok name →
      Writes F env (edgeJob F uuid name env)
  | message (uuid : String) {name : String} : messageName env = .ok name →
      Writes F env (edgeJob F uuid name env)

/-- What opening and reading a file of the edge comes to. -/
def readEdge (d : Directory UInt8) (name : String) : Except EdgeError Bytes :=
  match d.entries[name]? with
  | some (.file i) =>
    if limit < (d.contents i).length then .error .schemaViolation else .ok (d.contents i)
  | _ => .error .schemaViolation

def readEdges (d : Directory UInt8) : List (String × Except EdgeError Bytes) :=
  (d.entries.keys.filter fun name => isJsonName name).map fun name => (name, readEdge d name)

section Names
variable {F : Foreign} {env : SecureEnvelope} {job : EdgeJob} {seq seq' : UInt64}
  {name from_ from' uuid : String}

theorem isJsonName_iff : isJsonName name = true ↔ ∃ pre, name.toList = pre ++ ".json".toList := by
  rw [isJsonName, List.isSuffixOf_iff_suffix]
  exact ⟨fun ⟨pre, h⟩ => ⟨pre, h.symm⟩, fun ⟨pre, h⟩ => ⟨pre, h.symm⟩⟩

theorem isJsonName_append (s : String) : isJsonName (s ++ ".json") = true :=
  isJsonName_iff.mpr ⟨s.toList, String.toList_append⟩

theorem not_isJsonName_tmpName (uuid : String) : isJsonName (tmpName uuid) = false := by
  rw [← Bool.not_eq_true, isJsonName_iff]
  rintro ⟨pre, h⟩
  rw [tmpName, String.toList_append] at h
  have hlast := congrArg List.getLast? h
  rw [List.getLast?_append_of_ne_nil _ (by decide),
    List.getLast?_append_of_ne_nil _ (by decide)] at hlast
  exact absurd hlast (by decide)

theorem handshakeName_isJson (h : handshakeName env = .ok name) : isJsonName name = true := by
  simp only [handshakeName, bind_eq_ok, Except.ok.injEq] at h
  obtain ⟨key, -, rfl⟩ := h
  exact isJsonName_append _

theorem messageName_eq_ok : messageName env = .ok name ↔ (∃ sid, env.sid = some sid) ∧
    ∃ seq from_, env.seq = some seq ∧ env.from_ = "urn:hacp:agent:" ++ from_ ∧
      name = sequenceName seq from_ := by
  have horSchema {α : Type} {v : Option α} {a : α} : orSchema v = .ok a ↔ v = some a := by
    cases v <;> simp [orSchema]
  simp only [messageName, bind_eq_ok, horSchema, stripPrefix_iff, Except.ok.injEq]
  constructor
  · rintro ⟨sid, hsid, seq, hseq, from_, hfrom, rfl⟩
    exact ⟨⟨sid, hsid⟩, seq, from_, hseq, hfrom, rfl⟩
  · rintro ⟨⟨sid, hsid⟩, seq, from_, hseq, hfrom, rfl⟩
    exact ⟨sid, hsid, seq, hseq, from_, hfrom, rfl⟩

theorem messageName_isJson (h : messageName env = .ok name) : isJsonName name = true := by
  obtain ⟨-, seq, from_, -, -, rfl⟩ := messageName_eq_ok.mp h
  exact isJsonName_append _

theorem EdgeJob.Writes.isJson (h : job.Writes F env) : isJsonName job.name = true := by
  cases h with
  | handshake uuid hname => exact handshakeName_isJson hname
  | message uuid hname => exact messageName_isJson hname

theorem EdgeJob.Writes.canonical (h : job.Writes F env) : job.canonical = env.canonicalBytes F := by
  cases h <;> rfl

theorem EdgeJob.Writes.tmp (h : job.Writes F env) : isJsonName job.tmp = false := by
  cases h <;> exact not_isJsonName_tmpName _

theorem toList_paddedSeq (seq : UInt64) : (paddedSeq seq).toList =
    List.replicate (20 - (Nat.toDigits 10 seq.toNat).length) '0' ++ Nat.toDigits 10 seq.toNat := by
  have htoString : (toString seq.toNat).toList = Nat.toDigits 10 seq.toNat := Nat.toList_repr
  have hlength : (toString seq.toNat).length = (Nat.toDigits 10 seq.toNat).length := by
    rw [← htoString, String.length_toList]
  simp only [paddedSeq, String.toList_append, String.toList_ofList, htoString, hlength]

theorem length_paddedSeq (seq : UInt64) : (paddedSeq seq).toList.length = 20 := by
  have hle : (Nat.toDigits 10 seq.toNat).length ≤ 20 := by
    rw [Nat.length_toDigits_le_iff (by decide) (by decide)]
    have hbound := seq.toNat_lt
    omega
  rw [toList_paddedSeq, List.length_append, List.length_replicate]
  omega

theorem digits_paddedSeq (seq : UInt64) : ∀ c ∈ (paddedSeq seq).toList, c.isDigit = true := by
  intro c hc
  rw [toList_paddedSeq] at hc
  rcases List.mem_append.mp hc with hc | hc
  · rw [List.eq_of_mem_replicate hc]
    rfl
  · exact Nat.isDigit_of_mem_toDigits (by decide) (by decide) hc

/-- A name that stays in its directory: `edge_dir` accepts no other part of a path. -/
def isSafePart (part : String) : Bool :=
  part ≠ "" && part ≠ "." && part ≠ ".." && part.toList.all fun c => c ≠ '/' && c ≠ '\x00'

/-- A character of the names of the edge. -/
def isNameChar (c : Char) : Bool := c.isLower || c.isDigit || c == '-'

theorem isNameChar_ne {c : Char} (h : isNameChar c = true) : c ≠ '/' ∧ c ≠ '\x00' := by
  constructor
  · rintro rfl
    exact absurd h (by decide)
  · rintro rfl
    exact absurd h (by decide)

theorem isSafePart_json {s : String} (h : ∀ c ∈ s.toList, isNameChar c = true) :
    isSafePart (s ++ ".json") = true := by
  have hlength : 5 ≤ (s ++ ".json").toList.length := by
    rw [String.toList_append, List.length_append]
    exact Nat.le_add_left _ _
  have hne {t : String} (ht : t.toList.length < 5) : s ++ ".json" ≠ t := fun heq =>
    absurd (heq ▸ hlength) (Nat.not_le.mpr ht)
  have hchars : (s ++ ".json").toList.all (fun c => c ≠ '/' && c ≠ '\x00') = true := by
    rw [List.all_eq_true]
    intro c hc
    rw [String.toList_append] at hc
    rcases List.mem_append.mp hc with hc | hc
    · simpa using isNameChar_ne (h c hc)
    · have hsuffix : ".json".toList.all (fun c => c ≠ '/' && c ≠ '\x00') = true := by decide
      exact List.all_eq_true.mp hsuffix c hc
  have hempty := hne (t := "") (by decide)
  have hdot := hne (t := ".") (by decide)
  have hdots := hne (t := "..") (by decide)
  simp only [isSafePart, hchars, Bool.and_true]
  simp [hempty, hdot, hdots]

theorem isNameChar_of_lowerHex {c : Char} (h : isLowerHex c = true) : isNameChar c = true := by
  simp only [isLowerHex, Bool.or_eq_true, Bool.and_eq_true, decide_eq_true_eq] at h
  rcases h with h | ⟨ha, hf⟩
  · simp [isNameChar, h]
  · have hlower : c.isLower = true :=
      Bool.and_eq_true_iff.mpr
        ⟨decide_eq_true ha, decide_eq_true (Char.le_trans hf (by decide : 'f' ≤ 'z'))⟩
    simp [isNameChar, hlower]

theorem isNameChar_of_fixedHex {s : String} {n : ℕ} (h : fixedHex s n = true) :
    ∀ c ∈ s.toList, isNameChar c = true := by
  have hok := (Bool.and_eq_true_iff.mp h).2
  unfold decodeHex at hok
  split_ifs at hok with hbad
  · cases hok
  · have hall := List.all_eq_true.mp (not_not.mp (not_or.mp hbad).2)
    exact fun c hc => isNameChar_of_lowerHex (hall c hc)

theorem isNameChar_of_urn (h : urn ("urn:hacp:agent:" ++ from_) = true) :
    ∀ c ∈ from_.toList, isNameChar c = true := by
  rw [urn, stripPrefix_append, Option.any_some, Bool.and_eq_true] at h
  exact List.all_eq_true.mp h.2

theorem EdgeJob.Writes.safe (h : job.Writes F env) (hvalid : env.Valid F) :
    isSafePart job.name = true := by
  cases h with
  | handshake uuid hname =>
    simp only [handshakeName, bind_eq_ok, Except.ok.injEq] at hname
    obtain ⟨key, hkey, rfl⟩ := hname
    have hhex : ∀ c ∈ key.toList, isNameChar c = true := by
      cases hsid : env.sid with
      | some sid =>
        rw [hsid] at hkey
        obtain rfl := Except.ok.inj hkey
        exact isNameChar_of_fixedHex (hvalid.sid _ hsid)
      | none =>
        cases hnonce : env.nonce with
        | none =>
          rw [hsid, hnonce] at hkey
          cases hkey
        | some nonce =>
          rw [hsid, hnonce] at hkey
          obtain rfl := Except.ok.inj hkey
          exact isNameChar_of_fixedHex (hvalid.nonce _ hnonce)
    refine isSafePart_json fun c hc => ?_
    rw [String.toList_append, String.toList_append] at hc
    rcases List.mem_append.mp hc with hc | hc
    · have hkind : ("hello".toList ++ "ack".toList ++ "-".toList).all isNameChar = true := by decide
      refine List.all_eq_true.mp hkind c ?_
      split_ifs at hc
      · rcases List.mem_append.mp hc with hc | hc
        · exact List.mem_append_left _ (List.mem_append_left _ hc)
        · exact List.mem_append_right _ hc
      · rcases List.mem_append.mp hc with hc | hc
        · exact List.mem_append_left _ (List.mem_append_right _ hc)
        · exact List.mem_append_right _ hc
    · exact hhex c hc
  | message uuid hname =>
    obtain ⟨-, seq, from_, -, hfrom, rfl⟩ := messageName_eq_ok.mp hname
    refine isSafePart_json fun c hc => ?_
    have hsender := hvalid.sender
    rw [hfrom] at hsender
    rw [String.toList_append, String.toList_append] at hc
    rcases List.mem_append.mp hc with hc | hc
    · rcases List.mem_append.mp hc with hc | hc
      · simp [isNameChar, digits_paddedSeq seq c hc]
      · rw [List.mem_singleton.mp hc]
        decide
    · exact isNameChar_of_urn hsender c hc

/-! ## Order -/

/-- The names of messages are ordered like their numbers. -/
theorem sequenceName_lt (h : seq < seq') : sequenceName seq from_ < sequenceName seq' from' := by
  have hpadded : compare (paddedSeq seq).toList (paddedSeq seq').toList = .lt := by
    rw [← compare_digitChars ((length_paddedSeq seq).trans (length_paddedSeq seq').symm)
      (digits_paddedSeq seq) (digits_paddedSeq seq'), toList_paddedSeq, toList_paddedSeq,
      ofDigitChars_padded, ofDigitChars_padded]
    exact compare_lt_iff_lt.mpr (UInt64.lt_iff_toNat_lt.mp h)
  refine String.lt_iff.mpr (lt_of_compareLex ?_)
  simp only [sequenceName, String.toList_append, List.append_assoc]
  have hsplit := compare_append (r := "-".toList ++ (from_.toList ++ ".json".toList))
    (s := "-".toList ++ (from'.toList ++ ".json".toList))
    ((length_paddedSeq seq).trans (length_paddedSeq seq').symm)
  rw [hpadded] at hsplit
  exact hsplit

end Names

/-! ## Reading what was written -/

section Edge
variable {F : Foreign} {tokens : Bytes → Option Json} {ι : Type} [DecidableEq ι]
  {jobs : ι → EdgeJob} {envs : ι → SecureEnvelope} {d : Directory UInt8} {n : String} {bytes : Bytes}

theorem readEdge_ok (h : readEdge d n = .ok bytes) : d.read n = some bytes := by
  unfold readEdge at h
  split at h
  · next i hi =>
    split_ifs at h
    exact Directory.read_eq_some.mpr ⟨i, hi, Except.ok.inj h⟩
  · cases h

theorem readEdges_ordered (d : Directory UInt8) :
    (readEdges d).Pairwise fun a b => a.1 < b.1 := by
  have hkeys : (d.entries.keys.filter fun name => isJsonName name).Pairwise fun a b => a < b := by
    refine (d.entries.ordered_keys.imp fun h => ?_).filter _
    exact compareOfLessAndEq_eq_lt.mp h
  exact List.pairwise_map.mpr hkeys

theorem mem_readEdges {f : String × Except EdgeError Bytes} (h : f ∈ readEdges d) :
    isJsonName f.1 = true ∧ f.2 = readEdge d f.1 := by
  obtain ⟨name, hname, rfl⟩ := List.mem_map.mp h
  exact ⟨(List.mem_filter.mp hname).2, rfl⟩

/-- What the parser makes of the canonical bytes of an envelope. -/
theorem fromJson_canonical (hreads : ReadsJson tokens) {env : SecureEnvelope}
    (h : env.canonicalBytes F = .ok bytes) : SecureEnvelope.fromJson F tokens bytes = .ok env := by
  obtain ⟨bytes', hbytes', hparsed⟩ := SecureEnvelope.fromJson_canonicalBytes hreads
    (SecureEnvelope.canonicalBytes_eq_ok.mp h).1
  obtain rfl : bytes = bytes' := Except.ok.inj (h.symm.trans hbytes')
  exact hparsed

section Writers
omit [DecidableEq ι]
variable (hwrites : ∀ k, (jobs k).Writes F (envs k))
include hwrites

theorem tmp_ne_name (k k' : ι) : (jobs k).tmp ≠ (jobs k').name := by
  intro h
  have htmp := (hwrites k).tmp
  rw [h, (hwrites k').isJson] at htmp
  cases htmp

theorem ne_tmp (hn : isJsonName n = true) (k : ι) : n ≠ (jobs k).tmp := by
  rintro rfl
  rw [(hwrites k).tmp] at hn
  cases hn

end Writers

/-- However the writers of a directory take turns, whatever happens to their calls: under a name
that ends in `.json` a reader finds what was there before, or one whole envelope that a writer was
asked to write under the name, which leads nowhere else. An envelope that was written successfully
is what everyone finds from then on, and nothing that was found is ever replaced. A writer ends
after as many turns of its own as the envelope has bytes, and six more, whatever the others do. -/
theorem edge_names_written_once (hreads : ReadsJson tokens) {d₀ : Directory UInt8} (hd₀ : d₀.Sound)
    (hwrites : ∀ k, (jobs k).Writes F (envs k)) (turns : List (ι × SystemCall)) :
    (∀ n bytes, isJsonName n = true →
      ((EdgeWrites.machine jobs).exec (.start d₀) turns).directory.read n = some bytes →
        d₀.read n = some bytes ∨ n ∉ d₀.entries ∧
          isSafePart n = true ∧
            ∃ k, (jobs k).name = n ∧ SecureEnvelope.fromJson F tokens bytes = .ok (envs k)) ∧
    (∀ k, ((EdgeWrites.machine jobs).exec (.start d₀) turns).phase k = .done (.ok ()) →
      ∃ bytes, SecureEnvelope.fromJson F tokens bytes = .ok (envs k) ∧ ∀ more,
        ((EdgeWrites.machine jobs).exec (.start d₀) (turns ++ more)).directory.read (jobs k).name =
          some bytes) ∧
    (∀ n bytes more, isJsonName n = true →
      ((EdgeWrites.machine jobs).exec (.start d₀) turns).directory.read n = some bytes →
        ((EdgeWrites.machine jobs).exec (.start d₀) (turns ++ more)).directory.read n =
          some bytes) ∧
    ∀ k, (jobs k).size + 6 ≤ turns.countP (fun turn => turn.1 = k) →
      ∃ result, ((EdgeWrites.machine jobs).exec (.start d₀) turns).phase k = .done result := by
  have hnames := tmp_ne_name hwrites
  have hinv : EdgeWrites.Inv jobs d₀ ((EdgeWrites.machine jobs).exec (.start d₀) turns) :=
    (EdgeWrites.Inv.start hd₀).exec hnames turns
  have hkeeps (n : String) (bytes : Bytes) (more : List (ι × SystemCall)) (hn : isJsonName n = true)
      (hread : ((EdgeWrites.machine jobs).exec (.start d₀) turns).directory.read n = some bytes) :
      ((EdgeWrites.machine jobs).exec (.start d₀) (turns ++ more)).directory.read n = some bytes := by
    rw [Machine.exec_append]
    exact hinv.keeps hnames more n bytes (ne_tmp hwrites hn) hread
  refine ⟨fun n bytes hn hread => ?_, fun k hk => ?_, hkeeps, fun k hk => ?_⟩
  · refine (hinv.read hd₀ (ne_tmp hwrites hn) hread).imp_right fun ⟨hfree, k, hname, hcanonical⟩ => ?_
    rw [(hwrites k).canonical] at hcanonical
    have hvalid := SecureEnvelope.validate_eq_ok.mp (SecureEnvelope.canonicalBytes_eq_ok.mp hcanonical).1
    exact ⟨hfree, hname ▸ (hwrites k).safe hvalid, k, hname, fromJson_canonical hreads hcanonical⟩
  · have hfits := hinv.fits k
    rw [hk] at hfits
    obtain ⟨bytes, hcanonical, hread⟩ := hfits rfl
    rw [(hwrites k).canonical] at hcanonical
    exact ⟨bytes, fromJson_canonical hreads hcanonical,
      fun more => hkeeps _ bytes more (hwrites k).isJson hread⟩
  · have hremaining := EdgeWrites.remaining_exec jobs (.start d₀) k turns
    refine WritePhase.done_of_remaining (Nat.eq_zero_of_le_zero (hremaining.trans ?_))
    exact (Nat.sub_eq_zero_of_le hk).le

def readEnvelopes (F : Foreign) (tokens : Bytes → Option Json) (d : Directory UInt8) :
    List SecureEnvelope :=
  (readEdges d).filterMap fun f =>
    f.2.toOption.bind fun bytes => (SecureEnvelope.fromJson F tokens bytes).toOption

theorem toOption_eq_some {ε α : Type} {x : Except ε α} {a : α} (h : x.toOption = some a) :
    x = .ok a := by
  cases x with
  | error e => cases h
  | ok b => exact congrArg Except.ok (Option.some.inj h)

theorem parsed_eq_some {f : String × Except EdgeError Bytes} {env : SecureEnvelope}
    (hf : f ∈ readEdges d)
    (h : (f.2.toOption.bind fun bytes => (SecureEnvelope.fromJson F tokens bytes).toOption) = some env) :
    ∃ bytes, d.read f.1 = some bytes ∧ SecureEnvelope.fromJson F tokens bytes = .ok env := by
  obtain ⟨bytes, hbytes, henv⟩ := Option.bind_eq_some_iff.mp h
  rw [(mem_readEdges hf).2] at hbytes
  exact ⟨bytes, readEdge_ok (toOption_eq_some hbytes), toOption_eq_some henv⟩

theorem sequenceName_congr {seq : UInt64} {from_ from' : String}
    (h : "urn:hacp:agent:" ++ from_ = "urn:hacp:agent:" ++ from') :
    sequenceName seq from_ = sequenceName seq from' := by
  have hlist := congrArg String.toList h
  rw [String.toList_append, String.toList_append, List.append_cancel_left_eq, String.toList_inj] at hlist
  rw [hlist]

/-- However the guardians of a session take turns in writing their messages, a reader finds nothing
but messages that one of them was asked to write, and each of those that were written
successfully. It meets them in the order of their numbers, and no number of a sender twice. -/
theorem messages_read_in_sequence (hreads : ReadsJson tokens)
    (hwrites : ∀ k, ∃ uuid name, messageName (envs k) = .ok name ∧ jobs k = edgeJob F uuid name (envs k))
    (turns : List (ι × SystemCall)) :
    (∀ env ∈ readEnvelopes F tokens ((EdgeWrites.machine jobs).exec (.start .empty) turns).directory,
      ∃ k, envs k = env) ∧
    (∀ k bytes, ((EdgeWrites.machine jobs).exec (.start .empty) turns).phase k = .done (.ok ()) →
      (envs k).canonicalBytes F = .ok bytes → bytes.length ≤ limit →
        envs k ∈ readEnvelopes F tokens
          ((EdgeWrites.machine jobs).exec (.start .empty) turns).directory) ∧
    (readEnvelopes F tokens
      ((EdgeWrites.machine jobs).exec (.start .empty) turns).directory).Pairwise fun env env' =>
        ∀ s ∈ env.seq, ∀ s' ∈ env'.seq, s ≤ s' ∧ (env.from_ = env'.from_ → s < s') := by
  have hjobs (k : ι) : (jobs k).Writes F (envs k) := by
    obtain ⟨uuid, name, hname, hjob⟩ := hwrites k
    exact hjob ▸ .message uuid hname
  have hnames := tmp_ne_name hjobs
  have hinv : EdgeWrites.Inv jobs .empty ((EdgeWrites.machine jobs).exec (.start .empty) turns) :=
    (EdgeWrites.Inv.start Directory.sound_empty).exec hnames turns
  generalize (EdgeWrites.machine jobs).exec (.start .empty) turns = w at hinv
  -- every file that is read is the message of some writer, under its name
  have hfound {f : String × Except EdgeError Bytes} {env : SecureEnvelope}
      (hf : f ∈ readEdges w.directory)
      (henv : (f.2.toOption.bind fun bytes => (SecureEnvelope.fromJson F tokens bytes).toOption) =
        some env) : ∃ k, envs k = env ∧ messageName env = .ok f.1 := by
    obtain ⟨bytes, hread, hparsed⟩ := parsed_eq_some hf henv
    rcases hinv.read Directory.sound_empty (ne_tmp hjobs (mem_readEdges hf).1) hread with hold |
      ⟨-, k, hname, hcanonical⟩
    · rw [Directory.read_empty] at hold
      cases hold
    · rw [(hjobs k).canonical] at hcanonical
      have henvk : envs k = env :=
        Except.ok.inj ((fromJson_canonical hreads hcanonical).symm.trans hparsed)
      obtain ⟨uuid, name, hmessage, hjob⟩ := hwrites k
      rw [hjob] at hname
      exact ⟨k, henvk, by rw [← henvk, ← hname]; exact hmessage⟩
  refine ⟨fun env henv => ?_, fun k bytes hk hbytes hlimit => ?_, ?_⟩
  · obtain ⟨f, hf, henv⟩ := List.mem_filterMap.mp henv
    obtain ⟨k, henvk, -⟩ := hfound hf henv
    exact ⟨k, henvk⟩
  · have hfits := hinv.fits k
    rw [hk] at hfits
    obtain ⟨bytes', hcanonical, hread⟩ := hfits rfl
    rw [(hjobs k).canonical] at hcanonical
    obtain rfl : bytes = bytes' := Except.ok.inj (hbytes.symm.trans hcanonical)
    obtain ⟨i, hi, hcontents⟩ := Directory.read_eq_some.mp hread
    have hmem : (jobs k).name ∈ w.directory.entries.keys.filter fun name => isJsonName name :=
      List.mem_filter.mpr ⟨ExtTreeMap.mem_keys.mpr ((mem_iff_lookup _ _).mpr ⟨_, hi⟩),
        (hjobs k).isJson⟩
    refine List.mem_filterMap.mpr ⟨_, List.mem_map.mpr ⟨_, hmem, rfl⟩, ?_⟩
    have hedge : readEdge w.directory (jobs k).name = .ok bytes := by
      rw [readEdge, hi]
      dsimp only
      rw [hcontents, if_neg (Nat.not_lt.mpr hlimit)]
    simp only [hedge, Except.toOption, Option.bind_some, fromJson_canonical hreads hbytes]
  · refine List.pairwise_filterMap.mpr ((readEdges_ordered w.directory).imp_of_mem ?_)
    intro f f' hf hf' hlt env henv env' henv' s hs s' hs'
    obtain ⟨-, -, hname⟩ := hfound hf henv
    obtain ⟨-, -, hname'⟩ := hfound hf' henv'
    obtain ⟨-, seq, from_, hseq, hfrom, hf⟩ := messageName_eq_ok.mp hname
    obtain ⟨-, seq', from', hseq', hfrom', hf'⟩ := messageName_eq_ok.mp hname'
    obtain rfl : s = seq := Option.some.inj (hs.symm.trans hseq)
    obtain rfl : s' = seq' := Option.some.inj (hs'.symm.trans hseq')
    rw [hf, hf'] at hlt
    have hle : s ≤ s' := UInt64.not_lt.mp fun hcon =>
      String.lt_irrefl _ (String.lt_trans hlt (sequenceName_lt hcon))
    refine ⟨hle, fun hsame => UInt64.lt_of_le_of_ne hle fun heq => ?_⟩
    subst heq
    rw [hfrom, hfrom'] at hsame
    rw [sequenceName_congr hsame] at hlt
    exact String.lt_irrefl _ hlt

end Edge

/-! ## Four writers of one sender -/

namespace EdgeWriters

inductive Writer where
  | first
  | second
  /-- It writes another message under the number of the first. -/
  | rival
  /-- It is cut off while it writes. -/
  | broken
  deriving DecidableEq

def uuid : Writer → String
  | .first => "0"
  | .second => "1"
  | .rival => "2"
  | .broken => "3"

def number : Writer → UInt64
  | .first => 0
  | .second => 1
  | .rival => 0
  | .broken => 2

def payload : Writer → Bytes
  | .rival => [1]
  | _ => []

def envs (k : Writer) : SecureEnvelope := Burst.letter "" (payload k) (number k)

def jobs (k : Writer) : EdgeJob :=
  edgeJob Burst.foreign (uuid k) (sequenceName (number k) "b") (envs k)

def alone (k : Writer) : List (Writer × SystemCall) :=
  (List.replicate 5 (.works (jobs k).size)).map fun call => (k, call)

def cutOff : List (Writer × SystemCall) :=
  [SystemCall.works 0, .fails, .fails].map fun call => (.broken, call)

/-- One writer is cut off, and two write their messages. -/
def earlier : List (Writer × SystemCall) := cutOff ++ alone .first ++ alone .second

def turns : List (Writer × SystemCall) :=
  earlier ++ List.replicate ((jobs .rival).size + 6) (.rival, .works 0)

theorem messageName_envs (k : Writer) : messageName (envs k) = .ok (sequenceName (number k) "b") :=
  messageName_eq_ok.mpr ⟨⟨_, rfl⟩, number k, "b", rfl, by cases k <;> decide, rfl⟩

theorem ct_rival : (envs .rival).ct ≠ (envs .first).ct := by
  intro h
  have htext : encodeHex ([1] ++ List.replicate 16 0) = encodeHex ([] ++ List.replicate 16 0) :=
    Option.some.inj h
  have hbytes := congrArg decodeHex htext
  rw [decodeHex_encodeHex, decodeHex_encodeHex] at hbytes
  exact absurd (Except.ok.inj hbytes) (by decide)

theorem writes (k : Writer) : (jobs k).Writes Burst.foreign (envs k) :=
  .message (uuid k) (messageName_envs k)

theorem exists_canonical (k : Writer) : ∃ bytes, (jobs k).canonical = .ok bytes ∧
    (envs k).canonicalBytes Burst.foreign = .ok bytes := by
  obtain ⟨bytes, hbytes, -⟩ := SecureEnvelope.fromJson_canonicalBytes readJson_reads
    (Burst.validate_letter Burst.binding_empty (payload k) (number k))
  exact ⟨bytes, (writes k).canonical.trans hbytes, hbytes⟩

theorem span_envs_le (k : Writer) : (Json.object (envs k).toObject).span ≤ 2000 := by
  have hhex (bytes : Bytes) : (encodeHex bytes).length = 2 * bytes.length := by
    rw [encodeHex, ← String.length_toList, length_hexText]
  have hpayload : (payload k).length ≤ 1 := by cases k <;> decide
  have hseq := span_integer_le (number k)
  have hv : (Json.number (.integer (1 : UInt8).toNat)).span = 1 := by decide
  simp only [envs, Burst.letter, Burst.message, Burst.messageOf, Burst.sig, SecureEnvelope.toObject,
    SecureEnvelope.member, Option.map_some, Option.map_none, Option.toList_some, Option.toList_none,
    List.map_cons, List.map_nil, List.append_nil, List.cons_append, List.nil_append, Json.span,
    Json.spanMembers, Burst.sid, hhex, List.length_append, List.length_replicate,
    Kind.text, show "v".length = 1 by decide, show "kind".length = 4 by decide,
    show "msg".length = 3 by decide, show "from".length = 4 by decide,
    show "urn:hacp:agent:b".length = 16 by decide, show "to".length = 2 by decide,
    show "urn:hacp:agent:a".length = 16 by decide, show "contract".length = 8 by decide,
    show "".length = 0 by decide, show "sid".length = 3 by decide, show "seq".length = 3 by decide,
    show "sig".length = 3 by decide, show "ct".length = 2 by decide] at hv hseq ⊢
  omega

theorem length_le_limit {k : Writer} {bytes : Bytes}
    (h : (envs k).canonicalBytes Burst.foreign = .ok bytes) : bytes.length ≤ limit := by
  obtain ⟨-, text, htext, rfl⟩ := SecureEnvelope.canonicalBytes_eq_ok.mp h
  have hlength := length_canonicalJson_le htext
  have hspan := span_envs_le k
  rw [limit]
  omega

/-- A writer on its own, whose message nobody else writes. -/
theorem alone_succeeds {w : EdgeWrites Writer} {k : Writer} (hphase : w.phase k = .start)
    (htmp : (jobs k).tmp ∉ w.directory.entries) (hname : (jobs k).name ∉ w.directory.entries) :
    ((EdgeWrites.machine jobs).exec w (alone k)).phase =
        Function.update w.phase k (.done (.ok ())) ∧
      ∀ n, n ≠ (jobs k).tmp → n ≠ (jobs k).name →
        (n ∈ ((EdgeWrites.machine jobs).exec w (alone k)).directory.entries ↔
          n ∈ w.directory.entries) := by
  obtain ⟨bytes, hcanonical, -⟩ := exists_canonical k
  have hsize : (jobs k).size = bytes.length := by rw [EdgeJob.size, hcanonical]
  rw [alone, hsize]
  exact EdgeWrites.exec_alone hphase hcanonical (tmp_ne_name writes k k) htmp hname

theorem cutOff_leaves :
    ((EdgeWrites.machine jobs).exec (.start .empty) cutOff).phase =
        Function.update (fun _ => .start) .broken (.done WritePhase.unavailable) ∧
      ∀ n, n ≠ (jobs .broken).tmp →
        n ∉ ((EdgeWrites.machine jobs).exec (.start .empty) cutOff).directory.entries := by
  obtain ⟨bytes, hcanonical, -⟩ := exists_canonical .broken
  have hfree (n : String) : n ∉ (Directory.empty : Directory UInt8).entries := ExtTreeMap.not_mem_empty
  have hcreate := Directory.create_eq_some.mpr ⟨hfree (jobs .broken).tmp, rfl⟩
  rw [cutOff, EdgeWrites.exec_own]
  simp only [EdgeWrites.start, List.foldl_cons, List.foldl_nil, WritePhase.step, hcreate, hcanonical]
  refine ⟨trivial, fun n hn => ?_⟩
  rw [mem_insert_iff, not_or]
  exact ⟨hn, hfree n⟩

theorem earlier_phase :
    ((EdgeWrites.machine jobs).exec (.start .empty) earlier).phase .first = .done (.ok ()) ∧
    ((EdgeWrites.machine jobs).exec (.start .empty) earlier).phase .second = .done (.ok ()) ∧
    ((EdgeWrites.machine jobs).exec (.start .empty) earlier).phase .broken =
      .done WritePhase.unavailable := by
  obtain ⟨hcut, hfree⟩ := cutOff_leaves
  have htmp (k k' : Writer) (hk : k ≠ k') : (jobs k).tmp ≠ (jobs k').tmp := by
    cases k <;> cases k' <;> first | exact absurd rfl hk | decide
  have hname : (jobs .second).name ≠ (jobs .first).name := by decide
  obtain ⟨hfirst, hkept⟩ := alone_succeeds (k := .first) (by rw [hcut]; rfl)
    (hfree _ (htmp _ _ (by decide))) (hfree _ (tmp_ne_name writes _ _).symm)
  rw [hcut] at hfirst
  obtain ⟨hsecond, -⟩ := alone_succeeds (k := .second) (by rw [hfirst]; rfl)
    (mt (hkept _ (htmp _ _ (by decide)) (tmp_ne_name writes _ _)).mp (hfree _ (htmp _ _ (by decide))))
    (mt (hkept _ (tmp_ne_name writes _ _).symm hname).mp (hfree _ (tmp_ne_name writes _ _).symm))
  rw [hfirst] at hsecond
  rw [earlier, Machine.exec_append, Machine.exec_append, hsecond]
  exact ⟨rfl, rfl, rfl⟩

def written : EdgeWrites Writer := (EdgeWrites.machine jobs).exec (.start .empty) turns

theorem written_phase : written.phase .first = .done (.ok ()) ∧
    written.phase .second = .done (.ok ()) ∧
    written.phase .broken = .done WritePhase.unavailable := by
  obtain ⟨hfirst, hsecond, hbroken⟩ := earlier_phase
  rw [written, turns, Machine.exec_append]
  exact ⟨EdgeWrites.done_exec hfirst _, EdgeWrites.done_exec hsecond _,
    EdgeWrites.done_exec hbroken _⟩

end EdgeWriters

theorem edge_names_written_once_rival :
    (∀ n bytes, isJsonName n = true → EdgeWriters.written.directory.read n = some bytes →
      ∃ k, (EdgeWriters.jobs k).name = n ∧
        SecureEnvelope.fromJson Burst.foreign readJson bytes = .ok (EdgeWriters.envs k)) ∧
    (EdgeWriters.jobs .rival).name = (EdgeWriters.jobs .first).name ∧
    EdgeWriters.written.phase .first = .done (.ok ()) ∧
    EdgeWriters.written.phase .broken = .done WritePhase.unavailable ∧
    (∃ bytes, EdgeWriters.written.directory.read (EdgeWriters.jobs .first).name = some bytes ∧
      SecureEnvelope.fromJson Burst.foreign readJson bytes = .ok (EdgeWriters.envs .first)) ∧
    ∃ result, EdgeWriters.written.phase .rival = .done result ∧ result ≠ .ok () := by
  obtain ⟨hread, hstored, -, hends⟩ := edge_names_written_once readJson_reads
    Directory.sound_empty EdgeWriters.writes EdgeWriters.turns
  obtain ⟨hfirst, -, hbroken⟩ := EdgeWriters.written_phase
  rw [EdgeWriters.written] at hfirst hbroken ⊢
  obtain ⟨result, hresult⟩ := hends .rival (by
    rw [EdgeWriters.turns, List.countP_append, List.countP_replicate,
      if_pos (decide_eq_true rfl)]
    exact Nat.le_add_left _ _)
  obtain ⟨bytes, hparsed, hkept⟩ := hstored .first hfirst
  have hname : (EdgeWriters.jobs .rival).name = (EdgeWriters.jobs .first).name := rfl
  have hfound := hkept []
  rw [List.append_nil] at hfound
  refine ⟨fun n bytes hn hfound => ?_, hname, hfirst, hbroken, ⟨bytes, hfound, hparsed⟩, result,
    hresult, ?_⟩
  · rcases hread n bytes hn hfound with hold | ⟨-, -, k, hname, hparsed⟩
    · rw [Directory.read_empty] at hold
      cases hold
    · exact ⟨k, hname, hparsed⟩
  · rintro rfl
    -- what the rival wrote would be what the first one wrote
    obtain ⟨bytes', hparsed', hkept'⟩ := hstored .rival hresult
    have hfound' := hkept' []
    rw [List.append_nil, hname] at hfound'
    obtain rfl := Option.some.inj (hfound.symm.trans hfound')
    have henv := Except.ok.inj (hparsed.symm.trans hparsed')
    exact EdgeWriters.ct_rival (congrArg SecureEnvelope.ct henv.symm)

theorem messages_read_in_sequence_rival :
    (∀ env ∈ readEnvelopes Burst.foreign readJson EdgeWriters.written.directory,
      ∃ k, EdgeWriters.envs k = env) ∧
    EdgeWriters.envs .first ∈ readEnvelopes Burst.foreign readJson EdgeWriters.written.directory ∧
    EdgeWriters.envs .second ∈ readEnvelopes Burst.foreign readJson EdgeWriters.written.directory ∧
    (readEnvelopes Burst.foreign readJson EdgeWriters.written.directory).Pairwise
      fun env env' => ∀ s ∈ env.seq, ∀ s' ∈ env'.seq, s ≤ s' ∧ (env.from_ = env'.from_ → s < s') := by
  have hnamed (k : EdgeWriters.Writer) : ∃ uuid name,
      messageName (EdgeWriters.envs k) = .ok name ∧
        EdgeWriters.jobs k = edgeJob Burst.foreign uuid name (EdgeWriters.envs k) :=
    ⟨EdgeWriters.uuid k, _, EdgeWriters.messageName_envs k, rfl⟩
  obtain ⟨hlisted, hwritten, hordered⟩ :=
    messages_read_in_sequence readJson_reads hnamed EdgeWriters.turns
  obtain ⟨hfirst, hsecond, -⟩ := EdgeWriters.written_phase
  rw [EdgeWriters.written] at hfirst hsecond ⊢
  obtain ⟨bytes, -, hbytes⟩ := EdgeWriters.exists_canonical .first
  obtain ⟨bytes', -, hbytes'⟩ := EdgeWriters.exists_canonical .second
  exact ⟨hlisted, hwritten .first bytes hfirst hbytes (EdgeWriters.length_le_limit hbytes),
    hwritten .second bytes' hsecond hbytes' (EdgeWriters.length_le_limit hbytes'), hordered⟩

end Hacp.Secure
