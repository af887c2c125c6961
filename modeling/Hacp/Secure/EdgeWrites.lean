import Hacp.Lib.Directory
import Hacp.Lib.Machine
import Hacp.Secure.Guardian

/-!
# Writing to the edge

Any number of guardians write to a directory of the edge at the same time, call by call. Each
fills a temporary file, syncs it and gives it its name by a hard link; where the name is
taken, what it names has to be the same bytes. So a name is written once, by whoever links
first, and nobody reads a file that is not complete.
-/
namespace Hacp.Secure
open Lib V2 Std

/-- What one run of `write_edge` writes: its temporary name, the name of the envelope, and the
canonical bytes. -/
structure EdgeJob where
  tmp : String
  name : String
  canonical : Except SecureError Bytes

inductive WritePhase where
  | start
  /-- The temporary file is open, and the rest has to be written. -/
  | writing (inode : ℕ) (rest : Bytes)
  /-- It is written and synced. -/
  | linking (inode : ℕ)
  /-- The name was taken. -/
  | collided
  /-- What the name names is open. -/
  | comparing (inode : ℕ)
  /-- The temporary name is still to be removed. -/
  | leaving (result : Except SecureError Unit)
  | done (result : Except SecureError Unit)

/-- How the next call of the system goes: a write takes some bytes more than `more`, or it fails. -/
inductive SystemCall where
  | works (more : ℕ)
  | fails

namespace WritePhase

def Holds : WritePhase → Prop
  | .start => False
  | .done _ => False
  | _ => True

def unavailable : Except SecureError Unit := .error .guardianUnavailable

/-- `previous != canonical`, with the checks in front of it. -/
def sameFile (previous canonical : Bytes) : Bool :=
  previous.length == canonical.length && previous.take (limit + 1) == canonical

def step (job : EdgeJob) (d : Directory UInt8) : WritePhase → SystemCall → Directory UInt8 × WritePhase
  | .start, .fails => (d, .done unavailable)
  | .start, .works _ =>
    match d.create job.tmp, job.canonical with
    | none, _ => (d, .done unavailable)
    -- the temporary file stays
    | some (d, _), .error e => (d, .done (.error e))
    | some (d, inode), .ok bytes => (d, .writing inode bytes)
  | .writing _ _, .fails => (d, .leaving unavailable)
  | .writing inode [], .works _ => (d, .linking inode)
  | .writing inode (b :: rest), .works more =>
    (d.append inode ((b :: rest).take (more + 1)), .writing inode ((b :: rest).drop (more + 1)))
  | .linking _, .fails => (d, .leaving unavailable)
  | .linking _, .works _ =>
    match d.link job.tmp job.name with
    | .ok d => (d, .leaving (.ok ()))
    | .error .alreadyExists => (d, .collided)
    | .error .notFound => (d, .leaving unavailable)
  | .collided, .fails => (d, .leaving unavailable)
  | .collided, .works _ =>
    match d.entries[job.name]? with
    | some (.file inode) => (d, .comparing inode)
    | _ => (d, .leaving unavailable)
  | .comparing _, .fails => (d, .leaving unavailable)
  | .comparing inode, .works _ =>
    match job.canonical with
    | .ok bytes =>
      (d, .leaving (if sameFile (d.contents inode) bytes then .ok () else unavailable))
    | .error e => (d, .leaving (.error e))
  -- whether the name is removed is not asked
  | .leaving result, .fails => (d, .done result)
  | .leaving result, .works _ => (d.unlink job.tmp, .done result)
  | .done result, _ => (d, .done result)

end WritePhase

/-- A directory and the runs of `write_edge` on it. -/
structure EdgeWrites (ι : Type) where
  directory : Directory UInt8
  phase : ι → WritePhase

namespace EdgeWrites
variable {ι : Type} [DecidableEq ι]

def start (d : Directory UInt8) : EdgeWrites ι := ⟨d, fun _ => .start⟩

def machine (jobs : ι → EdgeJob) : Machine (EdgeWrites ι) (ι × SystemCall) Unit where
  step w turn :=
    let result := (w.phase turn.1).step (jobs turn.1) w.directory turn.2
    (⟨result.1, Function.update w.phase turn.1 result.2⟩, ())

end EdgeWrites

/-! ## One call -/

section Calls
variable {job : EdgeJob} {d₀ d d' : Directory UInt8} {p p' : WritePhase} {i : ℕ} {rest : Bytes}
  {call : SystemCall}

/-- The temporary file is nobody else's, and with the rest it is complete. -/
structure EdgeJob.Owns (job : EdgeJob) (d₀ d : Directory UInt8) (i : ℕ) (rest : Bytes) : Prop where
  tmp : d.entries[job.tmp]? = some (.file i)
  fresh : d₀.next ≤ i
  alone : ∀ n : String, d.entries[n]? = some (.file i) → n = job.tmp
  complete : job.canonical = .ok (d.contents i ++ rest)

def EdgeJob.Stored (job : EdgeJob) (d : Directory UInt8) : Prop :=
  ∃ bytes, job.canonical = .ok bytes ∧ d.read job.name = some bytes

/-- What is true of the directory where a run stands. -/
def WritePhase.Fits (job : EdgeJob) (d₀ d : Directory UInt8) : WritePhase → Prop
  | .start => True
  | .writing i rest => job.Owns d₀ d i rest
  | .linking i => job.Owns d₀ d i []
  | .collided => job.tmp ∈ d.entries
  | .comparing i => job.tmp ∈ d.entries ∧ d.entries[job.name]? = some (.file i)
  | .leaving result => job.tmp ∈ d.entries ∧ (result = .ok () → job.Stored d)
  | .done result => result = .ok () → job.Stored d

theorem WritePhase.Fits.mem (h : p.Fits job d₀ d) (hp : p.Holds) : job.tmp ∈ d.entries := by
  cases p with
  | start => exact hp.elim
  | writing i rest => exact (mem_iff_lookup _ _).mpr ⟨_, h.tmp⟩
  | linking i => exact (mem_iff_lookup _ _).mpr ⟨_, h.tmp⟩
  | collided => exact h
  | comparing i => exact h.1
  | leaving result => exact h.1
  | done result => exact hp.elim

def EdgeJob.Publishes (job : EdgeJob) (d d' : Directory UInt8) : Prop :=
  ∀ (n : String) e, n ≠ job.tmp → d'.entries[n]? = some e → d.entries[n]? = some e ∨
    n = job.name ∧ n ∉ d.entries ∧ ∃ bytes, job.canonical = .ok bytes ∧ d'.read n = some bytes

structure Called (job : EdgeJob) (d₀ d : Directory UInt8) (p : WritePhase)
    (r : Directory UInt8 × WritePhase) : Prop where
  change : Directory.Change job.tmp d r.1
  sound : r.1.Sound
  fits : r.2.Fits job d₀ r.1
  publishes : job.Publishes d r.1
  frozen : ∀ i < d₀.next, r.1.contents i = d.contents i
  holds : r.2.Holds → p.Holds ∨ job.tmp ∉ d.entries
  idle : r.1 = d ∨ p.Holds ∨ job.tmp ∉ d.entries

theorem Called.same (hd : d.Sound) (hfits : p'.Fits job d₀ d) (hholds : p'.Holds → p.Holds) :
    Called job d₀ d p (d, p') where
  change := .refl job.tmp d
  sound := hd
  fits := hfits
  publishes _ _ _ he := .inl he
  frozen _ _ := rfl
  holds h := .inl (hholds h)
  idle := .inl rfl

theorem not_ok_unavailable : ¬WritePhase.unavailable = .ok () := nofun

theorem sameFile_iff {previous canonical : Bytes} :
    WritePhase.sameFile previous canonical = true → previous = canonical := by
  unfold WritePhase.sameFile
  intro h
  obtain ⟨hlength, htake⟩ := Bool.and_eq_true_iff.mp h
  have hlength := eq_of_beq hlength
  have htake := eq_of_beq htake
  have hlimit := congrArg List.length htake
  rw [List.length_take] at hlimit
  rwa [List.take_of_length_le (by omega)] at htake

theorem called_create (hd : d.Sound) (hgrown : d₀.next ≤ d.next) (hnew : job.tmp ∉ d.entries)
    (hfits : ∀ d' : Directory UInt8, d'.entries[job.tmp]? = some (.file d.next) →
      (∀ n : String, d'.entries[n]? = some (.file d.next) → n = job.tmp) →
      d'.contents d.next = [] → p'.Fits job d₀ d') :
    Called job d₀ d .start
      (⟨d.entries.insert job.tmp (.file d.next), Function.update d.contents d.next [], d.next + 1⟩,
        p') where
  change := .create hd job.tmp
  sound := by
    refine (Directory.Change.create hd job.tmp).sound hd fun n i hi hfresh => ?_
    rw [lookup_insert] at hi
    split_ifs at hi
    · exact (DirectoryEntry.file.inj (Option.some.inj hi)).symm ▸ Nat.lt_succ_self _
    · exact absurd (hd.bound n i hi) hfresh.not_gt
  fits := by
    refine hfits _ ?_ (fun n hn => ?_) (Function.update_self _ _ _)
    · rw [lookup_insert, if_pos rfl]
    · rw [lookup_insert] at hn
      by_contra hne
      rw [if_neg hne] at hn
      exact (hd.bound n _ hn).false
  publishes n e hn he := by
    rw [lookup_insert, if_neg hn] at he
    exact .inl he
  frozen i hi := Function.update_of_ne (hi.trans_le hgrown).ne _ _
  holds _ := .inr hnew
  idle := .inr (.inr hnew)

theorem called_append (hd : d.Sound) (howns : job.Owns d₀ d i rest) (more : ℕ) :
    Called job d₀ d (.writing i rest)
      (d.append i (rest.take (more + 1)), .writing i (rest.drop (more + 1))) where
  change := .append howns.alone _
  sound := ⟨hd.bound⟩
  fits := by
    refine ⟨howns.tmp, howns.fresh, howns.alone, ?_⟩
    have hcontents : (d.append i (rest.take (more + 1))).contents i =
        d.contents i ++ rest.take (more + 1) := Function.update_self _ _ _
    dsimp only
    rw [howns.complete, hcontents, List.append_assoc, List.take_append_drop]
  publishes _ _ _ he := .inl he
  frozen j hj := Function.update_of_ne (hj.trans_le howns.fresh).ne _ _
  holds _ := .inl trivial
  idle := .inr (.inl trivial)

theorem called_link (hd : d.Sound) (howns : job.Owns d₀ d i [])
    (h : d.link job.tmp job.name = .ok d') :
    Called job d₀ d (.linking i) (d', .leaving (.ok ())) := by
  obtain ⟨e, he, hnew, rfl⟩ := Directory.link_eq_ok.mp h
  obtain rfl := Option.some.inj (howns.tmp.symm.trans he)
  have hread : Directory.read { d with entries := d.entries.insert job.name (.file i) } job.name =
      some (d.contents i) :=
    Directory.read_eq_some.mpr ⟨i, by rw [lookup_insert, if_pos rfl], rfl⟩
  have hcomplete : job.canonical = .ok (d.contents i) := by
    rw [howns.complete, List.append_nil]
  refine ⟨.link he hnew, ⟨fun n j hj => ?_⟩, ⟨?_, fun _ => ⟨_, hcomplete, hread⟩⟩, fun n e hn he' => ?_,
    fun _ _ => rfl, fun _ => .inl trivial, .inr (.inl trivial)⟩
  · rw [lookup_insert] at hj
    split_ifs at hj
    · exact hd.bound _ _ (he.trans hj)
    · exact hd.bound n j hj
  · exact (mem_insert_iff _ _ _ _).mpr (.inr ((mem_iff_lookup _ _).mpr ⟨_, he⟩))
  · by_cases hname : n = job.name
    · subst hname
      exact .inr ⟨rfl, hnew, _, hcomplete, hread⟩
    · rw [lookup_insert, if_neg hname] at he'
      exact .inl he'

theorem called_unlink (hnames : job.tmp ≠ job.name) (hd : d.Sound) {result : Except SecureError Unit}
    (hfits : (WritePhase.leaving result).Fits job d₀ d) :
    Called job d₀ d (.leaving result) (d.unlink job.tmp, .done result) where
  change := .unlink job.tmp d
  sound := by
    refine (Directory.Change.unlink job.tmp d).sound hd fun n i hi hfresh => ?_
    rw [Directory.unlink, lookup_erase] at hi
    split_ifs at hi
    exact absurd (hd.bound n i hi) hfresh.not_gt
  fits hok := by
    obtain ⟨bytes, hcanonical, hread⟩ := hfits.2 hok
    exact ⟨bytes, hcanonical, (Directory.Change.unlink job.tmp d).read hnames.symm hread⟩
  publishes n e hn he := by
    rw [Directory.unlink, lookup_erase, if_neg hn] at he
    exact .inl he
  frozen _ _ := rfl
  holds h := h.elim
  idle := .inr (.inl trivial)

/-- Every call leaves the directory to the others and moves on to where the run stands then. -/
theorem step_called (hnames : job.tmp ≠ job.name) (hd : d.Sound) (hgrown : d₀.next ≤ d.next)
    (hfits : p.Fits job d₀ d) (call : SystemCall) : Called job d₀ d p (p.step job d call) := by
  have hfailed (hp : p.Holds) : Called job d₀ d p (d, .leaving WritePhase.unavailable) :=
    .same hd ⟨hfits.mem hp, nofun⟩ fun _ => hp
  cases p with
  | start =>
    cases call with
    | fails => exact .same hd nofun id
    | works more =>
      simp only [WritePhase.step]
      cases hcreate : d.create job.tmp with
      | none => exact .same hd nofun id
      | some r =>
        obtain ⟨hnew, rfl⟩ := Directory.create_eq_some.mp hcreate
        cases hcanonical : job.canonical with
        | error e => exact called_create hd hgrown hnew fun _ _ _ _ => nofun
        | ok bytes =>
          refine called_create hd hgrown hnew fun d' htmp halone hempty => ⟨htmp, hgrown, halone, ?_⟩
          rw [hcanonical, hempty, List.nil_append]
  | writing i rest =>
    cases call with
    | fails => exact hfailed trivial
    | works more =>
      cases rest with
      | nil => exact .same hd hfits id
      | cons b rest => exact called_append hd hfits more
  | linking i =>
    cases call with
    | fails => exact hfailed trivial
    | works more =>
      simp only [WritePhase.step]
      cases hlink : d.link job.tmp job.name with
      | ok d' => exact called_link hd hfits hlink
      | error e =>
        cases e with
        | alreadyExists => exact .same hd (hfits.mem trivial) fun _ => trivial
        | notFound => exact hfailed trivial
  | collided =>
    cases call with
    | fails => exact hfailed trivial
    | works more =>
      simp only [WritePhase.step]
      cases hentry : d.entries[job.name]? with
      | none => exact hfailed trivial
      | some e =>
        cases e with
        | file i => exact .same hd ⟨hfits, hentry⟩ fun _ => trivial
        | other => exact hfailed trivial
  | comparing i =>
    cases call with
    | fails => exact hfailed trivial
    | works more =>
      simp only [WritePhase.step]
      cases hcanonical : job.canonical with
      | error e => exact .same hd ⟨hfits.1, nofun⟩ fun _ => trivial
      | ok bytes =>
        refine .same hd ⟨hfits.1, fun hok => ⟨bytes, hcanonical, ?_⟩⟩ fun _ => trivial
        have hsame : WritePhase.sameFile (d.contents i) bytes = true := by
          by_contra hdiffers
          rw [if_neg hdiffers] at hok
          exact not_ok_unavailable hok
        exact Directory.read_eq_some.mpr ⟨i, hfits.2, sameFile_iff hsame⟩
  | leaving result =>
    cases call with
    | fails => exact .same hd hfits.2 fun h => h.elim
    | works more => exact called_unlink hnames hd hfits
  | done result => exact .same hd hfits id

end Calls

/-! ## Any order of calls -/

namespace EdgeWrites
variable {ι : Type} [DecidableEq ι] {jobs : ι → EdgeJob} {d₀ : Directory UInt8} {w : EdgeWrites ι}

structure Inv (jobs : ι → EdgeJob) (d₀ : Directory UInt8) (w : EdgeWrites ι) : Prop where
  sound : w.directory.Sound
  grown : d₀.next ≤ w.directory.next
  fits : ∀ k, (w.phase k).Fits (jobs k) d₀ w.directory
  alone : ∀ k k', (w.phase k).Holds → (w.phase k').Holds → (jobs k).tmp = (jobs k').tmp → k = k'
  frozen : ∀ i < d₀.next, w.directory.contents i = d₀.contents i
  published : ∀ (n : String) e, (∀ k, n ≠ (jobs k).tmp) → w.directory.entries[n]? = some e →
    d₀.entries[n]? = some e ∨ n ∉ d₀.entries ∧
      ∃ k bytes, (jobs k).name = n ∧ (jobs k).canonical = .ok bytes ∧ w.directory.read n = some bytes
  kept : ∀ n : String, (∀ k, n ≠ (jobs k).tmp) → n ∈ d₀.entries → n ∈ w.directory.entries

omit [DecidableEq ι] in
theorem Inv.start (hd₀ : d₀.Sound) : Inv jobs d₀ (start d₀) where
  sound := hd₀
  grown := le_rfl
  fits _ := trivial
  alone _ _ h := h.elim
  frozen _ _ := rfl
  published _ _ _ he := .inl he
  kept _ _ h := h

/-- What is true where another run stands stays true. -/
theorem fits_of_change {job : EdgeJob} {t : String} {d d' : Directory UInt8} {p : WritePhase}
    (hd : d.Sound) (hchange : Directory.Change t d d') (hname : job.name ≠ t)
    (htmp : p.Holds → job.tmp ≠ t) (h : p.Fits job d₀ d) : p.Fits job d₀ d' := by
  have howns {i : ℕ} {rest : Bytes} (ht : job.tmp ≠ t) (h : job.Owns d₀ d i rest) :
      job.Owns d₀ d' i rest := by
    refine ⟨hchange.entries _ _ ht h.tmp, h.fresh, fun n hn => ?_, ?_⟩
    · rcases hchange.files n i hn with hold | hfresh | hown
      · exact h.alone n hold
      · exact absurd (hd.bound _ _ h.tmp) hfresh.not_gt
      · exact absurd (h.alone t hown).symm ht
    · rw [hchange.contents _ i ht h.tmp]
      exact h.complete
  have hstored (h : job.Stored d) : job.Stored d' := by
    obtain ⟨bytes, hcanonical, hread⟩ := h
    exact ⟨bytes, hcanonical, hchange.read hname hread⟩
  cases p with
  | start => trivial
  | writing i rest => exact howns (htmp trivial) h
  | linking i => exact howns (htmp trivial) h
  | collided => exact hchange.mem (htmp trivial) h
  | comparing i => exact ⟨hchange.mem (htmp trivial) h.1, hchange.entries _ _ hname h.2⟩
  | leaving result => exact ⟨hchange.mem (htmp trivial) h.1, fun hok => hstored (h.2 hok)⟩
  | done result => exact fun hok => hstored (h hok)

theorem Inv.called {w' : EdgeWrites ι} {k : ι} (hnames : ∀ k k', (jobs k).tmp ≠ (jobs k').name)
    (h : Inv jobs d₀ w)
    (hcalled : Called (jobs k) d₀ w.directory (w.phase k) (w'.directory, w'.phase k))
    (hothers : ∀ c, c ≠ k → w'.phase c = w.phase c) : Inv jobs d₀ w' := by
  obtain ⟨hchange, hsound, hfits, hpublishes, hfrozen, hholds, hidle⟩ := hcalled
  dsimp only at hchange hsound hfits hpublishes hfrozen hholds hidle
  -- nobody else uses a temporary name that is in use, or was free
  have hdistinct {c : ι} (hc : c ≠ k) (hheld : (w'.phase c).Holds)
      (hk : (w.phase k).Holds ∨ (jobs k).tmp ∉ w.directory.entries) :
      (jobs c).tmp ≠ (jobs k).tmp := by
    rw [hothers c hc] at hheld
    intro heq
    rcases hk with hk | hfree
    · exact hc (h.alone c k hheld hk heq)
    · exact hfree (heq ▸ (h.fits c).mem hheld)
  refine ⟨hsound, h.grown.trans hchange.next, fun c => ?_, fun a b ha hb heq => ?_,
    fun i hi => (hfrozen i hi).trans (h.frozen i hi), fun n e hn he => ?_, fun n hn hmem => ?_⟩
  · by_cases hc : c = k
    · rw [hc]
      exact hfits
    · have hstands := h.fits c
      rw [← hothers c hc] at hstands
      rcases hidle with hsame | hidle
      · rwa [hsame]
      · exact fits_of_change h.sound hchange (hnames k c).symm
          (fun hheld => hdistinct hc hheld hidle) hstands
  · by_cases hak : a = k
    · by_cases hbk : b = k
      · rw [hak, hbk]
      · rw [hak] at ha heq
        exact absurd heq.symm (hdistinct hbk hb (hholds ha))
    · by_cases hbk : b = k
      · rw [hbk] at hb heq
        exact absurd heq (hdistinct hak ha (hholds hb))
      · rw [hothers a hak] at ha
        rw [hothers b hbk] at hb
        exact h.alone a b ha hb heq
  · rcases hpublishes n e (hn k) he with hold | ⟨hname, hnew, bytes, hcanonical, hread⟩
    · refine (h.published n e hn hold).imp_right fun ⟨hfree, c, bytes, hname, hcanonical, hread⟩ => ?_
      exact ⟨hfree, c, bytes, hname, hcanonical, hchange.read (hn k) hread⟩
    · exact .inr ⟨fun hmem => hnew (h.kept n hn hmem), k, bytes, hname.symm, hcanonical, hread⟩
  · exact hchange.mem (hn k) (h.kept n hn hmem)

theorem Inv.step (hnames : ∀ k k', (jobs k).tmp ≠ (jobs k').name) (h : Inv jobs d₀ w)
    (turn : ι × SystemCall) :
    Inv jobs d₀ ((machine jobs).step w turn).1 ∧
      Directory.Change (jobs turn.1).tmp w.directory ((machine jobs).step w turn).1.directory := by
  have hcalled := step_called (hnames turn.1 turn.1) h.sound h.grown (h.fits turn.1) turn.2
  have hphase : ((machine jobs).step w turn).1.phase turn.1 =
      ((w.phase turn.1).step (jobs turn.1) w.directory turn.2).2 := Function.update_self _ _ _
  refine ⟨h.called (k := turn.1) hnames ?_ fun c hc => Function.update_of_ne hc _ _, hcalled.change⟩
  rw [hphase]
  exact hcalled

def Keeps (jobs : ι → EdgeJob) (w w' : EdgeWrites ι) : Prop :=
  ∀ (n : String) bytes, (∀ k, n ≠ (jobs k).tmp) → w.directory.read n = some bytes →
    w'.directory.read n = some bytes

theorem Inv.exec (hnames : ∀ k k', (jobs k).tmp ≠ (jobs k').name) (h : Inv jobs d₀ w)
    (turns : List (ι × SystemCall)) : Inv jobs d₀ ((machine jobs).exec w turns) :=
  Machine.exec_invariant (fun _ turn hw => (hw.step hnames turn).1) h turns

theorem Inv.keeps (hnames : ∀ k k', (jobs k).tmp ≠ (jobs k').name) (h : Inv jobs d₀ w)
    (turns : List (ι × SystemCall)) : Keeps jobs w ((machine jobs).exec w turns) :=
  Machine.exec_relation (P := Inv jobs d₀) (fun _ _ _ _ hread => hread)
    (fun _ _ _ hab hbc n bytes hn hread => hbc n bytes hn (hab n bytes hn hread))
    (fun _ turn hw => ⟨(hw.step hnames turn).1,
      fun _ _ hn hread => (hw.step hnames turn).2.read (hn turn.1) hread⟩) h turns

omit [DecidableEq ι] in
/-- What a reader finds was there before, unchanged, or is all that some run writes. -/
theorem Inv.read (h : Inv jobs d₀ w) (hd₀ : d₀.Sound) {n : String} {bytes : Bytes}
    (hn : ∀ k, n ≠ (jobs k).tmp) (hread : w.directory.read n = some bytes) :
    d₀.read n = some bytes ∨
      n ∉ d₀.entries ∧ ∃ k, (jobs k).name = n ∧ (jobs k).canonical = .ok bytes := by
  obtain ⟨i, hi, hcontents⟩ := Directory.read_eq_some.mp hread
  rcases h.published n _ hn hi with hold | ⟨hfree, k, bytes', hname, hcanonical, hread'⟩
  · refine .inl (Directory.read_eq_some.mpr ⟨i, hold, ?_⟩)
    rw [← h.frozen i (hd₀.bound n i hold), hcontents]
  · obtain rfl := Option.some.inj (hread'.symm.trans hread)
    exact .inr ⟨hfree, k, hname, hcanonical⟩

end EdgeWrites

/-! ## Every run ends -/

def EdgeJob.size (job : EdgeJob) : ℕ :=
  match job.canonical with
  | .ok bytes => bytes.length
  | .error _ => 0

def WritePhase.remaining (job : EdgeJob) : WritePhase → ℕ
  | .start => job.size + 6
  | .writing _ rest => rest.length + 5
  | .linking _ => 4
  | .collided => 3
  | .comparing _ => 2
  | .leaving _ => 1
  | .done _ => 0

theorem WritePhase.remaining_step (job : EdgeJob) (d : Directory UInt8) (p : WritePhase)
    (call : SystemCall) : (p.step job d call).2.remaining job ≤ p.remaining job - 1 := by
  cases p with
  | start =>
    cases call with
    | fails => exact Nat.zero_le _
    | works more =>
      simp only [step, remaining, EdgeJob.size]
      cases d.create job.tmp with
      | none => exact Nat.zero_le _
      | some r =>
        cases job.canonical with
        | error e => exact Nat.zero_le _
        | ok bytes => exact le_rfl
  | writing i rest =>
    cases call with
    | fails =>
      simp only [step, remaining]
      omega
    | works more =>
      cases rest with
      | nil => exact le_rfl
      | cons b rest =>
        simp only [step, remaining, List.length_drop, List.length_cons]
        omega
  | linking i =>
    cases call with
    | fails => exact (by decide : 1 ≤ 3)
    | works more =>
      simp only [step]
      cases d.link job.tmp job.name with
      | ok d => exact (by decide : 1 ≤ 3)
      | error e => cases e <;> simp [remaining]
  | collided =>
    cases call with
    | fails => exact (by decide : 1 ≤ 2)
    | works more =>
      simp only [step]
      cases d.entries[job.name]? with
      | none => exact (by decide : 1 ≤ 2)
      | some e => cases e <;> simp [remaining]
  | comparing i =>
    cases call with
    | fails => exact le_rfl
    | works more =>
      simp only [step]
      cases job.canonical <;> exact le_rfl
  | leaving result => cases call <;> exact le_rfl
  | done result => cases call <;> exact le_rfl

theorem WritePhase.done_of_remaining {job : EdgeJob} {p : WritePhase} (h : p.remaining job = 0) :
    ∃ result, p = .done result := by
  cases p with
  | done result => exact ⟨result, rfl⟩
  | start => simp [remaining] at h
  | writing i rest => simp [remaining] at h
  | linking i => simp [remaining] at h
  | collided => simp [remaining] at h
  | comparing i => simp [remaining] at h
  | leaving result => simp [remaining] at h

namespace EdgeWrites
variable {ι : Type} [DecidableEq ι] {jobs : ι → EdgeJob}

variable (jobs) in
/-- The turns of the others do not hold a run up. -/
theorem remaining_exec (w : EdgeWrites ι) (k : ι) (turns : List (ι × SystemCall)) :
    (((machine jobs).exec w turns).phase k).remaining (jobs k) ≤
      (w.phase k).remaining (jobs k) - turns.countP fun turn => turn.1 = k := by
  induction turns generalizing w with
  | nil => exact le_rfl
  | cons turn turns ih =>
    have hrest := ih ((machine jobs).step w turn).1
    rw [Machine.exec, List.countP_cons]
    have hphase : ((machine jobs).step w turn).1.phase = Function.update w.phase turn.1
        ((w.phase turn.1).step (jobs turn.1) w.directory turn.2).2 := rfl
    rw [hphase] at hrest
    by_cases hk : turn.1 = k
    · subst hk
      rw [Function.update_self] at hrest
      have hstep := WritePhase.remaining_step (jobs turn.1) w.directory (w.phase turn.1) turn.2
      simp only [decide_true, if_true]
      omega
    · rw [Function.update_of_ne (Ne.symm hk)] at hrest
      simpa [hk] using hrest

theorem done_exec {w : EdgeWrites ι} {k : ι} {result : Except SecureError Unit}
    (h : w.phase k = .done result) (turns : List (ι × SystemCall)) :
    ((machine jobs).exec w turns).phase k = .done result := by
  refine Machine.exec_invariant (P := fun w : EdgeWrites ι => w.phase k = .done result)
    (fun w turn hw => ?_) h turns
  by_cases hk : turn.1 = k
  · subst hk
    refine (Function.update_self _ _ _).trans ?_
    rw [hw]
    rfl
  · exact (Function.update_of_ne (Ne.symm hk) _ _).trans hw

variable (jobs) in
/-- The turns of one run are its calls. -/
theorem exec_own (w : EdgeWrites ι) (k : ι) (calls : List SystemCall) :
    (machine jobs).exec w (calls.map fun call => (k, call)) =
      let r := calls.foldl (fun r call => r.2.step (jobs k) r.1 call) (w.directory, w.phase k)
      ⟨r.1, Function.update w.phase k r.2⟩ := by
  induction calls generalizing w with
  | nil => simp
  | cons call calls ih =>
    rw [List.map_cons, Machine.exec, ih]
    simp [machine]

theorem step_linked {job : EdgeJob} {d : Directory UInt8} {i : ℕ} {e : DirectoryEntry}
    (htmp : d.entries[job.tmp]? = some e) (hname : job.name ∉ d.entries) (more : ℕ) :
    (WritePhase.linking i).step job d (.works more) =
      ({ d with entries := d.entries.insert job.name e }, .leaving (.ok ())) := by
  have hlink := Directory.link_eq_ok.mpr ⟨e, htmp, hname, rfl⟩
  simp only [WritePhase.step, hlink]

/-- A run on its own succeeds where both of its names are free. -/
theorem exec_alone {w : EdgeWrites ι} {k : ι} {bytes : Bytes} (hphase : w.phase k = .start)
    (hcanonical : (jobs k).canonical = .ok bytes) (hnames : (jobs k).tmp ≠ (jobs k).name)
    (htmp : (jobs k).tmp ∉ w.directory.entries) (hname : (jobs k).name ∉ w.directory.entries) :
    let last := (machine jobs).exec w ((List.replicate 5 (.works bytes.length)).map fun call =>
      (k, call))
    last.phase = Function.update w.phase k (.done (.ok ())) ∧
      ∀ n, n ≠ (jobs k).tmp → n ≠ (jobs k).name → (n ∈ last.directory.entries ↔
        n ∈ w.directory.entries) := by
  have hcreate := Directory.create_eq_some.mpr ⟨htmp, rfl⟩
  have hown : (w.directory.entries.insert (jobs k).tmp (.file w.directory.next))[(jobs k).tmp]? =
      some (.file w.directory.next) := by rw [lookup_insert, if_pos rfl]
  have hfree : (jobs k).name ∉ w.directory.entries.insert (jobs k).tmp (.file w.directory.next) := by
    rw [mem_insert_iff, not_or]
    exact ⟨hnames.symm, hname⟩
  have hkept (n : String) (ht : n ≠ (jobs k).tmp) (hn : n ≠ (jobs k).name) :
      n ∈ ((w.directory.entries.insert (jobs k).tmp (.file w.directory.next)).insert (jobs k).name
        (.file w.directory.next)).erase (jobs k).tmp ↔ n ∈ w.directory.entries := by
    rw [mem_iff_lookup, mem_iff_lookup, lookup_erase, if_neg ht, lookup_insert, if_neg hn,
      lookup_insert, if_neg ht]
  have hfive (call : SystemCall) : List.replicate 5 call = [call, call, call, call, call] := rfl
  rw [exec_own, hphase, hfive]
  have hopened : WritePhase.start.step (jobs k) w.directory (.works bytes.length) =
      (⟨w.directory.entries.insert (jobs k).tmp (.file w.directory.next),
        Function.update w.directory.contents w.directory.next [], w.directory.next + 1⟩,
        .writing w.directory.next bytes) := by
    simp only [WritePhase.step, hcreate, hcanonical]
  simp only [List.foldl_cons, List.foldl_nil, hopened]
  -- an empty file is complete at once, so that the last call finds nothing to do
  cases bytes with
  | nil =>
    rw [WritePhase.step, step_linked hown hfree]
    exact ⟨rfl, hkept⟩
  | cons b rest =>
    rw [WritePhase.step, List.drop_eq_nil_of_le (Nat.le_succ _), WritePhase.step,
      step_linked hown hfree]
    exact ⟨rfl, hkept⟩

end EdgeWrites
end Hacp.Secure
