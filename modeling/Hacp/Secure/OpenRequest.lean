import Hacp.Secure.NoDowngrade

/-!
# What an open request does to the sessions

An open request gathers what its files deliver, and reads the control state again before
each message and each observation. While it goes on, every active session has moved by
what was gathered of it, and what was aborted is over; an aborted session still has
entries in the answer exactly where a refused control state ended it after it delivered.
-/
namespace Hacp.Secure
open Lib V2 Std SessionManager Endpoint

variable {F : Foreign} {K : KeyExchange} {C : Crates} {context sid i : String}

/-! ## Identifiers -/

namespace Guardian

def Has (g : Guardian) (sid : String) : Prop :=
  g.active[sid]? ≠ none ∨ g.endpoint.window sid ≠ none

variable {g : Guardian}

theorem Has.of_active {s : Session} (h : g.active[sid]? = some s) : g.Has sid := by
  refine .inl ?_
  rw [h]
  nofun

theorem not_has (h : ¬g.Has sid) : g.active[sid]? = none ∧ g.endpoint.window sid = none := by
  unfold Has at h
  simpa only [not_or, not_not] using h

theorem has_reports {result : Endpoint × ReceiveReport} (hresult : Reports sid g.endpoint result)
    (h : (g.setEndpoint result.1).Has i) : i = sid ∨ g.Has i := by
  rcases h with hactive | hwindow
  · obtain ⟨t, ht⟩ := Option.ne_none_iff_exists'.mp hactive
    obtain ⟨s, hs, -⟩ := hresult.dwindles i t ht
    exact .inr (.of_active hs)
  · obtain ⟨w, hw⟩ := Option.ne_none_iff_exists'.mp hwindow
    refine (hresult.windows i w hw).imp_right fun hold => .inr ?_
    rw [hold]
    nofun

theorem has_close (h : (g.setEndpoint (g.endpoint.close sid).1).Has i) : g.Has i := by
  rcases h with hactive | hwindow
  · obtain ⟨t, ht⟩ := Option.ne_none_iff_exists'.mp hactive
    obtain ⟨s, hs, -⟩ := Dwindles.close g.endpoint sid i t ht
    exact .of_active hs
  · refine .inr fun hnone => hwindow ?_
    by_cases hi : i = sid
    · rw [hi]
      exact (gone_close sid g.endpoint).window
    · exact ((Frame.close sid g.endpoint).window i hi).trans hnone

theorem has_setParty {q : Party} {new : Option String} (hq : Shaken context g.party q new)
    (h : (g.setParty q).Has i) : g.Has i ∨ new = some i := by
  rcases h with hactive | hwindow
  · obtain ⟨t, ht⟩ := Option.ne_none_iff_exists'.mp hactive
    rcases hq.active i t ht with hs | ⟨hnew, -⟩
    · exact .inl (.of_active hs)
    · exact .inr hnew
  · exact .inl (.inr hwindow)

end Guardian

/-- The identifiers established by a request are new to its guardian and differ from each other. -/
def Fresh (g₀ : Guardian) (established : List String) : Prop :=
  established.Nodup ∧ ∀ sid ∈ established, ¬g₀.Has sid

theorem Fresh.of_append {g₀ : Guardian} {l r : List String} (h : Fresh g₀ (l ++ r)) :
    Fresh g₀ l :=
  ⟨h.1.of_append_left, fun sid hsid => h.2 sid (List.mem_append_left r hsid)⟩

/-! ## What was gathered -/

namespace Gathered

def deliveriesOf (b : Gathered) (sid : String) : List Delivery :=
  b.delivered.filter fun d => d.sid = sid

/-- A session is listed as aborted and has an entry among the deliveries. -/
def Exposed (i : String) (b : Gathered) : Prop := (∃ p ∈ b.aborted, p.1 = i) ∧ b.deliveriesOf i ≠ []

variable {b : Gathered} {report : ReceiveReport} {file k : String}

theorem deliveriesOf_eq_nil : b.deliveriesOf k = [] ↔ ∀ d ∈ b.delivered, d.sid ≠ k := by
  simp [deliveriesOf]

/-- A report about a session leaves the entries of the others. -/
theorem deliveriesOf_other (hreport : ∀ d ∈ report.delivered, d.sid = sid) (hk : k ≠ sid) :
    (b.appendReport report file sid).deliveriesOf k = b.deliveriesOf k := by
  have hnone : report.delivered.filter (fun d => d.sid = k) = [] := by
    rw [List.filter_eq_nil_iff]
    intro d hd
    rw [hreport d hd]
    simpa using hk.symm
  unfold appendReport deliveriesOf
  cases report.aborted with
  | none =>
    dsimp only
    rw [List.filter_append, hnone, List.append_nil]
  | some e =>
    dsimp only
    rw [List.filter_filter]
    have hsame : (b.delivered ++ report.delivered).filter
          (fun d => decide (d.sid = k) && decide (d.sid ≠ sid)) =
        (b.delivered ++ report.delivered).filter fun d => d.sid = k := by
      refine List.filter_congr fun d _ => ?_
      by_cases hd : d.sid = k
      · simp [hd, hk]
      · simp [hd]
    rw [hsame, List.filter_append, hnone, List.append_nil]

theorem deliveriesOf_reported (hreport : ∀ d ∈ report.delivered, d.sid = sid)
    (hab : report.aborted = none) :
    (b.appendReport report file sid).deliveriesOf sid = b.deliveriesOf sid ++ report.delivered := by
  have hall : report.delivered.filter (fun d => d.sid = sid) = report.delivered :=
    List.filter_eq_self.mpr fun d hd => decide_eq_true (hreport d hd)
  unfold appendReport deliveriesOf
  rw [hab]
  dsimp only
  rw [List.filter_append, hall]

theorem deliveriesOf_purged {e : SecureError} (hab : report.aborted = some e) :
    (b.appendReport report file sid).deliveriesOf sid = [] := by
  rw [deliveriesOf_eq_nil]
  intro d hd
  unfold appendReport at hd
  rw [hab] at hd
  exact of_decide_eq_true (List.mem_filter.mp hd).2

theorem not_exposed (h : ∀ p ∈ b.aborted, p.1 ≠ i) : ¬b.Exposed i := by
  rintro ⟨⟨p, hp, hi⟩, -⟩
  exact h p hp hi

end Gathered

/-! ## Tracking the sessions of a request -/

/-- The request knows the identifier from its guardian or has established it. -/
def Seen (g₀ : Guardian) (k : Intake) (sid : String) : Prop := g₀.Has sid ∨ sid ∈ k.established

/-- The request has moved every active session by what it gathered of it, and what it aborted is
over. -/
structure Tracked (g₀ : Guardian) (k : Intake) : Prop where
  sane : Sane k.guardian
  known : ∀ sid, k.guardian.Has sid → Seen g₀ k sid
  delivered : ∀ d ∈ k.gathered.delivered, d.sid = "" ∨ Seen g₀ k d.sid
  aborted : ∀ p ∈ k.gathered.aborted, p.1 ≠ "" ∧ Seen g₀ k p.1 ∧ k.guardian.active[p.1]? = none
  position : ∀ (sid : String) (s : Session), k.guardian.active[sid]? = some s →
    (k.guardian.endpoint.windowOf sid).deliveryNext.toNat =
      (g₀.endpoint.windowOf sid).deliveryNext.toNat + (k.gathered.deliveriesOf sid).length

/-- The message of an active session is handled while the contract view is refused, after the
session delivered something. -/
def Unpurged (F : Foreign) (C : Crates) (context i : String) (t : Intake × EdgeFile) : Prop :=
  ∃ env e, messageOf F C context t.1.guardian t.2 = some (i, env) ∧
    contractView F context t.2.session = .error e ∧ ∃ d ∈ t.1.gathered.delivered, d.sid = i

namespace Tracked
variable {g₀ : Guardian} {k k' : Intake} {f : EdgeFile}

theorem start (h : Sane g₀) : Tracked g₀ (.start g₀) where
  sane := h
  known _ hhas := .inl hhas
  delivered _ hd := absurd hd List.not_mem_nil
  aborted _ hp := absurd hp List.not_mem_nil
  position _ _ _ := rfl

theorem not_aborted (h : Tracked g₀ k) {s : Session} (hs : k.guardian.active[sid]? = some s) :
    ∀ p ∈ k.gathered.aborted, p.1 ≠ sid := by
  rintro p hp rfl
  rw [(h.aborted p hp).2.2] at hs
  cases hs

/-- The transport reports on a session: nothing is exposed that was not. A session that is over
has nothing to report. -/
theorem report (h : Tracked g₀ k) {result : Endpoint × ReceiveReport}
    (hresult : Reports sid k.guardian.endpoint result) (hseen : Seen g₀ k sid) (hsid : sid ≠ "")
    (hlive : (∃ s, k.guardian.active[sid]? = some s) ∨
      result.2.delivered = [] ∧ result.2.aborted = none) (file : String) :
    Tracked g₀ (k.report result file sid) ∧
      ∀ i, (k.report result file sid).gathered.Exposed i ↔ k.gathered.Exposed i := by
  refine ⟨⟨?_, ?_, ?_, ?_, ?_⟩, ?_⟩
  case refine_1 => exact h.sane.setEndpoint hresult.tidy hresult.dwindles
  case refine_2 =>
    intro k hk
    rcases Guardian.has_reports hresult hk with rfl | hold
    · exact hseen
    · exact h.known k hold
  case refine_3 =>
    intro d hd
    rcases Gathered.mem_delivered hd with hold | hnew
    · exact h.delivered d hold
    · rw [hresult.delivered d hnew]
      exact .inr hseen
  case refine_4 =>
    intro p hp
    rcases Gathered.mem_aborted.mp hp with hold | ⟨e, he, rfl⟩
    · obtain ⟨hne, hknown, hover⟩ := h.aborted p hold
      exact ⟨hne, hknown, hresult.dwindles.inactive hover⟩
    · refine ⟨hsid, hseen, ?_⟩
      rcases hresult.outcome with ⟨_, _, _, hover⟩ | ⟨hnone, _⟩
      · exact hover
      · rw [hnone] at he
        cases he
  case refine_5 =>
    intro i s hs
    by_cases hi : i = sid
    · subst hi
      rcases hresult.outcome with ⟨_, _, _, hover⟩ | ⟨hnone, hposition⟩
      · rw [show result.1.manager.active[i]? = some s from hs] at hover
        cases hover
      · obtain ⟨t, ht, -⟩ := hresult.dwindles i s hs
        change (result.1.windowOf i).deliveryNext.toNat =
          _ + ((k.gathered.appendReport result.2 file i).deliveriesOf i).length
        rw [Gathered.deliveriesOf_reported hresult.delivered hnone, List.length_append,
          hposition s hs, h.position i t ht, Nat.add_assoc]
    · have hold : k.guardian.active[i]? = some s := (hresult.others i hi).symm.trans hs
      change (result.1.windowOf i).deliveryNext.toNat =
        _ + ((k.gathered.appendReport result.2 file sid).deliveriesOf i).length
      rw [Gathered.deliveriesOf_other hresult.delivered hi, hresult.elsewhere i s hi hold]
      exact h.position i s hold
  case refine_6 =>
    intro i
    change (k.gathered.appendReport result.2 file sid).Exposed i ↔ _
    by_cases hi : i = sid
    · subst hi
      rcases hlive with ⟨s, hs⟩ | ⟨hnothing, hnone⟩
      · refine iff_of_false ?_ (Gathered.not_exposed (h.not_aborted hs))
        cases hab : result.2.aborted with
        | some e => exact fun hexposed => hexposed.2 (Gathered.deliveriesOf_purged hab)
        | none =>
          refine Gathered.not_exposed fun p hp => ?_
          rcases Gathered.mem_aborted.mp hp with hold | ⟨e, he, -⟩
          · exact h.not_aborted hs p hold
          · rw [hab] at he
            cases he
      · unfold Gathered.Exposed
        rw [Gathered.deliveriesOf_reported hresult.delivered hnone, hnothing, List.append_nil]
        simp only [Gathered.mem_aborted, hnone]
        simp
    · unfold Gathered.Exposed
      rw [Gathered.deliveriesOf_other hresult.delivered hi]
      refine and_congr_left fun _ => ?_
      simp only [Gathered.mem_aborted]
      constructor
      · rintro ⟨p, hold | ⟨e, -, rfl⟩, hp⟩
        · exact ⟨p, hold, hp⟩
        · exact absurd hp.symm hi
      · rintro ⟨p, hold, hp⟩
        exact ⟨p, .inl hold, hp⟩

theorem reject (h : Tracked g₀ k) (file : String) (e : SecureError) :
    Tracked g₀ (k.reject file e) :=
  ⟨h.sane, h.known, h.delivered, h.aborted, h.position⟩

/-- A handshake establishes a session that is new, or none. -/
theorem shook (h : Tracked g₀ k) {q : Party} {new : Option String}
    (hq : Shaken context k.guardian.party q new) (hfresh : Fresh g₀ (k.shook q new).established) :
    Tracked g₀ (k.shook q new) := by
  have hunseen (sid : String) (hsid : new = some sid) : ¬Seen g₀ k sid := by
    have hdisjoint := List.disjoint_of_nodup_append hfresh.1
    have hmem : sid ∈ new.toList := by simp [hsid]
    rintro (hhas | hold)
    · exact hfresh.2 sid (List.mem_append_right _ hmem) hhas
    · exact hdisjoint hold hmem
  have hseen {sid : String} (hsid : Seen g₀ k sid) : Seen g₀ (k.shook q new) sid :=
    hsid.imp_right fun hold => List.mem_append_left _ hold
  refine ⟨h.sane.setParty hq, fun sid hsid => ?_, fun d hd => ?_, fun p hp => ?_,
    fun sid s hs => ?_⟩
  · rcases Guardian.has_setParty hq hsid with hold | hnew
    · exact hseen (h.known sid hold)
    · exact .inr (List.mem_append_right _ (by simp [hnew]))
  · exact (h.delivered d hd).imp_right hseen
  · obtain ⟨hne, hknown, hover⟩ := h.aborted p hp
    refine ⟨hne, hseen hknown, ?_⟩
    cases hactive : (k.shook q new).guardian.active[p.1]? with
    | none => rfl
    | some t =>
      rcases hq.active p.1 t hactive with hold | ⟨hnew, -⟩
      · rw [show k.guardian.party.manager.active[p.1]? = none from hover] at hold
        cases hold
      · exact absurd hknown (hunseen p.1 hnew)
  · rcases hq.active sid s hs with hold | ⟨hnew, -⟩
    · exact h.position sid s hold
    · have hnot := hunseen sid hnew
      have hbefore : k.guardian.endpoint.windowOf sid = .empty :=
        windowOf_none (Guardian.not_has fun hhas => hnot (h.known sid hhas)).2
      have hstart : g₀.endpoint.windowOf sid = .empty :=
        windowOf_none (Guardian.not_has fun hhas => hnot (.inl hhas)).2
      have hnothing : k.gathered.deliveriesOf sid = [] := by
        rw [Gathered.deliveriesOf_eq_nil]
        rintro d hd rfl
        rcases h.delivered d hd with hempty | hknown
        · exact hq.nonempty d.sid hnew hempty
        · exact hnot hknown
      change (k.guardian.endpoint.windowOf sid).deliveryNext.toNat =
        _ + (k.gathered.deliveriesOf sid).length
      rw [hbefore, hstart, hnothing]
      rfl

theorem deliver (h : Tracked g₀ k) {d : Delivery} (hd : d.sid = "") :
    Tracked g₀ (k.deliver d) ∧ ∀ i, (k.deliver d).gathered.Exposed i ↔ k.gathered.Exposed i := by
  have hsame {i : String} (hi : i ≠ "") :
      (k.deliver d).gathered.deliveriesOf i = k.gathered.deliveriesOf i := by
    have hne : d.sid ≠ i := hd ▸ hi.symm
    simp [Gathered.deliveriesOf, Intake.deliver, List.filter_append, hne]
  refine ⟨⟨h.sane, h.known, fun d' hd' => ?_, h.aborted, fun i s hs => ?_⟩, fun i => ?_⟩
  · rcases List.mem_append.mp hd' with hold | hnew
    · exact h.delivered d' hold
    · rw [List.mem_singleton.mp hnew]
      exact .inl hd
  · rw [hsame (h.sane.named i s hs).2]
    exact h.position i s hs
  · by_cases hi : i = ""
    · subst hi
      have hnone : ∀ p ∈ k.gathered.aborted, p.1 ≠ "" := fun p hp => (h.aborted p hp).1
      exact iff_of_false (Gathered.not_exposed hnone) (Gathered.not_exposed hnone)
    · unfold Gathered.Exposed
      rw [hsame hi]
      rfl

theorem refuse (h : Tracked g₀ k) {s : Session} (hs : k.guardian.active[sid]? = some s)
    (e : SecureError) :
    Tracked g₀ (k.refuse sid e) ∧ ∀ i, (k.refuse sid e).gathered.Exposed i ↔
      k.gathered.Exposed i ∨ i = sid ∧ ∃ d ∈ k.gathered.delivered, d.sid = i := by
  have hover : (k.refuse sid e).guardian.active[sid]? = none :=
    (gone_close sid k.guardian.endpoint).session
  refine ⟨⟨h.sane.close sid, fun i hi => h.known i (Guardian.has_close hi), h.delivered,
    fun p hp => ?_, fun i t ht => ?_⟩, fun i => ?_⟩
  · rcases List.mem_append.mp hp with hold | hnew
    · obtain ⟨hne, hknown, hdone⟩ := h.aborted p hold
      exact ⟨hne, hknown, (Dwindles.close k.guardian.endpoint sid).inactive hdone⟩
    · rw [List.mem_singleton.mp hnew]
      exact ⟨(h.sane.named sid s hs).2, h.known sid (.of_active hs), hover⟩
  · have hi : i ≠ sid := by
      rintro rfl
      rw [hover] at ht
      cases ht
    have hframe := Frame.close sid k.guardian.endpoint
    have hold : k.guardian.active[i]? = some t := (hframe.active i hi).symm.trans ht
    have hwindow : (k.refuse sid e).guardian.endpoint.windowOf i =
        k.guardian.endpoint.windowOf i := congrArg (·.getD .empty) (hframe.window i hi)
    rw [hwindow]
    exact h.position i t hold
  · have hentries : k.gathered.deliveriesOf i ≠ [] ↔ ∃ d ∈ k.gathered.delivered, d.sid = i := by
      rw [ne_eq, Gathered.deliveriesOf_eq_nil]
      simp
    have haborted : (∃ p ∈ (k.refuse sid e).gathered.aborted, p.1 = i) ↔
        (∃ p ∈ k.gathered.aborted, p.1 = i) ∨ i = sid := by
      simp [Intake.refuse, or_and_right, exists_or, eq_comm]
    have hsame : (k.refuse sid e).gathered.deliveriesOf i = k.gathered.deliveriesOf i := rfl
    rw [Gathered.Exposed, Gathered.Exposed, haborted, hsame, or_and_right, hentries]

theorem step (h : Tracked g₀ k) {r : Except SecureError Unit}
    (hstep : FileStep F C context k f (k', r)) (hr : r ≠ .error .downgradeDetected)
    (hfresh : Fresh g₀ k'.established) :
    Tracked g₀ k' ∧ ∀ i, k'.gathered.Exposed i ↔
      k.gathered.Exposed i ∨ Unpurged F C context i (k, f) := by
  have hnone (hmessage : messageOf F C context k.guardian f = none) (i : String) :
      ¬Unpurged F C context i (k, f) := by
    rintro ⟨env, e, hsome, -⟩
    rw [show messageOf F C context k.guardian f = some (i, env) from hsome] at hmessage
    cases hmessage
  cases hstep with
  | passed hmessage => exact ⟨h, fun i => by simp [hnone hmessage i]⟩
  | shook hmessage hshaken =>
    refine ⟨h.shook hshaken hfresh, fun i => ?_⟩
    rw [or_iff_left (hnone hmessage i)]
    rfl
  | downgraded => exact absurd rfl hr
  | plain hplain _ hd =>
    obtain ⟨htracked, hexposed⟩ := h.deliver hd
    exact ⟨htracked, fun i => by rw [or_iff_left (hnone (messageOf_of_plain hplain) i), hexposed i]⟩
  | @refused sid env e hmessage hview =>
    obtain ⟨-, s, hs, -⟩ := messageOf_eq_some hmessage
    obtain ⟨htracked, hexposed⟩ := h.refuse hs e
    refine ⟨htracked, fun i => ?_⟩
    rw [hexposed i]
    refine or_congr_right ⟨?_, ?_⟩
    · rintro ⟨rfl, hd⟩
      exact ⟨env, e, hmessage, hview, hd⟩
    · rintro ⟨env', e', hmessage', -, hd⟩
      have hsame := hmessage.symm.trans hmessage'
      exact ⟨(Prod.mk.inj (Option.some.inj hsame)).1.symm, hd⟩
  | @reported sid env view hmessage hview =>
    obtain ⟨hsid, s, hs, -⟩ := messageOf_eq_some hmessage
    have hreports : Reports sid k.guardian.endpoint (k.guardian.endpoint.receive F env view) :=
      .receive h.sane.tidy hsid view
    obtain ⟨htracked, hexposed⟩ := h.report hreports (h.known sid (.of_active hs))
      (h.sane.named sid s hs).2 (.inl ⟨s, hs⟩) f.name
    refine ⟨htracked, fun i => ?_⟩
    have hviewed : ¬Unpurged F C context i (k, f) := by
      rintro ⟨_, e, -, herror, -⟩
      rw [show contractView F context f.session = .error e from herror] at hview
      cases hview
    rw [hexposed i, or_iff_left hviewed]

end Tracked
end Hacp.Secure
