import Hacp.Secure.RefusedViews
import Hacp.Secure.TransportHistory

/-!
# The guardian runs the transport

Whatever requests a guardian answers, its transport and its session manager go through a
run of the transport: handshakes establish and evict, and every other change is one of the
transport's calls. What the answers list as delivered or sealed is listed by that run, so
what holds of every run of the transport holds of the answers of a guardian.
-/
namespace Hacp.Secure
open Lib V2 Std SessionManager Endpoint

variable {F : Foreign} {K : KeyExchange} {C : Crates} {context sid : String}

/-! ## Handshakes as inputs -/

theorem SessionManager.ext_lookup {m n : SessionManager} (hlocal : m.local_ = n.local_)
    (hidentity : m.identity = n.identity) (hactive : ∀ k : String, m.active[k]? = n.active[k]?) :
    m = n := by
  obtain ⟨_, _, active⟩ := m
  obtain ⟨_, _, active'⟩ := n
  obtain rfl := hlocal
  obtain rfl := hidentity
  obtain rfl : active = active' := ExtTreeMap.ext_getElem? hactive
  rfl

theorem exec_evict (x : Endpoint) (ids : List String) :
    (machine F).exec x (ids.map .evict) =
      ⟨x.transport, ids.foldl SessionManager.remove x.manager⟩ := by
  induction ids generalizing x with
  | nil => rfl
  | cons id ids ih => exact ih ⟨x.transport, x.manager.remove id⟩

theorem foldl_remove (m : SessionManager) (ids : List String) :
    (ids.foldl remove m).local_ = m.local_ ∧ (ids.foldl remove m).identity = m.identity ∧
      ∀ k : String, (ids.foldl remove m).active[k]? = if k ∈ ids then none else m.active[k]? := by
  induction ids generalizing m with
  | nil => exact ⟨rfl, rfl, fun k => by simp⟩
  | cons id ids ih =>
    obtain ⟨hlocal, hidentity, hactive⟩ := ih (m.remove id)
    refine ⟨hlocal, hidentity, fun k => (hactive k).trans ?_⟩
    rw [active_remove]
    by_cases hk : k = id <;> by_cases hmem : k ∈ ids <;> simp [hk, hmem]

/-- What only drops sessions is done by evictions. -/
theorem evict_dropped {m n : SessionManager} (hlocal : n.local_ = m.local_)
    (hidentity : n.identity = m.identity)
    (hactive : ∀ k : String, n.active[k]? = m.active[k]? ∨ n.active[k]? = none) (t : Transport) :
    ∃ ids : List String, (machine F).exec ⟨t, m⟩ (ids.map .evict) = ⟨t, n⟩ := by
  refine ⟨(m.active.toList.map Prod.fst).filter fun k => n.active[k]?.isNone, ?_⟩
  rw [exec_evict]
  obtain ⟨hlocal', hidentity', hfold⟩ := foldl_remove m
    ((m.active.toList.map Prod.fst).filter fun k => n.active[k]?.isNone)
  refine congrArg (Endpoint.mk t) (ext_lookup (hlocal'.trans hlocal.symm)
    (hidentity'.trans hidentity.symm) fun k => (hfold k).trans ?_)
  split_ifs with hk
  · exact (Option.isNone_iff_eq_none.mp (List.mem_filter.mp hk).2).symm
  · rcases hactive k with hsame | hnone
    · exact hsame.symm
    · rw [hnone]
      by_contra hne
      obtain ⟨s, hs⟩ := Option.ne_none_iff_exists'.mp hne
      refine hk (List.mem_filter.mpr ⟨List.mem_map.mpr ⟨(k, s), ?_, rfl⟩, ?_⟩)
      · exact ExtTreeMap.mem_toList_iff_getElem?_eq_some.mpr hs
      · rw [hnone]
        rfl

/-- Sessions were dropped and at most one that has sent nothing was inserted. -/
structure Rekeyed (m n : SessionManager) (new : Option Session) : Prop where
  local_ : n.local_ = m.local_
  identity : n.identity = m.identity
  fresh : ∀ s ∈ new, s.info.sendSeq = 0
  inserted : ∀ s ∈ new, n.active[s.info.sid]? = some s
  active : ∀ k : String, (∀ s ∈ new, s.info.sid ≠ k) →
    n.active[k]? = m.active[k]? ∨ n.active[k]? = none

namespace Rekeyed
variable {m n : SessionManager} {p q : Party} {new : Option Session}

theorem refl (m : SessionManager) : Rekeyed m m none :=
  ⟨rfl, rfl, nofun, nofun, fun _ _ => .inl rfl⟩

theorem of_trimmed (h : Party.Trimmed p q) : Rekeyed p.manager q.manager none :=
  ⟨h.local_, h.identity, nofun, nofun, fun k _ => h.active k⟩

theorem insert (h : Rekeyed p.manager q.manager none) {s : Session} {x : Exchange}
    (hsid : s.info.sid = sid) (hfresh : s.info.sendSeq = 0) :
    Rekeyed p.manager (q.insertSession sid s x).manager (some s) where
  local_ := h.local_
  identity := h.identity
  fresh t ht := by rwa [← Option.some.inj ht]
  inserted t ht := by rw [Party.active_insertSession, if_pos (by rw [← hsid, Option.some.inj ht]), ht]
  active k hk := by
    rw [Party.active_insertSession, if_neg fun hcon => hk s rfl (hsid.trans hcon.symm)]
    exact h.active k nofun

/-- The same is done by evictions and an establishment. -/
theorem inputs (h : Rekeyed m n new) (t : Transport) :
    ∃ ids : List String,
      (machine F).exec ⟨t, m⟩ (ids.map .evict ++ new.toList.map Input.establish) = ⟨t, n⟩ := by
  cases new with
  | none =>
    obtain ⟨ids, hids⟩ := evict_dropped (F := F) h.local_ h.identity (fun k => h.active k nofun) t
    exact ⟨ids, by simpa using hids⟩
  | some s =>
    have hdropped (k : String) : (n.remove s.info.sid).active[k]? = m.active[k]? ∨
        (n.remove s.info.sid).active[k]? = none := by
      rw [active_remove]
      split_ifs with hk
      · exact .inr rfl
      · exact h.active k fun u hu => Option.some.inj hu ▸ Ne.symm hk
    obtain ⟨ids, hids⟩ := evict_dropped (F := F) (n := n.remove s.info.sid) h.local_ h.identity
      hdropped t
    refine ⟨ids, ?_⟩
    rw [Machine.exec_append, hids]
    have hput : ({ s with info.sendSeq := 0 } : Session) = s := by rw [← h.fresh s rfl]
    refine congrArg (Endpoint.mk t) (ext_lookup rfl rfl fun k => ?_)
    change ((n.remove s.info.sid).put s.info.sid { s with info.sendSeq := 0 }).active[k]? = _
    rw [active_put, hput, active_remove]
    split_ifs with hk
    · rw [hk, h.inserted s rfl]
    · rfl

end Rekeyed

namespace Party

theorem initiate_rekeyed (p : Party) (peer context : String) (pin : Vector UInt8 32)
    (entropy : Entropy) :
    Rekeyed p.manager (p.initiate F K peer context pin entropy).1.manager none := by
  rcases p.initiate_cases (F := F) (K := K) peer context pin entropy with
    ⟨e, h⟩ | ⟨env, ephemeral, order, q, -, -, hroom, h⟩
  · rw [h]
    exact .refl p.manager
  · rw [h]
    exact Rekeyed.of_trimmed (p := p.withOrder order) (q := q) hroom.trimmed

theorem respondOnce_rekeyed (p : Party) (context : String) (hello : SecureEnvelope)
    (pin : Vector UInt8 32) (entropy : Entropy) :
    Rekeyed p.manager (p.respondOnce F K context hello pin entropy).1.manager
      (p.respondOnce F K context hello pin entropy).2.1 := by
  rcases p.respondOnce_cases (F := F) (K := K) context hello pin entropy with ⟨result, h⟩ | h
  · rw [h]
    exact .refl p.manager
  · rw [h]
    rcases p.respond_cases (F := F) (K := K) context hello pin entropy with
      ⟨handshakes, result, -, -, -, h⟩ | ⟨env, sid, keys, order, q, s, -, -, hroom, rfl, h⟩
    · rw [h]
      exact .refl p.manager
    · rw [h]
      have htrim : Rekeyed p.manager q.manager none :=
        .of_trimmed (p := p.withOrder order) hroom.trimmed
      exact htrim.insert rfl rfl

theorem complete_rekeyed (p : Party) (context : String) (ack : SecureEnvelope) :
    ∃ new : Option Session, Rekeyed p.manager (p.complete F K context ack).1.manager new ∧
      new.map (·.info.sid) = Completed (p.complete F K context ack).2 := by
  rcases p.complete_cases (F := F) (K := K) context ack with
    ⟨result, h, -⟩ | ⟨i, h, sid, keys, -, -, -, -, -, -, hcomplete⟩
  · rw [h]
    exact ⟨none, .refl p.manager, rfl⟩
  · rw [hcomplete]
    have hdrop : Rekeyed p.manager (p.dropPending i).manager none :=
      .of_trimmed ((Trimmed.refl p).dropPending i)
    exact ⟨_, hdrop.insert (s := ⟨⟨sid, _, _, context, .established, 0⟩, keys, h.pin, true⟩)
      rfl rfl, rfl⟩

end Party

/-! ## An open request is a run -/

/-- What a run of the transport has done is what an open request has done so far; the request
may have taken deliveries back. Every call of the run is one of `P`. -/
structure Traced (F : Foreign) (P : Call → Prop) (x : Endpoint) (k : Intake)
    (inputs : List Input) : Prop where
  exec : (machine F).exec x inputs = k.guardian.endpoint
  calls : ∀ c, .call c ∈ inputs → P c
  established : inputs.filterMap Input.established = k.established
  delivered : ∀ sid ≠ "", (k.gathered.deliveriesOf sid).Sublist
    (History.deliveriesOf ((machine F).history x inputs) sid)

namespace Traced
variable {P : Call → Prop} {x : Endpoint} {k k' : Intake} {inputs js : List Input}

theorem start (P : Call → Prop) (g : Guardian) : Traced F P g.endpoint (.start g) [] :=
  ⟨rfl, fun _ hc => absurd hc List.not_mem_nil, rfl, fun _ _ => List.Sublist.refl []⟩

theorem extend (h : Traced F P x k inputs) (hcalls : ∀ c, .call c ∈ js → P c)
    (hexec : (machine F).exec k.guardian.endpoint js = k'.guardian.endpoint)
    (hestablished : k'.established = k.established ++ js.filterMap Input.established)
    (hdelivered : ∀ sid ≠ "", (k'.gathered.deliveriesOf sid).Sublist (k.gathered.deliveriesOf sid ++
      History.deliveriesOf ((machine F).history k.guardian.endpoint js) sid)) :
    Traced F P x k' (inputs ++ js) where
  exec := by rw [Machine.exec_append, h.exec, hexec]
  calls c hc := (List.mem_append.mp hc).elim (h.calls c) (hcalls c)
  established := by rw [List.filterMap_append, h.established, hestablished]
  delivered sid hsid := by
    rw [Machine.history_append, h.exec, History.deliveriesOf, List.flatMap_append]
    exact (hdelivered sid hsid).trans ((h.delivered sid hsid).append_right _)

theorem listed (h : Traced F P x k inputs) (hguardian : k'.guardian.endpoint = k.guardian.endpoint)
    (hestablished : k'.established = k.established)
    (hdelivered : ∀ sid ≠ "", (k'.gathered.deliveriesOf sid).Sublist (k.gathered.deliveriesOf sid)) :
    Traced F P x k' inputs := by
  have hmore : Traced F P x k' (inputs ++ []) :=
    h.extend (fun _ hc => absurd hc List.not_mem_nil) hguardian.symm (by simp [hestablished])
      fun sid hsid => by simpa [History.deliveriesOf] using hdelivered sid hsid
  rwa [List.append_nil] at hmore

theorem reject (h : Traced F P x k inputs) (file : String) (e : SecureError) :
    Traced F P x (k.reject file e) inputs :=
  h.listed rfl rfl fun _ _ => List.Sublist.refl _

/-- Bytes outside any session belong to none. -/
theorem deliver (h : Traced F P x k inputs) {d : Delivery} (hd : d.sid = "") :
    Traced F P x (k.deliver d) inputs := by
  refine h.listed rfl rfl fun sid hsid => ?_
  rw [Intake.deliver, Gathered.deliveriesOf, Gathered.deliveriesOf, List.filter_append,
    List.filter_cons_of_neg (by simpa [hd] using Ne.symm hsid)]
  simp

theorem report (h : Traced F P x k inputs) {c : Call} {result : Endpoint × ReceiveReport}
    (hcall : k.guardian.endpoint.call F c = (result.1, .reported result.2)) (hc : P c)
    (file : String) (hsid : ∀ d ∈ result.2.delivered, d.sid = sid) :
    Traced F P x (k.report result file sid) (inputs ++ [.call c]) := by
  have hhistory : (machine F).history k.guardian.endpoint [.call c] =
      [⟨k.guardian.endpoint, .call c, .reported result.2, result.1⟩] := by
    change [Event.mk _ _ (k.guardian.endpoint.call F c).2 (k.guardian.endpoint.call F c).1] = _
    rw [hcall]
  refine h.extend (by simpa using hc) (congrArg Prod.fst hcall)
    (by simp [Intake.report, Input.established]) ?_
  intro i hi
  rw [hhistory, Intake.report, History.deliveriesOf, List.flatMap_cons, List.flatMap_nil,
    List.append_nil, Reply.deliveriesOf, Reply.delivered]
  by_cases heq : i = sid
  · subst heq
    cases hab : result.2.aborted with
    | some e =>
      rw [Gathered.deliveriesOf_purged hab]
      exact List.nil_sublist _
    | none =>
      rw [Gathered.deliveriesOf_reported hsid hab,
        List.filter_eq_self.mpr fun d hd => decide_eq_true (hsid d hd)]
  · rw [Gathered.deliveriesOf_other hsid heq]
    exact List.sublist_append_left _ _

/-- A session is over, and what it delivered stays. -/
theorem refuse (h : Traced F P x k inputs) {sid : String} (hclose : P (.close sid))
    (e : SecureError) : Traced F P x (k.refuse sid e) (inputs ++ [.call (.close sid)]) :=
  h.extend (by simpa using hclose) rfl (by simp [Intake.refuse, Input.established])
    fun _ _ => List.sublist_append_left _ _

theorem shook (h : Traced F P x k inputs) {q : Party} {new : Option Session}
    (hq : Rekeyed k.guardian.party.manager q.manager new) :
    ∃ js, Traced F P x (k.shook q (new.map (·.info.sid))) (inputs ++ js) := by
  obtain ⟨ids, hexec⟩ := hq.inputs (F := F) k.guardian.endpoint.transport
  refine ⟨_, h.extend (fun c hc => ?_) hexec ?_ fun sid _ => List.sublist_append_left _ _⟩
  · simp at hc
  have hevict : (ids.map Input.evict).filterMap Input.established = [] := by
    rw [List.filterMap_map, List.filterMap_eq_nil_iff]
    exact fun _ _ => rfl
  rw [List.filterMap_append, hevict]
  cases new <;> rfl

theorem exec_closeAll (y : Endpoint) (sessions : List SessionInfo) :
    (machine F).exec y (sessions.map fun s => .call (.close s.sid)) =
      Guardian.closeAll y sessions := by
  induction sessions generalizing y with
  | nil => rfl
  | cons s sessions ih => exact ih (y.close s.sid).1

/-- A context is aborted session by session. -/
theorem abortContext (h : Traced F P x k inputs) (hclose : ∀ sid, P (.close sid))
    (context : String) : ∃ js, Traced F P x (k.abortContext context) (inputs ++ js) := by
  have hclosed := exec_closeAll (F := F) k.guardian.endpoint (k.guardian.sessionsOf context)
  generalize hy : Guardian.closeAll k.guardian.endpoint (k.guardian.sessionsOf context) = y at hclosed
  have hendpoint : (k.abortContext context).guardian.endpoint = { y with manager := { y.manager with
      active := y.manager.active.filter fun _ s => s.info.hacpSession ≠ context } } := by
    rw [← hy]
    rfl
  have hdropped (id : String) : (k.abortContext context).guardian.endpoint.manager.active[id]? =
      y.manager.active[id]? ∨
        (k.abortContext context).guardian.endpoint.manager.active[id]? = none := by
    rw [hendpoint, ExtTreeMap.getElem?_filter']
    cases y.manager.active[id]? with
    | none => exact .inl rfl
    | some s => by_cases hs : s.info.hacpSession = context <;> simp [Option.filter, hs]
  obtain ⟨ids, hids⟩ := evict_dropped (F := F) (m := y.manager) (by rw [hendpoint])
    (by rw [hendpoint]) hdropped y.transport
  have hnone : ∀ i ∈ (k.guardian.sessionsOf context).map (fun s => Input.call (.close s.sid)) ++
      ids.map .evict, i.established = none := by
    intro i hi
    rcases List.mem_append.mp hi with hi | hi
    · obtain ⟨_, -, rfl⟩ := List.mem_map.mp hi
      rfl
    · obtain ⟨_, -, rfl⟩ := List.mem_map.mp hi
      rfl
  refine ⟨(k.guardian.sessionsOf context).map (fun s => .call (.close s.sid)) ++ ids.map .evict,
    h.extend (fun c hc => ?_) ?_ ?_ fun sid _ => List.sublist_append_left _ _⟩
  · rcases List.mem_append.mp hc with hc | hc
    · obtain ⟨s, -, hs⟩ := List.mem_map.mp hc
      obtain rfl := Input.call.inj hs
      exact hclose s.sid
    · simp at hc
  · rw [Machine.exec_append, hclosed]
    exact hids.trans (by rw [hendpoint])
  · rw [List.filterMap_eq_nil_iff.mpr hnone]
    exact (List.append_nil _).symm

end Traced

/-! ### Files -/

/-- A message that a turn over a file takes to the transport: the file holds it, its session is one
of the context, and the control state that was read accepts the view. -/
structure TakesIn (F : Foreign) (C : Crates) (context : String) (t : Intake × EdgeFile)
    (env : SecureEnvelope) (view : ContractView) : Prop where
  content : ∃ bytes, t.2.raw = .ok bytes ∧ SecureEnvelope.fromJson F C.tokens bytes = .ok env
  session : ∃ sid info, env.sid = some sid ∧
    t.1.guardian.endpoint.manager.info sid = .ok info ∧ info.hacpSession = context
  view : contractView F context t.2.session = .ok view

section Files
variable {P : Call → Prop} {x : Endpoint} {k : Intake} {inputs : List Input}
  {f : EdgeFile} {env : SecureEnvelope}

theorem receivePlain_traced (h : Traced F P x k inputs) (hclose : ∀ sid, P (.close sid))
    (bytes : Bytes) (object : Option Json) :
    ∃ js, Traced F P x (receivePlain context k bytes object).1 (inputs ++ js) := by
  have hsame : ∃ js, Traced F P x k (inputs ++ js) := ⟨[], by rwa [List.append_nil]⟩
  unfold receivePlain
  dsimp only
  split_ifs
  · exact h.abortContext hclose context
  · exact ⟨[], by rw [List.append_nil]; exact h.deliver rfl⟩
  · exact h.abortContext hclose context
  · exact hsame

theorem receiveHello_traced (h : Traced F P x k inputs) :
    ∃ js, Traced F P x (receiveHello F K context k f env).1 (inputs ++ js) := by
  have hsame : ∃ js, Traced F P x k (inputs ++ js) := ⟨[], by rwa [List.append_nil]⟩
  unfold receiveHello
  split
  · exact hsame
  · next pin _ =>
    split
    · exact hsame
    · next key _ =>
      have hrekeyed := k.guardian.party.respondOnce_rekeyed (F := F) (K := K) context env key
        f.entropy
      generalize k.guardian.party.respondOnce F K context env key f.entropy = answer at hrekeyed ⊢
      obtain ⟨p, inserted, result⟩ := answer
      rcases result with e | sent | ack
      · exact h.shook hrekeyed
      · exact h.shook hrekeyed
      · exact h.shook hrekeyed

theorem receiveAck_traced (h : Traced F P x k inputs) :
    ∃ js, Traced F P x (receiveAck F K context k env).1 (inputs ++ js) := by
  obtain ⟨new, hrekeyed, hnew⟩ := k.guardian.party.complete_rekeyed (F := F) (K := K) context env
  unfold receiveAck
  generalize k.guardian.party.complete F K context env = answer at hrekeyed hnew ⊢
  obtain ⟨p, consumed, result⟩ := answer
  cases result with
  | error e =>
    obtain ⟨js, hjs⟩ := h.shook hrekeyed
    have hnone : new.map (·.info.sid) = none := by
      rw [hnew]
      cases consumed <;> rfl
    rw [hnone] at hjs
    exact ⟨js, hjs⟩
  | ok sid =>
    obtain ⟨js, hjs⟩ := h.shook hrekeyed
    have hsome : new.map (·.info.sid) = consumed.map fun _ => sid := by
      rw [hnew]
      cases consumed <;> rfl
    rw [hsome] at hjs
    exact ⟨js, hjs⟩

theorem receiveMsg_traced (h : Traced F P x k inputs) (hk : Tidy k.guardian.endpoint)
    (hclose : ∀ sid, P (.close sid))
    (hcontent : ∃ bytes, f.raw = .ok bytes ∧ SecureEnvelope.fromJson F C.tokens bytes = .ok env)
    (hreceive : ∀ view, TakesIn F C context (k, f) env view → P (.receive env view)) :
    ∃ js, Traced F P x (receiveMsg F context k f env).1 (inputs ++ js) := by
  have hsame : ∃ js, Traced F P x k (inputs ++ js) := ⟨[], by rwa [List.append_nil]⟩
  unfold receiveMsg
  split
  · exact hsame
  · next sid hsid =>
    split
    · exact hsame
    · next info hinfo =>
      split_ifs with hother
      · exact hsame
      · split
        · exact ⟨_, h.refuse (hclose sid) _⟩
        · next view hview =>
          have hreports : Reports sid k.guardian.endpoint
              (k.guardian.endpoint.receive F env view) := .receive hk hsid view
          have htakes : TakesIn F C context (k, f) env view :=
            ⟨hcontent, ⟨sid, info, hsid, hinfo, not_not.mp hother⟩, hview⟩
          exact ⟨[.call (.receive env view)], h.report (c := .receive env view) rfl
            (hreceive view htakes) f.name hreports.delivered⟩

theorem receiveFile_traced (h : Traced F P x k inputs) (hk : Tidy k.guardian.endpoint)
    (hclose : ∀ sid, P (.close sid))
    (hreceive : ∀ env view, TakesIn F C context (k, f) env view → P (.receive env view)) :
    ∃ js, Traced F P x (receiveFile F K C context k f).1 (inputs ++ js) := by
  have hsame : ∃ js, Traced F P x k (inputs ++ js) := ⟨[], by rwa [List.append_nil]⟩
  unfold receiveFile
  split
  · exact hsame
  · next bytes hraw =>
    split
    · dsimp only
      split_ifs
      · exact hsame
      · exact receivePlain_traced h hclose bytes _
    · next env henv =>
      split_ifs
      · exact hsame
      · split
        · exact receiveHello_traced h
        · exact receiveAck_traced h
        · exact receiveMsg_traced h hk hclose ⟨bytes, hraw, henv⟩ (hreceive env)

end Files

structure Underway (F : Foreign) (P : Call → Prop) (x : Endpoint) (k : Intake) : Prop where
  sane : Sane k.guardian
  traced : ∃ inputs, Traced F P x k inputs

namespace Underway
variable {P : Call → Prop} {x : Endpoint} {k : Intake} {edge : Outside}

theorem start {g : Guardian} (hg : Sane g) : Underway F P g.endpoint (.start g) :=
  ⟨hg, [], .start P g⟩

theorem fileTurn (h : Underway F P x k) {f : EdgeFile} (hclose : ∀ sid, P (.close sid))
    (hreceive : ∀ env view, TakesIn F C context (k, f) env view → P (.receive env view)) :
    Sum.elim (Underway F P x) (Underway F P x) (fileTurn F K C context k f) := by
  obtain ⟨hsane, inputs, htraced⟩ := h
  obtain ⟨js, hjs⟩ : ∃ js, Traced F P x (receiveFile F K C context k f).1 (inputs ++ js) :=
    receiveFile_traced htraced hsane.tidy hclose hreceive
  have hstep := receiveFile_step F K C context k f
  unfold Secure.fileTurn
  generalize receiveFile F K C context k f = result at hjs hstep
  obtain ⟨k', e | _⟩ := result
  · dsimp only
    split_ifs with he
    · refine ⟨hstep.sane hsane, _, hjs.listed rfl rfl ?_⟩
      exact fun sid _ => List.nil_sublist _
    · exact ⟨hstep.sane hsane, _, hjs.reject f.name e⟩
  · exact ⟨hstep.sane hsane, _, hjs⟩

theorem either {r : Intake ⊕ Intake} (h : Sum.elim (Underway F P x) (Underway F P x) r) :
    Underway F P x (r.elim id id) := by
  cases r with
  | inl k => exact h
  | inr k => exact h

theorem phases {g : Guardian} (hg : Sane g) (hclose : ∀ sid, P (.close sid))
    (hreceive : ∀ t ∈ fileTurns F K C context edge g, ∀ env view, TakesIn F C context t env view →
      P (.receive env view)) :
    Underway F P g.endpoint (phases F K C context edge g) := by
  have hshakes : Underway F P g.endpoint
      ((handshakePhase F K C context edge (.start g)).elim id id) :=
    either (Scan.run_keeps_turns
      (fun t ht h => h.fileTurn hclose (hreceive t (List.mem_append_left _ ht))) (start hg))
  exact either (Scan.run_keeps_turns
    (fun t ht h => h.fileTurn hclose (hreceive t (List.mem_append_right _ ht))) hshakes)

theorem observeTurn (h : Underway F P x k) {s : SessionInfo}
    (hobserve : ∀ view, contractView F context (edge.observed s.sid) = .ok view →
      P (.observe s.sid view)) :
    Sum.elim (Underway F P x) (fun r => Underway F P x r.1) (observeTurn F context edge k s) := by
  obtain ⟨hsane, inputs, htraced⟩ := h
  unfold Secure.observeTurn
  cases hview : contractView F context (edge.observed s.sid) with
  | error e => exact ⟨hsane, inputs, htraced⟩
  | ok view =>
    have hreports : Reports s.sid k.guardian.endpoint (k.guardian.endpoint.observe F s.sid view) :=
      .observe hsane.tidy s.sid view
    exact ⟨hsane.setEndpoint hreports.tidy hreports.dwindles, _,
      htraced.report (c := .observe s.sid view) rfl (hobserve view hview) "observation"
        hreports.delivered⟩

end Underway

/-! ## Every request is a run -/

def Handled.deliveriesOf (h : Handled) (sid : String) : List Delivery :=
  match h.result with
  | .ok (.opened gathered) => gathered.deliveriesOf sid
  | _ => []

def Handled.sealedFor (h : Handled) (sid : String) : List UInt64 :=
  match h.result with
  | .ok (.sealed k seq _) => if k = sid then seq.toList else []
  | _ => []

def Handled.encryptionsOf (h : Handled) (sid : String) : List Encryption :=
  h.encrypted.toList.filter fun e => e.sid = sid

/-- Where a call of the transport comes from: the request that was read, the file or the session
the call is about, and the control state that was read for it. -/
inductive Prompted (F : Foreign) (K : KeyExchange) (C : Crates) (g : Guardian) (bytes : Bytes)
    (edge : Outside) : Call → Prop
  | receive {context : String} {t : Intake × EdgeFile} {env : SecureEnvelope}
      {view : ContractView} : Request.ofBytes C bytes = .ok (.open_ context) →
      t ∈ fileTurns F K C context edge g → TakesIn F C context t env view →
      Prompted F K C g bytes edge (.receive env view)
  | observe {context : String} {t : Intake × SessionInfo} {view : ContractView} :
      Request.ofBytes C bytes = .ok (.open_ context) →
      t ∈ observeTurns F K C context edge g →
      contractView F context (edge.observed t.2.sid) = .ok view →
      Prompted F K C g bytes edge (.observe t.2.sid view)
  | seal_ {sid contract payloadB64 : String} {info : SessionInfo} {payload : Bytes}
      {view : ContractView} : Request.ofBytes C bytes = .ok (.seal_ sid contract payloadB64) →
      g.endpoint.manager.info sid = .ok info → C.base64 payloadB64 = some payload →
      contractView F info.hacpSession edge.session = .ok view →
      Prompted F K C g bytes edge (.seal_ sid contract payload view)
  | close (sid : String) : Prompted F K C g bytes edge (.close sid)

/-- What a request did is what a run of the transport did, each call of which is one of `P`. -/
structure Simulated (F : Foreign) (P : Call → Prop) (g g' : Guardian) (h : Handled)
    (inputs : List Input) : Prop where
  exec : (machine F).exec g.endpoint inputs = g'.endpoint
  calls : ∀ c, .call c ∈ inputs → P c
  established : inputs.filterMap Input.established = h.established
  delivered : ∀ sid ≠ "", (h.deliveriesOf sid).Sublist
    (History.deliveriesOf ((machine F).history g.endpoint inputs) sid)
  sealed : ∀ sid, (h.sealedFor sid).Sublist
    ((History.encryptionsOf ((machine F).history g.endpoint inputs) sid).map Encryption.seq)
  encrypted : ∀ sid, h.encryptionsOf sid =
    History.encryptionsOf ((machine F).history g.endpoint inputs) sid

theorem encryptionsOf_history {x : Endpoint} {inputs : List Input}
    (h : ∀ sid contract payload view, .call (.seal_ sid contract payload view) ∉ inputs)
    (sid : String) : History.encryptionsOf ((machine F).history x inputs) sid = [] := by
  refine List.flatMap_eq_nil_iff.mpr fun e he => ?_
  obtain ⟨pre, i, post, rfl, rfl⟩ := (machine F).mem_history he
  have hi : i ∈ pre ++ i :: post := List.mem_append_right _ List.mem_cons_self
  cases i with
  | call c =>
    cases c with
    | seal_ k contract payload view => exact absurd hi (h k contract payload view)
    | receive env view => rfl
    | observe k view => rfl
    | close k => rfl
  | establish s => rfl
  | evict k => rfl

namespace Guardian
variable {P : Call → Prop} {g : Guardian} {bytes : Bytes} {edge : Outside}

/-- A request that answers with no message and encrypts nothing. -/
theorem simulated_silent {g' : Guardian} {h : Handled} {inputs : List Input}
    (hexec : (Endpoint.machine F).exec g.endpoint inputs = g'.endpoint)
    (hcalls : ∀ c, .call c ∈ inputs → P c)
    (hseals : ∀ sid contract payload view, .call (.seal_ sid contract payload view) ∉ inputs)
    (hestablished : inputs.filterMap Input.established = h.established)
    (hdelivered : ∀ sid, h.deliveriesOf sid = []) (hsealed : ∀ sid, h.sealedFor sid = [])
    (hencrypted : h.encrypted = none) : Simulated F P g g' h inputs where
  exec := hexec
  calls := hcalls
  established := hestablished
  delivered sid _ := by rw [hdelivered]; exact List.nil_sublist _
  sealed sid := by rw [hsealed]; exact List.nil_sublist _
  encrypted sid := by
    rw [encryptionsOf_history hseals, Handled.encryptionsOf, hencrypted]
    rfl

theorem simulated_same {h : Handled} (hestablished : h.established = [])
    (hdelivered : ∀ sid, h.deliveriesOf sid = []) (hsealed : ∀ sid, h.sealedFor sid = [])
    (hencrypted : h.encrypted = none) : ∃ inputs, Simulated F P g g h inputs :=
  ⟨[], simulated_silent rfl (fun _ hc => absurd hc List.not_mem_nil)
    (fun _ _ _ _ => List.not_mem_nil) hestablished.symm hdelivered hsealed hencrypted⟩

/-- An open request seals nothing. -/
theorem Prompted.unsealed {inputs : List Input}
    (hrequest : Request.ofBytes C bytes = .ok (.open_ context))
    (hcalls : ∀ c, .call c ∈ inputs → Prompted F K C g bytes edge c)
    (sid contract : String) (payload : Bytes) (view : ContractView) :
    .call (.seal_ sid contract payload view) ∉ inputs := by
  intro hmem
  cases hcalls _ hmem with
  | seal_ hseal =>
    rw [hrequest] at hseal
    cases hseal

theorem receive_simulated (hg : Sane g) (hrequest : Request.ofBytes C bytes = .ok (.open_ context))
    (edge : Outside) :
    ∃ inputs, Simulated F (Prompted F K C g bytes edge) g (g.receive F K C context edge).1
      ⟨(g.receive F K C context edge).2.1.map .opened, (g.receive F K C context edge).2.2, none⟩
      inputs := by
  have hclose (sid : String) : Prompted F K C g bytes edge (.close sid) := .close sid
  generalize hP : Prompted F K C g bytes edge = P at hclose
  unfold receive
  cases g.allowedContext context with
  | error e => exact simulated_same rfl (fun _ => rfl) (fun _ => rfl) rfl
  | ok _ =>
    dsimp only
    have hphases : Underway F P g.endpoint (phases F K C context edge g) :=
      .phases hg hclose fun t ht env view htakes => hP ▸ .receive hrequest ht htakes
    have hend : Sum.elim (Underway F P g.endpoint) (fun r => Underway F P g.endpoint r.1)
        (Scan.run (observeTurn F context edge) (phases F K C context edge g)
          ((phases F K C context edge g).guardian.sessionsOf context)) :=
      Scan.run_keeps_turns (fun t ht h => h.observeTurn fun view hview =>
        hP ▸ .observe hrequest ht hview) hphases
    generalize Scan.run (observeTurn F context edge) (phases F K C context edge g)
      ((phases F K C context edge g).guardian.sessionsOf context) = result at hend ⊢
    subst hP
    rcases result with k | ⟨k, e⟩
    · obtain ⟨-, inputs, htraced⟩ := hend
      refine ⟨inputs, htraced.exec, htraced.calls, htraced.established, htraced.delivered,
        fun sid => List.nil_sublist _, fun sid => ?_⟩
      exact (encryptionsOf_history (Prompted.unsealed hrequest htraced.calls) sid).symm
    · obtain ⟨-, inputs, htraced⟩ := hend
      exact ⟨inputs, simulated_silent htraced.exec htraced.calls
        (Prompted.unsealed hrequest htraced.calls) htraced.established (fun _ => rfl)
        (fun _ => rfl) rfl⟩

theorem openSession_simulated (g : Guardian) (peer context : String) (edge : Outside) :
    ∃ inputs, Simulated F P g (g.openSession F K peer context edge).1
      ⟨(g.openSession F K peer context edge).2, [], none⟩ inputs := by
  have hsame (e : SecureError) : ∃ inputs, Simulated F P g g ⟨.error e, [], none⟩ inputs :=
    simulated_same rfl (fun _ => rfl) (fun _ => rfl) rfl
  unfold openSession
  split
  · exact hsame _
  · split
    · exact hsame _
    · split
      · exact hsame _
      · next key _ =>
        have hrekeyed := g.party.initiate_rekeyed (F := F) (K := K) peer context key edge.entropy
        generalize g.party.initiate F K peer context key edge.entropy = answer at hrekeyed ⊢
        obtain ⟨p, result⟩ := answer
        obtain ⟨ids, hids⟩ := hrekeyed.inputs (F := F) g.endpoint.transport
        have hcalls (c : Call) : .call c ∉ ids.map Input.evict ++ (none : Option Session).toList.map
            Input.establish := by
          simp
        have hnone : (ids.map Input.evict ++
            (none : Option Session).toList.map Input.establish).filterMap Input.established = [] := by
          simp [List.filterMap_map, Function.comp_def, Input.established]
        have hsilent {g' : Guardian} (hg' : g'.endpoint = (g.setParty p).endpoint) {h : Handled} :=
          simulated_silent (P := P) (h := h) (hids.trans hg'.symm)
            (fun c hc => absurd hc (hcalls c)) (fun _ _ _ _ => hcalls _)
        cases result with
        | error e => exact ⟨_, hsilent rfl hnone (fun _ => rfl) (fun _ => rfl) rfl⟩
        | ok hello =>
          refine ⟨_, hsilent rfl hnone (fun _ => ?_) (fun _ => ?_) rfl⟩
          all_goals
            dsimp only
            cases hello.nonce with
            | none => rfl
            | some nonce => cases writeHandshake hello edge.written <;> rfl

/-- An envelope that leaves the transport was encrypted under the number it carries. -/
theorem seal_encrypted {x y : Endpoint} {contract : String} {payload : Bytes} {view : ContractView}
    {spent : Option Encryption} {env : SecureEnvelope}
    (h : x.seal_ F sid contract payload view = (y, ⟨spent, .ok env⟩)) :
    ∃ seq key, env.seq = some seq ∧ spent = some ⟨sid, key, seq⟩ := by
  have hcall := seal_call (F := F) x sid contract payload view
  rw [h] at hcall
  cases hcall with
  | @sealed s m _ _ hs hmax hseal =>
    have hstep := seal_step (F := F) x.manager sid (x.windowOf sid).sendSeq contract payload
    rw [hseal] at hstep
    cases hstep with
    | @sealed s aad ct _ _ _ _ _ _ hfinish =>
      refine ⟨_, _, ?_, rfl⟩
      unfold finish at hfinish
      simp only [Lib.bind_eq_ok, Except.ok.injEq] at hfinish
      obtain ⟨input, -, -, -, rfl⟩ := hfinish
      rfl

/-- What a run of one sealing call encrypts. -/
theorem encryptionsOf_seal (x : Endpoint) (sid contract : String) (payload : Bytes)
    (view : ContractView) (i : String) :
    ((x.seal_ F sid contract payload view).2.encrypted.toList.filter fun e => e.sid = i) =
      History.encryptionsOf ((Endpoint.machine F).history x
        [.call (.seal_ sid contract payload view)]) i := by
  rw [History.encryptionsOf, Machine.history, Machine.history, List.flatMap_singleton]
  rfl

theorem sealMessage_simulated {sid contract payloadB64 : String}
    (hrequest : Request.ofBytes C bytes = .ok (.seal_ sid contract payloadB64)) (edge : Outside) :
    ∃ inputs, Simulated F (Prompted F K C g bytes edge) g
      (g.sealMessage F C sid contract payloadB64 edge).1
      ⟨(g.sealMessage F C sid contract payloadB64 edge).2.1, [],
        (g.sealMessage F C sid contract payloadB64 edge).2.2⟩ inputs := by
  unfold sealMessage
  split
  · exact simulated_same rfl (fun _ => rfl) (fun _ => rfl) rfl
  · next payload view hread =>
    obtain ⟨info, hinfo, hread⟩ := bind_eq_ok.mp hread
    obtain ⟨-, -, hread⟩ := bind_eq_ok.mp hread
    obtain ⟨payload', hpayload, hread⟩ := bind_eq_ok.mp hread
    obtain ⟨view', hview, hread⟩ := bind_eq_ok.mp hread
    obtain ⟨rfl, rfl⟩ := Prod.mk.inj (Except.ok.inj hread)
    have hbase64 : C.base64 payloadB64 = some payload' := by
      cases hdecoded : C.base64 payloadB64 with
      | none =>
        rw [hdecoded] at hpayload
        cases hpayload
      | some p =>
        rw [hdecoded] at hpayload
        exact congrArg some (Except.ok.inj hpayload)
    have hencrypted := encryptionsOf_seal (F := F) g.endpoint sid contract payload' view'
    have hcalls : ∀ c, Input.call c ∈ [Input.call (.seal_ sid contract payload' view')] →
        Prompted F K C g bytes edge c := by
      intro c hc
      obtain rfl := Input.call.inj (List.mem_singleton.mp hc)
      exact .seal_ hrequest hinfo hbase64 hview
    cases hseal : g.endpoint.seal_ F sid contract payload' view' with
    | mk x sealing =>
      obtain ⟨spent, result⟩ := sealing
      rw [hseal] at hencrypted
      have hexec : (Endpoint.machine F).exec g.endpoint
          [.call (.seal_ sid contract payload' view')] = x := congrArg Prod.fst hseal
      refine ⟨[.call (.seal_ sid contract payload' view')], ?_⟩
      cases result with
      | error e =>
        exact ⟨hexec, hcalls, rfl, fun _ _ => List.nil_sublist _, fun _ => List.nil_sublist _,
          hencrypted⟩
      | ok env =>
        obtain ⟨seq, key, hseq, rfl⟩ := seal_encrypted hseal
        refine ⟨hexec, hcalls, rfl, fun i _ => ?_, fun i => ?_, hencrypted⟩
        · dsimp only
          cases writeMessage env edge.written <;> exact List.nil_sublist _
        · rw [← hencrypted i]
          dsimp only
          cases writeMessage env edge.written with
          | error e => exact List.nil_sublist _
          | ok path =>
            have hsealed : Handled.sealedFor ⟨.ok (.sealed sid env.seq path), [],
                some ⟨sid, key, seq⟩⟩ i = if sid = i then [seq] else [] := by
              rw [Handled.sealedFor, hseq]
              rfl
            change (Handled.sealedFor ⟨.ok (.sealed sid env.seq path), [], _⟩ i).Sublist _
            rw [hsealed]
            split_ifs with hi
            · simp [hi]
            · exact List.nil_sublist _

variable (F K C) in
theorem dispatch_simulated (hg : Sane g) (bytes : Bytes) (edge : Outside) :
    ∃ inputs, Simulated F (Prompted F K C g bytes edge) g (g.dispatch F K C bytes edge).1
      (g.dispatch F K C bytes edge).2 inputs := by
  unfold dispatch
  cases hrequest : Request.ofBytes C bytes with
  | error e => exact simulated_same rfl (fun _ => rfl) (fun _ => rfl) rfl
  | ok request =>
    cases request with
    | session peer context => exact openSession_simulated g peer context edge
    | seal_ sid contract payloadB64 => exact sealMessage_simulated hrequest edge
    | open_ context => exact receive_simulated hg hrequest edge
    | status => exact simulated_same rfl (fun _ => rfl) (fun _ => rfl) rfl
    | fingerprint => exact simulated_same rfl (fun _ => rfl) (fun _ => rfl) rfl

/-! ## Runs -/

/-- A part of the transport's run matches a request: it is what the request did. -/
def Matched (F : Foreign) (K : KeyExchange) (C : Crates)
    (e : Event Guardian (Bytes × Outside) Handled) (part : History) : Prop :=
  ∃ inputs, part = (Endpoint.machine F).history e.before.endpoint inputs ∧
    Simulated F (Prompted F K C e.before e.input.1 e.input.2) e.before e.after e.output inputs

/-- Every call in the part of a request comes from what the request read. -/
theorem Matched.prompted {e : Event Guardian (Bytes × Outside) Handled} {part : History}
    (h : Matched F K C e part) {made : Event Endpoint Input Reply} (hmade : made ∈ part) {c : Call}
    (hc : made.input = .call c) : Prompted F K C e.before e.input.1 e.input.2 c := by
  obtain ⟨inputs, rfl, hsim⟩ := h
  have hmem : made.input ∈ inputs := by
    rw [← (Endpoint.machine F).history_inputs e.before.endpoint inputs]
    exact List.mem_map_of_mem hmade
  exact hsim.calls c (hc ▸ hmem)

/-- The answers of a guardian accounted for by what its transport did, which is cut into one part
for each request: every message the transport was handed was read in a file, every session was
established by a handshake, and what the answers list as delivered or sealed is listed by the
transport in the same order. What the requests encrypted is what the transport did. -/
structure Accounted (F : Foreign) (K : KeyExchange) (C : Crates)
    (events : List (Event Guardian (Bytes × Outside) Handled)) (h : History) : Prop where
  matched : Cut (Matched F K C) events h
  received : ∀ env, h.Received env → ∃ e ∈ events, ∃ view,
    Prompted F K C e.before e.input.1 e.input.2 (.receive env view)
  established : Endpoint.established h = events.flatMap fun e => e.output.established
  delivered : ∀ sid ≠ "",
    (events.flatMap fun e => e.output.deliveriesOf sid).Sublist (h.deliveriesOf sid)
  sealed : ∀ sid, (events.flatMap fun e => e.output.sealedFor sid).Sublist
    ((h.encryptionsOf sid).map Encryption.seq)
  encrypted : ∀ sid, (events.flatMap fun e => e.output.encryptionsOf sid) = h.encryptionsOf sid

theorem established_eq_flatMap (h : History) :
    Endpoint.established h = h.flatMap fun made => made.input.established.toList := by
  rw [Endpoint.established, List.filterMap_map, List.filterMap_eq_flatMap_toList]
  rfl

theorem Accounted.of_cut {events : List (Event Guardian (Bytes × Outside) Handled)} {h : History}
    (hcut : Cut (Matched F K C) events h) : Accounted F K C events h where
  matched := hcut
  received env := by
    rintro ⟨made, hmade, view, hinput⟩
    obtain ⟨e, he, part, hpart, hmem⟩ := hcut.entry_of_mem hmade
    exact ⟨e, he, view, hpart.prompted hmem hinput⟩
  established := by
    rw [established_eq_flatMap]
    refine (hcut.flatMap_eq fun e part hpart => ?_).symm
    obtain ⟨inputs, rfl, hsim⟩ := hpart
    rw [← established_eq_flatMap, Endpoint.established, Machine.history_inputs, hsim.established]
  delivered sid hsid := by
    refine hcut.flatMap_sublist fun e part hpart => ?_
    obtain ⟨inputs, rfl, hsim⟩ := hpart
    exact hsim.delivered sid hsid
  sealed sid := by
    rw [History.encryptionsOf, List.map_flatMap]
    refine hcut.flatMap_sublist fun e part hpart => ?_
    obtain ⟨inputs, rfl, hsim⟩ := hpart
    rw [← List.map_flatMap]
    exact hsim.sealed sid
  encrypted sid := by
    refine hcut.flatMap_eq fun e part hpart => ?_
    obtain ⟨inputs, rfl, hsim⟩ := hpart
    exact hsim.encrypted sid

theorem exists_accounted (hg : Sane g) (requests : List (Bytes × Outside)) :
    ∃ inputs, (Endpoint.machine F).exec g.endpoint inputs =
        ((machine F K C).exec g requests).endpoint ∧
      Accounted F K C ((machine F K C).history g requests)
        ((Endpoint.machine F).history g.endpoint inputs) := by
  have hrun := (machine F K C).exec_simulation (N := Endpoint.machine F) (f := Guardian.endpoint)
    (P := Sane) (R := Cut (Matched F K C)) .nil (fun g i hg => ?_) hg requests
  · obtain ⟨inputs, hexec, -, hcut⟩ := hrun
    exact ⟨inputs, hexec, .of_cut hcut⟩
  · obtain ⟨inputs, hstep⟩ := dispatch_simulated F K C hg i.1 i.2
    exact ⟨inputs, hstep.exec, (dispatch_kept F K C hg i.1 i.2).sane,
      fun _ _ hcut => hcut.snoc ⟨inputs, rfl, hstep⟩⟩

section Refinement
variable {local_ : String} {seed : Vector UInt8 32} {pins : List Pin} {mode : Mode}

/-- A guardian that answers requests refines its transport: whatever requests and files come, its
endpoint is one that a run of the transport reaches, and that run accounts for all its answers. -/
theorem refines_transport (hload : load local_ seed pins mode = .ok g)
    (requests : List (Bytes × Outside)) :
    ∃ inputs, reached F local_ seed inputs = ((machine F K C).exec g requests).endpoint ∧
      Accounted F K C ((machine F K C).history g requests) (runHistory F local_ seed inputs) := by
  have hrun := exists_accounted (F := F) (K := K) (C := C) (load_sane hload) requests
  rwa [(load_eq_ok hload).1] at hrun

end Refinement

/-! ## A guardian that is asked to open

Its one request establishes a session and delivers a message of it. -/

/-- One request, which delivers a message of the session it establishes. -/
def lateRequest : List (Bytes × Outside) := [(openBytes, LateRefusal.messageRefused)]

theorem event_output (bytes : Bytes) (edge : Outside) :
    ((machine F K C).event g (bytes, edge)).output = (g.dispatch F K C bytes edge).2 := rfl

theorem history_lateRequest
    (hg : load "urn:hacp:agent:a" (.replicate 32 1) [securePin] .degraded = .ok g) :
    ∃ e, (machine Burst.foreign LateRefusal.exchange crates).history g lateRequest = [e] ∧
      e.output.established = [Burst.sid] ∧ ∃ d, d ∈ e.output.deliveriesOf Burst.sid := by
  obtain ⟨g', gathered, hreceive, -, d, hd, hsid⟩ := LateRefusal.receive_late hg
  have hdispatch : g.dispatch Burst.foreign LateRefusal.exchange crates openBytes
      LateRefusal.messageRefused = (g', ⟨.ok (.opened gathered), [Burst.sid], none⟩) := by
    rw [dispatch, ofBytes_openBytes]
    simp only [handle, hreceive, Except.map]
  have houtput : ((machine Burst.foreign LateRefusal.exchange crates).event g
      (openBytes, LateRefusal.messageRefused)).output =
      ⟨.ok (.opened gathered), [Burst.sid], none⟩ := by
    rw [event_output, hdispatch]
  refine ⟨(machine Burst.foreign LateRefusal.exchange crates).event g
    (openBytes, LateRefusal.messageRefused), ?_, ?_, d, ?_⟩
  · rw [lateRequest, Machine.history, Machine.history]
  · rw [houtput]
  · rw [houtput]
    exact List.mem_filter.mpr ⟨hd, decide_eq_true hsid⟩

theorem refines_transport_lateRequest : ∃ g e,
    load "urn:hacp:agent:a" (.replicate 32 1) [securePin] .degraded = .ok g ∧
    (machine Burst.foreign LateRefusal.exchange crates).history g lateRequest = [e] ∧
    e.output.established = [Burst.sid] ∧ (∃ d, d ∈ e.output.deliveriesOf Burst.sid) ∧
    ∃ inputs, reached Burst.foreign "urn:hacp:agent:a" (.replicate 32 1) inputs =
        ((machine Burst.foreign LateRefusal.exchange crates).exec g lateRequest).endpoint ∧
      Accounted Burst.foreign LateRefusal.exchange crates
        ((machine Burst.foreign LateRefusal.exchange crates).history g lateRequest)
        (runHistory Burst.foreign "urn:hacp:agent:a" (.replicate 32 1) inputs) := by
  obtain ⟨g, hg⟩ := load_securePin
  obtain ⟨e, hhistory, hestablished, hdelivered⟩ := history_lateRequest hg
  exact ⟨g, e, hg, hhistory, hestablished, hdelivered, refines_transport hg lateRequest⟩

end Guardian
end Hacp.Secure
