import Hacp.Lib.Fresh
import Hacp.Secure.Inboxes
import Hacp.Wasmer.Authorization
import Hacp.Wasmer.ExecutionService

/-!
# What an execution service runs, reports and answers

Over any polls the service runs what the policy authorizes of the requests its guardian delivered,
each once and in the order of their delivery; it reports a rejection when it appears first; and it
has at most one reply sealed for every request, under the binding and for the sender of the
request.
-/
namespace Hacp.Wasmer
open Lib V2 Secure RateBudget
open Hosted (Leads)

namespace ExecutionService
variable {F : Foreign} {K : KeyExchange} {C : Crates} {write : Json → Bytes} {uid user : UInt32}
  {σ ω : Type} {host : Host ω} {x : ExecutionService}

/-! ## One report -/

/-- The request that a delivery makes, if it makes one. -/
def requestIn : Except SecureError Delivered → Option Delivered
  | .ok d => if d.message.kind = requestKind then some d else none
  | .error _ => none

variable (C x) in
/-- What is run of a request. -/
def runOf (d : Delivered) : Option (Delivered × ExecutionRequest) :=
  ((x.policy.authorizeValue C.base64 d.from_ d.contract d.message.body).toOption).map fun r => (d, r)

theorem requestIn_eq_some {delivery : Except SecureError Delivered} {d : Delivered} :
    requestIn delivery = some d ↔ delivery = .ok d ∧ d.message.kind = requestKind := by
  cases delivery with
  | error e => simp [requestIn]
  | ok d' =>
    simp only [requestIn, Except.ok.injEq]
    split_ifs with hkind
    · rw [Option.some.injEq]
      exact ⟨fun h => ⟨h, h ▸ hkind⟩, fun h => h.1⟩
    · simp only [false_iff, not_and]
      rintro rfl
      exact hkind

theorem runOf_eq_some {d : Delivered} {run : Delivered × ExecutionRequest} :
    runOf C x d = some run ↔ run.1 = d ∧
      x.policy.authorizeValue C.base64 d.from_ d.contract d.message.body = .ok run.2 := by
  unfold runOf
  cases x.policy.authorizeValue C.base64 d.from_ d.contract d.message.body with
  | error e => simp [Except.toOption]
  | ok request =>
    obtain ⟨d', request'⟩ := run
    simp [Except.toOption]
    tauto

section Process
variable {send : Workflow → σ → V2.Envelope → String → σ × Except SecureError Unit}

variable (C host x) in
theorem perform_kept (s : Serving σ ω) (d : Delivered) :
    (perform C host x s d).1.ran = s.ran ++ (runOf C x d).toList ∧
      (perform C host x s d).1.reported = s.reported ∧
      (perform C host x s d).1.socket = s.socket ∧ s.runs <+: (perform C host x s d).1.runs := by
  unfold perform runOf
  cases x.policy.authorizeValue C.base64 d.from_ d.contract d.message.body with
  | error denial => simp [Except.toOption]
  | ok request => simp [Except.toOption, Serving.ran]

variable (host x send) in
theorem reply_kept (s : Serving σ ω) (d : Delivered) (body : Json) :
    (reply host x send s d body).1.runs = s.runs ∧
      (reply host x send s d body).1.reported = s.reported := by
  unfold reply
  dsimp only
  cases Workflow.new x.socketPath x.local_ d.from_ x.context with
  | error e => exact ⟨rfl, rfl⟩
  | ok w => exact ⟨rfl, rfl⟩

theorem handle_other (s : Serving σ ω) {delivery : Except SecureError Delivered}
    (h : requestIn delivery = none) : (handle C host x send s delivery).1 = s := by
  cases delivery with
  | error e => rfl
  | ok d =>
    have hkind : d.message.kind ≠ requestKind := fun hkind => by simp [requestIn, hkind] at h
    rw [handle, if_pos hkind]

theorem handle_request (s : Serving σ ω) {d : Delivered} (h : d.message.kind = requestKind) :
    (handle C host x send s (.ok d)).1 =
      (reply host x send (perform C host x s d).1 d (perform C host x s d).2.2.2).1 := by
  rw [handle, if_neg (not_not.mpr h)]

variable (C host x send) in
theorem handle_kept (s : Serving σ ω) (delivery : Except SecureError Delivered) :
    (handle C host x send s delivery).1.ran =
        s.ran ++ ((requestIn delivery).bind (runOf C x)).toList ∧
      (handle C host x send s delivery).1.reported = s.reported ∧
      s.runs <+: (handle C host x send s delivery).1.runs := by
  cases hrequest : requestIn delivery with
  | none =>
    rw [handle_other s hrequest]
    exact ⟨(List.append_nil _).symm, rfl, List.prefix_rfl⟩
  | some d =>
    obtain ⟨rfl, hkind⟩ := requestIn_eq_some.mp hrequest
    obtain ⟨hran, hreported, -, hruns⟩ := perform_kept C host x s d
    obtain ⟨hruns', hreported'⟩ := reply_kept host x send (perform C host x s d).1 d
      (perform C host x s d).2.2.2
    rw [handle_request s hkind]
    have hran' : (reply host x send (perform C host x s d).1 d (perform C host x s d).2.2.2).1.ran =
        (perform C host x s d).1.ran :=
      congrArg (List.map fun r : Run => (r.delivered, r.request)) hruns'
    exact ⟨hran'.trans hran, hreported'.trans hreported, hruns' ▸ hruns⟩

variable (C host x send) in
theorem foldl_deliveryTurn (ds : List (Except SecureError Delivered)) (s : Serving σ ω)
    (outcomes : List Outcome) :
    let t := ds.foldl (deliveryTurn C host x send) (s, outcomes)
    t.1.ran = s.ran ++ (ds.filterMap requestIn).filterMap (runOf C x) ∧
      t.1.reported = s.reported ∧ s.runs <+: t.1.runs ∧
      ∃ handled, handled.length = ds.length ∧ t.2 = outcomes ++ handled := by
  induction ds generalizing s outcomes with
  | nil =>
    exact ⟨(List.append_nil _).symm, rfl, List.prefix_rfl, [], rfl, (List.append_nil _).symm⟩
  | cons d ds ih =>
    obtain ⟨hran, hreported, hruns, handled, hlength, houtcomes⟩ :=
      ih (handle C host x send s d).1 (outcomes ++ [(handle C host x send s d).2])
    obtain ⟨hran', hreported', hruns'⟩ := handle_kept C host x send s d
    dsimp only at hran hreported hruns houtcomes ⊢
    rw [List.foldl_cons, deliveryTurn]
    refine ⟨?_, hreported.trans hreported', hruns'.trans hruns,
      (handle C host x send s d).2 :: handled, congrArg Nat.succ hlength, ?_⟩
    · rw [hran, hran', List.append_assoc, List.filterMap_cons]
      cases hrequest : requestIn d with
      | none => rfl
      | some r => cases hrun : runOf C x r <;> simp [hrun]
    · rw [houtcomes, List.append_assoc, List.singleton_append]

/-- The outcomes of the rejections that are not known. -/
def announcedOf (reported : Finset (String × String))
    (rejections : List ((String × String) × SecureError)) : List Outcome :=
  (Fresh.entries reported rejections).map fun p => Outcome.rejected p.2

theorem announcedOf_append (reported : Finset (String × String))
    (ps qs : List ((String × String) × SecureError)) :
    announcedOf reported (ps ++ qs) =
      announcedOf reported ps ++ announcedOf (Fresh.keys reported ps) qs := by
  simp [announcedOf, Fresh.entries_append]

theorem foldl_reportTurn (reported : Finset (String × String))
    (ps : List ((String × String) × SecureError)) :
    ps.foldl reportTurn (reported, []) = (Fresh.keys reported ps, announcedOf reported ps) :=
  Fresh.foldl_entries Outcome.rejected ps reported []

theorem process_rejections (s : Serving σ ω) (ps : List ((String × String) × SecureError)) :
    process C host x send s ⟨ps, []⟩ =
      ({ s with reported := Fresh.keys s.reported ps }, announcedOf s.reported ps) := by
  rw [process, foldl_reportTurn]
  rfl

variable (C host x send) in
theorem process_kept (s : Serving σ ω) (report : Report) :
    let t := process C host x send s report
    t.1.ran = s.ran ++ (report.deliveries.filterMap requestIn).filterMap (runOf C x) ∧
      t.1.reported = Fresh.keys s.reported report.rejections ∧ s.runs <+: t.1.runs ∧
      ∃ handled, handled.length = report.deliveries.length ∧
        t.2 = announcedOf s.reported report.rejections ++ handled := by
  unfold process
  rw [foldl_reportTurn]
  exact foldl_deliveryTurn C host x send report.deliveries _ _

end Process

/-! ## Polls -/

/-- One poll that the guardian answered: what it had gathered, and what the service reported of
it. -/
structure Turn where
  gathered : Gathered
  announced : List Outcome
  handled : List Outcome

def polledOf (e : Event (Serving σ ω) Unit (Except SecureError (List Outcome))) :
    Option (List Outcome) := e.output.toOption

variable (F C x) in
def Turn.report (t : Turn) : Report := reportOf F C x.local_ x.context t.gathered

variable (F C x) in
def requested (turns : List Turn) : List Delivered :=
  turns.flatMap fun t => (t.report F C x).deliveries.filterMap requestIn

variable (F C x) in
def rejections (turns : List Turn) : List ((String × String) × SecureError) :=
  turns.flatMap fun t => (t.report F C x).rejections

theorem requested_snoc (turns : List Turn) (t : Turn) :
    requested F C x (turns ++ [t]) =
      requested F C x turns ++ (t.report F C x).deliveries.filterMap requestIn := by
  simp [requested]

theorem rejections_snoc (turns : List Turn) (t : Turn) :
    rejections F C x (turns ++ [t]) = rejections F C x turns ++ (t.report F C x).rejections := by
  simp [rejections]

variable (F C x) in
/-- What the service has done, by the polls that were answered. -/
structure Done (turns : List Turn)
    (events : List (Event (Serving σ ω) Unit (Except SecureError (List Outcome))))
    (s : Serving σ ω) : Prop where
  polled : events.filterMap polledOf = turns.map fun t => t.announced ++ t.handled
  handled : ∀ t ∈ turns, t.handled.length = t.gathered.delivered.length
  ran : s.ran = (requested F C x turns).filterMap (runOf C x)
  reported : s.reported = Fresh.keys ∅ (rejections F C x turns)
  announced : turns.flatMap Turn.announced = announcedOf ∅ (rejections F C x turns)

section Steps
variable {ask : σ → Request → σ × Except SecureError Response}

variable (F C write host x ask) in
/-- A poll fails, or takes what the guardian gathered. -/
theorem askStep_cases (s : Serving σ ω) :
    let t : Serving σ ω := { s with socket := (ask s.socket (.open_ x.context)).1 }
    (∃ e, x.askStep F C write host ask s = (t, .error e)) ∨
      ∃ b, (ask s.socket (.open_ x.context)).2 = .ok (.opened b) ∧
        x.askStep F C write host ask s =
          ((process C host x (fun w => w.askSend F write ask) t
            (reportOf F C x.local_ x.context b)).1,
            .ok (process C host x (fun w => w.askSend F write ask) t
              (reportOf F C x.local_ x.context b)).2) := by
  unfold askStep
  obtain ⟨t, e | r⟩ := ask s.socket (.open_ x.context)
  · exact .inl ⟨e, rfl⟩
  · cases r with
    | opened b => exact .inr ⟨b, rfl, rfl⟩
    | session pending peer mode => exact .inl ⟨_, rfl⟩
    | sealed sid seq path => exact .inl ⟨_, rfl⟩
    | status mode sessions insecure => exact .inl ⟨_, rfl⟩
    | fingerprint urn digest => exact .inl ⟨_, rfl⟩

theorem Done.fail {turns : List Turn} {s t : Serving σ ω}
    {events : List (Event (Serving σ ω) Unit (Except SecureError (List Outcome)))}
    {e : Event (Serving σ ω) Unit (Except SecureError (List Outcome))} {error : SecureError}
    (h : Done F C x turns events s) (houtput : e.output = .error error) (hran : t.ran = s.ran)
    (hreported : t.reported = s.reported) : Done F C x turns (events ++ [e]) t where
  polled := by
    have hnone : polledOf e = none := by rw [polledOf, houtput]; rfl
    rw [List.filterMap_append, h.polled, List.filterMap_cons, hnone, List.filterMap_nil,
      List.append_nil]
  handled := h.handled
  ran := hran.trans h.ran
  reported := hreported.trans h.reported
  announced := h.announced

theorem Done.poll {turns : List Turn} {s t : Serving σ ω}
    {events : List (Event (Serving σ ω) Unit (Except SecureError (List Outcome)))}
    {e : Event (Serving σ ω) Unit (Except SecureError (List Outcome))} {outcomes : List Outcome}
    (h : Done F C x turns events s) (hran : t.ran = s.ran) (hreported : t.reported = s.reported)
    (send : Workflow → σ → V2.Envelope → String → σ × Except SecureError Unit) (b : Gathered)
    (hprocess : process C host x send t (reportOf F C x.local_ x.context b) = (e.after, outcomes))
    (houtput : e.output = .ok outcomes) :
    ∃ turn : Turn, turn.gathered = b ∧ Done F C x (turns ++ [turn]) (events ++ [e]) e.after := by
  have hkept := process_kept C host x send t
    (reportOf F C x.local_ x.context b)
  rw [hprocess] at hkept
  obtain ⟨hran', hreported', -, handled, hlength, houtcomes⟩ := hkept
  rw [hreported, h.reported] at hreported' houtcomes
  dsimp only at hran' hreported' houtcomes
  refine ⟨⟨b, announcedOf (Fresh.keys ∅ (rejections F C x turns))
    (reportOf F C x.local_ x.context b).rejections, handled⟩, rfl, ?_⟩
  constructor
  · have hpolled : polledOf e = some outcomes := by rw [polledOf, houtput]; rfl
    rw [List.filterMap_append, h.polled, List.filterMap_cons, hpolled, houtcomes, List.map_append]
    rfl
  · intro turn hturn
    rcases List.mem_append.mp hturn with hold | hnew
    · exact h.handled turn hold
    · rw [List.mem_singleton.mp hnew, hlength]
      exact List.length_map _
  · rw [hran', hran, h.ran, requested_snoc, List.filterMap_append]
    rfl
  · rw [hreported', rejections_snoc, Fresh.keys_append]
    rfl
  · rw [List.flatMap_append, h.announced, List.flatMap_singleton, rejections_snoc,
      announcedOf_append]
    rfl

end Steps

/-! ## What the guardian is asked to seal -/

variable (C) in
/-- The session, the binding and the payload of a request to seal. -/
def sealOf (line : Bytes × Outside) : Option (String × String × String) :=
  match Request.ofBytes C line.1 with
  | .ok (.seal_ sid contract text) => some (sid, contract, text)
  | _ => none

def OnlySession (g : Guardian) (peer context sid : String) : Prop :=
  ∃ k s, s.info.sid = sid ∧ (g.active.toList.filter fun p =>
    p.2.info.peer = peer ∧ p.2.info.hacpSession = context) = [(k, s)]

theorem sealOf_line {line : Bytes × Outside} {r : Request} {sealed : String × String × String}
    (hread : Request.ofBytes C line.1 = .ok r) (hseal : sealOf C line = some sealed) :
    r = .seal_ sealed.1 sealed.2.1 sealed.2.2 := by
  unfold sealOf at hseal
  rw [hread] at hseal
  cases r with
  | seal_ sid contract text => rw [← Option.some.inj hseal]
  | session peer context => cases hseal
  | open_ context => cases hseal
  | status => cases hseal
  | fingerprint => cases hseal

theorem seals_nil {js : List (Bytes × Outside)} {r : Request}
    (hline : js = [] ∨ ∃ line, js = [line] ∧ Request.ofBytes C line.1 = .ok r)
    (hr : ∀ sid contract text, r ≠ .seal_ sid contract text) : js.filterMap (sealOf C) = [] := by
  rcases hline with rfl | ⟨line, rfl, hread⟩
  · rfl
  · rw [List.filterMap_cons]
    cases hseal : sealOf C line with
    | none => rfl
    | some sealed => exact absurd (sealOf_line hread hseal) (hr _ _ _)

theorem seals_line {line : Bytes × Outside} {sid contract text : String}
    (hread : Request.ofBytes C line.1 = .ok (.seal_ sid contract text)) :
    [line].filterMap (sealOf C) = [(sid, contract, text)] := by
  have hseal : sealOf C line = some (sid, contract, text) := by rw [sealOf, hread]
  rw [List.filterMap_cons_some hseal, List.filterMap_nil]

variable (F K uid user) in
/-- A send has the guardian seal the message for the only session with the peer, or nothing, and
then it does not succeed. -/
theorem askSend_seals (hserde : Serde C write) (w : Workflow) (h : Hosted) (m : V2.Envelope)
    (contract : String) :
    let sent := w.askSend F write (Hosted.ask F K C write uid user) h m contract
    ∃ js, Leads F K C h sent.1 js ∧
      (js.filterMap (sealOf C) = [] ∧ sent.2 ≠ .ok () ∨ ∃ sid,
        js.filterMap (sealOf C) = [(sid, contract, Base64.encode (write m.toJson))] ∧
          w.outgoing F m = .ok () ∧ OnlySession h.service.guardian w.remote w.context sid) := by
  unfold Workflow.askSend Workflow.askSession
  rcases hout : w.outgoing F m with e | _
  · exact ⟨[], .refl h, .inl ⟨rfl, by simp⟩⟩
  obtain ⟨js, hleads, hline, -⟩ := Hosted.ask_line F K uid user hserde h .status
  have hnothing : js.filterMap (sealOf C) = [] := seals_nil hline fun _ _ _ => by simp
  rcases hstatus : h.ask F K C write uid user .status with ⟨t, e | answer⟩
  · rw [hstatus] at hleads
    exact ⟨js, hleads, .inl ⟨hnothing, by simp⟩⟩
  obtain ⟨-, edge, hanswer⟩ := Hosted.ask_ok (congrArg Prod.snd hstatus)
  obtain rfl : h.service.guardian.status = answer := Except.ok.inj hanswer
  obtain ⟨mode, sessions, insecure, hstatus'⟩ :
      ∃ mode sessions insecure, h.service.guardian.status = .status mode sessions insecure :=
    ⟨_, _, _, rfl⟩
  rw [hstatus] at hleads
  rw [hstatus']
  dsimp only
  rcases hselect : w.sessionIn sessions with e | _ | sid
  · exact ⟨js, hleads, .inl ⟨hnothing, by simp⟩⟩
  · exact ⟨js, hleads, .inl ⟨hnothing, by simp⟩⟩
  obtain ⟨-, k, s, rfl, hfound⟩ := Workflow.select_of_status hstatus' hselect
  obtain ⟨ks, hleads', hline', -⟩ := Hosted.ask_line F K uid user hserde t
    (.seal_ s.info.sid contract (Base64.encode (write m.toJson)))
  dsimp only
  rcases hsealed : Hosted.ask F K C write uid user t
      (.seal_ s.info.sid contract (Base64.encode (write m.toJson))) with ⟨t', result⟩
  rw [hsealed] at hleads'
  have hwhole := hleads.trans hleads'
  refine ⟨js ++ ks, hwhole, ?_⟩
  rw [List.filterMap_append, hnothing, List.nil_append]
  rcases hline' with rfl | ⟨line, rfl, hread⟩
  · -- a request that is not handed over has no answer
    cases result with
    | error e => exact .inl ⟨rfl, fun h => by cases h⟩
    | ok answer =>
      have hhanded := (Hosted.ask_ok (congrArg Prod.snd hsealed)).1
      rw [hsealed] at hhanded
      exact absurd (hleads'.handed.trans (List.append_nil _)) hhanded
  · exact .inr ⟨s.info.sid, seals_line hread, rfl, k, s, rfl, hfound⟩

/-! ## Replies -/

/-- What a reply to a request says: the result of its run, which was of what was authorized, or the
denial. -/
inductive Answers (C : Crates) (host : Host ω) (x : ExecutionService) (runs : List Run)
    (d : Delivered) : Json → Prop
  | result {run : Run} (hrun : run ∈ runs) (hdelivered : run.delivered = d)
      (hauthorized : x.policy.authorizeValue C.base64 d.from_ d.contract d.message.body =
        .ok run.request)
      (hexecuted : ∃ h, run.result = (host.execute h run.request).2) :
      Answers C host x runs d run.result.resultBody
  | denial {denial : Denial}
      (hdenied : x.policy.authorizeValue C.base64 d.from_ d.contract d.message.body =
        .error denial) :
      Answers C host x runs d (denialBody (host.schemaError d.message.body) denial)

theorem Answers.mono {runs runs' : List Run} {d : Delivered} {body : Json}
    (h : Answers C host x runs d body) (hruns : runs ⊆ runs') : Answers C host x runs' d body := by
  cases h with
  | result hrun hdelivered hauthorized hexecuted =>
    exact .result (hruns hrun) hdelivered hauthorized hexecuted
  | denial hdenied => exact .denial hdenied

/-- A reply that the guardian was asked to seal. -/
structure Reply where
  request : Delivered
  sid : String
  message : V2.Envelope

/-- The reply as the request to seal says it. -/
def Reply.sealed (write : Json → Bytes) (r : Reply) : String × String × String :=
  (r.sid, r.request.contract, Base64.encode (write r.message.toJson))

/-- A reply that answers its request, given what has been run. -/
structure Reply.Answering (F : Foreign) (C : Crates) (host : Host ω) (x : ExecutionService)
    (runs : List Run) (r : Reply) : Prop where
  made : ∃ minted body, r.message = x.replyTo r.request minted body ∧
    Answers C host x runs r.request body
  valid : r.message.validate F = .ok ()

/-- It does so in the session that the guardian has with the sender when it is asked. -/
structure Reply.Proper (F : Foreign) (K : KeyExchange) (C : Crates) (host : Host ω)
    (x : ExecutionService) (g : Guardian) (lines : List (Bytes × Outside)) (runs : List Run)
    (r : Reply) : Prop extends r.Answering F C host x runs where
  session : ∃ pre, pre <+: lines ∧
    OnlySession ((Guardian.machine F K C).exec g pre) r.request.from_ x.context r.sid

/-- The requests that lead from one state to another, and the replies among them, given what has
been run. -/
structure Hands (F : Foreign) (K : KeyExchange) (C : Crates) (write : Json → Bytes)
    (host : Host ω) (x : ExecutionService) (runs : List Run) (h h' : Hosted)
    (js : List (Bytes × Outside)) (rs : List Reply) : Prop where
  leads : Leads F K C h h' js
  seals : js.filterMap (sealOf C) = rs.map (Reply.sealed write)
  proper : ∀ r ∈ rs, r.Proper F K C host x h.service.guardian js runs

namespace Hands
variable {h h' h'' : Hosted} {js ks : List (Bytes × Outside)} {rs qs : List Reply}
  {runs runs' : List Run}

theorem refl (h : Hosted) : Hands F K C write host x runs h h [] [] :=
  ⟨.refl h, rfl, fun _ hr => absurd hr List.not_mem_nil⟩

/-- Requests among which there is none to seal. -/
theorem of_leads (hleads : Leads F K C h h' js) (hseals : js.filterMap (sealOf C) = []) :
    Hands F K C write host x runs h h' js [] :=
  ⟨hleads, hseals, fun _ hr => absurd hr List.not_mem_nil⟩

theorem mono (hhands : Hands F K C write host x runs h h' js rs) (hruns : runs ⊆ runs') :
    Hands F K C write host x runs' h h' js rs where
  leads := hhands.leads
  seals := hhands.seals
  proper r hr := by
    have hproper := hhands.proper r hr
    obtain ⟨minted, body, hmade, hanswers⟩ := hproper.made
    exact { hproper with made := ⟨minted, body, hmade, hanswers.mono hruns⟩ }

theorem trans (hfst : Hands F K C write host x runs h h' js rs)
    (hsnd : Hands F K C write host x runs h' h'' ks qs) :
    Hands F K C write host x runs h h'' (js ++ ks) (rs ++ qs) where
  leads := hfst.leads.trans hsnd.leads
  seals := by rw [List.filterMap_append, hfst.seals, hsnd.seals, List.map_append]
  proper r hr := by
    rcases List.mem_append.mp hr with hr | hr
    · have hproper := hfst.proper r hr
      obtain ⟨pre, hpre, hsession⟩ := hproper.session
      exact { hproper with session := ⟨pre, hpre.trans (List.prefix_append _ _), hsession⟩ }
    · have hproper := hsnd.proper r hr
      obtain ⟨pre, hpre, hsession⟩ := hproper.session
      refine { hproper with session := ⟨js ++ pre, (List.prefix_append_right_inj js).mpr hpre, ?_⟩ }
      rwa [Machine.exec_append, hfst.leads.exec]

end Hands

variable (F K uid user) in
/-- A reply has the guardian seal nothing, or a proper reply. -/
theorem reply_hands (hserde : Serde C write) (s : Serving Hosted ω) (d : Delivered) {body : Json}
    {runs : List Run} (hbody : Answers C host x runs d body) :
    ∃ js rs, Hands F K C write host x runs s.socket (reply host x
        (fun w => w.askSend F write (Hosted.ask F K C write uid user)) s d body).1.socket js rs ∧
      (rs.map Reply.request).Sublist [d] := by
  unfold reply
  dsimp only
  cases hnew : Workflow.new x.socketPath x.local_ d.from_ x.context with
  | error e => exact ⟨[], [], .refl _, List.nil_sublist _⟩
  | ok w =>
    obtain ⟨-, -, -, -, -, rfl⟩ := Workflow.new_eq_ok.mp hnew
    dsimp only
    obtain ⟨js, hleads, hseals⟩ := askSend_seals F K uid user hserde
      ⟨x.local_, d.from_, x.context⟩ s.socket (x.replyTo d (host.mint s.host).2 body) d.contract
    rcases hseals with ⟨hnothing, -⟩ | ⟨sid, hseal, hout, hsession⟩
    · exact ⟨js, [], .of_leads hleads hnothing, List.nil_sublist _⟩
    · obtain ⟨hvalid, -, -, -⟩ := Workflow.outgoing_eq_ok.mp hout
      refine ⟨js, [⟨d, sid, _⟩], ⟨hleads, hseal, fun r hr => ?_⟩, .refl _⟩
      rw [List.mem_singleton.mp hr]
      exact ⟨⟨⟨_, body, rfl, hbody⟩, hvalid⟩, [], List.nil_prefix, hsession⟩

variable (C host x) in
theorem perform_answers (s : Serving Hosted ω) (d : Delivered) :
    Answers C host x (perform C host x s d).1.runs d (perform C host x s d).2.2.2 := by
  unfold perform
  cases hauthorized : x.policy.authorizeValue C.base64 d.from_ d.contract d.message.body with
  | ok request =>
    have hrun : (⟨d, request, (host.execute s.host request).2⟩ : Run) ∈
        s.runs ++ [⟨d, request, (host.execute s.host request).2⟩] :=
      List.mem_append_right _ (List.mem_singleton_self _)
    exact .result hrun rfl hauthorized ⟨s.host, rfl⟩
  | error denial => exact .denial hauthorized

variable (F K uid user host x) in
theorem handle_hands (hserde : Serde C write) (s : Serving Hosted ω)
    (delivery : Except SecureError Delivered) :
    let t := (handle C host x (fun w => w.askSend F write (Hosted.ask F K C write uid user)) s
      delivery).1
    ∃ js rs, Hands F K C write host x t.runs s.socket t.socket js rs ∧
      (rs.map Reply.request).Sublist (requestIn delivery).toList := by
  dsimp only
  cases hrequest : requestIn delivery with
  | none =>
    rw [handle_other s hrequest]
    exact ⟨[], [], .refl _, .refl _⟩
  | some d =>
    obtain ⟨rfl, hkind⟩ := requestIn_eq_some.mp hrequest
    have hreply := reply_hands F K uid user hserde (perform C host x s d).1 d
      (perform_answers C host x s d)
    rw [(perform_kept C host x s d).2.2.1] at hreply
    rw [handle_request s hkind, (reply_kept host x _ _ _ _).1]
    exact hreply

variable (F K uid user host x) in
theorem process_hands (hserde : Serde C write) (s : Serving Hosted ω) (report : Report) :
    let t := (process C host x (fun w => w.askSend F write (Hosted.ask F K C write uid user)) s
      report).1
    ∃ js rs, Hands F K C write host x t.runs s.socket t.socket js rs ∧
      (rs.map Reply.request).Sublist (report.deliveries.filterMap requestIn) := by
  have hfold (ds : List (Except SecureError Delivered)) (s : Serving Hosted ω)
      (outcomes : List Outcome) :
      let t := (ds.foldl (deliveryTurn C host x fun w => w.askSend F write
        (Hosted.ask F K C write uid user)) (s, outcomes)).1
      ∃ js rs, Hands F K C write host x t.runs s.socket t.socket js rs ∧
        (rs.map Reply.request).Sublist (ds.filterMap requestIn) := by
    induction ds generalizing s outcomes with
    | nil => exact ⟨[], [], .refl _, .refl _⟩
    | cons d ds ih =>
      obtain ⟨js, rs, hhands, hsub⟩ := handle_hands F K uid user host x hserde s d
      dsimp only at ih ⊢
      rw [List.foldl_cons, deliveryTurn]
      obtain ⟨ks, qs, hhands', hsub'⟩ := ih (handle C host x (fun w => w.askSend F write
        (Hosted.ask F K C write uid user)) s d).1 (outcomes ++ [(handle C host x (fun w =>
          w.askSend F write (Hosted.ask F K C write uid user)) s d).2])
      obtain ⟨-, -, hruns, -⟩ := foldl_deliveryTurn C host x
        (fun w => w.askSend F write (Hosted.ask F K C write uid user)) ds
        (handle C host x (fun w => w.askSend F write (Hosted.ask F K C write uid user)) s d).1
        (outcomes ++ [(handle C host x (fun w => w.askSend F write
          (Hosted.ask F K C write uid user)) s d).2])
      refine ⟨js ++ ks, rs ++ qs, (hhands.mono hruns.subset).trans hhands', ?_⟩
      rw [List.map_append, List.filterMap_cons]
      cases hrequest : requestIn d with
      | none =>
        rw [hrequest] at hsub
        rw [List.sublist_nil.mp hsub]
        exact hsub'
      | some r =>
        rw [hrequest] at hsub
        exact hsub.append hsub'
  unfold process
  obtain ⟨reported, outcomes⟩ := report.rejections.foldl reportTurn (s.reported, [])
  exact hfold report.deliveries { s with reported := reported } outcomes

/-! ## Runs -/

/-- What the guardian has gathered by its answers, and what the service has made of it. -/
structure Accounted (F : Foreign) (K : KeyExchange) (C : Crates) (write : Json → Bytes)
    (host : Host ω) (x : ExecutionService) (start : Hosted) (turns : List Turn) (rs : List Reply)
    (events : List (Event (Serving Hosted ω) Unit (Except SecureError (List Outcome))))
    (s : Serving Hosted ω) (js : List (Bytes × Outside)) : Prop where
  done : Done F C x turns events s
  hands : Hands F K C write host x s.runs start s.socket js rs
  gathered : (turns.map Turn.gathered).Sublist
    (((Guardian.machine F K C).history start.service.guardian js).filterMap Guardian.openedOf)
  replied : (rs.map Reply.request).Sublist (requested F C x turns)

variable (F K uid user) in
/-- One poll hands the guardian requests, and what it gathers for them is accounted for. -/
theorem Accounted.step (hserde : Serde C write) {start : Hosted} {turns : List Turn}
    {rs : List Reply}
    {events : List (Event (Serving Hosted ω) Unit (Except SecureError (List Outcome)))}
    {s : Serving Hosted ω} {js : List (Bytes × Outside)}
    (h : Accounted F K C write host x start turns rs events s js) :
    let M := x.asked F C write host (Hosted.ask F K C write uid user)
    ∃ turns rs js, Accounted F K C write host x start turns rs (events ++ [M.event s ()])
      (M.step s ()).1 js := by
  dsimp only
  obtain ⟨ks, hleads, hline, hopened⟩ :=
    Hosted.ask_line F K uid user hserde s.socket (.open_ x.context)
  have hnothing : ks.filterMap (sealOf C) = [] := seals_nil hline fun _ _ _ => by simp
  have hhistory : (Guardian.machine F K C).history start.service.guardian (js ++ ks) =
      (Guardian.machine F K C).history start.service.guardian js ++
        (Guardian.machine F K C).history s.socket.service.guardian ks := by
    rw [Machine.history_append, h.hands.leads.exec]
  have hopening : Hands F K C write host x s.runs start
      (s.socket.ask F K C write uid user (.open_ x.context)).1 (js ++ ks) (rs ++ []) :=
    h.hands.trans (.of_leads hleads hnothing)
  rw [List.append_nil] at hopening
  rcases askStep_cases F C write host x (Hosted.ask F K C write uid user) s with
    ⟨e, hstep⟩ | ⟨b, hb, hstep⟩
  · refine ⟨turns, rs, js ++ ks, ?_, ?_, ?_, h.replied⟩
    · exact h.done.fail (congrArg Prod.snd hstep) (congrArg (fun r => r.1.ran) hstep)
        (congrArg (fun r => r.1.reported) hstep)
    · rw [show ((x.asked F C write host (Hosted.ask F K C write uid user)).step s ()).1 = _ from
        congrArg Prod.fst hstep]
      exact hopening
    · rw [hhistory, List.filterMap_append]
      exact h.gathered.trans (List.sublist_append_left _ _)
  · let t : Serving Hosted ω :=
      { s with socket := (s.socket.ask F K C write uid user (.open_ x.context)).1 }
    obtain ⟨turn, rfl, hdone⟩ := h.done.poll (t := t) rfl rfl
      (fun w => w.askSend F write (Hosted.ask F K C write uid user)) b
      (e := (x.asked F C write host (Hosted.ask F K C write uid user)).event s ())
      (Prod.ext (congrArg Prod.fst hstep).symm rfl) (congrArg Prod.snd hstep)
    obtain ⟨ms, qs, hhands, hreplied⟩ :=
      process_hands F K uid user host x hserde t
        (reportOf F C x.local_ x.context turn.gathered)
    obtain ⟨-, -, hruns, -⟩ := process_kept C host x
      (fun w => w.askSend F write (Hosted.ask F K C write uid user)) t
      (reportOf F C x.local_ x.context turn.gathered)
    refine ⟨turns ++ [turn], rs ++ qs, js ++ ks ++ ms, hdone, ?_, ?_, ?_⟩
    · rw [show ((x.asked F C write host (Hosted.ask F K C write uid user)).step s ()).1 = _ from
        congrArg Prod.fst hstep]
      exact (hopening.mono hruns.subset).trans hhands
    · rw [Machine.history_append, hhistory, List.filterMap_append, List.filterMap_append,
        hopened _ hb, List.map_append]
      exact (h.gathered.append (.refl _)).trans (List.sublist_append_left _ _)
    · rw [List.map_append, requested_snoc]
      exact h.replied.append hreplied

variable (F K uid user) in
/-- Whatever comes of its polls, what the service has done is accounted for by what its guardian
was handed. -/
theorem exists_accounted (hserde : Serde C write) (host : Host ω) (x : ExecutionService)
    (g : Guardian) (cap : UInt32) (ahead : List (Arrival × Outside)) (w : ω) (polls : List Unit) :
    let M := x.machine F C write host (Hosted.socket F K C write uid user)
    let start : Hosted := ⟨.load g cap, ahead, []⟩
    ∃ turns rs, Accounted F K C write host x start turns rs
      (M.history (.start start w) polls) (M.exec (.start start w) polls)
      (M.exec (.start start w) polls).socket.handed := by
  dsimp only
  rw [machine_eq_asked (fun h r => Client.request_hosted F K uid user hserde h r) hserde]
  have hrun := (x.asked F C write host (Hosted.ask F K C write uid user)).history_invariant
    (I := fun events s => ∃ turns rs js,
      Accounted F K C write host x ⟨.load g cap, ahead, []⟩ turns rs events s js)
    (s := .start ⟨.load g cap, ahead, []⟩ w)
    ⟨[], [], [], ⟨rfl, by simp, rfl, rfl, rfl⟩, .refl _, .refl _, .refl _⟩
    (fun polls poll ⟨turns, rs, js, h⟩ => h.step F K uid user hserde) polls
  obtain ⟨turns, rs, js, h⟩ := hrun
  obtain rfl : _ = js := h.hands.leads.handed
  exact ⟨turns, rs, h⟩

/-! ## What runs -/

/-- A request that was run and the delivery it came in. -/
structure Executed where
  delivery : Delivery
  request : Delivered
  run : ExecutionRequest

variable (F C x) in
def executedOf (d : Delivery) : Option Executed :=
  (requestIn (decodeDelivery F C x.local_ x.context d)).bind fun r =>
    (runOf C x r).map fun run => ⟨d, run.1, run.2⟩

variable (F C x) in
def executedIn (turns : List Turn) : List Executed :=
  (turns.flatMap fun t => t.gathered.delivered).filterMap (executedOf F C x)

theorem readDelivered_eq_ok {local_ context from_ contract : String} {payload : Bytes}
    {d : Delivered} :
    readDelivered F C local_ context from_ contract payload = .ok d ↔
      d.from_ = from_ ∧ d.contract = contract ∧
        (C.tokens payload).bind V2.Envelope.ofJson = some d.message ∧
          d.message.validate F = .ok () ∧ d.message.from_ = from_ ∧ d.message.to_ = local_ ∧
            d.message.sessionId = context := by
  obtain ⟨sender, binding, m⟩ := d
  unfold readDelivered
  cases (C.tokens payload).bind V2.Envelope.ofJson with
  | none => simp [orSchema, bind, Except.bind]
  | some m' =>
    simp only [orSchema, bind_eq_ok, mapError_eq_ok, guard_eq_ok, Except.ok.injEq,
      Delivered.mk.injEq, Option.some.injEq]
    grind

theorem decodeDelivery_eq_ok {local_ context : String} {d : Delivery} {r : Delivered} :
    decodeDelivery F C local_ context d = .ok r ↔ d.sid ≠ "" ∧ r.from_ = d.from_ ∧
      r.contract = d.contract ∧ (C.tokens d.payload).bind V2.Envelope.ofJson = some r.message ∧
        r.message.validate F = .ok () ∧ r.message.from_ = d.from_ ∧ r.message.to_ = local_ ∧
          r.message.sessionId = context := by
  unfold decodeDelivery
  rw [guard_eq_ok, readDelivered_eq_ok]

/-- A delivery that brings a message from its sender under a binding. -/
structure Brings (write : Json → Bytes) (sender contract : String) (m : V2.Envelope)
    (d : Delivery) : Prop where
  sid : d.sid ≠ ""
  from_ : d.from_ = sender
  contract : d.contract = contract
  payload : d.payload = write m.toJson

theorem Brings.decoded (hserde : Serde C write) {local_ context sender contract : String}
    {m : V2.Envelope} {d : Delivery} (h : Brings write sender contract m d)
    (hvalid : m.validate F = .ok ()) (hdepth : m.toJson.depth ≤ 127)
    (hname : m.toJson.unmarked = true) (hfrom : m.from_ = sender) (hto : m.to_ = local_)
    (hcontext : m.sessionId = context) :
    decodeDelivery F C local_ context d = .ok ⟨sender, contract, m⟩ := by
  rw [decodeDelivery_eq_ok]
  refine ⟨h.sid, h.from_.symm, h.contract.symm, ?_, hvalid, hfrom.trans h.from_.symm, hto, hcontext⟩
  rw [h.payload]
  exact Workflow.tokens_message hserde hvalid hdepth hname

theorem executedOf_eq_some {d : Delivery} {e : Executed} :
    executedOf F C x d = some e ↔ e.delivery = d ∧
      decodeDelivery F C x.local_ x.context d = .ok e.request ∧
        e.request.message.kind = requestKind ∧
          x.policy.authorizeValue C.base64 e.request.from_ e.request.contract
            e.request.message.body = .ok e.run := by
  obtain ⟨delivery, request, run⟩ := e
  unfold executedOf
  rw [Option.bind_eq_some_iff]
  constructor
  · rintro ⟨r, hr, hrun⟩
    obtain ⟨hdecode, hkind⟩ := requestIn_eq_some.mp hr
    obtain ⟨p, hp, heq⟩ := Option.map_eq_some_iff.mp hrun
    obtain ⟨rfl, hauthorized⟩ := runOf_eq_some.mp hp
    cases heq
    exact ⟨rfl, hdecode, hkind, hauthorized⟩
  · rintro ⟨rfl, hdecode, hkind, hauthorized⟩
    have hrun : runOf C x request = some (request, run) := runOf_eq_some.mpr ⟨rfl, hauthorized⟩
    refine ⟨request, requestIn_eq_some.mpr ⟨hdecode, hkind⟩, ?_⟩
    rw [hrun]
    rfl

/-- What has run is what the requests among the deliveries ask for. -/
theorem ran_executedIn (turns : List Turn) :
    (requested F C x turns).filterMap (runOf C x) =
      (executedIn F C x turns).map fun e => (e.request, e.run) := by
  have hturn (t : Turn) : ((t.report F C x).deliveries.filterMap requestIn).filterMap (runOf C x) =
      (t.gathered.delivered.filterMap (executedOf F C x)).map fun e => (e.request, e.run) := by
    rw [Turn.report, reportOf, List.filterMap_map, List.filterMap_filterMap, List.map_filterMap]
    congr 1
    funext d
    simp [executedOf, Option.map_bind, Function.comp_def]
  rw [requested, executedIn, List.filterMap_flatMap, List.filterMap_flatMap, List.map_flatMap]
  simp only [hturn]

theorem mem_executedIn {turns : List Turn} {e : Executed} (he : e ∈ executedIn F C x turns) :
    decodeDelivery F C x.local_ x.context e.delivery = .ok e.request ∧
      e.request.message.kind = requestKind ∧
        x.policy.authorizeValue C.base64 e.request.from_ e.request.contract
          e.request.message.body = .ok e.run := by
  obtain ⟨d, -, hd⟩ := List.mem_filterMap.mp he
  obtain ⟨rfl, hexecuted⟩ := executedOf_eq_some.mp hd
  exact hexecuted

/-- The deliveries of a session, as the guardian's answers list them. -/
theorem Accounted.delivered {start : Hosted} {turns : List Turn} {rs : List Reply}
    {events : List (Event (Serving Hosted ω) Unit (Except SecureError (List Outcome)))}
    {s : Serving Hosted ω} {js : List (Bytes × Outside)}
    (h : Accounted F K C write host x start turns rs events s js) (sid : String) :
    (((executedIn F C x turns).map Executed.delivery).filter (·.sid = sid)).Sublist
      (((Guardian.machine F K C).history start.service.guardian js).flatMap fun e =>
        e.output.deliveriesOf sid) := by
  have hexecuted : ((executedIn F C x turns).map Executed.delivery).Sublist
      ((turns.map Turn.gathered).flatMap Gathered.delivered) := by
    rw [List.flatMap_map]
    exact Workflow.filterMap_sublist (fun d e he => (executedOf_eq_some.mp he).1) _
  rw [← Workflow.opened_deliveries]
  exact (hexecuted.trans (h.gathered.flatMap _)).filter _

/-- What is authorized is bound to a contract and asked for by a peer of the policy. -/
theorem authorizeValue_bound {policy : ExecutionPolicy} {decode : String → Option Bytes}
    {sender contract : String} {v : Json} {request : ExecutionRequest}
    (h : policy.authorizeValue decode sender contract v = .ok request) :
    contract ≠ "" ∧ sender ∈ policy.allowedPeers := by
  unfold ExecutionPolicy.authorizeValue at h
  split_ifs at h with hresident
  obtain ⟨payload, -, hpre, -⟩ := ExecutionPolicy.authorize_eq_ok.mp h
  obtain ⟨hbound, hpeer, -, -⟩ := ExecutionPolicy.preliminary_eq_ok.mp hpre
  exact ⟨hbound, hpeer⟩

/-- Who the service and a client may be, and with whom, is what a workflow asks for, but for the
socket and for one that would talk with itself. -/
theorem workflow_of_identities {local_ context : String} {others : List String}
    (h : validateIdentities local_ context others = .ok ()) {peer : String} (hpeer : peer ∈ others)
    {socket : String} (hsocket : socket ≠ "") (hother : local_ ≠ peer) :
    Workflow.new socket local_ peer context = .ok ⟨local_, peer, context⟩ := by
  rw [validateIdentities, guard_eq_ok, not_or, not_or, List.any_eq_true, not_exists] at h
  obtain ⟨⟨hcontext, hlocal, hothers⟩, -⟩ := h
  have hvalid (urn : String) (hurn : ¬(AgentUrn.parse urn).toOption.isNone = true) :
      (AgentUrn.parse urn).isOk = true := by
    cases hparse : AgentUrn.parse urn with
    | ok parsed => rfl
    | error e => exact absurd (by rw [hparse]; rfl) hurn
  exact Workflow.new_eq_ok.mpr ⟨hsocket, hother, hcontext, hvalid local_ hlocal,
    hvalid peer fun hnone => hothers peer ⟨hpeer, hnone⟩, rfl⟩

/-- What comes of the reply to a request that a service authorizes is what comes of the send. -/
theorem authorized_replied {socketPath local_ context : String} {policy : ExecutionPolicy}
    (hnew : ExecutionService.new socketPath local_ context policy = .ok x) (hsocket : socketPath ≠ "")
    (send : Workflow → σ → V2.Envelope → String → σ × Except SecureError Unit) (s : Serving σ ω)
    {d : Delivered} {request : ExecutionRequest} (hother : local_ ≠ d.from_)
    (hauthorized : x.policy.authorizeValue C.base64 d.from_ d.contract d.message.body =
      .ok request) (body : Json) :
    (reply host x send s d body).2 = (send ⟨local_, d.from_, context⟩ s.socket
      (x.replyTo d (host.mint s.host).2 body) d.contract).2.isOk := by
  rw [ExecutionService.new, then_eq_ok, Except.ok.injEq] at hnew
  obtain ⟨hvalid, rfl⟩ := hnew
  rw [reply, workflow_of_identities hvalid (authorizeValue_bound hauthorized).2 hsocket hother]

variable (F K uid user) in
/-- Over any polls the service runs nothing but what the policy authorizes for the authenticated
sender of a request, under the binding it came with. Every request that runs is the payload of a
delivery that the guardian answered with: the session of the sender had verified and opened its
envelope, and the control state that was read accepted the binding. For each session the numbers of
these deliveries increase, so that no request runs twice. -/
theorem executions_authorized (hserde : Serde C write) {local_ : String}
    {seed : Vector UInt8 32} {pins : List Pin} {mode : Mode} {g : Guardian}
    (hload : Guardian.load local_ seed pins mode = .ok g) (host : Host ω) (x : ExecutionService)
    (cap : UInt32) (ahead : List (Arrival × Outside)) (w : ω) (polls : List Unit)
    (hfresh : Guardian.FreshRequests F K C g
      ((x.machine F C write host (Hosted.socket F K C write uid user)).exec
        (.start ⟨.load g cap, ahead, []⟩ w) polls).socket.handed) :
    let M := x.machine F C write host (Hosted.socket F K C write uid user)
    let last := M.exec (.start ⟨.load g cap, ahead, []⟩ w) polls
    let answers := (Guardian.machine F K C).history g last.socket.handed
    (Guardian.machine F K C).exec g last.socket.handed = last.socket.service.guardian ∧
    ∃ executed : List Executed,
      last.ran = executed.map (fun e => (e.request, e.run)) ∧
      (∀ sid, ((executed.map Executed.delivery).filter (·.sid = sid)).Sublist
        (answers.flatMap fun e => e.output.deliveriesOf sid)) ∧
      (∀ sid, ((executed.map Executed.delivery).filter (·.sid = sid)).Pairwise
        fun a b => a.seq < b.seq) ∧
      ∀ e ∈ executed,
        x.policy.authorizeValue C.base64 e.request.from_ e.request.contract
          e.request.message.body = .ok e.run ∧
        e.request.contract ≠ "" ∧ e.request.from_ ∈ x.policy.allowedPeers ∧
        e.request.message.kind = requestKind ∧ e.request.message.validate F = .ok () ∧
        e.request.message.from_ = e.request.from_ ∧ e.request.message.to_ = x.local_ ∧
        e.request.message.sessionId = x.context ∧
        e.delivery.from_ = e.request.from_ ∧ e.delivery.contract = e.request.contract ∧
        (C.tokens e.delivery.payload).bind V2.Envelope.ofJson = some e.request.message ∧
        ∃ answer ∈ answers, e.delivery ∈ answer.output.deliveriesOf e.delivery.sid ∧
          ∃ made env view, Vouched F K C answers answer e.delivery made env view := by
  dsimp only
  obtain ⟨turns, rs, haccounted⟩ :=
    exists_accounted F K uid user hserde host x g cap ahead w polls
  obtain ⟨hascend, hvouched⟩ := Guardian.listed_vouched hload hfresh
    (fun d hd => by
      obtain ⟨e, he, rfl⟩ := List.mem_map.mp hd
      exact (decodeDelivery_eq_ok.mp (mem_executedIn he).1).1) haccounted.delivered
  refine ⟨haccounted.hands.leads.exec, executedIn F C x turns,
    haccounted.done.ran.trans (ran_executedIn turns), haccounted.delivered, hascend,
    fun e he => ?_⟩
  obtain ⟨hdecode, hkind, hauthorized⟩ := mem_executedIn he
  obtain ⟨-, hfrom, hcontract, hread, hvalid, hinner, hto, hcontext⟩ :=
    decodeDelivery_eq_ok.mp hdecode
  obtain ⟨hbound, hpeer⟩ := authorizeValue_bound hauthorized
  exact ⟨hauthorized, hbound, hpeer, hkind, hvalid, hinner.trans hfrom.symm, hto, hcontext,
    hfrom.symm, hcontract.symm, hread, hvouched e.delivery (List.mem_map_of_mem he)⟩

/-! ## What is reported -/

variable (F K uid user) in
/-- Every poll that the guardian answers reports the rejections it brings first, then one outcome
for each delivery. Of the rejections over all polls each distinct one, by its entry and its error,
is reported exactly once, where it appears first. -/
theorem rejections_reported_once (hserde : Serde C write) (host : Host ω) (x : ExecutionService)
    (g : Guardian) (cap : UInt32) (ahead : List (Arrival × Outside)) (w : ω)
    (polls : List Unit) :
    let M := x.machine F C write host (Hosted.socket F K C write uid user)
    let start : Serving Hosted ω := .start ⟨.load g cap, ahead, []⟩ w
    ∃ (turns : List Turn) (firsts : List ((String × String) × SecureError)),
      (M.history start polls).filterMap polledOf =
        turns.map (fun t => t.announced ++ t.handled) ∧
      (turns.map Turn.gathered).Sublist (((Guardian.machine F K C).history g
        (M.exec start polls).socket.handed).filterMap Guardian.openedOf) ∧
      (∀ t ∈ turns, t.handled.length = t.gathered.delivered.length) ∧
      turns.flatMap Turn.announced = firsts.map (fun p => Outcome.rejected p.2) ∧
      firsts.Sublist (rejections F C x turns) ∧ (firsts.map Prod.fst).Nodup ∧
      ∀ p, p ∈ firsts ↔ ∃ pre post, rejections F C x turns = pre ++ p :: post ∧
        p.1 ∉ pre.map Prod.fst := by
  dsimp only
  obtain ⟨turns, rs, haccounted⟩ :=
    exists_accounted F K uid user hserde host x g cap ahead w polls
  refine ⟨turns, Fresh.entries ∅ (rejections F C x turns), haccounted.done.polled,
    haccounted.gathered, haccounted.done.handled, haccounted.done.announced,
    Fresh.entries_sublist, Fresh.entries_nodup, fun p => ?_⟩
  rw [Fresh.mem_entries_iff]
  simp

/-! ## What is answered -/

variable (F K uid user) in
/-- Over any polls the guardian is asked to seal at most one reply for every request that it
delivered, in the order of the requests. The reply has the result of running what the policy
authorized, or the denial; it goes from the service to the authenticated sender, refers to the
request, and is to be sealed under the binding the request came with, for the only session that the
guardian has with the sender in the context of the service. -/
theorem replies_under_binding (hserde : Serde C write) (host : Host ω) (x : ExecutionService)
    (g : Guardian) (cap : UInt32) (ahead : List (Arrival × Outside)) (w : ω)
    (polls : List Unit) :
    let M := x.machine F C write host (Hosted.socket F K C write uid user)
    let last := M.exec (.start ⟨.load g cap, ahead, []⟩ w) polls
    ∃ (turns : List Turn) (replies : List Reply),
      (turns.map Turn.gathered).Sublist (((Guardian.machine F K C).history g
        last.socket.handed).filterMap Guardian.openedOf) ∧
      (replies.map Reply.request).Sublist (requested F C x turns) ∧
      last.socket.handed.filterMap (sealOf C) = replies.map (Reply.sealed write) ∧
      ∀ r ∈ replies, r.Proper F K C host x g last.socket.handed last.runs := by
  dsimp only
  obtain ⟨turns, rs, haccounted⟩ :=
    exists_accounted F K uid user hserde host x g cap ahead w polls
  exact ⟨turns, rs, haccounted.gathered, haccounted.replied, haccounted.hands.seals,
    haccounted.hands.proper⟩

/-! ## A service in a session -/

section Step
variable {s t : Serving σ ω} {socket : σ}

theorem handle_replied {send : Workflow → σ → V2.Envelope → String → σ × Except SecureError Unit}
    {d : Delivered} {status : Status} {detail : String} {body : Json} {w : Workflow}
    (hkind : d.message.kind = requestKind)
    (hperform : perform C host x s d = (t, status, detail, body))
    (hworkflow : Workflow.new x.socketPath x.local_ d.from_ x.context = .ok w)
    (hsend : send w t.socket (x.replyTo d (host.mint t.host).2 body) d.contract =
      (socket, .ok ())) :
    handle C host x send s (.ok d) = ({ t with host := (host.mint t.host).1, socket := socket },
      ⟨some d.message.messageId, some d.from_, status, detail, true⟩) := by
  rw [handle, if_neg (not_not.mpr hkind), hperform]
  dsimp only
  rw [reply]
  dsimp only
  rw [hworkflow]
  dsimp only
  rw [hsend]
  rfl

theorem askStep_opened (write : Json → Bytes) (host : Host ω)
    {ask : σ → Request → σ × Except SecureError Response} {b : Gathered}
    (h : ask s.socket (.open_ x.context) = (socket, .ok (.opened b))) :
    x.askStep F C write host ask s =
      ((process C host x (fun w => w.askSend F write ask) { s with socket := socket }
        (reportOf F C x.local_ x.context b)).1, .ok (process C host x
          (fun w => w.askSend F write ask) { s with socket := socket }
            (reportOf F C x.local_ x.context b)).2) := by
  rw [askStep, h]

end Step

/-- A host on which every run exits at once. -/
def steadyHost : Host ℕ where
  execute n _ := (n + 1, ⟨some 0, "", "", false, ⟨0⟩, none⟩)
  mint n := (n + 1, "000000000000", "2026-09-04T12:00:00Z")
  schemaError _ := "missing field"

def servingAgent : ExecutionService :=
  ⟨"/run/hacp/guardian.sock", "urn:hacp:agent:a", "s-1",
    { ExecutionPolicy.samplePolicy 65536 with allowedPeers := ["urn:hacp:agent:b"] }⟩

section Session
open Conversation

/-- A request of the peer for a package, as it was delivered. -/
def requestFor (messageId package : String) : Delivered :=
  ⟨"urn:hacp:agent:b", binding, newEnvelope (messageId, "2026-09-04T12:00:00Z") "s-1"
    "urn:hacp:agent:b" "urn:hacp:agent:a" requestKind (.object [
      ("args", .array [.string "/work/main.py"]), ("package", .string package),
      ("timeout_ms", .number (.integer 5000))])⟩

def granted : Delivered := requestFor "000000000001" "python/python@3.13.20"

def refused : Delivered := requestFor "000000000002" "python/python@3.12.0"

def grantedRun : Run :=
  ⟨granted, ⟨"python/python@3.13.20", ["/work/main.py"], [], [], ⟨.fromMillis 5000, 65536⟩⟩,
    ⟨some 0, "", "", false, ⟨0⟩, none⟩⟩

def refusal : Denial := .packageNotAllowed "python/python@3.12.0"

theorem authorized_granted : servingAgent.policy.authorizeValue lineCrates.base64 granted.from_
    granted.contract granted.message.body = .ok grantedRun.request := by
  rfl

theorem perform_granted (s : Serving Hosted ℕ) :
    perform lineCrates steadyHost servingAgent s granted =
      ({ s with host := s.host + 1, runs := s.runs ++ [grantedRun] }, .executed, "exit 0",
        grantedRun.result.resultBody) := by
  rw [perform, authorized_granted]
  rfl

theorem denied_refused : servingAgent.policy.authorizeValue lineCrates.base64 refused.from_
    refused.contract refused.message.body = .error refusal := by
  rfl

theorem perform_refused (s : Serving Hosted ℕ) :
    perform lineCrates steadyHost servingAgent s refused =
      (s, .denied, "PackageNotAllowed", denialBody "missing field" refusal) := by
  rw [perform, denied_refused]
  rfl

def grantedReply : V2.Envelope :=
  servingAgent.replyTo granted ("000000000000", "2026-09-04T12:00:00Z") grantedRun.result.resultBody

def refusedReply : V2.Envelope :=
  servingAgent.replyTo refused ("000000000000", "2026-09-04T12:00:00Z")
    (denialBody "missing field" refusal)

theorem legible_attended : Legible granted.message ∧ Legible refused.message ∧
    Legible grantedReply ∧ Legible refusedReply := by
  decide +kernel

/-- Both requests come with the hello, and the service has time for two replies. -/
def attended (p q : Bytes) : List (Arrival × Outside) :=
  [(⟨0, 0⟩, opening [p, q]), (⟨1, 1⟩, arriving [] 2), (⟨2, 2⟩, arriving [] 2),
    (⟨3, 3⟩, arriving [] 2), (⟨4, 4⟩, arriving [] 2)]

def attendedLines (p q : Bytes) : List (Bytes × Outside) :=
  [(Guardian.lineOf (.open_ "s-1"), opening [p, q]), (Guardian.lineOf .status, arriving [] 2),
    (sealLine grantedReply, arriving [] 2), (Guardian.lineOf .status, arriving [] 2),
    (sealLine refusedReply, arriving [] 2)]

def attendedOutcomes : List Outcome :=
  [⟨some "m-000000000001", some "urn:hacp:agent:b", .executed, "exit 0", true⟩,
    ⟨some "m-000000000002", some "urn:hacp:agent:b", .denied, "PackageNotAllowed", true⟩]

section Attended
variable {g : Guardian} {p q : Bytes}
  (hg : Guardian.load "urn:hacp:agent:a" (.replicate 32 1) [Guardian.securePin] .degraded = .ok g)
  (hp : p = compact granted.message.toJson) (hq : q = compact refused.message.toJson)
include hg hp hq

omit hg in
theorem few_attended : Few [p, q] where
  count := by simp
  each r hr := by
    rcases List.mem_pair.mp hr with rfl | rfl
    · exact hp ▸ legible_attended.1.length
    · exact hq ▸ legible_attended.2.1.length

omit hg in
theorem reportOf_attended : reportOf Burst.foreign lineCrates servingAgent.local_
    servingAgent.context (extended .empty (deliveries binding [p, q] 0)) =
      ⟨[], [.ok granted, .ok refused]⟩ := by
  have hsid : Burst.sid ≠ "" := by decide
  have hbrings : Brings compact "urn:hacp:agent:b" binding granted.message
      ⟨Burst.sid, "urn:hacp:agent:b", binding, 0, p⟩ := ⟨hsid, rfl, rfl, hp⟩
  have hbrings' : Brings compact "urn:hacp:agent:b" binding refused.message
      ⟨Burst.sid, "urn:hacp:agent:b", binding, 0 + 1, q⟩ := ⟨hsid, rfl, rfl, hq⟩
  have hfirst : decodeDelivery Burst.foreign lineCrates "urn:hacp:agent:a" "s-1"
      ⟨Burst.sid, "urn:hacp:agent:b", binding, 0, p⟩ = .ok granted :=
    hbrings.decoded Serde.compact legible_attended.1.valid legible_attended.1.depth
      legible_attended.1.name rfl rfl rfl
  have hsecond : decodeDelivery Burst.foreign lineCrates "urn:hacp:agent:a" "s-1"
      ⟨Burst.sid, "urn:hacp:agent:b", binding, 0 + 1, q⟩ = .ok refused :=
    hbrings'.decoded Serde.compact legible_attended.2.1.valid legible_attended.2.1.depth
      legible_attended.2.1.name rfl rfl rfl
  simp only [reportOf, extended, Gathered.empty, deliveries, List.nil_append, List.map_cons,
    List.map_nil, servingAgent, hfirst, hsecond]

/-- One request runs and one is denied; both are answered. -/
theorem attended_step : ∃ h, h.handed = attendedLines p q ∧
    (servingAgent.asked Burst.foreign lineCrates compact steadyHost asks).step
        (.start ⟨.load g 8, attended p q, []⟩ 0) () = (⟨h, 3, ∅, [grantedRun]⟩, .ok attendedOutcomes) ∧
      Guardian.FreshRequests Burst.foreign LateRefusal.exchange lineCrates g h.handed := by
  have hgate : (RateBudget.new 8).gate ⟨0, 0⟩ = (⟨8, [0], none⟩, .admitted) := rfl
  have hgate₁ : RateBudget.gate ⟨8, [0], none⟩ ⟨1, 1⟩ = (⟨8, [0, 1], none⟩, .admitted) := rfl
  have hgate₂ : RateBudget.gate ⟨8, [0, 1], none⟩ ⟨2, 2⟩ = (⟨8, [0, 1, 2], none⟩, .admitted) := rfl
  have hgate₃ : RateBudget.gate ⟨8, [0, 1, 2], none⟩ ⟨3, 3⟩ =
      (⟨8, [0, 1, 2, 3], none⟩, .admitted) := rfl
  have hgate₄ : RateBudget.gate ⟨8, [0, 1, 2, 3], none⟩ ⟨4, 4⟩ =
      (⟨8, [0, 1, 2, 3, 4], none⟩, .admitted) := rfl
  obtain ⟨g₁, ⟨hopen, hdispatch⟩, htalking⟩ := ask_opening [(⟨1, 1⟩, arriving [] 2),
    (⟨2, 2⟩, arriving [] 2), (⟨3, 3⟩, arriving [] 2), (⟨4, 4⟩, arriving [] 2)] [] hg hgate
    (few_attended hp hq)
  obtain ⟨w, hworkflow, hremote, hcontext, hout, hout'⟩ : ∃ w : Workflow,
      Workflow.new servingAgent.socketPath servingAgent.local_ "urn:hacp:agent:b"
        servingAgent.context = .ok w ∧ w.remote = "urn:hacp:agent:b" ∧ w.context = "s-1" ∧
          w.outgoing Burst.foreign grantedReply = .ok () ∧
            w.outgoing Burst.foreign refusedReply = .ok () :=
    ⟨⟨"urn:hacp:agent:a", "urn:hacp:agent:b", "s-1"⟩, by rfl, rfl, rfl,
      Workflow.outgoing_eq_ok.mpr ⟨legible_attended.2.2.1.valid, rfl, rfl, rfl⟩,
      Workflow.outgoing_eq_ok.mpr ⟨legible_attended.2.2.2.valid, rfl, rfl, rfl⟩⟩
  obtain ⟨g₂, hsend, hstatus, hseal, htalking'⟩ := htalking.ask_send
    [(⟨3, 3⟩, arriving [] 2), (⟨4, 4⟩, arriving [] 2)]
    ([] ++ [(Guardian.lineOf (.open_ "s-1"), opening [p, q])]) (by decide) hgate₁ hgate₂ hremote
    hcontext hout legible_attended.2.2.1.length (arriving [] 2) [] 2
  obtain ⟨g₃, hsend', hstatus', hseal', -⟩ := htalking'.ask_send []
    (([] ++ [(Guardian.lineOf (.open_ "s-1"), opening [p, q])]) ++
      [(Guardian.lineOf .status, arriving [] 2), (sealLine grantedReply, arriving [] 2)])
    (by decide) hgate₃ hgate₄ hremote hcontext hout' legible_attended.2.2.2.length (arriving [] 2) [] 2
  refine ⟨⟨⟨g₃, ⟨8, [0, 1, 2, 3, 4], none⟩⟩, [], attendedLines p q⟩, rfl, ?_, ?_⟩
  · have hstep := askStep_opened (F := Burst.foreign) (C := lineCrates) compact steadyHost
      (x := servingAgent) (s := .start (⟨.load g 8, attended p q, []⟩ : Hosted) 0) hopen
    rw [reportOf_attended hp hq] at hstep
    refine hstep.trans ?_
    simp only [process, List.foldl_nil, List.foldl_cons, deliveryTurn]
    rw [handle_replied rfl (perform_granted _) hworkflow hsend]
    dsimp only
    rw [handle_replied rfl (perform_refused _) hworkflow hsend']
    rfl
  · rw [Guardian.FreshRequests, attendedLines, Guardian.established_cons hdispatch,
      Guardian.established_cons hstatus, Guardian.established_cons hseal,
      Guardian.established_cons hstatus', Guardian.established_cons hseal']
    exact List.nodup_singleton _

/-- What the service does over its polls, as the theorems about it say it. -/
theorem attended_exec : ∃ h, h.handed = attendedLines p q ∧
    (servingAgent.machine Burst.foreign lineCrates compact steadyHost (Hosted.socket Burst.foreign
        LateRefusal.exchange lineCrates compact 1 1)).exec
          (.start ⟨.load g 8, attended p q, []⟩ 0) [()] =
      ⟨h, 3, ∅, [grantedRun]⟩ ∧
    (servingAgent.machine Burst.foreign lineCrates compact steadyHost (Hosted.socket Burst.foreign
        LateRefusal.exchange lineCrates compact 1 1)).answers
          (.start ⟨.load g 8, attended p q, []⟩ 0) [()] =
      [((), .ok attendedOutcomes)] ∧
    Guardian.FreshRequests Burst.foreign LateRefusal.exchange lineCrates g h.handed := by
  obtain ⟨h, hhanded, hstep, hfresh⟩ := attended_step hg hp hq
  rw [machine_eq_asked (fun h r => Client.request_hosted Burst.foreign LateRefusal.exchange 1 1
    Serde.compact h r) Serde.compact]
  refine ⟨h, hhanded, Machine.exec_of_step hstep [], ?_, hfresh⟩
  rw [Machine.answers, Machine.history_of_step hstep, Machine.history_nil]
  rfl

end Attended

theorem executions_authorized_attended : ∃ (g : Guardian) (p q : Bytes)
    (executed : List Executed),
    Guardian.load "urn:hacp:agent:a" (.replicate 32 1) [Guardian.securePin] .degraded = .ok g ∧
    p = compact granted.message.toJson ∧ q = compact refused.message.toJson ∧
    let M := servingAgent.machine Burst.foreign lineCrates compact steadyHost (Hosted.socket
      Burst.foreign LateRefusal.exchange lineCrates compact 1 1)
    let last := M.exec (.start ⟨.load g 8, attended p q, []⟩ 0) [()]
    let answers := (Guardian.machine Burst.foreign LateRefusal.exchange lineCrates).history g
      last.socket.handed
    M.answers (.start ⟨.load g 8, attended p q, []⟩ 0) [()] = [((), .ok attendedOutcomes)] ∧
    executed.map (fun e => (e.request, e.run)) = [(granted, grantedRun.request)] ∧
    ∀ e ∈ executed, e.request.contract ≠ "" ∧ e.request.from_ ∈ servingAgent.policy.allowedPeers ∧
      ∃ answer ∈ answers, e.delivery ∈ answer.output.deliveriesOf e.delivery.sid ∧
        ∃ made env view, Vouched Burst.foreign LateRefusal.exchange lineCrates answers answer
          e.delivery made env view := by
  obtain ⟨g, hg⟩ := Guardian.load_securePin
  obtain ⟨p, hp⟩ : ∃ p, p = compact granted.message.toJson := ⟨_, rfl⟩
  obtain ⟨q, hq⟩ : ∃ q, q = compact refused.message.toJson := ⟨_, rfl⟩
  obtain ⟨h, -, hexec, hanswers, hfresh⟩ := attended_exec hg hp hq
  have hsocket := congrArg Serving.socket hexec
  dsimp only at hsocket
  rw [← hsocket] at hfresh
  obtain ⟨-, executed, hran, -, -, heach⟩ := executions_authorized Burst.foreign
    LateRefusal.exchange 1 1 Serde.compact hg steadyHost servingAgent 8 (attended p q) 0 [()] hfresh
  have hrun := hran.symm.trans (congrArg Serving.ran hexec)
  refine ⟨g, p, q, executed, hg, hp, hq, hanswers, hrun, fun e he => ?_⟩
  obtain ⟨-, hbound, hpeer, -, -, -, -, -, -, -, -, hvouched⟩ := heach e he
  exact ⟨hbound, hpeer, hvouched⟩

theorem sealOf_sealLine {m : V2.Envelope} (h : Legible m) (edge : Outside) :
    sealOf lineCrates (sealLine m, edge) =
      some (Burst.sid, binding, Base64.encode (compact m.toJson)) := by
  have hread : Request.ofBytes lineCrates (sealLine m) =
      .ok (.seal_ Burst.sid binding (Base64.encode (compact m.toJson))) :=
    Request.ofBytes_write Serde.compact _ (length_sealing _ h.length)
  rw [sealOf, hread]

theorem sealOf_opening (edge : Outside) :
    sealOf lineCrates (Guardian.lineOf (.open_ "s-1"), edge) = none := by
  have hread : Request.ofBytes lineCrates (Guardian.lineOf (.open_ "s-1")) = .ok (.open_ "s-1") :=
    Request.ofBytes_write Serde.compact _ length_opening
  rw [sealOf, hread]

theorem sealOf_status (edge : Outside) :
    sealOf lineCrates (Guardian.lineOf .status, edge) = none := by
  have hread : Request.ofBytes lineCrates (Guardian.lineOf .status) = .ok .status :=
    Request.ofBytes_write Serde.compact _ length_asking
  rw [sealOf, hread]

theorem sealOf_attendedLines (p q : Bytes) : (attendedLines p q).filterMap (sealOf lineCrates) =
    [(Burst.sid, binding, Base64.encode (compact grantedReply.toJson)),
      (Burst.sid, binding, Base64.encode (compact refusedReply.toJson))] := by
  rw [attendedLines, List.filterMap_cons_none (sealOf_opening (opening [p, q])),
    List.filterMap_cons_none (sealOf_status (arriving [] 2)),
    List.filterMap_cons_some (sealOf_sealLine legible_attended.2.2.1 (arriving [] 2)),
    List.filterMap_cons_none (sealOf_status (arriving [] 2)),
    List.filterMap_cons_some (sealOf_sealLine legible_attended.2.2.2 (arriving [] 2)),
    List.filterMap_nil]

theorem replies_under_binding_attended : ∃ (g : Guardian) (p q : Bytes) (replies : List Reply),
    ExecutionService.new "/run/hacp/guardian.sock" "urn:hacp:agent:a" "s-1" servingAgent.policy =
      .ok servingAgent ∧
    Guardian.load "urn:hacp:agent:a" (.replicate 32 1) [Guardian.securePin] .degraded = .ok g ∧
    p = compact granted.message.toJson ∧ q = compact refused.message.toJson ∧
    let M := servingAgent.machine Burst.foreign lineCrates compact steadyHost (Hosted.socket
      Burst.foreign LateRefusal.exchange lineCrates compact 1 1)
    let last := M.exec (.start ⟨.load g 8, attended p q, []⟩ 0) [()]
    last.runs = [grantedRun] ∧
    replies.map (Reply.sealed compact) =
      [(Burst.sid, binding, Base64.encode (compact grantedReply.toJson)),
        (Burst.sid, binding, Base64.encode (compact refusedReply.toJson))] ∧
    ∀ r ∈ replies, r.Proper Burst.foreign LateRefusal.exchange lineCrates steadyHost servingAgent g
      last.socket.handed last.runs := by
  obtain ⟨g, hg⟩ := Guardian.load_securePin
  obtain ⟨p, hp⟩ : ∃ p, p = compact granted.message.toJson := ⟨_, rfl⟩
  obtain ⟨q, hq⟩ : ∃ q, q = compact refused.message.toJson := ⟨_, rfl⟩
  obtain ⟨h, hhanded, hexec, -, -⟩ := attended_exec hg hp hq
  obtain ⟨turns, replies, -, -, hsealed, hproper⟩ := replies_under_binding Burst.foreign
    LateRefusal.exchange 1 1 Serde.compact steadyHost servingAgent g 8
    (attended p q) 0 [()]
  refine ⟨g, p, q, replies, rfl, hg, hp, hq, congrArg Serving.runs hexec, ?_, hproper⟩
  have hlines := congrArg (fun s => s.socket.handed) hexec
  dsimp only at hlines
  rw [hhanded] at hlines
  exact hsealed.symm.trans ((congrArg (List.filterMap (sealOf lineCrates)) hlines).trans
    (sealOf_attendedLines p q))

/-! ### A file that stays -/

/-- A file that is too long to be read. -/
def oversized (name : String) : EdgeFile :=
  ⟨name, .error .schemaViolation, .notFound, ⟨none, none⟩, .ok ()⟩

theorem oversized_run (k : Intake) (names : List String) :
    Scan.run (fileTurn Burst.foreign LateRefusal.exchange lineCrates "s-1") k
        (names.map oversized) =
      .inl { k with gathered.rejected :=
        (k.gathered.rejected ++ names.map fun name => (name, .schemaViolation)) } := by
  induction names generalizing k with
  | nil => simp [Scan.run]
  | cons name names ih =>
    have hturn : fileTurn Burst.foreign LateRefusal.exchange lineCrates "s-1" k (oversized name) =
        .inl (k.reject name .schemaViolation) := rfl
    rw [List.map_cons, Scan.run_cons_inl hturn, ih]
    simp [Intake.reject]

def oversizedOf (names : List String) : Gathered :=
  ⟨[], [], names.map fun name => (name, .schemaViolation), []⟩

theorem receive_oversized {g : Guardian}
    (hg : Guardian.load "urn:hacp:agent:a" (.replicate 32 1) [Guardian.securePin] .degraded = .ok g)
    (names : List String) :
    g.receive Burst.foreign LateRefusal.exchange lineCrates "s-1"
        (mail agreed (names.map oversized) []) = (g, .ok (oversizedOf names), []) := by
  have hactive : g.active = ∅ := by
    rw [Guardian.active, (Guardian.load_eq_ok hg).1]
    rfl
  have hnone : g.sessionsOf "s-1" = [] := by
    rw [Guardian.sessionsOf, hactive]
    rfl
  have hhandshakes := oversized_run (.start g) names
  have hphases : phases Burst.foreign LateRefusal.exchange lineCrates "s-1"
      (mail agreed (names.map oversized) []) g = ⟨g, oversizedOf names, []⟩ := by
    rw [phases, handshakePhase, mail, hhandshakes]
    dsimp only [Sum.elim_inl, id]
    rw [messagePhase, messageFiles]
    dsimp only [Intake.start]
    rw [hnone]
    rfl
  have hrun : Scan.run (observeTurn Burst.foreign "s-1" (mail agreed (names.map oversized) []))
      ⟨g, oversizedOf names, []⟩ (g.sessionsOf "s-1") = .inl ⟨g, oversizedOf names, []⟩ := by
    rw [hnone]
    rfl
  exact Guardian.receive_ok (LateRefusal.allowed hg) hphases hrun

/-- The file is there at both polls, another one only at the second. -/
def filed : List (Arrival × Outside) :=
  [(⟨0, 0⟩, mail agreed (["0.json"].map oversized) []),
    (⟨1, 1⟩, mail agreed (["0.json", "1.json"].map oversized) [])]

theorem length_oversizedOf : (compact (answerJson (.ok (.opened (oversizedOf ["0.json"]))))).length <
      Client.maxResponse ∧
    (compact (answerJson (.ok (.opened (oversizedOf ["0.json", "1.json"]))))).length <
      Client.maxResponse := by
  have hspan : (answerJson (.ok (.opened (oversizedOf ["0.json"])))).span ≤ 1000 ∧
      (answerJson (.ok (.opened (oversizedOf ["0.json", "1.json"])))).span ≤ 1000 := by
    decide +kernel
  have hbound := length_compact_le (answerJson (.ok (.opened (oversizedOf ["0.json"]))))
  have hbound' := length_compact_le (answerJson (.ok (.opened (oversizedOf ["0.json", "1.json"]))))
  rw [Client.maxResponse]
  omega

theorem reportOf_oversized (names : List String) : reportOf Burst.foreign lineCrates
    servingAgent.local_ servingAgent.context (oversizedOf names) =
      ⟨names.map fun name => (("rejected:" ++ name, "SchemaViolation"), .schemaViolation), []⟩ := by
  rw [reportOf, oversizedOf, List.map_map, List.map_nil, List.append_nil, List.map_nil]
  rfl

theorem oversized_poll {g : Guardian}
    (hg : Guardian.load "urn:hacp:agent:a" (.replicate 32 1) [Guardian.securePin] .degraded = .ok g)
    (names : List String)
    (hsize : (compact (answerJson (.ok (.opened (oversizedOf names))))).length < Client.maxResponse)
    {rate rate' : RateBudget} {arrival : Arrival} (hgate : rate.gate arrival = (rate', .admitted))
    (ahead : List (Arrival × Outside)) (handed : List (Bytes × Outside)) (n : ℕ)
    (reported : Finset (String × String)) :
    let edge := mail agreed (names.map oversized) []
    let ps := names.map fun name =>
      (("rejected:" ++ name, "SchemaViolation"), SecureError.schemaViolation)
    (servingAgent.asked Burst.foreign lineCrates compact steadyHost asks).step
        ⟨⟨⟨g, rate⟩, (arrival, edge) :: ahead, handed⟩, n, reported, []⟩ () =
      (⟨reached g rate' ahead handed (.open_ "s-1") edge, n, Fresh.keys reported ps, []⟩,
        .ok (announcedOf reported ps)) ∧
    g.dispatch Burst.foreign LateRefusal.exchange lineCrates (Guardian.lineOf (.open_ "s-1")) edge =
      (g, ⟨.ok (.opened (oversizedOf names)), [], none⟩) := by
  have hhandle : g.handle Burst.foreign LateRefusal.exchange lineCrates
      (.open_ "s-1") (mail agreed (names.map oversized) []) =
        (g, ⟨.ok (.opened (oversizedOf names)), [], none⟩) := by
    simp only [Guardian.handle, receive_oversized hg names, Except.map]
  obtain ⟨hask, hdispatch⟩ := asks_admitted ahead handed
    (Guardian.load_secure hg).2 length_opening hgate hhandle hsize
  have hstep := askStep_opened (F := Burst.foreign) (C := lineCrates) compact steadyHost
    (x := servingAgent) (s := ⟨(⟨⟨g, rate⟩, (arrival, mail agreed (names.map oversized) []) :: ahead,
      handed⟩ : Hosted), n, reported, []⟩) hask
  rw [reportOf_oversized, process_rejections] at hstep
  exact ⟨hstep, hdispatch⟩

def knownFiles : Finset (String × String) :=
  Fresh.keys ∅ (["0.json"].map fun name =>
    (("rejected:" ++ name, "SchemaViolation"), SecureError.schemaViolation))

theorem announced_filed : announcedOf ∅ (["0.json"].map fun name =>
      (("rejected:" ++ name, "SchemaViolation"), SecureError.schemaViolation)) =
        [.rejected .schemaViolation] ∧
    announcedOf knownFiles (["0.json", "1.json"].map fun name =>
      (("rejected:" ++ name, "SchemaViolation"), SecureError.schemaViolation)) =
        [.rejected .schemaViolation] := by
  decide +kernel

/-- Each file is reported at the first poll that finds it. -/
theorem filed_polls {g : Guardian}
    (hg : Guardian.load "urn:hacp:agent:a" (.replicate 32 1) [Guardian.securePin] .degraded = .ok g) :
    let M := servingAgent.machine Burst.foreign lineCrates compact steadyHost (Hosted.socket
      Burst.foreign LateRefusal.exchange lineCrates compact 1 1)
    (M.history (.start ⟨.load g 4, filed, []⟩ 0) [(), ()]).filterMap polledOf =
        [[.rejected .schemaViolation], [.rejected .schemaViolation]] ∧
      ((Guardian.machine Burst.foreign LateRefusal.exchange lineCrates).history g
        (M.exec (.start ⟨.load g 4, filed, []⟩ 0) [(), ()]).socket.handed).filterMap
          Guardian.openedOf = [oversizedOf ["0.json"], oversizedOf ["0.json", "1.json"]] := by
  obtain ⟨hone, htwo⟩ := length_oversizedOf
  have hgate : (RateBudget.new 4).gate ⟨0, 0⟩ = (⟨4, [0], none⟩, .admitted) := rfl
  have hgate' : RateBudget.gate ⟨4, [0], none⟩ ⟨1, 1⟩ = (⟨4, [0, 1], none⟩, .admitted) := rfl
  obtain ⟨hfirst, hdispatch⟩ := oversized_poll hg ["0.json"] hone hgate
    [(⟨1, 1⟩, mail agreed (["0.json", "1.json"].map oversized) [])] [] 0 ∅
  obtain ⟨hsecond, hdispatch'⟩ := oversized_poll hg ["0.json", "1.json"] htwo hgate' []
    ([] ++ [(Guardian.lineOf (.open_ "s-1"), mail agreed (["0.json"].map oversized) [])]) 0
    knownFiles
  rw [announced_filed.1] at hfirst
  rw [announced_filed.2] at hsecond
  rw [machine_eq_asked (fun h r => Client.request_hosted Burst.foreign LateRefusal.exchange 1 1
    Serde.compact h r) Serde.compact]
  have hstart : Serving.start (⟨.load g 4, filed, []⟩ : Hosted) 0 = ⟨⟨⟨g, .new 4⟩,
      [(⟨0, 0⟩, mail agreed (["0.json"].map oversized) []),
        (⟨1, 1⟩, mail agreed (["0.json", "1.json"].map oversized) [])], []⟩, 0, ∅, []⟩ := rfl
  dsimp only
  rw [hstart]
  constructor
  · rw [Machine.history_of_step hfirst, reached, ← knownFiles, Machine.history_of_step hsecond,
      Machine.history_nil]
    simp only [List.filterMap_cons, List.filterMap_nil, polledOf, Except.toOption]
  · rw [Machine.exec_of_step hfirst, reached, ← knownFiles, Machine.exec_of_step hsecond,
      Machine.exec_nil, reached]
    dsimp only
    rw [List.nil_append, List.singleton_append, Guardian.history_of_dispatch
      (i := (Guardian.lineOf (.open_ "s-1"), mail agreed (["0.json"].map oversized) [])) hdispatch,
      Guardian.history_of_dispatch (i := (Guardian.lineOf (.open_ "s-1"),
        mail agreed (["0.json", "1.json"].map oversized) [])) hdispatch', Machine.history_nil]
    simp only [List.filterMap_cons, List.filterMap_nil, Guardian.openedOf]

theorem rejections_reported_once_filed : ∃ (g : Guardian) (turns : List Turn)
    (firsts : List ((String × String) × SecureError)),
    Guardian.load "urn:hacp:agent:a" (.replicate 32 1) [Guardian.securePin] .degraded = .ok g ∧
    turns.map Turn.gathered = [oversizedOf ["0.json"], oversizedOf ["0.json", "1.json"]] ∧
    turns.map Turn.announced = [[.rejected .schemaViolation], [.rejected .schemaViolation]] ∧
    turns.flatMap Turn.announced = firsts.map (fun p => Outcome.rejected p.2) ∧
    firsts.length = 2 ∧ (rejections Burst.foreign lineCrates servingAgent turns).length = 3 ∧
    firsts.Sublist (rejections Burst.foreign lineCrates servingAgent turns) ∧
    (firsts.map Prod.fst).Nodup := by
  obtain ⟨g, hg⟩ := Guardian.load_securePin
  obtain ⟨houtcomes, hopened⟩ := filed_polls hg
  obtain ⟨turns, firsts, hpolled, hgathered, hhandled, hannounced, hsub, hnodup, -⟩ :=
    rejections_reported_once Burst.foreign LateRefusal.exchange 1 1 Serde.compact steadyHost
      servingAgent g 4 filed 0 [(), ()]
  rw [hopened] at hgathered
  rw [houtcomes] at hpolled
  have hcount : turns.length = 2 := by simpa using (congrArg List.length hpolled).symm
  have hturns := hgathered.eq_of_length (by simpa using hcount)
  have hnothing : ∀ t ∈ turns, t.handled = [] := fun t ht => by
    have hof : t.gathered ∈ turns.map Turn.gathered := List.mem_map_of_mem ht
    have hnone : t.gathered.delivered = [] := by
      rw [hturns] at hof
      rcases List.mem_pair.mp hof with h | h <;> rw [h] <;> rfl
    exact List.length_eq_zero_iff.mp ((hhandled t ht).trans (by rw [hnone, List.length_nil]))
  have hannounce : turns.map Turn.announced =
      [[.rejected .schemaViolation], [.rejected .schemaViolation]] := by
    rw [hpolled]
    exact List.map_congr_left fun t ht => by rw [hnothing t ht, List.append_nil]
  refine ⟨g, turns, firsts, hg, hturns, hannounce, hannounced, ?_, ?_, hsub, hnodup⟩
  · have hlength := congrArg List.length hannounced
    rw [List.flatMap_def, hannounce, List.length_map] at hlength
    exact hlength.symm
  · have hreports : rejections Burst.foreign lineCrates servingAgent turns =
        (turns.map Turn.gathered).flatMap fun b =>
          (reportOf Burst.foreign lineCrates servingAgent.local_ servingAgent.context b).rejections := by
      rw [rejections, List.flatMap_map]
      rfl
    rw [hreports, hturns, List.flatMap_cons, List.flatMap_cons, reportOf_oversized,
      reportOf_oversized]
    rfl

end Session

end ExecutionService
end Hacp.Wasmer
