import Hacp.Secure.GuardianAnswers
import Hacp.Secure.Workflow
import Hacp.V2.TextLength

/-!
# A conversation through the service

The texts of requests and answers are short enough for the socket. So the service of an agent in
a session hands its client what comes, tells it of the session and seals what it is given.
-/
namespace Hacp.Secure
open Lib V2 Std SessionManager RateBudget

theorem length_compact_le (v : Json) : (compact v).length ≤ 4 * v.span := by
  have hlength := length_asBytes_ofList_le (plainText v)
  have htext := length_plainText_le v
  rw [compact]
  omega

theorem span_natural_le (n : UInt64) : (natural n.toNat).span ≤ 20 := span_integer_le n

theorem length_base64_le (bytes : Bytes) : 3 * (Base64.encode bytes).length ≤ 4 * bytes.length + 8 := by
  rw [Base64.encode, String.length_ofList, Base64.length_encodeChars]
  omega

/-! ## The service of an agent in a session -/

namespace Hosted
section Admitted
variable {F : Foreign} {K : KeyExchange} {C : Crates} {write : Json → Bytes} {uid user : UInt32}

/-- A request that the budget admits, whose text and whose answer's text are short enough. -/
theorem ask_admitted {h : Hosted} {r : Request} {arrival : Arrival} {edge : Outside}
    {ahead : List (Arrival × Outside)} {rate : RateBudget} {g : Guardian} {answer : Handled}
    (hahead : h.ahead = (arrival, edge) :: ahead)
    (hsize : (write r.toJson).length < Client.maxResponse)
    (huser : user = h.service.guardian.mode.user uid)
    (hgate : h.service.rate.gate arrival = (rate, .admitted))
    (hhandle : h.service.guardian.handle F K C r edge = (g, answer))
    (hanswer : (write (answerJson answer.result)).length < Client.maxResponse) :
    h.ask F K C write uid user r =
      (⟨⟨g, rate⟩, ahead, h.handed ++ [(write r.toJson ++ [newline], edge)]⟩, answer.result) := by
  unfold ask
  rw [hahead]
  dsimp only
  rw [if_neg (Nat.not_le.mpr hsize), if_neg (not_not.mpr huser), hgate]
  dsimp only
  rw [hhandle, heard, if_neg (Nat.not_le.mpr hanswer)]

end Admitted
end Hosted

namespace Conversation
open Guardian hiding exchange
open Endpoint Burst LateRefusal

structure Few (ps : List Bytes) : Prop where
  count : ps.length ≤ 4
  each : ∀ p ∈ ps, p.length ≤ 100000

structure Legible (m : V2.Envelope) : Prop where
  valid : m.validate foreign = .ok ()
  depth : m.toJson.depth ≤ 127
  name : m.toJson.unmarked = true
  span : m.toJson.span ≤ 25000

instance (m : V2.Envelope) : Decidable (Legible m) :=
  decidable_of_iff (m.validate foreign = .ok () ∧ m.toJson.depth ≤ 127 ∧ m.toJson.unmarked = true ∧
      m.toJson.span ≤ 25000)
    ⟨fun ⟨hvalid, hdepth, hname, hspan⟩ => ⟨hvalid, hdepth, hname, hspan⟩,
      fun h => ⟨h.valid, h.depth, h.name, h.span⟩⟩

theorem Legible.length {m : V2.Envelope} (h : Legible m) : (compact m.toJson).length ≤ 100000 :=
  (length_compact_le _).trans (Nat.mul_le_mul_left 4 h.span)

theorem length_sid : sid.length = 32 := by decide

theorem length_binding : binding.length = 71 := by decide

theorem span_deliveries_le {ps : List Bytes} (h : ∀ p ∈ ps, p.length ≤ 100000) (n : UInt64) :
    Json.spanItems ((deliveries binding ps n).map Delivery.toJson) ≤ ps.length * 801200 := by
  induction ps generalizing n with
  | nil => exact Nat.zero_le _
  | cons p ps ih =>
    have hrest := ih (fun q hq => h q (List.mem_cons_of_mem p hq)) (n + 1)
    have hp := h p List.mem_cons_self
    have htext := length_base64_le p
    have hseq := span_natural_le n
    have hfrom : "urn:hacp:agent:b".length = 16 := by decide
    have hone : (Delivery.toJson ⟨sid, "urn:hacp:agent:b", binding, n, p⟩).span ≤ 801199 := by
      simp only [Delivery.toJson, Json.span, Json.spanMembers, length_sid, length_binding, hfrom,
        show "contract".length = 8 by decide, show "from".length = 4 by decide,
        show "payload_b64".length = 11 by decide, show "seq".length = 3 by decide,
        show "sid".length = 3 by decide]
      omega
    rw [deliveries, List.map_cons, Json.spanItems, List.length_cons]
    omega

theorem length_opened {ps : List Bytes} (h : Few ps) (n : UInt64) :
    (compact (answerJson (.ok (.opened (extended .empty (deliveries binding ps n)))))).length <
      Client.maxResponse := by
  have hdeliveries := span_deliveries_le h.each n
  have hcount := h.count
  have hspan : (answerJson (.ok (.opened (extended .empty (deliveries binding ps n))))).span ≤
      ps.length * 801200 + 1000 := by
    simp only [answerJson, Response.toJson, extended, Gathered.empty, List.nil_append, List.map_nil,
      Json.span, Json.spanItems, Json.spanMembers, show "aborted".length = 7 by decide,
      show "delivered".length = 9 by decide, show "held".length = 4 by decide,
      show "ok".length = 2 by decide, show "rejected".length = 8 by decide]
    omega
  have hlength := length_compact_le
    (answerJson (.ok (.opened (extended .empty (deliveries binding ps n)))))
  rw [Client.maxResponse]
  omega

theorem length_opening : (compact (Request.open_ "s-1").toJson).length < Client.maxResponse :=
  length_open

section Ask
variable {n m : UInt64} {g : Guardian} {rate rate' : RateBudget} {arrival : Arrival}
  (ahead : List (Arrival × Outside)) (handed : List (Bytes × Outside))

abbrev asks : Hosted → Request → Hosted × Except SecureError Response :=
  Hosted.ask foreign exchange lineCrates compact 1 1

def reached (g : Guardian) (rate : RateBudget) (ahead : List (Arrival × Outside))
    (handed : List (Bytes × Outside)) (r : Request) (edge : Outside) : Hosted :=
  ⟨⟨g, rate⟩, ahead, handed ++ [(lineOf r, edge)]⟩

theorem asks_admitted {r : Request} {edge : Outside} {g' : Guardian} {answer : Handled}
    (hmode : g.mode = .degraded) (hsize : (compact r.toJson).length < Client.maxResponse)
    (hgate : rate.gate arrival = (rate', .admitted))
    (hhandle : g.handle foreign exchange lineCrates r edge = (g', answer))
    (hanswer : (compact (answerJson answer.result)).length < Client.maxResponse) :
    asks ⟨⟨g, rate⟩, (arrival, edge) :: ahead, handed⟩ r =
        (reached g' rate' ahead handed r edge, answer.result) ∧
      g.dispatch foreign exchange lineCrates (lineOf r) edge = (g', answer) := by
  have huser : (1 : UInt32) = g.mode.user 1 := by rw [hmode]; rfl
  exact ⟨Hosted.ask_admitted rfl hsize huser hgate hhandle hanswer,
    (dispatch_lineOf hsize edge).trans hhandle⟩

theorem ask_opening
    (hg : load "urn:hacp:agent:a" (.replicate 32 1) [securePin] .degraded = .ok g)
    (hgate : rate.gate arrival = (rate', .admitted)) {ps : List Bytes} (hps : Few ps) :
    ∃ g', (asks ⟨⟨g, rate⟩, (arrival, opening ps) :: ahead, handed⟩ (.open_ "s-1") =
          (reached g' rate' ahead handed (.open_ "s-1") (opening ps),
            .ok (.opened (extended .empty (deliveries binding ps 0)))) ∧
        g.dispatch foreign exchange lineCrates (lineOf (.open_ "s-1")) (opening ps) =
          (g', ⟨.ok (.opened (extended .empty (deliveries binding ps 0))), [sid], none⟩)) ∧
      Talking (UInt64.ofNat ps.length) 0 g' := by
  have hcount : ps.length < UInt64.size := hps.count.trans_lt (by decide)
  obtain ⟨g', hreceive, htalking⟩ := receive_hello (C := lineCrates) readJsonLine_reads accepts_agreed
    hg ps hcount
  have hhandle : g.handle foreign exchange lineCrates (.open_ "s-1") (opening ps) =
      (g', ⟨.ok (.opened (extended .empty (deliveries binding ps 0))), [sid], none⟩) := by
    simp only [handle, opening, hreceive, Except.map]
  exact ⟨g', asks_admitted ahead handed (load_secure hg).2 length_opening hgate hhandle
      (length_opened hps 0),
    htalking⟩

/-- A later open request. -/
theorem Talking.ask_arriving (h : Talking n m g) (hgate : rate.gate arrival = (rate', .admitted))
    {ps : List Bytes} (hps : Few ps) (hn : n.toNat + ps.length < UInt64.size) :
    ∃ g', (asks ⟨⟨g, rate⟩, (arrival, arriving ps n) :: ahead, handed⟩ (.open_ "s-1") =
          (reached g' rate' ahead handed (.open_ "s-1") (arriving ps n),
            .ok (.opened (extended .empty (deliveries binding ps n)))) ∧
        g.dispatch foreign exchange lineCrates (lineOf (.open_ "s-1")) (arriving ps n) =
          (g', ⟨.ok (.opened (extended .empty (deliveries binding ps n))), [], none⟩)) ∧
      Talking (n + UInt64.ofNat ps.length) m g' := by
  obtain ⟨g', hreceive, htalking⟩ := h.receive (C := lineCrates) readJsonLine_reads accepts_agreed
    ps hn
  have hhandle : g.handle foreign exchange lineCrates (.open_ "s-1") (arriving ps n) =
      (g', ⟨.ok (.opened (extended .empty (deliveries binding ps n))), [], none⟩) := by
    simp only [handle, arriving, hreceive, Except.map]
  exact ⟨g', asks_admitted ahead handed h.mode length_opening hgate hhandle (length_opened hps n),
    htalking⟩

theorem Talking.status (h : Talking n m g) : ∃ (s : SessionInfo) (high : Option UInt64),
    g.status = .status .degraded [⟨s, m, high, 0⟩] [] ∧ s.sid = sid ∧
      s.peer = "urn:hacp:agent:b" ∧ s.hacpSession = "s-1" := by
  obtain ⟨s, hs, hactive⟩ := h.active
  have hsid : s.info.sid = sid := congrArg (·.info.sid) hs
  have hinsecure : (g.pins.toList.filter fun p => !p.2.requireSecure) = [] :=
    List.filter_eq_nil_iff.mpr fun p hp => by simp [h.secure p hp]
  refine ⟨s.info, (g.endpoint.windowOf sid).high, ?_, hsid, congrArg (·.info.peer) hs,
    congrArg (·.info.hacpSession) hs⟩
  rw [Guardian.status, h.mode, active_singleton hactive, hinsecure]
  simp only [List.map_cons, List.map_nil, hsid, h.clear.sendSeq, h.clear.held, ExtTreeMap.size_empty]

theorem length_status {s : SessionInfo} {high : Option UInt64} (hsid : s.sid = sid)
    (hpeer : s.peer = "urn:hacp:agent:b") (hcontext : s.hacpSession = "s-1") :
    (compact (answerJson (.ok (.status .degraded [⟨s, m, high, 0⟩] [])))).length <
      Client.maxResponse := by
  have hsend := span_natural_le m
  have hhigh : ((high.map fun n => natural n.toNat).getD .null).span ≤ 20 := by
    cases high with
    | none => decide
    | some n => exact span_natural_le n
  have hheld : (natural 0).span ≤ 20 := by decide
  have hstate : s.state.text.length ≤ 20 := by cases s.state <;> decide
  have hspan : (answerJson (.ok (.status .degraded [⟨s, m, high, 0⟩] []))).span ≤ 10000 := by
    simp only [answerJson, Response.toJson, SessionStatus.toJson, Mode.label, hsid, hpeer, hcontext,
      List.map_cons, List.map_nil, List.append_nil, Json.span, Json.spanItems, Json.spanMembers,
      length_sid, show "urn:hacp:agent:b".length = 16 by decide, show "s-1".length = 3 by decide,
      show "degraded".length = 8 by decide, show "mode".length = 4 by decide,
      show "ok".length = 2 by decide, show "sessions".length = 8 by decide,
      show "hacp_session".length = 12 by decide, show "held".length = 4 by decide,
      show "peer".length = 4 by decide, show "recv_high".length = 9 by decide,
      show "send_seq".length = 8 by decide, show "sid".length = 3 by decide,
      show "state".length = 5 by decide]
    omega
  have hlength := length_compact_le (answerJson (.ok (.status .degraded [⟨s, m, high, 0⟩] [])))
  rw [Client.maxResponse]
  omega

theorem length_asking : (compact Request.status.toJson).length < Client.maxResponse := by
  rw [compact, asBytes, String.toList_ofList]
  decide

/-- A workflow with the peer of the session learns of it. -/
theorem Talking.ask_session (h : Talking n m g) (hgate : rate.gate arrival = (rate', .admitted))
    {w : Workflow} (hremote : w.remote = "urn:hacp:agent:b") (hcontext : w.context = "s-1")
    (edge : Outside) :
    w.askSession asks ⟨⟨g, rate⟩, (arrival, edge) :: ahead, handed⟩ =
        (reached g rate' ahead handed .status edge, .ok (some sid)) ∧
      g.dispatch foreign exchange lineCrates (lineOf .status) edge =
        (g, ⟨.ok g.status, [], none⟩) := by
  obtain ⟨s, high, hstatus, hsid, hpeer, hsession⟩ := h.status
  have hhandle : g.handle foreign exchange lineCrates .status edge =
      (g, ⟨.ok (.status .degraded [⟨s, m, high, 0⟩] []), [], none⟩) := by
    rw [handle, hstatus]
  obtain ⟨hask, hdispatch⟩ := asks_admitted ahead handed h.mode length_asking
    hgate hhandle (length_status hsid hpeer hsession)
  refine ⟨?_, hstatus ▸ hdispatch⟩
  have hone : w.sessionIn [⟨s, m, high, 0⟩] = .ok (some sid) := by
    have hne : sid ≠ "" := by decide
    simp [Workflow.sessionIn, hpeer, hsession, hremote, hcontext, hsid, hne]
  rw [Workflow.askSession, hask]
  exact congrArg (Prod.mk _) hone

theorem length_sealing (payload : Bytes) (hsize : payload.length ≤ 100000) :
    (compact (Request.seal_ sid binding (Base64.encode payload)).toJson).length <
      Client.maxResponse := by
  have htext := length_base64_le payload
  have hspan : (Request.seal_ sid binding (Base64.encode payload)).toJson.span ≤ 802000 := by
    simp only [Request.toJson, Json.span, Json.spanMembers, length_sid, length_binding,
      show "contract".length = 8 by decide, show "op".length = 2 by decide,
      show "seal".length = 4 by decide, show "payload_b64".length = 11 by decide,
      show "sid".length = 3 by decide]
    omega
  have hlength := length_compact_le (Request.seal_ sid binding (Base64.encode payload)).toJson
  rw [Client.maxResponse]
  omega

theorem length_paddedSeq (m : UInt64) : (paddedSeq m).length = 20 := by
  have hlt : m.toNat < 10 ^ 20 := m.toNat_lt.trans (by norm_num)
  have hdigits : m.toNat.repr.length ≤ 20 := (Nat.length_repr_le_iff (by omega)).mpr hlt
  rw [paddedSeq, String.length_append, String.length_ofList, List.length_replicate]
  exact Nat.sub_add_cancel hdigits

theorem length_pathOf (m : UInt64) : (pathOf m).length = 73 := by
  have hjoined (k p : String) (hk : k.length = 32) (hp : p.length = 20) :
      (".hacp-secure/" ++ k ++ "/" ++ p ++ "-" ++ "a" ++ ".json").length = 73 := by
    simp only [String.length_append, hk, hp]
    rfl
  exact hjoined sid (paddedSeq m) length_sid (length_paddedSeq m)

theorem length_sealed :
    (compact (answerJson (.ok (.sealed sid (some m) (pathOf m))))).length < Client.maxResponse := by
  have hseq := span_natural_le m
  have hpath := length_pathOf m
  have hspan : (answerJson (.ok (.sealed sid (some m) (pathOf m)))).span ≤ 2000 := by
    simp only [answerJson, Response.toJson, Option.map_some, Option.getD_some, Json.span,
      Json.spanMembers, length_sid, show "envelope_path".length = 13 by decide,
      show "ok".length = 2 by decide, show "seq".length = 3 by decide,
      show "sid".length = 3 by decide]
    omega
  have hlength := length_compact_le (answerJson (.ok (.sealed sid (some m) (pathOf m))))
  rw [Client.maxResponse]
  omega

/-- A message is sealed under the binding of the contract. -/
theorem Talking.ask_seal (h : Talking n m g) (hgate : rate.gate arrival = (rate', .admitted))
    (hm : m ≠ u64Max) {payload : Bytes} (hsize : payload.length ≤ 100000) (ps : List Bytes)
    (k : UInt64) :
    ∃ g', (asks ⟨⟨g, rate⟩, (arrival, arriving ps k) :: ahead, handed⟩
          (.seal_ sid binding (Base64.encode payload)) =
            (reached g' rate' ahead handed (.seal_ sid binding (Base64.encode payload))
              (arriving ps k), .ok (.sealed sid (some m) (pathOf m))) ∧
        g.dispatch foreign exchange lineCrates
          (lineOf (.seal_ sid binding (Base64.encode payload))) (arriving ps k) =
            (g', ⟨.ok (.sealed sid (some m) (pathOf m)), [], some ⟨sid, .replicate 32 0, m⟩⟩)) ∧
      Talking n (m + 1) g' := by
  obtain ⟨g', hseal, htalking⟩ := h.seal_ (C := lineCrates) accepts_agreed hm
    (Serde.compact.base64 payload) (arriving ps k) rfl
  have hhandle : g.handle foreign exchange lineCrates (.seal_ sid binding (Base64.encode payload))
      (arriving ps k) = (g', ⟨.ok (.sealed sid (some m) (pathOf m)), [],
        some ⟨sid, .replicate 32 0, m⟩⟩) := by
    simp only [handle, hseal]
    rfl
  exact ⟨g', asks_admitted ahead handed h.mode (length_sealing payload hsize) hgate hhandle
      length_sealed,
    htalking⟩

def sealLine (message : V2.Envelope) : Bytes :=
  lineOf (.seal_ sid binding (Base64.encode (compact message.toJson)))

/-- A workflow with the peer of the session has a message sealed for it. -/
theorem Talking.ask_send (h : Talking n m g) (hm : m ≠ u64Max) {rate'' : RateBudget}
    {arrival' : Arrival} (hgate : rate.gate arrival = (rate', .admitted))
    (hgate' : rate'.gate arrival' = (rate'', .admitted)) {w : Workflow}
    (hremote : w.remote = "urn:hacp:agent:b") (hcontext : w.context = "s-1")
    {message : V2.Envelope} (hout : w.outgoing foreign message = .ok ())
    (hsize : (compact message.toJson).length ≤ 100000) (edge : Outside) (ps : List Bytes)
    (k : UInt64) :
    ∃ g', w.askSend foreign compact asks
          ⟨⟨g, rate⟩, (arrival, edge) :: (arrival', arriving ps k) :: ahead, handed⟩ message binding =
        (⟨⟨g', rate''⟩, ahead, handed ++ [(lineOf .status, edge), (sealLine message, arriving ps k)]⟩,
          .ok ()) ∧
      g.dispatch foreign exchange lineCrates (lineOf .status) edge =
        (g, ⟨.ok g.status, [], none⟩) ∧
      g.dispatch foreign exchange lineCrates (sealLine message) (arriving ps k) =
        (g', ⟨.ok (.sealed sid (some m) (pathOf m)), [], some ⟨sid, .replicate 32 0, m⟩⟩) ∧
      Talking n (m + 1) g' := by
  obtain ⟨hsession, hstatus⟩ := h.ask_session ((arrival', arriving ps k) :: ahead)
    handed hgate hremote hcontext edge
  obtain ⟨g', ⟨hask, hseal⟩, htalking⟩ := h.ask_seal ahead
    (handed ++ [(lineOf .status, edge)]) hgate' hm hsize ps k
  refine ⟨g', ?_, hstatus, hseal, htalking⟩
  rw [Workflow.askSend, hout]
  dsimp only
  rw [hsession]
  dsimp only [asks, reached] at hask ⊢
  rw [hask, List.append_assoc]
  rfl

end Ask
end Conversation
end Hacp.Secure
