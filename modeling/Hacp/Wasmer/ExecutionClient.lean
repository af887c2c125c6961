import Hacp.Wasmer.Executions

/-!
# The client of an execution service

The requesting side writes its payload into the body of a message, has its own guardian seal it,
and polls that guardian until the reply to its message arrives. What it asks for is what the
service authorizes, and the result it is given is one the service replied with, under the binding
of the request.
-/
namespace Hacp.Wasmer
open Lib V2 Secure RateBudget
open Hosted (Leads)

/-! ## The payload as text -/

def PayloadFile.toJson (file : PayloadFile) : Json :=
  .object [("content_b64", .string file.contentB64), ("path", .string file.path)]

namespace ExecutionPayload

/-- `#[derive(Serialize)]`; an absent limit is left out. -/
def toJson (payload : ExecutionPayload) : Json :=
  .object ([("args", .array (payload.args.map .string)),
    ("env", .object (payload.env.map fun v => (v.1, .string v.2))),
    ("files", .array (payload.files.map PayloadFile.toJson))] ++
    (payload.maxOutputBytes.map fun n => ("max_output_bytes", natural n.toNat)).toList ++
    [("network", .array (payload.network.map .string)), ("package", .string payload.package),
      ("timeout_ms", natural payload.timeoutMs.toNat)])

/-- The variables are those of a map. -/
def Ordered (payload : ExecutionPayload) : Prop :=
  (payload.env.map Prod.fst).Pairwise fun k l => byteLe k l ∧ k ≠ l

end ExecutionPayload

/-! ## The client -/

structure ExecutionClient where
  socketPath : String
  local_ : String
  peer : String
  context : String

structure ReturnedResult where
  requestId : String
  resultId : String
  contract : String
  body : Json

namespace ExecutionClient

def new (socketPath local_ peer context : String) : Except SecureError ExecutionClient := do
  ExecutionService.validateIdentities local_ context [peer]
  .ok ⟨socketPath, local_, peer, context⟩

def request (c : ExecutionClient) (payload : ExecutionPayload) (minted : String × String) :
    V2.Envelope :=
  newEnvelope minted c.context c.local_ c.peer requestKind payload.toJson

/-- One turn of the loop over the deliveries of a poll, which goes on or returns. -/
def awaitTurn (c : ExecutionClient) (requestId contract : String) :
    Except SecureError Delivered → Option (Except SecureError ReturnedResult)
  | .error _ => none
  | .ok d =>
    if d.from_ ≠ c.peer ∨ d.message.kind ≠ resultKind ∨ d.message.inReplyTo ≠ some requestId then
      none
    else if d.contract ≠ contract then some (.error .contractMismatch)
    else some (.ok ⟨requestId, d.message.messageId, d.contract, d.message.body⟩)

section Calls
variable (F : Foreign) (C : Crates) (write : Json → Bytes) (c : ExecutionClient) {σ : Type}

def send (socket : Socket σ) (s : σ) (minted : String × String) (payload : ExecutionPayload)
    (contract : String) : σ × Except SecureError String :=
  let request := c.request payload minted
  match Workflow.new c.socketPath c.local_ c.peer c.context with
  | .error e => (s, .error e)
  | .ok workflow =>
    let (s, result) := workflow.send F C write socket s request contract
    (s, result.map fun _ => request.messageId)

/-- `await_result`, on the readings of the clock after its polls: nothing is returned where the
readings end before it is. -/
def awaitResult (socket : Socket σ) (requestId contract : String) (deadline : ℕ) :
    List ℕ → σ → σ × Option (Except SecureError (Option ReturnedResult))
  | [], s => (s, none)
  | now :: clock, s =>
    match guardianReport C write socket s c.context with
    | (s, .error e) => (s, some (.error e))
    | (s, .ok report) =>
      match (readReport F C c.local_ c.context report).deliveries.findSome?
          (c.awaitTurn requestId contract) with
      | some result => (s, some (result.map some))
      | none =>
        if deadline ≤ now then (s, some (.ok none))
        else awaitResult socket requestId contract deadline clock s

/-- `await_result` where nothing is written as text but the messages. -/
def askResult (ask : σ → Request → σ × Except SecureError Response)
    (requestId contract : String) (deadline : ℕ) :
    List ℕ → σ → σ × Option (Except SecureError (Option ReturnedResult))
  | [], s => (s, none)
  | now :: clock, s =>
    match ask s (.open_ c.context) with
    | (s, .error e) => (s, some (.error e))
    | (s, .ok (.opened b)) =>
      match (b.delivered.map (decodeDelivery F C c.local_ c.context)).findSome?
          (c.awaitTurn requestId contract) with
      | some result => (s, some (result.map some))
      | none =>
        if deadline ≤ now then (s, some (.ok none))
        else askResult ask requestId contract deadline clock s
    | (s, .ok _) => (s, some (.error .guardianUnavailable))

end Calls
end ExecutionClient

/-! ## The payload is read back -/

theorem PayloadFile.ofJson_toJson (file : PayloadFile) : ofJson file.toJson = some file := by
  simp [ofJson, toJson, readRecord, List.lookup_cons, Json.asStr]

theorem asU64_natural (n : UInt64) : (natural n.toNat).asU64 = some n := by
  have hbound := n.toNat_lt
  simp only [natural, Json.asU64]
  rw [if_pos ⟨Int.natCast_nonneg _, by omega⟩]
  simp

theorem asStr_string (text : String) : (Json.string text).asStr = some text := rfl

theorem readItems_written {α : Type} {read : Json → Option α} {write : α → Json}
    (h : ∀ a, read (write a) = some a) (as : List α) :
    readItems read (.array (as.map write)) = some as := by
  rw [readItems, Json.asArray, Option.bind_some]
  induction as with
  | nil => rfl
  | cons a as ih => rw [List.map_cons, List.mapM_cons, h, ih]; rfl

theorem readStrings_written {env : List (String × String)}
    (h : (env.map Prod.fst).Pairwise fun k l => byteLe k l ∧ k ≠ l) :
    readStrings (.object (env.map fun v => (v.1, .string v.2))) = some env := by
  have hsorted : (env.map fun v => (v.1, Json.string v.2)).Pairwise Json.keyLe :=
    List.pairwise_map.mpr ((List.pairwise_map.mp h).imp fun hab => hab.1)
  have hsort : Json.sortMembers (env.map fun v => (v.1, Json.string v.2)) =
      env.map fun v => (v.1, .string v.2) := hsorted.insertionSort_eq
  rw [readStrings, Json.asObject, Option.bind_some, hsort]
  clear h hsorted hsort
  induction env with
  | nil => rfl
  | cons v env ih => rw [List.map_cons, List.mapM_cons, ih]; rfl

/-- A record is read from an object of some of its fields. -/
theorem readRecord_object {α : Type} {fields : List String}
    {read : (String → Option Json) → Option α} {members : List (String × Json)}
    (keys : List String) (hnames : members.map Prod.fst = keys) (hkeys : keys.Nodup)
    (hfields : ∀ key ∈ keys, key ∈ fields) :
    readRecord fields read (.object members) = read fun key => members.lookup key := by
  subst hnames
  exact if_pos ⟨hkeys, fun _ hp => hfields _ (List.mem_map_of_mem hp)⟩

namespace ExecutionPayload
variable {payload : ExecutionPayload}

theorem ofFields_written {get : String → Option Json} (h : payload.Ordered)
    (hpackage : get "package" = some (.string payload.package))
    (hargs : get "args" = some (.array (payload.args.map .string)))
    (hfiles : get "files" = some (.array (payload.files.map PayloadFile.toJson)))
    (henv : get "env" = some (.object (payload.env.map fun v => (v.1, .string v.2))))
    (hnetwork : get "network" = some (.array (payload.network.map .string)))
    (htimeout : get "timeout_ms" = some (natural payload.timeoutMs.toNat))
    (hlimit : orDefault none readUsize? (get "max_output_bytes") = some payload.maxOutputBytes) :
    ofFields get = some payload := by
  have hpackage' : (get "package").bind Json.asStr = some payload.package := by rw [hpackage]; rfl
  have hargs' : orDefault [] (readItems Json.asStr) (get "args") = some payload.args := by
    rw [hargs, orDefault, readItems_written asStr_string]
  have hfiles' : orDefault [] (readItems PayloadFile.ofJson) (get "files") = some payload.files := by
    rw [hfiles, orDefault, readItems_written PayloadFile.ofJson_toJson]
  have henv' : orDefault [] readStrings (get "env") = some payload.env := by
    rw [henv, orDefault, readStrings_written h]
  have hnetwork' : orDefault [] (readItems Json.asStr) (get "network") = some payload.network := by
    rw [hnetwork, orDefault, readItems_written asStr_string]
  have htimeout' : (get "timeout_ms").bind Json.asU64 = some payload.timeoutMs := by
    rw [htimeout, Option.bind_some, asU64_natural]
  unfold ofFields
  rw [hpackage', hargs', hfiles', henv', hnetwork', htimeout', hlimit]
  rfl

theorem limit_written (n : UInt64) :
    orDefault none readUsize? (some (natural n.toNat)) = some (some n) := by
  have hread : readUsize? (natural n.toNat) = (natural n.toNat).asU64.map some := rfl
  rw [orDefault, hread, asU64_natural, Option.map_some]

theorem ofJson_toJson (h : payload.Ordered) : ofJson payload.toJson = some payload := by
  unfold ofJson toJson
  cases hmax : payload.maxOutputBytes with
  | none =>
    have hlimit : orDefault none readUsize? none = some payload.maxOutputBytes := by
      rw [hmax, orDefault]
    rw [readRecord_object ["args", "env", "files", "network", "package", "timeout_ms"] rfl
      (by decide) (by decide)]
    exact ofFields_written h rfl rfl rfl rfl rfl rfl hlimit
  | some n =>
    have hlimit : orDefault none readUsize? (some (natural n.toNat)) =
        some payload.maxOutputBytes := by
      rw [hmax, limit_written]
    rw [readRecord_object
      ["args", "env", "files", "max_output_bytes", "network", "package", "timeout_ms"] rfl
      (by decide) (by decide)]
    exact ofFields_written h rfl rfl rfl rfl rfl rfl hlimit

end ExecutionPayload

/-! ## What is written is plain -/

section Plain
open Json

theorem ExecutionPayload.plain {payload : ExecutionPayload} (h : payload.Ordered)
    (hname : numberMarker ∉ payload.env.map Prod.fst) : Plain 3 payload.toJson := by
  have hstrings (texts : List String) : Plain 2 (.array (texts.map .string)) :=
    (plain_entries (fun text => Plain.string text) texts).mono (show 0 + 1 ≤ 2 by omega)
  have hfiles : Plain 2 (.array (payload.files.map PayloadFile.toJson)) :=
    plain_entries (fun file => .members ["content_b64", "path"] rfl (by decide)
      (by simp [Plain.string])) payload.files
  have henv : Plain 2 (.object (payload.env.map fun v => (v.1, .string v.2))) := by
    refine (Plain.object (n := 0) ?_ ?_).mono (by omega)
    · rw [List.map_map]
      exact ⟨h, hname⟩
    · rintro p hp
      obtain ⟨v, -, rfl⟩ := List.mem_map.mp hp
      exact .string v.2
  unfold ExecutionPayload.toJson
  cases payload.maxOutputBytes with
  | none =>
    exact .members ["args", "env", "files", "network", "package", "timeout_ms"] rfl (by decide)
      (by simp [Plain.string, plain_natural, hstrings, hfiles, henv])
  | some n =>
    exact .members ["args", "env", "files", "max_output_bytes", "network", "package", "timeout_ms"]
      rfl (by decide) (by simp [Plain.string, plain_natural, hstrings, hfiles, henv])

theorem Failure.plain (fault : Failure) : Plain 1 fault.toJson :=
  .members ["detail", "kind"] rfl (by decide) (by simp [Plain.string])

theorem ExecutionResult.plain (result : ExecutionResult) : Plain 2 result.resultBody := by
  have hfailure : Plain 1 ((result.failure.map Failure.toJson).getD .null) := by
    cases result.failure with
    | none => exact .null
    | some fault => exact fault.plain
  have hcode : Plain 1 ((result.exitCode.map fun c => .number (.integer c.toInt)).getD .null) := by
    cases result.exitCode with
    | none => exact .null
    | some code => exact .integer _
  exact .members ["duration_ms", "exit_code", "failure", "output_truncated", "status", "stderr",
    "stdout"] rfl (by decide) (by simp [Plain.string, Plain.bool, plain_natural, hfailure, hcode])

theorem plain_denialBody (schema : String) (denial : Denial) : Plain 2 (denialBody schema denial) :=
  .members ["denial", "status"] rfl (by decide) (by
    have hdenial : Plain 1 (.object [("code", .string denial.code),
        ("detail", .string (denial.text schema))]) :=
      .members ["code", "detail"] rfl (by decide) (by simp [Plain.string])
    simp [Plain.string, hdenial])

theorem ExecutionService.Answers.plain {C : Crates} {ω : Type} {host : Host ω}
    {x : ExecutionService} {runs : List Run} {d : Delivered} {body : Json}
    (h : ExecutionService.Answers C host x runs d body) : Plain 2 body := by
  cases h with
  | result => exact ExecutionResult.plain _
  | denial => exact plain_denialBody _ _

end Plain

namespace ExecutionClient
variable {F : Foreign} {K : KeyExchange} {C : Crates} {write : Json → Bytes} {uid user : UInt32}
  {c : ExecutionClient} {requestId contract : String} {deadline : ℕ}

/-! ## Waiting for a reply -/

section Asked
variable {σ : Type} {socket : Socket σ} {ask : σ → Request → σ × Except SecureError Response}
  (hask : ∀ s r, Client.request C write socket s r.toJson =
    ((ask s r).1, (ask s r).2.map Response.toJson))
include hask

theorem awaitResult_eq_ask (hserde : Serde C write) (clock : List ℕ) (s : σ) :
    c.awaitResult F C write socket requestId contract deadline clock s =
      c.askResult F C ask requestId contract deadline clock s := by
  induction clock generalizing s with
  | nil => rfl
  | cons now clock ih =>
    unfold awaitResult askResult guardianReport
    rw [hask]
    obtain ⟨t, e | r⟩ := ask s (.open_ c.context)
    · rfl
    · cases r with
      | opened b =>
        have harrays : (["delivered", "rejected", "aborted"].all fun field =>
            ((Response.opened b).toJson.at_ field).asArray.isSome) = true := rfl
        dsimp only [Except.map]
        rw [if_pos harrays]
        dsimp only
        rw [ExecutionService.readReport_opened hserde, ih]
        rfl
      | session pending peer mode => rfl
      | sealed sid seq path => rfl
      | status mode sessions insecure => rfl
      | fingerprint urn digest => rfl

end Asked

variable (F C c requestId contract) in
/-- The first delivery of some polls that ends the wait. -/
def firstReply (polls : List Gathered) : Option (Except SecureError ReturnedResult) :=
  ((polls.flatMap Gathered.delivered).map (decodeDelivery F C c.local_ c.context)).findSome?
    (c.awaitTurn requestId contract)

theorem firstReply_cons (b : Gathered) (polls : List Gathered) :
    c.firstReply F C requestId contract (b :: polls) =
      ((b.delivered.map (decodeDelivery F C c.local_ c.context)).findSome?
        (c.awaitTurn requestId contract)).or (c.firstReply F C requestId contract polls) := by
  rw [firstReply, List.flatMap_cons, List.map_append, List.findSome?_append]
  rfl

variable (F K uid user c requestId contract deadline) in
/-- What the wait returns is the first reply of its polls; it returns without one only past the
deadline. -/
theorem askResult_first (hserde : Serde C write) (clock : List ℕ) (h : Hosted) :
    let out := c.askResult F C (Hosted.ask F K C write uid user) requestId contract deadline clock h
    ∃ js, Leads F K C h out.1 js ∧ ∀ r, out.2 = some (.ok r) →
      c.firstReply F C requestId contract
          (((Guardian.machine F K C).history h.service.guardian js).filterMap
            Guardian.openedOf) = r.map .ok ∧
        (r = none → ∃ now ∈ clock, deadline ≤ now) := by
  induction clock generalizing h with
  | nil => exact ⟨[], .refl h, fun r hr => by cases hr⟩
  | cons now clock ih =>
    obtain ⟨js, hleads, -, hopened⟩ := Hosted.ask_line F K uid user hserde h (.open_ c.context)
    unfold askResult
    rcases hanswer : Hosted.ask F K C write uid user h (.open_ c.context) with ⟨t, e | r⟩
    · rw [hanswer] at hleads
      exact ⟨js, hleads, fun r hr => by cases hr⟩
    rw [hanswer] at hleads hopened
    cases r with
    | session pending peer mode => exact ⟨js, hleads, fun r hr => by cases hr⟩
    | sealed sid seq path => exact ⟨js, hleads, fun r hr => by cases hr⟩
    | status mode sessions insecure => exact ⟨js, hleads, fun r hr => by cases hr⟩
    | fingerprint urn digest => exact ⟨js, hleads, fun r hr => by cases hr⟩
    | opened b =>
      have hb := hopened b rfl
      dsimp only
      cases hfound : (b.delivered.map (decodeDelivery F C c.local_ c.context)).findSome?
          (c.awaitTurn requestId contract) with
      | some result =>
        refine ⟨js, hleads, fun r hr => ?_⟩
        rw [hb, firstReply_cons, hfound, Option.some_or]
        cases result with
        | error e => cases hr
        | ok returned =>
          cases hr
          exact ⟨rfl, fun hnone => by cases hnone⟩
      | none =>
        dsimp only
        split_ifs with hdeadline
        · refine ⟨js, hleads, fun r hr => ?_⟩
          cases hr
          rw [hb, firstReply_cons, hfound]
          exact ⟨rfl, fun _ => ⟨now, List.mem_cons_self, hdeadline⟩⟩
        · obtain ⟨ks, hleads', hfirst⟩ := ih t
          refine ⟨js ++ ks, hleads.trans hleads', fun r hr => ?_⟩
          obtain ⟨hreply, hlate⟩ := hfirst r hr
          rw [Machine.history_append, List.filterMap_append, hb, hleads.exec,
            List.singleton_append, firstReply_cons, hfound, Option.none_or]
          refine ⟨hreply, fun hnone => ?_⟩
          obtain ⟨later, hlater, hpast⟩ := hlate hnone
          exact ⟨later, List.mem_cons_of_mem _ hlater, hpast⟩

theorem awaitTurn_eq_ok {delivery : Except SecureError Delivered} {r : ReturnedResult} :
    c.awaitTurn requestId contract delivery = some (.ok r) ↔ ∃ d, delivery = .ok d ∧
      d.from_ = c.peer ∧ d.message.kind = resultKind ∧ d.message.inReplyTo = some requestId ∧
        d.contract = contract ∧
          r = ⟨requestId, d.message.messageId, contract, d.message.body⟩ := by
  cases delivery with
  | error e => simp [awaitTurn]
  | ok d =>
    unfold awaitTurn
    dsimp only
    by_cases hother : d.from_ ≠ c.peer ∨ d.message.kind ≠ resultKind ∨
        d.message.inReplyTo ≠ some requestId
    · rw [if_pos hother]
      constructor
      · intro h
        cases h
      · rintro ⟨_, hd, hfrom, hkind, hreply, -⟩
        cases hd
        exact absurd hother (by simp [hfrom, hkind, hreply])
    · rw [if_neg hother]
      simp only [not_or, not_not] at hother
      by_cases hcontract : d.contract = contract
      · rw [if_neg (not_not.mpr hcontract)]
        constructor
        · intro h
          cases h
          exact ⟨d, rfl, hother.1, hother.2.1, hother.2.2, hcontract, by rw [hcontract]⟩
        · rintro ⟨_, hd, -, -, -, -, rfl⟩
          cases hd
          rw [hcontract]
      · rw [if_pos hcontract]
        constructor
        · intro h
          cases h
        · rintro ⟨_, hd, -, -, -, hcontract', -⟩
          cases hd
          exact absurd hcontract' hcontract

variable (F K uid user) in
/-- Where a wait begins at a guardian that has come some way, a result it returns is the body of
the first message that its polls bring from the peer as a reply to the request, and it is bound as
the request was: the guardian answered with the delivery it came in, whose envelope the session had
verified and opened, and the control state that was read accepted that binding. -/
theorem results_authentic (hserde : Serde C write) {local_ : String} {seed : Vector UInt8 32}
    {pins : List Pin} {mode : Mode} {g : Guardian}
    (hload : Guardian.load local_ seed pins mode = .ok g) {cap : UInt32}
    {ahead : List (Arrival × Outside)} {h : Hosted} {pre : List (Bytes × Outside)}
    (hstart : Leads F K C ⟨.load g cap, ahead, []⟩ h pre) (c : ExecutionClient)
    (requestId contract : String) (deadline : ℕ) (clock : List ℕ)
    (hfresh : Guardian.FreshRequests F K C g (c.awaitResult F C write
      (Hosted.socket F K C write uid user) requestId contract deadline clock h).1.handed) :
    let out := c.awaitResult F C write (Hosted.socket F K C write uid user) requestId contract
      deadline clock h
    let answers := (Guardian.machine F K C).history g out.1.handed
    (Guardian.machine F K C).exec g out.1.handed = out.1.service.guardian ∧
    ∃ (js : List (Bytes × Outside)) (polls : List Gathered),
      out.1.handed = h.handed ++ js ∧
      polls = ((Guardian.machine F K C).history h.service.guardian js).filterMap
        Guardian.openedOf ∧
      (out.2 = some (.ok none) → c.firstReply F C requestId contract polls = none ∧
        ∃ now ∈ clock, deadline ≤ now) ∧
      ∀ r, out.2 = some (.ok (some r)) → c.firstReply F C requestId contract polls = some (.ok r) ∧
        ∃ (d : Delivery) (m : V2.Envelope), d ∈ polls.flatMap Gathered.delivered ∧
          r = ⟨requestId, m.messageId, contract, m.body⟩ ∧
          m.validate F = .ok () ∧ m.kind = resultKind ∧ m.inReplyTo = some requestId ∧
          m.from_ = c.peer ∧ m.to_ = c.local_ ∧ m.sessionId = c.context ∧
          d.from_ = c.peer ∧ d.contract = contract ∧
          (C.tokens d.payload).bind V2.Envelope.ofJson = some m ∧
          ∃ answer ∈ answers, d ∈ answer.output.deliveriesOf d.sid ∧
            ∃ made env view, Vouched F K C answers answer d made env view := by
  dsimp only
  rw [awaitResult_eq_ask (fun h r => Client.request_hosted F K uid user hserde h r) hserde]
    at hfresh ⊢
  obtain ⟨js, hleads, hfirst⟩ := askResult_first F K uid user c requestId contract deadline hserde
    clock h
  have hwhole := hstart.trans hleads
  have hhanded : _ = pre ++ js := hwhole.handed
  obtain rfl : h.handed = pre := hstart.handed
  rw [hhanded] at hfresh ⊢
  have hlisted : (((Guardian.machine F K C).history h.service.guardian js).filterMap
      Guardian.openedOf).Sublist (((Guardian.machine F K C).history g
        (h.handed ++ js)).filterMap Guardian.openedOf) := by
    rw [Machine.history_append, List.filterMap_append,
      show (Guardian.machine F K C).exec g h.handed = h.service.guardian from hstart.exec]
    exact List.sublist_append_right _ _
  refine ⟨hwhole.exec, js, _, rfl, rfl, fun hout => ?_, fun r hout => ?_⟩
  · obtain ⟨hreply, hlate⟩ := hfirst none hout
    exact ⟨hreply, hlate rfl⟩
  · obtain ⟨hreply, -⟩ := hfirst (some r) hout
    obtain ⟨delivery, hdelivery, hturn⟩ := List.exists_of_findSome?_eq_some hreply
    obtain ⟨d, hd, rfl⟩ := List.mem_map.mp hdelivery
    obtain ⟨m, hdecode, hpeer, hkind, hanswers, hbound, rfl⟩ := awaitTurn_eq_ok.mp hturn
    obtain ⟨hsid, hfrom, hcontract, hread, hvalid, hinner, hto, hcontext⟩ :=
      ExecutionService.decodeDelivery_eq_ok.mp hdecode
    have hone (sid : String) : ([d].filter (·.sid = sid)).Sublist
        (((Guardian.machine F K C).history g (h.handed ++ js)).flatMap fun e =>
          e.output.deliveriesOf sid) := by
      rw [← Workflow.opened_deliveries]
      exact ((List.singleton_sublist.mpr hd).trans (hlisted.flatMap _)).filter _
    obtain ⟨-, hvouched⟩ := Guardian.listed_vouched hload hfresh
      (fun d' hd' => List.mem_singleton.mp hd' ▸ hsid) hone
    have hsame : d.from_ = c.peer := hfrom.symm.trans hpeer
    exact ⟨hreply, d, m.message, hd, rfl, hvalid, hkind, hanswers, hinner.trans hsame, hto,
      hcontext, hsame, hcontract.symm.trans hbound, hread,
      hvouched d (List.mem_singleton_self d)⟩

/-! ## There and back -/

/-- A message nests once more than its body. -/
theorem depth_message {m : V2.Envelope} {n : ℕ} (hextra : m.extra = ∅) (hbody : m.body.depth ≤ n) :
    m.toJson.depth ≤ n + 1 := by
  refine Nat.succ_le_succ (Json.depthMembers_le_iff.mpr fun p hp => ?_)
  rw [V2.Envelope.members, hextra, List.mem_append] at hp
  rcases hp with hp | hp
  · have hstring : p.2 = m.body ∨ p.2.depth = 0 := by
      simp only [V2.Envelope.known, List.mem_cons, List.not_mem_nil, or_false] at hp
      rcases hp with rfl | rfl | rfl | rfl | rfl | rfl | rfl | rfl | rfl
      · exact .inr rfl
      · exact .inr rfl
      · exact .inr rfl
      · exact .inr rfl
      · exact .inr rfl
      · exact .inr rfl
      · exact .inr rfl
      · cases m.inReplyTo with
        | none => exact .inr rfl
        | some reply => exact .inr rfl
      · exact .inl rfl
    rcases hstring with heq | hzero
    · exact heq ▸ hbody
    · exact hzero ▸ Nat.zero_le n
  · have hlookup := Std.ExtTreeMap.mem_toList_iff_getElem?_eq_some.mp hp
    simp at hlookup

theorem unmarked_message {m : V2.Envelope} (hextra : m.extra = ∅)
    (hbody : m.body.unmarked = true) : m.toJson.unmarked = true := by
  have hknown : Json.unmarkedMembers m.known = true := by
    cases hreply : m.inReplyTo <;>
      simp [V2.Envelope.known, Json.unmarkedMembers, Json.unmarked, numberMarker, hbody, hreply]
  refine (Json.unmarkedMembers_iff _).mpr fun p hp => ?_
  rcases List.mem_append.mp hp with hp | hp
  · exact (Json.unmarkedMembers_iff _).mp hknown p hp
  · rw [hextra] at hp
    have hlookup := Std.ExtTreeMap.mem_toList_iff_getElem?_eq_some.mp hp
    simp at hlookup

/-- A delivery, from its sender, of what a guardian was asked to seal. -/
structure Carries (C : Crates) (sealed : String × String × String) (sender : String)
    (d : Delivery) : Prop where
  sid : d.sid ≠ ""
  from_ : d.from_ = sender
  contract : d.contract = sealed.2.1
  payload : C.base64 sealed.2.2 = some d.payload

theorem Carries.brings (hserde : Serde C write) {sid sender contract : String} {m : V2.Envelope}
    {d : Delivery} (h : Carries C (sid, contract, Base64.encode (write m.toJson)) sender d) :
    ExecutionService.Brings write sender contract m d where
  sid := h.sid
  from_ := h.from_
  contract := h.contract
  payload := Option.some.inj (h.payload.symm.trans (hserde.base64 _))

/-! ### The request -/

/-- A client that was made sends its request through the workflow with its peer. -/
theorem send_of_new {socketPath local_ peer context : String}
    (hnew : ExecutionClient.new socketPath local_ peer context = .ok c) (hsocket : socketPath ≠ "")
    (hother : local_ ≠ peer) {σ : Type} (socket : Socket σ) (s : σ) (minted : String × String)
    (payload : ExecutionPayload) (contract : String) :
    c.send F C write socket s minted payload contract =
      let sent := Workflow.send F C write ⟨c.local_, c.peer, c.context⟩ socket s
        (c.request payload minted) contract
      (sent.1, sent.2.map fun _ => (c.request payload minted).messageId) := by
  rw [ExecutionClient.new, then_eq_ok, Except.ok.injEq] at hnew
  obtain ⟨hvalid, rfl⟩ := hnew
  rw [send, ExecutionService.workflow_of_identities hvalid List.mem_cons_self hsocket hother]

variable (F K uid user c) in
/-- The client has its guardian seal the request for the only session with the peer, or nothing,
and then it does not succeed. -/
theorem send_seals (hserde : Serde C write) (h : Hosted) (minted : String × String)
    (payload : ExecutionPayload) (contract : String) :
    let sent := c.send F C write (Hosted.socket F K C write uid user) h minted payload contract
    ∃ js, Leads F K C h sent.1 js ∧
      (js.filterMap (ExecutionService.sealOf C) = [] ∧ (∀ id, sent.2 ≠ .ok id) ∨ ∃ sid,
        js.filterMap (ExecutionService.sealOf C) =
            [(sid, contract, Base64.encode (write (c.request payload minted).toJson))] ∧
          (c.request payload minted).validate F = .ok () ∧
          ExecutionService.OnlySession h.service.guardian c.peer c.context sid ∧
          ∀ id, sent.2 = .ok id → id = (c.request payload minted).messageId) := by
  unfold send
  dsimp only
  cases hnew : Workflow.new c.socketPath c.local_ c.peer c.context with
  | error e => exact ⟨[], .refl h, .inl ⟨rfl, fun id h => by cases h⟩⟩
  | ok w =>
    obtain ⟨-, -, -, -, -, rfl⟩ := Workflow.new_eq_ok.mp hnew
    dsimp only
    rw [Workflow.send_eq_ask fun h r => Client.request_hosted F K uid user hserde h r]
    obtain ⟨js, hleads, hseals⟩ := ExecutionService.askSend_seals F K uid user hserde
      ⟨c.local_, c.peer, c.context⟩ h (c.request payload minted) contract
    refine ⟨js, hleads, ?_⟩
    generalize Workflow.askSend F write ⟨c.local_, c.peer, c.context⟩ (Hosted.ask F K C write uid user)
      h (c.request payload minted) contract = result at hseals ⊢
    rcases hseals with ⟨hnothing, hfails⟩ | ⟨sid, hseal, hout, hsession⟩
    · refine .inl ⟨hnothing, fun id hid => hfails ?_⟩
      obtain ⟨t, e | _⟩ := result
      · cases hid
      · rfl
    · refine .inr ⟨sid, hseal, (Workflow.outgoing_eq_ok.mp hout).1, hsession, fun id hid => ?_⟩
      obtain ⟨t, e | _⟩ := result
      · cases hid
      · exact (Except.ok.inj hid).symm

/-- The service takes what the client had sealed for a request with the payload. -/
theorem request_decoded (hserde : Serde C write) {x : ExecutionService}
    (hpeer : x.local_ = c.peer) (hcontext : x.context = c.context) {payload : ExecutionPayload}
    (hpayload : payload.Ordered) (hname : numberMarker ∉ payload.env.map Prod.fst)
    {minted : String × String} (hvalid : (c.request payload minted).validate F = .ok ())
    {d : Delivery}
    (hbrings : ExecutionService.Brings write c.local_ contract (c.request payload minted) d) :
    ExecutionService.requestIn (decodeDelivery F C x.local_ x.context d) =
        some ⟨c.local_, contract, c.request payload minted⟩ ∧
      ExecutionPayload.ofJson (c.request payload minted).body = some payload := by
  have hplain := ExecutionPayload.plain hpayload hname
  have hdepth : (c.request payload minted).toJson.depth ≤ 3 + 1 := depth_message rfl hplain.depth
  have hdecode : decodeDelivery F C x.local_ x.context d =
      .ok ⟨c.local_, contract, c.request payload minted⟩ :=
    hbrings.decoded hserde hvalid (hdepth.trans (by omega)) (unmarked_message rfl hplain.unmarked) rfl
      hpeer.symm hcontext.symm
  exact ⟨ExecutionService.requestIn_eq_some.mpr ⟨hdecode, rfl⟩,
    ExecutionPayload.ofJson_toJson hpayload⟩

/-! ### The reply -/

/-- The reply of the service to a request ends the wait for it. -/
theorem reply_ends_wait (hserde : Serde C write) {x : ExecutionService} {ω : Type} {host : Host ω}
    (hpeer : x.local_ = c.peer) (hcontext : x.context = c.context) {request : V2.Envelope}
    {runs : List Run} {reply : ExecutionService.Reply}
    (hrequest : reply.request = ⟨c.local_, contract, request⟩)
    (hanswering : reply.Answering F C host x runs) {d : Delivery}
    (hbrings : ExecutionService.Brings write c.peer contract reply.message d) :
    c.awaitTurn request.messageId contract (decodeDelivery F C c.local_ c.context d) =
      some (.ok ⟨request.messageId, reply.message.messageId, contract, reply.message.body⟩) := by
  obtain ⟨minted, body, hmade, hanswers⟩ := hanswering.made
  have hdepth : reply.message.toJson.depth ≤ 2 + 1 := by
    rw [hmade]
    exact depth_message rfl hanswers.plain.depth
  have hmarks : reply.message.toJson.unmarked = true := by
    rw [hmade]
    exact unmarked_message rfl hanswers.plain.unmarked
  have hdecode : decodeDelivery F C c.local_ c.context d = .ok ⟨c.peer, contract, reply.message⟩ :=
    hbrings.decoded hserde hanswering.valid (hdepth.trans (by omega)) hmarks
      (by rw [hmade]; exact hpeer) (by rw [hmade, hrequest]; rfl) (by rw [hmade]; exact hcontext)
  rw [awaitTurn_eq_ok]
  refine ⟨_, hdecode, rfl, by rw [hmade]; rfl, ?_, rfl, rfl⟩
  rw [hmade, hrequest]
  rfl

/-- Polls of a context that the guardian answers, one after the other. -/
inductive Polled (C : Crates) (write : Json → Bytes) {σ : Type} (socket : Socket σ)
    (context : String) : σ → List Gathered → σ → Prop
  | nil (s : σ) : Polled C write socket context s [] s
  | cons {s t u : σ} {b : Gathered} {bs : List Gathered}
      (hanswer : Client.request C write socket s (Request.open_ context).toJson =
        (t, .ok (Response.opened b).toJson)) (hrest : Polled C write socket context t bs u) :
      Polled C write socket context s (b :: bs) u

theorem guardianReport_opened {σ : Type} {socket : Socket σ} {s t : σ} {context : String}
    {b : Gathered} (hanswer : Client.request C write socket s (Request.open_ context).toJson =
      (t, .ok (Response.opened b).toJson)) :
    guardianReport C write socket s context = (t, .ok (Response.opened b).toJson) := by
  have harrays : (["delivered", "rejected", "aborted"].all fun field =>
      ((Response.opened b).toJson.at_ field).asArray.isSome) = true := rfl
  rw [guardianReport, hanswer]
  exact if_pos harrays

/-- The wait goes on over polls that bring nothing to end it, and ends at the one that does. -/
theorem awaitResult_polled (hserde : Serde C write) {σ : Type} {socket : Socket σ} {s t : σ}
    {bs : List Gathered} {b : Gathered} {result : Except SecureError ReturnedResult}
    {clock : List ℕ} (hpolled : Polled C write socket c.context s (bs ++ [b]) t)
    (hnone : c.firstReply F C requestId contract bs = none)
    (hfound : (b.delivered.map (decodeDelivery F C c.local_ c.context)).findSome?
      (c.awaitTurn requestId contract) = some result)
    (hclock : bs.length < clock.length) (hearly : ∀ now ∈ clock.take bs.length, now < deadline) :
    c.awaitResult F C write socket requestId contract deadline clock s =
      (t, some (result.map some)) := by
  induction bs generalizing s clock with
  | nil =>
    obtain ⟨now, clock, rfl⟩ := List.exists_cons_of_length_pos hclock
    cases hpolled with
    | cons hanswer hrest =>
      cases hrest
      rw [awaitResult, guardianReport_opened hanswer]
      dsimp only
      rw [ExecutionService.readReport_opened hserde, reportOf]
      dsimp only
      rw [hfound]
  | cons b' bs ih =>
    obtain ⟨now, clock, rfl⟩ := List.exists_cons_of_length_pos (Nat.zero_lt_of_lt hclock)
    rw [firstReply_cons, Option.or_eq_none_iff] at hnone
    rw [List.length_cons, List.take_succ_cons, List.forall_mem_cons] at hearly
    cases hpolled with
    | cons hanswer hrest =>
      rw [awaitResult, guardianReport_opened hanswer]
      dsimp only
      rw [ExecutionService.readReport_opened hserde, reportOf]
      dsimp only
      rw [hnone.1]
      dsimp only
      rw [if_neg (Nat.not_le.mpr hearly.1)]
      exact ih hrest hnone.2 (Nat.lt_of_succ_lt_succ hclock) hearly.2

variable (F K uid user) in
/-- Whatever comes of it, the client hands its guardian at most one request to seal, for the only
session with the peer in the context; where it succeeds it has done so, and returns the identifier
of the request. What it handed over the service takes, when it is delivered from the client, for a
request whose body reads as the payload, under the sender and the binding of the delivery. And where
polls of the client bring, in time and before anything else that ends the wait, a delivery of what
the service had its guardian seal in reply, the wait returns it. -/
theorem execution_round_trip (hserde : Serde C write) {x : ExecutionService}
    (hpeer : x.local_ = c.peer) (hcontext : x.context = c.context) {payload : ExecutionPayload}
    (hpayload : payload.Ordered) (hname : numberMarker ∉ payload.env.map Prod.fst)
    (minted : String × String) (contract : String) (h : Hosted) :
    let request := c.request payload minted
    let sent := c.send F C write (Hosted.socket F K C write uid user) h minted payload contract
    ∃ js, sent.1.handed = h.handed ++ js ∧
      (js.filterMap (ExecutionService.sealOf C) = [] ∧ (∀ id, sent.2 ≠ .ok id) ∨
        ∃ sealed : String × String × String, js.filterMap (ExecutionService.sealOf C) = [sealed] ∧
        sealed.2 = (contract, Base64.encode (write request.toJson)) ∧
        ExecutionService.OnlySession h.service.guardian c.peer c.context sealed.1 ∧
        (∀ id, sent.2 = .ok id → id = request.messageId) ∧
        ∀ d : Delivery, Carries C sealed c.local_ d →
          ExecutionService.requestIn (decodeDelivery F C x.local_ x.context d) =
            some ⟨c.local_, contract, request⟩ ∧
          ExecutionPayload.ofJson request.body = some payload ∧
          ∀ {ω σ : Type} (host : Host ω) (runs : List Run)
            (reply : ExecutionService.Reply) (d' : Delivery) (socket : Socket σ) {s t : σ}
            {bs : List Gathered} {b : Gathered} {pre post : List Delivery} {deadline : ℕ}
            {clock : List ℕ}, reply.request = ⟨c.local_, contract, request⟩ →
            reply.Answering F C host x runs → Carries C (reply.sealed write) c.peer d' →
            Polled C write socket c.context s (bs ++ [b]) t → b.delivered = pre ++ d' :: post →
            (∀ e ∈ bs.flatMap Gathered.delivered ++ pre, c.awaitTurn request.messageId contract
              (decodeDelivery F C c.local_ c.context e) = none) →
            bs.length < clock.length → (∀ now ∈ clock.take bs.length, now < deadline) →
            c.awaitResult F C write socket request.messageId contract deadline clock s =
              (t, some (.ok (some ⟨request.messageId, reply.message.messageId, contract,
                reply.message.body⟩)))) := by
  dsimp only
  obtain ⟨js, hleads, hseals⟩ := send_seals F K uid user c hserde h minted payload contract
  refine ⟨js, hleads.handed, ?_⟩
  rcases hseals with hnothing | ⟨sid, hseal, hvalid, hsession, hsucceeds⟩
  · exact .inl hnothing
  refine .inr ⟨_, hseal, rfl, hsession, hsucceeds, fun d hcarries => ?_⟩
  obtain ⟨hrequest, hread⟩ := request_decoded hserde hpeer hcontext hpayload hname hvalid
    (hcarries.brings hserde)
  refine ⟨hrequest, hread, ?_⟩
  intro ω σ host runs reply d' socket s t bs b pre post deadline clock hof hanswering hcarries'
    hpolled hb hbefore hclock hearly
  have hbrings : ExecutionService.Brings write c.peer contract reply.message d' := by
    have hunder : reply.request.contract = contract := congrArg Delivered.contract hof
    rw [ExecutionService.Reply.sealed, hunder] at hcarries'
    exact hcarries'.brings hserde
  have hturn := reply_ends_wait hserde hpeer hcontext hof hanswering hbrings
  have hnone : c.firstReply F C (c.request payload minted).messageId contract bs = none := by
    rw [firstReply, List.findSome?_eq_none_iff, List.forall_mem_map]
    exact fun e he => hbefore e (List.mem_append_left _ he)
  have hpre : (pre.map (decodeDelivery F C c.local_ c.context)).findSome?
      (c.awaitTurn (c.request payload minted).messageId contract) = none := by
    rw [List.findSome?_eq_none_iff, List.forall_mem_map]
    exact fun e he => hbefore e (List.mem_append_right _ he)
  have hfound : (b.delivered.map (decodeDelivery F C c.local_ c.context)).findSome?
      (c.awaitTurn (c.request payload minted).messageId contract) =
        some (.ok ⟨(c.request payload minted).messageId, reply.message.messageId, contract,
          reply.message.body⟩) := by
    rw [hb, List.map_append, List.map_cons, List.findSome?_append, hpre, Option.none_or,
      List.findSome?_cons_of_isSome (by rw [hturn]; rfl), hturn]
  exact awaitResult_polled hserde hpolled hnone hfound hclock hearly

/-! ## A client and its service -/

def sampleClient : ExecutionClient :=
  ⟨"/run/hacp/guardian.sock", "urn:hacp:agent:a", "urn:hacp:agent:b", "s-1"⟩

def servingPeer : ExecutionService :=
  ⟨"/run/hacp/peer.sock", "urn:hacp:agent:b", "s-1", ExecutionPolicy.samplePolicy 65536⟩

def sampleMinted : String × String := ("000000000000", "2026-09-04T12:00:00Z")

section Exchange
open Conversation

def requested : Delivered :=
  ⟨"urn:hacp:agent:a", binding, sampleClient.request ExecutionPolicy.samplePayload sampleMinted⟩

def sampleRun : Run :=
  ⟨requested, ⟨"python/python@3.13.20", ["/work/main.py"],
    [⟨"main.py", ExecutionPolicy.sampleContents⟩], [.env "SANDBOX_GREETING" "hello"],
    ⟨.fromMillis 5000, 65536⟩⟩, ⟨some 0, "", "", false, ⟨0⟩, none⟩⟩

def sampleReply : ExecutionService.Reply :=
  ⟨requested, Burst.sid, servingPeer.replyTo requested ("000000000001", "2026-09-04T12:00:05Z")
    sampleRun.result.resultBody⟩

theorem ordered_samplePayload : ExecutionPolicy.samplePayload.Ordered :=
  List.pairwise_singleton _ _

theorem legible_awaited : Legible requested.message ∧ Legible sampleReply.message := by
  decide +kernel

theorem answering_sampleReply : sampleReply.Answering Burst.foreign lineCrates
    ExecutionService.steadyHost servingPeer [sampleRun] where
  made := ⟨_, _, rfl, .result (List.mem_singleton_self sampleRun) rfl (by rfl)
    ⟨0, rfl⟩⟩
  valid := legible_awaited.2.valid

/-- The hello comes, then the client sends its request; of its two polls the first brings a message
of another kind, the second the reply. -/
def awaited (p q : Bytes) : List (Arrival × Outside) :=
  [(⟨0, 0⟩, opening []), (⟨1, 1⟩, arriving [] 0), (⟨2, 2⟩, arriving [] 0),
    (⟨3, 3⟩, arriving [p] 0), (⟨4, 4⟩, arriving [q] 1)]

def awaitedLines (p q : Bytes) : List (Bytes × Outside) :=
  [(Guardian.lineOf (.open_ "s-1"), opening []), (Guardian.lineOf .status, arriving [] 0),
    (sealLine requested.message, arriving [] 0), (Guardian.lineOf (.open_ "s-1"), arriving [p] 0),
    (Guardian.lineOf (.open_ "s-1"), arriving [q] 1)]

abbrev ownSocket : Socket Hosted :=
  Hosted.socket Burst.foreign LateRefusal.exchange lineCrates compact 1 1

section Awaited
variable {g : Guardian} {p q : Bytes}
  (hg : Guardian.load "urn:hacp:agent:a" (.replicate 32 1) [Guardian.securePin] .degraded = .ok g)
  (hp : p = compact (Workflow.answer "m-000000000001").toJson)
  (hq : q = compact sampleReply.message.toJson)
include hg hp hq

theorem awaited_run : ∃ h₁ h₂ h₃ pre,
    Leads Burst.foreign LateRefusal.exchange lineCrates ⟨.load g 8, awaited p q, []⟩ h₁ pre ∧
    sampleClient.send Burst.foreign lineCrates compact ownSocket h₁ sampleMinted
      ExecutionPolicy.samplePayload binding = (h₂, .ok "m-000000000000") ∧
    Polled lineCrates compact ownSocket "s-1" h₂ ([extended .empty (deliveries binding [p] 0)] ++
      [extended .empty (deliveries binding [q] 1)]) h₃ ∧
    h₃.handed = awaitedLines p q ∧
    Guardian.FreshRequests Burst.foreign LateRefusal.exchange lineCrates g h₃.handed := by
  have hrequest (h : Hosted) (r : Request) :=
    Client.request_hosted Burst.foreign LateRefusal.exchange 1 1 Serde.compact h r
  have hfew : Few [p] := ⟨by simp, fun r hr => by
    rw [List.mem_singleton.mp hr, hp]
    exact Workflow.legible_mailed.1.length⟩
  have hfew' : Few [q] := ⟨by simp, fun r hr => by
    rw [List.mem_singleton.mp hr, hq]
    exact legible_awaited.2.length⟩
  have hgate : (RateBudget.new 8).gate ⟨0, 0⟩ = (⟨8, [0], none⟩, .admitted) := rfl
  have hgate₁ : RateBudget.gate ⟨8, [0], none⟩ ⟨1, 1⟩ = (⟨8, [0, 1], none⟩, .admitted) := rfl
  have hgate₂ : RateBudget.gate ⟨8, [0, 1], none⟩ ⟨2, 2⟩ = (⟨8, [0, 1, 2], none⟩, .admitted) := rfl
  have hgate₃ : RateBudget.gate ⟨8, [0, 1, 2], none⟩ ⟨3, 3⟩ =
      (⟨8, [0, 1, 2, 3], none⟩, .admitted) := rfl
  have hgate₄ : RateBudget.gate ⟨8, [0, 1, 2, 3], none⟩ ⟨4, 4⟩ =
      (⟨8, [0, 1, 2, 3, 4], none⟩, .admitted) := rfl
  have hnothing : Few [] := ⟨by simp, by simp⟩
  obtain ⟨g₁, ⟨hopen, hdispatch⟩, htalking⟩ := ask_opening [(⟨1, 1⟩, arriving [] 0),
    (⟨2, 2⟩, arriving [] 0), (⟨3, 3⟩, arriving [p] 0), (⟨4, 4⟩, arriving [q] 1)] [] hg hgate hnothing
  obtain ⟨g₂, hsend, hstatus, hseal, htalking'⟩ := htalking.ask_send
    [(⟨3, 3⟩, arriving [p] 0), (⟨4, 4⟩, arriving [q] 1)]
    ([] ++ [(Guardian.lineOf (.open_ "s-1"), opening [])]) (by decide) hgate₁ hgate₂
    (w := ⟨"urn:hacp:agent:a", "urn:hacp:agent:b", "s-1"⟩) rfl rfl
    (Workflow.outgoing_eq_ok.mpr ⟨legible_awaited.1.valid, rfl, rfl, rfl⟩)
    legible_awaited.1.length (arriving [] 0) [] 0
  obtain ⟨g₃, ⟨hpoll, hdispatch'⟩, htalking''⟩ := Talking.ask_arriving (n := 0)
    [(⟨4, 4⟩, arriving [q] 1)] (([] ++ [(Guardian.lineOf (.open_ "s-1"), opening [])]) ++
      [(Guardian.lineOf .status, arriving [] 0), (sealLine requested.message, arriving [] 0)])
    htalking' hgate₃ hfew (show (0 : UInt64).toNat + 1 < UInt64.size by decide)
  obtain ⟨g₄, ⟨hpoll', hdispatch''⟩, -⟩ := Talking.ask_arriving (n := 1) []
    ((([] ++ [(Guardian.lineOf (.open_ "s-1"), opening [])]) ++
      [(Guardian.lineOf .status, arriving [] 0), (sealLine requested.message, arriving [] 0)]) ++
      [(Guardian.lineOf (.open_ "s-1"), arriving [p] 0)])
    htalking'' hgate₄ hfew' (show (1 : UInt64).toNat + 1 < UInt64.size by decide)
  obtain ⟨pre, hleads, -⟩ := Hosted.ask_leads Burst.foreign LateRefusal.exchange 1 1 Serde.compact
    ⟨⟨g, .new 8⟩, [(⟨0, 0⟩, opening []), (⟨1, 1⟩, arriving [] 0), (⟨2, 2⟩, arriving [] 0),
      (⟨3, 3⟩, arriving [p] 0), (⟨4, 4⟩, arriving [q] 1)], []⟩ (.open_ "s-1")
  dsimp only [asks] at hopen
  rw [hopen] at hleads
  have hnew : ExecutionClient.new "/run/hacp/guardian.sock" "urn:hacp:agent:a" "urn:hacp:agent:b"
      "s-1" = .ok sampleClient := by rfl
  refine ⟨_, ⟨⟨g₂, ⟨8, [0, 1, 2], none⟩⟩, [(⟨3, 3⟩, arriving [p] 0), (⟨4, 4⟩, arriving [q] 1)],
      [(Guardian.lineOf (.open_ "s-1"), opening []), (Guardian.lineOf .status, arriving [] 0),
        (sealLine requested.message, arriving [] 0)]⟩,
    ⟨⟨g₄, ⟨8, [0, 1, 2, 3, 4], none⟩⟩, [], awaitedLines p q⟩, pre, hleads, ?_,
    .cons (t := ⟨⟨g₃, ⟨8, [0, 1, 2, 3], none⟩⟩, [(⟨4, 4⟩, arriving [q] 1)],
      [(Guardian.lineOf (.open_ "s-1"), opening []), (Guardian.lineOf .status, arriving [] 0),
        (sealLine requested.message, arriving [] 0),
        (Guardian.lineOf (.open_ "s-1"), arriving [p] 0)]⟩) ?_ (.cons ?_ (.nil _)), rfl, ?_⟩
  · rw [send_of_new hnew (by decide) (by decide), Workflow.send_eq_ask hrequest]
    exact congrArg (fun sent : Hosted × Except SecureError Unit =>
      (sent.1, sent.2.map fun _ => "m-000000000000")) hsend
  · rw [hrequest]
    exact congrArg (fun asked : Hosted × Except SecureError Response =>
      (asked.1, asked.2.map Response.toJson)) hpoll
  · rw [hrequest]
    exact congrArg (fun asked : Hosted × Except SecureError Response =>
      (asked.1, asked.2.map Response.toJson)) hpoll'
  · rw [Guardian.FreshRequests, awaitedLines, Guardian.established_cons hdispatch,
      Guardian.established_cons hstatus, Guardian.established_cons hseal,
      Guardian.established_cons hdispatch', Guardian.established_cons hdispatch'']
    exact List.nodup_singleton _

omit hg hq in
/-- The message of another kind does not end the wait. -/
theorem answer_passed : ∀ e ∈ [extended .empty (deliveries binding [p] 0)].flatMap
    Gathered.delivered ++ [], sampleClient.awaitTurn "m-000000000000" binding (decodeDelivery
      Burst.foreign lineCrates sampleClient.local_ sampleClient.context e) = none := by
  have hsid : Burst.sid ≠ "" := by decide
  have hdecode : decodeDelivery Burst.foreign lineCrates "urn:hacp:agent:a" "s-1"
      ⟨Burst.sid, "urn:hacp:agent:b", binding, 0, p⟩ =
        .ok ⟨"urn:hacp:agent:b", binding, Workflow.answer "m-000000000001"⟩ :=
    ExecutionService.Brings.decoded Serde.compact ⟨hsid, rfl, rfl, hp⟩
      Workflow.legible_mailed.1.valid Workflow.legible_mailed.1.depth
      Workflow.legible_mailed.1.name rfl rfl rfl
  intro e he
  rw [List.append_nil, List.flatMap_singleton] at he
  obtain rfl := List.mem_singleton.mp he
  rw [sampleClient, hdecode]
  rfl

omit hg hp in
theorem carries_sampleReply : Carries lineCrates (sampleReply.sealed compact) sampleClient.peer
    ⟨Burst.sid, "urn:hacp:agent:b", binding, 1, q⟩ where
  sid := show Burst.sid ≠ "" by decide
  from_ := rfl
  contract := rfl
  payload := by
    rw [ExecutionService.Reply.sealed, ← hq]
    exact Serde.compact.base64 q

omit hg in
theorem awaited_result {h₂ h₃ : Hosted} (hpolled : Polled lineCrates compact ownSocket "s-1" h₂
    ([extended .empty (deliveries binding [p] 0)] ++
      [extended .empty (deliveries binding [q] 1)]) h₃) :
    sampleClient.awaitResult Burst.foreign lineCrates compact ownSocket "m-000000000000" binding 5
        [1, 6] h₂ =
      (h₃, some (.ok (some ⟨"m-000000000000", "m-000000000001", binding,
        sampleRun.result.resultBody⟩))) := by
  have hearly : ∀ now ∈ [1, 6].take 1, now < 5 := by decide
  have hof : sampleReply.request = ⟨sampleClient.local_, binding, requested.message⟩ := rfl
  have hturn := reply_ends_wait (F := Burst.foreign) (C := lineCrates) (c := sampleClient)
    (x := servingPeer) Serde.compact rfl rfl hof answering_sampleReply
    ((carries_sampleReply hq).brings Serde.compact)
  have hnone : sampleClient.firstReply Burst.foreign lineCrates "m-000000000000" binding
      [extended .empty (deliveries binding [p] 0)] = none := by
    rw [firstReply, List.findSome?_eq_none_iff, List.forall_mem_map]
    exact fun e he => answer_passed hp e (List.mem_append_left _ he)
  have hfound : ((extended .empty (deliveries binding [q] 1)).delivered.map (decodeDelivery
      Burst.foreign lineCrates sampleClient.local_ sampleClient.context)).findSome?
        (sampleClient.awaitTurn "m-000000000000" binding) = some (.ok ⟨"m-000000000000",
          "m-000000000001", binding, sampleRun.result.resultBody⟩) :=
    List.findSome?_singleton.trans hturn
  exact awaitResult_polled Serde.compact hpolled hnone hfound (Nat.lt_succ_self 1) hearly

omit hg hp hq in
theorem carries_requested {r : Bytes} {sealed : String × String × String}
    (hsealed : sealed.2 = (binding, Base64.encode r)) :
    Carries lineCrates sealed "urn:hacp:agent:a" ⟨Burst.sid, "urn:hacp:agent:a", binding, 0, r⟩ where
  sid := show Burst.sid ≠ "" by decide
  from_ := rfl
  contract := (congrArg Prod.fst hsealed).symm
  payload := by
    rw [hsealed]
    exact Serde.compact.base64 r

end Awaited

theorem execution_round_trip_awaited : ∃ (g : Guardian) (p q : Bytes) (h₁ h₂ h₃ : Hosted)
    (js : List (Bytes × Outside)) (sealed : String × String × String),
    Guardian.load "urn:hacp:agent:a" (.replicate 32 1) [Guardian.securePin] .degraded = .ok g ∧
    p = compact (Workflow.answer "m-000000000001").toJson ∧
    q = compact sampleReply.message.toJson ∧
    sampleClient.send Burst.foreign lineCrates compact ownSocket h₁ sampleMinted
      ExecutionPolicy.samplePayload binding = (h₂, .ok "m-000000000000") ∧
    h₂.handed = h₁.handed ++ js ∧ js.filterMap (ExecutionService.sealOf lineCrates) = [sealed] ∧
    ExecutionService.OnlySession h₁.service.guardian "urn:hacp:agent:b" "s-1" sealed.1 ∧
    (∀ d, Carries lineCrates sealed "urn:hacp:agent:a" d →
      ExecutionService.requestIn (decodeDelivery Burst.foreign lineCrates servingPeer.local_
        servingPeer.context d) = some requested) ∧
    Polled lineCrates compact ownSocket "s-1" h₂ ([extended .empty (deliveries binding [p] 0)] ++
      [extended .empty (deliveries binding [q] 1)]) h₃ ∧
    sampleClient.awaitResult Burst.foreign lineCrates compact ownSocket "m-000000000000" binding 5
        [1, 6] h₂ =
      (h₃, some (.ok (some ⟨"m-000000000000", "m-000000000001", binding,
        sampleRun.result.resultBody⟩))) := by
  obtain ⟨g, hg⟩ := Guardian.load_securePin
  obtain ⟨p, hp⟩ : ∃ p, p = compact (Workflow.answer "m-000000000001").toJson := ⟨_, rfl⟩
  obtain ⟨q, hq⟩ : ∃ q, q = compact sampleReply.message.toJson := ⟨_, rfl⟩
  obtain ⟨h₁, h₂, h₃, pre, -, hsend, hpolled, -, -⟩ := awaited_run hg hp hq
  obtain ⟨js, hhanded, hseals⟩ := execution_round_trip Burst.foreign LateRefusal.exchange 1 1
    Serde.compact (c := sampleClient) (x := servingPeer) rfl rfl ordered_samplePayload (by decide)
    sampleMinted binding h₁
  rw [hsend] at hhanded hseals
  rcases hseals with ⟨-, hfails⟩ | ⟨sealed, hseal, hsealed, hsession, -, hread⟩
  · exact absurd rfl (hfails "m-000000000000")
  obtain ⟨-, -, hwait⟩ := hread _ (carries_requested hsealed)
  refine ⟨g, p, q, h₁, h₂, h₃, js, sealed, hg, hp, hq, hsend, hhanded, hseal, hsession,
    fun d hd => (hread d hd).1, hpolled, ?_⟩
  have hearly : ∀ now ∈ [1, 6].take 1, now < 5 := by decide
  have hdelivered : (extended .empty (deliveries binding [q] 1)).delivered =
      [] ++ ⟨Burst.sid, "urn:hacp:agent:b", binding, 1, q⟩ :: [] := rfl
  exact hwait ExecutionService.steadyHost [sampleRun] sampleReply
    ⟨Burst.sid, "urn:hacp:agent:b", binding, 1, q⟩ ownSocket rfl answering_sampleReply
    (carries_sampleReply hq) hpolled hdelivered (answer_passed hp) (Nat.lt_succ_self 1) hearly

theorem results_authentic_awaited : ∃ (g : Guardian) (p q : Bytes) (h₂ : Hosted)
    (polls : List Gathered),
    Guardian.load "urn:hacp:agent:a" (.replicate 32 1) [Guardian.securePin] .degraded = .ok g ∧
    p = compact (Workflow.answer "m-000000000001").toJson ∧
    q = compact sampleReply.message.toJson ∧
    let out := sampleClient.awaitResult Burst.foreign lineCrates compact ownSocket "m-000000000000"
      binding 5 [1, 6] h₂
    let answers := (Guardian.machine Burst.foreign LateRefusal.exchange lineCrates).history g
      out.1.handed
    out.1.handed = awaitedLines p q ∧
    out.2 = some (.ok (some ⟨"m-000000000000", "m-000000000001", binding,
      sampleRun.result.resultBody⟩)) ∧
    ∃ d ∈ polls.flatMap Gathered.delivered, d.from_ = "urn:hacp:agent:b" ∧ d.contract = binding ∧
      ∃ answer ∈ answers, d ∈ answer.output.deliveriesOf d.sid ∧
        ∃ made env view, Vouched Burst.foreign LateRefusal.exchange lineCrates answers answer d made
          env view := by
  obtain ⟨g, hg⟩ := Guardian.load_securePin
  obtain ⟨p, hp⟩ : ∃ p, p = compact (Workflow.answer "m-000000000001").toJson := ⟨_, rfl⟩
  obtain ⟨q, hq⟩ : ∃ q, q = compact sampleReply.message.toJson := ⟨_, rfl⟩
  obtain ⟨h₁, h₂, h₃, pre, hleads, hsend, hpolled, hlines, hfresh⟩ := awaited_run hg hp hq
  have hresult := awaited_result hp hq hpolled
  obtain ⟨js, hleads', -⟩ := send_seals Burst.foreign LateRefusal.exchange 1 1 sampleClient
    Serde.compact h₁ sampleMinted ExecutionPolicy.samplePayload binding
  rw [hsend] at hleads'
  have hlast := congrArg Prod.fst hresult
  dsimp only at hlast
  rw [← hlast] at hlines hfresh
  obtain ⟨-, js', polls, -, -, -, hreturns⟩ := results_authentic Burst.foreign
    LateRefusal.exchange 1 1 Serde.compact hg (hleads.trans hleads') sampleClient "m-000000000000"
    binding 5 [1, 6] hfresh
  obtain ⟨-, d, m, hd, -, -, -, -, -, -, -, hfrom, hcontract, -, hvouched⟩ :=
    hreturns _ (congrArg Prod.snd hresult)
  exact ⟨g, p, q, h₂, polls, hg, hp, hq, hlines, congrArg Prod.snd hresult, d, hd, hfrom, hcontract,
    hvouched⟩

end Exchange
end ExecutionClient
end Hacp.Wasmer
