import Hacp.Secure.HostedConversation

/-!
# What reaches an agent

Over any calls that workflows make on the socket of a guardian, the guardian goes through a run
of its own, and every message in an inbox is one of its deliveries: authenticated by the session
of the peer the workflow is bound to, and handed out once.
-/
namespace Hacp.Secure
open Lib V2 RateBudget

def Guardian.openedOf (e : Event Guardian (Bytes × Outside) Handled) : Option Gathered :=
  match e.output.result with
  | .ok (.opened b) => some b
  | _ => none

namespace Hosted
variable {F : Foreign} {K : KeyExchange} {C : Crates} {write : Json → Bytes} {uid user : UInt32}

theorem of_heard {result : Except SecureError Response} {r : Response}
    (h : heard write result = .ok r) : result = .ok r := by
  unfold heard at h
  split_ifs at h
  exact h

/-- The guardian has got from one state to another by the requests it was handed, each of which
found what was ahead of it. -/
structure Leads (F : Foreign) (K : KeyExchange) (C : Crates) (h h' : Hosted)
    (js : List (Bytes × Outside)) : Prop where
  handed : h'.handed = h.handed ++ js
  exec : (Guardian.machine F K C).exec h.service.guardian js = h'.service.guardian
  ahead : h'.ahead <:+ h.ahead
  found : ∀ line ∈ js, line.2 ∈ h.ahead.map Prod.snd

theorem Leads.refl (h : Hosted) : Leads F K C h h [] :=
  ⟨(List.append_nil _).symm, rfl, List.suffix_rfl, fun _ hl => absurd hl List.not_mem_nil⟩

theorem Leads.trans {h h' h'' : Hosted} {js ks : List (Bytes × Outside)}
    (hfst : Leads F K C h h' js) (hsnd : Leads F K C h' h'' ks) :
    Leads F K C h h'' (js ++ ks) where
  handed := by rw [hsnd.handed, hfst.handed, List.append_assoc]
  exec := by rw [Machine.exec_append, hfst.exec, hsnd.exec]
  ahead := hsnd.ahead.trans hfst.ahead
  found line hl := by
    rcases List.mem_append.mp hl with hl | hl
    · exact hfst.found line hl
    · exact (hfst.ahead.map Prod.snd).subset (hsnd.found line hl)

theorem Leads.passed {h h' : Hosted} {found : Arrival × Outside}
    (hahead : h.ahead = found :: h'.ahead) (hhanded : h'.handed = h.handed)
    (hguardian : h.service.guardian = h'.service.guardian) : Leads F K C h h' [] where
  handed := by rw [hhanded, List.append_nil]
  exec := hguardian
  ahead := by rw [hahead]; exact List.suffix_cons _ _
  found _ hl := absurd hl List.not_mem_nil

variable (F K uid user) in
/-- Asking hands the guardian at most one request, which gives the answer if there is one. -/
theorem ask_leads (hserde : Serde C write) (h : Hosted) (r : Request) :
    ∃ js, Leads F K C h (h.ask F K C write uid user r).1 js ∧
      ∀ b, (h.ask F K C write uid user r).2 = .ok (.opened b) →
        ((Guardian.machine F K C).history h.service.guardian js).filterMap Guardian.openedOf =
          [b] := by
  obtain ⟨service, ahead, handed⟩ := h
  unfold ask
  cases ahead with
  | nil => exact ⟨[], .refl _, fun b hb => by cases hb⟩
  | cons found ahead =>
    obtain ⟨arrival, outside⟩ := found
    dsimp only
    split_ifs with hlong huser
    · exact ⟨[], .refl _, fun b hb => by cases hb⟩
    · exact ⟨[], .passed rfl rfl rfl, fun b hb => by cases hb⟩
    · rcases service.rate.gate arrival with ⟨rate, _ | logged⟩
      · have hdispatch : service.guardian.dispatch F K C (write r.toJson ++ [newline]) outside =
            service.guardian.handle F K C r outside := by
          rw [Guardian.dispatch, Request.ofBytes_write hserde r (Nat.lt_of_not_le hlong)]
        have hleads : Leads F K C ⟨service, (arrival, outside) :: ahead, handed⟩
            ⟨⟨(service.guardian.handle F K C r outside).1, rate⟩, ahead,
              handed ++ [(write r.toJson ++ [newline], outside)]⟩
            [(write r.toJson ++ [newline], outside)] :=
          ⟨rfl, congrArg Prod.fst hdispatch, List.suffix_cons _ _, fun line hl => by
            rw [List.mem_singleton.mp hl]
            exact List.mem_cons_self⟩
        refine ⟨[(write r.toJson ++ [newline], outside)], hleads, fun b hb => ?_⟩
        have hresult : (service.guardian.handle F K C r outside).2.result = .ok (.opened b) :=
          of_heard hb
        have hopened : Guardian.openedOf ((Guardian.machine F K C).event service.guardian
            (write r.toJson ++ [newline], outside)) = some b := by
          rw [Guardian.openedOf, Guardian.event_output, hdispatch, hresult]
        rw [Machine.history, Machine.history, List.filterMap_cons, hopened]
        rfl
      · exact ⟨[], .passed rfl rfl rfl, fun b hb => by cases of_heard hb⟩

variable (F K uid user) in
/-- A request is handed to the guardian as a line that it reads as the request, or not at all. -/
theorem ask_handed (hserde : Serde C write) (h : Hosted) (r : Request) :
    (h.ask F K C write uid user r).1.handed = h.handed ∨
      ∃ line, (h.ask F K C write uid user r).1.handed = h.handed ++ [line] ∧
        Request.ofBytes C line.1 = .ok r ∧ line.2 ∈ h.ahead.map Prod.snd := by
  obtain ⟨service, ahead, handed⟩ := h
  unfold ask
  cases ahead with
  | nil => exact .inl rfl
  | cons found ahead =>
    obtain ⟨arrival, outside⟩ := found
    dsimp only
    split_ifs with hlong huser
    · exact .inl rfl
    · exact .inl rfl
    · rcases service.rate.gate arrival with ⟨rate, _ | logged⟩
      · exact .inr ⟨_, rfl, Request.ofBytes_write hserde r (Nat.lt_of_not_le hlong),
          List.mem_cons_self⟩
      · exact .inl rfl

variable (F K uid user) in
/-- What asking hands the guardian is nothing or the line of the request. -/
theorem ask_line (hserde : Serde C write) (h : Hosted) (r : Request) :
    ∃ js, Leads F K C h (h.ask F K C write uid user r).1 js ∧
      (js = [] ∨ ∃ line, js = [line] ∧ Request.ofBytes C line.1 = .ok r) ∧
      ∀ b, (h.ask F K C write uid user r).2 = .ok (.opened b) →
        ((Guardian.machine F K C).history h.service.guardian js).filterMap Guardian.openedOf =
          [b] := by
  obtain ⟨js, hleads, hopened⟩ := ask_leads F K uid user hserde h r
  refine ⟨js, hleads, ?_, hopened⟩
  rcases ask_handed F K uid user hserde h r with hnone | ⟨line, hline, hread, -⟩
  · exact .inl (List.append_right_eq_self.mp (hleads.handed.symm.trans hnone))
  · exact .inr ⟨line, List.append_cancel_left (hleads.handed.symm.trans hline), hread⟩

theorem ask_ok {h : Hosted} {r : Request} {answer : Response}
    (hask : (h.ask F K C write uid user r).2 = .ok answer) :
    (h.ask F K C write uid user r).1.handed ≠ h.handed ∧ ∃ edge : Outside,
      (h.service.guardian.handle F K C r edge).2.result = .ok answer := by
  obtain ⟨service, ahead, handed⟩ := h
  unfold ask at hask ⊢
  cases ahead with
  | nil => cases hask
  | cons found ahead =>
    obtain ⟨arrival, outside⟩ := found
    dsimp only at hask ⊢
    split_ifs at hask ⊢ with hlong huser
    rcases hgate : service.rate.gate arrival with ⟨rate, _ | logged⟩
    · rw [hgate] at hask
      exact ⟨by simp, outside, of_heard hask⟩
    · rw [hgate] at hask
      cases of_heard hask

end Hosted

namespace Workflow
open Hosted (Leads)
variable {F : Foreign} {K : KeyExchange} {C : Crates} {write : Json → Bytes} {uid user : UInt32}

variable (F K uid user) in
theorem askSession_leads (hserde : Serde C write) (w : Workflow) (h : Hosted) :
    ∃ js, Leads F K C h (w.askSession (Hosted.ask F K C write uid user) h).1 js := by
  obtain ⟨js, hask, -⟩ :=
    Hosted.ask_leads F K uid user hserde h .status
  refine ⟨js, ?_⟩
  unfold askSession
  generalize Hosted.ask F K C write uid user h .status = result at hask
  obtain ⟨t, e | r⟩ := result
  · exact hask
  · cases r <;> exact hask

variable (F K uid user) in
theorem askEnsure_leads (hserde : Serde C write) (w : Workflow) (h : Hosted) (initiator : Bool) :
    ∃ js, Leads F K C h (w.askEnsure (Hosted.ask F K C write uid user) h initiator).1 js := by
  obtain ⟨js, hsession⟩ :=
    askSession_leads F K uid user hserde w h
  unfold askEnsure
  generalize w.askSession (Hosted.ask F K C write uid user) h = result at hsession
  obtain ⟨t, e | _ | sid⟩ := result
  · exact ⟨js, hsession⟩
  · dsimp only
    split_ifs
    · obtain ⟨ks, hask, -⟩ := Hosted.ask_leads F K uid user hserde
        t (.session w.remote w.context)
      exact ⟨js ++ ks, hsession.trans hask⟩
    · exact ⟨js, hsession⟩
  · exact ⟨js, hsession⟩

variable (F K uid user) in
theorem askSend_leads (hserde : Serde C write) (w : Workflow) (h : Hosted) (m : V2.Envelope)
    (contract : String) :
    ∃ js, Leads F K C h
      (w.askSend F write (Hosted.ask F K C write uid user) h m contract).1 js := by
  unfold askSend
  obtain e | _ := w.outgoing F m
  · exact ⟨[], .refl _⟩
  · obtain ⟨js, hsession⟩ :=
      askSession_leads F K uid user hserde w h
    dsimp only
    generalize w.askSession (Hosted.ask F K C write uid user) h = result at hsession
    obtain ⟨t, e | _ | sid⟩ := result
    · exact ⟨js, hsession⟩
    · exact ⟨js, hsession⟩
    · obtain ⟨ks, hask, -⟩ := Hosted.ask_leads F K uid user hserde
        t (.seal_ sid contract (Base64.encode (write m.toJson)))
      exact ⟨js ++ ks, hsession.trans hask⟩

def Outcome.inbox : Outcome → Option Inbox
  | .ok inbox => inbox
  | .error _ => none

/-- The workflow and the inbox of a call that returned one. -/
def inboxAt (e : Event Hosted (Workflow × Call) Outcome) : Option (Workflow × Inbox) :=
  (Outcome.inbox e.output).map fun inbox => (e.input.1, inbox)

theorem inbox_quiet {σ : Type} {r : σ × Except SecureError Unit} {inbox : Inbox} :
    Outcome.inbox (quiet r).2 ≠ some inbox := by
  obtain ⟨s, e | _⟩ := r <;> exact fun h => by cases h

theorem askReceive_state {σ : Type} (ask : σ → Request → σ × Except SecureError Response) (s : σ)
    (w : Workflow) : (w.askReceive F C ask s).1 = (ask s (.open_ w.context)).1 := by
  unfold askReceive
  obtain ⟨t, e | r⟩ := ask s (.open_ w.context)
  · rfl
  · cases r <;> rfl

variable (write) in
theorem receive_step {σ : Type} {ask : σ → Request → σ × Except SecureError Response} {s t : σ}
    {w : Workflow} {b : Gathered} (h : ask s (.open_ w.context) = (t, .ok (.opened b))) :
    (asked F C write ask).step s (w, .receive) = (t, .ok (some (w.inboxOf F C b))) := by
  have hreceive : w.askReceive F C ask s = (t, .ok (w.inboxOf F C b)) := by rw [askReceive, h]
  exact congrArg listed hreceive

/-- An inbox is made of what the guardian gathered for the request. -/
theorem inbox_listed {σ : Type} {ask : σ → Request → σ × Except SecureError Response} {s : σ}
    {w : Workflow} {inbox : Inbox}
    (h : Outcome.inbox (listed (w.askReceive F C ask s)).2 = some inbox) :
    ∃ b, (ask s (.open_ w.context)).2 = .ok (.opened b) ∧ inbox = w.inboxOf F C b := by
  unfold askReceive at h
  generalize ask s (.open_ w.context) = result at h
  obtain ⟨t, e | r⟩ := result
  · cases h
  · cases r with
    | opened b => exact ⟨b, rfl, (Option.some.inj h).symm⟩
    | session pending peer mode => cases h
    | sealed sid seq path => cases h
    | status mode sessions insecure => cases h
    | fingerprint urn digest => cases h

/-- Every inbox is made from what the guardian gathered for a request of its own. -/
def Filled (F : Foreign) (C : Crates) (events : List (Event Hosted (Workflow × Call) Outcome))
    (answers : List (Event Guardian (Bytes × Outside) Handled)) : Prop :=
  ∃ sources : List (Workflow × Gathered),
    events.filterMap inboxAt = sources.map (fun p => (p.1, p.1.inboxOf F C p.2)) ∧
      (sources.map Prod.snd).Sublist (answers.filterMap Guardian.openedOf)

theorem Filled.snoc {events : List (Event Hosted (Workflow × Call) Outcome)}
    {answers more : List (Event Guardian (Bytes × Outside) Handled)}
    {e : Event Hosted (Workflow × Call) Outcome} (h : Filled F C events answers)
    (hmore : ∀ p, inboxAt e = some p → ∃ b, p = (e.input.1, e.input.1.inboxOf F C b) ∧
      more.filterMap Guardian.openedOf = [b]) :
    Filled F C (events ++ [e]) (answers ++ more) := by
  obtain ⟨sources, hinboxes, hsub⟩ := h
  rw [Filled, List.filterMap_append, List.filterMap_append, hinboxes, List.filterMap_cons]
  cases hinbox : inboxAt e with
  | none =>
    exact ⟨sources, by simp, hsub.trans (List.sublist_append_left _ _)⟩
  | some p =>
    obtain ⟨b, rfl, hb⟩ := hmore p hinbox
    refine ⟨sources ++ [(e.input.1, b)], by simp, ?_⟩
    rw [List.map_append, hb]
    exact hsub.append (.refl _)

variable (F K uid user) in
/-- A call hands the guardian requests, for which it gathers what the inbox of the call is made
from. -/
theorem step_leads (hserde : Serde C write) (h : Hosted) (i : Workflow × Call) :
    ∃ js, Leads F K C h ((asked F C write (Hosted.ask F K C write uid user)).step h i).1 js ∧
      ∀ p, inboxAt ((asked F C write (Hosted.ask F K C write uid user)).event h i) = some p →
        ∃ b, p = (i.1, i.1.inboxOf F C b) ∧
          ((Guardian.machine F K C).history h.service.guardian js).filterMap Guardian.openedOf =
            [b] := by
  obtain ⟨w, call⟩ := i
  cases call with
  | ensureSession initiator =>
    obtain ⟨js, hleads⟩ :=
      askEnsure_leads F K uid user hserde w h initiator
    refine ⟨js, hleads, fun p hp => ?_⟩
    obtain ⟨inbox, hinbox, -⟩ := Option.map_eq_some_iff.mp hp
    exact (inbox_quiet hinbox).elim
  | send m contract =>
    obtain ⟨js, hleads⟩ :=
      askSend_leads F K uid user hserde w h m contract
    refine ⟨js, hleads, fun p hp => ?_⟩
    obtain ⟨inbox, hinbox, -⟩ := Option.map_eq_some_iff.mp hp
    exact (inbox_quiet hinbox).elim
  | receive =>
    obtain ⟨js, hleads, hopened⟩ :=
      Hosted.ask_leads F K uid user hserde h (.open_ w.context)
    refine ⟨js, ?_, fun p hp => ?_⟩
    · rwa [← askReceive_state (F := F) (C := C)] at hleads
    · obtain ⟨inbox, hinbox, rfl⟩ := Option.map_eq_some_iff.mp hp
      obtain ⟨b, hb, rfl⟩ := inbox_listed hinbox
      exact ⟨b, rfl, hopened b hb⟩

variable (F K uid user) in
/-- The guardian behind the socket has gone through the requests it was handed, and the inboxes are
made from its answers. -/
theorem handed_filled (hserde : Serde C write) (g : Guardian) (cap : UInt32)
    (ahead : List (Arrival × Outside)) (calls : List (Workflow × Call)) :
    let M := machine F C write (Hosted.socket F K C write uid user)
    let start : Hosted := ⟨.load g cap, ahead, []⟩
    (Guardian.machine F K C).exec g (M.exec start calls).handed =
        (M.exec start calls).service.guardian ∧
      Filled F C (M.history start calls)
        ((Guardian.machine F K C).history g (M.exec start calls).handed) := by
  dsimp only
  rw [machine_eq_asked (fun h r => Client.request_hosted F K uid user hserde h r) hserde]
  refine (asked F C write (Hosted.ask F K C write uid user)).history_invariant
    (I := fun events h => (Guardian.machine F K C).exec g h.handed = h.service.guardian ∧
      Filled F C events ((Guardian.machine F K C).history g h.handed))
    (s := ⟨.load g cap, ahead, []⟩) ⟨rfl, [], rfl, .refl _⟩ (fun calls i h => ?_) calls
  obtain ⟨hexec, hfilled⟩ := h
  obtain ⟨js, hleads, hinbox⟩ :=
    step_leads F K uid user hserde _ i
  rw [hleads.handed, Machine.exec_append, Machine.history_append, hexec]
  exact ⟨hleads.exec, hfilled.snoc hinbox⟩

variable (F K uid user) in
/-- Over any calls an agent gets what the guardian answers to the requests themselves: nothing is
added or lost by writing requests and answers as text, whatever the guardian answers and whenever
the connection, the budget or the length of a text stands in the way. -/
theorem calls_without_text (hserde : Serde C write) (h : Hosted) (calls : List (Workflow × Call)) :
    (machine F C write (Hosted.socket F K C write uid user)).history h calls =
      (asked F C write (Hosted.ask F K C write uid user)).history h calls := by
  rw [machine_eq_asked (fun h r => Client.request_hosted F K uid user hserde h r) hserde]

/-! ## Messages -/

def received (events : List (Event Hosted (Workflow × Call) Outcome)) :
    List (Workflow × V2.Envelope) :=
  (events.filterMap inboxAt).flatMap fun p => p.2.messages.map fun m => (p.1, m)

theorem readPayload_eq_ok {w : Workflow} {payload : Bytes} {m : V2.Envelope} :
    w.readPayload F C payload = .ok m ↔
      (C.tokens payload).bind V2.Envelope.ofJson = some m ∧ m.validate F = .ok () ∧
        m.from_ = w.remote ∧ m.to_ = w.local_ ∧ m.sessionId = w.context := by
  unfold readPayload
  cases (C.tokens payload).bind V2.Envelope.ofJson with
  | none => simp [orSchema, bind, Except.bind]
  | some m' =>
    simp only [orSchema, bind_eq_ok, mapError_eq_ok, guard_eq_ok, Except.ok.injEq]
    grind

theorem accept_eq_ok {w : Workflow} {d : Delivery} {m : V2.Envelope} :
    w.accept F C d = .ok m ↔ d.sid ≠ "" ∧ d.from_ = w.remote ∧
      (C.tokens d.payload).bind V2.Envelope.ofJson = some m ∧ m.validate F = .ok () ∧
        m.from_ = w.remote ∧ m.to_ = w.local_ ∧ m.sessionId = w.context := by
  unfold accept
  rw [guard_eq_ok, guard_eq_ok, readPayload_eq_ok, not_not]

/-- A message in an inbox and the delivery it came in. -/
structure Taken where
  workflow : Workflow
  delivery : Delivery
  message : V2.Envelope

variable (F C) in
def takenOf (p : Workflow × Gathered) : List Taken :=
  p.2.delivered.filterMap fun d => (p.1.accept F C d).toOption.map fun m => ⟨p.1, d, m⟩

theorem mem_takenOf {p : Workflow × Gathered} {t : Taken} (h : t ∈ takenOf F C p) :
    t.delivery ∈ p.2.delivered ∧ t.workflow.accept F C t.delivery = .ok t.message := by
  obtain ⟨d, hd, htaken⟩ := List.mem_filterMap.mp h
  cases haccept : p.1.accept F C d with
  | error e =>
    rw [haccept] at htaken
    cases htaken
  | ok m =>
    rw [haccept] at htaken
    obtain rfl := Option.some.inj htaken
    exact ⟨hd, haccept⟩

theorem takenOf_messages (p : Workflow × Gathered) :
    (takenOf F C p).map (fun t => (t.workflow, t.message)) =
      (p.1.inboxOf F C p.2).messages.map fun m => (p.1, m) := by
  simp [takenOf, inboxOf, List.map_filterMap, Option.map_map, Function.comp_def]

theorem filterMap_sublist {α β : Type} {f : α → Option β} {g : β → α}
    (h : ∀ a b, f a = some b → g b = a) (as : List α) : ((as.filterMap f).map g).Sublist as := by
  induction as with
  | nil => exact .refl _
  | cons a as ih =>
    rw [List.filterMap_cons]
    cases hfa : f a with
    | none => exact ih.cons a
    | some b =>
      dsimp only
      rw [List.map_cons, h a b hfa]
      exact ih.cons_cons a

theorem takenOf_deliveries (p : Workflow × Gathered) :
    ((takenOf F C p).map Taken.delivery).Sublist p.2.delivered := by
  refine filterMap_sublist (fun d t ht => ?_) p.2.delivered
  obtain ⟨m, -, rfl⟩ := Option.map_eq_some_iff.mp ht
  rfl

theorem deliveriesOf_opened (e : Event Guardian (Bytes × Outside) Handled) (sid : String) :
    e.output.deliveriesOf sid =
      ((Guardian.openedOf e).map fun b => b.deliveriesOf sid).getD [] := by
  obtain ⟨before, input, ⟨error | answer, established, encrypted⟩, after⟩ := e
  · rfl
  · cases answer with
    | opened b => rfl
    | session pending peer mode => rfl
    | sealed sid seq path => rfl
    | status mode sessions insecure => rfl
    | fingerprint urn digest => rfl

theorem opened_deliveries (answers : List (Event Guardian (Bytes × Outside) Handled))
    (sid : String) :
    ((answers.filterMap Guardian.openedOf).flatMap Gathered.delivered).filter (·.sid = sid) =
      answers.flatMap fun e => e.output.deliveriesOf sid := by
  induction answers with
  | nil => rfl
  | cons e answers ih =>
    rw [List.filterMap_cons, List.flatMap_cons, ← ih, deliveriesOf_opened]
    cases Guardian.openedOf e with
    | none => rfl
    | some b =>
      dsimp only
      rw [List.flatMap_cons, List.filter_append]
      rfl

theorem Filled.taken {events : List (Event Hosted (Workflow × Call) Outcome)}
    {answers : List (Event Guardian (Bytes × Outside) Handled)} (h : Filled F C events answers) :
    ∃ taken : List Taken, received events = taken.map (fun t => (t.workflow, t.message)) ∧
      (∀ t ∈ taken, t.workflow.accept F C t.delivery = .ok t.message) ∧
      ∀ sid, ((taken.map Taken.delivery).filter (·.sid = sid)).Sublist
        (answers.flatMap fun e => e.output.deliveriesOf sid) := by
  obtain ⟨sources, hinboxes, hsub⟩ := h
  refine ⟨sources.flatMap (takenOf F C), ?_, fun t ht => ?_, fun sid => ?_⟩
  · rw [received, hinboxes, List.flatMap_map, List.map_flatMap]
    simp only [takenOf_messages]
  · obtain ⟨p, -, ht⟩ := List.mem_flatMap.mp ht
    exact (mem_takenOf ht).2
  · have hdelivered : ((sources.flatMap (takenOf F C)).map Taken.delivery).Sublist
        ((answers.filterMap Guardian.openedOf).flatMap Gathered.delivered) := by
      rw [List.map_flatMap]
      refine (List.Sublist.flatMap_right sources fun p _ => takenOf_deliveries p).trans ?_
      rw [← List.flatMap_map Prod.snd]
      exact hsub.flatMap _
    rw [← opened_deliveries]
    exact hdelivered.filter _

variable (F K uid user) in
/-- Every message that calls of workflows bring in is the payload of a delivery that the guardian
answered with: the session of the peer had verified and opened its envelope, and the control state
that was read accepted the binding. The message is valid and bears the addresses of the workflow
and of its peer, which the session authenticates. For each session the numbers of these deliveries
increase, so that no message is handed out twice. -/
theorem inboxes_authentic (hserde : Serde C write) {local_ : String} {seed : Vector UInt8 32}
    {pins : List Pin} {mode : Mode} {g : Guardian}
    (hload : Guardian.load local_ seed pins mode = .ok g) (cap : UInt32)
    (ahead : List (Arrival × Outside)) (calls : List (Workflow × Call))
    (hfresh : Guardian.FreshRequests F K C g
      ((machine F C write (Hosted.socket F K C write uid user)).exec ⟨.load g cap, ahead, []⟩
        calls).handed) :
    let M := machine F C write (Hosted.socket F K C write uid user)
    let start : Hosted := ⟨.load g cap, ahead, []⟩
    let last := M.exec start calls
    let answers := (Guardian.machine F K C).history g last.handed
    (Guardian.machine F K C).exec g last.handed = last.service.guardian ∧
    ∃ taken : List Taken,
      received (M.history start calls) = taken.map (fun t => (t.workflow, t.message)) ∧
      (∀ sid, ((taken.map Taken.delivery).filter (·.sid = sid)).Sublist
        (answers.flatMap fun e => e.output.deliveriesOf sid)) ∧
      (∀ sid, ((taken.map Taken.delivery).filter (·.sid = sid)).Pairwise
        fun a b => a.seq < b.seq) ∧
      ∀ t ∈ taken, t.message.validate F = .ok () ∧ t.message.from_ = t.workflow.remote ∧
        t.message.to_ = t.workflow.local_ ∧ t.message.sessionId = t.workflow.context ∧
        t.delivery.from_ = t.workflow.remote ∧
        (C.tokens t.delivery.payload).bind V2.Envelope.ofJson = some t.message ∧
        ∃ e ∈ answers, t.delivery ∈ e.output.deliveriesOf t.delivery.sid ∧
          ∃ made env view, Vouched F K C answers e t.delivery made env view := by
  dsimp only
  obtain ⟨hexec, hfilled⟩ := handed_filled F K uid user hserde g cap ahead calls
  obtain ⟨taken, hreceived, haccepted, hsub⟩ := hfilled.taken
  obtain ⟨hascend, hvouched⟩ := Guardian.listed_vouched hload hfresh
    (fun d hd => by
      obtain ⟨t, ht, rfl⟩ := List.mem_map.mp hd
      exact (accept_eq_ok.mp (haccepted t ht)).1) hsub
  refine ⟨hexec, taken, hreceived, hsub, hascend, fun t ht => ?_⟩
  obtain ⟨-, hfrom, hread, hvalid, hinner, hto, hcontext⟩ := accept_eq_ok.mp (haccepted t ht)
  exact ⟨hvalid, hinner, hto, hcontext, hfrom, hread,
    hvouched t.delivery (List.mem_map_of_mem ht)⟩

/-! ## What is sent -/

theorem sessionIn_eq_some {w : Workflow} {sessions : List SessionStatus} {sid : String} :
    w.sessionIn sessions = .ok (some sid) ↔ sid ≠ "" ∧ ∃ s, s.info.sid = sid ∧
      (sessions.filter fun s => s.info.peer = w.remote ∧ s.info.hacpSession = w.context) = [s] := by
  unfold sessionIn
  generalize sessions.filter (fun s => s.info.peer = w.remote ∧ s.info.hacpSession = w.context) =
    found
  rcases found with _ | ⟨s, _ | ⟨t, found⟩⟩
  · simp
  · simp only [guard_eq_ok, Except.ok.injEq, Option.some.injEq, List.cons.injEq, and_true]
    grind
  · simp

theorem new_eq_ok {socket local_ remote context : String} {w : Workflow} :
    Workflow.new socket local_ remote context = .ok w ↔ socket ≠ "" ∧ local_ ≠ remote ∧
      context ≠ "" ∧ (AgentUrn.parse local_).isOk = true ∧ (AgentUrn.parse remote).isOk = true ∧
        w = ⟨local_, remote, context⟩ := by
  rw [Workflow.new, guard_eq_ok]
  cases AgentUrn.parse local_ <;> cases AgentUrn.parse remote <;>
    simp [Except.mapError, bind, Except.bind, Except.isOk, Except.toBool, eq_comm, and_assoc]

theorem outgoing_eq_ok {w : Workflow} {m : V2.Envelope} :
    w.outgoing F m = .ok () ↔ m.validate F = .ok () ∧ m.from_ = w.local_ ∧ m.to_ = w.remote ∧
      m.sessionId = w.context := by
  unfold outgoing
  simp only [then_eq_ok, mapError_eq_ok, guard_eq_ok]
  tauto

/-- A valid message is read back from its text. -/
theorem tokens_message (hserde : Serde C write) {m : V2.Envelope} (hvalid : m.validate F = .ok ())
    (hdepth : m.toJson.depth ≤ 127) (hname : m.toJson.unmarked = true) :
    (C.tokens (write m.toJson)).bind V2.Envelope.ofJson = some m := by
  have htokens := (hserde.tokens _ (V2.Envelope.toJson_integersOnly hvalid) hname hdepth).1
  rw [htokens, Option.bind_some, V2.Envelope.ofJson_toJson (V2.Envelope.apart_of_valid hvalid)]

/-- What the workflow of the other side reads from the text of a message is the message. -/
theorem readPayload_write (hserde : Serde C write) {w w' : Workflow} {m : V2.Envelope}
    (hlocal : w'.local_ = w.remote) (hremote : w'.remote = w.local_)
    (hcontext : w'.context = w.context) (hdepth : m.toJson.depth ≤ 127)
    (hname : m.toJson.unmarked = true) (hout : w.outgoing F m = .ok ()) :
    w'.readPayload F C (write m.toJson) = .ok m := by
  obtain ⟨hvalid, hfrom, hto, hsession⟩ := outgoing_eq_ok.mp hout
  exact readPayload_eq_ok.mpr ⟨tokens_message hserde hvalid hdepth hname, hvalid,
    hfrom.trans hremote.symm, hto.trans hlocal.symm, hsession.trans hcontext.symm⟩

/-- A delivery that brings the text of a message is accepted as the message. -/
theorem accept_write (hserde : Serde C write) {w w' : Workflow} {m : V2.Envelope}
    (hlocal : w'.local_ = w.remote) (hremote : w'.remote = w.local_)
    (hcontext : w'.context = w.context) (hdepth : m.toJson.depth ≤ 127)
    (hname : m.toJson.unmarked = true) (hout : w.outgoing F m = .ok ()) {d : Delivery}
    (hsid : d.sid ≠ "") (hfrom : d.from_ = w.local_) (hpayload : d.payload = write m.toJson) :
    w'.accept F C d = .ok m := by
  unfold accept
  rw [if_neg hsid, if_neg (not_not.mpr (hfrom.trans hremote.symm)), hpayload]
  exact readPayload_write hserde hlocal hremote hcontext hdepth hname hout

theorem select_of_status {w : Workflow} {g : Guardian} {mode : Mode}
    {sessions : List SessionStatus} {insecure : List String} {sid : String}
    (hstatus : g.status = .status mode sessions insecure)
    (hselect : w.sessionIn sessions = .ok (some sid)) :
    sid ≠ "" ∧ ∃ k s, s.info.sid = sid ∧ (g.active.toList.filter fun p =>
      p.2.info.peer = w.remote ∧ p.2.info.hacpSession = w.context) = [(k, s)] := by
  obtain ⟨hne, st, hst, hfound⟩ := sessionIn_eq_some.mp hselect
  obtain ⟨-, hsessions, -⟩ := Response.status.inj hstatus
  rw [← hsessions, List.filter_map, List.map_eq_singleton_iff] at hfound
  obtain ⟨⟨k, s⟩, hfound, rfl⟩ := hfound
  exact ⟨hne, k, s, hst, hfound⟩

/-- The requests that a send to the workflow of the peer may hand to the guardian. -/
inductive Sends (F : Foreign) (C : Crates) (w w' : Workflow) (m : V2.Envelope) (contract : String)
    (g : Guardian) : List (Bytes × Outside) → Prop
  | nothing : Sends F C w w' m contract g []
  | status {fst : Bytes × Outside} (hfst : Request.ofBytes C fst.1 = .ok .status) :
      Sends F C w w' m contract g [fst]
  | sealed {fst snd : Bytes × Outside} {k text : String} {s : Session} {payload : Bytes}
      (hfst : Request.ofBytes C fst.1 = .ok .status)
      (honly : (g.active.toList.filter fun p =>
        p.2.info.peer = w.remote ∧ p.2.info.hacpSession = w.context) = [(k, s)])
      (hsnd : Request.ofBytes C snd.1 = .ok (.seal_ s.info.sid contract text))
      (hpayload : C.base64 text = some payload)
      (haccepts : ∀ d : Delivery, d.sid ≠ "" → d.from_ = w.local_ → d.payload = payload →
        w'.accept F C d = .ok m) :
      Sends F C w w' m contract g [fst, snd]

variable (F K uid user) in
/-- Whatever comes of it, a send hands the guardian nothing, a question about its status, or after
that one request to seal: for the only session with the peer in the context, a payload that the
workflow of the peer takes for the message when it is delivered from the sender. A send that
succeeds has done so. -/
theorem send_hands_message (hserde : Serde C write) {w w' : Workflow}
    (hlocal : w'.local_ = w.remote) (hremote : w'.remote = w.local_)
    (hcontext : w'.context = w.context) (h : Hosted) {m : V2.Envelope} (contract : String)
    (hdepth : m.toJson.depth ≤ 127) (hname : m.toJson.unmarked = true) :
    let sent := w.send F C write (Hosted.socket F K C write uid user) h m contract
    ∃ js, sent.1.handed = h.handed ++ js ∧ Sends F C w w' m contract h.service.guardian js ∧
      (sent.2 = .ok () → js.length = 2) := by
  dsimp only
  rw [send_eq_ask fun h r => Client.request_hosted F K uid user hserde h r]
  unfold askSend askSession
  rcases hout : w.outgoing F m with e | _
  · exact ⟨[], (List.append_nil _).symm, .nothing, fun h => by cases h⟩
  have hasked := Hosted.ask_handed F K uid user hserde h .status
  rcases hstatus : h.ask F K C write uid user .status with ⟨t, e | answer⟩
  · rw [hstatus] at hasked
    rcases hasked with hnone | ⟨fst, hfst, hread, -⟩
    · exact ⟨[], by simpa using hnone, .nothing, fun h => by cases h⟩
    · exact ⟨[fst], hfst, .status hread, fun h => by cases h⟩
  obtain ⟨hhanded, edge, hanswer⟩ := Hosted.ask_ok (congrArg Prod.snd hstatus)
  obtain ⟨fst, hfst, hread, -⟩ := hasked.resolve_left hhanded
  rw [hstatus] at hfst
  -- what comes first is the status, and only that unless it names the session
  obtain rfl : h.service.guardian.status = answer := Except.ok.inj hanswer
  obtain ⟨mode, sessions, insecure, hstatus'⟩ :
      ∃ mode sessions insecure, h.service.guardian.status = .status mode sessions insecure :=
    ⟨_, _, _, rfl⟩
  rw [hstatus']
  dsimp only
  rcases hselect : w.sessionIn sessions with e | _ | sid
  · exact ⟨[fst], hfst, .status hread, fun h => by cases h⟩
  · exact ⟨[fst], hfst, .status hread, fun h => by cases h⟩
  obtain ⟨-, k, s, rfl, hfound⟩ := select_of_status hstatus' hselect
  dsimp only
  have hsealed := Hosted.ask_handed F K uid user hserde t
    (.seal_ s.info.sid contract (Base64.encode (write m.toJson)))
  rcases hseal : Hosted.ask F K C write uid user t
      (.seal_ s.info.sid contract (Base64.encode (write m.toJson))) with ⟨t', result⟩
  rw [hseal] at hsealed
  rcases hsealed with hnone | ⟨snd, hsnd, hread', -⟩
  · refine ⟨[fst], hnone.trans hfst, .status hread, fun h => ?_⟩
    cases result with
    | error e => cases h
    | ok answer => exact absurd (hseal ▸ hnone) (Hosted.ask_ok (congrArg Prod.snd hseal)).1
  · refine ⟨[fst, snd], by rw [hsnd, hfst, List.append_assoc, List.singleton_append],
      .sealed hread hfound hread' (hserde.base64 _) fun d => ?_, fun _ => rfl⟩
    exact accept_write hserde hlocal hremote hcontext hdepth hname hout

/-! ## An agent in a session -/

def asking : Workflow := ⟨"urn:hacp:agent:a", "urn:hacp:agent:b", "s-1"⟩

def answering : Workflow := ⟨"urn:hacp:agent:b", "urn:hacp:agent:a", "s-1"⟩

def question : V2.Envelope where
  protocol := "HACP/2.0"
  messageId := "m-000000000000"
  sessionId := "s-1"
  from_ := "urn:hacp:agent:a"
  to_ := "urn:hacp:agent:b"
  kind := "hacp.skill.ask"
  timestamp := "2026-09-04T12:00:00Z"
  inReplyTo := none
  body := .object [("text", .string "ordinary HACP question")]
  extra := ∅

def answer (messageId : String) : V2.Envelope where
  protocol := "HACP/2.0"
  messageId := messageId
  sessionId := "s-1"
  from_ := "urn:hacp:agent:b"
  to_ := "urn:hacp:agent:a"
  kind := "hacp.skill.answer"
  timestamp := "2026-09-04T12:00:01Z"
  inReplyTo := some "m-000000000000"
  body := .object [("text", .string "ordinary HACP answer")]
  extra := ∅

section Exchange
open Conversation

theorem legible_mailed : Legible (answer "m-000000000001") ∧ Legible (answer "m-000000000002") ∧
    Legible question := by
  decide +kernel

theorem accept_answer {messageId : String} (h : Legible (answer messageId)) {payload : Bytes}
    (hpayload : payload = compact (answer messageId).toJson) (n : UInt64) :
    asking.accept Burst.foreign lineCrates
      ⟨Burst.sid, "urn:hacp:agent:b", binding, n, payload⟩ = .ok (answer messageId) := by
  have hsid : Burst.sid ≠ "" := by decide
  have hlocal : asking.local_ = answering.remote := rfl
  have hremote : asking.remote = answering.local_ := rfl
  exact accept_write Serde.compact hlocal hremote rfl h.depth h.name
    (outgoing_eq_ok.mpr ⟨h.valid, rfl, rfl, rfl⟩) hsid rfl hpayload

theorem accept_garbled (n : UInt64) : asking.accept Burst.foreign lineCrates
    ⟨Burst.sid, "urn:hacp:agent:b", binding, n, [0]⟩ = .error .schemaViolation := by
  have hread : lineCrates.tokens [0] = none := by decide +kernel
  have hsid : Burst.sid ≠ "" := by decide
  have hfrom : "urn:hacp:agent:b" = asking.remote := rfl
  rw [accept, if_neg hsid, if_neg (not_not.mpr hfrom), readPayload, hread]
  rfl

/-- The first answer comes with the hello, the second behind a payload that is no message. -/
def mailed (g : Guardian) (p q : Bytes) : Hosted :=
  ⟨.load g 4, [(⟨0, 0⟩, opening [p]), (⟨1, 1⟩, arriving [[0], q] 1)], []⟩

section Mailed
variable {g : Guardian} {p q : Bytes}
  (hg : Guardian.load "urn:hacp:agent:a" (.replicate 32 1) [Guardian.securePin] .degraded = .ok g)
  (hp : p = compact (answer "m-000000000001").toJson)
  (hq : q = compact (answer "m-000000000002").toJson)
include hg hp hq

theorem received_mailed : ∃ h,
    (asked Burst.foreign lineCrates compact asks).exec (mailed g p q)
        [(asking, .receive), (asking, .receive)] = h ∧
      received ((asked Burst.foreign lineCrates compact asks).history (mailed g p q)
        [(asking, .receive), (asking, .receive)]) =
          [(asking, answer "m-000000000001"), (asking, answer "m-000000000002")] ∧
      Guardian.FreshRequests Burst.foreign LateRefusal.exchange lineCrates g h.handed := by
  have hfew : Few [p] := ⟨by simp, fun r hr => by
    rw [List.mem_singleton.mp hr, hp]
    exact legible_mailed.1.length⟩
  have hfew' : Few [[0], q] := ⟨by simp, fun r hr => by
    rcases List.mem_pair.mp hr with rfl | rfl
    · decide
    · rw [hq]
      exact legible_mailed.2.1.length⟩
  have hgate : (RateBudget.new 4).gate ⟨0, 0⟩ = (⟨4, [0], none⟩, .admitted) := rfl
  have hgate' : RateBudget.gate ⟨4, [0], none⟩ ⟨1, 1⟩ = (⟨4, [0, 1], none⟩, .admitted) := rfl
  obtain ⟨g', ⟨hask, hdispatch⟩, htalking⟩ :=
    ask_opening [(⟨1, 1⟩, arriving [[0], q] 1)] [] hg hgate hfew
  obtain ⟨g'', ⟨hask', hdispatch'⟩, -⟩ := Talking.ask_arriving (n := 1) [] ([] ++
    [(Guardian.lineOf (.open_ "s-1"), opening [p])]) htalking hgate' hfew'
    (show (1 : UInt64).toNat + 2 < UInt64.size by decide)
  have hfirst := receive_step (F := Burst.foreign) (C := lineCrates) compact (w := asking) hask
  have hsecond := receive_step (F := Burst.foreign) (C := lineCrates) compact (w := asking) hask'
  have hinbox : (asking.inboxOf Burst.foreign lineCrates
      (extended .empty (deliveries binding [p] 0))).messages = [answer "m-000000000001"] := by
    have haccept := accept_answer legible_mailed.1 hp 0
    simp [inboxOf, extended, Gathered.empty, deliveries, haccept, Except.toOption]
  have hinbox' : (asking.inboxOf Burst.foreign lineCrates
      (extended .empty (deliveries binding [[0], q] 1))).messages = [answer "m-000000000002"] := by
    have hgarbled := accept_garbled 1
    have haccept := accept_answer legible_mailed.2.1 hq (1 + 1)
    simp only [inboxOf, extended, Gathered.empty, deliveries, List.nil_append, List.filterMap_cons,
      hgarbled, haccept, Except.toOption, List.filterMap_nil]
  refine ⟨_, rfl, ?_, ?_⟩
  · rw [Machine.history_of_step (s := mailed g p q) hfirst, reached,
      Machine.history_of_step hsecond, Machine.history_nil]
    simp only [received, inboxAt, Outcome.inbox, List.filterMap_cons, List.filterMap_nil,
      Option.map_some, List.flatMap_cons, List.flatMap_nil, hinbox, hinbox', List.map_cons,
      List.map_nil, List.append_nil, List.singleton_append]
  · rw [Machine.exec_of_step (s := mailed g p q) hfirst, reached, Machine.exec_of_step hsecond,
      Machine.exec_nil, reached]
    dsimp only
    rw [List.nil_append, List.singleton_append, Guardian.FreshRequests,
      Guardian.established_cons hdispatch,
      Guardian.established_cons hdispatch']
    exact List.nodup_singleton _

end Mailed

theorem inboxes_authentic_mailed : ∃ (g : Guardian) (p q : Bytes) (taken : List Taken),
    Guardian.load "urn:hacp:agent:a" (.replicate 32 1) [Guardian.securePin] .degraded = .ok g ∧
    p = compact (answer "m-000000000001").toJson ∧ q = compact (answer "m-000000000002").toJson ∧
    let M := machine Burst.foreign lineCrates compact (Hosted.socket Burst.foreign
      LateRefusal.exchange lineCrates compact 1 1)
    let calls : List (Workflow × Call) := [(asking, .receive), (asking, .receive)]
    let answers := (Guardian.machine Burst.foreign LateRefusal.exchange lineCrates).history g
      (M.exec (mailed g p q) calls).handed
    received (M.history (mailed g p q) calls) = taken.map (fun t => (t.workflow, t.message)) ∧
    taken.map Taken.message = [answer "m-000000000001", answer "m-000000000002"] ∧
    ∀ t ∈ taken, ∃ e ∈ answers, t.delivery ∈ e.output.deliveriesOf t.delivery.sid ∧
      ∃ made env view, Vouched Burst.foreign LateRefusal.exchange lineCrates answers e t.delivery
        made env view := by
  obtain ⟨g, hg⟩ := Guardian.load_securePin
  obtain ⟨p, hp⟩ : ∃ p, p = compact (answer "m-000000000001").toJson := ⟨_, rfl⟩
  obtain ⟨q, hq⟩ : ∃ q, q = compact (answer "m-000000000002").toJson := ⟨_, rfl⟩
  obtain ⟨h, hexec, hreceived, hfresh⟩ := received_mailed hg hp hq
  have hasked := machine_eq_asked (F := Burst.foreign)
    (fun h r => Client.request_hosted Burst.foreign LateRefusal.exchange 1 1 Serde.compact h r)
    Serde.compact
  rw [← hexec, ← hasked] at hfresh
  rw [← hasked] at hreceived
  obtain ⟨-, taken, htaken, -, -, heach⟩ := inboxes_authentic Burst.foreign LateRefusal.exchange
    1 1 Serde.compact hg 4 _ [(asking, .receive), (asking, .receive)] hfresh
  refine ⟨g, p, q, taken, hg, hp, hq, htaken, ?_, fun t ht => (heach t ht).2.2.2.2.2.2⟩
  have hmessages := congrArg (List.map Prod.snd) (htaken.symm.trans hreceived)
  simpa [Function.comp_def] using hmessages

/-! ### A question is sent -/

/-- An agent that has answered a hello. -/
def AfterHello (g g' : Guardian) : Prop :=
  Guardian.load "urn:hacp:agent:a" (.replicate 32 1) [Guardian.securePin] .degraded = .ok g ∧
    (Guardian.machine Burst.foreign LateRefusal.exchange lineCrates).exec g
      [(Guardian.lineOf (.open_ "s-1"), opening [])] = g'

theorem exists_afterHello : ∃ g g', AfterHello g g' ∧ Talking 0 0 g' := by
  obtain ⟨g, hg⟩ := Guardian.load_securePin
  have hgate : (RateBudget.new 4).gate ⟨0, 0⟩ = (⟨4, [0], none⟩, .admitted) := rfl
  have hfew : Few [] := ⟨by simp, by simp⟩
  obtain ⟨g', ⟨-, hdispatch⟩, htalking⟩ := ask_opening [] [] hg hgate hfew
  have hexec := Guardian.exec_of_dispatch (i := (Guardian.lineOf (.open_ "s-1"), opening [])) hdispatch
  exact ⟨g, g', ⟨hg, hexec⟩, htalking⟩

def visited (g : Guardian) : Hosted :=
  ⟨.load g 4, [(⟨0, 0⟩, arriving [] 0), (⟨1, 1⟩, arriving [] 0)], []⟩

theorem send_question {g : Guardian} (h : Talking 0 0 g) :
    (asking.send Burst.foreign lineCrates compact (Hosted.socket Burst.foreign
      LateRefusal.exchange lineCrates compact 1 1) (visited g) question binding).2 = .ok () := by
  have hlegible := legible_mailed.2.2
  have hout : asking.outgoing Burst.foreign question = .ok () :=
    outgoing_eq_ok.mpr ⟨hlegible.valid, rfl, rfl, rfl⟩
  have hgate : (RateBudget.new 4).gate ⟨0, 0⟩ = (⟨4, [0], none⟩, .admitted) := rfl
  have hgate' : RateBudget.gate ⟨4, [0], none⟩ ⟨1, 1⟩ = (⟨4, [0, 1], none⟩, .admitted) := rfl
  obtain ⟨g', hsent, -⟩ := h.ask_send [] [] (by decide) hgate hgate' (w := asking) rfl rfl hout
    hlegible.length (arriving [] 0) [] 0
  rw [send_eq_ask fun h r => Client.request_hosted Burst.foreign LateRefusal.exchange 1 1
    Serde.compact h r]
  exact congrArg Prod.snd hsent

theorem send_hands_message_question : ∃ g g', AfterHello g g' ∧
    let sent := asking.send Burst.foreign lineCrates compact (Hosted.socket Burst.foreign
      LateRefusal.exchange lineCrates compact 1 1) (visited g') question binding
    sent.2 = .ok () ∧ sent.1.handed.length = 2 ∧
      Sends Burst.foreign lineCrates asking answering question binding g' sent.1.handed := by
  obtain ⟨g, g', hafter, htalking⟩ := exists_afterHello
  obtain ⟨js, hhanded, hsends, hlength⟩ := send_hands_message Burst.foreign LateRefusal.exchange 1 1
    Serde.compact (show answering.local_ = asking.remote from rfl)
    (show answering.remote = asking.local_ from rfl) rfl (visited g') binding
    legible_mailed.2.2.depth legible_mailed.2.2.name
  have hsent := send_question htalking
  refine ⟨g, g', hafter, hsent, ?_, ?_⟩
  · rw [hhanded]
    exact hlength hsent
  · rw [hhanded]
    exact hsends

theorem calls_without_text_question : ∃ g g', AfterHello g g' ∧
    let M := machine Burst.foreign lineCrates compact (Hosted.socket Burst.foreign
      LateRefusal.exchange lineCrates compact 1 1)
    let calls : List (Workflow × Call) := [(asking, .send question binding)]
    M.history (visited g') calls = (asked Burst.foreign lineCrates compact asks).history
        (visited g') calls ∧
      (M.history (visited g') calls).map Event.output = [.ok none] := by
  obtain ⟨g, g', hafter, htalking⟩ := exists_afterHello
  refine ⟨g, g', hafter, calls_without_text _ _ _ _ Serde.compact _ _, ?_⟩
  have hsent := send_question htalking
  rw [Machine.history_cons, Machine.history_nil, List.map_cons, List.map_nil]
  change [(quiet (asking.send _ _ _ _ _ question binding)).2] = _
  unfold quiet
  rw [hsent]
  rfl

end Exchange
end Workflow
end Hacp.Secure
