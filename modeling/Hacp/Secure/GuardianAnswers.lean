import Hacp.Secure.Conversation
import Hacp.Secure.GuardianRun

/-!
# What the answers of a guardian say

The run of the transport that accounts for the answers keeps its invariant where no identifier
is established twice. So a message is listed as delivered once, by a request that read the
control state and found its binding accepted; and no number is encrypted under twice, whether
the message then reaches the edge or not.
-/
namespace Hacp.Secure
open Lib V2 Std SessionManager Endpoint

/-- What stands behind a delivery that the answer to a request lists. In the request the transport
was called with a view of the control state that was read for the call; then the session had
verified the envelope and it opened to the payload. Some request had read the envelope in a file. -/
structure Vouched (F : Foreign) (K : KeyExchange) (C : Crates)
    (events : List (Event Guardian (Bytes × Outside) Handled))
    (e : Event Guardian (Bytes × Outside) Handled) (d : Delivery)
    (made : Event Endpoint Input Reply) (env : SecureEnvelope) (view : ContractView) : Prop where
  read : ∃ e ∈ events, ∃ view,
    Prompted F K C e.before e.input.1 e.input.2 (.receive env view)
  part : ∃ part, Guardian.Matched F K C e part ∧ made ∈ part
  call : ∃ c, made.input = .call c ∧ c.view = some view ∧
    Prompted F K C e.before e.input.1 e.input.2 c
  listed : d ∈ made.output.delivered
  sid : env.sid = some d.sid
  seq : env.seq = some d.seq
  from_ : env.from_ = d.from_
  contract : env.contract = d.contract
  verified : made.before.manager.verifyMessage F env = .ok ()
  opened : (made.before.manager.openAuthenticated F env).2 = .ok d.payload
  bound : view.check F d.contract = .ok ()

namespace Guardian
variable {F : Foreign} {K : KeyExchange} {C : Crates} {g : Guardian}

/-- No identifier is established twice in what the guardian is asked. -/
def FreshRequests (F : Foreign) (K : KeyExchange) (C : Crates) (g : Guardian)
    (requests : List (Bytes × Outside)) : Prop :=
  (((machine F K C).history g requests).flatMap fun e => e.output.established).Nodup

section Answers
variable {local_ : String} {seed : Vector UInt8 32} {pins : List Pin} {mode : Mode}
  {requests : List (Bytes × Outside)}

/-- The run that accounts for the answers keeps the invariant of the transport. -/
theorem accounted_run (hload : load local_ seed pins mode = .ok g)
    (hfresh : FreshRequests F K C g requests) :
    ∃ inputs, reached F local_ seed inputs = ((machine F K C).exec g requests).endpoint ∧
      Accounted F K C ((machine F K C).history g requests) (runHistory F local_ seed inputs) ∧
      RunInv F (runHistory F local_ seed inputs) (reached F local_ seed inputs) := by
  obtain ⟨inputs, hexec, haccounted⟩ :=
    exists_accounted (F := F) (K := K) (C := C) (load_sane hload) requests
  rw [(load_eq_ok hload).1] at hexec haccounted
  refine ⟨inputs, hexec, haccounted, run_inv F local_ seed inputs ?_⟩
  have hestablished := haccounted.established
  rw [Endpoint.established, Machine.history_inputs] at hestablished
  rw [FreshIds, hestablished]
  exact hfresh

/-! ## Deliveries -/

theorem ascending_of_range {ds : List Delivery} {k : ℕ}
    (h : ds.map (fun d => d.seq.toNat) = List.range k) : ds.Pairwise fun a b => a.seq < b.seq := by
  have hlt : (ds.map fun d => d.seq.toNat).Pairwise (· < ·) := by
    rw [h]
    exact List.pairwise_lt_range
  exact (List.pairwise_map.mp hlt).imp fun hab => UInt64.lt_iff_toNat_lt.mpr hab

/-- The numbers delivered for a session increase over all answers. -/
theorem deliveries_ascend (hload : load local_ seed pins mode = .ok g)
    (hfresh : FreshRequests F K C g requests) {sid : String} (hsid : sid ≠ "") :
    (((machine F K C).history g requests).flatMap fun e =>
      e.output.deliveriesOf sid).Pairwise fun a b => a.seq < b.seq := by
  obtain ⟨inputs, -, haccounted, hinv⟩ := accounted_run (F := F) (K := K) (C := C) hload hfresh
  obtain ⟨k, hk⟩ := (hinv.track sid).delivered
  exact (ascending_of_range hk).sublist (haccounted.delivered sid hsid)

theorem vouched_of_delivered {events : List (Event Guardian (Bytes × Outside) Handled)} {h : History}
    {x : Endpoint} (haccounted : Accounted F K C events h) (hinv : RunInv F h x)
    {e : Event Guardian (Bytes × Outside) Handled} (he : e ∈ events) {sid : String} (hsid : sid ≠ "")
    {d : Delivery} (hd : d ∈ e.output.deliveriesOf sid) :
    d.sid = sid ∧ ∃ made ∈ h, ∃ env view, Vouched F K C events e d made env view := by
  obtain ⟨part, hmatched, hpart⟩ := haccounted.matched.part_of_mem he
  obtain ⟨made, hmade, hd⟩ : ∃ made ∈ part, d ∈ made.output.deliveriesOf sid := by
    obtain ⟨inputs, rfl, hsim⟩ := hmatched
    exact List.mem_flatMap.mp ((hsim.delivered sid hsid).subset hd)
  obtain ⟨hlisted, hof⟩ := List.mem_filter.mp hd
  obtain ⟨c, view, env, hc, hview, hdelivers⟩ := hinv.checked made (hpart hmade) d hlisted
  obtain ⟨hbelongs, hreceived⟩ := hdelivers.held
  refine ⟨of_decide_eq_true hof, made, hpart hmade, env, view, {
    read := haccounted.received env hreceived
    part := ⟨part, hmatched, hmade⟩
    call := ⟨c, hc, hview, hmatched.prompted hmade hc⟩
    listed := hlisted
    sid := hbelongs.sid
    seq := hbelongs.seq
    from_ := hdelivers.from_.symm
    contract := hdelivers.contract.symm
    verified := hbelongs.verified
    opened := hdelivers.opened
    bound := hdelivers.contract ▸ hdelivers.bound }⟩

/-- Deliveries that the answers list in this order, each of a session: their numbers increase for
each session, and one of the requests vouches for every one. -/
theorem listed_vouched (hload : load local_ seed pins mode = .ok g)
    (hfresh : FreshRequests F K C g requests) {ds : List Delivery}
    (hnamed : ∀ d ∈ ds, d.sid ≠ "")
    (hlisted : ∀ sid, (ds.filter (·.sid = sid)).Sublist
      (((machine F K C).history g requests).flatMap fun e => e.output.deliveriesOf sid)) :
    (∀ sid, (ds.filter (·.sid = sid)).Pairwise fun a b => a.seq < b.seq) ∧
    ∀ d ∈ ds, ∃ e ∈ (machine F K C).history g requests, d ∈ e.output.deliveriesOf d.sid ∧
      ∃ made env view, Vouched F K C ((machine F K C).history g requests) e d made env view := by
  obtain ⟨inputs, -, haccounted, hinv⟩ := accounted_run (F := F) (K := K) (C := C) hload hfresh
  refine ⟨fun sid => ?_, fun d hd => ?_⟩
  · by_cases hsid : sid = ""
    · have hnone : ds.filter (·.sid = sid) = [] :=
        List.filter_eq_nil_iff.mpr fun d hd => by simpa [hsid] using hnamed d hd
      rw [hnone]
      exact .nil
    · exact (deliveries_ascend hload hfresh hsid).sublist (hlisted sid)
  · have hof : d ∈ ds.filter (·.sid = d.sid) := List.mem_filter.mpr ⟨hd, decide_eq_true rfl⟩
    obtain ⟨e, he, hdelivered⟩ := List.mem_flatMap.mp ((hlisted d.sid).subset hof)
    obtain ⟨-, made, -, env, view, hvouched⟩ :=
      vouched_of_delivered haccounted hinv he (hnamed d hd) hdelivered
    exact ⟨e, he, hdelivered, made, env, view, hvouched⟩

/-- Over all answers of a guardian the numbers delivered for a session increase, so that no message
is handed out twice. One run of the transport accounts for all answers, and its calls vouch for
every delivery: the envelope was in a file that was read, the session verified it and opened it to
the payload, and the control state that was read for the call accepted the binding. -/
theorem answers_deliver_once (hload : load local_ seed pins mode = .ok g)
    (requests : List (Bytes × Outside)) (hfresh : FreshRequests F K C g requests) :
    (∀ sid ≠ "", (((machine F K C).history g requests).flatMap fun e =>
      e.output.deliveriesOf sid).Pairwise fun a b => a.seq < b.seq) ∧
    ∃ inputs, reached F local_ seed inputs = ((machine F K C).exec g requests).endpoint ∧
      Accounted F K C ((machine F K C).history g requests) (runHistory F local_ seed inputs) ∧
      ∀ e ∈ (machine F K C).history g requests, ∀ sid ≠ "", ∀ d ∈ e.output.deliveriesOf sid,
        d.sid = sid ∧ ∃ made ∈ runHistory F local_ seed inputs, ∃ env view,
          Vouched F K C ((machine F K C).history g requests) e d made env view := by
  obtain ⟨inputs, hexec, haccounted, hinv⟩ := accounted_run (F := F) (K := K) (C := C) hload hfresh
  exact ⟨fun _ hsid => deliveries_ascend hload hfresh hsid, inputs, hexec, haccounted,
    fun _ he _ hsid _ hd => vouched_of_delivered haccounted hinv he hsid hd⟩

end Answers

/-! ### Two open requests -/

section Exchange
open Conversation

def lineOf (r : Request) : Bytes := compact r.toJson ++ [newline]

theorem dispatch_lineOf {r : Request} (hsize : (compact r.toJson).length < limit) (edge : Outside) :
    g.dispatch F K lineCrates (lineOf r) edge = g.handle F K lineCrates r edge := by
  rw [dispatch, lineOf, Request.ofBytes_write Serde.compact r hsize]

theorem length_open : (compact (Request.open_ "s-1").toJson).length < limit := by
  rw [compact, asBytes, String.toList_ofList]
  decide

/-- Two messages come with the hello. -/
def firstOpen : Bytes × Outside := (lineOf (.open_ "s-1"), opening [[], [1]])

def laterOpen : Bytes × Outside := (lineOf (.open_ "s-1"), arriving [[2]] 2)

theorem history_of_dispatch {i : Bytes × Outside} {g' : Guardian} {answer : Handled}
    (h : g.dispatch F K C i.1 i.2 = (g', answer)) (lines : List (Bytes × Outside)) :
    (machine F K C).history g (i :: lines) = ⟨g, i, answer, g'⟩ :: (machine F K C).history g' lines :=
  Machine.history_of_step (M := machine F K C) h lines

theorem exec_of_dispatch {i : Bytes × Outside} {g' : Guardian} {answer : Handled}
    (h : g.dispatch F K C i.1 i.2 = (g', answer)) : (machine F K C).exec g [i] = g' :=
  Machine.exec_of_step (M := machine F K C) h []

theorem established_cons {bytes : Bytes} {edge : Outside} {g' : Guardian} {answer : Handled}
    (h : g.dispatch F K C bytes edge = (g', answer)) (lines : List (Bytes × Outside)) :
    (((machine F K C).history g ((bytes, edge) :: lines)).flatMap fun e => e.output.established) =
      answer.established ++
        ((machine F K C).history g' lines).flatMap fun e => e.output.established := by
  rw [history_of_dispatch (i := (bytes, edge)) h, List.flatMap_cons]

theorem handle_open {edge : Outside} {g' : Guardian} {gathered : Gathered} {established : List String}
    (h : g.receive F K lineCrates "s-1" edge = (g', .ok gathered, established)) :
    g.dispatch F K lineCrates (lineOf (.open_ "s-1")) edge =
      (g', ⟨.ok (.opened gathered), established, none⟩) := by
  rw [dispatch_lineOf length_open]
  simp only [handle, h, Except.map]

/-- The deliveries of each answer. -/
theorem history_opens
    (hg : load "urn:hacp:agent:a" (.replicate 32 1) [securePin] .degraded = .ok g) :
    ∃ e e', (machine Burst.foreign LateRefusal.exchange lineCrates).history g
        [firstOpen, laterOpen] = [e, e'] ∧
      e.output.established = [Burst.sid] ∧ e'.output.established = [] ∧
      e.output.deliveriesOf Burst.sid = deliveries binding [[], [1]] 0 ∧
      e'.output.deliveriesOf Burst.sid = deliveries binding [[2]] 2 := by
  obtain ⟨g', hreceive, htalking⟩ :=
    receive_hello (C := lineCrates) readJsonLine_reads accepts_agreed hg [[], [1]] (by decide)
  obtain ⟨g'', hreceive', -⟩ :=
    htalking.receive (C := lineCrates) readJsonLine_reads accepts_agreed [[2]] (by decide)
  have hfirst := handle_open hreceive
  have hsecond : g'.dispatch Burst.foreign LateRefusal.exchange lineCrates laterOpen.1 laterOpen.2 =
      (g'', ⟨.ok (.opened (extended .empty (deliveries binding [[2]] 2))), [], none⟩) :=
    handle_open hreceive'
  refine ⟨⟨g, firstOpen, ⟨.ok (.opened (extended .empty (deliveries binding [[], [1]] 0))), [Burst.sid],
      none⟩, g'⟩,
    ⟨g', laterOpen, ⟨.ok (.opened (extended .empty (deliveries binding [[2]] 2))), [], none⟩, g''⟩,
    ?_, rfl,
    rfl, deliveries_of _ _ _, deliveries_of _ _ _⟩
  rw [history_of_dispatch (i := firstOpen) hfirst, history_of_dispatch hsecond, Machine.history_nil]

theorem answers_deliver_once_opens : ∃ g e e',
    load "urn:hacp:agent:a" (.replicate 32 1) [securePin] .degraded = .ok g ∧
    (machine Burst.foreign LateRefusal.exchange lineCrates).history g [firstOpen, laterOpen] =
      [e, e'] ∧
    e.output.deliveriesOf Burst.sid = deliveries binding [[], [1]] 0 ∧
    e'.output.deliveriesOf Burst.sid = deliveries binding [[2]] 2 ∧
    (([e, e'].flatMap fun e => e.output.deliveriesOf Burst.sid).Pairwise fun a b => a.seq < b.seq) ∧
    ∀ d ∈ e'.output.deliveriesOf Burst.sid, ∃ made env view,
      Vouched Burst.foreign LateRefusal.exchange lineCrates [e, e'] e' d made env view := by
  obtain ⟨g, hg⟩ := load_securePin
  obtain ⟨e, e', hhistory, hestablished, hestablished', hdelivered, hdelivered'⟩ := history_opens hg
  have hfresh : FreshRequests Burst.foreign LateRefusal.exchange lineCrates g
      [firstOpen, laterOpen] := by
    rw [FreshRequests, hhistory, List.flatMap_cons, List.flatMap_singleton, hestablished,
      hestablished']
    exact List.nodup_singleton _
  obtain ⟨hascend, inputs, -, -, hvouched⟩ := answers_deliver_once hg _ hfresh
  rw [hhistory] at hascend hvouched
  refine ⟨g, e, e', hg, hhistory, hdelivered, hdelivered', hascend Burst.sid (by decide),
    fun d hd => ?_⟩
  obtain ⟨-, made, -, env, view, hmade⟩ := hvouched e' (by simp) Burst.sid (by decide) d hd
  exact ⟨made, env, view, hmade⟩

end Exchange

/-! ## Encryptions -/

section Answers
variable {local_ : String} {seed : Vector UInt8 32} {pins : List Pin} {mode : Mode}

/-- Over all requests to a guardian the numbers it encrypts under for a session increase and none
is the last one, so that it never encrypts twice under one key and nonce; and the numbers it
answers as sealed are among them, in this order. What was encrypted is spent, also where writing
the message to the edge fails. -/
theorem answers_seal_once (hload : load local_ seed pins mode = .ok g)
    (requests : List (Bytes × Outside)) (hfresh : FreshRequests F K C g requests) :
    ∀ sid, let encryptions := ((machine F K C).history g requests).flatMap fun e =>
        e.output.encryptionsOf sid
      encryptions.Pairwise (fun a b => a.seq < b.seq) ∧
      (∀ e ∈ encryptions, e.seq ≠ u64Max) ∧
      (encryptions.map fun e => (e.key, e.nonce)).Nodup ∧
      (((machine F K C).history g requests).flatMap fun e => e.output.sealedFor sid).Sublist
        (encryptions.map Encryption.seq) := by
  intro sid encryptions
  obtain ⟨inputs, -, haccounted, hinv⟩ := accounted_run (F := F) (K := K) (C := C) hload hfresh
  obtain ⟨key, bound, htally⟩ := (hinv.track sid).encrypted
  rw [← haccounted.encrypted sid] at htally
  have hsealed := haccounted.sealed sid
  rw [← haccounted.encrypted sid] at hsealed
  refine ⟨htally.ascending, fun e he hmax => ?_, htally.nonces_nodup, hsealed⟩
  have hlt := (htally.each e he).2.2
  rw [hmax, UInt64.lt_iff_toNat_lt, u64Max_toNat] at hlt
  have hbound := bound.toNat_lt
  omega

end Answers

section Exchange
open Conversation

def sealing : Request := .seal_ Burst.sid binding (Base64.encode [7])

theorem length_sealing : (compact sealing.toJson).length < limit := by
  rw [compact, asBytes, String.toList_ofList]
  decide +kernel

def shake : Bytes × Outside := (lineOf (.open_ "s-1"), opening [])

def lostSeal : Bytes × Outside :=
  (lineOf sealing, { arriving [] 0 with written := .error .guardianUnavailable })

def keptSeal : Bytes × Outside := (lineOf sealing, arriving [] 0)

theorem handle_seal {edge : Outside} {g' : Guardian} {result : Except SecureError Response}
    {encrypted : Option Encryption}
    (h : g.sealMessage F lineCrates Burst.sid binding (Base64.encode [7]) edge =
      (g', result, encrypted)) :
    g.dispatch F K lineCrates (lineOf sealing) edge = (g', ⟨result, [], encrypted⟩) := by
  rw [dispatch_lineOf length_sealing]
  simp only [sealing, handle, h]

/-- The message that is lost is answered with an error, and the next one has the next number. -/
theorem answers_seal_once_lost : ∃ g events,
    load "urn:hacp:agent:a" (.replicate 32 1) [securePin] .degraded = .ok g ∧
    (machine Burst.foreign LateRefusal.exchange lineCrates).history g [shake, lostSeal, keptSeal] =
      events ∧
    (events.map fun e => e.output.encrypted.map Encryption.seq) = [none, some 0, some 1] ∧
    (events.map fun e => e.output.sealedFor Burst.sid) = [[], [], [1]] ∧
    ((events.flatMap fun e => e.output.encryptionsOf Burst.sid).map
      fun e => (e.key, e.nonce)).Nodup := by
  obtain ⟨g, hg⟩ := load_securePin
  obtain ⟨g₁, hreceive, htalking⟩ :=
    receive_hello (C := lineCrates) readJsonLine_reads accepts_agreed hg [] (by decide)
  have htext : lineCrates.base64 (Base64.encode [7]) = some [7] := Serde.compact.base64 [7]
  obtain ⟨g₂, hlost, htalking'⟩ := htalking.seal_ accepts_agreed (by decide) htext lostSeal.2 rfl
  obtain ⟨g₃, hkept, -⟩ := htalking'.seal_ accepts_agreed (by decide) htext keptSeal.2 rfl
  have hshake : g.dispatch Burst.foreign LateRefusal.exchange lineCrates shake.1 shake.2 =
      (g₁, ⟨.ok (.opened .empty), [Burst.sid], none⟩) := handle_open hreceive
  have hfirst : g₁.dispatch Burst.foreign LateRefusal.exchange lineCrates lostSeal.1 lostSeal.2 =
      (g₂, ⟨.error .guardianUnavailable, [], some ⟨Burst.sid, .replicate 32 0, 0⟩⟩) :=
    handle_seal hlost
  have hsecond : g₂.dispatch Burst.foreign LateRefusal.exchange lineCrates keptSeal.1 keptSeal.2 =
      (g₃, ⟨.ok (.sealed Burst.sid (some 1) (pathOf 1)), [], some ⟨Burst.sid, .replicate 32 0, 1⟩⟩) :=
    handle_seal hkept
  have hhistory : (machine Burst.foreign LateRefusal.exchange lineCrates).history g
      [shake, lostSeal, keptSeal] =
      [⟨g, shake, ⟨.ok (.opened .empty), [Burst.sid], none⟩, g₁⟩,
        ⟨g₁, lostSeal, ⟨.error .guardianUnavailable, [], some ⟨Burst.sid, .replicate 32 0, 0⟩⟩, g₂⟩,
        ⟨g₂, keptSeal, ⟨.ok (.sealed Burst.sid (some 1) (pathOf 1)), [],
          some ⟨Burst.sid, .replicate 32 0, 1⟩⟩, g₃⟩] := by
    rw [history_of_dispatch hshake, history_of_dispatch hfirst, history_of_dispatch hsecond,
      Machine.history_nil]
  have hfresh : FreshRequests Burst.foreign LateRefusal.exchange lineCrates g
      [shake, lostSeal, keptSeal] := by
    rw [FreshRequests, hhistory]
    exact List.nodup_singleton _
  obtain ⟨-, -, hnodup, -⟩ := answers_seal_once hg _ hfresh Burst.sid
  rw [hhistory] at hnodup
  exact ⟨g, _, hg, hhistory, rfl, rfl, hnodup⟩

end Exchange
end Guardian
end Hacp.Secure
