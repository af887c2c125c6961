import Hacp.Secure.SealedMessage
import Hacp.Secure.TransportHistory

/-!
# A session as a channel

Two endpoints share a session that one of them sends on. Either may be called in any
way; what the network does shows in the envelopes `receive` is given and in the order
of the calls. Nobody else can sign for the sender. Then the payloads delivered are the
payloads sealed, in order and without a hole.
-/
namespace Hacp.Secure
open Lib Std SessionManager Window SecureEnvelope Endpoint

namespace Channel

structure Parties where
  sender : Endpoint
  receiver : Endpoint

inductive Action where
  | sender (c : Call)
  | receiver (c : Call)

section
variable (F : Foreign)

def step (p : Parties) : Action → Parties × Reply
  | .sender c => ({ p with sender := (p.sender.call F c).1 }, (p.sender.call F c).2)
  | .receiver c => ({ p with receiver := (p.receiver.call F c).1 }, (p.receiver.call F c).2)

def machine : Machine Parties Action Reply where
  step := step F

end

abbrev Record := Event Parties Action Reply

/-- The payload and the envelope of a sealing call for the session that succeeds. -/
def sealedIn (sid : String) : Call → Reply → Option (Bytes × SecureEnvelope)
  | .seal_ k _ payload _, .sealed ⟨_, .ok env⟩ => if k = sid then some (payload, env) else none
  | _, _ => none

def sealedBy (sid : String) (e : Record) : Option (Bytes × SecureEnvelope) :=
  match e.input with
  | .sender c => sealedIn sid c e.output
  | .receiver _ => none

def sealed (sid : String) (h : List Record) : List (Bytes × SecureEnvelope) :=
  h.filterMap (sealedBy sid)

/-- The payloads for the session in a report that is not aborted. -/
def deliveredIn (sid : String) : Reply → List Bytes
  | .reported report =>
    if report.aborted = none then
      (report.delivered.filter fun d => d.sid = sid).map Delivery.payload
    else []
  | _ => []

def deliveredBy (sid : String) (e : Record) : List Bytes :=
  match e.input with
  | .sender _ => []
  | .receiver _ => deliveredIn sid e.output

def delivered (sid : String) (h : List Record) : List Bytes := h.flatMap (deliveredBy sid)

def Handed (h : List Record) (env : SecureEnvelope) : Prop :=
  ∃ e ∈ h, ∃ view, e.input = .receiver (.receive env view)

/-- No forgery: what the receiver verifies for the session has the signed bytes of an envelope
that the sender sealed for it before. -/
def Authentic (F : Foreign) (sid : String) (h : List Record) : Prop :=
  ∀ before e after, h = before ++ e :: after → ∀ env view,
    e.input = .receiver (.receive env view) → env.sid = some sid →
    e.before.receiver.manager.verifyMessage F env = .ok () →
    ∃ sent ∈ sealed sid before, SignedAlike F sent.2 env

/-- Two endpoints, each with its own past, and a session both have established: nothing has been
sealed for it at the one end and nothing received at the other. -/
structure Start (F : Foreign) (sid : String) (p : Parties) (s r : Session) : Prop where
  senderRun : ∃ local_ identity inputs, FreshIds inputs ∧ p.sender = reached F local_ identity inputs
  receiverRun : ∃ local_ identity inputs, FreshIds inputs ∧
    p.receiver = reached F local_ identity inputs
  matched : Matched F sid p.sender.manager p.receiver.manager s r
  unsent : s.info.sendSeq = 0
  unreceived : (p.receiver.windowOf sid).high = none ∧ (p.receiver.windowOf sid).held = ∅

/-- No call of the receiver can have ended the session. -/
def Unhindered (sid : String) (h : List Record) : Prop :=
  ∀ e ∈ h, ∀ c, e.input = .receiver c →
    c.Spares sid ∧ ∀ report, e.output = .reported report → report.aborted = none

/-! ## One step of a history -/

section History
variable {F : Foreign} {sid : String} {h : List Record} {e : Record} {env : SecureEnvelope}

theorem sealed_snoc : sealed sid (h ++ [e]) = sealed sid h ++ (sealedBy sid e).toList := by
  unfold sealed
  rw [List.filterMap_append]
  cases he : sealedBy sid e <;> simp [he]

theorem delivered_snoc : delivered sid (h ++ [e]) = delivered sid h ++ deliveredBy sid e := by
  simp [delivered]

theorem handed_snoc : Handed (h ++ [e]) env ↔
    Handed h env ∨ ∃ view, e.input = .receiver (.receive env view) := by
  unfold Handed
  simp only [List.mem_append, List.mem_singleton]
  constructor
  · rintro ⟨e', he | rfl, hin⟩
    · exact .inl ⟨e', he, hin⟩
    · exact .inr hin
  · rintro (⟨e', he, hin⟩ | hin)
    · exact ⟨e', .inl he, hin⟩
    · exact ⟨e, .inr rfl, hin⟩

theorem Authentic.init (hauth : Authentic F sid (h ++ [e])) : Authentic F sid h := by
  rintro before e' after rfl env view hin
  exact hauth before e' (after ++ [e]) (by simp) env view hin

theorem Authentic.last (hauth : Authentic F sid (h ++ [e])) {view : ContractView}
    (hin : e.input = .receiver (.receive env view)) (hsid : env.sid = some sid)
    (hv : e.before.receiver.manager.verifyMessage F env = .ok ()) :
    ∃ sent ∈ sealed sid h, SignedAlike F sent.2 env :=
  hauth h e [] rfl env view hin hsid hv

theorem Unhindered.init (hu : Unhindered sid (h ++ [e])) : Unhindered sid h :=
  fun e' he => hu e' (List.mem_append_left _ he)

/-- An envelope about the session has been handed over since the start. -/
def Relevant (sid : String) (h : List Record) (env : SecureEnvelope) : Prop :=
  env.sid = some sid → Handed h env

theorem Relevant.snoc (hr : Relevant sid h env) : Relevant sid (h ++ [e]) env :=
  fun hsid => handed_snoc.mpr (.inl (hr hsid))

/-! ## The invariant -/

/-- A sealed message is accepted under its position and opens to its payload. -/
def Carried (F : Foreign) (sid : String) (n : SessionManager) (i : ℕ)
    (sent : Bytes × SecureEnvelope) : Prop :=
  ∃ seq : UInt64, seq.toNat = i ∧ Belongs F n sid seq sent.2 ∧
    (n.openAuthenticated F sent.2).2 = .ok sent.1

/-- The receiving side of the session while it is active. -/
structure Receiving (F : Foreign) (sid : String) (n : SessionManager) (h : List Record)
    (y : Endpoint) : Prop where
  sameKeys : SameKeys sid n y.manager
  position : (delivered sid h).length = (y.windowOf sid).deliveryNext.toNat
  genuine : ∀ env, Handed h env → env.sid = some sid → n.verifyMessage F env = .ok () →
    ∃ sent ∈ sealed sid h, SignedAlike F sent.2 env
  collected : ∀ sent ∈ sealed sid h, Handed h sent.2 →
    ∃ seq, sent.2.seq = some seq ∧ (y.windowOf sid).Has seq

structure Inv (F : Foreign) (sid : String) (p₀ : Parties) (h : List Record) (p : Parties) :
    Prop where
  sender : ∀ (k : String) t, p.sender.manager.active[k]? = some t →
    Live F (fun _ => True) k p.sender t
  owner : p.sender.manager.local_ = p₀.sender.manager.local_ ∧
    p.sender.manager.identity = p₀.sender.manager.identity
  sending : ∀ t, p.sender.manager.active[sid]? = some t →
    SameKeys sid p₀.sender.manager p.sender.manager ∧ t.info.sendSeq.toNat = (sealed sid h).length
  carried : ∀ i sent, (sealed sid h)[i]? = some sent →
    Carried F sid p₀.receiver.manager i sent
  receiver : ∀ (k : String) t, p.receiver.manager.active[k]? = some t →
    Live F (Relevant sid h) k p.receiver t
  receiving : ∀ t, p.receiver.manager.active[sid]? = some t →
    Receiving F sid p₀.receiver.manager h p.receiver
  in_order : delivered sid h <+: (sealed sid h).map Prod.fst
  alive : Unhindered sid h → ∃ t, p.receiver.manager.active[sid]? = some t

variable {p₀ p : Parties} {s r t : Session}

/-- What has arrived under a number is what was sealed under it. -/
theorem Inv.arrived (hinv : Inv F sid p₀ h p) {y : Endpoint}
    (hkeys : SameKeys sid p₀.receiver.manager y.manager) {seq : UInt64}
    (hb : Belongs F y.manager sid seq env) {sent : Bytes × SecureEnvelope}
    (hsent : sent ∈ sealed sid h) (halike : SignedAlike F sent.2 env) :
    (sealed sid h)[seq.toNat]? = some sent ∧
      (y.manager.openAuthenticated F env).2 = .ok sent.1 := by
  obtain ⟨i, hi⟩ := List.mem_iff_getElem?.mp hsent
  obtain ⟨seq', rfl, hb', hopen⟩ := hinv.carried i sent hi
  have hb₀ := hb.of_sameKeys hkeys.symm
  constructor
  · have hseq : seq = seq' := Option.some.inj (by rw [← hb.seq, ← hb'.seq, halike.seq_eq])
    rw [hseq, hi]
  · rw [hkeys.openAuthenticated hb.sid, ← hopen,
      halike.openAuthenticated_eq hb'.verified hb₀.verified]

/-- Everything that has arrived opens. -/
theorem Inv.opens (hinv : Inv F sid p₀ h p) {y : Endpoint} {E : SecureEnvelope → Prop}
    (hkeys : SameKeys sid p₀.receiver.manager y.manager)
    (hgenuine : ∀ n env, Arrived F y sid E n env → ∃ sent ∈ sealed sid h, SignedAlike F sent.2 env) :
    Opens F y.manager (Arrived F y sid E) := by
  intro n env ha
  obtain ⟨sent, hsent, halike⟩ := hgenuine n env ha
  exact ⟨sent.1, (hinv.arrived hkeys ha.1 hsent halike).2⟩

/-- A batch that continues what was delivered continues what was sealed. -/
theorem Inv.extends (hinv : Inv F sid p₀ h p) {y : Endpoint} {E : SecureEnvelope → Prop}
    (hkeys : SameKeys sid p₀.receiver.manager y.manager)
    (hgenuine : ∀ n env, Arrived F y sid E n env → ∃ sent ∈ sealed sid h, SignedAlike F sent.2 env)
    {view : ContractView} {first next : UInt64} {ds : List Delivery}
    (hfirst : (delivered sid h).length = first.toNat)
    (hbatch : Batch F y.manager (Arrived F y sid E) sid view first next ds) :
    delivered sid h ++ ds.map Delivery.payload <+: (sealed sid h).map Prod.fst := by
  rw [List.prefix_iff_getElem?]
  intro i hi
  by_cases hold : i < (delivered sid h).length
  · rw [List.getElem_append_left hold]
    exact List.prefix_iff_getElem?.mp hinv.in_order i hold
  · have hi' : i - (delivered sid h).length < ds.length := by
      rw [List.length_append, List.length_map] at hi
      omega
    rw [List.getElem_append_right (Nat.not_lt.mp hold), List.getElem_map]
    obtain ⟨env, hdelivers⟩ := hbatch.each _ (List.getElem_mem hi')
    obtain ⟨sent, hsent, halike⟩ := hgenuine _ _ hdelivers.held
    obtain ⟨hpos, hopen⟩ := hinv.arrived hkeys hdelivers.held.1 hsent halike
    have hseq : (ds[i - (delivered sid h).length]).seq.toNat = i := by
      have hseqs := congrArg (fun l => l[i - (delivered sid h).length]?) hbatch.seqs
      simp only [List.getElem?_map, List.getElem?_eq_getElem hi', Option.map_some,
        List.getElem?_range' hi', Option.some.injEq] at hseqs
      omega
    rw [hseq] at hpos
    rw [List.getElem?_map, hpos, Option.map_some, Option.some.injEq]
    exact Except.ok.inj (hopen.symm.trans hdelivers.opened)

theorem deliveredIn_call {x : Endpoint} {E : SecureEnvelope → Prop}
    (hlive : ∀ (k : String) s, x.manager.active[k]? = some s → Live F E k x s) (c : Call)
    (hE : ∀ env view, c = .receive env view → E env) :
    deliveredIn sid (x.call F c).2 = ((x.call F c).2.deliveriesOf sid).map Delivery.payload := by
  have hab {report : ReceiveReport} (hreport : (x.call F c).2 = .reported report) :=
    call_aborted hlive c hE hreport
  cases hreply : (x.call F c).2 with
  | sealed sealing => rfl
  | closed result => rfl
  | silent => rfl
  | reported report =>
    by_cases haborted : report.aborted = none
    · simp only [deliveredIn, if_pos haborted]
      rfl
    · simp only [deliveredIn, if_neg haborted]
      change [] = (report.delivered.filter _).map _
      rw [hab hreply haborted]
      rfl

/-! ## The receiver is called -/

abbrev received (F : Foreign) (p : Parties) (c : Call) (h : List Record) : List Record :=
  h ++ [(machine F).event p (.receiver c)]

theorem sealed_received (c : Call) : sealed sid (received F p c h) = sealed sid h := by
  rw [sealed_snoc]
  exact List.append_nil _

theorem Inv.receiverLive (hinv : Inv F sid p₀ h p) (c : Call) (k : String) (t : Session)
    (ht : p.receiver.manager.active[k]? = some t) :
    Live F (Relevant sid (received F p c h)) k p.receiver t :=
  (hinv.receiver k t ht).mono fun _ => Relevant.snoc

theorem relevant_call (c : Call) (env : SecureEnvelope) (view : ContractView)
    (hc : c = .receive env view) : Relevant sid (received F p c h) env :=
  fun _ => handed_snoc.mpr (.inr ⟨view, hc ▸ rfl⟩)

/-- Whatever was handed over and verifies was sealed, the latest envelope included. -/
theorem Inv.genuine_received (hinv : Inv F sid p₀ h p) {c : Call}
    (hauth : Authentic F sid (received F p c h)) (ht : p.receiver.manager.active[sid]? = some t)
    (hhanded : Handed (received F p c h) env) (hsid : env.sid = some sid)
    (hv : p.receiver.manager.verifyMessage F env = .ok ()) :
    ∃ sent ∈ sealed sid h, SignedAlike F sent.2 env := by
  have hreceiving := hinv.receiving t ht
  rcases handed_snoc.mp hhanded with hold | ⟨view, hnew⟩
  · apply hreceiving.genuine env hold hsid
    rw [← hreceiving.sameKeys.verifyMessage hsid, hv]
  · exact hauth.last hnew hsid hv

theorem Inv.genuine_arrived (hinv : Inv F sid p₀ h p) {c : Call}
    (hauth : Authentic F sid (received F p c h)) (ht : p.receiver.manager.active[sid]? = some t)
    {seq : UInt64} (ha : Arrived F p.receiver sid (Relevant sid (received F p c h)) seq env) :
    ∃ sent ∈ sealed sid h, SignedAlike F sent.2 env :=
  hinv.genuine_received hauth ht (ha.2 ha.1.sid) ha.1.sid ha.1.verified

theorem Inv.receiver_moves (hinv : Inv F sid p₀ h p) (c : Call) (k : String) :
    Moves F (Relevant sid (received F p c h)) k p.receiver (p.receiver.call F c).1
      ((p.receiver.call F c).2.deliveriesOf k) ((p.receiver.call F c).2.encryptionsOf k) :=
  call_moves (hinv.receiverLive c) c (relevant_call c) k

theorem Inv.delivered_received (hinv : Inv F sid p₀ h p) (c : Call) :
    delivered sid (received F p c h) =
      delivered sid h ++ ((p.receiver.call F c).2.deliveriesOf sid).map Delivery.payload := by
  rw [delivered_snoc, ← deliveredIn_call (hinv.receiverLive c) c (relevant_call c)]
  rfl

theorem Inv.receiver_before (hinv : Inv F sid p₀ h p) {c : Call}
    (ht : (p.receiver.call F c).1.manager.active[sid]? = some t) :
    ∃ s, p.receiver.manager.active[sid]? = some s := by
  cases hs : p.receiver.manager.active[sid]? with
  | none => simp [(hinv.receiver_moves c sid).inactive hs] at ht
  | some s => exact ⟨s, rfl⟩

/-- A sealed message that was handed over is kept, also if the call hands it over. -/
theorem Inv.collected_received (hinv : Inv F sid p₀ h p) {c : Call}
    (hauth : Authentic F sid (received F p c h)) (hs : p.receiver.manager.active[sid]? = some s)
    (ht : (p.receiver.call F c).1.manager.active[sid]? = some t) {sent : Bytes × SecureEnvelope}
    (hsent : sent ∈ sealed sid h) (hhanded : Handed (received F p c h) sent.2) :
    ∃ seq, sent.2.seq = some seq ∧ ((p.receiver.call F c).1.windowOf sid).Has seq := by
  have hreceiving := hinv.receiving s hs
  have hopens := hinv.opens hreceiving.sameKeys fun _ _ => hinv.genuine_arrived hauth hs
  rcases handed_snoc.mp hhanded with hold | ⟨view, hnew⟩
  · obtain ⟨seq, hseq, hhas⟩ := hreceiving.collected sent hsent hold
    exact ⟨seq, hseq, (hinv.receiver_moves c sid).keeps ht hopens seq hhas⟩
  · obtain rfl : c = .receive sent.2 view := by simpa [Machine.event] using hnew
    obtain ⟨i, hi⟩ := List.mem_iff_getElem?.mp hsent
    obtain ⟨seq, -, hb, -⟩ := hinv.carried i sent hi
    refine ⟨seq, hb.seq, ?_⟩
    have hreported := receive_reported (hinv.receiverLive _ sid s hs)
      (hb.of_sameKeys hreceiving.sameKeys) (relevant_call (p := p) (h := h) _ _ view rfl) view
    change (p.receiver.receive F sent.2 view).1.manager.active[sid]? = some t at ht
    change ((p.receiver.receive F sent.2 view).1.windowOf sid).Has seq
    generalize p.receiver.receive F sent.2 view = result at hreported ht ⊢
    cases hreported with
    | ended hab => simp [hab.gone.session] at ht
    | live _ _ _ _ _ _ _ hpost => exact hpost hopens

theorem Inv.receiving_received (hinv : Inv F sid p₀ h p) {c : Call}
    (hauth : Authentic F sid (received F p c h))
    (ht : (p.receiver.call F c).1.manager.active[sid]? = some t) :
    Receiving F sid p₀.receiver.manager (received F p c h) (p.receiver.call F c).1 := by
  obtain ⟨s, hs⟩ := hinv.receiver_before ht
  obtain ⟨hkeys, hposition, -, -⟩ := hinv.receiving s hs
  have hmoves := hinv.receiver_moves c sid
  constructor
  case sameKeys => exact hkeys.trans (hmoves.sameKeys ht)
  case position =>
    obtain ⟨view, hbatch⟩ := hmoves.batch ht
    rw [hinv.delivered_received, List.length_append, List.length_map, hposition]
    exact hbatch.next.symm
  case genuine =>
    intro env hhanded hsid hv
    rw [sealed_received]
    apply hinv.genuine_received hauth hs hhanded hsid
    rw [hkeys.verifyMessage hsid, hv]
  case collected =>
    intro sent hsent hhanded
    rw [sealed_received] at hsent
    exact hinv.collected_received hauth hs ht hsent hhanded

theorem Inv.in_order_received (hinv : Inv F sid p₀ h p) {c : Call}
    (hauth : Authentic F sid (received F p c h)) :
    delivered sid (received F p c h) <+: (sealed sid (received F p c h)).map Prod.fst := by
  rw [sealed_received, hinv.delivered_received]
  cases ht : (p.receiver.call F c).1.manager.active[sid]? with
  | none =>
    rw [(hinv.receiver_moves c sid).undelivered ht, List.map_nil, List.append_nil]
    exact hinv.in_order
  | some t =>
    obtain ⟨s, hs⟩ := hinv.receiver_before ht
    obtain ⟨view, hbatch⟩ := (hinv.receiver_moves c sid).batch ht
    have hreceiving := hinv.receiving s hs
    exact hinv.extends hreceiving.sameKeys (fun _ _ => hinv.genuine_arrived hauth hs)
      hreceiving.position hbatch

theorem Inv.receiver_step (hinv : Inv F sid p₀ h p) (c : Call)
    (hauth : Authentic F sid (received F p c h)) :
    Inv F sid p₀ (received F p c h) ((machine F).step p (.receiver c)).1 := by
  constructor
  case sender => exact hinv.sender
  case owner => exact hinv.owner
  case sending =>
    rw [sealed_received]
    exact hinv.sending
  case carried =>
    rw [sealed_received]
    exact hinv.carried
  case receiver =>
    exact fun k t ht => (hinv.receiver_moves c k).live (hinv.receiverLive c k) ht
  case receiving => exact fun t ht => hinv.receiving_received hauth ht
  case in_order => exact hinv.in_order_received hauth
  case alive =>
    intro hu
    obtain ⟨t, ht⟩ := hinv.alive hu.init
    obtain ⟨hspares, hab⟩ := hu _ (List.mem_append_right _ List.mem_cons_self) c rfl
    exact call_spares (hinv.receiverLive c) c (relevant_call c) hspares hab ht

/-! ## The sender is called -/

/-- What a call of the sender seals for the session: nothing, and the number to send stays, or
one message under that number. -/
theorem sealedIn_call (sid : String) {x : Endpoint} {E : SecureEnvelope → Prop}
    (hlive : ∀ (k : String) s, x.manager.active[k]? = some s → Live F E k x s) (c : Call)
    (hE : ∀ env view, c = .receive env view → E env) :
    (sealedIn sid c (x.call F c).2 = none ∧
      ∀ t, (x.call F c).1.manager.active[sid]? = some t →
        ∃ s, x.manager.active[sid]? = some s ∧ t.info.sendSeq = s.info.sendSeq) ∨
    ∃ s contract payload env, x.manager.active[sid]? = some s ∧ s.info.sendSeq ≠ u64Max ∧
      Emits F x.manager s sid contract payload env ∧
      sealedIn sid c (x.call F c).2 = some (payload, env) ∧
      (x.call F c).1.manager.active[sid]? =
        some { s with info.sendSeq := s.info.sendSeq + 1 } := by
  have hcalled := call_called hlive c hE
  have hmoves := call_moves hlive c hE sid
  generalize x.call F c = result at hcalled hmoves ⊢
  cases hcalled with
  | unknown => exact .inl ⟨rfl, fun t ht => hmoves.unspent ht⟩
  | rejected => exact .inl ⟨by cases c <;> rfl, fun t ht => hmoves.unspent ht⟩
  | reported => exact .inl ⟨by cases c <;> rfl, fun t ht => hmoves.unspent ht⟩
  | closed => exact .inl ⟨rfl, fun t ht => hmoves.unspent ht⟩
  | @sealed k contract payload view s result hs hsealed =>
    by_cases hk : k = sid
    · subst hk
      cases hsealed with
      | ended _ hgone => exact .inl ⟨rfl, fun t ht => by simp [hgone] at ht⟩
      | refused => exact .inl ⟨rfl, fun t ht => hmoves.unspent ht⟩
      | sent _ hlive' hmax _ _ hemits =>
        exact .inr ⟨s, contract, payload, _, hs, hmax, hemits, if_pos rfl, hlive'.session⟩
    · have hnone : (Reply.sealed result.2).encryptionsOf sid = [] := by
        refine List.filter_eq_nil_iff.mpr fun enc henc => ?_
        simpa [hsealed.sid_eq enc (Option.mem_toList.mp henc)] using hk
      rw [hnone] at hmoves
      refine .inl ⟨?_, fun t ht => hmoves.unspent ht⟩
      rcases result with ⟨y, ⟨encrypted, _ | env⟩⟩
      · rfl
      · exact if_neg hk

abbrev sent (F : Foreign) (p : Parties) (c : Call) (h : List Record) : List Record :=
  h ++ [(machine F).event p (.sender c)]

theorem handed_sent {c : Call} : Handed (sent F p c h) env ↔ Handed h env := by
  rw [handed_snoc]
  simp [Machine.event]

theorem delivered_sent (c : Call) : delivered sid (sent F p c h) = delivered sid h := by
  rw [delivered_snoc]
  exact List.append_nil _

/-- The sender's session is matched by the receiver's as long as it is active. -/
theorem Inv.matched (hinv : Inv F sid p₀ h p)
    (hm : Matched F sid p₀.sender.manager p₀.receiver.manager s r)
    (ht : p.sender.manager.active[sid]? = some t) :
    Matched F sid p.sender.manager p₀.receiver.manager t r := by
  obtain ⟨hkeys, -⟩ := hinv.sending t ht
  rcases hkeys.cases with ⟨hnone, -⟩ | ⟨s', t', hs', ht', hcred⟩
  · simp [hm.sender] at hnone
  · obtain rfl := Option.some.inj (hm.sender.symm.trans hs')
    obtain rfl := Option.some.inj (ht.symm.trans ht')
    simp only [Session.credentials, Prod.mk.injEq] at hcred
    obtain ⟨hk, -, hinitiator, hpeer⟩ := hcred
    refine ⟨ht, hm.receiver, ?_, ?_, ?_, ?_⟩
    · rw [hk, hinitiator, hm.key]
    · rw [hm.from_, hinv.owner.1]
    · rw [hpeer, hm.to_]
    · rw [hinv.owner.2]
      exact hm.pin

/-- A message sealed by the call has a new number, so nothing handed over before is it. -/
theorem Inv.sealed_before (hinv : Inv F sid p₀ h p) {c : Call}
    {l : List (Bytes × SecureEnvelope)} (hsealed : sealed sid (sent F p c h) = sealed sid h ++ l)
    (hcarried : ∀ i m, (sealed sid (sent F p c h))[i]? = some m →
      Carried F sid p₀.receiver.manager i m)
    (ht : p.receiver.manager.active[sid]? = some t) {m : Bytes × SecureEnvelope}
    (hm : m ∈ sealed sid (sent F p c h)) (hhanded : Handed h m.2) : m ∈ sealed sid h := by
  obtain ⟨i, hi⟩ := List.mem_iff_getElem?.mp hm
  obtain ⟨seq, rfl, hb, -⟩ := hcarried i m hi
  obtain ⟨old, hold, halike⟩ := (hinv.receiving t ht).genuine _ hhanded hb.sid hb.verified
  have hpos := (hinv.arrived (SameKeys.refl sid _) hb hold halike).1
  obtain ⟨hlt, -⟩ := List.getElem?_eq_some_iff.mp hpos
  rw [hsealed, List.getElem?_append_left hlt] at hi
  exact List.mem_of_getElem? hi

/-- A call of the sender keeps the invariant if what it seals is carried under its number. -/
theorem Inv.of_sent (hinv : Inv F sid p₀ h p) {c : Call} {l : List (Bytes × SecureEnvelope)}
    (hsealed : sealed sid (sent F p c h) = sealed sid h ++ l)
    (hsending : ∀ t, (p.sender.call F c).1.manager.active[sid]? = some t →
      SameKeys sid p₀.sender.manager (p.sender.call F c).1.manager ∧
        t.info.sendSeq.toNat = (sealed sid (sent F p c h)).length)
    (hcarried : ∀ i m, (sealed sid (sent F p c h))[i]? = some m →
      Carried F sid p₀.receiver.manager i m) :
    Inv F sid p₀ (sent F p c h) ((machine F).step p (.sender c)).1 := by
  have howner := call_owner hinv.sender c fun _ _ _ => trivial
  have hmono (m : Bytes × SecureEnvelope) (hm : m ∈ sealed sid h) :
      m ∈ sealed sid (sent F p c h) := by
    rw [hsealed]
    exact List.mem_append_left _ hm
  constructor
  case sender =>
    intro k t ht
    exact (call_moves hinv.sender c (fun _ _ _ => trivial) k).live (hinv.sender k) ht
  case owner => exact ⟨howner.1.trans hinv.owner.1, howner.2.trans hinv.owner.2⟩
  case sending => exact hsending
  case carried => exact hcarried
  case receiver => exact fun k t ht => (hinv.receiver k t ht).mono fun _ => Relevant.snoc
  case receiving =>
    intro t ht
    obtain ⟨hkeys, hposition, hgenuine, hcollected⟩ := hinv.receiving t ht
    refine ⟨hkeys, ?_, ?_, ?_⟩
    · rw [delivered_sent]
      exact hposition
    · intro env hhanded hsid hv
      obtain ⟨m, hm, halike⟩ := hgenuine env (handed_sent.mp hhanded) hsid hv
      exact ⟨m, hmono m hm, halike⟩
    · intro m hm hhanded
      have hhanded' := handed_sent.mp hhanded
      exact hcollected m (hinv.sealed_before hsealed hcarried ht hm hhanded') hhanded'
  case in_order =>
    rw [delivered_sent, hsealed, List.map_append]
    exact hinv.in_order.trans (List.prefix_append _ _)
  case alive => exact fun hu => hinv.alive hu.init

theorem Inv.sender_step (hinv : Inv F sid p₀ h p)
    (hm : Matched F sid p₀.sender.manager p₀.receiver.manager s r) (hdecrypts : Decrypts F)
    (c : Call) : Inv F sid p₀ (sent F p c h) ((machine F).step p (.sender c)).1 := by
  have hmoves := call_moves hinv.sender c (fun _ _ _ => trivial) sid
  have hsealed : sealed sid (sent F p c h) = sealed sid h ++
      (sealedIn sid c (p.sender.call F c).2).toList := sealed_snoc
  refine hinv.of_sent hsealed ?_ ?_
  all_goals
    rcases sealedIn_call sid hinv.sender c (fun _ _ _ => trivial) with
      ⟨hnone, hunspent⟩ | ⟨t, contract, payload, env, ht, hmax, hemits, hsome, hnext⟩
  · rw [hsealed, hnone, Option.toList_none, List.append_nil]
    intro t' ht'
    obtain ⟨t, ht, hseq⟩ := hunspent t' ht'
    obtain ⟨hkeys, hlength⟩ := hinv.sending t ht
    rw [hseq]
    exact ⟨hkeys.trans (hmoves.sameKeys ht'), hlength⟩
  · rw [hsealed, hsome, Option.toList_some]
    intro t' ht'
    obtain ⟨hkeys, hlength⟩ := hinv.sending t ht
    obtain rfl := Option.some.inj (hnext.symm.trans ht')
    refine ⟨hkeys.trans (hmoves.sameKeys ht'), ?_⟩
    rw [List.length_append, List.length_singleton, ← hlength]
    exact toNat_succ hmax
  · rw [hsealed, hnone, Option.toList_none, List.append_nil]
    exact hinv.carried
  · rw [hsealed, hsome, Option.toList_some]
    intro i m hi
    by_cases hlt : i < (sealed sid h).length
    · rw [List.getElem?_append_left hlt] at hi
      exact hinv.carried i m hi
    · obtain ⟨hb, hopen⟩ := hemits.arrives (hinv.matched hm ht) hdecrypts hmax
      obtain ⟨-, hlength⟩ := hinv.sending t ht
      rw [List.getElem?_append_right (Nat.not_lt.mp hlt), List.getElem?_singleton] at hi
      split at hi
      · next hzero =>
        obtain rfl := Option.some.inj hi
        exact ⟨t.info.sendSeq, by omega, hb, hopen⟩
      · cases hi

/-! ## Runs -/

theorem Start.live {x : Endpoint} (hrun : ∃ local_ identity inputs, FreshIds inputs ∧
    x = reached F local_ identity inputs) (k : String) (t : Session)
    (ht : x.manager.active[k]? = some t) : ∃ E, Live F E k x t := by
  obtain ⟨local_, identity, inputs, hfresh, rfl⟩ := hrun
  exact ⟨_, ((run_inv F local_ identity inputs hfresh).track k).live t ht⟩

theorem Start.inv (hstart : Start F sid p₀ s r) : Inv F sid p₀ [] p₀ where
  sender k t ht := by
    obtain ⟨E, hlive⟩ := Start.live hstart.senderRun k t ht
    exact hlive.mono fun _ _ => trivial
  owner := ⟨rfl, rfl⟩
  sending t ht := by
    obtain rfl := Option.some.inj (hstart.matched.sender.symm.trans ht)
    refine ⟨.refl sid _, ?_⟩
    rw [hstart.unsent]
    rfl
  carried i m hi := by simp [sealed] at hi
  receiver k t ht := by
    obtain ⟨E, hlive⟩ := Start.live hstart.receiverRun k t ht
    refine { hlive with sound := { hlive.sound with own := fun n env he => ?_ } }
    obtain ⟨hb, -⟩ := hlive.sound.own n env he
    refine ⟨hb, fun hsid => ?_⟩
    obtain rfl : k = sid := Option.some.inj (hb.sid.symm.trans hsid)
    rw [hstart.unreceived.2] at he
    simp at he
  receiving t ht := by
    obtain ⟨E, hlive⟩ := Start.live hstart.receiverRun sid t ht
    have hnext : (p₀.receiver.windowOf sid).next = 0 := by
      rw [next, hstart.unreceived.1]
    have hposition := hlive.sound.position
    rw [hnext, UInt64.le_iff_toNat_le] at hposition
    refine ⟨.refl sid _, ?_, ?_, ?_⟩
    · exact (Nat.le_zero.mp hposition).symm
    · rintro env ⟨e, he, -⟩
      simp at he
    · intro m hm
      simp [sealed] at hm
  in_order := List.nil_prefix
  alive _ := ⟨r, hstart.matched.receiver⟩

theorem history_inv (hstart : Start F sid p₀ s r) (hdecrypts : Decrypts F)
    (actions : List Action) (hauth : Authentic F sid ((machine F).history p₀ actions)) :
    Inv F sid p₀ ((machine F).history p₀ actions) ((machine F).exec p₀ actions) := by
  refine Machine.history_invariant (M := machine F) (s := p₀)
    (I := fun h p => Authentic F sid h → Inv F sid p₀ h p) ?_ ?_ actions hauth
  · exact fun _ => hstart.inv
  · intro is i ih hauth'
    have hinv := ih hauth'.init
    cases i with
    | sender c => exact hinv.sender_step hstart.matched hdecrypts c
    | receiver c => exact hinv.receiver_step c hauth'

/-- When every sealed envelope has been handed over and nothing more can be delivered under a view
that accepts all their bindings, everything sealed is delivered. -/
theorem Inv.complete (hinv : Inv F sid p₀ h p) (ht : p.receiver.manager.active[sid]? = some t)
    {view : ContractView} (hhanded : ∀ m ∈ sealed sid h, Handed h m.2)
    (haccepts : ∀ m ∈ sealed sid h, view.check F m.2.contract = .ok ())
    (hstalled : (p.receiver.windowOf sid).Stalled F view) :
    delivered sid h = (sealed sid h).map Prod.fst := by
  have hlive := hinv.receiver sid t ht
  obtain ⟨hkeys, hposition, hgenuine, hcollected⟩ := hinv.receiving t ht
  have hreached : ¬(p.receiver.windowOf sid).deliveryNext < (p.receiver.windowOf sid).next := by
    rcases hstalled with hreached | ⟨env, henv, hpending⟩
    · exact hreached
    · obtain ⟨hb, hrelevant⟩ := hlive.sound.own _ _ henv
      have hverified := (hb.of_sameKeys hkeys.symm).verified
      obtain ⟨m, hm, halike⟩ := hgenuine env (hrelevant hb.sid) hb.sid hverified
      have haccept := haccepts m hm
      rw [halike.contract_eq, hpending] at haccept
      cases haccept
  have hnext : (sealed sid h).length ≤ (p.receiver.windowOf sid).next.toNat := by
    by_contra hlt
    have hget := List.getElem?_eq_getElem (Nat.not_le.mp hlt)
    have hm := List.getElem_mem (Nat.not_le.mp hlt)
    obtain ⟨seq, hseq, hb, -⟩ := hinv.carried _ _ hget
    obtain ⟨seq', hseq', hhas⟩ := hcollected _ hm (hhanded _ hm)
    obtain rfl : seq' = seq := Option.some.inj (hseq'.symm.trans hb.seq)
    obtain rfl := UInt64.toNat_inj.mp hseq
    rcases hhas with hlt' | hheld
    · exact UInt64.lt_irrefl _ hlt'
    · exact hlive.settled hheld
  apply hinv.in_order.eq_of_length_le
  rw [List.length_map, hposition]
  rw [UInt64.lt_iff_toNat_lt] at hreached
  omega

/-- However the two endpoints are called and whatever the network does, the payloads delivered are
at every point a prefix of the payloads sealed. If every envelope has been received, no call of
the receiver ended the session and a last observation accepts all bindings, they are all. -/
theorem payloads_delivered_in_order (hstart : Start F sid p₀ s r) (hdecrypts : Decrypts F)
    (actions : List Action) (hauth : Authentic F sid ((machine F).history p₀ actions)) :
    (∀ pre, pre <+: actions →
      delivered sid ((machine F).history p₀ pre) <+:
        (sealed sid ((machine F).history p₀ pre)).map Prod.fst) ∧
    ∀ init view, actions = init ++ [.receiver (.observe sid view)] →
      Unhindered sid ((machine F).history p₀ actions) →
      (∀ m ∈ sealed sid ((machine F).history p₀ actions),
        Handed ((machine F).history p₀ actions) m.2) →
      (∀ m ∈ sealed sid ((machine F).history p₀ actions), view.check F m.2.contract = .ok ()) →
      delivered sid ((machine F).history p₀ actions) =
        (sealed sid ((machine F).history p₀ actions)).map Prod.fst := by
  constructor
  · rintro pre ⟨post, rfl⟩
    refine (history_inv hstart hdecrypts pre ?_).in_order
    rw [Machine.history_append] at hauth
    rintro before e after heq
    exact hauth before e _ (by rw [heq, List.append_assoc, List.cons_append])
  · rintro init view rfl hu hhanded haccepts
    have hinv := history_inv hstart hdecrypts _ hauth
    rw [Machine.history_snoc] at hauth hu hhanded haccepts hinv ⊢
    rw [Machine.exec_snoc] at hinv
    have hinv₀ := history_inv hstart hdecrypts init hauth.init
    obtain ⟨t, ht⟩ := hinv.alive hu
    refine hinv.complete ht hhanded haccepts ?_
    cases ht₀ : ((machine F).exec p₀ init).receiver.manager.active[sid]? with
    | none =>
      obtain ⟨t₀, ht₀'⟩ := hinv₀.alive hu.init
      simp [ht₀] at ht₀'
    | some t₀ =>
      have hreported := observe_reported (hinv₀.receiver sid t₀ ht₀) view
      change (((machine F).exec p₀ init).receiver.observe F sid view).1.manager.active[sid]? =
        some t at ht
      change ((((machine F).exec p₀ init).receiver.observe F sid view).1.windowOf sid).Stalled F view
      generalize ((machine F).exec p₀ init).receiver.observe F sid view = result
        at hreported ht ⊢
      cases hreported with
      | ended hab => simp [hab.gone.session] at ht
      | live _ _ _ _ _ _ _ hpost => exact hpost

end History

/-! ## The envelope of the crate's golden test -/

namespace Golden

def sid : String := "90a4477ca226f4f1c9091dbd19ff8134"

def publicKey : Vector UInt8 32 := #v[
    138, 136, 227, 221, 116, 9, 241, 149, 253, 82, 219, 45, 60, 186, 93, 114, 202, 103, 9, 191,
    29, 148, 18, 27, 243, 116, 136, 1, 180, 15, 111, 92]

def keys : SessionKeys where
  i2r := #v[
    41, 226, 179, 150, 185, 228, 158, 24, 32, 194, 210, 195, 96, 129, 162, 87, 90, 197, 226,
    195, 57, 205, 74, 219, 112, 127, 188, 87, 81, 222, 13, 7]
  r2i := #v[
    202, 25, 23, 122, 68, 43, 231, 110, 119, 21, 79, 86, 32, 126, 145, 151, 230, 83, 12, 137,
    100, 29, 223, 232, 67, 249, 81, 23, 10, 166, 163, 233]

def payload : Bytes := asBytes "golden payload"

def signature : Vector UInt8 64 := #v[
    144, 121, 160, 249, 86, 214, 23, 200, 96, 248, 226, 129, 242, 134, 179, 223, 20, 99, 110,
    181, 147, 151, 25, 88, 145, 206, 26, 233, 21, 101, 217, 154, 220, 184, 191, 37, 14, 175,
    127, 146, 189, 139, 80, 149, 242, 25, 47, 235, 176, 154, 99, 35, 162, 82, 227, 39, 7, 138,
    181, 46, 11, 125, 95, 8]

def ct : Bytes := [
    123, 85, 78, 134, 233, 63, 227, 207, 23, 14, 48, 33, 65, 242, 166, 100, 231, 144, 243, 62,
    60, 206, 46, 168, 31, 59, 5, 86, 173, 116]

def env : SecureEnvelope where
  v := 1
  kind := .msg
  from_ := "urn:hacp:agent:a"
  to_ := "urn:hacp:agent:b"
  contract := ""
  sid := some sid
  seq := some 0
  epub := none
  nonce := none
  sig := some (encodeHex signature.toList)
  ct := some (encodeHex ct)
  ts := none

/-- Agrees with the real functions on the golden message; elsewhere the cipher only pads. -/
def foreign : Foreign where
  sha256 _ := List.replicate 32 0
  naiveDateTime _ := true
  rfc3339 _ := true
  sign _ _ := signature
  verifyStrict pk _ sig := pk == publicKey && sig == signature
  encrypt key nonce _ pt :=
    if key = keys.i2r ∧ nonce = nonce96 0 ∧ pt = payload then some ct
    else some (pt ++ List.replicate 16 0)
  decrypt key nonce _ bytes :=
    if key = keys.i2r ∧ nonce = nonce96 0 ∧ bytes = ct then some payload
    else some (bytes.take (bytes.length - 16))

def initiator : Session :=
  ⟨⟨sid, "urn:hacp:agent:b", "urn:hacp:agent:a", "s-golden", .established, 0⟩, keys, publicKey, true⟩

def responder : Session :=
  ⟨⟨sid, "urn:hacp:agent:a", "urn:hacp:agent:b", "s-golden", .ackSent, 0⟩, keys, publicKey, false⟩

theorem decrypts : Decrypts foreign := by
  intro key nonce header pt c h
  by_cases hg : key = keys.i2r ∧ nonce = nonce96 0 ∧ pt = payload
  · obtain rfl : ct = c := Option.some.inj ((if_pos hg).symm.trans h)
    simp [foreign, hg]
  · obtain rfl : pt ++ List.replicate 16 0 = c := Option.some.inj ((if_neg hg).symm.trans h)
    have hlast : (pt ++ List.replicate 16 (0 : UInt8)).getLast? = some 0 := by
      simp [List.getLast?_append]
    have hct : pt ++ List.replicate 16 0 ≠ ct := by
      intro heq
      rw [heq] at hlast
      exact absurd hlast (by decide)
    refine (if_neg fun h => hct h.2.2).trans ?_
    simp

def parties : Channel.Parties where
  sender := reached foreign "urn:hacp:agent:a" (.replicate 32 1) [.establish initiator]
  receiver := reached foreign "urn:hacp:agent:b" (.replicate 32 2) [.establish responder]

def actions : List Action :=
  [.sender (.seal_ sid "" payload .bootstrap), .receiver (.receive env .bootstrap),
   .receiver (.observe sid .bootstrap)]

theorem start : Start foreign sid parties initiator responder where
  senderRun := ⟨_, _, _, by decide, rfl⟩
  receiverRun := ⟨_, _, _, by decide, rfl⟩
  matched := ⟨(active_put _).trans (if_pos rfl), (active_put _).trans (if_pos rfl), rfl, rfl, rfl,
    fun _ => rfl⟩
  unsent := rfl
  unreceived := ⟨rfl, rfl⟩

/-- The envelope is sealed, its signed bytes are read, and nothing aborts. -/
theorem runs : sealed sid ((machine foreign).history parties (actions.take 1)) = [(payload, env)] ∧
    (env.messageSigningInput foreign).isOk ∧
    ((machine foreign).history parties actions).all fun e =>
      match e.output with
      | .reported report => report.aborted = none
      | _ => true := by
  decide +kernel

theorem authentic : Authentic foreign sid ((machine foreign).history parties actions) := by
  rintro before e after heq env' view hin - -
  have hinputs := congrArg (List.map Event.input) heq
  rw [Machine.history_inputs, List.map_append, List.map_cons, hin] at hinputs
  rcases before with _ | ⟨e₀, _ | ⟨e₁, _ | ⟨e₂, before⟩⟩⟩
  · simp [actions] at hinputs
  · obtain ⟨-, ⟨rfl, -⟩, -⟩ := by simpa [actions] using hinputs
    obtain rfl := (List.cons.inj heq).1
    refine ⟨(payload, env), ?_, ?_⟩
    · exact runs.1 ▸ List.mem_cons_self
    · have hok := runs.2.1
      obtain ⟨signed, hsigned⟩ : ∃ signed, env.messageSigningInput foreign = .ok signed := by
        cases hsigned : env.messageSigningInput foreign with
        | ok signed => exact ⟨signed, rfl⟩
        | error e => simp [hsigned, Except.isOk, Except.toBool] at hok
      exact ⟨signed, hsigned, hsigned⟩
  · simp [actions] at hinputs
  · simp [actions] at hinputs

theorem unhindered : Unhindered sid ((machine foreign).history parties actions) := by
  intro e he c hc
  have hinput := List.mem_map_of_mem (f := Event.input) he
  rw [Machine.history_inputs, hc] at hinput
  refine ⟨?_, fun report hreport => ?_⟩
  · rcases hinput with _ | ⟨_, _ | ⟨_, _ | ⟨_, ⟨⟩⟩⟩⟩
    · trivial
    · trivial
  · have hnone := List.all_eq_true.mp runs.2.2 e he
    simpa [hreport] using hnone

end Golden

theorem payloads_delivered_golden :
    delivered Golden.sid ((machine Golden.foreign).history Golden.parties Golden.actions) =
      [Golden.payload] := by
  have hsealed : sealed Golden.sid ((machine Golden.foreign).history Golden.parties
      Golden.actions) = [(Golden.payload, Golden.env)] := by
    have hactions : Golden.actions = Golden.actions.take 1 ++ [.receiver (.receive Golden.env
      .bootstrap)] ++ [.receiver (.observe Golden.sid .bootstrap)] := rfl
    rw [hactions, Machine.history_snoc, sealed_received, Machine.history_snoc, sealed_received]
    exact Golden.runs.1
  have hall := (payloads_delivered_in_order Golden.start Golden.decrypts Golden.actions
    Golden.authentic).2 (Golden.actions.take 2) .bootstrap rfl Golden.unhindered
  rw [hsealed] at hall
  apply hall
  · intro m hm
    rw [List.mem_singleton.mp hm]
    exact ⟨_, List.mem_cons_of_mem _ List.mem_cons_self, _, rfl⟩
  · intro m hm
    rw [List.mem_singleton.mp hm]
    rfl

end Channel
end Hacp.Secure
