import Hacp.Secure.TransportRun

/-!
# What holds of every run

Sessions are told apart by their identifiers, and no identifier is established twice.
For each of them the delivered numbers are an initial segment, every delivery was
checked by the call that made it, the two send counters agree, and no number is
encrypted under twice.
-/
namespace Hacp.Secure
open Lib Std SessionManager Window

abbrev History := List (Event Endpoint Input Reply)

namespace History

def deliveriesOf (h : History) (sid : String) : List Delivery :=
  h.flatMap fun e => e.output.deliveriesOf sid

def encryptionsOf (h : History) (sid : String) : List Encryption :=
  h.flatMap fun e => e.output.encryptionsOf sid

def Received (h : History) (env : SecureEnvelope) : Prop :=
  ∃ e ∈ h, ∃ view, e.input = .call (.receive env view)

end History

def Input.established : Input → Option String
  | .establish s => some s.info.sid
  | .call _ | .evict _ => none

/-- No session identifier is established twice. -/
def FreshIds (inputs : List Input) : Prop := (inputs.filterMap Input.established).Nodup

instance (inputs : List Input) : Decidable (FreshIds inputs) :=
  inferInstanceAs (Decidable (List.Nodup _))

/-- The numbers encrypted under for one session: one key, increasing, below `bound`. -/
structure Tally (sid : String) (key : Vector UInt8 32) (bound : UInt64)
    (encs : List Encryption) : Prop where
  ascending : encs.Pairwise fun a b => a.seq < b.seq
  each : ∀ e ∈ encs, e.sid = sid ∧ e.key = key ∧ e.seq < bound

theorem Tally.snoc {sid : String} {key : Vector UInt8 32} {bound : UInt64}
    {encs : List Encryption} (h : Tally sid key bound encs) (hmax : bound ≠ u64Max) :
    Tally sid key (bound + 1) (encs ++ [⟨sid, key, bound⟩]) where
  ascending := by
    refine List.pairwise_append.mpr ⟨h.ascending, List.pairwise_singleton _ _, ?_⟩
    rintro e he _ (_ | ⟨_, ⟨⟩⟩)
    exact (h.each e he).2.2
  each e he := by
    rcases List.mem_append.mp he with he | he
    · obtain ⟨hsid, hkey, hlt⟩ := h.each e he
      exact ⟨hsid, hkey, (lt_succ_iff hmax).mpr (UInt64.le_of_lt hlt)⟩
    · obtain rfl := List.mem_singleton.mp he
      exact ⟨rfl, rfl, (lt_succ_iff hmax).mpr UInt64.le_rfl⟩

theorem Tally.nonces_nodup {sid : String} {key : Vector UInt8 32} {bound : UInt64}
    {encs : List Encryption}
    (h : Tally sid key bound encs) : (encs.map fun e => (e.key, e.nonce)).Nodup := by
  rw [List.Nodup, List.pairwise_map]
  apply h.ascending.imp
  intro a b hab heq
  have hseq := nonce96_injective (Prod.mk.inj heq).2
  exact UInt64.ne_of_lt hab hseq

/-! ## Sessions and messages for runs on fixed inputs -/

namespace Burst

/-- Every signature verifies, and a ciphertext is the plaintext with a tag of zeros behind it. -/
def foreign : Foreign :=
  { Foreign.placeholder with
    verifyStrict := fun _ _ _ => true
    encrypt := fun _ _ _ pt => some (pt ++ List.replicate 16 0)
    decrypt := fun _ _ _ ct =>
      if ct.drop (ct.length - 16) = List.replicate 16 0 then some (ct.take (ct.length - 16))
      else none }

/-- The tag is lost, so that an envelope with a short ciphertext fails its last check. -/
def clipped : Foreign := { foreign with encrypt := fun _ _ _ pt => some pt }

def sid : String := encodeHex (List.replicate 16 0)

def other : String := encodeHex (List.replicate 16 1)

def sig : String := encodeHex (List.replicate 64 0)

def ct : String := encodeHex (List.replicate 16 0)

def sessionOf (sid : String) : Session :=
  ⟨⟨sid, "urn:hacp:agent:b", "urn:hacp:agent:a", "s-1", .established, 0⟩,
    ⟨.replicate 32 3, .replicate 32 4⟩, .replicate 32 2, true⟩

def messageOf (sid : String) (n : UInt64) : SecureEnvelope where
  v := 1
  kind := .msg
  from_ := "urn:hacp:agent:b"
  to_ := "urn:hacp:agent:a"
  contract := ""
  sid := some sid
  seq := some n
  epub := none
  nonce := none
  sig := some sig
  ct := some ct
  ts := none

def session : Session := sessionOf sid

def message (n : UInt64) : SecureEnvelope := messageOf sid n

def letter (contract : String) (payload : Bytes) (n : UInt64) : SecureEnvelope :=
  { message n with contract := contract, ct := some (encodeHex (payload ++ List.replicate 16 0)) }

/-- Message 1 comes before message 0, which then comes again. -/
def drained : List Input :=
  .establish session :: [1, 0, 0].map fun n => .call (.receive (message n) .bootstrap)

/-- Two sessions send; the third plaintext of the first is too short for a cipher without a tag. -/
def sealings : List Input :=
  [.establish session, .establish (sessionOf other)] ++
    [(sid, 16), (other, 16), (sid, 16), (sid, 0), (sid, 16)].map fun (k, n) =>
      .call (.seal_ k "" (List.replicate n 0) .bootstrap)

/-- Two sessions, and message 1 of the first is held. -/
def shared : List Input :=
  [.establish session, .establish (sessionOf other), .call (.receive (message 1) .bootstrap)]

/-- The empty binding has been superseded. -/
def superseding : ContractView := .observed [] [""] false

end Burst

namespace Endpoint
variable {F : Foreign} {x y : Endpoint} {sid : String} {E E' : SecureEnvelope → Prop}

/-- What is known of one session after a history that delivered `ds` and encrypted `encs`. -/
structure Track (F : Foreign) (E : SecureEnvelope → Prop) (sid : String) (x : Endpoint)
    (ds : List Delivery) (encs : List Encryption) : Prop where
  live : ∀ s, x.manager.active[sid]? = some s → Live F E sid x s
  position : ∀ s, x.manager.active[sid]? = some s →
    ds.map (fun d => d.seq.toNat) = List.range (x.windowOf sid).deliveryNext.toNat
  spent : ∀ s, x.manager.active[sid]? = some s →
    Tally sid (s.keys.sendKey s.initiator) s.info.sendSeq encs
  delivered : ∃ k, ds.map (fun d => d.seq.toNat) = List.range k
  encrypted : ∃ key bound, Tally sid key bound encs

theorem Track.mono {ds : List Delivery} {encs : List Encryption} (h : Track F E sid x ds encs)
    (hE : ∀ e, E e → E' e) : Track F E' sid x ds encs :=
  { h with live := fun s hs => (h.live s hs).mono hE }

theorem Track.of_inactive {ds : List Delivery} {encs : List Encryption}
    (hs : x.manager.active[sid]? = none) (hds : ∃ k, ds.map (fun d => d.seq.toNat) = List.range k)
    (hencs : ∃ key bound, Tally sid key bound encs) : Track F E sid x ds encs := by
  refine ⟨?_, ?_, ?_, hds, hencs⟩
  all_goals
    intro s h
    rw [hs] at h
    cases h

theorem Track.of_live {s : Session} {ds : List Delivery} {encs : List Encryption}
    (h : Live F E sid x s)
    (hds : ds.map (fun d => d.seq.toNat) = List.range (x.windowOf sid).deliveryNext.toNat)
    (hencs : Tally sid (s.keys.sendKey s.initiator) s.info.sendSeq encs) :
    Track F E sid x ds encs := by
  refine ⟨?_, ?_, ?_, ⟨_, hds⟩, ⟨_, _, hencs⟩⟩
  all_goals
    intro t ht
    obtain rfl := Option.some.inj (h.session.symm.trans ht)
  · exact h
  · exact hds
  · exact hencs

theorem Batch.range {m : SessionManager} {P : UInt64 → SecureEnvelope → Prop}
    {view : ContractView} {first next : UInt64} {ds ds' : List Delivery}
    (h : Batch F m P sid view first next ds')
    (hds : ds.map (fun d => d.seq.toNat) = List.range first.toNat) :
    (ds ++ ds').map (fun d => d.seq.toNat) = List.range next.toNat := by
  rw [List.map_append, hds, h.seqs, h.next, List.range_eq_range', List.range_eq_range']
  simpa using List.range'_append_1 (s := 0) (m := first.toNat) (n := ds'.length)

/-- Each of the four moves extends what is known. -/
theorem Track.moves {ds ds' : List Delivery} {encs encs' : List Encryption}
    (h : Track F E sid x ds encs) (hm : Moves F E sid x y ds' encs') :
    Track F E sid y (ds ++ ds') (encs ++ encs') := by
  cases hm with
  | still hstill =>
    rw [List.append_nil, List.append_nil]
    cases hs : x.manager.active[sid]? with
    | none => exact .of_inactive (hstill.session.trans hs) h.delivered h.encrypted
    | some s =>
      refine .of_live (hstill.live (h.live s hs)) ?_ (h.spent s hs)
      rw [hstill.windowOf hs]
      exact h.position s hs
  | @ended s spent hs hgone hspent =>
    rw [List.append_nil]
    refine .of_inactive hgone h.delivered ?_
    cases spent with
    | none => exact (List.append_nil encs).symm ▸ h.encrypted
    | some enc =>
      obtain ⟨hmax, rfl⟩ := hspent enc rfl
      exact ⟨_, _, (h.spent s hs).snoc hmax⟩
  | @kept s t _ view hs hlive hkeys hsend hbatch _ =>
    rw [List.append_nil]
    refine .of_live hlive (hbatch.range (h.position s hs)) ?_
    rcases hkeys.cases with ⟨hnone, -⟩ | ⟨s', t', hs', ht', hcred⟩
    · rw [hs] at hnone
      cases hnone
    · obtain rfl := Option.some.inj (hs.symm.trans hs')
      obtain rfl := Option.some.inj (hlive.session.symm.trans ht')
      simp only [Session.credentials, Prod.mk.injEq] at hcred
      rw [hcred.1, hcred.2.2.1, hsend]
      exact h.spent s hs
  | @sent s hs hlive hmax _ hwindow =>
    rw [List.append_nil]
    refine .of_live hlive ?_ ((h.spent s hs).snoc hmax)
    rw [hwindow]
    exact h.position s hs

/-! ## The run invariant -/

def established (h : History) : List String := (h.map Event.input).filterMap Input.established

structure RunInv (F : Foreign) (h : History) (x : Endpoint) : Prop where
  track : ∀ sid, Track F h.Received sid x (h.deliveriesOf sid) (h.encryptionsOf sid)
  unborn : ∀ sid, sid ∉ established h → x.window sid = none ∧ x.manager.active[sid]? = none ∧
    h.deliveriesOf sid = [] ∧ h.encryptionsOf sid = []
  checked : ∀ e ∈ h, ∀ d ∈ e.output.delivered, ∃ c view env, e.input = .call c ∧
    c.view = some view ∧ Delivers F e.before.manager (Arrived F e.before d.sid h.Received) d.sid
      view d env
  in_step : ∀ e ∈ h, ∀ sealing, e.output = .sealed sealing →
    sealing.result ≠ .error .replayRejected

theorem deliveriesOf_snoc (h : History) (e : Event Endpoint Input Reply) (sid : String) :
    History.deliveriesOf (h ++ [e]) sid = h.deliveriesOf sid ++ e.output.deliveriesOf sid := by
  simp [History.deliveriesOf]

theorem encryptionsOf_snoc (h : History) (e : Event Endpoint Input Reply) (sid : String) :
    History.encryptionsOf (h ++ [e]) sid = h.encryptionsOf sid ++ e.output.encryptionsOf sid := by
  simp [History.encryptionsOf]

theorem received_snoc {h : History} {env : SecureEnvelope} (e : Event Endpoint Input Reply)
    (henv : h.Received env) : History.Received (h ++ [e]) env := by
  obtain ⟨e', he', hin⟩ := henv
  exact ⟨e', List.mem_append_left _ he', hin⟩

theorem established_snoc (h : History) (e : Event Endpoint Input Reply) :
    established (h ++ [e]) = established h ++ e.input.established.toList := by
  unfold established
  rw [List.map_append, List.filterMap_append]
  cases hin : e.input.established <;> simp [hin]

theorem RunInv.live {h : History} (hinv : RunInv F h x) (e : Event Endpoint Input Reply)
    (k : String) (s : Session) (hs : x.manager.active[k]? = some s) :
    Live F (History.Received (h ++ [e])) k x s :=
  ((hinv.track k).live s hs).mono fun _ => received_snoc e

theorem received_call (h : History) (c : Call) (env : SecureEnvelope) (view : ContractView)
    (hc : c = .receive env view) :
    History.Received (h ++ [(machine F).event x (.call c)]) env :=
  ⟨_, List.mem_append_right _ List.mem_cons_self, view, hc ▸ rfl⟩

/-- What a step does to every session but the one it establishes. -/
theorem step_moves {h : History} (hinv : RunInv F h x) (i : Input) (sid : String)
    (hsid : i.established ≠ some sid) :
    Moves F (History.Received (h ++ [(machine F).event x i])) sid x (x.step F i).1
      ((x.step F i).2.deliveriesOf sid) ((x.step F i).2.encryptionsOf sid) := by
  cases i with
  | call c => exact call_moves (hinv.live _) c (received_call h c) sid
  | establish s =>
    have hne : sid ≠ s.info.sid := fun he => hsid (he ▸ rfl)
    exact .still ((Still.refl sid x).frame (Frame.put s.info.sid x _) hne)
  | evict k =>
    by_cases hk : sid = k
    · subst hk
      cases hs : x.manager.active[sid]? with
      | none =>
        refine .still ⟨rfl, ?_, .inl rfl⟩
        rw [hs]
        exact (active_remove sid).trans (if_pos rfl)
      | some s => exact .ended none hs ((active_remove sid).trans (if_pos rfl)) (by simp)
    · exact .still ((Still.refl sid x).frame (Frame.remove k x) hk)

/-- A session is established with nothing sent, nothing received and no window. -/
theorem track_established {s : Session} (hwindow : x.window s.info.sid = none) :
    Track F E s.info.sid (x.step F (.establish s)).1 [] [] := by
  have hw : (x.step F (.establish s)).1.windowOf s.info.sid = .empty := by
    change (x.window s.info.sid).getD .empty = .empty
    rw [hwindow, Option.getD_none]
  have hlive : Live F E s.info.sid (x.step F (.establish s)).1 { s with info.sendSeq := 0 } := by
    refine ⟨(active_put _).trans (if_pos rfl), ?_, ?_, ?_⟩
    · rw [hw]
      exact sound_empty
    · rw [hw]
      exact settled_empty
    · rw [hw]
      rfl
  refine .of_live hlive ?_ ⟨.nil, by simp⟩
  rw [hw]
  rfl

/-- A session that was never established has no part in a step that does not establish it. -/
theorem Moves.unborn {ds : List Delivery} {encs : List Encryption}
    (hm : Moves F E sid x y ds encs) (hs : x.manager.active[sid]? = none)
    (hw : x.window sid = none) :
    y.window sid = none ∧ y.manager.active[sid]? = none ∧ ds = [] ∧ encs = [] := by
  cases hm with
  | still hstill =>
    refine ⟨?_, hstill.session.trans hs, rfl, rfl⟩
    rcases hstill.window with h | ⟨-, h⟩
    · rw [h, hw]
    · exact h
  | ended spent hs' _ _ =>
    rw [hs] at hs'
    cases hs'
  | kept view hs' =>
    rw [hs] at hs'
    cases hs'
  | sent hs' =>
    rw [hs] at hs'
    cases hs'

theorem RunInv.step {h : History} (hinv : RunInv F h x) (i : Input)
    (hfresh : ∀ sid, i.established = some sid → sid ∉ established h) :
    RunInv F (h ++ [(machine F).event x i]) (x.step F i).1 where
  track sid := by
    rw [deliveriesOf_snoc, encryptionsOf_snoc]
    by_cases hsid : i.established = some sid
    · obtain ⟨hwindow, -, hds, hencs⟩ := hinv.unborn sid (hfresh sid hsid)
      cases i with
      | call c => cases hsid
      | evict k => cases hsid
      | establish s =>
        obtain rfl := Option.some.inj hsid
        rw [hds, hencs]
        exact track_established hwindow
    · exact ((hinv.track sid).mono fun _ => received_snoc _).moves (step_moves hinv i sid hsid)
  unborn sid hsid := by
    rw [established_snoc, List.mem_append, not_or] at hsid
    obtain ⟨hwindow, hs, hds, hencs⟩ := hinv.unborn sid hsid.1
    have hne : i.established ≠ some sid := fun he => hsid.2 (Option.mem_toList.mpr he)
    obtain ⟨hwindow', hs', hds', hencs'⟩ := (step_moves hinv i sid hne).unborn hs hwindow
    refine ⟨hwindow', hs', ?_, ?_⟩
    · rw [deliveriesOf_snoc, hds]
      exact hds'
    · rw [encryptionsOf_snoc, hencs]
      exact hencs'
  checked e he d hd := by
    rcases List.mem_append.mp he with he | he
    · obtain ⟨c, view, env, hc, hview, hdelivers⟩ := hinv.checked e he d hd
      exact ⟨c, view, env, hc, hview,
        { hdelivers with held := ⟨hdelivers.held.1, received_snoc _ hdelivers.held.2⟩ }⟩
    · obtain rfl := List.mem_singleton.mp he
      cases i with
      | establish s => cases hd
      | evict k => cases hd
      | call c =>
        obtain ⟨view, env, hview, hdelivers⟩ :=
          call_delivers (hinv.live _) c (received_call h c) d hd
        exact ⟨c, view, env, rfl, hview, hdelivers⟩
  in_step e he sealing hsealing := by
    rcases List.mem_append.mp he with he | he
    · exact hinv.in_step e he sealing hsealing
    · obtain rfl := List.mem_singleton.mp he
      cases i with
      | establish s => cases hsealing
      | evict k => cases hsealing
      | call c =>
        exact call_in_step (hinv.live ((machine F).event x (.call c))) c (received_call h c)
          sealing hsealing

section Runs
variable (F) (local_ : String) (identity : Vector UInt8 32) (inputs : List Input)

abbrev runHistory : History := (machine F).history (new local_ identity) inputs

abbrev reached : Endpoint := (machine F).exec (new local_ identity) inputs

theorem run_inv (hfresh : FreshIds inputs) :
    RunInv F (runHistory F local_ identity inputs) (reached F local_ identity inputs) := by
  have hrun := Machine.history_invariant (M := machine F) (s := new local_ identity)
    (I := fun h x => (established h).Nodup → RunInv F h x) ?_ ?_ inputs
  · apply hrun
    rwa [established, Machine.history_inputs]
  · intro _
    refine ⟨fun sid => ?_, fun sid _ => ?_, ?_, ?_⟩
    · exact .of_inactive ExtTreeMap.getElem?_empty ⟨0, rfl⟩
        ⟨.replicate 32 0, 0, .nil, by simp [History.encryptionsOf]⟩
    · exact ⟨ExtTreeMap.getElem?_empty, ExtTreeMap.getElem?_empty, rfl, rfl⟩
    · simp
    · simp
  · intro is i ih hnodup
    rw [established_snoc] at hnodup
    refine (ih hnodup.of_append_left).step i fun sid hsid hmem => ?_
    have hnew : sid ∈ i.established.toList := Option.mem_toList.mpr hsid
    exact List.disjoint_of_nodup_append hnodup hmem hnew

/-- Over any run the numbers delivered for a session are 0, 1, 2 and so on, each once and in this
order. Behind every delivery stands a received envelope that verifies, opens to the payload, and
whose binding is accepted by the view of the call that delivered it. -/
theorem deliveries_consecutive_checked (hfresh : FreshIds inputs) :
    (∀ sid, ∃ k, ((runHistory F local_ identity inputs).deliveriesOf sid).map
      (fun d => d.seq.toNat) = List.range k) ∧
    ∀ e ∈ runHistory F local_ identity inputs, ∀ d ∈ e.output.delivered,
      ∃ c view env, e.input = .call c ∧ c.view = some view ∧
        (runHistory F local_ identity inputs).Received env ∧
        env.sid = some d.sid ∧ env.seq = some d.seq ∧ env.contract = d.contract ∧
        e.before.manager.verifyMessage F env = .ok () ∧
        (e.before.manager.openAuthenticated F env).2 = .ok d.payload ∧
        view.check F d.contract = .ok () := by
  have hinv := run_inv F local_ identity inputs hfresh
  refine ⟨fun sid => (hinv.track sid).delivered, fun e he d hd => ?_⟩
  obtain ⟨c, view, env, hc, hview, hdelivers⟩ := hinv.checked e he d hd
  obtain ⟨hbelongs, hreceived⟩ := hdelivers.held
  refine ⟨c, view, env, hc, hview, hreceived, hbelongs.sid, hbelongs.seq, ?_, hbelongs.verified,
    hdelivers.opened, ?_⟩
  · rw [hdelivers.contract]
  · rw [hdelivers.contract]
    exact hdelivers.bound

/-- Message 1 is held until message 0 comes, and message 0 is refused when it comes again. -/
theorem deliveries_consecutive_drained :
    let h := runHistory Burst.foreign "urn:hacp:agent:a" (.replicate 32 1) Burst.drained
    (h.filterMap fun e => e.output.report) =
      [⟨[], [⟨Burst.sid, 1, .sequencePending⟩], [], none⟩,
        ⟨[⟨Burst.sid, "urn:hacp:agent:b", "", 0, []⟩, ⟨Burst.sid, "urn:hacp:agent:b", "", 1, []⟩],
          [], [], none⟩,
        ⟨[], [], [.replayRejected], none⟩] ∧
    (∃ k, (h.deliveriesOf Burst.sid).map (fun d => d.seq.toNat) = List.range k) ∧
    ∀ e ∈ h, ∀ d ∈ e.output.delivered, ∃ env, h.Received env ∧ env.seq = some d.seq ∧
      e.before.manager.verifyMessage Burst.foreign env = .ok () := by
  intro h
  have hfresh : FreshIds Burst.drained := by decide +kernel
  obtain ⟨hconsecutive, hchecked⟩ := deliveries_consecutive_checked Burst.foreign
    "urn:hacp:agent:a" (.replicate 32 1) Burst.drained hfresh
  refine ⟨by decide +kernel, hconsecutive Burst.sid, fun e he d hd => ?_⟩
  obtain ⟨-, -, env, -, -, hreceived, -, hseq, -, hverified, -⟩ := hchecked e he d hd
  exact ⟨env, hreceived, hseq, hverified⟩

/-- In every reachable state the transport's send counter of an active session is the manager's.
Sealing is never refused for a mismatch of the two, and the numbers encrypted under for a session
increase, stay below the last one and give each key and nonce once. -/
theorem counters_agree_nonces_unique (hfresh : FreshIds inputs) :
    (∀ (sid : String) s, (reached F local_ identity inputs).manager.active[sid]? = some s →
      ((reached F local_ identity inputs).window sid).elim 0 Window.sendSeq = s.info.sendSeq) ∧
    (∀ e ∈ runHistory F local_ identity inputs, ∀ sealing, e.output = .sealed sealing →
      sealing.result ≠ .error .replayRejected) ∧
    ∀ sid, ∃ key,
      (∀ e ∈ (runHistory F local_ identity inputs).encryptionsOf sid,
        e.sid = sid ∧ e.key = key ∧ e.seq ≠ u64Max) ∧
      ((runHistory F local_ identity inputs).encryptionsOf sid).Pairwise
        (fun a b => a.seq < b.seq) ∧
      (((runHistory F local_ identity inputs).encryptionsOf sid).map
        fun e => (e.key, e.nonce)).Nodup := by
  have hinv := run_inv F local_ identity inputs hfresh
  refine ⟨fun sid s hs => ?_, hinv.in_step, fun sid => ?_⟩
  · have hlock := ((hinv.track sid).live s hs).lockstep
    rw [← hlock, windowOf]
    cases (reached F local_ identity inputs).window sid <;> rfl
  · obtain ⟨key, bound, htally⟩ := (hinv.track sid).encrypted
    refine ⟨key, fun e he => ?_, htally.ascending, htally.nonces_nodup⟩
    obtain ⟨hsid, hkey, hlt⟩ := htally.each e he
    refine ⟨hsid, hkey, fun hmax => ?_⟩
    rw [hmax, UInt64.lt_iff_toNat_lt, u64Max_toNat] at hlt
    have hbound := bound.toNat_lt
    omega

/-- The third message of one session is encrypted and then refused: its number is spent, and the
session has gone when the fourth is sealed. The other session goes on. -/
theorem counters_agree_clipped :
    let h := runHistory Burst.clipped "urn:hacp:agent:a" (.replicate 32 1) Burst.sealings
    (h.filterMap fun e => e.output.sealing.map fun sealing =>
        (sealing.encrypted.map Encryption.seq, sealing.result.isOk)) =
      [(some 0, true), (some 0, true), (some 1, true), (some 2, false), (none, false)] ∧
    ((h.encryptionsOf Burst.sid).map fun e => (e.key, e.nonce)).Nodup ∧
    ((reached Burst.clipped "urn:hacp:agent:a" (.replicate 32 1) Burst.sealings).window
      Burst.other).elim 0 Window.sendSeq = 1 := by
  intro h
  have hfresh : FreshIds Burst.sealings := by decide +kernel
  obtain ⟨hagree, -, hunique⟩ := counters_agree_nonces_unique Burst.clipped
    "urn:hacp:agent:a" (.replicate 32 1) Burst.sealings hfresh
  obtain ⟨-, -, -, hnodup⟩ := hunique Burst.sid
  refine ⟨by decide +kernel, hnodup, ?_⟩
  exact hagree Burst.other { Burst.sessionOf Burst.other with info.sendSeq := 1 } (by decide +kernel)

end Runs
end Endpoint
end Hacp.Secure
