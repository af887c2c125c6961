import Hacp.Secure.SigningInput
import Hacp.Secure.Tidy

/-!
# The message that comes next

The message right above the accepted mark, at the delivery position and bound as the
view accepts, is delivered with all that follows it without a gap, unless the queue
of held envelopes is full: the bound is tested before the message leaves it.
-/
namespace Hacp.Secure
open Lib Std SessionManager Window

namespace Endpoint
variable {F : Foreign} {x y : Endpoint} {sid k : String} {w : Window}

/-! ## The message that comes next -/

/-- An authentic message right above the accepted mark, at the delivery position, while every
binding in question is accepted. -/
structure InOrder (F : Foreign) (x : Endpoint) (sid : String) (seq : UInt64)
    (env : SecureEnvelope) (view : ContractView) : Prop where
  addressed : Addressed sid seq env
  verified : x.manager.verifyMessage F env = .ok ()
  opens : Openable F x.manager env
  next : seq = (x.windowOf sid).next
  position : seq = (x.windowOf sid).deliveryNext
  below : seq ≠ u64Max
  bound : view.check F env.contract = .ok ()
  heldBound : ∀ (n : UInt64) (e : SecureEnvelope), (x.windowOf sid).held[n]? = some e →
    view.check F e.contract = .ok ()

/-- The message is delivered first, then held envelopes without a gap, as long as they open. -/
structure Taken (F : Foreign) (x : Endpoint) (sid : String) (seq : UInt64) (env : SecureEnvelope)
    (report : ReceiveReport) : Prop where
  aborted : report.aborted = none
  seqs : report.delivered.map (fun d => d.seq.toNat) =
    List.range' seq.toNat report.delivered.length
  first : ∃ pt rest, report.delivered = ⟨sid, env.from_, env.contract, seq, pt⟩ :: rest ∧
    (x.manager.openAuthenticated F env).2 = .ok pt ∧
    ∀ d ∈ rest, ∃ e, (x.windowOf sid).held[d.seq]? = some e ∧
      d = ⟨sid, e.from_, e.contract, d.seq, d.payload⟩ ∧
      (x.manager.openAuthenticated F e).2 = .ok d.payload
  maximal : ∀ (n : UInt64) (e : SecureEnvelope),
    n.toNat = seq.toNat + report.delivered.length → (x.windowOf sid).held[n]? = some e →
    ¬Openable F x.manager e

def taking (w : Window) (seq : UInt64) (env : SecureEnvelope) : Window :=
  { w with high := some seq, held := w.held.insert seq env }

section Queue
variable {seq n : UInt64} {env e : SecureEnvelope} {view : ContractView}

theorem held_taking (he : (taking w seq env).held[n]? = some e) :
    (n = seq ∧ e = env) ∨ w.held[n]? = some e := by
  rw [taking, lookup_insert] at he
  split at he
  · next hn => exact .inl ⟨hn, (Option.some.inj he).symm⟩
  · exact .inr he

namespace InOrder
variable (h : InOrder F x sid seq env view) (hw : InShape sid (x.windowOf sid))
include h hw

theorem unheld : (x.windowOf sid).held[seq]? = none :=
  (lookup_eq_none_iff _ _).mpr (h.next ▸ hw.2)

theorem keeps (he : (x.windowOf sid).held[n]? = some e) :
    (taking (x.windowOf sid) seq env).held[n]? = some e := by
  rw [taking, lookup_insert, if_neg, he]
  rintro rfl
  rw [h.unheld hw] at he
  cases he

theorem addresses (he : (taking (x.windowOf sid) seq env).held[n]? = some e) :
    Addressed sid n e := by
  rcases held_taking he with ⟨rfl, rfl⟩ | he
  · exact h.addressed
  · exact hw.1.own n e he

omit hw in
theorem accepts (he : (taking (x.windowOf sid) seq env).held[n]? = some e) :
    view.check F e.contract = .ok () := by
  rcases held_taking he with ⟨rfl, rfl⟩ | he
  · exact h.bound
  · exact h.heldBound n e he

theorem sound (hroom : (x.windowOf sid).held.size < 64) :
    Sound (fun n e => (taking (x.windowOf sid) seq env).held[n]? = some e)
      (taking (x.windowOf sid) seq env) := by
  have hown : (x.windowOf sid).Sound
      (fun n e => (taking (x.windowOf sid) seq env).held[n]? = some e) :=
    { hw.1 with own := fun n e he => h.keeps hw he }
  have hnew : (taking (x.windowOf sid) seq env).held[(x.windowOf sid).next]? = some env := by
    rw [taking, lookup_insert, if_pos h.next.symm]
  have hhold := hown.hold_next (h.next ▸ h.below) hroom hnew
  rwa [← h.next] at hhold

end InOrder

/-- The queue has been drained: whatever was accepted is out. -/
structure Emptied (F : Foreign) (sid : String) (seq : UInt64) (env : SecureEnvelope)
    (view : ContractView) (x y : Endpoint) (result : Endpoint × ReceiveReport) (w : Window) :
    Prop where
  draining : Draining F (fun n e => (taking (x.windowOf sid) seq env).held[n]? = some e) sid y
    (taking (x.windowOf sid) seq env) result.1 w
  settled : w.Settled
  all : w.deliveryNext = w.next
  batch : Batch F y.manager (fun n e => (taking (x.windowOf sid) seq env).held[n]? = some e) sid
    view (x.windowOf sid).deliveryNext w.deliveryNext result.2.delivered
  aborted : result.2.aborted = none

theorem InOrder.emptied (h : InOrder F x sid seq env view) (hw : InShape sid (x.windowOf sid))
    (hroom : (x.windowOf sid).held.size < 64) (hkeys : SameKeys sid x.manager y.manager)
    (hy : y.window sid = some (taking (x.windowOf sid) seq env)) :
    ∃ w, Emptied F sid seq env view x y (y.drain F sid view .empty) w := by
  have hdrained := drain_drained (F := F) (fun n e he => h.addresses hw he) view .empty
    (.start hy (h.sound hw hroom))
  generalize y.drain F sid view .empty = result at hdrained ⊢
  cases hdrained with
  | aborted _ hcause =>
    exfalso
    rcases hcause with ⟨n, e, err, he, herr, -⟩ | ⟨n, e, he, hlo, hhi, hclosed⟩
    · rw [h.accepts he] at herr
      cases herr
    · obtain rfl : n = seq := by
        refine UInt64.le_antisymm ((lt_succ_iff h.below).mp hhi) ?_
        rw [h.position]
        exact hlo
      rcases held_taking he with ⟨-, rfl⟩ | he
      · refine hclosed ?_
        rw [Openable, hkeys.openAuthenticated h.addressed.sid]
        exact h.opens
      · rw [h.unheld hw] at he
        cases he
  | @kept z r w' ds hz hsettled hstalled hbatch hdelivered haborted =>
    obtain rfl : r.delivered = ds := hdelivered
    refine ⟨w', hz, hsettled, ?_, hbatch, haborted⟩
    rcases hstalled with hle | ⟨e, he, hpending⟩
    · exact UInt64.le_antisymm hz.sound.position (UInt64.not_lt.mp hle)
    · rw [h.accepts (hz.sound.own _ e he)] at hpending
      cases hpending

namespace Emptied
variable {result : Endpoint × ReceiveReport} {w' : Window}
  (he : Emptied F sid seq env view x y result w') (h : InOrder F x sid seq env view)
include he h

/-- The mark is behind the message and everything that was delivered. -/
theorem mark : seq < w'.next ∧ w'.next.toNat = seq.toNat + result.2.delivered.length := by
  refine ⟨(succ_le_iff h.below).mp he.draining.drains.mark, ?_⟩
  rw [← he.all, he.batch.next, h.position]

theorem seqs : result.2.delivered.map (fun d => d.seq.toNat) =
    List.range' seq.toNat result.2.delivered.length := by
  rw [he.batch.seqs, h.position]

/-- Every delivery is an envelope of the queue, opened. -/
theorem each (hw : InShape sid (x.windowOf sid)) (hkeys : SameKeys sid x.manager y.manager)
    {d : Delivery} (hd : d ∈ result.2.delivered) :
    ∃ e, (taking (x.windowOf sid) seq env).held[d.seq]? = some e ∧
      d = ⟨sid, e.from_, e.contract, d.seq, d.payload⟩ ∧
      (x.manager.openAuthenticated F e).2 = .ok d.payload := by
  obtain ⟨e, hdelivers⟩ := he.batch.each d hd
  refine ⟨e, hdelivers.held, ?_, ?_⟩
  · calc d = ⟨d.sid, d.from_, d.contract, d.seq, d.payload⟩ := rfl
      _ = ⟨sid, e.from_, e.contract, d.seq, d.payload⟩ := by
        rw [hdelivers.sid, hdelivers.from_, hdelivers.contract]
  · rw [← hkeys.openAuthenticated (h.addresses hw hdelivers.held).sid, hdelivers.opened]

/-- The message is the first delivery, and what follows it was held before. -/
theorem first (hw : InShape sid (x.windowOf sid)) (hkeys : SameKeys sid x.manager y.manager) :
    ∃ pt rest, result.2.delivered = ⟨sid, env.from_, env.contract, seq, pt⟩ :: rest ∧
      (x.manager.openAuthenticated F env).2 = .ok pt ∧
      ∀ d ∈ rest, ∃ e, (x.windowOf sid).held[d.seq]? = some e ∧
        d = ⟨sid, e.from_, e.contract, d.seq, d.payload⟩ ∧
        (x.manager.openAuthenticated F e).2 = .ok d.payload := by
  have heach (d : Delivery) := he.each h hw hkeys (d := d)
  obtain ⟨hlt, hcount⟩ := he.mark h
  have hseqs := he.seqs h
  generalize result.2.delivered = ds at heach hcount hseqs
  cases ds with
  | nil =>
    have hlt := UInt64.lt_iff_toNat_lt.mp hlt
    rw [List.length_nil] at hcount
    omega
  | cons d rest =>
    rw [List.map_cons, List.length_cons, List.range'_succ, List.cons.injEq] at hseqs
    obtain ⟨hfirst, hrest⟩ := hseqs
    have hseq : d.seq = seq := UInt64.toNat_inj.mp hfirst
    obtain ⟨e, hheld, hd, hopen⟩ := heach d List.mem_cons_self
    rw [hseq, taking, lookup_insert, if_pos rfl] at hheld
    obtain rfl := Option.some.inj hheld
    refine ⟨d.payload, rest, ?_, hopen, fun d' hd' => ?_⟩
    · rw [hd, hseq]
    · obtain ⟨e', hheld', hd'', hopen'⟩ := heach d' (List.mem_cons_of_mem _ hd')
      refine ⟨e', ?_, hd'', hopen'⟩
      have hmem : d'.seq.toNat ∈ List.range' (seq.toNat + 1) rest.length := by
        rw [← hrest]
        exact List.mem_map_of_mem hd'
      rcases held_taking hheld' with ⟨hn, -⟩ | hheld'
      · rw [hn, List.mem_range'_1] at hmem
        omega
      · exact hheld'

/-- What is held right behind the deliveries does not open. -/
theorem maximal (hw : InShape sid (x.windowOf sid)) (hkeys : SameKeys sid x.manager y.manager)
    (hn : n.toNat = seq.toNat + result.2.delivered.length)
    (hheld : (x.windowOf sid).held[n]? = some e) : ¬Openable F x.manager e := by
  intro hopenable
  rw [← (he.mark h).2] at hn
  obtain rfl := UInt64.toNat_inj.mp hn
  have hopens : Openable F y.manager e := by
    rwa [Openable, hkeys.openAuthenticated (hw.1.own _ e hheld).sid]
  have hstays := he.draining.drains.kept _ e (h.keeps hw hheld) UInt64.le_rfl hopens
  exact he.settled ((mem_iff_lookup _ _).mpr ⟨e, hstays⟩)

end Emptied
end Queue

/-- A message that comes next and for which there is room is put into the queue, which is then
drained. -/
theorem InOrder.receive_eq (hx : Tidy x) {seq : UInt64} {env : SecureEnvelope}
    {view : ContractView} (h : InOrder F x sid seq env view)
    (hroom : (x.windowOf sid).held.size < 64) :
    ∃ s y, x.manager.active[sid]? = some s ∧ y.manager = x.manager.put sid s.opened ∧
      Frame sid x.retain y ∧ y.window sid = some (taking (x.windowOf sid) seq env) ∧
      x.receive F env view = y.drain F sid view .empty := by
  have hb : Belongs F x.manager sid seq env := ⟨h.addressed.sid, h.addressed.seq, h.verified⟩
  obtain ⟨hsound, hsettled⟩ := hx sid
  obtain ⟨s, pt, hs, hopen⟩ : ∃ s pt, x.manager.active[sid]? = some s ∧
      x.manager.openAuthenticated F env = (x.manager.put sid s.opened, .ok pt) := by
    rcases h.addressed.openAuthenticated (F := F) h.below x.manager with ⟨e, hopen⟩ | hopen
    · obtain ⟨pt, hpt⟩ := h.opens
      rw [hopen] at hpt
      cases hpt
    · exact hopen
  have hseen : ¬((x.windowOf sid).accepted seq ∨ seq ∈ (x.windowOf sid).held) := by
    rw [accepted_iff hsound.high_ne_max, h.next, not_or]
    exact ⟨UInt64.lt_irrefl _, hsettled⟩
  have hgap : ¬(x.windowOf sid).next < seq := by
    rw [← h.next]
    exact UInt64.lt_irrefl _
  have hopen' : (x.retain.putWindow sid (x.windowOf sid)).manager.openAuthenticated F env =
      (x.manager.put sid s.opened, .ok pt) := hopen
  refine ⟨s, ({ x.retain.putWindow sid (x.windowOf sid) with
      manager := x.manager.put sid s.opened }.putWindow sid
        { x.windowOf sid with high := some seq }).putWindow sid (taking (x.windowOf sid) seq env),
    hs, rfl, ?_, ?_, ?_⟩
  · have hput : Frame sid (x.retain.putWindow sid (x.windowOf sid))
        { x.retain.putWindow sid (x.windowOf sid) with manager := x.manager.put sid s.opened } :=
      ⟨rfl, rfl, fun k hk => (active_put k).trans (if_neg hk), fun _ _ => rfl⟩
    exact (((Frame.putWindow sid _ _).trans hput).trans (Frame.putWindow sid _ _)).trans
      (Frame.putWindow sid _ _)
  · rw [window_putWindow, if_pos rfl]
  · rw [receive_verified hb, windowOf_retain hs]
    unfold admission
    rw [if_neg hseen, if_neg h.below, if_neg hgap, hopen']
    simp only [h.bound]
    rw [if_neg (Nat.not_le.mpr hroom)]
    rfl

/-- With a full queue the session ends, although the message would leave the queue at once. -/
theorem InOrder.overflow (hx : Tidy x) {seq : UInt64} {env : SecureEnvelope} {view : ContractView}
    (h : InOrder F x sid seq env view) (hfull : 64 ≤ (x.windowOf sid).held.size) :
    (x.receive F env view).2.aborted ≠ none := by
  obtain ⟨hsound, hsettled⟩ := hx sid
  have hb : Belongs F x.manager sid seq env := ⟨h.addressed.sid, h.addressed.seq, h.verified⟩
  obtain ⟨k, n, s, hb', hs⟩ := belongs_of_verified h.verified
  obtain rfl := Option.some.inj (hb'.sid.symm.trans h.addressed.sid)
  rw [receive_verified hb, windowOf_retain hs]
  have hstep : AdmissionStep F k seq (x.windowOf k) env view
      (x.retain.putWindow k (x.windowOf k)) _ :=
    admission_step hsound.high_ne_max h.addressed
  generalize Endpoint.admission F _ k seq (x.windowOf k) env view = result at hstep ⊢
  cases hstep with
  | rejected e hreason =>
    rcases hreason with (hlt | hheld) | hclosed
    · exact absurd (h.next ▸ hlt) (UInt64.lt_irrefl _)
    · exact absurd (h.next ▸ hheld) hsettled
    · exact absurd h.opens hclosed
  | aborted hab => exact hab.aborted
  | held hgap => exact absurd (h.next ▸ hgap) (UInt64.lt_irrefl _)
  | drained s hnext hmax hsize => exact absurd hsize (Nat.not_lt.mpr hfull)

theorem InOrder.taken_iff (hx : Tidy x) {seq : UInt64} {env : SecureEnvelope} {view : ContractView}
    (h : InOrder F x sid seq env view) :
    Taken F x sid seq env (x.receive F env view).2 ↔ (x.windowOf sid).held.size < 64 := by
  refine ⟨fun htaken => ?_, fun hroom => ?_⟩
  · by_contra hfull
    exact h.overflow hx (Nat.not_lt.mp hfull) htaken.aborted
  obtain ⟨s, y, hs, hmanager, -, hwindow, hreceive⟩ := h.receive_eq hx hroom
  have hkeys : SameKeys sid x.manager y.manager := hmanager ▸ (Alike.put hs).sameKeys
  obtain ⟨w, hemptied⟩ := h.emptied (hx sid) hroom hkeys hwindow
  rw [hreceive]
  exact ⟨hemptied.aborted, hemptied.seqs h, hemptied.first h (hx sid) hkeys,
    fun n e hn he => hemptied.maximal h (hx sid) hkeys hn he⟩

/-- In every reachable state the message that comes next is taken exactly when the queue has room,
although it would leave the queue at once. -/
theorem in_order_taken_iff (F : Foreign) (local_ : String) (identity : Vector UInt8 32)
    (inputs : List Input) {sid : String} {seq : UInt64} {env : SecureEnvelope} {view : ContractView}
    (h : InOrder F (reached F local_ identity inputs) sid seq env view) :
    Taken F (reached F local_ identity inputs) sid seq env
        ((reached F local_ identity inputs).receive F env view).2 ↔
      ((reached F local_ identity inputs).windowOf sid).held.size < 64 :=
  h.taken_iff (tidy_reached F local_ identity inputs)

end Endpoint

/-! ## A burst that arrives backwards -/

namespace Burst
open Endpoint

/-- The messages 64, 63 and so on, as many as there are turns. -/
def inputs (turns : ℕ) : List Input :=
  .establish session ::
    (List.range turns).map fun i => .call (.receive (message (UInt64.ofNat (64 - i))) .bootstrap)

def after (turns : ℕ) : Endpoint :=
  reached foreign "urn:hacp:agent:a" (.replicate 32 1) (inputs turns)

/-- A binding as the header of a message may give it. -/
def Binding (contract : String) : Prop :=
  contract ≠ "" → ∃ s, stripPrefix "sha256:" contract = some s ∧ fixedHex s 32 = true

theorem binding_empty : Binding "" := fun h => absurd rfl h

section Letter
variable {contract : String}

theorem addressed (contract : String) (payload : Bytes) (n : UInt64) :
    Addressed sid n (letter contract payload n) := ⟨rfl, rfl⟩

theorem header_letter (hbinding : Binding contract) (payload : Bytes) (n : UInt64) :
    (letter contract payload n).header foreign = .ok () := by
  have hsid : fixedHex sid 16 = true := fixedHex_encodeHex.mpr rfl
  have hsig : fixedHex sig 64 = true := fixedHex_encodeHex.mpr rfl
  have hct : 32 ≤ (asBytes (encodeHex (payload ++ List.replicate 16 0))).length ∧
      (decodeHex (encodeHex (payload ++ List.replicate 16 0))).isOk = true := by
    rw [length_asBytes_encodeHex, List.length_append, List.length_replicate, decodeHex_encodeHex]
    exact ⟨by omega, rfl⟩
  have hfrom : urn "urn:hacp:agent:b" = true := by decide
  have hto : urn "urn:hacp:agent:a" = true := by decide
  have hcontract : (letter contract payload n).contract = contract := rfl
  rw [SecureEnvelope.header_eq_ok, hcontract]
  simpa [-List.reduceReplicate, Binding, letter, message, messageOf, hfrom, hto, hsid, hsig, hct] using
    hbinding

theorem validate_letter (hbinding : Binding contract) (payload : Bytes) (n : UInt64) :
    (letter contract payload n).validate foreign = .ok () := by
  rw [SecureEnvelope.validate, header_letter hbinding]
  rfl

theorem verified_letter {m : SessionManager} (hbinding : Binding contract) (payload : Bytes)
    (n : UInt64) (hm : m.local_ = "urn:hacp:agent:a") {s : Session} (hs : m.active[sid]? = some s)
    (hpeer : s.info.peer = "urn:hacp:agent:b") :
    m.verifyMessage foreign (letter contract payload n) = .ok () := by
  obtain ⟨aad, haad⟩ := SecureEnvelope.aadBytes_of_header (header_letter hbinding payload n)
  have hinput := SecureEnvelope.messageSigningInput_eq_ok.mpr
    ⟨rfl, aad, _, _, haad, rfl, decodeHex_encodeHex _, rfl⟩
  refine verifyMessage_eq_ok.mpr ⟨validate_letter hbinding payload n, rfl, sid, s, rfl, hs, hpeer.symm,
    hm.symm, _, _, hinput, rfl, ?_⟩
  exact verify_encodeHex s.pin _ (.replicate 64 0)

theorem open_letter {m : SessionManager} (hbinding : Binding contract) (payload : Bytes)
    (n : UInt64) (hmax : n ≠ u64Max)
    (hm : m.local_ = "urn:hacp:agent:a") {s : Session} (hs : m.active[sid]? = some s)
    (hpeer : s.info.peer = "urn:hacp:agent:b") :
    (m.openAuthenticated foreign (letter contract payload n)).2 = .ok payload := by
  obtain ⟨s', hs', hopen⟩ :=
    openAuthenticated_of_verified (verified_letter hbinding payload n hm hs hpeer) rfl rfl hmax
  obtain ⟨aad, haad⟩ := SecureEnvelope.aadBytes_of_header (header_letter hbinding payload n)
  have hdecrypt : foreign.decrypt (s'.keys.receiveKey s'.initiator) (nonce96 n) aad
      (payload ++ List.replicate 16 0) = some payload := by
    simp [foreign]
  have hct : openCiphertext foreign s' (letter contract payload n) n = .ok payload := by
    rw [openCiphertext_of_fields haad rfl (decodeHex_encodeHex _), SessionKeys.open_, hdecrypt]
  rw [hopen, hct]

theorem openable_letter {m : SessionManager} (hbinding : Binding contract) (payload : Bytes)
    (n : UInt64) (hmax : n ≠ u64Max)
    (hm : m.local_ = "urn:hacp:agent:a") {s : Session} (hs : m.active[sid]? = some s)
    (hpeer : s.info.peer = "urn:hacp:agent:b") : Openable foreign m (letter contract payload n) :=
  ⟨payload, open_letter hbinding payload n hmax hm hs hpeer⟩

end Letter

/-- After so many turns the messages from 64 downwards are held and nothing is accepted. -/
structure Filled (turns : ℕ) (x : Endpoint) : Prop where
  local_ : x.manager.local_ = "urn:hacp:agent:a"
  session : x.manager.active[sid]? = some session
  high : (x.windowOf sid).high = none
  position : (x.windowOf sid).deliveryNext = 0
  size : (x.windowOf sid).held.size = turns
  held : ∀ (n : UInt64) (e : SecureEnvelope), (x.windowOf sid).held[n]? = some e →
    e = message n ∧ 64 < n.toNat + turns

theorem filled_start : Filled 0 (after 0) := by
  have hwindow : (after 0).windowOf sid = .empty := windowOf_none ExtTreeMap.getElem?_empty
  refine ⟨rfl, (active_put _).trans (if_pos rfl), ?_, ?_, ?_, ?_⟩ <;> rw [hwindow]
  · rfl
  · rfl
  · exact ExtTreeMap.size_empty
  · intro n e he
    rw [Window.empty, ExtTreeMap.getElem?_empty] at he
    cases he

theorem Filled.step {turns : ℕ} {x : Endpoint} (h : Filled turns x) (hturns : turns < 64) :
    Filled (turns + 1)
      (x.receive foreign (message (UInt64.ofNat (64 - turns))) .bootstrap).1 := by
  have hseq : (UInt64.ofNat (64 - turns)).toNat = 64 - turns :=
    UInt64.toNat_ofNat_of_lt' (by simp only [UInt64.size]; omega)
  generalize UInt64.ofNat (64 - turns) = seq at hseq ⊢
  have hverified : x.manager.verifyMessage foreign (message seq) = .ok () :=
    verified_letter binding_empty [] seq h.local_ h.session rfl
  rw [receive_verified ⟨rfl, rfl, hverified⟩, windowOf_retain h.session]
  have hfresh : seq ∉ (x.windowOf sid).held := by
    intro hmem
    obtain ⟨e, he⟩ := (mem_iff_lookup _ _).mp hmem
    have hlow := (h.held seq e he).2
    omega
  have hseen : ¬((x.windowOf sid).accepted seq ∨ seq ∈ (x.windowOf sid).held) := by
    rw [not_or]
    refine ⟨?_, hfresh⟩
    simp [accepted, h.high]
  have hmax : seq ≠ u64Max := fun hcon => by
    rw [hcon, u64Max_toNat] at hseq
    omega
  have hgap : (x.windowOf sid).next < seq := by
    rw [Window.next, h.high, UInt64.lt_iff_toNat_lt, hseq, UInt64.toNat_zero]
    omega
  have hnewest : ¬(((x.windowOf sid).held.keys.filter fun n => (x.windowOf sid).next ≤ n).max?.any
      fun newest => newest < seq) = true := by
    rw [Option.any_eq_true]
    rintro ⟨newest, hnewest, hlt⟩
    have : Std.MaxEqOr UInt64 := ⟨fun a b => (ite_eq_or_eq (a ≤ b) b a).symm⟩
    have hmem := List.max?_mem hnewest
    obtain ⟨e, he⟩ := (mem_iff_lookup _ _).mp
      (ExtTreeMap.mem_keys.mp (List.mem_of_mem_filter hmem))
    have hlow := (h.held newest e he).2
    rw [decide_eq_true_eq, UInt64.lt_iff_toNat_lt, hseq] at hlt
    omega
  unfold Endpoint.admission
  rw [if_neg hseen, if_neg hmax, if_pos hgap, if_neg (by rw [h.size]; omega), if_neg hnewest]
  refine ⟨h.local_, h.session, ?_, ?_, ?_, ?_⟩ <;> rw [windowOf_putWindow]
  · exact h.high
  · exact h.position
  · have hsize := ExtTreeMap.size_insert (t := (x.windowOf sid).held) (k := seq)
      (v := message seq)
    rw [if_neg fun hcon => hfresh (ExtTreeMap.mem_iff_contains.mpr hcon), h.size] at hsize
    exact hsize
  · intro n e he
    rw [lookup_insert] at he
    split at he
    · next hn =>
      refine ⟨hn ▸ (Option.some.inj he).symm, ?_⟩
      rw [hn, hseq]
      omega
    · obtain ⟨hmessage, hlow⟩ := h.held n e he
      exact ⟨hmessage, by omega⟩

theorem filled_after {turns : ℕ} (h : turns ≤ 64) : Filled turns (after turns) := by
  induction turns with
  | zero => exact filled_start
  | succ turns ih =>
    have hstep := (ih (by omega)).step (by omega)
    have hafter : after (turns + 1) =
        ((after turns).receive foreign (message (UInt64.ofNat (64 - turns))) .bootstrap).1 := by
      rw [after, inputs, List.range_succ, List.map_append, ← List.cons_append]
      exact Machine.exec_snoc _ _ _ _
    rwa [hafter]

/-- Message 0 comes next, whatever is held above it. -/
theorem inOrder {turns : ℕ} (h : turns ≤ 64) :
    InOrder foreign (after turns) sid 0 (message 0) .bootstrap := by
  have hfilled := filled_after h
  have hne : (0 : UInt64) ≠ u64Max := by decide
  refine ⟨addressed "" [] 0, verified_letter binding_empty [] 0 hfilled.local_ hfilled.session rfl,
    openable_letter binding_empty [] 0 hne hfilled.local_ hfilled.session rfl, ?_,
    hfilled.position.symm, hne, rfl,
    fun n e he => ?_⟩
  · rw [Window.next, hfilled.high]
  · rw [(hfilled.held n e he).1]
    rfl

end Burst

def InOrderTaken : Prop :=
  ∀ (F : Foreign) (local_ : String) (identity : Vector UInt8 32) (inputs : List Input)
    (sid : String) (seq : UInt64) (env : SecureEnvelope) (view : ContractView),
    Endpoint.InOrder F (Endpoint.reached F local_ identity inputs) sid seq env view →
    Endpoint.Taken F (Endpoint.reached F local_ identity inputs) sid seq env
      ((Endpoint.reached F local_ identity inputs).receive F env view).2

/-- After 64 messages that arrived backwards the one in front of them is refused. -/
theorem not_inOrderTaken : ¬InOrderTaken := by
  intro htaken
  have hroom (turns : ℕ) (h : turns ≤ 64) : ((Burst.after turns).windowOf Burst.sid).held.size < 64 :=
    ((Burst.inOrder h).taken_iff (Endpoint.tidy_reached _ _ _ _)).mp
      (htaken _ _ _ _ _ _ _ _ (Burst.inOrder h))
  have hfull := hroom 64 (Nat.le_refl 64)
  rw [(Burst.filled_after (Nat.le_refl 64)).size] at hfull
  exact absurd hfull (Nat.lt_irrefl 64)

theorem in_order_taken_burst :
    Endpoint.Taken Burst.foreign (Burst.after 63) Burst.sid 0 (Burst.message 0)
      ((Burst.after 63).receive Burst.foreign (Burst.message 0) .bootstrap).2 := by
  have htaken (turns : ℕ) (h : turns < 64) :
      Endpoint.Taken Burst.foreign (Burst.after turns) Burst.sid 0 (Burst.message 0)
        ((Burst.after turns).receive Burst.foreign (Burst.message 0) .bootstrap).2 := by
    refine (Endpoint.in_order_taken_iff _ _ _ (Burst.inputs turns)
      (Burst.inOrder (Nat.le_of_lt h))).mpr ?_
    have hsize := (Burst.filled_after (Nat.le_of_lt h)).size
    rw [Burst.after] at hsize
    rwa [hsize]
  exact htaken 63 (by omega)

end Hacp.Secure
