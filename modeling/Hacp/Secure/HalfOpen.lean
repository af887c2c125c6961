import Hacp.Secure.HandshakeAgreement

/-!
# Half-open handshakes

A manager keeps pending handshakes and half-open sessions under one quota for each peer,
numbered by one counter. Making room drops the oldest of a peer's entries, so that no
more than four are left; nothing established and nothing of another peer is ever dropped.
-/
namespace Hacp.Secure
open Lib Std

inductive HalfOpen where
  | pending (q : Pending)
  | session (sid : String)

namespace Party
variable {F : Foreign} {K : KeyExchange} {p q r : Party} {peer sid : String}

def pendingOf (p : Party) (peer : String) : List Pending :=
  p.handshakes.pending.filter fun q => q.hello.to_ = peer

def ackSent (p : Party) (peer : String) : Finset String :=
  ((p.manager.active.toList.filter fun e => e.2.info.peer = peer ∧ e.2.info.state = .ackSent).map
    Prod.fst).toFinset

def halfOpenCount (p : Party) (peer : String) : ℕ := (p.pendingOf peer).length + (p.ackSent peer).card

/-- The entry stands against the quota of the peer, under this number. -/
def Holds (p : Party) (peer : String) : HalfOpen → UInt64 → Prop
  | .pending q, order => q ∈ p.handshakes.pending ∧ q.hello.to_ = peer ∧ q.order = order
  | .session sid, order => ∃ s x, p.manager.active[sid]? = some s ∧ s.info.peer = peer ∧
      s.info.state = .ackSent ∧ p.handshakes.exchanges[sid]? = some x ∧ x.order = order

def Covered (p : Party) : Prop :=
  ∀ (sid : String) s, p.manager.active[sid]? = some s → ∃ x, p.handshakes.exchanges[sid]? = some x

theorem mem_ackSent : sid ∈ p.ackSent peer ↔
    ∃ s, p.manager.active[sid]? = some s ∧ s.info.peer = peer ∧ s.info.state = .ackSent := by
  simp only [ackSent, List.mem_toFinset, List.mem_map, List.mem_filter, Prod.exists,
    ExtTreeMap.mem_toList_iff_getElem?_eq_some, decide_eq_true_eq]
  constructor
  · rintro ⟨k, s, ⟨hs, hpeer⟩, rfl⟩
    exact ⟨s, hs, hpeer⟩
  · rintro ⟨s, hs, hpeer⟩
    exact ⟨sid, s, ⟨hs, hpeer⟩, rfl⟩

/-- Where every session has its handshake, both ways of counting sessions agree. -/
theorem length_halfOpen (hp : p.Covered) (peer : String) :
    (p.halfOpen peer).length = (p.ackSent peer).card := by
  have hkeys : (p.manager.active.toList.map Prod.fst).Nodup := by
    rw [List.Nodup, List.pairwise_map]
    refine p.manager.active.distinct_keys_toList.imp fun {a b} hne heq => hne ?_
    rw [heq, compare_self]
  rw [ackSent, List.toFinset_card_of_nodup (hkeys.sublist (List.filter_sublist.map _)),
    List.length_map, halfOpen, List.length_filterMap_eq_countP, ← List.countP_eq_length_filter]
  refine List.countP_congr fun e he => ?_
  obtain ⟨sid, s⟩ := e
  obtain ⟨x, hx⟩ := hp sid s (ExtTreeMap.mem_toList_iff_getElem?_eq_some.mp he)
  by_cases hs : s.info.peer = peer ∧ s.info.state = .ackSent <;> simp [hs, hx]

theorem length_pendingWith (p : Party) (peer : String) :
    (p.pendingWith peer).length = (p.pendingOf peer).length := by
  have hfst := List.zipIdx_map_fst 0 p.handshakes.pending
  calc (p.pendingWith peer).length = ((p.pendingWith peer).map Prod.fst).length :=
        (List.length_map _).symm
    _ = ((p.handshakes.pending.zipIdx.map Prod.fst).filter fun q => q.hello.to_ = peer).length := by
        rw [List.filter_map]
        rfl
    _ = (p.pendingOf peer).length := by rw [hfst, pendingOf]

theorem mem_halfOpen {order : UInt64} :
    (sid, order) ∈ p.halfOpen peer ↔ p.Holds peer (.session sid) order := by
  simp only [halfOpen, List.mem_filterMap, Prod.exists, ExtTreeMap.mem_toList_iff_getElem?_eq_some]
  constructor
  · rintro ⟨k, s, hs, hsome⟩
    split_ifs at hsome with hpeer
    obtain ⟨x, hx, heq⟩ := Option.map_eq_some_iff.mp hsome
    obtain ⟨rfl, rfl⟩ := Prod.mk.inj heq
    exact ⟨s, x, hs, hpeer.1, hpeer.2, hx, rfl⟩
  · rintro ⟨s, x, hs, hpeer, hstate, hx, rfl⟩
    refine ⟨sid, s, hs, ?_⟩
    rw [if_pos ⟨hpeer, hstate⟩, hx]
    rfl

theorem mem_pendingWith {h : Pending} {i : ℕ} :
    (h, i) ∈ p.pendingWith peer ↔ p.handshakes.pending[i]? = some h ∧ h.hello.to_ = peer := by
  simp [pendingWith, List.mem_filter, List.mem_zipIdx_iff_getElem?]

/-! ## Making room -/

def Oldest (p : Party) (peer : String) (e : HalfOpen) (order : UInt64) : Prop :=
  p.Holds peer e order ∧ ∀ e' order', p.Holds peer e' order' → order ≤ order'

/-- At most the oldest entry of the peer is gone. -/
inductive Evicts (peer : String) (p q : Party) : Prop
  | nothing : q.handshakes.pending = p.handshakes.pending → q.manager.active = p.manager.active →
      Evicts peer p q
  | pending (i : ℕ) (h : Pending) : p.handshakes.pending[i]? = some h →
      p.Oldest peer (.pending h) h.order →
      q.handshakes.pending = p.handshakes.pending.eraseIdx i →
      q.manager.active = p.manager.active → Evicts peer p q
  | session (sid : String) (order : UInt64) : p.Oldest peer (.session sid) order →
      q.handshakes.pending = p.handshakes.pending →
      q.manager.active = p.manager.active.erase sid → Evicts peer p q

theorem holds_pending_iff {h : Pending} {order : UInt64} :
    p.Holds peer (.pending h) order ↔ (∃ i, (h, i) ∈ p.pendingWith peer) ∧ h.order = order := by
  rw [Holds, List.mem_iff_getElem?, ← and_assoc]
  simp only [mem_pendingWith, exists_and_right]

/-- A turn that goes on has dropped the oldest entry. -/
theorem boundTurn_evicts (hturn : boundTurn peer p = .inl r) : Evicts peer p r := by
  have hpending {h : Pending} {i : ℕ} (hmin : (h, i) ∈ (p.pendingWith peer).argmin (·.1.order.toNat))
      {h' : Pending} {order : UInt64} (hh' : p.Holds peer (.pending h') order) : h.order ≤ order := by
    obtain ⟨⟨j, hj⟩, rfl⟩ := holds_pending_iff.mp hh'
    have hle := List.le_of_mem_argmin hj hmin
    exact UInt64.le_iff_toNat_le.mpr hle
  have hsession {sid : String} {order : UInt64}
      (hmin : (sid, order) ∈ (p.halfOpen peer).argmin (·.2.toNat)) {sid' : String} {order' : UInt64}
      (hh' : p.Holds peer (.session sid') order') : order ≤ order' := by
    have hle := List.le_of_mem_argmin (mem_halfOpen.mpr hh') hmin
    exact UInt64.le_iff_toNat_le.mpr hle
  have hdrop {h : Pending} {i : ℕ} (hmin : (h, i) ∈ (p.pendingWith peer).argmin (·.1.order.toNat))
      (hfirst : ∀ sid order, p.Holds peer (.session sid) order → h.order ≤ order) :
      Evicts peer p (p.dropPending i) := by
    have hmem := List.argmin_mem hmin
    refine .pending i h (mem_pendingWith.mp hmem).1 ⟨holds_pending_iff.mpr ⟨⟨i, hmem⟩, rfl⟩, ?_⟩
      rfl rfl
    rintro (h' | sid) order hh'
    · exact hpending hmin hh'
    · exact hfirst sid order hh'
  have hevict {sid : String} {order : UInt64}
      (hmin : (sid, order) ∈ (p.halfOpen peer).argmin (·.2.toNat))
      (hfirst : ∀ h order', p.Holds peer (.pending h) order' → order ≤ order') :
      Evicts peer p (p.evict sid) := by
    refine .session sid order ⟨mem_halfOpen.mp (List.argmin_mem hmin), ?_⟩ rfl rfl
    rintro (h | sid') order' hh'
    · exact hfirst h order' hh'
    · exact hsession hmin hh'
  unfold boundTurn at hturn
  split at hturn
  · cases hturn
  · split at hturn
    · next oldest i sid order hp ha =>
      rw [Sum.inl.injEq] at hturn
      split at hturn <;> subst hturn
      · next hlt =>
        exact hdrop hp fun sid' order' hh' =>
          UInt64.le_of_lt (UInt64.lt_of_lt_of_le hlt (hsession ha hh'))
      · next hge =>
        exact hevict ha fun h order' hh' => UInt64.le_trans (UInt64.not_lt.mp hge) (hpending hp hh')
    · next oldest i hp ha =>
      cases hturn
      refine hdrop hp fun sid order hh' => ?_
      have hnone := List.argmin_eq_none.mp ha
      exact absurd (mem_halfOpen.mpr hh') (by simp [hnone])
    · next sid order hp ha =>
      cases hturn
      refine hevict ha fun h order' hh' => ?_
      obtain ⟨⟨j, hj⟩, -⟩ := holds_pending_iff.mp hh'
      exact absurd hj (by simp [List.argmin_eq_none.mp hp])
    · cases hturn

theorem pendingOf_eraseIdx {i : ℕ} {h : Pending} (hi : p.handshakes.pending[i]? = some h)
    (hto : h.hello.to_ = peer) :
    ((p.handshakes.pending.eraseIdx i).filter fun q => q.hello.to_ = peer).length + 1 =
      (p.pendingOf peer).length := by
  obtain ⟨hlt, rfl⟩ := List.getElem?_eq_some_iff.mp hi
  have hperm := ((List.getElem_cons_eraseIdx_perm hlt).filter fun q => q.hello.to_ = peer).length_eq
  rw [List.filter_cons_of_pos (by simpa using hto), List.length_cons] at hperm
  exact hperm

theorem ackSent_congr (h : q.manager.active = p.manager.active) (peer : String) :
    q.ackSent peer = p.ackSent peer := by
  rw [ackSent, h, ackSent]

theorem pendingOf_congr (h : q.handshakes.pending = p.handshakes.pending) (peer : String) :
    q.pendingOf peer = p.pendingOf peer := by
  rw [pendingOf, h, pendingOf]

theorem boundTurn_count (hturn : boundTurn peer p = .inl r) :
    r.halfOpenCount peer + 1 = p.halfOpenCount peer := by
  have hevicts := boundTurn_evicts hturn
  have hdrops := boundTurn_drops hturn
  unfold halfOpenCount
  cases hevicts with
  | nothing hpending hactive =>
    rw [hpending, hactive] at hdrops
    exact absurd hdrops (Nat.lt_irrefl _)
  | pending i h hi hold hpending hactive =>
    have hcount := pendingOf_eraseIdx hi hold.1.2.1
    rw [pendingOf, hpending, ackSent_congr hactive]
    omega
  | session sid order hold hpending hactive =>
    obtain ⟨s, x, hs, hpeer, hstate, -, -⟩ := hold.1
    have herase : r.ackSent peer = (p.ackSent peer).erase sid := by
      ext k
      rw [Finset.mem_erase, mem_ackSent, mem_ackSent, hactive, lookup_erase]
      by_cases hk : k = sid <;> simp [hk]
    have hmem : sid ∈ p.ackSent peer := mem_ackSent.mpr ⟨s, hs, hpeer, hstate⟩
    rw [pendingOf_congr hpending, herase, add_assoc, Finset.card_erase_add_one hmem]

/-- The loop stops below the quota only. -/
theorem boundTurn_stops (hp : p.Covered) (hturn : boundTurn peer p = .inr r) :
    p.halfOpenCount peer < 4 := by
  rw [halfOpenCount, ← length_pendingWith, ← length_halfOpen hp]
  unfold boundTurn at hturn
  split at hturn
  · assumption
  · split at hturn
    · cases hturn
    · cases hturn
    · cases hturn
    · next hpending hactive =>
      rw [List.argmin_eq_none.mp hpending, List.argmin_eq_none.mp hactive]
      decide

theorem Trimmed.covered (h : Trimmed p q) (hp : p.Covered) : q.Covered := by
  intro sid s hs
  rw [h.exchanges]
  rcases h.active sid with heq | hnone
  · exact hp sid s (heq.symm.trans hs)
  · rw [hnone] at hs
    cases hs

/-- The loop always stops, and `boundPending` is where. -/
theorem boundPending_loop (p : Party) (peer : String) :
    Loop.Returns (boundTurn peer) p (p.boundPending peer) := by
  obtain ⟨r, hr⟩ := boundPending_returns p peer
  refine ⟨_, hr.trans ?_⟩
  rw [boundPending, hr, Option.getD_some]

/-- From a quota that is kept, one turn is enough. -/
theorem boundPending_room (hp : p.Covered) (hle : p.halfOpenCount peer ≤ 4) :
    (p.boundPending peer).halfOpenCount peer < 4 ∧ Evicts peer p (p.boundPending peer) := by
  obtain ⟨n, hn⟩ := boundPending_loop p peer
  refine Loop.iterate_post
    (fun q => Trimmed p q ∧ (q = p ∨ q.halfOpenCount peer < 4 ∧ Evicts peer p q))
    (fun q => q.halfOpenCount peer < 4 ∧ Evicts peer p q) ?_ ?_ ⟨.refl p, .inl rfl⟩ hn
  · rintro q r ⟨htrim, hq⟩ hturn
    refine ⟨boundTurn_trimmed htrim hturn, .inr ?_⟩
    have hcount := boundTurn_count hturn
    rcases hq with rfl | ⟨hlt, -⟩
    · exact ⟨by omega, boundTurn_evicts hturn⟩
    · -- below the quota no turn goes on
      exfalso
      unfold boundTurn at hturn
      rw [length_pendingWith, length_halfOpen (htrim.covered hp), ← halfOpenCount, if_pos hlt] at hturn
      cases hturn
  · rintro q r ⟨htrim, hq⟩ hturn
    obtain rfl := boundTurn_exit hturn
    rcases hq with rfl | hroom
    · exact ⟨boundTurn_stops hp hturn, .nothing rfl rfl⟩
    · exact hroom

/-- Room is made from the entries of `p`. -/
theorem MadeRoom.room (h : MadeRoom peer p q) (hp : p.Covered) (hle : p.halfOpenCount peer ≤ 4) :
    q.halfOpenCount peer < 4 ∧ Evicts peer p q := by
  obtain ⟨k, hpending, hexchanges, -, rfl⟩ := h
  obtain ⟨m, pending, exchanges, seen, seenOrder, order⟩ := p
  obtain ⟨pending', exchanges', seen', seenOrder', order'⟩ := k
  obtain rfl : pending' = pending := hpending
  obtain rfl : exchanges' = exchanges := hexchanges
  obtain ⟨hlt, hevicts⟩ :=
    boundPending_room (p := ⟨m, pending', exchanges', seen', seenOrder', order'⟩) hp hle
  refine ⟨hlt, ?_⟩
  cases hevicts with
  | nothing hpending hactive => exact .nothing hpending hactive
  | pending i h hi hold hpending hactive => exact .pending i h hi hold hpending hactive
  | session sid order hold hpending hactive => exact .session sid order hold hpending hactive

theorem Evicts.active (h : Evicts peer p q) {k : String} {s : Session}
    (hs : p.manager.active[k]? = some s) :
    q.manager.active[k]? = some s ∨
      q.manager.active[k]? = none ∧ s.info.peer = peer ∧ s.info.state = .ackSent := by
  cases h with
  | nothing _ hactive => exact .inl (hactive ▸ hs)
  | pending _ _ _ _ _ hactive => exact .inl (hactive ▸ hs)
  | session sid order hold _ hactive =>
    obtain ⟨t, x, ht, hpeer, hstate, -, -⟩ := hold.1
    rw [hactive, lookup_erase]
    by_cases hk : k = sid
    · subst hk
      obtain rfl := Option.some.inj (ht.symm.trans hs)
      exact .inr ⟨if_pos rfl, hpeer, hstate⟩
    · exact .inl ((if_neg hk).trans hs)

theorem Evicts.holds (h : Evicts peer p q) (hexchanges : q.handshakes.exchanges = p.handshakes.exchanges)
    {peer' : String} {e : HalfOpen} {order : UInt64} (he : p.Holds peer' e order) :
    q.Holds peer' e order ∨ peer' = peer ∧ p.Oldest peer e order := by
  cases e with
  | pending h' =>
    obtain ⟨hmem, hto, rfl⟩ := he
    cases h with
    | nothing hpending _ => exact .inl ⟨hpending ▸ hmem, hto, rfl⟩
    | session _ _ _ hpending _ => exact .inl ⟨hpending ▸ hmem, hto, rfl⟩
    | pending i h hi hold hpending _ =>
      obtain ⟨hlt, rfl⟩ := List.getElem?_eq_some_iff.mp hi
      rcases List.mem_cons.mp ((List.getElem_cons_eraseIdx_perm hlt).mem_iff.mpr hmem) with rfl | hmem
      · exact .inr ⟨hto.symm.trans hold.1.2.1, hold⟩
      · exact .inl ⟨hpending ▸ hmem, hto, rfl⟩
  | session sid =>
    obtain ⟨s, x, hs, hpeer, hstate, hx, horder⟩ := he
    have hkept (hactive : q.manager.active[sid]? = some s) : q.Holds peer' (.session sid) order :=
      ⟨s, x, hactive, hpeer, hstate, hexchanges ▸ hx, horder⟩
    cases h with
    | nothing _ hactive => exact .inl (hkept (hactive ▸ hs))
    | pending _ _ _ _ _ hactive => exact .inl (hkept (hactive ▸ hs))
    | session sid' order' hold _ hactive =>
      by_cases hk : sid = sid'
      · subst hk
        obtain ⟨t, y, ht, hpeer', hstate', hy, rfl⟩ := hold.1
        obtain rfl := Option.some.inj (hs.symm.trans ht)
        obtain rfl := Option.some.inj (hx.symm.trans hy)
        exact .inr ⟨hpeer.symm.trans hpeer', horder ▸ hold⟩
      · refine .inl (hkept ?_)
        rw [hactive, lookup_erase, if_neg hk, hs]

/-! ## What every manager keeps -/

/-- The quota is kept for every peer, and no two entries have one number. -/
structure Quota (p : Party) : Prop where
  covered : p.Covered
  bounded : ∀ peer, p.halfOpenCount peer ≤ 4
  numbered : ∀ peer e order, p.Holds peer e order → order ≤ p.handshakes.order
  distinct : ∀ peer peer' e e' order, p.Holds peer e order → p.Holds peer' e' order → e = e'

theorem Quota.of_fewer (h : p.Quota) (hcovered : q.Covered)
    (hholds : ∀ peer e order, q.Holds peer e order → p.Holds peer e order)
    (hpending : q.handshakes.pending.Sublist p.handshakes.pending)
    (hsessions : ∀ peer, q.ackSent peer ⊆ p.ackSent peer)
    (horder : p.handshakes.order ≤ q.handshakes.order) : q.Quota where
  covered := hcovered
  bounded peer := by
    have hle := h.bounded peer
    have hpendings := (hpending.filter fun q => q.hello.to_ = peer).length_le
    have hcard := Finset.card_le_card (hsessions peer)
    unfold halfOpenCount pendingOf at hle ⊢
    omega
  numbered peer e order he := UInt64.le_trans (h.numbered peer e order (hholds _ _ _ he)) horder
  distinct peer peer' e e' order he he' :=
    h.distinct peer peer' e e' order (hholds _ _ _ he) (hholds _ _ _ he')

/-- Sessions were dropped or confirmed, and pending handshakes dropped. -/
structure Wanes (p q : Party) : Prop where
  active : ∀ (sid : String) (t : Session), q.manager.active[sid]? = some t →
    ∃ s, p.manager.active[sid]? = some s ∧ t.info.peer = s.info.peer ∧
      (t.info.state = .ackSent → s.info.state = .ackSent)
  pending : q.handshakes.pending.Sublist p.handshakes.pending
  exchanges : q.handshakes.exchanges = p.handshakes.exchanges
  order : q.handshakes.order = p.handshakes.order

theorem Wanes.holds (h : Wanes p q) {e : HalfOpen} {order : UInt64} (he : q.Holds peer e order) :
    p.Holds peer e order := by
  cases e with
  | pending k => exact ⟨h.pending.subset he.1, he.2⟩
  | session sid =>
    obtain ⟨t, x, ht, hpeer, hstate, hx, horder⟩ := he
    obtain ⟨s, hs, hsame, hconfirmed⟩ := h.active sid t ht
    exact ⟨s, x, hs, hsame ▸ hpeer, hconfirmed hstate, h.exchanges ▸ hx, horder⟩

theorem Quota.wanes (h : p.Quota) (hw : Wanes p q) : q.Quota := by
  refine h.of_fewer ?_ (fun _ _ _ => hw.holds) hw.pending ?_ (UInt64.le_of_eq hw.order.symm)
  · intro sid t ht
    obtain ⟨s, hs, -⟩ := hw.active sid t ht
    rw [hw.exchanges]
    exact h.covered sid s hs
  · intro peer sid hsid
    obtain ⟨t, ht, hpeer, hstate⟩ := mem_ackSent.mp hsid
    obtain ⟨s, hs, hsame, hconfirmed⟩ := hw.active sid t ht
    exact mem_ackSent.mpr ⟨s, hs, hsame ▸ hpeer, hconfirmed hstate⟩

theorem Trimmed.wanes (h : Trimmed p q) : Wanes p q := by
  refine ⟨fun sid t ht => ?_, h.pending, h.exchanges, h.order⟩
  rcases h.active sid with heq | hnone
  · exact ⟨t, heq.symm.trans ht, rfl, id⟩
  · rw [hnone] at ht
    cases ht

theorem nextOrder_above {order : UInt64} (h : p.handshakes.nextOrder = .ok order) :
    p.handshakes.order < order := by
  unfold Handshakes.nextOrder at h
  split_ifs at h with hmax
  obtain rfl := Except.ok.inj h
  rw [UInt64.lt_iff_toNat_lt, toNat_succ hmax]
  exact Nat.lt_succ_self _

/-- With room made under the next number there is place for one entry of the peer, and the number
is free. -/
theorem Quota.room (h : p.Quota) {order : UInt64} (horder : p.handshakes.nextOrder = .ok order)
    (hroom : MadeRoom peer (p.withOrder order) q) :
    q.Quota ∧ q.halfOpenCount peer < 4 ∧ ∀ peer' e n, q.Holds peer' e n → n < order := by
  have habove := nextOrder_above horder
  have hordered : (p.withOrder order).Quota :=
    ⟨h.covered, h.bounded, fun peer e n he =>
      UInt64.le_trans (h.numbered peer e n he) (UInt64.le_of_lt habove), h.distinct⟩
  have hwanes := hroom.trimmed.wanes
  refine ⟨hordered.wanes hwanes, (hroom.room hordered.covered (hordered.bounded peer)).1, ?_⟩
  intro peer' e n he
  exact UInt64.lt_of_le_of_lt (h.numbered peer' e n (hwanes.holds he)) habove

/-! ## Calls -/

theorem Quota.add (h : q.Quota) {new : HalfOpen} {order : UInt64} (hcovered : r.Covered)
    (hbounded : ∀ peer, r.halfOpenCount peer ≤ 4)
    (hcases : ∀ peer e n, r.Holds peer e n → q.Holds peer e n ∨ e = new ∧ n = order)
    (hfree : ∀ peer e n, q.Holds peer e n → n < order) (horder : r.handshakes.order = order) :
    r.Quota := by
  refine ⟨hcovered, hbounded, fun peer e n he => ?_, fun a b e e' n he he' => ?_⟩
  · rcases hcases peer e n he with he | ⟨-, rfl⟩
    · exact horder ▸ UInt64.le_of_lt (hfree peer e n he)
    · exact UInt64.le_of_eq horder.symm
  · rcases hcases a e n he with he | ⟨rfl, rfl⟩ <;> rcases hcases b e' _ he' with he' | ⟨rfl, hn⟩
    · exact h.distinct a b e e' n he he'
    · exact absurd (hn ▸ hfree a e n he) (UInt64.lt_irrefl _)
    · exact absurd (hfree b e' _ he') (UInt64.lt_irrefl _)
    · rfl

/-- A pending handshake takes the place that was made for it. -/
theorem Quota.push (h : q.Quota) {new : Pending} (hto : new.hello.to_ = peer)
    (hplace : q.halfOpenCount peer < 4) (hfree : ∀ peer' e n, q.Holds peer' e n → n < new.order)
    (horder : q.handshakes.order = new.order) :
    Quota { q with handshakes.pending := q.handshakes.pending ++ [new] } := by
  have hcases {peer' : String} {e : HalfOpen} {n : UInt64}
      (he : Holds { q with handshakes.pending := q.handshakes.pending ++ [new] } peer' e n) :
      q.Holds peer' e n ∨ e = .pending new ∧ n = new.order := by
    cases e with
    | session sid => exact .inl he
    | pending k =>
      obtain ⟨hmem, hpeer, rfl⟩ := he
      rcases List.mem_append.mp hmem with hmem | hmem
      · exact .inl ⟨hmem, hpeer, rfl⟩
      · obtain rfl := List.mem_singleton.mp hmem
        exact .inr ⟨rfl, rfl⟩
  refine h.add h.covered (fun peer' => ?_) (fun _ _ _ => hcases) hfree horder
  · have hle := h.bounded peer'
    unfold halfOpenCount pendingOf at hle hplace ⊢
    rw [List.filter_append, List.length_append]
    change _ + _ + (q.ackSent peer').card ≤ 4
    by_cases hpeer : peer' = peer
    · subst hpeer
      rw [List.filter_cons_of_pos (by simpa using hto), List.filter_nil, List.length_singleton]
      omega
    · rw [List.filter_cons_of_neg (by simpa [hto] using Ne.symm hpeer), List.filter_nil,
        List.length_nil]
      omega

/-- A half-open session takes the place that was made for it. -/
theorem Quota.answer (h : q.Quota) {s : Session} {x : Exchange} (hpeer : s.info.peer = peer)
    (hplace : q.halfOpenCount peer < 4) (hfree : ∀ peer' e n, q.Holds peer' e n → n < x.order)
    (horder : q.handshakes.order = x.order) : (q.insertSession sid s x).Quota := by
  have hcases {peer' : String} {e : HalfOpen} {n : UInt64}
      (he : (q.insertSession sid s x).Holds peer' e n) :
      q.Holds peer' e n ∨ e = .session sid ∧ n = x.order := by
    cases e with
    | pending k => exact .inl he
    | session k =>
      obtain ⟨t, y, ht, hpeer', hstate, hy, rfl⟩ := he
      rw [active_insertSession] at ht
      rw [exchanges_insertSession] at hy
      by_cases hk : k = sid
      · rw [if_pos hk] at hy
        obtain rfl := Option.some.inj hy
        exact .inr ⟨congrArg HalfOpen.session hk, rfl⟩
      · rw [if_neg hk] at ht hy
        exact .inl ⟨t, y, ht, hpeer', hstate, hy, rfl⟩
  refine h.add ?_ (fun peer' => ?_) (fun _ _ _ => hcases) hfree horder
  · intro k t ht
    rw [active_insertSession] at ht
    rw [exchanges_insertSession]
    by_cases hk : k = sid
    · exact ⟨x, if_pos hk⟩
    · rw [if_neg hk] at ht ⊢
      exact h.covered k t ht
  · have hle := h.bounded peer'
    have hsame : (q.insertSession sid s x).pendingOf peer' = q.pendingOf peer' := rfl
    unfold halfOpenCount at hle hplace ⊢
    rw [hsame]
    by_cases hpeer' : peer' = peer
    · subst hpeer'
      have hsubset : (q.insertSession sid s x).ackSent peer' ⊆ insert sid (q.ackSent peer') := by
        intro k hk
        obtain ⟨t, ht, htpeer, hstate⟩ := mem_ackSent.mp hk
        rw [active_insertSession] at ht
        split_ifs at ht with hsid
        · exact hsid ▸ Finset.mem_insert_self k _
        · exact Finset.mem_insert_of_mem (mem_ackSent.mpr ⟨t, ht, htpeer, hstate⟩)
      have hcard := (Finset.card_le_card hsubset).trans (Finset.card_insert_le _ _)
      omega
    · have hsubset : (q.insertSession sid s x).ackSent peer' ⊆ q.ackSent peer' := by
        intro k hk
        obtain ⟨t, ht, htpeer, hstate⟩ := mem_ackSent.mp hk
        rw [active_insertSession] at ht
        split_ifs at ht with hsid
        · obtain rfl := Option.some.inj ht
          exact absurd (htpeer.symm.trans hpeer) hpeer'
        · exact mem_ackSent.mpr ⟨t, ht, htpeer, hstate⟩
      have hcard := Finset.card_le_card hsubset
      omega

theorem Quota.initiate (h : p.Quota) (peer context : String) (pin : Vector UInt8 32)
    (entropy : Entropy) : (p.initiate F K peer context pin entropy).1.Quota := by
  rcases initiate_cases (F := F) (K := K) p peer context pin entropy with
    ⟨e, hsame⟩ | ⟨env, ephemeral, order, q, hhello, horder, hroom, hnew⟩
  · rw [hsame]
    exact h
  · rw [hnew]
    obtain ⟨hquota, hplace, hfree⟩ := h.room horder hroom
    exact hquota.push (hello_ok hhello).2.1 hplace hfree hroom.trimmed.order

theorem Quota.respond (h : p.Quota) (context : String) (hello : SecureEnvelope)
    (pin : Vector UInt8 32) (entropy : Entropy) :
    (p.respond F K context hello pin entropy).1.Quota := by
  rcases respond_cases (F := F) (K := K) p context hello pin entropy with
    ⟨k, result, hpending, hexchanges, horder, hsame⟩ |
      ⟨env, sid, keys, order, q, s, -, horder, hroom, rfl, hnew⟩
  · rw [hsame]
    refine h.wanes ⟨fun sid t ht => ⟨t, ht, rfl, id⟩, ?_, hexchanges, horder⟩
    exact hpending ▸ List.Sublist.refl _
  · rw [hnew]
    obtain ⟨hquota, hplace, hfree⟩ := h.room horder hroom
    exact hquota.answer rfl hplace hfree hroom.trimmed.order

/-- A completed handshake turns a pending entry into an established session. -/
theorem Quota.complete (h : p.Quota) (context : String) (ack : SecureEnvelope) :
    (p.complete F K context ack).1.Quota := by
  rcases complete_cases (F := F) (K := K) p context ack with
    ⟨result, hsame, -⟩ | ⟨i, k, sid, keys, -, -, -, -, -, -, hnew⟩
  · rw [hsame]
    exact h
  · rw [hnew]
    refine h.of_fewer ?_ ?_ (List.eraseIdx_sublist _ _) ?_ UInt64.le_rfl
    · intro j t ht
      rw [active_insertSession] at ht
      rw [exchanges_insertSession]
      split_ifs at ht ⊢
      · exact ⟨_, rfl⟩
      · exact h.covered j t ht
    · rintro peer (j | j) order he
      · exact ⟨(List.eraseIdx_sublist _ _).subset he.1, he.2⟩
      · obtain ⟨t, x, ht, hpeer, hstate, hx, horder⟩ := he
        rw [active_insertSession] at ht
        rw [exchanges_insertSession] at hx
        split_ifs at ht hx
        · obtain rfl := Option.some.inj ht
          cases hstate
        · exact ⟨t, x, ht, hpeer, hstate, hx, horder⟩
    · intro peer j hj
      obtain ⟨t, ht, hpeer, hstate⟩ := mem_ackSent.mp hj
      rw [active_insertSession] at ht
      split_ifs at ht
      · obtain rfl := Option.some.inj ht
        cases hstate
      · exact mem_ackSent.mpr ⟨t, ht, hpeer, hstate⟩

theorem wanes_of_manager {m : SessionManager}
    (hactive : ∀ (sid : String) (t : Session), m.active[sid]? = some t →
      ∃ s, p.manager.active[sid]? = some s ∧ t.info.peer = s.info.peer ∧
        (t.info.state = .ackSent → s.info.state = .ackSent)) : Wanes p { p with manager := m } :=
  ⟨hactive, List.Sublist.refl _, rfl, rfl⟩

theorem wanes_remove (p : Party) (sid : String) : Wanes p (p.evict sid) :=
  ((Trimmed.refl p).evict sid).wanes

theorem wanes_put {s t : Session} (hs : p.manager.active[sid]? = some s)
    (hpeer : t.info.peer = s.info.peer) (hstate : t.info.state = .ackSent → s.info.state = .ackSent) :
    Wanes p { p with manager := p.manager.put sid t } := by
  refine wanes_of_manager fun k u hu => ?_
  rw [SessionManager.active_put] at hu
  split_ifs at hu with hk
  · obtain rfl := Option.some.inj hu
    exact ⟨s, hk ▸ hs, hpeer, hstate⟩
  · exact ⟨u, hu, rfl, id⟩

theorem Wanes.refl (p : Party) : Wanes p p := (Trimmed.refl p).wanes

theorem Wanes.trans (h : Wanes p q) (h' : Wanes q r) : Wanes p r where
  active sid t ht := by
    obtain ⟨s, hs, hpeer, hstate⟩ := h'.active sid t ht
    obtain ⟨u, hu, hpeer', hstate'⟩ := h.active sid s hs
    exact ⟨u, hu, hpeer.trans hpeer', fun hack => hstate' (hstate hack)⟩
  pending := h'.pending.trans h.pending
  exchanges := h'.exchanges.trans h.exchanges
  order := h'.order.trans h.order

theorem seal_wanes (p : Party) (sid : String) (seq : UInt64) (contract : String) (payload : Bytes) :
    Wanes p { p with manager := (p.manager.seal_ F sid seq contract payload).1 } := by
  have hstep := SessionManager.seal_step (F := F) p.manager sid seq contract payload
  generalize p.manager.seal_ F sid seq contract payload = result at hstep ⊢
  cases hstep with
  | unknown => exact .refl p
  | outOfStep => exact .refl p
  | refused => exact .refl p
  | exhausted => exact wanes_remove p sid
  | sealed hs => exact wanes_put hs rfl id
  | @failed s _ hs =>
    have hput : Wanes p { p with
        manager := p.manager.put sid { s with info.sendSeq := s.info.sendSeq + 1 } } :=
      wanes_put hs rfl id
    exact hput.trans (wanes_remove _ sid)

theorem open_wanes (p : Party) (env : SecureEnvelope) :
    Wanes p { p with manager := (p.manager.openAuthenticated F env).1 } := by
  unfold SessionManager.openAuthenticated
  split
  · exact .refl p
  · split
    · next sid seq hsid hseq =>
      split_ifs
      · exact wanes_remove p sid
      · split
        · exact .refl p
        · next s hs =>
          split
          · exact .refl p
          · exact wanes_put hs rfl nofun
    · exact .refl p

theorem close_wanes (p : Party) (sid : String) :
    Wanes p { p with manager := (p.manager.close sid).1 } := by
  unfold SessionManager.close
  split
  · exact wanes_remove p sid
  · exact .refl p

theorem closeContext_wanes (p : Party) (context : String) : Wanes p (p.closeContext context) := by
  refine ⟨fun sid t ht => ?_, List.filter_sublist, rfl, rfl⟩
  rw [closeContext, ExtTreeMap.getElem?_filter', Option.filter_eq_some_iff] at ht
  exact ⟨t, ht.1, rfl, id⟩

theorem Quota.call (h : p.Quota) (c : HandshakeCall) : (p.call F K c).1.Quota := by
  cases c with
  | initiate peer context pin entropy => exact h.initiate peer context pin entropy
  | respond context hello pin entropy => exact h.respond context hello pin entropy
  | complete context ack => exact h.complete context ack
  | seal_ sid seq contract payload => exact h.wanes (p.seal_wanes sid seq contract payload)
  | open_ env => exact h.wanes (p.open_wanes env)
  | close sid => exact h.wanes (p.close_wanes sid)
  | closeContext context => exact h.wanes (p.closeContext_wanes context)

end Party

end Hacp.Secure
