import Hacp.Lib.BoundedMemory
import Hacp.Secure.ManagerRun

/-!
# Answered hellos stay answered

What a manager remembers of hellos is a memory of the context and the signature of
every hello that passed its checks, whichever call checked it. No other call touches
it, and no eviction of a session does. A rescan of a hello that is still remembered
changes nothing.
-/
namespace Hacp.Secure
open Lib Std

/-- The two fields a manager remembers hellos in. -/
def Handshakes.memory (h : Handshakes) : Memory (String × String) :=
  ⟨h.seenHellos, h.seenHelloOrder⟩

theorem Handshakes.memory_rememberHello (h : Handshakes) (context signature : String) :
    (h.rememberHello context signature).memory =
      h.memory.remember seenHelloLimit (context, signature) := by
  by_cases hseen : (context, signature) ∈ h.seenHellos <;>
    simp [rememberHello, Memory.remember, memory, hseen]

namespace Party
variable {F : Foreign} {K : KeyExchange} {p q : Party} {peer context : String}
  {hello : SecureEnvelope} {pin : Vector UInt8 32} {entropy : Entropy}

/-- The context and the signature of a hello that passes its checks. -/
def authenticates (F : Foreign) (p : Party) : ManagerCall → Option (String × String)
  | .handshake (.respond context hello pin _) | .respondOnce context hello pin _ =>
    (p.checkHello F context hello pin).toOption.map fun sig => (context, sig)
  | .handshake _ => none

theorem checkHello_sig {sig : String} (h : p.checkHello F context hello pin = .ok sig) :
    hello.sig = some sig := by
  unfold checkHello at h
  simp only [bind_eq_ok, guard_eq_ok, SessionManager.required_eq_ok] at h
  grind

theorem boundTurn_memory {r : Party} (hturn : boundTurn peer p = .inl r) :
    r.handshakes.memory = p.handshakes.memory := by
  unfold boundTurn at hturn
  split at hturn
  · cases hturn
  · split at hturn
    · rw [Sum.inl.injEq] at hturn
      split at hturn <;> subst hturn <;> rfl
    · cases hturn
      rfl
    · cases hturn
      rfl
    · cases hturn

/-- Making room forgets sessions and handshakes, but no hello. -/
theorem boundPending_memory (p : Party) (peer : String) :
    (p.boundPending peer).handshakes.memory = p.handshakes.memory := by
  obtain ⟨r, hr⟩ := boundPending_returns p peer
  have hkept := Loop.iterate_post (fun q : Party => q.handshakes.memory = p.handshakes.memory)
    (fun q : Party => q.handshakes.memory = p.handshakes.memory)
    (fun _ _ hs hturn => (boundTurn_memory hturn).trans hs)
    (fun _ _ hs hturn => by rw [boundTurn_exit hturn]; exact hs) rfl hr
  rw [boundPending, hr]
  exact hkept

theorem initiate_memory (p : Party) (peer context : String) (pin : Vector UInt8 32)
    (entropy : Entropy) :
    (p.initiate F K peer context pin entropy).1.handshakes.memory = p.handshakes.memory := by
  unfold initiate
  cases p.hello F K peer context entropy with
  | error e => rfl
  | ok made =>
    obtain ⟨env, ephemeral⟩ := made
    cases p.handshakes.nextOrder with
    | error e => rfl
    | ok order => exact boundPending_memory (p.withOrder order) peer

/-- An answer remembers the hello as soon as it is authenticated, whatever becomes of the ack. -/
theorem respond_memory {sig : String} (h : p.checkHello F context hello pin = .ok sig) :
    (p.respond F K context hello pin entropy).1.handshakes.memory =
      p.handshakes.memory.remember seenHelloLimit (context, sig) := by
  have hmemory := p.handshakes.memory_rememberHello context sig
  unfold respond
  rw [h]
  dsimp only
  split
  · exact hmemory
  · split
    · exact hmemory
    · split
      · exact hmemory
      · next order _ =>
        have hroom := boundPending_memory
          (Party.withOrder ⟨p.manager, p.handshakes.rememberHello context sig⟩ order) hello.from_
        exact hroom.trans hmemory

/-- A hello that fails its checks changes nothing. -/
theorem respond_refused {e : SecureError} (h : p.checkHello F context hello pin = .error e) :
    p.respond F K context hello pin entropy = (p, ⟨none, .error e⟩) := by
  unfold respond
  rw [h]

/-- A hello that was answered gets no second answer and changes nothing. -/
theorem respondOnce_seen {sig : String} (hsig : hello.sig = some sig)
    (hseen : (context, sig) ∈ p.handshakes.seenHellos) :
    p.respondOnce F K context hello pin entropy =
      (p, none, (p.checkHello F context hello pin).map fun _ => none) := by
  unfold respondOnce
  cases hcheck : p.checkHello F context hello pin with
  | error e => rfl
  | ok sig' =>
    have hsame : sig' = sig := Option.some.inj ((checkHello_sig hcheck).symm.trans hsig)
    subst hsame
    exact if_pos hseen

/-- Only a hello that is authenticated and not remembered gets an ack. -/
theorem respondOnce_acks {ack : SecureEnvelope}
    (h : (p.respondOnce F K context hello pin entropy).2.2 = .ok (some ack)) :
    ∃ sig, p.checkHello F context hello pin = .ok sig ∧
      (context, sig) ∉ p.handshakes.seenHellos := by
  unfold respondOnce at h
  cases hcheck : p.checkHello F context hello pin with
  | error e =>
    rw [hcheck] at h
    cases h
  | ok sig =>
    rw [hcheck] at h
    dsimp only at h
    split_ifs at h with hseen
    · cases h
    · exact ⟨sig, rfl, hseen⟩

end Party

/-! ## Runs -/

section Runs
variable {F : Foreign} {K : KeyExchange} {p p₀ : Party} {local_ : String}
  {identity : Vector UInt8 32} {past : List ManagerEvent}

def authenticated (F : Foreign) (e : ManagerEvent) : Option (String × String) :=
  e.before.authenticates F e.input

/-- The hello for which answering once has produced an ack. -/
def ackedOnce (e : ManagerEvent) : Option (String × String) :=
  match e.input, e.output with
  | .respondOnce context hello _ _, .answeredOnce _ (.ok (some _)) =>
    hello.sig.map fun sig => (context, sig)
  | _, _ => none

/-- One call remembers the hello it has authenticated, and no other. -/
theorem step_memory (c : ManagerCall) :
    ((managerMachine F K).step p c).1.handshakes.memory =
      (p.authenticates F c).toList.foldl (Memory.remember seenHelloLimit) p.handshakes.memory := by
  have hrespond (context : String) (hello : SecureEnvelope) (pin : Vector UInt8 32)
      (entropy : Entropy) :
      (p.respond F K context hello pin entropy).1.handshakes.memory =
        (p.authenticates F (.respondOnce context hello pin entropy)).toList.foldl
          (Memory.remember seenHelloLimit) p.handshakes.memory := by
    cases hcheck : p.checkHello F context hello pin with
    | error e =>
      rw [Party.respond_refused hcheck]
      simp [Party.authenticates, hcheck, Except.toOption]
    | ok sig =>
      rw [Party.respond_memory hcheck]
      simp [Party.authenticates, hcheck, Except.toOption]
  cases c with
  | respondOnce context hello pin entropy =>
    change (p.respondOnce F K context hello pin entropy).1.handshakes.memory = _
    rw [← hrespond context hello pin entropy]
    unfold Party.respondOnce
    cases hcheck : p.checkHello F context hello pin with
    | error e => rw [Party.respond_refused hcheck]
    | ok sig =>
      dsimp only
      split_ifs with hseen
      · rw [Party.respond_memory hcheck]
        exact (Memory.remember_of_mem hseen).symm
      · rfl
  | handshake c =>
    cases c with
    | initiate peer context pin entropy => exact p.initiate_memory peer context pin entropy
    | respond context hello pin entropy => exact hrespond context hello pin entropy
    | complete context ack =>
      change (p.complete F K context ack).1.handshakes.memory = p.handshakes.memory
      rcases Party.complete_cases (F := F) (K := K) p context ack with
        ⟨result, hsame, -⟩ | ⟨i, h, sid, keys, -, -, -, -, -, -, hnew⟩
      · rw [hsame]
      · rw [hnew]
        rfl
    | seal_ sid seq contract payload => rfl
    | open_ env => rfl
    | close sid => rfl
    | closeContext context => rfl

/-- What a manager remembers is what a memory has left of the hellos it has authenticated. -/
theorem exec_memory (hstart : Party.new local_ identity = .ok p₀) (calls : List ManagerCall) :
    ((managerMachine F K).exec p₀ calls).handshakes.memory = Memory.remembered seenHelloLimit
      (((managerMachine F K).history p₀ calls).filterMap (authenticated F)) := by
  induction calls using List.reverseRecOn with
  | nil =>
    unfold Party.new at hstart
    split_ifs at hstart
    obtain rfl := Except.ok.inj hstart
    rfl
  | append_singleton calls c ih =>
    rw [Machine.exec_snoc, Machine.history_snoc, step_memory, ih, Memory.remembered,
      Memory.remembered, List.filterMap_append, List.foldl_append]
    rfl

theorem ackedOnce_step {c : ManagerCall} {key : String × String}
    (h : ackedOnce ((managerMachine F K).event p c) = some key) :
    authenticated F ((managerMachine F K).event p c) = some key ∧
      key ∉ p.handshakes.seenHellos := by
  cases c with
  | handshake c => cases h
  | respondOnce context hello pin entropy =>
    rcases hresult : p.respondOnce F K context hello pin entropy with ⟨q, inserted, e | _ | ack⟩
    · simp [ackedOnce, Machine.event, managerMachine, hresult] at h
    · simp [ackedOnce, Machine.event, managerMachine, hresult] at h
    · have hack : (p.respondOnce F K context hello pin entropy).2.2 = .ok (some ack) := by
        rw [hresult]
      obtain ⟨sig, hcheck, hnew⟩ := Party.respondOnce_acks hack
      have hkey : hello.sig.map (fun sig => (context, sig)) = some key := by
        simpa [ackedOnce, Machine.event, managerMachine, hresult] using h
      rw [Party.checkHello_sig hcheck] at hkey
      obtain rfl := Option.some.inj hkey
      refine ⟨?_, hnew⟩
      simp [authenticated, Machine.event, Party.authenticates, hcheck, Except.toOption]

/-- A rescan of a hello that is remembered. -/
theorem step_seen {context sig : String} {hello : SecureEnvelope} (pin : Vector UInt8 32)
    (entropy : Entropy) (hsig : hello.sig = some sig)
    (hseen : (context, sig) ∈ p.handshakes.seenHellos) :
    (managerMachine F K).step p (.respondOnce context hello pin entropy) =
      (p, .answeredOnce none ((p.checkHello F context hello pin).map fun _ => none)) := by
  unfold managerMachine
  dsimp only
  rw [Party.respondOnce_seen hsig hseen]

theorem few_of_append {past rest : List ManagerEvent} {n : ℕ}
    (h : ((past ++ rest).filterMap (authenticated F)).toFinset.card ≤ n) :
    (past.filterMap (authenticated F)).toFinset.card ≤ n := by
  refine (Finset.card_le_card ?_).trans h
  intro key hkey
  rw [List.mem_toFinset] at hkey ⊢
  rw [List.filterMap_append]
  exact List.mem_append_left _ hkey

/-- While the hellos fit in the memory, all that were authenticated are in it. -/
theorem exec_seen (hstart : Party.new local_ identity = .ok p₀) {calls : List ManagerCall}
    (hfew : (((managerMachine F K).history p₀ calls).filterMap (authenticated F)).toFinset.card ≤
      1024) :
    ((managerMachine F K).exec p₀ calls).handshakes.seenHellos =
      (((managerMachine F K).history p₀ calls).filterMap (authenticated F)).toFinset := by
  have hmemory := exec_memory (F := F) (K := K) hstart calls
  change (((managerMachine F K).exec p₀ calls).handshakes.memory).keys = _
  rw [hmemory]
  exact Memory.remembered_keys hfew

theorem ackedOnce_authenticated (p₀ : Party) (calls : List ManagerCall) {key : String × String}
    (h : key ∈ ((managerMachine F K).history p₀ calls).filterMap ackedOnce) :
    key ∈ ((managerMachine F K).history p₀ calls).filterMap (authenticated F) := by
  obtain ⟨e, he, hkey⟩ := List.mem_filterMap.mp h
  obtain ⟨pre, c, post, -, rfl⟩ := (managerMachine F K).mem_history he
  exact List.mem_filterMap.mpr ⟨_, he, (ackedOnce_step hkey).1⟩

/-- An ack is for a hello that is new, so no hello gets two. -/
theorem ackedOnce_nodup (hstart : Party.new local_ identity = .ok p₀) (calls : List ManagerCall)
    (hfew : (((managerMachine F K).history p₀ calls).filterMap (authenticated F)).toFinset.card ≤
      1024) :
    (((managerMachine F K).history p₀ calls).filterMap ackedOnce).Nodup := by
  induction calls using List.reverseRecOn with
  | nil => exact List.nodup_nil
  | append_singleton calls c ih =>
    rw [Machine.history_snoc] at hfew ⊢
    have hbefore := few_of_append hfew
    rw [List.filterMap_append]
    apply (ih hbefore).append
    · rw [List.filterMap_cons]
      split
      · exact List.nodup_nil
      · exact List.nodup_singleton _
    · intro key hold hnew
      obtain ⟨e, he, hkey⟩ := List.mem_filterMap.mp hnew
      rw [List.mem_singleton] at he
      subst he
      apply (ackedOnce_step hkey).2
      rw [exec_seen hstart hbefore, List.mem_toFinset]
      exact ackedOnce_authenticated p₀ calls hold

/-- Whatever handshake and message calls a manager takes, the set of seen hellos and their queue
hold the same keys, once each and at most 1024. While it has authenticated no more than 1024
different hellos, answering once produces at most one ack for each, and a rescan of a hello that
was authenticated before changes nothing and produces none. -/
theorem answered_hellos_stay (F : Foreign) (K : KeyExchange)
    (hstart : Party.new local_ identity = .ok p₀) (calls : List ManagerCall) :
    let history := (managerMachine F K).history p₀ calls
    let h := ((managerMachine F K).exec p₀ calls).handshakes
    (h.seenHellos = h.seenHelloOrder.toFinset ∧ h.seenHelloOrder.Nodup ∧
      h.seenHelloOrder.length ≤ 1024) ∧
    ((history.filterMap (authenticated F)).toFinset.card ≤ 1024 →
      (history.filterMap ackedOnce).Nodup ∧
      ∀ pre e post, history = pre ++ e :: post → ∀ context hello pin entropy sig,
        e.input = .respondOnce context hello pin entropy → hello.sig = some sig →
        (context, sig) ∈ pre.filterMap (authenticated F) →
          e.after = e.before ∧
            e.output = .answeredOnce none
              ((e.before.checkHello F context hello pin).map fun _ => none)) := by
  intro history h
  have hinStep : h.memory.InStep seenHelloLimit := by
    rw [exec_memory hstart]
    exact Memory.remembered_inStep _ _
  refine ⟨⟨hinStep.keys, hinStep.nodup, hinStep.bounded⟩, fun hfew => ?_⟩
  constructor
  · exact ackedOnce_nodup hstart calls hfew
  · intro pre e post hsplit context hello pin entropy sig hinput hsig hbefore
    obtain ⟨earlier, c, later, rfl, rfl, rfl⟩ := (managerMachine F K).history_split hsplit
    have hc : c = .respondOnce context hello pin entropy := hinput
    subst hc
    rw [hsplit] at hfew
    rw [← List.mem_toFinset, ← exec_seen hstart (few_of_append hfew)] at hbefore
    have hsame := step_seen (F := F) (K := K) pin entropy hsig hbefore
    exact ⟨congrArg Prod.fst hsame, congrArg Prod.snd hsame⟩

end Runs

/-! ## A hello that is scanned twice -/

namespace GoldenHandshake

def scan : ManagerCall :=
  .respondOnce context hello publicA ⟨some (.replicate 32 4), some (.replicate 32 6)⟩

/-- The hello is answered, and its session is evicted. -/
def scanned : List ManagerCall := [scan, .handshake (.closeContext context)]

theorem checks : (start false).checkHello foreign context hello publicA =
    .ok (encodeHex helloSig.toList) := by
  apply Party.checkHello_of_new (seed false) (urn_name true) (urn_name false) name_ne
  · decide
  · simp [foreign]

theorem authenticated_scan : (context, encodeHex helloSig.toList) ∈
    ((managerMachine foreign exchange).history (start false) scanned).filterMap
      (authenticated foreign) := by
  have hscan : (start false).authenticates foreign scan =
      some (context, encodeHex helloSig.toList) := by
    rw [scan, Party.authenticates, checks]
    rfl
  rw [scanned, Machine.history]
  apply List.mem_filterMap.mpr
  exact ⟨_, List.mem_cons_self, hscan⟩

end GoldenHandshake

/-- The second scan finds the session gone, and still changes nothing. -/
theorem answered_hellos_stay_rescanned :
    let M := managerMachine GoldenHandshake.foreign GoldenHandshake.exchange
    let e := M.event (M.exec (GoldenHandshake.start false) GoldenHandshake.scanned) GoldenHandshake.scan
    e.after = e.before := by
  intro M e
  have hsplit := M.history_snoc (GoldenHandshake.start false) GoldenHandshake.scanned
    GoldenHandshake.scan
  have hrescans := (answered_hellos_stay GoldenHandshake.foreign GoldenHandshake.exchange
    (GoldenHandshake.started false) (GoldenHandshake.scanned ++ [GoldenHandshake.scan])).2
  have hfew : ((M.history (GoldenHandshake.start false)
      (GoldenHandshake.scanned ++ [GoldenHandshake.scan])).filterMap
        (authenticated GoldenHandshake.foreign)).toFinset.card ≤ 1024 := by
    apply (List.toFinset_card_le _).trans
    apply (List.length_filterMap_le _ _).trans
    rw [← List.length_map Event.input, Machine.history_inputs]
    decide
  exact ((hrescans hfew).2 _ e [] hsplit GoldenHandshake.context GoldenHandshake.hello
    GoldenHandshake.publicA ⟨some (.replicate 32 4), some (.replicate 32 6)⟩
    (encodeHex GoldenHandshake.helloSig.toList) rfl rfl GoldenHandshake.authenticated_scan).1

end Hacp.Secure
