import Hacp.Secure.GuardianRun
import Hacp.Secure.RateBudget

/-!
# The service of the guardian

The guardian answers one connection after the other. It drops a connection of another user
than its mode expects, refuses one whose first line does not end within the limit, and asks
the budget before it reads what the line says.
-/
namespace Hacp.Secure
open Lib Lib.SlidingWindow RateBudget

/-- A connection: the user at its other end, the bytes it sends before it stops, the clock when the
budget is asked, and what the request finds outside. -/
structure Connection where
  user : UInt32
  sent : Bytes
  arrival : Arrival
  outside : Outside

structure Service where
  guardian : Guardian
  rate : RateBudget

inductive Served where
  | dropped
  | malformed
  | limited (logged : Bool)
  | handled (answer : Handled)

/-- The user whose connections are served by a guardian that runs as `uid`. -/
def Mode.user (uid : UInt32) : Mode → UInt32
  | .degraded => uid
  | .standard agentUid => agentUid

def newline : UInt8 := 10

/-- `take(bound + 1).read_until(b'\n')`. -/
def readUntil (bound : ℕ) (sent : Bytes) : Bytes :=
  let taken := sent.take (bound + 1)
  taken.take (taken.idxOf newline + 1)

def readLine (sent : Bytes) : Bytes := readUntil limit sent

theorem readUntil_line {text : Bytes} (h : newline ∉ text) (bound : ℕ) :
    readUntil bound (text ++ [newline]) = (text ++ [newline]).take (bound + 1) := by
  apply List.take_of_length_le
  rcases Nat.lt_or_ge text.length (bound + 1) with hlt | hle
  · rw [List.take_of_length_le (by simpa using hlt), List.idxOf_append_of_notMem h]
    simp
  · rw [List.take_append_of_le_length hle,
      List.idxOf_eq_length fun hmem => h (List.mem_of_mem_take hmem)]
    omega

/-- A connection whose line reaches the budget. -/
def Connection.Presents (c : Connection) (uid : UInt32) (mode : Mode) : Prop :=
  c.user = mode.user uid ∧ (readLine c.sent).getLast? = some newline

instance (c : Connection) (uid : UInt32) (mode : Mode) : Decidable (c.Presents uid mode) :=
  inferInstanceAs (Decidable (_ ∧ _))

namespace Service
section Serve
variable (F : Foreign) (K : KeyExchange) (C : Crates)

def load (g : Guardian) (cap : UInt32) : Service := ⟨g, .new cap⟩

def setRatePerMinute (s : Service) (cap : UInt32) : Except SecureError Service :=
  if cap = 0 then .error .schemaViolation else .ok { s with rate := .new cap }

theorem setRatePerMinute_eq_ok {s s' : Service} {cap : UInt32} :
    s.setRatePerMinute cap = .ok s' ↔ cap ≠ 0 ∧ s' = load s.guardian cap := by
  unfold setRatePerMinute
  split_ifs with hcap
  · simp [hcap]
  · simp [hcap, load, eq_comm]

def handleBytes (s : Service) (bytes : Bytes) (arrival : Arrival) (outside : Outside) :
    Service × Served :=
  match s.rate.gate arrival with
  | (rate, .refused logged) => ({ s with rate := rate }, .limited logged)
  | (rate, .admitted) =>
    let (g, answer) := s.guardian.dispatch F K C bytes outside
    (⟨g, rate⟩, .handled answer)

/-- One turn of the loop of `serve`. -/
def visit (uid : UInt32) (s : Service) (c : Connection) : Service × Served :=
  if c.user ≠ s.guardian.mode.user uid then (s, .dropped)
  else
    let line := readLine c.sent
    if line.getLast? = some newline then s.handleBytes F K C line c.arrival c.outside
    else (s, .malformed)

def machine (uid : UInt32) : Machine Service Connection Served where
  step s c := s.visit F K C uid c

end Serve

abbrev Visit := Event Service Connection Served

def requestOf (e : Visit) : Option (Bytes × Outside) :=
  match e.output with
  | .handled _ => some (readLine e.input.sent, e.input.outside)
  | _ => none

def answerOf (e : Visit) : Option Handled :=
  match e.output with
  | .handled answer => some answer
  | _ => none

/-- What the budget is asked by a visit and answers. -/
def askedOf (e : Visit) : Option (ℕ × Bool) :=
  match e.output with
  | .handled _ => some (e.input.arrival.now, true)
  | .limited _ => some (e.input.arrival.now, false)
  | _ => none

def admittedAt (events : List Visit) : List ℕ := admissions (events.filterMap askedOf)

/-! ## One visit -/

section Visits
variable {F : Foreign} {K : KeyExchange} {C : Crates} {uid : UInt32} {s : Service} {c : Connection}

inductive Visited (F : Foreign) (K : KeyExchange) (C : Crates) (uid : UInt32) (s : Service)
    (c : Connection) : Service × Served → Prop
  | dropped : ¬c.Presents uid s.guardian.mode → Visited F K C uid s c (s, .dropped)
  | malformed : ¬c.Presents uid s.guardian.mode → Visited F K C uid s c (s, .malformed)
  | limited {rate : RateBudget} {logged : Bool} : c.Presents uid s.guardian.mode →
      s.rate.gate c.arrival = (rate, .refused logged) →
      Visited F K C uid s c ({ s with rate := rate }, .limited logged)
  | handled {rate : RateBudget} : c.Presents uid s.guardian.mode →
      s.rate.gate c.arrival = (rate, .admitted) →
      Visited F K C uid s c
        (⟨(s.guardian.dispatch F K C (readLine c.sent) c.outside).1, rate⟩,
          .handled (s.guardian.dispatch F K C (readLine c.sent) c.outside).2)

variable (F K C uid s c) in
theorem visit_visited : Visited F K C uid s c (s.visit F K C uid c) := by
  unfold visit
  by_cases huser : c.user = s.guardian.mode.user uid
  · rw [if_neg (not_not.mpr huser)]
    dsimp only
    split_ifs with hline
    · unfold handleBytes
      rcases hgate : s.rate.gate c.arrival with ⟨rate, _ | logged⟩
      · exact .handled ⟨huser, hline⟩ hgate
      · exact .limited ⟨huser, hline⟩ hgate
    · exact .malformed fun h => hline h.2
  · rw [if_pos huser]
    exact .dropped fun h => huser h.1

/-- What the budget does with a request that is asked about, throttle of the log aside. -/
theorem gate_eq_trimmed {rate : RateBudget} {cap : ℕ} (hcap : rate.cap.toNat = cap)
    (hlength : rate.window.length ≤ cap) (arrival : Arrival) :
    ((rate.gate arrival).2 = .admitted ↔
        ((trimmed minute cap).step rate.window arrival.now).2 = true) ∧
      (rate.gate arrival).1.window = ((trimmed minute cap).step rate.window arrival.now).1 ∧
      (rate.gate arrival).1.cap = rate.cap ∧ (rate.gate arrival).1.window.length ≤ cap := by
  subst hcap
  obtain ⟨hanswer, hwindow, hcap, hbound⟩ := permitAt_eq_trimmed hlength arrival.now
  rw [← hanswer, ← hwindow]
  unfold gate
  generalize rate.permitAt arrival.now = answer at hcap hbound ⊢
  obtain ⟨rate', _ | _⟩ := answer
  · dsimp only [shouldLogRateLimitAt]
    split_ifs
    · exact ⟨by simp, rfl, hcap, hbound⟩
    · exact ⟨by simp, rfl, hcap, hbound⟩
  · exact ⟨by simp, rfl, hcap, hbound⟩

end Visits
end Service

/-! ## The mode of a guardian -/

section Mode
variable {F : Foreign} {K : KeyExchange} {C : Crates} {context : String} {m : Mode}

theorem FileStep.mode {k k' : Intake} {f : EdgeFile} {r : Except SecureError Unit}
    (h : FileStep F C context k f (k', r)) : k'.guardian.mode = k.guardian.mode := by
  cases h with
  | passed => rfl
  | shook => rfl
  | downgraded => rfl
  | plain => rfl
  | refused => rfl
  | reported => rfl

theorem fileTurn_mode {k : Intake} (hk : k.guardian.mode = m) (f : EdgeFile) :
    Sum.elim (fun k => k.guardian.mode = m) (fun k => k.guardian.mode = m)
      (fileTurn F K C context k f) := by
  have hstep := receiveFile_step F K C context k f
  unfold fileTurn
  generalize receiveFile F K C context k f = result at hstep
  obtain ⟨k', e | _⟩ := result
  · dsimp only
    split_ifs
    · exact hstep.mode.trans hk
    · exact hstep.mode.trans hk
  · exact hstep.mode.trans hk

theorem mode_of_elim {r : Intake ⊕ Intake}
    (h : Sum.elim (fun k => k.guardian.mode = m) (fun k => k.guardian.mode = m) r) :
    (r.elim id id).guardian.mode = m := by
  cases r with
  | inl k => exact h
  | inr k => exact h

theorem observeTurn_mode {k : Intake} (hk : k.guardian.mode = m) (edge : Outside)
    (s : SessionInfo) :
    Sum.elim (fun k => k.guardian.mode = m) (fun r => r.1.guardian.mode = m)
      (observeTurn F context edge k s) := by
  unfold observeTurn
  cases contractView F context (edge.observed s.sid) with
  | error e => exact hk
  | ok view => exact hk

namespace Guardian
variable (g : Guardian)

theorem receive_mode (context : String) (edge : Outside) :
    (g.receive F K C context edge).1.mode = g.mode := by
  unfold receive
  cases g.allowedContext context with
  | error e => rfl
  | ok _ =>
    dsimp only
    have hphases : (phases F K C context edge g).guardian.mode = g.mode :=
      mode_of_elim (Scan.run_keeps (fun _ f _ h => fileTurn_mode h f)
        (mode_of_elim (Scan.run_keeps (fun _ f _ h => fileTurn_mode h f) rfl)))
    have hend : Sum.elim (fun k => k.guardian.mode = g.mode) (fun r => r.1.guardian.mode = g.mode)
        (Scan.run (observeTurn F context edge) (phases F K C context edge g)
          ((phases F K C context edge g).guardian.sessionsOf context)) :=
      Scan.run_keeps (fun _ s _ h => observeTurn_mode h edge s) hphases
    generalize Scan.run (observeTurn F context edge) (phases F K C context edge g)
      ((phases F K C context edge g).guardian.sessionsOf context) = result at hend ⊢
    rcases result with k | ⟨k, e⟩
    · exact hend
    · exact hend

variable (F K C) in
/-- No request changes the mode. -/
theorem dispatch_mode (bytes : Bytes) (edge : Outside) :
    (g.dispatch F K C bytes edge).1.mode = g.mode := by
  unfold dispatch
  cases Request.ofBytes C bytes with
  | error e => rfl
  | ok request =>
    cases request with
    | session peer context =>
      simp only [handle, openSession]
      split
      · rfl
      · split
        · rfl
        · split
          · rfl
          · split <;> rfl
    | seal_ sid contract payload =>
      simp only [handle, sealMessage]
      split
      · rfl
      · split <;> rfl
    | open_ context => exact g.receive_mode context edge
    | status => rfl
    | fingerprint => rfl

end Guardian
end Mode

/-! ## Runs of the service -/

namespace Service
variable {F : Foreign} {K : KeyExchange} {C : Crates} {uid : UInt32} {g : Guardian}

variable (F K C uid) in
/-- The guardian behind the service goes through the requests that were handed to it. -/
theorem exec_guardian (s : Service) (cs : List Connection) :
    let events := (machine F K C uid).history s cs
    ((machine F K C uid).exec s cs).guardian =
        (Guardian.machine F K C).exec s.guardian (events.filterMap requestOf) ∧
      events.filterMap answerOf = ((Guardian.machine F K C).history s.guardian
        (events.filterMap requestOf)).map Event.output := by
  have hrun := (machine F K C uid).exec_simulation (N := Guardian.machine F K C)
    (f := Service.guardian) (P := fun _ => True)
    (R := fun events h => events.filterMap requestOf = h.map Event.input ∧
      events.filterMap answerOf = h.map Event.output) ⟨rfl, rfl⟩ (fun s c _ => ?_) trivial cs (s := s)
  · obtain ⟨js, hexec, -, hinputs, hanswers⟩ := hrun
    rw [Machine.history_inputs] at hinputs
    dsimp only
    rw [hinputs]
    exact ⟨hexec.symm, hanswers⟩
  · have hvisit := visit_visited F K C uid s c
    have hevent : (machine F K C uid).event s c =
        ⟨s, c, (s.visit F K C uid c).2, (s.visit F K C uid c).1⟩ := rfl
    have hnext : ((machine F K C uid).step s c).1 = (s.visit F K C uid c).1 := rfl
    rw [hevent, hnext]
    generalize s.visit F K C uid c = result at hvisit
    cases hvisit with
    | dropped =>
      exact ⟨[], rfl, trivial, fun h k hR => by
        simpa [List.filterMap_cons, requestOf, answerOf] using hR⟩
    | malformed =>
      exact ⟨[], rfl, trivial, fun h k hR => by
        simpa [List.filterMap_cons, requestOf, answerOf] using hR⟩
    | limited =>
      exact ⟨[], rfl, trivial, fun h k hR => by
        simpa [List.filterMap_cons, requestOf, answerOf] using hR⟩
    | handled =>
      refine ⟨[(readLine c.sent, c.outside)], rfl, trivial, fun h k hR => ?_⟩
      simp [requestOf, answerOf, hR.1, hR.2, Machine.history, Machine.event, Guardian.machine]

variable (F K C uid g) in
/-- What the budget is asked and answers is what the queue of admissions is. -/
theorem exec_rate (cap : UInt32) (cs : List Connection) :
    (trimmed minute cap.toNat).answers []
        ((((machine F K C uid).history (load g cap) cs).filterMap askedOf).map Prod.fst) =
      ((machine F K C uid).history (load g cap) cs).filterMap askedOf := by
  have hrun := (machine F K C uid).exec_simulation (N := trimmed minute cap.toNat)
    (f := fun s => s.rate.window)
    (P := fun s => s.rate.cap = cap ∧ s.rate.window.length ≤ cap.toNat)
    (R := fun events h => events.filterMap askedOf = h.map fun e => (e.input, e.output)) rfl
    (fun s c hs => ?_) (s := load g cap) ⟨rfl, Nat.zero_le _⟩ cs
  · obtain ⟨js, -, -, hasked⟩ := hrun
    have hinputs : (((machine F K C uid).history (load g cap) cs).filterMap askedOf).map Prod.fst =
        js := by
      rw [hasked, List.map_map]
      exact Machine.history_inputs _ _ js
    rw [hinputs, hasked]
    rfl
  · obtain ⟨hcap, hlength⟩ := hs
    obtain ⟨hadmits, hwindow, hkept, hbound⟩ :=
      gate_eq_trimmed (congrArg UInt32.toNat hcap) hlength c.arrival
    have hvisit := visit_visited F K C uid s c
    have hevent : (machine F K C uid).event s c =
        ⟨s, c, (s.visit F K C uid c).2, (s.visit F K C uid c).1⟩ := rfl
    have hnext : ((machine F K C uid).step s c).1 = (s.visit F K C uid c).1 := rfl
    rw [hevent, hnext]
    generalize s.visit F K C uid c = result at hvisit
    cases hvisit with
    | dropped =>
      exact ⟨[], rfl, ⟨hcap, hlength⟩, fun h k hR => by simpa [List.filterMap_cons, askedOf] using hR⟩
    | malformed =>
      exact ⟨[], rfl, ⟨hcap, hlength⟩, fun h k hR => by simpa [List.filterMap_cons, askedOf] using hR⟩
    | limited _ hgate =>
      rw [hgate] at hadmits hwindow hkept hbound
      refine ⟨[c.arrival.now], hwindow.symm, ⟨hkept.trans hcap, hbound⟩, fun h k hR => ?_⟩
      have hrefused : ((trimmed minute cap.toNat).step s.rate.window c.arrival.now).2 = false := by
        rw [← Bool.not_eq_true, ← hadmits]
        nofun
      simp [askedOf, hR, Machine.history, Machine.event, hrefused]
    | handled _ hgate =>
      rw [hgate] at hadmits hwindow hkept hbound
      refine ⟨[c.arrival.now], hwindow.symm, ⟨hkept.trans hcap, hbound⟩, fun h k hR => ?_⟩
      have hadmitted : ((trimmed minute cap.toNat).step s.rate.window c.arrival.now).2 = true :=
        hadmits.mp rfl
      simp [askedOf, hR, Machine.history, Machine.event, hadmitted]

variable (F K C uid) in
theorem exec_mode (s : Service) (cs : List Connection) :
    ((machine F K C uid).exec s cs).guardian.mode = s.guardian.mode := by
  refine Machine.exec_invariant (P := fun t : Service => t.guardian.mode = s.guardian.mode)
    (fun t c ht => ?_) rfl cs
  have hvisit := visit_visited F K C uid t c
  have hnext : ((machine F K C uid).step t c).1 = (t.visit F K C uid c).1 := rfl
  rw [hnext]
  generalize t.visit F K C uid c = result at hvisit
  cases hvisit with
  | dropped => exact ht
  | malformed => exact ht
  | limited => exact ht
  | handled => exact (Guardian.dispatch_mode F K C _ _ _).trans ht

/-- A visit reaches the budget where its connection presents a line. -/
theorem askedOf_isSome {s : Service} {cs : List Connection} {e : Visit}
    (he : e ∈ (machine F K C uid).history s cs) :
    (askedOf e).isSome = true ↔ e.input.Presents uid s.guardian.mode := by
  obtain ⟨pre, c, post, -, rfl⟩ := Machine.mem_history _ he
  rw [← exec_mode F K C uid s pre]
  generalize (machine F K C uid).exec s pre = t
  have hvisit := visit_visited F K C uid t c
  have hevent : (machine F K C uid).event t c =
      ⟨t, c, (t.visit F K C uid c).2, (t.visit F K C uid c).1⟩ := rfl
  rw [hevent]
  generalize t.visit F K C uid c = result at hvisit
  cases hvisit with
  | dropped h => simpa [askedOf] using h
  | malformed h => simpa [askedOf] using h
  | limited h => simpa [askedOf] using h
  | handled h => simpa [askedOf] using h

theorem requestOf_isSome {e : Visit} :
    (requestOf e).isSome = true ↔ ∃ now, askedOf e = some (now, true) := by
  unfold requestOf askedOf
  cases e.output <;> simp

theorem askedOf_instant {e : Visit} {asked : ℕ × Bool} (h : askedOf e = some asked) :
    asked.1 = e.input.arrival.now := by
  unfold askedOf at h
  split at h
  · rw [← Option.some.inj h]
  · rw [← Option.some.inj h]
  · cases h

theorem asked_sublist (events : List Visit) :
    ((events.filterMap askedOf).map Prod.fst).Sublist (events.map fun e => e.input.arrival.now) := by
  induction events with
  | nil => exact .refl _
  | cons e events ih =>
    rw [List.filterMap_cons]
    cases hasked : askedOf e with
    | none => exact ih.cons _
    | some asked =>
      dsimp only
      rw [List.map_cons, List.map_cons, askedOf_instant hasked]
      exact ih.cons_cons _

variable (F K C uid) in
/-- Whatever connections come, the guardian goes through the requests that are handed to it and
answers them as it would alone; nothing else reaches it. While the clock does not go back, a
connection's request is handed over exactly when the connection is of the expected user, presents
a line, and fewer than `cap` requests were handed over in the minute that ends with it; no minute
holds more than `cap`. -/
theorem serves_budgeted_requests (g : Guardian) (cap : UInt32) (cs : List Connection)
    (hclock : (cs.map fun c => c.arrival.now).Pairwise (· ≤ ·)) :
    ((machine F K C uid).exec (load g cap) cs).guardian = (Guardian.machine F K C).exec g
        (((machine F K C uid).history (load g cap) cs).filterMap requestOf) ∧
      ((machine F K C uid).history (load g cap) cs).filterMap answerOf =
        ((Guardian.machine F K C).history g
          (((machine F K C uid).history (load g cap) cs).filterMap requestOf)).map Event.output ∧
      (∀ pre e post, (machine F K C uid).history (load g cap) cs = pre ++ e :: post →
        ((requestOf e).isSome = true ↔ e.input.Presents uid g.mode ∧
          recent minute e.input.arrival.now (admittedAt pre) < cap.toNat)) ∧
      ∀ t, recent minute t (admittedAt ((machine F K C uid).history (load g cap) cs)) ≤
        cap.toNat := by
  obtain ⟨hexec, hanswers⟩ := exec_guardian F K C uid (load g cap) cs
  have hrate := exec_rate F K C uid g cap cs
  have hsorted : ((((machine F K C uid).history (load g cap) cs).filterMap askedOf).map
      Prod.fst).Pairwise (· ≤ ·) := by
    refine List.Pairwise.sublist (asked_sublist _) ?_
    rwa [show (fun e : Visit => e.input.arrival.now) = (fun c => c.arrival.now) ∘ Event.input from rfl,
      ← List.map_map, Machine.history_inputs]
  refine ⟨hexec, hanswers, fun pre e post hevents => ?_, fun t => ?_⟩
  · have hmem : e ∈ (machine F K C uid).history (load g cap) cs := by
      rw [hevents]
      exact List.mem_append_right _ List.mem_cons_self
    have hpresents := askedOf_isSome hmem
    rw [requestOf_isSome, ← show (askedOf e).isSome = true ↔ e.input.Presents uid g.mode from hpresents]
    cases hasked : askedOf e with
    | none => simp
    | some asked =>
      obtain ⟨now, admitted⟩ := asked
      obtain rfl : now = e.input.arrival.now := askedOf_instant hasked
      have hsplit : (trimmed minute cap.toNat).answers []
          ((((machine F K C uid).history (load g cap) cs).filterMap askedOf).map Prod.fst) =
            pre.filterMap askedOf ++ (e.input.arrival.now, admitted) :: post.filterMap askedOf := by
        rw [hrate, hevents, List.filterMap_append, List.filterMap_cons, hasked]
      have hadmits := trimmed_admits_iff hsorted hsplit
      simpa [admittedAt] using hadmits
  · rw [admittedAt, ← hrate]
    exact trimmed_recent_le hsorted t

theorem admittedAt_snoc (events : List Visit) (e : Visit) :
    admittedAt (events ++ [e]) =
      admittedAt events ++ if (requestOf e).isSome then [e.input.arrival.now] else [] := by
  unfold admittedAt requestOf askedOf
  rw [List.filterMap_append]
  cases he : e.output <;> simp [admissions, he]

/-- A connection that asks to open the context of the messages. -/
def visitor (user : UInt32) (instant : ℕ) : Connection :=
  ⟨user, Guardian.openBytes ++ [newline], ⟨instant, instant⟩, LateRefusal.messageRefused⟩

/-- A connection of another user, and more than the budget of two allows. -/
def visits : List Connection := [visitor 7 0, visitor 1 1, visitor 1 2, visitor 1 3]

theorem getLast_openLine :
    (readLine (Guardian.openBytes ++ [newline])).getLast? = some newline := by
  have hline : newline ∉ Guardian.openBytes := by
    rw [Guardian.openBytes, asBytes, String.toList_ofList]
    decide
  have hlength : (Guardian.openBytes ++ [newline]).length ≤ limit + 1 := by
    have hopen := Guardian.length_openBytes
    rw [List.length_append, List.length_singleton, limit]
    omega
  rw [readLine, readUntil_line hline, List.take_of_length_le hlength, List.getLast?_concat]

theorem presents_visitor {mode : Mode} (hmode : mode = .degraded) (user : UInt32) (instant : ℕ) :
    (visitor user instant).Presents 1 mode ↔ user = 1 := by
  subst hmode
  exact ⟨And.left, fun huser => ⟨huser, getLast_openLine⟩⟩

theorem serves_budgeted_requests_visits : ∃ g s,
    Guardian.load "urn:hacp:agent:a" (.replicate 32 1) [Guardian.securePin] .degraded = .ok g ∧
    (load g 60).setRatePerMinute 2 = .ok s ∧
    let events := (machine Burst.foreign LateRefusal.exchange Guardian.crates 1).history s visits
    let requests := events.filterMap requestOf
    ((machine Burst.foreign LateRefusal.exchange Guardian.crates 1).exec s visits).guardian =
      (Guardian.machine Burst.foreign LateRefusal.exchange Guardian.crates).exec g requests ∧
    events.filterMap answerOf = ((Guardian.machine Burst.foreign LateRefusal.exchange
      Guardian.crates).history g requests).map Event.output ∧
    events.map (fun e => (requestOf e).isSome) = [false, true, true, false] ∧
    ∀ t, recent minute t (admittedAt events) ≤ 2 := by
  obtain ⟨g, hg⟩ := Guardian.load_securePin
  have hmode : g.mode = .degraded := (Guardian.load_secure hg).2
  have hclock : (visits.map fun c => c.arrival.now).Pairwise (· ≤ ·) := by
    simp [visits, visitor]
  obtain ⟨hguardian, hanswers, hadmits, hbound⟩ := serves_budgeted_requests Burst.foreign
    LateRefusal.exchange Guardian.crates 1 g 2 visits hclock
  refine ⟨g, load g 2, hg, setRatePerMinute_eq_ok.mpr ⟨by decide, rfl⟩, hguardian, hanswers, ?_,
    hbound⟩
  obtain ⟨e₀, e₁, e₂, e₃, hevents, h₀, h₁, h₂, h₃⟩ : ∃ e₀ e₁ e₂ e₃,
      (machine Burst.foreign LateRefusal.exchange Guardian.crates 1).history (load g 2) visits =
        [e₀, e₁, e₂, e₃] ∧ e₀.input = visitor 7 0 ∧ e₁.input = visitor 1 1 ∧
        e₂.input = visitor 1 2 ∧ e₃.input = visitor 1 3 :=
    ⟨_, _, _, _, rfl, rfl, rfl, rfl, rfl⟩
  rw [hevents] at hadmits ⊢
  have hfirst : (requestOf e₀).isSome = false := by
    rw [Bool.eq_false_iff, ne_eq, hadmits [] e₀ _ rfl, h₀, presents_visitor hmode]
    decide
  have hnone : admittedAt [e₀] = [] := by
    have hsnoc := admittedAt_snoc [] e₀
    rwa [hfirst] at hsnoc
  have hsecond : (requestOf e₁).isSome = true := by
    rw [hadmits [e₀] e₁ _ rfl, h₁, presents_visitor hmode, hnone]
    decide
  have hone : admittedAt [e₀, e₁] = [1] := by
    have hsnoc := admittedAt_snoc [e₀] e₁
    rwa [hsecond, hnone, h₁] at hsnoc
  have hthird : (requestOf e₂).isSome = true := by
    rw [hadmits [e₀, e₁] e₂ _ rfl, h₂, presents_visitor hmode, hone]
    decide
  have htwo : admittedAt [e₀, e₁, e₂] = [1, 2] := by
    have hsnoc := admittedAt_snoc [e₀, e₁] e₂
    rwa [hthird, hone, h₂] at hsnoc
  have hfourth : (requestOf e₃).isSome = false := by
    rw [Bool.eq_false_iff, ne_eq, hadmits [e₀, e₁, e₂] e₃ _ rfl, h₃, presents_visitor hmode, htwo]
    decide
  simp [hfirst, hsecond, hthird, hfourth]

end Service
end Hacp.Secure
