import Hacp.Wasmer.Authorization
import Hacp.Wasmer.ExecutionService

/-!
# What the host keeps to itself

The executor runs on a host whose failures name its files. A requester is told of such a failure
that it happened, and nothing of what it says: two hosts whose results differ in these texts alone
cannot be told apart by anything the service reports or sends.
-/
namespace Hacp.Wasmer
open Lib V2 Secure

namespace ExecutionService
variable {F : Foreign} {C : Crates} {write : Json → Bytes} {σ ω ω' : Type} {host : Host ω}
  {host' : Host ω'} {x : ExecutionService} {R : ω → ω' → Prop}

/-- Two hosts that differ in nothing but the texts of the failures that are about the host. -/
structure ShowSame (host : Host ω) (host' : Host ω') (R : ω → ω' → Prop) : Prop where
  execute : ∀ v w request, R v w → R (host.execute v request).1 (host'.execute w request).1 ∧
    (host.execute v request).2.shown = (host'.execute w request).2.shown
  mint : ∀ v w, R v w → R (host.mint v).1 (host'.mint w).1 ∧ (host.mint v).2 = (host'.mint w).2
  schemaError : host.schemaError = host'.schemaError

/-- Services on two hosts that have done the same. -/
structure Alike (R : ω → ω' → Prop) (s : Serving σ ω) (t : Serving σ ω') : Prop where
  socket : s.socket = t.socket
  host : R s.host t.host
  reported : s.reported = t.reported
  ran : s.ran = t.ran

section Runs
variable {send : Workflow → σ → V2.Envelope → String → σ × Except SecureError Unit}
  (hsame : ShowSame host host' R)
include hsame

theorem perform_alike {s : Serving σ ω} {t : Serving σ ω'} (h : Alike R s t) (d : Delivered) :
    Alike R (perform C host x s d).1 (perform C host' x t d).1 ∧
      (perform C host x s d).2 = (perform C host' x t d).2 := by
  unfold perform
  cases x.policy.authorizeValue C.base64 d.from_ d.contract d.message.body with
  | error denial =>
    dsimp only
    rw [hsame.schemaError]
    exact ⟨h, rfl⟩
  | ok request =>
    obtain ⟨hhost, hresult⟩ := hsame.execute s.host t.host request h.host
    obtain ⟨hbody, hstatus, hdetail⟩ := ExecutionResult.told_alike hresult
    dsimp only
    rw [hbody, hstatus, hdetail]
    have hran := h.ran
    unfold Serving.ran at hran
    exact ⟨⟨h.socket, hhost, h.reported, by simp [Serving.ran, hran]⟩, rfl⟩

variable (x send) in
theorem reply_alike {s : Serving σ ω} {t : Serving σ ω'} (h : Alike R s t) (d : Delivered)
    (body : Json) : Alike R (reply host x send s d body).1 (reply host' x send t d body).1 ∧
      (reply host x send s d body).2 = (reply host' x send t d body).2 := by
  obtain ⟨hhost, hminted⟩ := hsame.mint s.host t.host h.host
  unfold reply
  dsimp only
  rw [hminted, h.socket]
  cases Workflow.new x.socketPath x.local_ d.from_ x.context with
  | error e => exact ⟨⟨rfl, hhost, h.reported, h.ran⟩, rfl⟩
  | ok w => exact ⟨⟨rfl, hhost, h.reported, h.ran⟩, rfl⟩

variable (C x send) in
theorem handle_alike {s : Serving σ ω} {t : Serving σ ω'} (h : Alike R s t)
    (delivery : Except SecureError Delivered) :
    Alike R (handle C host x send s delivery).1 (handle C host' x send t delivery).1 ∧
      (handle C host x send s delivery).2 = (handle C host' x send t delivery).2 := by
  cases delivery with
  | error e => exact ⟨h, rfl⟩
  | ok d =>
    unfold handle
    dsimp only
    split_ifs with hkind
    · exact ⟨h, rfl⟩
    · obtain ⟨hperformed, hsaid⟩ := perform_alike (C := C) (x := x) hsame h d
      generalize perform C host x s d = p at hperformed hsaid
      generalize perform C host' x t d = q at hperformed hsaid
      obtain ⟨s, status, detail, body⟩ := p
      obtain ⟨t, said⟩ := q
      obtain rfl : (status, detail, body) = said := hsaid
      obtain ⟨hreplied, hsealed⟩ := reply_alike x send hsame hperformed d body
      exact ⟨hreplied, by rw [hsealed]⟩

variable (C x send) in
theorem process_alike {s : Serving σ ω} {t : Serving σ ω'} (h : Alike R s t) (report : Report) :
    Alike R (process C host x send s report).1 (process C host' x send t report).1 ∧
      (process C host x send s report).2 = (process C host' x send t report).2 := by
  have hfold (ds : List (Except SecureError Delivered)) {s : Serving σ ω} {t : Serving σ ω'}
      (h : Alike R s t) (outcomes : List Outcome) :
      Alike R (ds.foldl (deliveryTurn C host x send) (s, outcomes)).1
          (ds.foldl (deliveryTurn C host' x send) (t, outcomes)).1 ∧
        (ds.foldl (deliveryTurn C host x send) (s, outcomes)).2 =
          (ds.foldl (deliveryTurn C host' x send) (t, outcomes)).2 := by
    induction ds generalizing s t outcomes with
    | nil => exact ⟨h, rfl⟩
    | cons d ds ih =>
      obtain ⟨hnext, houtcome⟩ := handle_alike C x send hsame h d
      rw [List.foldl_cons, List.foldl_cons, deliveryTurn, deliveryTurn]
      dsimp only
      rw [houtcome]
      exact ih hnext _
  unfold process
  rw [h.reported]
  obtain ⟨reported, outcomes⟩ := report.rejections.foldl reportTurn (t.reported, [])
  exact hfold report.deliveries (s := { s with reported := reported })
    (t := { t with reported := reported }) ⟨h.socket, h.host, rfl, h.ran⟩ outcomes

theorem step_alike (socket : Socket σ) {s : Serving σ ω} {t : Serving σ ω'} (h : Alike R s t) :
    (x.step F C write host socket s).2 = (x.step F C write host' socket t).2 ∧
      Alike R (x.step F C write host socket s).1 (x.step F C write host' socket t).1 := by
  unfold step
  rw [h.socket]
  obtain ⟨u, e | report⟩ := guardianReport C write socket t.socket x.context
  · exact ⟨rfl, rfl, h.host, h.reported, h.ran⟩
  · obtain ⟨hnext, houtcomes⟩ := process_alike C x (fun w => w.send F C write socket) hsame
      (s := { s with socket := u }) (t := { t with socket := u })
      ⟨rfl, h.host, h.reported, h.ran⟩ (readReport F C x.local_ x.context report)
    exact ⟨congrArg Except.ok houtcomes, hnext⟩

/-- What a host says about itself when it fails stays on the host: services on two hosts that
differ in nothing but these texts report the same, leave the same behind on the socket, and run the
same requests, over any polls. -/
theorem host_detail_withheld (socket : Socket σ) {v : ω} {w : ω'} (hR : R v w) (s : σ)
    (polls : List Unit) :
    let M := x.machine F C write host socket
    let N := x.machine F C write host' socket
    M.answers (.start s v) polls = N.answers (.start s w) polls ∧
      (M.exec (.start s v) polls).socket = (N.exec (.start s w) polls).socket ∧
      (M.exec (.start s v) polls).ran = (N.exec (.start s w) polls).ran := by
  have hstart : Alike R (.start s v) (.start s w) := ⟨rfl, hR, rfl, rfl⟩
  have hlast := Machine.exec_related (M := x.machine F C write host socket)
    (N := x.machine F C write host' socket) (R := Alike R)
    (fun s t _ h => (step_alike hsame socket h).2) hstart polls
  have hanswers := Machine.answers_eq_of_related (M := x.machine F C write host socket)
    (N := x.machine F C write host' socket) (R := Alike R)
    (fun s t _ h => step_alike hsame socket h) hstart polls
  exact ⟨hanswers, hlast.socket, hlast.ran⟩

end Runs

/-! ## Two hosts without a runtime -/

/-- A host on which every run fails, as it says of itself. -/
def failingHost (text : String) : Host ℕ where
  execute n _ := (n + 1, ⟨none, "", "", false, ⟨0⟩, some (.runtimeUnavailable text)⟩)
  mint n := (n + 1, "000000000000", "2026-09-04T12:00:00Z")
  schemaError _ := "missing field"

def sampleService : ExecutionService :=
  ⟨"/run/hacp/guardian.sock", "urn:hacp:agent:b", "s-1", ExecutionPolicy.samplePolicy 65536⟩

/-- A guardian that has the same request for every poll. -/
def requesting : Socket ℕ where
  connects _ := true
  exchange n _ := (n + 1, some (compact (Response.opened ⟨[⟨"1", "urn:hacp:agent:a", "sha256:33", 0,
    compact (newEnvelope ("000000000000", "2026-09-04T12:00:00Z") "s-1" "urn:hacp:agent:a"
      "urn:hacp:agent:b" requestKind ExecutionPolicy.sampleBody.value).toJson⟩], [], [], []⟩).toJson ++
        [newline]))

theorem showSame_failing (text text' : String) :
    ShowSame (failingHost text) (failingHost text') Eq where
  execute _ _ _ h := ⟨congrArg (· + 1) h, rfl⟩
  mint _ _ h := ⟨congrArg (· + 1) h, rfl⟩
  schemaError := rfl

theorem host_detail_withheld_failing :
    (sampleService.machine .placeholder lineCrates compact
        (failingHost "/opt/host/wasmer: not found") requesting).answers (.start 0 0) [(), ()] =
      (sampleService.machine .placeholder lineCrates compact
        (failingHost "/usr/bin/wasmer: not found") requesting).answers (.start 0 0) [(), ()] := by
  exact (host_detail_withheld (F := .placeholder) (C := lineCrates) (x := sampleService)
    (showSame_failing "/opt/host/wasmer: not found" "/usr/bin/wasmer: not found") requesting
    (v := 0) (w := 0) rfl 0 [(), ()]).1

end ExecutionService
end Hacp.Wasmer
