import Hacp.Secure.Answers

/-!
# The client of a guardian

A client opens a connection for every request, writes the request on one line and reads one
line back. It has no keys and no second way: whatever goes wrong on the connection is the
guardian being unavailable. A client of the service gets what the guardian answers, as if no
text lay between the two.
-/
namespace Hacp.Secure
open Lib V2 RateBudget

/-- The other end of a socket: whether it takes a connection, and what a connection on which the
client writes brings back, if it does not break. -/
structure Socket (σ : Type) where
  connects : σ → Bool
  exchange : σ → Bytes → σ × Option Bytes

namespace Client

def maxResponse : ℕ := 16 * 1024 * 1024

section Request
variable (C : Crates) (write : Json → Bytes)

def readResponse (sent : Bytes) : Except SecureError Json :=
  let line := readUntil maxResponse sent
  if maxResponse < line.length ∨ line.getLast? ≠ some newline then .error .guardianUnavailable
  else
    match C.value line with
    | none => .error .guardianUnavailable
    | some response =>
      match (response.get? "ok").bind Json.asBool with
      | some true => .ok response
      | some false =>
        .error (((response.get? "error").bind SecureError.ofJson).getD .guardianUnavailable)
      | none => .error .guardianUnavailable

/-- `client::request`. -/
def request {σ : Type} (socket : Socket σ) (s : σ) (request : Json) :
    σ × Except SecureError Json :=
  if !socket.connects s then (s, .error .guardianUnavailable)
  else
    let bytes := write request
    if maxResponse ≤ bytes.length then (s, .error .schemaViolation)
    else
      match socket.exchange s (bytes ++ [newline]) with
      | (s, none) => (s, .error .guardianUnavailable)
      | (s, some sent) => (s, readResponse C sent)

end Request
end Client

/-- The service of a guardian, what its connections to come will find, and the requests that have
been handed to the guardian. -/
structure Hosted where
  service : Service
  ahead : List (Arrival × Outside)
  handed : List (Bytes × Outside)

namespace Hosted
section Ask
variable (F : Foreign) (K : KeyExchange) (C : Crates) (write : Json → Bytes) (uid user : UInt32)

def socket : Socket Hosted where
  connects h := !h.ahead.isEmpty
  exchange h sent :=
    match h.ahead with
    | [] => (h, none)
    | (arrival, outside) :: ahead =>
      let visit := (Service.machine F K C uid).event h.service ⟨user, sent, arrival, outside⟩
      (⟨visit.after, ahead, h.handed ++ (Service.requestOf visit).toList⟩,
        visit.output.answer.map fun v => write v ++ [newline])

/-- What a client hears of an answer, whose text must not be too long. -/
def heard (result : Except SecureError Response) : Except SecureError Response :=
  if Client.maxResponse ≤ (write (answerJson result)).length then .error .guardianUnavailable
  else result

/-- A request to the guardian without any text: the abstract request. -/
def ask (h : Hosted) (r : Request) : Hosted × Except SecureError Response :=
  match h.ahead with
  | [] => (h, .error .guardianUnavailable)
  | (arrival, outside) :: ahead =>
    if Client.maxResponse ≤ (write r.toJson).length then (h, .error .schemaViolation)
    else if user ≠ h.service.guardian.mode.user uid then
      (⟨h.service, ahead, h.handed⟩, .error .guardianUnavailable)
    else
      match h.service.rate.gate arrival with
      | (rate, .refused _) =>
        (⟨{ h.service with rate := rate }, ahead, h.handed⟩, heard write (.error .rateLimited))
      | (rate, .admitted) =>
        let (g, answer) := h.service.guardian.handle F K C r outside
        (⟨⟨g, rate⟩, ahead, h.handed ++ [(write r.toJson ++ [newline], outside)]⟩,
          heard write answer.result)

end Ask
end Hosted

/-! ## Nothing is lost on the way -/

section Heard
variable {F : Foreign} {K : KeyExchange} {C : Crates} {write : Json → Bytes} {uid user : UInt32}

/-- The text of an answer is read as the answer, unless it is too long. -/
theorem Client.readResponse_write (hserde : Serde C write) (result : Except SecureError Response) :
    Client.readResponse C (write (answerJson result) ++ [newline]) =
      (Hosted.heard write result).map Response.toJson := by
  have hplain := (plain_answerJson result).mono (show 3 ≤ 127 by omega)
  have hread := readUntil_line (hserde.line _ hplain) Client.maxResponse
  unfold Client.readResponse Hosted.heard
  rw [hread]
  by_cases hlong : Client.maxResponse ≤ (write (answerJson result)).length
  · rw [if_pos hlong, if_pos]
    · rfl
    · left
      simp
      omega
  · rw [if_neg hlong, List.take_of_length_le (by simp; omega), if_neg (by simp; omega),
      hserde.value _ hplain]
    cases result with
    | ok r => cases r <;> rfl
    | error e => cases e <;> rfl

/-- A request that the client does not find too long is a line to the guardian. -/
theorem Request.readLine_write (hserde : Serde C write) {r : Request}
    (hsize : (write r.toJson).length < Client.maxResponse) :
    readLine (write r.toJson ++ [newline]) = write r.toJson ++ [newline] := by
  have hplain := r.plain.mono (show 1 ≤ 127 by omega)
  have hlimit : (write r.toJson).length < limit := hsize
  rw [readLine, readUntil_line (hserde.line _ hplain), List.take_of_length_le]
  simpa using Nat.le_of_lt hlimit

variable (F K uid user) in
theorem Service.visit_request (hserde : Serde C write) (s : Service) (r : Request)
    (arrival : Arrival) (outside : Outside)
    (hsize : (write r.toJson).length < Client.maxResponse) :
    s.visit F K C uid ⟨user, write r.toJson ++ [newline], arrival, outside⟩ =
      if user ≠ s.guardian.mode.user uid then (s, .dropped)
      else
        match s.rate.gate arrival with
        | (rate, .refused logged) => ({ s with rate := rate }, .limited logged)
        | (rate, .admitted) =>
          (⟨(s.guardian.handle F K C r outside).1, rate⟩,
            .handled (s.guardian.handle F K C r outside).2) := by
  have hdispatch : s.guardian.dispatch F K C (write r.toJson ++ [newline]) outside =
      s.guardian.handle F K C r outside := by
    rw [Guardian.dispatch, Request.ofBytes_write hserde r hsize]
  unfold Service.visit Service.handleBytes
  dsimp only
  rcases s.rate.gate arrival with ⟨rate, _ | logged⟩
  · simp only [Request.readLine_write hserde hsize, List.getLast?_concat, if_true, hdispatch]
  · simp only [Request.readLine_write hserde hsize, List.getLast?_concat, if_true]

variable (F K uid user) in
/-- A client of the service gets the answer of the guardian: the text of the request and of the
answer in between changes nothing. -/
theorem Client.request_hosted (hserde : Serde C write) (h : Hosted) (r : Request) :
    Client.request C write (Hosted.socket F K C write uid user) h r.toJson =
      ((h.ask F K C write uid user r).1,
        (h.ask F K C write uid user r).2.map Response.toJson) := by
  obtain ⟨service, ahead, handed⟩ := h
  unfold Client.request Hosted.ask Hosted.socket
  cases ahead with
  | nil => rfl
  | cons found ahead =>
    obtain ⟨arrival, outside⟩ := found
    simp only [List.isEmpty_cons, Bool.not_false, Bool.not_true, Bool.false_eq_true, if_false]
    by_cases hlong : Client.maxResponse ≤ (write r.toJson).length
    · rw [if_pos hlong, if_pos hlong]
      rfl
    · have hline := Request.readLine_write hserde (Nat.lt_of_not_le hlong)
      have hvisit := Service.visit_request F K uid user hserde service r arrival outside
        (Nat.lt_of_not_le hlong)
      rw [if_neg hlong, if_neg hlong]
      simp only [Machine.event, Service.machine, Service.requestOf, hvisit]
      by_cases huser : user ≠ service.guardian.mode.user uid
      · rw [if_pos huser, if_pos huser]
        simp [Served.answer, Except.map]
      · rw [if_neg huser, if_neg huser]
        rcases service.rate.gate arrival with ⟨rate, _ | logged⟩
        · simp only [hline, Served.answer, Option.map_some, Option.toList_some]
          exact Prod.ext rfl (Client.readResponse_write hserde _)
        · simp only [Served.answer, Option.map_some, Option.toList_none, List.append_nil]
          exact Prod.ext rfl (Client.readResponse_write hserde (.error .rateLimited))

end Heard
end Hacp.Secure
