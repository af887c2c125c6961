import Hacp.V2.AgentUrn
import Std.Data.ExtTreeMap

/-!
# Bilateral sessions

A session has exactly two participants, the opener first. Its lifecycle runs from
`Opening` over `Active` to one of two terminal states; observers subscribe to
lifecycle events and cannot author.
-/
namespace Hacp.V2
open Std

inductive SessionState where
  | opening
  | active
  | closed
  | abandoned
  deriving DecidableEq

/-- The lifecycle kinds an observer receives, never the traffic between them. -/
structure ObserverGrant where
  kinds : Finset String

inductive SessionError where
  | notAParticipant (who session : String)
  /-- `NotAParticipant` of `open`, whose `session` field carries the reason. -/
  | badParticipant (who : String) (reason : UrnError)
  | observerCannotAuthor (who : String)
  | illegalTransition (action : String) (state : SessionState)
  | observerIsParticipant (who : String)
  | notALifecycleEvent (found : String)
  | openerCannotAccept (who : String)
  | sameParticipant
  deriving DecidableEq

/-- The two participants of a `[String; 2]`, in order. -/
def members (participants : String × String) : List String := [participants.1, participants.2]

structure Session where
  sessionId : String
  participants : String × String
  observers : ExtTreeMap String ObserverGrant
  state : SessionState
  /-- Features each participant declared. -/
  declared : ExtTreeMap String (Finset String)
  closeReason : Option String

namespace Session

/-- `kinds::LIFECYCLE_EVENTS`. -/
def lifecycleEvents : List String :=
  ["contract.frozen", "contract.amendment.decided", "submission.delivered",
    "verification.delivered", "session.close", "escalation.raised"]

/-- `features::OBSERVER_EVENTS`. -/
def observerEvents : String := "observer-events"

def open_ (sessionId opener acceptor : String) : Except SessionError Session := do
  if opener = acceptor then .error .sameParticipant
  else
    let _ ← (AgentUrn.parse opener).mapError fun reason => .badParticipant opener reason
    let _ ← (AgentUrn.parse acceptor).mapError fun reason => .badParticipant acceptor reason
    .ok ⟨sessionId, (opener, acceptor), ∅, .opening, ∅, none⟩

/-- Observers fail with their own error, outsiders with another. -/
def authorizeAuthor (s : Session) (who : String) : Except SessionError Unit :=
  if who ∈ s.observers then .error (.observerCannotAuthor who)
  else if who ∈ members s.participants then .ok ()
  else .error (.notAParticipant who s.sessionId)

def accept (s : Session) (by_ : String) : Session × Except SessionError Unit :=
  match s.authorizeAuthor by_ with
  | .error e => (s, .error e)
  | .ok () =>
    if s.state ≠ .opening then (s, .error (.illegalTransition "accept" s.state))
    else if by_ = s.participants.1 then (s, .error (.openerCannotAccept by_))
    else ({ s with state := .active }, .ok ())

def declareFeatures (s : Session) (who : String) (features : List String) :
    Session × Except SessionError Unit :=
  match s.authorizeAuthor who with
  | .error e => (s, .error e)
  | .ok () =>
    if s.state = .closed ∨ s.state = .abandoned then
      (s, .error (.illegalTransition "declare features" s.state))
    else
      let entry := (s.declared[who]?).getD ∅ ∪ features.toFinset
      ({ s with declared := s.declared.insert who entry }, .ok ())

/-- Available only when both participants declared it. -/
def featureAvailable (s : Session) (feature : String) : Bool :=
  (s.declared[s.participants.1]?).any (fun d => feature ∈ d) &&
    (s.declared[s.participants.2]?).any (fun d => feature ∈ d)

def closeInternal (s : Session) (reason : String) : Session × Except SessionError Unit :=
  if s.state ≠ .active then (s, .error (.illegalTransition "close" s.state))
  else ({ s with state := .closed, closeReason := some reason }, .ok ())

def closeForCapabilityMismatch (s : Session) (feature : String) :
    Session × Except SessionError Unit :=
  s.closeInternal ("capability-mismatch: " ++ feature)

def grantObserver (s : Session) (observer : String) (kinds : List String) :
    Session × Except SessionError Unit :=
  if s.state ≠ .active then (s, .error (.illegalTransition "grant observer" s.state))
  else if observer ∈ members s.participants then (s, .error (.observerIsParticipant observer))
  else match kinds.find? (fun k => k ∉ lifecycleEvents) with
    | some k => (s, .error (.notALifecycleEvent k))
    | none =>
      if s.featureAvailable observerEvents = false then
        (s, .error (.illegalTransition
          "grant observer without the observer-events feature on both sides" s.state))
      else ({ s with observers := s.observers.insert observer ⟨kinds.toFinset⟩ }, .ok ())

def observerReceives (s : Session) (observer kind : String) : Bool :=
  (s.observers[observer]?).any fun g => kind ∈ g.kinds

def close (s : Session) (by_ reason : String) : Session × Except SessionError Unit :=
  match s.authorizeAuthor by_ with
  | .error e => (s, .error e)
  | .ok () => s.closeInternal reason

def abandon (s : Session) (reason : String) : Session × Except SessionError Unit :=
  if s.state = .closed ∨ s.state = .abandoned then
    (s, .error (.illegalTransition "abandon" s.state))
  else ({ s with state := .abandoned, closeReason := some reason }, .ok ())

end Session
end Hacp.V2
