import Hacp.Lib.Ancestry
import Hacp.Lib.Checks
import Hacp.Lib.Machine
import Hacp.V2.AgentUrn
import Hacp.V2.Canon
import Std.Data.ExtTreeMap

/-!
# Capability grants and their ledger

A grant descends from a parent grant or is a charter. The ledger records a grant
only after its parent was found open, held by the grantor and delegable in every
requested scope. Walks along parent links are the source's own loops.
-/
namespace Hacp.V2
open Lib Std

structure ScopeElement where
  name : String
  delegable : Bool
  deriving DecidableEq

structure CapabilityGrant where
  grantId : String
  grantor : String
  grantee : String
  scopes : List ScopeElement
  validFrom : String
  validUntil : String
  /-- Parent grant id; `none` for a deployment charter. -/
  parent : Option String
  /-- Peer restriction inherited by preauthorization descendants. -/
  peer : Option String
  deriving DecidableEq

/-- `BadUrn` carries the URN itself or the reason it was refused for. -/
inductive UrnFault where
  | urn (found : String)
  | reason (e : UrnError)
  deriving DecidableEq

inductive GrantError where
  | notDelegable (scope : String)
  | unknownGrant (id : String)
  | closedGrant (id : String)
  | chainMismatch (grantor grantee : String)
  | badWindow (from_ until_ : String)
  | badId (id : String)
  | badUrn (fault : UrnFault)
  | badTimestamp (at_ : String)
  | duplicateGrant (id : String)
  | cycle (id : String)
  deriving DecidableEq

def hexId (pre id : String) : Except GrantError Unit :=
  match stripPrefix pre id with
  | none => .error (.badId id)
  | some rest =>
    if 12 ≤ (asBytes rest).length ∧ rest.toList.all isLowerHex then .ok ()
    else .error (.badId id)

namespace CapabilityGrant
variable (F : Foreign)

/-- The literal chartering authority: the deployment, not an agent. -/
def deploymentCharterer : String := "deployment"

def checkShape (g : CapabilityGrant) : Except GrantError Unit := do
  hexId "g-" g.grantId
  let isDeploymentCharter := g.parent.isNone && g.grantor == deploymentCharterer
  if !isDeploymentCharter then
    let _ ← (AgentUrn.parse g.grantor).mapError fun _ => .badUrn (.urn g.grantor)
  let _ ← (AgentUrn.parse g.grantee).mapError fun _ => .badUrn (.urn g.grantee)
  match g.peer with
  | some peer => let _ ← (AgentUrn.parse peer).mapError fun _ => .badUrn (.urn peer)
  | none => pure ()
  (validateTimestamp F g.validFrom).mapError fun _ => .badTimestamp g.validFrom
  (validateTimestamp F g.validUntil).mapError fun _ => .badTimestamp g.validUntil
  if ¬byteLe g.validFrom g.validUntil then .error (.badWindow g.validFrom g.validUntil)
  else .ok ()

/-- The root of a grant chain, issued by the deployment itself. -/
def charter (grantId charterer grantee : String) (scopes : List ScopeElement)
    (validFrom validUntil : String) : Except GrantError CapabilityGrant :=
  let g : CapabilityGrant := ⟨grantId, charterer, grantee, scopes, validFrom, validUntil, none, none⟩
  do g.checkShape F; .ok g

def windowOpen (g : CapabilityGrant) (at_ : String) : Bool :=
  byteLe g.validFrom at_ && byteLe at_ g.validUntil

/-- Names with their delegable flag; the last element of a name decides. -/
def delegable (g : CapabilityGrant) : ExtTreeMap String Bool :=
  g.scopes.foldl (fun m s => m.insert s.name s.delegable) ∅

end CapabilityGrant

/-- child agent URN → parent agent URN; absent means root. -/
structure OrgChart where
  parentOf : ExtTreeMap String String := ∅

structure GrantLedger where
  grants : ExtTreeMap String CapabilityGrant := ∅
  revoked : Finset String := ∅

namespace GrantLedger
variable (F : Foreign)

def grant (L : GrantLedger) (grantId : String) : Except GrantError CapabilityGrant :=
  match L.grants[grantId]? with
  | some g => .ok g
  | none => .error (.unknownGrant grantId)

def parentLink (L : GrantLedger) (id : String) : Option String :=
  L.grants[id]?.bind CapabilityGrant.parent

/-- One turn of the loop in `is_open`: the id to look at, the ids already seen. -/
def isOpenTurn (L : GrantLedger) (at_ : String) :
    Option String × Finset String → (Option String × Finset String) ⊕ Except GrantError Bool
  | (none, _) => .inr (.ok true)
  | (some id, seen) =>
    if id ∈ seen then .inr (.error (.cycle id))
    else match L.grants[id]? with
      | none => .inr (.error (.unknownGrant id))
      | some g =>
        if id ∈ L.revoked ∨ g.windowOpen at_ = false then .inr (.ok false)
        else .inl (g.parent, insert id seen)

/-- Unrevoked and inside the window at `at_`, with all ancestors. The ids seen are recorded
and distinct, so the loop leaves within one turn more than there are grants. -/
def isOpen (L : GrantLedger) (grantId at_ : String) : Except GrantError Bool := do
  (validateTimestamp F at_).mapError fun _ => .badTimestamp at_
  (Loop.iterate (L.isOpenTurn at_) (L.grants.size + 1) (some grantId, ∅)).getD
    (.error (.cycle grantId))

def checkParent (L : GrantLedger) (g : CapabilityGrant) (at_ : String) :
    Except GrantError Unit :=
  match g.parent with
  | none => .ok ()
  | some parentId => do
    let parent ← L.grant parentId
    let openNow ← L.isOpen F parentId at_
    if !openNow then .error (.closedGrant parentId)
    else if parent.grantee ≠ g.grantor then .error (.chainMismatch g.grantor parent.grantee)
    else match g.scopes.find? (fun s => parent.delegable[s.name]? != some true) with
      | some scope => .error (.notDelegable scope.name)
      | none => .ok ()

def issue (L : GrantLedger) (g : CapabilityGrant) (at_ : String) :
    GrantLedger × Except GrantError Unit :=
  match g.checkShape F with
  | .error e => (L, .error e)
  | .ok () =>
    match validateTimestamp F at_ with
    | .error _ => (L, .error (.badTimestamp at_))
    | .ok () =>
      match L.grants[g.grantId]? with
      | some existing =>
        if existing = g then (L, .ok ()) else (L, .error (.duplicateGrant g.grantId))
      | none =>
        match L.checkParent F g at_ with
        | .error e => (L, .error e)
        | .ok () => ({ L with grants := L.grants.insert g.grantId g }, .ok ())

/-- Close a grant. Idempotent for an already-revoked grant. -/
def revoke (L : GrantLedger) (grantId : String) : GrantLedger × Except GrantError Unit :=
  match L.grants[grantId]? with
  | some _ => ({ L with revoked := insert grantId L.revoked }, .ok ())
  | none => (L, .error (.unknownGrant grantId))

/-- `self.is_open(id, at).unwrap_or(false)`. -/
def isOpenOrFalse (L : GrantLedger) (grantId at_ : String) : Bool :=
  match L.isOpen F grantId at_ with
  | .ok b => b
  | .error _ => false

def heldBy (L : GrantLedger) (agent at_ : String) : List CapabilityGrant :=
  (L.grants.toList.map Prod.snd).filter fun g =>
    g.grantee == agent && L.isOpenOrFalse F g.grantId at_

def covers (L : GrantLedger) (agent scope at_ : String) : Bool :=
  (L.heldBy F agent at_).any fun g => g.scopes.any fun s => s.name == scope

/-- The first open grant of `agent` whose `cross-branch/<class>` scope covers the class. -/
def preauthorizes (L : GrantLedger) (agent taskClass at_ : String) : Option String :=
  ((L.heldBy F agent at_).find? fun g =>
    g.scopes.any fun s => s.name == "cross-branch/" ++ taskClass).map CapabilityGrant.grantId

/-- One turn of the loop in `preauthorization_allows_peer`; leaving it with no id left runs
the test on restricted peers that stands after the loop. -/
def allowsPeerTurn (L : GrantLedger) (org : OrgChart) (requester peer : String) :
    Option String × Bool → (Option String × Bool) ⊕ Except GrantError Bool
  | (none, restricted) =>
    .inr (.ok !(restricted && (requester == peer || org.parentOf[requester]?.isNone ||
      org.parentOf[requester]? != org.parentOf[peer]?)))
  | (some id, restricted) =>
    match L.grants[id]? with
    | none => .inr (.error (.unknownGrant id))
    | some g => match g.peer with
      | some boundPeer =>
        if boundPeer ≠ peer then .inr (.ok false) else .inl (g.parent, true)
      | none => .inl (g.parent, restricted)

/-- The loop has no cycle guard: a walk longer than the number of grants never ends. -/
def preauthorizationAllowsPeer (L : GrantLedger) (grantId : String) (org : OrgChart)
    (requester peer : String) : Outcome (Except GrantError Bool) :=
  match Loop.iterate (L.allowsPeerTurn org requester peer) (L.grants.size + 1)
      (some grantId, false) with
  | some r => .returns r
  | none => .diverges

end GrantLedger

namespace OrgChart

/-- One turn of the loop in `checked_chain`: the path so far, in order, and its last agent.
The agents seen are those on the path. -/
def checkedChainTurn (org : OrgChart) :
    List String × String → (List String × String) ⊕ Except GrantError (List String)
  | (path, current) =>
    match org.parentOf[current]? with
    | none => .inr (.ok path)
    | some parent =>
      if parent ∈ path then .inr (.error (.cycle parent)) else .inl (path ++ [parent], parent)

/-- The declared chain from `agent` up to its root, or the agent at which it closes. Each
turn but the last leaves an agent with a declared parent, so the budget is never used up. -/
def checkedChain (org : OrgChart) (agent : String) : Except GrantError (List String) :=
  (Loop.iterate org.checkedChainTurn (org.parentOf.size + 1) ([agent], agent)).getD
    (.error (.cycle agent))

/-- `checked_chain(agent).unwrap_or_default()`. -/
def chain (org : OrgChart) (agent : String) : List String :=
  match org.checkedChain agent with
  | .ok path => path
  | .error _ => []

/-- The first supervisor of `a` who also supervises `b`; no agent supervises itself. -/
def lca (org : OrgChart) (a b : String) : Option String :=
  match org.checkedChain a, org.checkedChain b with
  | .ok chainA, .ok chainB => (chainA.drop 1).find? fun node => decide (node ∈ chainB.drop 1)
  | _, _ => none

def children (org : OrgChart) (agent : String) : List String :=
  ((org.parentOf.toList.filter fun p => p.2 == agent).map Prod.fst).insertionSort byteLe

def validateEntries (org : OrgChart) : List (String × String) → Except GrantError Unit
  | [] => .ok ()
  | (child, parent) :: entries => do
    let _ ← (AgentUrn.parse child).mapError fun e => .badUrn (.reason e)
    let _ ← (AgentUrn.parse parent).mapError fun e => .badUrn (.reason e)
    let _ ← org.checkedChain child
    org.validateEntries entries

def validate (org : OrgChart) : Except GrantError Unit :=
  org.validateEntries org.parentOf.toList

end OrgChart

structure CollaborationRequest where
  requestId : String
  requester : String
  peer : String
  taskClass : String
  expires : String
  deriving DecidableEq

inductive PermitBasis where
  | lca (supervisor : String)
  | preauthorization (grantId : String)
  deriving DecidableEq

structure CollaborationPermit where
  permitId : String
  requestId : String
  taskClass : String
  requester : String
  peer : String
  issuedBy : String
  basis : PermitBasis
  expires : String
  deriving DecidableEq

inductive CrossBranchError where
  | notLca (issuer a b : String)
  | noLca (a b : String)
  | noPreauthorization (requester class_ : String)
  | wrongPair (permitId a b : String)
  | expired (at_ : String)
  | grant (e : GrantError)
  deriving DecidableEq

def CollaborationRequest.validate (F : Foreign) (r : CollaborationRequest) :
    Except GrantError Unit := do
  hexId "cr-" r.requestId
  let _ ← (AgentUrn.parse r.requester).mapError fun e => .badUrn (.reason e)
  let _ ← (AgentUrn.parse r.peer).mapError fun e => .badUrn (.reason e)
  if r.requester = r.peer ∨ r.taskClass = "" then
    .error (.notDelegable "distinct peers and a task class are required")
  else (validateTimestamp F r.expires).mapError fun _ => .badTimestamp r.expires

namespace CollaborationPermit
variable (F : Foreign)

/-- The permit of the lowest common supervisor. `permitId` is the fresh id drawn for it. -/
def byLca (permitId : String) (org : OrgChart) (request : CollaborationRequest)
    (issuer : String) : Except CrossBranchError CollaborationPermit := do
  org.validate.mapError .grant
  (request.validate F).mapError .grant
  match org.lca request.requester request.peer with
  | none => .error (.noLca request.requester request.peer)
  | some lca =>
    if issuer ≠ lca then .error (.notLca issuer request.requester request.peer)
    else .ok ⟨permitId, request.requestId, request.taskClass, request.requester, request.peer,
      issuer, .lca lca, request.expires⟩

/-- One turn of the loop that lowers the expiry; `ledger.grants[id]` panics on a missing id. -/
def expiryTurn (L : GrantLedger) :
    Option String × String → (Option String × String) ⊕ Option String
  | (none, expires) => .inr (some expires)
  | (some id, expires) =>
    match L.grants[id]? with
    | none => .inr none
    | some g =>
      .inl (g.parent, if byteLe expires g.validUntil then expires else g.validUntil)

/-- The permit of a standing preauthorization. `permitId` is the fresh id drawn for it. -/
def byPreauthorization (permitId : String) (org : OrgChart) (L : GrantLedger)
    (request : CollaborationRequest) (at_ : String) :
    Outcome (Except CrossBranchError CollaborationPermit) :=
  let checks : Except CrossBranchError String := do
    org.validate.mapError .grant
    (request.validate F).mapError .grant
    (validateTimestamp F at_).mapError fun _ => .grant (.badTimestamp at_)
    match L.preauthorizes F request.requester request.taskClass at_ with
    | none => .error (.noPreauthorization request.requester request.taskClass)
    | some grantId => .ok grantId
  match checks with
  | .error e => .returns (.error e)
  | .ok grantId =>
    match L.grants[grantId]? with
    | none => .panics
    | some g =>
      let mismatch := GrantError.chainMismatch g.grantor request.peer
      if g.grantor ∉ org.chain request.peer then .returns (.error (.grant mismatch))
      else match L.preauthorizationAllowsPeer grantId org request.requester request.peer with
        | .panics => .panics
        | .diverges => .diverges
        | .returns (.error e) => .returns (.error (.grant e))
        | .returns (.ok false) => .returns (.error (.grant mismatch))
        | .returns (.ok true) =>
          match Loop.iterate (expiryTurn L) (L.grants.size + 1)
              (some grantId, request.expires) with
          | none => .diverges
          | some none => .panics
          | some (some expires) =>
            if ¬byteLe at_ expires then .returns (.error (.expired expires))
            else .returns (.ok ⟨permitId, request.requestId, request.taskClass,
              request.requester, request.peer, request.requester, .preauthorization grantId,
              expires⟩)

/-- The pair and the expiry of a permit, without the authority behind it. -/
def authorizes (p : CollaborationPermit) (a b at_ : String) : Except CrossBranchError Unit := do
  (validateTimestamp F at_).mapError fun _ => .grant (.badTimestamp at_)
  (validateTimestamp F p.expires).mapError fun _ => .grant (.badTimestamp p.expires)
  if ¬byteLe at_ p.expires then .error (.expired p.expires)
  else if (a = p.requester ∧ b = p.peer) ∨ (a = p.peer ∧ b = p.requester) then .ok ()
  else .error (.wrongPair p.permitId a b)

/-- `grantor_authorizes_peer`: the walk over restricted peers runs only for a grantor above
the peer. -/
def grantorAuthorizesPeer (p : CollaborationPermit) (org : OrgChart) (L : GrantLedger)
    (grantId : String) : Outcome (Except GrantError Bool) :=
  if L.grants[grantId]?.any fun g => decide (g.grantor ∈ org.chain p.peer) then
    L.preauthorizationAllowsPeer grantId org p.requester p.peer
  else .returns (.ok false)

/-- The recheck of a stored permit at admission, against the chart and the ledger of now. -/
def authorizeSession (p : CollaborationPermit) (org : OrgChart) (L : GrantLedger)
    (a b taskClass at_ : String) : Outcome (Except CrossBranchError Unit) :=
  match p.authorizes F a b at_ with
  | .error e => .returns (.error e)
  | .ok () =>
    if taskClass = "" ∨ p.taskClass ≠ taskClass then
      .returns (.error (.noPreauthorization p.requester taskClass))
    else match p.basis with
    | .lca supervisor =>
      match org.validate with
      | .error e => .returns (.error (.grant e))
      | .ok () =>
        if p.issuedBy ≠ supervisor ∨ org.lca a b ≠ some supervisor then
          .returns (.error (.notLca p.issuedBy a b))
        else .returns (.ok ())
    | .preauthorization grantId =>
      let closed := CrossBranchError.grant (.closedGrant grantId)
      match p.grantorAuthorizesPeer org L grantId with
      | .panics => .panics
      | .diverges => .diverges
      | .returns (.error e) => .returns (.error (.grant e))
      | .returns (.ok peerAllowed) =>
        if p.issuedBy ≠ p.requester then .returns (.error closed)
        else match L.isOpen F grantId at_ with
        | .error e => .returns (.error (.grant e))
        | .ok false => .returns (.error closed)
        | .ok true =>
          if !peerAllowed || !(L.heldBy F p.requester at_).any (fun g =>
              g.grantId == grantId && g.scopes.any fun s => s.name == "cross-branch/" ++ taskClass)
          then .returns (.error closed)
          else .returns (.ok ())

end CollaborationPermit
end Hacp.V2
