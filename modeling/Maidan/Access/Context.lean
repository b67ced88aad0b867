/-
# The caller

`AuthContext` is what a credential resolves to, and what every authorization check reads.  It is
resolved once, when a request comes in, and not again while the request runs.

A borrowed context acts as one member, `memberId`, on behalf of another, `actorId`.  Its
capabilities are cut down where it is built.
-/
import Maidan.Types

namespace Maidan

/-! ## 1. Capabilities -/

/-- `KNOWN`. -/
def knownCapabilities : List String :=
  ["workspace:read", "workspace:write", "message:post", "thread:transition", "artifact:upload",
    "search:query", "event:subscribe", "token:admin", "federation:ingest", "federation:admin",
    "audit:read-global", "operator:global", "channel:admin", "secret:read", "secret:admin",
    "approval:grant", "workspace:admin"]

/-- `DELEGATABLE`: work, and never the means to hand out more. -/
def delegatable : List String :=
  ["workspace:read", "workspace:write", "message:post", "thread:transition", "artifact:upload",
    "search:query", "event:subscribe"]

/-! ## 2. The context -/

/-- `AuthError`. -/
inductive AuthError
  | unauthorized
  | forbidden (reason : String)
  | store (e : StoreError)
deriving DecidableEq, Repr

/-- Who asks, in which workspace, with which credential.  `bypass` is authentication turned off. -/
structure AuthContext where
  memberId : MemberId
  workspaceId : WorkspaceId
  bypass : Bool := false
  tokenId : Option ApiTokenId := none
  actorId : MemberId := memberId
  appInstallationId : Option AppInstallationId := none
  delegationGrantId : Option DelegationGrantId := none
  capabilities : List String := []
deriving DecidableEq, Repr

namespace AuthContext

/-- `from_token`, and `from_app_token` where there is an installation. -/
def fromToken (token : ApiTokenId) (member : MemberId) (workspace : WorkspaceId)
    (installation : Option AppInstallationId) (capabilities : List String) : AuthContext where
  memberId := member
  workspaceId := workspace
  tokenId := some token
  appInstallationId := installation
  capabilities

/-- `from_delegated_token`. -/
def fromDelegatedToken (token : ApiTokenId) (actor subject : MemberId) (workspace : WorkspaceId)
    (grant : DelegationGrantId) (capabilities : List String) : AuthContext where
  memberId := subject
  workspaceId := workspace
  tokenId := some token
  actorId := actor
  delegationGrantId := some grant
  capabilities := capabilities.filter delegatable.contains

variable (auth : AuthContext)

/-- `has_capability`. -/
def hasCapability (cap : String) : Bool :=
  auth.bypass || auth.capabilities.contains cap

/-- `require_capability`. -/
def requireCapability (cap : String) : Except AuthError Unit :=
  if auth.hasCapability cap then .ok () else .error (.forbidden s!"missing capability: {cap}")

/-- `ensure_workspace`. -/
def ensureWorkspace (workspace : WorkspaceId) : Except AuthError Unit :=
  if auth.bypass ∨ auth.workspaceId = workspace then .ok ()
  else .error (.forbidden "token is not valid for this workspace")

/-- `holder_grant`: what the caller may hand on. -/
def holderGrant : List String :=
  if auth.bypass then knownCapabilities else auth.capabilities

/-- `mint_vocabulary`: every known capability, but the two that cross tenants only for a caller
that holds them. -/
def mintVocabulary : List String :=
  if auth.bypass then knownCapabilities
  else knownCapabilities.filter fun cap =>
    (cap != "operator:global" && cap != "audit:read-global") || auth.hasCapability cap

end AuthContext

end Maidan
