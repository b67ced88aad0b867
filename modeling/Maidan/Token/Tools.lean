/-
# API tokens: how a bearer is resolved, and the calls that derive a token

A secret resolves to the context of its token (`resolve.rs`).  A token minted under an OAuth grant
is bound to the MCP resource: `resolve_bearer`, which every other surface uses, refuses it, and only
`resolve_resource_bearer` takes it.

Three calls make a token out of the caller's own: `attenuate_token` and `delegate_token` derive one,
`rotate_token` replaces it.  Each exists as an MCP tool and as a REST route.

* §1 resolves;
* §2 is what a derived token may hold and how long;
* §3 is the calls;
* §4 says what row each of them puts in the table.
-/
import Maidan.Token.Store

namespace Maidan

open Relational Run List

/-! ## 1. Resolving a bearer -/

namespace TokenDb

variable (db : TokenDb)

/-- `active_token`, for the hash of a bearer. -/
def activeToken (hash : String) (now : Int) : Except AuthError ApiTokenRow :=
  (db.getActiveByHash hash now).mapError .store

/-- `ensure_workspace_active`. -/
def ensureWorkspaceActive (workspace : WorkspaceId) : Except AuthError Unit :=
  if db.suspended.contains workspace then .error (.forbidden "workspace suspended") else .ok ()

/-- `get_delegation_grant`. -/
def getDelegationGrant (grant : DelegationGrantId) : Except StoreError DelegationGrantRow :=
  match db.delegationGrants.get? grant with
  | some g => .ok g
  | none => .error .notFound

/-- `active_token_context`. -/
def activeTokenContext (t : ApiTokenRow) : Except AuthError AuthContext := do
  db.ensureWorkspaceActive t.workspaceId
  match t.delegationGrantId with
  | some g =>
    let grant ← (db.getDelegationGrant g).mapError .store
    return .fromDelegatedToken t.id grant.delegateId t.memberId t.workspaceId g t.capabilities
  | none =>
    return .fromToken t.id t.memberId t.workspaceId t.appInstallationId t.capabilities

/-- `resolve_bearer`. -/
def resolveBearer (hash : String) (now : Int) : Except AuthError AuthContext := do
  let t ← db.activeToken hash now
  if t.oauthGrantId.isSome then .error .unauthorized else db.activeTokenContext t

/-- `resolve_resource_bearer`. -/
def resolveResourceBearer (hash : String) (now : Int) : Except AuthError AuthContext := do
  let t ← db.activeToken hash now
  db.activeTokenContext t

end TokenDb

/-! ## 2. No more than the holder has -/

/-- `validate_list`. -/
def validateList (caps : List String) : Except String Unit :=
  match caps.find? fun cap => !knownCapabilities.contains cap with
  | some cap => .error s!"unknown capability: {cap}"
  | none => .ok ()

/-- `first_not_held`. -/
def firstNotHeld (held requested : List String) : Option String :=
  requested.find? fun cap => !held.contains cap

/-- `validate_held`. -/
def validateHeld (held requested : List String) : Except String Unit := do
  validateList requested
  match firstNotHeld held requested with
  | some cap => .error s!"capability {cap} exceeds holder grant"
  | none => .ok ()

/-- `unique_in_order`. -/
def uniqueInOrder (caps : List String) : List String :=
  caps.foldl (fun out cap => if out.contains cap then out else out ++ [cap]) []

/-- `attenuate`. -/
def attenuate (held requested : List String) : Except String (List String) :=
  if requested.isEmpty then .error "attenuated grant must not be empty"
  else do
    validateHeld held requested
    return uniqueInOrder requested

/-- `attenuate_expiry`. -/
def attenuateExpiry (parent requested : Option Int) (now : Int) : Except String (Option Int) :=
  match requested with
  | some exp =>
    if exp ≤ now then .error "expires_at must be in the future"
    else if parent.any fun parentExp => parentExp < exp then
      .error "expires_at cannot exceed the parent token"
    else .ok (some exp)
  | none => .ok parent

/-- `DELEGATED_TOKEN_DEFAULT_TTL_SECS`. -/
def delegatedTokenDefaultTtlSecs : Int := 15 * 60

/-- `delegated_expiry`. -/
def delegatedExpiry (grantExpiresAt : Int) (parentExpiresAt requested : Option Int) (now : Int) :
    Except String Int :=
  let fallback := min (now + seconds delegatedTokenDefaultTtlSecs) grantExpiresAt
  let expiresAt := requested.getD (parentExpiresAt.elim fallback (min fallback))
  if expiresAt ≤ now then .error "expires_at must be in the future"
  else if now + seconds delegatedTokenMaxTtlSecs < expiresAt then
    .error "delegated token lifetime cannot exceed one hour"
  else if grantExpiresAt < expiresAt then
    .error "expires_at cannot exceed the delegation grant"
  else if parentExpiresAt.any fun parent => parent < expiresAt then
    .error "expires_at cannot exceed the delegate bearer"
  else .ok expiresAt

theorem mem_uniqueInOrder : cap ∈ uniqueInOrder caps ↔ cap ∈ caps := by
  -- the accumulator holds what was seen, so far
  have hfold : ∀ (l out : List String), cap ∈ l.foldl
      (fun out cap => if out.contains cap then out else out ++ [cap]) out ↔
        cap ∈ out ∨ cap ∈ l := by
    intro l
    induction l with
    | nil => simp
    | cons c l ih =>
      intro out
      rw [foldl_cons, ih]
      by_cases hc : out.contains c = true
      · rw [if_pos hc, mem_cons]
        have hmem : c ∈ out := by simpa using hc
        constructor
        · rintro (h | h)
          · exact .inl h
          · exact .inr (.inr h)
        · rintro (h | rfl | h)
          · exact .inl h
          · exact .inl hmem
          · exact .inr h
      · rw [if_neg hc, mem_append, mem_singleton, mem_cons, or_assoc]
  unfold uniqueInOrder
  rw [hfold]
  simp

theorem validateHeld_eq_ok {held requested : List String}
    (h : validateHeld held requested = .ok ()) : ∀ cap ∈ requested, cap ∈ held := by
  obtain ⟨_, -, h⟩ := bind_ok h
  split at h
  · cases h
  rename_i hnone
  intro cap hcap
  have hnot := find?_eq_none.mp hnone cap hcap
  simpa using hnot

/-- **No amplification**: what comes out was asked for, and what was asked for is held. -/
theorem attenuate_eq_ok {held requested caps : List String}
    (h : attenuate held requested = .ok caps) :
    (∀ cap, cap ∈ caps ↔ cap ∈ requested) ∧ ∀ cap ∈ requested, cap ∈ held := by
  unfold attenuate at h
  split at h
  · cases h
  obtain ⟨_, hheld, h⟩ := bind_ok h
  cases h
  exact ⟨fun cap => mem_uniqueInOrder, validateHeld_eq_ok hheld⟩

/-! ## 3. The calls -/

/-- What a call answers when it refuses: `McpError`, and on REST `ApiError`, whose `BadRequest` is
`invalid` here. -/
inductive TokenError
  | invalid (msg : String)
  | forbidden (msg : String)
  | notFound
  | unauthorized
  | store (e : StoreError)

def TokenError.ofAuth : AuthError → TokenError
  | .unauthorized => .unauthorized
  | .forbidden reason => .forbidden reason
  | .store e => .store e

/-- The new token of a call: its id, and the hash of its secret. -/
structure Minted where
  token : ApiTokenId
  hash : String

structure AttenuateArgs where
  capabilities : List String
  expiresAt : Option Int := none

structure DelegateArgs where
  grantId : DelegationGrantId
  capabilities : List String := []
  expiresAt : Option Int := none

namespace TokenDb

variable (db : TokenDb) (auth : AuthContext)

/-- `parent_expires_at`: of the caller's token, where it has one. -/
def parentExpiresAt : Except TokenError (Option Int) :=
  match auth.tokenId with
  | some token => ((db.getById token).map ApiTokenRow.expiresAt).mapError .store
  | none => .ok none

/-- The insert of an attenuation: under its parent, where the caller has a token. -/
def createDerived (token : ApiTokenId) (new : NewApiToken)
    (parent : Option ApiTokenId) : Except StoreError TokenDb :=
  match parent with
  | some parent => db.createAttenuatedOn token new parent
  | none => db.createOn token new

/-- An attenuation, with the vocabulary the surface checks the capabilities against, if any. -/
def attenuateWithin (vocabulary : Option (List String)) (db : TokenDb) (auth : AuthContext)
    (minted : Minted) (args : AttenuateArgs) (now : Int) : Except TokenError TokenDb := do
  (auth.requireCapability "workspace:read").mapError .ofAuth
  let capabilities ← (attenuate auth.holderGrant args.capabilities).mapError .invalid
  match vocabulary.bind fun v => capabilities.find? fun cap => !v.contains cap with
  | some cap => .error (.invalid s!"capability '{cap}' is outside the mint vocabulary")
  | none =>
    let parent ← db.parentExpiresAt auth
    let expiresAt ← (attenuateExpiry parent args.expiresAt now).mapError .invalid
    (db.createDerived minted.token
      { workspaceId := auth.workspaceId, memberId := auth.memberId,
        appInstallationId := auth.appInstallationId, tokenHash := minted.hash, capabilities,
        expiresAt } auth.tokenId).mapError .store

/-- `attenuate_token`, the MCP tool. -/
def attenuateToken : Minted → AttenuateArgs → Int → Except TokenError TokenDb :=
  attenuateWithin none db auth

/-- `attenuate_api_token`, the REST route: the capabilities must be ones the caller may mint. -/
def attenuateApiToken : Minted → AttenuateArgs → Int → Except TokenError TokenDb :=
  attenuateWithin (some auth.mintVocabulary) db auth

/-- `delegate_token`, and `delegate_api_token` on REST. -/
def delegateToken (minted : Minted) (args : DelegateArgs)
    (now : Int) : Except TokenError TokenDb := do
  (auth.requireCapability "workspace:read").mapError .ofAuth
  if auth.delegationGrantId.isSome then
    .error (.forbidden "a delegated token cannot exchange a grant; delegation is one hop")
  else
    let grant ← (db.getDelegationGrant args.grantId).mapError .store
    if !auth.bypass && grant.workspaceId != auth.workspaceId then .error .notFound
    else if grant.delegateId ≠ auth.actorId then
      .error (.forbidden "delegation grant belongs to a different delegate")
    else if grant.revokedAt.isSome || grant.expiresAt ≤ now then .error .unauthorized
    else
      let held := auth.holderGrant
      let requested := if args.capabilities.isEmpty then grant.capabilities.filter held.contains
        else args.capabilities
      let capabilities ← (attenuate grant.capabilities requested).mapError .invalid
      let capabilities ← (attenuate held capabilities).mapError .invalid
      let parentExpiry ← db.parentExpiresAt auth
      let expiresAt ←
        (delegatedExpiry grant.expiresAt parentExpiry args.expiresAt now).mapError .invalid
      (db.createDelegatedOn minted.token
        { workspaceId := grant.workspaceId, memberId := grant.subjectId,
          tokenHash := minted.hash, capabilities, expiresAt := some expiresAt }
        grant.id auth.memberId auth.tokenId now).mapError .store

/-- `rotate_token`, the MCP tool: of the token the caller is using. -/
def rotateToken (minted : Minted) (now : Int) : Except TokenError TokenDb := do
  (auth.requireCapability "workspace:read").mapError .ofAuth
  match auth.tokenId with
  | none =>
    .error (.invalid "rotate_token rotates the bearer token of this call; there is none")
  | some token => (db.rotateAudited token minted.token minted.hash now).mapError .store

/-- `rotate_api_token`, the REST route: the caller's own token, or any of the workspace for an
admin. -/
def rotateApiToken (token : ApiTokenId) (minted : Minted)
    (now : Int) : Except TokenError TokenDb := do
  (if auth.tokenId = some token then .ok () else
    (auth.requireCapability "token:admin").mapError .ofAuth)
  let existing ← (db.getById token).mapError .store
  (auth.ensureWorkspace existing.workspaceId).mapError .ofAuth
  (db.rotateAudited token minted.token minted.hash now).mapError .store

end TokenDb

/-- Where a request comes in. -/
inductive Surface
  | rest
  | mcp

def Surface.resolve : Surface → TokenDb → String → Int → Except AuthError AuthContext
  | .rest => TokenDb.resolveBearer
  | .mcp => TokenDb.resolveResourceBearer

def Surface.attenuate : Surface → TokenDb → AuthContext → Minted → AttenuateArgs → Int →
    Except TokenError TokenDb
  | .rest => TokenDb.attenuateApiToken
  | .mcp => TokenDb.attenuateToken

variable {hash : String} {now : Int} {db' : TokenDb} {minted : Minted}

namespace TokenDb

/-! ## 4. What a call puts in the table -/

/-- A context is of an active token: `t` is whose. -/
structure ContextOf (db : TokenDb) (now : Int) (auth : AuthContext) (t : ApiTokenRow) : Prop where
  mem : t ∈ db.tokens.rows
  active : db.active now t = true
  token : auth.tokenId = some t.id
  grant : auth.delegationGrantId = t.delegationGrantId
  installation : t.delegationGrantId = none → auth.appInstallationId = t.appInstallationId
  borrowed : t.delegationGrantId ≠ none → auth.appInstallationId = none

variable {db : TokenDb} {auth : AuthContext}

theorem getDelegationGrant_eq_ok (h : db.getDelegationGrant g = .ok grant) :
    db.delegationGrants.get? g = some grant := by
  unfold getDelegationGrant at h
  split at h
  · rename_i grant' hget
    cases h
    exact hget
  · cases h

/-- **The context of a token**: the member's own, or the subject's in the hands of the delegate. -/
inductive ContextFrom (db : TokenDb) (t : ApiTokenRow) : AuthContext → Prop
  | own (h : t.delegationGrantId = none) :
    ContextFrom db t (.fromToken t.id t.memberId t.workspaceId t.appInstallationId t.capabilities)
  | borrowed {g : DelegationGrantId} {grant : DelegationGrantRow}
    (h : t.delegationGrantId = some g) (hgrant : db.delegationGrants.get? g = some grant) :
    ContextFrom db t
      (.fromDelegatedToken t.id grant.delegateId t.memberId t.workspaceId g t.capabilities)

theorem activeTokenContext_eq_ok (h : db.activeTokenContext t = .ok auth) :
    ContextFrom db t auth := by
  obtain ⟨_, -, h⟩ := bind_ok h
  split at h
  · rename_i g hg
    obtain ⟨grant, hgrant, h⟩ := bind_ok h
    cases h
    exact .borrowed hg (getDelegationGrant_eq_ok (mapError_eq_ok hgrant))
  · rename_i hg
    cases h
    exact .own hg

theorem contextOf_of_activeTokenContext (ht : db.activeToken hash now = .ok t)
    (h : db.activeTokenContext t = .ok auth) : ContextOf db now auth t := by
  obtain ⟨hmem, -, hactive⟩ := getActiveByHash_eq_ok (mapError_eq_ok ht)
  cases activeTokenContext_eq_ok h with
  | own hg =>
    exact ⟨hmem, hactive, rfl, hg.symm, fun _ => rfl, fun hsome => absurd hg hsome⟩
  | borrowed hg _ =>
    refine ⟨hmem, hactive, rfl, hg.symm, fun hnone => ?_, fun _ => rfl⟩
    rw [hnone] at hg
    cases hg

theorem resolveResourceBearer_eq_ok (h : db.resolveResourceBearer hash now = .ok auth) :
    ∃ t, ContextOf db now auth t := by
  obtain ⟨t, ht, h⟩ := bind_ok h
  exact ⟨t, contextOf_of_activeTokenContext ht h⟩

/-- **Every other surface** sees no token of an OAuth grant. -/
theorem resolveBearer_eq_ok (h : db.resolveBearer hash now = .ok auth) :
    ∃ t, ContextOf db now auth t ∧ t.oauthGrantId = none := by
  obtain ⟨t, ht, h⟩ := bind_ok h
  split at h
  · cases h
  rename_i hbound
  exact ⟨t, contextOf_of_activeTokenContext ht h, by simpa using hbound⟩

/-- **The row of a derived token**, whichever call made it: it stands, it hangs under the caller's
token, and no OAuth grant is written to it. -/
structure DerivedRow (auth : AuthContext) (minted : Minted) (row : ApiTokenRow) : Prop where
  id : row.id = minted.token
  standing : row.revokedAt = none
  parent : row.parentTokenId = auth.tokenId
  unbound : row.oauthGrantId = none

theorem attenuateWithin_eq_ok (h : attenuateWithin vocabulary db auth minted args now = .ok db') :
    ∃ row, db.insertToken row = .ok db' ∧ DerivedRow auth minted row ∧
      row.appInstallationId = auth.appInstallationId ∧
      row.delegationGrantId =
        (auth.tokenId.bind db.tokens.get?).bind ApiTokenRow.delegationGrantId ∧
      row.memberId = auth.memberId ∧ ∀ cap ∈ row.capabilities, cap ∈ auth.holderGrant := by
  obtain ⟨_, -, h⟩ := bind_ok h
  obtain ⟨capabilities, hcaps, h⟩ := bind_ok h
  obtain ⟨hasked, hheld⟩ := attenuate_eq_ok (mapError_eq_ok hcaps)
  have hwithin : ∀ cap ∈ capabilities, cap ∈ auth.holderGrant :=
    fun cap hcap => hheld cap ((hasked cap).mp hcap)
  split at h
  · cases h
  obtain ⟨parent, -, h⟩ := bind_ok h
  obtain ⟨expiresAt, -, h⟩ := bind_ok h
  have hcreate := mapError_eq_ok h
  unfold createDerived at hcreate
  split at hcreate
  · rename_i p hp
    exact ⟨_, hcreate, ⟨rfl, rfl, hp.symm, rfl⟩, rfl, by rw [hp]; rfl, rfl, hwithin⟩
  · rename_i hp
    exact ⟨_, hcreate, ⟨rfl, rfl, hp.symm, rfl⟩, rfl, by rw [hp]; rfl, rfl, hwithin⟩

/-- **A row lent under the grant `g`**: it is the subject's, and holds no more than the grant. -/
def LentUnder (db : TokenDb) (g : DelegationGrantId) (row : ApiTokenRow) : Prop :=
  row.delegationGrantId = some g ∧ ∃ grant, db.delegationGrants.get? g = some grant ∧
    row.memberId = grant.subjectId ∧ ∀ cap ∈ row.capabilities, cap ∈ grant.capabilities

/-- **An exchange checks its parent where it inserts**: a token that was revoked meanwhile gets no
child. -/
theorem delegateToken_eq_ok (h : db.delegateToken auth minted args now = .ok db') :
    ∃ row, db.insertToken row = .ok db' ∧ DerivedRow auth minted row ∧
      row.appInstallationId = none ∧ LentUnder db args.grantId row ∧
      ∀ p, auth.tokenId = some p → db.live p = true := by
  obtain ⟨_, -, h⟩ := bind_ok h
  split at h
  · cases h
  obtain ⟨grant, hgrant, h⟩ := bind_ok h
  have hget := getDelegationGrant_eq_ok (mapError_eq_ok hgrant)
  split at h
  · cases h
  split at h
  · cases h
  split at h
  · cases h
  obtain ⟨_, -, h⟩ := bind_ok h
  obtain ⟨capabilities, -, h⟩ := bind_ok h
  obtain ⟨parentExpiry, -, h⟩ := bind_ok h
  obtain ⟨expiresAt, -, h⟩ := bind_ok h
  obtain ⟨e, hwithin, hstands, hins⟩ := createDelegatedOn_eq_ok (mapError_eq_ok h)
  rw [Table.key_of_get? hget] at hins hwithin
  refine ⟨_, hins, ⟨rfl, rfl, rfl, rfl⟩, rfl, ⟨rfl, grant, hget, rfl, hwithin grant hget⟩,
    fun p hp => ?_⟩
  rw [hp] at hstands
  exact live_of_parentStands hstands

theorem rotateToken_eq_ok (h : db.rotateToken auth minted now = .ok db') :
    ∃ token, auth.tokenId = some token ∧
      db.rotateAudited token minted.token minted.hash now = .ok db' := by
  obtain ⟨_, -, h⟩ := bind_ok h
  split at h
  · cases h
  rename_i token htoken
  exact ⟨token, htoken, mapError_eq_ok h⟩

theorem rotateApiToken_eq_ok (h : db.rotateApiToken auth token minted now = .ok db') :
    db.rotateAudited token minted.token minted.hash now = .ok db' := by
  obtain ⟨_, -, h⟩ := bind_ok h
  obtain ⟨existing, -, h⟩ := bind_ok h
  obtain ⟨_, -, h⟩ := bind_ok h
  exact mapError_eq_ok h

end TokenDb

variable {auth : AuthContext} {surface : Surface}

theorem Surface.resolve_eq_ok (h : surface.resolve db hash now = .ok auth) :
    ∃ t, TokenDb.ContextOf db now auth t := by
  cases surface with
  | rest =>
    obtain ⟨t, ht, -⟩ := TokenDb.resolveBearer_eq_ok h
    exact ⟨t, ht⟩
  | mcp => exact TokenDb.resolveResourceBearer_eq_ok h

theorem Surface.resolve_from (h : surface.resolve db hash now = .ok auth) :
    ∃ t ∈ db.tokens.rows, db.active now t = true ∧ TokenDb.ContextFrom db t auth := by
  have hrun : ∃ t, db.activeToken hash now = .ok t ∧ db.activeTokenContext t = .ok auth := by
    cases surface with
    | rest =>
      obtain ⟨t, ht, h⟩ := bind_ok h
      split at h
      · cases h
      exact ⟨t, ht, h⟩
    | mcp => exact bind_ok h
  obtain ⟨t, ht, h⟩ := hrun
  obtain ⟨hmem, -, hactive⟩ := TokenDb.getActiveByHash_eq_ok (mapError_eq_ok ht)
  exact ⟨t, hmem, hactive, TokenDb.activeTokenContext_eq_ok h⟩

theorem Surface.attenuate_eq_ok (h : surface.attenuate db auth minted args now = .ok db') :
    ∃ row, db.insertToken row = .ok db' ∧ TokenDb.DerivedRow auth minted row ∧
      row.appInstallationId = auth.appInstallationId ∧
      row.delegationGrantId =
        (auth.tokenId.bind db.tokens.get?).bind ApiTokenRow.delegationGrantId ∧
      row.memberId = auth.memberId ∧ ∀ cap ∈ row.capabilities, cap ∈ auth.holderGrant := by
  have hrun : ∃ vocabulary,
      TokenDb.attenuateWithin vocabulary db auth minted args now = .ok db' := by
    cases surface with
    | rest => exact ⟨some auth.mintVocabulary, h⟩
    | mcp => exact ⟨none, h⟩
  obtain ⟨vocabulary, hrun⟩ := hrun
  exact TokenDb.attenuateWithin_eq_ok hrun

end Maidan
