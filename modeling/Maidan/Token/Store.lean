/-
# API tokens: the rows and the statements that write them

A token is a row of `maidan_api_tokens`.  Four columns tie it to something else: the token it was
derived from (`parentTokenId`), the delegation grant it was exchanged under, the OAuth grant it was
minted under, the app installation it belongs to.  A token counts only while everything it is tied
to stands; `get_active_by_hash` is that condition, in one statement.

* §1 is the tables and the condition;
* §2 is the five `INSERT`s: `create_on`, `create_attenuated_on`, `create_delegated_on`,
  `mint_token_on`, and the successor's in `rotate_audited`;
* §3 is the ways to end a token, each with its own `WHERE`;
* §4 says what each of them leaves in the table, §5 what none of them takes back, §6 who descends
  from whom.

What a column must carry over is decided by each `INSERT` for itself, and which rows an end reaches
by each `UPDATE` for itself; the modules after this one ask what follows.

Ids and secrets are generated by the caller of a statement and are inputs here; the hash stands for
its secret.  Labels, quotas and audit rows are read by nothing below.
-/
import Maidan.Access.Context
import Maidan.Db
import Maidan.Lib.Digraph

namespace Maidan

open Relational Table Run Digraph Relation List

/-! ## 1. The tables -/

/-- `maidan_api_tokens`. -/
structure ApiTokenRow where
  id : ApiTokenId
  workspaceId : WorkspaceId
  memberId : MemberId
  appInstallationId : Option AppInstallationId := none
  tokenHash : String
  capabilities : List String := []
  expiresAt : Option Int := none
  revokedAt : Option Int := none
  parentTokenId : Option ApiTokenId := none
  delegationGrantId : Option DelegationGrantId := none
  oauthGrantId : Option OAuthGrantId := none

/-- `maidan_delegation_grants`: `delegateId` may act as `subjectId`. -/
structure DelegationGrantRow where
  id : DelegationGrantId
  workspaceId : WorkspaceId
  subjectId : MemberId
  delegateId : MemberId
  capabilities : List String
  expiresAt : Int
  revokedAt : Option Int := none

/-- `oauth_grants`. -/
structure OAuthGrantRow where
  id : OAuthGrantId
  clientId : String
  memberId : MemberId
  workspaceId : WorkspaceId
  scope : List String
  lineageId : LineageId
  revokedAt : Option Int := none

/-- `oauth_refresh_tokens`. -/
structure OAuthRefreshRow where
  tokenHash : String
  grantId : OAuthGrantId
  lineageId : LineageId
  expiresAt : Int
  usedAt : Option Int := none
  revokedAt : Option Int := none

/-- `maidan_app_installations`. -/
structure AppInstallationRow where
  id : AppInstallationId
  revokedAt : Option Int := none

/-- The tables a token is looked up in. -/
structure TokenDb where
  tokens : Table ApiTokenRow.id := .empty
  delegationGrants : Table DelegationGrantRow.id := .empty
  oauthGrants : Table OAuthGrantRow.id := .empty
  refreshTokens : Table OAuthRefreshRow.tokenHash := .empty
  installations : Table AppInstallationRow.id := .empty
  members : Table MemberRow.id := .empty
  /-- `maidan_scim_users`: a member, and whether its provider keeps it active. -/
  scimUsers : List (MemberId × Bool) := []
  /-- The workspaces that are suspended. -/
  suspended : List WorkspaceId := []

namespace TokenDb

/-- SQLite's `datetime(t)`, for comparing: whole seconds. -/
def datetime (t : Int) : Int := t / 1000000000

variable (db : TokenDb)

/-- A live member of the workspace, whom no provider has deactivated. -/
def memberActive (workspace : WorkspaceId) (member : MemberId) : Bool :=
  db.members.rows.any fun m => m.id == member && m.workspaceId == workspace &&
    m.tombstonedAt.isNone && !db.scimUsers.any fun u => u.1 == m.id && !u.2

/-- The `WHERE` of `get_active_by_hash` but for the hash. -/
def active (now : Int) (t : ApiTokenRow) : Bool :=
  t.revokedAt.isNone &&
  t.expiresAt.all (fun e => now < e) &&
  t.delegationGrantId.all (fun g => db.delegationGrants.rows.any fun r => r.id == g &&
    r.revokedAt.isNone && datetime now < datetime r.expiresAt &&
    db.memberActive r.workspaceId r.delegateId) &&
  t.oauthGrantId.all (fun g => db.oauthGrants.rows.any fun r => r.id == g && r.revokedAt.isNone) &&
  db.memberActive t.workspaceId t.memberId &&
  t.appInstallationId.all (fun i => db.installations.rows.any fun r => r.id == i &&
    r.revokedAt.isNone)

/-- `get_active_by_hash`. -/
def getActiveByHash (hash : String) (now : Int) : Except StoreError ApiTokenRow :=
  match db.tokens.rows.find? fun t => t.tokenHash == hash && db.active now t with
  | some t => .ok t
  | none => .error .notFound

/-- `get_by_id`. -/
def getById (token : ApiTokenId) : Except StoreError ApiTokenRow :=
  match db.tokens.get? token with
  | some t => .ok t
  | none => .error .notFound

/-- A row that nothing has revoked. -/
def live (token : ApiTokenId) : Bool :=
  (db.tokens.get? token).any fun t => t.revokedAt.isNone

/-! ## 2. The five inserts -/

end TokenDb

/-- `NewApiToken`. -/
structure NewApiToken where
  workspaceId : WorkspaceId
  memberId : MemberId
  appInstallationId : Option AppInstallationId := none
  tokenHash : String
  capabilities : List String
  expiresAt : Option Int := none

/-- The columns every `INSERT` fills from its `NewApiToken`. -/
def NewApiToken.row (new : NewApiToken) (token : ApiTokenId) : ApiTokenRow where
  id := token
  workspaceId := new.workspaceId
  memberId := new.memberId
  appInstallationId := new.appInstallationId
  tokenHash := new.tokenHash
  capabilities := new.capabilities
  expiresAt := new.expiresAt

/-- `DELEGATED_TOKEN_MAX_TTL_SECS`. -/
def delegatedTokenMaxTtlSecs : Int := 60 * 60

/-- `validate_exchange`. -/
def validateExchange (new : NewApiToken) (grantCapabilities : List String) (now : Int) :
    Except StoreError Int :=
  match new.expiresAt with
  | none => .error (.invalidInput "delegated tokens require an expiry")
  | some expiresAt =>
    if expiresAt ≤ now ∨ now + seconds delegatedTokenMaxTtlSecs < expiresAt then
      .error (.invalidInput
        "delegated token expiry must be in the future and no more than one hour away")
    else if new.capabilities.isEmpty then
      .error (.invalidInput "delegated token must include at least one capability")
    else
      match new.capabilities.find? fun capability => !grantCapabilities.contains capability with
      | some capability =>
        .error (.invalidInput s!"capability {capability} exceeds delegation grant")
      | none => .ok expiresAt

variable {db db' : TokenDb} {token successor : ApiTokenId} {hash : String} {new : NewApiToken}
  {delegate : MemberId}

namespace TokenDb

/-- The foreign keys of a token's row. -/
def references (db : TokenDb) (t : ApiTokenRow) : Bool :=
  (db.members.get? t.memberId).isSome &&
  t.appInstallationId.all (fun i => (db.installations.get? i).isSome) &&
  t.parentTokenId.all (fun p => (db.tokens.get? p).isSome) &&
  t.delegationGrantId.all (fun g => (db.delegationGrants.get? g).isSome) &&
  t.oauthGrantId.all fun g => (db.oauthGrants.get? g).isSome

/-- One `INSERT INTO maidan_api_tokens`, with `map_token_err`. -/
def insertToken (db : TokenDb) (t : ApiTokenRow) : Except StoreError TokenDb :=
  if db.tokens.rows.any fun r => r.tokenHash == t.tokenHash then
    .error (.conflict "token hash already exists")
  else
    match db.tokens.insert? t with
    | none => .error (.conflict "token hash already exists")
    | some tokens =>
      if db.references t then .ok { db with tokens }
      else .error (.database "FOREIGN KEY constraint failed")

/-- `create_on`. -/
def createOn (db : TokenDb) (token : ApiTokenId) (new : NewApiToken) : Except StoreError TokenDb :=
  db.insertToken (new.row token)

/-- `create_attenuated_on`: the parent's delegation grant is carried over. -/
def createAttenuatedOn (db : TokenDb) (token : ApiTokenId) (new : NewApiToken)
    (parent : ApiTokenId) : Except StoreError TokenDb :=
  db.insertToken { new.row token with
    parentTokenId := some parent
    delegationGrantId := (db.tokens.get? parent).bind ApiTokenRow.delegationGrantId }

/-- The `EXISTS` on the parent in `create_delegated_on`. -/
def parentStands (db : TokenDb) (workspace : WorkspaceId) (delegate : MemberId) (expiresAt : Int)
    (parent : ApiTokenId) : Bool :=
  db.tokens.rows.any fun p => p.id == parent && p.workspaceId == workspace &&
    p.memberId == delegate && p.revokedAt.isNone &&
    p.expiresAt.all fun e => datetime expiresAt ≤ datetime e

/-- `create_delegated_on`. -/
def createDelegatedOn (db : TokenDb) (token : ApiTokenId) (new : NewApiToken)
    (grant : DelegationGrantId) (delegate : MemberId) (parent : Option ApiTokenId) (now : Int) :
    Except StoreError TokenDb :=
  match db.delegationGrants.rows.find? fun g => g.id == grant &&
      g.workspaceId == new.workspaceId && g.subjectId == new.memberId &&
      g.delegateId == delegate with
  | none => .error .notFound
  | some g => do
    let expiresAt ← validateExchange new g.capabilities now
    if g.revokedAt.isNone && datetime expiresAt ≤ datetime g.expiresAt &&
        parent.all (db.parentStands new.workspaceId delegate expiresAt) then
      db.insertToken { new.row token with
        appInstallationId := none
        expiresAt := some expiresAt
        parentTokenId := parent
        delegationGrantId := some g.id }
    else .error .notFound

/-- `sanitized_capabilities`: an OAuth token never accepts an approval gate. -/
def sanitizedCapabilities (capabilities : List String) : List String :=
  capabilities.filter fun c => c != "approval:grant"

/-- `mint_token_on`, of the OAuth authorization server. -/
def mintTokenOn (db : TokenDb) (token : ApiTokenId) (new : NewApiToken) (grant : OAuthGrantId) :
    Except StoreError TokenDb :=
  db.insertToken { new.row token with
    capabilities := sanitizedCapabilities new.capabilities
    oauthGrantId := some grant }

/-- The row `rotate_audited` inserts: member, capabilities, expiry, installation and parent of the
old one. -/
def successorRow (old : ApiTokenRow) (successor : ApiTokenId) (hash : String) : ApiTokenRow where
  id := successor
  workspaceId := old.workspaceId
  memberId := old.memberId
  appInstallationId := old.appInstallationId
  tokenHash := hash
  capabilities := old.capabilities
  expiresAt := old.expiresAt
  parentTokenId := old.parentTokenId

/-- `UPDATE maidan_api_tokens SET parent_token_id = successor WHERE parent_token_id = token`. -/
def reparent (tokens : Table ApiTokenRow.id) (token successor : ApiTokenId) :
    Table ApiTokenRow.id :=
  tokens.updateWhere (fun t => t.parentTokenId == some token)
    fun t => { t with parentTokenId := some successor }

/-- `rotate_audited`. -/
def rotateAudited (db : TokenDb) (token successor : ApiTokenId) (hash : String) (now : Int) :
    Except StoreError TokenDb :=
  match (db.tokens.get? token).filter fun t => t.revokedAt.isNone with
  | none => .error .notFound
  | some old =>
    if old.delegationGrantId.isSome then
      .error (.conflict "a delegated token is not rotated; exchange its grant for a new one")
    else do
      let db' ← db.insertToken (successorRow old successor hash)
      return { db' with
        tokens := (reparent db'.tokens token successor).update token
          fun t => { t with revokedAt := some now } }

/-! ## 3. The ends -/

/-- `UPDATE maidan_api_tokens SET revoked_at = now WHERE p AND revoked_at IS NULL`. -/
def revokeTokens (db : TokenDb) (p : ApiTokenRow → Bool) (now : Int) : TokenDb :=
  { db with
    tokens := db.tokens.updateWhere (fun t => p t && t.revokedAt.isNone)
      fun t => { t with revokedAt := some now } }

/-- `parent_token_id`, read from the parent: who was derived from whom. -/
def childEdges (db : TokenDb) : List (ApiTokenId × ApiTokenId) :=
  db.tokens.rows.filterMap fun t => t.parentTokenId.map fun p => (p, t.id)

/-- The recursive `subtree` of a token, without the token. -/
def subtree (db : TokenDb) (token : ApiTokenId) : List ApiTokenId := reach db.childEdges token

/-- `revoke_on`: the token, and every token derived from it. -/
def revokeOn (db : TokenDb) (token : ApiTokenId) (now : Int) : Except StoreError TokenDb :=
  if db.live token then
    .ok (db.revokeTokens (fun t => t.id == token || (db.subtree token).contains t.id) now)
  else .error .notFound

/-- `revoke_installation_on`. -/
def revokeInstallationOn (db : TokenDb) (installation : AppInstallationId) (now : Int) :
    Except StoreError TokenDb :=
  if (db.installations.get? installation).any fun i => i.revokedAt.isNone then
    .ok { db.revokeTokens (fun t => t.appInstallationId == some installation) now with
      installations := db.installations.update installation
        fun i => { i with revokedAt := some now } }
  else .error .notFound

/-- `oauth_grant_id IN (SELECT id FROM oauth_grants WHERE p)`. -/
def underGrant (db : TokenDb) (p : OAuthGrantRow → Bool) (t : ApiTokenRow) : Bool :=
  t.oauthGrantId.any fun g => db.oauthGrants.rows.any fun r => p r && r.id == g

/-- `revoke_lineage_on`. -/
def revokeLineageOn (db : TokenDb) (lineage : LineageId) (now : Int) : TokenDb :=
  { db.revokeTokens (db.underGrant fun g => g.lineageId == lineage) now with
    oauthGrants := db.oauthGrants.updateWhere
      (fun g => g.lineageId == lineage && g.revokedAt.isNone)
      fun g => { g with revokedAt := some now }
    refreshTokens := db.refreshTokens.updateWhere
      (fun r => r.lineageId == lineage && r.revokedAt.isNone)
      fun r => { r with revokedAt := some now } }

/-- `revoke_access_token_audited`: the token of a hash, for the client it was minted for. -/
def revokeAccessToken (db : TokenDb) (hash client : String) (now : Int) : TokenDb :=
  db.revokeTokens (fun t => t.tokenHash == hash && db.underGrant (fun g => g.clientId == client) t)
    now

/-- The recursive `subtree` of a delegation grant: its tokens, and what was derived from them. -/
def grantSubtree (db : TokenDb) (grant : DelegationGrantId) (t : ApiTokenRow) : Bool :=
  t.delegationGrantId == some grant ||
    db.tokens.rows.any fun root => root.delegationGrantId == some grant &&
      (db.subtree root.id).contains t.id

/-- `UPDATE maidan_delegation_grants SET revoked_at = ? WHERE p`. -/
abbrev revokedGrants (db : TokenDb) (p : DelegationGrantRow → Bool) (now : Int) :
    Table DelegationGrantRow.id :=
  db.delegationGrants.updateWhere p fun g => { g with revokedAt := some now }

/-- A delegation grant's `revoke_on`.  It answers whether the grant was there to be revoked. -/
def revokeDelegationGrantOn (db : TokenDb) (workspace : WorkspaceId) (grant : DelegationGrantId)
    (now : Int) : TokenDb :=
  if db.delegationGrants.rows.any fun g => g.id == grant && g.workspaceId == workspace &&
      g.revokedAt.isNone then
    { db.revokeTokens (db.grantSubtree grant) now with
      delegationGrants := db.revokedGrants
        (fun g => g.id == grant && g.workspaceId == workspace && g.revokedAt.isNone) now }
  else db

/-- `OAuthRefreshRotation`: what a refresh presents, and what it is to be given. -/
structure RefreshRotation where
  presentedHash : String
  accessTokenId : ApiTokenId
  accessTokenHash : String
  accessCapabilities : List String
  accessExpiresAt : Int
  refreshHash : String
  refreshExpiresAt : Int

/-- `OAuthRefreshOutcome`. -/
inductive RefreshOutcome
  | rotated
  | reused
  | invalid

/-- `insert_refresh_on`. -/
def insertRefreshOn (db : TokenDb) (refresh : OAuthRefreshRow) : Except StoreError TokenDb :=
  match db.refreshTokens.insert? refresh with
  | none => .error (.database "UNIQUE constraint failed: oauth_refresh_tokens.token_hash")
  | some refreshTokens => .ok { db with refreshTokens }

/-- `mint_token_pair_audited`: an access token, with the refresh token that renews it. -/
def mintTokenPair (db : TokenDb) (token : ApiTokenId) (access : NewApiToken) (grant : OAuthGrantId)
    (refresh : OAuthRefreshRow) : Except StoreError TokenDb :=
  if refresh.grantId ≠ grant then
    .error (.invalidInput "a refresh token must be issued under the access token's grant")
  else do
    let db' ← db.mintTokenOn token access grant
    db'.insertRefreshOn refresh

/-- The refresh token the first `UPDATE` of `rotate_refresh_token` claims. -/
def claimable (db : TokenDb) (hash : String) (now : Int) (r : OAuthRefreshRow) : Bool :=
  r.tokenHash == hash && r.usedAt.isNone && r.revokedAt.isNone && now < r.expiresAt &&
    db.oauthGrants.rows.any fun g => g.id == r.grantId && g.revokedAt.isNone

/-- `rotate_refresh_token`: a refresh token is good once; its second use ends the lineage. -/
def rotateRefreshToken (db : TokenDb) (rotation : RefreshRotation) (now : Int) :
    Except StoreError (RefreshOutcome × TokenDb) :=
  match db.refreshTokens.rows.find? (db.claimable rotation.presentedHash now) with
  | none =>
    match db.refreshTokens.get? rotation.presentedHash with
    | none => .ok (.invalid, db)
    | some presented =>
      if presented.usedAt.isNone then .ok (.invalid, db)
      else .ok (.reused, db.revokeLineageOn presented.lineageId now)
  | some claimed =>
    match db.oauthGrants.get? claimed.grantId with
    | none =>
      .error (.database "no rows returned by a query that expected to return at least one row")
    | some grant =>
      if rotation.accessCapabilities.any fun c => !grant.scope.contains c then
        .error (.invalidInput "a refreshed token cannot carry a scope its grant does not")
      else do
        let used := db.refreshTokens.update rotation.presentedHash
          fun r => { r with usedAt := some now }
        let db' ← mintTokenOn { db with refreshTokens := used } rotation.accessTokenId
          { workspaceId := grant.workspaceId, memberId := grant.memberId,
            tokenHash := rotation.accessTokenHash, capabilities := rotation.accessCapabilities,
            expiresAt := some rotation.accessExpiresAt } grant.id
        let db' ← db'.insertRefreshOn
          { tokenHash := rotation.refreshHash, grantId := grant.id,
            lineageId := claimed.lineageId, expiresAt := rotation.refreshExpiresAt }
        return (.rotated, db')

/-! ## 4. What is left in the table -/

theorem live_iff :
    db.live token = true ↔ ∃ t, db.tokens.get? token = some t ∧ t.revokedAt = none := by
  unfold live
  cases db.tokens.get? token with
  | none | some => simp

variable {now : Int} {t : ApiTokenRow}

theorem getActiveByHash_eq_ok (h : db.getActiveByHash hash now = .ok t) :
    t ∈ db.tokens.rows ∧ t.tokenHash = hash ∧ db.active now t = true := by
  unfold getActiveByHash at h
  split at h
  · rename_i t' hfind
    cases h
    have hp := find?_some hfind
    rw [Bool.and_eq_true, beq_iff_eq] at hp
    exact ⟨mem_of_find?_eq_some hfind, hp⟩
  · cases h

theorem revokedAt_of_active (h : db.active now t = true) : t.revokedAt = none := by
  simp only [active, Bool.and_eq_true, isNone_iff_eq_none] at h
  exact h.1.1.1.1.1

/-- **An insert** adds its row under a key that was free, and touches no other table. -/
theorem insertToken_eq_ok (h : db.insertToken t = .ok db') :
    ∃ tokens, db.tokens.insert? t = some tokens ∧ db.references t = true ∧
      db' = { db with tokens } := by
  unfold insertToken at h
  split at h
  · cases h
  split at h
  · cases h
  rename_i tokens hins
  split at h
  · rename_i href
    cases h
    exact ⟨tokens, hins, href, rfl⟩
  · cases h

theorem get?_of_insertToken (h : db.insertToken t = .ok db') : db.tokens.get? t.id = none ∧
      ∀ k, db'.tokens.get? k = if t.id = k then some t else db.tokens.get? k := by
  obtain ⟨tokens, hins, -, rfl⟩ := insertToken_eq_ok h
  exact get?_of_insert? hins

theorem validateExchange_eq_ok (h : validateExchange new grantCapabilities now = .ok expiresAt) :
    ∀ cap ∈ new.capabilities, cap ∈ grantCapabilities := by
  unfold validateExchange at h
  split at h
  · cases h
  split at h
  · cases h
  split at h
  · cases h
  split at h
  · cases h
  rename_i hfind
  intro cap hcap
  have hnot := find?_eq_none.mp hfind cap hcap
  simpa using hnot

/-- **An exchange** is checked against the grant and, where there is one, against the parent. -/
theorem createDelegatedOn_eq_ok
    (h : db.createDelegatedOn token new grant delegate parent now = .ok db') : ∃ expiresAt,
      (∀ g, db.delegationGrants.get? grant = some g →
        ∀ cap ∈ new.capabilities, cap ∈ g.capabilities) ∧
      parent.all (db.parentStands new.workspaceId delegate expiresAt) = true ∧
      db.insertToken { new.row token with
        appInstallationId := none, expiresAt := some expiresAt, parentTokenId := parent,
        delegationGrantId := some grant } = .ok db' := by
  unfold createDelegatedOn at h
  split at h
  · cases h
  rename_i g hfind
  obtain ⟨expiresAt, hvalid, h⟩ := bind_ok h
  split at h
  · rename_i hstands
    have hg := find?_some hfind
    simp only [Bool.and_eq_true, beq_iff_eq] at hg hstands
    obtain rfl := hg.1.1.1
    refine ⟨expiresAt, fun g' hg' => ?_, hstands.2, h⟩
    rw [get?_of_mem (mem_of_find?_eq_some hfind)] at hg'
    cases hg'
    exact validateExchange_eq_ok hvalid
  · cases h

theorem live_of_parentStands (h : db.parentStands workspace delegate expiresAt parent = true) :
    db.live parent = true := by
  obtain ⟨p, hp, hrow⟩ := any_eq_true.mp h
  simp only [Bool.and_eq_true, beq_iff_eq, isNone_iff_eq_none] at hrow
  exact live_iff.mpr ⟨p, get?_eq_some_iff.mpr ⟨hp, hrow.1.1.1.1⟩, hrow.1.2⟩

/-- **A rotation** is of a live token that is not delegated.  The successor's row goes in, the
children move to it, the old row is revoked. -/
theorem rotateAudited_eq_ok (h : db.rotateAudited token successor hash now = .ok db') :
    ∃ old mid, db.tokens.get? token = some old ∧ old.revokedAt = none ∧
      old.delegationGrantId = none ∧ db.insertToken (successorRow old successor hash) = .ok mid ∧
      db' = { mid with
        tokens := (reparent mid.tokens token successor).update token
          fun t => { t with revokedAt := some now } } := by
  unfold rotateAudited at h
  split at h
  · cases h
  rename_i old hold
  obtain ⟨hget, hnone⟩ := Option.filter_eq_some_iff.mp hold
  split at h
  · cases h
  rename_i hgrant
  obtain ⟨mid, hmid, h⟩ := bind_ok h
  cases h
  exact ⟨old, mid, hget, by simpa using hnone, by simpa using hgrant, hmid, rfl⟩

/-- What a rotation makes of a row: the old token is revoked, and a link to it leads to the
successor. -/
def afterRotation (token successor : ApiTokenId) (now : Int) (t : ApiTokenRow) : ApiTokenRow :=
  { t with
    parentTokenId := if t.parentTokenId = some token then some successor else t.parentTokenId
    revokedAt := if t.id = token then some now else t.revokedAt }

theorem get?_of_rotateAudited (h : db.rotateAudited token successor hash now = .ok db') :
    ∃ old, db.tokens.get? token = some old ∧ old.revokedAt = none ∧
      db.tokens.get? successor = none ∧
      ∀ k, db'.tokens.get? k =
        (if successor = k then some (successorRow old successor hash)
          else db.tokens.get? k).map (afterRotation token successor now) := by
  obtain ⟨old, mid, hget, hlive, -, hmid, rfl⟩ := rotateAudited_eq_ok h
  obtain ⟨hfree, hread⟩ := get?_of_insertToken hmid
  refine ⟨old, hget, hlive, hfree, fun k => ?_⟩
  have hk := hread k
  change mid.tokens.get? k = if successor = k then _ else _ at hk
  rw [get?_update, reparent, get?_updateWhere, ← hk]
  cases hrow : mid.tokens.get? k with
  | none => simp
  | some t =>
    obtain rfl : t.id = k := key_of_get? hrow
    by_cases hkt : t.id = token <;> by_cases hp : t.parentTokenId = some token <;>
      simp [afterRotation, hkt, hp]

/-- What an `UPDATE … SET revoked_at` makes of a row. -/
def afterRevoke (p : ApiTokenRow → Bool) (now : Int) (t : ApiTokenRow) : ApiTokenRow :=
  if p t && t.revokedAt.isNone then { t with revokedAt := some now } else t

theorem get?_revokeTokens (db : TokenDb) (p : ApiTokenRow → Bool) (now : Int) (k : ApiTokenId) :
    (db.revokeTokens p now).tokens.get? k = (db.tokens.get? k).map (afterRevoke p now) := by
  rw [revokeTokens, get?_updateWhere]
  rfl

section AfterRevoke

variable (p : ApiTokenRow → Bool) (now : Int) (t : ApiTokenRow)

/-- Only `revoked_at` is written. -/
theorem afterRevoke_eq : afterRevoke p now t = { t with
    revokedAt := if p t && t.revokedAt.isNone then some now else t.revokedAt } := by
  unfold afterRevoke
  split <;> rfl

theorem revokedAt_afterRevoke :
    (afterRevoke p now t).revokedAt = none ↔ p t = false ∧ t.revokedAt = none := by
  rw [afterRevoke_eq]
  cases p t <;> cases t.revokedAt <;> simp

end AfterRevoke

theorem insertRefreshOn_eq_ok (h : db.insertRefreshOn refresh = .ok db') :
    db'.tokens = db.tokens := by
  unfold insertRefreshOn at h
  split at h
  · cases h
  cases h
  rfl

/-- **A refresh** mints under the grant of the refresh token, or ends the lineage, or changes
nothing. -/
theorem rotateRefreshToken_eq_ok {rotation : RefreshRotation}
    (h : db.rotateRefreshToken rotation now = .ok (outcome, db')) :
    db' = db ∨ (∃ lineage, db' = db.revokeLineageOn lineage now) ∨
      ∃ (db1 db2 : TokenDb) (new : NewApiToken) (grant : OAuthGrantId), db1.tokens = db.tokens ∧
        db1.mintTokenOn rotation.accessTokenId new grant = .ok db2 ∧ db'.tokens = db2.tokens := by
  unfold rotateRefreshToken at h
  split at h
  · split at h
    · cases h
      exact .inl rfl
    · split at h
      · cases h
        exact .inl rfl
      · cases h
        exact .inr (.inl ⟨_, rfl⟩)
  · split at h
    · cases h
    split at h
    · cases h
    obtain ⟨db2, hmint, h⟩ := bind_ok h
    obtain ⟨db3, hrefresh, h⟩ := bind_ok h
    cases h
    refine .inr (.inr ⟨_, db2, _, _, ?_, hmint, insertRefreshOn_eq_ok hrefresh⟩)
    rfl

/-! ## 5. What no statement takes back

Rows are not deleted, a revocation is not undone, and apart from `parent_token_id` no other column
is written after the insert. -/

/-- One row, later. -/
def Continues (t t' : ApiTokenRow) : Prop :=
  t' = { t with parentTokenId := t'.parentTokenId, revokedAt := t'.revokedAt } ∧
    (t'.revokedAt = none → t.revokedAt = none)

/-- Every row is still there. -/
def Later (db db' : TokenDb) : Prop :=
  ∀ k t, db.tokens.get? k = some t → ∃ t', db'.tokens.get? k = some t' ∧ Continues t t'

theorem Continues.trans (h : Continues t1 t2) (h' : Continues t2 t3) : Continues t1 t3 := by
  refine ⟨?_, fun hn => h.2 (h'.2 hn)⟩
  rw [h'.1, h.1]

theorem Later.of_tokens (h : db'.tokens = db.tokens) : Later db db' :=
  fun k t ht => ⟨t, by rw [h]; exact ht, rfl, id⟩

theorem Later.trans (h : Later db1 db2) (h' : Later db2 db3) : Later db1 db3 := by
  intro k t ht
  obtain ⟨t', ht', hc⟩ := h k t ht
  obtain ⟨t'', ht'', hc'⟩ := h' k t' ht'
  exact ⟨t'', ht'', hc.trans hc'⟩

theorem ne_of_free (hfree : db.tokens.get? k = none) (ht : db.tokens.get? k' = some t) :
    k ≠ k' := by
  rintro rfl
  rw [hfree] at ht
  cases ht

theorem later_insertToken (h : db.insertToken row = .ok db') : Later db db' := by
  obtain ⟨hfree, hread⟩ := get?_of_insertToken h
  intro k t ht
  exact ⟨t, by rw [hread k, if_neg (ne_of_free hfree ht), ht], rfl, id⟩

theorem later_revokeTokens (db : TokenDb) (p : ApiTokenRow → Bool) (now : Int) :
    Later db (db.revokeTokens p now) := by
  intro k t ht
  refine ⟨afterRevoke p now t, by rw [get?_revokeTokens, ht]; rfl, ?_, ?_⟩
  · rw [afterRevoke_eq]
  · intro hnone
    exact ((revokedAt_afterRevoke p now t).mp hnone).2

theorem continues_afterRotation (token successor : ApiTokenId) (now : Int) (t : ApiTokenRow) :
    Continues t (afterRotation token successor now t) := by
  refine ⟨rfl, fun hnone => ?_⟩
  by_cases hid : t.id = token
  · simp [afterRotation, hid] at hnone
  · simpa [afterRotation, hid] using hnone

theorem later_rotateAudited (h : db.rotateAudited token successor hash now = .ok db') :
    Later db db' := by
  obtain ⟨old, -, -, hfree, hread⟩ := get?_of_rotateAudited h
  intro k t ht
  exact ⟨afterRotation token successor now t,
    by rw [hread k, if_neg (ne_of_free hfree ht), ht]; rfl, continues_afterRotation ..⟩

theorem later_rotateRefreshToken {rotation : RefreshRotation}
    (h : db.rotateRefreshToken rotation now = .ok (outcome, db')) : Later db db' := by
  rcases rotateRefreshToken_eq_ok h with
    rfl | ⟨lineage, rfl⟩ | ⟨db1, db2, new, grant, hsame, hmint, hafter⟩
  · exact .of_tokens rfl
  · exact later_revokeTokens db _ now
  · exact (Later.of_tokens hsame).trans ((later_insertToken hmint).trans (.of_tokens hafter))

/-! ## 6. Descent -/

theorem mem_childEdges :
    (p, c) ∈ db.childEdges ↔ ∃ t, db.tokens.get? c = some t ∧ t.parentTokenId = some p := by
  unfold childEdges
  rw [mem_filterMap]
  constructor
  · rintro ⟨t, ht, hpair⟩
    obtain ⟨q, hq, heq⟩ := map_eq_some_iff.mp hpair
    cases heq
    exact ⟨t, get?_of_mem ht, hq⟩
  · rintro ⟨t, hget, hp⟩
    obtain ⟨hmem, rfl⟩ := get?_eq_some_iff.mp hget
    exact ⟨t, hmem, by rw [hp]; rfl⟩

/-- **Derived from**, by the links in the table. -/
def Descends (db : TokenDb) (a b : ApiTokenId) : Prop := TransGen (Edge db.childEdges) a b

theorem mem_subtree : b ∈ db.subtree a ↔ db.Descends a b :=
  mem_reach db.childEdges a

end TokenDb

end Maidan
