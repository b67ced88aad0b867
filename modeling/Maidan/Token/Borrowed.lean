/-
# A borrowed token and its actor

Who really acts through a token exchanged under a delegation grant is in no column of the token: its
member is the subject, and the delegate is read from the grant, which the token names.  An
attenuation copies the name with a subquery, each request reads it again.

`borrowed_keeps_actor` follows it through every run: whatever was obtained from an exchange, by
attenuations at any remove, resolves to the delegate acting for the subject, within the grant and
within what may be lent at all, and only while the grant stands.

* §1 is how grants come and go;
* §2 is the run: the steps of `Token.Family`, with the grants, and a record of what was lent;
* §3 is what no step takes back, §4 the step, §5 the run.
-/
import Maidan.Token.Family

namespace Maidan

open Relational Table Run Text List

/-! ## 1. Grants -/

/-- `NewDelegationGrant`. -/
structure NewDelegationGrant where
  workspaceId : WorkspaceId
  subjectId : MemberId
  delegateId : MemberId
  capabilities : List String
  purpose : String
  authorizedBy : MemberId
  expiresAt : Int

/-- `validate_new`: the capabilities to store, each once and in order. -/
def validateNewGrant (new : NewDelegationGrant) (now : Int) : Except StoreError (List String) :=
  let purpose := trim new.purpose.toList
  let capabilities := new.capabilities.map trimStr
  if new.subjectId = new.delegateId then
    .error (.invalidInput "delegation subject and delegate must differ")
  else if new.expiresAt ≤ now then
    .error (.invalidInput "delegation grant expiry must be in the future")
  else if purpose.isEmpty ∨ 1000 < utf8Len purpose then
    .error (.invalidInput "delegation purpose must contain 1 to 1000 bytes after trimming")
  else if capabilities.any fun c => c.isEmpty || 255 < utf8Len c.toList then
    .error (.invalidInput "delegated capabilities must contain 1 to 255 bytes after trimming")
  else if capabilities.isEmpty then
    .error (.invalidInput "delegation grant must include at least one capability")
  else .ok (capabilities.dedup.insertionSort (· ≤ ·))

/-- `check_grant_ceiling`. -/
def checkGrantCeiling (expiresAt now maxGrantDays : Int) : Except StoreError Unit :=
  if now + seconds (maxGrantDays * 86400) < expiresAt then
    .error (.invalidInput ("delegation grant would outlive this workspace's ceiling of " ++
      toString maxGrantDays ++ " days; issue a shorter grant, or renew it with a new one"))
  else .ok ()

namespace TokenDb

/-- A delegation grant's `create_on`, under the ceiling of its workspace.  The route asks for less
than the store takes: `token:admin`, and capabilities that may be lent. -/
def createDelegationGrantOn (db : TokenDb) (grant : DelegationGrantId) (new : NewDelegationGrant)
    (maxGrantDays now : Int) : Except StoreError TokenDb := do
  let capabilities ← validateNewGrant new now
  checkGrantCeiling new.expiresAt now maxGrantDays
  if [new.subjectId, new.delegateId, new.authorizedBy].all fun member =>
      db.members.rows.any fun m => m.id == member && m.workspaceId == new.workspaceId &&
        m.tombstonedAt.isNone then
    match db.delegationGrants.insert?
        { id := grant, workspaceId := new.workspaceId, subjectId := new.subjectId,
          delegateId := new.delegateId, capabilities, expiresAt := new.expiresAt } with
    | none => .error (.database "UNIQUE constraint failed: maidan_delegation_grants.id")
    | some delegationGrants => .ok { db with delegationGrants }
  else .error (.invalidInput
    "delegation subject, delegate, and authorizer must be live in the same workspace")

/-- `end_member_authority`: the member's tokens, and the grants it holds as delegate. -/
def endMemberAuthority (db : TokenDb) (workspace : WorkspaceId) (member : MemberId) (now : Int) :
    TokenDb :=
  { db.revokeTokens (fun t => t.workspaceId == workspace && t.memberId == member) now with
    delegationGrants := db.revokedGrants
      (fun g => g.workspaceId == workspace && g.delegateId == member && g.revokedAt.isNone) now }

/-- `deprovision`: a member with a SCIM link is tombstoned besides, and the link is gone. -/
def deprovision (db : TokenDb) (workspace : WorkspaceId) (member : MemberId) (now : Int) :
    TokenDb :=
  let ended := db.endMemberAuthority workspace member now
  if db.scimUsers.any fun u => u.1 == member then
    { ended with
      scimUsers := db.scimUsers.filter fun u => u.1 != member
      members := db.members.updateWhere
        (fun m => m.id == member && m.workspaceId == workspace && m.tombstonedAt.isNone)
        fun m => { m with tombstonedAt := some now } }
  else ended

end TokenDb

/-! ## 2. The run -/

/-- The desk, and which token was lent under which grant: by the exchange, or by attenuation of a
token that was. -/
structure LoanDesk where
  desk : TokenDesk
  lent : List (ApiTokenId × DelegationGrantId) := []

inductive LoanOp
  | call (op : FamilyOp)
  | createGrant (grant : DelegationGrantId) (new : NewDelegationGrant) (maxGrantDays now : Int)
  | revokeGrant (workspace : WorkspaceId) (grant : DelegationGrantId) (now : Int)
  | deprovision (workspace : WorkspaceId) (member : MemberId) (now : Int)

namespace LoanDesk

/-- What a step lends. -/
def lending (s : LoanDesk) : FamilyOp → List (ApiTokenId × DelegationGrantId)
  | .delegate number minted args now =>
    match s.desk.request number with
    | some r =>
      if (s.desk.db.delegateToken r.auth minted args now).isOk then [(minted.token, args.grantId)]
      else []
    | none => []
  | .attenuate number minted args now =>
    match s.desk.request number with
    | some r =>
      if (r.surface.attenuate s.desk.db r.auth minted args now).isOk then
        (s.lent.filter fun l => r.auth.tokenId == some l.1).map fun l => (minted.token, l.2)
      else []
    | none => []
  | _ => []

def store (s : LoanDesk) (db : TokenDb) : LoanDesk := { s with desk := { s.desk with db } }

end LoanDesk

def loanNext (s : LoanDesk) : LoanOp → LoanDesk
  | .call op => ⟨familyNext s.desk op, s.lending op ++ s.lent⟩
  | .createGrant grant new maxGrantDays now =>
    s.store (settle s.desk.db (s.desk.db.createDelegationGrantOn grant new maxGrantDays now))
  | .revokeGrant workspace grant now =>
    s.store (s.desk.db.revokeDelegationGrantOn workspace grant now)
  | .deprovision workspace member now => s.store (s.desk.db.deprovision workspace member now)

/-- **A borrowed context**: the delegate acts for the subject, within the grant, one hop, and the
grant stands. -/
structure Borrows (db : TokenDb) (now : Int) (auth : AuthContext) (grant : DelegationGrantRow) :
    Prop where
  actor : auth.actorId = grant.delegateId
  subject : auth.memberId = grant.subjectId
  within : ∀ cap, auth.hasCapability cap = true → cap ∈ grant.capabilities ∧ cap ∈ delegatable
  oneHop : ∀ (db' : TokenDb) (minted : Minted) (args : DelegateArgs) (at' : Int),
    ∃ e, db'.delegateToken auth minted args at' = .error e
  standing : grant.revokedAt = none
  unexpired : now < grant.expiresAt
  delegate : db.memberActive grant.workspaceId grant.delegateId = true

/-! ## 3. What no step takes back -/

variable {db db' : TokenDb} {token : ApiTokenId} {g : DelegationGrantId} {auth : AuthContext}
  {now : Int} {row : ApiTokenRow} {s s' : LoanDesk}

namespace TokenDb

/-- Tokens stay, and a grant is never written but to revoke it. -/
structure Keeps (db db' : TokenDb) : Prop where
  tokens : db.Later db'
  grants : ∀ k r, db.delegationGrants.get? k = some r →
    ∃ r', db'.delegationGrants.get? k = some r' ∧ r' = { r with revokedAt := r'.revokedAt }

theorem Keeps.of_later (h : db.Later db') (hg : db'.delegationGrants = db.delegationGrants) :
    Keeps db db' :=
  ⟨h, fun _ r hr => ⟨r, by rw [hg]; exact hr, rfl⟩⟩

theorem Keeps.of_revoke (h : db.Later db')
    (hg : db'.delegationGrants = db.delegationGrants.updateWhere p
      fun r => { r with revokedAt := some now }) : Keeps db db' := by
  refine ⟨h, fun k r hr => ?_⟩
  rw [hg, get?_updateWhere, hr]
  refine ⟨_, rfl, ?_⟩
  dsimp only
  split <;> rfl

theorem keeps_insertToken (h : db.insertToken row = .ok db') : Keeps db db' := by
  refine .of_later (later_insertToken h) ?_
  obtain ⟨tokens, -, -, rfl⟩ := insertToken_eq_ok h
  rfl

theorem keeps_settle_insertToken (db : TokenDb) (row : ApiTokenRow) :
    Keeps db (settle db (db.insertToken row)) := by
  cases h : db.insertToken row with
  | error => exact .of_later (.of_tokens rfl) rfl
  | ok => exact keeps_insertToken h

theorem keeps_createDelegationGrantOn
    (h : db.createDelegationGrantOn g new maxGrantDays now = .ok db') : Keeps db db' := by
  obtain ⟨capabilities, -, h⟩ := bind_ok h
  obtain ⟨_, -, h⟩ := bind_ok h
  split at h
  · split at h
    · cases h
    rename_i grants hins
    cases h
    refine ⟨.of_tokens rfl, fun k r hr => ⟨r, ?_, rfl⟩⟩
    obtain ⟨hfree, hread⟩ := get?_of_insert? hins
    rw [hread k, if_neg ?_, hr]
    rintro rfl
    rw [hfree] at hr
    cases hr
  · cases h

theorem keeps_revokeDelegationGrantOn (db : TokenDb) (workspace : WorkspaceId)
    (g : DelegationGrantId) (now : Int) : Keeps db (db.revokeDelegationGrantOn workspace g now) := by
  unfold revokeDelegationGrantOn
  split
  · exact .of_revoke (later_revokeTokens db _ now) rfl
  · exact .of_later (.of_tokens rfl) rfl

theorem keeps_deprovision (db : TokenDb) (workspace : WorkspaceId) (member : MemberId) (now : Int) :
    Keeps db (db.deprovision workspace member now) := by
  unfold deprovision
  split
  · exact .of_revoke (later_revokeTokens db _ now) rfl
  · exact .of_revoke (later_revokeTokens db _ now) rfl

/-- The token is there, and lent under the grant. -/
def OnLoan (db : TokenDb) (token : ApiTokenId) (g : DelegationGrantId) : Prop :=
  ∃ row, db.tokens.get? token = some row ∧ LentUnder db g row

theorem OnLoan.later (h : OnLoan db token g) (hk : Keeps db db') : OnLoan db' token g := by
  obtain ⟨row, hrow, hcolumn, grant, hgrant, hsubject, hwithin⟩ := h
  obtain ⟨row', hrow', hsame, -⟩ := hk.tokens token row hrow
  obtain ⟨grant', hgrant', hsame'⟩ := hk.grants g grant hgrant
  refine ⟨row', hrow', ?_, grant', hgrant', ?_⟩
  · rw [hsame]
    exact hcolumn
  · rw [hsame, hsame']
    exact ⟨hsubject, hwithin⟩

/-- What a context says of its token is in the token's row. -/
def Holds (db : TokenDb) (auth : AuthContext) : Prop :=
  ∀ t, auth.tokenId = some t → ∃ row, db.tokens.get? t = some row ∧
    auth.memberId = row.memberId ∧ ∀ cap ∈ auth.holderGrant, cap ∈ row.capabilities

theorem Holds.later (h : Holds db auth) (hk : Keeps db db') : Holds db' auth := by
  intro t ht
  obtain ⟨row, hrow, hmember, hheld⟩ := h t ht
  obtain ⟨row', hrow', hsame, -⟩ := hk.tokens t row hrow
  refine ⟨row', hrow', ?_⟩
  rw [hsame]
  exact ⟨hmember, hheld⟩

theorem ContextFrom.holds (hmem : row ∈ db.tokens.rows) (h : ContextFrom db row auth) :
    Holds db auth := by
  have hget := get?_of_mem hmem
  cases h with
  | own =>
    rintro t ⟨⟩
    exact ⟨row, hget, rfl, fun cap hcap => hcap⟩
  | borrowed =>
    rintro t ⟨⟩
    exact ⟨row, hget, rfl, fun cap hcap => (mem_filter.mp hcap).1⟩

end TokenDb

/-! ## 4. The step -/

/-- What was lent is on loan, and what is in flight holds what it says. -/
structure Lending (s : LoanDesk) : Prop where
  lent : ∀ l ∈ s.lent, s.desk.db.OnLoan l.1 l.2
  inFlight : ∀ r ∈ s.desk.inFlight, s.desk.db.Holds r.auth

namespace Lending

section

variable (h : Lending s)
include h

theorem step (hk : s.desk.db.Keeps s'.desk.db)
    (hlent : ∀ l ∈ s'.lent, l ∈ s.lent ∨ s'.desk.db.OnLoan l.1 l.2)
    (hflight : ∀ r ∈ s'.desk.inFlight, r ∈ s.desk.inFlight ∨ s'.desk.db.Holds r.auth) :
    Lending s' := by
  refine ⟨fun l hl => ?_, fun r hr => ?_⟩
  · rcases hlent l hl with hold | hnew
    · exact (h.lent l hold).later hk
    · exact hnew
  · rcases hflight r hr with hold | hnew
    · exact (h.inFlight r hold).later hk
    · exact hnew

/-- A step that lends nothing, and takes no request in. -/
theorem quiet (hk : s.desk.db.Keeps s'.desk.db) (hlent : s'.lent = s.lent)
    (hflight : ∀ r ∈ s'.desk.inFlight, r ∈ s.desk.inFlight) : Lending s' :=
  h.step hk (fun _ hl => .inl (hlent ▸ hl)) fun r hr => .inl (hflight r hr)

/-- **The insert of a request**, with what it lends. -/
theorem insert (hins : s.desk.db.insertToken row = .ok db) (number : Nat)
    (hnew : ∀ l ∈ new, l.1 = row.id ∧ s.desk.db.LentUnder l.2 row) :
    Lending ⟨(s.desk.finish number).derive auth minted (.ok db), new ++ s.lent⟩ := by
  refine h.step (TokenDb.keeps_insertToken hins) (fun l hl => ?_)
    fun r hr => .inl (mem_filter.mp hr).1
  rcases mem_append.mp hl with hl | hl
  · obtain ⟨hid, hcolumn, grant, hgrant, hrest⟩ := hnew l hl
    obtain ⟨grant', hgrant', hsame⟩ := (TokenDb.keeps_insertToken hins).grants _ _ hgrant
    refine .inr ⟨row, ?_, hcolumn, grant', hgrant', ?_⟩
    · change db.tokens.get? l.1 = some row
      rw [(TokenDb.get?_of_insertToken hins).2, if_pos hid.symm]
    · rw [hsame]
      exact hrest
  · exact .inl hl

/-- **What is attenuated from a loan is on loan**: under the same grant, to the same subject. -/
theorem attenuated (hr : r ∈ s.desk.inFlight) (hl : l ∈ s.lent) (htoken : r.auth.tokenId = some l.1)
    (hgrant : row.delegationGrantId =
      (r.auth.tokenId.bind s.desk.db.tokens.get?).bind ApiTokenRow.delegationGrantId)
    (hmember : row.memberId = r.auth.memberId)
    (hwithin : ∀ cap ∈ row.capabilities, cap ∈ r.auth.holderGrant) :
    s.desk.db.LentUnder l.2 row := by
  obtain ⟨parent, hparent, hcolumn, grant, hget, hsubject, hcaps⟩ := h.lent l hl
  obtain ⟨parent', hparent', hsame, hheld⟩ := h.inFlight r hr l.1 htoken
  obtain rfl := mem_unique hparent hparent'
  refine ⟨?_, grant, hget, ?_, fun cap hcap => hcaps cap (hheld cap (hwithin cap hcap))⟩
  · rw [hgrant, htoken, bind_some, hparent]
    exact hcolumn
  · rw [hmember, hsame, hsubject]

theorem call (op : FamilyOp) : Lending (loanNext s (.call op)) := by
  have hrefl : s.desk.db.Keeps s.desk.db := .of_later (.of_tokens rfl) rfl
  have hfinish : ∀ number, ∀ r ∈ (s.desk.finish number).inFlight, r ∈ s.desk.inFlight :=
    fun number r hr => (mem_filter.mp hr).1
  simp only [loanNext]
  cases op with
  | mint => exact h.quiet (TokenDb.keeps_settle_insertToken ..) rfl fun r hr => hr
  | mintOAuth =>
    exact h.quiet (TokenDb.keeps_settle_insertToken ..) rfl fun r hr => hr
  | authenticate =>
    simp only [familyNext]
    split
    · rename_i auth hauth
      refine h.step hrefl (fun l hl => .inl hl) fun r hr => ?_
      rcases mem_cons.mp hr with rfl | hr
      · obtain ⟨t, hmem, -, hfrom⟩ := Surface.resolve_from hauth
        exact .inr (hfrom.holds hmem)
      · exact .inl hr
    · exact h
  | attenuate number minted args now =>
    simp only [familyNext, LoanDesk.lending]
    cases hreq : s.desk.request number with
    | none => exact h
    | some r =>
      dsimp only
      cases hrun : r.surface.attenuate s.desk.db r.auth minted args now with
      | error => exact h.quiet hrefl rfl (hfinish number)
      | ok =>
        obtain ⟨row, hins, hrow, -, hgrant, hmember, hwithin⟩ := Surface.attenuate_eq_ok hrun
        refine h.insert hins number fun l hl => ?_
        obtain ⟨l', hl', rfl⟩ := mem_map.mp hl
        obtain ⟨hl', htoken⟩ := mem_filter.mp hl'
        have hloan := h.attenuated (mem_of_find?_eq_some hreq) hl' (by simpa using htoken)
          hgrant hmember hwithin
        exact ⟨hrow.id.symm, hloan⟩
  | delegate number minted args now =>
    simp only [familyNext, LoanDesk.lending]
    cases hreq : s.desk.request number with
    | none => exact h
    | some r =>
      dsimp only
      cases hrun : s.desk.db.delegateToken r.auth minted args now with
      | error => exact h.quiet hrefl rfl (hfinish number)
      | ok =>
        obtain ⟨row, hins, hrow, -, hlent, -⟩ := TokenDb.delegateToken_eq_ok hrun
        refine h.insert hins number fun l hl => ?_
        obtain rfl := mem_singleton.mp hl
        exact ⟨hrow.id.symm, hlent⟩
  | rotate =>
    simp only [familyNext]
    split
    · rename_i db hrun
      refine h.quiet (.of_later (TokenDb.later_rotateAudited hrun) ?_) rfl fun r hr => hr
      obtain ⟨old, mid, -, -, -, hmid, rfl⟩ := TokenDb.rotateAudited_eq_ok hrun
      obtain ⟨tokens, -, -, rfl⟩ := TokenDb.insertToken_eq_ok hmid
      rfl
    · exact h
  | revoke token now =>
    simp only [familyNext, TokenDb.revokeOn]
    split
    · rename_i db hrun
      split at hrun
      · cases hrun
        exact h.quiet (.of_later (TokenDb.later_revokeTokens _ _ now) rfl) rfl fun r hr => hr
      · cases hrun
    · exact h

theorem next (op : LoanOp) : Lending (loanNext s op) := by
  cases op with
  | call op => exact h.call op
  | createGrant grant new maxGrantDays now =>
    refine h.quiet ?_ rfl fun r hr => hr
    simp only [loanNext, LoanDesk.store]
    cases hrun : s.desk.db.createDelegationGrantOn grant new maxGrantDays now with
    | error => exact .of_later (.of_tokens rfl) rfl
    | ok => exact TokenDb.keeps_createDelegationGrantOn hrun
  | revokeGrant =>
    exact h.quiet (TokenDb.keeps_revokeDelegationGrantOn ..) rfl fun r hr => hr
  | deprovision =>
    exact h.quiet (TokenDb.keeps_deprovision ..) rfl fun r hr => hr

end

end Lending

/-! ## 5. The run -/

theorem TokenDb.active_grant (h : db.active now row = true) (hrow : row.delegationGrantId = some g)
    (hgrant : db.delegationGrants.get? g = some grant) :
    grant.revokedAt = none ∧ now < grant.expiresAt ∧
      db.memberActive grant.workspaceId grant.delegateId = true := by
  simp only [TokenDb.active, hrow, Option.all_some, Bool.and_eq_true, any_eq_true, beq_iff_eq,
    isNone_iff_eq_none, decide_eq_true_eq] at h
  obtain ⟨r, hr, ⟨⟨hid, hlive⟩, hexp⟩, hdelegate⟩ := h.1.1.1.2
  obtain rfl : r = grant := by
    have hget := get?_of_mem hr
    rw [hid, hgrant] at hget
    exact (Option.some.inj hget).symm
  refine ⟨hlive, ?_, hdelegate⟩
  unfold TokenDb.datetime at hexp
  omega

/-- **A context of a token on loan borrows.** -/
theorem TokenDb.OnLoan.borrows (h : db.OnLoan token g) :
    ∃ grant, db.delegationGrants.get? g = some grant ∧
      ∀ (surface : Surface) (hash : String) (now : Int) (auth : AuthContext),
        surface.resolve db hash now = .ok auth → auth.tokenId = some token →
        Borrows db now auth grant := by
  obtain ⟨row, hrow, hcolumn, grant, hgrant, hsubject, hwithin⟩ := h
  refine ⟨grant, hgrant, fun surface hash now auth hres htoken => ?_⟩
  obtain ⟨t, hmem, hactive, hfrom⟩ := Surface.resolve_from hres
  obtain rfl : t = row := by
    have hid : t.id = token := by cases hfrom <;> exact Option.some.inj htoken
    rw [← hid, get?_of_mem hmem] at hrow
    exact Option.some.inj hrow
  obtain ⟨hlive, hexp, hdelegate⟩ := TokenDb.active_grant hactive hcolumn hgrant
  cases hfrom with
  | own hnone =>
    rw [hcolumn] at hnone
    cases hnone
  | borrowed hg hget =>
    obtain rfl := mem_unique hcolumn hg
    obtain rfl := mem_unique hgrant hget
    refine ⟨rfl, hsubject, fun cap hcap => ?_, fun db' minted args at' => ?_, hlive, hexp,
      hdelegate⟩
    · have hmem : cap ∈ t.capabilities.filter delegatable.contains := by
        simpa [AuthContext.hasCapability, AuthContext.fromDelegatedToken] using hcap
      obtain ⟨hheld, hlendable⟩ := mem_filter.mp hmem
      exact ⟨hwithin cap hheld, by simpa using hlendable⟩
    · cases hrun : db'.delegateToken _ minted args at' with
      | error e => exact ⟨e, rfl⟩
      | ok =>
        obtain ⟨_, -, h⟩ := bind_ok hrun
        cases h

/-- **A borrowed token never loses its actor.**  From any store, over every run of the steps of
requests, rotations and revocations, of grants created and revoked and members removed: a token that
was exchanged under a grant, or attenuated from one that was, resolves to nothing but the grant's
delegate acting for its subject, while the grant stands. -/
theorem borrowed_keeps_actor (db : TokenDb) (ops : List LoanOp)
    (h : (token, g) ∈ (exec loanNext { desk := { db } } ops).lent) :
    ∃ grant, (exec loanNext { desk := { db } } ops).desk.db.delegationGrants.get? g = some grant ∧
      ∀ (surface : Surface) (hash : String) (now : Int) (auth : AuthContext),
        surface.resolve (exec loanNext { desk := { db } } ops).desk.db hash now = .ok auth →
        auth.tokenId = some token →
        Borrows (exec loanNext { desk := { db } } ops).desk.db now auth grant := by
  have hstart : Lending { desk := { db } } := ⟨fun _ hl => (nomatch hl), fun _ hr => (nomatch hr)⟩
  have hend : Lending (exec loanNext { desk := { db } } ops) :=
    exec_inv (fun _ op hs => hs.next op) ops hstart
  exact (hend.lent _ h).borrows

/-- A subject, a delegate with a token, and a grant between them. -/
def loanRoom : TokenDb where
  members := twoMembers
  delegationGrants :=
    { rows := [{ id := ⟨1⟩, workspaceId := ⟨1⟩, subjectId := ⟨1⟩, delegateId := ⟨2⟩,
                 capabilities := ["workspace:read"], expiresAt := seconds 7200 }] }
  tokens :=
    { rows := [{ id := ⟨1⟩, workspaceId := ⟨1⟩, memberId := ⟨2⟩, tokenHash := "own",
                 capabilities := ["workspace:read"] }] }

/-- The delegate exchanges the grant, and attenuates what it got. -/
def loanOps : List LoanOp :=
  [.call (.authenticate 1 .rest "own" 0),
    .call (.delegate 1 ⟨⟨2⟩, "lent"⟩ { grantId := ⟨1⟩ } 0),
    .call (.authenticate 2 .rest "lent" 0),
    .call (.attenuate 2 ⟨⟨3⟩, "cut"⟩ ⟨["workspace:read"], none⟩ 0)]

theorem borrowed_keeps_actor_attenuated :
    ∃ auth grant, Surface.rest.resolve (exec loanNext { desk := { db := loanRoom } } loanOps).desk.db
        "cut" 1 = .ok auth ∧ auth.actorId = ⟨2⟩ ∧ auth.tokenId = some ⟨3⟩ ∧
      Borrows (exec loanNext { desk := { db := loanRoom } } loanOps).desk.db 1 auth grant := by
  have hmem : ((⟨3⟩, ⟨1⟩) : ApiTokenId × DelegationGrantId) ∈
      (exec loanNext { desk := { db := loanRoom } } loanOps).lent := by decide
  obtain ⟨grant, -, hborrows⟩ := borrowed_keeps_actor loanRoom loanOps hmem
  have hres : Surface.rest.resolve (exec loanNext { desk := { db := loanRoom } } loanOps).desk.db
      "cut" 1 = .ok (.fromDelegatedToken ⟨3⟩ ⟨2⟩ ⟨1⟩ ⟨1⟩ ⟨1⟩ ["workspace:read"]) := by
    exact toOption_eq_some.mp (by decide)
  exact ⟨_, grant, hres, rfl, rfl, hborrows .rest "cut" 1 _ hres rfl⟩

end Maidan
