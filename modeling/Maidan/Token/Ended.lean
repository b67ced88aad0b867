/-
# Does every way of ending a credential end what was derived from it?

Besides `revoke_on` four routines end tokens, and each selects its rows by another column:
`revoke_installation_on` by the installation, `revoke_access_token_audited` by the hash,
`revoke_lineage_on` by the OAuth grant, and a delegation grant's `revoke_on` by the grant, with
everything below.  Descent runs through `parent_token_id`, which only the last one follows.  So what
the other three leave behind is decided by what a derived token carries over:

* an attenuated token keeps the installation, an exchanged one does not;
* no derived token keeps the OAuth grant.

`descendants_ended_iff` puts the two together.  Over every run of mints, attenuations and exchanges,
each authenticated when it is made, and of the four routines: no descendant of a token that was
ended is ever found again, exactly when an installation is never revoked above an active token under
a delegation grant, and a lineage or an access token never above any active token.

* §1 is the four routines, with the rows each selects;
* §2 is the run and the property;
* §3 is what a routine makes of an active token: it stays active unless it is selected;
* §4 is what the columns of a derived token say of its parent's;
* §5 is the step, §6 the run.
-/
import Maidan.Token.Tools

namespace Maidan

open Relational Table Run Digraph Relation List

/-! ## 1. The four routines -/

inductive Ending
  | installation (installation : AppInstallationId)
  | accessToken (hash client : String)
  | lineage (lineage : LineageId)
  | delegationGrant (workspace : WorkspaceId) (grant : DelegationGrantId)

namespace Ending

def run (db : TokenDb) (now : Int) : Ending → TokenDb
  | .installation i => settle db (db.revokeInstallationOn i now)
  | .accessToken hash client => db.revokeAccessToken hash client now
  | .lineage l => db.revokeLineageOn l now
  | .delegationGrant workspace g => db.revokeDelegationGrantOn workspace g now

/-- Whether the grant is there to be revoked. -/
def grantStands (db : TokenDb) (workspace : WorkspaceId) (grant : DelegationGrantId) : Bool :=
  db.delegationGrants.rows.any fun g => g.id == grant && g.workspaceId == workspace &&
    g.revokedAt.isNone

/-- The rows the routine's `UPDATE` takes, but for those already revoked. -/
def selects (db : TokenDb) : Ending → ApiTokenRow → Bool
  | .installation i, t => (db.installations.get? i).any (fun r => r.revokedAt.isNone) &&
      t.appInstallationId == some i
  | .accessToken hash client, t => t.tokenHash == hash &&
      db.underGrant (fun g => g.clientId == client) t
  | .lineage l, t => db.underGrant (fun g => g.lineageId == l) t
  | .delegationGrant workspace g, t => grantStands db workspace g && db.grantSubtree g t

theorem rows_run (db : TokenDb) (now : Int) (e : Ending) : (e.run db now).tokens.rows =
    db.tokens.rows.map (TokenDb.afterRevoke (e.selects db) now) := by
  have hnone : ∀ p : ApiTokenRow → Bool, (∀ t, p t = false) →
      db.tokens.rows = db.tokens.rows.map (TokenDb.afterRevoke p now) := by
    intro p hp
    refine (map_id'' (fun t => ?_) _).symm
    simp [TokenDb.afterRevoke, hp]
  cases e with
  | installation i =>
    simp only [run, TokenDb.revokeInstallationOn]
    split
    · rename_i hlive
      have hsel : selects db (.installation i) = fun t => t.appInstallationId == some i := by
        funext t
        simp [selects, hlive]
      rw [hsel]
      rfl
    · rename_i hgone
      exact hnone _ fun t => by simp [selects, hgone]
  | accessToken | lineage => rfl
  | delegationGrant workspace g =>
    simp only [run, TokenDb.revokeDelegationGrantOn]
    split
    · rename_i hlive
      have hsel : selects db (.delegationGrant workspace g) = db.grantSubtree g := by
        funext t
        simp [selects, grantStands, hlive]
      rw [hsel]
      rfl
    · rename_i hgone
      exact hnone _ fun t => by simp [selects, grantStands, hgone]

end Ending

/-! ## 2. The run -/

/-- The store, the time, and the tokens that one of the four routines has ended. -/
structure Grove where
  db : TokenDb
  clock : Int
  ended : List ApiTokenId := []

inductive GroveOp
  | wait (nanos : Nat)
  | mint (token : ApiTokenId) (new : NewApiToken)
  | mintOAuth (token : ApiTokenId) (new : NewApiToken) (grant : OAuthGrantId)
  | attenuate (surface : Surface) (hash : String) (minted : Minted) (args : AttenuateArgs)
  | exchange (surface : Surface) (hash : String) (minted : Minted) (args : DelegateArgs)
  | ending (e : Ending)

/-- The tokens that were live before and are revoked after. -/
def endedBy (db db' : TokenDb) : List ApiTokenId :=
  (db.tokens.rows.filter fun t => t.revokedAt.isNone && !db'.live t.id).map ApiTokenRow.id

def groveNext (s : Grove) : GroveOp → Grove
  | .wait nanos => { s with clock := s.clock + nanos }
  | .mint token new => { s with db := settle s.db (s.db.createOn token new) }
  | .mintOAuth token new grant => { s with db := settle s.db (s.db.mintTokenOn token new grant) }
  | .attenuate surface hash minted args =>
    match surface.resolve s.db hash s.clock with
    | .ok auth => { s with db := settle s.db (surface.attenuate s.db auth minted args s.clock) }
    | .error _ => s
  | .exchange surface hash minted args =>
    match surface.resolve s.db hash s.clock with
    | .ok auth => { s with db := settle s.db (s.db.delegateToken auth minted args s.clock) }
    | .error _ => s
  | .ending e =>
    let db := e.run s.db s.clock
    { s with db, ended := endedBy s.db db ++ s.ended }

/-- A forest that is still to be planted: any store, without tokens. -/
def Grove.bare (db : TokenDb) (clock : Int) : Grove := { db := { db with tokens := .empty }, clock }

/-- **What descends from an ended token is not found**, now or later. -/
def DescendantsEnded (s : Grove) : Prop :=
  ∀ a ∈ s.ended, ∀ t : ApiTokenRow, s.db.Descends a t.id →
    ∀ hash now, s.clock ≤ now → s.db.getActiveByHash hash now ≠ .ok t

/-- `t` is active, and below a token that the routine is about to end. -/
structure Below (s : Grove) (e : Ending) (t : ApiTokenRow) : Prop where
  mem : t ∈ s.db.tokens.rows
  active : s.db.active s.clock t = true
  under : ∃ a ∈ s.db.tokens.rows, e.selects s.db a = true ∧ a.revokedAt = none ∧
    s.db.Descends a.id t.id

/-- An installation is revoked above no active token under a delegation grant; a lineage or an
access token above no active token at all. -/
def LeavesNone (s : Grove) : GroveOp → Prop
  | .ending (.installation i) => ∀ t, Below s (.installation i) t → t.delegationGrantId = none
  | .ending (.accessToken hash client) => ∀ t, ¬Below s (.accessToken hash client) t
  | .ending (.lineage l) => ∀ t, ¬Below s (.lineage l) t
  | _ => True

/-! ## 3. Active tokens -/

variable {now : Int} {t row : ApiTokenRow} {db' : TokenDb} {e : Ending} {a : ApiTokenId}

namespace TokenDb

variable {db : TokenDb}

/-- What `active` asks, read as a proposition. -/
theorem active_iff : db.active now t = true ↔
    t.revokedAt = none ∧ (∀ e, t.expiresAt = some e → now < e) ∧
    (∀ g, t.delegationGrantId = some g → ∃ r ∈ db.delegationGrants.rows, r.id = g ∧
      r.revokedAt = none ∧ datetime now < datetime r.expiresAt ∧
      db.memberActive r.workspaceId r.delegateId = true) ∧
    (∀ g, t.oauthGrantId = some g → ∃ r ∈ db.oauthGrants.rows, r.id = g ∧ r.revokedAt = none) ∧
    db.memberActive t.workspaceId t.memberId = true ∧
    (∀ i, t.appInstallationId = some i → ∃ r ∈ db.installations.rows, r.id = i ∧
      r.revokedAt = none) := by
  simp [active, Option.all_eq_true, and_assoc]

/-- **Time only takes away.** -/
theorem active_earlier (hle : now ≤ later) (h : db.active later t = true) :
    db.active now t = true := by
  obtain ⟨hr, he, hd, hrest⟩ := active_iff.mp h
  refine active_iff.mpr ⟨hr, fun e hte => lt_of_le_of_lt hle (he e hte), fun g hg => ?_, hrest⟩
  obtain ⟨r, hmem, hid, hlive, hexp, hmember⟩ := hd g hg
  have hsecs : datetime now ≤ datetime later := Int.ediv_le_ediv (by decide) hle
  exact ⟨r, hmem, hid, hlive, lt_of_le_of_lt hsecs hexp, hmember⟩

theorem getActiveByHash_of_active (hhash : (db.tokens.rows.map ApiTokenRow.tokenHash).Nodup)
    (ht : t ∈ db.tokens.rows) (h : db.active now t = true) :
    db.getActiveByHash t.tokenHash now = .ok t := by
  unfold getActiveByHash
  cases hfind : db.tokens.rows.find? fun r => r.tokenHash == t.tokenHash && db.active now r with
  | none =>
    have hno := find?_eq_none.mp hfind t ht
    simp [h] at hno
  | some =>
    have hr := find?_some hfind
    simp only [Bool.and_eq_true, beq_iff_eq] at hr
    rw [inj_on_of_nodup_map hhash (mem_of_find?_eq_some hfind) ht hr.1]

/-- What `t` is tied to reads the same in both. -/
structure SameTies (db db' : TokenDb) (t : ApiTokenRow) : Prop where
  members : db'.members = db.members
  scimUsers : db'.scimUsers = db.scimUsers
  delegation : ∀ r : DelegationGrantRow, t.delegationGrantId = some r.id → r.revokedAt = none →
    (r ∈ db'.delegationGrants.rows ↔ r ∈ db.delegationGrants.rows)
  oauth : ∀ r : OAuthGrantRow, t.oauthGrantId = some r.id → r.revokedAt = none →
    (r ∈ db'.oauthGrants.rows ↔ r ∈ db.oauthGrants.rows)
  installation : ∀ r : AppInstallationRow, t.appInstallationId = some r.id → r.revokedAt = none →
    (r ∈ db'.installations.rows ↔ r ∈ db.installations.rows)

theorem SameTies.active (h : SameTies db db' t) (now : Int) :
    db'.active now t = true ↔ db.active now t = true := by
  have hmember : ∀ w m, db'.memberActive w m = db.memberActive w m := by
    intro w m
    simp only [memberActive, h.members, h.scimUsers]
  rw [active_iff, active_iff]
  refine and_congr_right' (and_congr_right' (and_congr ?_ (and_congr ?_ (and_congr ?_ ?_))))
  · refine forall₂_congr fun g hg => exists_congr fun r => ?_
    constructor
    · rintro ⟨hr, rfl, hlive, hexp, hm⟩
      exact ⟨(h.delegation r hg hlive).mp hr, rfl, hlive, hexp, hmember .. ▸ hm⟩
    · rintro ⟨hr, rfl, hlive, hexp, hm⟩
      exact ⟨(h.delegation r hg hlive).mpr hr, rfl, hlive, hexp, (hmember ..).trans hm⟩
  · refine forall₂_congr fun g hg => exists_congr fun r => ?_
    constructor
    · rintro ⟨hr, rfl, hlive⟩
      exact ⟨(h.oauth r hg hlive).mp hr, rfl, hlive⟩
    · rintro ⟨hr, rfl, hlive⟩
      exact ⟨(h.oauth r hg hlive).mpr hr, rfl, hlive⟩
  · rw [hmember]
  · refine forall₂_congr fun i hi => exists_congr fun r => ?_
    constructor
    · rintro ⟨hr, rfl, hlive⟩
      exact ⟨(h.installation r hi hlive).mp hr, rfl, hlive⟩
    · rintro ⟨hr, rfl, hlive⟩
      exact ⟨(h.installation r hi hlive).mpr hr, rfl, hlive⟩

theorem SameTies.refl (db : TokenDb) (t : ApiTokenRow) : SameTies db db t :=
  ⟨rfl, rfl, fun _ _ _ => Iff.rfl, fun _ _ _ => Iff.rfl, fun _ _ _ => Iff.rfl⟩

end TokenDb

variable {db : TokenDb}

/-- **A routine touches nothing that an unselected token is tied to.** -/
theorem Ending.sameTies (now : Int) (h : e.selects db t = false) :
    TokenDb.SameTies db (e.run db now) t := by
  have hbase := TokenDb.SameTies.refl db t
  cases e with
  | installation i =>
    simp only [run, TokenDb.revokeInstallationOn]
    split
    · rename_i hlive
      refine ⟨rfl, rfl, hbase.delegation, hbase.oauth, fun r hr hnone => ?_⟩
      have hother : r.id ≠ i := by
        rintro rfl
        simp [selects, hlive, hr] at h
      have hwritten : ∀ r' : AppInstallationRow, { r' with revokedAt := some now } ≠ r := by
        rintro r' rfl
        cases hnone
      simp only [settle, Table.update]
      rw [mem_updateWhere_of_ne hwritten]
      exact and_iff_left (by simpa using hother)
    · exact hbase
  | accessToken => exact ⟨rfl, rfl, hbase.delegation, hbase.oauth, hbase.installation⟩
  | lineage l =>
    refine ⟨rfl, rfl, hbase.delegation, fun r hr hnone => ?_, hbase.installation⟩
    have hwritten : ∀ r' : OAuthGrantRow, { r' with revokedAt := some now } ≠ r := by
      rintro r' rfl
      cases hnone
    simp only [run, TokenDb.revokeLineageOn]
    rw [mem_updateWhere_of_ne hwritten]
    refine and_iff_left_of_imp fun hmem => ?_
    have hother : r.lineageId ≠ l := by
      rintro rfl
      have hno : ∀ g ∈ db.oauthGrants.rows, g.lineageId = r.lineageId → g.id ≠ r.id := by
        simpa [selects, TokenDb.underGrant, hr] using h
      exact hno r hmem rfl rfl
    simp [hother]
  | delegationGrant workspace g =>
    simp only [run, TokenDb.revokeDelegationGrantOn]
    split
    · rename_i hlive
      refine ⟨rfl, rfl, fun r hr hnone => ?_, hbase.oauth, hbase.installation⟩
      have hother : r.id ≠ g := by
        rintro rfl
        simp [selects, grantStands, hlive, TokenDb.grantSubtree, hr] at h
      have hwritten : ∀ r' : DelegationGrantRow, { r' with revokedAt := some now } ≠ r := by
        rintro r' rfl
        cases hnone
      rw [mem_updateWhere_of_ne hwritten]
      exact and_iff_left (by simp [hother])
    · exact hbase

/-- **What a routine makes of an active token**: it stays active, at any time, unless it is
selected. -/
theorem Ending.active_run (now later : Int) :
    (e.run db now).active later (TokenDb.afterRevoke (e.selects db) now t) = true ↔
      db.active later t = true ∧ e.selects db t = false := by
  cases hsel : e.selects db t with
  | true =>
    refine iff_of_false (fun h => ?_) (fun h => nomatch h.2)
    have hnone := TokenDb.revokedAt_of_active h
    rw [TokenDb.revokedAt_afterRevoke, hsel] at hnone
    exact nomatch hnone.1
  | false =>
    have hsame : TokenDb.afterRevoke (e.selects db) now t = t := by
      simp [TokenDb.afterRevoke, hsel]
    rw [hsame, (e.sameTies now hsel).active later]
    exact (and_iff_left rfl).symm

/-! ## 4. What a derived token carries over -/

/-- The columns of a derived token against its parent's.  It is under no OAuth grant; under no
delegation grant it has the parent's installation, and neither is the parent under one; under a
delegation grant it has no installation. -/
structure Inherits (t parent : ApiTokenRow) : Prop where
  unbound : t.oauthGrantId = none
  plain : t.delegationGrantId = none →
    parent.delegationGrantId = none ∧ t.appInstallationId = parent.appInstallationId
  borrowed : t.delegationGrantId ≠ none → t.appInstallationId = none

/-- One token to a hash, and each derived token fits its parent. -/
structure WellGrown (db : TokenDb) : Prop where
  hashes : (db.tokens.rows.map ApiTokenRow.tokenHash).Nodup
  parents : ∀ t ∈ db.tokens.rows, ∀ p, t.parentTokenId = some p →
    ∃ parent ∈ db.tokens.rows, parent.id = p ∧ Inherits t parent

theorem hash_free_of_insertToken (h : db.insertToken row = .ok db') :
    row.tokenHash ∉ db.tokens.rows.map ApiTokenRow.tokenHash := by
  intro hmem
  obtain ⟨t, ht, heq⟩ := mem_map.mp hmem
  have hany : (db.tokens.rows.any fun r => r.tokenHash == row.tokenHash) = true :=
    any_eq_true.mpr ⟨t, ht, by simpa using heq⟩
  rw [TokenDb.insertToken, if_pos hany] at h
  cases h

namespace WellGrown

variable {db : TokenDb}

section

variable (h : WellGrown db)
include h

theorem insert (hins : db.insertToken row = .ok db')
    (hrow : ∀ p, row.parentTokenId = some p → ∃ parent ∈ db.tokens.rows, parent.id = p ∧
      Inherits row parent) :
    WellGrown db' := by
  have hfree := hash_free_of_insertToken hins
  obtain ⟨tokens, htokens, -, rfl⟩ := TokenDb.insertToken_eq_ok hins
  have hrows : tokens.rows = db.tokens.rows ++ [row] := Table.rows_of_insert? htokens
  refine ⟨?_, fun t ht p hp => ?_⟩
  · simp only [hrows, map_append, map_singleton]
    refine nodup_append.mpr ⟨h.hashes, nodup_singleton _, fun a ha b hb hab => ?_⟩
    rw [mem_singleton.mp hb] at hab
    exact hfree (hab ▸ ha)
  · simp only [hrows, mem_append, mem_singleton] at ht ⊢
    have hparent : ∃ parent ∈ db.tokens.rows, parent.id = p ∧ Inherits t parent := by
      rcases ht with ht | rfl
      · exact h.parents t ht p hp
      · exact hrow p hp
    obtain ⟨parent, hmem, hid, hinh⟩ := hparent
    exact ⟨parent, .inl hmem, hid, hinh⟩

theorem ending (now : Int) (e : Ending) : WellGrown (e.run db now) := by
  have hrows := e.rows_run db now
  refine ⟨?_, fun t' ht' p hp => ?_⟩
  · rw [hrows, List.map_map]
    have hsame : db.tokens.rows.map
        (ApiTokenRow.tokenHash ∘ TokenDb.afterRevoke (e.selects db) now) =
        db.tokens.rows.map ApiTokenRow.tokenHash :=
      map_congr_left fun t _ => by simp [TokenDb.afterRevoke_eq]
    rw [hsame]
    exact h.hashes
  · rw [hrows] at ht'
    obtain ⟨t, ht, rfl⟩ := mem_map.mp ht'
    rw [TokenDb.afterRevoke_eq] at hp
    obtain ⟨parent, hmem, hid, hinh⟩ := h.parents t ht p hp
    refine ⟨TokenDb.afterRevoke (e.selects db) now parent, ?_, ?_, ?_⟩
    · rw [hrows]
      exact mem_map_of_mem hmem
    · rw [TokenDb.afterRevoke_eq]
      exact hid
    · rw [TokenDb.afterRevoke_eq, TokenDb.afterRevoke_eq]
      exact ⟨hinh.unbound, hinh.plain, hinh.borrowed⟩

theorem inherits_of_edge (ht : t ∈ db.tokens.rows) (he : Edge db.childEdges p t.id) :
    ∃ parent ∈ db.tokens.rows, parent.id = p ∧ Inherits t parent := by
  obtain ⟨t', ht', hp⟩ := TokenDb.mem_childEdges.mp he
  rw [get?_of_mem ht] at ht'
  cases ht'
  exact h.parents t ht p hp

/-- **No descendant is under an OAuth grant**, and one under a delegation grant is of no
installation. -/
theorem of_descends (ht : t ∈ db.tokens.rows) (hd : db.Descends a t.id) :
    t.oauthGrantId = none ∧ (t.delegationGrantId ≠ none → t.appInstallationId = none) := by
  obtain ⟨p, -, he⟩ := TransGen.tail'_iff.mp hd
  obtain ⟨parent, -, -, hinh⟩ := h.inherits_of_edge ht he
  exact ⟨hinh.unbound, hinh.borrowed⟩

/-- **The installation comes down** to every descendant under no delegation grant. -/
theorem installation_of_descends {a : ApiTokenRow} (ha : a ∈ db.tokens.rows)
    (hd : db.Descends a.id k) : ∀ t ∈ db.tokens.rows, t.id = k →
      t.delegationGrantId = none → t.appInstallationId = a.appInstallationId := by
  induction hd with
  | single he =>
    rintro t ht rfl hnone
    obtain ⟨parent, hmem, hid, hinh⟩ := h.inherits_of_edge ht he
    rw [eq_of_key_eq ha hmem hid.symm]
    exact (hinh.plain hnone).2
  | tail _ he ih =>
    rintro t ht rfl hnone
    obtain ⟨parent, hmem, hid, hinh⟩ := h.inherits_of_edge ht he
    rw [(hinh.plain hnone).2]
    exact ih parent hmem hid (hinh.plain hnone).1

end

end WellGrown

theorem inherits_attenuated (hctx : TokenDb.ContextOf db now auth parent)
    (hrow : TokenDb.DerivedRow auth minted row)
    (happ : row.appInstallationId = auth.appInstallationId) (hgrant : row.delegationGrantId =
      (auth.tokenId.bind db.tokens.get?).bind ApiTokenRow.delegationGrantId) :
    Inherits row parent := by
  have hsame : row.delegationGrantId = parent.delegationGrantId := by
    rw [hgrant, hctx.token, bind_some, get?_of_mem hctx.mem, bind_some]
  refine ⟨hrow.unbound, fun hnone => ?_, fun hsome => ?_⟩
  · rw [hsame] at hnone
    exact ⟨hnone, happ.trans (hctx.installation hnone)⟩
  · rw [hsame] at hsome
    exact happ.trans (hctx.borrowed hsome)

/-! ## 5. The step -/

/-- **What an insert adds**: a row, under a parent that was active when the call was made, if under
any, and fit for it. -/
structure Grows (s : Grove) (db : TokenDb) (row : ApiTokenRow) : Prop where
  inserted : s.db.insertToken row = .ok db
  parent : ∀ p, row.parentTokenId = some p → ∃ parent ∈ s.db.tokens.rows, parent.id = p ∧
    s.db.active s.clock parent = true ∧ Inherits row parent

/-- **What a step can do**: let time pass, insert a token, run one of the four routines. -/
theorem groveNext_cases (s : Grove) (op : GroveOp) :
    (∃ nanos : Nat, groveNext s op = { s with clock := s.clock + nanos }) ∨
      (∃ db row, Grows s db row ∧ groveNext s op = { s with db }) ∨
      ∃ e, op = .ending e := by
  have hstay : ∃ nanos : Nat, s = { s with clock := s.clock + nanos } := ⟨0, by simp⟩
  have hmint : ∀ {db : TokenDb} {row : ApiTokenRow}, s.db.insertToken row = .ok db →
      row.parentTokenId = none → Grows s db row :=
    fun hins hnone => ⟨hins, fun p hp => by rw [hnone] at hp; cases hp⟩
  cases op with
  | wait nanos => exact .inl ⟨nanos, rfl⟩
  | mint token new =>
    cases hrun : s.db.createOn token new with
    | error => exact .inl (by simpa only [groveNext, hrun, settle] using hstay)
    | ok db =>
      exact .inr (.inl ⟨db, _, hmint hrun rfl, by simp only [groveNext, hrun, settle]⟩)
  | mintOAuth token new grant =>
    cases hrun : s.db.mintTokenOn token new grant with
    | error => exact .inl (by simpa only [groveNext, hrun, settle] using hstay)
    | ok db =>
      exact .inr (.inl ⟨db, _, hmint hrun rfl, by simp only [groveNext, hrun, settle]⟩)
  | attenuate surface hash minted args =>
    cases hres : surface.resolve s.db hash s.clock with
    | error => exact .inl (by simpa only [groveNext, hres] using hstay)
    | ok auth =>
      cases hrun : surface.attenuate s.db auth minted args s.clock with
      | error => exact .inl (by simpa only [groveNext, hres, hrun, settle] using hstay)
      | ok db =>
        obtain ⟨parent, hctx⟩ := Surface.resolve_eq_ok hres
        obtain ⟨row, hins, hrow, happ, hgrant, -⟩ := Surface.attenuate_eq_ok hrun
        refine .inr (.inl ⟨db, row, ⟨hins, fun p hp => ⟨parent, hctx.mem, ?_, hctx.active,
          inherits_attenuated hctx hrow happ hgrant⟩⟩,
          by simp only [groveNext, hres, hrun, settle]⟩)
        rw [hrow.parent, hctx.token] at hp
        exact Option.some.inj hp
  | exchange surface hash minted args =>
    cases hres : surface.resolve s.db hash s.clock with
    | error => exact .inl (by simpa only [groveNext, hres] using hstay)
    | ok auth =>
      cases hrun : s.db.delegateToken auth minted args s.clock with
      | error => exact .inl (by simpa only [groveNext, hres, hrun, settle] using hstay)
      | ok db =>
        obtain ⟨parent, hctx⟩ := Surface.resolve_eq_ok hres
        obtain ⟨row, hins, hrow, happ, hgrant, -⟩ := TokenDb.delegateToken_eq_ok hrun
        have hsome : row.delegationGrantId ≠ none := by simp [hgrant.1]
        refine .inr (.inl ⟨db, row, ⟨hins, fun p hp => ⟨parent, hctx.mem, ?_, hctx.active,
          hrow.unbound, fun hnone => absurd hnone hsome, fun _ => happ⟩⟩,
          by simp only [groveNext, hres, hrun, settle]⟩)
        rw [hrow.parent, hctx.token] at hp
        exact Option.some.inj hp
  | ending e => exact .inr (.inr ⟨e, rfl⟩)

theorem WellGrown.next (h : WellGrown s.db) (op : GroveOp) : WellGrown (groveNext s op).db := by
  rcases groveNext_cases s op with ⟨nanos, hs⟩ | ⟨db, row, hgrows, hs⟩ | ⟨e, rfl⟩
  · rw [hs]
    exact h
  · rw [hs]
    refine h.insert hgrows.inserted fun p hp => ?_
    obtain ⟨parent, hmem, hid, -, hinh⟩ := hgrows.parent p hp
    exact ⟨parent, hmem, hid, hinh⟩
  · exact h.ending s.clock e

theorem Ending.childEdges_run (db : TokenDb) (now : Int) (e : Ending) :
    (e.run db now).childEdges = db.childEdges := by
  unfold TokenDb.childEdges
  rw [e.rows_run db now, filterMap_map]
  simp [TokenDb.afterRevoke_eq]

theorem Ending.mem_run {now : Int} {e : Ending} {t : ApiTokenRow} (ht : t ∈ db.tokens.rows) :
    TokenDb.afterRevoke (e.selects db) now t ∈ (e.run db now).tokens.rows := by
  rw [e.rows_run db now]
  exact mem_map_of_mem ht

theorem Ending.get?_run (now : Int) (e : Ending) (ht : t ∈ db.tokens.rows) :
    (e.run db now).tokens.get? t.id = some (TokenDb.afterRevoke (e.selects db) now t) := by
  refine get?_eq_some_iff.mpr ⟨Ending.mem_run ht, ?_⟩
  rw [TokenDb.afterRevoke_eq]

/-- **What a routine ends**: the rows it selects that were not revoked. -/
theorem Ending.mem_endedBy : a ∈ endedBy db (e.run db now) ↔
      ∃ t ∈ db.tokens.rows, t.id = a ∧ t.revokedAt = none ∧ e.selects db t = true := by
  have hlive : ∀ t ∈ db.tokens.rows, t.revokedAt = none →
      ((e.run db now).live t.id = true ↔ e.selects db t = false) := by
    intro t ht hnone
    rw [TokenDb.live_iff, e.get?_run now ht]
    simp [TokenDb.revokedAt_afterRevoke, hnone]
  unfold endedBy
  rw [mem_map]
  refine exists_congr fun t => ?_
  rw [mem_filter, Bool.and_eq_true, isNone_iff_eq_none, Bool.not_eq_true']
  constructor
  · rintro ⟨⟨ht, hnone, hgone⟩, hid⟩
    refine ⟨ht, hid, hnone, ?_⟩
    by_contra hsel
    rw [(hlive t ht hnone).mpr (Bool.not_eq_true _ ▸ hsel)] at hgone
    cases hgone
  · rintro ⟨ht, hid, hnone, hsel⟩
    refine ⟨⟨ht, hnone, ?_⟩, hid⟩
    by_contra hlives
    rw [(hlive t ht hnone).mp (Bool.not_eq_false _ ▸ hlives)] at hsel
    cases hsel

/-- **The condition, read on the rows**: what is active below a token the routine ends is ended by
it as well.  The columns a derived token carries over decide which routines reach it. -/
theorem closed_iff (h : WellGrown s.db) (e : Ending) :
    (∀ t, Below s e t → e.selects s.db t = true) ↔ LeavesNone s (.ending e) := by
  have hunbound : ∀ t, Below s e t → ∀ p, s.db.underGrant p t = false := by
    intro t ht p
    obtain ⟨a, -, -, -, hd⟩ := ht.under
    simp [TokenDb.underGrant, (h.of_descends ht.mem hd).1]
  cases e with
  | installation =>
    refine forall₂_congr fun t ht => ?_
    obtain ⟨a, hmem, hsel, -, hd⟩ := ht.under
    simp only [Ending.selects, Bool.and_eq_true, beq_iff_eq] at hsel ⊢
    constructor
    · rintro ⟨-, happ⟩
      by_contra hgrant
      rw [(h.of_descends ht.mem hd).2 hgrant] at happ
      cases happ
    · intro hnone
      exact ⟨hsel.1, (h.installation_of_descends hmem hd t ht.mem rfl hnone).trans hsel.2⟩
  | accessToken | lineage =>
    refine forall₂_congr fun t ht => iff_of_false ?_ id
    simp [Ending.selects, hunbound t ht]
  | delegationGrant workspace g =>
    refine iff_of_true (fun t ht => ?_) trivial
    obtain ⟨a, hmem, hsel, -, hd⟩ := ht.under
    simp only [Ending.selects, Bool.and_eq_true] at hsel ⊢
    refine ⟨hsel.1, ?_⟩
    -- What descends from a row of the subtree is in the subtree.
    have hroot : ∃ root ∈ s.db.tokens.rows, root.delegationGrantId = some g ∧
        s.db.Descends root.id t.id := by
      rcases Bool.or_eq_true_iff.mp hsel.2 with hown | hany
      · exact ⟨a, hmem, by simpa using hown, hd⟩
      · obtain ⟨root, hroot, hin⟩ := any_eq_true.mp hany
        simp only [Bool.and_eq_true, beq_iff_eq, contains_iff_mem] at hin
        exact ⟨root, hroot, hin.1, (TokenDb.mem_subtree.mp hin.2).trans hd⟩
    obtain ⟨root, hroot, hgrant, hdesc⟩ := hroot
    refine Bool.or_eq_true_iff.mpr (.inr (any_eq_true.mpr ⟨root, hroot, ?_⟩))
    simpa [hgrant] using TokenDb.mem_subtree.mpr hdesc

/-! ## 6. The run -/

/-- What was ended is revoked, and nothing below it is active. -/
structure Stilled (s : Grove) : Prop where
  revoked : ∀ a ∈ s.ended, ∃ t ∈ s.db.tokens.rows, t.id = a ∧ t.revokedAt ≠ none
  below : ∀ a ∈ s.ended, ∀ t ∈ s.db.tokens.rows, s.db.Descends a t.id →
    s.db.active s.clock t = false

namespace Stilled

variable {s : Grove}

section

variable (h : Stilled s)
include h

theorem descendantsEnded : DescendantsEnded s := by
  intro a ha t hd hash now hle hfound
  obtain ⟨hmem, -, hactive⟩ := TokenDb.getActiveByHash_eq_ok hfound
  have hgone := h.below a ha t hmem hd
  rw [TokenDb.active_earlier hle hactive] at hgone
  cases hgone

theorem wait (nanos : Nat) : Stilled { s with clock := s.clock + nanos } := by
  refine ⟨h.revoked, fun a ha t ht hd => ?_⟩
  have hle : s.clock ≤ s.clock + (nanos : Int) := by omega
  by_contra hactive
  have hgone := h.below a ha t ht hd
  rw [TokenDb.active_earlier hle (Bool.not_eq_false _ ▸ hactive)] at hgone
  cases hgone

/-- **An active token is below nothing that was ended.** -/
theorem not_above (ha : a ∈ s.ended) (ht : t ∈ s.db.tokens.rows)
    (hactive : s.db.active s.clock t = true) : ¬ReflTransGen (Edge s.db.childEdges) a t.id := by
  intro hpath
  rcases reflTransGen_iff_eq_or_transGen.mp hpath with heq | hd
  · obtain ⟨r, hr, hid, hrevoked⟩ := h.revoked a ha
    rw [eq_of_key_eq hr ht (hid.trans heq.symm)] at hrevoked
    exact hrevoked (TokenDb.revokedAt_of_active hactive)
  · have hgone := h.below a ha t ht hd
    rw [hactive] at hgone
    cases hgone

/-- **An insert** puts nothing below what was ended: its parent is active. -/
theorem grow (hgrown : WellGrown s.db) (hgrows : Grows s db row) : Stilled { s with db } := by
  obtain ⟨hfree, hread⟩ := TokenDb.get?_of_insertToken hgrows.inserted
  obtain ⟨tokens, htokens, -, rfl⟩ := TokenDb.insertToken_eq_ok hgrows.inserted
  have hrows : tokens.rows = s.db.tokens.rows ++ [row] := Table.rows_of_insert? htokens
  -- Nothing led to the new id, and nothing led from it.
  have hinto : ∀ a, ¬s.db.Descends a row.id := by
    intro a hd
    obtain ⟨p, -, he⟩ := TransGen.tail'_iff.mp hd
    obtain ⟨t, ht, -⟩ := TokenDb.mem_childEdges.mp he
    exact TokenDb.ne_of_free hfree ht rfl
  have hfrom : ∀ z, ¬Edge s.db.childEdges row.id z := by
    intro z he
    obtain ⟨t, ht, hp⟩ := TokenDb.mem_childEdges.mp he
    obtain ⟨parent, hmem, hid, -⟩ := hgrown.parents t (mem_of_get? ht) row.id hp
    exact TokenDb.ne_of_free hfree (get?_of_mem hmem) hid.symm
  have hedges : ∀ u v, Edge (TokenDb.childEdges { s.db with tokens }) u v →
      Edge s.db.childEdges u v ∨ (row.parentTokenId = some u ∧ v = row.id) := by
    intro u v he
    obtain ⟨t, ht, hp⟩ := TokenDb.mem_childEdges.mp he
    rw [hread v] at ht
    split at ht
    · rename_i hv
      cases ht
      exact .inr ⟨hp, hv.symm⟩
    · exact .inl (TokenDb.mem_childEdges.mpr ⟨t, ht, hp⟩)
  refine ⟨fun a ha => ?_, fun a ha t ht hd => ?_⟩
  · obtain ⟨r, hr, hid, hrevoked⟩ := h.revoked a ha
    exact ⟨r, by simp [hrows, hr], hid, hrevoked⟩
  have hold : s.db.Descends a t.id := by
    cases hparent : row.parentTokenId with
    | none =>
      refine hd.lift id fun u v he => (hedges u v he).resolve_right fun hnew => ?_
      rw [hparent] at hnew
      cases hnew.1
    | some p =>
      obtain ⟨parent, hmem, rfl, hactive, -⟩ := hgrows.parent p hparent
      have hne : parent.id ≠ row.id := (TokenDb.ne_of_free hfree (get?_of_mem hmem)).symm
      have hpath : TransGen (fun u v => Edge s.db.childEdges u v ∨ (u = parent.id ∧ v = row.id))
          a t.id := by
        refine hd.lift id fun u v he => (hedges u v he).imp_right fun hnew => ?_
        rw [hparent] at hnew
        exact ⟨(Option.some.inj hnew.1).symm, hnew.2⟩
      rcases path_leaf hne hfrom hpath with hd | ⟨habove, -⟩
      · exact hd
      · exact absurd habove (h.not_above ha hmem hactive)
  have hmem : t ∈ s.db.tokens.rows := by
    simp only [hrows, mem_append, mem_singleton] at ht
    rcases ht with ht | rfl
    · exact ht
    · exact absurd hold (hinto a)
  exact h.below a ha t hmem hold

/-- **A routine that leaves none**: what is still active below an ended token would have been
selected. -/
theorem ending (hclosed : ∀ t, Below s e t → e.selects s.db t = true) :
    Stilled (groveNext s (.ending e)) := by
  refine ⟨fun a ha => ?_, fun a ha t' ht' hd => ?_⟩
  · rcases mem_append.mp ha with hnew | hold
    · obtain ⟨t, ht, hid, -, hsel⟩ := Ending.mem_endedBy.mp hnew
      refine ⟨_, Ending.mem_run ht, by rw [TokenDb.afterRevoke_eq]; exact hid, fun hnone => ?_⟩
      rw [TokenDb.revokedAt_afterRevoke, hsel] at hnone
      exact nomatch hnone.1
    · obtain ⟨t, ht, hid, hrevoked⟩ := h.revoked a hold
      refine ⟨_, Ending.mem_run ht, by rw [TokenDb.afterRevoke_eq]; exact hid, fun hnone => ?_⟩
      exact hrevoked ((TokenDb.revokedAt_afterRevoke ..).mp hnone).2
  · by_contra hactive
    simp only [groveNext] at ht' hd hactive
    rw [e.rows_run] at ht'
    obtain ⟨t, ht, rfl⟩ := mem_map.mp ht'
    obtain ⟨hactive, hsel⟩ := (Ending.active_run ..).mp (Bool.not_eq_false _ ▸ hactive)
    have hdesc : s.db.Descends a t.id := by
      have hid : (TokenDb.afterRevoke (e.selects s.db) s.clock t).id = t.id := by
        rw [TokenDb.afterRevoke_eq]
      rw [hid, TokenDb.Descends, e.childEdges_run] at hd
      exact hd
    rcases mem_append.mp ha with hnew | hold
    · obtain ⟨r, hr, rfl, hnone, hselr⟩ := Ending.mem_endedBy.mp hnew
      rw [hclosed t ⟨ht, hactive, r, hr, hselr, hnone, hdesc⟩] at hsel
      cases hsel
    · rw [h.below a hold t ht hdesc] at hactive
      cases hactive

theorem next (hgrown : WellGrown s.db) (hop : LeavesNone s op) : Stilled (groveNext s op) := by
  rcases groveNext_cases s op with ⟨nanos, hs⟩ | ⟨db, row, hgrows, hs⟩ | ⟨e, rfl⟩
  · rw [hs]
    exact h.wait nanos
  · rw [hs]
    exact h.grow hgrown hgrows
  · exact h.ending ((closed_iff hgrown e).mpr hop)

end

end Stilled

/-- **A routine that leaves one**: it is found right after. -/
theorem not_descendantsEnded (hgrown : WellGrown s.db) (hop : ¬LeavesNone s op) :
    ¬DescendantsEnded (groveNext s op) := by
  cases op with
  | ending e =>
    rw [← closed_iff hgrown e] at hop
    push Not at hop
    obtain ⟨t, hbelow, hsel⟩ := hop
    obtain ⟨a, ha, hsela, hnone, hd⟩ := hbelow.under
    have hsame : TokenDb.afterRevoke (e.selects s.db) s.clock t = t := by
      simp [TokenDb.afterRevoke, hsel]
    have hmem := @Ending.mem_run s.db s.clock e t hbelow.mem
    have hactive := (Ending.active_run s.clock s.clock).mpr
      ⟨hbelow.active, (Bool.not_eq_true _ ▸ hsel : e.selects s.db t = false)⟩
    rw [hsame] at hmem hactive
    intro hended
    refine hended a.id (mem_append_left _ (Ending.mem_endedBy.mpr
      ⟨a, ha, rfl, hnone, hsela⟩)) t ?_ t.tokenHash s.clock (le_refl _)
      (TokenDb.getActiveByHash_of_active (hgrown.ending s.clock e).hashes hmem hactive)
    simp only [groveNext, TokenDb.Descends, e.childEdges_run]
    exact hd
  | _ => exact absurd trivial hop

theorem run_ended_iff : ∀ (ops : List GroveOp) (s : Grove), WellGrown s.db → Stilled s →
    ((∀ pre post, ops = pre ++ post → DescendantsEnded (exec groveNext s pre)) ↔
      Meets groveNext LeavesNone s ops)
  | [], s, _, hquiet => by
    refine iff_of_true (fun pre post hops => ?_) trivial
    obtain ⟨rfl, -⟩ := append_eq_nil_iff.mp hops.symm
    exact hquiet.descendantsEnded
  | op :: ops, s, hgrown, hquiet => by
    constructor
    · intro h
      have hop : LeavesNone s op := by
        by_contra hop
        exact not_descendantsEnded hgrown hop (h [op] ops rfl)
      refine ⟨hop, (run_ended_iff ops _ (hgrown.next op) (hquiet.next hgrown hop)).mp ?_⟩
      intro pre post hops
      exact h (op :: pre) post (by rw [hops]; rfl)
    · rintro ⟨hop, hrest⟩ pre post hops
      cases pre with
      | nil => exact hquiet.descendantsEnded
      | cons op' pre =>
        cases hops
        exact (run_ended_iff _ _ (hgrown.next op) (hquiet.next hgrown hop)).mpr hrest pre post rfl

/-- **When the four routines end what was derived**, at every state of a run that plants the forest
and ends parts of it, and at every later time: exactly when each revocation of an installation is
made with no active token under a delegation grant below the tokens it ends, and each of a lineage
or an access token with no active token below.  A delegation grant's own revocation needs no
condition. -/
theorem descendants_ended_iff (db : TokenDb) (clock : Int) (ops : List GroveOp) :
    (∀ pre post, ops = pre ++ post → DescendantsEnded (exec groveNext (.bare db clock) pre)) ↔
      Meets groveNext LeavesNone (.bare db clock) ops :=
  run_ended_iff ops (.bare db clock) ⟨nodup_nil, fun _ ht => (nomatch ht)⟩
    ⟨fun _ ha => (nomatch ha), fun _ ha => (nomatch ha)⟩

/-- A member and a client, an app that is installed, and a grant to act for another member. -/
def appRoom : TokenDb where
  members := twoMembers
  installations := { rows := [{ id := ⟨1⟩ }] }
  delegationGrants :=
    { rows := [{ id := ⟨1⟩, workspaceId := ⟨1⟩, subjectId := ⟨2⟩, delegateId := ⟨1⟩,
                 capabilities := ["workspace:read"], expiresAt := seconds 3600 }] }

/-- The app's token, and what the app exchanges with it. -/
def appExchange : List GroveOp :=
  [.mint ⟨1⟩ { workspaceId := ⟨1⟩, memberId := ⟨1⟩, appInstallationId := some ⟨1⟩,
               tokenHash := "app", capabilities := ["workspace:read"] },
    .exchange .rest "app" ⟨⟨2⟩, "borrowed"⟩ { grantId := ⟨1⟩ }]

/-- **The installation is gone, the token it exchanged is not.** -/
theorem exchange_outlives_installation :
    ((exec groveNext (.bare appRoom 0) (appExchange ++ [.ending (.installation ⟨1⟩)])
      ).db.getActiveByHash "app" 0).toOption.isSome = false ∧
    ((exec groveNext (.bare appRoom 0) (appExchange ++ [.ending (.installation ⟨1⟩)])
      ).db.getActiveByHash "borrowed" 0).toOption.isSome = true ∧
    ¬DescendantsEnded
      (exec groveNext (.bare appRoom 0) (appExchange ++ [.ending (.installation ⟨1⟩)])) := by
  refine ⟨by decide, by decide, fun h => ?_⟩
  exact h ⟨1⟩ (by decide) _ (TokenDb.mem_subtree.mp (by decide)) "borrowed" 0 (by decide) rfl

end Maidan
