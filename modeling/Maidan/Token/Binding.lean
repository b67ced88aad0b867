/-
# Is a token obtained from an OAuth token still bound to its grant?

A token minted under an OAuth grant is good for one resource, and the column `oauth_grant_id` is
what says so: `resolve_bearer` refuses a token that has it.  The binding therefore has to be in the
row of every token obtained from such a one, by attenuation, by an exchange, by rotation, at any
remove.

It is not.  Of the five `INSERT`s only `mint_token_on` writes the column (`DerivedRow.unbound`,
`successorRow`), so the FIRST call an OAuth token makes sheds the binding, and what it gets is good
everywhere.  `oauth_binding_kept_iff` says that nothing else decides: over any run of mints,
refreshes, tool calls and rotations, the binding is kept exactly when no token under an OAuth grant
has got one of these calls through.

* §1 is the run, which remembers who was obtained from whom;
* §2 is which row a call adds;
* §3 is the run.
-/
import Maidan.Token.Tools

namespace Maidan

open Relational Table Run Digraph Relation

/-! ## 1. The run -/

/-- The store, and who was obtained from whom.  A rotation leaves no such link in the table. -/
structure Trail where
  db : TokenDb
  obtained : List (ApiTokenId × ApiTokenId) := []

inductive BindingOp
  | mint (token : ApiTokenId) (new : NewApiToken) (grant : OAuthGrantId)
  | mintPair (token : ApiTokenId) (new : NewApiToken) (grant : OAuthGrantId)
    (renewal : OAuthRefreshRow)
  | refresh (rotation : TokenDb.RefreshRotation) (now : Int)
  | attenuate (auth : AuthContext) (minted : Minted) (args : AttenuateArgs) (now : Int)
  | delegate (auth : AuthContext) (minted : Minted) (args : DelegateArgs) (now : Int)
  | rotate (auth : AuthContext) (minted : Minted) (now : Int)
  | adminRotate (auth : AuthContext) (token : ApiTokenId) (minted : Minted) (now : Int)

namespace BindingOp

/-- The token a call is made with, or of. -/
def source : BindingOp → Option ApiTokenId
  | .mint .. | .mintPair .. | .refresh .. => none
  | .attenuate auth .. | .delegate auth .. | .rotate auth .. => auth.tokenId
  | .adminRotate _ token .. => some token

/-- The id the new token gets. -/
def result : BindingOp → ApiTokenId
  | .mint token .. | .mintPair token .. => token
  | .refresh rotation .. => rotation.accessTokenId
  | .attenuate _ minted .. | .delegate _ minted .. | .rotate _ minted ..
  | .adminRotate _ _ minted .. => minted.token

/-- What the store becomes, where the call goes through. -/
def run (db : TokenDb) : BindingOp → Option TokenDb
  | .mint token new grant => (db.mintTokenOn token new grant).toOption
  | .mintPair token new grant renewal => (db.mintTokenPair token new grant renewal).toOption
  | .refresh rotation now => (db.rotateRefreshToken rotation now).toOption.map Prod.snd
  | .attenuate auth minted args now => (db.attenuateToken auth minted args now).toOption
  | .delegate auth minted args now => (db.delegateToken auth minted args now).toOption
  | .rotate auth minted now => (db.rotateToken auth minted now).toOption
  | .adminRotate auth token minted now => (db.rotateApiToken auth token minted now).toOption

end BindingOp

def bindingNext (s : Trail) (op : BindingOp) : Trail :=
  match op.run s.db with
  | some db => ⟨db, op.source.toList.map (fun p => (p, op.result)) ++ s.obtained⟩
  | none => s

/-- **The binding is kept.**  What was obtained, at any remove, from a token under the grant `g` is
under `g`, and only the resource's own resolver takes it. -/
def StaysBound (s : Trail) : Prop :=
  ∀ (g : OAuthGrantId) (root t : ApiTokenRow), root ∈ s.db.tokens.rows →
    root.oauthGrantId = some g → t ∈ s.db.tokens.rows →
    TransGen (Edge s.obtained) root.id t.id →
    t.oauthGrantId = some g ∧
      ∀ hash now auth, s.db.resolveBearer hash now = .ok auth → auth.tokenId ≠ some t.id

/-- Where the call goes through, its token is under no OAuth grant. -/
def NoBoundSource (s : Trail) (op : BindingOp) : Prop :=
  (op.run s.db).isSome → ∀ p t, op.source = some p → s.db.tokens.get? p = some t →
    t.oauthGrantId = none

/-! ## 2. The step -/

/-- What a call leaves: every row, and where it is made with a token, that token's row and beside
it a new one under no grant. -/
structure Outcome (db db' : TokenDb) (source : Option ApiTokenId) (result : ApiTokenId) : Prop where
  later : db.Later db'
  from_row : ∀ p, source = some p → ∃ t, db.tokens.get? p = some t
  unbound : ∀ p, source = some p → ∃ t, db'.tokens.get? result = some t ∧ t.oauthGrantId = none

variable {db db' : TokenDb} {op : BindingOp} {s : Trail}

theorem Outcome.of_mint (h : db.Later db') : Outcome db db' none result :=
  ⟨h, fun _ hp => (nomatch hp), fun _ hp => (nomatch hp)⟩

theorem Outcome.of_derived (h : db.insertToken row = .ok db')
    (hrow : TokenDb.DerivedRow auth minted row) : Outcome db db' auth.tokenId minted.token := by
  refine ⟨TokenDb.later_insertToken h, fun p hp => ?_, fun p _ => ⟨row, ?_, hrow.unbound⟩⟩
  · obtain ⟨tokens, -, href, -⟩ := TokenDb.insertToken_eq_ok h
    simp only [TokenDb.references, Bool.and_eq_true, hrow.parent, hp, Option.all_some] at href
    exact isSome_iff_exists.mp href.1.1.2
  · rw [(TokenDb.get?_of_insertToken h).2, if_pos hrow.id]

theorem Outcome.of_rotation {hash : String}
    (h : db.rotateAudited token successor hash now = .ok db') :
    Outcome db db' (some token) successor := by
  obtain ⟨old, hold, -, hfree, hread⟩ := TokenDb.get?_of_rotateAudited h
  refine ⟨TokenDb.later_rotateAudited h, fun p hp => ?_, fun p _ => ?_⟩
  · cases hp
    exact ⟨old, hold⟩
  · exact ⟨TokenDb.afterRotation token successor now (TokenDb.successorRow old successor hash),
      by rw [hread successor, if_pos rfl]; rfl, rfl⟩

/-- **Every call that goes through** has such an outcome. -/
theorem BindingOp.outcome (h : op.run db = some db') : Outcome db db' op.source op.result := by
  cases op with
  | mint =>
    exact .of_mint (TokenDb.later_insertToken (toOption_eq_some.mp h))
  | mintPair =>
    have hrun := toOption_eq_some.mp h
    unfold TokenDb.mintTokenPair at hrun
    split at hrun
    · cases hrun
    obtain ⟨mid, hmid, hrefresh⟩ := bind_ok hrun
    exact .of_mint ((TokenDb.later_insertToken hmid).trans
      (.of_tokens (TokenDb.insertRefreshOn_eq_ok hrefresh)))
  | refresh =>
    obtain ⟨⟨outcome, db1⟩, hrun, rfl⟩ := map_eq_some_iff.mp h
    exact .of_mint (TokenDb.later_rotateRefreshToken (toOption_eq_some.mp hrun))
  | attenuate =>
    obtain ⟨row, hins, hrow, -⟩ := TokenDb.attenuateWithin_eq_ok (toOption_eq_some.mp h)
    exact .of_derived hins hrow
  | delegate =>
    obtain ⟨row, hins, hrow, -⟩ := TokenDb.delegateToken_eq_ok (toOption_eq_some.mp h)
    exact .of_derived hins hrow
  | rotate =>
    obtain ⟨token, htoken, hrun⟩ := TokenDb.rotateToken_eq_ok (toOption_eq_some.mp h)
    have hout := Outcome.of_rotation hrun
    rwa [← htoken] at hout
  | adminRotate =>
    exact .of_rotation (TokenDb.rotateApiToken_eq_ok (toOption_eq_some.mp h))

/-! ## 3. The run -/

theorem bindingNext_cases (s : Trail) (op : BindingOp) :
    (op.run s.db = none ∧ bindingNext s op = s) ∨
      ∃ db, op.run s.db = some db ∧ Outcome s.db db op.source op.result ∧ bindingNext s op =
        ⟨db, op.source.toList.map (fun p => (p, op.result)) ++ s.obtained⟩ := by
  unfold bindingNext
  cases hrun : op.run s.db with
  | none => exact .inl ⟨rfl, rfl⟩
  | some db => exact .inr ⟨db, rfl, BindingOp.outcome hrun, rfl⟩

/-- **Nothing is taken back.**  Over every run of these calls no token's row is deleted, no revocation
is undone, and of a row nothing changes but its parent and its revocation. -/
theorem token_rows_kept (s : Trail) (ops : List BindingOp) :
    s.db.Later (exec bindingNext s ops).db := by
  induction ops generalizing s with
  | nil => exact .of_tokens rfl
  | cons op ops ih =>
    have hrest := ih (bindingNext s op)
    rw [exec_cons]
    rcases bindingNext_cases s op with ⟨-, hs⟩ | ⟨db, -, hout, hs⟩
    · rwa [hs] at hrest ⊢
    · rw [hs] at hrest ⊢
      exact hout.later.trans hrest

/-- No token under an OAuth grant has obtained anything. -/
def NothingObtained (s : Trail) : Prop :=
  ∀ p c, (p, c) ∈ s.obtained → ∃ t, s.db.tokens.get? p = some t ∧ t.oauthGrantId = none

theorem NothingObtained.next (h : NothingObtained s) (hop : NoBoundSource s op) :
    NothingObtained (bindingNext s op) := by
  rcases bindingNext_cases s op with ⟨-, hs⟩ | ⟨db, hrun, hout, hs⟩
  · rw [hs]
    exact h
  rw [hs]
  intro p c hpc
  have hsource : ∃ t, s.db.tokens.get? p = some t ∧ t.oauthGrantId = none := by
    rcases List.mem_append.mp hpc with hnew | hold
    · obtain ⟨q, hq, heq⟩ := List.mem_map.mp hnew
      cases heq
      have hp := Option.mem_toList.mp hq
      obtain ⟨t, ht⟩ := hout.from_row p hp
      exact ⟨t, ht, hop (by rw [hrun]; rfl) p t hp ht⟩
    · exact h p c hold
  obtain ⟨t, ht, hg⟩ := hsource
  obtain ⟨t', ht', hlater⟩ := hout.later p t ht
  exact ⟨t', ht', by rw [hlater.1]; exact hg⟩

theorem NothingObtained.staysBound (h : NothingObtained s) : StaysBound s := by
  intro g root t hroot hg _ hpath
  obtain ⟨c, hedge, -⟩ := TransGen.head'_iff.mp hpath
  obtain ⟨r, hr, hnone⟩ := h root.id c hedge
  rw [get?_of_mem hroot] at hr
  cases hr
  rw [hg] at hnone
  cases hnone

/-- A token under a grant has obtained one that is not. -/
def Shed (s : Trail) : Prop :=
  ∃ p c root t, (p, c) ∈ s.obtained ∧ s.db.tokens.get? p = some root ∧ root.oauthGrantId ≠ none ∧
    s.db.tokens.get? c = some t ∧ t.oauthGrantId = none

/-- **What is shed stays shed**: no statement writes the column of a row that is there. -/
theorem Shed.next (op : BindingOp) (h : Shed s) : Shed (bindingNext s op) := by
  rcases bindingNext_cases s op with ⟨-, hs⟩ | ⟨db, -, hout, hs⟩
  · rw [hs]
    exact h
  rw [hs]
  obtain ⟨p, c, root, t, hpc, hroot, hbound, ht, hnone⟩ := h
  obtain ⟨root', hroot', hlater⟩ := hout.later p root hroot
  obtain ⟨t', ht', hlater'⟩ := hout.later c t ht
  exact ⟨p, c, root', t', List.mem_append_right _ hpc, hroot', by rw [hlater.1]; exact hbound, ht',
    by rw [hlater'.1]; exact hnone⟩

theorem Shed.not_staysBound (h : Shed s) : ¬StaysBound s := by
  intro hbound
  obtain ⟨p, c, root, t, hpc, hroot, hgrant, ht, hnone⟩ := h
  obtain ⟨g, hg⟩ := Option.ne_none_iff_exists'.mp hgrant
  have hedge : Edge s.obtained root.id t.id := by
    rw [key_of_get? hroot, key_of_get? ht]
    exact hpc
  have hkept := (hbound g root t (mem_of_get? hroot) hg (mem_of_get? ht) (.single hedge)).1
  rw [hnone] at hkept
  cases hkept

theorem shed_of_bound (h : ¬NoBoundSource s op) : Shed (bindingNext s op) := by
  unfold NoBoundSource at h
  push Not at h
  obtain ⟨hrun, p, root, hp, hroot, hgrant⟩ := h
  rcases bindingNext_cases s op with ⟨hnone, -⟩ | ⟨db, -, hout, hs⟩
  · rw [hnone] at hrun
    cases hrun
  · obtain ⟨root', hroot', hlater⟩ := hout.later p root hroot
    obtain ⟨t, ht, hnone⟩ := hout.unbound p hp
    rw [hs]
    refine ⟨p, op.result, root', t, List.mem_append_left _ ?_, hroot', ?_, ht, hnone⟩
    rotate_left
    · rw [hlater.1]
      exact hgrant
    exact List.mem_map.mpr ⟨p, Option.mem_toList.mpr hp, rfl⟩

theorem meets_of_staysBound : ∀ (ops : List BindingOp) (s : Trail),
    StaysBound (exec bindingNext s ops) → Meets bindingNext NoBoundSource s ops
  | [], _, _ => trivial
  | op :: ops, s, h => by
    refine ⟨?_, meets_of_staysBound ops (bindingNext s op) h⟩
    by_contra hop
    have hshed : Shed (exec bindingNext (bindingNext s op) ops) :=
      exec_inv (fun _ a hs => Shed.next a hs) ops (shed_of_bound hop)
    exact hshed.not_staysBound h

/-- **When the binding is kept.**  Over every run of OAuth mints and refreshes, tool calls by any
holder and admin rotations, from any store: exactly when no attenuation, exchange or rotation went
through with a token that is under an OAuth grant. -/
theorem oauth_binding_kept_iff (db : TokenDb) (ops : List BindingOp) :
    StaysBound (exec bindingNext { db } ops) ↔ Meets bindingNext NoBoundSource { db } ops := by
  constructor
  · exact meets_of_staysBound ops { db }
  · intro h
    have hstart : NothingObtained { db } := fun p c hpc => nomatch hpc
    have hend : NothingObtained (exec bindingNext { db } ops) :=
      exec_inv_of_meets (fun _ _ => NothingObtained.next) ops _ hstart h
    exact hend.staysBound

/-- A member who has let a client in, under one OAuth grant. -/
def oauthRoom : TokenDb where
  members := oneMember
  oauthGrants :=
    { rows := [{ id := ⟨1⟩, clientId := "client", memberId := ⟨1⟩, workspaceId := ⟨1⟩,
                 scope := ["workspace:read"], lineageId := ⟨1⟩ }] }

/-- The client's access token. -/
def oauthMint : BindingOp :=
  .mint ⟨1⟩ { workspaceId := ⟨1⟩, memberId := ⟨1⟩, tokenHash := "access",
              capabilities := ["workspace:read"] } ⟨1⟩

/-- What the MCP resource takes the client for. -/
def oauthHolder : AuthContext := .fromToken ⟨1⟩ ⟨1⟩ ⟨1⟩ none ["workspace:read"]

/-- The client asks for all it has, and no less. -/
def reissue : BindingOp := .attenuate oauthHolder ⟨⟨2⟩, "child"⟩ ⟨["workspace:read"], none⟩ 0

/-- **The binding shed in one call.**  The client attenuates its access token to what it already
holds; REST, which refuses the one, takes the other. -/
theorem reissue_sheds_binding :
    ((exec bindingNext { db := oauthRoom } [oauthMint]).db.resolveResourceBearer "access"
        0).toOption = some oauthHolder ∧
      ((exec bindingNext { db := oauthRoom } [oauthMint, reissue]).db.resolveBearer "access"
        0).toOption = none ∧
      (((exec bindingNext { db := oauthRoom } [oauthMint, reissue]).db.resolveBearer "child"
        0).toOption.map AuthContext.tokenId) = some (some ⟨2⟩) ∧
      ¬StaysBound (exec bindingNext { db := oauthRoom } [oauthMint, reissue]) := by
  refine ⟨by decide, by decide, by decide, Shed.not_staysBound ?_⟩
  exact ⟨⟨1⟩, ⟨2⟩, _, _, by decide, rfl, by decide, rfl, rfl⟩

end Maidan
