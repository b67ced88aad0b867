/-
# Does a revocation end the whole family?

`revoke_on` revokes a token and, in one traversal of `parent_token_id`, every token derived from it.
It looks once, when it runs; nothing looks again when a token is used.  So it ends the family only
if no child can be added to a token that is gone.  The comment on `revoke` argues just that:
"attenuation requires a live parent".

The parent is live when the request is AUTHENTICATED.  The insert is a transaction of its own,
later, and of the two inserts only the exchange looks at its parent again (`delegateToken_eq_ok`).
An attenuation that was authenticated before the revocation and inserts after it leaves a live child
of a dead token, for good; and one that inserts after its parent was rotated leaves a child which
hangs under the token that was replaced, where a revocation of the successor does not find it.

`revoked_family_ended` is what the argument does give, for every interleaving: if each attenuation
finds its parent still unrevoked where it inserts, a revocation ends the family.

* §1 is the steps, with a record of who replaced and who derived whom;
* §2 is the family of a token, over that record;
* §3 is the invariant, `Kin`: the links in the table follow the record as far as tokens live;
* §4 keeps it over each of the three writes, §5 concludes.

The invariant asks for a live parent at each live token and no more; it does not say that the links
have no cycle, and needs no such thing.
-/
import Maidan.Token.Tools

namespace Maidan

open Relational Table Run Digraph Relation List

/-! ## 1. The steps -/

/-- A request that has been authenticated and has not finished. -/
structure Request where
  number : Nat
  surface : Surface
  auth : AuthContext

/-- The store, the requests in flight, and a record of what has happened: who was replaced by whom,
who was derived from whom, and of which tokens a revocation committed. -/
structure TokenDesk where
  db : TokenDb
  inFlight : List Request := []
  replaced : List (ApiTokenId × ApiTokenId) := []
  derived : List (ApiTokenId × ApiTokenId) := []
  ended : List ApiTokenId := []

inductive FamilyOp
  | mint (token : ApiTokenId) (new : NewApiToken)
  | mintOAuth (token : ApiTokenId) (new : NewApiToken) (grant : OAuthGrantId)
  | authenticate (number : Nat) (surface : Surface) (hash : String) (now : Int)
  | attenuate (number : Nat) (minted : Minted) (args : AttenuateArgs) (now : Int)
  | delegate (number : Nat) (minted : Minted) (args : DelegateArgs) (now : Int)
  | rotate (token : ApiTokenId) (minted : Minted) (now : Int)
  | revoke (token : ApiTokenId) (now : Int)

namespace TokenDesk

def request (s : TokenDesk) (number : Nat) : Option Request :=
  s.inFlight.find? fun r => r.number == number

/-- The request is answered, whatever the answer. -/
def finish (s : TokenDesk) (number : Nat) : TokenDesk :=
  { s with inFlight := s.inFlight.filter fun r => r.number != number }

/-- The insert of a request. -/
def derive (s : TokenDesk) (auth : AuthContext) (minted : Minted)
    (answer : Except TokenError TokenDb) : TokenDesk :=
  match answer with
  | .ok db =>
    { s with db, derived := auth.tokenId.toList.map (fun p => (p, minted.token)) ++ s.derived }
  | .error _ => s

end TokenDesk

def familyNext (s : TokenDesk) : FamilyOp → TokenDesk
  | .mint token new => { s with db := settle s.db (s.db.createOn token new) }
  | .mintOAuth token new grant => { s with db := settle s.db (s.db.mintTokenOn token new grant) }
  | .authenticate number surface hash now =>
    match surface.resolve s.db hash now with
    | .ok auth => { s with inFlight := ⟨number, surface, auth⟩ :: s.inFlight }
    | .error _ => s
  | .attenuate number minted args now =>
    match s.request number with
    | some r => (s.finish number).derive r.auth minted
        (r.surface.attenuate s.db r.auth minted args now)
    | none => s
  | .delegate number minted args now =>
    match s.request number with
    | some r => (s.finish number).derive r.auth minted (s.db.delegateToken r.auth minted args now)
    | none => s
  | .rotate token minted now =>
    match s.db.rotateAudited token minted.token minted.hash now with
    | .ok db => { s with db, replaced := (token, minted.token) :: s.replaced }
    | .error _ => s
  | .revoke token now =>
    match s.db.revokeOn token now with
    | .ok db => { s with db, ended := token :: s.ended }
    | .error _ => s

/-! ## 2. The family -/

namespace TokenDesk

/-- `a`, or what replaced it, at any remove. -/
def Line (s : TokenDesk) : ApiTokenId → ApiTokenId → Prop := ReflTransGen (Edge s.replaced)

/-- **Derived from `a`**: from `a` or a token that replaced it, directly or through further
derivations and rotations. -/
inductive Family (s : TokenDesk) (a : ApiTokenId) : ApiTokenId → Prop
  | first {p c : ApiTokenId} : s.Line a p → Edge s.derived p c → Family s a c
  | further {p c : ApiTokenId} : Family s a p → Edge s.derived p c → Family s a c
  | replaced {p c : ApiTokenId} : Family s a p → Edge s.replaced p c → Family s a c

end TokenDesk

/-- **The family has ended.**  Once a revocation of `a`, or of a token that replaced it, has
committed and every request has finished, no token of its family is found. -/
def FamilyEnded (s : TokenDesk) : Prop :=
  s.inFlight = [] → ∀ a e, s.Line a e → e ∈ s.ended → ∀ t, s.Family a t.id →
    ∀ hash now, s.db.getActiveByHash hash now ≠ .ok t

/-- An attenuation finds the token it was authenticated with unrevoked, where it inserts. -/
def ParentStands (s : TokenDesk) : FamilyOp → Prop
  | .attenuate number .. =>
    ∀ r, s.request number = some r → ∀ p, r.auth.tokenId = some p → s.db.live p = true
  | _ => True

/-! ## 3. The invariant -/

/-- A row that is revoked. -/
def TokenDb.Dead (db : TokenDb) (k : ApiTokenId) : Prop :=
  ∃ t, db.tokens.get? k = some t ∧ t.revokedAt ≠ none

variable {db db' : TokenDb} {k p y a token successor : ApiTokenId} {row : ApiTokenRow}
  {hash : String} {now : Int}

theorem TokenDb.Later.dead (h : db.Later db') (hk : db.Dead k) : db'.Dead k := by
  obtain ⟨t, ht, hr⟩ := hk
  obtain ⟨t', ht', hc⟩ := h k t ht
  exact ⟨t', ht', fun hnone => hr (hc.2 hnone)⟩

theorem TokenDb.Dead.not_live (h : db.Dead k) : db.live k ≠ true := by
  intro hlive
  obtain ⟨t, ht, hr⟩ := h
  obtain ⟨t', ht', hnone⟩ := TokenDb.live_iff.mp hlive
  rw [ht] at ht'
  cases ht'
  exact hr hnone

theorem TokenDb.live_of_insertToken (h : db.insertToken row = .ok db') (hlive : db.live k = true) :
    db'.live k = true := by
  obtain ⟨hfree, hread⟩ := TokenDb.get?_of_insertToken h
  obtain ⟨t, ht, hnone⟩ := TokenDb.live_iff.mp hlive
  exact TokenDb.live_iff.mpr ⟨t, by rw [hread k, if_neg (TokenDb.ne_of_free hfree ht), ht], hnone⟩

/-- The row hangs under a live token of the line of `p`. -/
def TokenDesk.HangsUnder (s : TokenDesk) (p : ApiTokenId) (t : ApiTokenRow) : Prop :=
  ∃ q, t.parentTokenId = some q ∧ s.Line p q ∧ s.db.live q = true

/-- **The links follow the record.**  A token that was replaced is revoked, and replaced once; a
token of which a revocation committed is not replaced; and a live token, derived from `p` or a
replacement of one that was, hangs under the live token of the line of `p`. -/
structure Kin (s : TokenDesk) : Prop where
  known : ∀ a b, Edge s.replaced a b ∨ Edge s.derived a b → ∃ t, s.db.tokens.get? b = some t
  gone : ∀ a b, Edge s.replaced a b → s.db.Dead a
  once : Relator.RightUnique (Edge s.replaced)
  settled : ∀ e ∈ s.ended, s.db.Dead e ∧ ∀ b, ¬Edge s.replaced e b
  linked : ∀ p c y t, Edge s.derived p c → s.Line c y → s.db.tokens.get? y = some t →
    t.revokedAt = none → s.HangsUnder p t

namespace Kin

variable {s : TokenDesk}

theorem row_of_line (h : Kin s) (hd : Edge s.derived p c) (hl : s.Line c y) :
    ∃ t, s.db.tokens.get? y = some t := by
  rcases ReflTransGen.cases_tail hl with rfl | ⟨z, -, hz⟩
  · exact h.known p y (.inr hd)
  · exact h.known z y (.inl hz)

theorem known_later (h : Kin s) (hlater : s.db.Later db)
    (hab : Edge s.replaced a b ∨ Edge s.derived a b) : ∃ t, db.tokens.get? b = some t := by
  obtain ⟨t, ht⟩ := h.known a b hab
  obtain ⟨t', ht', -⟩ := hlater b t ht
  exact ⟨t', ht'⟩

theorem of_same (h : Kin s) (hdb : s'.db = s.db) (hrep : s'.replaced = s.replaced)
    (hder : s'.derived = s.derived) (hend : s'.ended = s.ended) : Kin s' := by
  obtain ⟨db', inFlight', replaced', derived', ended'⟩ := s'
  cases hdb
  cases hrep
  cases hder
  cases hend
  exact ⟨h.known, h.gone, h.once, h.settled, h.linked⟩

/-! ## 4. The writes -/

/-- **A mint** is under nothing. -/
theorem mint (h : Kin s) (hins : s.db.insertToken row = .ok db) : Kin { s with db } := by
  have hlater := TokenDb.later_insertToken hins
  obtain ⟨hfree, hread⟩ := TokenDb.get?_of_insertToken hins
  refine ⟨fun a b hab => h.known_later hlater hab,
    fun a b hab => hlater.dead (h.gone a b hab), h.once,
    fun e he => ⟨hlater.dead (h.settled e he).1, (h.settled e he).2⟩,
    fun p c y t hd hl ht hnone => ?_⟩
  obtain ⟨t0, ht0⟩ := h.row_of_line hd hl
  have hold := hread y
  rw [if_neg (TokenDb.ne_of_free hfree ht0)] at hold
  obtain ⟨q, hq, hline, hlive⟩ := h.linked p c y t hd hl (hold ▸ ht) hnone
  exact ⟨q, hq, hline, TokenDb.live_of_insertToken hins hlive⟩

/-- **A derived token** hangs under a parent that is live. -/
theorem derived (h : Kin s) (hins : s.db.insertToken row = .ok db)
    (hparent : row.parentTokenId = some p) (hlive : s.db.live p = true) :
    Kin { s with db, derived := (p, row.id) :: s.derived } := by
  have hbase := h.mint hins
  obtain ⟨hfree, hread⟩ := TokenDb.get?_of_insertToken hins
  have hrow : db.tokens.get? row.id = some row := by rw [hread, if_pos rfl]
  refine ⟨fun a b hab => ?_, hbase.gone, hbase.once, hbase.settled,
    fun a c y t hd hl ht hnone => ?_⟩
  · rcases hab with hab | hab
    · exact hbase.known a b (.inl hab)
    · rcases mem_cons.mp hab with hnew | hold
      · cases hnew
        exact ⟨row, hrow⟩
      · exact hbase.known a b (.inr hold)
  · rcases mem_cons.mp hd with hnew | hold
    · cases hnew
      -- Nothing has replaced a token that was not there.
      rcases ReflTransGen.cases_head hl with rfl | ⟨z, hz, -⟩
      · rw [hrow] at ht
        cases ht
        exact ⟨p, hparent, .refl, TokenDb.live_of_insertToken hins hlive⟩
      · obtain ⟨t0, ht0, -⟩ := h.gone _ _ hz
        rw [hfree] at ht0
        cases ht0
    · exact hbase.linked a c y t hold hl ht hnone

end Kin

theorem line_cons (hab : b ≠ a) (hb : ∀ z, ¬Edge E b z) (h : ReflTransGen (Edge ((a, b) :: E)) c y) :
    ReflTransGen (Edge E) c y ∨ (ReflTransGen (Edge E) c a ∧ y = b) := by
  rcases reflTransGen_iff_eq_or_transGen.mp h with rfl | hpath
  · exact .inl .refl
  · have hedges : ∀ u v, Edge ((a, b) :: E) u v → Edge E u v ∨ (u = a ∧ v = b) := by
      intro u v huv
      rcases mem_cons.mp huv with heq | huv
      · cases heq
        exact .inr ⟨rfl, rfl⟩
      · exact .inl huv
    exact (path_leaf hab.symm hb (hpath.lift id hedges)).imp_left TransGen.to_reflTransGen

/-- **Who lives after a rotation**: the successor, and whoever lived but for the old token. -/
theorem TokenDb.live_of_rotateAudited (h : db.rotateAudited token successor hash now = .ok db') :
    db'.live successor = true ∧ ∀ q, q ≠ token → db.live q = true → db'.live q = true := by
  obtain ⟨old, hold, -, hfree, hread⟩ := TokenDb.get?_of_rotateAudited h
  refine ⟨?_, fun q hq hlive => ?_⟩
  · refine TokenDb.live_iff.mpr ⟨_, by rw [hread, if_pos rfl]; rfl, ?_⟩
    exact if_neg (TokenDb.ne_of_free hfree hold)
  · obtain ⟨t, ht, hnone⟩ := TokenDb.live_iff.mp hlive
    have hid : t.id = q := key_of_get? ht
    refine TokenDb.live_iff.mpr
      ⟨_, by rw [hread q, if_neg (TokenDb.ne_of_free hfree ht), ht]; rfl, ?_⟩
    exact (if_neg (by rw [hid]; exact hq)).trans hnone

/-- **What hangs under a live token** hangs under one after a rotation: under the same, or under its
successor. -/
theorem TokenDesk.HangsUnder.rotated {s : TokenDesk}
    (hrun : s.db.rotateAudited token successor hash now = .ok db) (h : s.HangsUnder p t) :
    TokenDesk.HangsUnder { s with db, replaced := (token, successor) :: s.replaced } p
      (TokenDb.afterRotation token successor now t) := by
  obtain ⟨hsuccessor, hothers⟩ := TokenDb.live_of_rotateAudited hrun
  obtain ⟨q, hq, hline, hlive⟩ := h
  have hline' : ReflTransGen (Edge ((token, successor) :: s.replaced)) p q :=
    ReflTransGen.mono (fun _ _ hab => mem_cons_of_mem _ hab) _ _ hline
  by_cases hqt : q = token
  · cases hqt
    exact ⟨successor, if_pos hq, hline'.tail mem_cons_self, hsuccessor⟩
  · have hother : t.parentTokenId ≠ some token := by
      rw [hq]
      exact fun heq => hqt (Option.some.inj heq)
    exact ⟨q, (if_neg hother).trans hq, hline', hothers q hqt hlive⟩

namespace Kin

variable {s : TokenDesk}

/-- **A rotation** moves the children to the successor: what hung under the old token hangs under
the new one, in the same line. -/
theorem rotated (h : Kin s) (hrun : s.db.rotateAudited token successor hash now = .ok db) :
    Kin { s with db, replaced := (token, successor) :: s.replaced } := by
  have hlater := TokenDb.later_rotateAudited hrun
  obtain ⟨old, hold, hlive, hfree, hread⟩ := TokenDb.get?_of_rotateAudited hrun
  have hne : successor ≠ token := TokenDb.ne_of_free hfree hold
  have htoken : s.db.live token = true := TokenDb.live_iff.mpr ⟨old, hold, hlive⟩
  have hlast : ∀ b, ¬Edge s.replaced token b := fun b hb => (h.gone token b hb).not_live htoken
  have hnew : ∀ b, ¬Edge s.replaced successor b := by
    intro b hb
    obtain ⟨t, ht, -⟩ := h.gone successor b hb
    exact TokenDb.ne_of_free hfree ht rfl
  refine ⟨fun a b hab => ?_, fun a b hab => ?_, fun a b c hab hac => ?_, fun e he => ?_,
    fun p c y t hd hl ht hnone => ?_⟩
  · rcases hab with hab | hab
    · rcases mem_cons.mp hab with heq | hab
      · cases heq
        obtain ⟨t, ht, -⟩ := TokenDb.live_iff.mp (TokenDb.live_of_rotateAudited hrun).1
        exact ⟨t, ht⟩
      · exact h.known_later hlater (.inl hab)
    · exact h.known_later hlater (.inr hab)
  · rcases mem_cons.mp hab with heq | hab
    · cases heq
      have hid : old.id = token := key_of_get? hold
      refine ⟨_, by rw [hread, if_neg hne, hold]; rfl, ?_⟩
      simp [TokenDb.afterRotation, hid]
    · exact hlater.dead (h.gone a b hab)
  · rcases mem_cons.mp hab with heq | hab <;> rcases mem_cons.mp hac with heq' | hac
    · cases heq
      cases heq'
      rfl
    · cases heq
      exact absurd hac (hlast c)
    · cases heq'
      exact absurd hab (hlast b)
    · exact h.once hab hac
  · refine ⟨hlater.dead (h.settled e he).1, fun b hb => ?_⟩
    rcases mem_cons.mp hb with heq | hb
    · cases heq
      exact (h.settled token he).1.not_live htoken
    · exact (h.settled e he).2 b hb
  · rcases line_cons hne hnew hl with hline | ⟨hline, rfl⟩
    · obtain ⟨t0, ht0⟩ := h.row_of_line hd hline
      rw [hread y, if_neg (TokenDb.ne_of_free hfree ht0), ht0] at ht
      cases ht
      exact (h.linked p c y t0 hd hline ht0
        ((TokenDb.continues_afterRotation ..).2 hnone)).rotated hrun
    · rw [hread y, if_pos rfl] at ht
      cases ht
      -- The successor has the old token's link.
      obtain ⟨q, hq, hpq⟩ := h.linked p c token old hd hline hold hlive
      exact TokenDesk.HangsUnder.rotated hrun ⟨q, hq, hpq⟩

/-- **A revocation** reaches a token wherever it reaches the parent, so what lives still hangs
under something live. -/
theorem revoked (h : Kin s) (hrun : s.db.revokeOn token now = .ok db) :
    Kin { s with db, ended := token :: s.ended } := by
  unfold TokenDb.revokeOn at hrun
  split at hrun
  · rename_i hlive
    cases hrun
    have hlater := TokenDb.later_revokeTokens s.db
      (fun t => t.id == token || (s.db.subtree token).contains t.id) now
    refine ⟨fun a b hab => h.known_later hlater hab,
      fun a b hab => hlater.dead (h.gone a b hab), h.once, fun e he => ?_,
      fun p c y t hd hl ht hnone => ?_⟩
    · rcases mem_cons.mp he with rfl | he
      · obtain ⟨t, ht, hnone⟩ := TokenDb.live_iff.mp hlive
        have hid : t.id = e := key_of_get? ht
        refine ⟨⟨_, by rw [TokenDb.get?_revokeTokens, ht]; rfl, ?_⟩, fun b hb => ?_⟩
        · rw [Ne, TokenDb.revokedAt_afterRevoke]
          simp [hid]
        · exact (h.gone e b hb).not_live hlive
      · exact ⟨hlater.dead (h.settled e he).1, (h.settled e he).2⟩
    · obtain ⟨t0, ht0⟩ := h.row_of_line hd hl
      rw [TokenDb.get?_revokeTokens, ht0] at ht
      cases ht
      obtain ⟨hout, hnone0⟩ := (TokenDb.revokedAt_afterRevoke ..).mp hnone
      obtain ⟨q, hq, hline, hqlive⟩ := h.linked p c y t0 hd hl ht0 hnone0
      obtain ⟨tq, htq, hqnone⟩ := TokenDb.live_iff.mp hqlive
      refine ⟨q, by rw [TokenDb.afterRevoke_eq]; exact hq, hline, TokenDb.live_iff.mpr ⟨_,
        by rw [TokenDb.get?_revokeTokens, htq]; rfl, (TokenDb.revokedAt_afterRevoke ..).mpr
          ⟨?_, hqnone⟩⟩⟩
      -- Had the parent been reached, so had the child.
      have hid : t0.id = y := key_of_get? ht0
      have hidq : tq.id = q := key_of_get? htq
      have hedge : Edge s.db.childEdges q y := TokenDb.mem_childEdges.mpr ⟨t0, ht0, hq⟩
      rw [hid] at hout
      rw [hidq]
      by_contra hreached
      have hqin : q = token ∨ s.db.Descends token q :=
        or_iff_not_imp_left.mpr (by simpa [TokenDb.mem_subtree] using hreached)
      have hyin : s.db.Descends token y := by
        rcases hqin with rfl | hdesc
        · exact .single hedge
        · exact hdesc.tail hedge
      have hmem := TokenDb.mem_subtree.mpr hyin
      simp [hmem] at hout
  · cases hrun

/-! ## 5. The run -/

theorem derive (h : Kin s) (hins : s.db.insertToken row = .ok db)
    (hrow : TokenDb.DerivedRow auth minted row)
    (hlive : ∀ p, auth.tokenId = some p → s.db.live p = true) (number : Nat) :
    Kin ((s.finish number).derive auth minted (.ok db)) := by
  cases hp : auth.tokenId with
  | none =>
    refine (h.mint hins).of_same rfl rfl ?_ rfl
    simp [TokenDesk.derive, TokenDesk.finish, hp]
  | some p =>
    refine (h.derived hins (hrow.parent.trans hp) (hlive p hp)).of_same rfl rfl ?_ rfl
    simp [TokenDesk.derive, TokenDesk.finish, hp, hrow.id]

/-- **One step keeps it**, where an attenuation finds its parent standing. -/
theorem next (h : Kin s) (hop : ParentStands s op) : Kin (familyNext s op) := by
  cases op with
  | mint token new =>
    cases hrun : s.db.createOn token new with
    | error => exact h.of_same (by simp [familyNext, hrun, settle]) rfl rfl rfl
    | ok => exact (h.mint hrun).of_same (by simp [familyNext, hrun, settle]) rfl rfl rfl
  | mintOAuth token new grant =>
    cases hrun : s.db.mintTokenOn token new grant with
    | error => exact h.of_same (by simp [familyNext, hrun, settle]) rfl rfl rfl
    | ok => exact (h.mint hrun).of_same (by simp [familyNext, hrun, settle]) rfl rfl rfl
  | authenticate =>
    simp only [familyNext]
    split
    · exact h.of_same rfl rfl rfl rfl
    · exact h
  | attenuate number minted args now =>
    simp only [familyNext]
    split
    · rename_i r hr
      cases hrun : r.surface.attenuate s.db r.auth minted args now with
      | error => exact h.of_same rfl rfl rfl rfl
      | ok =>
        obtain ⟨row, hins, hrow, -⟩ := Surface.attenuate_eq_ok hrun
        exact h.derive hins hrow (hop r hr) number
    · exact h
  | delegate number minted args now =>
    simp only [familyNext]
    split
    · rename_i r hr
      cases hrun : s.db.delegateToken r.auth minted args now with
      | error => exact h.of_same rfl rfl rfl rfl
      | ok =>
        obtain ⟨row, hins, hrow, -, -, hlive⟩ := TokenDb.delegateToken_eq_ok hrun
        exact h.derive hins hrow hlive number
    · exact h
  | rotate =>
    simp only [familyNext]
    split
    · rename_i db hrun
      exact h.rotated hrun
    · exact h
  | revoke =>
    simp only [familyNext]
    split
    · rename_i db hrun
      exact h.revoked hrun
    · exact h

/-- **A live token of the family** keeps the line of its origin alive. -/
theorem line_lives (h : Kin s) (hfam : s.Family a y) (hyz : s.Line y z) (hz : s.db.live z = true) :
    ∃ q, s.Line a q ∧ s.db.live q = true := by
  induction hfam generalizing z with
  | first hline hd =>
    obtain ⟨t, ht, hnone⟩ := TokenDb.live_iff.mp hz
    obtain ⟨q, -, hpq, hq⟩ := h.linked _ _ z t hd hyz ht hnone
    exact ⟨q, hline.trans hpq, hq⟩
  | further _ hd ih =>
    obtain ⟨t, ht, hnone⟩ := TokenDb.live_iff.mp hz
    obtain ⟨q, -, hpq, hq⟩ := h.linked _ _ z t hd hyz ht hnone
    exact ih hpq hq
  | replaced _ hr ih => exact ih (ReflTransGen.head hr hyz) hz

theorem familyEnded (h : Kin s) : FamilyEnded s := by
  intro _ a e hline he t hfam hash now hfound
  obtain ⟨hmem, -, hactive⟩ := TokenDb.getActiveByHash_eq_ok hfound
  have hlive : s.db.live t.id = true :=
    TokenDb.live_iff.mpr ⟨t, get?_of_mem hmem, TokenDb.revokedAt_of_active hactive⟩
  obtain ⟨q, hq, hqlive⟩ := h.line_lives hfam .refl hlive
  -- A line does not branch: the live token and the revoked one are on the same way.
  rcases ReflTransGen.total_of_right_unique h.once hline hq with heq | hqe
  · rcases ReflTransGen.cases_head heq with rfl | ⟨b, hb, -⟩
    · exact (h.settled e he).1.not_live hqlive
    · exact (h.settled e he).2 b hb
  · rcases ReflTransGen.cases_head hqe with rfl | ⟨b, hb, -⟩
    · exact (h.settled q he).1.not_live hqlive
    · exact (h.gone q b hb).not_live hqlive

end Kin

/-- **A revocation ends the family**, over every interleaving of mints, authentications, inserts,
rotations and revocations from any store, in which each attenuation finds the token it was
authenticated with unrevoked where it inserts. -/
theorem revoked_family_ended (db : TokenDb) (ops : List FamilyOp)
    (h : Meets familyNext ParentStands { db } ops) : FamilyEnded (exec familyNext { db } ops) := by
  have hstart : Kin { db } :=
    ⟨fun _ _ hab => hab.elim (fun hab => nomatch hab) (fun hab => nomatch hab),
      fun _ _ hab => (nomatch hab), fun _ _ _ hab => (nomatch hab), fun _ he => (nomatch he),
      fun _ _ _ _ hd => (nomatch hd)⟩
  have hend : Kin (exec familyNext { db } ops) :=
    @exec_inv_of_meets _ _ familyNext ParentStands Kin (fun _ _ hs hop => hs.next hop) ops _
      hstart h
  exact hend.familyEnded

/-- A workspace of one member. -/
def memberRoom : TokenDb where
  members := oneMember

/-- The member's token, and a request made with it: to attenuate it. -/
def familyMint : FamilyOp :=
  .mint ⟨1⟩ { workspaceId := ⟨1⟩, memberId := ⟨1⟩, tokenHash := "token",
              capabilities := ["workspace:read"] }

def familyRequest : FamilyOp := .authenticate 1 .rest "token" 1

def familyInsert : FamilyOp := .attenuate 1 ⟨⟨2⟩, "child"⟩ ⟨["workspace:read"], none⟩ 3

/-- The request first and then the revocation: the child is there, and ended. -/
theorem revoked_family_ended_in_order : (exec familyNext { db := memberRoom }
        [familyMint, familyRequest, familyInsert]).Family ⟨1⟩ ⟨2⟩ ∧
      FamilyEnded (exec familyNext { db := memberRoom }
        [familyMint, familyRequest, familyInsert, .revoke ⟨1⟩ 4]) := by
  refine ⟨.first .refl mem_cons_self, revoked_family_ended memberRoom _ ?_⟩
  refine ⟨trivial, trivial, fun r hr p hp => ?_, trivial, trivial⟩
  cases hr
  cases hp
  decide

/-- **The revocation in between.**  The request is authenticated, the token is revoked, the request
inserts: nothing is in flight any more, and the child of the revoked token is found. -/
theorem child_outlives_revoked_parent : ((exec familyNext { db := memberRoom }
        [familyMint, familyRequest, .revoke ⟨1⟩ 2, familyInsert]).db.getActiveByHash "child"
          4).toOption.isSome = true ∧
      ¬FamilyEnded (exec familyNext { db := memberRoom }
        [familyMint, familyRequest, .revoke ⟨1⟩ 2, familyInsert]) := by
  refine ⟨by decide, fun h => ?_⟩
  exact h rfl ⟨1⟩ ⟨1⟩ .refl (by decide) _ (.first .refl mem_cons_self) "child" 4 rfl

end Maidan
