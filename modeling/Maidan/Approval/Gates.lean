/-
# Approval gates and their confirmation links

A gate (`maidan_approval_gates`) waits for a person's decision.  Three routes end in `resolve_on`,
which writes a decision only where the row still says `pending`:

* `resolve` and `resolve_audited`, the direct ones;
* `confirm`, by a LINK a model had sent to the person.  `issue_confirmation` stores the link's token,
  hashed, one row for each gate and member: a row that was used or has expired is overwritten by the
  next link, a live one stays and the new link is not issued.

The audit rows these transactions append are not modelled, and of a gate neither its prompt and
schema nor who asked for it: no function here reads them.

* §1 the rows, §2 the functions, §3 transactions and what each can do.
-/
import Maidan.Claim.Landing
import Maidan.Lib.Json

namespace Maidan

open Relational Table Run

/-! ## 1. Confirmation links -/

/-- `ts`: whole milliseconds. -/
def tsMillis (t : Int) : Int := t - t % 1000000

theorem lt_of_tsMillis_lt (h : tsMillis a < tsMillis b) : a < b := by
  unfold tsMillis at h
  omega

/-- A row of `maidan_approval_confirmations`. -/
structure ConfirmationRow where
  gateId : GateId
  memberId : MemberId
  workspaceId : WorkspaceId
  actorId : Option MemberId := none
  nonce : Nat
  tokenHash : String
  clientName : Option String := none
  clientVersion : Option String := none
  clientId : Option String := none
  clientSource : ClientIdentitySource := .none
  note : Option String := none
  createdAt : Int
  expiresAt : Int
  usedAt : Option Int := none

variable (c : ConfirmationRow)

def ConfirmationRow.key : GateId × MemberId := (c.gateId, c.memberId)

/-- `NewApprovalConfirmation`. -/
structure NewApprovalConfirmation where
  gateId : GateId
  memberId : MemberId
  workspaceId : WorkspaceId
  actorId : Option MemberId := none
  nonce : Nat
  tokenHash : String
  clientName : Option String := none
  clientVersion : Option String := none
  clientId : Option String := none
  clientSource : ClientIdentitySource := .none
  note : Option String := none
  now : Int
  expiresAt : Int

/-- The row a link is stored as. -/
def NewApprovalConfirmation.row (new : NewApprovalConfirmation) : ConfirmationRow where
  gateId := new.gateId
  memberId := new.memberId
  workspaceId := new.workspaceId
  actorId := new.actorId
  nonce := new.nonce
  tokenHash := new.tokenHash
  clientName := new.clientName
  clientVersion := new.clientVersion
  clientId := new.clientId
  clientSource := new.clientSource
  note := new.note
  createdAt := tsMillis new.now
  expiresAt := tsMillis new.expiresAt

/-- **The links**: one for a gate and member, and no two with one token hash. -/
structure Confirmations extends Table ConfirmationRow.key where
  tokens : (rows.map ConfirmationRow.tokenHash).Nodup := by decide

/-- No link yet. -/
abbrev Confirmations.none : Confirmations := {}

/-- What the transactions on gates read and write. -/
structure GateRoom where
  db : Db
  links : Confirmations := .none

/-! ## 2. The functions -/

/-- `approval_policy::via`. -/
def ConfirmationRow.via : GateDecisionVia where
  clientName := c.clientName
  clientVersion := c.clientVersion
  clientId := c.clientId
  clientSource := c.clientSource
  modelAsked := true

/-- `note_content`, as it is stored. -/
def noteContent (note : Option String) : Option String :=
  note.map fun note => "\x7b\"note\":" ++ String.ofList (Json.quote note) ++ "\x7d"

/-- A decision on a gate: who, what, with which content and record, and when. -/
structure GateDecision where
  resolvedBy : MemberId
  state : ApprovalGateState
  content : Option String := none
  via : Option GateDecisionVia := none
  attribution : Option Attribution := none
  now : Int

/-- The `SET` of `resolve_on`. -/
def ApprovalGateRow.resolved (g : ApprovalGateRow) (d : GateDecision) : ApprovalGateRow :=
  { g with
    state := d.state
    content := d.content
    resolvedBy := some d.resolvedBy
    resolvedAt := some d.now
    resolvedActorId := delegateActingFor d.attribution d.resolvedBy
    decidedVia := d.via }

theorem ApprovalGateRow.resolved_id (d : GateDecision) (g : ApprovalGateRow) :
    (g.resolved d).id = g.id := rfl

/-- What a declined or cancelled round cap does: its thread stays off the queue. -/
def holdRound (db : Db) (gate : ApprovalGateRow) : Db :=
  if gate.kind = .reviewRoundCap ∧ (gate.state = .declined ∨ gate.state = .cancelled) then
    match gate.threadId with
    | none => db
    | some thread =>
      { db with
        threadUnclaimable :=
          db.threadUnclaimable.upsert { threadId := thread, reason := reviewRoundHeldReason }
            (fun u => { u with reason := reviewRoundHeldReason }) }
  else db

/-- `resolve_on`: a compare-and-set on `pending`. -/
def resolveOn (db : Db) (id : GateId) (d : GateDecision) : Db × Option ApprovalGateRow :=
  match db.approvalGates.get? id with
  | none => (db, none)
  | some gate =>
    if gate.state = .pending then
      let gates := db.approvalGates.update id (·.resolved d) (ApprovalGateRow.resolved_id d)
      (holdRound { db with approvalGates := gates } (gate.resolved d), some (gate.resolved d))
    else (db, none)

/-- The upsert's condition: the row there was used, or has expired. -/
def ConfirmationRow.stale (old new : ConfirmationRow) : Bool :=
  old.usedAt.isSome || decide (old.expiresAt ≤ new.createdAt)

/-- What the row's references name is there. -/
def ConfirmationRow.referenced (db : Db) (c : ConfirmationRow) : Bool :=
  (db.approvalGates.get? c.gateId).isSome && (db.members.get? c.memberId).isSome &&
    (db.workspaces.get? c.workspaceId).isSome

/-- The upsert of a link whose token no row has. -/
def Confirmations.put (links : Confirmations) (row : ConfirmationRow)
    (h : ∀ c ∈ links.rows, c.tokenHash ≠ row.tokenHash) : Confirmations where
  toTable := links.upsert row fun c => { row with gateId := c.gateId, memberId := c.memberId }
  tokens := nodup_map_upsert links.tokens (fun _ => rfl) h

variable (s : GateRoom)

/-- `issue_confirmation`: the link of the gate and member, and whether it is the new one. -/
def issueConfirmation (new : NewApprovalConfirmation) :
    Except StoreError (GateRoom × ConfirmationRow × Bool) :=
  let row := new.row
  if h : ∀ c ∈ s.links.rows, c.tokenHash ≠ row.tokenHash then
    match s.links.get? row.key with
    | some old =>
      if !old.stale row then .ok (s, old, false)
      else if !row.referenced s.db then .error (.database "FOREIGN KEY constraint failed")
      else .ok ({ s with links := s.links.put row h }, row, true)
    | none =>
      if !row.referenced s.db then .error (.database "FOREIGN KEY constraint failed")
      else .ok ({ s with links := s.links.put row h }, row, true)
  else .error (.database "UNIQUE constraint failed: maidan_approval_confirmations.token_hash")

/-- `ConfirmOutcome`. -/
inductive ConfirmOutcome
  | notFound
  | gateResolved
  | accepted (gate : ApprovalGateRow)
deriving DecidableEq, Repr

/-- What a person presents: the token's hash, where, who, and when. -/
structure Confirm where
  tokenHash : String
  workspaceId : WorkspaceId
  memberId : MemberId
  now : Int

/-- The `WHERE` of the spend. -/
def ConfirmationRow.spendable (ask : Confirm) : Bool :=
  c.tokenHash == ask.tokenHash && c.workspaceId == ask.workspaceId &&
    c.memberId == ask.memberId && c.usedAt.isNone && decide (tsMillis ask.now < c.expiresAt)

/-- `SET used_at`. -/
def ConfirmationRow.spent (ask : Confirm) : ConfirmationRow :=
  { c with usedAt := some (tsMillis ask.now) }

theorem ConfirmationRow.spent_key (ask : Confirm) (c : ConfirmationRow) :
    (c.spent ask).key = c.key := rfl

/-- The spend. -/
def Confirmations.spend (links : Confirmations) (ask : Confirm) : Confirmations where
  toTable := links.updateWhere (·.spendable ask) (·.spent ask) (ConfirmationRow.spent_key ask)
  tokens := (map_updateWhere ConfirmationRow.tokenHash links.toTable (·.spendable ask)
    (·.spent ask) (ConfirmationRow.spent_key ask) fun _ => rfl).symm ▸ links.tokens

/-- The decision a confirmed link stands for. -/
def ConfirmationRow.decision (ask : Confirm) (attribution : Option Attribution) (now : Int) :
    GateDecision where
  resolvedBy := ask.memberId
  state := .accepted
  content := noteContent c.note
  via := some c.via
  attribution := attribution
  now := now

/-- `confirm`: spend first, then resolve.  `now` is the reading `resolve_on` takes. -/
def confirm (ask : Confirm) (attribution : Option Attribution) (now : Int) :
    GateRoom × ConfirmOutcome :=
  match s.links.rows.find? (·.spendable ask) with
  | none => (s, .notFound)
  | some c =>
    let resolved := resolveOn s.db c.gateId (c.decision ask attribution now)
    ({ db := resolved.1, links := s.links.spend ask },
      match resolved.2 with
      | some gate => .accepted gate
      | none => .gateResolved)

/-- `create`: a gate that waits. -/
def createGate (db : Db) (id : GateId) (thread : Option ThreadId) : Except StoreError Db :=
  if thread.any fun t => !(db.threads.get? t).isSome then
    .error (.database "FOREIGN KEY constraint failed")
  else match db.approvalGates.insert?
      { id := id, threadId := thread, kind := .request, state := .pending } with
  | none => .error (.database "UNIQUE constraint failed: maidan_approval_gates.id")
  | some gates => .ok { db with approvalGates := gates }

/-! ## 3. Transactions -/

/-- A transaction on the gates. -/
inductive GateOp
  | create (id : GateId) (thread : Option ThreadId)
  | resolve (id : GateId) (resolvedBy : MemberId) (state : ApprovalGateState)
      (content : Option String) (attribution : Option Attribution) (now : Int)
  | resolveAudited (id : GateId) (resolvedBy : MemberId) (state : ApprovalGateState)
      (content : Option String) (via : GateDecisionVia) (attribution : Option Attribution)
      (now : Int)
  | issue (new : NewApprovalConfirmation)
  | confirm (ask : Confirm) (attribution : Option Attribution) (now : Int)

/-- What a transaction returns. -/
inductive GateOutcome
  | created
  | resolved (gate : Option ApprovalGateRow)
  | issued (link : ConfirmationRow) (fresh : Bool)
  | confirmed (outcome : ConfirmOutcome)

/-- A direct decision: `resolve` and `resolve_audited`. -/
def resolveGate (id : GateId) (d : GateDecision) : GateRoom × GateOutcome :=
  let resolved := resolveOn s.db id d
  ({ s with db := resolved.1 }, .resolved resolved.2)

def gateTx : GateOp → Except StoreError (GateRoom × GateOutcome)
  | .create id thread => do
    let db ← createGate s.db id thread
    return ({ s with db := db }, .created)
  | .resolve id resolvedBy state content attribution now =>
    .ok (resolveGate s id { resolvedBy, state, content, attribution, now })
  | .resolveAudited id resolvedBy state content via attribution now =>
    .ok (resolveGate s id { resolvedBy, state, content, via := some via, attribution, now })
  | .issue new => do
    let (s, link, fresh) ← issueConfirmation s new
    return (s, .issued link fresh)
  | .confirm ask attribution now =>
    let confirmed := confirm s ask attribution now
    .ok (confirmed.1, .confirmed confirmed.2)

/-- One step of a run. -/
def gateNext (op : GateOp) : GateRoom := settle s ((gateTx s op).map Prod.fst)

/-- What a transaction returned, if it committed. -/
def gateOutcome (op : GateOp) : Option GateOutcome :=
  (gateTx s op).toOption.map Prod.snd

/-! ## 4. What each can do -/

variable {g : GateId} {row : ApprovalGateRow}

section Effects

variable {s s' : GateRoom}

theorem holdRound_gates (db : Db) (gate : ApprovalGateRow) :
    (holdRound db gate).approvalGates = db.approvalGates := by
  unfold holdRound
  split
  · split <;> rfl
  · rfl

/-- **A decision**: there was none to make, or the gate was pending and is resolved. -/
theorem resolveOn_cases (db : Db) (id : GateId) (d : GateDecision) :
    (resolveOn db id d = (db, none) ∧
        ∀ gate, db.approvalGates.get? id = some gate → gate.state ≠ .pending) ∨
      ∃ gate, db.approvalGates.get? id = some gate ∧ gate.state = .pending ∧
        (resolveOn db id d).2 = some (gate.resolved d) ∧
        (resolveOn db id d).1.approvalGates =
          db.approvalGates.update id (·.resolved d) (ApprovalGateRow.resolved_id d) := by
  unfold resolveOn
  cases hg : db.approvalGates.get? id with
  | none => exact .inl ⟨rfl, fun _ h => nomatch h⟩
  | some gate =>
    dsimp only
    by_cases hp : gate.state = .pending
    · rw [if_pos hp]
      exact .inr ⟨gate, rfl, hp, rfl, holdRound_gates _ _⟩
    · rw [if_neg hp]
      refine .inl ⟨rfl, fun _ h => ?_⟩
      cases h
      exact hp

/-- **A decided gate stays as it is.** -/
theorem resolveOn_keeps (hg : db.approvalGates.get? g = some row) (hrow : row.state ≠ .pending)
    (id : GateId) (d : GateDecision) : (resolveOn db id d).1.approvalGates.get? g = some row := by
  rcases resolveOn_cases db id d with ⟨hsame, _⟩ | ⟨gate, hgate, hpending, _, hgates⟩
  · rw [hsame]
    exact hg
  · rw [hgates, get?_update_ne _ _ _ ?_]
    · exact hg
    · rintro rfl
      rw [hgate] at hg
      cases hg
      exact hrow hpending

theorem Confirmations.mem_put {links : Confirmations} {row c : ConfirmationRow}
    {h : ∀ c ∈ links.rows, c.tokenHash ≠ row.tokenHash} :
    c ∈ (links.put row h).rows ↔ c = row ∨ (c ∈ links.rows ∧ c.key ≠ row.key) := by
  have hread : ∀ k, (links.put row h).get? k = if row.key = k then some row else links.get? k := by
    intro k
    refine (get?_upsert _ _ _ _ k).trans ?_
    by_cases hk : row.key = k
    · cases hg : links.get? k with
      | none => rfl
      | some =>
        obtain ⟨hgate, hmember⟩ := Prod.mk.inj ((key_of_get? hg).trans hk.symm)
        simp [hgate, hmember]
    · rw [if_neg hk, if_neg hk]
  have hmem : c ∈ (links.put row h).rows ↔ (links.put row h).get? c.key = some c :=
    ⟨get?_of_mem, mem_of_get?⟩
  rw [hmem, hread]
  by_cases hk : row.key = c.key
  · rw [if_pos hk]
    constructor
    · intro hc
      exact .inl (Option.some.inj hc).symm
    · rintro (rfl | ⟨_, hne⟩)
      · rfl
      · exact absurd hk.symm hne
  · rw [if_neg hk]
    constructor
    · intro hc
      exact .inr ⟨mem_of_get? hc, Ne.symm hk⟩
    · rintro (rfl | ⟨hc, _⟩)
      · exact absurd rfl hk
      · exact get?_of_mem hc

/-- **Issuing a link**: the live one stays, or the new one is stored. -/
theorem issueConfirmation_cases {new : NewApprovalConfirmation} {fresh : Bool}
    (h : issueConfirmation s new = .ok (s', link, fresh)) : (fresh = false ∧ s' = s) ∨
      (fresh = true ∧ s'.db = s.db ∧ ∀ c, c ∈ s'.links.rows ↔
        c = new.row ∨ (c ∈ s.links.rows ∧ c.key ≠ new.row.key)) := by
  unfold issueConfirmation at h
  dsimp only at h
  split at h
  · rename_i hnew
    split at h
    · split at h
      · cases h
        exact .inl ⟨rfl, rfl⟩
      · split at h
        · cases h
        cases h
        exact .inr ⟨rfl, rfl, fun c => Confirmations.mem_put (h := hnew)⟩
    · split at h
      · cases h
      cases h
      exact .inr ⟨rfl, rfl, fun c => Confirmations.mem_put (h := hnew)⟩
  · cases h

theorem Confirmations.mem_spend {links : Confirmations} {ask : Confirm} {c : ConfirmationRow} :
    c ∈ (links.spend ask).rows ↔
      ∃ r ∈ links.rows, (if r.spendable ask then r.spent ask else r) = c := by
  have htable : (links.spend ask).toTable =
      links.updateWhere (·.spendable ask) (·.spent ask) (ConfirmationRow.spent_key ask) := rfl
  rw [htable]
  exact mem_updateWhere

/-- **Confirming**: no link to spend, or one that is spent. -/
theorem confirm_cases (s : GateRoom) (ask : Confirm) (attribution : Option Attribution) (now : Int) :
    confirm s ask attribution now = (s, .notFound) ∨ ∃ c ∈ s.links.rows, c.spendable ask = true ∧
        (confirm s ask attribution now).1.links = s.links.spend ask ∧
        (confirm s ask attribution now).1.db =
          (resolveOn s.db c.gateId (c.decision ask attribution now)).1 ∧
        (confirm s ask attribution now).2 =
          match (resolveOn s.db c.gateId (c.decision ask attribution now)).2 with
          | some gate => .accepted gate
          | none => .gateResolved := by
  unfold confirm
  cases hfind : s.links.rows.find? (·.spendable ask) with
  | none => exact .inl rfl
  | some c =>
    have hspendable : c.spendable ask = true := by
      simpa using List.find?_some hfind
    exact .inr ⟨c, List.mem_of_find?_eq_some hfind, hspendable, rfl, rfl, rfl⟩

theorem createGate_keeps {id : GateId} (hg : db.approvalGates.get? g = some row)
    (h : createGate db id thread = .ok db') : db'.approvalGates.get? g = some row := by
  unfold createGate at h
  split at h
  · cases h
  split at h
  · cases h
  rename_i gates hinsert
  cases h
  obtain ⟨hfree, hread⟩ := get?_of_insert? hinsert
  refine (hread g).trans ?_
  rw [if_neg, hg]
  intro hid
  subst hid
  exact Option.some_ne_none _ (hg.symm.trans hfree)

/-- **Every transaction keeps a decided gate.** -/
theorem gateNext_keeps (hrow : row.state ≠ .pending) (s : GateRoom) (op : GateOp)
    (hg : s.db.approvalGates.get? g = some row) :
    (gateNext s op).db.approvalGates.get? g = some row := by
  cases op with
  | create id thread =>
    simp only [gateNext, gateTx]
    cases hcreate : createGate s.db id thread with
    | error => exact hg
    | ok => exact createGate_keeps hg hcreate
  | resolve | resolveAudited => exact resolveOn_keeps hg hrow _ _
  | issue new =>
    simp only [gateNext, gateTx]
    cases hissue : issueConfirmation s new with
    | error => exact hg
    | ok result =>
      obtain ⟨s', link, fresh⟩ := result
      rcases issueConfirmation_cases hissue with ⟨_, rfl⟩ | ⟨_, hdb, _⟩
      · exact hg
      · change s'.db.approvalGates.get? g = some row
        rw [hdb]
        exact hg
  | confirm ask attribution now =>
    change (confirm s ask attribution now).1.db.approvalGates.get? g = some row
    rcases confirm_cases s ask attribution now with hsame | ⟨c, _, _, _, hdb, _⟩
    · rw [hsame]
      exact hg
    · rw [hdb]
      exact resolveOn_keeps hg hrow _ _

end Effects

end Maidan
