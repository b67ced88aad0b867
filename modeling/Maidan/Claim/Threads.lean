/-
# The claim operations

`sqlite/threads.rs`: every transaction that gives a thread to a member, takes it away, or touches
the claim it holds, with what they share -- the wall-time charge (`budget.rs`), the worker record
(`thread_workers.rs`), the refusals of a direct claim (`reviews.rs`, `task_fingerprints.rs`) and
the boot grace (`claim_grace.rs`).

**A transaction is a function** from the state before it, its arguments, the readings of the
clock it makes and the fresh ids it draws, to `Except StoreError Db`.  An error rolls back, so it
carries no state.  The appended events and the returned rows are left out: no modelled function
reads the event log, and a returned row is the row the new state holds.

The `_with_event` variants run the same statements and append an event after them.
-/
import Maidan.Claim.ClaimNext

namespace Maidan

open Relational Run

/-! ## 1. The wall budget -/

/-- `worked_secs`: seconds an acknowledged claim worked up to `ended`. -/
def workedSecs (started : Option Int) (ended : Int) : Option Int :=
  started.map fun start => max 0 (numSeconds (ended - start))

/-- `charge_wall_in_tx`, the write: `None` charges nothing. -/
def Db.chargeWall (db : Db) (thread : ThreadId) (worked : Option Int) : Db :=
  { db with
    threadBudgets :=
      match worked with
      | none => db.threadBudgets
      | some secs =>
        db.threadBudgets.upsert { threadId := thread, usedWallSecs := secs }
          (fun bu => { bu with usedWallSecs := bu.usedWallSecs + secs }) }

/-- `used_wall_secs` of a thread's budget row; 0 when it has none. -/
def usedWall (db : Db) (thread : ThreadId) : Int :=
  ((db.threadBudgets.get? thread).map BudgetRow.usedWallSecs).getD 0

variable {db : Db} {thread : ThreadId}

theorem chargeWall_budgets_ne {id : ThreadId} (h : thread ≠ id) :
    (db.chargeWall thread worked).threadBudgets.get? id = db.threadBudgets.get? id := by
  cases worked with
  | none => rfl
  | some => exact (Table.get?_upsert _ _ _ _ id).trans (if_neg h)

/-- **A charge moves one thread's used wall time by the seconds charged.** -/
theorem usedWall_chargeWall (db : Db) (thread id : ThreadId) (worked : Option Int) :
    usedWall (db.chargeWall thread worked) id =
      usedWall db id + if id = thread then worked.getD 0 else 0 := by
  unfold usedWall Db.chargeWall
  cases worked with
  | none => simp
  | some =>
    simp only [Table.get?_upsert]
    by_cases h : id = thread
    · subst h
      cases hg : db.threadBudgets.get? id <;> simp
    · simp [h, Ne.symm h]

/-- The dimensions a budget is exceeded in, in the order they are checked. -/
inductive BudgetReason
  | tokens
  | usd
  | turns
  | wall

/-- `ThreadBudget::exceeded`. -/
def BudgetRow.exceeded (bu : BudgetRow) (wallSecsElapsed : Option Int) : Option BudgetReason :=
  if bound bu.usedTokens bu.maxTokens then some .tokens
  else if bound bu.usedUsdMicros bu.maxUsdMicros then some .usd
  else if bound bu.usedTurns bu.maxTurns then some .turns
  else if bound (bu.usedWallSecs + max 0 (wallSecsElapsed.getD 0)) bu.maxWallSecs then some .wall
  else none

/-! ## 2. The worker record -/

/-- The request's principal: `actor` acts with `subject`'s authority. -/
structure Attribution where
  subject : MemberId
  actor : MemberId

/-- `delegate_acting_for`: who acts for `subject` in the request at hand. -/
def delegateActingFor (attribution : Option Attribution) (subject : MemberId) : Option MemberId :=
  match attribution with
  | none => none
  | some a => if a.subject = subject ∧ a.actor ≠ subject then some a.actor else none

/-- `INSERT … (thread_id, member_id) … ON CONFLICT DO NOTHING`. -/
def Db.insertWorker (db : Db) (thread : ThreadId) (worker : MemberId) : Db :=
  { db with threadWorkers := db.threadWorkers.insertIgnore { threadId := thread, memberId := worker } }

/-- `COALESCE(MAX(last_held_seq), 0) + 1` over the thread's workers. -/
def nextHeldSeq (db : Db) (thread : ThreadId) : Int :=
  ((db.threadWorkers.rows.filter fun w => w.threadId == thread).filterMap
    WorkerRow.lastHeldSeq).foldl max 0 + 1

/-- `thread_workers::record_in_tx`. -/
def recordInTx (db : Db) (thread : ThreadId) (member : MemberId)
    (attribution : Option Attribution) : Db :=
  let db := db.insertWorker thread member
  let db := match delegateActingFor attribution member with
    | none => db
    | some actor => db.insertWorker thread actor
  { db with
    threadWorkers := db.threadWorkers.update (thread, member)
      (fun w => { w with lastHeldSeq := some (nextHeldSeq db thread) }) }

/-- The ledger's question: has `member` ever held `thread`? -/
def hasWorked (db : Db) (thread : ThreadId) (member : MemberId) : Bool :=
  (db.threadWorkers.get? (thread, member)).isSome

/-! ## 3. The five columns -/

variable (r : ThreadRow)

/-- `CLEAR_CLAIM`: all five columns to `NULL`. -/
def ThreadRow.clearClaim : ThreadRow :=
  { r with
    assigneeId := none, assignmentExpiresAt := none, claimLeaseId := none, claimedAt := none,
    workStartedAt := none }

theorem ThreadRow.clearClaim_id : r.clearClaim.id = r.id := rfl

variable (member : MemberId)

/-- The `SET` of every statement that hands a thread over. -/
def ThreadRow.grantClaim (expires : Option Int)
    (lease : ClaimLeaseId) (stamped : Int) : ThreadRow :=
  { r with
    assigneeId := some member, assignmentExpiresAt := expires, claimLeaseId := some lease,
    workStartedAt := none, claimedAt := some stamped }

theorem ThreadRow.grantClaim_id (expires : Option Int) (lease : ClaimLeaseId)
    (stamped : Int) (r : ThreadRow) : (r.grantClaim member expires lease stamped).id = r.id := rfl

/-- The fence: the caller holds the thread under the lease it names, and the thread is live. -/
def ThreadRow.fenced (lease : ClaimLeaseId) : Bool :=
  r.assigneeId == some member && r.claimLeaseId == some lease && r.tombstonedAt.isNone

/-- `UPDATE maidan_threads SET … WHERE id = ?`. -/
def Db.setThread (db : Db) (id : ThreadId) (f : ThreadRow → ThreadRow)
    (hf : ∀ r, (f r).id = r.id) : Db :=
  { db with threads := db.threads.update id f hf }

/-- `charge_open_claim_in_tx`. -/
def chargeOpenClaimInTx (db : Db) (thread : ThreadId) (ended : Int) : Except StoreError Db :=
  match db.threads.get? thread with
  | none => .error .notFound
  | some row => .ok (db.chargeWall thread (workedSecs row.workStartedAt ended))

theorem chargeOpenClaimInTx_eq_ok : chargeOpenClaimInTx db thread ended = .ok db' ↔
      ∃ row, db.threads.get? thread = some row ∧
        db' = db.chargeWall thread (workedSecs row.workStartedAt ended) := by
  unfold chargeOpenClaimInTx
  cases hg : db.threads.get? thread with
  | none => simp
  | some =>
    simp only [Except.ok.injEq, Option.some.injEq, exists_eq_left']
    exact eq_comm

/-- A write fenced by `(assignee_id, claim_lease_id)`: `NotFound` when the thread is gone, the
caller is not the holder, or the token is stale. -/
def fencedTx (db : Db) (thread : ThreadId) (member : MemberId) (lease : ClaimLeaseId)
    (write : ThreadRow → Db) : Except StoreError Db :=
  match db.threads.get? thread with
  | none => .error .notFound
  | some row => if row.fenced member lease then .ok (write row) else .error .notFound

theorem fencedTx_eq_ok {db' : Db} {member : MemberId} {lease : ClaimLeaseId}
    {write : ThreadRow → Db} : fencedTx db thread member lease write = .ok db' ↔
      ∃ row, db.threads.get? thread = some row ∧ row.fenced member lease = true ∧
        db' = write row := by
  unfold fencedTx
  cases hg : db.threads.get? thread with
  | none => simp
  | some row =>
    simp only [Option.some.injEq, exists_eq_left']
    cases hf : row.fenced member lease with
    | false => simp
    | true =>
      simp only [if_true, Except.ok.injEq, true_and]
      exact eq_comm

/-- **Any other pair is refused.** -/
theorem fencedTx_refused {member : MemberId} {lease : ClaimLeaseId} {write : ThreadRow → Db}
    (h : ∀ row, db.threads.get? thread = some row →
      ¬(row.assigneeId = some member ∧ row.claimLeaseId = some lease)) :
    fencedTx db thread member lease write = .error .notFound := by
  unfold fencedTx
  cases hg : db.threads.get? thread with
  | none => rfl
  | some row =>
    have hne := h row hg
    cases hf : row.fenced member lease with
    | false => simp [hf]
    | true =>
      simp only [ThreadRow.fenced, Bool.and_eq_true, beq_iff_eq] at hf
      exact absurd hf.1 hne

/-! ## 4. Taking a thread away -/

/-- `WHERE assignee_id = ? AND tombstoned_at IS NULL AND state NOT IN ('closed', 'archived')`. -/
def ThreadRow.heldLiveBy : Bool :=
  r.assigneeId == some member && r.tombstonedAt.isNone && !r.state.isTerminal

/-- `release_member_claims_in_tx`. -/
def releaseMemberClaimsInTx (db : Db) (member : MemberId) (ended : Int) : Db :=
  let rows := db.threads.rows.filter fun r => r.heldLiveBy member
  let db := rows.foldl (fun db r => db.chargeWall r.id (workedSecs r.workStartedAt ended)) db
  { db with
    threads := db.threads.updateWhere (fun r => r.heldLiveBy member) ThreadRow.clearClaim
      ThreadRow.clearClaim_id }

/-- `member_freezes::freeze_on`: the freeze row, and every claim the member holds released. -/
def freezeOn (db : Db) (member : MemberId) (ended : Int) : Except StoreError Db :=
  if (db.members.get? member).isNone then .error .notFound
  else .ok (releaseMemberClaimsInTx
    { db with memberFreezes := db.memberFreezes.insertIgnore { memberId := member } } member ended)

/-- `clear_assignee_in_tx`, the whole of `unassign`. -/
def unassign (db : Db) (thread : ThreadId) (ended : Int) : Except StoreError Db := do
  let db ← chargeOpenClaimInTx db thread ended
  return db.setThread thread ThreadRow.clearClaim ThreadRow.clearClaim_id

/-- `release_fenced_in_tx`, the whole of `release_claim`. -/
def releaseClaim (db : Db) (thread : ThreadId) (member : MemberId) (lease : ClaimLeaseId)
    (ended : Int) : Except StoreError Db :=
  fencedTx db thread member lease fun row =>
    (db.chargeWall thread (workedSecs row.workStartedAt ended)).setThread thread
      ThreadRow.clearClaim ThreadRow.clearClaim_id

/-! ## 5. Giving a thread directly -/

/-- `REVIEW_ROUND_HELD_REASON`. -/
def reviewRoundHeldReason : String :=
  "A person declined another round of review, so this task stays off the queue."

/-- `REVIEW_ROUND_CLAIM_REFUSAL`. -/
def reviewRoundClaimRefusal : String :=
  "a review-round cap is waiting on a person, or a person declined another round, so this task " ++
    "cannot be claimed or assigned"

/-- A `review_round_cap` gate of the thread is pending. -/
def roundCapPending (db : Db) (thread : ThreadId) : Bool :=
  db.approvalGates.rows.any fun g =>
    g.threadId == some thread && g.kind == .reviewRoundCap && g.state == .pending

/-- `refuse_round_cap_claim`. -/
def refuseRoundCapClaim (db : Db) (thread : ThreadId) : Except StoreError Unit :=
  let parked := match db.threadUnclaimable.get? thread with
    | none => false
    | some u => u.reason == reviewRoundHeldReason
  if roundCapPending db thread || parked then .error (.conflict reviewRoundClaimRefusal)
  else .ok ()

/-- The refusal text of `refuse_duplicate_claim_on`. -/
def duplicateClaimRefusal : String :=
  "this task duplicates an open task: reuse that one (GET /threads/\x7bid\x7d/fingerprint names " ++
    "it), or clear the link to claim this one"

/-- `refuse_duplicate_claim_on`. -/
def refuseDuplicateClaimOn (db : Db) (thread : ThreadId) : Except StoreError Unit :=
  if (liveOriginalOn db thread).isSome then .error (.conflict duplicateClaimRefusal) else .ok ()

/-- The assignee and the thread's channel are of one workspace. -/
def sameWorkspace (db : Db) (member : MemberId) (t : ThreadRow) : Bool :=
  sqlEq ((db.members.get? member).map MemberRow.workspaceId) (db.workspaceOf t)

/-- `assign`, with `assign_with_event`: the handoff.  Two readings of the clock: the one that ends
the claim it replaces and the one that stamps the new claim. -/
def assign (db : Db) (thread : ThreadId) (assignee : MemberId) (lease : ClaimLeaseId)
    (attribution : Option Attribution) (ended stamped : Int) : Except StoreError Db := do
  refuseSameFamilyInTx db thread assignee
  refuseRoundCapClaim db thread
  let db ← chargeOpenClaimInTx db thread ended
  match db.threads.get? thread with
  | none => .error .notFound
  | some row =>
    if row.tombstonedAt.isNone && sameWorkspace db assignee row &&
        (sharedFamily db assignee thread).isNone then
      .ok (recordInTx (db.setThread thread (·.grantClaim assignee none lease stamped)
        (ThreadRow.grantClaim_id assignee none lease stamped)) thread assignee attribution)
    else .error .notFound

/-- `claim`, with `claim_with_event`: a compare-and-set on `assignee_id IS NULL`.  The flag is
`claimed`. -/
def claim (db : Db) (thread : ThreadId) (member : MemberId) (lease : ClaimLeaseId)
    (attribution : Option Attribution) (stamped : Int) : Except StoreError (Db × Bool) := do
  refuseSameFamilyInTx db thread member
  refuseRoundCapClaim db thread
  match db.threads.get? thread with
  | none => .error .notFound
  | some row =>
    if row.assigneeId.isNone && row.tombstonedAt.isNone &&
        (sharedFamily db member thread).isNone then do
      let db := db.setThread thread (·.grantClaim member none lease stamped)
        (ThreadRow.grantClaim_id member none lease stamped)
      refuseDuplicateClaimOn db thread
      return (recordInTx db thread member attribution, true)
    else return (db, false)

/-! ## 6. The lease -/

/-- `renew_claim`: a new deadline, fenced.  Neither the old deadline nor the state is read. -/
def renewClaim (db : Db) (thread : ThreadId) (member : MemberId) (lease : ClaimLeaseId)
    (leaseSecs now : Int) : Except StoreError Db :=
  fencedTx db thread member lease fun _ =>
    db.setThread thread (fun r => { r with assignmentExpiresAt := some (now + seconds leaseSecs) })
      (fun _ => rfl)

/-- `acknowledge_claim`: the working clock starts, once. -/
def acknowledgeClaim (db : Db) (thread : ThreadId) (member : MemberId) (lease : ClaimLeaseId)
    (now : Int) : Except StoreError Db :=
  fencedTx db thread member lease fun _ =>
    db.setThread thread (fun r => { r with workStartedAt := r.workStartedAt.or (some now) })
      (fun _ => rfl)

/-- `ClaimGrace`: microseconds since the epoch until which no lease counts as lapsed. -/
structure ClaimGrace where
  untilMicros : Int := 0

variable (grace : ClaimGrace) (now : Int)

/-- `ClaimGrace::holding`. -/
def ClaimGrace.holding : Bool :=
  decide (now / 1000 < grace.untilMicros)

/-- `ClaimGrace::lease_clock`: `now`, or during the grace the epoch. -/
def ClaimGrace.leaseClock : Int :=
  if grace.holding now then 0 else now

theorem ClaimGrace.leaseClock_le {now : Int} (h : 0 ≤ now) : grace.leaseClock now ≤ now := by
  unfold ClaimGrace.leaseClock
  split <;> omega

/-! ## 7. Lapsed claims -/

/-- How an ended lapsed claim is reported: failed (over budget) or expired. -/
inductive LapseReport
  | failed (reason : BudgetReason)
  | expired

/-- `lapsed_claim`: the holder, deadline and working clock of the claim a row still carries. -/
def lapsedClaim (row : ThreadRow) : Option (MemberId × Int × Option Int) :=
  match row.assigneeId, row.assignmentExpiresAt with
  | some holder, some deadline => some (holder, deadline, row.workStartedAt)
  | _, _ => none

/-- `end_lapsed_claim_in_tx`: charge up to the DEADLINE, then report. -/
def endLapsedClaimInTx (db : Db) (thread : ThreadId) (deadline : Int) (started : Option Int) :
    Db × LapseReport :=
  let db := db.chargeWall thread (workedSecs started deadline)
  match (db.threadBudgets.get? thread).bind (·.exceeded none) with
  | some reason => (db, .failed reason)
  | none => (db, .expired)

/-- **The lapsed end of a row's claim**: nothing when it carries none. -/
def endLapsedOf (db : Db) (row : ThreadRow) : Db :=
  match lapsedClaim row with
  | none => db
  | some (_, deadline, started) => (endLapsedClaimInTx db row.id deadline started).1

/-- `take_candidate`. -/
def takeCandidate (db : Db) (candidate : ThreadId) (member : MemberId) (lease : ClaimLeaseId)
    (now : Int) (leaseSecs : Option Int) : Db :=
  let now := truncateMicros now
  let expires := leaseSecs.map fun s => now + seconds s
  db.setThread candidate (·.grantClaim member expires lease now)
    (ThreadRow.grantClaim_id member expires lease now)

/-- `claim_next`, with `claim_next_with_event`: the thread handed out, if any.  `clock` is the
application's reading, `dbNow` the database's. -/
def claimNext (db : Db) (grace : ClaimGrace) (ask : ClaimAsk) (leaseSecs : Option Int)
    (lease : ClaimLeaseId) (attribution : Option Attribution) (clock dbNow : Int) :
    Db × Option ThreadId :=
  let now := truncateMicros clock
  match claimNextCandidate db ask (grace.leaseClock now) now dbNow with
  | none => (db, none)
  | some cand =>
    let db := takeCandidate db cand.id ask.member lease now leaseSecs
    let db := recordInTx db cand.id ask.member attribution
    (endLapsedOf db cand, some cand.id)

/-- The reaper's `WHERE`: held, lapsed, live, not closed or archived. -/
def ThreadRow.reapable : Bool :=
  r.assigneeId.isSome &&
    (match r.assignmentExpiresAt with
     | none => false
     | some expires => decide (expires < now)) &&
    r.tombstonedAt.isNone && !r.state.isTerminal

/-- `ORDER BY assignment_expires_at ASC, id ASC`. -/
def reapOrder : List Int := [r.assignmentExpiresAt.getD 0, r.id.val]

/-- One turn of the reaper's loop, guarded on the same holder and a still-lapsed lease. -/
def reapOne (db : Db) (candidate : ThreadRow) : Except StoreError Db :=
  match lapsedClaim candidate with
  | none => .error (.invalidInput "a reaped claim has no holder or deadline")
  | some (holder, deadline, started) =>
    match db.threads.get? candidate.id with
    | none => .ok db
    | some row =>
      if row.assigneeId == some holder && row.reapable now then
        .ok (endLapsedClaimInTx
          (db.setThread candidate.id ThreadRow.clearClaim ThreadRow.clearClaim_id) candidate.id
          deadline started).1
      else .ok db

/-- `reap_expired_claims`. -/
def reapExpiredClaims (db : Db) (grace : ClaimGrace) (now limit : Int) : Except StoreError Db :=
  if grace.holding now then .ok db
  else
    let lapsed := sqlLimit limit
      ((db.threads.rows.filter (·.reapable now)).insertionSort
        (fun a b => reapOrder a ≤ reapOrder b))
    lapsed.foldlM (reapOne now) db

end Maidan
