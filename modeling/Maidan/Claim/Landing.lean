/-
# What ends a claim from outside

Three writes end a claim without being asked to by its holder or the queue:

* `land_in_tx` (`thread_transitions.rs`): a transition that passed its gates moves the thread, and
  on a TERMINAL state charges and clears the claim;
* `cancel_in_tx` (`cancel.rs`): straight to closed, around the gates, charging and clearing;
* `escalate_round_cap` (`reviews.rs`): at the send-back cap the claim is dropped, so that no renew
  or result can land while a person has not decided.

What a close then owes the plan around the thread (`after_close_in_tx`) are transitions of OTHER
threads, each a `land_in_tx` of its own.
-/
import Maidan.Claim.Threads

namespace Maidan

open Relational Run

/-! ## 1. Review rounds -/

variable (db : Db) (thread : ThreadId)

/-- The `review_round_cap` gates of a thread a person accepted, by when they did. -/
def acceptedCaps : List Int :=
  (db.approvalGates.rows.filter fun g =>
    g.threadId == some thread && g.kind == .reviewRoundCap && g.state == .accepted).filterMap
      ApprovalGateRow.resolvedAt

/-- `ORDER BY resolved_at DESC LIMIT 1`. -/
def roundFloor : Option Int := (acceptedCaps db thread).max?

/-- `clock::after_floor`: one microsecond past the floor when the clock is not past it. -/
def afterFloor (now : Int) : Option Int → Int
  | some floor => if now ≤ floor then floor + 1000 else now
  | none => now

/-- `DEFAULT_MAX_REVIEW_ROUNDS`. -/
def defaultMaxReviewRounds : Int := 3

/-- The cap in force on a thread. -/
def maxRounds (db : Db) (thread : ThreadId) : Int :=
  ((db.threadReviewReqs.get? thread).map ReviewReqRow.maxRounds).getD defaultMaxReviewRounds

/-- A transition row that counts: from review back to open, past the floor. -/
def isSendBack (floor : Option Int) (thread : ThreadId) (tr : TransitionRow) : Bool :=
  tr.threadId == thread && tr.fromState == .inReview && tr.toState == .open &&
    match floor with
    | none => true
    | some cut => decide (cut < tr.occurredAt)

/-- Send-backs since the latest accepted cap. -/
def sendBacks : Int :=
  (db.threadTransitions.rows.filter (isSendBack (roundFloor db thread) thread)).length

/-- `round_standing` as `escalate_round_cap` reads it: the cap is reached and no gate waits. -/
def roundCapReached : Bool :=
  maxRounds db thread != 0 && !roundCapPending db thread &&
    !decide (sendBacks db thread < maxRounds db thread)

/-- `escalate_round_cap`: at the cap, all five columns are cleared and a gate opens. -/
def escalateRoundCap (gate : GateId) : Except StoreError Db :=
  if roundCapReached db thread then
    let db := db.setThread thread ThreadRow.clearClaim ThreadRow.clearClaim_id
    match db.approvalGates.insert?
        { id := gate, threadId := some thread, kind := .reviewRoundCap, state := .pending } with
    | none => .error (.database "UNIQUE constraint failed: maidan_approval_gates.id")
    | some gates => .ok { db with approvalGates := gates }
  else .ok db

/-! ## 2. Landing -/

/-- `is_child_in_tx`: a child some plan submitted. -/
def isPlanChild : Bool :=
  db.threadPlanChildren.rows.any fun c => c.childThreadId == thread

/-- `is_review_in_tx`: a review child the review family opened. -/
def isReviewFamilyChild : Bool :=
  match db.threadAttributes.get? thread with
  | none => false
  | some a => a.kind == .review && a.reviewFamily.isSome

/-- Plan and review-family children land ahead of their parent; the rank rule reads them as
`open`. -/
def exempt : Bool :=
  isPlanChild db thread || isReviewFamilyChild db thread

/-- The parent's state check of `land_in_tx`. -/
def parentCheck (thread : ThreadRow) (toState : ThreadState) : Except StoreError Unit :=
  match thread.parentThreadId with
  | none => .ok ()
  | some parentId =>
    match db.threads.get? parentId with
    | none => .error .notFound
    | some parent =>
      let childTo := if exempt db thread.id then .open else toState
      match parentAllowsTransition parent.state childTo with
      | .error e => .error (.conflict e.asStr)
      | .ok () => .ok ()

/-- The transition row's `occurred_at`: a send-back is kept past the last accepted cap. -/
def occurredAt (thread : ThreadRow) (toState : ThreadState) (now : Int) : Int :=
  if thread.state = .inReview ∧ toState = .open then
    afterFloor (truncateMicros now) (roundFloor db thread.id)
  else now

/-- The transition row `land_in_tx` writes. -/
def landingRow (thread : ThreadRow) (actor : MemberId) (toState : ThreadState)
    (transition : TransitionId) (now : Int) : TransitionRow where
  id := transition
  threadId := thread.id
  fromState := thread.state
  toState := toState
  actorId := actor
  occurredAt := occurredAt db thread toState now

/-- `INSERT INTO maidan_thread_transitions`. -/
def Db.insertTransition (row : TransitionRow) : Except StoreError Db :=
  match db.threadTransitions.insert? row with
  | none => .error (.database "UNIQUE constraint failed: maidan_thread_transitions.id")
  | some transitions => .ok { db with threadTransitions := transitions }

/-- The `UPDATE` of `land_in_tx`: the state, and on a terminal one the claim cleared. -/
def ThreadRow.land (r : ThreadRow) (toState : ThreadState) : ThreadRow :=
  if toState.isTerminal then { r.clearClaim with state := toState } else { r with state := toState }

theorem ThreadRow.land_id (toState : ThreadState) (r : ThreadRow) : (r.land toState).id = r.id := by
  unfold ThreadRow.land
  split <;> rfl

/-- The charge of `land_in_tx`: a terminal state ends the claim. -/
def chargeIfTerminal (toState : ThreadState) (ended : Int) : Except StoreError Db :=
  if toState.isTerminal then chargeOpenClaimInTx db thread ended else .ok db

/-- `land_in_tx`, once every gate has passed.  `thread` is the row the caller read. -/
def landInTx (thread : ThreadRow) (actor : MemberId) (toState : ThreadState)
    (transition : TransitionId) (now ended : Int) : Except StoreError Db := do
  parentCheck db thread toState
  let db ← db.insertTransition (landingRow db thread actor toState transition now)
  let db ← chargeIfTerminal db thread.id toState ended
  return db.setThread thread.id (·.land toState) (ThreadRow.land_id toState)

/-! ## 3. Cancelling -/

inductive CancelAuthority
  | transition
  | creator
deriving DecidableEq, Repr

inductive CancelOutcome
  | notCreator
  | alreadyCancelled
  | alreadyFinished (state : ThreadState)
  | cancelled
deriving DecidableEq, Repr

/-- `cancel_in_tx`. -/
def cancelInTx (actor : MemberId) (reason : String)
    (authority : CancelAuthority) (transition : TransitionId) (now ended : Int) :
    Except StoreError (Db × CancelOutcome) :=
  match db.threads.get? thread with
  | none => .error .notFound
  | some row =>
    if row.tombstonedAt.isSome then .error .notFound
    else if authority = .creator ∧ row.createdBy ≠ some actor then .ok (db, .notCreator)
    else if (db.threadCancellations.get? thread).isSome then .ok (db, .alreadyCancelled)
    else if row.state.isTerminal then .ok (db, .alreadyFinished row.state)
    else do
      let db ← db.insertTransition
        { id := transition, threadId := thread, fromState := row.state, toState := .closed,
          actorId := actor, occurredAt := now }
      let db ← chargeOpenClaimInTx db thread ended
      let db := db.setThread thread (·.land .closed) (ThreadRow.land_id .closed)
      let db :=
        { db with
          threadUnclaimable := db.threadUnclaimable.upsert { threadId := thread, reason := reason }
            (fun u => { u with reason := reason }),
          threadCancellations := db.threadCancellations.insertIgnore { threadId := thread } }
      return (db, .cancelled)

end Maidan
