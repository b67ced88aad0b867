/-
# Reviews, send-backs and hand-offs

`submit_review_on` (`reviews.rs`) records a verdict, and lets a change request SEND THE THREAD BACK:
in one transaction the thread returns to `open`, the approvals of the version it replaces are
dismissed, and at the round cap the claim is dropped.  `hand_off` (`change_metrics.rs`) ends the
claim of a task that does not converge and routes it to a session.

The head of the pull request is read off tables nothing modelled writes, so what `current_head`
answers is an argument.  The verdict's history row and its events are left out: nothing modelled
reads them.
-/
import Maidan.Review.Transition

namespace Maidan

open Relational Run

/-! ## 1. The verdict -/

/-- `eq_ignore_ascii_case`. -/
def eqIgnoreAsciiCase (a b : String) : Bool :=
  a.toList.map Char.toLower == b.toList.map Char.toLower

/-- A named head must be the tracked one. -/
def headCheck (tracked named : Option String) : Except StoreError Unit :=
  match named, tracked with
  | none, _ => .ok ()
  | some named, none => .error (.conflict (
      "unverified head: you named " ++ named ++ " but this change has no tracked pull request " ++
      "head to check it against; omit head_sha or register the pull request first"))
  | some named, some tracked =>
    if eqIgnoreAsciiCase tracked named then .ok ()
    else .error (.conflict (
      "stale head: you reviewed " ++ named ++ " but the change's head is now " ++ tracked ++
      "; re-read the change and review again"))

/-- `sends_back_in_tx`: under review, by the owner or by a reviewer whose approval would count, and
not submitted by anyone who worked it. -/
def sendsBackInTx (db : Db) (thread : ThreadId) (reviewer : MemberId) (actor : Option MemberId) :
    Bool :=
  match db.threads.get? thread with
  | none => false
  | some t =>
    let neverHeld := fun m => t.assigneeId != some m && !hasWorked db thread m
    t.state == .inReview && t.tombstonedAt.isNone &&
      (t.ownerId == some reviewer || (neverHeld reviewer && inNamedSet db thread reviewer)) &&
      match actor with
      | none => true
      | some a => neverHeld a

/-- The verdict's row: `INSERT … ON CONFLICT (thread_id, reviewer_id) DO UPDATE`. -/
def Db.putReview (db : Db) (row : ReviewRow) : Db :=
  { db with
    threadReviews := db.threadReviews.upsert row
      (fun r =>
        { r with
          decision := row.decision, actorId := row.actorId, dismissedAt := none,
          evidenceRoot := row.evidenceRoot }) }

/-- `SET dismissed_at … WHERE decision = 'approve' AND dismissed_at IS NULL`. -/
def Db.dismissApprovals (db : Db) (thread : ThreadId) (now : Int) : Db :=
  { db with
    threadReviews := db.threadReviews.updateWhere
      (fun r => r.threadId == thread && r.decision == .approve && r.dismissedAt.isNone)
      (fun r => { r with dismissedAt := some now }) }

/-- `thread_scope_in_tx`. -/
def threadScopeInTx (db : Db) (thread : ThreadId) : Except StoreError (WorkspaceId × ChannelId) :=
  match (db.threads.get? thread).bind db.channelOf with
  | none => .error .notFound
  | some c => .ok (c.workspaceId, c.id)

/-- **A review someone submits**, with what its transaction reads from outside and draws. -/
structure Submission where
  thread : ThreadId
  reviewer : MemberId
  decision : ReviewDecision
  evidenceRoot : Option String := none
  namedHead : Option String := none
  trackedHead : Option String := none
  attribution : Option Attribution := none
  draws : Draws
  gate : GateId

/-- The verdict's row as a submission writes it. -/
def Submission.row (s : Submission) : ReviewRow where
  threadId := s.thread
  reviewerId := s.reviewer
  decision := s.decision
  actorId := delegateActingFor s.attribution s.reviewer
  evidenceRoot := s.evidenceRoot

/-- A send-back: the transition, and what `transition` and `submit_review_on` do after it. -/
def sendBackInTx (env : Env) (db : Db) (thread : ThreadId) (actor : MemberId) (draws : Draws)
    (gate : GateId) : Except StoreError Db := do
  let db ← transitionInSpawning env db thread actor .requestChanges draws
  let _ ← threadScopeInTx db thread
  escalateRoundCap db thread gate

/-- A root the reviewer names must be the current one. -/
def namedRootCheck (env : Env) (db : Db) (thread : ThreadId) :
    Option String → Except StoreError Unit
  | none => .ok ()
  | some root => verifyRootInTx env db thread root

/-- `submit_review_on`. -/
def submitReviewOn (env : Env) (db : Db) (s : Submission) : Except StoreError Db := do
  namedRootCheck env db s.thread s.evidenceRoot
  headCheck s.trackedHead s.namedHead
  let db := db.putReview s.row
  if s.decision = .requestChanges ∧
      sendsBackInTx db s.thread s.reviewer (delegateActingFor s.attribution s.reviewer) then do
    let db ← transitionInSpawning env db s.thread s.reviewer .requestChanges s.draws
    let db := db.dismissApprovals s.thread s.draws.now
    let _ ← threadScopeInTx db s.thread
    escalateRoundCap db s.thread s.gate
  else do
    let _ ← threadScopeInTx db s.thread
    return db

/-- **What a submission did**: it wrote a verdict; and it may have sent the thread back. -/
theorem submitReviewOn_cases (h : submitReviewOn env db s = .ok db') :
    db' = db.putReview s.row ∨ s.decision = .requestChanges ∧ ∃ db1,
      transitionInSpawning env (db.putReview s.row) s.thread s.reviewer .requestChanges s.draws =
        .ok db1 ∧
      escalateRoundCap (db1.dismissApprovals s.thread s.draws.now) s.thread s.gate = .ok db' := by
  obtain ⟨_, _, h⟩ := bind_ok h
  obtain ⟨_, _, h⟩ := bind_ok h
  dsimp only at h
  split at h
  · rename_i hsend
    obtain ⟨db1, ht, h⟩ := bind_ok h
    obtain ⟨_, _, h⟩ := bind_ok h
    exact .inr ⟨hsend.1, db1, ht, h⟩
  · obtain ⟨_, _, h⟩ := bind_ok h
    injection h with h
    exact .inl h.symm

/-! ## 2. The hand-off -/

/-- `hand_off`: once per thread, its claim ended and charged, its engine the session. -/
def handOff (db : Db) (thread : ThreadId) (ended : Int) : Except StoreError Db := do
  let _ ← threadScopeInTx db thread
  if (db.threadHandoffs.get? thread).isSome then .ok db
  else do
    let db := { db with threadHandoffs := db.threadHandoffs.insertIgnore { threadId := thread } }
    let db ← chargeOpenClaimInTx db thread ended
    let db := db.setThread thread ThreadRow.clearClaim ThreadRow.clearClaim_id
    return { db with
      threadAttributes :=
        db.threadAttributes.upsert { threadId := thread, engine := some .session }
          (fun a => { a with engine := some .session }) }

/-- **What a hand-off did**: nothing the second time; else the claim's columns are cleared. -/
theorem handOff_cases (h : handOff db thread ended = .ok db') :
    db' = db ∨ (db'.threads = db.threads.update thread ThreadRow.clearClaim
      ThreadRow.clearClaim_id ∧ db'.threadWorkers = db.threadWorkers) := by
  obtain ⟨_, _, h⟩ := bind_ok h
  split at h
  · injection h with h
    exact .inl h.symm
  · obtain ⟨db1, hc, h⟩ := bind_ok h
    obtain ⟨row, _, rfl⟩ := chargeOpenClaimInTx_eq_ok.mp hc
    injection h with h
    rw [← h]
    exact .inr ⟨rfl, rfl⟩

end Maidan
