/-
# What a close owes a plan

`after_close_in_tx` (`plans.rs`): every close of a thread ends, in its own transaction, with what
it owes the plan around the thread.  A child that LANDED closes its parent once every child has
landed, and that close repeats up through nested plans; a child that closed without landing blocks
its open dependents and tells its parent.

Landing is what the event log says: `landing_in_tx` reads the latest `ThreadLanded` of the thread.
So the state here is the tables, the log and the messages posted (`PlanRoom`).

* §1 is the log and the notices.  A notice is its metadata; the wording of its body is not modelled.
* §2 is the follow-up, with its loop.
* §3 are the transactions around it: transitions, landed changes, cancels, closes as abandoned,
  plans and their amendments, the landed fact the GitHub webhook records, the sweeps of the log,
  and the claims in between.

Events that no step here reads -- of a review child, a round cap, a reference, a claim -- are left
out, and so are the notices of a repointed dependency.
-/
import Maidan.Deps.Acyclic
import Maidan.Events.Log

namespace Maidan

open Relational Run

/-! ## 1. The log and the notices -/

/-- The system messages of `plan_notices.rs`, and that of a cancel, by their metadata. -/
inductive PlanNotice
  | planLanded
  | planCloseRefused (reason : String)
  | planChildUnlanded (child : ThreadId)
  | dependencyUnlanded (dependsOn : ThreadId)
  | cancelled (reason : String)
deriving DecidableEq, Repr

/-- A message posted on a thread. -/
structure PostedNotice where
  threadId : ThreadId
  authorId : MemberId
  notice : PlanNotice
deriving DecidableEq, Repr

/-- The events that the steps of a plan append. -/
inductive PlanEvent
  | threadCreated (thread : ThreadId)
  | threadStateChanged (thread : ThreadId) (actor : MemberId) (fromState toState : ThreadState)
  | threadLanded (thread : ThreadId) (repo : String) (prNumber : Int)
  | threadCancelled (thread : ThreadId) (reason : String) (cancelledBy : MemberId)
  | threadBlocked (thread : ThreadId) (setBy : MemberId) (note : String)
  | messagePosted (posted : PostedNotice)

/-- `Event::thread_id`. -/
def PlanEvent.threadId : PlanEvent → ThreadId
  | .threadCreated thread => thread
  | .threadStateChanged thread _ _ _ => thread
  | .threadLanded thread _ _ => thread
  | .threadCancelled thread _ _ => thread
  | .threadBlocked thread _ _ => thread
  | .messagePosted posted => posted.threadId

/-- `landing_from_payload`, of an event of kind `thread_landed`. -/
def PlanEvent.landing : PlanEvent → Option (String × Int)
  | .threadLanded _ repo prNumber => some (repo, prNumber)
  | _ => none

/-- **The state a plan lives in**: the tables, the event log and the messages posted. -/
structure PlanRoom where
  db : Db
  log : EventLog PlanEvent := .empty
  notices : List PostedNotice := []

/-- What the follow-ups are computed with.  `title` stands for the column of that name, which no
table here has. -/
structure RoomEnv where
  gates : Env
  json : HashEnv PlanEvent
  hash : List (Option String) → String
  title : ThreadId → String

/-- `SELECT … WHERE thread_id = … AND kind = 'thread_landed' ORDER BY id DESC LIMIT 1`. -/
def latestLanded (log : EventLog PlanEvent) (thread : ThreadId) : Option (EventRow PlanEvent) :=
  (log.rows.filter fun r => r.payload.threadId == thread && r.payload.landing.isSome).getLast?

/-- `landing_in_tx`. -/
def landingInTx (log : EventLog PlanEvent) (thread : ThreadId) : Option (String × Int) :=
  (latestLanded log thread).bind fun r => r.payload.landing

/-- What a follow-up draws: for each plan it tries to close the ids and readings of its two
transitions, and for each event, by its id, the reading of the clock. -/
structure RoomDraws where
  review : Nat → Draws
  close : Nat → Draws
  clock : Int → Int

section Room

variable (env : RoomEnv) (draws : RoomDraws)

variable (s : PlanRoom)

/-- `append_in_tx`, for an event of a thread. -/
def appendEvent (event : PlanEvent) : Except StoreError PlanRoom := do
  let (ws, _) ← threadScopeInTx s.db event.threadId
  let (log, _) ← appendRow env.json s.log (some ws) (draws.clock (s.log.lastId + 1)) event none
  return { s with log := log }

def appendEvents : PlanRoom → List PlanEvent → Except StoreError PlanRoom
  | s, [] => .ok s
  | s, event :: rest => do
    let s ← appendEvent env draws s event
    appendEvents s rest

variable (thread : ThreadId)

/-- `post_notice_in_tx`. -/
def postNoticeInTx (author : MemberId) (notice : PlanNotice) : Except StoreError PlanRoom :=
  let posted : PostedNotice := { threadId := thread, authorId := author, notice := notice }
  appendEvent env draws { s with notices := s.notices ++ [posted] } (.messagePosted posted)

/-! ## 2. The follow-up -/

/-- The state column of a thread. -/
def stateIn (db : Db) (thread : ThreadId) : Option ThreadState :=
  (db.threads.get? thread).map ThreadRow.state

theorem Moved.stateIn_self {db db' : Db} (h : Moved db db' action row toState) :
    stateIn db row.id = some row.state ∧ stateIn db' row.id = some toState := by
  unfold stateIn
  rw [h.there, h.self, map_some, map_some, ThreadRow.land_state]
  exact ⟨rfl, rfl⟩

theorem Moved.stateIn_others {db db' : Db} {y : ThreadId} (h : Moved db db' action row toState)
    (hy : y ≠ row.id) (hq : stateIn db y = some q) : stateIn db' y = some q := by
  obtain ⟨r, hr, rfl⟩ := map_eq_some_iff.mp hq
  exact map_eq_some_iff.mpr ⟨r, h.others hy hr, rfl⟩

variable (actor : MemberId) (action : ThreadAction)

/-- `transition_in_tx`, then `state_changed_in_tx`. -/
def transitionInTx (drawn : Draws) : Except StoreError PlanRoom := do
  let db ← transitionInSpawning env.gates s.db thread actor action drawn
  appendEvent env draws { s with db := db } (.threadStateChanged thread actor
    ((stateIn s.db thread).getD .open) ((stateIn db thread).getD .open))

/-- `close_through_gates`. -/
def closeThroughGates (fromOpen : Bool) (review close : Draws) : Except StoreError PlanRoom :=
  if fromOpen then do
    let s ← transitionInTx env draws s thread actor .startReview review
    transitionInTx env draws s thread actor .close close
  else transitionInTx env draws s thread actor .close close

/-- The plan a thread is a child of: `plan_parent_in_tx`. -/
def planParentInTx (db : Db) (child : ThreadId) : Option ThreadId :=
  (db.threadPlanChildren.rows.find? fun c => c.childThreadId == child).map
    PlanChildRow.parentThreadId

variable (parent : ThreadId)

/-- The loop over the children in `close_parent_in_tx`: it goes on past a child that is neither
open nor in review and has a landing. -/
def everyChildLanded : Bool :=
  (amendRows s.db parent).all fun r =>
    !(r.2.state == .open || r.2.state == .inReview) && (landingInTx s.log r.1.childThreadId).isSome

/-- `close_parent_in_tx`, the `i`-th of its transaction; it says whether the parent closed. -/
def closeParentInTx (i : Nat) (s : PlanRoom) (parent completing : ThreadId) (actor : MemberId) :
    Except StoreError (PlanRoom × Bool) :=
  match s.db.threads.get? parent with
  | none => .error (.database
      "no rows returned by a query that expected to return at least one row")
  | some row =>
    if row.state ≠ .open ∧ row.state ≠ .inReview then .ok (s, false)
    else if !everyChildLanded s parent then .ok (s, false)
    else
      match landingInTx s.log completing with
      | none => .ok (s, false)
      | some (repo, prNumber) =>
        -- the savepoint: a refusal leaves `s` as it was before the attempt
        match closeThroughGates env draws s parent actor (row.state = .open) (draws.review i)
            (draws.close i) with
        | .ok s => do
          let s ← appendEvent env draws s (.threadLanded parent repo prNumber)
          let s ← postNoticeInTx env draws s parent actor .planLanded
          return (s, true)
        | .error (.conflict reason) => do
          let s ← postNoticeInTx env draws s parent actor (.planCloseRefused reason)
          return (s, false)
        | .error e => .error e

/-- `blocked_note`. -/
def blockedNote (title : String) (dependency : ThreadId) : String :=
  "depends on \"" ++ title ++ "\" (" ++ toString dependency.val ++ "), which closed without landing"

/-- The loop of `unlanded_in_tx` over the dependents; a block that is there stays. -/
def blockEach (child : ThreadId) (actor : MemberId) :
    PlanRoom → List ThreadId → Except StoreError PlanRoom
  | s, [] => .ok s
  | s, dependent :: rest => do
    let note := blockedNote (env.title child) child
    match s.db.threadBlocks.insert? { threadId := dependent, note := some note } with
    | none => blockEach child actor s rest
    | some blocks => do
      let s := { s with db := { s.db with threadBlocks := blocks } }
      let s ← appendEvent env draws s (.threadBlocked dependent actor note)
      let s ← postNoticeInTx env draws s dependent actor (.dependencyUnlanded child)
      blockEach child actor s rest

/-- `unlanded_in_tx`. -/
def unlandedInTx (child : ThreadId) (actor : MemberId) : Except StoreError PlanRoom := do
  let s ← blockEach env draws child actor s (liveDependents s.db child)
  postNoticeInTx env draws s parent actor (.planChildUnlanded child)

/-- The loop of `after_close_in_tx`, from the `i`-th closed thread on. -/
def afterCloseLoop (actor : MemberId) : Nat → Nat → PlanRoom → ThreadId → Except StoreError PlanRoom
  | 0, _, s, _ => .ok s
  | fuel + 1, i, s, child =>
    match planParentInTx s.db child with
    | none => .ok s
    | some parent =>
      match landingInTx s.log child with
      | none => unlandedInTx env draws s parent child actor
      | some _ => do
        let (s, closed) ← closeParentInTx env draws i s parent child actor
        if closed then afterCloseLoop actor fuel (i + 1) s parent else .ok s

/-- `after_close_in_tx`.  Each round closes a plan of the table, so there are at most as many. -/
def afterCloseInTx (closed : ThreadId) (actor : MemberId) : Except StoreError PlanRoom :=
  afterCloseLoop env draws actor (s.db.threadPlanChildren.rows.length + 1) 0 s closed

/-! ## 3. The transactions -/

/-- `escalate_round_cap`, after a send-back. -/
def escalateIf (db : Db) (thread : ThreadId) (gate : GateId) : Except StoreError Db :=
  if action = .requestChanges then escalateRoundCap db thread gate else .ok db

/-- `transition_with_event`. -/
def transitionWithEvent (gate : GateId) (drawn : Draws) : Except StoreError PlanRoom := do
  let s ← transitionInTx env draws s thread actor action drawn
  let db ← escalateIf action s.db thread gate
  let s := { s with db := db }
  if action = .close then afterCloseInTx env draws s thread actor else .ok s

/-- `settle` and `land_in_tx` (`change_metrics.rs`), once the last pull request of a thread has
merged.  A thread that is not live stays as it is. -/
def landChange (repo : String)
    (prNumber : Int) (review close : Draws) : Except StoreError PlanRoom :=
  match s.db.threads.get? thread with
  | none => .ok s
  | some row =>
    if row.tombstonedAt.isSome ∨ row.state.isTerminal then .ok s
    else do
      let s ← closeThroughGates env draws s thread actor (row.state = .open) review close
      let s ← appendEvent env draws s (.threadLanded thread repo prNumber)
      afterCloseInTx env draws s thread actor

/-- What a cancel appends and posts, in the state `s` after its writes. -/
def cancelEvents (reason : String) (fromState : ThreadState) : Except StoreError PlanRoom := do
  let s ← appendEvents env draws s [.threadStateChanged thread actor fromState .closed,
    .threadCancelled thread reason actor]
  postNoticeInTx env draws s thread actor (.cancelled reason)

/-- `cancel`. -/
def cancelThread (reason : String)
    (authority : CancelAuthority) (transition : TransitionId) (now ended : Int) :
    Except StoreError PlanRoom := do
  let (db, outcome) ← cancelInTx s.db thread actor reason authority transition now ended
  if outcome = .cancelled then do
    let s ← cancelEvents env draws { s with db := db } thread actor reason
      ((stateIn s.db thread).getD .open)
    afterCloseInTx env draws s thread actor
  else .ok { s with db := db }

/-- `close_abandoned`. -/
def closeAsAbandoned (maintainer : Bool)
    (close : CloseAbandoned) (reference : ReferenceId) (drawn : Draws) :
    Except StoreError PlanRoom := do
  let (db, _, _) ← closeAbandoned env.gates s.db thread actor maintainer close reference drawn
  let s ← appendEvent env draws { s with db := db } (.threadStateChanged thread actor
    ((stateIn s.db thread).getD .open) .closed)
  afterCloseInTx env draws s thread actor

/-- `submit`, for a request as the route checks it. -/
def submitPlan (member : MemberId) (request : SubmitPlan)
    (planDraws : PlanDraws) : Except StoreError PlanRoom := do
  let plan ← badRequest request.checked
  let (db, outcome) ← submit env.hash s.db parent member plan planDraws
  let made := match outcome with
    | .created made => made
    | _ => []
  appendEvents env draws { s with db := db } (made.map fun c => .threadCreated c.threadId)

/-- The events of the children an amendment cancels.  They are out of the plan by then, so that
their closes owe it nothing. -/
def cancelledEvents (before : Db) (member : MemberId) (reason : String) :
    PlanRoom → List PlannedChild → Except StoreError PlanRoom
  | s, [] => .ok s
  | s, child :: rest => do
    let s ← cancelEvents env draws s child.threadId member reason
      ((stateIn before child.threadId).getD .open)
    cancelledEvents before member reason s rest

/-- `amend`, for a request as the route checks it. -/
def amendPlan (member : MemberId) (request : AmendPlan)
    (planDraws : PlanDraws) : Except StoreError PlanRoom := do
  let amendment ← badRequest request.checked
  let (db, outcome) ← amend env.hash s.db parent member amendment planDraws
  let s ← cancelledEvents env draws s.db member (amendment.reason.getD planAmendCancelReason)
    { s with db := db } outcome.cancelled
  appendEvents env draws s (outcome.added.map fun c => .threadCreated c.threadId)

end Room

/-- A claim operation that moves no thread to another state. -/
def ClaimOp.quiet : ClaimOp → Bool
  | .land .. => false
  | .cancel .. => false
  | _ => true

/-- One transaction on the room. -/
inductive RoomOp
  | submitPlan (parent : ThreadId) (member : MemberId) (request : SubmitPlan)
      (planDraws : PlanDraws)
  | amendPlan (parent : ThreadId) (member : MemberId) (request : AmendPlan)
      (planDraws : PlanDraws)
  | transition (thread : ThreadId) (actor : MemberId) (action : ThreadAction) (gate : GateId)
      (drawn : Draws)
  | landChange (thread : ThreadId) (actor : MemberId) (repo : String) (prNumber : Int)
      (review close : Draws)
  | cancel (thread : ThreadId) (actor : MemberId) (reason : String) (authority : CancelAuthority)
      (transition : TransitionId) (now ended : Int)
  | closeAbandoned (thread : ThreadId) (actor : MemberId) (maintainer : Bool)
      (close : CloseAbandoned) (reference : ReferenceId) (drawn : Draws)
  /-- `route_github_pull_request`: a merge is recorded, and the thread stays where it is. -/
  | landedFact (thread : ThreadId) (repo : String) (prNumber : Int)
  | pruneEvents (tables : RetentionTables) (cutoff maxId limit : Int)
  | pruneWorkspaceEvents (tables : RetentionTables) (workspace : WorkspaceId) (cutoff limit : Int)
  | claim (op : ClaimOp) (quiet : op.quiet = true)

/-- A transaction, with what it draws for its events and follow-ups. -/
def roomTx (env : RoomEnv) (s : PlanRoom) (draws : RoomDraws) : RoomOp → Except StoreError PlanRoom
  | .submitPlan parent member request planDraws =>
    submitPlan env draws s parent member request planDraws
  | .amendPlan parent member request planDraws =>
    amendPlan env draws s parent member request planDraws
  | .transition thread actor action gate drawn =>
    transitionWithEvent env draws s thread actor action gate drawn
  | .landChange thread actor repo prNumber review close =>
    landChange env draws s thread actor repo prNumber review close
  | .cancel thread actor reason authority transition now ended =>
    cancelThread env draws s thread actor reason authority transition now ended
  | .closeAbandoned thread actor maintainer close reference drawn =>
    closeAsAbandoned env draws s thread actor maintainer close reference drawn
  | .landedFact thread repo prNumber => appendEvent env draws s (.threadLanded thread repo prNumber)
  | .pruneEvents tables cutoff maxId limit =>
    .ok { s with log := pruneEvents s.log tables cutoff maxId limit }
  | .pruneWorkspaceEvents tables workspace cutoff limit =>
    .ok { s with log := pruneWorkspaceEvents s.log tables workspace cutoff limit }
  | .claim op _ => (step s.db op).map fun db => { s with db := db }

/-- One step of a run. -/
def roomNext (env : RoomEnv) (s : PlanRoom) (op : RoomDraws × RoomOp) : PlanRoom :=
  settle s (roomTx env s op.1 op.2)

end Maidan
