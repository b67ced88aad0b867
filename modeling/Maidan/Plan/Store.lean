/-
# Plans in the store

`submit` and `amend` (`plans.rs`): the planner that holds a plan's live claim makes the plan's
children, and later changes them, each in one transaction.  The checks of `plan.rs` have run before
(`SubmitPlan.checked`, `AmendPlan.checked`).

The events, the notices and the audit rows are left out, as is what a cancelled child's close would
owe the plan: the child is taken out of the plan FIRST, so it owes nothing.
-/
import Maidan.Deps.Edges
import Maidan.Plan.Amendment
import Maidan.Task.Create

namespace Maidan

open Relational Run Digraph

/-! ## 1. The parent -/

/-- `Parent`. -/
structure PlanParent where
  channelId : ChannelId
  workspaceId : WorkspaceId
  assigneeId : Option MemberId
  claimLeaseId : Option ClaimLeaseId
  assignmentExpiresAt : Option Int
  kind : Option TaskKind

variable (db : Db) (parentId : ThreadId)

/-- `parent_row`. -/
def parentRow : Except StoreError PlanParent :=
  match db.threads.get? parentId with
  | none => .error .notFound
  | some t =>
    match db.channelOf t with
    | none => .error .notFound
    | some c =>
      if t.tombstonedAt.isSome then .error .notFound
      else .ok
        { channelId := t.channelId
          workspaceId := c.workspaceId
          assigneeId := t.assigneeId
          claimLeaseId := t.claimLeaseId
          assignmentExpiresAt := t.assignmentExpiresAt
          kind := (db.threadAttributes.get? parentId).map ThreadAttributesRow.kind }

/-- `hold_check`. -/
def holdCheck (parent : PlanParent) (member : MemberId) (lease : ClaimLeaseId) (now : Int) :
    Except StoreError Unit :=
  if parent.kind ≠ some .plan then
    .error (.conflict ("this thread is not a plan: only a thread with attributes.kind = plan " ++
      "takes children"))
  else if parent.assigneeId ≠ some member ∨ parent.claimLeaseId ≠ some lease ∨
      ¬(parent.assignmentExpiresAt.all fun expires => now < expires) then
    .error (.conflict ("only the member holding this plan's live claim, under that claim's " ++
      "lease_id, can submit its children"))
  else .ok ()

/-- `count_active_children`. -/
def countActiveChildren : Int :=
  (db.threads.rows.filter fun t =>
    t.parentThreadId == some parentId && t.tombstonedAt.isNone).length

/-- The chain of ancestors.  One without repetition is no longer than the table. -/
def ancestorDepth (db : Db) : Nat → Option ThreadId → Int
  | 0, _ => 0
  | _ + 1, none => 0
  | fuel + 1, some id =>
    match db.threads.get? id with
    | none => 0
    | some t => 1 + ancestorDepth db fuel t.parentThreadId

/-- `thread_depth`. -/
def threadDepth (thread : ThreadId) : Int :=
  ancestorDepth db db.threads.rows.length (some thread)

/-- `spawn_budget`. -/
def spawnBudget (parent : PlanParent) (adding : Int) : Except StoreError Unit :=
  let refuse (axis : SpawnAxis) (limit observed : Int) : Except StoreError Unit :=
    .error (.spawnRejected
      { workspaceId := parent.workspaceId, channelId := parent.channelId, threadId := parentId,
        axis := axis, limit := limit, observed := observed })
  match db.spawnBudgets.get? parent.workspaceId with
  | none => .ok ()
  | some budget => do
    (match budget.maxChildren with
      | none => .ok ()
      | some maxChildren =>
        let children := countActiveChildren db parentId
        if maxChildren < children + adding then refuse .children maxChildren (children + adding)
        else .ok ())
    match budget.maxDepth with
    | none => .ok ()
    | some maxDepth =>
      let depth := threadDepth db parentId
      if maxDepth ≤ depth then refuse .depth maxDepth depth else .ok ()

/-! ## 2. The children -/

/-- `lower(substr(selector, 1, length(repo) + 1)) = lower(repo) || '@'`. -/
def selectsRepo (repo selector : String) : Bool :=
  (selector.toList.take (repo.toList.length + 1)).map Char.toLower ==
    repo.toList.map Char.toLower ++ ['@']

/-- `check_repos_in_tx`. -/
def checkReposInTx (db : Db) (ws : WorkspaceId) : List PlanChild → Except StoreError Unit
  | [] => .ok ()
  | child :: rest =>
    match child.footprint with
    | none => checkReposInTx db ws rest
    | some footprint =>
      if db.egressTargets.rows.any fun e => e.workspaceId == ws &&
          e.surface == .githubBranch && selectsRepo footprint.repo e.selector then
        checkReposInTx db ws rest
      else .error (.invalidInput (aboutChild child.key ("repository " ++ footprint.repo ++
          " is not on this workspace's github_branch egress allowlist")))

/-- `INSERT INTO maidan_thread_plan_children`, with its key, the unique `child_thread_id` and the
foreign keys. -/
def Db.insertPlanChild (row : PlanChildRow) : Except StoreError Db :=
  if isPlanChild db row.childThreadId then
    .error (.database "UNIQUE constraint failed: maidan_thread_plan_children.child_thread_id")
  else if ¬((db.threadPlans.get? row.parentThreadId).isSome ∧ db.HasThread row.childThreadId) then
    .error (.database "FOREIGN KEY constraint failed")
  else
    match db.threadPlanChildren.insert? row with
    | none => .error (.database "UNIQUE constraint failed: maidan_thread_plan_children")
    | some children => .ok { db with threadPlanChildren := children }

/-- The footprint of a child that has one. -/
def insertFootprint (id : ThreadId) (ws : WorkspaceId) : Option Footprint → Except StoreError Db
  | none => .ok db
  | some footprint => insertItemsOn db id ws footprint footprint.items

/-- The attributes of a child that has some. -/
def insertDeclared (id : ThreadId) : Option TaskAttributes → Except StoreError Db
  | none => .ok db
  | some attributes => insertOn db id attributes

/-- What a plan's transaction draws: the threads of its new children, the transitions of those it
cancels with their readings of the clock, the instants of the hold check and of the writes, and the
reading of the clock that the fingerprint at each position takes for itself. -/
structure PlanDraws where
  thread : Nat → ThreadId
  transition : Nat → TransitionId
  cancelledAt : Nat → Int × Int
  heldAt : Int
  now : Int
  recordedAt : Nat → Int := fun _ => now

section Children

variable (hash : List (Option String) → String) (parent : PlanParent) (parentId : ThreadId)
  (member : MemberId) (draws : PlanDraws)

/-- The row of a child. -/
def planThread (id : ThreadId) : ThreadRow where
  id := id
  channelId := parent.channelId
  parentThreadId := some parentId
  createdAt := draws.now
  createdBy := some member

/-- The body of the loop of `insert_children_in_tx`. -/
def insertChildInTx (db : Db) (child : PlanChild) (id : ThreadId) (position : Nat) :
    Except StoreError Db := do
  let db ← db.insertThread (planThread parent parentId member draws id)
  let db ← insertFootprint db id parent.workspaceId child.footprint
  let db ← insertDeclared db id child.attributes
  let db := applyDefaultEngineOn db id
  let db ← recordOn hash db id parent.channelId (some child.title) child.description
    (child.attributes.getD {}) (draws.recordedAt position)
  db.insertPlanChild
    { parentThreadId := parentId, childKey := child.key, childThreadId := id,
      position := position }

/-- `insert_children_in_tx`, from the `i`-th draw on. -/
def insertChildrenInTx (firstPosition : Nat) :
    Nat → Db → List PlanChild → Except StoreError (Db × List PlannedChild)
  | _, db, [] => .ok (db, [])
  | i, db, child :: rest => do
    let db ← insertChildInTx hash parent parentId member draws db child (draws.thread i)
      (firstPosition + i)
    let (db, children) ← insertChildrenInTx firstPosition (i + 1) db rest
    return (db, { key := child.key, threadId := draws.thread i } :: children)

end Children

/-- The thread a plan made for a key. -/
def plannedThread (children : List PlannedChild) (key : String) : Option ThreadId :=
  (children.find? fun c => c.key = key).map PlannedChild.threadId

/-- `hold_in_tx`. -/
def holdInTx : Db → List PlannedChild → Except StoreError Db
  | db, [] => .ok db
  | db, child :: rest =>
    match db.threadBlocks.insert? { threadId := child.threadId, note := some planHoldNote } with
    | none => .error (.database "UNIQUE constraint failed: maidan_thread_blocks.thread_id")
    | some blocks => holdInTx { db with threadBlocks := blocks } rest

/-- `hold_in_tx`, where the plan is held. -/
def holdIf (held : Bool) (db : Db) (children : List PlannedChild) : Except StoreError Db :=
  if held then holdInTx db children else .ok db

/-! ## 3. `submit` -/

/-- `PlanOutcome`. -/
inductive PlanOutcome
  | created (children : List PlannedChild)
  | replayed (children : List PlannedChild)
  | conflict (children : List PlannedChild)
deriving DecidableEq, Repr

/-- The plan's child rows, `ORDER BY position`. -/
def planRows : List PlanChildRow :=
  (db.threadPlanChildren.rows.filter fun c => c.parentThreadId == parentId).insertionSort
    fun a b => a.position ≤ b.position

/-- `existing`: what an earlier plan on this parent means for this one. -/
def existingPlan (plan : SubmitPlan) : Option PlanOutcome :=
  (db.threadPlans.get? parentId).map fun earlier =>
    let children := (planRows db parentId).map fun c =>
      ({ key := c.childKey, threadId := c.childThreadId } : PlannedChild)
    let sameKeys := children.length == plan.children.length &&
      children.all fun c => (plan.children.map PlanChild.key).contains c.key
    if earlier.leaseId = plan.leaseId ∧ sameKeys then .replayed children else .conflict children

/-- `INSERT INTO maidan_thread_plans`. -/
def Db.insertPlan (row : PlanRow) : Except StoreError Db :=
  match db.threadPlans.insert? row with
  | none => .error (.database "UNIQUE constraint failed: maidan_thread_plans.parent_thread_id")
  | some plans => .ok { db with threadPlans := plans }

/-- The dependencies of the new children; a key the plan did not make is passed over. -/
def insertPlanDeps (made : List PlannedChild) : Db → List PlanChild → Except StoreError Db
  | db, [] => .ok db
  | db, child :: rest =>
    match plannedThread made child.key with
    | none => insertPlanDeps made db rest
    | some this => do
      let db ← insertEach db this .ok (child.dependsOn.filterMap (plannedThread made))
      insertPlanDeps made db rest

/-- What `submit` does before its transaction: the parent, or the answer when there is a plan. -/
def submitReads (db : Db) (parentId : ThreadId) (member : MemberId) (plan : SubmitPlan)
    (heldAt : Int) : Except StoreError (PlanParent ⊕ PlanOutcome) := do
  let parent ← parentRow db parentId
  holdCheck parent member plan.leaseId heldAt
  match existingPlan db parentId plan with
  | some outcome => return .inr outcome
  | none => do
    spawnBudget db parentId parent plan.children.length
    return .inl parent

/-- The transaction of `submit`. -/
def submitInTx (hash : List (Option String) → String) (db : Db) (parent : PlanParent)
    (parentId : ThreadId) (member : MemberId) (plan : SubmitPlan) (draws : PlanDraws) :
    Except StoreError (Db × List PlannedChild) := do
  checkReposInTx db parent.workspaceId plan.children
  let db ← db.insertPlan { parentThreadId := parentId, leaseId := plan.leaseId }
  let (db, children) ← insertChildrenInTx hash parent parentId member draws 0 0 db plan.children
  let db ← insertPlanDeps children db plan.children
  let db ← holdIf plan.needsHold db children
  return (db, children)

/-- `submit`. -/
def submit (hash : List (Option String) → String) (db : Db) (parentId : ThreadId)
    (member : MemberId) (plan : SubmitPlan) (draws : PlanDraws) :
    Except StoreError (Db × PlanOutcome) := do
  match ← submitReads db parentId member plan draws.heldAt with
  | .inr outcome => return (db, outcome)
  | .inl parent => do
    let (db, children) ← submitInTx hash db parent parentId member plan draws
    return (db, .created children)

/-! ## 4. `amend` -/

/-- The plan's children as an amendment reads them, without their dependencies. -/
def amendRows : List (PlanChildRow × ThreadRow) :=
  (planRows db parentId).filterMap fun c => (db.threads.get? c.childThreadId).map fun t => (c, t)

/-- The keys a child of the plan waits for, of those in the plan. -/
def dependsOnKeys (parentId thread : ThreadId) : List String :=
  (db.threadDependencies.rows.filter fun d => d.threadId == thread).filterMap fun d =>
    ((amendRows db parentId).find? fun r => r.1.childThreadId = d.dependsOnThreadId).map
      fun r => r.1.childKey

/-- `existing`, as the store hands it to `steps`. -/
def existingChildren : List ExistingPlanChild :=
  (amendRows db parentId).map fun r =>
    { key := r.1.childKey
      threadId := r.1.childThreadId
      unclaimed := r.2.state == .open && r.2.assigneeId.isNone
      dependsOn := dependsOnKeys db parentId r.1.childThreadId }

/-- `next_position`. -/
def nextPosition : Nat :=
  (amendRows db parentId).foldl (fun next r => max next (r.1.position + 1)) 0

/-- A child of the plan is held for review. -/
def planIsHeld : Bool :=
  db.threadPlanChildren.rows.any fun c => c.parentThreadId == parentId &&
    match db.threadBlocks.get? c.childThreadId with
    | none => false
    | some b => b.note == some planHoldNote

/-- `DELETE FROM maidan_thread_plan_children WHERE child_thread_id = …` and
`DELETE FROM maidan_thread_dependencies WHERE depends_on_thread_id = …`. -/
def Db.takeOut (child : ThreadId) : Db :=
  { db with
    threadPlanChildren := db.threadPlanChildren.deleteWhere fun c => c.childThreadId == child
    threadDependencies := db.threadDependencies.deleteWhere fun d =>
      d.dependsOnThreadId == child }

/-- The cancel loop, from the `i`-th draw on. -/
def cancelChildren (member : MemberId) (reason : String) (draws : PlanDraws) :
    Nat → Db → List PlannedChild → Except StoreError Db
  | _, db, [] => .ok db
  | i, db, child :: rest => do
    let (db, outcome) ← cancelInTx (db.takeOut child.threadId) child.threadId member reason
      .transition (draws.transition i) (draws.cancelledAt i).1 (draws.cancelledAt i).2
    if outcome = .cancelled then cancelChildren member reason draws (i + 1) db rest
    else .error (.conflict ("child \x60" ++ child.key ++ "\x60 finished while the amendment ran"))

/-- `thread_of`: the children that stay, then the added ones; a later entry wins. -/
def threadOf (existing : List ExistingPlanChild) (steps : AmendmentSteps)
    (added : List PlannedChild) : List (String × ThreadId) :=
  ((existing.filter fun c => !(steps.cancel.any fun x => x.threadId == c.threadId)).map
    fun c => (c.key, c.threadId)) ++ added.map fun c => (c.key, c.threadId)

/-- `wire`. -/
def wire (threads : List (String × ThreadId)) (key : String) : Except StoreError ThreadId :=
  match lastOf threads key with
  | none => .error (.invalidInput
      ("\x60" ++ key ++ "\x60 is not a key the amended plan keeps"))
  | some thread => .ok thread

/-- The dependencies of the added children. -/
def wireAdded (threads : List (String × ThreadId)) : Db → List PlanChild → Except StoreError Db
  | db, [] => .ok db
  | db, child :: rest => do
    let this ← wire threads child.key
    let db ← insertEach db this (wire threads) child.dependsOn
    wireAdded threads db rest

/-- A child's dependencies on the plan's children are dropped. -/
def Db.dropPlanDeps (parentId this : ThreadId) : Db :=
  { db with
    threadDependencies := db.threadDependencies.deleteWhere fun d =>
      d.threadId == this && db.threadPlanChildren.rows.any fun c =>
        c.parentThreadId == parentId && c.childThreadId == d.dependsOnThreadId }

/-- The rewritten children: what they waited for in the plan, replaced. -/
def wireRewritten (threads : List (String × ThreadId)) (parentId : ThreadId) :
    Db → List KeyNode → Except StoreError Db
  | db, [] => .ok db
  | db, (key, deps) :: rest => do
    let this ← wire threads key
    let db ← insertEach (db.dropPlanDeps parentId this) this (wire threads) deps
    wireRewritten threads parentId db rest

/-- `refusal`. -/
def AmendRefusal.storeError : AmendRefusal → StoreError
  | .invalid why => .invalidInput why
  | .settled why => .conflict why

/-- `PlanAmendment`. -/
structure PlanAmendment where
  cancelled : List PlannedChild
  added : List PlannedChild
  rewired : List String
  amendments : Int
  held : Bool

/-- The plan's amendments so far, and whether it takes one more. -/
def amendmentsSoFar : Except StoreError Int :=
  match db.threadPlans.get? parentId with
  | none => .error (.conflict "this plan has no children yet: submit it first")
  | some plan =>
    if planMaxAmendments ≤ plan.amendments then
      .error (.conflict ("this plan has been amended " ++ toString plan.amendments ++
        " times, the most it takes"))
    else .ok plan.amendments

/-- The spawn budget of what an amendment adds on balance. -/
def netSpawnBudget (parent : PlanParent) (netAdding : Int) : Except StoreError Unit :=
  if 0 < netAdding then spawnBudget db parentId parent netAdding else .ok ()

/-- `amend`, the writes, once the steps are known. -/
def amendInTx (hash : List (Option String) → String) (db : Db) (parent : PlanParent)
    (parentId : ThreadId) (member : MemberId) (amend : AmendPlan) (steps : AmendmentSteps)
    (draws : PlanDraws) : Except StoreError (Db × List PlannedChild × Bool) := do
  let existing := existingChildren db parentId
  let held := amend.addsNeedHold || planIsHeld db parentId
  let position := nextPosition db parentId
  let db ← cancelChildren member (amend.reason.getD planAmendCancelReason) draws 0 db steps.cancel
  let (db, added) ← insertChildrenInTx hash parent parentId member draws position 0 db steps.add
  let threads := threadOf existing steps added
  let db ← wireAdded threads db steps.add
  let db ← wireRewritten threads parentId db steps.rewrite
  let db ← holdIf held db added
  let db :=
    { db with
      threadPlans := db.threadPlans.update parentId fun p =>
        { p with amendments := p.amendments + 1 } }
  return (db, added, held)

/-- What `amend` does before its transaction. -/
def amendReads (db : Db) (parentId : ThreadId) (member : MemberId) (amend : AmendPlan)
    (heldAt : Int) : Except StoreError PlanParent := do
  let parent ← parentRow db parentId
  holdCheck parent member amend.leaseId heldAt
  netSpawnBudget db parentId parent (amend.add.length - amend.cancel.length)
  return parent

/-- The transaction of `amend`. -/
def amendTx (hash : List (Option String) → String) (db : Db) (parent : PlanParent)
    (parentId : ThreadId) (member : MemberId) (amend : AmendPlan) (draws : PlanDraws) :
    Except StoreError (Db × PlanAmendment) := do
  let amendments ← amendmentsSoFar db parentId
  match amend.steps (existingChildren db parentId) with
  | .error refusal => .error refusal.storeError
  | .ok steps => do
    checkReposInTx db parent.workspaceId steps.add
    let (db, added, held) ← amendInTx hash db parent parentId member amend steps draws
    return (db,
      { cancelled := steps.cancel, added := added, rewired := steps.rewrite.map Prod.fst,
        amendments := amendments + 1, held := held })

/-- `amend`. -/
def amend (hash : List (Option String) → String) (db : Db) (parentId : ThreadId)
    (member : MemberId) (amend : AmendPlan) (draws : PlanDraws) :
    Except StoreError (Db × PlanAmendment) := do
  let parent ← amendReads db parentId member amend draws.heldAt
  amendTx hash db parent parentId member amend draws

end Maidan
