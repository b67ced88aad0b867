/-
# Creating a thread

`create` and `create_with_footprint` (`sqlite/threads.rs`): a thread under a parent, or a root, with
its footprint, attributes and priority.  `precheck` runs before the transaction: the parent is in the
channel, and the workspace's spawn budget has room for one more child at this depth.

`create` is `create_with_footprint` without the extras; the events are left out.
-/
import Maidan.Plan.Effects

namespace Maidan

open Relational Run

/-! ## 1. The checks -/

/-- `NewThread`. -/
structure NewThread where
  channelId : ChannelId
  parentThreadId : Option ThreadId := none
  title : Option String := none
  description : Option String := none
  createdBy : Option MemberId := none

/-- `validate_parent`. -/
def validateParent (db : Db) (channelId : ChannelId) : Option ThreadId → Except StoreError Unit
  | none => .ok ()
  | some parentId =>
    match db.threads.get? parentId with
    | none => .error .notFound
    | some parent =>
      if parent.channelId ≠ channelId then
        .error (.invalidInput "parent thread must be in the same channel")
      else if parent.tombstonedAt.isSome then .error .notFound
      else if parent.state = .archived then
        .error (.conflict "cannot create child under an archived parent")
      else .ok ()

/-- `enforce_spawn_budget`: one more child, one level below the parent. -/
def enforceSpawnBudget (db : Db) (channelId : ChannelId) : Option ThreadId → Except StoreError Unit
  | none => .ok ()
  | some parentId =>
    match (db.channels.get? channelId).map ChannelRow.workspaceId with
    | none => .ok ()
    | some workspaceId =>
      let refuse (axis : SpawnAxis) (limit observed : Int) : Except StoreError Unit :=
        .error (.spawnRejected
          { workspaceId := workspaceId, channelId := channelId, threadId := parentId, axis := axis,
            limit := limit, observed := observed })
      match db.spawnBudgets.get? workspaceId with
      | none => .ok ()
      | some budget => do
        (match budget.maxChildren with
          | none => .ok ()
          | some maxChildren =>
            let children := countActiveChildren db parentId
            if maxChildren ≤ children then refuse .children maxChildren children else .ok ())
        match budget.maxDepth with
        | none => .ok ()
        | some maxDepth =>
          let depth := threadDepth db parentId
          if maxDepth ≤ depth then refuse .depth maxDepth depth else .ok ()

/-- `precheck`. -/
def precheck (db : Db) (new : NewThread) : Except StoreError Unit := do
  validateParent db new.channelId new.parentThreadId
  enforceSpawnBudget db new.channelId new.parentThreadId

/-! ## 2. The transaction -/

/-- The row a create inserts. -/
def NewThread.row (new : NewThread) (id : ThreadId) (now : Int) : ThreadRow where
  id := id
  channelId := new.channelId
  parentThreadId := new.parentThreadId
  createdAt := now
  createdBy := new.createdBy

/-- The priority of a thread that is given one. -/
def insertPriority (db : Db) (id : ThreadId) : Option Int → Except StoreError Db
  | none => .ok db
  | some priority =>
    match db.threadPriorities.insert? { threadId := id, priority := priority } with
    | none => .error (.database "UNIQUE constraint failed: maidan_thread_priorities.thread_id")
    | some priorities => .ok { db with threadPriorities := priorities }

/-- `insert_on`. -/
def insertNewThread (hash : List (Option String) → String) (db : Db) (new : NewThread)
    (footprint : Option Footprint) (attributes : Option TaskAttributes) (priority : Option Int)
    (id : ThreadId) (now : Int) : Except StoreError Db :=
  match db.channels.get? new.channelId with
  | none => .error (.database "FOREIGN KEY constraint failed")
  | some channel => do
    let db ← db.insertThread (new.row id now)
    let db ← insertFootprint db id channel.workspaceId footprint
    let db ← insertDeclared db id attributes
    let db ← recordOn hash (applyDefaultEngineOn db id) id new.channelId new.title new.description
      (attributes.getD {}) now
    insertPriority db id priority

/-- A value the request may leave out, checked when it is there. -/
def validatedOption {α : Type} (validated : α → Except String α) :
    Option α → Except StoreError (Option α)
  | none => .ok none
  | some a => ((validated a).map some).mapError .invalidInput

/-- `create_with_footprint`. -/
def createWithFootprint (hash : List (Option String) → String) (db : Db) (new : NewThread)
    (footprint : Option Footprint) (attributes : Option TaskAttributes) (priority : Option Int)
    (id : ThreadId) (now : Int) : Except StoreError Db := do
  let attributes ← validatedOption TaskAttributes.validated attributes
  if priority.isSome ∧ new.createdBy.isNone then
    .error (.invalidInput "a priority at creation needs an attributed caller")
  else
    let footprint ← validatedOption Footprint.validated footprint
    precheck db new
    insertNewThread hash db new (footprint.filter fun f => !f.items.isEmpty) attributes priority id
      now

/-- `create`. -/
def create (hash : List (Option String) → String) (db : Db) (new : NewThread) (id : ThreadId)
    (now : Int) : Except StoreError Db := do
  precheck db new
  insertNewThread hash db new none none none id now

/-! ## 3. What a create leaves -/

variable {db db' : Db} {id : ThreadId} {priority : Option Int}
  {hash : List (Option String) → String}

theorem insertPriority_frame (h : insertPriority db id priority = .ok db') :
    db' = { db with threadPriorities := db'.threadPriorities } := by
  unfold insertPriority at h
  split at h
  · cases h
    rfl
  · split at h
    · cases h
    cases h
    rfl

/-- **What `insert_on` leaves**: the thread, with what is written beside it and its priority. -/
theorem insertNewThread_spec
    (h : insertNewThread hash db new footprint attributes priority id now = .ok db') :
    ∃ db1, Recorded hash db db1 (new.row id now) ∧
      db' = { db1 with threadPriorities := db'.threadPriorities } := by
  unfold insertNewThread at h
  split at h
  · cases h
  obtain ⟨db1, hthread, h⟩ := bind_ok h
  obtain ⟨db2, hfootprint, h⟩ := bind_ok h
  obtain ⟨db3, hdeclared, h⟩ := bind_ok h
  obtain ⟨db4, hrecord, h⟩ := bind_ok h
  refine ⟨db4, .of_insertThread hthread ?_ hrecord, insertPriority_frame h⟩
  rw [(applyDefaultEngineOn_spec db3 id).1, insertDeclared_frame hdeclared,
    (insertFootprint_spec hfootprint).1]

theorem createWithFootprint_spec
    (h : createWithFootprint hash db new footprint attributes priority id now = .ok db') :
    precheck db new = .ok () ∧ ∃ footprint attributes,
      insertNewThread hash db new footprint attributes priority id now = .ok db' := by
  obtain ⟨attributes, _, h⟩ := bind_ok h
  split at h
  · cases h
  obtain ⟨footprint, _, h⟩ := bind_ok h
  obtain ⟨_, hcheck, h⟩ := bind_ok h
  exact ⟨hcheck, _, _, h⟩

end Maidan
