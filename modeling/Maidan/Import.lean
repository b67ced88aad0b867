/-
# Workspace import, and walking up the thread tree

`thread_depth` follows `parent_thread_id` with `UNION ALL` and no visited set: it ends for every
thread iff the links lead up level by level (`Levelled`).  A creation, a plan and a recipe hang new
threads under one that is there.  An import takes its links from a file: `validate_import` asks that
a parent is in the bundle, and the foreign key, checked row by row, that it is there by then; a
thread that names ITSELF passes both.  That is the only way in: without one the walk always ends
(`walking_up_ends`), with one it never does (`import_of_a_loop`).

Of a bundle only what leads to `maidan_threads` is here: its messages, edits, pins and references
name threads and write none, and a name another row has taken only refuses more.
-/
import Maidan.Plan.SpawnBudget

namespace Maidan

open Relational Table Run Digraph

/-! ## 1. The import -/

/-- `WorkspaceImport`. -/
structure WorkspaceImport where
  workspace : WorkspaceId
  members : List MemberRow := []
  channels : List ChannelRow := []
  channelMembers : List ChannelMemberRow := []
  threads : List ThreadRow := []

/-- An entity that a bundle's row names. -/
def inBundle (kind : String) (ids : List Nat) (what : String) (id : Nat) : Except String Unit :=
  if id ∈ ids then .ok () else .error s!"{what} names {kind} {id}, which is not in the bundle"

/-- An entity of the bundle's own workspace. -/
def ownedBy (ws : WorkspaceId) (what : String) (id : Nat) (owner : WorkspaceId) :
    Except String Unit :=
  if owner = ws then .ok ()
  else .error (s!"{what} {id} belongs to workspace " ++ toString owner.val ++
    ", not the imported workspace")

namespace WorkspaceImport

variable (b : WorkspaceImport)

/-- `validate_import`. -/
def validateImport : Except String Unit := do
  b.members.forM fun m => ownedBy b.workspace "member" m.id.val m.workspaceId
  b.channels.forM fun c => ownedBy b.workspace "channel" c.id.val c.workspaceId
  let member := inBundle "member" (b.members.map fun m => m.id.val)
  let channel := inBundle "channel" (b.channels.map fun c => c.id.val)
  let thread := inBundle "thread" (b.threads.map fun t => t.id.val)
  b.channelMembers.forM fun cm => do
    channel "a channel membership" cm.channelId.val
    member "a channel membership" cm.memberId.val
  b.threads.forM fun t => do
    let what := "thread " ++ toString t.id.val
    channel what t.channelId.val
    t.parentThreadId.forM fun p => thread (what ++ " as parent") p.val
    t.assigneeId.forM fun a => member (what ++ " as holder") a.val
    t.ownerId.forM fun o => member (what ++ " as owner") o.val
    t.createdBy.forM fun c => member (what ++ " as creator") c.val

/-- The holders, asked once more. -/
def holdersCheck : Except StoreError Unit :=
  b.threads.forM fun t => t.assigneeId.forM fun holder =>
    if b.members.any fun m => m.id = holder && m.workspaceId = b.workspace then .ok ()
    else .error (.invalidInput ("thread " ++ toString t.id.val ++ " is held by member " ++
      toString holder.val ++ ", who is not a member of the imported workspace"))

end WorkspaceImport

/-- One thread: the columns the `INSERT` names, and the holder's row. -/
def importThread (db : Db) (t : ThreadRow) : Except StoreError Db :=
  if t.parentThreadId.any fun p => p ≠ t.id && (db.threads.get? p).isNone then
    .error (.database "FOREIGN KEY constraint failed")
  else do
    let db ← db.insertThread { t with claimedAt := none, ownerId := none, createdBy := none }
    return match t.assigneeId with
      | none => db
      | some holder => recordInTx db t.id holder none

/-- What an `INSERT` of a key that is taken fails with. -/
def uniqueKey {α : Type} (columns : String) : Option α → Except StoreError α
  | none => .error (.database ("UNIQUE constraint failed: " ++ columns))
  | some a => .ok a

/-- `import_on`. -/
def importOn (db : Db) (b : WorkspaceImport) : Except StoreError Db := do
  badRequest b.validateImport
  let workspaces ← uniqueKey "maidan_workspaces.id" (db.workspaces.insert? { id := b.workspace })
  let members ← uniqueKey "maidan_members.id" (b.members.foldlM insert? db.members)
  let channels ← uniqueKey "maidan_channels.id" (b.channels.foldlM insert? db.channels)
  let channelMembers ←
    uniqueKey "maidan_channel_members.channel_id, maidan_channel_members.member_id"
      (b.channelMembers.foldlM insert? db.channelMembers)
  b.holdersCheck
  b.threads.foldlM importThread { db with
    workspaces := workspaces, members := members, channels := channels,
    channelMembers := channelMembers }

/-! ## 2. The walk -/

section Walk

variable (db : Db)

/-- The row that round `n` of `thread_depth`'s recursion adds. -/
def ancestorRow : Nat → ThreadId → Option ThreadRow
  | 0, id => db.threads.get? id
  | n + 1, id => (db.threads.get? id).bind fun t => t.parentThreadId.bind (ancestorRow n)

/-- **`c` hangs under `p`.** -/
def Under (c p : ThreadId) : Prop :=
  ∃ t, db.threads.get? c = some t ∧ t.parentThreadId = some p

/-- **Every parent is there, and higher.** -/
def Levelled : Prop :=
  ∃ level : ThreadId → Nat, ∀ {c p}, Under db c p → db.HasThread p ∧ level p < level c

end Walk

/-- **What a forced restore erases first**: a link to an erased thread is set to `NULL`. -/
structure Erasure where
  run : Db → Db
  fewer : ∀ {db c p}, Under (run db) c p → Under db c p
  kept : ∀ {db c p}, Under (run db) c p → db.HasThread p → (run db).HasThread p

/-- `erase_on`, as far as an import writes: the deletion cascades from the workspace's row. -/
def eraseOn (ws : WorkspaceId) (db : Db) : Db :=
  let gone (id : ThreadId) : Bool := (db.threads.get? id).any fun t => db.workspaceOf t == some ws
  { db with
    workspaces := db.workspaces.deleteWhere fun w => w.id == ws
    members := db.members.deleteWhere fun m => m.workspaceId == ws
    channels := db.channels.deleteWhere fun c => c.workspaceId == ws
    channelMembers := db.channelMembers.deleteWhere fun cm =>
      (db.channels.get? cm.channelId).any fun c => c.workspaceId == ws
    threads := (db.threads.deleteWhere fun t => gone t.id).updateWhere
      (fun t => t.parentThreadId.any gone) fun t => { t with parentThreadId := none } }

variable {db db' : Db} {id : ThreadId} {d : Nat} {hash : List (Option String) → String}

theorem under_eraseOn (h : Under (eraseOn ws db) c p) :
    Under db c p ∧ (db.HasThread p → (eraseOn ws db).HasThread p) := by
  obtain ⟨t, ht, hp⟩ := h
  simp only [eraseOn, get?_updateWhere, get?_deleteWhere, Option.map_eq_some_iff,
    Option.filter_eq_some_iff] at ht
  obtain ⟨r, ⟨hr, -⟩, rfl⟩ := ht
  split at hp
  · cases hp
  rename_i hstays
  refine ⟨⟨r, hr, hp⟩, fun hthere => ?_⟩
  -- the parent's row stays, or the link to it would be gone
  obtain ⟨q, hq⟩ := isSome_iff_exists.mp hthere
  simp only [hp, hq, Option.any_some] at hstays
  simp [Db.HasThread, eraseOn, get?_updateWhere, get?_deleteWhere, hq, key_of_get? hq, hstays]

def Erasure.ofWorkspace (ws : WorkspaceId) : Erasure where
  run := eraseOn ws
  fewer := fun h => (under_eraseOn h).1
  kept := fun h => (under_eraseOn h).2

theorem DepthAt.ancestorRow_isSome (h : DepthAt db id d) (n : Nat) :
    (ancestorRow db n id).isSome ↔ n < d := by
  induction h generalizing n with
  | root hget hroot => cases n <;> simp [ancestorRow, hget, hroot]
  | child hget hparent _ ih => cases n <;> simp [ancestorRow, hget, hparent, ih]

namespace Levelled

theorem acyclic (hs : Levelled db) : Acyclic (Under db) := by
  obtain ⟨level, hlevel⟩ := hs
  refine Acyclic.of_label (fun id n => n = level id) ?_ (Acyclic.of_lt fun _ _ h => h) ?_
  · rintro _ _ _ rfl rfl
    rfl
  · exact fun _ _ h => ⟨_, _, rfl, rfl, (hlevel h).2⟩

theorem depthAt (hs : Levelled db) (hid : db.HasThread id) : ∃ d, DepthAt db id d := by
  obtain ⟨level, hlevel⟩ := hs
  induction hn : level id using Nat.strong_induction_on generalizing id with
  | _ n ih =>
    subst hn
    obtain ⟨t, ht⟩ := isSome_iff_exists.mp hid
    cases hparent : t.parentThreadId with
    | none => exact ⟨1, .root ht hparent⟩
    | some p =>
      obtain ⟨hp, hlt⟩ := hlevel ⟨t, ht, hparent⟩
      obtain ⟨d, hd⟩ := ih _ hlt hp rfl
      exact ⟨d + 1, .child ht hparent hd⟩

variable (hs : Levelled db)
include hs

/-- A new thread goes one level below its parent. -/
theorem grown (h : Grown db db' parent channel ids)
    (hparent : ∀ p, parent = some p → db.HasThread p) : Levelled db' := by
  obtain ⟨level, hlevel⟩ := hs
  refine ⟨fun id => if db.HasThread id then level id else parent.elim 0 level + 1, ?_⟩
  rintro c p ⟨t', ht', hp⟩
  cases hold : db.threads.get? c with
  | some t =>
    have hsame : t'.parentThreadId = t.parentThreadId := (h.samePlace hold ht').2.1
    obtain ⟨hin, hlt⟩ := hlevel ⟨t, hold, hsame.symm.trans hp⟩
    have hc : db.HasThread c := isSome_of_eq_some hold
    simp only [if_pos hin, if_pos hc]
    exact ⟨h.hasThread hin, hlt⟩
  | none =>
    obtain rfl := (h.fresh ht' hold).2.1.symm.trans hp
    have hin := hparent p rfl
    have hc : ¬db.HasThread c := by simp [Db.HasThread, hold]
    simp only [if_pos hin, if_neg hc]
    exact ⟨h.hasThread hin, Nat.lt_succ_self _⟩

theorem of_threads (h : db'.threads = db.threads) : Levelled db' :=
  hs.grown (Grown.of_threads h : Grown db db' none ⟨0⟩ []) nofun

theorem created (h : Created db db' row) (hp : ∀ p, row.parentThreadId = some p → db.HasThread p) :
    Levelled db' :=
  hs.grown h.grown hp

theorem erased (e : Erasure) : Levelled (e.run db) := by
  obtain ⟨level, hlevel⟩ := hs
  exact ⟨level, fun h => ⟨e.kept h (hlevel (e.fewer h)).1, (hlevel (e.fewer h)).2⟩⟩

/-! ## 3. The writers -/

theorem insertNewThread (hcheck : precheck db new = .ok ())
    (h : insertNewThread hash db new footprint attributes priority id now = .ok db') :
    Levelled db' := by
  obtain ⟨db1, hcreated, hframe⟩ := insertNewThread_spec h
  refine (hs.created hcreated.toCreated fun p hp => ?_).of_threads (by rw [hframe])
  obtain ⟨r, hr, _⟩ := precheck_parent hcheck hp
  exact isSome_of_eq_some hr

theorem spawnTx (h : spawnTx hash db op = .ok db') : Levelled db' := by
  have hparent : ∀ {parent parentId}, parentRow db parentId = .ok parent →
      ∀ p, some parentId = some p → db.HasThread p := by
    rintro parent _ hrow _ ⟨⟩
    obtain ⟨t, ht, _⟩ := parentRow_spec hrow
    exact isSome_of_eq_some ht
  cases op with
  | create =>
    obtain ⟨_, hcheck, h⟩ := bind_ok h
    exact hs.insertNewThread hcheck h
  | createWithFootprint =>
    obtain ⟨hcheck, _, _, h⟩ := createWithFootprint_spec h
    exact hs.insertNewThread hcheck h
  | submitPlan =>
    obtain ⟨_, _, h⟩ := bind_ok h
    obtain ⟨⟨_, _⟩, hsubmit, h⟩ := bind_ok h
    cases h
    rcases submit_cases hsubmit with
      ⟨rfl, _⟩ | ⟨_, _, _, _, _, hrow, _, _, hinsert, hmade, hdeps, hhold, _⟩
    · exact hs
    · exact hs.grown (submit_grown hinsert hmade hdeps hhold).1 (hparent hrow)
  | amendPlan =>
    obtain ⟨_, _, h⟩ := bind_ok h
    obtain ⟨⟨_, _⟩, hamend, h⟩ := bind_ok h
    cases h
    obtain ⟨_, _, _, hrow, _, _, _, _, hwrites, _⟩ := amend_cases hamend
    exact hs.grown (amendInTx_grown hwrites).1 (hparent hrow)
  | claim => exact hs.grown (step_grown h : Grown db db' none ⟨0⟩ []) nofun

/-- The children of a recipe's run, one by one under its root. -/
theorem recipeChildren (hroot : db.HasThread root)
    (h : insertRecipeChildren hash recipe root actor draws i db children = .ok (db', ids)) :
    Levelled db' := by
  induction children generalizing i db ids with
  | nil =>
    cases h
    exact hs
  | cons child rest ih =>
    obtain ⟨db1, hthread, h⟩ := bind_ok h
    obtain ⟨⟨_, _⟩, hrest, h⟩ := bind_ok h
    cases h
    have hcreated := insertRecipeThread_recorded hthread
    have hr : Levelled db1 := hs.created hcreated.toCreated fun _ hp => Option.some.inj hp ▸ hroot
    have hskills : Levelled (insertSkills db1 (draws.thread i) child.requiredSkills) :=
      hr.of_threads rfl
    exact ih hskills (hcreated.grown.hasThread hroot) hrest

theorem instantiate (h : instantiate hash db recipe params actor draws = .ok (db', run)) :
    Levelled db' := by
  unfold Maidan.instantiate at h
  split at h
  · cases h
  obtain ⟨db1, hroot, h⟩ := bind_ok h
  obtain ⟨⟨db2, ids⟩, hchildren, h⟩ := bind_ok h
  obtain ⟨db3, hdeps, h⟩ := bind_ok h
  obtain ⟨db4, hrun, h⟩ := bind_ok h
  cases h
  have hcreated := insertRecipeThread_recorded hroot
  have hr : Levelled db1 := hs.created hcreated.toCreated nofun
  refine (hr.recipeChildren ?_ hchildren).of_threads ?_
  · exact isSome_of_eq_some hcreated.self
  · rw [insertRunChildren_frame hrun, (insertRecipeDeps_spec hdeps).frame]

/-- A thread that does not name itself hangs under one that is there. -/
theorem importThread (ht : t.parentThreadId ≠ some t.id) (h : importThread db t = .ok db') :
    Levelled db' := by
  unfold Maidan.importThread at h
  split at h
  · cases h
  rename_i hkey
  obtain ⟨db1, hins, h⟩ := bind_ok h
  have hr : Levelled db1 := by
    refine hs.created (Created.of_insertThread hins rfl) fun p hp => ?_
    change t.parentThreadId = some p at hp
    have hne : p ≠ t.id := fun he => ht (he ▸ hp)
    simpa [hp, hne, Db.HasThread, Option.isSome_iff_ne_none] using hkey
  cases h
  split
  · exact hr
  · exact hr.of_threads rfl

theorem importOn (hb : ∀ t ∈ b.threads, t.parentThreadId ≠ some t.id) (h : importOn db b = .ok db') :
    Levelled db' := by
  obtain ⟨_, _, h⟩ := bind_ok h
  obtain ⟨_, _, h⟩ := bind_ok h
  obtain ⟨_, _, h⟩ := bind_ok h
  obtain ⟨_, _, h⟩ := bind_ok h
  obtain ⟨_, _, h⟩ := bind_ok h
  obtain ⟨_, _, h⟩ := bind_ok h
  refine foldlM_inv b.threads (fun _ _ t ht (hr : Levelled _) => hr.importThread (hb t ht)) ?_ h
  exact hs.of_threads rfl

end Levelled

/-! ## 4. Every run -/

/-- A writer of the thread tree.  An import that replaces a workspace erases it first. -/
inductive TreeOp
  | spawn (op : SpawnOp)
  | instantiate (recipe : Recipe) (params : RecipeParams) (actor : MemberId) (draws : RecipeDraws)
  | importWorkspace (replaced : Option Erasure) (bundle : WorkspaceImport)

/-- One transaction. -/
def treeTx (hash : List (Option String) → String) (db : Db) : TreeOp → Except StoreError Db
  | .spawn op => spawnTx hash db op
  | .instantiate recipe params actor draws => do
    let (db, _) ← Maidan.instantiate hash db recipe params actor draws
    return db
  | .importWorkspace replaced bundle => importOn (replaced.elim db fun e => e.run db) bundle

/-- A refused request rolls back. -/
def treeNext (hash : List (Option String) → String) (db : Db) (op : TreeOp) : Db :=
  settle db (treeTx hash db op)

/-- **No imported thread is its own parent.** -/
def TreeOp.loopFree : TreeOp → Prop
  | .importWorkspace _ b => ∀ t ∈ b.threads, t.parentThreadId ≠ some t.id
  | _ => True

theorem Levelled.treeNext (hs : Levelled db) (hop : op.loopFree) :
    Levelled (treeNext hash db op) := by
  unfold Maidan.treeNext
  cases h : treeTx hash db op with
  | error => exact hs
  | ok =>
    cases op with
    | spawn => exact hs.spawnTx h
    | instantiate =>
      obtain ⟨⟨_, _⟩, hrun, h⟩ := bind_ok h
      cases h
      exact hs.instantiate hrun
    | importWorkspace replaced =>
      cases replaced with
      | none => exact hs.importOn hop h
      | some e => exact (hs.erased e).importOn hop h

/-- **Walking up ends**, whatever was created, planned, instantiated and imported, where no imported
thread is its own parent: the links have no cycle, and `thread_depth`'s recursion adds a row in its
first `d` rounds and then none, for the depth `d` that the budget check reads. -/
theorem walking_up_ends (hash : List (Option String) → String) {db : Db} (hs : Levelled db)
    (ops : List TreeOp) (hops : ∀ op ∈ ops, op.loopFree) :
    Acyclic (Under (exec (treeNext hash) db ops)) ∧
      ∀ id, ∃ d : Nat, (∀ n, (ancestorRow (exec (treeNext hash) db ops) n id).isSome ↔ n < d) ∧
        threadDepth (exec (treeNext hash) db ops) id = d := by
  have hr : Levelled (exec (treeNext hash) db ops) :=
    exec_inv_of_mem ops (fun _ op hop h => h.treeNext (hops op hop)) hs
  refine ⟨hr.acyclic, fun id => ?_⟩
  cases hid : (exec (treeNext hash) db ops).threads.get? id with
  | none =>
    refine ⟨0, fun n => by cases n <;> simp [ancestorRow, hid], ?_⟩
    unfold threadDepth
    cases (exec (treeNext hash) db ops).threads.rows.length <;> simp [ancestorDepth, hid]
  | some t =>
    obtain ⟨d, hd⟩ := hr.depthAt (isSome_of_eq_some hid)
    exact ⟨d, hd.ancestorRow_isSome, hd.threadDepth_eq⟩

/-- A bundle with one channel. -/
def bundleOf (threads : List ThreadRow) : WorkspaceImport where
  workspace := ⟨1⟩
  channels := [{ id := ⟨1⟩, workspaceId := ⟨1⟩, name := "general" }]
  threads := threads

/-- A thread and its child come from a bundle, and another is created under the child; then a bundle
with the first under the third replaces the workspace. -/
def importedFamily : List TreeOp :=
  [.importWorkspace none (bundleOf [{ id := ⟨1⟩, channelId := ⟨1⟩ },
      { id := ⟨2⟩, channelId := ⟨1⟩, parentThreadId := some ⟨1⟩ }]),
    .spawn (.create { channelId := ⟨1⟩, parentThreadId := some ⟨2⟩ } ⟨3⟩ 0),
    .importWorkspace (some (.ofWorkspace ⟨1⟩)) (bundleOf [{ id := ⟨3⟩, channelId := ⟨1⟩ },
      { id := ⟨1⟩, channelId := ⟨1⟩, parentThreadId := some ⟨3⟩ }])]

theorem walking_up_ends_importedFamily :
    threadDepth (exec (treeNext plainHash) {} importedFamily) ⟨1⟩ = 2 ∧
      Acyclic (Under (exec (treeNext plainHash) {} importedFamily)) := by
  refine ⟨by decide +kernel, (walking_up_ends _ ⟨fun _ => 0, ?_⟩ importedFamily ?_).1⟩
  · rintro _ _ ⟨_, ⟨⟩, _⟩
  simp [importedFamily, TreeOp.loopFree, bundleOf]

/-- A bundle whose one thread is its own parent. -/
def loopBundle : WorkspaceImport :=
  bundleOf [{ id := ⟨1⟩, channelId := ⟨1⟩, parentThreadId := some ⟨1⟩ }]

/-- **The loop is imported**, and from then on no round of `thread_depth` on that thread is the
last. -/
theorem import_of_a_loop :
    (importOn {} loopBundle).isOk = true ∧
      ¬Acyclic (Under (treeNext plainHash {} (.importWorkspace none loopBundle))) ∧
      ∀ n, (ancestorRow (treeNext plainHash {} (.importWorkspace none loopBundle)) n
        ⟨1⟩).isSome := by
  refine ⟨by decide, fun h => h ⟨1⟩ (.single ⟨_, rfl, rfl⟩), fun n => ?_⟩
  induction n with
  | zero => rfl
  | succ n ih => exact ih

end Maidan
