/-
# The dependency table and its writers

`maidan_thread_dependencies` is a directed graph over the threads: a row `(u, v)` says `u` waits for
`v`.  This module has the writers that change it ROW BY ROW on threads that are already there:

* `add` and `remove` (`thread_deps.rs`);
* `close_abandoned` (`thread_transitions.rs`), which moves the dependents of a thread that will not
  land onto the thread that stands in for it (`repoint_dependents_in_tx`).

Both inserting writers ask the same question first, a recursive query over the WHOLE table: does the
new target already reach the new source?  `NoCycle` is what the answer protects, and each writer
comes with the theorem that it keeps it.

`Wired` is what the foreign keys promise about the table, and about the plan children that later
modules rewire.  The notices a repointing posts and its audit row are left out: nothing modelled
reads them.
-/
import Maidan.Lib.Digraph
import Maidan.Review.Submit

namespace Maidan

open Relational Table Run Digraph Relation

/-! ## 1. The graph -/

/-- The rows as pairs. -/
def edgesOf (db : Db) : List (ThreadId × ThreadId) :=
  db.threadDependencies.rows.map fun d => (d.threadId, d.dependsOnThreadId)

/-- **`u` depends on `v`.** -/
def Depends (db : Db) : ThreadId → ThreadId → Prop := Edge (edgesOf db)

/-- **The table contains no cycle.** -/
def NoCycle (db : Db) : Prop := Acyclic (Depends db)

variable {db db' : Db} {u v : ThreadId} {env : Env} {maintainer : Bool} {close : CloseAbandoned}
  {draws : Draws}

theorem depends_iff : Depends db u v ↔ ⟨u, v⟩ ∈ db.threadDependencies.rows := by
  unfold Depends Edge edgesOf
  rw [List.mem_map]
  constructor
  · rintro ⟨⟨a, b⟩, hd, he⟩
    cases he
    exact hd
  · intro hd
    exact ⟨⟨u, v⟩, hd, rfl⟩

/-- What the recursive query `reachable` collects from `start`. -/
def reachableFrom (db : Db) (start : ThreadId) : List ThreadId := reach (edgesOf db) start

/-- **The cycle guard.**  A source the query does not find from the target, and that is not the
target, has no path from it. -/
theorem not_path_of_guard (hne : source ≠ target) (h : source ∉ reachableFrom db target) :
    ¬ReflTransGen (Depends db) target source := by
  intro hp
  rcases reflTransGen_iff_eq_or_transGen.mp hp with heq | hpath
  · exact hne heq
  · exact h ((mem_reach _ _).mpr hpath)

/-! ## 2. Rows -/

/-- The thread is there. -/
def Db.HasThread (db : Db) (id : ThreadId) : Prop := (db.threads.get? id).isSome

instance (db : Db) (id : ThreadId) : Decidable (db.HasThread id) :=
  inferInstanceAs (Decidable ((db.threads.get? id).isSome = true))

/-- `INSERT INTO maidan_thread_dependencies … ON CONFLICT DO NOTHING`, with the table's `CHECK` and
foreign keys. -/
def Db.insertDependency (db : Db) (thread dependsOn : ThreadId) : Except StoreError Db :=
  if thread = dependsOn then
    .error (.database "CHECK constraint failed: thread_id <> depends_on_thread_id")
  else if db.HasThread thread ∧ db.HasThread dependsOn then
    .ok { db with threadDependencies := db.threadDependencies.insertIgnore ⟨thread, dependsOn⟩ }
  else .error (.database "FOREIGN KEY constraint failed")

/-- `DELETE FROM maidan_thread_dependencies WHERE thread_id = … AND depends_on_thread_id = …`. -/
def Db.deleteDependency (db : Db) (thread dependsOn : ThreadId) : Db :=
  { db with
    threadDependencies := db.threadDependencies.deleteWhere fun d =>
      d.threadId == thread && d.dependsOnThreadId == dependsOn }

/-- **Rows were inserted**: the table has the rows it had and those of `new`, whose ends are there;
nothing else moved. -/
structure Inserted (db db' : Db) (new : ThreadId → ThreadId → Prop) : Prop where
  frame : db' = { db with threadDependencies := db'.threadDependencies }
  depends : ∀ u v, Depends db' u v ↔ Depends db u v ∨ new u v
  ends : ∀ u v, new u v → db.HasThread u ∧ db.HasThread v

namespace Inserted

variable {db db1 db' : Db} {new new' : ThreadId → ThreadId → Prop}

theorem refl (db : Db) : Inserted db db fun _ _ => False where
  frame := rfl
  depends := by simp
  ends := by simp

theorem threads_eq (h : Inserted db db' new) : db'.threads = db.threads := by
  rw [h.frame]

theorem planChildren_eq (h : Inserted db db' new) :
    db'.threadPlanChildren = db.threadPlanChildren := by
  rw [h.frame]

theorem hasThread_iff (h : Inserted db db' new) {id : ThreadId} :
    db'.HasThread id ↔ db.HasThread id := by
  unfold Db.HasThread
  rw [h.threads_eq]

theorem trans (h : Inserted db db1 new) (h' : Inserted db1 db' new') :
    Inserted db db' fun u v => new u v ∨ new' u v where
  frame := by
    rw [h'.frame, h.frame]
  depends := by
    intro u v
    rw [h'.depends, h.depends, or_assoc]
  ends := by
    rintro u v (hnew | hnew)
    · exact h.ends u v hnew
    · have hends := h'.ends u v hnew
      exact ⟨h.hasThread_iff.mp hends.1, h.hasThread_iff.mp hends.2⟩

theorem congr (h : Inserted db db' new) (hiff : ∀ u v, new u v ↔ new' u v) :
    Inserted db db' new' := by
  refine { h with depends := ?_, ends := fun u v hnew => h.ends u v ((hiff u v).mpr hnew) }
  intro u v
  rw [h.depends, hiff]

end Inserted

variable {thread dependsOn closed : ThreadId} {moved kept : List ThreadId} {actor : MemberId}
  {reference : ReferenceId}

theorem insertDependency_spec (h : db.insertDependency thread dependsOn = .ok db') :
    thread ≠ dependsOn ∧ Inserted db db' fun u v => u = thread ∧ v = dependsOn := by
  unfold Db.insertDependency at h
  split at h
  · cases h
  rename_i hne
  split at h
  · rename_i hfk
    injection h with h
    rw [← h]
    refine ⟨hne, rfl, fun u v => ?_, ?_⟩
    · rw [depends_iff, depends_iff, mem_insertIgnore]
      refine ⟨?_, ?_⟩
      · rintro (hd | ⟨_, heq⟩)
        · exact .inl hd
        · cases heq
          exact .inr ⟨rfl, rfl⟩
      · rintro (hd | ⟨rfl, rfl⟩)
        · exact .inl hd
        · -- a row of the same key is the same row
          by_cases hn : db.threadDependencies.get? (u, v) = none
          · exact .inr ⟨hn, rfl⟩
          · obtain ⟨⟨a, b⟩, hr⟩ := Option.ne_none_iff_exists'.mp hn
            have hkey := key_of_get? hr
            cases hkey
            exact .inl (mem_of_get? hr)
    · rintro u v ⟨rfl, rfl⟩
      exact hfk
  · cases h

/-- A loop of inserts from one thread.  `wire` finds the thread behind each entry. -/
def insertEach {κ : Type} (db : Db) (thread : ThreadId) (wire : κ → Except StoreError ThreadId) :
    List κ → Except StoreError Db
  | [] => .ok db
  | dep :: deps => do
    let on ← wire dep
    let db ← db.insertDependency thread on
    insertEach db thread wire deps

theorem insertEach_spec :
    ∀ {deps : List κ} {db db' : Db}, insertEach db thread wire deps = .ok db' →
      Inserted db db' fun u v => u = thread ∧ ∃ dep ∈ deps, wire dep = .ok v
  | [], db, db', h => by
    cases h
    exact (Inserted.refl db).congr (by simp)
  | dep :: deps, db, db', h => by
    obtain ⟨on, hon, h⟩ := bind_ok h
    obtain ⟨db1, hins, h⟩ := bind_ok h
    refine ((insertDependency_spec hins).2.trans (insertEach_spec h)).congr fun u v => ?_
    simp only [List.mem_cons, exists_eq_or_imp, hon, Except.ok.injEq, eq_comm (a := v)]
    rw [← and_or_left]

theorem depends_deleteDependency : Depends (db.deleteDependency thread dependsOn) u v ↔
      Depends db u v ∧ ¬(u = thread ∧ v = dependsOn) := by
  rw [depends_iff, depends_iff]
  unfold Db.deleteDependency
  rw [mem_deleteWhere]
  simp

/-! ## 3. What the schema promises -/

/-- **The foreign keys** of the dependency rows and the plan children, and the uniqueness of
`child_thread_id`. -/
structure Wired (db : Db) : Prop where
  ends : ∀ {u v}, Depends db u v → db.HasThread u ∧ db.HasThread v
  children : ∀ c ∈ db.threadPlanChildren.rows, db.HasThread c.childThreadId
  unique : ∀ c ∈ db.threadPlanChildren.rows, ∀ c' ∈ db.threadPlanChildren.rows,
    c.childThreadId = c'.childThreadId → c = c'

/-- **A change that keeps the promises**: no thread goes, no plan child changes, and a new row has
its ends. -/
theorem Wired.keep (h : Wired db) (hthreads : ∀ id, db.HasThread id → db'.HasThread id)
    (hchildren : db'.threadPlanChildren = db.threadPlanChildren)
    (hends : ∀ u v, Depends db' u v → Depends db u v ∨ (db'.HasThread u ∧ db'.HasThread v)) :
    Wired db' where
  ends := by
    intro u v hd
    rcases hends u v hd with hold | hnew
    · exact ⟨hthreads u (h.ends hold).1, hthreads v (h.ends hold).2⟩
    · exact hnew
  children := by
    rw [hchildren]
    exact fun c hc => hthreads _ (h.children c hc)
  unique := by
    rw [hchildren]
    exact h.unique

theorem Wired.inserted {new : ThreadId → ThreadId → Prop} (h : Wired db)
    (hnew : Inserted db db' new) : Wired db' := by
  refine h.keep (fun _ => hnew.hasThread_iff.mpr) hnew.planChildren_eq fun u v hd => ?_
  rcases (hnew.depends u v).mp hd with hold | hn
  · exact .inl hold
  · have hends := hnew.ends u v hn
    exact .inr ⟨hnew.hasThread_iff.mpr hends.1, hnew.hasThread_iff.mpr hends.2⟩

/-- **The invariant of every writer.** -/
structure Sound (db : Db) : Prop where
  wired : Wired db
  noCycle : NoCycle db

theorem Sound.insertDependency (h : Sound db) (hguard : thread ∉ reachableFrom db dependsOn)
    (hins : db.insertDependency thread dependsOn = .ok db') : Sound db' := by
  obtain ⟨hne, hnew⟩ := insertDependency_spec hins
  have hacyclic := h.noCycle.insert (not_path_of_guard hne hguard)
  exact ⟨h.wired.inserted hnew, hacyclic.mono fun u v hd => (hnew.depends u v).mp hd⟩

theorem Sound.deleteDependency (h : Sound db) (thread dependsOn : ThreadId) :
    Sound (db.deleteDependency thread dependsOn) where
  wired := h.wired.keep (fun _ hid => hid) rfl fun _ _ hd => .inl (depends_deleteDependency.mp hd).1
  noCycle := h.noCycle.mono fun _ _ hd => (depends_deleteDependency.mp hd).1

/-- A change that leaves the threads where they are, the rows and the plan children alone. -/
theorem Sound.frame (h : Sound db) (hthreads : ∀ id, db.HasThread id → db'.HasThread id)
    (hchildren : db'.threadPlanChildren = db.threadPlanChildren)
    (hdeps : db'.threadDependencies = db.threadDependencies) : Sound db' := by
  have hiff : ∀ u v, Depends db' u v → Depends db u v := by
    intro u v hd
    rw [depends_iff, hdeps] at hd
    exact depends_iff.mpr hd
  exact ⟨h.wired.keep hthreads hchildren fun u v hd => .inl (hiff u v hd), h.noCycle.mono hiff⟩

/-- **New threads.**  Rows whose source was not there before, and that have no cycle among them, make
none with the rest of the table: no old row leads to a thread that was not there. -/
theorem Sound.noCycle_of_new (h : Sound db)
    (hdeps : ∀ u v, Depends db' u v → Depends db u v ∨ new u v)
    (hsource : ∀ u v, new u v → ¬db.HasThread u) (hnew : Acyclic new) : NoCycle db' := by
  refine Acyclic.of_layer db.HasThread ?_ ?_ ?_
  · intro u v hd hu
    rcases hdeps u v hd with hold | hn
    · exact (h.wired.ends hold).2
    · exact absurd hu (hsource u v hn)
  · refine h.noCycle.mono fun u v hd => ?_
    exact (hdeps u v hd.1).resolve_right fun hn => hsource u v hn hd.2
  · refine hnew.mono fun u v hd => ?_
    exact (hdeps u v hd.1).resolve_left fun hold => hd.2 (h.wired.ends hold).2

/-! ## 4. `add` and `remove` -/

/-- `thread_deps::add`. -/
def addDependency (db : Db) (thread dependsOn : ThreadId) : Except StoreError Db :=
  if thread = dependsOn then .error (.invalidInput "a thread cannot depend on itself")
  else if thread ∈ reachableFrom db dependsOn then
    .error (.invalidInput "adding this dependency would create a cycle")
  else db.insertDependency thread dependsOn

/-- `thread_deps::remove`, with whether a row was deleted. -/
def removeDependency (db : Db) (thread dependsOn : ThreadId) : Db × Bool :=
  (db.deleteDependency thread dependsOn, (db.threadDependencies.get? (thread, dependsOn)).isSome)

theorem Sound.addDependency (h : Sound db) (hadd : addDependency db thread dependsOn = .ok db') :
    Sound db' := by
  unfold Maidan.addDependency at hadd
  split at hadd
  · cases hadd
  split at hadd
  · cases hadd
  rename_i hguard
  exact h.insertDependency hguard hadd

/-! ## 5. Repointing -/

/-- The live dependents of `closed`, `ORDER BY t.id`. -/
def liveDependents (db : Db) (closed : ThreadId) : List ThreadId :=
  ((db.threadDependencies.rows.filter fun d =>
    d.dependsOnThreadId == closed &&
      match db.threads.get? d.threadId with
      | none => false
      | some t => (t.state == .open || t.state == .inReview) && t.tombstonedAt.isNone).map
    DependencyRow.threadId).insertionSort fun a b => a.val ≤ b.val

/-- The loop of `repoint_dependents_in_tx`: the dependents moved, and those kept because the
replacement waits on them. -/
def repointEach (closed replacement : ThreadId) :
    Db → List ThreadId → Except StoreError (Db × List ThreadId × List ThreadId)
  | db, [] => .ok (db, [], [])
  | db, dependent :: rest =>
    if dependent ∈ reachableFrom db replacement then do
      let (db, moved, kept) ← repointEach closed replacement db rest
      return (db, moved, dependent :: kept)
    else do
      let db ← db.insertDependency dependent replacement
      let (db, moved, kept) ←
        repointEach closed replacement (db.deleteDependency dependent closed) rest
      return (db, dependent :: moved, kept)

/-- `repoint_dependents_in_tx`. -/
def repointDependentsInTx (db : Db) (closed replacement : ThreadId) :
    Except StoreError (Db × List ThreadId × List ThreadId) :=
  let db := db.deleteDependency replacement closed
  repointEach closed replacement db (liveDependents db closed)

/-- **Repointing writes the dependency table only.**  Each dependent is asked about in the table its
predecessors left, so the guard is enough to keep it sound. -/
theorem repointEach_spec :
    ∀ {dependents : List ThreadId} {db db' : Db} {moved kept : List ThreadId},
      repointEach closed replacement db dependents = .ok (db', moved, kept) →
      db' = { db with threadDependencies := db'.threadDependencies } ∧ (Sound db → Sound db')
  | [], _, _, _, _, h => by
    cases h
    exact ⟨rfl, fun hs => hs⟩
  | dependent :: rest, db, db', moved, kept, h => by
    unfold repointEach at h
    split at h
    · obtain ⟨⟨db1, moved1, kept1⟩, hrest, hret⟩ := bind_ok h
      cases hret
      exact repointEach_spec hrest
    · rename_i hguard
      obtain ⟨db1, hins, h⟩ := bind_ok h
      obtain ⟨⟨db2, moved2, kept2⟩, hrest, hret⟩ := bind_ok h
      cases hret
      obtain ⟨hframe, hsound⟩ := repointEach_spec hrest
      refine ⟨?_, fun hs => hsound ((hs.insertDependency hguard hins).deleteDependency _ _)⟩
      rw [hframe, (insertDependency_spec hins).2.frame]
      rfl

theorem repointDependentsInTx_spec
    (h : repointDependentsInTx db closed replacement = .ok (db', moved, kept)) :
    db' = { db with threadDependencies := db'.threadDependencies } ∧ (Sound db → Sound db') := by
  obtain ⟨hframe, hsound⟩ := repointEach_spec h
  refine ⟨?_, fun hs => hsound (hs.deleteDependency replacement closed)⟩
  rw [hframe]
  rfl

/-! ## 6. Closing as abandoned -/

inductive CloseReason
  | duplicate
  | abandoned
  | superseded
deriving DecidableEq, Repr

structure CloseAbandoned where
  reason : CloseReason
  duplicateOf : Option ThreadId := none

/-- The reference a close records: `(src, dst, kind)`. -/
def closeRelation (thread : ThreadId) (close : CloseAbandoned) :
    Except StoreError (Option (ThreadId × ThreadId × RelationKind)) :=
  let other (other : ThreadId) (relation : ThreadId × ThreadId × RelationKind) :=
    if other = thread then
      .error (.invalidInput "duplicate_of cannot be the thread being closed")
    else .ok (some relation)
  match close.reason, close.duplicateOf with
  | .abandoned, some _ => .error (.invalidInput
      "duplicate_of applies to a duplicate or a superseded thread, not an abandoned one")
  | .duplicate, none => .error (.invalidInput
      "a duplicate must name the thread it duplicates in duplicate_of")
  | .duplicate, some dup => other dup (thread, dup, .duplicates)
  | .superseded, some by' => other by' (by', thread, .supersedes)
  | _, none => .ok none

/-- `INSERT INTO maidan_references … ON CONFLICT DO NOTHING`: the id and the triple are unique. -/
def Db.insertReference (db : Db) (row : ReferenceRow) : Db :=
  if db.references.rows.any fun r =>
      r.src == row.src && r.dst == row.dst && r.relation == row.relation then db
  else { db with references := db.references.insertIgnore row }

/-- The thread a close names is live, in the workspace, and one the actor can read. -/
def isNameable (db : Db) (other : ThreadId) (ws : WorkspaceId) (actor : MemberId) : Bool :=
  match db.threads.get? other with
  | none => false
  | some t =>
    db.workspaceOf t == some ws && t.tombstonedAt.isNone && readableThread db t.id (some ws) actor

/-- The end of the reference that is not the thread being closed. -/
def otherEnd (thread src dst : ThreadId) : ThreadId := if src = thread then dst else src

/-- The reference, once the other end is seen to be one the actor can read. -/
def recordRelation (db : Db) (thread : ThreadId) (actor : MemberId) (reference : ReferenceId) :
    Option (ThreadId × ThreadId × RelationKind) → Except StoreError Db
  | none => .ok db
  | some (src, dst, kind) => do
    let (ws, _) ← threadScopeInTx db thread
    if isNameable db (otherEnd thread src dst) ws actor then
      return db.insertReference ⟨reference, .thread src, .thread dst, kind⟩
    else .error (.invalidInput "duplicate_of is not a thread you can read in this workspace")

/-- A thread with a result keeps every landing gate; one without has nothing to review. -/
def resultGates (env : Env) (db : Db) (row : ThreadRow) (actor : MemberId) :
    Except StoreError Unit :=
  if (db.threadResults.get? row.id).isSome then do
    separationOfDutiesInTx db row actor .closed
    reviewGateInTx env db row.id
    landGateInTx db row.id
  else .ok ()

/-- `INSERT INTO maidan_thread_unlanded_closes`. -/
def Db.insertUnlandedClose (db : Db) (thread : ThreadId) : Except StoreError Db :=
  match db.threadUnlandedCloses.insert? ⟨thread⟩ with
  | none => .error (.database "UNIQUE constraint failed: maidan_thread_unlanded_closes.thread_id")
  | some closes => .ok { db with threadUnlandedCloses := closes }

/-- The thread that stands in for the closed one. -/
def CloseAbandoned.replacement (close : CloseAbandoned) : Option ThreadId :=
  if close.reason = .abandoned then none else close.duplicateOf

/-- `close_abandoned`, up to what the close then owes a plan.  It returns the dependents moved and
those kept. -/
def closeAbandoned (env : Env) (db : Db) (thread : ThreadId) (actor : MemberId)
    (maintainer : Bool) (close : CloseAbandoned) (reference : ReferenceId) (draws : Draws) :
    Except StoreError (Db × List ThreadId × List ThreadId) :=
  match db.threads.get? thread with
  | none => .error .notFound
  | some row =>
    if row.tombstonedAt.isSome then .error .notFound
    else if row.state ≠ .open ∧ row.state ≠ .inReview then
      .error (.conflict ("only an open or in-review thread can be closed as abandoned; this one " ++
        "is " ++ row.state.asStr))
    else if ¬(row.createdBy = some actor ∨ row.assigneeId = some actor ∨ maintainer) then
      .error (.conflict ("only the thread's producer, its claim holder, or a maintainer can close " ++
        "it as abandoned"))
    else do
      let relation ← closeRelation thread close
      let db ← recordRelation db thread actor reference relation
      resultGates env db row actor
      let db ← landInTx db row actor .closed draws.transition draws.now draws.ended
      let db ← db.insertUnlandedClose thread
      match close.replacement with
      | some other => repointDependentsInTx db thread other
      | none => return (db, [], [])

theorem recordRelation_frame (h : recordRelation db thread actor reference relation = .ok db') :
    db' = { db with references := db'.references } := by
  unfold recordRelation at h
  split at h
  · injection h with h
    rw [← h]
  · obtain ⟨⟨ws, _⟩, _, h⟩ := bind_ok h
    dsimp only at h
    split at h
    · injection h with h
      rw [← h]
      unfold Db.insertReference
      split <;> rfl
    · cases h

theorem insertUnlandedClose_frame (h : db.insertUnlandedClose thread = .ok db') :
    db' = { db with threadUnlandedCloses := db'.threadUnlandedCloses } := by
  unfold Db.insertUnlandedClose at h
  split at h
  · cases h
  injection h with h
  rw [← h]

/-- **A landing** moves one thread and leaves the table alone. -/
theorem Sound.landInTx (hs : Sound db) (hrow : db.threads.get? row.id = some row)
    (h : landInTx db row actor toState transition now ended = .ok db') : Sound db' := by
  obtain ⟨_, transitions, _, hdb⟩ := landInTx_spec hrow h
  refine hs.frame (fun id hid => ?_) ?_ ?_
  · unfold Db.HasThread at hid ⊢
    have hthreads : db'.threads =
        db.threads.update row.id (·.land toState) (ThreadRow.land_id toState) := by
      rw [hdb]
      rfl
    rw [hthreads, get?_update]
    split
    · simpa using hid
    · exact hid
  · rw [hdb]
    rfl
  · rw [hdb]
    rfl

/-- **What closing as abandoned does**: the relation is recorded, the live thread lands closed,
its close is marked as unlanded, and its dependents are moved to a replacement. -/
theorem closeAbandoned_spec
    (h : closeAbandoned env db thread actor maintainer close reference draws =
      .ok (db', moved, kept)) :
    ∃ row db1 db2 db3, row.id = thread ∧ db.threads.get? row.id = some row ∧
      (row.state = .open ∨ row.state = .inReview) ∧
      db1 = { db with references := db1.references } ∧
      landInTx db1 row actor .closed draws.transition draws.now draws.ended = .ok db2 ∧
      db2.insertUnlandedClose thread = .ok db3 ∧
      db' = { db3 with threadDependencies := db'.threadDependencies } ∧
      (Sound db3 → Sound db') := by
  unfold closeAbandoned at h
  cases hg : db.threads.get? thread with
  | none => simp [hg] at h
  | some row =>
    obtain rfl := get?_self hg
    simp only [hg] at h
    split at h
    · cases h
    split at h
    · cases h
    rename_i hstate
    split at h
    · cases h
    obtain ⟨relation, _, h⟩ := bind_ok h
    obtain ⟨db1, hrel, h⟩ := bind_ok h
    obtain ⟨_, _, h⟩ := bind_ok h
    obtain ⟨db2, hland, h⟩ := bind_ok h
    obtain ⟨db3, hclose, h⟩ := bind_ok h
    refine ⟨row, db1, db2, db3, rfl, hg, ?_, recordRelation_frame hrel, hland, hclose, ?_⟩
    · by_cases ho : row.state = .open
      · exact .inl ho
      · exact .inr (not_not.mp (not_and.mp hstate ho))
    · split at h
      · exact repointDependentsInTx_spec h
      · cases h
        exact ⟨rfl, fun hs => hs⟩

theorem closeAbandoned_frame
    (h : closeAbandoned env db thread actor maintainer close reference draws =
      .ok (db', moved, kept)) :
    db'.threads = db.threads.update thread (·.land .closed) (ThreadRow.land_id .closed) ∧
      db' = { db with
        references := db'.references, threads := db'.threads, threadBudgets := db'.threadBudgets,
        threadTransitions := db'.threadTransitions, threadDependencies := db'.threadDependencies,
        threadUnlandedCloses := db'.threadUnlandedCloses } := by
  obtain ⟨row, db1, db2, db3, rfl, hg, _, hf1, hland, hclose, hlast, _⟩ := closeAbandoned_spec h
  obtain ⟨_, transitions, _, hf2⟩ := landInTx_spec (by rw [hf1]; exact hg) hland
  rw [hlast, insertUnlandedClose_frame hclose, hf2, hf1]
  exact ⟨rfl, rfl⟩

/-- **Closing as abandoned keeps the table sound.** -/
theorem Sound.closeAbandoned (hs : Sound db)
    (h : closeAbandoned env db thread actor maintainer close reference draws =
      .ok (db', moved, kept)) : Sound db' := by
  obtain ⟨row, db1, db2, db3, rfl, hg, _, hf1, hland, hclose, _, hrest⟩ := closeAbandoned_spec h
  have hs1 : Sound db1 := by
    rw [hf1]
    exact hs.frame (fun _ hid => hid) rfl rfl
  have hs2 : Sound db2 := hs1.landInTx (by rw [hf1]; exact hg) hland
  refine hrest ?_
  rw [insertUnlandedClose_frame hclose]
  exact hs2.frame (fun _ hid => hid) rfl rfl

end Maidan
