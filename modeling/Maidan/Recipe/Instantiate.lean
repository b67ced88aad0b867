/-
# Instantiating a recipe

`instantiate` (`recipes.rs`) turns a stored recipe into threads, in one transaction: a ROOT, one
child under it for each child of the spec, the children's dependencies on one another, and a
dependency of the root on EVERY child.

The recipe row is read before the transaction, so it is an argument; a stored recipe's spec passed
`validate` when it was created.  The run's own row is left out (nothing modelled reads it); the
rows that stamp the run on its children are kept, since the warm hold reads them.

`instantiate_spec` says what it leaves: the root and the children created (`Spawned`), and the rows
`RunEdge` inserted.
-/
import Maidan.Deps.Edges
import Maidan.Recipe.Spec
import Maidan.Task.Create

namespace Maidan

open Relational Run Digraph List

/-! ## 1. The transaction -/

/-- A row of `maidan_recipes`. -/
structure Recipe where
  id : RecipeId
  workspaceId : WorkspaceId
  channelId : ChannelId
  name : String
  spec : RecipeSpec

/-- What an instantiation draws: thread `0` is the root, thread `i + 1` the `i`-th child; each
reads the clock for itself. -/
structure RecipeDraws where
  thread : Nat → ThreadId
  now : Nat → Int
  run : RunId

section Instantiate

variable (hash : List (Option String) → String)

/-- The row `insert_thread` inserts. -/
def recipeThread (channel : ChannelId) (parent : Option ThreadId) (createdBy : MemberId)
    (id : ThreadId) (now : Int) : ThreadRow where
  id := id
  channelId := channel
  parentThreadId := parent
  createdAt := now
  createdBy := some createdBy

/-- `insert_thread`. -/
def insertRecipeThread (db : Db) (channel : ChannelId) (parent : Option ThreadId) (title : String)
    (createdBy : MemberId) (id : ThreadId) (now : Int) : Except StoreError Db := do
  let db ← db.insertThread (recipeThread channel parent createdBy id now)
  let db := applyDefaultEngineOn db id
  recordOn hash db id channel (some title) none {} now

/-- The skills a child requires. -/
def insertSkills (db : Db) (thread : ThreadId) (skills : List String) : Db :=
  { db with
    threadRequiredSkills := skills.foldl (fun t skill => t.insertIgnore ⟨thread, skill⟩)
      db.threadRequiredSkills }

/-- The first loop of `instantiate`: the children, and `child_ids` in insertion order. -/
def insertRecipeChildren (recipe : Recipe) (root : ThreadId) (actor : MemberId)
    (draws : RecipeDraws) :
    Nat → Db → List RecipeChild → Except StoreError (Db × List (String × ThreadId))
  | _, db, [] => .ok (db, [])
  | i, db, child :: rest => do
    let thread := draws.thread i
    let db ← insertRecipeThread hash db recipe.channelId (some root) child.title actor thread
      (draws.now i)
    let db := insertSkills db thread child.requiredSkills
    let (db, ids) ← insertRecipeChildren recipe root actor draws (i + 1) db rest
    return (db, (child.key, thread) :: ids)

/-- `child_ids[key]`: the map keeps the last thread of a key; a key it does not have panics, which
drops the transaction. -/
def childId (ids : List (String × ThreadId)) (key : String) : Except StoreError ThreadId :=
  match lastOf ids key with
  | none => .error (.database "no entry found for key")
  | some thread => .ok thread

/-- `child_ids.values()`. -/
def childIdValues (ids : List (String × ThreadId)) : List ThreadId :=
  (ids.filter fun e => childId ids e.1 = .ok e.2).map Prod.snd

/-- The second loop: a child's own dependencies, then the root's on it. -/
def insertRecipeDeps (ids : List (String × ThreadId)) (root : ThreadId) :
    Db → List RecipeChild → Except StoreError Db
  | db, [] => .ok db
  | db, child :: rest => do
    let thread ← childId ids child.key
    let db ← insertEach db thread (childId ids) child.dependsOn
    let db ← db.insertDependency root thread
    insertRecipeDeps ids root db rest

/-- `INSERT INTO maidan_recipe_run_children`, for each child. -/
def insertRunChildren (run : RunId) : Db → List ThreadId → Except StoreError Db
  | db, [] => .ok db
  | db, thread :: rest =>
    match db.recipeRunChildren.insert? ⟨thread, run⟩ with
    | none => .error (.database "UNIQUE constraint failed: maidan_recipe_run_children.thread_id")
    | some children => insertRunChildren run { db with recipeRunChildren := children } rest

/-- What `instantiate` hands back: the run's root, and the child behind each key. -/
structure RecipeRun where
  id : RunId
  rootThreadId : ThreadId
  childIds : List (String × ThreadId)

/-- The threads of a run. -/
def RecipeRun.threads (run : RecipeRun) : List ThreadId :=
  run.rootThreadId :: run.childIds.map Prod.snd

/-- `instantiate`. -/
def instantiate (db : Db) (recipe : Recipe) (params : RecipeParams) (actor : MemberId)
    (draws : RecipeDraws) : Except StoreError (Db × RecipeRun) :=
  match recipe.spec.validateParams params with
  | .error msg => .error (.invalidInput msg)
  | .ok () => do
    let root := draws.thread 0
    let db ← insertRecipeThread hash db recipe.channelId none recipe.name actor root (draws.now 0)
    let (db, ids) ← insertRecipeChildren hash recipe root actor draws 1 db recipe.spec.children
    let db ← insertRecipeDeps ids root db recipe.spec.children
    let db ← insertRunChildren draws.run db (childIdValues ids)
    return (db, { id := draws.run, rootThreadId := root, childIds := ids })

end Instantiate

/-! ## 2. The threads -/

/-- **Threads were spawned** under the ids `ids`, as `insert_thread` makes them; those that were
there read as before, and the dependencies and the plans are where they were. -/
structure Spawned (db db' : Db) (ids : List ThreadId) (channel : ChannelId)
    (parent : Option ThreadId) (actor : MemberId) : Prop where
  frame : db' = { db with
    threads := db'.threads, threadAttributes := db'.threadAttributes,
    threadFootprints := db'.threadFootprints, taskFingerprints := db'.taskFingerprints,
    threadRequiredSkills := db'.threadRequiredSkills }
  nodup : ids.Nodup
  free : ∀ id ∈ ids, db.threads.get? id = none
  spawned : ∀ id ∈ ids, ∃ now,
    db'.threads.get? id = some (recipeThread channel parent actor id now)
  kept : ∀ {id r}, db.threads.get? id = some r → db'.threads.get? id = some r
  plain : ∀ id ∈ ids, db.threadAttributes.get? id = none →
    ∀ a, db'.threadAttributes.get? id = some a → a.kind = .change ∧ a.reviewFamily = none
  attributes : ∀ id, id ∉ ids → db'.threadAttributes.get? id = db.threadAttributes.get? id

namespace Spawned

variable {db db1 db' : Db} {ids ids' : List ThreadId} {channel : ChannelId}
  {parent : Option ThreadId} {actor : MemberId}

theorem nil (db : Db) : Spawned db db [] channel parent actor where
  frame := rfl
  nodup := nodup_nil
  free := by simp
  spawned := by simp
  kept := id
  plain := by simp
  attributes := fun _ _ => rfl

theorem not_mem (h : Spawned db db' ids channel parent actor) {id : ThreadId}
    (hg : db.threads.get? id = some r) : id ∉ ids := by
  intro hmem
  rw [h.free id hmem] at hg
  cases hg

theorem append (h : Spawned db db1 ids channel parent actor)
    (h' : Spawned db1 db' ids' channel parent actor) :
    Spawned db db' (ids ++ ids') channel parent actor where
  frame := by
    rw [h'.frame, h.frame]
  nodup := by
    refine nodup_append.mpr ⟨h.nodup, h'.nodup, ?_⟩
    rintro a ha b hb rfl
    obtain ⟨now, hg⟩ := h.spawned a ha
    exact h'.not_mem hg hb
  free := by
    intro id hid
    rcases mem_append.mp hid with hid | hid
    · exact h.free id hid
    · cases hg : db.threads.get? id with
      | none => rfl
      | some => exact absurd hid (h'.not_mem (h.kept hg))
  spawned := by
    intro id hid
    rcases mem_append.mp hid with hid | hid
    · obtain ⟨now, hg⟩ := h.spawned id hid
      exact ⟨now, h'.kept hg⟩
    · exact h'.spawned id hid
  kept := fun hg => h'.kept (h.kept hg)
  plain := by
    intro id hid hnone a ha
    by_cases hid' : id ∈ ids'
    · by_cases hids : id ∈ ids
      · obtain ⟨now, hg⟩ := h.spawned id hids
        exact absurd hid' (h'.not_mem hg)
      · exact h'.plain id hid' (by rw [h.attributes id hids]; exact hnone) a ha
    · rw [h'.attributes id hid'] at ha
      exact h.plain id ((mem_append.mp hid).resolve_right hid') hnone a ha
  attributes := by
    intro id hid
    rw [mem_append, not_or] at hid
    rw [h'.attributes id hid.2, h.attributes id hid.1]

end Spawned

/-- The engine's row of a thread that had none carries the defaults in every other column. -/
theorem applyDefaultEngineOn_plain {id : ThreadId} (hnone : db.threadAttributes.get? id = none)
    (ha : (applyDefaultEngineOn db id).threadAttributes.get? id = some a) :
    a.kind = .change ∧ a.reviewFamily = none := by
  unfold applyDefaultEngineOn at ha
  split at ha
  · rw [hnone] at ha
    cases ha
  · rw [Table.get?_upsert, if_pos rfl, hnone] at ha
    cases ha
    exact ⟨rfl, rfl⟩

variable {root : ThreadId} {draws : RecipeDraws}

section Threads

variable {hash : List (Option String) → String} {db db' : Db} {channel : ChannelId}
  {parent : Option ThreadId} {title : String} {actor : MemberId} {id : ThreadId} {now : Int}

theorem insertRecipeThread_recorded
    (h : insertRecipeThread hash db channel parent title actor id now = .ok db') :
    Recorded hash db db' (recipeThread channel parent actor id now) := by
  obtain ⟨db1, hins, h⟩ := bind_ok h
  refine .of_insertThread hins ?_ h
  rw [(applyDefaultEngineOn_spec db1 id).1]

/-- **One thread of a recipe.** -/
theorem insertRecipeThread_spec
    (h : insertRecipeThread hash db channel parent title actor id now = .ok db')
    (skills : List String) :
    Spawned db (insertSkills db' id skills) [id] channel parent actor := by
  have hcreated := insertRecipeThread_recorded h
  obtain ⟨db1, hins, h⟩ := bind_ok h
  have hrec := recordOn_frame h
  obtain ⟨_, hothers, _⟩ := applyDefaultEngineOn_spec db1 id
  have hattrs : db'.threadAttributes = (applyDefaultEngineOn db1 id).threadAttributes := by
    rw [hrec]
  have hold : db1.threadAttributes = db.threadAttributes := by
    rw [(insertThread_spec hins).1]
  refine ⟨?_, nodup_singleton id, ?_, ?_, hcreated.kept, ?_, ?_⟩
  · unfold insertSkills
    rw [hcreated.frame]
  · intro x hx
    obtain rfl := mem_singleton.mp hx
    exact hcreated.free
  · intro x hx
    obtain rfl := mem_singleton.mp hx
    exact ⟨now, hcreated.self⟩
  · intro x hx hnone a ha
    obtain rfl := mem_singleton.mp hx
    change db'.threadAttributes.get? x = some a at ha
    rw [hattrs] at ha
    rw [← hold] at hnone
    exact applyDefaultEngineOn_plain hnone ha
  · intro x hx
    change db'.threadAttributes.get? x = _
    rw [hattrs, hothers x (by simpa using hx), hold]

theorem insertSkills_nil (db : Db) (thread : ThreadId) : insertSkills db thread [] = db := rfl

/-- **The children**: one thread for each, under distinct new ids, keyed as the spec keys them. -/
theorem insertRecipeChildren_spec :
    ∀ {children : List RecipeChild} {i : Nat} {db db' : Db} {ids : List (String × ThreadId)},
      insertRecipeChildren hash recipe root actor draws i db children = .ok (db', ids) →
      ids.map Prod.fst = children.map RecipeChild.key ∧
        Spawned db db' (ids.map Prod.snd) recipe.channelId (some root) actor ∧
        ∀ t ∈ ids.map Prod.snd, ∃ j, t = draws.thread j
  | [], _, _, _, _, h => by
    cases h
    exact ⟨rfl, Spawned.nil _, by simp⟩
  | child :: rest, i, db, db', ids, h => by
    obtain ⟨db1, hthread, h⟩ := bind_ok h
    obtain ⟨⟨db2, ids2⟩, hrest, h⟩ := bind_ok h
    cases h
    obtain ⟨hkeys, hspawned, hdrawn⟩ := insertRecipeChildren_spec hrest
    refine ⟨by simp [hkeys], ?_, fun t ht => ?_⟩
    · exact (insertRecipeThread_spec hthread child.requiredSkills).append hspawned
    · rcases mem_cons.mp ht with rfl | ht
      · exact ⟨i, rfl⟩
      · exact hdrawn t ht

end Threads

/-! ## 3. The edges -/

/-- **The rows `instantiate` inserts**: a child on its siblings, the root on every child. -/
def RunEdge (children : List RecipeChild) (ids : List (String × ThreadId))
    (root u v : ThreadId) : Prop :=
  ∃ child ∈ children,
    (childId ids child.key = .ok u ∧ ∃ dep ∈ child.dependsOn, childId ids dep = .ok v) ∨
      (u = root ∧ childId ids child.key = .ok v)

variable {ids : List (String × ThreadId)}

theorem insertRecipeDeps_spec : ∀ {children : List RecipeChild} {db db' : Db},
      insertRecipeDeps ids root db children = .ok db' →
      Inserted db db' (RunEdge children ids root)
  | [], db, db', h => by
    cases h
    exact (Inserted.refl db).congr (by simp [RunEdge])
  | child :: rest, db, db', h => by
    obtain ⟨thread, hthread, h⟩ := bind_ok h
    obtain ⟨db1, hdeps, h⟩ := bind_ok h
    obtain ⟨db2, hroot, h⟩ := bind_ok h
    have hchild := (insertEach_spec hdeps).trans (insertDependency_spec hroot).2
    refine (hchild.trans (insertRecipeDeps_spec h)).congr fun u v => ?_
    simp only [RunEdge, mem_cons, exists_eq_or_imp, hthread, Except.ok.injEq]
    refine or_congr_left (or_congr (and_congr_left fun _ => eq_comm) ?_)
    exact and_congr_right fun _ => eq_comm

theorem insertRunChildren_frame : ∀ {threads : List ThreadId} {db db' : Db},
    insertRunChildren run db threads = .ok db' →
    db' = { db with recipeRunChildren := db'.recipeRunChildren }
  | [], _, _, h => by
    cases h
    rfl
  | thread :: rest, db, db', h => by
    unfold insertRunChildren at h
    split at h
    · cases h
    rw [insertRunChildren_frame h]

theorem childId_eq_ok : childId ids key = .ok thread ↔ lastOf ids key = some thread := by
  unfold childId
  cases lastOf ids key with
  | none | some => simp

/-- A thread `child_ids` answers with is one of its entries. -/
theorem mem_of_childId (h : childId ids key = .ok thread) : (key, thread) ∈ ids :=
  mem_of_lastOf (childId_eq_ok.mp h)

/-! ## 4. The run -/

/-- **What an instantiation leaves**: the root and its children, all new and as `insert_thread` makes
them, and the rows of `RunEdge`. -/
structure Ran (db db' : Db) (recipe : Recipe) (actor : MemberId) (run : RecipeRun) : Prop where
  frame : db' = { db with
    threads := db'.threads, threadAttributes := db'.threadAttributes,
    threadFootprints := db'.threadFootprints, taskFingerprints := db'.taskFingerprints,
    threadRequiredSkills := db'.threadRequiredSkills,
    threadDependencies := db'.threadDependencies, recipeRunChildren := db'.recipeRunChildren }
  keys : run.childIds.map Prod.fst = recipe.spec.children.map RecipeChild.key
  nodup : run.threads.Nodup
  free : ∀ id ∈ run.threads, db.threads.get? id = none
  root : ∃ now, db'.threads.get? run.rootThreadId =
    some (recipeThread recipe.channelId none actor run.rootThreadId now)
  children : ∀ id ∈ run.childIds.map Prod.snd, ∃ now, db'.threads.get? id =
    some (recipeThread recipe.channelId (some run.rootThreadId) actor id now)
  kept : ∀ {id r}, db.threads.get? id = some r → db'.threads.get? id = some r
  plain : ∀ id ∈ run.threads, db.threadAttributes.get? id = none →
    ∀ a, db'.threadAttributes.get? id = some a → a.kind = .change ∧ a.reviewFamily = none
  depends : ∀ u v, Depends db' u v ↔
    Depends db u v ∨ RunEdge recipe.spec.children run.childIds run.rootThreadId u v

theorem instantiate_spec {hash : List (Option String) → String}
    (h : instantiate hash db recipe params actor draws = .ok (db', run)) :
    (∀ t ∈ run.threads, ∃ i, t = draws.thread i) ∧ Ran db db' recipe actor run := by
  unfold instantiate at h
  split at h
  · cases h
  obtain ⟨db1, hroot, h⟩ := bind_ok h
  obtain ⟨⟨db2, ids⟩, hchildren, h⟩ := bind_ok h
  obtain ⟨db3, hdeps, h⟩ := bind_ok h
  obtain ⟨db4, hrun, h⟩ := bind_ok h
  cases h
  have hr := insertRecipeThread_spec hroot []
  rw [insertSkills_nil] at hr
  obtain ⟨hkeys, hc, hdrawn⟩ := insertRecipeChildren_spec hchildren
  have hd := insertRecipeDeps_spec hdeps
  have hf := insertRunChildren_frame hrun
  have hthreads : db'.threads = db2.threads := by
    rw [hf, hd.frame]
  have hattrs : db'.threadAttributes = db2.threadAttributes := by
    rw [hf, hd.frame]
  obtain ⟨now, hg⟩ := hr.spawned _ mem_cons_self
  refine ⟨?_, ?_, hkeys, ?_, ?_, ⟨now, ?_⟩, ?_, ?_, ?_, ?_⟩
  · intro t ht
    rcases mem_cons.mp ht with rfl | ht
    · exact ⟨0, rfl⟩
    · exact hdrawn t ht
  · rw [hf, hd.frame, hc.frame, hr.frame]
  · exact nodup_cons.mpr ⟨hc.not_mem hg, hc.nodup⟩
  · intro id hid
    rcases mem_cons.mp hid with rfl | hid
    · exact hr.free _ mem_cons_self
    · cases hold : db.threads.get? id with
      | none => rfl
      | some => exact absurd hid (hc.not_mem (hr.kept hold))
  · rw [hthreads]
    exact hc.kept hg
  · rw [hthreads]
    exact hc.spawned
  · rw [hthreads]
    exact fun hold => hc.kept (hr.kept hold)
  · rw [hattrs]
    intro id hid hnone a ha
    rcases mem_cons.mp hid with rfl | hid
    · rw [hc.attributes _ (hc.not_mem hg)] at ha
      exact hr.plain _ mem_cons_self hnone a ha
    · refine hc.plain id hid ?_ a ha
      rw [hr.attributes id, hnone]
      intro hmem
      obtain rfl := mem_singleton.mp hmem
      exact hc.not_mem hg hid
  · intro u v
    have hold : Depends db2 u v ↔ Depends db u v := by
      rw [depends_iff, depends_iff, hc.frame, hr.frame]
    have hnew : Depends db' u v ↔ Depends db3 u v := by
      rw [depends_iff, depends_iff, hf]
    exact hnew.trans ((hd.depends u v).trans (or_congr_left hold))

/-! ## 5. The graph stays without a cycle -/

section Graph

variable {db db' : Db} {recipe : Recipe} {actor : MemberId} {run : RecipeRun}

theorem Ran.child_nodup (h : Ran db db' recipe actor run) : (run.childIds.map Prod.snd).Nodup :=
  (nodup_cons.mp h.nodup).2

theorem RunEdge.mem (h : RunEdge children ids root u v) :
    (u = root ∨ u ∈ ids.map Prod.snd) ∧ v ∈ ids.map Prod.snd := by
  have hmem : ∀ {key t}, childId ids key = .ok t → t ∈ ids.map Prod.snd := fun hk =>
    mem_map.mpr ⟨_, mem_of_childId hk, rfl⟩
  obtain ⟨child, _, ⟨hu, dep, _, hv⟩ | ⟨rfl, hv⟩⟩ := h
  · exact ⟨.inr (hmem hu), hmem hv⟩
  · exact ⟨.inl rfl, hmem hv⟩

/-- **The rows of a run have no cycle**: no row leads to the root, and a row between children is an
edge between their keys in the spec. -/
theorem Ran.acyclic_runEdge (h : Ran db db' recipe actor run) (hspec : recipe.spec.WellFormed) :
    Acyclic (RunEdge recipe.spec.children run.childIds run.rootThreadId) := by
  have hroot : run.rootThreadId ∉ run.childIds.map Prod.snd := (nodup_cons.mp h.nodup).1
  refine Acyclic.of_layer (· ≠ run.rootThreadId) ?_ ?_ ?_
  · rintro u v hE - rfl
    exact hroot hE.mem.2
  · refine Acyclic.of_label (fun t key => (key, t) ∈ run.childIds) ?_ hspec.acyclic ?_
    · intro t k k' hk hk'
      exact congrArg Prod.fst (inj_on_of_nodup_map h.child_nodup hk hk' rfl)
    · rintro u v ⟨⟨child, hchild, ⟨hu, dep, hdep, hv⟩ | ⟨rfl, _⟩⟩, hne⟩
      · refine ⟨child.key, dep, mem_of_childId hu, mem_of_childId hv, ?_⟩
        exact ⟨⟨child.key, child.dependsOn⟩, mem_map.mpr ⟨child, hchild, rfl⟩, rfl, hdep⟩
      · exact absurd rfl hne
  · intro u hc
    obtain ⟨v, hstep, _⟩ := Relation.TransGen.head'_iff.mp hc
    exact hroot (not_not.mp hstep.2 ▸ hstep.1.mem.2)

theorem Ran.hasThread (h : Ran db db' recipe actor run) {id : ThreadId}
    (hid : id ∈ run.threads) : db'.HasThread id := by
  unfold Db.HasThread
  rcases mem_cons.mp hid with rfl | hid
  · obtain ⟨now, hg⟩ := h.root
    rw [hg]
    rfl
  · obtain ⟨now, hg⟩ := h.children id hid
    rw [hg]
    rfl

/-- **An instantiation of an accepted spec keeps the table sound.** -/
theorem Sound.ran (hs : Sound db) (h : Ran db db' recipe actor run)
    (hspec : recipe.spec.WellFormed) : Sound db' := by
  have hthreads : ∀ {u v}, RunEdge recipe.spec.children run.childIds run.rootThreadId u v →
      u ∈ run.threads ∧ v ∈ run.threads := fun hE =>
    ⟨mem_cons.mpr hE.mem.1, mem_cons_of_mem _ hE.mem.2⟩
  refine ⟨hs.wired.keep ?_ (by rw [h.frame]) ?_, ?_⟩
  · intro id hid
    obtain ⟨r, hr⟩ := isSome_iff_exists.mp hid
    exact isSome_iff_exists.mpr ⟨r, h.kept hr⟩
  · intro u v hd
    refine ((h.depends u v).mp hd).imp_right fun hE => ?_
    exact ⟨h.hasThread (hthreads hE).1, h.hasThread (hthreads hE).2⟩
  · refine hs.noCycle_of_new (fun u v => (h.depends u v).mp) ?_ (h.acyclic_runEdge hspec)
    intro u v hE hu
    have hfree := h.free u (hthreads hE).1
    unfold Db.HasThread at hu
    rw [hfree] at hu
    cases hu

end Graph

end Maidan
