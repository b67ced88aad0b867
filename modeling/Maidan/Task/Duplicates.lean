/-
# Duplicate links lead to live work

A task created with the brief of an open task, or for the Linear issue of an open change, gets a LINK
to that original (`duplicate_of`, `task_fingerprints.rs`).  The link is chosen once, from what is
live then; afterwards originals finish, come back, or are cleared, and an original may itself be a
duplicate.  `DUPLICATE` withholds a task while the original it names is open or in review.

Two facts carry everything.  A link is written for a thread that was just made, so nothing links to
it yet; and it names a thread that was there.  Hence the links have no cycle (`Linked`), whatever
state the originals are in, and following live originals ends (`duplicate_links_lead_to_work`).
-/
import Maidan.Recipe.Instantiate
import Maidan.Task.NewThread

namespace Maidan

open Relational Table Run Digraph Relation

/-! ## 1. Links -/

/-- `a` was created as a duplicate of `b`, and the link is not cleared. -/
def Links (db : Db) (a b : ThreadId) : Prop :=
  ∃ f, db.taskFingerprints.get? a = some f ∧ f.duplicateOf = some b

/-- **The links are sound**: each names a thread, and there is no cycle. -/
structure Linked (db : Db) : Prop where
  target : ∀ {a b}, Links db a b → db.HasThread b
  acyclic : Acyclic (Links db)

variable {db db' : Db} {ws : WorkspaceId} {thread orig id : ThreadId}
  {title description : Option String} {attributes : TaskAttributes} {now : Int}

theorem Linked.of_none (h : ∀ f ∈ db.taskFingerprints.rows, f.duplicateOf = none) : Linked db := by
  have hno : ∀ a b, ¬Links db a b := by
    rintro a b ⟨f, hf, hdup⟩
    rw [h f (mem_of_get? hf)] at hdup
    cases hdup
  refine ⟨fun hl => absurd hl (hno _ _), fun a hc => ?_⟩
  obtain ⟨b, hl, _⟩ := TransGen.head'_iff.mp hc
  exact hno a b hl

theorem Linked.mono (h : Linked db) (hthreads : ∀ id, db.HasThread id → db'.HasThread id)
    (hlinks : ∀ a b, Links db' a b → Links db a b) : Linked db' where
  target := fun hl => hthreads _ (h.target (hlinks _ _ hl))
  acyclic := h.acyclic.mono hlinks

theorem Linked.frame (h : Linked db) (hthreads : ∀ id, db.HasThread id → db'.HasThread id)
    (hprints : db'.taskFingerprints = db.taskFingerprints) : Linked db' :=
  h.mono hthreads fun a b hl => by
    unfold Links at hl
    rwa [hprints] at hl

/-! ## 2. A new fingerprint -/

theorem sameBrief_spec (h : sameBrief db ws fingerprint thread = some orig) :
    orig ≠ thread ∧ db.HasThread orig := by
  obtain ⟨f, hf, rfl⟩ := map_eq_some_iff.mp h
  have hmem := (List.mem_filter.mp (mem_of_firstBy hf)).2
  simp only [Bool.and_eq_true, bne_iff_ne, ne_eq] at hmem
  refine ⟨hmem.1.2, ?_⟩
  unfold Db.HasThread
  cases hg : db.threads.get? f.threadId with
  | none => simp [hg] at hmem
  | some => rfl

theorem sameIssue_spec (h : sameIssue db ws issue thread = some orig) :
    orig ≠ thread ∧ db.HasThread orig := by
  obtain ⟨t, ht, rfl⟩ := map_eq_some_iff.mp h
  obtain ⟨hrow, hmem⟩ := List.mem_filter.mp (mem_of_firstBy ht)
  simp only [Bool.and_eq_true, bne_iff_ne, ne_eq] at hmem
  refine ⟨hmem.1.1.1, ?_⟩
  unfold Db.HasThread
  rw [get?_of_mem hrow]
  rfl

variable {hash : List (Option String) → String} {channel : ChannelId} {env : Env} {recipe : Recipe}

/-- **What `record_on` links**: the thread itself at most, to another thread that is there. -/
theorem recordOn_links
    (h : recordOn hash db thread channel title description attributes now = .ok db')
    (hl : Links db' a b) : Links db a b ∨ (a = thread ∧ b ≠ thread ∧ db.HasThread b) := by
  rcases recordOn_cases h with ⟨_, rfl⟩ | ⟨_, _, fingerprints, _, _, hins, rfl⟩
  · exact .inl hl
  · obtain ⟨f, hf, hdup⟩ := hl
    rw [(get?_of_insert? hins).2] at hf
    split at hf
    · rename_i ha
      cases hf
      refine .inr ⟨ha.symm, ?_⟩
      -- the same brief comes first, then the same issue
      rcases Option.or_eq_some_iff.mp hdup with hbrief | ⟨_, hissue⟩
      · exact sameBrief_spec hbrief
      · obtain ⟨issue, _, hissue⟩ := bind_eq_some_iff.mp hissue
        exact sameIssue_spec hissue
    · exact .inl ⟨f, hf, hdup⟩

/-- **A thread just made** under a free id may be linked: nothing links to it. -/
theorem Linked.recorded (hs : Linked db) (h : Recorded hash db db' row) : Linked db' := by
  obtain ⟨db1, channel, title, description, attributes, now, hcreated, hprints, h⟩ := h.record
  have hkept : ∀ id, db.HasThread id → db1.HasThread id := by
    intro id hid
    obtain ⟨r, hr⟩ := isSome_iff_exists.mp hid
    exact isSome_iff_exists.mpr ⟨r, hcreated.kept hr⟩
  have hs1 : Linked db1 := hs.frame hkept hprints
  have hno : ∀ a, ¬Links db1 a row.id := by
    intro a hl
    unfold Links at hl
    rw [hprints] at hl
    have hhas := hs.target hl
    unfold Db.HasThread at hhas
    rw [hcreated.free] at hhas
    cases hhas
  have hthreads : ∀ id, db1.HasThread id → db'.HasThread id := by
    rw [recordOn_frame h]
    exact fun _ hid => hid
  refine ⟨fun hl => ?_, ?_⟩
  · rcases recordOn_links h hl with hl | ⟨_, _, hb⟩
    · exact hthreads _ (hs1.target hl)
    · exact hthreads _ hb
  · refine Acyclic.of_layer (· ≠ row.id) ?_ ?_ ?_
    · rintro a b hl -
      rcases recordOn_links h hl with hl | ⟨_, hb, _⟩
      · rintro rfl
        exact hno a hl
      · exact hb
    · refine hs1.acyclic.mono ?_
      rintro a b ⟨hl, ha⟩
      exact (recordOn_links h hl).resolve_right fun hnew => ha hnew.1
    · intro a hc
      obtain ⟨b, _, hl, hb⟩ := TransGen.tail'_iff.mp hc
      rcases recordOn_links h hl with hl | ⟨rfl, hne, _⟩
      · exact hb fun heq => hno b (heq ▸ hl)
      · exact hb hne

/-! ## 3. The transactions that make threads -/

section Creations

variable {hash : List (Option String) → String}

theorem Linked.insertNewThread {attributes : Option TaskAttributes} (hs : Linked db)
    (h : insertNewThread hash db new footprint attributes priority id now = .ok db') :
    Linked db' := by
  obtain ⟨db1, hrecorded, hframe⟩ := insertNewThread_spec h
  rw [hframe]
  exact (hs.recorded hrecorded).frame (fun _ hid => hid) rfl

section Plans

variable {parent : PlanParent} {parentId : ThreadId} {member : MemberId} {draws : PlanDraws}

theorem Linked.insertChildInTx (hs : Linked db)
    (h : insertChildInTx hash parent parentId member draws db child id position = .ok db') :
    Linked db' := by
  obtain ⟨-, -, db1, hrecorded, h⟩ := insertChildInTx_in h
  rw [(insertPlanChild_spec h).1]
  exact (hs.recorded hrecorded).frame (fun _ hid => hid) rfl

theorem Linked.insertChildrenInTx :
    ∀ {children : List PlanChild} {i : Nat} {db db' : Db} {made : List PlannedChild}, Linked db →
      insertChildrenInTx hash parent parentId member draws firstPosition i db children =
        .ok (db', made) → Linked db'
  | [], _, _, _, _, hs, h => by
    cases h
    exact hs
  | child :: rest, i, db, db', made, hs, h => by
    obtain ⟨db1, hchild, h⟩ := bind_ok h
    obtain ⟨⟨db2, made2⟩, hrest, h⟩ := bind_ok h
    cases h
    exact (hs.insertChildInTx hchild).insertChildrenInTx hrest

end Plans

theorem Linked.submit (hs : Linked db)
    (h : submit hash db parentId member plan draws = .ok (db', outcome)) : Linked db' := by
  rcases submit_cases h with
    ⟨rfl, _⟩ | ⟨parent, made, db1, db2, db3, _, _, _, hinsert, hmade, hdeps, hhold, _⟩
  · exact hs
  · have hs1 : Linked db1 := by
      rw [insertPlan_frame hinsert]
      exact hs.frame (fun _ hid => hid) rfl
    have hs2 : Linked db2 := hs1.insertChildrenInTx hmade
    rw [(holdIf_spec hhold).frame_of (insertPlanDeps_spec hdeps).frame]
    exact hs2.frame (fun _ hid => hid) rfl

theorem Linked.amend {amend : AmendPlan} (hs : Linked db)
    (h : Maidan.amend hash db parentId member amend draws = .ok (db', outcome)) : Linked db' := by
  obtain ⟨parent, _, steps, _, _, _, _, _, hwrites, _⟩ := amend_cases h
  obtain ⟨db1, db2, db3, db4, db5, hcancel, hadded, hwire, hrewrite, _, hhold, rfl⟩ :=
    amendInTx_cases hwrites
  have hs1 : Linked db1 := by
    obtain ⟨hcancelled, hframe⟩ := cancelChildren_spec hcancel
    exact hs.frame (fun id => (hcancelled.hasThread id).mpr) (by rw [hframe])
  have hs2 : Linked db2 := hs1.insertChildrenInTx hadded
  rw [(holdIf_spec hhold).frame_of (wiring_frame hwire hrewrite)]
  exact hs2.frame (fun _ hid => hid) rfl

section Recipes

variable {channel : ChannelId} {parent : Option ThreadId} {actor : MemberId}

theorem Linked.insertRecipeChildren {root : ThreadId} :
    ∀ {children : List RecipeChild} {i : Nat} {db db' : Db} {ids : List (String × ThreadId)},
      Linked db →
      insertRecipeChildren hash recipe root actor draws i db children = .ok (db', ids) →
      Linked db'
  | [], _, _, _, _, hs, h => by
    cases h
    exact hs
  | child :: rest, i, db, db', ids, hs, h => by
    obtain ⟨db1, hthread, h⟩ := bind_ok h
    obtain ⟨⟨db2, ids2⟩, hrest, h⟩ := bind_ok h
    cases h
    have hs1 : Linked (insertSkills db1 (draws.thread i) child.requiredSkills) :=
      (hs.recorded (insertRecipeThread_recorded hthread)).frame (fun _ hid => hid) rfl
    exact hs1.insertRecipeChildren hrest

theorem Linked.instantiate {params : RecipeParams} (hs : Linked db)
    (h : instantiate hash db recipe params actor draws = .ok (db', run)) : Linked db' := by
  unfold Maidan.instantiate at h
  split at h
  · cases h
  obtain ⟨db1, hroot, h⟩ := bind_ok h
  obtain ⟨⟨db2, ids⟩, hchildren, h⟩ := bind_ok h
  obtain ⟨db3, hdeps, h⟩ := bind_ok h
  obtain ⟨db4, hrun, h⟩ := bind_ok h
  cases h
  have hs1 : Linked db1 := hs.recorded (insertRecipeThread_recorded hroot)
  have hs2 : Linked db2 := hs1.insertRecipeChildren hchildren
  rw [insertRunChildren_frame hrun, (insertRecipeDeps_spec hdeps).frame]
  exact hs2.frame (fun _ hid => hid) rfl

end Recipes

end Creations

/-! ## 4. The transactions that move threads -/

/-- A fingerprint whose link is cleared. -/
def FingerprintRow.cleared (now : Int) (f : FingerprintRow) : FingerprintRow :=
  { f with duplicateOf := none, clearedAt := some now }

theorem FingerprintRow.cleared_threadId (now : Int) (f : FingerprintRow) :
    (f.cleared now).threadId = f.threadId := rfl

/-- `clear_duplicate`. -/
def clearDuplicate (db : Db) (thread : ThreadId) (now : Int) : Except StoreError Db :=
  if (db.taskFingerprints.get? thread).isNone then .error .notFound
  else .ok { db with
    taskFingerprints := db.taskFingerprints.update thread (FingerprintRow.cleared now)
      (FingerprintRow.cleared_threadId now) }

/-- A thread tombstoned. -/
def ThreadRow.tombstone (now : Int) (t : ThreadRow) : ThreadRow :=
  { t with tombstonedAt := some now }

theorem ThreadRow.tombstone_id (now : Int) (t : ThreadRow) : (t.tombstone now).id = t.id := rfl

/-- `UPDATE maidan_threads SET tombstoned_at = now`. -/
def tombstoneThread (db : Db) (thread : ThreadId) (now : Int) : Db :=
  db.setThread thread (ThreadRow.tombstone now) (ThreadRow.tombstone_id now)

theorem hasThread_update (hf : ∀ r, (f r).id = r.id) (h : db'.threads = db.threads.update id f hf)
    (t : ThreadId) : db'.HasThread t ↔ db.HasThread t := by
  unfold Db.HasThread
  rw [h, get?_update]
  split <;> simp

theorem Linked.clearDuplicate (hs : Linked db) (h : clearDuplicate db thread now = .ok db') :
    Linked db' := by
  unfold Maidan.clearDuplicate at h
  split at h
  · cases h
  cases h
  refine hs.mono (fun _ hid => hid) ?_
  rintro a b ⟨f, hf, hdup⟩
  rw [get?_update] at hf
  split at hf
  · obtain ⟨g, _, rfl⟩ := map_eq_some_iff.mp hf
    cases hdup
  · exact ⟨f, hf, hdup⟩

theorem Linked.transition (hs : Linked db)
    (h : transitionInSpawning env db thread actor action draws = .ok db') : Linked db' := by
  obtain ⟨row, toState, _, hmoved⟩ := transitionInSpawning_moved h
  refine hs.frame (fun id hid => ?_) ?_
  · obtain ⟨r, hr⟩ := isSome_iff_exists.mp hid
    by_cases hself : id = row.id
    · subst hself
      exact isSome_iff_exists.mpr ⟨_, hmoved.self⟩
    · exact isSome_iff_exists.mpr ⟨_, hmoved.others hself hr⟩
  · rw [transitionInSpawning_frame h]

theorem Linked.closeAbandoned (hs : Linked db)
    (h : closeAbandoned env db thread actor maintainer close reference draws =
      .ok (db', moved, kept)) : Linked db' := by
  obtain ⟨hthreads, hframe⟩ := closeAbandoned_frame h
  refine hs.frame (fun id => (hasThread_update (ThreadRow.land_id .closed) hthreads id).mpr) ?_
  rw [hframe]

theorem Linked.claimOp (hs : Linked db) (h : step db op = .ok db') : Linked db' := by
  refine hs.frame (fun id hid => ?_) (by rw [(step_committed h).frame])
  obtain ⟨r, hr⟩ := isSome_iff_exists.mp hid
  cases (step_committed h).effect id with
  | absent hn =>
    rw [hn] at hr
    cases hr
  | moved _ hg' _ _ => exact isSome_iff_exists.mpr ⟨_, hg'⟩

/-! ## 5. Whole runs -/

/-- What can happen to tasks and their links.  A close, a review and a send-back are transitions;
a cancel and a landing are claim operations. -/
inductive TaskOp
  | create (new : NewThread) (id : ThreadId) (now : Int)
  | createWithFootprint (new : NewThread) (footprint : Option Footprint)
      (attributes : Option TaskAttributes) (priority : Option Int) (id : ThreadId) (now : Int)
  | submitPlan (parent : ThreadId) (member : MemberId) (plan : SubmitPlan) (draws : PlanDraws)
  | amendPlan (parent : ThreadId) (member : MemberId) (amend : AmendPlan) (draws : PlanDraws)
  | instantiate (recipe : Recipe) (params : RecipeParams) (actor : MemberId) (draws : RecipeDraws)
  | clearDuplicate (thread : ThreadId) (now : Int)
  | transition (thread : ThreadId) (actor : MemberId) (action : ThreadAction) (draws : Draws)
  | closeAbandoned (thread : ThreadId) (actor : MemberId) (maintainer : Bool)
      (close : CloseAbandoned) (reference : ReferenceId) (draws : Draws)
  | claim (op : ClaimOp)
  | tombstone (thread : ThreadId) (now : Int)

section Runs

variable (hash : List (Option String) → String) (env : Env)

/-- One transaction. -/
def taskTx (db : Db) : TaskOp → Except StoreError Db
  | .create new id now => create hash db new id now
  | .createWithFootprint new footprint attributes priority id now =>
    createWithFootprint hash db new footprint attributes priority id now
  | .submitPlan parent member plan draws =>
    (submit hash db parent member plan draws).map Prod.fst
  | .amendPlan parent member amend draws =>
    (Maidan.amend hash db parent member amend draws).map Prod.fst
  | .instantiate recipe params actor draws =>
    (Maidan.instantiate hash db recipe params actor draws).map Prod.fst
  | .clearDuplicate thread now => Maidan.clearDuplicate db thread now
  | .transition thread actor action draws => transitionInSpawning env db thread actor action draws
  | .closeAbandoned thread actor maintainer close reference draws =>
    (Maidan.closeAbandoned env db thread actor maintainer close reference draws).map Prod.fst
  | .claim op => step db op
  | .tombstone thread now => .ok (tombstoneThread db thread now)

/-- One step of a run. -/
def taskNext (db : Db) (op : TaskOp) : Db := settle db (taskTx hash env db op)

end Runs

theorem Linked.taskTx (hs : Linked db) (h : taskTx hash env db op = .ok db') : Linked db' := by
  cases op with
  | create =>
    obtain ⟨_, _, h⟩ := bind_ok h
    exact hs.insertNewThread h
  | createWithFootprint new footprint attributes =>
    obtain ⟨_, footprint, attributes, h⟩ := createWithFootprint_spec h
    exact hs.insertNewThread h
  | submitPlan =>
    obtain ⟨⟨_, outcome⟩, hsubmit, rfl⟩ := map_eq_ok.mp h
    exact hs.submit hsubmit
  | amendPlan =>
    obtain ⟨⟨_, outcome⟩, hamend, rfl⟩ := map_eq_ok.mp h
    exact hs.amend hamend
  | instantiate =>
    obtain ⟨⟨_, run⟩, hrun, rfl⟩ := map_eq_ok.mp h
    exact hs.instantiate hrun
  | clearDuplicate => exact hs.clearDuplicate h
  | transition => exact hs.transition h
  | closeAbandoned =>
    obtain ⟨⟨_, moved, kept⟩, hclose, rfl⟩ := map_eq_ok.mp h
    exact hs.closeAbandoned hclose
  | claim => exact hs.claimOp h
  | tombstone thread now =>
    cases h
    exact hs.frame (fun id => (hasThread_update (ThreadRow.tombstone_id now) rfl id).mpr) rfl

theorem Linked.taskNext (hash : List (Option String) → String) (env : Env) (op : TaskOp)
    (hs : Linked db) : Linked (taskNext hash env db op) := by
  unfold Maidan.taskNext
  cases h : Maidan.taskTx hash env db op with
  | error => exact hs
  | ok => exact hs.taskTx h

/-! ## 6. Following the originals -/

theorem liveOriginalOn_spec (h : liveOriginalOn db thread = some orig) :
    Links db thread orig ∧ ∃ t, db.threads.get? orig = some t ∧ liveOriginal t = true := by
  unfold liveOriginalOn at h
  split at h
  · cases h
  rename_i f hf
  split at h
  · cases h
  rename_i t ht
  split at h
  · rename_i hlive
    cases h
    obtain ⟨b, hb, hg⟩ := bind_eq_some_iff.mp ht
    obtain rfl := get?_self hg
    exact ⟨⟨f, hf, hb⟩, t, hg, hlive⟩
  · cases h

/-- **From a live thread, the live originals end** at a live thread that is not withheld. -/
theorem Linked.leads_to_work (hs : Linked db) (hcand : db.threads.get? cand.id = some cand)
    (hlive : liveOriginal cand = true) :
    ∃ n orig, follow (liveOriginalOn db) n cand.id = some orig.id ∧
      db.threads.get? orig.id = some orig ∧ liveOriginal orig = true ∧
      duplicate db orig = false := by
  obtain ⟨n, b, hn, hb⟩ := hs.acyclic.follow_ends (fun h => (liveOriginalOn_spec h).1) _
    (db.taskFingerprints.rows.map FingerprintRow.threadId) (Nat.le_refl _) cand.id (by
      intro x y _ hx
      obtain ⟨⟨f, hf, _⟩, _⟩ := liveOriginalOn_spec hx
      exact List.mem_map.mpr ⟨f, mem_of_get? hf, key_of_get? hf⟩)
  obtain ⟨orig, horig, hliveOrig⟩ := follow_inv (fun h => (liveOriginalOn_spec h).2)
    ⟨cand, hcand, hlive⟩ hn
  obtain rfl := get?_self horig
  refine ⟨n, orig, hn, horig, hliveOrig, ?_⟩
  unfold duplicate
  rw [hb]
  rfl

/-- **Duplicate links lead to real work.**  However tasks are made, cleared, closed, cancelled, sent
back and tombstoned, the links have no cycle, and from every live thread that `DUPLICATE` withholds
the live originals end at one it does not. -/
theorem duplicate_links_lead_to_work (hash : List (Option String) → String) (env : Env) {db : Db}
    (hstart : ∀ f ∈ db.taskFingerprints.rows, f.duplicateOf = none) (ops : List TaskOp) :
    Acyclic (Links (exec (taskNext hash env) db ops)) ∧
    ∀ cand ∈ (exec (taskNext hash env) db ops).threads.rows, liveOriginal cand = true →
      duplicate (exec (taskNext hash env) db ops) cand = true →
      ∃ n orig, follow (liveOriginalOn (exec (taskNext hash env) db ops)) n cand.id = some orig.id ∧
        orig ∈ (exec (taskNext hash env) db ops).threads.rows ∧ liveOriginal orig = true ∧
        duplicate (exec (taskNext hash env) db ops) orig = false := by
  have hs : Linked (exec (taskNext hash env) db ops) :=
    exec_inv (fun _ op h => h.taskNext hash env op) ops (Linked.of_none hstart)
  refine ⟨hs.acyclic, fun cand hcand hlive _ => ?_⟩
  obtain ⟨n, orig, hn, horig, hwork⟩ := hs.leads_to_work (get?_of_mem hcand) hlive
  exact ⟨n, orig, hn, mem_of_get? horig, hwork⟩

/-- Three threads with one brief; the first is tombstoned before the third is made. -/
def sameBriefThrice : List TaskOp :=
  [.create { channelId := ⟨1⟩, title := some "Fix the leak" } ⟨1⟩ 1,
   .create { channelId := ⟨1⟩, title := some "Fix the leak" } ⟨2⟩ 2,
   .tombstone ⟨1⟩ 3,
   .create { channelId := ⟨1⟩, title := some "Fix the leak" } ⟨3⟩ 4]

/-- What they leave. -/
def briefedDb : Db := exec (taskNext plainHash plainEnv) quietDb sameBriefThrice

set_option maxRecDepth 40000 in
/-- The third is a duplicate of the second, which is one of the first, which is gone. -/
theorem duplicate_links_lead_to_work_thrice :
    ∃ cand ∈ briefedDb.threads.rows,
      cand.id = ⟨3⟩ ∧ liveOriginal cand = true ∧ duplicate briefedDb cand = true ∧
      Acyclic (Links briefedDb) ∧
      ∃ n orig, follow (liveOriginalOn briefedDb) n cand.id = some orig.id ∧
        orig ∈ briefedDb.threads.rows ∧ liveOriginal orig = true ∧
        duplicate briefedDb orig = false := by
  have hcand : ∃ cand ∈ briefedDb.threads.rows,
      cand.id = ⟨3⟩ ∧ liveOriginal cand = true ∧ duplicate briefedDb cand = true := by
    decide +kernel
  obtain ⟨cand, hmem, hid, hlive, hdup⟩ := hcand
  obtain ⟨hacyclic, hwork⟩ :=
    duplicate_links_lead_to_work plainHash plainEnv (by decide : ∀ f ∈
      quietDb.taskFingerprints.rows, f.duplicateOf = none) sameBriefThrice
  exact ⟨cand, hmem, hid, hlive, hdup, hacyclic, hwork cand hmem hlive hdup⟩

end Maidan
