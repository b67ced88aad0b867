/-
# What plans do to the tables

The inversions of `submit` and `amend`, one for each loop of `plans.rs`: the threads that are there
afterwards (`Planned`, `Cancelled`), the plan's rows, and the dependencies.  `Sound.submit` is the
first result: a checked plan makes new threads only, so the table stays without a cycle.

An amendment touches threads that were there.  Its loops are inverted here too, one after another;
`Plan.Untangled` puts them together and draws the conclusion.
-/
import Maidan.Plan.Store

namespace Maidan

open Relational Table Run Digraph List

/-! ## 1. New children -/

/-- **Children were made** for `made`: new threads, and a row of the plan for each. -/
structure Planned (db db' : Db) (parentId : ThreadId) (made : List PlannedChild) : Prop where
  nodup : (made.map PlannedChild.threadId).Nodup
  free : ∀ t ∈ made.map PlannedChild.threadId, ¬db.HasThread t
  hasThread : ∀ t, db'.HasThread t ↔ db.HasThread t ∨ t ∈ made.map PlannedChild.threadId
  deps : db'.threadDependencies = db.threadDependencies
  rows : ∃ new, db'.threadPlanChildren.rows = db.threadPlanChildren.rows ++ new ∧
    (new.map fun c => (⟨c.childKey, c.childThreadId⟩ : PlannedChild)) = made ∧
    ∀ c ∈ new, c.parentThreadId = parentId

theorem Planned.nil (db : Db) (parentId : ThreadId) : Planned db db parentId [] where
  nodup := nodup_nil
  free := by simp
  hasThread := by simp
  deps := rfl
  rows := ⟨[], by simp⟩

variable {db db' : Db} {made : List PlannedChild} {id : ThreadId} {child : PlanChild}
  {position : Nat} {reason : String}

variable {hash : List (Option String) → String} {parentId : ThreadId} {member : MemberId}
  {draws : PlanDraws} {plan : SubmitPlan} {outcome : PlanOutcome} {amend : AmendPlan}
  {gone : List ThreadId}

theorem Planned.cons (h : Planned db db1 parentId [c]) (h' : Planned db1 db' parentId made) :
    Planned db db' parentId (c :: made) where
  nodup := by
    refine nodup_cons.mpr ⟨fun hmem => ?_, h'.nodup⟩
    exact h'.free _ hmem ((h.hasThread _).mpr (.inr (by simp)))
  free := by
    intro t ht hhas
    rcases mem_cons.mp ht with rfl | ht
    · exact h.free _ (by simp) hhas
    · exact h'.free t ht ((h.hasThread t).mpr (.inl hhas))
  hasThread := by
    intro t
    rw [h'.hasThread, h.hasThread, or_assoc]
    simp
  deps := h'.deps.trans h.deps
  rows := by
    obtain ⟨new, hrows, hnew, hparent⟩ := h.rows
    obtain ⟨new', hrows', hnew', hparent'⟩ := h'.rows
    refine ⟨new ++ new', ?_, ?_, ?_⟩
    · rw [hrows', hrows, append_assoc]
    · rw [map_append, hnew, hnew']
      rfl
    · intro c hc
      rcases mem_append.mp hc with hc | hc
      · exact hparent c hc
      · exact hparent' c hc

theorem insertPlanChild_spec (h : db.insertPlanChild row = .ok db') :
    db' = { db with threadPlanChildren := db'.threadPlanChildren } ∧
      db'.threadPlanChildren.rows = db.threadPlanChildren.rows ++ [row] := by
  unfold Db.insertPlanChild at h
  split at h
  · cases h
  split at h
  · cases h
  split at h
  · cases h
  rename_i children hins
  injection h with h
  rw [← h]
  exact ⟨rfl, Table.rows_of_insert? hins⟩

theorem insertFootprint_spec (h : insertFootprint db id ws footprint = .ok db') :
    db' = { db with threadFootprints := db'.threadFootprints } ∧
      ∃ new, db'.threadFootprints.rows = db.threadFootprints.rows ++ new ∧
        ∀ f ∈ new, f.threadId = id ∧ f.workspaceId = ws := by
  cases footprint with
  | none =>
    cases h
    exact ⟨rfl, [], by simp⟩
  | some => exact insertItemsOn_spec h

theorem insertDeclared_frame (h : insertDeclared db id attributes = .ok db') :
    db' = { db with threadAttributes := db'.threadAttributes } := by
  cases attributes with
  | none =>
    cases h
    rfl
  | some => exact insertOn_frame h

/-- The fingerprint a child is recorded with. -/
def PlanChild.brief (hash : List (Option String) → String) (child : PlanChild) : Option String :=
  taskFingerprint hash (some child.title) child.description (child.attributes.getD {})

/-- The Linear issue of a change. -/
def TaskAttributes.changeIssue (a : TaskAttributes) : Option String :=
  a.linearIssue.filter fun _ => a.kind = .change

def ThreadAttributesRow.changeIssue (a : ThreadAttributesRow) : Option String :=
  a.linearIssue.filter fun _ => a.kind = .change

def PlanChild.changeIssue (child : PlanChild) : Option String :=
  (child.attributes.getD {}).changeIssue

theorem insertDeclared_others (h : insertDeclared db id attributes = .ok db') (hx : x ≠ id) :
    db'.threadAttributes.get? x = db.threadAttributes.get? x := by
  cases attributes with
  | none =>
    cases h
    rfl
  | some =>
    obtain ⟨_, _, h⟩ := bind_ok h
    rw [(insertAttributes_spec h).2.2, if_neg (Ne.symm hx)]

theorem insertDeclared_changeIssue (hnone : db.threadAttributes.get? id = none)
    (h : insertDeclared db id attributes = .ok db') :
    ((applyDefaultEngineOn db' id).threadAttributes.get? id).bind ThreadAttributesRow.changeIssue =
      (attributes.getD {}).changeIssue := by
  cases attributes with
  | none =>
    cases h
    unfold applyDefaultEngineOn
    split
    · rw [hnone]
      rfl
    · simp only [get?_upsert, if_pos, hnone]
      rfl
  | some =>
    obtain ⟨_, _, h⟩ := bind_ok h
    have hrow := (insertAttributes_spec h).2.2 id
    rw [if_pos rfl] at hrow
    obtain ⟨engine, hengine⟩ := (applyDefaultEngineOn_spec db' id).2.2 _ hrow
    rw [hengine]
    rfl

/-- **What `insertChildInTx` writes**, table by table. -/
structure ChildIn (hash : List (Option String) → String) (parent : PlanParent)
    (parentId : ThreadId) (member : MemberId) (draws : PlanDraws) (child : PlanChild)
    (id : ThreadId) (position : Nat) (db db' : Db) : Prop where
  channels : db'.channels = db.channels
  free : db.threads.get? id = none
  reads : ∀ x, db'.threads.get? x =
    if id = x then some (planThread parent parentId member draws id) else db.threads.get? x
  attributes : ∀ x, x ≠ id → db'.threadAttributes.get? x = db.threadAttributes.get? x
  issue : db.threadAttributes.get? id = none →
    (db'.threadAttributes.get? id).bind ThreadAttributesRow.changeIssue = child.changeIssue
  new : ∀ f ∈ db'.threadFootprints.rows, f ∈ db.threadFootprints.rows ∨
    (f.threadId = id ∧ f.workspaceId = parent.workspaceId)
  prints : (child.brief hash = none ∧ db'.taskFingerprints = db.taskFingerprints) ∨
    ∃ fingerprint ch, child.brief hash = some fingerprint ∧
      db.channels.get? parent.channelId = some ch ∧
      -- the link is chosen with the thread and its attributes in, and the fingerprint not yet
      let db₁ := { db' with
        taskFingerprints := db.taskFingerprints, threadPlanChildren := db.threadPlanChildren }
      db.taskFingerprints.insert?
        { threadId := id, workspaceId := ch.workspaceId, fingerprint := fingerprint,
          duplicateOf := (sameBrief db₁ ch.workspaceId fingerprint id).or
            (child.changeIssue.bind fun issue => sameIssue db₁ ch.workspaceId issue id),
          createdAt := draws.recordedAt position } = some db'.taskFingerprints

section Children

variable {hash : List (Option String) → String} {parent : PlanParent} {parentId : ThreadId}
  {member : MemberId} {draws : PlanDraws}

theorem insertChildInTx_in {id : ThreadId} {db db' : Db}
    (h : insertChildInTx hash parent parentId member draws db child id position = .ok db') :
    ChildIn hash parent parentId member draws child id position db db' ∧
      (∀ f ∈ db.threadFootprints.rows, f ∈ db'.threadFootprints.rows) ∧
      ∃ db1, Recorded hash db db1 (planThread parent parentId member draws id) ∧ db1.insertPlanChild
          { parentThreadId := parentId, childKey := child.key, childThreadId := id,
            position := position } = .ok db' := by
  obtain ⟨db1, hthread, h⟩ := bind_ok h
  obtain ⟨db2, hfootprint, h⟩ := bind_ok h
  obtain ⟨db3, hdeclared, h⟩ := bind_ok h
  obtain ⟨db4, hrecord, h⟩ := bind_ok h
  obtain ⟨hf1, hfree, hreads⟩ := insertThread_spec hthread
  obtain ⟨hf2, new, hrows, hnew⟩ := insertFootprint_spec hfootprint
  have hf3 : applyDefaultEngineOn db3 id = { db1 with
      threadFootprints := db2.threadFootprints,
      threadAttributes := (applyDefaultEngineOn db3 id).threadAttributes } := by
    rw [(applyDefaultEngineOn_spec db3 id).1, insertDeclared_frame hdeclared, hf2]
  have hf4 : db' = { applyDefaultEngineOn db3 id with
      taskFingerprints := db4.taskFingerprints,
      threadPlanChildren := db'.threadPlanChildren } := by
    rw [(insertPlanChild_spec h).1, recordOn_frame hrecord]
  have hat : applyDefaultEngineOn db3 id = { db' with
      taskFingerprints := db.taskFingerprints, threadPlanChildren := db.threadPlanChildren } := by
    rw [hf4, hf3, hf1]
  have hattributes : db'.threadAttributes = (applyDefaultEngineOn db3 id).threadAttributes := by
    rw [hf4]
  have hfootprints : db'.threadFootprints = db2.threadFootprints := by
    rw [hf4, hf3]
  have hprints : db'.taskFingerprints = db4.taskFingerprints := by
    rw [hf4]
  have hsame : db2.threadAttributes = db.threadAttributes := by
    rw [hf2, hf1]
  refine ⟨⟨?_, hfree, ?_, ?_, ?_, ?_, ?_⟩, ?_, db4, .of_insertThread hthread ?_ hrecord, h⟩
  · rw [hf4, hf3, hf1]
  · intro x
    rw [hf4, hf3]
    exact hreads x
  · intro x hx
    rw [hattributes, (applyDefaultEngineOn_spec db3 id).2.1 x hx, insertDeclared_others hdeclared hx,
      hsame]
  · intro hnone
    rw [hattributes]
    exact insertDeclared_changeIssue (by rw [hsame]; exact hnone) hdeclared
  · intro f hf
    rw [hfootprints, hrows, hf1] at hf
    exact (mem_append.mp hf).imp_right (hnew f)
  · rcases recordOn_cases hrecord with ⟨hnone, hdb⟩ | ⟨fingerprint, ch, prints, hbrief, hch, hins, hdb⟩
    · refine .inl ⟨hnone, ?_⟩
      rw [hprints, hdb, hf3, hf1]
    · refine .inr ⟨fingerprint, ch, hbrief, ?_, ?_⟩
      · rw [hf3, hf1] at hch
        exact hch
      · rw [hprints, hdb]
        rw [hat] at hins
        exact hins
  · intro f hf
    rw [hfootprints, hrows, hf1]
    exact mem_append_left new hf
  · rw [hf3]

namespace ChildIn

variable {child : PlanChild} {id : ThreadId} {position : Nat} {db db' : Db}
  (h : ChildIn hash parent parentId member draws child id position db db')
include h

theorem not_hasThread_new : ¬db.HasThread id := by
  unfold Db.HasThread
  rw [h.free]
  simp

theorem print_others (hx : x ≠ id) : db'.taskFingerprints.get? x = db.taskFingerprints.get? x := by
  rcases h.prints with ⟨_, hsame⟩ | ⟨_, _, _, _, hrow⟩
  · rw [hsame]
  · rw [(get?_of_insert? hrow).2, if_neg (Ne.symm hx)]

end ChildIn

theorem insertChildInTx_spec
    (h : insertChildInTx hash parent parentId member draws db child id position = .ok db') :
    Planned db db' parentId [⟨child.key, id⟩] ∧ db' = { db with
      threads := db'.threads, threadAttributes := db'.threadAttributes,
      threadFootprints := db'.threadFootprints, taskFingerprints := db'.taskFingerprints,
      threadPlanChildren := db'.threadPlanChildren } := by
  obtain ⟨hin, -, db4, hcreated, h⟩ := insertChildInTx_in h
  obtain ⟨hframe, hrows⟩ := insertPlanChild_spec h
  refine ⟨⟨nodup_singleton id, ?_, ?_, ?_, ?_⟩, by rw [hframe, hcreated.frame]⟩
  · intro t ht
    obtain rfl : t = id := by simpa using ht
    exact hin.not_hasThread_new
  · intro t
    unfold Db.HasThread
    rw [hin.reads]
    by_cases ht : id = t
    · simp [ht]
    · simp [ht, Ne.symm ht]
  · rw [hframe, hcreated.frame]
  · have hold : db4.threadPlanChildren = db.threadPlanChildren := by
      rw [hcreated.frame]
    rw [hold] at hrows
    exact ⟨_, hrows, rfl, by simp⟩

/-- **The children of a plan**, keyed as they were given. -/
theorem insertChildrenInTx_spec :
    ∀ {children : List PlanChild} {i : Nat} {db db' : Db} {made : List PlannedChild},
      insertChildrenInTx hash parent parentId member draws firstPosition i db children =
        .ok (db', made) →
      made.map PlannedChild.key = children.map PlanChild.key ∧ Planned db db' parentId made ∧
        db' = { db with
          threads := db'.threads, threadAttributes := db'.threadAttributes,
          threadFootprints := db'.threadFootprints, taskFingerprints := db'.taskFingerprints,
          threadPlanChildren := db'.threadPlanChildren }
  | [], _, _, _, _, h => by
    cases h
    exact ⟨rfl, Planned.nil _ _, rfl⟩
  | child :: rest, i, db, db', made, h => by
    obtain ⟨db1, hchild, h⟩ := bind_ok h
    obtain ⟨⟨db2, made2⟩, hrest, h⟩ := bind_ok h
    cases h
    obtain ⟨hfirst, hframe⟩ := insertChildInTx_spec hchild
    obtain ⟨hkeys, hplanned, hframes⟩ := insertChildrenInTx_spec hrest
    refine ⟨by simp [hkeys], hfirst.cons hplanned, ?_⟩
    rw [hframes, hframe]

end Children

/-- **New children keep the schema's promises**: their threads are new, so no row had them. -/
theorem Wired.planned (h : Wired db) (hp : Planned db db' parentId made) : Wired db' := by
  obtain ⟨new, hrows, hnew, _⟩ := hp.rows
  have hids : new.map PlanChildRow.childThreadId = made.map PlannedChild.threadId := by
    rw [← hnew, map_map]
    rfl
  have hthread : ∀ c ∈ new, c.childThreadId ∈ made.map PlannedChild.threadId := fun c hc =>
    hids ▸ mem_map_of_mem hc
  have hfresh : ∀ c ∈ db.threadPlanChildren.rows, ∀ c' ∈ new,
      c.childThreadId ≠ c'.childThreadId := by
    intro c hc c' hc' heq
    exact hp.free _ (hthread c' hc') (heq ▸ h.children c hc)
  refine ⟨?_, ?_, ?_⟩
  · intro u v hd
    rw [depends_iff, hp.deps] at hd
    have hends := h.ends (depends_iff.mpr hd)
    exact ⟨(hp.hasThread u).mpr (.inl hends.1), (hp.hasThread v).mpr (.inl hends.2)⟩
  · rw [hrows]
    intro c hc
    rcases mem_append.mp hc with hc | hc
    · exact (hp.hasThread _).mpr (.inl (h.children c hc))
    · exact (hp.hasThread _).mpr (.inr (hthread c hc))
  · rw [hrows]
    intro c hc c' hc' heq
    rcases mem_append.mp hc with hc | hc
    · rcases mem_append.mp hc' with hc' | hc'
      · exact h.unique c hc c' hc' heq
      · exact absurd heq (hfresh c hc c' hc')
    · rcases mem_append.mp hc' with hc' | hc'
      · exact absurd heq.symm (hfresh c' hc' c hc)
      · exact inj_on_of_nodup_map (hids ▸ hp.nodup) hc hc' heq

/-! ## 2. `submit` -/

/-- **The children were held, if they were to be**: blocks stay, and a new one is the plan's. -/
structure Holding (held : Bool) (db db' : Db) (children : List PlannedChild) : Prop where
  frame : db' = { db with threadBlocks := db'.threadBlocks }
  kept : ∀ {id b}, db.threadBlocks.get? id = some b → db'.threadBlocks.get? id = some b
  new : ∀ {id b}, db'.threadBlocks.get? id = some b →
    db.threadBlocks.get? id = some b ∨ b.note = some planHoldNote
  holds : held = true → ∀ c ∈ children,
    ∃ b, db'.threadBlocks.get? c.threadId = some b ∧ b.note = some planHoldNote

theorem holdInTx_spec : ∀ {children : List PlannedChild} {db db' : Db},
    holdInTx db children = .ok db' → Holding true db db' children
  | [], _, _, h => by
    cases h
    exact ⟨rfl, fun hb => hb, .inl, by simp⟩
  | child :: rest, db, db', h => by
    unfold holdInTx at h
    split at h
    · cases h
    rename_i blocks hins
    obtain ⟨hfree, hreads⟩ := get?_of_insert? hins
    have hrest := holdInTx_spec h
    refine ⟨by rw [hrest.frame], fun {id b} hb => hrest.kept ?_, fun hb => ?_, fun _ c hc => ?_⟩
    · rw [hreads, if_neg]
      · exact hb
      · rintro rfl
        rw [hfree] at hb
        cases hb
    · rcases hrest.new hb with hold | hnote
      · rw [hreads] at hold
        split at hold
        · cases hold
          exact .inr rfl
        · exact .inl hold
      · exact .inr hnote
    · rcases mem_cons.mp hc with rfl | hc
      · exact ⟨_, hrest.kept ((hreads _).trans (if_pos rfl)), rfl⟩
      · exact hrest.holds rfl c hc

theorem holdIf_spec {held : Bool} (h : holdIf held db children = .ok db') :
    Holding held db db' children := by
  unfold holdIf at h
  split at h
  · rename_i hyes
    rw [hyes]
    exact holdInTx_spec h
  · rename_i hno
    cases h
    exact ⟨rfl, fun hb => hb, .inl, fun hyes => absurd hyes hno⟩

/-- After the children, a plan's writes are dependencies and holds. -/
theorem Holding.frame_of {held : Bool} (h : Holding held db1 db' children)
    (hdeps : db1 = { db with threadDependencies := db1.threadDependencies }) : db' = { db with
      threadDependencies := db'.threadDependencies, threadBlocks := db'.threadBlocks } := by
  rw [h.frame, hdeps]

theorem insertPlan_frame (h : db.insertPlan row = .ok db') :
    db' = { db with threadPlans := db'.threadPlans } := by
  unfold Db.insertPlan at h
  split at h
  · cases h
  injection h with h
  rw [← h]

theorem mem_of_plannedThread (h : plannedThread made key = some t) : ⟨key, t⟩ ∈ made := by
  obtain ⟨c, hc, rfl⟩ := map_eq_some_iff.mp h
  have hkey : c.key = key := by simpa using find?_some hc
  rw [← hkey]
  exact mem_of_find?_eq_some hc

/-- **The rows of a new plan**: a child on its siblings. -/
def PlanEdge (made : List PlannedChild) (children : List PlanChild) (u v : ThreadId) : Prop :=
  ∃ child ∈ children, plannedThread made child.key = some u ∧
    ∃ dep ∈ child.dependsOn, plannedThread made dep = some v

theorem insertPlanDeps_spec :
    ∀ {children : List PlanChild} {db db' : Db}, insertPlanDeps made db children = .ok db' →
      Inserted db db' (PlanEdge made children)
  | [], db, _, h => by
    cases h
    exact (Inserted.refl db).congr (by simp [PlanEdge])
  | child :: rest, db, db', h => by
    unfold insertPlanDeps at h
    split at h
    · rename_i hnone
      refine (insertPlanDeps_spec h).congr fun u v => ?_
      simp [PlanEdge, hnone]
    · rename_i this hthis
      obtain ⟨db1, hdeps, h⟩ := bind_ok h
      refine ((insertEach_spec hdeps).trans (insertPlanDeps_spec h)).congr fun u v => ?_
      simp only [PlanEdge, mem_cons, exists_eq_or_imp, hthis, Option.some.injEq,
        mem_filterMap, Except.ok.injEq, exists_eq_right]
      exact or_congr_left (and_congr_left fun _ => eq_comm)

theorem Planned.acyclic_planEdge (h : Planned db db' parentId made)
    (hplan : PlanWellFormed children) : Acyclic (PlanEdge made children) := by
  refine Acyclic.of_label (fun t key => (⟨key, t⟩ : PlannedChild) ∈ made) ?_ hplan.acyclic ?_
  · intro t k k' hk hk'
    exact congrArg PlannedChild.key (inj_on_of_nodup_map h.nodup hk hk' rfl)
  · rintro u v ⟨child, hchild, hu, dep, hdep, hv⟩
    refine ⟨child.key, dep, mem_of_plannedThread hu, mem_of_plannedThread hv, child.dependsOn, ?_,
      hdep⟩
    exact mem_map.mpr ⟨child, hchild, rfl⟩

/-- **A submit, stage by stage.**  It answers with the plan that is there, or it passed its checks
and made the plan, its children, their dependencies and their holds. -/
theorem submit_cases (h : submit hash db parentId member plan draws = .ok (db', outcome)) :
    (db' = db ∧ existingPlan db parentId plan = some outcome) ∨
    ∃ parent made db1 db2 db3, parentRow db parentId = .ok parent ∧
      holdCheck parent member plan.leaseId draws.heldAt = .ok () ∧
      spawnBudget db parentId parent plan.children.length = .ok () ∧
      db.insertPlan { parentThreadId := parentId, leaseId := plan.leaseId } = .ok db1 ∧
      insertChildrenInTx hash parent parentId member draws 0 0 db1 plan.children = .ok (db2, made) ∧
      insertPlanDeps made db2 plan.children = .ok db3 ∧
      holdIf plan.needsHold db3 made = .ok db' ∧ outcome = .created made := by
  obtain ⟨_, hread, h⟩ := bind_ok h
  obtain ⟨parent, hparent, hread⟩ := bind_ok hread
  obtain ⟨_, hhold, hread⟩ := bind_ok hread
  split at hread
  · rename_i earlier hearlier
    cases hread
    cases h
    exact .inl ⟨rfl, hearlier⟩
  · obtain ⟨_, hbudget, hread⟩ := bind_ok hread
    cases hread
    obtain ⟨⟨_, _⟩, htx, h⟩ := bind_ok h
    cases h
    obtain ⟨_, _, htx⟩ := bind_ok htx
    obtain ⟨db1, hinsert, htx⟩ := bind_ok htx
    obtain ⟨⟨db2, made⟩, hmade, htx⟩ := bind_ok htx
    obtain ⟨db3, hdeps, htx⟩ := bind_ok htx
    obtain ⟨db4, hheld, htx⟩ := bind_ok htx
    cases htx
    exact .inr ⟨parent, _, db1, db2, db3, hparent, hhold, hbudget, hinsert, hmade, hdeps,
      hheld, rfl⟩

/-- **A checked plan keeps the table sound.** -/
theorem Sound.submit (hs : Sound db) (hplan : PlanWellFormed plan.children)
    (h : submit hash db parentId member plan draws = .ok (db', outcome)) : Sound db' := by
  rcases submit_cases h with
    ⟨rfl, _⟩ | ⟨parent, made, db1, db2, db3, _, _, _, hinsert, hmade, hdeps, hhold, _⟩
  · exact hs
  · have hf1 := insertPlan_frame hinsert
    have hf4 := (holdIf_spec hhold).frame
    have hs1 : Sound db1 := by
      rw [hf1]
      exact hs.frame (fun _ hid => hid) rfl rfl
    obtain ⟨_, hplanned, _⟩ := insertChildrenInTx_spec hmade
    have hnew := insertPlanDeps_spec hdeps
    have hw3 : Wired db3 := (hs1.wired.planned hplanned).inserted hnew
    have hc3 : NoCycle db3 := by
      refine hs1.noCycle_of_new (fun u v hd => ?_) (fun u v hE => ?_)
        (hplanned.acyclic_planEdge hplan)
      · refine ((hnew.depends u v).mp hd).imp_left fun hold => ?_
        rw [depends_iff, hplanned.deps] at hold
        exact depends_iff.mpr hold
      · obtain ⟨child, _, hu, _⟩ := hE
        exact hplanned.free u (mem_map.mpr ⟨_, mem_of_plannedThread hu, rfl⟩)
    have hs3 : Sound db3 := ⟨hw3, hc3⟩
    rw [hf4]
    exact hs3.frame (fun _ hid => hid) rfl rfl

/-! ## 3. Cancelled children -/

/-- **Children were cancelled**: `gone` left the plan, and nothing waits for them any more. -/
structure Cancelled (db db' : Db) (gone : List ThreadId) : Prop where
  hasThread : ∀ t, db'.HasThread t ↔ db.HasThread t
  depends : ∀ u v, Depends db' u v ↔ Depends db u v ∧ v ∉ gone
  rows : ∀ c, c ∈ db'.threadPlanChildren.rows ↔
    c ∈ db.threadPlanChildren.rows ∧ c.childThreadId ∉ gone

theorem Cancelled.nil (db : Db) : Cancelled db db [] where
  hasThread := by simp
  depends := by simp
  rows := by simp

theorem Cancelled.cons (h : Cancelled db db1 [t]) (h' : Cancelled db1 db' gone) :
    Cancelled db db' (t :: gone) where
  hasThread := fun x => (h'.hasThread x).trans (h.hasThread x)
  depends := by
    intro u v
    rw [h'.depends, h.depends, and_assoc]
    simp
  rows := by
    intro c
    rw [h'.rows, h.rows, and_assoc]
    simp

theorem cancelInTx_takeOut {child : ThreadId} {outcome : CancelOutcome}
    (h : cancelInTx (db.takeOut child) child member reason .transition transition now ended =
      .ok (db', outcome)) : Cancelled db db' [child] := by
  have hkept : (∀ t, db'.HasThread t ↔ db.HasThread t) ∧
      db'.threadDependencies = (db.takeOut child).threadDependencies ∧
      db'.threadPlanChildren = (db.takeOut child).threadPlanChildren := by
    rcases cancelInTx_cases h with rfl | ⟨row, _, hthreads, _, hframe⟩
    · exact ⟨fun _ => Iff.rfl, rfl, rfl⟩
    · refine ⟨fun t => ?_, by rw [hframe], by rw [hframe]⟩
      have hold : (db.takeOut child).threads = db.threads := rfl
      unfold Db.HasThread
      rw [hthreads, hold, get?_update]
      split <;> simp
  obtain ⟨hthreads, hdeps, hrows⟩ := hkept
  refine ⟨hthreads, fun u v => ?_, fun c => ?_⟩
  · rw [depends_iff, hdeps, depends_iff]
    unfold Db.takeOut
    rw [mem_deleteWhere]
    simp
  · rw [hrows]
    unfold Db.takeOut
    rw [mem_deleteWhere]
    simp

theorem cancelChildren_spec : ∀ {cancel : List PlannedChild} {i : Nat} {db db' : Db},
      cancelChildren member reason draws i db cancel = .ok db' →
      Cancelled db db' (cancel.map PlannedChild.threadId) ∧
        db' = { db with
          threads := db'.threads, threadBudgets := db'.threadBudgets,
          threadTransitions := db'.threadTransitions, threadUnclaimable := db'.threadUnclaimable,
          threadCancellations := db'.threadCancellations,
          threadPlanChildren := db'.threadPlanChildren,
          threadDependencies := db'.threadDependencies }
  | [], _, _, _, h => by
    cases h
    exact ⟨Cancelled.nil _, rfl⟩
  | child :: rest, i, db, db', h => by
    obtain ⟨⟨db1, outcome⟩, hcancel, h⟩ := bind_ok h
    dsimp only at h
    split at h
    · obtain ⟨hrest, hframe⟩ := cancelChildren_spec h
      refine ⟨(cancelInTx_takeOut hcancel).cons hrest, ?_⟩
      rw [hframe]
      rcases cancelInTx_cases hcancel with rfl | ⟨row, _, _, _, hframe⟩
      · rfl
      · rw [hframe]
        rfl
    · cases h

theorem Wired.cancelled (h : Wired db) (hc : Cancelled db db' gone) : Wired db' where
  ends := by
    intro u v hd
    have hends := h.ends ((hc.depends u v).mp hd).1
    exact ⟨(hc.hasThread u).mpr hends.1, (hc.hasThread v).mpr hends.2⟩
  children := fun c hm => (hc.hasThread _).mpr (h.children c ((hc.rows c).mp hm).1)
  unique := fun c hm c' hm' => h.unique c ((hc.rows c).mp hm).1 c' ((hc.rows c').mp hm').1

/-! ## 4. Rewired children -/

/-- `v` is a child of `parentId`'s plan. -/
def InPlan (db : Db) (parentId v : ThreadId) : Prop :=
  ∃ c ∈ db.threadPlanChildren.rows, c.parentThreadId = parentId ∧ c.childThreadId = v

theorem depends_dropPlanDeps : Depends (db.dropPlanDeps parentId this) u v ↔
      Depends db u v ∧ ¬(u = this ∧ InPlan db parentId v) := by
  rw [depends_iff, depends_iff]
  unfold Db.dropPlanDeps
  rw [mem_deleteWhere]
  simp [InPlan]

section Wiring

variable {threads : List (String × ThreadId)} {parentId : ThreadId}

/-- A node's own dependencies, as rows. -/
def NodeEdge (threads : List (String × ThreadId)) (nodes : List KeyNode) (u v : ThreadId) : Prop :=
  ∃ node ∈ nodes, wire threads node.1 = .ok u ∧ ∃ dep ∈ node.2, wire threads dep = .ok v

/-- The thread of a node. -/
def NodeThread (threads : List (String × ThreadId)) (nodes : List KeyNode) (u : ThreadId) : Prop :=
  ∃ node ∈ nodes, wire threads node.1 = .ok u

theorem wireAdded_spec : ∀ {add : List PlanChild} {db db' : Db},
    wireAdded threads db add = .ok db' → Inserted db db' (NodeEdge threads (keyNodes add))
  | [], db, _, h => by
    cases h
    exact (Inserted.refl db).congr (by simp [NodeEdge, keyNodes])
  | child :: rest, db, db', h => by
    obtain ⟨this, hthis, h⟩ := bind_ok h
    obtain ⟨db1, hdeps, h⟩ := bind_ok h
    refine ((insertEach_spec hdeps).trans (wireAdded_spec h)).congr fun u v => ?_
    simp only [NodeEdge, keyNodes, map_cons, mem_cons, exists_eq_or_imp, hthis, Except.ok.injEq]
    exact or_congr_left (and_congr_left fun _ => eq_comm)

/-- **Rows were replaced**: those of `dropped` are gone, those of `new` are there, and nothing else
moved. -/
structure Replaced (db db' : Db) (dropped new : ThreadId → ThreadId → Prop) : Prop where
  frame : db' = { db with threadDependencies := db'.threadDependencies }
  depends : ∀ u v, Depends db' u v ↔ (Depends db u v ∧ ¬dropped u v) ∨ new u v
  ends : ∀ u v, new u v → db.HasThread u ∧ db.HasThread v

/-- **The rewritten children**, each rewritten once: what it waited for in the plan is replaced by
its new list; what it waited for elsewhere stays. -/
theorem wireRewritten_spec
    (hinj : ∀ {k k' t}, wire threads k = .ok t → wire threads k' = .ok t → k = k') :
    ∀ {rewrite : List KeyNode} {db db' : Db}, (rewrite.map Prod.fst).Nodup →
      wireRewritten threads parentId db rewrite = .ok db' →
      Replaced db db' (fun u v => NodeThread threads rewrite u ∧ InPlan db parentId v)
        (NodeEdge threads rewrite)
  | [], db, _, _, h => by
    cases h
    exact ⟨rfl, by simp [NodeThread, NodeEdge], by simp [NodeEdge]⟩
  | (key, deps) :: rest, db, db', hnd, h => by
    obtain ⟨this, hthis, h⟩ := bind_ok h
    obtain ⟨db1, hdeps, h⟩ := bind_ok h
    have hhead := insertEach_spec hdeps
    have htail := wireRewritten_spec hinj (nodup_cons.mp hnd).2 h
    have hplan : ∀ v, InPlan db1 parentId v ↔ InPlan db parentId v := by
      intro v
      rw [hhead.frame]
      rfl
    -- the head's thread is not rewritten again
    have hother : ¬NodeThread threads rest this := by
      rintro ⟨node, hnode, hwire⟩
      refine (nodup_cons.mp hnd).1 ?_
      have hkey : key = node.1 := hinj hthis hwire
      rw [hkey]
      exact mem_map.mpr ⟨node, hnode, rfl⟩
    refine ⟨?_, ?_, ?_⟩
    · rw [htail.frame, hhead.frame]
      rfl
    · intro u v
      rw [htail.depends, hhead.depends, depends_dropPlanDeps, hplan]
      have hthread : NodeThread threads ((key, deps) :: rest) u ↔
          u = this ∨ NodeThread threads rest u := by
        simp only [NodeThread, mem_cons, exists_eq_or_imp, hthis, Except.ok.injEq]
        exact or_congr_left eq_comm
      have hedge : NodeEdge threads ((key, deps) :: rest) u v ↔
          (u = this ∧ ∃ dep ∈ deps, wire threads dep = .ok v) ∨ NodeEdge threads rest u v := by
        simp only [NodeEdge, mem_cons, exists_eq_or_imp, hthis, Except.ok.injEq]
        exact or_congr_left (and_congr_left fun _ => eq_comm)
      rw [hthread, hedge]
      by_cases hu : u = this
      · subst hu
        simp only [hother, true_and, or_false, false_and, not_false_eq_true, and_true]
        exact or_assoc
      · simp [hu]
    · rintro u v ⟨node, hnode, hu, dep, hdep, hv⟩
      rcases mem_cons.mp hnode with rfl | hnode
      · exact hhead.ends u v ⟨Except.ok.inj (hu.symm.trans hthis), dep, hdep, hv⟩
      · have hends := htail.ends u v ⟨node, hnode, hu, dep, hdep, hv⟩
        rw [hhead.hasThread_iff, hhead.hasThread_iff] at hends
        exact hends

theorem wireRewritten_frame : ∀ {rewrite : List KeyNode} {db db' : Db},
    wireRewritten threads parentId db rewrite = .ok db' →
    db' = { db with threadDependencies := db'.threadDependencies }
  | [], _, _, h => by
    cases h
    rfl
  | (key, deps) :: rest, db, db', h => by
    obtain ⟨this, hthis, h⟩ := bind_ok h
    obtain ⟨db1, hdeps, h⟩ := bind_ok h
    rw [wireRewritten_frame h, (insertEach_spec hdeps).frame]
    rfl

theorem wiring_frame (hwire : wireAdded threads db add = .ok db1)
    (hrewrite : wireRewritten threads parentId db1 rewrite = .ok db') :
    db' = { db with threadDependencies := db'.threadDependencies } := by
  rw [wireRewritten_frame hrewrite, (wireAdded_spec hwire).frame]

end Wiring

/-! ## 5. `amend` -/

/-- One more amendment of a plan. -/
def PlanRow.amended (p : PlanRow) : PlanRow := { p with amendments := p.amendments + 1 }

theorem PlanRow.amended_parent (p : PlanRow) : p.amended.parentThreadId = p.parentThreadId := rfl

/-- **The writes of an amendment, stage by stage**: children cancelled, children added, the added
ones wired, the rewritten ones rewired, and the holds. -/
theorem amendInTx_cases {held : Bool}
    (h : amendInTx hash db parent parentId member amend steps draws = .ok (db', added, held)) :
    ∃ db1 db2 db3 db4 db5,
      cancelChildren member (amend.reason.getD planAmendCancelReason) draws 0 db steps.cancel =
        .ok db1 ∧
      insertChildrenInTx hash parent parentId member draws (nextPosition db parentId) 0 db1
        steps.add = .ok (db2, added) ∧
      wireAdded (threadOf (existingChildren db parentId) steps added) db2 steps.add = .ok db3 ∧
      wireRewritten (threadOf (existingChildren db parentId) steps added) parentId db3
        steps.rewrite = .ok db4 ∧
      held = (amend.addsNeedHold || planIsHeld db parentId) ∧ holdIf held db4 added = .ok db5 ∧
      db' = { db5 with
        threadPlans := db5.threadPlans.update parentId PlanRow.amended PlanRow.amended_parent } := by
  obtain ⟨db1, hcancel, h⟩ := bind_ok h
  obtain ⟨⟨db2, added2⟩, hadded, h⟩ := bind_ok h
  obtain ⟨db3, hwire, h⟩ := bind_ok h
  obtain ⟨db4, hrewrite, h⟩ := bind_ok h
  obtain ⟨db5, hhold, h⟩ := bind_ok h
  cases h
  exact ⟨db1, db2, db3, db4, db5, hcancel, hadded, hwire, hrewrite, rfl, hhold, rfl⟩

/-- **An accepted amendment** passed its checks, and its steps were written. -/
theorem amend_cases {outcome : PlanAmendment}
    (h : Maidan.amend hash db parentId member amend draws = .ok (db', outcome)) :
    ∃ parent amendments steps, parentRow db parentId = .ok parent ∧
      holdCheck parent member amend.leaseId draws.heldAt = .ok () ∧
      netSpawnBudget db parentId parent (amend.add.length - amend.cancel.length) = .ok () ∧
      amendmentsSoFar db parentId = .ok amendments ∧
      amend.steps (existingChildren db parentId) = .ok steps ∧
      amendInTx hash db parent parentId member amend steps draws =
        .ok (db', outcome.added, outcome.held) ∧
      outcome.cancelled = steps.cancel ∧ outcome.rewired = steps.rewrite.map Prod.fst := by
  obtain ⟨_, hread, h⟩ := bind_ok h
  obtain ⟨parent, hparent, hread⟩ := bind_ok hread
  obtain ⟨_, hhold, hread⟩ := bind_ok hread
  obtain ⟨_, hbudget, hread⟩ := bind_ok hread
  cases hread
  obtain ⟨amendments, hso, h⟩ := bind_ok h
  split at h
  · cases h
  rename_i steps hsteps
  obtain ⟨_, _, h⟩ := bind_ok h
  obtain ⟨⟨db1, added, held⟩, hwrites, h⟩ := bind_ok h
  cases h
  exact ⟨_, amendments, steps, hparent, hhold, hbudget, hso, hsteps, hwrites, rfl, rfl⟩

end Maidan
