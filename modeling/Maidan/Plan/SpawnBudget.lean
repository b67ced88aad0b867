/-
# The spawn budget and the tree

A workspace's spawn budget caps the children of a thread and the depth of the tree.  Three writers
hold to it, each with a formula of its own:

* a create asks for room for ONE child, one level down (`enforce_spawn_budget`);
* a submit asks for room for the whole plan (`spawn_budget`);
* an amendment asks for room for what it adds LESS what it cancels, and for nothing when that is
  not positive.

`count_active_children` counts every child that is not tombstoned, and a cancelled child is closed,
not tombstoned: it keeps its place.  So an amendment that replaces children takes its parent past
`max_children`, and `spawn_budget_bounds_tree` holds of the runs whose amendments have room for all
they add.  The depth needs no condition: a plan's parent was above `max_depth` when its plan was
submitted, and no thread ever moves.
-/
import Maidan.Plan.Confined

namespace Maidan

open Relational Table Run List

/-! ## 1. Depth -/

/-- **`id` is at depth `d`**: a root at depth 1, a child one below its parent. -/
inductive DepthAt (db : Db) : ThreadId → Nat → Prop
  | root {id t} (hget : db.threads.get? id = some t) (hroot : t.parentThreadId = none) :
      DepthAt db id 1
  | child {id t p d} (hget : db.threads.get? id = some t) (hparent : t.parentThreadId = some p)
      (hp : DepthAt db p d) : DepthAt db id (d + 1)

variable {id parentId : ThreadId} {d : Nat} {r r' t' : ThreadRow} {op : ClaimOp} {member : MemberId}
  {draws : PlanDraws}

namespace DepthAt

variable {db : Db}

section

variable (h : DepthAt db id d)
include h

theorem unique (h' : DepthAt db id d') : d = d' := by
  induction h generalizing d' with
  | root hget hroot =>
    cases h' with
    | root => rfl
    | child hget' hparent' =>
      obtain rfl := mem_unique hget hget'
      rw [hroot] at hparent'
      cases hparent'
  | child hget hparent _ ih =>
    cases h' with
    | root hget' hroot' =>
      obtain rfl := mem_unique hget hget'
      rw [hparent] at hroot'
      cases hroot'
    | child hget' hparent' hp' =>
      obtain rfl := mem_unique hget hget'
      obtain rfl := mem_unique hparent hparent'
      rw [ih hp']

theorem chain : ∃ l : List ThreadId, l.Nodup ∧ l.length = d ∧
      ∀ x ∈ l, x ∈ db.threads.rows.map ThreadRow.id ∧ ∃ e ≤ d, DepthAt db x e := by
  induction h with
  | @root id t hget hroot =>
    refine ⟨[id], nodup_singleton id, rfl, fun x hx => ?_⟩
    obtain rfl := mem_singleton.mp hx
    exact ⟨mem_map.mpr ⟨t, mem_of_get? hget, key_of_get? hget⟩, 1, le_refl 1, .root hget hroot⟩
  | @child id t p d hget hparent hp ih =>
    obtain ⟨l, hnodup, hlen, hall⟩ := ih
    refine ⟨id :: l, nodup_cons.mpr ⟨fun hmem => ?_, hnodup⟩, by simp [hlen], fun x hx => ?_⟩
    · -- a thread of the chain lies higher
      obtain ⟨e, he, hdepth⟩ := (hall id hmem).2
      have heq := (DepthAt.child hget hparent hp).unique hdepth
      omega
    · rcases mem_cons.mp hx with rfl | hx
      · exact ⟨mem_map.mpr ⟨t, mem_of_get? hget, key_of_get? hget⟩, d + 1,
          le_refl _, .child hget hparent hp⟩
      · obtain ⟨hrow, e, he, hdepth⟩ := hall x hx
        exact ⟨hrow, e, by omega, hdepth⟩

theorem le_length : d ≤ db.threads.rows.length := by
  obtain ⟨l, hnodup, hlen, hall⟩ := h.chain
  have hle := (subperm_of_subset hnodup fun x hx => (hall x hx).1).length_le
  rwa [hlen, length_map] at hle

theorem ancestorDepth_eq : ∀ {fuel : Nat}, d ≤ fuel → ancestorDepth db fuel (some id) = d := by
  induction h with
  | root hget hroot =>
    intro fuel hle
    obtain ⟨fuel, rfl⟩ := Nat.exists_eq_add_of_le' hle
    have hnone : ancestorDepth db fuel none = 0 := by cases fuel <;> rfl
    simp [ancestorDepth, hget, hroot, hnone]
  | child hget hparent hp ih =>
    intro fuel hle
    obtain ⟨fuel, rfl⟩ := Nat.exists_eq_add_of_le' (Nat.le_trans (Nat.le_add_left 1 _) hle)
    simp only [ancestorDepth, hget, hparent, ih (Nat.le_of_succ_le_succ hle)]
    omega

/-- **`thread_depth` counts the chain.** -/
theorem threadDepth_eq : threadDepth db id = d :=
  h.ancestorDepth_eq h.le_length

end

end DepthAt

/-! ## 2. Growing -/

theorem ThreadRow.SamePlace.trans (h : r.SamePlace r1) (h' : r1.SamePlace r') : r.SamePlace r' :=
  ⟨h'.1.trans h.1, h'.2.1.trans h.2.1, h'.2.2.trans h.2.2⟩

variable {db db' : Db} {hash : List (Option String) → String} {plan : SubmitPlan}
  {made : List PlannedChild}

theorem ThreadRow.SamePlace.workspaceOf (h : r.SamePlace r')
    (hchannels : db'.channels = db.channels) : db'.workspaceOf r' = db.workspaceOf r := by
  unfold Db.workspaceOf Db.channelOf
  rw [hchannels, h.1]

/-- **The tree grew** by the threads `ids`, all under `parent`; every other thread is where it
was. -/
structure Grown (db db' : Db) (parent : Option ThreadId) (channel : ChannelId)
    (ids : List ThreadId) : Prop where
  old : ∀ {id r}, db.threads.get? id = some r → ∃ r', db'.threads.get? id = some r' ∧ r.SamePlace r'
  fresh : ∀ {id r'}, db'.threads.get? id = some r' → db.threads.get? id = none →
    id ∈ ids ∧ r'.parentThreadId = parent ∧ r'.channelId = channel

namespace Grown

variable {db db1 db' : Db} {parent : Option ThreadId} {channel : ChannelId}
  {ids ids' : List ThreadId}

theorem of_threads (h : db'.threads = db.threads) : Grown db db' parent channel ids where
  old := fun {id r} hg => ⟨r, by rw [h]; exact hg, .refl r⟩
  fresh := by
    intro id r' hg hn
    rw [h, hn] at hg
    cases hg

theorem samePlace (h : Grown db db' parent channel ids) (hg : db.threads.get? id = some r)
    (hg' : db'.threads.get? id = some r') : r.SamePlace r' := by
  obtain ⟨r2, hg2, hsame⟩ := h.old hg
  obtain rfl := mem_unique hg' hg2
  exact hsame

theorem hasThread (h : Grown db db' parent channel ids) (hid : db.HasThread id) :
    db'.HasThread id := by
  obtain ⟨r, hr⟩ := isSome_iff_exists.mp hid
  obtain ⟨r', hr', _⟩ := h.old hr
  exact isSome_iff_exists.mpr ⟨r', hr'⟩

theorem trans (h : Grown db db1 parent channel ids) (h' : Grown db1 db' parent channel ids') :
    Grown db db' parent channel (ids ++ ids') where
  old := by
    intro id r hg
    obtain ⟨r1, hg1, hsame⟩ := h.old hg
    obtain ⟨r', hg', hsame'⟩ := h'.old hg1
    exact ⟨r', hg', hsame.trans hsame'⟩
  fresh := by
    intro id r' hg hn
    cases hg1 : db1.threads.get? id with
    | none =>
      obtain ⟨hmem, hplace⟩ := h'.fresh hg hg1
      exact ⟨mem_append_right _ hmem, hplace⟩
    | some =>
      obtain ⟨hmem, hparent, hchannel⟩ := h.fresh hg1 hn
      have hsame := h'.samePlace hg1 hg
      exact ⟨mem_append_left _ hmem, hsame.2.1.trans hparent, hsame.1.trans hchannel⟩

theorem depthAt (h : Grown db db' parent channel ids) (hd : DepthAt db id d) :
    DepthAt db' id d := by
  induction hd with
  | root hget hroot =>
    obtain ⟨r', hg', hsame⟩ := h.old hget
    exact .root hg' (hsame.2.1.trans hroot)
  | child hget hparent _ ih =>
    obtain ⟨r', hg', hsame⟩ := h.old hget
    exact .child hg' (hsame.2.1.trans hparent) ih

/-- **The children of a thread afterwards**: those it had, and the new ones when it is `parent`. -/
theorem countActiveChildren_le (h : Grown db db' parent channel ids) (p : ThreadId) :
    countActiveChildren db' p ≤
      countActiveChildren db p + if parent = some p then (ids.length : Int) else 0 := by
  have hnodup : (((db'.threads.rows.filter fun t => t.parentThreadId == some p &&
      t.tombstonedAt.isNone).map ThreadRow.id)).Nodup :=
    db'.threads.nodup.sublist (filter_sublist.map _)
  have hsub : ∀ x ∈ (db'.threads.rows.filter fun t => t.parentThreadId == some p &&
      t.tombstonedAt.isNone).map ThreadRow.id,
      x ∈ (db.threads.rows.filter fun t => t.parentThreadId == some p &&
        t.tombstonedAt.isNone).map ThreadRow.id ++ if parent = some p then ids else [] := by
    intro x hx
    obtain ⟨t', ht', rfl⟩ := mem_map.mp hx
    obtain ⟨hmem, hchild⟩ := mem_filter.mp ht'
    simp only [Bool.and_eq_true, beq_iff_eq] at hchild
    have hg' := get?_of_mem hmem
    rw [mem_append]
    cases hg : db.threads.get? t'.id with
    | none =>
      obtain ⟨hid, hparent, _⟩ := h.fresh hg' hg
      rw [if_pos (hparent.symm.trans hchild.1)]
      exact .inr hid
    | some t =>
      have hsame := h.samePlace hg hg'
      refine .inl (mem_map.mpr ⟨t, mem_filter.mpr ⟨mem_of_get? hg, ?_⟩, key_of_get? hg⟩)
      rw [← hsame.2.1, ← hsame.2.2]
      simpa using hchild
  have hle := (subperm_of_subset hnodup hsub).length_le
  rw [length_map, length_append, length_map] at hle
  unfold countActiveChildren
  split
  · rename_i hp
    rw [if_pos hp] at hle
    exact_mod_cast hle
  · rename_i hp
    rw [if_neg hp] at hle
    simpa using hle

end Grown

/-! ## 3. Within the budget -/

section Budget

variable {db db' : Db} {ws : WorkspaceId} {maxChildren maxDepth : Int}

/-- The workspace's budget sets both limits. -/
def Budgeted (db : Db) (ws : WorkspaceId) (maxChildren maxDepth : Int) : Prop :=
  ∃ budget, db.spawnBudgets.get? ws = some budget ∧ budget.maxChildren = some maxChildren ∧
    budget.maxDepth = some maxDepth

/-- **The start**: the budget is set and the workspace has no thread yet.  The rest is the
schema's: a parent, and the thread of a plan, are threads. -/
structure SpawnStart (db : Db) (ws : WorkspaceId) (maxChildren maxDepth : Int) : Prop where
  budget : Budgeted db ws maxChildren maxDepth
  nonneg : 0 ≤ maxChildren
  empty : ∀ t ∈ db.threads.rows, db.workspaceOf t ≠ some ws
  parents : ∀ t ∈ db.threads.rows, ∀ p, t.parentThreadId = some p → db.HasThread p
  plans : ∀ p ∈ db.threadPlans.rows, db.HasThread p.parentThreadId

/-- **The tree is within the budget.** -/
structure Within (db : Db) (ws : WorkspaceId) (maxChildren maxDepth : Int) : Prop where
  budget : Budgeted db ws maxChildren maxDepth
  nonneg : 0 ≤ maxChildren
  parents : ∀ {id t p}, db.threads.get? id = some t → t.parentThreadId = some p → db.HasThread p
  children : ∀ {id t}, db.threads.get? id = some t → db.workspaceOf t = some ws →
    countActiveChildren db id ≤ maxChildren
  depth : ∀ {id t}, db.threads.get? id = some t → db.workspaceOf t = some ws →
    ∃ d : Nat, DepthAt db id d ∧ (t.parentThreadId.isSome → (d : Int) ≤ maxDepth)
  plans : ∀ {id row}, db.threadPlans.get? id = some row → db.HasThread id ∧
    ∀ t, db.threads.get? id = some t → db.workspaceOf t = some ws →
      ∃ d : Nat, DepthAt db id d ∧ (d : Int) < maxDepth

theorem SpawnStart.within (h : SpawnStart db ws maxChildren maxDepth) :
    Within db ws maxChildren maxDepth where
  budget := h.budget
  nonneg := h.nonneg
  parents := fun hg hp => h.parents _ (mem_of_get? hg) _ hp
  children := fun hg hws => absurd hws (h.empty _ (mem_of_get? hg))
  depth := fun hg hws => absurd hws (h.empty _ (mem_of_get? hg))
  plans := by
    intro id row hrow
    have hhas := h.plans row (mem_of_get? hrow)
    rw [key_of_get? hrow] at hhas
    exact ⟨hhas, fun t hg hws => absurd hws (h.empty t (mem_of_get? hg))⟩

/-- What the writer of new children has checked: the parent is in the channel, and where that is a
channel of the workspace there is room, one level down. -/
structure Room (db : Db) (ws : WorkspaceId) (maxChildren maxDepth : Int)
    (parent : Option ThreadId) (channel : ChannelId) (adding : Nat) : Prop where
  there : ∀ p, parent = some p → ∃ r, db.threads.get? p = some r ∧ r.channelId = channel
  children : ∀ p, parent = some p →
    (db.channels.get? channel).map ChannelRow.workspaceId = some ws →
    countActiveChildren db p + adding ≤ maxChildren
  depth : ∀ p, parent = some p →
    (db.channels.get? channel).map ChannelRow.workspaceId = some ws →
    ∀ d : Nat, DepthAt db p d → (d : Int) < maxDepth

variable {parent : Option ThreadId} {channel : ChannelId} {ids : List ThreadId}

theorem Room.hasThread (h : Room db ws maxChildren maxDepth parent channel adding)
    (hp : parent = some p) : db.HasThread p := by
  obtain ⟨r, hr, _⟩ := h.there p hp
  exact isSome_of_eq_some hr

namespace Within

theorem countActiveChildren_of_none (h : Within db ws maxChildren maxDepth)
    (hnone : db.threads.get? id = none) : countActiveChildren db id = 0 := by
  unfold countActiveChildren
  rw [filter_eq_nil_iff.mpr]
  · rfl
  · intro t ht hchild
    simp only [Bool.and_eq_true, beq_iff_eq] at hchild
    have hid := h.parents (get?_of_mem ht) hchild.1
    unfold Db.HasThread at hid
    rw [hnone] at hid
    cases hid

section Growth

variable (h : Within db ws maxChildren maxDepth) (hgrown : Grown db db' parent channel ids)
  (hroom : Room db ws maxChildren maxDepth parent channel ids.length)
  (hchannels : db'.channels = db.channels)

include h hgrown hroom

theorem grown_parents (hg' : db'.threads.get? id = some t') (hp : t'.parentThreadId = some p) :
    db'.HasThread p := by
  cases hg : db.threads.get? id with
  | none =>
    have hparent : parent = some p := (hgrown.fresh hg' hg).2.1.symm.trans hp
    exact hgrown.hasThread (hroom.hasThread hparent)
  | some => exact hgrown.hasThread (h.parents hg ((hgrown.samePlace hg hg').2.1.symm.trans hp))

include hchannels

theorem grown_children (hg' : db'.threads.get? id = some t') (hws : db'.workspaceOf t' = some ws) :
    countActiveChildren db' id ≤ maxChildren := by
  have hle := hgrown.countActiveChildren_le id
  cases hg : db.threads.get? id with
  | none =>
    -- a new thread has no children: every parent was there
    have hnot : parent ≠ some id := by
      intro hp
      obtain ⟨r, hr, _⟩ := hroom.there id hp
      rw [hg] at hr
      cases hr
    rw [if_neg hnot, h.countActiveChildren_of_none hg] at hle
    have := h.nonneg
    omega
  | some =>
    rw [(hgrown.samePlace hg hg').workspaceOf hchannels] at hws
    have hold := h.children hg hws
    split at hle
    · rename_i hp
      obtain ⟨r, hr, hchannel⟩ := hroom.there id hp
      obtain rfl := mem_unique hg hr
      have := hroom.children id hp (by rw [← hchannel]; exact hws)
      omega
    · omega

theorem grown_depth (hg' : db'.threads.get? id = some t') (hws : db'.workspaceOf t' = some ws) :
    ∃ d : Nat, DepthAt db' id d ∧ (t'.parentThreadId.isSome → (d : Int) ≤ maxDepth) := by
  cases hg : db.threads.get? id with
  | none =>
    obtain ⟨_, hparent, hchannel⟩ := hgrown.fresh hg' hg
    cases hp : parent with
    | none =>
      rw [hp] at hparent
      exact ⟨1, .root hg' hparent, fun hsome => by rw [hparent] at hsome; cases hsome⟩
    | some p =>
      rw [hp] at hparent
      obtain ⟨r, hr, hrc⟩ := hroom.there p hp
      have hspace : (db.channels.get? channel).map ChannelRow.workspaceId = some ws := by
        unfold Db.workspaceOf Db.channelOf at hws
        rw [hchannels, hchannel] at hws
        exact hws
      obtain ⟨d, hd, _⟩ := h.depth hr (by rw [← hrc] at hspace; exact hspace)
      have hlt := hroom.depth p hp hspace d hd
      exact ⟨d + 1, .child hg' hparent (hgrown.depthAt hd), fun _ => by push_cast; omega⟩
  | some =>
    have hsame := hgrown.samePlace hg hg'
    rw [hsame.workspaceOf hchannels] at hws
    obtain ⟨d, hd, hle⟩ := h.depth hg hws
    exact ⟨d, hgrown.depthAt hd, fun hsome => hle (by rw [← hsame.2.1]; exact hsome)⟩

theorem grown (hbudgets : db'.spawnBudgets = db.spawnBudgets)
    (hplans : ∀ {id row}, db'.threadPlans.get? id = some row →
      (∃ row', db.threadPlans.get? id = some row') ∨ parent = some id) :
    Within db' ws maxChildren maxDepth where
  budget := by
    unfold Budgeted
    rw [hbudgets]
    exact h.budget
  nonneg := h.nonneg
  parents := h.grown_parents hgrown hroom
  children := h.grown_children hgrown hroom hchannels
  depth := h.grown_depth hgrown hroom hchannels
  plans := by
    intro id row hrow
    rcases hplans hrow with ⟨row', hrow'⟩ | hp
    · obtain ⟨hid, hdepth⟩ := h.plans hrow'
      refine ⟨hgrown.hasThread hid, fun t' hg' hws => ?_⟩
      obtain ⟨t, hg⟩ := isSome_iff_exists.mp hid
      rw [(hgrown.samePlace hg hg').workspaceOf hchannels] at hws
      obtain ⟨d, hd, hlt⟩ := hdepth t hg hws
      exact ⟨d, hgrown.depthAt hd, hlt⟩
    · obtain ⟨r, hr, hrc⟩ := hroom.there id hp
      refine ⟨hgrown.hasThread (hroom.hasThread hp), fun t' hg' hws => ?_⟩
      rw [(hgrown.samePlace hr hg').workspaceOf hchannels] at hws
      obtain ⟨d, hd, _⟩ := h.depth hr hws
      exact ⟨d, hgrown.depthAt hd, hroom.depth id hp (by rw [← hrc]; exact hws) d hd⟩

end Growth

end Within

theorem Room.nothing : Room db ws maxChildren maxDepth none channel 0 where
  there := by simp
  children := by simp
  depth := by simp

end Budget

/-! ## 4. The writers -/

theorem Created.grown (h : Created db db' row) :
    Grown db db' row.parentThreadId row.channelId [row.id] where
  old := fun {_ r} hg => ⟨r, h.kept hg, .refl r⟩
  fresh := by
    intro id r' hg hn
    rw [h.reads] at hg
    split at hg
    · rename_i hid
      cases hg
      exact ⟨by simp [hid], rfl, rfl⟩
    · rw [hn] at hg
      cases hg

variable {parent : PlanParent}

theorem insertChildrenInTx_grown
    (h : insertChildrenInTx hash parent parentId member draws firstPosition i db children =
      .ok (db', made)) :
    Grown db db' (some parentId) parent.channelId (made.map PlannedChild.threadId) := by
  induction children generalizing i db made with
  | nil =>
    cases h
    exact .of_threads rfl
  | cons child rest ih =>
    obtain ⟨db1, hchild, h⟩ := bind_ok h
    obtain ⟨⟨db2, made2⟩, hrest, h⟩ := bind_ok h
    cases h
    obtain ⟨-, -, db3, hcreated, hplan⟩ := insertChildInTx_in hchild
    have hrow : Grown db3 db1 (some parentId) parent.channelId [] := by
      refine .of_threads ?_
      rw [(insertPlanChild_spec hplan).1]
    exact (hcreated.grown.trans hrow).trans (ih hrest)

theorem cancelChildren_grown {parent : Option ThreadId}
    (h : cancelChildren member reason draws i db cancel = .ok db') :
    Grown db db' parent channel [] := by
  induction cancel generalizing i db with
  | nil =>
    cases h
    exact .of_threads rfl
  | cons child rest ih =>
    obtain ⟨⟨db1, outcome⟩, hcancel, h⟩ := bind_ok h
    dsimp only at h
    split at h
    · have hfirst : Grown db db1 parent channel [] := by
        rcases cancelInTx_cases hcancel with rfl | ⟨row, _, hthreads, _, _⟩
        · exact .of_threads rfl
        · have hold : (db.takeOut child.threadId).threads = db.threads := rfl
          refine ⟨fun {id r} hg => ?_, fun {id r'} hg hn => ?_⟩
          · rw [hthreads, hold, get?_update, hg]
            split
            · exact ⟨_, rfl, .land r .closed⟩
            · exact ⟨_, rfl, .refl r⟩
          · rw [hthreads, hold, get?_update, hn] at hg
            simp at hg
      exact hfirst.trans (ih h)
    · cases h

theorem submit_grown (hinsert : db.insertPlan row = .ok db1)
    (hmade : insertChildrenInTx hash parent parentId member draws 0 0 db1 plan.children = .ok (db2,
      made)) (hdeps : insertPlanDeps made db2 plan.children = .ok db3)
    (hhold : holdIf plan.needsHold db3 made = .ok db') :
    Grown db db' (some parentId) parent.channelId (made.map PlannedChild.threadId) ∧
      db'.channels = db.channels ∧ db'.spawnBudgets = db.spawnBudgets ∧
      db'.threadPlans = db1.threadPlans ∧ made.length = plan.children.length := by
  have hf1 := insertPlan_frame hinsert
  have hf3 := (holdIf_spec hhold).frame_of (insertPlanDeps_spec hdeps).frame
  obtain ⟨hkeys, _, hf2⟩ := insertChildrenInTx_spec hmade
  have hfirst : Grown db db1 (some parentId) parent.channelId [] := .of_threads (by rw [hf1])
  have hlast : Grown db2 db' (some parentId) parent.channelId [] := .of_threads (by rw [hf3])
  have hgrown := (hfirst.trans (insertChildrenInTx_grown hmade)).trans hlast
  rw [nil_append, append_nil] at hgrown
  refine ⟨hgrown, ?_, ?_, ?_, ?_⟩
  · rw [hf3, hf2, hf1]
  · rw [hf3, hf2, hf1]
  · rw [hf3, hf2]
  · simpa using congrArg List.length hkeys

theorem amendInTx_grown {amend : AmendPlan} {held : Bool}
    (h : amendInTx hash db parent parentId member amend steps draws = .ok (db', added, held)) :
    Grown db db' (some parentId) parent.channelId (added.map PlannedChild.threadId) ∧
      db'.channels = db.channels ∧ db'.spawnBudgets = db.spawnBudgets ∧
      db'.threadPlans = db.threadPlans.update parentId PlanRow.amended PlanRow.amended_parent ∧
      added.length = steps.add.length := by
  obtain ⟨db1, db2, db3, db4, db5, hcancel, hadded, hwire, hrewrite, _, hhold, rfl⟩ :=
    amendInTx_cases h
  have hf5 := (holdIf_spec hhold).frame_of (wiring_frame hwire hrewrite)
  obtain ⟨hkeys, _, hf2⟩ := insertChildrenInTx_spec hadded
  have hf1 := (cancelChildren_spec hcancel).2
  have hlast : Grown db2 { db5 with
      threadPlans := db5.threadPlans.update parentId PlanRow.amended PlanRow.amended_parent }
      (some parentId) parent.channelId [] := .of_threads (by rw [hf5])
  have hgrown := ((cancelChildren_grown hcancel).trans (insertChildrenInTx_grown hadded)).trans hlast
  rw [nil_append, append_nil] at hgrown
  have hplans : db5.threadPlans = db.threadPlans := by
    rw [hf5, hf2, hf1]
  refine ⟨hgrown, ?_, ?_, ?_, ?_⟩
  · rw [hf5, hf2, hf1]
  · rw [hf5, hf2, hf1]
  · exact congrArg (fun plans => plans.update parentId PlanRow.amended PlanRow.amended_parent) hplans
  · simpa using congrArg List.length hkeys

theorem step_grown {parent : Option ThreadId} (h : step db op = .ok db') :
    Grown db db' parent channel [] where
  old := by
    intro id r hg
    cases (step_committed h).effect id with
    | absent hn =>
      rw [hn] at hg
      cases hg
    | moved hg1 hg' hmove _ =>
      obtain rfl := mem_unique hg hg1
      exact ⟨_, hg', hmove.samePlace⟩
  fresh := by
    intro id r' hg hn
    cases (step_committed h).effect id with
    | absent _ hn' =>
      rw [hn'] at hg
      cases hg
    | moved hg1 =>
      rw [hn] at hg1
      cases hg1

section Checks

variable {db : Db} {ws : WorkspaceId} {maxChildren maxDepth : Int}

variable {parent : PlanParent}

theorem parentRow_spec (h : parentRow db parentId = .ok parent) :
    ∃ t, db.threads.get? parentId = some t ∧ parent.channelId = t.channelId ∧
      db.workspaceOf t = some parent.workspaceId ∧ parent.assigneeId = t.assigneeId ∧
      parent.claimLeaseId = t.claimLeaseId ∧
      parent.kind = (db.threadAttributes.get? parentId).map ThreadAttributesRow.kind := by
  unfold parentRow at h
  split at h
  · cases h
  rename_i t ht
  split at h
  · cases h
  rename_i c hc
  split at h
  · cases h
  cases h
  refine ⟨t, ht, rfl, ?_, rfl, rfl, rfl⟩
  unfold Db.workspaceOf
  rw [hc]
  rfl

/-- Where `max_children` is set, `spawn_budget` found room for the new children. -/
theorem spawnBudget_children (hget : db.spawnBudgets.get? parent.workspaceId = some budget)
    (hmax : budget.maxChildren = some maxChildren)
    (h : spawnBudget db parentId parent adding = .ok ()) :
    countActiveChildren db parentId + adding ≤ maxChildren := by
  unfold spawnBudget at h
  simp only [hget, hmax] at h
  obtain ⟨_, hroom, _⟩ := bind_ok h
  split at hroom
  · cases hroom
  omega

/-- What `spawn_budget` has checked. -/
theorem spawnBudget_spec (hb : Budgeted db parent.workspaceId maxChildren maxDepth)
    (h : spawnBudget db parentId parent adding = .ok ()) :
    countActiveChildren db parentId + adding ≤ maxChildren ∧ threadDepth db parentId < maxDepth := by
  obtain ⟨budget, hget, hchildren, hdepth⟩ := hb
  refine ⟨spawnBudget_children hget hchildren h, ?_⟩
  unfold spawnBudget at h
  simp only [hget, hchildren, hdepth] at h
  obtain ⟨_, _, h⟩ := bind_ok h
  split at h
  · cases h
  omega

/-- What `enforce_spawn_budget` has checked. -/
theorem enforceSpawnBudget_spec (hb : Budgeted db ws maxChildren maxDepth)
    (hws : (db.channels.get? channel).map ChannelRow.workspaceId = some ws)
    (h : enforceSpawnBudget db channel (some parentId) = .ok ()) :
    countActiveChildren db parentId + 1 ≤ maxChildren ∧ threadDepth db parentId < maxDepth := by
  obtain ⟨budget, hget, hchildren, hdepth⟩ := hb
  unfold enforceSpawnBudget at h
  simp only [hws, hget, hchildren, hdepth] at h
  obtain ⟨_, hroom, h⟩ := bind_ok h
  constructor
  · split at hroom
    · cases hroom
    omega
  · split at h
    · cases h
    omega

theorem precheck_parent (h : precheck db new = .ok ()) (hp : new.parentThreadId = some p) :
    ∃ r, db.threads.get? p = some r ∧ r.channelId = new.channelId := by
  obtain ⟨_, hparent, _⟩ := bind_ok h
  rw [hp] at hparent
  simp only [validateParent] at hparent
  split at hparent
  · cases hparent
  rename_i r hr
  split at hparent
  · cases hparent
  rename_i hchannel
  exact ⟨r, hr, not_not.mp hchannel⟩

theorem Room.of_precheck (hb : Budgeted db ws maxChildren maxDepth) (h : precheck db new = .ok ()) :
    Room db ws maxChildren maxDepth new.parentThreadId new.channelId 1 := by
  obtain ⟨_, _, hbudget⟩ := bind_ok h
  refine ⟨fun _ => precheck_parent h, ?_, ?_⟩
  · intro p hp hws
    rw [hp] at hbudget
    exact (enforceSpawnBudget_spec hb hws hbudget).1
  · intro p hp hws d hd
    rw [hp] at hbudget
    rw [← hd.threadDepth_eq]
    exact (enforceSpawnBudget_spec hb hws hbudget).2

theorem Room.of_parentRow {adding : Nat} (hparent : parentRow db parentId = .ok parent)
    (hchildren : ∀ t, db.threads.get? parentId = some t → db.workspaceOf t = some ws →
      parent.workspaceId = ws → countActiveChildren db parentId + adding ≤ maxChildren)
    (hdepth : ∀ t, db.threads.get? parentId = some t → db.workspaceOf t = some ws →
      parent.workspaceId = ws → ∀ d : Nat, DepthAt db parentId d → (d : Int) < maxDepth) :
    Room db ws maxChildren maxDepth (some parentId) parent.channelId adding := by
  obtain ⟨t, ht, hchannel, hspace, _⟩ := parentRow_spec hparent
  have hin : (db.channels.get? parent.channelId).map ChannelRow.workspaceId = some ws →
      db.workspaceOf t = some ws ∧ parent.workspaceId = ws := by
    intro hws
    rw [hchannel] at hws
    exact ⟨hws, mem_unique hspace hws⟩
  refine ⟨?_, ?_, ?_⟩
  · intro p hp
    cases hp
    exact ⟨t, ht, hchannel.symm⟩
  · intro p hp hws
    cases hp
    exact hchildren t ht (hin hws).1 (hin hws).2
  · intro p hp hws
    cases hp
    exact hdepth t ht (hin hws).1 (hin hws).2

end Checks

/-! ## 5. Runs -/

/-- What can happen in the workspace: threads are created, plans submitted and amended, and claims
taken, kept and given back.  A plan and an amendment are checked first, as the routes do. -/
inductive SpawnOp
  | create (new : NewThread) (id : ThreadId) (now : Int)
  | createWithFootprint (new : NewThread) (footprint : Option Footprint)
      (attributes : Option TaskAttributes) (priority : Option Int) (id : ThreadId) (now : Int)
  | submitPlan (parent : ThreadId) (member : MemberId) (plan : SubmitPlan) (draws : PlanDraws)
  | amendPlan (parent : ThreadId) (member : MemberId) (amend : AmendPlan) (draws : PlanDraws)
  | claim (op : ClaimOp)

/-- One transaction. -/
def spawnTx (hash : List (Option String) → String) (db : Db) : SpawnOp → Except StoreError Db
  | .create new id now => create hash db new id now
  | .createWithFootprint new footprint attributes priority id now =>
    createWithFootprint hash db new footprint attributes priority id now
  | .submitPlan parent member plan draws => do
    let plan ← badRequest plan.checked
    let (db, _) ← submit hash db parent member plan draws
    return db
  | .amendPlan parent member amend draws => do
    let amend ← badRequest amend.checked
    let (db, _) ← Maidan.amend hash db parent member amend draws
    return db
  | .claim op => step db op

/-- One step of a run. -/
def spawnNext (hash : List (Option String) → String) (db : Db) (op : SpawnOp) : Db :=
  settle db (spawnTx hash db op)

/-- An amendment of a plan of the workspace that both cancels and adds has room for all it adds,
beside every child its parent has. -/
def AmendPlan.roomy (ws : WorkspaceId) (maxChildren : Int) (db : Db) (parent : ThreadId)
    (amend : AmendPlan) : Bool :=
  amend.cancel.isEmpty || amend.add.isEmpty ||
    (db.threads.get? parent).bind db.workspaceOf != some ws ||
    decide (countActiveChildren db parent + amend.add.length ≤ maxChildren)

/-- **The condition on a step**: an amendment, as checked, has room where it is made. -/
def SpawnOp.roomy (ws : WorkspaceId) (maxChildren : Int) (db : Db) : SpawnOp → Bool
  | .amendPlan parent _ amend _ =>
    match amend.checked with
    | .ok amend => amend.roomy ws maxChildren db parent
    | .error _ => true
  | _ => true

section Steps

variable {hash : List (Option String) → String} {db db' : Db} {ws : WorkspaceId}
  {maxChildren maxDepth : Int}

section

variable (hs : Within db ws maxChildren maxDepth)
include hs

theorem Within.insertNewThread (hcheck : precheck db new = .ok ())
    (h : insertNewThread hash db new footprint attributes priority id now = .ok db') :
    Within db' ws maxChildren maxDepth := by
  obtain ⟨db1, hcreated, hframe⟩ := insertNewThread_spec h
  have hrest : Grown db1 db' new.parentThreadId new.channelId [] := by
    refine .of_threads ?_
    rw [hframe]
  refine hs.grown (hcreated.grown.trans hrest) (Room.of_precheck hs.budget hcheck) ?_ ?_
    fun {_ row} hrow => .inl ⟨row, ?_⟩
  · rw [hframe, hcreated.frame]
  · rw [hframe, hcreated.frame]
  · rw [hframe, hcreated.frame] at hrow
    exact hrow

theorem Within.submit (h : submit hash db parentId member plan draws = .ok (db', outcome)) :
    Within db' ws maxChildren maxDepth := by
  rcases submit_cases h with
    ⟨rfl, _⟩ | ⟨parent, made, db1, db2, db3, hparent, _, hbudget, hinsert, hmade, hdeps, hhold, _⟩
  · exact hs
  · obtain ⟨hgrown, hchannels, hbudgets, hplans, hlen⟩ := submit_grown hinsert hmade hdeps hhold
    have hroom : Room db ws maxChildren maxDepth (some parentId) parent.channelId
        (made.map PlannedChild.threadId).length := by
      rw [length_map, hlen]
      refine Room.of_parentRow hparent ?_ ?_
      · rintro _ _ _ rfl
        exact (spawnBudget_spec hs.budget hbudget).1
      · rintro _ _ _ rfl d hd
        rw [← hd.threadDepth_eq]
        exact (spawnBudget_spec hs.budget hbudget).2
    refine hs.grown hgrown hroom hchannels hbudgets fun {id row} hrow => ?_
    rw [hplans] at hrow
    unfold Db.insertPlan at hinsert
    split at hinsert
    · cases hinsert
    rename_i plans hins
    cases hinsert
    rw [(get?_of_insert? hins).2] at hrow
    split at hrow
    · rename_i hid
      exact .inr (congrArg some hid)
    · exact .inl ⟨row, hrow⟩

theorem Within.amend {amend : AmendPlan} (hroomy : amend.roomy ws maxChildren db parentId = true)
    (h : Maidan.amend hash db parentId member amend draws = .ok (db', outcome)) :
    Within db' ws maxChildren maxDepth := by
  obtain ⟨parent, amendments, steps, hparent, _, hnet, hso, hsteps, hwrites, _⟩ := amend_cases h
  obtain ⟨hgrown, hchannels, hbudgets, hplans, hlen⟩ := amendInTx_grown hwrites
  rw [(AmendPlan.parts_of_steps hsteps).1] at hlen
  obtain ⟨plan, hplan⟩ : ∃ plan, db.threadPlans.get? parentId = some plan := by
    unfold amendmentsSoFar at hso
    split at hso
    · cases hso
    rename_i plan hplan
    exact ⟨plan, hplan⟩
  have hroom : Room db ws maxChildren maxDepth (some parentId) parent.channelId
      (outcome.added.map PlannedChild.threadId).length := by
    rw [length_map, hlen]
    refine Room.of_parentRow hparent ?_ ?_
    · rintro t ht hin rfl
      simp only [AmendPlan.roomy, Bool.or_eq_true, List.isEmpty_iff, bne_iff_ne, ne_eq,
        decide_eq_true_eq, ht, bind_some, hin, not_true_eq_false, or_false] at hroomy
      rcases hroomy with (hnone | hnone) | hfits
      · -- nothing is cancelled, so the check covers all that is added
        unfold netSpawnBudget at hnet
        rw [hnone] at hnet
        split at hnet
        · have := (spawnBudget_spec hs.budget hnet).1
          simpa using this
        · have hold := hs.children ht hin
          simp only [length_nil] at *
          omega
      · have hold := hs.children ht hin
        rw [hnone]
        simpa using hold
      · exact hfits
    · intro t ht hin _ d hd
      obtain ⟨d', hd', hlt⟩ := (hs.plans hplan).2 t ht hin
      rw [hd.unique hd']
      exact hlt
  refine hs.grown hgrown hroom hchannels hbudgets fun {id row} hrow => ?_
  rw [hplans, get?_update] at hrow
  split at hrow
  · obtain ⟨row', hrow', _⟩ := map_eq_some_iff.mp hrow
    exact .inl ⟨row', hrow'⟩
  · exact .inl ⟨row, hrow⟩

theorem Within.claimOp (h : step db op = .ok db') : Within db' ws maxChildren maxDepth := by
  have hframe := (step_committed h).frame
  have hgrown : Grown db db' none ⟨0⟩ [] := step_grown h
  refine hs.grown hgrown Room.nothing (by rw [hframe]) (by rw [hframe]) fun {id row} hrow => ?_
  rw [hframe] at hrow
  exact .inl ⟨row, hrow⟩

/-- **One step** with room for what it adds. -/
theorem Within.spawnNext {op : SpawnOp} (hroomy : op.roomy ws maxChildren db = true) :
    Within (spawnNext hash db op) ws maxChildren maxDepth := by
  unfold Maidan.spawnNext
  cases h : spawnTx hash db op with
  | error => exact hs
  | ok =>
    cases op with
    | create =>
      obtain ⟨_, hcheck, h⟩ := bind_ok h
      exact hs.insertNewThread hcheck h
    | createWithFootprint new footprint attributes =>
      obtain ⟨hcheck, footprint, attributes, h⟩ := createWithFootprint_spec h
      exact hs.insertNewThread hcheck h
    | submitPlan =>
      obtain ⟨plan', _, h⟩ := bind_ok h
      obtain ⟨⟨db1, outcome⟩, hsubmit, h⟩ := bind_ok h
      cases h
      exact hs.submit hsubmit
    | amendPlan =>
      obtain ⟨amend', hchecked, h⟩ := bind_ok h
      obtain ⟨⟨db1, outcome⟩, hamend, h⟩ := bind_ok h
      cases h
      simp only [SpawnOp.roomy, badRequest_eq_ok.mp hchecked] at hroomy
      exact hs.amend hroomy hamend
    | claim => exact hs.claimOp h

end

end Steps

/-- **The spawn budget bounds the tree**, in every run whose amendments have room for what they add:
no thread of the workspace has more than `max_children` children that count, and none that has a
parent lies deeper than `max_depth`. -/
theorem spawn_budget_bounds_tree (hash : List (Option String) → String) {db : Db}
    {ws : WorkspaceId} {maxChildren maxDepth : Int}
    (hstart : SpawnStart db ws maxChildren maxDepth) (ops : List SpawnOp)
    (hops : Meets (spawnNext hash) (fun db op => op.roomy ws maxChildren db = true) db ops) :
    ∀ t ∈ (exec (spawnNext hash) db ops).threads.rows,
      (exec (spawnNext hash) db ops).workspaceOf t = some ws →
      countActiveChildren (exec (spawnNext hash) db ops) t.id ≤ maxChildren ∧
      (t.parentThreadId.isSome → threadDepth (exec (spawnNext hash) db ops) t.id ≤ maxDepth) := by
  let Inv : Db → Prop := fun db => Within db ws maxChildren maxDepth
  have hstep : ∀ s a, Inv s → SpawnOp.roomy ws maxChildren s a = true → Inv (spawnNext hash s a) :=
    fun _ _ h hroomy => Within.spawnNext h hroomy
  have hs : Within (exec (spawnNext hash) db ops) ws maxChildren maxDepth :=
    exec_inv_of_meets hstep ops db hstart.within hops
  intro t ht hin
  have hg := get?_of_mem ht
  refine ⟨hs.children hg hin, fun hsome => ?_⟩
  obtain ⟨d, hd, hle⟩ := hs.depth hg hin
  rw [hd.threadDepth_eq]
  exact hle hsome

/-- A workspace that allows two children to a thread, two levels deep. -/
def twoChildrenDb : Db where
  __ := quietDb
  spawnBudgets := { rows := [{ workspaceId := ⟨1⟩, maxChildren := some 2, maxDepth := some 2 }] }
  egressTargets := branchTarget

theorem spawnStart_twoChildrenDb : SpawnStart twoChildrenDb ⟨1⟩ 2 2 where
  budget := ⟨{ workspaceId := ⟨1⟩, maxChildren := some 2, maxDepth := some 2 }, by decide, rfl, rfl⟩
  nonneg := by decide
  empty := by simp [twoChildrenDb]
  parents := by simp [twoChildrenDb]
  plans := by simp [twoChildrenDb]

/-- Thread 1 is a plan that member 1 holds under lease 1. -/
def planClaimed : List SpawnOp :=
  [.createWithFootprint { channelId := ⟨1⟩, title := some "Plan it", createdBy := some ⟨1⟩ } none
     (some { kind := .plan }) none ⟨1⟩ 0,
   .claim (.claim ⟨1⟩ ⟨1⟩ ⟨1⟩ none 0)]

/-- A plan of one child, and one more added. -/
def oneAndOne : List SpawnOp :=
  planClaimed ++
  [.submitPlan ⟨1⟩ ⟨1⟩ { leaseId := ⟨1⟩, children := [readyChild "a"] } (planDraws 10 1),
   .amendPlan ⟨1⟩ ⟨1⟩ { leaseId := ⟨1⟩, cancel := ["a"], add := [readyChild "b"] } (planDraws 20 2)]

set_option maxRecDepth 40000 in
theorem spawn_budget_bounds_tree_oneAndOne :
    SpawnStart twoChildrenDb ⟨1⟩ 2 2 ∧
    Meets (spawnNext plainHash) (fun db op => op.roomy ⟨1⟩ 2 db = true) twoChildrenDb oneAndOne ∧
    ((exec (spawnNext plainHash) twoChildrenDb oneAndOne).threads.rows.map ThreadRow.id =
      [⟨1⟩, ⟨10⟩, ⟨20⟩]) ∧
    ∀ t ∈ (exec (spawnNext plainHash) twoChildrenDb oneAndOne).threads.rows,
      (exec (spawnNext plainHash) twoChildrenDb oneAndOne).workspaceOf t = some ⟨1⟩ →
      countActiveChildren (exec (spawnNext plainHash) twoChildrenDb oneAndOne) t.id ≤ 2 ∧
      (t.parentThreadId.isSome →
        threadDepth (exec (spawnNext plainHash) twoChildrenDb oneAndOne) t.id ≤ 2) := by
  have hmeets : Meets (spawnNext plainHash) (fun db op => op.roomy ⟨1⟩ 2 db = true)
      twoChildrenDb oneAndOne := by
    decide +kernel
  exact ⟨spawnStart_twoChildrenDb, hmeets, by decide +kernel,
    spawn_budget_bounds_tree plainHash spawnStart_twoChildrenDb oneAndOne hmeets⟩

/-- A plan of two children, which is all the budget allows, and one of them replaced. -/
def replacedChild : List SpawnOp :=
  planClaimed ++
  [.submitPlan ⟨1⟩ ⟨1⟩ { leaseId := ⟨1⟩, children := [readyChild "a", readyChild "b"] }
     (planDraws 10 1),
   .amendPlan ⟨1⟩ ⟨1⟩ { leaseId := ⟨1⟩, cancel := ["a"], add := [readyChild "c"] } (planDraws 20 2)]

set_option maxRecDepth 40000 in
/-- **An amendment takes its parent past `max_children`.**  Every step is accepted; the cancelled
child is closed and still counts. -/
theorem replacement_passes_max_children :
    SpawnStart twoChildrenDb ⟨1⟩ 2 2 ∧
    ∃ t ∈ (exec (spawnNext plainHash) twoChildrenDb replacedChild).threads.rows,
      (exec (spawnNext plainHash) twoChildrenDb replacedChild).workspaceOf t = some ⟨1⟩ ∧
      countActiveChildren (exec (spawnNext plainHash) twoChildrenDb replacedChild) t.id = 3 :=
  ⟨spawnStart_twoChildrenDb, by decide +kernel⟩

end Maidan
