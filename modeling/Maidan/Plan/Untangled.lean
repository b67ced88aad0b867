/-
# What an amendment does to the graph

`steps` looks at the amended plan's graph BY KEY, and only at the plan's own children.  The table
has other rows: a child may wait for a thread outside the plan that waits, at some remove, for
another child.  Such a DETOUR is no edge of the amended graph, so the loop search does not see it.

`untangled` is the question the search does not ask: has the amended graph a loop once every detour
is added as an edge?  `amend_noCycle_iff` says it is the right one: an amendment of a plan keeps the
table without a cycle exactly when it is untangled.
-/
import Maidan.Plan.Effects

namespace Maidan

open Relational Run Digraph Relation List

/-! ## 1. The plan as it is read -/

variable {t v u : ThreadId} {e : ExistingPlanChild} {k d : String}
  {existing : List ExistingPlanChild} {db' : Db} {hash : List (Option String) → String}

variable {db : Db} {amend : AmendPlan} {parentId : ThreadId} {key : String} {nodes : List KeyNode}
  {node : KeyNode} {steps : AmendmentSteps} {added : List PlannedChild} {member : MemberId}
  {draws : PlanDraws}

section Reading

variable {db : Db} {parentId : ThreadId}

theorem mem_planRows : c ∈ planRows db parentId ↔
    c ∈ db.threadPlanChildren.rows ∧ c.parentThreadId = parentId := by
  unfold planRows
  rw [(perm_insertionSort _ _).mem_iff, mem_filter, beq_iff_eq]

theorem mem_amendRows {t : ThreadRow} : (c, t) ∈ amendRows db parentId ↔
    (c ∈ db.threadPlanChildren.rows ∧ c.parentThreadId = parentId) ∧
      db.threads.get? c.childThreadId = some t := by
  unfold amendRows
  rw [mem_filterMap]
  constructor
  · rintro ⟨c', hc', h⟩
    obtain ⟨t', ht', heq⟩ := map_eq_some_iff.mp h
    cases heq
    exact ⟨mem_planRows.mp hc', ht'⟩
  · rintro ⟨hc, ht⟩
    exact ⟨c, mem_planRows.mpr hc, by simp [ht]⟩

theorem amendRows_nodup : (amendRows db parentId).Nodup := by
  have hrows : db.threadPlanChildren.rows.Nodup := List.Nodup.of_map _ db.threadPlanChildren.nodup
  have hplan : (planRows db parentId).Nodup := by
    exact (perm_insertionSort _ _).nodup_iff.mpr (hrows.filter _)
  refine hplan.filterMap fun c c' r hr hr' => ?_
  obtain ⟨t, _, rfl⟩ := map_eq_some_iff.mp hr
  obtain ⟨t', _, heq⟩ := map_eq_some_iff.mp hr'
  exact (congrArg Prod.fst heq).symm

/-- A row of the plan is known by its key: `(parent_thread_id, child_key)` is the primary key. -/
theorem amendRows_eq_of_key (hr : r ∈ amendRows db parentId) (hr' : r' ∈ amendRows db parentId)
    (hkey : r.1.childKey = r'.1.childKey) : r = r' := by
  obtain ⟨c, t⟩ := r
  obtain ⟨c', t'⟩ := r'
  obtain ⟨⟨hc, hp⟩, ht⟩ := mem_amendRows.mp hr
  obtain ⟨⟨hc', hp'⟩, ht'⟩ := mem_amendRows.mp hr'
  have hpk : (c.parentThreadId, c.childKey) = (c'.parentThreadId, c'.childKey) := by
    rw [hp, hp', hkey]
  obtain rfl := Table.eq_of_key_eq hc hc' hpk
  rw [ht] at ht'
  cases ht'
  rfl

/-- … and by its thread: `child_thread_id` is unique. -/
theorem Wired.amendRows_eq_of_thread (h : Wired db) (hr : r ∈ amendRows db parentId)
    (hr' : r' ∈ amendRows db parentId) (hthread : r.1.childThreadId = r'.1.childThreadId) :
    r = r' := by
  obtain ⟨c, t⟩ := r
  obtain ⟨c', t'⟩ := r'
  have hc := (mem_amendRows.mp hr).1.1
  have hc' := (mem_amendRows.mp hr').1.1
  exact amendRows_eq_of_key hr hr' (by rw [h.unique c hc c' hc' hthread])

theorem existing_keys_nodup : ((existingChildren db parentId).map ExistingPlanChild.key).Nodup := by
  unfold existingChildren
  rw [List.map_map]
  exact List.Nodup.map_on (fun r hr r' hr' hkey => amendRows_eq_of_key hr hr' hkey) amendRows_nodup

theorem Wired.existing_threads_nodup (h : Wired db) :
    ((existingChildren db parentId).map ExistingPlanChild.threadId).Nodup := by
  unfold existingChildren
  rw [List.map_map]
  exact List.Nodup.map_on (fun r hr r' hr' ht => h.amendRows_eq_of_thread hr hr' ht) amendRows_nodup

theorem Wired.mem_existing_threads (h : Wired db) :
    v ∈ (existingChildren db parentId).map ExistingPlanChild.threadId ↔ InPlan db parentId v := by
  unfold existingChildren InPlan
  rw [List.map_map, List.mem_map]
  constructor
  · rintro ⟨⟨c, t⟩, hr, rfl⟩
    obtain ⟨⟨hc, hp⟩, _⟩ := mem_amendRows.mp hr
    exact ⟨c, hc, hp, rfl⟩
  · rintro ⟨c, hc, hp, rfl⟩
    obtain ⟨t, ht⟩ := isSome_iff_exists.mp (h.children c hc)
    exact ⟨(c, t), mem_amendRows.mpr ⟨⟨hc, hp⟩, ht⟩, rfl⟩

/-- **What a child is read to depend on**: its rows on children of the plan. -/
theorem Wired.mem_dependsOn (h : Wired db) (he : e ∈ existingChildren db parentId) :
    key ∈ e.dependsOn ↔ ∃ e' ∈ existingChildren db parentId, e'.key = key ∧
      Depends db e.threadId e'.threadId := by
  obtain ⟨r, hr, rfl⟩ := mem_map.mp he
  unfold dependsOnKeys
  rw [mem_filterMap]
  constructor
  · rintro ⟨⟨from', dest⟩, hd, hfind⟩
    obtain ⟨hd, hfrom⟩ := mem_filter.mp hd
    obtain ⟨r', hr', rfl⟩ := map_eq_some_iff.mp hfind
    have hdest : r'.1.childThreadId = dest := by simpa using find?_some hr'
    obtain rfl : from' = r.1.childThreadId := by simpa using hfrom
    refine ⟨_, mem_map.mpr ⟨r', mem_of_find?_eq_some hr', rfl⟩, rfl, ?_⟩
    exact depends_iff.mpr (by rw [hdest]; exact hd)
  · rintro ⟨e', he', rfl, hd⟩
    obtain ⟨r', hr', rfl⟩ := mem_map.mp he'
    refine ⟨_, mem_filter.mpr ⟨depends_iff.mp hd, by simp⟩, ?_⟩
    cases hfind : (amendRows db parentId).find? fun x =>
        x.1.childThreadId = r'.1.childThreadId with
    | none =>
      have hno := find?_eq_none.mp hfind r' hr'
      simp at hno
    | some found =>
      have hthread : found.1.childThreadId = r'.1.childThreadId := by
        simpa using find?_some hfind
      rw [h.amendRows_eq_of_thread (mem_of_find?_eq_some hfind) hr' hthread]
      rfl

end Reading

/-! ## 2. The threads of the amended plan -/

theorem wire_eq_ok : wire threads key = .ok t ↔ lastOf threads key = some t := by
  unfold wire
  cases lastOf threads key with
  | none | some => simp

/-- **An amendment under way**: accepted, on a plan the schema vouches for, with the children it
added. -/
structure Amending (db : Db) (parentId : ThreadId) (amend : AmendPlan) (steps : AmendmentSteps)
    (added : List PlannedChild) : Prop where
  wired : Wired db
  accepted : amend.Accepted (existingChildren db parentId) steps
  addedKeys : added.map PlannedChild.key = amend.add.map PlanChild.key
  addedNodup : (added.map PlannedChild.threadId).Nodup
  addedFree : ∀ t ∈ added.map PlannedChild.threadId, ¬db.HasThread t

namespace Amending

variable {db : Db} {parentId : ThreadId} {amend : AmendPlan} {steps : AmendmentSteps}
  {added : List PlannedChild}

/-- The thread behind each key of the amended plan. -/
abbrev threads (_ : Amending db parentId amend steps added) : List (String × ThreadId) :=
  threadOf (existingChildren db parentId) steps added

/-- The children that stay. -/
abbrev staying (_ : Amending db parentId amend steps added) : List ExistingPlanChild :=
  amend.staying (existingChildren db parentId)

/-- The threads cancelled. -/
abbrev gone (_ : Amending db parentId amend steps added) : List ThreadId :=
  steps.cancel.map PlannedChild.threadId

variable (h : Amending db parentId amend steps added)

include h

theorem gone_iff (he : e ∈ existingChildren db parentId) :
    e.threadId ∈ h.gone ↔ amend.cancels e.key = true := by
  have hcancels : amend.cancels e.key = true ↔ e.key ∈ steps.cancel.map PlannedChild.key := by
    rw [h.accepted.cancelKeys]
    exact contains_iff_mem
  rw [hcancels]
  constructor
  · intro hmem
    obtain ⟨c, hc, hthread⟩ := mem_map.mp hmem
    obtain ⟨e', he', hkey, hthread'⟩ := h.accepted.cancelled c hc
    have heq : e' = e := inj_on_of_nodup_map h.wired.existing_threads_nodup he' he
      (hthread'.trans hthread)
    exact mem_map.mpr ⟨c, hc, by rw [← hkey, heq]⟩
  · intro hmem
    obtain ⟨c, hc, hkey⟩ := mem_map.mp hmem
    obtain ⟨e', he', hkey', hthread⟩ := h.accepted.cancelled c hc
    have heq : e' = e := inj_on_of_nodup_map existing_keys_nodup he' he (hkey'.trans hkey)
    exact mem_map.mpr ⟨c, hc, by rw [← hthread, heq]⟩

/-- `thread_of` has the children that stay, and the added ones. -/
theorem threads_eq : h.threads = h.staying.map (fun e => (e.key, e.threadId)) ++
      added.map fun c => (c.key, c.threadId) := by
  unfold threads threadOf staying AmendPlan.staying
  congr 2
  refine filter_congr fun e he => ?_
  have hiff := h.gone_iff he
  have hany : (steps.cancel.any fun x => x.threadId == e.threadId) = true ↔
      e.threadId ∈ h.gone := by
    simp
  rw [Bool.eq_iff_iff]
  simp only [Bool.not_eq_true', ← Bool.not_eq_true]
  exact not_congr (hany.trans hiff)

theorem threads_keys :
    h.threads.map Prod.fst = (amend.graph (existingChildren db parentId)).map Prod.fst := by
  rw [h.threads_eq, AmendPlan.graph_keys, List.map_append, List.map_map, List.map_map,
    ← h.addedKeys]
  rfl

theorem keys_nodup : (h.threads.map Prod.fst).Nodup := by
  rw [h.threads_keys]
  exact h.accepted.nodup

theorem hasThread_existing (he : e ∈ existingChildren db parentId) : db.HasThread e.threadId := by
  have hmem := mem_map_of_mem (f := ExistingPlanChild.threadId) he
  obtain ⟨c, hc, _, hthread⟩ := h.wired.mem_existing_threads.mp hmem
  rw [← hthread]
  exact h.wired.children c hc

theorem threads_nodup : (h.threads.map Prod.snd).Nodup := by
  rw [h.threads_eq, List.map_append, List.map_map, List.map_map]
  refine List.nodup_append.mpr ⟨?_, h.addedNodup, ?_⟩
  · exact h.wired.existing_threads_nodup.sublist (List.filter_sublist.map _)
  · rintro t ht t' ht' rfl
    obtain ⟨e, he, rfl⟩ := mem_map.mp ht
    exact h.addedFree _ ht' (h.hasThread_existing (AmendPlan.mem_staying.mp he).1)

theorem thread_unique (ht : (k, t) ∈ h.threads) (ht' : (k, t') ∈ h.threads) : t = t' :=
  congrArg Prod.snd (inj_on_of_nodup_map h.keys_nodup ht ht' rfl)

theorem key_unique (hk : (k, t) ∈ h.threads) (hk' : (k', t) ∈ h.threads) : k = k' :=
  congrArg Prod.fst (inj_on_of_nodup_map h.threads_nodup hk hk' rfl)

theorem wire_iff : wire h.threads k = .ok t ↔ (k, t) ∈ h.threads :=
  wire_eq_ok.trans (lastOf_eq_some_iff h.keys_nodup)

/-- An entry of `thread_of` whose thread was there is a child that stays. -/
theorem staying_of_hasThread (hmem : (k, t) ∈ h.threads) (ht : db.HasThread t) :
    ∃ e ∈ h.staying, e.key = k ∧ e.threadId = t := by
  rw [h.threads_eq, mem_append] at hmem
  rcases hmem with hmem | hmem
  · obtain ⟨e, he, heq⟩ := mem_map.mp hmem
    cases heq
    exact ⟨e, he, rfl, rfl⟩
  · obtain ⟨c, hc, heq⟩ := mem_map.mp hmem
    cases heq
    exact absurd ht (h.addedFree _ (mem_map.mpr ⟨c, hc, rfl⟩))

theorem mem_threads_of_staying (he : e ∈ h.staying) : (e.key, e.threadId) ∈ h.threads := by
  rw [h.threads_eq, mem_append]
  exact .inl (mem_map.mpr ⟨e, he, rfl⟩)

/-! ## 3. The rows the amendment leaves -/

/-- **The dependencies after the writes**: the old ones less those on cancelled children, and those
of the added children; of these the rewritten children lose what is in the plan, and get their new
lists. -/
def Rewrote (db' : Db) : Prop :=
  ∀ u v, Depends db' u v ↔
    (((Depends db u v ∧ v ∉ h.gone) ∨ NodeEdge h.threads (keyNodes amend.add) u v) ∧
      ¬(NodeThread h.threads (amend.rewrite (existingChildren db parentId)) u ∧
        v ∈ h.threads.map Prod.snd)) ∨
    NodeEdge h.threads (amend.rewrite (existingChildren db parentId)) u v

theorem mem_of_nodeEdge (hE : NodeEdge h.threads nodes u v) :
    u ∈ h.threads.map Prod.snd ∧ v ∈ h.threads.map Prod.snd := by
  obtain ⟨node, _, hu, dep, _, hv⟩ := hE
  exact ⟨mem_map.mpr ⟨_, h.wire_iff.mp hu, rfl⟩, mem_map.mpr ⟨_, h.wire_iff.mp hv, rfl⟩⟩

omit h in
theorem mem_rewrite : node ∈ amend.rewrite existing ↔ ∃ e ∈ amend.staying existing,
      amend.rewritten existing e = some node.2 ∧ e.key = node.1 := by
  unfold AmendPlan.rewrite
  rw [mem_filterMap]
  refine exists_congr fun e => and_congr_right fun _ => ?_
  rw [map_eq_some_iff]
  constructor
  · rintro ⟨deps, hdeps, rfl⟩
    exact ⟨hdeps, rfl⟩
  · rintro ⟨hdeps, hkey⟩
    exact ⟨node.2, hdeps, by rw [hkey]⟩

omit h in
theorem keyEdge_graph : KeyEdge (amend.graph existing) k d ↔
      (∃ e ∈ amend.staying existing, e.key = k ∧
        d ∈ (amend.rewritten existing e).getD e.dependsOn) ∨
      ∃ node ∈ keyNodes amend.add, node.1 = k ∧ d ∈ node.2 := by
  constructor
  · rintro ⟨deps, hmem, hd⟩
    rcases mem_append.mp hmem with hmem | hmem
    · obtain ⟨e, he, heq⟩ := mem_map.mp hmem
      cases heq
      exact .inl ⟨e, he, rfl, hd⟩
    · exact .inr ⟨_, hmem, rfl, hd⟩
  · rintro (⟨e, he, rfl, hd⟩ | ⟨node, hnode, rfl, hd⟩)
    · exact ⟨_, mem_append.mpr (.inl (mem_map.mpr ⟨e, he, rfl⟩)), hd⟩
    · exact ⟨_, mem_append.mpr (.inr hnode), hd⟩

theorem rewritten_of_nodeThread (hk : (k, u) ∈ h.threads)
    (hu : NodeThread h.threads (amend.rewrite (existingChildren db parentId)) u) :
    ∃ e ∈ h.staying, e.key = k ∧ (amend.rewritten (existingChildren db parentId) e).isSome := by
  obtain ⟨node, hnode, hwire⟩ := hu
  obtain ⟨e, he, hdeps, hkey⟩ := mem_rewrite.mp hnode
  refine ⟨e, he, ?_, by simp [hdeps]⟩
  rw [hkey]
  exact h.key_unique (h.wire_iff.mp hwire) hk

theorem staying_unique (he : e ∈ h.staying) (he' : e' ∈ h.staying) (hkey : e.key = e'.key) :
    e = e' :=
  inj_on_of_nodup_map existing_keys_nodup (AmendPlan.mem_staying.mp he).1
    (AmendPlan.mem_staying.mp he').1 hkey

theorem staying_not_added (he : e ∈ h.staying) (hnode : node ∈ keyNodes amend.add) :
    e.key ≠ node.1 := by
  have hnodup := h.accepted.nodup
  rw [AmendPlan.graph_keys] at hnodup
  refine (nodup_append.mp hnodup).2.2 _ (mem_map.mpr ⟨e, he, rfl⟩) _ ?_
  rw [← keyNodes_keys]
  exact mem_map.mpr ⟨node, hnode, rfl⟩

/-- **An edge of the amended graph is a row.** -/
theorem depends_of_keyEdge (hdep : h.Rewrote db')
    (hu : (k, u) ∈ h.threads) (hv : (d, v) ∈ h.threads)
    (hE : KeyEdge (amend.graph (existingChildren db parentId)) k d) : Depends db' u v := by
  rw [hdep]
  rcases keyEdge_graph.mp hE with ⟨e, he, rfl, hd⟩ | ⟨node, hnode, rfl, hd⟩
  · obtain rfl := h.thread_unique hu (h.mem_threads_of_staying he)
    cases hrew : amend.rewritten (existingChildren db parentId) e with
    | some deps =>
      -- rewritten: one of the new rows
      rw [hrew, Option.getD_some] at hd
      refine .inr ⟨(e.key, deps), mem_rewrite.mpr ⟨e, he, hrew, rfl⟩, h.wire_iff.mpr hu, d, hd, ?_⟩
      exact h.wire_iff.mpr hv
    | none =>
      -- as it was: an old row, on a child that is not cancelled
      rw [hrew, Option.getD_none] at hd
      have hex := (AmendPlan.mem_staying.mp he).1
      obtain ⟨e', he', rfl, hold⟩ := (h.wired.mem_dependsOn hex).mp hd
      have hkept : amend.cancels e'.key = false := by
        unfold AmendPlan.rewritten at hrew
        split at hrew
        · cases hrew
        split at hrew
        · cases hrew
        rename_i hnone
        simp only [any_eq_true, not_exists, not_and, Bool.not_eq_true] at hnone
        exact hnone e'.key hd
      have he'' : e' ∈ h.staying := AmendPlan.mem_staying.mpr ⟨he', hkept⟩
      obtain rfl := h.thread_unique hv (h.mem_threads_of_staying he'')
      refine .inl ⟨.inl ⟨hold, ?_⟩, ?_⟩
      · rw [h.gone_iff he', hkept]
        simp
      · rintro ⟨hrw, _⟩
        obtain ⟨e2, he2, hkey, hsome⟩ := h.rewritten_of_nodeThread hu hrw
        rw [h.staying_unique he2 he hkey, hrew] at hsome
        cases hsome
  · refine .inl ⟨.inr ⟨node, hnode, h.wire_iff.mpr hu, d, hd, h.wire_iff.mpr hv⟩, ?_⟩
    rintro ⟨hrw, _⟩
    obtain ⟨e, he, hkey, _⟩ := h.rewritten_of_nodeThread hu hrw
    exact h.staying_not_added he hnode hkey

/-- **A row inside the amended plan is an edge of its graph.** -/
theorem keyEdge_of_depends (hdep : h.Rewrote db')
    (hu : (k, u) ∈ h.threads) (hv : (d, v) ∈ h.threads) (hd : Depends db' u v) :
    KeyEdge (amend.graph (existingChildren db parentId)) k d := by
  have hinside : v ∈ h.threads.map Prod.snd := mem_map.mpr ⟨_, hv, rfl⟩
  rcases (hdep u v).mp hd with ⟨⟨hold, _⟩ | hadd, hkeep⟩ | hrw
  · -- an old row of a child that was not rewritten
    have hends := h.wired.ends hold
    obtain ⟨e, he, rfl, rfl⟩ := h.staying_of_hasThread hu hends.1
    obtain ⟨e', he', rfl, rfl⟩ := h.staying_of_hasThread hv hends.2
    have hnone : amend.rewritten (existingChildren db parentId) e = none := by
      cases hrew : amend.rewritten (existingChildren db parentId) e with
      | none => rfl
      | some deps =>
        refine absurd ⟨⟨(e.key, deps), mem_rewrite.mpr ⟨e, he, hrew, rfl⟩, ?_⟩, hinside⟩ hkeep
        exact h.wire_iff.mpr hu
    refine keyEdge_graph.mpr (.inl ⟨e, he, rfl, ?_⟩)
    rw [hnone, Option.getD_none]
    refine (h.wired.mem_dependsOn (AmendPlan.mem_staying.mp he).1).mpr ⟨e', ?_, rfl, hold⟩
    exact (AmendPlan.mem_staying.mp he').1
  · obtain ⟨node, hnode, hwu, dep, hdep', hwv⟩ := hadd
    obtain rfl := h.key_unique (h.wire_iff.mp hwu) hu
    obtain rfl := h.key_unique (h.wire_iff.mp hwv) hv
    exact keyEdge_graph.mpr (.inr ⟨node, hnode, rfl, hdep'⟩)
  · obtain ⟨node, hnode, hwu, dep, hdep', hwv⟩ := hrw
    obtain rfl := h.key_unique (h.wire_iff.mp hwu) hu
    obtain rfl := h.key_unique (h.wire_iff.mp hwv) hv
    obtain ⟨e, he, hdeps, hkey⟩ := mem_rewrite.mp hnode
    refine keyEdge_graph.mpr (.inl ⟨e, he, hkey, ?_⟩)
    rw [hdeps, Option.getD_some]
    exact hdep'

/-- **A row with an end outside the amended plan is an old one.** -/
theorem depends_outside (hdep : h.Rewrote db')
    (hout : ¬(u ∈ h.threads.map Prod.snd ∧ v ∈ h.threads.map Prod.snd)) :
    Depends db' u v ↔ Depends db u v ∧ v ∉ h.gone := by
  have hno : ∀ nodes, ¬NodeEdge h.threads nodes u v := fun _ hE => hout (h.mem_of_nodeEdge hE)
  rw [hdep]
  simp only [hno, or_false]
  refine and_iff_left ?_
  rintro ⟨⟨node, _, hwire⟩, hv⟩
  exact hout ⟨mem_map.mpr ⟨_, h.wire_iff.mp hwire, rfl⟩, hv⟩

end Amending

/-! ## 4. Detours -/

/-- The edges of a graph by key. -/
def graphEdges (nodes : List KeyNode) : List (String × String) :=
  nodes.flatMap fun node => node.2.map fun dep => (node.1, dep)

theorem mem_graphEdges : (k, d) ∈ graphEdges nodes ↔ KeyEdge nodes k d := by
  unfold graphEdges KeyEdge
  rw [mem_flatMap]
  constructor
  · rintro ⟨⟨k', deps⟩, hnode, hmem⟩
    obtain ⟨dep, hdep, heq⟩ := mem_map.mp hmem
    cases heq
    exact ⟨deps, hnode, hdep⟩
  · rintro ⟨deps, hnode, hdep⟩
    exact ⟨(k, deps), hnode, mem_map.mpr ⟨d, hdep, rfl⟩⟩

section Condition

variable (db : Db) (parentId : ThreadId) (amend : AmendPlan)

/-- The rows that outlive the cancels: those on a cancelled child go. -/
def remainingEdges : List (ThreadId × ThreadId) :=
  (edgesOf db).filter fun e => !(((existingChildren db parentId).filter fun c =>
    amend.cancels c.key).map ExistingPlanChild.threadId).contains e.2

/-- The thread is a child that stays. -/
def stays (t : ThreadId) : Bool :=
  ((amend.staying (existingChildren db parentId)).map ExistingPlanChild.threadId).contains t

/-- **The detours, by key**: one child that stays reaches another through threads outside the plan. -/
def detourEdges : List (String × String) :=
  let staying := amend.staying (existingChildren db parentId)
  staying.flatMap fun a => (staying.filter fun b =>
    detour (remainingEdges db parentId amend) (stays db parentId amend) a.threadId b.threadId).map
      fun b => (a.key, b.key)

/-- **The amended graph has no loop, detours counted.** -/
def untangled : Bool :=
  loopFree (graphEdges (amend.graph (existingChildren db parentId)) ++
    detourEdges db parentId amend)

end Condition

namespace Amending

variable {db : Db} {parentId : ThreadId} {amend : AmendPlan} {steps : AmendmentSteps}
  {added : List PlannedChild}

variable (h : Amending db parentId amend steps added)

include h

theorem mem_gone :
    v ∈ h.gone ↔ v ∈ ((existingChildren db parentId).filter fun c => amend.cancels c.key).map
      ExistingPlanChild.threadId := by
  constructor
  · intro hv
    obtain ⟨c, hc, rfl⟩ := mem_map.mp hv
    obtain ⟨e, he, _, hthread⟩ := h.accepted.cancelled c hc
    rw [← hthread] at hv ⊢
    exact mem_map.mpr ⟨e, mem_filter.mpr ⟨he, (h.gone_iff he).mp hv⟩, rfl⟩
  · intro hv
    obtain ⟨e, he, rfl⟩ := mem_map.mp hv
    obtain ⟨hex, hcancel⟩ := mem_filter.mp he
    exact (h.gone_iff hex).mpr hcancel

theorem edge_remaining :
    Edge (remainingEdges db parentId amend) u v ↔ Depends db u v ∧ v ∉ h.gone := by
  unfold Edge remainingEdges
  rw [mem_filter, h.mem_gone, Bool.not_eq_true', ← Bool.not_eq_true, contains_iff_mem]
  rfl

theorem inside_iff_stays (ht : db.HasThread t) :
    t ∈ h.threads.map Prod.snd ↔ stays db parentId amend t = true := by
  unfold stays
  rw [contains_iff_mem, mem_map (l := amend.staying _)]
  constructor
  · intro hmem
    obtain ⟨⟨k, t'⟩, hentry, rfl⟩ := mem_map.mp hmem
    obtain ⟨e, he, _, hthread⟩ := h.staying_of_hasThread hentry ht
    exact ⟨e, he, hthread⟩
  · rintro ⟨e, he, rfl⟩
    exact mem_map.mpr ⟨_, h.mem_threads_of_staying he, rfl⟩

theorem detour_iff_stays :
    Detour (Edge (remainingEdges db parentId amend)) (· ∈ h.threads.map Prod.snd) u v ↔
      detour (remainingEdges db parentId amend) (stays db parentId amend) u v = true := by
  rw [detour_iff]
  refine Detour.congr fun x y hxy => ?_
  have hends := h.wired.ends (h.edge_remaining.mp hxy).1
  exact ⟨h.inside_iff_stays hends.1, h.inside_iff_stays hends.2⟩

omit h in
theorem mem_detourEdges : (k, d) ∈ detourEdges db parentId amend ↔
    ∃ a ∈ amend.staying (existingChildren db parentId),
      ∃ b ∈ amend.staying (existingChildren db parentId), a.key = k ∧ b.key = d ∧
        detour (remainingEdges db parentId amend) (stays db parentId amend) a.threadId
          b.threadId = true := by
  unfold detourEdges
  simp only [mem_flatMap, mem_map, mem_filter, Prod.mk.injEq]
  constructor
  · rintro ⟨a, ha, b, ⟨hb, hdet⟩, hk, hd⟩
    exact ⟨a, ha, b, hb, hk, hd, hdet⟩
  · rintro ⟨a, ha, b, hb, hk, hd, hdet⟩
    exact ⟨a, ha, b, ⟨hb, hdet⟩, hk, hd⟩

/-- The threads' side of the condition: rows inside the amended plan, and detours. -/
def Tangle (db' : Db) (u v : ThreadId) : Prop :=
  (Depends db' u v ∧ u ∈ h.threads.map Prod.snd ∧ v ∈ h.threads.map Prod.snd) ∨
    (Detour (Edge (remainingEdges db parentId amend)) (· ∈ h.threads.map Prod.snd) u v ∧
      u ∈ h.threads.map Prod.snd ∧ v ∈ h.threads.map Prod.snd)

theorem tangle_iff (hdep : h.Rewrote db')
    (hu : (k, u) ∈ h.threads) (hv : (d, v) ∈ h.threads) : h.Tangle db' u v ↔
      (k, d) ∈ graphEdges (amend.graph (existingChildren db parentId)) ++
        detourEdges db parentId amend := by
  have hin : u ∈ h.threads.map Prod.snd ∧ v ∈ h.threads.map Prod.snd :=
    ⟨mem_map.mpr ⟨_, hu, rfl⟩, mem_map.mpr ⟨_, hv, rfl⟩⟩
  rw [mem_append, mem_graphEdges, mem_detourEdges]
  refine or_congr ⟨?_, ?_⟩ ⟨?_, ?_⟩
  · exact fun hd => h.keyEdge_of_depends hdep hu hv hd.1
  · exact fun hE => ⟨h.depends_of_keyEdge hdep hu hv hE, hin⟩
  · rintro ⟨hdet, -⟩
    have hends : db.HasThread u ∧ db.HasThread v := by
      obtain ⟨w, huw, _, hwv⟩ := hdet
      obtain ⟨x, _, hxv⟩ := TransGen.tail'_iff.mp hwv
      exact ⟨(h.wired.ends (h.edge_remaining.mp huw).1).1,
        (h.wired.ends (h.edge_remaining.mp hxv.1).1).2⟩
    obtain ⟨a, ha, rfl, rfl⟩ := h.staying_of_hasThread hu hends.1
    obtain ⟨b, hb, rfl, rfl⟩ := h.staying_of_hasThread hv hends.2
    exact ⟨a, ha, b, hb, rfl, rfl, h.detour_iff_stays.mp hdet⟩
  · rintro ⟨a, ha, b, hb, rfl, rfl, hdet⟩
    obtain rfl := h.thread_unique hu (h.mem_threads_of_staying ha)
    obtain rfl := h.thread_unique hv (h.mem_threads_of_staying hb)
    exact ⟨h.detour_iff_stays.mpr hdet, hin⟩

/-- **An amendment keeps the table without a cycle exactly when it is untangled.** -/
theorem noCycle_iff (hc : NoCycle db)
    (hdep : h.Rewrote db') : NoCycle db' ↔ untangled db parentId amend = true := by
  have hold : Acyclic (Edge (remainingEdges db parentId amend)) :=
    hc.mono fun u v hE => (h.edge_remaining.mp hE).1
  have htangle : NoCycle db' ↔ Acyclic (h.Tangle db') := by
    refine acyclic_iff_detours hold (fun u v => Iff.rfl) fun u v hout => ?_
    exact (h.depends_outside hdep hout).trans h.edge_remaining.symm
  rw [htangle]
  unfold untangled
  rw [loopFree_iff]
  constructor
  · -- a loop of keys is a loop of their threads
    intro hacyclic
    refine Acyclic.of_label (fun k t => (k, t) ∈ h.threads) h.thread_unique hacyclic ?_
    intro k d hE
    have hkeys : k ∈ h.threads.map Prod.fst ∧ d ∈ h.threads.map Prod.fst := by
      rcases mem_append.mp hE with hgraph | hdet
      · obtain ⟨deps, hnode, hd⟩ := mem_graphEdges.mp hgraph
        rw [h.threads_keys]
        exact ⟨mem_map.mpr ⟨_, hnode, rfl⟩, h.accepted.known _ hnode d hd⟩
      · obtain ⟨a, ha, b, hb, rfl, rfl, _⟩ := mem_detourEdges.mp hdet
        exact ⟨mem_map.mpr ⟨_, h.mem_threads_of_staying ha, rfl⟩,
          mem_map.mpr ⟨_, h.mem_threads_of_staying hb, rfl⟩⟩
    obtain ⟨⟨k, u⟩, hu, rfl⟩ := mem_map.mp hkeys.1
    obtain ⟨⟨d, v⟩, hv, rfl⟩ := mem_map.mp hkeys.2
    exact ⟨u, v, hu, hv, (h.tangle_iff hdep hu hv).mpr hE⟩
  · -- and a loop of threads is one of their keys
    intro hacyclic
    refine Acyclic.of_label (fun t k => (k, t) ∈ h.threads) h.key_unique hacyclic ?_
    intro u v hE
    have hin : u ∈ h.threads.map Prod.snd ∧ v ∈ h.threads.map Prod.snd := by
      rcases hE with hE | hE
      · exact hE.2
      · exact hE.2
    obtain ⟨⟨k, u⟩, hu, rfl⟩ := mem_map.mp hin.1
    obtain ⟨⟨d, v⟩, hv, rfl⟩ := mem_map.mp hin.2
    exact ⟨k, d, hu, hv, (h.tangle_iff hdep hu hv).mp hE⟩

end Amending

/-! ## 5. The writes -/

theorem Wired.replaced (h : Wired db) (hr : Replaced db db' dropped new) : Wired db' := by
  have hthreads : ∀ t, db'.HasThread t ↔ db.HasThread t := by
    intro t
    unfold Db.HasThread
    rw [hr.frame]
  refine h.keep (fun t => (hthreads t).mpr) (by rw [hr.frame]) fun u v hd => ?_
  rcases (hr.depends u v).mp hd with ⟨hold, _⟩ | hnew
  · exact .inl hold
  · have hends := hr.ends u v hnew
    exact .inr ⟨(hthreads u).mpr hends.1, (hthreads v).mpr hends.2⟩

theorem AmendPlan.rewrite_nodup (h : (existing.map ExistingPlanChild.key).Nodup) :
    ((amend.rewrite existing).map Prod.fst).Nodup := by
  have hsub := map_filterMap_sublist (amend.staying existing) ExistingPlanChild.key Prod.fst
    (f := fun c => (amend.rewritten existing c).map fun deps => (c.key, deps)) <| by
      intro c node hnode
      obtain ⟨deps, _, rfl⟩ := map_eq_some_iff.mp hnode
      rfl
  exact h.sublist (hsub.trans (filter_sublist.map _))

theorem Amending.inPlan_iff (h : Amending db parentId amend steps added)
    (hc : Cancelled db db1 h.gone) (hp : Planned db1 db2 parentId added) :
    InPlan db2 parentId v ↔ v ∈ h.threads.map Prod.snd := by
  obtain ⟨new, hrows, hnew, hparent⟩ := hp.rows
  have hstay : (∃ c ∈ db1.threadPlanChildren.rows,
      c.parentThreadId = parentId ∧ c.childThreadId = v) ↔ ∃ e ∈ h.staying, e.threadId = v := by
    constructor
    · rintro ⟨c, hmem, hp, rfl⟩
      obtain ⟨hold, hgone⟩ := (hc.rows c).mp hmem
      obtain ⟨e, he, hthread⟩ := mem_map.mp (h.wired.mem_existing_threads.mpr ⟨c, hold, hp, rfl⟩)
      refine ⟨e, AmendPlan.mem_staying.mpr ⟨he, ?_⟩, hthread⟩
      rw [← hthread, h.gone_iff he] at hgone
      exact Bool.eq_false_iff.mpr hgone
    · rintro ⟨e, he, rfl⟩
      obtain ⟨hex, hcancel⟩ := AmendPlan.mem_staying.mp he
      obtain ⟨c, hold, hp, hthread⟩ := h.wired.mem_existing_threads.mp (mem_map.mpr ⟨e, hex, rfl⟩)
      refine ⟨c, (hc.rows c).mpr ⟨hold, ?_⟩, hp, hthread⟩
      rw [hthread, h.gone_iff hex, hcancel]
      simp
  have hadd : (∃ c ∈ new, c.parentThreadId = parentId ∧ c.childThreadId = v) ↔
      ∃ c ∈ added, c.threadId = v := by
    rw [← hnew]
    constructor
    · rintro ⟨c, hmem, _, rfl⟩
      exact ⟨_, mem_map.mpr ⟨c, hmem, rfl⟩, rfl⟩
    · rintro ⟨c, hmem, rfl⟩
      obtain ⟨c', hmem', rfl⟩ := mem_map.mp hmem
      exact ⟨c', hmem', hparent c' hmem', rfl⟩
  rw [h.threads_eq, List.map_append, List.map_map, List.map_map, List.mem_append, List.mem_map,
    List.mem_map]
  unfold InPlan
  rw [hrows]
  simp only [mem_append, or_and_right, exists_or]
  exact or_congr hstay hadd

/-- **What the writes of an amendment leave.** -/
theorem amendInTx_spec {held : Bool} (hw : Wired db)
    (hacc : amend.Accepted (existingChildren db parentId) steps)
    (h : amendInTx hash db parent parentId member amend steps draws = .ok (db', added, held)) :
    Wired db' ∧ ∃ ham : Amending db parentId amend steps added, ham.Rewrote db' := by
  obtain ⟨db1, db2, db3, db4, db5, hcancel, hadded, hwire, hrewrite, _, hhold, rfl⟩ :=
    amendInTx_cases h
  have hc := (cancelChildren_spec hcancel).1
  obtain ⟨hkeys, hp, _⟩ := insertChildrenInTx_spec hadded
  have ham : Amending db parentId amend steps added :=
    { wired := hw
      accepted := hacc
      addedKeys := by rw [hkeys, hacc.add]
      addedNodup := hp.nodup
      addedFree := fun t ht hhas => hp.free t ht ((hc.hasThread t).mpr hhas) }
  have ha := wireAdded_spec hwire
  have hinj : ∀ {k k' t}, wire ham.threads k = .ok t → wire ham.threads k' = .ok t → k = k' :=
    fun hk hk' => ham.key_unique (ham.wire_iff.mp hk) (ham.wire_iff.mp hk')
  rw [hacc.rewrite] at hrewrite
  have hr := wireRewritten_spec hinj (AmendPlan.rewrite_nodup existing_keys_nodup) hrewrite
  have hf5 := (holdIf_spec hhold).frame
  have hw4 : Wired db4 := (((hw.cancelled hc).planned hp).inserted ha).replaced hr
  refine ⟨?_, ham, fun u v => ?_⟩
  · refine hw4.keep ?_ ?_ ?_
    · rw [hf5]
      exact fun _ hid => hid
    · rw [hf5]
    · intro u v hd
      rw [depends_iff, hf5] at hd
      exact .inl (depends_iff.mpr hd)
  · have hlast : Depends { db5 with
        threadPlans := db5.threadPlans.update parentId PlanRow.amended PlanRow.amended_parent }
          u v ↔ Depends db4 u v := by
      rw [depends_iff, depends_iff, hf5]
    have hplan : InPlan db3 parentId v ↔ v ∈ ham.threads.map Prod.snd := by
      rw [← ham.inPlan_iff hc hp]
      unfold InPlan
      rw [ha.planChildren_eq]
    have hfirst : Depends db2 u v ↔ Depends db u v ∧ v ∉ ham.gone := by
      rw [← hc.depends, depends_iff, depends_iff, hp.deps]
    rw [hlast, hr.depends, ha.depends, hfirst, hplan, hacc.add]

/-- **An amendment, exactly.**  A checked amendment that goes through keeps the schema's promises,
and keeps the table without a cycle exactly when it is untangled. -/
theorem amend_noCycle_iff (hs : Sound db) (hadd : (amend.add.map PlanChild.key).Nodup)
    (h : Maidan.amend hash db parentId member amend draws = .ok (db', outcome)) :
    Wired db' ∧ (NoCycle db' ↔ untangled db parentId amend = true) := by
  obtain ⟨parent, amendments, steps, _, _, _, _, hsteps, hwrites, _⟩ := amend_cases h
  have hacc := AmendPlan.steps_spec existing_keys_nodup hadd hsteps
  obtain ⟨hwired, ham, hdep⟩ := amendInTx_spec hs.wired hacc hwrites
  exact ⟨hwired, ham.noCycle_iff hs.noCycle hdep⟩

end Maidan
