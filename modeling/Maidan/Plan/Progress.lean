/-
# Duplicate holds and dependencies, together

A child of a plan is kept from its claimers by two relations that are checked apart: `WAITING`, while
a child it depends on has not landed, and `DUPLICATE`, while the child it was linked to is open.
`find_key_cycle` refuses a plan whose `depends_on` has a cycle; nothing looks at the two together.

* §1 is the run: the children of a plan, released if it was held, are claimed and land.
* §2-3 keep what decides `claimable` along it (`Tended`).
* §4: where `WaitsFor` has no cycle and no child has the plan's own brief, some child can always be
  claimed (`duplicate_holds_never_deadlock`).  A child that depends on its own duplicate is the cycle
  that is left (`duplicate_holds_deadlock`).
-/
import Maidan.Plan.Held
import Maidan.Plan.Sown
import Maidan.Plan.SpawnBudget

namespace Maidan

open Relational Table Run Digraph List

/-! ## 1. The run -/

/-- `release`: the plan's holds, and no other block. -/
def releasePlan (db : Db) (parentId : ThreadId) : Db :=
  { db with
    threadBlocks := db.threadBlocks.deleteWhere fun b =>
      b.note == some planHoldNote && db.threadPlanChildren.rows.any fun c =>
        c.parentThreadId == parentId && c.childThreadId == b.threadId }

/-- What happens to the children: one is claimed, by name or from the queue, or one lands. -/
inductive ChildOp
  | claim (thread : ThreadId) (member : MemberId) (lease : ClaimLeaseId)
      (attribution : Option Attribution) (stamped : Int)
  | claimNext (grace : ClaimGrace) (ask : ClaimAsk) (leaseSecs : Option Int)
      (lease : ClaimLeaseId) (attribution : Option Attribution) (clock dbNow : Int)
  | land (thread : ThreadId) (actor : MemberId) (transition : TransitionId) (now ended : Int)

def ChildOp.op : ChildOp → ClaimOp
  | .claim thread member lease attribution stamped =>
    .claim thread member lease attribution stamped
  | .claimNext grace ask leaseSecs lease attribution clock dbNow =>
    .claimNext grace ask leaseSecs lease attribution clock dbNow
  | .land thread actor transition now ended => .land thread actor .closed transition now ended

/-- One step of the run. -/
def childNext (db : Db) (op : ChildOp) : Db := next db op.op

/-! ## 2. What a step leaves alone -/

/-- The thread's budget, if it has one, sets no maximum. -/
def Unlimited (db : Db) (id : ThreadId) : Prop :=
  ∀ bu, db.threadBudgets.get? id = some bu → bu.maxTokens = none ∧ bu.maxUsdMicros = none ∧
    bu.maxTurns = none ∧ bu.maxWallSecs = none

variable {id : ThreadId} {j : Nat} {children : List PlanChild}

section Steps

variable {db db' : Db} {op : ChildOp}

theorem Unlimited.chargeWall (h : Unlimited db id) (thread : ThreadId) (worked : Option Int) :
    Unlimited (db.chargeWall thread worked) id := by
  intro bu hbu
  unfold Db.chargeWall at hbu
  cases worked with
  | none => exact h bu hbu
  | some =>
    simp only [get?_upsert] at hbu
    split at hbu
    · cases hold : db.threadBudgets.get? id with
      | none =>
        rw [hold] at hbu
        cases hbu
        exact ⟨rfl, rfl, rfl, rfl⟩
      | some bu0 =>
        rw [hold] at hbu
        cases hbu
        exact h bu0 hold
    · exact h bu hbu

/-- **A step** writes the threads, the workers, the budgets and the transitions, and sets no
maximum. -/
theorem childStep_frame (h : step db op.op = .ok db') :
    (∃ threads workers budgets transitions, db' = { db with
      threads := threads, threadWorkers := workers,
      threadBudgets := budgets, threadTransitions := transitions }) ∧
    ∀ id, Unlimited db id → Unlimited db' id := by
  cases op with
  | claim =>
    obtain ⟨⟨db1, flag⟩, hclaim, hdb⟩ := map_eq_ok.mp h
    obtain rfl : db1 = db' := hdb
    rcases claim_cases hclaim with rfl | ⟨row, _, _, rfl⟩
    · exact ⟨⟨_, _, _, _, rfl⟩, fun _ hid => hid⟩
    · rw [recordInTx_frame]
      exact ⟨⟨_, _, _, _, rfl⟩, fun _ hid => hid⟩
  | claimNext grace ask leaseSecs lease attribution clock dbNow =>
    cases h
    rcases claimNext_cases db grace ask leaseSecs lease attribution clock dbNow with
      hnone | ⟨cand, _, _, hsome⟩
    · rw [hnone]
      exact ⟨⟨_, _, _, _, rfl⟩, fun _ hid => hid⟩
    · rw [hsome, recordInTx_frame]
      refine ⟨⟨_, _, _, _, rfl⟩, fun id hid => Unlimited.chargeWall ?_ _ _⟩
      exact hid
  | land =>
    obtain ⟨row, hrow, hland⟩ := step_land h
    obtain rfl := get?_self hrow
    obtain ⟨_, transitions, _, rfl⟩ := landInTx_spec hrow hland
    have hbudgets : ∀ id, Unlimited db id → Unlimited { db with threadTransitions := transitions } id :=
      fun _ hid => hid
    exact ⟨⟨_, _, _, _, rfl⟩, fun id hid => (hbudgets id hid).chargeWall _ _⟩

/-- **A row stays in its place**, and in its state unless it lands. -/
theorem RowMove.childOp {charge : Int} (h : RowMove db op.op r r' charge) :
    r.SamePlace r' ∧ (r'.state = r.state ∨ r'.state = .closed) := by
  refine ⟨h.samePlace, ?_⟩
  cases op with
  | claim =>
    cases h with
    | keep | claim => exact .inl rfl
  | claimNext =>
    cases h with
    | keep | takeover => exact .inl rfl
  | land =>
    cases h with
    | keep => exact .inl rfl
    | land => exact .inr rfl

end Steps

/-! ## 3. The children of a released plan -/

/-- **What decides whether a child can be claimed**, in the workspace `ws` of the plan `parentId`:
its `n` children are open or have landed, and a child is kept only by children it waits for. -/
structure Tended (ws : WorkspaceId) (parentId : ThreadId) (thread : Nat → ThreadId) (n : Nat)
    (waits : Nat → Nat → Prop) (db : Db) : Prop where
  plan : ∃ a, db.threadAttributes.get? parentId = some a ∧ a.kind = .plan
  threads : ∀ t ∈ db.threads.rows, db.workspaceOf t = some ws →
    t.id = parentId ∨ ∃ j < n, t.id = thread j
  row : ∀ j < n, ∃ t, db.threads.get? (thread j) = some t ∧ db.workspaceOf t = some ws ∧
    t.tombstonedAt = none ∧ (t.state = .open ∨ t.state = .closed)
  footprints : ∀ f ∈ db.threadFootprints.rows, f.workspaceId = ws ↔ ∃ j < n, f.threadId = thread j
  slots : ∀ c ∈ db.slotCapacities.rows, c.workspaceId ≠ ws
  pauses : ∀ p ∈ db.repoPauses.rows, p.workspaceId ≠ ws
  block : ∀ j < n, db.threadBlocks.get? (thread j) = none
  unparked : ∀ j < n, db.threadUnclaimable.get? (thread j) = none
  budget : ∀ j < n, Unlimited db (thread j)
  result : ∀ j < n, db.threadResults.get? (thread j) = none
  unlanded : ∀ j < n, db.threadUnlandedCloses.get? (thread j) = none
  gates : ∀ j < n, ∀ g ∈ db.approvalGates.rows, g.threadId ≠ some (thread j)
  depends : ∀ j < n, ∀ v, Depends db (thread j) v → ∃ k < n, v = thread k ∧ waits j k
  links : ∀ j < n, ∀ v, Links db (thread j) v → ∃ k < n, v = thread k ∧ waits j k

namespace Tended

variable {ws : WorkspaceId} {parentId : ThreadId} {thread : Nat → ThreadId} {n : Nat}
  {waits : Nat → Nat → Prop} {db db' : Db}

section

variable (h : Tended ws parentId thread n waits db)
include h

/-- **One step of the run.** -/
theorem childStep {op : ChildOp} (hstep : step db op.op = .ok db') :
    Tended ws parentId thread n waits db' := by
  obtain ⟨⟨_, _, _, _, hframe⟩, hbudget⟩ := childStep_frame hstep
  have hspace : ∀ {r r' : ThreadRow}, r.SamePlace r' → db'.workspaceOf r' = db.workspaceOf r := by
    intro r r' hsame
    unfold Db.workspaceOf Db.channelOf
    rw [hframe, hsame.1]
  subst hframe
  refine { h with threads := ?_, row := ?_, budget := fun j hj => hbudget _ (h.budget j hj) }
  · intro t' ht' hws
    cases (step_committed hstep).effect t'.id with
    | absent _ hnone =>
      rw [get?_of_mem ht'] at hnone
      cases hnone
    | moved hg hg' hmove _ =>
      obtain rfl := Option.some.inj ((get?_of_mem ht').symm.trans hg')
      rw [hspace hmove.samePlace] at hws
      have hid := key_of_get? hg
      rw [← hid]
      exact h.threads _ (mem_of_get? hg) hws
  · intro j hj
    obtain ⟨t, ht, hws, htomb, hstate⟩ := h.row j hj
    cases (step_committed hstep).effect (thread j) with
    | absent hnone =>
      rw [ht] at hnone
      cases hnone
    | moved hg hg' hmove _ =>
      obtain rfl := mem_unique ht hg
      obtain ⟨hsame, hnext⟩ := RowMove.childOp hmove
      refine ⟨_, hg', (hspace hsame).trans hws, hsame.2.2.trans htomb, ?_⟩
      rcases hnext with hkept | hclosed
      · rw [hkept]
        exact hstate
      · exact .inr hclosed

/-- **A whole run.** -/
theorem exec (ops : List ChildOp) :
    Tended ws parentId thread n waits (Run.exec childNext db ops) := by
  refine exec_inv (fun db op hdb => ?_) ops h
  unfold childNext next
  cases hstep : step db op.op with
  | error => exact hdb
  | ok => exact hdb.childStep hstep

theorem withheld_eq_false (hj : j < n) (ht : db.threads.get? (thread j) = some t)
    (hlast : ∀ k < n, waits j k → ∀ u, db.threads.get? (thread k) = some u → u.state = .closed) :
    withheld db t = false := by
  have hid : t.id = thread j := key_of_get? ht
  have hparked : parked db t = false := by simp [parked, hid, h.unparked j hj]
  have hduplicate : duplicate db t = false := by
    unfold duplicate liveOriginalOn
    rw [hid]
    cases hf : db.taskFingerprints.get? (thread j) with
    | none => rfl
    | some f =>
      dsimp only
      cases hb : f.duplicateOf with
      | none => rfl
      | some b =>
        -- the original is a child it waits for, and has landed
        obtain ⟨k, hk, rfl, hwaits⟩ := h.links j hj b ⟨f, hf, hb⟩
        obtain ⟨u, hu, _⟩ := h.row k hk
        simp [hu, liveOriginal, hlast k hk hwaits u hu]
  have hissue : issueInReview db t = false := by
    obtain ⟨t', ht', hws, _⟩ := h.row j hj
    obtain rfl := mem_unique ht ht'
    unfold issueInReview
    split
    · rfl
    · rw [Bool.and_eq_false_iff]
      left
      rw [Bool.and_eq_false_iff]
      right
      rw [any_eq_false]
      intro oa hoa hin
      simp only [Bool.and_eq_true, beq_iff_eq] at hin
      obtain ⟨⟨_, hkind⟩, hother⟩ := hin
      split at hother
      · cases hother
      rename_i o ho
      simp only [Bool.and_eq_true, beq_iff_eq, hws] at hother
      obtain ⟨⟨hspace, _⟩, hreview⟩ := hother
      have hows : db.workspaceOf o = some ws := by
        cases hw : db.workspaceOf o with
        | none => simp [hw, sqlEq] at hspace
        | some =>
          rw [hw] at hspace
          simpa [sqlEq] using hspace
      rcases h.threads o (mem_of_get? ho) hows with hp | ⟨k, hk, hchild⟩
      · -- the plan is no change
        obtain ⟨a, ha, hplan⟩ := h.plan
        have hoid := key_of_get? ho
        rw [hp] at hoid
        rw [hoid, get?_of_mem hoa] at ha
        obtain rfl := Option.some.inj ha
        rw [hplan] at hkind
        cases hkind
      · obtain ⟨u, hu, _, _, hstate⟩ := h.row k hk
        rw [← hchild, key_of_get? ho, ho] at hu
        obtain rfl := Option.some.inj hu
        rw [hreview] at hstate
        rcases hstate with hstate | hstate <;> cases hstate
  have hbudget : overBudget db t = false := by
    unfold overBudget
    rw [hid]
    split
    · rfl
    · rename_i bu hbu
      obtain ⟨h1, h2, h3, h4⟩ := h.budget j hj bu hbu
      simp [h1, h2, h3, h4, bound]
  have hfinished : finished db t = false := by simp [finished, hid, h.result j hj]
  simp [withheld, hparked, hduplicate, hissue, hbudget, hfinished]

theorem stalled_eq_false (hj : j < n) (ht : db.threads.get? (thread j) = some t)
    (hlast : ∀ k < n, waits j k → ∀ u, db.threads.get? (thread k) = some u → u.state = .closed)
    (hfree : ∀ k < n, ∀ u, db.threads.get? (thread k) = some u → held u now = false) :
    stalled db t now = false := by
  have hid : t.id = thread j := key_of_get? ht
  have hlive : ∀ k < n, liveThread db (thread k) now = false := by
    intro k hk
    obtain ⟨u, hu, _⟩ := h.row k hk
    unfold liveThread
    rw [hu]
    exact liveClaim_of_available (by rw [available_eq_not_held, hfree k hk u hu]; rfl)
  have hmine : ∀ f ∈ db.threadFootprints.rows, f.threadId = thread j → f.workspaceId = ws :=
    fun f hf hfid => (h.footprints f hf).mpr ⟨j, hj, hfid⟩
  have hblocked : blocked db t = false := by simp [blocked, hid, h.block j hj]
  have hwaiting : waiting db t = false := by
    unfold waiting
    rw [any_eq_false]
    intro d hd hin
    simp only [Bool.and_eq_true, beq_iff_eq, hid] at hin
    obtain ⟨hdid, hunmet⟩ := hin
    have hdep : Depends db (thread j) d.dependsOnThreadId := by
      rw [depends_iff, ← hdid]
      exact hd
    obtain ⟨k, hk, hto, hwaits⟩ := h.depends j hj _ hdep
    obtain ⟨u, hu, _⟩ := h.row k hk
    rw [hto, hu] at hunmet
    have huid := key_of_get? hu
    simp [unmet, hlast k hk hwaits u hu, huid, h.unlanded k hk, ThreadState.isTerminal] at hunmet
  have hgated : gated db t = false := by
    unfold gated
    rw [any_eq_false]
    intro g hg hin
    simp only [Bool.and_eq_true, beq_iff_eq, hid] at hin
    exact h.gates j hj g hg hin.1
  have hconflicts : conflictsWithLiveClaims db t.id now = false := by
    rw [← Bool.not_eq_true]
    intro hc
    obtain ⟨mine, hm, hmid, theirs, ht, hover, hlivet⟩ := conflictsWithLiveClaims_iff.mp hc
    rw [hid] at hmid
    have hspace : theirs.workspaceId = ws := by
      simp only [itemsOverlap, Bool.and_eq_true, beq_iff_eq] at hover
      rw [hover.1.1.1.1.1.1]
      exact hmine mine hm hmid
    obtain ⟨k, hk, hkid⟩ := (h.footprints theirs ht).mp hspace
    rw [hkid, hlive k hk] at hlivet
    cases hlivet
  have hpaused : repoPaused db t.id = false := by
    unfold repoPaused
    rw [any_eq_false]
    intro pf hpf hin
    simp only [Bool.and_eq_true, beq_iff_eq, hid] at hin
    obtain ⟨p, hp⟩ := isSome_iff_exists.mp hin.2
    exact h.pauses p (mem_of_get? hp)
      ((congrArg Prod.fst (key_of_get? hp)).trans (hmine pf hpf hin.1))
  have hslot : slotFull db t.id now = false := by
    rw [← Bool.not_eq_true]
    intro hc
    obtain ⟨ws', key, cap, ⟨sf, hsf, hsfid, hsfw, _⟩, hcap, _⟩ := slotFull_iff.mp hc
    exact h.slots cap (mem_of_get? hcap) ((congrArg Prod.fst (key_of_get? hcap)).trans
        (hsfw.symm.trans (hmine sf hsf (hsfid.trans hid))))
  simp [stalled, hblocked, hwaiting, hgated, deferred, hconflicts, hpaused, hslot]

/-- **Some child can be claimed**, where one has not landed, none is claimed, and the children do not
wait in a circle: the last in that order. -/
theorem progress (hacyclic : Acyclic waits)
    (hunlanded : ∃ j < n, ∃ t, db.threads.get? (thread j) = some t ∧ t.state ≠ .closed)
    (hfree : ∀ k < n, ∀ u, db.threads.get? (thread k) = some u → held u now = false) :
    ∃ j < n, ∃ t, db.threads.get? (thread j) = some t ∧ t.state ≠ .closed ∧
      claimable db t now = true := by
  have hmem : ∀ {j}, j ∈ (List.range n).filter (fun j =>
      (db.threads.get? (thread j)).any fun t => t.state != .closed) ↔
      j < n ∧ ∃ t, db.threads.get? (thread j) = some t ∧ t.state ≠ .closed := by
    simp [mem_filter, Option.any_eq_true]
  obtain ⟨j0, hj0, hopen0⟩ := hunlanded
  obtain ⟨j, hj, hlast⟩ := hacyclic.exists_last ⟨j0, hmem.mpr ⟨hj0, hopen0⟩⟩
  obtain ⟨hjn, t, ht, hopen⟩ := hmem.mp hj
  have hdone : ∀ k < n, waits j k → ∀ u, db.threads.get? (thread k) = some u →
      u.state = .closed := by
    intro k hk hwaits u hu
    by_contra hstate
    exact hlast k (hmem.mpr ⟨hk, u, hu, hstate⟩) hwaits
  obtain ⟨t', ht', _, htomb, hstate⟩ := h.row j hjn
  obtain rfl := mem_unique ht ht'
  refine ⟨j, hjn, t, ht, hopen, ?_⟩
  have hwithheld := h.withheld_eq_false hjn ht hdone
  have hstalled := h.stalled_eq_false hjn ht hdone hfree
  have hsopen : t.state = .open := hstate.resolve_right hopen
  simp [claimable, htomb, hsopen, available_eq_not_held, hfree j hjn t ht, hwithheld, hstalled]

end

end Tended

/-! ## 4. From the plan to its children -/

/-- The children as `insert_children_in_tx` returns them. -/
def plannedChildren (children : List PlanChild) (draws : PlanDraws) : List PlannedChild :=
  children.mapIdx fun k c => { key := c.key, threadId := draws.thread k }

variable {draws : PlanDraws}

theorem mem_plannedChildren : p ∈ plannedChildren children draws ↔
      ∃ k c, children[k]? = some c ∧ p = { key := c.key, threadId := draws.thread k } := by
  unfold plannedChildren
  rw [mem_mapIdx]
  constructor
  · rintro ⟨k, hk, rfl⟩
    exact ⟨k, _, getElem?_eq_getElem hk, rfl⟩
  · rintro ⟨k, c, hc, rfl⟩
    obtain ⟨hk, rfl⟩ := List.getElem?_eq_some_iff.mp hc
    exact ⟨k, hk, rfl⟩

theorem plannedThread_eq_some (h : plannedThread (plannedChildren children draws) key = some x) :
    ∃ k c, children[k]? = some c ∧ c.key = key ∧ x = draws.thread k := by
  obtain ⟨p, hp, rfl⟩ := map_eq_some_iff.mp h
  obtain ⟨k, c, hc, rfl⟩ := mem_plannedChildren.mp (mem_of_find?_eq_some hp)
  exact ⟨k, c, hc, by simpa using find?_some hp, rfl⟩

/-- The rows of the plan's `depends_on` are between its children, as the keys say. -/
theorem planEdge_waits (hkeys : (children.map PlanChild.key).Nodup)
    (hdistinct : ((plannedChildren children draws).map PlannedChild.threadId).Nodup)
    (hj : j < children.length)
    (h : PlanEdge (plannedChildren children draws) children (draws.thread j) v) :
    ∃ k < children.length, v = draws.thread k ∧
      ∃ c d, children[j]? = some c ∧ children[k]? = some d ∧ d.key ∈ c.dependsOn := by
  obtain ⟨child, hchild, hthis, dep, hdep, hto⟩ := h
  obtain ⟨j', c, hc, hckey, hj'⟩ := plannedThread_eq_some hthis
  obtain ⟨k, d, hd, rfl, rfl⟩ := plannedThread_eq_some hto
  have hlt' := (List.getElem?_eq_some_iff.mp hc).1
  have heq : j = j' := by
    have hget : ∀ i (hi : i < children.length),
        ((plannedChildren children draws).map PlannedChild.threadId)[i]? = some (draws.thread i) := by
      intro i hi
      simp [plannedChildren, hi]
    have := (nodup_iff_getElem?_ne_getElem?.mp hdistinct)
    by_contra hne
    rcases Nat.lt_or_gt_of_ne hne with hlt | hlt
    · exact this j j' hlt (by simp [plannedChildren, hlt']) (by rw [hget j hj, hget j' hlt', hj'])
    · exact this j' j hlt (by simp [plannedChildren, hj]) (by rw [hget j hj, hget j' hlt', hj'])
  subst heq
  have hsame : c = child :=
    inj_on_of_nodup_map hkeys (mem_of_getElem? hc) hchild hckey
  subst hsame
  exact ⟨k, (List.getElem?_eq_some_iff.mp hd).1, rfl, c, d, hc, hd, hdep⟩

theorem Twin.lt {hash : List (Option String) → String} (h : Twin hash children draws i j) :
    j < i := by
  rcases h with h | h
  · exact h.1
  · exact h.2.1

/-- **The hold is the plan's, and it is released.** -/
theorem releasePlan_frees
    (hchild : ∃ c ∈ db.threadPlanChildren.rows, c.parentThreadId = parentId ∧ c.childThreadId = id)
    (hnote : ∀ b, db.threadBlocks.get? id = some b → b.note = some planHoldNote) :
    (releasePlan db parentId).threadBlocks.get? id = none := by
  obtain ⟨c, hc, hparent, hcid⟩ := hchild
  rw [Option.eq_none_iff_forall_ne_some]
  intro b hb
  obtain ⟨hmem, hkept⟩ := mem_deleteWhere.mp (mem_of_get? hb)
  have hbid : b.threadId = id := key_of_get? hb
  have hget := get?_of_mem hmem
  rw [hbid] at hget
  simp only [Bool.and_eq_false_iff, beq_eq_false_iff_ne, ne_eq, hnote b hget, not_true_eq_false,
    false_or, any_eq_false, Bool.and_eq_true, beq_iff_eq, not_and] at hkept
  exact hkept c hc hparent (hcid.trans hbid.symm)

section Submit

variable {hash : List (Option String) → String} {db db₁ : Db} {ws : WorkspaceId}
  {parentId : ThreadId} {member : MemberId} {request plan : SubmitPlan} {draws : PlanDraws}
  {made : List PlannedChild}

theorem EmptyBut.sown (h : EmptyBut db ws parentId) (hparent : parentRow db parentId = .ok parent)
    (hhold : holdCheck parent member plan.leaseId draws.heldAt = .ok ())
    (hinsert : db.insertPlan { parentThreadId := parentId, leaseId := plan.leaseId } = .ok db1)
    (hbrief : ∀ f, db.taskFingerprints.get? parentId = some f →
      ∀ c ∈ plan.children, c.brief hash ≠ some f.fingerprint) :
    parent.workspaceId = ws ∧ Sown hash parent parentId member draws plan.children 0 db1 := by
  obtain ⟨t, ht, hchannel, hspace, _, _, hkind⟩ := parentRow_spec hparent
  have hws : parent.workspaceId = ws := by
    have hhome := h.home
    rw [ht, bind_some, hspace] at hhome
    exact Option.some.inj hhome
  have hkind : ∃ a, db.threadAttributes.get? parentId = some a ∧ a.kind = .plan := by
    have hplan : parent.kind = some .plan := by
      unfold holdCheck at hhold
      split at hhold
      · cases hhold
      rename_i hplan
      exact not_not.mp hplan
    rw [hkind] at hplan
    exact map_eq_some_iff.mp hplan
  have hframe := insertPlan_frame hinsert
  refine ⟨hws, ?_⟩
  exact
    { channel := by rw [hframe, hchannel]; exact hspace
      plan := by rw [hframe]; exact hkind
      there := by
        rw [hframe]
        exact isSome_of_eq_some ht
      unmentioned := by
        rw [hframe]
        exact fun id hid => ⟨(h.unmentioned id hid).attributes, (h.unmentioned id hid).fingerprint,
          (h.unmentioned id hid).footprint⟩
      threads := by
        rw [hframe, hws]
        exact fun t ht hin => .inl (h.threads t ht hin)
      row := by simp
      footprints := by
        rw [hframe, hws]
        exact fun f hf => by simp [h.footprints f hf]
      issue := by simp
      prints := by
        rw [hframe, hws]
        intro f hf hin
        have hid := h.prints f hf hin
        have hget := get?_of_mem hf
        rw [hid] at hget
        exact .inl ⟨hid, hbrief f hget⟩
      printed := by simp
      links := by simp }

/-- **A submitted plan, released**, is tended: each child waits for the children `WaitsFor` says. -/
theorem EmptyBut.tended (h : EmptyBut db ws parentId) (hchecked : request.checked = .ok plan)
    (hsubmit : submit hash db parentId member plan draws = .ok (db1, .created made))
    (hbrief : ∀ f, db.taskFingerprints.get? parentId = some f →
      ∀ c ∈ plan.children, c.brief hash ≠ some f.fingerprint) :
    made = plannedChildren plan.children draws ∧
      Tended ws parentId draws.thread plan.children.length (WaitsFor hash plan.children draws)
        (releasePlan db1 parentId) := by
  rcases submit_cases hsubmit with ⟨_, hexisting⟩ |
    ⟨parent, made', dbp, dbc, dbd, hparent, hhold, _, hinsert, hmade, hdeps, hheld, hout⟩
  · obtain ⟨earlier, _, hout⟩ := map_eq_some_iff.mp hexisting
    dsimp only at hout
    split at hout <;> cases hout
  · cases hout
    obtain ⟨rfl, hsown⟩ := h.sown hparent hhold hinsert hbrief
    obtain ⟨hsown, hall⟩ := hsown.insertChildrenInTx (drop_zero ..) hmade
    rw [Nat.zero_add] at hsown
    replace hall : made = plannedChildren plan.children draws := by
      rw [hall]
      simp only [plannedChildren, Nat.zero_add]
    obtain ⟨_, hplanned, hfc⟩ := insertChildrenInTx_spec hmade
    refine ⟨hall, ?_⟩
    rw [hall] at hplanned hdeps hheld
    have hfp := insertPlan_frame hinsert
    have hheld := holdIf_spec hheld
    have hdep := insertPlanDeps_spec hdeps
    have hfd := hdep.frame
    -- releasing the plan writes the blocks, `submit` the dependencies and the blocks
    have hf : releasePlan db1 parentId = { dbc with
        threadDependencies := dbd.threadDependencies,
        threadBlocks := (releasePlan db1 parentId).threadBlocks } := by
      unfold releasePlan
      rw [hheld.frame, hfd]
    have hrest : dbc = { db with
        threads := dbc.threads, threadFootprints := dbc.threadFootprints,
        threadAttributes := dbc.threadAttributes, taskFingerprints := dbc.taskFingerprints,
        threadPlanChildren := dbc.threadPlanChildren, threadPlans := dbc.threadPlans } := by
      rw [hfc, hfp]
    -- a child was not there, so nothing named it
    have hnew : ∀ j < plan.children.length, Unmentioned db (draws.thread j) := by
      intro j hj
      refine h.unmentioned _ fun hhas => ?_
      refine hplanned.free (draws.thread j) ?_ (by rw [hfp]; exact hhas)
      exact mem_map.mpr ⟨_, mem_plannedChildren.mpr ⟨j, _, getElem?_eq_getElem hj, rfl⟩, rfl⟩
    have hspace : ∀ t, dbc.workspaceOf t = db.workspaceOf t := by
      intro t
      rw [hrest]
      rfl
    rw [hf, hrest]
    refine
      { plan := hsown.plan
        threads := fun t ht hin => hsown.threads t ht ((hspace t).trans hin)
        row := fun j hj => ⟨_, hsown.row j hj,
          (hspace _).symm.trans (hsown.workspaceOf_row (draws.thread j)), rfl, .inl rfl⟩
        footprints := hsown.footprints
        slots := h.slots
        pauses := h.pauses
        block := ?_
        unparked := fun j hj => (hnew j hj).parked
        budget := ?_
        result := fun j hj => (hnew j hj).result
        unlanded := fun j hj => (hnew j hj).unlanded
        gates := fun j hj => (hnew j hj).gates
        depends := ?_
        links := ?_ }
    · intro j hj
      refine releasePlan_frees ?_ fun b hb => (hheld.new hb).resolve_left fun hold => ?_
      · obtain ⟨new, hrows, hnews, hparents⟩ := hplanned.rows
        have hchild : (⟨plan.children[j].key, draws.thread j⟩ : PlannedChild) ∈
            plannedChildren plan.children draws :=
          mem_plannedChildren.mpr ⟨j, _, getElem?_eq_getElem hj, rfl⟩
        rw [← hnews] at hchild
        obtain ⟨c, hc, hcid⟩ := mem_map.mp hchild
        refine ⟨c, ?_, hparents c hc, congrArg PlannedChild.threadId hcid⟩
        rw [hheld.frame, hfd, hrows]
        exact mem_append_right _ hc
      · rw [hfd, hrest] at hold
        rw [show db.threadBlocks.get? (draws.thread j) = none from (hnew j hj).block] at hold
        cases hold
    · intro j hj bu hbu
      rw [show db.threadBudgets.get? (draws.thread j) = none from (hnew j hj).budget] at hbu
      cases hbu
    · intro j hj v hd
      rw [depends_iff] at hd
      rcases (hdep.depends _ _).mp (depends_iff.mpr hd) with hold | hedge
      · refine absurd ?_ ((hnew j hj).waits v)
        rw [depends_iff] at hold ⊢
        rw [hplanned.deps, hfp] at hold
        exact hold
      · obtain ⟨k, hk, rfl, hwaits⟩ := planEdge_waits
          (SubmitPlan.wellFormed_of_checked hchecked).nodup hplanned.nodup hj hedge
        exact ⟨k, hk, rfl, .inl hwaits⟩
    · intro j hj v hl
      obtain ⟨k, rfl, htwin⟩ := hsown.links j hj v hl
      exact ⟨k, htwin.lt.trans hj, rfl, .inr htwin⟩

/-- **Duplicate holds never deadlock a plan** submitted into an empty workspace, where no child has
the plan's own brief and the children do not wait for each other in a circle, whether as dependents
or as duplicates: at every point of a run in which children are claimed and land, if one has not
landed and none is claimed, then one that has not landed is claimable. -/
theorem duplicate_holds_never_deadlock (hempty : EmptyBut db ws parentId)
    (hchecked : request.checked = .ok plan)
    (hsubmit : submit hash db parentId member plan draws = .ok (db₁, .created made))
    (hbrief : ∀ f, db.taskFingerprints.get? parentId = some f →
      ∀ c ∈ plan.children, c.brief hash ≠ some f.fingerprint)
    (hwaits : Acyclic (WaitsFor hash plan.children draws)) (ops : List ChildOp) (now : Int)
    (hunlanded : ∃ c ∈ made, ∃ t,
      (exec childNext (releasePlan db₁ parentId) ops).threads.get? c.threadId = some t ∧
        t.state ≠ .closed)
    (hfree : ∀ c ∈ made, ∀ t,
      (exec childNext (releasePlan db₁ parentId) ops).threads.get? c.threadId = some t →
        held t now = false) :
    ∃ c ∈ made, ∃ t,
      (exec childNext (releasePlan db₁ parentId) ops).threads.get? c.threadId = some t ∧
        t.state ≠ .closed ∧
        claimable (exec childNext (releasePlan db₁ parentId) ops) t now = true := by
  obtain ⟨rfl, htended⟩ := hempty.tended hchecked hsubmit hbrief
  have hchild : ∀ {j}, j < plan.children.length →
      ∃ c ∈ plannedChildren plan.children draws, c.threadId = draws.thread j :=
    fun hj => ⟨_, mem_plannedChildren.mpr ⟨_, _, getElem?_eq_getElem hj, rfl⟩, rfl⟩
  obtain ⟨c, hc, t, ht, hopen⟩ := hunlanded
  obtain ⟨j, child, hj, rfl⟩ := mem_plannedChildren.mp hc
  obtain ⟨k, hk, u, hu, huopen, hclaim⟩ := (htended.exec ops).progress hwaits
    ⟨j, (List.getElem?_eq_some_iff.mp hj).1, t, ht, hopen⟩ fun k hk u hu => by
      obtain ⟨c, hc, hid⟩ := hchild hk
      exact hfree c hc u (by rw [hid]; exact hu)
  obtain ⟨c', hc', hid⟩ := hchild hk
  exact ⟨c', hc', u, by rw [hid]; exact hu, huopen, hclaim⟩

end Submit

/-- Member 1 holds the plan, and the workspace holds nothing else. -/
def plainPlanDb : Db where
  __ := quietDb
  threads :=
    { rows := [{ id := ⟨1⟩, channelId := ⟨1⟩, assigneeId := some ⟨1⟩, claimLeaseId := some ⟨1⟩,
                 claimedAt := some 0, createdBy := some ⟨1⟩ }] }
  threadAttributes := planAttributes
  egressTargets := branchTarget

theorem emptyBut_plainPlanDb : EmptyBut plainPlanDb ⟨1⟩ ⟨1⟩ where
  home := by decide
  unmentioned := by
    intro id hid
    have hne : id ≠ ⟨1⟩ := by
      rintro rfl
      exact hid (by decide)
    refine ⟨?_, rfl, by simp [plainPlanDb], rfl, rfl, rfl, rfl, rfl, by simp [plainPlanDb], ?_⟩
    · simp [plainPlanDb, Table.get?, Ne.symm hne]
    · simp [depends_iff, plainPlanDb]
  threads := by simp [plainPlanDb]
  prints := by simp [plainPlanDb]
  footprints := by simp [plainPlanDb]
  slots := by simp [plainPlanDb]
  pauses := by simp [plainPlanDb]

/-- Two children with one brief; the first has the `depends_on` it is given. -/
def twins (dependsOn : List String) : SubmitPlan where
  leaseId := ⟨1⟩
  children := [{ readyChild "a" with title := "Part", dependsOn := dependsOn },
    { readyChild "b" with title := "Part" }]

/-- The plan is recorded with the brief of a child of its own: it is to be planned by a part of
itself. -/
def nested : SubmitPlan where
  leaseId := ⟨1⟩
  children := [{ readyChild "a" with
    title := "Part"
    attributes := some { kind := .plan, acceptance := some "it runs", engine := some .session } }]

def nestedDb : Except StoreError Db :=
  recordOn plainHash plainPlanDb ⟨1⟩ ⟨1⟩ (some "Part") (some "Test: \x60cargo test\x60")
    { kind := .plan, acceptance := some "it runs", engine := some .session } 0

/-- The children of a plan, submitted and released, after a run: has it landed, is it claimed, and
can it be claimed at instant 2. -/
def childrenAfter (db : Db) (request : SubmitPlan) (ops : List ChildOp) :
    Except StoreError (List (String × ThreadState × Bool × Bool)) := do
  let plan ← badRequest request.checked
  let (db, outcome) ← submit plainHash db ⟨1⟩ ⟨1⟩ plan (planDraws 10 1)
  let db := exec childNext (releasePlan db ⟨1⟩) ops
  match outcome with
  | .created made => return made.filterMap fun c =>
      (db.threads.get? c.threadId).map fun t =>
        (c.key, t.state, held t 2, claimable db t 2)
  | _ => return []

/-- `a` is claimed and lands. -/
def firstLands : List ChildOp := [.claim ⟨10⟩ ⟨1⟩ ⟨2⟩ none 1, .land ⟨10⟩ ⟨1⟩ ⟨1⟩ 2 2]

set_option maxRecDepth 40000 in
theorem duplicate_holds_never_deadlock_firstLands :
    EmptyBut plainPlanDb ⟨1⟩ ⟨1⟩ ∧
    childrenAfter plainPlanDb (twins []) firstLands =
      .ok [("a", .closed, false, false), ("b", .open, false, true)] ∧
    ∃ plan db₁ made, (twins []).checked = .ok plan ∧
      submit plainHash plainPlanDb ⟨1⟩ ⟨1⟩ plan (planDraws 10 1) = .ok (db₁, .created made) ∧
      ∃ c ∈ made, ∃ t,
        (exec childNext (releasePlan db₁ ⟨1⟩) firstLands).threads.get? c.threadId = some t ∧
          t.state ≠ .closed ∧
          claimable (exec childNext (releasePlan db₁ ⟨1⟩) firstLands) t 2 = true := by
  obtain ⟨plan, hplan⟩ := exists_of_isOk (x := (twins []).checked) (by decide +kernel)
  have hdeps : (twins []).checked.map (fun plan => plan.children.map PlanChild.dependsOn) =
      .ok [[], []] := by
    decide +kernel
  have hrun : ((twins []).checked.toOption.bind fun plan =>
      (submit plainHash plainPlanDb ⟨1⟩ ⟨1⟩ plan (planDraws 10 1)).toOption.map fun r =>
        (r.2, [10, 11].map fun id =>
          ((exec childNext (releasePlan r.1 ⟨1⟩) firstLands).threads.get? ⟨id⟩).map fun t =>
            (t.state, held t 2))) =
      some (.created [⟨"a", ⟨10⟩⟩, ⟨"b", ⟨11⟩⟩], [some (.closed, false), some (.open, false)]) := by
    decide +kernel
  rw [hplan] at hdeps hrun
  replace hdeps : plan.children.map PlanChild.dependsOn = [[], []] := Except.ok.inj hdeps
  have hnone : ∀ c ∈ plan.children, c.dependsOn = [] := by
    intro c hc
    have hmem := mem_map_of_mem (f := PlanChild.dependsOn) hc
    rw [hdeps] at hmem
    simpa using hmem
  obtain ⟨⟨db₁, outcome⟩, hsubmit, hout⟩ := map_eq_some_iff.mp hrun
  replace hsubmit := toOption_eq_some.mp hsubmit
  obtain ⟨rfl, hstates⟩ := Prod.mk.inj hout
  simp only [map_cons, map_nil, List.cons.injEq, and_true, map_eq_some_iff,
    Prod.mk.injEq] at hstates
  obtain ⟨⟨ta, hta, hastate, haheld⟩, tb, htb, hbstate, hbheld⟩ := hstates
  -- every wait is for an earlier child
  have hearlier : ∀ i j, WaitsFor plainHash plan.children (planDraws 10 1) i j → j < i := by
    rintro i j (⟨c, d, hc, _, hdep⟩ | htwin)
    · rw [hnone c (mem_of_getElem? hc)] at hdep
      cases hdep
    · exact htwin.lt
  refine ⟨emptyBut_plainPlanDb, by decide +kernel, plan, db₁, _, hplan, hsubmit,
    duplicate_holds_never_deadlock emptyBut_plainPlanDb hplan hsubmit (by simp [plainPlanDb, Table.get?])
      (Acyclic.of_lt hearlier) firstLands 2 ⟨⟨"b", ⟨11⟩⟩, by simp, tb, htb, by simp [hbstate]⟩ ?_⟩
  intro c hc t ht
  simp only [mem_cons, not_mem_nil, or_false] at hc
  rcases hc with rfl | rfl
  · obtain rfl := mem_unique hta ht
    exact haheld
  · obtain rfl := mem_unique htb ht
    exact hbheld

set_option maxRecDepth 40000 in
/-- **Two accepted plans in an empty workspace of which no child can be claimed**: `a` depends on `b`,
which is its duplicate; and a child with the brief of its own plan. -/
theorem duplicate_holds_deadlock :
    EmptyBut plainPlanDb ⟨1⟩ ⟨1⟩ ∧
    childrenAfter plainPlanDb (twins ["b"]) [] =
      .ok [("a", .open, false, false), ("b", .open, false, false)] ∧
    (nestedDb.toOption.bind fun db => (childrenAfter db nested []).toOption) =
      some [("a", .open, false, false)] :=
  ⟨emptyBut_plainPlanDb, by decide +kernel, by decide +kernel⟩

end Maidan
