/-
# The plan hold

A plan of `PLAN_HOLD_CHILDREN` children or more, or with a child that needs a threat model, is
created HELD: each child carries a block with the plan's note, and `claim_next` skips a blocked
thread.  An amendment decides for what IT adds: held when a child of the plan carries the hold, or
when an added child needs a threat model.  The size of the amended plan is not asked, so a plan that
reaches the limit by an amendment is not held (`amended_plan_is_not_held`).

What is held stays so: of everything that happens in a workspace only `release`, and a person who
sets or clears a block, takes a block away.  `held_plan_waits` is that over whole runs.
-/
import Maidan.Plan.Confined

namespace Maidan

open Relational Run

/-! ## 1. Blocks stay -/

/-- **The thread carries the plan hold.** -/
def PlanHeld (db : Db) (thread : ThreadId) : Prop :=
  ∃ b, db.threadBlocks.get? thread = some b ∧ b.note = some planHoldNote

/-- Every block that is there stays. -/
def BlocksStay (db db' : Db) : Prop :=
  ∀ id b, db.threadBlocks.get? id = some b → db'.threadBlocks.get? id = some b

variable {db db' : Db} {plan : SubmitPlan} {amendment : AmendPlan} {outcome : PlanAmendment}
  {hash : List (Option String) → String}

theorem BlocksStay.of_eq (h : db'.threadBlocks = db.threadBlocks) : BlocksStay db db' := by
  intro id b hb
  rw [h]
  exact hb

variable {thread parentId : ThreadId} {member : MemberId} {draws : PlanDraws}

theorem PlanHeld.stays (h : PlanHeld db thread) (hstay : BlocksStay db db') :
    PlanHeld db' thread := by
  obtain ⟨b, hb, hnote⟩ := h
  exact ⟨b, hstay thread b hb, hnote⟩

section Transactions

variable {hash : List (Option String) → String} {env : Env} {db db' : Db}

theorem submit_blocks {outcome : PlanOutcome}
    (h : submit hash db parentId member plan draws = .ok (db', outcome)) : BlocksStay db db' := by
  rcases submit_cases h with
    ⟨rfl, _⟩ | ⟨parent, made, db1, db2, db3, _, _, _, hinsert, hmade, hdeps, hhold, _⟩
  · exact fun _ _ hb => hb
  · have hblocks : db3.threadBlocks = db.threadBlocks := by
      rw [(insertPlanDeps_spec hdeps).frame, (insertChildrenInTx_spec hmade).2.2,
        insertPlan_frame hinsert]
    intro id b hb
    rw [← hblocks] at hb
    exact (holdIf_spec hhold).kept hb

theorem amend_blocks (h : amend hash db parentId member amendment draws = .ok (db', outcome)) :
    BlocksStay db db' := by
  obtain ⟨parent, _, steps, _, _, _, _, hsteps, hwrites, _⟩ := amend_cases h
  exact fun _ _ => (Spares.amendInTx hsteps hwrites).blocks

theorem closeAbandoned_blocks {draws : Draws}
    (h : closeAbandoned env db thread actor maintainer close reference draws =
      .ok (db', moved, kept)) : BlocksStay db db' := by
  refine BlocksStay.of_eq ?_
  rw [(closeAbandoned_frame h).2]

/-- **No transaction of a run takes a block away.** -/
theorem taskTx_blocks (h : taskTx hash env db op = .ok db') : BlocksStay db db' := by
  cases op with
  | create =>
    obtain ⟨_, _, h⟩ := bind_ok h
    obtain ⟨db1, hcreated, hframe⟩ := insertNewThread_spec h
    exact .of_eq (by rw [hframe, hcreated.frame])
  | createWithFootprint new footprint attributes =>
    obtain ⟨_, footprint, attributes, h⟩ := createWithFootprint_spec h
    obtain ⟨db1, hcreated, hframe⟩ := insertNewThread_spec h
    exact .of_eq (by rw [hframe, hcreated.frame])
  | submitPlan =>
    obtain ⟨⟨_, outcome⟩, hsubmit, rfl⟩ := map_eq_ok.mp h
    exact submit_blocks hsubmit
  | amendPlan =>
    obtain ⟨⟨_, outcome⟩, hamend, rfl⟩ := map_eq_ok.mp h
    exact amend_blocks hamend
  | instantiate =>
    obtain ⟨⟨_, run⟩, hrun, rfl⟩ := map_eq_ok.mp h
    exact .of_eq (by rw [(instantiate_spec hrun).2.frame])
  | clearDuplicate =>
    simp only [taskTx, clearDuplicate] at h
    split at h
    · cases h
    cases h
    exact fun _ _ hb => hb
  | transition => exact .of_eq (by rw [transitionInSpawning_frame h])
  | closeAbandoned =>
    obtain ⟨⟨_, moved, kept⟩, hclose, rfl⟩ := map_eq_ok.mp h
    exact closeAbandoned_blocks hclose
  | claim => exact .of_eq (by rw [(step_committed h).frame])
  | tombstone =>
    cases h
    exact fun _ _ hb => hb

theorem taskNext_blocks (op : TaskOp) : BlocksStay db (taskNext hash env db op) := by
  unfold taskNext
  cases h : taskTx hash env db op with
  | error => exact fun _ _ hb => hb
  | ok => exact taskTx_blocks h

theorem PlanHeld.exec (h : PlanHeld db thread) (ops : List TaskOp) :
    PlanHeld (Run.exec (taskNext hash env) db ops) thread := by
  induction ops generalizing db with
  | nil => exact h
  | cons op ops ih => exact ih (h.stays (taskNext_blocks op))

end Transactions

/-! ## 2. Holding -/

theorem submit_holds (h : submit hash db parentId member plan draws = .ok (db', .created made))
    (hneeds : plan.needsHold = true) : ∀ c ∈ made, PlanHeld db' c.threadId := by
  rcases submit_cases h with
    ⟨_, hexisting⟩ | ⟨parent, made', db1, db2, db3, _, _, _, _, _, _, hhold, hout⟩
  · -- an answer of `existing` is no new plan
    obtain ⟨earlier, _, heq⟩ := map_eq_some_iff.mp hexisting
    dsimp only at heq
    split at heq <;> cases heq
  · cases hout
    exact (holdIf_spec hhold).holds hneeds

theorem amend_holds (h : amend hash db parentId member amendment draws = .ok (db', outcome))
    (hneeds : amendment.addsNeedHold = true ∨ planIsHeld db parentId = true) :
    ∀ c ∈ outcome.added, PlanHeld db' c.threadId := by
  obtain ⟨parent, _, steps, _, _, _, _, _, hwrites, _⟩ := amend_cases h
  obtain ⟨db1, db2, db3, db4, db5, _, _, _, _, hheld, hhold, rfl⟩ := amendInTx_cases hwrites
  exact (holdIf_spec hhold).holds (by simpa [hheld] using hneeds)

/-- **`claim_next` never hands out a held child.** -/
theorem PlanHeld.not_handed_out (h : PlanHeld db thread) (grace : ClaimGrace) (ask : ClaimAsk)
    (leaseSecs : Option Int) (lease : ClaimLeaseId) (attribution : Option Attribution)
    (clock dbNow : Int) :
    (claimNext db grace ask leaseSecs lease attribution clock dbNow).2 ≠ some thread := by
  rcases claimNext_cases db grace ask leaseSecs lease attribution clock dbNow with
    hn | ⟨cand, _, hcand, hs⟩
  · rw [hn]
    simp
  · rw [hs]
    intro heq
    obtain rfl := Option.some.inj heq
    obtain ⟨b, hb, _⟩ := h
    have hclaim := candidate_claimable hcand
    simp [claimable, stalled, blocked, hb] at hclaim

/-! ## 3. Whole runs -/

/-- Held, and so skipped by every `claim_next`. -/
def Waits (db : Db) (thread : ThreadId) : Prop :=
  PlanHeld db thread ∧ ∀ grace ask leaseSecs lease attribution clock dbNow,
      (claimNext db grace ask leaseSecs lease attribution clock dbNow).2 ≠ some thread

theorem PlanHeld.waits (h : PlanHeld db thread) : Waits db thread :=
  ⟨h, h.not_handed_out⟩

/-- **A held plan waits for a person.**  Where the submit has `PLAN_HOLD_CHILDREN` children or more,
or one that needs a threat model, its children wait in every state reached; and so do the children
an amendment adds while the plan is held, or when one of them needs a threat model. -/
theorem held_plan_waits {hash : List (Option String) → String} {db db₁ : Db} {parent : ThreadId}
    {member : MemberId} {plan : SubmitPlan} {draws : PlanDraws} {made : List PlannedChild}
    (env : Env) (hsubmit : submit hash db parent member plan draws = .ok (db₁, .created made))
    (ops : List TaskOp) :
    ((planHoldChildren ≤ plan.children.length ∨
        ∃ child ∈ plan.children, child.needsThreatModel = true) →
      ∀ c ∈ made, Waits (exec (taskNext hash env) db₁ ops) c.threadId) ∧
    ∀ pre post member' amendment draws' db₂ outcome,
      ops = pre ++ .amendPlan parent member' amendment draws' :: post →
      amend hash (exec (taskNext hash env) db₁ pre) parent member' amendment draws' =
        .ok (db₂, outcome) →
      ((∃ child ∈ amendment.add, child.needsThreatModel = true) ∨
        planIsHeld (exec (taskNext hash env) db₁ pre) parent = true) →
      ∀ c ∈ outcome.added, Waits (exec (taskNext hash env) db₁ ops) c.threadId := by
  constructor
  · intro hneeds c hc
    have hneeds' : plan.needsHold = true := by
      simpa [SubmitPlan.needsHold] using hneeds
    exact ((submit_holds hsubmit hneeds' c hc).exec ops).waits
  · intro pre post member' amendment draws' db₂ outcome hops hamend hneeds c hc
    have hneeds' : amendment.addsNeedHold = true ∨
        planIsHeld (exec (taskNext hash env) db₁ pre) parent = true := by
      simpa [AmendPlan.addsNeedHold] using hneeds
    have hnext : taskNext hash env (exec (taskNext hash env) db₁ pre)
        (.amendPlan parent member' amendment draws') = db₂ := by
      simp only [taskNext, taskTx, hamend]
      rfl
    rw [hops, exec_append, exec_cons, hnext]
    exact ((amend_holds hamend hneeds' c hc).exec post).waits

/-- A plan as checked, submitted by member 1 on the plan thread. -/
def submitReady (keys : List String) : Except StoreError (Db × PlanOutcome) := do
  let plan ← badRequest (SubmitPlan.checked { leaseId := ⟨1⟩, children := keys.map readyChild })
  submit plainHash plannerDb ⟨1⟩ ⟨1⟩ plan (planDraws 10 1)

/-- … and amended with more children. -/
def amendReady (db : Db) (keys : List String) : Except StoreError (Db × PlanAmendment) := do
  let amendment ← badRequest (AmendPlan.checked { leaseId := ⟨1⟩, add := keys.map readyChild })
  amend plainHash db ⟨1⟩ ⟨1⟩ amendment (planDraws 20 2)

set_option maxRecDepth 40000 in
theorem held_plan_waits_five :
    ∃ db₁ made, submitReady ["a", "b", "c", "d", "e"] = .ok (db₁, .created made) ∧
      made.length = 5 ∧ ∀ ops : List TaskOp, ∀ c ∈ made,
        Waits (exec (taskNext plainHash plainEnv) db₁ ops) c.threadId := by
  obtain ⟨plan, hplan⟩ := exists_of_isOk (x := SubmitPlan.checked
    { leaseId := ⟨1⟩, children := ["a", "b", "c", "d", "e"].map readyChild }) (by decide +kernel)
  have hrun : (submitReady ["a", "b", "c", "d", "e"]).map Prod.snd =
      .ok (.created [⟨"a", ⟨10⟩⟩, ⟨"b", ⟨11⟩⟩, ⟨"c", ⟨12⟩⟩, ⟨"d", ⟨13⟩⟩, ⟨"e", ⟨14⟩⟩]) := by
    decide +kernel
  have hlen : (SubmitPlan.checked
      { leaseId := ⟨1⟩, children := ["a", "b", "c", "d", "e"].map readyChild }).map
        (fun plan => plan.children.length) = .ok 5 := by
    decide +kernel
  obtain ⟨⟨db₁, outcome⟩, hsubmit, hout⟩ := map_eq_ok.mp hrun
  obtain rfl : outcome = _ := hout
  refine ⟨db₁, _, hsubmit, rfl, fun ops => ?_⟩
  obtain ⟨plan', hplan', hsubmit'⟩ := bind_ok hsubmit
  rw [hplan] at hplan' hlen
  cases hplan'
  refine (held_plan_waits plainEnv hsubmit' ops).1 (.inl ?_)
  have hfive : plan.children.length = 5 := Except.ok.inj hlen
  rw [hfive]
  decide

/-- Everything but the fifth child is claimed. -/
def othersClaimed : List TaskOp :=
  [.claim (.claim ⟨2⟩ ⟨1⟩ ⟨6⟩ none 3),
   .claim (.claim ⟨10⟩ ⟨1⟩ ⟨2⟩ none 3), .claim (.claim ⟨11⟩ ⟨1⟩ ⟨3⟩ none 3),
   .claim (.claim ⟨12⟩ ⟨1⟩ ⟨4⟩ none 3), .claim (.claim ⟨13⟩ ⟨1⟩ ⟨5⟩ none 3)]

/-- Four children submitted, a fifth added: what the amendment adds, how large the plan is then,
the block of the fifth, and what `claim_next` hands out once the others are claimed. -/
def fourAndOne : Except StoreError (List PlannedChild × Nat × Option BlockRow × Option ThreadId) := do
  let (db, _) ← submitReady ["a", "b", "c", "d"]
  let (db, amendment) ← amendReady db ["e"]
  return (amendment.added, (planRows db ⟨1⟩).length, db.threadBlocks.get? ⟨20⟩,
    (claimNext (exec (taskNext plainHash plainEnv) db othersClaimed) {}
      { scope := .workspace ⟨1⟩, member := ⟨1⟩ } none ⟨7⟩ none 4 4).2)

set_option maxRecDepth 40000 in
/-- **A plan that an amendment brings to five children is not held**: the child it adds carries no
block, and `claim_next` hands it out. -/
theorem amended_plan_is_not_held :
    planHoldChildren = 5 ∧
    fourAndOne = .ok ([⟨"e", ⟨20⟩⟩], 5, none, some ⟨20⟩) := by
  decide +kernel

end Maidan
