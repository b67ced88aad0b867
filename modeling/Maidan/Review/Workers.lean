/-
# Nobody approves their own work

The review gate must not count an approval by anyone who ever held the thread.  The live
`assignee_id` cannot tell it: a release clears the column.  `maidan_thread_workers` can, because
the ledger is APPEND-ONLY and every path that hands a thread over writes it in the transaction
that hands it over (`thread_workers.rs`: "same tx or nothing").

Both halves are properties of one step (`Ledgered`): what the ledger knows it keeps, and a holder
the step did not find there it has just recorded.  Along a history they add up to: whoever was
the assignee at any moment is in the ledger from then on, and the gate reads the ledger.
-/
import Maidan.Review.Submit

namespace Maidan

open Relational Table Run

/-! ## 1. The ledger -/

theorem hasWorked_congr (h : db'.threadWorkers = db.threadWorkers) (thread : ThreadId)
    (m : MemberId) : hasWorked db' thread m = hasWorked db thread m := by
  unfold hasWorked
  rw [h]

theorem hasWorked_insertWorker (db : Db) (thread : ThreadId) (worker : MemberId) (t : ThreadId)
    (m : MemberId) :
    hasWorked (db.insertWorker thread worker) t m =
      (hasWorked db t m || decide ((thread, worker) = (t, m))) := by
  unfold hasWorked Db.insertWorker
  rw [get?_insertIgnore]
  cases hg : db.threadWorkers.get? (t, m) with
  | some => simp
  | none =>
    by_cases h : (thread, worker) = (t, m)
    · simp [h]
    · rw [if_neg h, decide_eq_false h]
      rfl

theorem hasWorked_update (db : Db) (k : ThreadId × MemberId) (seq : Option Int) (t : ThreadId)
    (m : MemberId) :
    hasWorked { db with
        threadWorkers := db.threadWorkers.update k (fun w => { w with lastHeldSeq := seq }) } t m =
      hasWorked db t m := by
  unfold hasWorked
  rw [get?_update]
  split
  · rw [Option.isSome_map]
  · rfl

/-- **What `record_in_tx` records**: the member, and the delegate that acts for it. -/
theorem hasWorked_recordInTx (db : Db) (thread : ThreadId) (member : MemberId)
    (attribution : Option Attribution) (t : ThreadId) (m : MemberId) :
    hasWorked (recordInTx db thread member attribution) t m =
      (hasWorked db t m || decide ((thread, member) = (t, m)) ||
        decide (t = thread ∧ delegateActingFor attribution member = some m)) := by
  unfold recordInTx
  cases hd : delegateActingFor attribution member with
  | none =>
    rw [hasWorked_update, hasWorked_insertWorker]
    simp
  | some =>
    rw [hasWorked_update, hasWorked_insertWorker, hasWorked_insertWorker]
    simp [eq_comm]

theorem recordInTx_workers_congr (h : db'.threadWorkers = db.threadWorkers) (thread : ThreadId)
    (member : MemberId) (attribution : Option Attribution) (t : ThreadId) (m : MemberId) :
    hasWorked (recordInTx db' thread member attribution) t m =
      hasWorked (recordInTx db thread member attribution) t m := by
  rw [hasWorked_recordInTx, hasWorked_recordInTx, hasWorked_congr h]

/-! ## 2. What one step does to the ledger -/

/-- **The ledger keeps up**: it forgets nobody, and a holder the step did not find in place it
has recorded. -/
structure Ledgered (db db' : Db) : Prop where
  grows : ∀ {t m}, hasWorked db t m = true → hasWorked db' t m = true
  holders : ∀ {id r' m}, db'.threads.get? id = some r' → r'.assigneeId = some m →
    hasWorked db' id m = true ∨ ∃ r, db.threads.get? id = some r ∧ r.assigneeId = some m

variable {thread : ThreadId} {env : Env}

section Ledger

variable {db db' : Db}

theorem Ledgered.refl (db : Db) : Ledgered db db :=
  ⟨id, fun hg hm => .inr ⟨_, hg, hm⟩⟩

theorem Ledgered.trans (h : Ledgered db db1) (h' : Ledgered db1 db') : Ledgered db db' where
  grows := fun hw => h'.grows (h.grows hw)
  holders := by
    intro id r' m hg hm
    rcases h'.holders hg hm with hw | ⟨r1, hg1, hm1⟩
    · exact .inl hw
    · rcases h.holders hg1 hm1 with hw | hold
      · exact .inl (h'.grows hw)
      · exact .inr hold

section

variable (hw : db'.threadWorkers = db.threadWorkers)
include hw

theorem Ledgered.of_taking (hr : ∀ {id r'}, db'.threads.get? id = some r' → r'.assigneeId = none ∨
      ∃ r, db.threads.get? id = some r ∧ r'.assigneeId = r.assigneeId) : Ledgered db db' where
  grows := fun h => (hasWorked_congr hw _ _).trans h
  holders := by
    intro id r' m hg hm
    rcases hr hg with hnone | ⟨r, hr, heq⟩
    · rw [hnone] at hm
      cases hm
    · exact .inr ⟨r, hr, heq ▸ hm⟩

theorem Ledgered.of_same (ht : db'.threads = db.threads) : Ledgered db db' :=
  .of_taking hw fun {_ r'} hg => .inr ⟨r', ht ▸ hg, rfl⟩

theorem Ledgered.of_clearing
    (ht : db'.threads = db.threads.update thread ThreadRow.clearClaim ThreadRow.clearClaim_id) :
    Ledgered db db' := by
  refine .of_taking hw fun {id r'} hg => ?_
  rw [ht, get?_update] at hg
  split at hg
  · obtain ⟨r, _, rfl⟩ := map_eq_some_iff.mp hg
    exact .inl rfl
  · exact .inr ⟨r', hg, rfl⟩

end

/-- **Handing over** records the member it hands over to. -/
theorem Ledgered.of_grant (thread : ThreadId) (member : MemberId)
    (attribution : Option Attribution) (expires : Option Int) (lease : ClaimLeaseId) (stamped : Int)
    (ht : db'.threads = db.threads.update thread (·.grantClaim member expires lease stamped)
      (ThreadRow.grantClaim_id member expires lease stamped))
    (hw : ∀ t m, hasWorked db' t m = hasWorked (recordInTx db thread member attribution) t m) :
    Ledgered db db' where
  grows := by
    intro t m h
    rw [hw, hasWorked_recordInTx, h]
    rfl
  holders := by
    intro id r' m hg hm
    rw [ht, get?_update] at hg
    split at hg
    · rename_i hid
      obtain ⟨r, _, rfl⟩ := map_eq_some_iff.mp hg
      obtain rfl : member = m := Option.some.inj hm
      rw [hw, hasWorked_recordInTx]
      simp [hid]
    · exact .inr ⟨r', hg, hm⟩

/-! ## 3. The claim operations -/

theorem ThreadRow.land_assigneeId (r : ThreadRow) (s : ThreadState) :
    (r.land s).assigneeId = none ∨ (r.land s).assigneeId = r.assigneeId := by
  unfold ThreadRow.land
  split
  · exact .inl rfl
  · exact .inr rfl

/-- **Only a step that gives a thread away sets an assignee.** -/
theorem RowMove.assigneeId (h : RowMove db op r r' c) (hg : op.gives = none) :
    r'.assigneeId = none ∨ r'.assigneeId = r.assigneeId := by
  cases h with
  | keep => exact .inr rfl
  | claim | takeover | assign => cases hg
  | renew | acknowledge => exact .inr rfl
  | land | cancel => exact ThreadRow.land_assigneeId r _
  | unassign | release | reap | releaseMember | freeze | escalate => exact .inl rfl

theorem step_ledgered (h : step db op = .ok db') : Ledgered db db' := by
  cases hgives : op.gives with
  | none =>
    refine .of_taking ((step_committed h).workers hgives) fun {id r'} hg => ?_
    cases (step_committed h).effect id with
    | absent _ h' =>
      rw [h'] at hg
      cases hg
    | moved hr hr' hm _ =>
      obtain rfl := mem_unique hr' hg
      exact (hm.assigneeId hgives).imp_right fun heq => ⟨_, hr, heq⟩
  | some =>
    cases op with
    | claim thread member lease attribution stamped =>
      obtain ⟨⟨_, flag⟩, hc, rfl⟩ := map_eq_ok.mp h
      rcases claim_cases hc with rfl | ⟨row, _, _, hdb⟩
      · exact .refl _
      · refine .of_grant thread member attribution none lease stamped ?_ fun t m => ?_
        · rw [hdb, recordInTx_threads, Db.setThread_threads]
        · rw [hdb]
          refine recordInTx_workers_congr ?_ thread member attribution t m
          rfl
    | claimNext grace ask leaseSecs lease attribution clock dbNow =>
      simp only [step, Except.ok.injEq] at h
      rcases claimNext_cases db grace ask leaseSecs lease attribution clock dbNow with
        hn | ⟨cand, _, _, hs⟩
      · rw [hn] at h
        exact h ▸ .refl db
      · rw [hs] at h
        refine .of_grant cand.id ask.member attribution
          (leaseSecs.map fun s => truncateMicros (truncateMicros clock) + seconds s) lease
          (truncateMicros (truncateMicros clock)) ?_ fun t m => ?_
        · rw [← h, Db.chargeWall_threads, recordInTx_threads, takeCandidate, Db.setThread_threads]
        · rw [← h]
          refine recordInTx_workers_congr ?_ cand.id ask.member attribution t m
          rfl
    | assign thread assignee lease attribution ended stamped =>
      obtain ⟨row, _, hdb⟩ := assign_spec h
      refine .of_grant thread assignee attribution none lease stamped ?_ fun t m => ?_
      · rw [hdb, recordInTx_threads, Db.setThread_threads, Db.chargeWall_threads]
      · rw [hdb]
        refine recordInTx_workers_congr ?_ thread assignee attribution t m
        rfl
    | _ => cases hgives

/-! ## 4. Reviews and hand-offs -/

/-- A transition takes a thread away at most, and the review child it may open is nobody's. -/
theorem transitionInSpawning_ledgered
    (h : transitionInSpawning env db thread actor action draws = .ok db') : Ledgered db db' := by
  have hw : db'.threadWorkers = db.threadWorkers := by
    rw [transitionInSpawning_frame h]
  obtain ⟨row, toState, rfl, hm⟩ := transitionInSpawning_moved h
  refine .of_taking hw fun {id r'} hg => ?_
  by_cases hid : id = row.id
  · subst hid
    obtain rfl := mem_unique hm.self hg
    exact (ThreadRow.land_assigneeId row toState).imp_right fun heq => ⟨row, hm.there, heq⟩
  · cases hold : db.threads.get? id with
    | none => exact .inl (hm.fresh hg hold)
    | some r =>
      obtain rfl := Option.some.inj ((hm.others hid hold).symm.trans hg)
      exact .inr ⟨r, rfl, rfl⟩

theorem escalateRoundCap_ledgered (h : escalateRoundCap db thread gate = .ok db') :
    Ledgered db db' := by
  rcases escalateRoundCap_cases h with ⟨_, rfl⟩ | ⟨_, gates, _, rfl⟩
  · exact .refl _
  · exact .of_clearing rfl rfl

theorem submitReviewOn_ledgered (h : submitReviewOn env db s = .ok db') : Ledgered db db' := by
  have hput : Ledgered db (db.putReview s.row) := .of_same rfl rfl
  rcases submitReviewOn_cases h with rfl | ⟨_, db1, ht, he⟩
  · exact hput
  · have hdismiss : Ledgered db1 (db1.dismissApprovals s.thread s.draws.now) := .of_same rfl rfl
    exact ((hput.trans (transitionInSpawning_ledgered ht)).trans hdismiss).trans
      (escalateRoundCap_ledgered he)

theorem handOff_ledgered (h : handOff db thread ended = .ok db') : Ledgered db db' := by
  rcases handOff_cases h with rfl | ⟨ht, hw⟩
  · exact .refl _
  · exact .of_clearing hw ht

end Ledger

/-! ## 5. Histories -/

/-- What can happen to a thread and its reviews. -/
inductive WorkOp
  | claim (op : ClaimOp)
  | handOff (thread : ThreadId) (ended : Int)
  | review (submission : Submission)

def workStep (env : Env) (db : Db) : WorkOp → Except StoreError Db
  | .claim op => step db op
  | .handOff thread ended => handOff db thread ended
  | .review submission => submitReviewOn env db submission

def workNext (env : Env) (db : Db) (op : WorkOp) : Db := settle db (workStep env db op)

theorem workNext_ledgered (env : Env) (db : Db) (op : WorkOp) :
    Ledgered db (workNext env db op) := by
  unfold workNext
  cases h : workStep env db op with
  | error => exact .refl db
  | ok =>
    cases op with
    | claim => exact step_ledgered h
    | handOff => exact handOff_ledgered h
    | review => exact submitReviewOn_ledgered h

theorem exec_ledgered (env : Env) : ∀ (ops : List WorkOp) (db : Db),
    Ledgered db (exec (workNext env) db ops)
  | [], db => .refl db
  | op :: ops, db => (workNext_ledgered env db op).trans (exec_ledgered env ops _)

/-- The thread's holder, if it has one, is in the ledger. -/
def holderRecorded (db : Db) (thread : ThreadId) : Bool :=
  match (db.threads.get? thread).bind ThreadRow.assigneeId with
  | none => true
  | some m => hasWorked db thread m

theorem hasWorked_of_holder (h : holderRecorded db thread = true) (ops : List WorkOp)
    (hrow : (exec (workNext env) db ops).threads.get? thread = some row)
    (hm : row.assigneeId = some m) : hasWorked (exec (workNext env) db ops) thread m = true := by
  have hl := exec_ledgered env ops db
  rcases hl.holders hrow hm with hw | ⟨r, hr, hrm⟩
  · exact hw
  · refine hl.grows ?_
    unfold holderRecorded at h
    rw [hr, bind_some, hrm] at h
    exact h

/-- **A counted approval has no implementer on it**: neither the reviewer nor the delegate. -/
theorem not_hasWorked_of_counted (h : r ∈ countedApprovals db thread) :
    hasWorked db thread r.reviewerId = false ∧
      ∀ actor, r.actorId = some actor → hasWorked db thread actor = false := by
  have hc := (List.mem_filter.mp h).2
  rw [gateCounts_eq, Bool.and_eq_true] at hc
  have hs := hc.2
  unfold statusCounts at hs
  cases hg : db.threads.get? thread with
  | none => simp [hg] at hs
  | some =>
    simp only [hg, Bool.and_eq_true] at hs
    obtain ⟨_, ⟨⟨_, hrev⟩, hact⟩, _⟩ := hs
    rw [get?_self hg]
    refine ⟨?_, fun actor ha => ?_⟩
    · unfold notImplementer at hrev
      simp only [Bool.and_eq_true, Bool.not_eq_true'] at hrev
      exact hrev.2
    · unfold ReviewRow.actorAll notImplementer at hact
      simp only [ha, Bool.and_eq_true, Bool.not_eq_true'] at hact
      exact hact.2

/-- **Nobody approves their own work.**  No approval the gate counts at the end of a history was
given, or submitted for another, by a member who held the thread at any moment of it. -/
theorem worker_never_approves (env : Env) (db : Db) (thread : ThreadId)
    (h : holderRecorded db thread = true) (before after : List WorkOp) {row : ThreadRow}
    {m : MemberId} (hrow : (exec (workNext env) db before).threads.get? thread = some row)
    (hm : row.assigneeId = some m) {r : ReviewRow}
    (hr : r ∈ countedApprovals (exec (workNext env) db (before ++ after)) thread) :
    r.reviewerId ≠ m ∧ r.actorId ≠ some m := by
  have hworked : hasWorked (exec (workNext env) db (before ++ after)) thread m = true := by
    rw [exec_append]
    exact (exec_ledgered env after _).grows (hasWorked_of_holder h before hrow hm)
  obtain ⟨hrev, hact⟩ := not_hasWorked_of_counted hr
  refine ⟨?_, fun ha => ?_⟩
  · rintro rfl
    rw [hworked] at hrev
    cases hrev
  · rw [hact m ha] at hworked
    cases hworked

/-- One thread that needs one approval, and four members. -/
def reviewedDb : Db where
  workspaces := oneWorkspace
  channels := generalChannel
  members := { rows := [{ id := ⟨1⟩, workspaceId := ⟨1⟩ }, { id := ⟨2⟩, workspaceId := ⟨1⟩ },
    { id := ⟨3⟩, workspaceId := ⟨1⟩ }, { id := ⟨4⟩, workspaceId := ⟨1⟩ }] }
  threads := oneThread
  threadReviewReqs := oneApproval

/-- An approval of thread 1 by `reviewer`, submitted by `actor` for it. -/
def approveAs (reviewer actor : MemberId) : Submission where
  thread := ⟨1⟩
  reviewer := reviewer
  decision := .approve
  attribution := some { subject := reviewer, actor := actor }
  draws := { transition := ⟨1⟩, packet := ⟨1⟩, child := ⟨100⟩, now := 5, ended := 5 }
  gate := ⟨1⟩

/-- Member 1 claims and releases; then approves, approves with member 2's token, and lets member 4
approve for member 3. -/
def selfApprovalOps : List WorkOp :=
  [.claim (.release ⟨1⟩ ⟨1⟩ ⟨11⟩ 3), .review (approveAs ⟨1⟩ ⟨1⟩), .review (approveAs ⟨2⟩ ⟨1⟩),
   .review (approveAs ⟨3⟩ ⟨4⟩)]

/-- Of the three approvals the one by members 3 and 4 counts, and the gate lets the thread close. -/
theorem worker_never_approves_released :
    reviewGateInTx plainEnv (exec (workNext plainEnv) reviewedDb
        ([.claim (.claim ⟨1⟩ ⟨1⟩ ⟨11⟩ none 1)] ++ selfApprovalOps)) ⟨1⟩ = .ok () ∧
      (⟨3⟩ : MemberId) ≠ ⟨1⟩ ∧ some (⟨4⟩ : MemberId) ≠ some ⟨1⟩ :=
  ⟨by decide, worker_never_approves plainEnv reviewedDb ⟨1⟩ (by decide)
    [.claim (.claim ⟨1⟩ ⟨1⟩ ⟨11⟩ none 1)] selfApprovalOps rfl rfl
    (r := (approveAs ⟨3⟩ ⟨4⟩).row) (by decide)⟩

end Maidan
