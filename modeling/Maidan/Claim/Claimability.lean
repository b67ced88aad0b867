/-
# Whether an open thread may be handed out now

`claimability.rs`, rule by rule and under its names.  `claim_next` ANDs the rules to pick a
thread and the queue counts partition the queue by them, so each rule is one definition here and
both readers use it.

A rule is a condition on the candidate row `cand`, the tables, and `now`, the LEASE clock: the
time a deadline is compared with.  Every rule is an `EXISTS` or a guarded comparison, so none of
them is ever `NULL`, and `NOT` is Boolean negation.
-/
import Maidan.Claim.Footprints

namespace Maidan

open Relational

/-! ## 1. The claim a candidate still carries -/

/-- `held`: on a live lease, or with no lease at all. -/
def held (cand : ThreadRow) (now : Int) : Bool :=
  cand.assigneeId.isSome &&
    (match cand.assignmentExpiresAt with
     | none => true
     | some expires => decide (now ≤ expires))

/-- `available`: unheld, or held on a lease that lapsed. -/
def available (cand : ThreadRow) (now : Int) : Bool :=
  cand.assigneeId.isNone ||
    (match cand.assignmentExpiresAt with
     | none => false
     | some expires => decide (expires < now))

/-- `LAPSED_WORKED_SECS`. -/
def lapsedWorkedSecs (cand : ThreadRow) : Int :=
  match cand.assigneeId, cand.workStartedAt, cand.assignmentExpiresAt with
  | some _, some started, some expires => max 0 (unixSecs expires - unixSecs started)
  | _, _, _ => 0

/-- **Held and available partition the queue.** -/
theorem available_eq_not_held (cand : ThreadRow) (now : Int) :
    available cand now = !held cand now := by
  unfold available held
  cases cand.assigneeId with
  | none => rfl
  | some =>
    cases cand.assignmentExpiresAt with
    | none => rfl
    | some e =>
      by_cases h : e < now
      · simp [h]
      · simp [h, not_lt.mp h]

variable {cand : ThreadRow} {now : Int}

theorem liveClaim_of_available (h : available cand now = true) : liveClaim cand now = false := by
  rw [← Bool.not_eq_true]
  intro hl
  obtain ⟨ha, _, _, hd⟩ := liveClaim_iff.mp hl
  unfold available at h
  rw [Bool.or_eq_true] at h
  rcases h with h | h
  · rw [isNone_iff_eq_none.mp h] at ha
    exact absurd ha (by simp)
  · cases he : cand.assignmentExpiresAt with
    | none => simp [he] at h
    | some e =>
      have hle := hd e he
      simp only [he, decide_eq_true_eq] at h
      omega

/-! ## 2. Withheld -/

variable (db : Db)

/-- `PARKED`. -/
def parked (cand : ThreadRow) : Bool :=
  (db.threadUnclaimable.get? cand.id).isSome

/-- A thread that is open or in review and not tombstoned. -/
def liveOriginal (orig : ThreadRow) : Bool :=
  orig.tombstonedAt.isNone && (orig.state == .open || orig.state == .inReview)

/-- `live_original_on`: the live thread `thread`'s fingerprint names as its original. -/
def liveOriginalOn (thread : ThreadId) : Option ThreadId :=
  match db.taskFingerprints.get? thread with
  | none => none
  | some fp =>
    match fp.duplicateOf.bind db.threads.get? with
    | none => none
    | some orig => if liveOriginal orig then some orig.id else none

/-- `DUPLICATE`. -/
def duplicate (cand : ThreadRow) : Bool := (liveOriginalOn db cand.id).isSome

/-- `ISSUE_IN_REVIEW`. -/
def issueInReview (cand : ThreadRow) : Bool :=
  match db.threadAttributes.get? cand.id with
  | none => false
  | some ia =>
    ia.kind == .change && ia.linearIssue.isSome &&
      (db.threadAttributes.rows.any fun oa =>
        sqlEq oa.linearIssue ia.linearIssue && oa.threadId != ia.threadId && oa.kind == .change &&
          match db.threads.get? oa.threadId with
          | none => false
          | some o =>
            sqlEq (db.workspaceOf o) (db.workspaceOf cand) && o.tombstonedAt.isNone &&
              o.state == .inReview) &&
      !(match db.taskFingerprints.get? cand.id with
        | none => false
        | some cf => cf.clearedAt.isSome)

/-- One dimension of `over_budget`: a positive maximum that is used up. -/
def bound (used : Int) : Option Int → Bool
  | none => false
  | some m => decide (m > 0) && decide (used ≥ m)

/-- `over_budget`. -/
def overBudget (cand : ThreadRow) : Bool :=
  match db.threadBudgets.get? cand.id with
  | none => false
  | some bu =>
    bound bu.usedTokens bu.maxTokens || bound bu.usedUsdMicros bu.maxUsdMicros ||
      bound bu.usedTurns bu.maxTurns ||
      bound (bu.usedWallSecs + lapsedWorkedSecs cand) bu.maxWallSecs

/-- `finished`, with `REQUEUED_AFTER_RESULT`. -/
def finished (cand : ThreadRow) : Bool :=
  match db.threadResults.get? cand.id with
  | none => false
  | some r =>
    !(db.threadTransitions.rows.any fun tr =>
      tr.threadId == cand.id && tr.toState == .open &&
        decide (julianday r.producedAt ≤ julianday tr.occurredAt))

/-- `withheld`. -/
def withheld (cand : ThreadRow) : Bool :=
  parked db cand || duplicate db cand || issueInReview db cand || overBudget db cand ||
    finished db cand

/-! ## 3. Stalled -/

/-- `BLOCKED`. -/
def blocked (cand : ThreadRow) : Bool := (db.threadBlocks.get? cand.id).isSome

/-- A dependency that is not met: not terminal, or closed without landing. -/
def unmet (dep : ThreadRow) : Bool :=
  !dep.state.isTerminal || (db.threadUnlandedCloses.get? dep.id).isSome

/-- `WAITING`. -/
def waiting (cand : ThreadRow) : Bool :=
  db.threadDependencies.rows.any fun d => d.threadId == cand.id &&
    match db.threads.get? d.dependsOnThreadId with
    | none => false
    | some dep => unmet db dep

/-- `GATED`. -/
def gated (cand : ThreadRow) : Bool :=
  db.approvalGates.rows.any fun g => g.threadId == some cand.id && g.state == .pending

/-- `stalled`. -/
def stalled (cand : ThreadRow) (now : Int) : Bool :=
  blocked db cand || waiting db cand || gated db cand || deferred db cand.id now

/-! ## 4. Claimable -/

/-- `claimable`: open, live, and claimable now by a claimer with no restrictions. -/
def claimable (cand : ThreadRow) (now : Int) : Bool :=
  cand.tombstonedAt.isNone && cand.state == .open && available cand now &&
    !withheld db cand && !stalled db cand now

theorem claimable_available {db : Db} (h : claimable db cand now = true) :
    available cand now = true := by
  simp only [claimable, Bool.and_eq_true] at h
  exact h.1.1.2

/-- **A claimable thread is not deferred.** -/
theorem claimable_not_deferred {db : Db} (h : claimable db cand now = true) :
    conflictsWithLiveClaims db cand.id now = false ∧ slotFull db cand.id now = false := by
  simp only [claimable, stalled, deferred, Bool.and_eq_true, Bool.not_eq_true',
    Bool.or_eq_false_iff] at h
  exact ⟨h.2.2.1.1, h.2.2.2⟩

end Maidan
