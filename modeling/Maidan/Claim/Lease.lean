/-
# The claim lease is a fencing token

The claim of a thread is five columns, and a dozen `UPDATE` statements rewrite some of them.  This
file reads the inversion lemma of `Steps.lean` for one fact about those columns, and plays it
through the library of fencing tokens:

* `RowMove.columns` -- a step keeps a thread's (assignee, lease) pair, or clears ALL five columns,
  or writes the very pair the operation gives;
* so the columns stay consistent (`consistent_next`), and a pair is only ever held because an
  operation gave it (`issued_next`, the one hypothesis of `Fencing.lean`).

The token of the library is the PAIR.  Freshness is asked of the lease ids alone, as the store
draws them: fresh leases make fresh pairs.
-/
import Maidan.Claim.Steps
import Maidan.Lib.Fencing

namespace Maidan

open Relational Run Fencing

/-! ## 1. The five columns -/

/-- No claim column is set. -/
def ThreadRow.Unclaimed (r : ThreadRow) : Prop :=
  r.assigneeId = none ∧ r.assignmentExpiresAt = none ∧ r.claimLeaseId = none ∧
    r.claimedAt = none ∧ r.workStartedAt = none

instance (r : ThreadRow) : Decidable r.Unclaimed :=
  inferInstanceAs (Decidable (r.assigneeId = none ∧ r.assignmentExpiresAt = none ∧
    r.claimLeaseId = none ∧ r.claimedAt = none ∧ r.workStartedAt = none))

/-- A table of threads that nobody has claimed yet. -/
def NoClaims (db : Db) : Prop := ∀ r ∈ db.threads.rows, r.Unclaimed

instance (db : Db) : Decidable (NoClaims db) :=
  inferInstanceAs (Decidable (∀ r ∈ db.threads.rows, r.Unclaimed))

theorem ThreadRow.unclaimed_clearClaim (r : ThreadRow) : r.clearClaim.Unclaimed :=
  ⟨rfl, rfl, rfl, rfl, rfl⟩

/-- **The columns agree**: a claim is whole or it is not there. -/
structure ThreadRow.Consistent (r : ThreadRow) : Prop where
  whole : r.assigneeId = none → r.Unclaimed
  token : ∀ m, r.assigneeId = some m → ∃ l, r.claimLeaseId = some l

variable {r : ThreadRow} {db : Db} {op : ClaimOp}

theorem ThreadRow.Unclaimed.consistent (h : r.Unclaimed) : r.Consistent := by
  refine ⟨fun _ => h, fun m hm => ?_⟩
  rw [h.1] at hm
  cases hm

theorem ThreadRow.land_cases (r : ThreadRow) (toState : ThreadState) :
    r.land toState = { r with state := toState } ∨
      r.land toState = { r.clearClaim with state := toState } := by
  unfold ThreadRow.land
  split
  · exact .inr rfl
  · exact .inl rfl

/-- **What a step does to the claim columns.** -/
theorem RowMove.columns (h : RowMove db op r r' c) :
    (r'.assigneeId = r.assigneeId ∧ r'.claimLeaseId = r.claimLeaseId ∧
      (r.assigneeId = none → r.Unclaimed → r'.Unclaimed)) ∨
    r'.Unclaimed ∨
    ∃ m l, op.gives = some (m, l) ∧ r'.assigneeId = some m ∧ r'.claimLeaseId = some l := by
  cases h with
  | keep => exact .inl ⟨rfl, rfl, fun _ h => h⟩
  | claim | takeover | assign => exact .inr (.inr ⟨_, _, rfl, rfl, rfl⟩)
  | renew hf | acknowledge hf =>
    -- the fence: a renewed or acknowledged thread has an assignee
    simp only [ThreadRow.fenced, Bool.and_eq_true, beq_iff_eq] at hf
    refine .inl ⟨rfl, rfl, fun hn _ => ?_⟩
    rw [hf.1.1] at hn
    cases hn
  | unassign | release | reap | releaseMember | freeze | escalate =>
    exact .inr (.inl r.unclaimed_clearClaim)
  | land | cancel =>
    rcases r.land_cases _ with he | he
    · rw [he]
      exact .inl ⟨rfl, rfl, fun _ h => h⟩
    · rw [he]
      exact .inr (.inl r.unclaimed_clearClaim)

theorem RowMove.consistent (h : RowMove db op r r' c) (hr : r.Consistent) : r'.Consistent := by
  rcases h.columns with ⟨ha, hl, hu⟩ | hu | ⟨m, l, _, ha, hl⟩
  · refine ⟨fun hn => ?_, fun m hm => ?_⟩
    · rw [ha] at hn
      exact hu hn (hr.whole hn)
    · rw [ha] at hm
      obtain ⟨l, hl'⟩ := hr.token m hm
      exact ⟨l, hl.trans hl'⟩
  · exact hu.consistent
  · refine ⟨fun hn => ?_, fun _ _ => ⟨l, hl⟩⟩
    rw [ha] at hn
    cases hn

/-- Every thread's columns agree. -/
def Consistent (db : Db) : Prop :=
  ∀ id r, db.threads.get? id = some r → r.Consistent

theorem NoClaims.consistent (h : NoClaims db) : Consistent db :=
  fun _ r hr => (h r (Table.mem_of_get? hr)).consistent

/-- **A step keeps the columns consistent.** -/
theorem consistent_next (db : Db) (op : ClaimOp) (h : Consistent db) : Consistent (next db op) := by
  intro id r' hr'
  obtain ⟨r, c, hg, hm, _⟩ := next_row hr'
  exact hm.consistent (h id r hg)

/-- **A run keeps the columns consistent.** -/
theorem consistent_exec (ops : List ClaimOp) (h : Consistent db) : Consistent (exec next db ops) :=
  exec_inv consistent_next ops h

/-! ## 2. The pair -/

/-- Thread `id` is held by `pair.1` under the lease `pair.2`. -/
def Holds (db : Db) (id : ThreadId) (pair : MemberId × ClaimLeaseId) : Prop :=
  ∃ r, db.threads.get? id = some r ∧ r.assigneeId = some pair.1 ∧ r.claimLeaseId = some pair.2

theorem NoClaims.not_holds (h : NoClaims db) (id : ThreadId) (pair : MemberId × ClaimLeaseId) :
    ¬Holds db id pair := by
  rintro ⟨r, hr, ha, _⟩
  rw [(h r (Table.mem_of_get? hr)).1] at ha
  cases ha

/-- **A pair is held because it was held before the step, or because the step gave it.** -/
theorem issued_next : Issued next Holds ClaimOp.gives := by
  rintro db op id ⟨m, l⟩ ⟨r', hr', ha', hl'⟩
  obtain ⟨r, c, hg, hm, _⟩ := next_row hr'
  rcases hm.columns with ⟨ha, hl, _⟩ | hu | ⟨m', l', hgives, ha, hl⟩
  · exact .inl ⟨r, hg, ha.symm.trans ha', hl.symm.trans hl'⟩
  · rw [hu.1] at ha'
    cases ha'
  · rw [ha] at ha'
    rw [hl] at hl'
    cases ha'
    cases hl'
    exact .inr hgives

/-- Every `ClaimLeaseId` of the run is drawn once. -/
def FreshLeases (ops : List ClaimOp) : Prop := (ops.filterMap ClaimOp.issues).Nodup

instance (ops : List ClaimOp) : Decidable (FreshLeases ops) :=
  inferInstanceAs (Decidable (ops.filterMap ClaimOp.issues).Nodup)

theorem FreshLeases.gives_nodup (h : FreshLeases ops) : (ops.filterMap ClaimOp.gives).Nodup := by
  refine List.Nodup.of_map Prod.snd ?_
  rw [List.map_filterMap]
  exact h

/-! ## 3. The fence -/

/-- The pair a fenced operation presents, and the thread it presents it for. -/
def ClaimOp.presents : ClaimOp → Option (ThreadId × MemberId × ClaimLeaseId)
  | .renew thread member lease _ _ => some (thread, member, lease)
  | .acknowledge thread member lease _ => some (thread, member, lease)
  | .release thread member lease _ => some (thread, member, lease)
  | _ => none

/-- **Any other pair is refused, and the refusal changes no row.** -/
theorem presents_refused {id : ThreadId} (hop : op.presents = some (id, pair))
    (h : ¬Holds db id pair) : step db op = .error .notFound ∧ next db op = db := by
  have hne : ∀ row, db.threads.get? id = some row →
      ¬(row.assigneeId = some pair.1 ∧ row.claimLeaseId = some pair.2) :=
    fun row hg hrow => h ⟨row, hg, hrow⟩
  have hstep : step db op = .error .notFound := by
    cases op with
    | renew | acknowledge | release =>
      cases hop
      exact fencedTx_refused hne
    | _ => cases hop
  refine ⟨hstep, ?_⟩
  rw [next, hstep]
  rfl

/-- **The claim lease fences.**  From a table without claims, along every run of the claim
operations with fresh leases:

1. a thread without an assignee carries no claim column;
2. a thread with an assignee carries the lease of the step that gave it to that assignee, and has
   carried that pair since;
3. a renew, acknowledge or release with any other pair fails and changes no row;
4. so does one with a pair that was taken away at any earlier moment. -/
theorem claim_lease_fences (db : Db) (ops : List ClaimOp) (h0 : NoClaims db)
    (hfresh : FreshLeases ops) :
    (∀ id r, (exec next db ops).threads.get? id = some r → r.assigneeId = none →
      r.claimLeaseId = none ∧ r.assignmentExpiresAt = none ∧ r.claimedAt = none ∧
        r.workStartedAt = none) ∧
    (∀ id r m, (exec next db ops).threads.get? id = some r → r.assigneeId = some m →
      ∃ l pre op post, r.claimLeaseId = some l ∧ ops = pre ++ op :: post ∧
        op.gives = some (m, l) ∧ ¬Holds (exec next db pre) id (m, l) ∧
        ∀ mid, mid <+: post → Holds (exec next db (pre ++ op :: mid)) id (m, l)) ∧
    (∀ id pair op, ¬Holds (exec next db ops) id pair → op.presents = some (id, pair) →
      step (exec next db ops) op = .error .notFound ∧
        next (exec next db ops) op = exec next db ops) ∧
    (∀ id pair op pre mid post, ops = pre ++ mid ++ post → Holds (exec next db pre) id pair →
      ¬Holds (exec next db (pre ++ mid)) id pair → op.presents = some (id, pair) →
      step (exec next db ops) op = .error .notFound ∧
        next (exec next db ops) op = exec next db ops) := by
  have hcons := consistent_exec ops h0.consistent
  refine ⟨?_, ?_, ?_, ?_⟩
  · intro id r hg hn
    obtain ⟨_, he, hl, hc, hw⟩ := (hcons id r hg).whole hn
    exact ⟨hl, he, hc, hw⟩
  · intro id r m hg hm
    obtain ⟨l, hl⟩ := (hcons id r hg).token m hm
    obtain ⟨pre, op, post, hops, hgives, hnot, hsince⟩ :=
      holds_since issued_next (h0.not_holds id (m, l)) ops ⟨r, hg, hm, hl⟩
    exact ⟨l, pre, op, post, hl, hops, hgives, hnot, hsince⟩
  · intro id pair op hnot hop
    exact presents_refused hop hnot
  · rintro id pair op pre mid post rfl hheld hgone hop
    exact presents_refused hop
      (gone_stays_gone issued_next (h0.not_holds id pair) hfresh.gives_nodup hheld hgone)

/-- Two members of one workspace and one open thread. -/
def handoffDb : Db where
  workspaces := oneWorkspace
  members := twoMembers
  channels := generalChannel
  threads := oneThread

/-- A claim, and its handoff to the other member. -/
def handoffOps : List ClaimOp :=
  [.claim ⟨1⟩ ⟨1⟩ ⟨10⟩ none 0, .assign ⟨1⟩ ⟨2⟩ ⟨11⟩ none 5 5]

/-- **After a handoff the first holder's token is dead.** -/
theorem claim_lease_fences_handoff :
    Holds (exec next handoffDb (handoffOps.take 1)) ⟨1⟩ (⟨1⟩, ⟨10⟩) ∧
    step (exec next handoffDb handoffOps) (.renew ⟨1⟩ ⟨1⟩ ⟨10⟩ 60 6) = .error .notFound := by
  have hheld : Holds (exec next handoffDb (handoffOps.take 1)) ⟨1⟩ (⟨1⟩, ⟨10⟩) :=
    ⟨_, rfl, rfl, rfl⟩
  have hgone : ¬Holds (exec next handoffDb handoffOps) ⟨1⟩ (⟨1⟩, ⟨10⟩) := by
    rintro ⟨r, hr, ha, _⟩
    have hrow : ((exec next handoffDb handoffOps).threads.get? ⟨1⟩).bind ThreadRow.assigneeId =
        some ⟨2⟩ := by decide
    rw [hr, bind_some, ha] at hrow
    revert hrow
    decide
  obtain ⟨_, _, _, htaken⟩ := claim_lease_fences handoffDb handoffOps (by decide) (by decide)
  exact ⟨hheld, (htaken ⟨1⟩ (⟨1⟩, ⟨10⟩) (.renew ⟨1⟩ ⟨1⟩ ⟨10⟩ 60 6) (handoffOps.take 1)
    (handoffOps.drop 1) [] rfl hheld hgone rfl).1⟩

end Maidan
