/-
# The review gate and the review status

`review_gate_in_tx` (`thread_transitions.rs`) refuses a close until enough qualifying approvals
stand; `review_status` (`reviews.rs`) shows how many do.  Two long queries, written by hand, that
are meant to count the same signers.

Each query is its own definition here (`gateCounts`, `statusCounts`), cut along the conjuncts the
source writes: `standing`, `notImplementer`, `inNamedSet`, and -- in the gate only -- `liveMember`
of the reviewer and of whoever submitted for it.
-/
import Maidan.Review.Evidence
import Maidan.Claim.Landing

namespace Maidan

open Relational List

/-! ## 1. The conjuncts -/

variable (r : ReviewRow)

/-- `COALESCE(r.actor_id, r.reviewer_id)`. -/
def ReviewRow.signer : MemberId := r.actorId.getD r.reviewerId

variable (db : Db)

/-- An approval, not dismissed, and bound to what the current review was handed. -/
def standing (r : ReviewRow) : Bool :=
  r.decision == .approve && r.dismissedAt.isNone &&
    (!(db.reviewPackets.rows.any fun p => p.threadId == r.threadId) ||
      sqlEq r.evidenceRoot (latestRootInTx db r.threadId))

/-- Neither the owner, nor the live holder, nor ever a holder. -/
def notImplementer (t : ThreadRow) (m : MemberId) : Bool :=
  t.ownerId != some m && t.assigneeId != some m && !hasWorked db t.id m

variable (thread : ThreadId)

/-- No reviewers are named, or `m` is one of them. -/
def inNamedSet (m : MemberId) : Bool :=
  !(db.threadReviewers.rows.any fun rv => rv.threadId == thread) ||
    (db.threadReviewers.get? (thread, m)).isSome

/-- A member of the workspace who has not been removed. -/
def liveMember (ws : WorkspaceId) (m : MemberId) : Bool :=
  match db.members.get? m with
  | none => false
  | some row => row.workspaceId == ws && row.tombstonedAt.isNone

/-- A condition on the delegate, when there was one. -/
def ReviewRow.actorAll (p : MemberId → Bool) : Bool :=
  match r.actorId with
  | none => true
  | some actor => p actor

/-! ## 2. The two queries -/

/-- The `WHERE` of `review_status`. -/
def statusCounts (r : ReviewRow) : Bool :=
  r.threadId == thread &&
    match db.threads.get? thread with
    | none => false
    | some t =>
      standing db r && notImplementer db t r.reviewerId &&
        r.actorAll (notImplementer db t) && inNamedSet db thread r.reviewerId

/-- The joins and the `WHERE` of `review_gate_in_tx`. -/
def gateCounts (r : ReviewRow) : Bool :=
  r.threadId == thread &&
    match db.threads.get? thread with
    | none => false
    | some t =>
      match db.workspaceOf t with
      | none => false
      | some ws =>
        liveMember db ws r.reviewerId && standing db r && notImplementer db t r.reviewerId &&
          r.actorAll (fun actor => liveMember db ws actor && notImplementer db t actor) &&
          inNamedSet db thread r.reviewerId

/-- `COUNT(DISTINCT COALESCE(r.actor_id, r.reviewer_id))`. -/
def distinctSigners (reviews : List ReviewRow) : Int :=
  (reviews.map ReviewRow.signer).dedup.length

/-- The approvals the gate counts. -/
def countedApprovals : List ReviewRow :=
  db.threadReviews.rows.filter (gateCounts db thread)

/-- `COALESCE(required_count, 0)`. -/
def requiredCount (db : Db) (thread : ThreadId) : Int :=
  ((db.threadReviewReqs.get? thread).map ReviewReqRow.requiredCount).getD 0

/-! ## 3. The gate -/

/-- Why `review_gate_in_tx` refuses. -/
inductive ReviewRefusal
  | evidenceChanged
  | tooFew (approvals required : Int)
  | refuted
deriving DecidableEq, Repr

def ReviewRefusal.text : ReviewRefusal → String
  | .evidenceChanged => evidenceChangedText
  | .tooFew approvals required =>
    "review requirement not met: " ++ toString approvals ++ " of " ++ toString required ++
    " required approvals. Next: a reviewer who did not work on this thread approves it " ++
    "(submit_review, decision approve), then close it again; " ++
    "closing before that is refused the same way"
  | .refuted => "a `refutes` reference blocks close until it is resolved"

/-- A `refutes` reference targets the thread. -/
def refuted : Bool :=
  db.references.rows.any fun ref => ref.relation == .refutes && ref.dst == .thread thread

variable (env : Env)

/-- What `review_gate_in_tx` finds against a close, in the order it looks. -/
def reviewGate (db : Db) (thread : ThreadId) : Option ReviewRefusal :=
  let required := requiredCount db thread
  let approvals := distinctSigners (countedApprovals db thread)
  if decide (0 < required) && evidenceChanged env db thread then some .evidenceChanged
  else if decide (0 < required) && decide (approvals < required) then
    some (.tooFew approvals required)
  else if refuted db thread then some .refuted
  else none

/-- `review_gate_in_tx`. -/
def reviewGateInTx (db : Db) (thread : ThreadId) : Except StoreError Unit :=
  match reviewGate env db thread with
  | none => .ok ()
  | some refusal => .error (.conflict refusal.text)

/-! ## 4. The status -/

/-- `ReviewStatus`. -/
structure ReviewStatus where
  requiredCount : Int
  approvals : Int
  approvalsMet : Bool
  sendBacks : Int
  maxRounds : Int

/-- `review_status`. -/
def reviewStatus (db : Db) (thread : ThreadId) : ReviewStatus :=
  let required := requiredCount db thread
  let approvals := distinctSigners (db.threadReviews.rows.filter (statusCounts db thread))
  let approvals := if decide (0 < approvals) && evidenceChanged env db thread then 0 else approvals
  { requiredCount := required
    approvals := approvals
    approvalsMet := required == 0 || decide (required ≤ approvals)
    sendBacks := sendBacks db thread
    maxRounds := maxRounds db thread }

/-! ## 5. What the status leaves out -/

/-- Whoever signed the review -- the reviewer, and the delegate if there was one -- is still a
member of the thread's workspace. -/
def signedByMembers (r : ReviewRow) : Bool :=
  match (db.threads.get? thread).bind db.workspaceOf with
  | none => false
  | some ws => liveMember db ws r.reviewerId && r.actorAll (liveMember db ws)

theorem ReviewRow.actorAll_and (p q : MemberId → Bool) :
    (r.actorAll fun m => p m && q m) = (r.actorAll p && r.actorAll q) := by
  unfold ReviewRow.actorAll
  cases r.actorId <;> rfl

/-- **The gate counts what the status counts, signed by members.** -/
theorem gateCounts_eq (r : ReviewRow) :
    gateCounts db thread r = (signedByMembers db thread r && statusCounts db thread r) := by
  unfold gateCounts statusCounts signedByMembers
  cases hg : db.threads.get? thread with
  | none => simp
  | some t =>
    cases hw : db.workspaceOf t with
    | none => simp [hw]
    | some =>
      simp only [bind_some, hw, ReviewRow.actorAll_and]
      -- Both sides are the same seven conjuncts in another order.
      ac_rfl

theorem countedApprovals_eq : countedApprovals db thread =
      (db.threadReviews.rows.filter (statusCounts db thread)).filter
        (signedByMembers db thread) := by
  rw [filter_filter]
  exact filter_congr fun r _ => gateCounts_eq db thread r

theorem distinctSigners_mono (h : l ⊆ l') : distinctSigners l ≤ distinctSigners l' := by
  have hsub : (l.map ReviewRow.signer).dedup ⊆ (l'.map ReviewRow.signer).dedup := by
    intro m hm
    rw [mem_dedup] at hm ⊢
    obtain ⟨r, hr, rfl⟩ := mem_map.mp hm
    exact mem_map_of_mem (h hr)
  have hlen := (subperm_of_subset (nodup_dedup _) hsub).length_le
  unfold distinctSigners
  exact_mod_cast hlen

theorem distinctSigners_nonneg (l : List ReviewRow) : 0 ≤ distinctSigners l := by
  unfold distinctSigners
  omega

/-! ## 6. When the status shown is the gate enforced -/

/-- The gate does not refuse the close for too few approvals or changed evidence. -/
def gateSatisfied (db : Db) (thread : ThreadId) : Bool :=
  match reviewGate env db thread with
  | none => true
  | some .refuted => true
  | some .evidenceChanged => false
  | some (.tooFew _ _) => false

theorem gateSatisfied_iff (db : Db) (thread : ThreadId) : gateSatisfied env db thread = true ↔
      requiredCount db thread ≤ 0 ∨ (evidenceChanged env db thread = false ∧
          requiredCount db thread ≤ distinctSigners (countedApprovals db thread)) := by
  unfold gateSatisfied reviewGate
  by_cases hr : 0 < requiredCount db thread
  · cases hc : evidenceChanged env db thread with
    | true =>
      simp [hr]
    | false =>
      by_cases ha : distinctSigners (countedApprovals db thread) < requiredCount db thread
      · simp [hr, ha]
      · cases hf : refuted db thread <;> simp [hr, ha] <;> omega
  · cases hf : refuted db thread <;> simp [hr] <;> omega

theorem approvalsMet_iff (db : Db) (thread : ThreadId) :
    (reviewStatus env db thread).approvalsMet = true ↔ requiredCount db thread ≤ 0 ∨
        (evidenceChanged env db thread = false ∧ requiredCount db thread ≤
            distinctSigners (db.threadReviews.rows.filter (statusCounts db thread))) := by
  have hpos := distinctSigners_nonneg (db.threadReviews.rows.filter (statusCounts db thread))
  unfold reviewStatus
  cases hc : evidenceChanged env db thread with
  | true =>
    by_cases ha : 0 < distinctSigners (db.threadReviews.rows.filter (statusCounts db thread))
    · simp [ha]
      omega
    · simp [ha]
      omega
  | false =>
    simp
    omega

/-- **Removed signers decide.**  Enough distinct members signed approvals that stand, but not
enough once those are left out that a removed member, or one of another workspace, signed. -/
def removedSignersDecide (db : Db) (thread : ThreadId) : Prop :=
  0 < requiredCount db thread ∧ evidenceChanged env db thread = false ∧ requiredCount db thread ≤
      distinctSigners (db.threadReviews.rows.filter (statusCounts db thread)) ∧
    distinctSigners ((db.threadReviews.rows.filter (statusCounts db thread)).filter
      (signedByMembers db thread)) < requiredCount db thread

/-- **The status shown is the gate enforced, exactly when removed signers do not decide.** -/
theorem status_eq_gate_iff (env : Env) (db : Db) (thread : ThreadId) :
    ((reviewStatus env db thread).approvalsMet = gateSatisfied env db thread) ↔
      ¬ removedSignersDecide env db thread := by
  have hle : distinctSigners (countedApprovals db thread) ≤
      distinctSigners (db.threadReviews.rows.filter (statusCounts db thread)) := by
    rw [countedApprovals_eq]
    exact distinctSigners_mono (filter_subset_self _)
  rw [Bool.eq_iff_iff, approvalsMet_iff, gateSatisfied_iff]
  unfold removedSignersDecide
  rw [← countedApprovals_eq]
  cases evidenceChanged env db thread with
  | true => simp
  | false =>
    simp only [true_and]
    omega

/-- One thread that needs one approval; its one approver has been removed since. -/
def removedApproverDb : Db where
  workspaces := oneWorkspace
  channels := generalChannel
  members := { rows := [{ id := ⟨1⟩, workspaceId := ⟨1⟩, tombstonedAt := some 5 }] }
  threads := reviewThread
  threadReviewReqs := oneApproval
  threadReviews := { rows := [{ threadId := ⟨1⟩, reviewerId := ⟨1⟩, decision := .approve }] }

/-- **The status calls the requirement met and the gate refuses the close.**  `review_status` does
not join the members, so a removed member's approval is still shown as one that counts. -/
theorem removed_approver_still_shown :
    (reviewStatus plainEnv removedApproverDb ⟨1⟩).approvalsMet = true ∧
      (reviewStatus plainEnv removedApproverDb ⟨1⟩).approvals = 1 ∧
      reviewGate plainEnv removedApproverDb ⟨1⟩ = some (.tooFew 0 1) := by
  decide

end Maidan
