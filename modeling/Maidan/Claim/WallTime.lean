/-
# Where the working seconds go

`used_wall_secs` is a bill: an acknowledged claim works from `work_started_at` until it ends, and
the step that ends it is to charge those seconds to the thread.  About ten statements clear
`work_started_at`; this file asks of each whether it charged first.

A claim is its (assignee, lease) pair, as in `Lease.lean`.  A step CLOSES the pair it finds and
does not leave; `claimEnd` says when that claim ended -- at the step's own reading of the clock,
except that a lapsed claim, reaped or taken over, ended at its DEADLINE.  With the library's ledger
of closed tokens the accounting is one sentence: `used_wall_secs` moves by the worked seconds of
the closed pairs, and no pair is closed twice.

`escalate_round_cap` is the exception.  It clears the five columns and charges nothing
(`RowMove.escalate`), so the sentence holds of the runs in which no escalation finds worked
seconds to drop, and `escalated_work_is_free` is a run in which one does.

The last section compares the endings of a LAPSED claim with each other: `lapsed_charge_iff` says
which of them charge it through its deadline.
-/
import Maidan.Claim.Lease

namespace Maidan

open Relational Run Fencing

/-! ## 1. The claim a row carries -/

/-- The pair a row is held under. -/
def ThreadRow.pair (r : ThreadRow) : Option (MemberId × ClaimLeaseId) :=
  match r.assigneeId, r.claimLeaseId with
  | some m, some l => some (m, l)
  | _, _ => none

/-- The pair a thread is held under. -/
def heldPair (db : Db) (id : ThreadId) : Option (MemberId × ClaimLeaseId) :=
  (db.threads.get? id).bind ThreadRow.pair

variable {r r' : ThreadRow} {t : MemberId × ClaimLeaseId} {db : Db} {op : ClaimOp}

theorem ThreadRow.pair_eq_some :
    r.pair = some t ↔ r.assigneeId = some t.1 ∧ r.claimLeaseId = some t.2 := by
  unfold ThreadRow.pair
  cases r.assigneeId with
  | none => simp
  | some =>
    cases r.claimLeaseId with
    | none => simp
    | some => simp [Prod.ext_iff]

theorem holds_iff_heldPair {id : ThreadId} : Holds db id t ↔ heldPair db id = some t := by
  unfold Holds heldPair
  rw [bind_eq_some_iff]
  constructor
  · rintro ⟨r, hg, hr⟩
    exact ⟨r, hg, ThreadRow.pair_eq_some.mpr hr⟩
  · rintro ⟨r, hg, hr⟩
    exact ⟨r, hg, ThreadRow.pair_eq_some.mp hr⟩

theorem issued_heldPair : Issued next (fun db id t => heldPair db id = some t) ClaimOp.gives := by
  intro db op id t h
  rcases issued_next db op id t (holds_iff_heldPair.mpr h) with hb | hg
  · exact .inl (holds_iff_heldPair.mp hb)
  · exact .inr hg

theorem FreshLeases.fresh {ops : List ClaimOp} (h : FreshLeases ops) (h0 : NoClaims db) :
    Fresh heldPair ClaimOp.gives db ops :=
  ⟨h.gives_nodup, fun id t ht => absurd (holds_iff_heldPair.mpr ht) (h0.not_holds id t)⟩

theorem ThreadRow.Unclaimed.pair (h : r.Unclaimed) : r.pair = none := by
  unfold ThreadRow.pair
  rw [h.1]

theorem ThreadRow.Consistent.unclaimed (hr : r.Consistent) (h : r.pair = none) : r.Unclaimed := by
  cases ha : r.assigneeId with
  | none => exact hr.whole ha
  | some m =>
    obtain ⟨l, hl⟩ := hr.token m ha
    have hp : r.pair = some (m, l) := ThreadRow.pair_eq_some.mpr ⟨ha, hl⟩
    rw [hp] at h
    cases h

/-! ## 2. The bill -/

/-- **When the claim a row carries ended**, if `op` ended it: a lapsed claim at its deadline, any
other at the step's reading of the clock. -/
def claimEnd (r : ThreadRow) : ClaimOp → Int
  | .reap _ _ _ | .claimNext _ _ _ _ _ _ _ => r.assignmentExpiresAt.getD 0
  | .claim _ _ _ _ stamped => stamped
  | .assign _ _ _ _ ended _ => ended
  | .unassign _ ended => ended
  | .renew _ _ _ _ now => now
  | .acknowledge _ _ _ now => now
  | .release _ _ _ ended => ended
  | .releaseMember _ ended => ended
  | .freeze _ ended => ended
  | .land _ _ _ _ _ ended => ended
  | .cancel _ _ _ _ _ _ ended => ended
  | .escalate _ _ now => now

/-- The seconds the claim of `id` worked, if `op` ends it; `none` for one never acknowledged. -/
def workedAtEnd (db : Db) (op : ClaimOp) (id : ThreadId) : Option Int :=
  (db.threads.get? id).bind fun r => workedSecs r.workStartedAt (claimEnd r op)

/-- The claim of `id` that a step ends, with the seconds it worked. -/
def endsClaim (db : Db) (op : ClaimOp) (id : ThreadId) :
    Option ((MemberId × ClaimLeaseId) × Option Int) :=
  closes next heldPair workedAtEnd db op id

/-- The claims of `id` that a run ends, in order, with the seconds each worked. -/
def endedClaims (db : Db) (ops : List ClaimOp) (id : ThreadId) :
    List ((MemberId × ClaimLeaseId) × Option Int) :=
  ledger next heldPair workedAtEnd id db ops

/-- **No escalation drops worked seconds**: at the round cap, the thread's claim was not
acknowledged, or not a second ago. -/
def ClaimOp.dropsNoWork (db : Db) : ClaimOp → Bool
  | .escalate thread _ now =>
    match db.threads.get? thread with
    | none => true
    | some r => !roundCapReached db thread || charged r.workStartedAt now == 0
  | _ => true

/-- What ending the claim of `r` costs, where `r'` is the row afterwards. -/
def closingCharge (r r' : ThreadRow) (worked : Option Int) : Int :=
  match r.pair with
  | none => 0
  | some t => if r'.pair = some t then 0 else worked.getD 0

theorem closingCharge_kept (h : r'.pair = r.pair) : closingCharge r r' worked = 0 := by
  unfold closingCharge
  cases hp : r.pair with
  | none => rfl
  | some =>
    rw [h, hp]
    exact if_pos rfl

theorem closingCharge_gone (hr : r.Consistent) (h : ∀ t, r.pair = some t → r'.pair ≠ some t) :
    closingCharge r r' (workedSecs r.workStartedAt ended) = charged r.workStartedAt ended := by
  unfold closingCharge charged
  cases hp : r.pair with
  | none =>
    obtain ⟨_, _, _, _, hw⟩ := hr.unclaimed hp
    rw [hw]
    rfl
  | some t => exact if_neg (h t hp)

theorem closingCharge_cleared (hr : r.Consistent) (h : r'.Unclaimed) :
    closingCharge r r' (workedSecs r.workStartedAt ended) = charged r.workStartedAt ended := by
  refine closingCharge_gone hr fun t _ => ?_
  rw [h.pair]
  exact fun hn => by cases hn

/-! ## 3. What one step charges -/

theorem lapsedWorked_of_available (h : available r now = true) : (lapsedWorked r).getD 0 =
      if r.assigneeId = none then 0 else charged r.workStartedAt (r.assignmentExpiresAt.getD 0) := by
  unfold available at h
  unfold lapsedWorked lapsedClaim charged
  cases ha : r.assigneeId with
  | none => rfl
  | some =>
    cases he : r.assignmentExpiresAt with
    | none => simp [ha, he] at h
    | some => rfl

theorem ThreadRow.grantClaim_pair (r : ThreadRow) (m : MemberId) (expires : Option Int)
    (l : ClaimLeaseId) (stamped : Int) : (r.grantClaim m expires l stamped).pair = some (m, l) :=
  rfl

/-- **Each move charges the claim it closes, and nothing else.** -/
theorem RowMove.charge (h : RowMove db op r r' c) (hg : db.threads.get? r.id = some r)
    (hr : r.Consistent) (hok : op.dropsNoWork db = true)
    (hnew : ∀ t, r.pair = some t → op.gives ≠ some t) :
    c = closingCharge r r' (workedSecs r.workStartedAt (claimEnd r op)) := by
  -- a grant replaces the pair, because the lease it draws is new
  have hgrant : ∀ m expires l stamped, op.gives = some (m, l) →
      closingCharge r (r.grantClaim m expires l stamped)
        (workedSecs r.workStartedAt (claimEnd r op)) =
        charged r.workStartedAt (claimEnd r op) := by
    intro m expires l stamped hgives
    refine closingCharge_gone hr fun t ht hp => hnew t ht ?_
    rw [hgives, ← hp, ThreadRow.grantClaim_pair]
  have hcleared : closingCharge r r.clearClaim (workedSecs r.workStartedAt (claimEnd r op)) =
      charged r.workStartedAt (claimEnd r op) :=
    closingCharge_cleared hr r.unclaimed_clearClaim
  cases h with
  | keep => exact (closingCharge_kept rfl).symm
  | claim hfree =>
    rw [hgrant _ _ _ _ rfl]
    obtain ⟨_, _, _, _, hw⟩ := hr.whole hfree
    rw [hw]
    rfl
  | takeover hc =>
    rw [hgrant _ _ _ _ rfl, lapsedWorked_of_available (claimable_available (candidate_claimable hc))]
    by_cases ha : r.assigneeId = none
    · obtain ⟨_, _, _, _, hw⟩ := hr.whole ha
      rw [if_pos ha, hw]
      rfl
    · exact if_neg ha
  | assign => exact (hgrant _ _ _ _ rfl).symm
  | renew | acknowledge => exact (closingCharge_kept rfl).symm
  | unassign | release | releaseMember | freeze => exact hcleared.symm
  | reap hr' =>
    rw [hcleared]
    simp only [ThreadRow.reapable, Bool.and_eq_true] at hr'
    obtain ⟨⟨⟨ha, he⟩, _⟩, _⟩ := hr'
    obtain ⟨m, hm⟩ := isSome_iff_exists.mp ha
    cases hexp : r.assignmentExpiresAt with
    | none => simp [hexp] at he
    | some => simp [lapsedWorked, lapsedClaim, hm, hexp, charged, claimEnd]
  | land =>
    unfold ThreadRow.land
    split
    · exact (closingCharge_cleared hr r.unclaimed_clearClaim).symm
    · exact (closingCharge_kept rfl).symm
  | cancel => exact (closingCharge_cleared hr r.unclaimed_clearClaim).symm
  | escalate hcap =>
    rw [hcleared]
    simp only [ClaimOp.dropsNoWork, hg, hcap, Bool.not_true, Bool.false_or, beq_iff_eq] at hok
    exact hok.symm

/-- **One step charges the claim it ends, and a step that ends none charges nothing.** -/
theorem usedWall_next {id : ThreadId} (hcons : Consistent db) (hok : op.dropsNoWork db = true)
    (hnew : ∀ t, heldPair db id = some t → op.gives ≠ some t) : usedWall (next db op) id =
      usedWall db id + ((endsClaim db op id).map fun e => e.2.getD 0).getD 0 := by
  cases next_effect db op id with
  | absent hg hg' hw =>
    rw [hw]
    simp [endsClaim, closes, heldPair, hg]
  | moved hg hg' hm hw =>
    rename_i r r' c
    obtain rfl := Table.key_of_get? hg
    have hpair : heldPair db r.id = r.pair := by
      rw [heldPair, hg]
      rfl
    have hpair' : heldPair (next db op) r.id = r'.pair := by
      rw [heldPair, hg']
      rfl
    rw [hpair] at hnew
    rw [hw, hm.charge hg (hcons r.id r hg) hok hnew]
    unfold endsClaim closes closingCharge
    rw [hpair, hpair', workedAtEnd, hg]
    cases r.pair with
    | none => rfl
    | some t =>
      by_cases ht : r'.pair = some t
      · simp [ht]
      · simp [ht]

/-! ## 4. What a run charges -/

/-- **Wall time is conserved**, along every run of the claim operations with fresh leases, from a
table without claims, in which no escalation drops worked seconds:

1. each step adds the worked seconds of the claim it ends, and nothing when it ends none;
2. so the whole run adds the worked seconds of the claims it ended;
3. no claim is ended, and so charged, twice;
4. every claim that was held at some moment and is not held in the end was ended, and so charged. -/
theorem wall_time_conserved (db : Db) (ops : List ClaimOp) (id : ThreadId) (h0 : NoClaims db)
    (hfresh : FreshLeases ops)
    (hok : Meets next (fun db op => ClaimOp.dropsNoWork db op = true) db ops) :
    (∀ pre op post, ops = pre ++ op :: post →
      usedWall (exec next db (pre ++ [op])) id = usedWall (exec next db pre) id +
        ((endsClaim (exec next db pre) op id).map fun e => e.2.getD 0).getD 0) ∧
    usedWall (exec next db ops) id =
      usedWall db id + ((endedClaims db ops id).map fun e => e.2.getD 0).sum ∧
    ((endedClaims db ops id).map Prod.fst).Nodup ∧
    (∀ pre post pair, ops = pre ++ post → Holds (exec next db pre) id pair →
      ¬Holds (exec next db ops) id pair → pair ∈ (endedClaims db ops id).map Prod.fst) := by
  have hf := hfresh.fresh h0
  refine ⟨?_, ?_, ?_, ?_⟩
  · rintro pre op post rfl
    have hpre := hok.drop pre (op :: post)
    have hfpre := hf.drop issued_heldPair pre (op :: post)
    rw [exec_append]
    refine usedWall_next (consistent_exec pre h0.consistent) hpre.1 fun t ht hgives => ?_
    exact hfpre.2 id t ht (List.mem_filterMap.mpr ⟨op, List.mem_cons_self, hgives⟩)
  · exact exec_ledger (usedWall · id) (Option.getD · 0) issued_heldPair consistent_next
      (fun s a hs ha hn => usedWall_next hs ha hn) ops db h0.consistent hok hf
  · exact ledger_nodup issued_heldPair id ops db hf
  · rintro pre post pair rfl hheld hgone
    exact mem_ledger_of_gone pre post db (holds_iff_heldPair.mp hheld)
      fun h => hgone (holds_iff_heldPair.mpr h)

/-- The thread of `handoffDb` with two hours of wall time to spend. -/
def budgetDb : Db :=
  { handoffDb with threadBudgets := { rows := [{ threadId := ⟨1⟩, maxWallSecs := some 7200 }] } }

/-- A minute of work, handed over; then half a minute, released. -/
def workedOps : List ClaimOp :=
  [.claim ⟨1⟩ ⟨1⟩ ⟨10⟩ none 0, .acknowledge ⟨1⟩ ⟨1⟩ ⟨10⟩ 0,
   .assign ⟨1⟩ ⟨2⟩ ⟨11⟩ none (seconds 60) (seconds 60), .acknowledge ⟨1⟩ ⟨2⟩ ⟨11⟩ (seconds 70),
   .release ⟨1⟩ ⟨2⟩ ⟨11⟩ (seconds 100)]

theorem wall_time_conserved_worked :
    endedClaims budgetDb workedOps ⟨1⟩ = [((⟨1⟩, ⟨10⟩), some 60), ((⟨2⟩, ⟨11⟩), some 30)] ∧
    usedWall (exec next budgetDb workedOps) ⟨1⟩ =
      usedWall budgetDb ⟨1⟩ + ((endedClaims budgetDb workedOps ⟨1⟩).map fun e => e.2.getD 0).sum :=
  ⟨by decide, (wall_time_conserved budgetDb workedOps ⟨1⟩ (by decide) (by decide) (by decide)).2.1⟩

/-- A claim acknowledged at the epoch and sent back from review three times within the hour. -/
def escalatedOps : List ClaimOp :=
  [.claim ⟨1⟩ ⟨1⟩ ⟨10⟩ none 0, .acknowledge ⟨1⟩ ⟨1⟩ ⟨10⟩ 0,
   .land ⟨1⟩ ⟨1⟩ .inReview ⟨1⟩ (seconds 600) (seconds 600),
   .land ⟨1⟩ ⟨2⟩ .open ⟨2⟩ (seconds 1200) (seconds 1200),
   .land ⟨1⟩ ⟨1⟩ .inReview ⟨3⟩ (seconds 1800) (seconds 1800),
   .land ⟨1⟩ ⟨2⟩ .open ⟨4⟩ (seconds 2400) (seconds 2400),
   .land ⟨1⟩ ⟨1⟩ .inReview ⟨5⟩ (seconds 3000) (seconds 3000),
   .land ⟨1⟩ ⟨2⟩ .open ⟨6⟩ (seconds 3600) (seconds 3600),
   .escalate ⟨1⟩ ⟨1⟩ (seconds 3600)]

/-- **The third send-back makes an hour of work free.**  The claim has ended, an hour after it was
acknowledged, and nothing was charged. -/
theorem escalated_work_is_free :
    NoClaims budgetDb ∧ FreshLeases escalatedOps ∧
    endedClaims budgetDb escalatedOps ⟨1⟩ = [((⟨1⟩, ⟨10⟩), some 3600)] ∧
    usedWall (exec next budgetDb escalatedOps) ⟨1⟩ = 0 ∧
    usedWall (exec next budgetDb escalatedOps) ⟨1⟩ ≠ usedWall budgetDb ⟨1⟩ +
      ((endedClaims budgetDb escalatedOps ⟨1⟩).map fun e => e.2.getD 0).sum := by
  decide

/-! ## 5. A lapsed claim, ended by whichever step

A deadline passes without a step of its own: the row keeps its claim until something ends it.  The
reaper and a takeover charge the claim through its deadline.  Every other ending charges it through
its own reading of the clock, however long the deadline has passed by then. -/

/-- **The clock reading a step ends a claim at**; `none` for the two that end it at its deadline,
and for the steps that end no claim by charging it. -/
def ClaimOp.endReading : ClaimOp → Option Int
  | .assign _ _ _ _ ended _ => some ended
  | .unassign _ ended => some ended
  | .release _ _ _ ended => some ended
  | .releaseMember _ ended => some ended
  | .freeze _ ended => some ended
  | .land _ _ _ _ _ ended => some ended
  | .cancel _ _ _ _ _ _ ended => some ended
  | _ => none

/-- The round cap, which clears a claim without a charge. -/
def ClaimOp.isEscalation : ClaimOp → Bool
  | .escalate _ _ _ => true
  | _ => false

/-- **The charge of a step that ends a claim**, the round cap apart. -/
theorem RowMove.charge_of_ended (h : RowMove db op r r' c) (hesc : op.isEscalation = false)
    (hd : r.assignmentExpiresAt = some deadline) (hp : r.pair = some t) (hp' : r'.pair ≠ some t) :
    c = charged r.workStartedAt (op.endReading.getD deadline) := by
  have hm : r.assigneeId = some t.1 := (ThreadRow.pair_eq_some.mp hp).1
  have hlapsed : (lapsedWorked r).getD 0 = charged r.workStartedAt deadline := by
    simp [lapsedWorked, lapsedClaim, hm, hd, charged]
  cases h with
  | keep | renew | acknowledge => exact absurd hp hp'
  | claim hfree =>
    rw [hm] at hfree
    cases hfree
  | takeover | reap => exact hlapsed
  | assign | unassign | release | releaseMember | freeze | cancel => rfl
  | land =>
    -- a landing in a state that is not terminal keeps the claim
    unfold ThreadRow.land at hp'
    split at hp'
    · exact if_pos ‹_›
    · exact absurd hp hp'
  | escalate => cases hesc

/-- **A lapsed claim is charged through its deadline exactly when the step that ends it is the
reaper or a takeover, or reads the clock within the same second of work.** -/
theorem lapsed_charge_iff (db : Db) (op : ClaimOp) (r : ThreadRow) (started deadline : Int)
    (hesc : op.isEscalation = false) (hg : db.threads.get? r.id = some r)
    (hs : r.workStartedAt = some started) (hd : r.assignmentExpiresAt = some deadline)
    (hend : (endsClaim db op r.id).isSome) :
    usedWall (next db op) r.id = usedWall db r.id + max 0 (numSeconds (deadline - started)) ↔
      ∀ ended ∈ op.endReading,
        max 0 (numSeconds (ended - started)) = max 0 (numSeconds (deadline - started)) := by
  cases next_effect db op r.id with
  | absent hg' =>
    rw [hg] at hg'
    cases hg'
  | moved hg₀ hg' hm hw =>
    rename_i r₀ r' c
    obtain rfl : r = r₀ := mem_unique hg hg₀
    unfold endsClaim closes heldPair at hend
    rw [hg, hg', bind_some, bind_some] at hend
    cases hp : r.pair with
    | none =>
      rw [hp] at hend
      cases hend
    | some t =>
      have hp' : r'.pair ≠ some t := by
        intro hkept
        rw [hp, hkept] at hend
        simp at hend
      rw [hw, hm.charge_of_ended hesc hd hp hp', hs]
      cases op.endReading with
      | none | some => simp [charged, workedSecs]

/-- A minute's lease, acknowledged at once. -/
def lapsingOps : List ClaimOp :=
  [.claim ⟨1⟩ ⟨1⟩ ⟨10⟩ none 0, .renew ⟨1⟩ ⟨1⟩ ⟨10⟩ 60 0, .acknowledge ⟨1⟩ ⟨1⟩ ⟨10⟩ 0]

/-- The row of the thread under that lease. -/
def lapsingRow : ThreadRow :=
  { id := ⟨1⟩, channelId := ⟨1⟩, assigneeId := some ⟨1⟩, assignmentExpiresAt := some (seconds 60),
    claimLeaseId := some ⟨10⟩, claimedAt := some 0, workStartedAt := some 0 }

/-- A reaper that comes by 100 seconds late charges the minute. -/
theorem lapsed_charge_iff_reaped :
    let db := exec next budgetDb lapsingOps
    usedWall (next db (.reap {} (seconds 160) 10)) ⟨1⟩ = usedWall db ⟨1⟩ + 60 :=
  (lapsed_charge_iff (exec next budgetDb lapsingOps) (.reap {} (seconds 160) 10) lapsingRow 0
    (seconds 60) rfl (by decide) rfl rfl (by decide)).mpr (fun _ h => by cases h)

/-- **A holder that comes back 100 seconds late is charged for them too.** -/
theorem late_release_overcharged :
    let db := exec next budgetDb lapsingOps
    let released := ClaimOp.release ⟨1⟩ ⟨1⟩ ⟨10⟩ (seconds 160)
    db.threads.get? ⟨1⟩ = some lapsingRow ∧ (endsClaim db released ⟨1⟩).isSome ∧
    usedWall (next db released) ⟨1⟩ = usedWall db ⟨1⟩ + 160 ∧
    usedWall (next db released) ⟨1⟩ ≠ usedWall db ⟨1⟩ + max 0 (numSeconds (seconds 60 - 0)) := by
  decide

end Maidan
