/-
# The egress outbox: does a delivered row stay delivered, and how often is one posted?

Deliveries to Slack, GitHub and Linear wait in `maidan_egress_outbox`.  A worker claims the row that
has been due longest, which counts an attempt and pushes the row's due time one lease ahead, posts
it, and writes what came of it.  A claim is not a lock: it carries no token, and what a worker
writes later names the row by its id alone.

Both questions come down to what those writes look at.

* `mark_failed` does not look at the status.  `defer` does, and its doc says what for: "a row that
  was delivered or dead-lettered meanwhile is left alone".  So a worker that reports a failure after
  another has delivered the row brings it back (`delivered_stays_delivered`).
* The limit on attempts is looked at in `record_failure` and nowhere else.  A claim whose report is
  lost never gets there, and the next claim does not ask (`posts_le_maxAttempts`).

§1 is the store, §2 the workers, §3 and §4 the two answers.
-/
import Maidan.Lib.Run
import Maidan.Lib.Table
import Maidan.Types

namespace Maidan

open Relational Table Run

/-! ## 1. The store -/

structure EgressOutboxId where
  val : Nat
deriving DecidableEq, Repr

inductive EgressStatus
  | pending
  | delivered
  | dead
deriving DecidableEq, Repr

structure NewEgressOutbox where
  workspaceId : WorkspaceId
  sourceLogId : Int
  surface : String
  selector : String

/-- A row of `maidan_egress_outbox`. -/
structure EgressOutbox extends NewEgressOutbox where
  id : EgressOutboxId
  status : EgressStatus := .pending
  attempts : Nat := 0
  nextAttemptAt : Int

abbrev EgressDb := Table EgressOutbox.id

namespace EgressDb

variable (db : EgressDb) (id : EgressOutboxId)

/-- `enqueue`: one delivery per event and destination. -/
def enqueue (new : NewEgressOutbox) (now : Int) : EgressDb :=
  if db.rows.any fun row => row.sourceLogId = new.sourceLogId ∧ row.surface = new.surface ∧
      row.selector = new.selector then db
  else db.insertIgnore { new with id, nextAttemptAt := now }

/-- `claim_next_due`: the row as it is after the claim, and the table. -/
def claimNextDue (now lease : Int) : Option (EgressOutbox × EgressDb) :=
  let claimed (row : EgressOutbox) : EgressOutbox :=
    { row with attempts := row.attempts + 1, nextAttemptAt := now + lease }
  (firstBy EgressOutbox.nextAttemptAt (db.rows.filter fun row =>
    row.status = .pending ∧ row.nextAttemptAt ≤ now)).map fun row =>
      (claimed row, db.update row.id claimed)

def markDelivered : EgressDb :=
  db.update id fun row => { row with status := .delivered }

def markFailed : Option Int → EgressDb
  | some retryAt => db.update id fun row => { row with status := .pending, nextAttemptAt := retryAt }
  | none => db.update id fun row => { row with status := .dead }

def defer (till : Int) : EgressDb :=
  db.updateWhere (fun row => row.id = id ∧ row.status = .pending) fun row =>
    { row with attempts := row.attempts - 1, nextAttemptAt := till }

/-- Whether the `WHERE` of `requeue_dead` selects the row. -/
def requeues (workspace : WorkspaceId) (id : EgressOutboxId) (row : EgressOutbox) : Bool :=
  row.id = id ∧ row.status = .dead ∧ row.workspaceId = workspace

def requeueDead (workspace : WorkspaceId) (id : EgressOutboxId) (now : Int) : EgressDb :=
  db.updateWhere (requeues workspace id) fun row =>
    { row with status := .pending, attempts := 0, nextAttemptAt := now }

/-- **What a claim picks**: a row that is pending. -/
theorem claimNextDue_eq_some {db db' : EgressDb} {now lease : Int} {entry : EgressOutbox}
    (h : db.claimNextDue now lease = some (entry, db')) :
    ∃ row, db.get? entry.id = some row ∧ row.status = .pending ∧ entry.status = .pending ∧
      entry.attempts = row.attempts + 1 ∧
      ∀ id, db'.get? id = if id = entry.id then some entry else db.get? id := by
  obtain ⟨row, hrow, hpair⟩ := map_eq_some_iff.mp h
  cases hpair
  obtain ⟨hmem, hdue⟩ := List.mem_filter.mp (mem_of_firstBy hrow)
  have hget := get?_of_mem hmem
  have hpending := (of_decide_eq_true hdue).1
  refine ⟨row, hget, hpending, hpending, rfl, fun id => ?_⟩
  rw [get?_update]
  by_cases hid : id = row.id
  · subst hid
    rw [if_pos rfl, if_pos rfl, hget]
    rfl
  · rw [if_neg hid, if_neg hid]

theorem get?_enqueue (new : NewEgressOutbox) (now : Int) (k : EgressOutboxId) :
    (db.enqueue id new now).get? k = db.get? k ∨
      db.get? k = none ∧ ∃ row, (db.enqueue id new now).get? k = some row ∧ row.attempts = 0 := by
  unfold enqueue
  split
  · exact .inl rfl
  · cases hget : db.get? k <;> grind [get?_insertIgnore]

end EgressDb

/-! ## 2. The workers -/

/-- `MAX_ATTEMPTS`. -/
def maxAttempts : Nat := 8

/-- `LEASE_SECS`, as a duration. -/
def egressLease : Int := seconds 120

def backoffFor (attempts : Nat) : Int := seconds (min (30 * 2 ^ min (attempts - 1) 20) 3600)

/-- What `sweep_once` finds out about a delivery it has claimed.  The first three are found before
anything is posted: no sender can ever take it; it is held back (a suspended workspace, a spent
allowance, the retry budget) until some time; its branch delivery has not finished.  The others are
what `deliver` came to. -/
inductive Finding
  | undeliverable
  | heldBack (till : Int)
  | waiting
  | refused
  | landed
  | misconfigured
  | failed

/-- Whether finding it out took a call that may have posted the delivery. -/
def Finding.posted : Finding → Bool
  | .undeliverable | .heldBack _ | .waiting => false
  | .refused | .landed | .misconfigured | .failed => true

/-- The finding is written by `mark_failed`. -/
def Finding.fails : Finding → Bool
  | .undeliverable | .misconfigured | .failed => true
  | .heldBack _ | .waiting | .refused | .landed => false

/-- `record_failure`. -/
def EgressDb.recordFailure (db : EgressDb) (entry : EgressOutbox) (now : Int) : EgressDb :=
  if maxAttempts ≤ entry.attempts then db.markFailed entry.id none
  else db.markFailed entry.id (some (now + backoffFor entry.attempts))

/-- What `sweep_once` writes to the row. -/
def EgressDb.report (db : EgressDb) (entry : EgressOutbox) (now : Int) : Finding → EgressDb
  | .undeliverable | .misconfigured => db.markFailed entry.id none
  | .heldBack till => db.defer entry.id till
  | .waiting => db.defer entry.id (now + seconds 5)
  | .refused | .landed => db.markDelivered entry.id
  | .failed => db.recordFailure entry now

/-- A claim whose report is not written yet. -/
structure HeldClaim where
  entry : EgressOutbox
  finding : Option Finding := none

/-- The outbox and the workers over it.  `posts` counts, for each row, the calls since it was
enqueued or requeued that may have posted it. -/
structure Fleet where
  db : EgressDb := {}
  clock : Int := 0
  held : Nat → Option HeldClaim := fun _ => none
  posts : EgressOutboxId → Nat := fun _ => 0

/-- `lose`: the process stops, or the store call that would have written the report fails. -/
inductive FleetOp
  | enqueue (id : EgressOutboxId) (new : NewEgressOutbox)
  | claim (worker : Nat)
  | find (worker : Nat) (finding : Finding)
  | report (worker : Nat)
  | lose (worker : Nat)
  | requeueDead (workspace : WorkspaceId) (id : EgressOutboxId)
  | wait (d : Nat)

namespace Fleet

/-- A worker handles one row at a time, in the order claim, finding, report. -/
def next (s : Fleet) : FleetOp → Fleet
  | .enqueue id new => { s with db := s.db.enqueue id new s.clock }
  | .claim worker =>
    match s.held worker, s.db.claimNextDue s.clock egressLease with
    | none, some (entry, db) => { s with db, held := Function.update s.held worker (some { entry }) }
    | _, _ => s
  | .find worker finding =>
    match s.held worker with
    | some ⟨entry, none⟩ =>
      { s with
        held := Function.update s.held worker (some ⟨entry, some finding⟩)
        posts := if finding.posted then Function.update s.posts entry.id (s.posts entry.id + 1)
          else s.posts }
    | _ => s
  | .report worker =>
    match s.held worker with
    | some ⟨entry, some finding⟩ =>
      { s with
        db := s.db.report entry s.clock finding
        held := Function.update s.held worker none }
    | _ => s
  | .lose worker => { s with held := Function.update s.held worker none }
  | .requeueDead workspace id =>
    { s with
      db := s.db.requeueDead workspace id s.clock
      posts := if (s.db.get? id).any (EgressDb.requeues workspace id) then
          Function.update s.posts id 0 else s.posts }
  | .wait d => { s with clock := s.clock + d }

end Fleet

theorem EgressDb.get?_report_ne (db : EgressDb) {entry : EgressOutbox} {now : Int}
    {finding : Finding} {id : EgressOutboxId} (h : id ≠ entry.id) :
    (db.report entry now finding).get? id = db.get? id := by
  have hrow : ∀ row, db.get? id = some row → row.id ≠ entry.id := by
    intro row hget
    rwa [key_of_get? hget]
  cases finding <;> cases hget : db.get? id <;>
    grind [report, defer, recordFailure, markFailed, markDelivered, get?_update, get?_updateWhere]

/-- **What a report makes of its row.**  A delivered row is left so by what `mark_failed` does not
write.  A pending one that stays pending keeps its attempts, below the limit, or gets the attempt
back. -/
theorem EgressDb.get?_report_self {db : EgressDb} {entry row : EgressOutbox} (now : Int)
    (finding : Finding) (h : db.get? entry.id = some row) :
    ∃ row', (db.report entry now finding).get? entry.id = some row' ∧
      (row.status = .delivered → finding.fails = false → row'.status = .delivered) ∧
      (row.status = .pending → row'.status = .pending →
        if finding.posted then row'.attempts = row.attempts ∧ entry.attempts < maxAttempts
        else row'.attempts = row.attempts - 1) := by
  have hid := key_of_get? h
  cases finding with
  | heldBack | waiting =>
    by_cases hs : row.status = .pending <;>
      simp +contextual [report, defer, get?_updateWhere, h, hid, hs, Finding.posted]
  | undeliverable | misconfigured | refused | landed =>
    simp [report, markFailed, markDelivered, get?_update, h, Finding.fails]
  | failed =>
    by_cases hmax : maxAttempts ≤ entry.attempts <;>
      simp [report, recordFailure, markFailed, get?_update, h, hmax, Finding.fails, Finding.posted]
    omega

/-! ## 3. Does a delivered row stay delivered? -/

namespace Fleet

variable {s : Fleet} {op : FleetOp} {id : EgressOutboxId}

def Delivered (s : Fleet) (id : EgressOutboxId) : Prop :=
  (s.db.get? id).map EgressOutbox.status = some .delivered

/-- No failure is reported for a row that is delivered. -/
def NoLateFailure (s : Fleet) : FleetOp → Prop
  | .report worker => ∀ entry finding, s.held worker = some ⟨entry, some finding⟩ →
      finding.fails = true → ¬s.Delivered entry.id
  | _ => True

theorem Delivered.not_claimed {now lease : Int} {entry : EgressOutbox} {db : EgressDb}
    (h : s.Delivered id) (hclaim : s.db.claimNextDue now lease = some (entry, db)) :
    entry.id ≠ id := by
  rintro rfl
  obtain ⟨row, hget, hstatus⟩ := map_eq_some_iff.mp h
  obtain ⟨row', hget', hpending, -⟩ := EgressDb.claimNextDue_eq_some hclaim
  cases hget.symm.trans hget'
  cases hstatus.symm.trans hpending

theorem Delivered.next (h : s.Delivered id) (hop : s.NoLateFailure op) :
    (s.next op).Delivered id := by
  obtain ⟨row, hget, hstatus⟩ := map_eq_some_iff.mp h
  cases op with
  | enqueue k new =>
    rcases s.db.get?_enqueue k new s.clock id with hsame | ⟨hnone, -⟩
    · exact map_eq_some_iff.mpr ⟨row, hsame.trans hget, hstatus⟩
    · cases hget.symm.trans hnone
  | find =>
    simp only [Fleet.next]
    split <;> exact h
  | lose | wait => exact h
  | requeueDead =>
    refine map_eq_some_iff.mpr ⟨row, ?_, hstatus⟩
    simp [Fleet.next, EgressDb.requeueDead, get?_updateWhere, hget, EgressDb.requeues, hstatus]
  | claim =>
    simp only [Fleet.next]
    split
    · rename_i entry db _ hclaim
      obtain ⟨-, -, -, -, -, hdb⟩ := EgressDb.claimNextDue_eq_some hclaim
      exact map_eq_some_iff.mpr ⟨row, by rw [hdb, if_neg (h.not_claimed hclaim).symm, hget], hstatus⟩
    · exact h
  | report =>
    simp only [Fleet.next]
    split
    · rename_i entry finding hheld
      by_cases hid : id = entry.id
      · subst hid
        obtain ⟨row', hget', hkept, -⟩ := EgressDb.get?_report_self s.clock finding hget
        have hfails : finding.fails = false :=
          Bool.eq_false_iff.mpr fun hfails => hop entry finding hheld hfails h
        exact map_eq_some_iff.mpr ⟨row', hget', hkept hstatus hfails⟩
      · exact map_eq_some_iff.mpr ⟨row, by rw [EgressDb.get?_report_ne _ hid, hget], hstatus⟩
    · exact h

/-- **A delivered row stays delivered**, and no claim picks it, as long as no worker reports a
failure for a row that another has delivered. -/
theorem delivered_stays_delivered (ops : List FleetOp) (h : s.Delivered id)
    (hops : Meets Fleet.next NoLateFailure s ops) :
    (exec Fleet.next s ops).Delivered id ∧ ∀ now lease entry db,
        (exec Fleet.next s ops).db.claimNextDue now lease = some (entry, db) → entry.id ≠ id :=
  have hend := @exec_inv_of_meets _ _ _ NoLateFailure (Delivered · id)
    (fun _ _ hs hok => Delivered.next hs hok) ops s h hops
  ⟨hend, fun _ _ _ _ => hend.not_claimed⟩

/-- One row, claimed by worker 0 and, a lease later, by worker 1, who delivers it before worker 0
has its finding. -/
def deliveredMeanwhile (finding : Finding) : Fleet :=
  exec Fleet.next {} [.enqueue ⟨1⟩ ⟨⟨1⟩, 1, "slack", "C1"⟩, .claim 0, .wait 120000000000, .claim 1,
    .find 1 .landed, .report 1, .find 0 finding]

theorem delivered_stays_delivered_late_deferral :
    (exec Fleet.next (deliveredMeanwhile .waiting) [.report 0]).Delivered ⟨1⟩ := by
  have hstart : (deliveredMeanwhile .waiting).Delivered ⟨1⟩ := rfl
  refine (delivered_stays_delivered [.report 0] hstart ⟨?_, trivial⟩).1
  intro entry finding hheld hfails
  cases hheld
  cases hfails

/-- **The failure reported late.**  The row is pending again, and is claimed and posted once
more. -/
theorem late_failure_reopens_delivered :
    (deliveredMeanwhile .failed).Delivered ⟨1⟩ ∧
      ¬(exec Fleet.next (deliveredMeanwhile .failed) [.report 0]).Delivered ⟨1⟩ ∧
      (exec Fleet.next (deliveredMeanwhile .failed) [.report 0, .wait 30000000000, .claim 1,
        .find 1 .landed]).posts ⟨1⟩ = 3 := by
  refine ⟨rfl, ?_, rfl⟩
  unfold Delivered
  decide

/-! ## 4. How often is a row posted? -/

/-- A claim picks no row that a worker still holds, and no claim that counted the last attempt is
lost. -/
def Accounted (s : Fleet) : FleetOp → Prop
  | .claim _ => ∀ entry db, s.db.claimNextDue s.clock egressLease = some (entry, db) →
      ∀ worker claim, s.held worker = some claim → claim.entry.id ≠ entry.id
  | .lose worker => ∀ claim, s.held worker = some claim → claim.entry.attempts < maxAttempts
  | _ => True

/-- The claim's try has not been used. -/
def unused (claim : HeldClaim) : Nat := if claim.finding.any Finding.posted then 0 else 1

/-- **Every post is paid for by an attempt.**  A pending row that no worker holds has attempts left;
one that is held has as many as its worker read at the claim, the unused one among them. -/
structure Paid (s : Fleet) : Prop where
  bounded : ∀ id, s.posts id ≤ maxAttempts
  absent : ∀ id, s.db.get? id = none → s.posts id = 0
  free : ∀ id row, s.db.get? id = some row → row.status = .pending →
    (∀ worker claim, s.held worker = some claim → claim.entry.id ≠ id) →
    s.posts id ≤ row.attempts ∧ row.attempts < maxAttempts
  held : ∀ worker claim, s.held worker = some claim →
    ∃ row, s.db.get? claim.entry.id = some row ∧ row.status = .pending ∧
      row.attempts = claim.entry.attempts ∧ row.attempts ≤ maxAttempts ∧
      s.posts claim.entry.id + unused claim ≤ row.attempts
  apart : ∀ worker worker' claim claim', s.held worker = some claim → s.held worker' = some claim' →
    claim.entry.id = claim'.entry.id → worker = worker'

theorem Paid.next (h : s.Paid) (hop : s.Accounted op) : (s.next op).Paid := by
  cases op with
  | wait => exact ⟨h.bounded, h.absent, h.free, h.held, h.apart⟩
  | enqueue k new =>
    have hget := s.db.get?_enqueue k new s.clock
    obtain ⟨hbounded, habsent, hfree, hheld, hapart⟩ := h
    refine ⟨hbounded, ?_, ?_, ?_, hapart⟩ <;> simp only [Fleet.next] <;> grind [maxAttempts]
  | lose =>
    obtain ⟨hbounded, habsent, hfree, hheld, hapart⟩ := h
    refine ⟨hbounded, habsent, ?_, ?_, ?_⟩ <;> simp only [Fleet.next, Function.update_apply] <;>
      grind [Accounted]
  | claim worker =>
    simp only [Fleet.next]
    split
    · rename_i entry db hnone hclaim
      obtain ⟨row, hget, hpending, hentry, hattempts, hdb⟩ := EgressDb.claimNextDue_eq_some hclaim
      have hne := hop entry db hclaim
      obtain ⟨hbounded, habsent, hfree, hheld, hapart⟩ := h
      refine ⟨hbounded, ?_, fun id row hrow hp hothers => ?_, ?_, ?_⟩
      case refine_2 =>
        have hself := hothers worker _ (Function.update_self ..)
        refine hfree id row (by grind) hp fun w c hw => hothers w c ?_
        exact (Function.update_of_ne (by grind) _ _).trans hw
      all_goals
        grind [unused]
    · exact h
  | find =>
    simp only [Fleet.next]
    split
    · obtain ⟨hbounded, habsent, hfree, hheld, hapart⟩ := h
      refine ⟨?_, ?_, ?_, ?_, ?_⟩ <;> simp only [Function.update_apply] <;>
        grind [unused, Function.update_apply]
    · exact h
  | report worker =>
    simp only [Fleet.next]
    split
    · rename_i entry finding hclaim
      obtain ⟨hbounded, habsent, hfree, hheld, hapart⟩ := h
      obtain ⟨row, hget, hpending, hattempts, hle, hposts⟩ := hheld worker _ hclaim
      obtain ⟨row', hget', -, hrow'⟩ := EgressDb.get?_report_self s.clock finding hget
      have hne := fun id => @EgressDb.get?_report_ne s.db entry s.clock finding id
      refine ⟨hbounded, by grind, fun id row hrow hp hothers => ?_, ?_, ?_⟩
      case refine_1 =>
        by_cases hid : id = entry.id
        · grind [unused]
        · refine hfree id row (by grind) hp fun w c hw => ?_
          by_cases hw' : w = worker
          · grind
          · exact hothers w c ((Function.update_of_ne hw' _ _).trans hw)
      all_goals
        grind
    · exact h
  | requeueDead =>
    obtain ⟨hbounded, habsent, hfree, hheld, hapart⟩ := h
    have hkey := fun id row => @Table.key_of_get? _ _ _ _ s.db id row
    refine ⟨?_, ?_, ?_, ?_, hapart⟩ <;>
      simp only [Fleet.next, EgressDb.requeueDead, get?_updateWhere] <;>
      grind [maxAttempts, EgressDb.requeues, Function.update_apply, Option.map_eq_none_iff,
        map_eq_some_iff, Option.any_eq_true]

/-- **At most `MAX_ATTEMPTS` posts of one row**, from its enqueue or requeue on, in every run in
which a claim finds no row still held and no claim at the limit is lost. -/
theorem posts_le_maxAttempts (clock : Int) (ops : List FleetOp)
    (h : Meets Fleet.next Accounted { clock } ops) (id : EgressOutboxId) :
    (exec Fleet.next { clock } ops).posts id ≤ maxAttempts :=
  have hstart : Paid { clock } := by
    constructor <;> simp [Table.get?]
  (exec_inv_of_meets (fun _ _ => Paid.next) ops _ hstart h).bounded id

theorem posts_le_maxAttempts_one_lost :
    (exec Fleet.next {} [.enqueue ⟨1⟩ ⟨⟨1⟩, 1, "slack", "C1"⟩, .claim 0, .find 0 .landed,
      .lose 0]).posts ⟨1⟩ ≤ maxAttempts := by
  refine posts_le_maxAttempts 0 _ ?_ _
  refine ⟨trivial, ?_, trivial, ?_, trivial⟩
  · intro entry db _ worker claim hheld
    cases hheld
  · intro claim hheld
    cases hheld
    decide

/-- **Nine posts.**  Each time the post lands and the write that should say so is lost. -/
theorem lost_reports_post_again : (exec Fleet.next {} (.enqueue ⟨1⟩ ⟨⟨1⟩, 1, "slack", "C1"⟩ ::
      (List.replicate (maxAttempts + 1)
        [.claim 0, .find 0 .landed, .lose 0, .wait 120000000000]).flatten)).posts ⟨1⟩ =
      maxAttempts + 1 := by
  rfl

end Fleet

end Maidan
