/-
# What one claim operation can do to a thread

The claim operations as ONE step function on the database, and the inversion lemma every
invariant over runs is derived from.

`RowMove op row row' charged` lists, constructor by constructor, what `op` can do to a single
thread row and how many seconds of wall time it charges the thread for it.  `step_committed` says
that a committed step moves EVERY row of the table by a `RowMove` of that very operation -- most
of them by `keep` -- and moves the thread's used wall time by exactly the seconds the move
charges.  No later proof opens an operation again.

The loops are in the operations, not in the relation: `release_member_claims_in_tx` and the reaper
visit each thread once because a primary key names each thread once.
-/
import Maidan.Claim.Landing

namespace Maidan

open Relational Table Run List

/-! ## 1. Frames -/

variable (db : Db) (thread : ThreadId)

@[simp] theorem Db.chargeWall_none : db.chargeWall thread none = db :=
  rfl

@[simp] theorem Db.chargeWall_threads (worked : Option Int) :
    (db.chargeWall thread worked).threads = db.threads := rfl

@[simp] theorem Db.setThread_threads (id : ThreadId) (f : ThreadRow → ThreadRow)
    (hf : ∀ r, (f r).id = r.id) : (db.setThread id f hf).threads = db.threads.update id f hf := rfl

theorem usedWall_congr {db db' : Db} (h : db'.threadBudgets = db.threadBudgets) (id : ThreadId) :
    usedWall db' id = usedWall db id := by
  unfold usedWall
  rw [h]

/-- **The worker record touches one table.** -/
theorem recordInTx_frame (member : MemberId) (attribution : Option Attribution) :
    recordInTx db thread member attribution =
      { db with threadWorkers := (recordInTx db thread member attribution).threadWorkers } := by
  unfold recordInTx
  cases delegateActingFor attribution member <;> rfl

@[simp] theorem recordInTx_threads (member : MemberId) (attribution : Option Attribution) :
    (recordInTx db thread member attribution).threads = db.threads := by
  rw [recordInTx_frame]

/-- The seconds a row's lapsed claim is charged: up to its deadline. -/
def lapsedWorked (row : ThreadRow) : Option Int :=
  match lapsedClaim row with
  | none => none
  | some (_, deadline, started) => workedSecs started deadline

theorem endLapsedClaimInTx_fst (deadline : Int) (started : Option Int) :
    (endLapsedClaimInTx db thread deadline started).1 =
      db.chargeWall thread (workedSecs started deadline) := by
  unfold endLapsedClaimInTx
  dsimp only
  split <;> rfl

theorem endLapsedOf_eq (row : ThreadRow) :
    endLapsedOf db row = db.chargeWall row.id (lapsedWorked row) := by
  unfold endLapsedOf lapsedWorked
  cases lapsedClaim row with
  | none => rfl
  | some claim => exact endLapsedClaimInTx_fst db row.id claim.2.1 claim.2.2

/-! ## 2. The operations -/

/-- **The claim operations**, each with its arguments, the clock readings it makes and the fresh
ids it draws. -/
inductive ClaimOp
  | claim (thread : ThreadId) (member : MemberId) (lease : ClaimLeaseId)
      (attribution : Option Attribution) (stamped : Int)
  | claimNext (grace : ClaimGrace) (ask : ClaimAsk) (leaseSecs : Option Int)
      (lease : ClaimLeaseId) (attribution : Option Attribution) (clock dbNow : Int)
  | assign (thread : ThreadId) (assignee : MemberId) (lease : ClaimLeaseId)
      (attribution : Option Attribution) (ended stamped : Int)
  | unassign (thread : ThreadId) (ended : Int)
  | renew (thread : ThreadId) (member : MemberId) (lease : ClaimLeaseId) (leaseSecs now : Int)
  | acknowledge (thread : ThreadId) (member : MemberId) (lease : ClaimLeaseId) (now : Int)
  | release (thread : ThreadId) (member : MemberId) (lease : ClaimLeaseId) (ended : Int)
  | reap (grace : ClaimGrace) (now limit : Int)
  | releaseMember (member : MemberId) (ended : Int)
  | freeze (member : MemberId) (ended : Int)
  | land (thread : ThreadId) (actor : MemberId) (toState : ThreadState)
      (transition : TransitionId) (now ended : Int)
  | cancel (thread : ThreadId) (actor : MemberId) (reason : String) (authority : CancelAuthority)
      (transition : TransitionId) (now ended : Int)
  | escalate (thread : ThreadId) (gate : GateId) (now : Int)

/-- One committed transaction. -/
def step (db : Db) : ClaimOp → Except StoreError Db
  | .claim thread member lease attribution stamped =>
    (claim db thread member lease attribution stamped).map Prod.fst
  | .claimNext grace ask leaseSecs lease attribution clock dbNow =>
    .ok (claimNext db grace ask leaseSecs lease attribution clock dbNow).1
  | .assign thread assignee lease attribution ended stamped =>
    assign db thread assignee lease attribution ended stamped
  | .unassign thread ended => unassign db thread ended
  | .renew thread member lease leaseSecs now => renewClaim db thread member lease leaseSecs now
  | .acknowledge thread member lease now => acknowledgeClaim db thread member lease now
  | .release thread member lease ended => releaseClaim db thread member lease ended
  | .reap grace now limit => reapExpiredClaims db grace now limit
  | .releaseMember member ended => .ok (releaseMemberClaimsInTx db member ended)
  | .freeze member ended => freezeOn db member ended
  | .land thread actor toState transition now ended =>
    match db.threads.get? thread with
    | none => .error .notFound
    | some row => landInTx db row actor toState transition now ended
  | .cancel thread actor reason authority transition now ended =>
    (cancelInTx db thread actor reason authority transition now ended).map Prod.fst
  | .escalate thread gate _ => escalateRoundCap db thread gate

/-- The step with its rollback: a failed transaction changes no row. -/
def next (op : ClaimOp) : Db := settle db (step db op)

/-- The pair an operation gives a thread to: the member it is for and the fencing token it
draws. -/
def ClaimOp.gives : ClaimOp → Option (MemberId × ClaimLeaseId)
  | .claim _ member lease _ _ => some (member, lease)
  | .claimNext _ ask _ lease _ _ _ => some (ask.member, lease)
  | .assign _ assignee lease _ _ _ => some (assignee, lease)
  | _ => none

/-- The fencing token an operation draws. -/
def ClaimOp.issues (op : ClaimOp) : Option ClaimLeaseId := op.gives.map Prod.snd

/-- The seconds charged for a claim acknowledged at `started` that ends at `ended`. -/
def charged (started : Option Int) (ended : Int) : Int := (workedSecs started ended).getD 0

/-- **What `op` can do to one thread row**, taken in state `db`, and the seconds it charges the
thread. -/
inductive RowMove (db : Db) : ClaimOp → ThreadRow → ThreadRow → Int → Prop
  | keep {op r} : RowMove db op r r 0
  | claim {member lease attribution stamped r} (hfree : r.assigneeId = none) :
      RowMove db (.claim r.id member lease attribution stamped) r
        (r.grantClaim member none lease stamped) 0
  | takeover {grace ask leaseSecs lease attribution clock dbNow r}
      (hc : candidate db ask (ClaimGrace.leaseClock grace (truncateMicros clock))
        (truncateMicros clock) r = true) :
      RowMove db (.claimNext grace ask leaseSecs lease attribution clock dbNow) r
        (r.grantClaim ask.member
          (leaseSecs.map fun s => truncateMicros (truncateMicros clock) + seconds s) lease
          (truncateMicros (truncateMicros clock)))
        ((lapsedWorked r).getD 0)
  | assign {assignee lease attribution ended stamped r} :
      RowMove db (.assign r.id assignee lease attribution ended stamped) r
        (r.grantClaim assignee none lease stamped) (charged r.workStartedAt ended)
  | unassign {ended r} :
      RowMove db (.unassign r.id ended) r r.clearClaim (charged r.workStartedAt ended)
  | renew {member lease leaseSecs now r} (hf : r.fenced member lease = true) :
      RowMove db (.renew r.id member lease leaseSecs now) r
        { r with assignmentExpiresAt := some (now + seconds leaseSecs) } 0
  | acknowledge {member lease now r} (hf : r.fenced member lease = true) :
      RowMove db (.acknowledge r.id member lease now) r
        { r with workStartedAt := r.workStartedAt.or (some now) } 0
  | release {member lease ended r} (hf : r.fenced member lease = true) :
      RowMove db (.release r.id member lease ended) r r.clearClaim (charged r.workStartedAt ended)
  | reap {grace now limit r} (hr : r.reapable now = true) :
      RowMove db (.reap grace now limit) r r.clearClaim ((lapsedWorked r).getD 0)
  | releaseMember {member ended r} (hh : r.heldLiveBy member = true) :
      RowMove db (.releaseMember member ended) r r.clearClaim (charged r.workStartedAt ended)
  | freeze {member ended r} (hh : r.heldLiveBy member = true) :
      RowMove db (.freeze member ended) r r.clearClaim (charged r.workStartedAt ended)
  | land {actor toState transition now ended r} :
      RowMove db (.land r.id actor toState transition now ended) r (r.land toState)
        (if toState.isTerminal then charged r.workStartedAt ended else 0)
  | cancel {actor reason authority transition now ended r} :
      RowMove db (.cancel r.id actor reason authority transition now ended) r
        (r.land .closed) (charged r.workStartedAt ended)
  | escalate {gate now r} (hcap : roundCapReached db r.id = true) :
      RowMove db (.escalate r.id gate now) r r.clearClaim 0

/-- **The effect of `op` on thread `id`**: its row makes a `RowMove` and its used wall time moves
by what that charges; a thread that is not there stays so. -/
inductive Effect (op : ClaimOp) (db db' : Db) (id : ThreadId) : Prop
  | absent (h : db.threads.get? id = none) (h' : db'.threads.get? id = none)
      (hw : usedWall db' id = usedWall db id)
  | moved {r r' : ThreadRow} {c : Int} (h : db.threads.get? id = some r)
      (h' : db'.threads.get? id = some r') (hm : RowMove db op r r' c)
      (hw : usedWall db' id = usedWall db id + c)

/-- The row is where it was in the tree. -/
def ThreadRow.SamePlace (r r' : ThreadRow) : Prop :=
  r'.channelId = r.channelId ∧ r'.parentThreadId = r.parentThreadId ∧
    r'.tombstonedAt = r.tombstonedAt

theorem ThreadRow.SamePlace.refl (r : ThreadRow) : r.SamePlace r := ⟨rfl, rfl, rfl⟩

theorem ThreadRow.SamePlace.land (r : ThreadRow) (toState : ThreadState) :
    r.SamePlace (r.land toState) := by
  unfold ThreadRow.land
  split
  · exact ⟨rfl, rfl, rfl⟩
  · exact ⟨rfl, rfl, rfl⟩

theorem RowMove.samePlace {db : Db} {charge : Int} (h : RowMove db op r r' charge) : r.SamePlace r' := by
  cases h with
  | keep | claim | takeover | assign | unassign | renew | acknowledge | release | reap
  | releaseMember | freeze | escalate => exact ⟨rfl, rfl, rfl⟩
  | land | cancel => exact .land _ _

/-- **The tables a claim operation may write.**  Every other table is as it was. -/
def ClaimFrame (db db' : Db) : Prop :=
  db' = { db with
    threads := db'.threads, threadWorkers := db'.threadWorkers,
    threadBudgets := db'.threadBudgets, memberFreezes := db'.memberFreezes,
    approvalGates := db'.approvalGates, threadUnclaimable := db'.threadUnclaimable,
    threadTransitions := db'.threadTransitions, threadCancellations := db'.threadCancellations }

/-- **Of the budgets only wall time was charged.** -/
inductive WallCharged : Db → Db → Prop
  | same {db db' : Db} (h : db'.threadBudgets = db.threadBudgets) : WallCharged db db'
  | charge {db db1 db' : Db} (id : ThreadId) (worked : Option Int)
      (h : db1.threadBudgets = (db.chargeWall id worked).threadBudgets) (rest : WallCharged db1 db') :
      WallCharged db db'

/-- **What a committed step leaves**: it stays inside the frame, writes the ledger of workers only
where it gives a thread away, charges wall time only, and moves every thread by a `RowMove`. -/
structure Committed (op : ClaimOp) (db db' : Db) : Prop where
  frame : ClaimFrame db db'
  workers : op.gives = none → db'.threadWorkers = db.threadWorkers
  budgets : WallCharged db db'
  effect : ∀ id, Effect op db db' id

/-! ## 3. One lemma per operation -/

variable {op : ClaimOp} {thread id : ThreadId} {row : ThreadRow} {member actor : MemberId}
  {lease : ClaimLeaseId} {attribution : Option Attribution} {stamped ended now : Int}
  {toState : ThreadState} {transition : TransitionId} {reason : String}
  {authority : CancelAuthority} {outcome : CancelOutcome}

theorem effect_of_same_get {db db' : Db} (ht : ∀ id, db'.threads.get? id = db.threads.get? id)
    (hw : ∀ id, usedWall db' id = usedWall db id) (id : ThreadId) : Effect op db db' id := by
  cases hg : db.threads.get? id with
  | none => exact .absent hg ((ht id).trans hg) (hw id)
  | some => exact .moved hg ((ht id).trans hg) .keep (by rw [hw, Int.add_zero])

theorem Committed.refl (op : ClaimOp) (db : Db) : Committed op db db where
  frame := rfl
  workers := fun _ => rfl
  budgets := .same rfl
  effect := effect_of_same_get (fun _ => rfl) fun _ => rfl

/-- A step that rewrites the one thread `r` by `f` and charges it `worked`. -/
theorem Committed.of_update {db db' : Db} {f : ThreadRow → ThreadRow} (hf : ∀ r, (f r).id = r.id)
    (worked : Option Int) (hr : db.threads.get? r.id = some r)
    (ht : db'.threads = db.threads.update r.id f hf)
    (hb : db'.threadBudgets = (db.chargeWall r.id worked).threadBudgets) (hframe : ClaimFrame db db')
    (hworkers : op.gives = none → db'.threadWorkers = db.threadWorkers)
    (hm : RowMove db op r (f r) (worked.getD 0)) : Committed op db db' := by
  refine ⟨hframe, hworkers, .charge _ _ hb (.same rfl), fun id => ?_⟩
  have hget : db'.threads.get? id = if id = r.id then (db.threads.get? id).map f
      else db.threads.get? id := by
    rw [ht, get?_update]
  have hwall : usedWall db' id = usedWall db id + if id = r.id then worked.getD 0 else 0 := by
    rw [usedWall_congr hb, usedWall_chargeWall]
  by_cases hid : id = r.id
  · subst hid
    rw [if_pos rfl] at hget hwall
    exact .moved hr (by rw [hget, hr]; rfl) hm hwall
  · rw [if_neg hid] at hget hwall
    cases hg : db.threads.get? id with
    | none => exact .absent hg (by rw [hget, hg]) (by rw [hwall, Int.add_zero])
    | some => exact .moved hg (by rw [hget, hg]) .keep hwall

section Operations

variable {db db' : Db}

theorem get?_self (h : db.threads.get? thread = some row) : thread = row.id := (key_of_get? h).symm

/-- **`claim`** leaves the table alone, or gives a free thread away. -/
theorem claim_cases (h : claim db thread member lease attribution stamped = .ok (db', flag)) :
    db' = db ∨ ∃ row, db.threads.get? thread = some row ∧ row.assigneeId = none ∧
      db' = recordInTx (db.setThread thread (·.grantClaim member none lease stamped)
        (ThreadRow.grantClaim_id member none lease stamped)) thread member attribution := by
  obtain ⟨_, _, h⟩ := bind_ok h
  obtain ⟨_, _, h⟩ := bind_ok h
  cases hg : db.threads.get? thread with
  | none => simp [hg] at h
  | some row =>
    simp only [hg] at h
    split at h
    · rename_i hfree
      obtain ⟨_, _, h⟩ := bind_ok h
      simp only [Bool.and_eq_true, isNone_iff_eq_none] at hfree
      refine .inr ⟨row, rfl, hfree.1.1, ?_⟩
      injection h with h
      exact (Prod.mk.inj h).1.symm
    · injection h with h
      exact .inl (Prod.mk.inj h).1.symm

/-- **`assign`** charges the claim it replaces and gives the thread away. -/
theorem assign_spec (h : assign db thread assignee lease attribution ended stamped = .ok db') :
    ∃ row, db.threads.get? thread = some row ∧
      db' = recordInTx ((db.chargeWall thread (workedSecs row.workStartedAt ended)).setThread
        thread (·.grantClaim assignee none lease stamped)
        (ThreadRow.grantClaim_id assignee none lease stamped)) thread assignee attribution := by
  obtain ⟨_, _, h⟩ := bind_ok h
  obtain ⟨_, _, h⟩ := bind_ok h
  obtain ⟨db1, hc, h⟩ := bind_ok h
  obtain ⟨row, hg, rfl⟩ := chargeOpenClaimInTx_eq_ok.mp hc
  simp only [Db.chargeWall_threads, hg] at h
  split at h
  · injection h with h
    exact ⟨row, hg, h.symm⟩
  · cases h

theorem unassign_spec (h : unassign db thread ended = .ok db') :
    ∃ row, db.threads.get? thread = some row ∧
      db' = (db.chargeWall thread (workedSecs row.workStartedAt ended)).setThread thread
        ThreadRow.clearClaim ThreadRow.clearClaim_id := by
  obtain ⟨db1, hc, h⟩ := bind_ok h
  obtain ⟨row, hg, rfl⟩ := chargeOpenClaimInTx_eq_ok.mp hc
  injection h with h
  exact ⟨row, hg, h.symm⟩

theorem insertTransition_spec {row : TransitionRow} (h : db.insertTransition row = .ok db') :
    db' = { db with threadTransitions := db'.threadTransitions } ∧
      db'.threadTransitions.rows = db.threadTransitions.rows ++ [row] := by
  unfold Db.insertTransition at h
  split at h
  · cases h
  rename_i transitions hins
  injection h with h
  rw [← h]
  exact ⟨rfl, Table.rows_of_insert? hins⟩

/-- **`land_in_tx`** moves the state, and on a terminal state charges and clears the claim. -/
theorem landInTx_spec (hrow : db.threads.get? row.id = some row)
    (h : landInTx db row actor toState transition now ended = .ok db') :
    parentCheck db row toState = .ok () ∧
    ∃ transitions : Table TransitionRow.id, transitions.rows =
        db.threadTransitions.rows ++ [landingRow db row actor toState transition now] ∧
      db' = (({ db with threadTransitions := transitions }).chargeWall row.id
        (if toState.isTerminal then workedSecs row.workStartedAt ended else none)).setThread row.id
          (·.land toState) (ThreadRow.land_id toState) := by
  obtain ⟨_, hp, h⟩ := bind_ok h
  obtain ⟨db1, ht, h⟩ := bind_ok h
  obtain ⟨db2, hc, h⟩ := bind_ok h
  obtain ⟨hframe, hrows⟩ := insertTransition_spec ht
  injection h with h
  refine ⟨hp, db1.threadTransitions, hrows, ?_⟩
  rw [← hframe, ← h]
  unfold chargeIfTerminal at hc
  split at hc
  · rename_i hterm
    obtain ⟨row', hg, rfl⟩ := chargeOpenClaimInTx_eq_ok.mp hc
    rw [hframe] at hg
    have hrr : row = row' := mem_unique hrow hg
    rw [if_pos hterm, hrr]
  · rename_i hterm
    injection hc with hc
    rw [if_neg hterm, ← hc, Db.chargeWall_none]

section

variable (h : cancelInTx db thread actor reason authority transition now ended = .ok (db', outcome))
include h

/-- **`cancel_in_tx`** refuses and changes nothing, or finds the thread unfinished and cancels it. -/
theorem cancelInTx_eq_ok : (db' = db ∧ outcome ≠ .cancelled) ∨
    ∃ row db1 entry, db.threads.get? thread = some row ∧ row.state.isTerminal = false ∧
      outcome = .cancelled ∧ entry.threadId = thread ∧ db.insertTransition entry = .ok db1 ∧
      db' = { (db1.chargeWall thread (workedSecs row.workStartedAt ended)).setThread thread
          (·.land .closed) (ThreadRow.land_id .closed) with
        threadUnclaimable := db1.threadUnclaimable.upsert { threadId := thread, reason := reason }
          (fun u => { u with reason := reason }),
        threadCancellations := db1.threadCancellations.insertIgnore { threadId := thread } } := by
  unfold cancelInTx at h
  cases hg : db.threads.get? thread with
  | none => simp [hg] at h
  | some row =>
    simp only [hg] at h
    split at h
    · cases h
    split at h
    · cases h
      exact .inl ⟨rfl, by simp⟩
    split at h
    · cases h
      exact .inl ⟨rfl, by simp⟩
    split at h
    · cases h
      exact .inl ⟨rfl, by simp⟩
    · rename_i hopen
      obtain ⟨db1, ht, h⟩ := bind_ok h
      obtain ⟨db2, hc, h⟩ := bind_ok h
      obtain ⟨row', hg', rfl⟩ := chargeOpenClaimInTx_eq_ok.mp hc
      rw [(insertTransition_spec ht).1] at hg'
      obtain rfl : row = row' := mem_unique hg hg'
      cases h
      exact .inr ⟨row, db1, _, rfl, by simpa using hopen, rfl, rfl, ht, rfl⟩

/-- **`cancel_in_tx`** changes nothing, or closes the thread and charges and clears its claim. -/
theorem cancelInTx_cases : db' = db ∨ ∃ row, db.threads.get? thread = some row ∧
      db'.threads = db.threads.update thread (·.land .closed) (ThreadRow.land_id .closed) ∧
      db'.threadBudgets =
        (db.chargeWall thread (workedSecs row.workStartedAt ended)).threadBudgets ∧
      db' = { db with
        threads := db'.threads, threadBudgets := db'.threadBudgets,
        threadTransitions := db'.threadTransitions, threadUnclaimable := db'.threadUnclaimable,
        threadCancellations := db'.threadCancellations } := by
  rcases cancelInTx_eq_ok h with ⟨hsame, -⟩ | ⟨row, db1, entry, hg, -, -, -, ht, rfl⟩
  · exact .inl hsame
  · rw [(insertTransition_spec ht).1]
    exact .inr ⟨row, hg, rfl, rfl, rfl⟩

/-- **A cancel is about its thread**: another one's mark, budget and transitions are as they were. -/
theorem cancelInTx_others (hid : id ≠ thread) :
    db'.threadUnclaimable.get? id = db.threadUnclaimable.get? id ∧
      db'.threadBudgets.get? id = db.threadBudgets.get? id ∧
      ∀ tr ∈ db'.threadTransitions.rows, tr.threadId = id → tr ∈ db.threadTransitions.rows := by
  rcases cancelInTx_eq_ok h with ⟨rfl, -⟩ | ⟨row, db1, entry, -, -, -, hentry, ht, rfl⟩
  · exact ⟨rfl, rfl, fun _ htr _ => htr⟩
  · obtain ⟨hframe, hrows⟩ := insertTransition_spec ht
    refine ⟨?_, ?_, fun tr htr hid' => ?_⟩
    · rw [get?_upsert, if_neg (Ne.symm hid), hframe]
    · change (db1.chargeWall thread _).threadBudgets.get? id = _
      rw [chargeWall_budgets_ne (Ne.symm hid), hframe]
    · change tr ∈ db1.threadTransitions.rows at htr
      rw [hrows] at htr
      rcases mem_append.mp htr with htr | htr
      · exact htr
      · obtain rfl := mem_singleton.mp htr
        exact absurd (hid'.symm.trans hentry) hid

end

/-- **`escalate_round_cap`** does nothing below the cap; at the cap it clears, and charges
NOTHING. -/
theorem escalateRoundCap_cases (h : escalateRoundCap db thread gate = .ok db') :
    (roundCapReached db thread = false ∧ db' = db) ∨ (roundCapReached db thread = true ∧
      ∃ gates, db.approvalGates.insert?
          { id := gate, threadId := some thread, kind := .reviewRoundCap, state := .pending } =
            some gates ∧
        db' = { db.setThread thread ThreadRow.clearClaim ThreadRow.clearClaim_id with
          approvalGates := gates }) := by
  unfold escalateRoundCap at h
  split at h
  · rename_i hcap
    dsimp only at h
    split at h
    · cases h
    rename_i gates hinsert
    injection h with h
    exact .inr ⟨hcap, gates, hinsert, h.symm⟩
  · rename_i hcap
    injection h with h
    exact .inl ⟨Bool.not_eq_true _ ▸ hcap, h.symm⟩

end Operations

/-! ## 4. The two loops -/

section Loops

variable {db db' : Db}

theorem foldl_chargeWall_frame (worked : ThreadRow → Option Int) : ∀ (l : List ThreadRow) (db : Db),
    l.foldl (fun db r => db.chargeWall r.id (worked r)) db =
      { db with
        threadBudgets := (l.foldl (fun db r => db.chargeWall r.id (worked r)) db).threadBudgets }
  | [], _ => rfl
  | r :: t, db => by
    rw [foldl_cons, foldl_chargeWall_frame worked t]
    rfl

/-- **What the member's release leaves**: its own columns, the charged budgets, nothing else. -/
theorem releaseMemberClaimsInTx_eq (db : Db) (member : MemberId) (ended : Int) :
    releaseMemberClaimsInTx db member ended =
      { db with
        threads := db.threads.updateWhere (fun r => r.heldLiveBy member) ThreadRow.clearClaim
          ThreadRow.clearClaim_id
        threadBudgets := ((db.threads.rows.filter fun r => r.heldLiveBy member).foldl
          (fun db r => db.chargeWall r.id (workedSecs r.workStartedAt ended)) db).threadBudgets } := by
  unfold releaseMemberClaimsInTx
  dsimp only
  rw [foldl_chargeWall_frame]

theorem WallCharged.foldl (worked : ThreadRow → Option Int) :
    ∀ (l : List ThreadRow) {db db0 db' : Db}, db'.threadBudgets =
      (l.foldl (fun db r => db.chargeWall r.id (worked r)) db0).threadBudgets →
      db0.threadBudgets = db.threadBudgets → WallCharged db db'
  | [], _, _, _, h, h0 => .same (h.trans h0)
  | r :: t, _, _, _, h, h0 =>
    .charge r.id (worked r) (by simp only [Db.chargeWall, h0]) (.foldl worked t h rfl)

theorem usedWall_foldl_of_not_mem (worked : ThreadRow → Option Int) :
    ∀ (l : List ThreadRow) (db : Db), id ∉ l.map ThreadRow.id →
      usedWall (l.foldl (fun db r => db.chargeWall r.id (worked r)) db) id = usedWall db id
  | [], _, _ => rfl
  | r :: t, db, h => by
    simp only [map_cons, mem_cons, not_or] at h
    rw [foldl_cons, usedWall_foldl_of_not_mem worked t _ h.2, usedWall_chargeWall,
      if_neg h.1, Int.add_zero]

/-- **The charging loop charges each row once.** -/
theorem usedWall_foldl_of_mem (worked : ThreadRow → Option Int) :
    ∀ (l : List ThreadRow) (db : Db), (l.map ThreadRow.id).Nodup → c ∈ l →
      usedWall (l.foldl (fun db r => db.chargeWall r.id (worked r)) db) c.id =
        usedWall db c.id + (worked c).getD 0
  | r :: t, db, hn, hm => by
    rw [map_cons, nodup_cons] at hn
    rw [foldl_cons]
    rcases mem_cons.mp hm with rfl | ht
    · rw [usedWall_foldl_of_not_mem worked t _ hn.1, usedWall_chargeWall, if_pos rfl]
    · have hne : c.id ≠ r.id := fun he => hn.1 (he ▸ mem_map_of_mem ht)
      rw [usedWall_foldl_of_mem worked t _ hn.2 ht, usedWall_chargeWall, if_neg hne, Int.add_zero]

theorem filter_ids_nodup (db : Db) (p : ThreadRow → Bool) :
    ((db.threads.rows.filter p).map ThreadRow.id).Nodup :=
  db.threads.nodup.sublist (filter_sublist.map _)

/-- **`release_member_claims_in_tx`** clears and charges each claim the member holds, once.  The
transaction around it may have written other tables first (`db1`). -/
theorem Committed.releaseMemberClaims {db1 : Db}
    (h1 : db1 = { db with memberFreezes := db1.memberFreezes })
    (hmove : ∀ r, r.heldLiveBy member = true →
      RowMove db op r r.clearClaim (charged r.workStartedAt ended)) :
    Committed op db (releaseMemberClaimsInTx db1 member ended) := by
  have ht : db1.threads = db.threads := by rw [h1]
  have hb : db1.threadBudgets = db.threadBudgets := by rw [h1]
  refine ⟨?_, fun _ => ?_, ?_, fun id => ?_⟩
  · rw [releaseMemberClaimsInTx_eq, h1]
    rfl
  · rw [releaseMemberClaimsInTx_eq, h1]
  · rw [releaseMemberClaimsInTx_eq]
    exact .foldl _ _ rfl hb
  have hget : (releaseMemberClaimsInTx db1 member ended).threads.get? id =
      (db.threads.get? id).map fun r => if r.heldLiveBy member then r.clearClaim else r := by
    rw [releaseMemberClaimsInTx_eq, ← ht]
    exact get?_updateWhere _ _ _ ThreadRow.clearClaim_id _
  have hwall : usedWall (releaseMemberClaimsInTx db1 member ended) id =
      usedWall ((db.threads.rows.filter fun r => r.heldLiveBy member).foldl
        (fun db r => db.chargeWall r.id (workedSecs r.workStartedAt ended)) db1) id := by
    rw [releaseMemberClaimsInTx_eq, ← ht]
    exact usedWall_congr rfl id
  -- a thread the member does not hold is not in the list the loop runs over
  have hfree : (∀ r, db.threads.get? id = some r → r.heldLiveBy member = false) →
      usedWall (releaseMemberClaimsInTx db1 member ended) id = usedWall db id := by
    intro hn
    rw [hwall, usedWall_foldl_of_not_mem, usedWall_congr hb]
    intro hmem
    obtain ⟨x, hx, rfl⟩ := mem_map.mp hmem
    obtain ⟨hxm, hxh⟩ := mem_filter.mp hx
    rw [hn x (get?_of_mem hxm)] at hxh
    cases hxh
  cases hg : db.threads.get? id with
  | none =>
    refine .absent hg (by rw [hget, hg]; rfl) (hfree fun r hr => ?_)
    rw [hg] at hr
    cases hr
  | some r =>
    rw [hg, map_some] at hget
    cases hh : r.heldLiveBy member with
    | true =>
      obtain rfl := key_of_get? hg
      rw [hh, if_pos rfl] at hget
      refine .moved hg hget (hmove r hh) ?_
      have hm : r ∈ db.threads.rows.filter fun r => r.heldLiveBy member :=
        mem_filter.mpr ⟨mem_of_get? hg, hh⟩
      rw [hwall, usedWall_foldl_of_mem _ _ _ (filter_ids_nodup db _) hm, usedWall_congr hb]
      rfl
    | false =>
      rw [hh] at hget
      refine .moved hg hget .keep ?_
      rw [Int.add_zero]
      refine hfree fun x hx => ?_
      obtain rfl := mem_unique hg hx
      exact hh

theorem reapOne_spec (hg : db.threads.get? c.id = some c) (hr : c.reapable now = true) :
    reapOne now db c =
      .ok ((db.setThread c.id ThreadRow.clearClaim ThreadRow.clearClaim_id).chargeWall c.id
        (lapsedWorked c)) := by
  have hr' := hr
  simp only [ThreadRow.reapable, Bool.and_eq_true] at hr
  obtain ⟨⟨⟨ha, he⟩, _⟩, _⟩ := hr
  obtain ⟨holder, hholder⟩ := isSome_iff_exists.mp ha
  cases hexp : c.assignmentExpiresAt with
  | none => simp [hexp] at he
  | some deadline =>
    have hl : lapsedClaim c = some (holder, deadline, c.workStartedAt) := by
      simp [lapsedClaim, hholder, hexp]
    unfold reapOne lapsedWorked
    simp only [hl, hg, hholder, hr', beq_self_eq_true, Bool.and_self, if_true]
    rw [endLapsedClaimInTx_fst]

/-- **The reaper's loop** ends each claim it read, once, and touches nothing else. -/
theorem reap_loop : ∀ (l : List ThreadRow) (db : Db), (l.map ThreadRow.id).Nodup →
    (∀ c ∈ l, db.threads.get? c.id = some c ∧ c.reapable now = true) →
    ∃ db', l.foldlM (reapOne now) db = .ok db' ∧
      db' = { db with threads := db'.threads, threadBudgets := db'.threadBudgets } ∧
      WallCharged db db' ∧ (∀ id, id ∉ l.map ThreadRow.id →
        db'.threads.get? id = db.threads.get? id ∧ usedWall db' id = usedWall db id) ∧
      (∀ c ∈ l, db'.threads.get? c.id = some c.clearClaim ∧
        usedWall db' c.id = usedWall db c.id + (lapsedWorked c).getD 0)
  | [], db, _, _ => ⟨db, rfl, rfl, .same rfl, fun _ _ => ⟨rfl, rfl⟩, fun c hc => by cases hc⟩
  | r :: t, db, hn, hl => by
    rw [map_cons, nodup_cons] at hn
    obtain ⟨hg, hr⟩ := hl r mem_cons_self
    -- `db1` is the state after `r`'s turn; the rows still to come are as they were read
    let db1 := (db.setThread r.id ThreadRow.clearClaim ThreadRow.clearClaim_id).chargeWall r.id
      (lapsedWorked r)
    have hget : ∀ id, id ≠ r.id → db1.threads.get? id = db.threads.get? id :=
      fun id hid => get?_update_ne _ _ ThreadRow.clearClaim_id hid
    have hwall : ∀ id, usedWall db1 id =
        usedWall db id + if id = r.id then (lapsedWorked r).getD 0 else 0 :=
      fun id => usedWall_chargeWall _ _ _ _
    have hne : ∀ c ∈ t, c.id ≠ r.id := fun c hc he => hn.1 (he ▸ mem_map_of_mem hc)
    have hl1 : ∀ c ∈ t, db1.threads.get? c.id = some c ∧ c.reapable now = true := by
      intro c hc
      obtain ⟨hgc, hrc⟩ := hl c (mem_cons_of_mem r hc)
      exact ⟨(hget c.id (hne c hc)).trans hgc, hrc⟩
    obtain ⟨db', hfold, hframe, hcharged, hout, hin⟩ := reap_loop t db1 hn.2 hl1
    refine ⟨db', ?_, ?_, .charge r.id _ (by rfl) hcharged, ?_, ?_⟩
    · rw [foldlM_cons, reapOne_spec hg hr]
      exact hfold
    · rw [hframe]
      rfl
    · intro id hid
      rw [map_cons, mem_cons, not_or] at hid
      obtain ⟨h1, h2⟩ := hout id hid.2
      refine ⟨h1.trans (hget id hid.1), ?_⟩
      rw [h2, hwall, if_neg hid.1, Int.add_zero]
    · intro c hc
      rcases mem_cons.mp hc with rfl | hct
      · obtain ⟨h1, h2⟩ := hout c.id hn.1
        refine ⟨?_, ?_⟩
        · rw [h1]
          simp only [db1, Db.chargeWall_threads, Db.setThread_threads, get?_update, if_true,
            hg, map_some]
        · rw [h2, hwall, if_pos rfl]
      · obtain ⟨h1, h2⟩ := hin c hct
        refine ⟨h1, ?_⟩
        rw [h2, hwall, if_neg (hne c hct), Int.add_zero]

/-- **`reap_expired_claims`** ends lapsed claims, each at its deadline. -/
theorem reapExpiredClaims_committed {grace : ClaimGrace}
    (h : reapExpiredClaims db grace now limit = .ok db') :
    Committed (.reap grace now limit) db db' := by
  unfold reapExpiredClaims at h
  split at h
  · injection h with h
    subst h
    exact .refl _ _
  · -- `l` is the list the loop runs over: a sublist of a permutation of the reapable rows
    generalize hl : sqlLimit limit ((db.threads.rows.filter (·.reapable now)).insertionSort
      (fun a b => reapOrder a ≤ reapOrder b)) = l at h
    have hsub : l.Sublist ((db.threads.rows.filter (·.reapable now)).insertionSort
        (fun a b => reapOrder a ≤ reapOrder b)) := by
      rw [← hl]
      exact sqlLimit_sublist limit _
    have hperm := perm_insertionSort (fun a b => reapOrder a ≤ reapOrder b)
      (db.threads.rows.filter (·.reapable now))
    have hn : (l.map ThreadRow.id).Nodup :=
      ((hperm.map ThreadRow.id).nodup_iff.mpr (filter_ids_nodup db _)).sublist (hsub.map _)
    have hmem : ∀ c ∈ l, db.threads.get? c.id = some c ∧ c.reapable now = true := by
      intro c hc
      obtain ⟨hm, hr⟩ := mem_filter.mp (hperm.mem_iff.mp (hsub.subset hc))
      exact ⟨get?_of_mem hm, hr⟩
    obtain ⟨db1, hfold, hframe, hcharged, hout, hin⟩ := reap_loop l db hn hmem
    obtain rfl : db1 = db' := by
      rw [hfold] at h
      injection h
    refine ⟨by rw [hframe]; rfl, fun _ => by rw [hframe], hcharged, fun id => ?_⟩
    by_cases hid : id ∈ l.map ThreadRow.id
    · obtain ⟨c, hc, rfl⟩ := mem_map.mp hid
      obtain ⟨hg, hr⟩ := hmem c hc
      obtain ⟨h1, h2⟩ := hin c hc
      exact .moved hg h1 (.reap hr) h2
    · obtain ⟨h1, h2⟩ := hout id hid
      cases hg : db.threads.get? id with
      | none => exact .absent hg (h1.trans hg) h2
      | some => exact .moved hg (h1.trans hg) .keep (by rw [h2, Int.add_zero])

end Loops

/-! ## 5. The inversion lemma -/

/-- **`claim_next`** hands out nothing, or one candidate. -/
theorem claimNext_cases (grace : ClaimGrace) (ask : ClaimAsk) (leaseSecs : Option Int)
    (lease : ClaimLeaseId) (attribution : Option Attribution) (clock dbNow : Int) :
    (claimNext db grace ask leaseSecs lease attribution clock dbNow = (db, none)) ∨
    ∃ cand, db.threads.get? cand.id = some cand ∧
      candidate db ask (grace.leaseClock (truncateMicros clock)) (truncateMicros clock) cand = true ∧
      claimNext db grace ask leaseSecs lease attribution clock dbNow =
        ((recordInTx (takeCandidate db cand.id ask.member lease (truncateMicros clock) leaseSecs)
          cand.id ask.member attribution).chargeWall cand.id (lapsedWorked cand), some cand.id) := by
  unfold claimNext
  dsimp only
  cases hc : claimNextCandidate db ask (grace.leaseClock (truncateMicros clock))
      (truncateMicros clock) dbNow with
  | none => exact .inl rfl
  | some cand =>
    obtain ⟨hg, hp⟩ := claimNextCandidate_spec hc
    refine .inr ⟨cand, hg, hp, ?_⟩
    simp only [endLapsedOf_eq]

theorem step_land {db db' : Db}
    (h : step db (.land thread actor toState transition now ended) = .ok db') :
    ∃ row, db.threads.get? thread = some row ∧
      landInTx db row actor toState transition now ended = .ok db' := by
  simp only [step] at h
  cases hg : db.threads.get? thread with
  | none => simp [hg] at h
  | some row =>
    simp only [hg] at h
    exact ⟨row, rfl, h⟩

/-- **Every committed step**, whichever it is. -/
theorem step_committed {db db' : Db} (h : step db op = .ok db') : Committed op db db' := by
  cases op with
  | claim thread member lease attribution stamped =>
    obtain ⟨⟨_, flag⟩, hc, rfl⟩ := map_eq_ok.mp h
    rcases claim_cases hc with rfl | ⟨row, hg, hfree, hdb⟩
    · exact .refl _ _
    · obtain rfl := get?_self hg
      rw [hdb, recordInTx_frame]
      exact .of_update (ThreadRow.grantClaim_id member none lease stamped) none hg rfl rfl rfl nofun
        (.claim hfree)
  | claimNext grace ask leaseSecs lease attribution clock dbNow =>
    cases h
    rcases claimNext_cases db grace ask leaseSecs lease attribution clock dbNow with
      hn | ⟨cand, hg, hp, hs⟩
    · rw [hn]
      exact .refl _ _
    · rw [hs, recordInTx_frame]
      exact .of_update (ThreadRow.grantClaim_id ask.member _ lease _) (lapsedWorked cand) hg rfl rfl
        rfl nofun (.takeover hp)
  | assign thread assignee lease attribution ended stamped =>
    obtain ⟨row, hg, hdb⟩ := assign_spec h
    obtain rfl := get?_self hg
    rw [hdb, recordInTx_frame]
    exact .of_update (ThreadRow.grantClaim_id assignee none lease stamped)
      (workedSecs row.workStartedAt ended) hg rfl rfl rfl nofun .assign
  | unassign thread ended =>
    obtain ⟨row, hg, rfl⟩ := unassign_spec h
    obtain rfl := get?_self hg
    exact .of_update ThreadRow.clearClaim_id (workedSecs row.workStartedAt ended) hg rfl rfl rfl
      (fun _ => rfl) .unassign
  | renew thread member lease leaseSecs now =>
    obtain ⟨row, hg, hfence, rfl⟩ := fencedTx_eq_ok.mp h
    obtain rfl := get?_self hg
    exact .of_update (f := fun r => { r with assignmentExpiresAt := some (now + seconds leaseSecs) })
      (fun _ => rfl) none hg rfl rfl rfl (fun _ => rfl) (.renew hfence)
  | acknowledge thread member lease now =>
    obtain ⟨row, hg, hfence, rfl⟩ := fencedTx_eq_ok.mp h
    obtain rfl := get?_self hg
    exact .of_update (f := fun r => { r with workStartedAt := r.workStartedAt.or (some now) })
      (fun _ => rfl) none hg rfl rfl rfl (fun _ => rfl) (.acknowledge hfence)
  | release thread member lease ended =>
    obtain ⟨row, hg, hfence, rfl⟩ := fencedTx_eq_ok.mp h
    obtain rfl := get?_self hg
    exact .of_update ThreadRow.clearClaim_id (workedSecs row.workStartedAt ended) hg rfl rfl rfl
      (fun _ => rfl) (.release hfence)
  | reap => exact reapExpiredClaims_committed h
  | releaseMember =>
    cases h
    exact .releaseMemberClaims rfl fun _ => .releaseMember
  | freeze =>
    simp only [step, freezeOn] at h
    split at h
    · cases h
    cases h
    exact .releaseMemberClaims rfl fun _ => .freeze
  | land thread actor toState =>
    obtain ⟨row, hg, hland⟩ := step_land h
    obtain rfl := get?_self hg
    obtain ⟨_, transitions, _, rfl⟩ := landInTx_spec hg hland
    refine .of_update (ThreadRow.land_id toState) _ hg rfl rfl rfl (fun _ => rfl) ?_
    rw [apply_ite (fun o : Option Int => o.getD 0)]
    exact .land
  | cancel =>
    obtain ⟨⟨_, outcome⟩, hc, rfl⟩ := map_eq_ok.mp h
    rcases cancelInTx_cases hc with rfl | ⟨row, hg, hthreads, hbudgets, hframe⟩
    · exact .refl _ _
    · obtain rfl := get?_self hg
      refine .of_update _ _ hg hthreads hbudgets ?_ (fun _ => ?_) .cancel <;> rw [hframe]
      rfl
  | escalate thread =>
    rcases escalateRoundCap_cases h with ⟨_, rfl⟩ | ⟨hcap, gates, _, rfl⟩
    · exact .refl _ _
    · cases hg : db.threads.get? thread with
      | none =>
        refine ⟨rfl, fun _ => rfl, .same rfl, effect_of_same_get (fun x => ?_) fun _ => rfl⟩
        rw [Db.setThread_threads, get?_update]
        split
        · rename_i hx
          rw [hx, hg]
          rfl
        · rfl
      | some =>
        obtain rfl := get?_self hg
        exact .of_update ThreadRow.clearClaim_id none hg rfl rfl rfl (fun _ => rfl) (.escalate hcap)

/-- **The inversion of a step.**  Committed or rolled back, every thread makes a `RowMove`. -/
theorem next_effect (op : ClaimOp) (id : ThreadId) : Effect op db (next db op) id := by
  unfold next
  cases h : step db op with
  | error => exact (Committed.refl op db).effect id
  | ok => exact (step_committed h).effect id

theorem next_frame (op : ClaimOp) : ClaimFrame db (next db op) := by
  unfold next
  cases h : step db op with
  | error => rfl
  | ok => exact (step_committed h).frame

theorem next_row {db : Db} {r' : ThreadRow} (h : (next db op).threads.get? id = some r') :
    ∃ r c, db.threads.get? id = some r ∧ RowMove db op r r' c ∧
      usedWall (next db op) id = usedWall db id + c := by
  cases next_effect db op id with
  | absent hn hn' => rw [hn'] at h; cases h
  | moved hg hg' hm hw =>
    obtain rfl := mem_unique hg' h
    exact ⟨_, _, hg, hm, hw⟩

end Maidan
