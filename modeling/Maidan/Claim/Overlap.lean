/-
# Live claims and overlapping footprints

`footprint.rs` promises that "a swarm of agents claiming from one queue never holds overlapping
work".  The deferral rule (`Footprints.lean`) is what should keep the promise, and it is asked in
one place only: when `claim_next` picks a candidate.

A world is a database and a clock that does not run backwards.  `Clear` -- no live claim is
deferred by the other live claims -- is the promise, and this file says exactly which steps keep
it (`clear_iff_of_one_change`):

* time passing, acknowledging, releasing, reaping and entering review only END live claims;
* `claim_next` makes one thread live, a thread the rule has just let through;
* `renew_claim` and a review send-back can make a thread live AGAIN, and neither asks the rule.

So the promise holds along every run whose renewals and send-backs bring no deferred thread back
to life (`live_claims_never_conflict`), and the two-renewal trace at the end breaks it without
that.
-/
import Maidan.Claim.Lease
import Maidan.Review.Submit

namespace Maidan

open Relational Table Run

/-! ## 1. One thread changes -/

/-- The deferral rule's two questions about live claims, both answered no. -/
def undeferred (db : Db) (id : ThreadId) (now : Int) : Bool :=
  !conflictsWithLiveClaims db id now && !slotFull db id now

theorem undeferred_iff {id : ThreadId} : undeferred db id now = true ↔
      conflictsWithLiveClaims db id now = false ∧ slotFull db id now = false := by
  simp [undeferred]

theorem NoClaims.clear (h : NoClaims db) (now : Int) : Clear db now := by
  intro id hl
  obtain ⟨held, hg, hc⟩ := liveThread_iff.mp hl
  have hsome := (liveClaim_iff.mp hc).1
  rw [(h held (mem_of_get? hg)).1] at hsome
  cases hsome

section OneChange

variable {db db' : Db} {now : Int}

theorem liveThread_congr {id : ThreadId} (h : db'.threads.get? id = db.threads.get? id) :
    liveThread db' id now = liveThread db id now := by
  unfold liveThread
  rw [h]

/-- **One thread changes.**  `Clear` survives exactly when the thread, if it is live afterwards,
was not deferred by the others. -/
theorem clear_iff_of_one_change {c : ThreadId} (hf : db'.threadFootprints = db.threadFootprints)
    (hc : db'.slotCapacities = db.slotCapacities)
    (hother : ∀ id, id ≠ c → db'.threads.get? id = db.threads.get? id) (h : Clear db now) :
    Clear db' now ↔ (liveThread db' c now = true → undeferred db c now = true) := by
  have hlive : ∀ id, id ≠ c → liveThread db' id now = liveThread db id now :=
    fun id hne => liveThread_congr (hother id hne)
  have hsub : ∀ id, id ≠ c → liveThread db' id now = true → liveThread db id now = true :=
    fun id hne hl => (hlive id hne).symm.trans hl
  constructor
  · intro hclear hl
    obtain ⟨hov, hsl⟩ := hclear c hl
    have hback : ∀ id, id ≠ c → liveThread db id now = true → liveThread db' id now = true :=
      fun id hne hl => (hlive id hne).trans hl
    exact undeferred_iff.mpr ⟨conflicts_of_fewer hf.symm hback hov,
      slotFull_of_fewer hf.symm hc.symm hback hsl⟩
  · intro hnew
    by_cases hl : liveThread db' c now = true
    · obtain ⟨hov, hsl⟩ := undeferred_iff.mp (hnew hl)
      exact clear_of_one_more hf hc (Int.le_refl now) hsub hov hsl h
    · refine clear_of_live_subset hf hc (fun id hid => ?_) h
      by_cases hidc : id = c
      · subst hidc
        exact absurd hid hl
      · exact hsub id hidc hid

end OneChange

/-! ## 2. The world -/

/-- **A database and a clock**, which has passed the epoch. -/
structure World where
  db : Db
  now : Int
  epoch : 0 ≤ now

/-- The draws of a transaction that reads the clock at `now`. -/
def Draws.readAt (draws : Draws) (now : Int) : Draws := { draws with now := now, ended := now }

/-- What the members of the swarm, the reviewers and the clock do. -/
inductive QueueOp
  | tick (elapsed : Nat)
  | claimNext (grace : ClaimGrace) (ask : ClaimAsk) (leaseSecs : Option Int)
      (lease : ClaimLeaseId) (attribution : Option Attribution) (dbNow : Int)
  | renew (thread : ThreadId) (member : MemberId) (lease : ClaimLeaseId) (leaseSecs : Int)
  | acknowledge (thread : ThreadId) (member : MemberId) (lease : ClaimLeaseId)
  | release (thread : ThreadId) (member : MemberId) (lease : ClaimLeaseId)
  | reap (grace : ClaimGrace) (limit : Int)
  | startReview (thread : ThreadId) (actor : MemberId) (draws : Draws)
  | sendBack (thread : ThreadId) (actor : MemberId) (draws : Draws) (gate : GateId)
  | review (submission : Submission)

/-- The world after a claim operation, which reads the world's clock. -/
def World.act (w : World) (op : ClaimOp) : World := { w with db := Maidan.next w.db op }

/-- A submission made at `now`. -/
def Submission.readAt (s : Submission) (now : Int) : Submission :=
  { s with draws := s.draws.readAt now }

/-- One step of the world. -/
def World.next (env : Env) (w : World) : QueueOp → World
  | .tick elapsed => { w with now := w.now + elapsed, epoch := by have := w.epoch; omega }
  | .claimNext grace ask leaseSecs lease attribution dbNow =>
    w.act (.claimNext grace ask leaseSecs lease attribution w.now dbNow)
  | .renew thread member lease leaseSecs => w.act (.renew thread member lease leaseSecs w.now)
  | .acknowledge thread member lease => w.act (.acknowledge thread member lease w.now)
  | .release thread member lease => w.act (.release thread member lease w.now)
  | .reap grace limit => w.act (.reap grace w.now limit)
  | .startReview thread actor draws =>
    { w with
      db := settle w.db
        (transitionInSpawning env w.db thread actor .startReview (draws.readAt w.now)) }
  | .sendBack thread actor draws gate =>
    { w with db := settle w.db (sendBackInTx env w.db thread actor (draws.readAt w.now) gate) }
  | .review submission =>
    { w with db := settle w.db (submitReviewOn env w.db (submission.readAt w.now)) }

/-- This send-back would reach the review-round cap, where the claim is dropped. -/
def capAtSendBack (db : Db) (thread : ThreadId) : Bool :=
  maxRounds db thread != 0 && !roundCapPending db thread &&
    decide (maxRounds db thread ≤ sendBacks db thread + 1)

/-- A send-back of `thread` revives no deferred thread: its claim has lapsed, or the round cap will
drop it, or the deferral rule would let it through. -/
def sendBackSafe (db : Db) (thread : ThreadId) (now : Int) : Bool :=
  match db.threads.get? thread with
  | none => true
  | some row =>
    !(row.state == .inReview && liveClaim { row with state := .open } now &&
      !capAtSendBack db thread) || undeferred db thread now

/-- **The step revives no deferred thread.**  Asked of a renewal of a LAPSED claim on an open
thread to a deadline not past, and of a send-back, also by a review that requests changes. -/
def QueueOp.safe (w : World) : QueueOp → Bool
  | .renew thread member lease leaseSecs =>
    match w.db.threads.get? thread with
    | none => true
    | some row =>
      !(row.fenced member lease && row.state == .open && !liveClaim row w.now &&
        decide (0 ≤ leaseSecs)) || undeferred w.db thread w.now
  | .sendBack thread _ _ _ => sendBackSafe w.db thread w.now
  | .review submission =>
    submission.decision != .requestChanges || sendBackSafe w.db submission.thread w.now
  | _ => true

/-! ## 3. What one step keeps -/

variable {thread : ThreadId} {member actor : MemberId} {lease : ClaimLeaseId} {t : Int} {env : Env}
  {draws : Draws}

section Steps

variable {db : Db} {now : Int}

/-- A claim operation that makes no row live keeps `Clear`. -/
theorem clear_next_of_ending
    (hend : ∀ r r' c, RowMove db op r r' c → liveClaim r' now = true → liveClaim r now = true)
    (h : Clear db now) : Clear (next db op) now := by
  have hframe := next_frame db op
  refine clear_of_live_subset (by rw [hframe]) (by rw [hframe]) (fun id hl => ?_) h
  obtain ⟨r', hg', hc'⟩ := liveThread_iff.mp hl
  obtain ⟨r, c, hg, hm, _⟩ := next_row hg'
  exact liveThread_iff.mpr ⟨r, hg, hend r r' c hm hc'⟩

theorem not_liveClaim_clearClaim (r : ThreadRow) : ¬liveClaim r.clearClaim now = true := by
  intro hl
  have hsome := (liveClaim_iff.mp hl).1
  cases hsome

theorem clear_next_acknowledge (h : Clear db now) :
    Clear (next db (.acknowledge thread member lease t)) now := by
  refine clear_next_of_ending (fun r r' c hm hl => ?_) h
  cases hm with
  | keep | acknowledge => exact hl

theorem clear_next_release (h : Clear db now) :
    Clear (next db (.release thread member lease t)) now := by
  refine clear_next_of_ending (fun r r' c hm hl => ?_) h
  cases hm with
  | keep => exact hl
  | release => exact absurd hl (not_liveClaim_clearClaim r)

theorem clear_next_reap (h : Clear db now) : Clear (next db (.reap grace t limit)) now := by
  refine clear_next_of_ending (fun r r' c hm hl => ?_) h
  cases hm with
  | keep => exact hl
  | reap => exact absurd hl (not_liveClaim_clearClaim r)

/-- **`claim_next`** makes one thread live, and the rule let it through: at the lease clock,
which is not ahead of the clock. -/
theorem clear_next_claimNext {grace : ClaimGrace} {ask : ClaimAsk} {leaseSecs : Option Int}
    {attribution : Option Attribution} {dbNow : Int} (hnow : 0 ≤ now) (h : Clear db now) :
    Clear (next db (.claimNext grace ask leaseSecs lease attribution now dbNow)) now := by
  have hframe := next_frame db (.claimNext grace ask leaseSecs lease attribution now dbNow)
  have heq : next db (.claimNext grace ask leaseSecs lease attribution now dbNow) =
      (claimNext db grace ask leaseSecs lease attribution now dbNow).1 := rfl
  rcases claimNext_cases db grace ask leaseSecs lease attribution now dbNow with
    hn | ⟨cand, hg, hc, hs⟩
  · rw [heq, hn]
    exact h
  · have hclock : grace.leaseClock (truncateMicros now) ≤ now :=
      (grace.leaseClock_le (truncateMicros_nonneg hnow)).trans (truncateMicros_le now)
    obtain ⟨hov, hsl⟩ := claimable_not_deferred (candidate_claimable hc)
    refine clear_of_one_more ?_ ?_ hclock (fun id hne hl => ?_) hov hsl h
    · rw [hframe]
    · rw [hframe]
    · rw [heq, hs] at hl
      rw [← hl]
      refine (liveThread_congr ?_).symm
      rw [Db.chargeWall_threads, recordInTx_threads, takeCandidate, Db.setThread_threads]
      exact get?_update_ne _ _ _ hne

/-- **`renew_claim`** keeps `Clear` exactly when it revives no deferred thread. -/
theorem clear_next_renew_iff {leaseSecs : Int} (h : Clear w.db w.now) :
    Clear (next w.db (.renew thread member lease leaseSecs w.now)) w.now ↔
      QueueOp.safe w (.renew thread member lease leaseSecs) = true := by
  cases hg : w.db.threads.get? thread with
  | none =>
    have hsame : next w.db (.renew thread member lease leaseSecs w.now) = w.db := by
      simp [next, step, renewClaim, fencedTx, hg, settle]
    rw [hsame]
    simp [QueueOp.safe, hg, h]
  | some row =>
    cases hf : row.fenced member lease with
    | false =>
      have hsame : next w.db (.renew thread member lease leaseSecs w.now) = w.db := by
        simp [next, step, renewClaim, fencedTx, hg, hf, settle]
      rw [hsame]
      simp [QueueOp.safe, hg, hf, h]
    | true =>
      have hdb : next w.db (.renew thread member lease leaseSecs w.now) = w.db.setThread thread
            (fun r => { r with assignmentExpiresAt := some (w.now + seconds leaseSecs) })
            (fun _ => rfl) := by
        simp [next, step, renewClaim, fencedTx, hg, hf, settle]
      have hlive : liveThread (next w.db (.renew thread member lease leaseSecs w.now)) thread
          w.now = true ↔ row.state = .open ∧ 0 ≤ leaseSecs := by
        have hf' := hf
        simp only [ThreadRow.fenced, Bool.and_eq_true, beq_iff_eq, isNone_iff_eq_none] at hf'
        rw [hdb, liveThread, Db.setThread_threads, get?_update, if_pos rfl, hg]
        simp only [map_some, liveClaim, hf'.1.1, hf'.2, Option.isSome_some,
          Option.isNone_none, Bool.true_and, Bool.and_true, Bool.and_eq_true, beq_iff_eq,
          decide_eq_true_eq, seconds]
        constructor
        · rintro ⟨hs, hle⟩
          exact ⟨hs, by omega⟩
        · rintro ⟨hs, hle⟩
          exact ⟨hs, by omega⟩
      have hframe := next_frame w.db (.renew thread member lease leaseSecs w.now)
      rw [clear_iff_of_one_change (by rw [hframe]) (by rw [hframe]) (fun id hne => ?_) h, hlive]
      · -- a claim that is live already is not deferred: the world was clear
        have hcur : liveClaim row w.now = true → undeferred w.db thread w.now = true :=
          fun hl => undeferred_iff.mpr (h thread (liveThread_iff.mpr ⟨row, hg, hl⟩))
        simp only [QueueOp.safe, hg, hf, Bool.true_and]
        cases hl : liveClaim row w.now with
        | true => simp [hcur hl]
        | false => simp [imp_iff_not_or]
      · rw [hdb, Db.setThread_threads]
        exact get?_update_ne _ _ _ hne

/-- **Entering review** ends the thread's live claim, if it had one, and the review child it may
open is nobody's. -/
theorem clear_startReview (h : Clear db now) :
    Clear (settle db (transitionInSpawning env db thread actor .startReview draws)) now := by
  cases ht : transitionInSpawning env db thread actor .startReview draws with
  | error => exact h
  | ok db' =>
    have hframe := transitionInSpawning_frame ht
    obtain ⟨row, toState, rfl, hm⟩ := transitionInSpawning_moved ht
    change Clear db' now
    refine clear_of_live_subset (by rw [hframe]) (by rw [hframe]) (fun id hl => ?_) h
    obtain ⟨held, hg, hlive⟩ := liveThread_iff.mp hl
    obtain ⟨hsome, hopen, _⟩ := liveClaim_iff.mp hlive
    by_cases hid : id = row.id
    · subst hid
      obtain rfl := mem_unique hm.self hg
      have hto : toState = .inReview := by
        have ha := hm.applied
        cases hs : row.state <;> simp [hs, apply] at ha
        exact ha.symm
      rw [ThreadRow.land_state, hto] at hopen
      cases hopen
    · cases hold : db.threads.get? id with
      | none =>
        rw [hm.fresh hg hold] at hsome
        cases hsome
      | some r =>
        obtain rfl := Option.some.inj ((hm.others hid hold).symm.trans hg)
        exact liveThread_iff.mpr ⟨r, hold, hlive⟩

theorem lt_afterFloor (t cut : Int) : cut < afterFloor t (some cut) := by
  unfold afterFloor
  dsimp only
  split <;> omega

/-- **The cap after a send-back** counts the send-backs before it and one more: the new row is
past the floor. -/
theorem roundCapReached_land (hg : db.threads.get? row.id = some row) (hs : row.state = .inReview)
    (h : landInTx db row actor .open transition now ended = .ok db') :
    roundCapReached db' row.id = capAtSendBack db row.id := by
  obtain ⟨_, transitions, hrows, hdb⟩ := landInTx_spec hg h
  have hfloor : roundFloor db' row.id = roundFloor db row.id := by
    rw [hdb]
    rfl
  have hcount : sendBacks db' row.id = sendBacks db row.id + 1 := by
    have htr : db'.threadTransitions.rows = db.threadTransitions.rows ++
        [landingRow db row actor .open transition now] := by
      rw [hdb, ← hrows]
      rfl
    have hnew : isSendBack (roundFloor db row.id) row.id
        (landingRow db row actor .open transition now) = true := by
      cases hf : roundFloor db row.id with
      | none => simp [isSendBack, landingRow, hs]
      | some => simp [isSendBack, landingRow, occurredAt, hs, hf, lt_afterFloor]
    unfold sendBacks
    rw [hfloor, htr, List.filter_append, List.filter_cons_of_pos hnew, List.length_append]
    rfl
  have hmax : maxRounds db' row.id = maxRounds db row.id := by
    rw [hdb]
    rfl
  have hpend : roundCapPending db' row.id = roundCapPending db row.id := by
    rw [hdb]
    rfl
  unfold roundCapReached capAtSendBack
  rw [hcount, hmax, hpend, ← decide_not]
  simp

/-- **The thread comes back from review.**  `row` has landed at `open`, the round cap has been
asked, and in between at most verdicts were written (`db2`). -/
theorem clear_of_back (hg : db.threads.get? row.id = some row) (hs : row.state = .inReview)
    (hsafe : sendBackSafe db row.id now = true)
    (hl : landInTx db row actor .open transition now ended = .ok db1)
    (hdb2 : db2 = { db1 with threadReviews := db2.threadReviews })
    (he : escalateRoundCap db2 row.id gate = .ok db') (h : Clear db now) : Clear db' now := by
  obtain ⟨_, transitions, _, hdb1⟩ := landInTx_spec hg hl
  have hget2 : ∀ id, db2.threads.get? id =
      if id = row.id then (db.threads.get? id).map (·.land .open) else db.threads.get? id := by
    intro id
    rw [hdb2, hdb1]
    exact get?_update _ _ _ (ThreadRow.land_id .open) _
  have hcap2 : roundCapReached db2 row.id = capAtSendBack db row.id := by
    rw [← roundCapReached_land hg hs hl, hdb2]
    rfl
  rcases escalateRoundCap_cases he with ⟨hcap, rfl⟩ | ⟨hcap, gates, _, hdb⟩
  · -- below the cap the claim comes back with the thread
    refine (clear_iff_of_one_change ?_ ?_ (fun id hne => by rw [hget2, if_neg hne]) h).mpr
      fun hlive => ?_
    · rw [hdb2, hdb1]
      rfl
    · rw [hdb2, hdb1]
      rfl
    · obtain ⟨held, hg', hc⟩ := liveThread_iff.mp hlive
      rw [hget2, if_pos rfl, hg] at hg'
      obtain rfl := Option.some.inj hg'
      rw [hcap2] at hcap
      have hc' : liveClaim { row with state := .open } now = true := hc
      simpa [sendBackSafe, hg, hs, hcap, hc'] using hsafe
  · -- at the cap the claim is gone
    have hget : ∀ id, db'.threads.get? id = if id = row.id then
        (db2.threads.get? id).map ThreadRow.clearClaim else db2.threads.get? id := by
      intro id
      rw [hdb]
      exact get?_update _ _ _ ThreadRow.clearClaim_id _
    refine (clear_iff_of_one_change ?_ ?_
      (fun id hne => by rw [hget, if_neg hne, hget2, if_neg hne]) h).mpr fun hlive => ?_
    · rw [hdb, hdb2, hdb1]
      rfl
    · rw [hdb, hdb2, hdb1]
      rfl
    · obtain ⟨held, hg', hc⟩ := liveThread_iff.mp hlive
      rw [hget, if_pos rfl, hget2, if_pos rfl, hg] at hg'
      obtain rfl := Option.some.inj hg'
      exact absurd hc (not_liveClaim_clearClaim _)

/-- What a committed `RequestChanges` did: `row` came back from review. -/
theorem requestChanges_spec
    (h : transitionInSpawning env db thread actor .requestChanges draws = .ok db') :
    ∃ row, row.id = thread ∧ db.threads.get? row.id = some row ∧ row.state = .inReview ∧
      landInTx db row actor .open draws.transition draws.now draws.ended = .ok db' := by
  obtain ⟨row, toState, db1, hg, ha, _, hsame, hland⟩ := transitionInSpawning_spec h
  obtain rfl := hsame (by decide)
  obtain rfl := get?_self hg
  have hs : row.state = .inReview ∧ toState = .open := by
    cases hs : row.state <;> simp [hs, apply] at ha
    exact ⟨rfl, ha.symm⟩
  obtain ⟨hs, rfl⟩ := hs
  exact ⟨row, rfl, hg, hs, hland⟩

/-- **A send-back** that revives no deferred thread keeps `Clear`. -/
theorem clear_sendBack (hsafe : sendBackSafe db thread now = true) (h : Clear db now) :
    Clear (settle db (sendBackInTx env db thread actor (draws.readAt now) gate)) now := by
  cases hsb : sendBackInTx env db thread actor (draws.readAt now) gate with
  | error => exact h
  | ok =>
    obtain ⟨db1, ht, hsb⟩ := bind_ok hsb
    obtain ⟨_, _, he⟩ := bind_ok hsb
    obtain ⟨row, rfl, hg, hs, hl⟩ := requestChanges_spec ht
    exact clear_of_back hg hs hsafe hl rfl he h

/-- **A review** keeps `Clear`, if the send-back it may cause does. -/
theorem clear_review {s : Submission}
    (hsafe : s.decision = .requestChanges → sendBackSafe db s.thread now = true) (h : Clear db now) :
    Clear (settle db (submitReviewOn env db (s.readAt now))) now := by
  -- the verdict itself touches nothing `Clear` reads
  have hput : Clear (db.putReview (s.readAt now).row) now := h
  cases hsub : submitReviewOn env db (s.readAt now) with
  | error => exact h
  | ok =>
    rcases submitReviewOn_cases hsub with rfl | ⟨hdec, db1, ht, he⟩
    · exact hput
    · obtain ⟨row, hid, hg, hs, hl⟩ := requestChanges_spec ht
      have hsafe' : sendBackSafe (db.putReview (s.readAt now).row) row.id now = true := by
        rw [hid]
        exact hsafe hdec
      rw [← hid] at he
      exact clear_of_back hg hs hsafe' hl rfl he hput

end Steps

/-! ## 4. Runs -/

/-- **A safe step keeps `Clear`.** -/
theorem clear_step (env : Env) (w : World) (op : QueueOp) (h : Clear w.db w.now)
    (hsafe : op.safe w = true) : Clear (w.next env op).db (w.next env op).now := by
  cases op with
  | tick elapsed =>
    refine clear_of_live_subset rfl rfl (fun id hl => ?_) h
    have hle : w.now ≤ w.now + elapsed := by omega
    exact liveThread_anti hle hl
  | claimNext => exact clear_next_claimNext w.epoch h
  | renew => exact (clear_next_renew_iff h).mpr hsafe
  | acknowledge => exact clear_next_acknowledge h
  | release => exact clear_next_release h
  | reap => exact clear_next_reap h
  | startReview => exact clear_startReview h
  | sendBack => exact clear_sendBack hsafe h
  | review =>
    refine clear_review (fun hdec => ?_) h
    simpa [QueueOp.safe, hdec] using hsafe

/-- **Live claims never conflict**, along every run from a table without claims whose renewals and
send-backs revive no deferred thread. -/
theorem live_claims_never_conflict (env : Env) (w : World) (ops : List QueueOp) (h0 : NoClaims w.db)
    (hsafe : Meets (World.next env) (fun w op => QueueOp.safe w op = true) w ops) :
    Clear (exec (World.next env) w ops).db (exec (World.next env) w ops).now :=
  exec_inv_of_meets (clear_step env) ops w (h0.clear w.now) hsafe

/-! ## 5. The revived claim -/

/-- Two channels with a thread each, both about to edit `src/main.rs` of one repository. -/
def overlapWorld : World where
  db :=
    { workspaces := oneWorkspace
      members := twoMembers
      channels := { rows := [{ id := ⟨1⟩, workspaceId := ⟨1⟩, name := "backend" },
        { id := ⟨2⟩, workspaceId := ⟨1⟩, name := "frontend" }] }
      threads := { rows := [{ id := ⟨1⟩, channelId := ⟨1⟩ }, { id := ⟨2⟩, channelId := ⟨2⟩ }] }
      threadFootprints := contestedFile }
  now := seconds 1000
  epoch := by decide

/-- `claim_next` of a member in a channel, for `leaseSecs`. -/
def claimIn (channel : ChannelId) (member : MemberId) (lease : ClaimLeaseId) (leaseSecs : Int) :
    QueueOp :=
  .claimNext {} { scope := .channel channel, member := member } (some leaseSecs) lease none
    (seconds 1000)

/-- A ten-second claim renewed in time, released, and only then the overlapping one. -/
def orderlyOps : List QueueOp :=
  [claimIn ⟨1⟩ ⟨1⟩ ⟨11⟩ 10, .tick 5000000000, .renew ⟨1⟩ ⟨1⟩ ⟨11⟩ 10, claimIn ⟨2⟩ ⟨2⟩ ⟨12⟩ 600,
   .release ⟨1⟩ ⟨1⟩ ⟨11⟩, claimIn ⟨2⟩ ⟨2⟩ ⟨13⟩ 600]

/-- In the orderly run the second thread is deferred at first, and claimed at the end. -/
theorem live_claims_never_conflict_orderly :
    liveThread (exec (World.next plainEnv) overlapWorld orderlyOps).db ⟨2⟩
      (exec (World.next plainEnv) overlapWorld orderlyOps).now = true ∧
    Clear (exec (World.next plainEnv) overlapWorld orderlyOps).db
      (exec (World.next plainEnv) overlapWorld orderlyOps).now :=
  ⟨by decide, live_claims_never_conflict plainEnv overlapWorld orderlyOps (by decide) (by decide)⟩

/-- The claim lapses, the overlapping thread is claimed, and the lapsed claim is renewed. -/
def revivedOps : List QueueOp :=
  [claimIn ⟨1⟩ ⟨1⟩ ⟨11⟩ 10, .tick 20000000000, claimIn ⟨2⟩ ⟨2⟩ ⟨12⟩ 600, .renew ⟨1⟩ ⟨1⟩ ⟨11⟩ 600]

/-- **Two members hold one file.**  Both claims are live and each overlaps the other. -/
theorem renewed_claim_conflicts :
    NoClaims overlapWorld.db ∧
    ¬Clear (exec (World.next plainEnv) overlapWorld revivedOps).db
      (exec (World.next plainEnv) overlapWorld revivedOps).now := by
  refine ⟨by decide, fun hclear => ?_⟩
  have hlive : liveThread (exec (World.next plainEnv) overlapWorld revivedOps).db ⟨1⟩
      (exec (World.next plainEnv) overlapWorld revivedOps).now = true := by decide
  have hconf : conflictsWithLiveClaims (exec (World.next plainEnv) overlapWorld revivedOps).db ⟨1⟩
      (exec (World.next plainEnv) overlapWorld revivedOps).now = true := by decide
  rw [(hclear ⟨1⟩ hlive).1] at hconf
  cases hconf

end Maidan
