/-
# Transitions of a thread

`transition_in_spawning` (`thread_transitions.rs`): the state machine's move, behind the gates
that stand before it.

* every terminal move: SEPARATION OF DUTIES (an owned thread is not landed by whoever did it);
* `start_review`: a result must be there if approvals are required; the evidence is pinned; and a
  change whose author's family is known gets a SECOND-FAMILY review child (`review_family.rs`);
* a close: the review gate and the land gate;
* every move: the parent's state (`land_in_tx`).

`transitionInSpawning_spec` is the inversion later proofs use: a committed transition is a landing
of the row that was read, in a state that differs from the one before only by the packet and the
spawned child (`Entered`).
-/
import Maidan.Review.Gate
import Maidan.Claim.Steps

namespace Maidan

open Relational Table Run

/-! ## 1. Separation of duties -/

variable (db : Db)

/-- The `WHERE` of `outside_approval_in_tx`: an approval by a live member of the workspace who is
not the owner and never held the thread, nor submitted by one who is or did. -/
def outsideApproves (t : ThreadRow) (ws : WorkspaceId) (r : ReviewRow) : Bool :=
  let outside := fun m => liveMember db ws m && t.ownerId != some m && !hasWorked db t.id m
  r.threadId == t.id && outside r.reviewerId && r.actorAll outside && standing db r

variable (thread : ThreadId)

/-- `outside_approval_in_tx`. -/
def outsideApprovalInTx : Bool :=
  match db.threads.get? thread with
  | none => false
  | some t =>
    match db.workspaceOf t with
    | none => false
    | some ws =>
      db.threadReviews.rows.any (outsideApproves db t ws) ||
        match readLandGate db thread with
        | .recorded pass => pass.qualifies && liveMember db ws pass.recordedBy
        | _ => false

/-- `separation_of_duties_in_tx`. -/
def separationOfDutiesInTx (thread : ThreadRow) (actor : MemberId) (toState : ThreadState) :
    Except StoreError Unit :=
  if thread.ownerId.isSome && toState.isTerminal &&
      (thread.assigneeId == some actor ||
        (hasWorked db thread.id actor && !outsideApprovalInTx db thread.id)) then
    .error (.conflict ("separation of duties: the claimer cannot land its own work on an owned " ++
      "thread; the owner or another member must perform this transition"))
  else .ok ()

/-! ## 2. Entering review -/

/-- `result_gate_in_tx`. -/
def resultGateInTx : Except StoreError Unit :=
  if decide (0 < requiredCount db thread) && (db.threadResults.get? thread).isNone then
    .error (.conflict ("no result posted: this thread needs approval to close, so a reviewer " ++
      "must have something to approve. Next: post the result (set_thread_result, or " ++
      "PUT /threads/\x7bid\x7d/result), then start_review again"))
  else .ok ()

/-- `provider_family`. -/
def providerFamily (env : Env) (provider : Option String) (model : String) : Option String :=
  familyOf (env.toLowercase (familyText provider model)) (env.toLowercase model.toList)

/-- `review_family_for`: the first family that is not the author's. -/
def reviewFamilyFor (author : String) : Option String :=
  (providerFamilies.map Prod.fst).find? fun family => family != author

/-- The latest usage record of the change's claimant, else of its creator. -/
def authorUsage (t : ThreadRow) (ws : WorkspaceId) : Option UsageRow :=
  firstBy (fun ul => [-ul.acceptedAt, -(ul.usageReportId.val : Int)])
    (db.usageLedger.rows.filter fun ul =>
      ul.threadId == t.id && ul.workspaceId == ws &&
        sqlEq (some ul.reporterId) (t.assigneeId.or t.createdBy))

/-- A review child of `thread` that has not finished. -/
def hasLiveReviewChild : Bool :=
  db.threads.rows.any fun t =>
    t.parentThreadId == some thread && t.tombstonedAt.isNone && !t.state.isTerminal &&
      match db.threadAttributes.get? t.id with
      | none => false
      | some a => a.kind == .review

/-- `INSERT INTO maidan_threads`. -/
def Db.insertThread (row : ThreadRow) : Except StoreError Db :=
  match db.threads.insert? row with
  | none => .error (.database "UNIQUE constraint failed: maidan_threads.id")
  | some threads => .ok { db with threads := threads }

/-- `thread_attributes::insert_on` of a row that holds no ticket. -/
def Db.insertAttributes (row : ThreadAttributesRow) : Except StoreError Db :=
  match db.threadAttributes.insert? row with
  | none => .error (.database "UNIQUE constraint failed: maidan_thread_attributes.thread_id")
  | some attributes => .ok { db with threadAttributes := attributes }

/-- The workspace a thread is in, as its row. -/
def Db.workspaceRowOf (t : ThreadRow) : Option WorkspaceRow :=
  (db.workspaceOf t).bind db.workspaces.get?

/-- `apply_default_engine_on`: the workspace's default, where the thread names no engine. -/
def applyDefaultEngineOn : Db :=
  match ((db.threads.get? thread).bind db.workspaceRowOf).bind WorkspaceRow.defaultEngine with
  | none => db
  | some engine =>
    { db with
      threadAttributes := db.threadAttributes.upsert { threadId := thread, engine := some engine }
        (fun a => { a with engine := a.engine.or (some engine) }) }

/-- The child `spawn_in_tx` opens for a change by `author`'s family. -/
def insertReviewChild (t : ThreadRow) (actor : MemberId) (author : String) (child : ThreadId)
    (now : Int) : Except StoreError Db := do
  let db ← db.insertThread
    { id := child, channelId := t.channelId, parentThreadId := some t.id, createdAt := now,
      createdBy := some actor }
  let db ← db.insertAttributes
    { threadId := child, kind := .review, reviewFamily := reviewFamilyFor author,
      authorFamily := some author }
  return applyDefaultEngineOn db child

/-- The thread carries a kind, and it is not `change`. -/
def isOtherKind : Bool :=
  match db.threadAttributes.get? thread with
  | none => false
  | some a => a.kind != .change

/-- `review_family::spawn_in_tx`. -/
def spawnInTx (env : Env) (db : Db) (t : ThreadRow) (actor : MemberId) (child : ThreadId)
    (now : Int) : Except StoreError Db :=
  if isOtherKind db t.id then .ok db
  else
    match db.workspaceRowOf t with
    | none => .error (.database
        "no rows returned by a query that expected to return at least one row")
    | some ws =>
      if !ws.reviewChildren || hasLiveReviewChild db t.id then .ok db
      else
        match (authorUsage db t ws.id).bind fun ul => providerFamily env ul.provider ul.model with
        | none => .ok db
        | some author => insertReviewChild db t actor author child now

/-! ## 3. The transition -/

/-- The fresh ids a transition may draw, and its readings of the clock. -/
structure Draws where
  transition : TransitionId
  packet : PacketId
  child : ThreadId
  now : Int
  ended : Int

/-- A transition someone asks for. -/
structure TransitionOp where
  thread : ThreadId
  actor : MemberId
  action : ThreadAction
  draws : Draws

/-- What `start_review` does before the state moves. -/
def enterReview (env : Env) (db : Db) (t : ThreadRow) (actor : MemberId) (action : ThreadAction)
    (draws : Draws) : Except StoreError Db :=
  if action = .startReview then do
    resultGateInTx db t.id
    let db ← recordPacketInTx env db t.id draws.packet draws.now
    spawnInTx env db t actor draws.child draws.now
  else .ok db

/-- The gates of a close. -/
def closeGates (env : Env) (db : Db) (thread : ThreadId) (toState : ThreadState) :
    Except StoreError Unit :=
  if toState = .closed then do
    reviewGateInTx env db thread
    landGateInTx db thread
  else .ok ()

/-- `transition_in_spawning`. -/
def transitionInSpawning (env : Env) (db : Db) (thread : ThreadId) (actor : MemberId)
    (action : ThreadAction) (draws : Draws) : Except StoreError Db :=
  match db.threads.get? thread with
  | none => .error .notFound
  | some row =>
    if row.tombstonedAt.isSome then .error .notFound
    else
      match apply row.state action with
      | none => .error (.conflict
          ("invalid transition from " ++ row.state.asStr ++ " via " ++ action.asStr))
      | some toState => do
        separationOfDutiesInTx db row actor toState
        let db ← enterReview env db row actor action draws
        closeGates env db thread toState
        landInTx db row actor toState draws.transition draws.now draws.ended

/-! ## 4. What a transition leaves -/

/-- **What entering review may add**: a packet, and at most one open, unassigned review-family
child of `thread` under a fresh id.  Every thread that was there reads as before. -/
structure Entered (db db' : Db) (thread : ThreadId) : Prop where
  frame : db' = { db with
    reviewPackets := db'.reviewPackets, threads := db'.threads,
    threadAttributes := db'.threadAttributes }
  kept : ∀ {id r}, db.threads.get? id = some r →
    db'.threads.get? id = some r ∧ db'.threadAttributes.get? id = db.threadAttributes.get? id
  fresh : ∀ {id r}, db'.threads.get? id = some r → db.threads.get? id = some r ∨
    (db.threads.get? id = none ∧ r.state = .open ∧ r.assigneeId = none ∧
      isReviewFamilyChild db' id = true)

theorem Entered.refl : Entered db db thread where
  frame := rfl
  kept := fun h => ⟨h, rfl⟩
  fresh := .inl

variable {thread : ThreadId} {now : Int} {action : ThreadAction} {draws : Draws}

theorem Entered.of_packets {db db1 db' : Db}
    (hp : db1 = { db with reviewPackets := db1.reviewPackets }) (h : Entered db1 db' thread) :
    Entered db db' thread where
  frame := by
    rw [h.frame, hp]
  kept := by
    intro id r hg
    have hk := @h.kept id r (by rw [hp]; exact hg)
    rw [hp] at hk
    exact hk
  fresh := by
    intro id r hg
    have hf := h.fresh hg
    rw [hp] at hf
    exact hf

section Specs

variable {env : Env} {db db' : Db} {t : ThreadRow} {actor : MemberId}

theorem insertThread_spec (h : db.insertThread row = .ok db') :
    db' = { db with threads := db'.threads } ∧ db.threads.get? row.id = none ∧
      ∀ id, db'.threads.get? id = if row.id = id then some row else db.threads.get? id := by
  unfold Db.insertThread at h
  split at h
  · cases h
  rename_i threads hins
  injection h with h
  rw [← h]
  exact ⟨rfl, get?_of_insert? hins⟩

theorem insertAttributes_spec (h : db.insertAttributes row = .ok db') :
    db' = { db with threadAttributes := db'.threadAttributes } ∧
      db.threadAttributes.get? row.threadId = none ∧
      ∀ id, db'.threadAttributes.get? id =
        if row.threadId = id then some row else db.threadAttributes.get? id := by
  unfold Db.insertAttributes at h
  split at h
  · cases h
  rename_i attributes hins
  injection h with h
  rw [← h]
  exact ⟨rfl, get?_of_insert? hins⟩

theorem applyDefaultEngineOn_spec (db : Db) (thread : ThreadId) : applyDefaultEngineOn db thread =
        { db with threadAttributes := (applyDefaultEngineOn db thread).threadAttributes } ∧
      (∀ id, id ≠ thread → (applyDefaultEngineOn db thread).threadAttributes.get? id =
        db.threadAttributes.get? id) ∧
      ∀ a, db.threadAttributes.get? thread = some a → ∃ engine,
        (applyDefaultEngineOn db thread).threadAttributes.get? thread =
          some { a with engine := engine } := by
  unfold applyDefaultEngineOn
  split
  · exact ⟨rfl, fun _ _ => rfl, fun a ha => ⟨a.engine, ha⟩⟩
  · rename_i engine _
    refine ⟨rfl, fun id hne => ?_, fun a ha => ⟨a.engine.or (some engine), ?_⟩⟩
    · rw [get?_upsert, if_neg (Ne.symm hne)]
    · rw [get?_upsert, if_pos rfl, ha]
      rfl

/-- **The spawned child** is open, unassigned and of the review family. -/
theorem insertReviewChild_spec {author : String}
    (h : insertReviewChild db t actor author child now = .ok db')
    (hfam : (reviewFamilyFor author).isSome) : Entered db db' t.id := by
  obtain ⟨db1, h1, h⟩ := bind_ok h
  obtain ⟨db2, h2, h⟩ := bind_ok h
  obtain ⟨hf1, hn1, hg1⟩ := insertThread_spec h1
  obtain ⟨hf2, hn2, hg2⟩ := insertAttributes_spec h2
  injection h with h
  obtain ⟨hf3, hne3, hat3⟩ := applyDefaultEngineOn_spec db2 child
  rw [h] at hf3 hne3 hat3
  have hthreads : db'.threads = db1.threads := by
    rw [hf3, hf2]
  refine ⟨?_, ?_, ?_⟩
  · rw [hf3, hf2, hf1]
  · intro id r hg
    have hne : id ≠ child := by
      rintro rfl
      rw [hn1] at hg
      cases hg
    refine ⟨?_, ?_⟩
    · rw [hthreads, hg1, if_neg (Ne.symm hne)]
      exact hg
    · rw [hne3 id hne, hg2, if_neg (Ne.symm hne), hf1]
  · intro id r hg
    rw [hthreads, hg1] at hg
    split at hg
    · rename_i he
      obtain rfl := Option.some.inj hg
      obtain rfl : child = id := he
      refine .inr ⟨hn1, rfl, rfl, ?_⟩
      obtain ⟨engine, ha⟩ := hat3 _ ((hg2 child).trans (if_pos rfl))
      unfold isReviewFamilyChild
      rw [ha]
      simp [hfam]
    · exact .inl hg

theorem reviewFamilyFor_isSome (author : String) : (reviewFamilyFor author).isSome := by
  unfold reviewFamilyFor
  rw [List.find?_isSome]
  by_cases h : "anthropic" = author
  · exact ⟨"openai", by decide, by simp [← h]⟩
  · exact ⟨"anthropic", by decide, by simpa using h⟩

theorem spawnInTx_spec (h : spawnInTx env db t actor child now = .ok db') :
    Entered db db' t.id := by
  unfold spawnInTx at h
  split at h
  · injection h with h
    exact h ▸ Entered.refl db t.id
  · split at h
    · cases h
    split at h
    · injection h with h
      exact h ▸ Entered.refl db t.id
    · split at h
      · injection h with h
        exact h ▸ Entered.refl db t.id
      · rename_i author _
        exact insertReviewChild_spec h (reviewFamilyFor_isSome author)

theorem recordPacketInTx_spec (h : recordPacketInTx env db thread packet now = .ok db') :
    db' = { db with reviewPackets := db'.reviewPackets } := by
  unfold recordPacketInTx at h
  dsimp only at h
  split at h
  · cases h
  injection h with h
  rw [← h]

theorem enterReview_spec (h : enterReview env db t actor action draws = .ok db') :
    Entered db db' t.id := by
  unfold enterReview at h
  split at h
  · obtain ⟨_, _, h⟩ := bind_ok h
    obtain ⟨db1, hp, h⟩ := bind_ok h
    exact Entered.of_packets (recordPacketInTx_spec hp) (spawnInTx_spec h)
  · injection h with h
    exact h ▸ Entered.refl db t.id

/-- **A committed transition** is a landing of the row that was read, in a state that entering
review may have prepared. -/
theorem transitionInSpawning_spec
    (h : transitionInSpawning env db thread actor action draws = .ok db') :
    ∃ row toState db1, db.threads.get? thread = some row ∧ apply row.state action = some toState ∧
      Entered db db1 row.id ∧ (action ≠ .startReview → db1 = db) ∧
      landInTx db1 row actor toState draws.transition draws.now draws.ended = .ok db' := by
  unfold transitionInSpawning at h
  cases hg : db.threads.get? thread with
  | none => simp [hg] at h
  | some row =>
    simp only [hg] at h
    split at h
    · cases h
    split at h
    · cases h
    rename_i toState ha
    obtain ⟨_, _, h⟩ := bind_ok h
    obtain ⟨db1, he, h⟩ := bind_ok h
    obtain ⟨_, _, h⟩ := bind_ok h
    refine ⟨row, toState, db1, rfl, ha, enterReview_spec he, fun hne => ?_, h⟩
    unfold enterReview at he
    rw [if_neg hne] at he
    injection he with he
    exact he.symm

end Specs

/-! ## 5. The move, read off the tables -/

theorem Entered.exempt_eq {db db' : Db} {id : ThreadId} (h : Entered db db' thread)
    (hg : db.threads.get? id = some r) : exempt db' id = exempt db id := by
  unfold exempt isPlanChild isReviewFamilyChild
  rw [(h.kept hg).2]
  rw [h.frame]

/-- **The guard's promise**: a thread that is not exempt lands at most at its parent's rank. -/
theorem parentCheck_ranked {db : Db} {id : ThreadId} (h : parentCheck db row toState = .ok ())
    (hex : exempt db row.id = false) (hp : row.parentThreadId = some id)
    (hg : db.threads.get? id = some parent) : stateRank toState ≤ stateRank parent.state := by
  unfold parentCheck at h
  simp only [hp, hg, hex, Bool.false_eq_true, if_false] at h
  split at h
  · cases h
  rename_i hok
  exact (parentAllowsTransition_eq_ok.mp hok).2

theorem ThreadRow.land_state (r : ThreadRow) (s : ThreadState) : (r.land s).state = s := by
  unfold ThreadRow.land
  split <;> rfl

/-- **The tables a transition may write.** -/
theorem transitionInSpawning_frame {env : Env} {db db' : Db} {actor : MemberId}
    (h : transitionInSpawning env db thread actor action draws = .ok db') : db' = { db with
      reviewPackets := db'.reviewPackets, threads := db'.threads,
      threadAttributes := db'.threadAttributes, threadBudgets := db'.threadBudgets,
      threadTransitions := db'.threadTransitions } := by
  obtain ⟨row, toState, db1, hg, _, hent, _, hland⟩ := transitionInSpawning_spec h
  obtain rfl := get?_self hg
  obtain ⟨_, transitions, _, hdb⟩ := landInTx_spec (hent.kept hg).1 hland
  rw [hdb, hent.frame]
  rfl

/-- **What a committed transition did to the threads**: `row` moved to `toState`, every other
thread that was there reads as before, and `row` was allowed past its parent. -/
structure Moved (db db' : Db) (action : ThreadAction) (row : ThreadRow) (toState : ThreadState) :
    Prop where
  there : db.threads.get? row.id = some row
  applied : apply row.state action = some toState
  self : db'.threads.get? row.id = some (row.land toState)
  others : ∀ {id r}, id ≠ row.id → db.threads.get? id = some r → db'.threads.get? id = some r
  fresh : ∀ {id r}, db'.threads.get? id = some r → db.threads.get? id = none →
    r.assigneeId = none
  exemption : ∀ {id r}, db.threads.get? id = some r → exempt db' id = exempt db id
  guarded : exempt db row.id = false → ∀ {id parent}, row.parentThreadId = some id →
    db.threads.get? id = some parent → stateRank toState ≤ stateRank parent.state

theorem transitionInSpawning_moved {env : Env} {db db' : Db} {actor : MemberId}
    (h : transitionInSpawning env db thread actor action draws = .ok db') :
    ∃ row toState, row.id = thread ∧ Moved db db' action row toState := by
  obtain ⟨row, toState, db1, hg, ha, hent, _, hland⟩ := transitionInSpawning_spec h
  obtain rfl := get?_self hg
  obtain ⟨hcheck, transitions, _, hdb⟩ := landInTx_spec (hent.kept hg).1 hland
  have hthreads : db'.threads =
      db1.threads.update row.id (·.land toState) (ThreadRow.land_id toState) := by
    rw [hdb]
    rfl
  refine ⟨row, toState, rfl, ⟨hg, ha, ?_, ?_, ?_, ?_, ?_⟩⟩
  · rw [hthreads, get?_update, if_pos rfl, (hent.kept hg).1]
    rfl
  · intro id r hne hr
    rw [hthreads, get?_update_ne _ _ _ hne]
    exact (hent.kept hr).1
  · intro id r hr hnone
    have hne : id ≠ row.id := by
      rintro rfl
      rw [hg] at hnone
      cases hnone
    rw [hthreads, get?_update_ne _ _ _ hne] at hr
    rcases hent.fresh hr with hold | ⟨_, _, hfree, _⟩
    · rw [hold] at hnone
      cases hnone
    · exact hfree
  · intro id r hr
    have hex : exempt db' id = exempt db1 id := by
      rw [hdb]
      rfl
    exact hex.trans (hent.exempt_eq hr)
  · intro hex id parent hp hgp
    exact parentCheck_ranked hcheck ((hent.exempt_eq hg).trans hex) hp (hent.kept hgp).1

end Maidan
