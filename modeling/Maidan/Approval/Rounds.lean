/-
# Review rounds, and the clocks that count them

A thread may be sent back from review `max_rounds` times; then a person decides at a gate, and an
accepted gate starts the count again.  `round_standing` counts by TIMES: the send-backs whose
`occurred_at` is past the latest accepted gate's `resolved_at`.  The two are written by two paths:

* `land_in_tx` keeps a send-back past the latest accepted gate, whatever the clock says
  (`after_floor`);
* `resolve_on` writes the clock as it reads it.

So the count is the number of rounds as long as no gate is accepted at a reading before a send-back
that still counts (`RoundOp.inOrder`), and this is what `rounds_are_counted` is about.  Without it
the send-backs before the gate go on counting: `stepped_back_clock_counts_twice`.

* §1 the steps, §2 what the count depends on, §3 what each step does to it, §4 runs.
-/
import Maidan.Approval.Gates
import Maidan.Plan.Completion

namespace Maidan

open Relational Table Run List

/-! ## 1. The steps -/

/-- What a round is made of. -/
inductive RoundOp
  | startReview (thread : ThreadId) (actor : MemberId) (draws : Draws)
  | requestChanges (thread : ThreadId) (actor : MemberId) (gate : GateId) (draws : Draws)
  | submitReview (review : Submission)
  | gate (op : GateOp)

variable (env : Env)

/-- One transaction on the tables of a room. -/
def roundTx (s : GateRoom) : RoundOp → Except StoreError GateRoom
  | .startReview thread actor draws => do
    let db ← transitionInSpawning env s.db thread actor .startReview draws
    return { s with db := db }
  | .requestChanges thread actor gate draws => do
    let db ← sendBackInTx env s.db thread actor draws gate
    return { s with db := db }
  | .submitReview review => do
    let db ← submitReviewOn env s.db review
    return { s with db := db }
  | .gate op => (gateTx s op).map Prod.fst

def roundNext (s : GateRoom) (op : RoundOp) : GateRoom := settle s (roundTx env s op)

/-- The decision a transaction on the gates makes, if any. -/
def GateOp.decision (s : GateRoom) : GateOp → Option (GateId × GateDecision)
  | .resolve id resolvedBy state content attribution now =>
    some (id, { resolvedBy, state, content, attribution, now })
  | .resolveAudited id resolvedBy state content via attribution now =>
    some (id, { resolvedBy, state, content, via := some via, attribution, now })
  | .confirm ask attribution now =>
    (s.links.rows.find? (·.spendable ask)).map fun c => (c.gateId, c.decision ask attribution now)
  | _ => none

/-- A pending round cap of the thread. -/
def ApprovalGateRow.pendingCap (g : ApprovalGateRow) (thread : ThreadId) : Bool :=
  g.threadId == some thread && g.kind == .reviewRoundCap && g.state == .pending

/-- The decision accepts a round cap of the thread. -/
def acceptsCap (db : Db) (thread : ThreadId) (decided : GateId × GateDecision) : Bool :=
  decided.2.state == .accepted && (db.approvalGates.get? decided.1).any fun g => g.pendingCap thread

/-- What a history has of one thread's rounds. -/
inductive RoundEvent
  | sentBack
  | accepted
deriving DecidableEq, Repr

variable (thread : ThreadId)

/-- What a step did to the rounds of `thread`: it took it from review back to open, or it accepted
its round cap. -/
def roundEvent (s : GateRoom) (op : RoundOp) : Option RoundEvent :=
  match op with
  | .gate op => if (op.decision s).any (acceptsCap s.db thread) then some .accepted else none
  | op =>
    if stateIn s.db thread = some .inReview ∧
        stateIn (roundNext env s op).db thread = some .open then some .sentBack
    else none

/-- The rounds of `thread` over a run. -/
def roundHistory (s : GateRoom) (ops : List RoundOp) : List RoundEvent :=
  (outputs (roundNext env) (roundEvent env thread) s ops).reduceOption

/-- **The send-backs after the latest accepted gate.** -/
def sinceAccepted (history : List RoundEvent) : Nat :=
  (history.reverse.takeWhile (· == .sentBack)).length

theorem sinceAccepted_sentBack (history : List RoundEvent) :
    sinceAccepted (history ++ [.sentBack]) = sinceAccepted history + 1 := by
  simp [sinceAccepted]

theorem sinceAccepted_accepted (history : List RoundEvent) :
    sinceAccepted (history ++ [.accepted]) = 0 := by
  simp [sinceAccepted]

theorem roundHistory_concat (s : GateRoom) (ops : List RoundOp) (op : RoundOp) :
    roundHistory env thread s (ops ++ [op]) = roundHistory env thread s ops ++
      (roundEvent env thread (exec (roundNext env) s ops) op).toList := by
  unfold roundHistory
  rw [outputs_concat, reduceOption_append]
  cases roundEvent env thread (exec (roundNext env) s ops) op <;> rfl

/-! ## 2. What the count depends on -/

variable {actor : MemberId} {x : ThreadId} {draws : Draws} {op : RoundOp}

section Counts

variable {db db' : Db} {thread : ThreadId} {tr : TransitionRow}

theorem mem_acceptedCaps :
    r ∈ acceptedCaps db thread ↔ ∃ g ∈ db.approvalGates.rows, g.threadId = some thread ∧
      g.kind = .reviewRoundCap ∧ g.state = .accepted ∧ g.resolvedAt = some r := by
  simp [acceptedCaps, mem_filterMap, mem_filter, and_assoc]

/-- A send-back of the thread, whenever it was. -/
def TransitionRow.isRound (tr : TransitionRow) (thread : ThreadId) : Bool :=
  tr.threadId == thread && tr.fromState == .inReview && tr.toState == .open

/-- **A send-back counts** when it is past every accepted gate. -/
theorem isSendBack_iff : isSendBack (roundFloor db thread) thread tr = true ↔
      tr.isRound thread = true ∧ ∀ r ∈ acceptedCaps db thread, r < tr.occurredAt := by
  unfold isSendBack TransitionRow.isRound roundFloor
  rw [Bool.and_eq_true]
  refine and_congr_right fun _ => ?_
  cases hmax : (acceptedCaps db thread).max? with
  | none => simp [max?_eq_none_iff.mp hmax]
  | some cut =>
    obtain ⟨hmem, hle⟩ := max?_eq_some_iff.mp hmax
    simp only [decide_eq_true_eq]
    exact ⟨fun hlt r hr => lt_of_le_of_lt (hle r hr) hlt, fun hall => hall cut hmem⟩

section

variable (hcaps : ∀ r, r ∈ acceptedCaps db' thread ↔ r ∈ acceptedCaps db thread)
include hcaps

theorem sendBacks_eq : sendBacks db' thread =
      (db'.threadTransitions.rows.filter (isSendBack (roundFloor db thread) thread)).length := by
  unfold sendBacks
  have hsame : isSendBack (roundFloor db' thread) thread = isSendBack (roundFloor db thread) thread := by
    funext tr
    rw [Bool.eq_iff_iff, isSendBack_iff, isSendBack_iff]
    simp only [hcaps]
  rw [hsame]

theorem sendBacks_congr (hrows : db'.threadTransitions.rows = db.threadTransitions.rows) :
    sendBacks db' thread = sendBacks db thread := by
  rw [sendBacks_eq hcaps, hrows]
  rfl

theorem sendBacks_append (hrows : db'.threadTransitions.rows = db.threadTransitions.rows ++ [tr]) :
    sendBacks db' thread = sendBacks db thread +
      if isSendBack (roundFloor db thread) thread tr then 1 else 0 := by
  rw [sendBacks_eq hcaps, hrows, filter_append, length_append]
  unfold sendBacks
  cases hcounts : isSendBack (roundFloor db thread) thread tr <;> simp [hcounts]

end

/-- **A send-back is written past the gate**, whatever the clock reads. -/
theorem landingRow_counts (hrow : row.state = .inReview) :
    isSendBack (roundFloor db row.id) row.id (landingRow db row actor .open transition now) =
      true := by
  refine isSendBack_iff.mpr ⟨by simp [TransitionRow.isRound, landingRow, hrow], fun r hr => ?_⟩
  simp only [landingRow, occurredAt, hrow, and_self, if_true]
  unfold roundFloor
  cases hmax : (acceptedCaps db row.id).max? with
  | none =>
    rw [max?_eq_none_iff.mp hmax] at hr
    cases hr
  | some =>
    have hle := (max?_eq_some_iff.mp hmax).2 r hr
    simp only [afterFloor]
    split <;> omega

end Counts

/-! ## 3. What each step does -/

section Steps

variable {env : Env} {db db' : Db} {thread : ThreadId}

theorem acceptedCaps_congr (h : db'.approvalGates = db.approvalGates) (r : Int) :
    r ∈ acceptedCaps db' thread ↔ r ∈ acceptedCaps db thread := by
  unfold acceptedCaps
  rw [h]

/-- **A transition** writes one row, and no gate. -/
theorem transitionInSpawning_row (h : transitionInSpawning env db x actor action draws = .ok db') :
    ∃ row toState, row.id = x ∧ Moved db db' action row toState ∧
      db'.threadTransitions.rows = db.threadTransitions.rows ++
        [landingRow db row actor toState draws.transition draws.now] ∧
      db'.approvalGates = db.approvalGates ∧ db'.threadReviewReqs = db.threadReviewReqs := by
  obtain ⟨row, toState, db1, hg, happly, hent, _, hland⟩ := transitionInSpawning_spec h
  obtain ⟨_, _, rfl, hmoved⟩ := transitionInSpawning_moved h
  obtain rfl := mem_unique hg hmoved.there
  obtain rfl := mem_unique happly hmoved.applied
  obtain ⟨_, transitions, hrows, hdb⟩ := landInTx_spec (hent.kept hg).1 hland
  have hfloor : roundFloor db1 row.id = roundFloor db row.id := by
    unfold roundFloor acceptedCaps
    rw [hent.frame]
  have hrow : landingRow db1 row actor toState draws.transition draws.now =
      landingRow db row actor toState draws.transition draws.now := by
    simp only [landingRow, occurredAt, hfloor]
  refine ⟨row, toState, rfl, hmoved, ?_, ?_, ?_⟩
  · have htransitions : db'.threadTransitions = transitions := by
      rw [hdb]
      rfl
    rw [htransitions, hrows, hrow, hent.frame]
  · rw [transitionInSpawning_frame h]
  · rw [transitionInSpawning_frame h]

/-- **The escalation** writes no row, and opens a gate exactly at the cap. -/
theorem escalateRoundCap_opens (h : escalateRoundCap db x gate = .ok db') :
    db'.threadTransitions = db.threadTransitions ∧ (∀ y, stateIn db' y = stateIn db y) ∧
      ((roundCapReached db x = false ∧ db'.approvalGates = db.approvalGates) ∨
        (roundCapReached db x = true ∧ db.approvalGates.get? gate = none ∧
          db'.approvalGates.rows = db.approvalGates.rows ++
            [{ id := gate, threadId := some x, kind := .reviewRoundCap, state := .pending }])) := by
  rcases escalateRoundCap_cases h with ⟨hcap, rfl⟩ | ⟨hcap, gates, hinsert, rfl⟩
  · exact ⟨rfl, fun _ => rfl, .inl ⟨hcap, rfl⟩⟩
  · refine ⟨rfl, fun y => ?_, .inr ⟨hcap, (get?_of_insert? hinsert).1, rows_of_insert? hinsert⟩⟩
    unfold stateIn
    change ((db.threads.update x ThreadRow.clearClaim ThreadRow.clearClaim_id).get? y).map _ = _
    rw [get?_update]
    split
    · cases db.threads.get? y <;> rfl
    · rfl

theorem acceptedCaps_insert (hgate : gate.state = .pending)
    (h : db'.approvalGates.rows = db.approvalGates.rows ++ [gate]) (r : Int) :
    r ∈ acceptedCaps db' thread ↔ r ∈ acceptedCaps db thread := by
  rw [mem_acceptedCaps, mem_acceptedCaps, h]
  constructor
  · rintro ⟨g, hg, hthread, hkind, hstate, hat⟩
    rcases mem_append.mp hg with hold | hnew
    · exact ⟨g, hold, hthread, hkind, hstate, hat⟩
    · obtain rfl := mem_singleton.mp hnew
      rw [hgate] at hstate
      cases hstate
  · rintro ⟨g, hg, hrest⟩
    exact ⟨g, mem_append_left _ hg, hrest⟩

/-- **A decision** adds its reading to the accepted ones exactly when it accepts a round cap. -/
theorem acceptedCaps_resolveOn (decided : GateId × GateDecision) (r : Int) :
    r ∈ acceptedCaps (resolveOn db decided.1 decided.2).1 thread ↔
      r ∈ acceptedCaps db thread ∨ (acceptsCap db thread decided = true ∧ r = decided.2.now) := by
  obtain ⟨id, d⟩ := decided
  simp only [acceptsCap]
  rcases resolveOn_cases db id d with ⟨hsame, hnone⟩ | ⟨gate, hget, hpending, _, hgates⟩
  · have hno : (db.approvalGates.get? id).any (fun g => g.pendingCap thread) = false := by
      cases hg : db.approvalGates.get? id with
      | none => rfl
      | some g => simp [ApprovalGateRow.pendingCap, hnone g hg]
    rw [hsame, hno]
    simp
  · have hid : gate.id = id := key_of_get? hget
    have hmem : gate ∈ db.approvalGates.rows := mem_of_get? hget
    rw [mem_acceptedCaps, mem_acceptedCaps, hgates, hget]
    simp only [Table.update, mem_updateWhere, decide_eq_true_eq]
    constructor
    · rintro ⟨g', ⟨g, hg, rfl⟩, hthread, hkind, hstate, hat⟩
      by_cases hgid : g.id = id
      · obtain rfl := eq_of_key_eq hg hmem (hgid.trans hid.symm)
        rw [if_pos hgid] at hthread hkind hstate hat
        refine .inr ⟨?_, (Option.some.inj hat).symm⟩
        simpa [ApprovalGateRow.pendingCap, hpending] using ⟨hstate, hthread, hkind⟩
      · rw [if_neg hgid] at hthread hkind hstate hat
        exact .inl ⟨g, hg, hthread, hkind, hstate, hat⟩
    · rintro (⟨g, hg, hthread, hkind, hstate, hat⟩ | ⟨haccepts, rfl⟩)
      · have hgid : g.id ≠ id := by
          intro hgid
          obtain rfl := eq_of_key_eq hg hmem (hgid.trans hid.symm)
          rw [hpending] at hstate
          cases hstate
        exact ⟨g, ⟨g, hg, if_neg hgid⟩, hthread, hkind, hstate, hat⟩
      · simp only [Option.any_some, ApprovalGateRow.pendingCap, Bool.and_eq_true, beq_iff_eq]
          at haccepts
        obtain ⟨haccepted, ⟨hthread, hkind⟩, _⟩ := haccepts
        exact ⟨_, ⟨gate, hmem, if_pos hid⟩, hthread, hkind, haccepted, rfl⟩

/-- A round cap of `thread` that was not there before. -/
def opensCap (db db' : Db) (thread : ThreadId) : Bool :=
  db'.approvalGates.rows.any fun g =>
    g.threadId == some thread && g.kind == .reviewRoundCap && (db.approvalGates.get? g.id).isNone

theorem opensCap_same (h : db'.approvalGates = db.approvalGates) :
    opensCap db db' thread = false := by
  unfold opensCap
  rw [h, any_eq_false]
  intro g hg
  simp [get?_of_mem hg]

/-- **A send-back of `x`**: one more for it and none for others, and a gate at the cap. -/
structure SentBack (db db' : Db) (x : ThreadId) : Prop where
  was : stateIn db x = some .inReview
  now : stateIn db' x = some .open
  others : ∀ {y q}, y ≠ x → stateIn db y = some q → stateIn db' y = some q
  counts : ∀ y, sendBacks db' y = sendBacks db y + if y = x then 1 else 0
  opens : ∀ y, opensCap db db' y = true ↔ y = x ∧ maxRounds db x ≠ 0 ∧
    roundCapPending db x = false ∧ maxRounds db x ≤ sendBacks db' x

/-- **A step that sends nothing back.** -/
structure Unmoved (db db' : Db) : Prop where
  states : ∀ {y}, stateIn db y = some .inReview → stateIn db' y ≠ some .open
  counts : ∀ y, sendBacks db' y = sendBacks db y
  gates : db'.approvalGates = db.approvalGates

theorem Unmoved.of_same (hthreads : db'.threads = db.threads)
    (htransitions : db'.threadTransitions = db.threadTransitions)
    (hgates : db'.approvalGates = db.approvalGates) : Unmoved db db' where
  states := by
    intro y hy
    unfold stateIn at hy ⊢
    rw [hthreads, hy]
    exact nofun
  counts := fun y => sendBacks_congr (acceptedCaps_congr hgates) (by rw [htransitions])
  gates := hgates

/-- **A change request that sends back**: the transition, then the escalation; in between at most
reviews are written. -/
theorem sentBack_of_parts
    (htransition : transitionInSpawning env db x actor .requestChanges draws = .ok db1)
    (hescalate : escalateRoundCap { db1 with threadReviews := reviews } x gate = .ok db') :
    SentBack db db' x := by
  obtain ⟨row, toState, rfl, hmoved, hrow, hgates, hreqs⟩ := transitionInSpawning_row htransition
  obtain ⟨hwas, rfl⟩ : row.state = .inReview ∧ toState = .open := by
    have happly := hmoved.applied
    cases hq : row.state <;> rw [hq] at happly <;> cases happly
    exact ⟨rfl, rfl⟩
  obtain ⟨hthere, hself⟩ := hmoved.stateIn_self
  obtain ⟨htransitions, hstates, hopened⟩ := escalateRoundCap_opens hescalate
  have hstate : ∀ y, stateIn db' y = stateIn db1 y := hstates
  have hcaps : ∀ y r, r ∈ acceptedCaps db' y ↔ r ∈ acceptedCaps db y := by
    intro y r
    have hbefore := @acceptedCaps_congr db { db1 with threadReviews := reviews } y hgates r
    rcases hopened with ⟨_, hsame⟩ | ⟨_, _, hinsert⟩
    · exact (acceptedCaps_congr hsame r).trans hbefore
    · exact (acceptedCaps_insert rfl hinsert r).trans hbefore
  have hcounts : ∀ y, sendBacks db' y = sendBacks db y + if y = row.id then 1 else 0 := by
    intro y
    rw [sendBacks_append (hcaps y) (by rw [htransitions, hrow])]
    by_cases hy : y = row.id
    · subst hy
      rw [landingRow_counts hwas, if_pos rfl, if_pos rfl]
    · have hnot : isSendBack (roundFloor db y) y
          (landingRow db row actor .open draws.transition draws.now) = false := by
        simp [isSendBack, landingRow, Ne.symm hy]
      rw [hnot, if_neg hy]
      rfl
  refine ⟨hwas ▸ hthere, (hstate _).trans hself, ?_, hcounts, fun y => ?_⟩
  · intro y q hy hq
    rw [hstate]
    exact hmoved.stateIn_others hy hq
  · have hreached : roundCapReached { db1 with threadReviews := reviews } row.id = true ↔
        maxRounds db row.id ≠ 0 ∧ roundCapPending db row.id = false ∧
          maxRounds db row.id ≤ sendBacks db' row.id := by
      have hmax : maxRounds db1 row.id = maxRounds db row.id := by
        unfold maxRounds
        rw [hreqs]
      have hpending : roundCapPending db1 row.id = roundCapPending db row.id := by
        unfold roundCapPending
        rw [hgates]
      have hsend : sendBacks db' row.id = sendBacks db1 row.id :=
        sendBacks_congr (fun r => (hcaps row.id r).trans (acceptedCaps_congr hgates r).symm)
          (by rw [htransitions])
      rw [hsend, ← hmax, ← hpending]
      change roundCapReached db1 row.id = true ↔ _
      simp [roundCapReached, and_assoc]
    rcases hopened with ⟨hno, hsame⟩ | ⟨hyes, hfree, hinsert⟩
    · rw [opensCap_same (hsame.trans hgates), ← hreached, hno]
      simp
    · have hopens : opensCap db db' y = true ↔ y = row.id := by
        unfold opensCap
        rw [hinsert, hgates, any_append, Bool.or_eq_true]
        rw [hgates] at hfree
        have hold : (db.approvalGates.rows.any fun g => g.threadId == some y &&
            g.kind == .reviewRoundCap && (db.approvalGates.get? g.id).isNone) = false :=
          @opensCap_same db db y rfl
        simp only [hold, hfree, Bool.false_eq_true, false_or, any_cons, any_nil,
          Bool.or_false, Option.isNone_none, Bool.and_true, beq_self_eq_true, beq_iff_eq,
          Option.some.injEq]
        exact eq_comm
      rw [hopens, ← hreached]
      exact ⟨fun hy => ⟨hy, hyes⟩, fun hy => hy.1⟩

theorem unmoved_of_startReview
    (h : transitionInSpawning env db x actor .startReview draws = .ok db') : Unmoved db db' := by
  obtain ⟨row, toState, rfl, hmoved, hrow, hgates, _⟩ := transitionInSpawning_row h
  obtain rfl : toState = .inReview := by
    have happly := hmoved.applied
    cases hq : row.state <;> rw [hq] at happly <;> cases happly
    rfl
  refine ⟨fun {y} hy => ?_, fun y => ?_, hgates⟩
  · by_cases hyx : y = row.id
    · rw [hyx, hmoved.stateIn_self.2]
      exact nofun
    · rw [hmoved.stateIn_others hyx hy]
      exact nofun
  · rw [sendBacks_append (acceptedCaps_congr hgates) hrow]
    have hnot : isSendBack (roundFloor db y) y
        (landingRow db row actor .inReview draws.transition draws.now) = false := by
      simp [isSendBack, landingRow]
    rw [hnot]
    simp

/-- **Every step but those on gates** sends one thread back, or none. -/
theorem roundTx_moves (hop : ∀ g, op ≠ .gate g) (h : roundTx env s op = .ok s') :
    (∃ x, SentBack s.db s'.db x) ∨ Unmoved s.db s'.db := by
  cases op with
  | startReview =>
    obtain ⟨db', htransition, h⟩ := bind_ok h
    cases h
    exact .inr (unmoved_of_startReview htransition)
  | requestChanges x =>
    obtain ⟨db', hsend, h⟩ := bind_ok h
    cases h
    obtain ⟨db1, htransition, hsend⟩ := bind_ok hsend
    obtain ⟨_, _, hescalate⟩ := bind_ok hsend
    exact .inl ⟨x, sentBack_of_parts htransition hescalate⟩
  | submitReview review =>
    obtain ⟨db', hsubmit, h⟩ := bind_ok h
    cases h
    rcases submitReviewOn_cases hsubmit with hput | ⟨_, db1, htransition, hescalate⟩
    · rw [hput]
      exact .inr (.of_same rfl rfl rfl)
    · have hsent : SentBack (s.db.putReview review.row) db' review.thread :=
        sentBack_of_parts htransition hescalate
      exact .inl ⟨review.thread, ⟨hsent.was, hsent.now, hsent.others, hsent.counts, hsent.opens⟩⟩
  | gate g => exact absurd rfl (hop g)

/-- **A step on the gates** makes a decision, or at most a gate that is no round cap. -/
theorem gateNext_db (s : GateRoom) (op : GateOp) :
    (∃ decided, op.decision s = some decided ∧
      (gateNext s op).db = (resolveOn s.db decided.1 decided.2).1) ∨
    (op.decision s = none ∧ (gateNext s op).db.threadTransitions = s.db.threadTransitions ∧
      ((gateNext s op).db.approvalGates = s.db.approvalGates ∨
        ∃ id x, (gateNext s op).db.approvalGates.rows = s.db.approvalGates.rows ++
          [{ id := id, threadId := x, kind := .request, state := .pending }])) := by
  cases op with
  | create id x =>
    refine .inr ⟨rfl, ?_⟩
    simp only [gateNext, gateTx]
    cases hcreate : createGate s.db id x with
    | error => exact ⟨rfl, .inl rfl⟩
    | ok =>
      unfold createGate at hcreate
      split at hcreate
      · cases hcreate
      split at hcreate
      · cases hcreate
      rename_i gates hinsert
      cases hcreate
      exact ⟨rfl, .inr ⟨id, x, Table.rows_of_insert? hinsert⟩⟩
  | resolve | resolveAudited => exact .inl ⟨_, rfl, rfl⟩
  | issue new =>
    refine .inr ⟨rfl, ?_⟩
    simp only [gateNext, gateTx]
    cases hissue : issueConfirmation s new with
    | error => exact ⟨rfl, .inl rfl⟩
    | ok result =>
      obtain ⟨s', link, fresh⟩ := result
      have hdb : s'.db = s.db := by
        rcases issueConfirmation_cases hissue with ⟨_, rfl⟩ | ⟨_, hdb, _⟩
        · rfl
        · exact hdb
      change s'.db.threadTransitions = _ ∧ (s'.db.approvalGates = _ ∨ _)
      rw [hdb]
      exact ⟨rfl, .inl rfl⟩
  | confirm ask attribution now =>
    have hnext : gateNext s (.confirm ask attribution now) = (confirm s ask attribution now).1 := rfl
    rw [hnext]
    simp only [confirm, GateOp.decision]
    cases s.links.rows.find? (·.spendable ask) with
    | none => exact .inr ⟨rfl, rfl, .inl rfl⟩
    | some c => exact .inl ⟨(c.gateId, c.decision ask attribution now), rfl, rfl⟩

theorem resolveOn_transitions (db : Db) (id : GateId) (d : GateDecision) :
    (resolveOn db id d).1.threadTransitions = db.threadTransitions := by
  unfold resolveOn holdRound
  split
  · rfl
  · split
    · split
      · split <;> rfl
      · rfl
    · rfl

theorem opensCap_resolveOn (db : Db) (id : GateId) (d : GateDecision) (thread : ThreadId) :
    opensCap db (resolveOn db id d).1 thread = false := by
  rcases resolveOn_cases db id d with ⟨hsame, _⟩ | ⟨gate, _, _, _, hgates⟩
  · rw [hsame]
    exact opensCap_same rfl
  · unfold opensCap
    rw [hgates, any_eq_false]
    intro g hg
    have hsome : (db.approvalGates.get? g.id).isSome = true := by
      have hget := get?_of_mem hg
      rw [get?_update] at hget
      split at hget
      · cases hold : db.approvalGates.get? g.id with
        | none => simp [hold] at hget
        | some => rfl
      · rw [hget]
        rfl
    obtain ⟨old, hold⟩ := isSome_iff_exists.mp hsome
    simp [hold]

end Steps

/-! ## 4. Runs -/

/-- **The step is in order**: a decision that accepts a round cap of `thread` is not taken at a
reading before a send-back that still counts. -/
def RoundOp.inOrder (s : GateRoom) : RoundOp → Bool
  | .gate op => (op.decision s).all fun decided => !acceptsCap s.db thread decided ||
      (s.db.threadTransitions.rows.filter (isSendBack (roundFloor s.db thread) thread)).all fun tr =>
        decide (tr.occurredAt ≤ decided.2.now)
  | _ => true

/-- The count after an event. -/
def RoundEvent.count : Option RoundEvent → Int → Int
  | some .sentBack, n => n + 1
  | some .accepted, _ => 0
  | none, n => n

theorem sinceAccepted_append (history : List RoundEvent) (event : Option RoundEvent) :
    (sinceAccepted (history ++ event.toList) : Int) =
      RoundEvent.count event (sinceAccepted history) := by
  cases event with
  | none => simp [RoundEvent.count]
  | some event =>
    cases event with
    | sentBack => simp [RoundEvent.count, sinceAccepted_sentBack]
    | accepted => simp [RoundEvent.count, sinceAccepted_accepted]

/-- **A step counts what it did**, and opens a gate exactly with a send-back that reaches the cap. -/
def Counted (s : GateRoom) (op : RoundOp) : Prop :=
  sendBacks (roundNext env s op).db thread =
      RoundEvent.count (roundEvent env thread s op) (sendBacks s.db thread) ∧
    (opensCap s.db (roundNext env s op).db thread = true ↔
      roundEvent env thread s op = some .sentBack ∧ maxRounds s.db thread ≠ 0 ∧
        roundCapPending s.db thread = false ∧
        maxRounds s.db thread ≤ sendBacks (roundNext env s op).db thread)

section Runs

variable {env : Env} {thread : ThreadId} {s : GateRoom}

theorem counted_of_move (hop : ∀ g, op ≠ .gate g) : Counted env thread s op := by
  unfold Counted
  have hevent : roundEvent env thread s op =
      if stateIn s.db thread = some .inReview ∧
        stateIn (roundNext env s op).db thread = some .open then some .sentBack else none := by
    cases op with
    | gate g => exact absurd rfl (hop g)
    | startReview | requestChanges | submitReview => rfl
  have hmoves : (∃ x, SentBack s.db (roundNext env s op).db x) ∨
      Unmoved s.db (roundNext env s op).db := by
    unfold roundNext
    cases htx : roundTx env s op with
    | error => exact .inr (.of_same rfl rfl rfl)
    | ok => exact roundTx_moves hop htx
  rcases hmoves with ⟨x, hsent⟩ | hunmoved
  · by_cases hx : thread = x
    · subst hx
      rw [hevent, if_pos ⟨hsent.was, hsent.now⟩]
      refine ⟨?_, (hsent.opens thread).trans ⟨fun h => ⟨rfl, h.2⟩, fun h => ⟨rfl, h.2⟩⟩⟩
      rw [hsent.counts, if_pos rfl]
      rfl
    · have hnot : ¬(stateIn s.db thread = some .inReview ∧
          stateIn (roundNext env s op).db thread = some .open) := by
        rintro ⟨hwas, hnow⟩
        rw [hsent.others hx hwas] at hnow
        cases hnow
      rw [hevent, if_neg hnot, hsent.opens]
      refine ⟨?_, by simp [hx]⟩
      rw [hsent.counts, if_neg hx]
      exact Int.add_zero _
  · have hnot : ¬(stateIn s.db thread = some .inReview ∧
        stateIn (roundNext env s op).db thread = some .open) := fun h => hunmoved.states h.1 h.2
    rw [hevent, if_neg hnot, opensCap_same hunmoved.gates]
    exact ⟨hunmoved.counts thread, by simp⟩

/-- A step on the gates opens no round cap, and an acceptance in order leaves no send-back that
counts. -/
theorem counted_of_gate {op : GateOp} (horder : (RoundOp.gate op).inOrder thread s = true) :
    Counted env thread s (.gate op) := by
  have hnot : roundEvent env thread s (.gate op) ≠ some .sentBack := by
    simp only [roundEvent]
    split <;> exact nofun
  suffices hgate : sendBacks (gateNext s op).db thread =
      RoundEvent.count (roundEvent env thread s (.gate op)) (sendBacks s.db thread) ∧
        opensCap s.db (gateNext s op).db thread = false from
    ⟨hgate.1, iff_of_false (Bool.eq_false_iff.mp hgate.2) fun h => hnot h.1⟩
  simp only [roundEvent]
  rcases gateNext_db s op with ⟨decided, hdecision, hdb⟩ | ⟨hdecision, htransitions, hgates⟩
  · rw [hdb, hdecision, opensCap_resolveOn]
    refine ⟨?_, rfl⟩
    have hrows : (resolveOn s.db decided.1 decided.2).1.threadTransitions.rows =
        s.db.threadTransitions.rows := by
      rw [resolveOn_transitions]
    cases haccepts : acceptsCap s.db thread decided with
    | false =>
      simp only [Option.any_some, haccepts, Bool.false_eq_true, if_false]
      refine sendBacks_congr (fun r => ?_) hrows
      rw [acceptedCaps_resolveOn, haccepts]
      simp
    | true =>
      simp only [Option.any_some, haccepts, if_true, RoundEvent.count]
      unfold sendBacks
      rw [hrows, Int.natCast_eq_zero, length_eq_zero_iff, filter_eq_nil_iff]
      intro tr htr hcounts
      obtain ⟨hround, hpast⟩ := isSendBack_iff.mp hcounts
      -- past every gate, so it counted before this one
      have hbefore : isSendBack (roundFloor s.db thread) thread tr = true :=
        isSendBack_iff.mpr ⟨hround, fun r hr =>
          hpast r ((acceptedCaps_resolveOn decided r).mpr (.inl hr))⟩
      have hlate := hpast decided.2.now ((acceptedCaps_resolveOn decided _).mpr (.inr ⟨haccepts, rfl⟩))
      simp only [RoundOp.inOrder, hdecision, Option.all_some, haccepts, Bool.not_true,
        Bool.false_or, all_eq_true, decide_eq_true_eq] at horder
      have hearly := horder tr (mem_filter.mpr ⟨htr, hbefore⟩)
      omega
  · rw [hdecision]
    rcases hgates with hsame | ⟨id, x, hinsert⟩
    · exact ⟨sendBacks_congr (acceptedCaps_congr hsame) (by rw [htransitions]), opensCap_same hsame⟩
    · refine ⟨sendBacks_congr (acceptedCaps_insert rfl hinsert) (by rw [htransitions]), ?_⟩
      have hold := @opensCap_same s.db s.db thread rfl
      unfold opensCap at hold ⊢
      rw [hinsert, any_append, hold]
      simp

/-- **Every step in order** is counted. -/
theorem roundNext_counted (horder : op.inOrder thread s = true) : Counted env thread s op := by
  cases op with
  | gate => exact counted_of_gate horder
  | startReview | requestChanges | submitReview => exact counted_of_move (by rintro g ⟨⟩)

theorem sendBacks_run (hstart : sendBacks s.db thread = 0) (pre post : List RoundOp)
    (hmeets : Meets (roundNext env) (fun s op => op.inOrder thread s = true) s (pre ++ post)) :
    sendBacks (exec (roundNext env) s pre).db thread =
      sinceAccepted (roundHistory env thread s pre) := by
  induction pre using List.reverseRecOn generalizing post with
  | nil => exact hstart
  | append_singleton pre op ih =>
    rw [append_assoc] at hmeets
    have hop := (Meets.drop pre _ hmeets).1
    rw [exec_append, roundHistory_concat, sinceAccepted_append, ← ih _ hmeets]
    exact (roundNext_counted hop).1

end Runs

/-- **The round cap counts rounds.**  In every run of review starts, change requests and decisions,
in which no round cap of `thread` is accepted at a reading before a send-back that still counts, the
count `round_standing` computes is at every moment the number of send-backs since the latest accepted
gate; and a gate opens exactly with a send-back that brings this number to a cap that is set, with
none pending. -/
theorem rounds_are_counted {s : GateRoom} (hstart : sendBacks s.db thread = 0) (ops : List RoundOp)
    (hmeets : Meets (roundNext env) (fun s op => op.inOrder thread s = true) s ops) :
    (∀ pre post, ops = pre ++ post → sendBacks (exec (roundNext env) s pre).db thread =
        sinceAccepted (roundHistory env thread s pre)) ∧
    ∀ pre op post, ops = pre ++ op :: post →
      (opensCap (exec (roundNext env) s pre).db (exec (roundNext env) s (pre ++ [op])).db thread =
          true ↔
        roundEvent env thread (exec (roundNext env) s pre) op = some .sentBack ∧
          maxRounds (exec (roundNext env) s pre).db thread ≠ 0 ∧
          roundCapPending (exec (roundNext env) s pre).db thread = false ∧
          maxRounds (exec (roundNext env) s pre).db thread ≤
            sinceAccepted (roundHistory env thread s (pre ++ [op]))) := by
  constructor
  · rintro pre post rfl
    exact sendBacks_run hstart pre post hmeets
  · rintro pre op post rfl
    have hop := (Meets.drop pre _ hmeets).1
    have hcount := sendBacks_run hstart (pre ++ [op]) post (by simpa using hmeets)
    rw [← hcount, exec_append]
    exact (roundNext_counted hop).2

/-- A thread in review, which may be sent back twice. -/
def roundRoom : GateRoom where
  db :=
    { quietDb with
      threads := reviewThread
      threadReviewReqs := { rows := [{ threadId := ⟨1⟩, requiredCount := 0, maxRounds := 2 }] } }

def roundDraws (n : Nat) (now : Int) : Draws :=
  { transition := ⟨n⟩, packet := ⟨n⟩, child := ⟨n + 10⟩, now := seconds now, ended := seconds now }

def sendsBackAt (n : Nat) (now : Int) : RoundOp := .requestChanges ⟨1⟩ ⟨1⟩ ⟨n⟩ (roundDraws n now)

def reviewsAt (n : Nat) (now : Int) : RoundOp := .startReview ⟨1⟩ ⟨1⟩ (roundDraws n now)

/-- Sent back at 100 and 102; the gate is accepted at `accept`; sent back at 104. -/
def cappedAt (accept : Int) : List RoundOp :=
  [sendsBackAt 1 100, reviewsAt 2 101, sendsBackAt 3 102,
   .gate (.resolve ⟨3⟩ ⟨1⟩ .accepted none none (seconds accept)), reviewsAt 4 103, sendsBackAt 5 104]

set_option maxRecDepth 40000 in
theorem rounds_are_counted_accepted :
    Meets (roundNext plainEnv) (fun s op => op.inOrder ⟨1⟩ s = true) roundRoom (cappedAt 103) ∧
    sinceAccepted (roundHistory plainEnv ⟨1⟩ roundRoom (cappedAt 103)) = 1 ∧
    sendBacks (exec (roundNext plainEnv) roundRoom (cappedAt 103)).db ⟨1⟩ =
      sinceAccepted (roundHistory plainEnv ⟨1⟩ roundRoom (cappedAt 103)) := by
  have hmeets : Meets (roundNext plainEnv) (fun s op => op.inOrder ⟨1⟩ s = true) roundRoom
      (cappedAt 103) := by
    decide +kernel
  refine ⟨hmeets, by decide +kernel, ?_⟩
  exact (rounds_are_counted plainEnv ⟨1⟩ (by decide +kernel) (cappedAt 103) hmeets).1 _ [] (by simp)

set_option maxRecDepth 40000 in
/-- **A clock that stepped back counts a round twice**: the gate is accepted at 50, after the
send-backs of 100 and 102.  One send-back later the count says three, and a second gate opens. -/
theorem stepped_back_clock_counts_twice :
    sendBacks roundRoom.db ⟨1⟩ = 0 ∧
    sinceAccepted (roundHistory plainEnv ⟨1⟩ roundRoom (cappedAt 50)) = 1 ∧
    sendBacks (exec (roundNext plainEnv) roundRoom (cappedAt 50)).db ⟨1⟩ = 3 ∧
    maxRounds (exec (roundNext plainEnv) roundRoom (cappedAt 50)).db ⟨1⟩ = 2 ∧
    opensCap (exec (roundNext plainEnv) roundRoom ((cappedAt 50).take 5)).db
      (exec (roundNext plainEnv) roundRoom (cappedAt 50)).db ⟨1⟩ = true := by
  decide +kernel

end Maidan
