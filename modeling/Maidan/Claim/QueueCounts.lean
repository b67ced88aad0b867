/-
# What the queue counts say

`queue_counts.rs`: the one query behind `queue_depth`, which partitions the open threads a reader
may read by the rules of `claimability`.  `ready` is meant to be what `claim_next` would hand a
claimer with no restriction, and the two queries do share their fragments; but they are assembled
apart, and `claim_next` carries ONE rule of the claim queue that the counts do not:
`sibling_warming`, which holds a thread back while a sibling warms the prefix the two share.

§2 takes the two queries side by side for a reader with no restriction (`candidate_eq`), and §3
says exactly when their answers agree.
-/
import Maidan.Claim.Threads

namespace Maidan

open Relational List

/-! ## 1. The counts -/

/-- `QueueScope`: the scopes `claim_next` has. -/
abbrev QueueScope := ClaimScope

/-- `open_threads`: the open, live threads in `scope` the reader may read and the filters admit.
Without a reader every thread in scope counts. -/
def openThreads (db : Db) (scope : QueueScope) (reader : Option MemberId) (repo : Option String)
    (engine : Option TaskEngine) : List ThreadRow :=
  db.threads.rows.filter fun cand =>
    inScope db scope cand && cand.state == .open && cand.tombstonedAt.isNone &&
      (match reader with
       | none => true
       | some member => readableBy db member cand) &&
      servedBy db repo engine cand

/-- The `CASE` of `ready_count`. -/
def isReady (db : Db) (now : Int) (cand : ThreadRow) : Bool :=
  available cand now && !withheld db cand && !stalled db cand now

/-- `QueueDepth`. -/
structure QueueDepth where
  openCount : Nat
  ready : Nat
  assigned : Nat
  blocked : Nat
  unclaimable : Nat

/-- `queue_depth`, at the instant `clock`. -/
def queueDepth (db : Db) (grace : ClaimGrace) (scope : QueueScope) (reader : Option MemberId)
    (repo : Option String) (engine : Option TaskEngine) (clock : Int) : QueueDepth :=
  let now := grace.leaseClock clock
  let threads := openThreads db scope reader repo engine
  { openCount := threads.length
    assigned := threads.countP fun cand => held cand now
    ready := threads.countP (isReady db now)
    blocked := threads.countP fun cand =>
      available cand now && !withheld db cand && stalled db cand now
    unclaimable := threads.countP fun cand => available cand now && withheld db cand }

/-! ## 2. A claimer with no restriction -/

/-- **No rule about the CLAIMER stops `reader`**: every skill some thread requires is theirs, they
are not frozen, and no usage they reported names a family that wrote a change under review. -/
structure Unrestricted (db : Db) (reader : MemberId) : Prop where
  skilled : ∀ trs ∈ db.threadRequiredSkills.rows, (db.memberSkills.get? (reader, trs.skill)).isSome
  unfrozen : isFrozen db reader = false
  unseated : ∀ a ∈ db.threadAttributes.rows, ∀ family, a.authorFamily = some family →
    ∀ ul ∈ db.usageLedger.rows, ul.reporterId = reader →
      familySql ul.provider ul.model ≠ some family

variable {db : Db} {reader : MemberId}

theorem Unrestricted.hasSkills (h : Unrestricted db reader) (cand : ThreadRow) :
    hasSkills db reader cand = true := by
  unfold Maidan.hasSkills
  rw [Bool.not_eq_true', any_eq_false]
  intro trs htrs
  have hskill := h.skilled trs htrs
  rw [Bool.and_eq_true, not_and]
  intro _ hnone
  rw [isNone_iff_eq_none.mp hnone] at hskill
  cases hskill

theorem Unrestricted.not_refused (h : Unrestricted db reader) (thread : ThreadId) :
    refusedTo db reader thread = false := by
  unfold refusedTo sharedFamily
  cases hra : db.threadAttributes.get? thread with
  | none => rfl
  | some ra =>
    cases hrt : db.threads.get? thread with
    | none => rfl
    | some rt =>
      cases hfam : ra.authorFamily with
      | none => simp [hfam]
      | some family =>
        cases hws : db.workspaceOf rt with
        | none => simp [hfam, hws]
        | some =>
          simp only [hfam, hws]
          rw [if_neg]
          · rfl
          · rw [any_eq_true]
            rintro ⟨ul, hul, hnamed⟩
            obtain ⟨hrep, _, hsql⟩ := of_decide_eq_true hnamed
            exact h.unseated ra (Table.mem_of_get? hra) family hfam ul hul hrep hsql

/-- **The two queries side by side.**  For such a reader `candidate_select` is the count's
`WHERE` and its ready `CASE`, and NO THREAD HELD BACK FOR WARMING. -/
theorem candidate_eq (h : Unrestricted db reader) (scope : ClaimScope) (lane : Option TaskLane)
    (leaseClock now : Int) (cand : ThreadRow) :
    candidate db { scope := scope, member := reader, lane := lane } leaseClock now cand =
      (inScope db scope cand && cand.state == .open && cand.tombstonedAt.isNone &&
        readableBy db reader cand && servedBy db none none cand && isReady db leaseClock cand &&
        !siblingWarming db cand leaseClock now) := by
  unfold candidate claimable isReady
  rw [h.hasSkills, h.not_refused, h.unfrozen]
  generalize inScope db scope cand = a, (cand.state == .open) = b, cand.tombstonedAt.isNone = c,
    readableBy db reader cand = d, servedBy db none none cand = e, available cand leaseClock = f,
    withheld db cand = g, stalled db cand leaseClock = i, siblingWarming db cand leaseClock now = j
  revert a b c d e f g i j
  decide

/-- The threads behind the count `ready`. -/
def readyThreads (db : Db) (leaseClock : Int) (scope : QueueScope) (reader : MemberId) :
    List ThreadRow :=
  (openThreads db scope (some reader) none none).filter (isReady db leaseClock)

/-- `ready` counts a thread exactly when there is one. -/
theorem queueDepth_ready_pos_iff :
    0 < (queueDepth db grace scope (some reader) none none clock).ready ↔
      ∃ cand, cand ∈ readyThreads db (grace.leaseClock clock) scope reader := by
  unfold queueDepth readyThreads
  rw [countP_pos_iff]
  simp

/-- `claim_next` hands out a thread exactly when a ready one is not held back. -/
theorem claimNext_isSome_iff (h : Unrestricted db reader) :
    (claimNext db grace { scope := scope, member := reader, lane := lane } leaseSecs lease
        attribution clock dbNow).2.isSome ↔
      ∃ cand ∈ readyThreads db (grace.leaseClock (truncateMicros clock)) scope reader,
        siblingWarming db cand (grace.leaseClock (truncateMicros clock)) (truncateMicros clock) =
          false := by
  have hsame : (claimNext db grace { scope := scope, member := reader, lane := lane } leaseSecs
      lease attribution clock dbNow).2.isSome =
      (claimNextCandidate db { scope := scope, member := reader, lane := lane }
        (grace.leaseClock (truncateMicros clock)) (truncateMicros clock) dbNow).isSome := by
    unfold claimNext
    dsimp only
    split
    · rename_i hnone
      rw [hnone]
      rfl
    · rename_i cand hsome
      rw [hsome]
      rfl
  rw [hsame, claimNextCandidate_isSome_iff]
  constructor
  · rintro ⟨cand, hmem, hcand⟩
    rw [candidate_eq h] at hcand
    simp only [Bool.and_eq_true, Bool.not_eq_true'] at hcand
    obtain ⟨⟨hwhere, hready⟩, hwarm⟩ := hcand
    refine ⟨cand, mem_filter.mpr ⟨mem_filter.mpr ⟨hmem, ?_⟩, hready⟩, hwarm⟩
    simp only [Bool.and_eq_true]
    exact hwhere
  · rintro ⟨cand, hcand, hwarm⟩
    obtain ⟨hopen, hready⟩ := mem_filter.mp hcand
    obtain ⟨hmem, hwhere⟩ := mem_filter.mp hopen
    refine ⟨cand, hmem, ?_⟩
    simp only [Bool.and_eq_true] at hwhere
    rw [candidate_eq h]
    simp only [Bool.and_eq_true, Bool.not_eq_true']
    exact ⟨⟨hwhere, hready⟩, hwarm⟩

/-! ## 3. When the two agree -/

/-- **Not every ready thread is held back for warming** (or none is ready).  Read from the state
the two queries start from. -/
def someReadyIsWarm (db : Db) (leaseClock now : Int) (scope : QueueScope) (reader : MemberId) :
    Bool :=
  (readyThreads db leaseClock scope reader).isEmpty ||
    (readyThreads db leaseClock scope reader).any fun cand =>
      !siblingWarming db cand leaseClock now

/-- **When the count and the queue agree.**  At one lease clock, for a reader no rule about the
claimer stops, `ready` is positive exactly when `claim_next` hands out a thread IF AND ONLY IF not
every ready thread is held back for a sibling to warm their prefix. -/
theorem queue_depth_agrees_iff (db : Db) (grace : ClaimGrace) (scope : ClaimScope)
    (reader : MemberId) (lane : Option TaskLane) (leaseSecs : Option Int) (lease : ClaimLeaseId)
    (attribution : Option Attribution) (clock counted dbNow : Int)
    (hreader : Unrestricted db reader)
    (hclock : grace.leaseClock counted = grace.leaseClock (truncateMicros clock)) :
    (0 < (queueDepth db grace scope (some reader) none none counted).ready ↔
      (claimNext db grace { scope := scope, member := reader, lane := lane } leaseSecs lease
        attribution clock dbNow).2.isSome) ↔
      someReadyIsWarm db (grace.leaseClock counted) (truncateMicros clock) scope reader = true := by
  rw [queueDepth_ready_pos_iff, claimNext_isSome_iff hreader, ← hclock]
  unfold someReadyIsWarm
  generalize readyThreads db (grace.leaseClock counted) scope reader = ready
  cases ready with
  | nil | cons => simp

/-- A recipe run, a thousand seconds after the epoch: the root waits for both children, a member
took one of them ten seconds ago and has reported no usage, the other is free. -/
def warmingDb : Db where
  workspaces := oneWorkspace
  channels := generalChannel
  members := twoMembers
  threads := { rows :=
    [{ id := ⟨1⟩, channelId := ⟨1⟩ },
     { id := ⟨2⟩, channelId := ⟨1⟩, parentThreadId := some ⟨1⟩, assigneeId := some ⟨1⟩,
       claimLeaseId := some ⟨1⟩, claimedAt := some (seconds 990) },
     { id := ⟨3⟩, channelId := ⟨1⟩, parentThreadId := some ⟨1⟩ }] }
  threadDependencies := { rows :=
    [{ threadId := ⟨1⟩, dependsOnThreadId := ⟨2⟩ }, { threadId := ⟨1⟩, dependsOnThreadId := ⟨3⟩ }] }
  recipeRunChildren := { rows :=
    [{ threadId := ⟨2⟩, runId := ⟨1⟩ }, { threadId := ⟨3⟩, runId := ⟨1⟩ }] }

theorem warmingDb_unrestricted : Unrestricted warmingDb ⟨2⟩ where
  skilled := by decide
  unfrozen := by decide
  unseated := by
    intro a ha
    cases ha

/-- Two minutes after the first claim the hold ends, and the two agree. -/
theorem queue_depth_agrees_after_hold :
    0 < (queueDepth warmingDb {} (.channel ⟨1⟩) (some ⟨2⟩) none none (seconds 1111)).ready ↔
      (claimNext warmingDb {} { scope := .channel ⟨1⟩, member := ⟨2⟩ } (some 60) ⟨2⟩ none
        (seconds 1111) (seconds 1111)).2.isSome :=
  (queue_depth_agrees_iff warmingDb {} (.channel ⟨1⟩) ⟨2⟩ none (some 60) ⟨2⟩ none (seconds 1111)
    (seconds 1111) (seconds 1111) warmingDb_unrestricted (by decide)).mpr (by decide)

/-- **One thread is counted ready and `claim_next` hands out nothing.** -/
theorem ready_thread_not_handed_out :
    Unrestricted warmingDb ⟨2⟩ ∧
      (queueDepth warmingDb {} (.channel ⟨1⟩) (some ⟨2⟩) none none (seconds 1000)).ready = 1 ∧
      (claimNext warmingDb {} { scope := .channel ⟨1⟩, member := ⟨2⟩ } (some 60) ⟨2⟩ none
        (seconds 1000) (seconds 1000)).2 = none :=
  ⟨warmingDb_unrestricted, by decide, by decide⟩

end Maidan
