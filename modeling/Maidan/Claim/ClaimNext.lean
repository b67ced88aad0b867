/-
# The thread `claim_next` hands a member

`claim_next.rs`: the one query both scopes build.  A candidate passes when the thread's own rules
pass (`claimable`), the claimer holds every skill it requires, is not frozen, serves its
repository and engine, is no seat of the author's family, may read it (`readable_by`), and no
sibling is being waited for to warm the prefix the group shares (`sibling_warming`).  Among the
candidates `ORDER BY … LIMIT 1` picks one.

Three clocks are read: the LEASE clock, which decides what has lapsed; the application's `now`,
from which the two warming cutoffs are taken; and the database's own clock, in the ageing of the
priority.
-/
import Maidan.Claim.Claimability
import Maidan.Claim.Family

namespace Maidan

open Relational

/-! ## 1. Who may read a thread -/

/-- `DM_CHANNEL_NAME`. -/
def dmChannelName : String := "__dm__"

variable (db : Db)

/-- `readable_thread`. -/
def readableThread (thread : ThreadId) (workspace : Option WorkspaceId) (member : MemberId) :
    Bool :=
  match db.threads.get? thread, db.members.get? member with
  | some rtThread, some rtReader =>
    match db.channelOf rtThread with
    | none => false
    | some rtChannel =>
      rtReader.workspaceId == rtChannel.workspaceId && workspace == some rtChannel.workspaceId &&
        if rtChannel.name = dmChannelName then
          (match db.dmConversations.get? rtThread.id with
            | none => false
            | some rtDm => member == rtDm.memberLowId || member == rtDm.memberHighId) ||
          db.groupDmConversations.rows.any fun rtGroup => rtGroup.threadId == rtThread.id &&
            (db.groupDmMembers.get? (rtGroup.id, member)).isSome
        else if rtChannel.isPrivate then
          (db.channelMembers.get? (rtChannel.id, member)).isSome
        else true
  | _, _ => false

variable (member : MemberId)

/-- `readable_by`: `readable_thread` with the workspace read from the member's own row. -/
def readableBy (cand : ThreadRow) : Bool :=
  readableThread db cand.id ((db.members.get? member).map MemberRow.workspaceId) member

/-! ## 2. What the claimer asks for -/

/-- `ClaimScope`. -/
inductive ClaimScope
  | channel (id : ChannelId)
  | workspace (id : WorkspaceId)

/-- The scope's predicate on a thread and its channel. -/
def ClaimScope.covers (scope : ClaimScope) (cand : ThreadRow) (ch : ChannelRow) : Bool :=
  match scope with
  | .channel id => cand.channelId == id
  | .workspace id => ch.workspaceId == id

/-- The scope's predicate, with the channel joined by its key. -/
def inScope (scope : ClaimScope) (cand : ThreadRow) : Bool :=
  match db.channelOf cand with
  | none => false
  | some ch => scope.covers cand ch

/-- `served_by`. -/
def servedBy (repo : Option String) (engine : Option TaskEngine) (cand : ThreadRow) : Bool :=
  (match repo with
   | none => true
   | some repo => db.threadFootprints.rows.any fun rf =>
      rf.threadId == cand.id && rf.repo == repo) &&
  (match engine with
   | none => true
   | some engine =>
      match db.threadAttributes.get? cand.id with
      | none => false
      | some a => a.engine == some engine)

/-- Every skill the thread requires, the member has. -/
def hasSkills (cand : ThreadRow) : Bool :=
  !(db.threadRequiredSkills.rows.any fun trs =>
    trs.threadId == cand.id && (db.memberSkills.get? (member, trs.skill)).isNone)

def isFrozen : Bool := (db.memberFreezes.get? member).isSome

/-! ## 3. Warm, then fan out -/

/-- `WARM_HOLD_SECS`. -/
def warmHoldSecs : Int := 120

/-- `WARM_TTL_SECS`. -/
def warmTtlSecs : Int := 300

/-- `shares_prefix`: children of one recipe run, or one task fingerprint. -/
def sharesPrefix (cand sib : ThreadId) : Bool :=
  (match db.recipeRunChildren.get? cand, db.recipeRunChildren.get? sib with
   | some rc, some rs => rs.runId == rc.runId
   | _, _ => false) ||
  (match db.taskFingerprints.get? cand, db.taskFingerprints.get? sib with
   | some fc, some fs => fs.workspaceId == fc.workspaceId && fs.fingerprint == fc.fingerprint
   | _, _ => false)

/-- A sibling on a live claim taken after `holdSince` that has reported no usage under it. -/
def coldClaim (sib : ThreadRow) (leaseClock holdSince : Int) : Bool :=
  match sib.claimLeaseId, sib.claimedAt with
  | some lease, some claimedAt =>
    held sib leaseClock && decide (julianday claimedAt > julianday holdSince) &&
      !(db.usageLedger.rows.any fun u => u.threadId == sib.id && u.claimLeaseId == lease)
  | _, _ => false

/-- `sibling_warming`. -/
def siblingWarming (cand : ThreadRow) (leaseClock now : Int) : Bool :=
  match cand.parentThreadId with
  | none => false
  | some parent =>
    (db.threads.rows.any fun sib =>
      sib.parentThreadId == some parent && sib.id != cand.id && sharesPrefix db cand.id sib.id &&
        coldClaim db sib leaseClock (now - seconds warmHoldSecs)) &&
    !(db.usageLedger.rows.any fun u =>
      match db.threads.get? u.threadId with
      | none => false
      | some usib =>
        usib.parentThreadId == some parent && sharesPrefix db cand.id usib.id &&
          decide (julianday u.acceptedAt > julianday (now - seconds warmTtlSecs)))

/-! ## 4. The order -/

/-- `warm_for`: 1 when `member` was the last to hold `cand`, else 0. -/
def warmFor (cand : ThreadRow) : Int :=
  match (db.threadWorkers.get? (cand.id, member)).bind WorkerRow.lastHeldSeq with
  | none => 0
  | some seq =>
    if db.threadWorkers.rows.all (fun w2 =>
        w2.threadId != cand.id || match w2.lastHeldSeq with
          | none => true
          | some s => decide (s ≤ seq)) then 1 else 0

/-- `lane_rank`. -/
def laneRank (lane : Option TaskLane) (cand : ThreadRow) : Int :=
  let candLane := (db.threadAttributes.get? cand.id).bind ThreadAttributesRow.lane
  if candLane = lane then 0 else if candLane = none then 1 else 2

/-- `hours_waiting`, against the database's clock. -/
def hoursWaiting (dbNow : Int) (cand : ThreadRow) : Int :=
  (unixSecs dbNow - unixSecs cand.createdAt).tdiv 3600

/-- The `ORDER BY` of `candidate_select`, least first. -/
def claimOrder (lane : Option TaskLane) (dbNow : Int) (cand : ThreadRow) : List Int :=
  let priority := ((db.threadPriorities.get? cand.id).map PriorityRow.priority).getD 0
  [-(priority + hoursWaiting dbNow cand), -(warmFor db member cand), laneRank db lane cand,
   cand.createdAt, cand.id.val]

/-! ## 5. The query -/

/-- What a claimer asks `claim_next` for. -/
structure ClaimAsk where
  scope : ClaimScope
  member : MemberId
  repo : Option String := none
  engine : Option TaskEngine := none
  lane : Option TaskLane := none

/-- The `WHERE` of `candidate_select`. -/
def candidate (ask : ClaimAsk) (leaseClock now : Int) (cand : ThreadRow) : Bool :=
  inScope db ask.scope cand && claimable db cand leaseClock && hasSkills db ask.member cand &&
    !isFrozen db ask.member && servedBy db ask.repo ask.engine cand &&
    !refusedTo db ask.member cand.id && readableBy db ask.member cand &&
    !siblingWarming db cand leaseClock now

/-- `claim_next_candidate`. -/
def claimNextCandidate (ask : ClaimAsk) (leaseClock now dbNow : Int) : Option ThreadRow :=
  firstBy (claimOrder db ask.member ask.lane dbNow)
    (db.threads.rows.filter (candidate db ask leaseClock now))

variable {db : Db} {ask : ClaimAsk} {leaseClock now : Int}

/-- **What the query returns is a row that passes every rule.** -/
theorem claimNextCandidate_spec (h : claimNextCandidate db ask leaseClock now dbNow = some cand) :
    db.threads.get? cand.id = some cand ∧ candidate db ask leaseClock now cand = true := by
  obtain ⟨hm, hp⟩ := List.mem_filter.mp (mem_of_firstBy h)
  exact ⟨Table.get?_of_mem hm, hp⟩

/-- **It returns one exactly when some row passes.** -/
theorem claimNextCandidate_isSome_iff : (claimNextCandidate db ask leaseClock now dbNow).isSome ↔
      ∃ cand ∈ db.threads.rows, candidate db ask leaseClock now cand = true := by
  unfold claimNextCandidate
  rw [firstBy_isSome_iff]
  simp

theorem candidate_claimable (h : candidate db ask leaseClock now cand = true) :
    claimable db cand leaseClock = true := by
  simp only [candidate, Bool.and_eq_true] at h
  exact h.1.1.1.1.1.1.2

end Maidan
