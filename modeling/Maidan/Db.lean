/-
# The store's tables

One record `Db` holds the tables of the SQLite schema that the modelled transactions read or
write, each a `Table` under the primary key its migration declares.  A row keeps the columns some
modelled function uses, under the migration's words; a column nothing modelled reads
(`updated_at`, titles, prompts) is left out.

Every table defaults to empty, so a state is written by naming the tables that matter in it.
-/
import Maidan.Lib.Table
import Maidan.Fsm
import Maidan.Usage.Pricing

namespace Maidan

open Relational

/-! ## 1. Workspaces, members, channels -/

structure WorkspaceRow where
  id : WorkspaceId
  defaultEngine : Option TaskEngine := none
  /-- `review_children`: `false` is the setting `off`. -/
  reviewChildren : Bool := true
  /-- `unique_thread_attributes`: the key sets held unique, as `from_stored` reads them. -/
  uniqueThreadAttributes : List (List UniqueAttributeKey) := []

structure MemberRow where
  id : MemberId
  workspaceId : WorkspaceId
  tombstonedAt : Option Int := none

structure ChannelRow where
  id : ChannelId
  workspaceId : WorkspaceId
  name : String
  isPrivate : Bool := false

structure ChannelMemberRow where
  channelId : ChannelId
  memberId : MemberId

structure DmConversationRow where
  threadId : ThreadId
  memberLowId : MemberId
  memberHighId : MemberId

structure GroupDmConversationRow where
  id : ConversationId
  threadId : ThreadId
deriving DecidableEq, Repr

structure GroupDmMemberRow where
  groupDmId : ConversationId
  memberId : MemberId

structure MemberSkillRow where
  memberId : MemberId
  skill : String

structure MemberFreezeRow where
  memberId : MemberId

/-! ## 2. Threads and their claim -/

/-- A row of `maidan_threads`.  The claim is FIVE columns: `assignee_id`,
`assignment_expires_at`, `claim_lease_id`, `claimed_at` and `work_started_at`. -/
structure ThreadRow where
  id : ThreadId
  channelId : ChannelId
  parentThreadId : Option ThreadId := none
  state : ThreadState := .open
  createdAt : Int := 0
  tombstonedAt : Option Int := none
  assigneeId : Option MemberId := none
  assignmentExpiresAt : Option Int := none
  claimLeaseId : Option ClaimLeaseId := none
  claimedAt : Option Int := none
  workStartedAt : Option Int := none
  ownerId : Option MemberId := none
  createdBy : Option MemberId := none
deriving DecidableEq, Repr

structure ThreadAttributesRow where
  threadId : ThreadId
  kind : TaskKind := .change
  engine : Option TaskEngine := none
  lane : Option TaskLane := none
  linearIssue : Option String := none
  reviewFamily : Option String := none
  authorFamily : Option String := none
  repo : Option String := none

structure PriorityRow where
  threadId : ThreadId
  priority : Int

structure RequiredSkillRow where
  threadId : ThreadId
  skill : String

structure WorkerRow where
  threadId : ThreadId
  memberId : MemberId
  lastHeldSeq : Option Int := none

/-- A row of `maidan_thread_budgets`. -/
structure BudgetRow where
  threadId : ThreadId
  maxTokens : Option Int := none
  maxUsdMicros : Option Int := none
  maxTurns : Option Int := none
  maxWallSecs : Option Int := none
  usedTokens : Int := 0
  usedUsdMicros : Int := 0
  usedTurns : Int := 0
  usedWallSecs : Int := 0
  usedInputTokens : Int := 0
  usedOutputTokens : Int := 0
  usedCacheReadTokens : Int := 0
  usedCacheWrite5mTokens : Int := 0
  usedCacheWrite1hTokens : Int := 0

/-- The five token and the five price columns are kept together; the columns from `budget` on are
`NULL` until the report is finished. -/
structure UsageRow where
  usageReportId : UsageReportId
  workspaceId : WorkspaceId
  threadId : ThreadId
  reporterId : MemberId
  claimLeaseId : ClaimLeaseId
  provider : Option String
  model : String
  acceptedAt : Int
  tokens : TokenUsage := {}
  price : PriceSnapshot := {}
  usdMicros : Int64 := 0
  turns : Int64 := 0
  serviceTier : Option String := none
  batch : Bool := false
  harness : Option String := none
  harnessVersion : Option String := none
  effort : Option String := none
  cacheKey : Option String := none
  cacheMissReason : Option String := none
  packSha256 : Option (List String) := none
  standardInputPrice : Option Int64 := none
  standardOutputPrice : Option Int64 := none
  standardCacheReadPrice : Option Int64 := none
  standardCacheWrite5mPrice : Option Int64 := none
  standardCacheWrite1hPrice : Option Int64 := none
  budget : Option BudgetRow := none
  stopped : Option Bool := none
  reason : Option String := none
  usageEventId : Option Int := none
  claimFailedEventId : Option Int := none

structure DependencyRow where
  threadId : ThreadId
  dependsOnThreadId : ThreadId
deriving DecidableEq, Repr

/-! ## 3. What keeps a thread off the queue -/

structure UnclaimableRow where
  threadId : ThreadId
  reason : String

structure BlockRow where
  threadId : ThreadId
  note : Option String := none
deriving DecidableEq, Repr

structure UnlandedCloseRow where
  threadId : ThreadId

structure FingerprintRow where
  threadId : ThreadId
  workspaceId : WorkspaceId
  fingerprint : String
  duplicateOf : Option ThreadId := none
  createdAt : Int := 0
  clearedAt : Option Int := none

inductive ApprovalGateKind
  | request
  | reviewRoundCap
deriving DecidableEq, Repr

inductive ApprovalGateState
  | pending
  | accepted
  | declined
  | cancelled
deriving DecidableEq, Repr

/-- Who says which client a model asked through. -/
inductive ClientIdentitySource
  | credential
  | selfReported
  | none
deriving DecidableEq, Repr

/-- The client a model asked through, on the record of a decision. -/
structure GateDecisionVia where
  clientName : Option String := .none
  clientVersion : Option String := .none
  clientId : Option String := .none
  clientSource : ClientIdentitySource := .none
  modelAsked : Bool := true
deriving DecidableEq, Repr

structure ApprovalGateRow where
  id : GateId
  threadId : Option ThreadId
  kind : ApprovalGateKind
  state : ApprovalGateState
  resolvedAt : Option Int := none
  content : Option String := none
  resolvedBy : Option MemberId := none
  resolvedActorId : Option MemberId := none
  decidedVia : Option GateDecisionVia := none
deriving DecidableEq, Repr

structure ReviewReqRow where
  threadId : ThreadId
  requiredCount : Int
  maxRounds : Int := 3

structure ResultRow where
  threadId : ThreadId
  result : String
  producedBy : MemberId
  producedActorId : Option MemberId := none
  producedAt : Int

structure ReviewRow where
  threadId : ThreadId
  reviewerId : MemberId
  decision : ReviewDecision
  actorId : Option MemberId := none
  dismissedAt : Option Int := none
  evidenceRoot : Option String := none
deriving DecidableEq, Repr

/-- A row of `maidan_thread_reviewers`: the named set. -/
structure ReviewerRow where
  threadId : ThreadId
  memberId : MemberId

/-- A row of `maidan_review_packets`.  The manifest is stored as its JSON. -/
structure PacketRow where
  id : PacketId
  threadId : ThreadId
  manifest : EvidenceManifest
  evidenceRoot : String
  createdAt : Int

structure ArtifactRow where
  threadId : ThreadId
  sha256 : String
  linkedBy : MemberId
  linkedActorId : Option MemberId := none

/-- A row of `maidan_delegation_grants`. -/
structure GrantRow where
  id : GrantId
  subjectId : MemberId

/-- A row of `maidan_thread_land_gate`.  `verdict` is the columns its `CHECK` sets together:
`status`, `land` and `recorded_by`. -/
structure LandGateRow where
  threadId : ThreadId
  verdict : Option (LandGateStatus × LandColor × MemberId) := none
  artifactSha : Option String := none
  recordedActorId : Option MemberId := none

structure ReferenceRow where
  id : ReferenceId
  src : RefEnd
  dst : RefEnd
  relation : RelationKind

structure TransitionRow where
  id : TransitionId
  threadId : ThreadId
  fromState : ThreadState
  toState : ThreadState
  actorId : MemberId
  occurredAt : Int

structure CancellationRow where
  threadId : ThreadId

/-- A row of `maidan_thread_plan_children`, whose `child_thread_id` is unique too. -/
structure PlanChildRow where
  parentThreadId : ThreadId
  childKey : String
  childThreadId : ThreadId
  position : Nat := 0

structure PlanRow where
  parentThreadId : ThreadId
  leaseId : ClaimLeaseId
  amendments : Int := 0

structure HandoffRow where
  threadId : ThreadId

structure RecipeRunChildRow where
  threadId : ThreadId
  runId : RunId

/-! ## 4. Footprints -/

inductive FootprintMode
  | exclusive
  | shared
deriving DecidableEq, Repr

inductive FootprintKind
  | path
  | glob
  | crate
  | lane
  | branch
  | slot
deriving DecidableEq, Repr

/-- `match_namespace`: a path and a glob share one, every other kind has its own. -/
inductive MatchNamespace
  | path
  | crate
  | lane
  | branch
  | slot
deriving DecidableEq, Repr

structure FootprintRow where
  threadId : ThreadId
  workspaceId : WorkspaceId
  repo : String
  mode : FootprintMode
  kind : FootprintKind
  value : String
  matchNamespace : MatchNamespace
  matchKey : String

structure SlotCapacityRow where
  workspaceId : WorkspaceId
  slot : String
  capacity : Int

structure SpawnBudgetRow where
  workspaceId : WorkspaceId
  maxChildren : Option Int := none
  maxDepth : Option Int := none
deriving DecidableEq, Repr

/-- The surfaces of `maidan_egress_targets`, as far as one is told from the rest. -/
inductive EgressSurface
  | githubBranch
  | other
deriving DecidableEq, Repr

structure EgressTargetRow where
  id : EgressTargetId
  workspaceId : WorkspaceId
  surface : EgressSurface
  selector : String

structure RepoPauseRow where
  workspaceId : WorkspaceId
  repo : String

/-! ## 5. The database -/

/-- **The tables.**  Each field is a `Table` under the primary key of its migration. -/
structure Db where
  workspaces : Table WorkspaceRow.id := .empty
  members : Table MemberRow.id := .empty
  channels : Table ChannelRow.id := .empty
  channelMembers : Table (fun r : ChannelMemberRow => (r.channelId, r.memberId)) := .empty
  dmConversations : Table DmConversationRow.threadId := .empty
  groupDmConversations : Table GroupDmConversationRow.id := .empty
  groupDmMembers : Table (fun r : GroupDmMemberRow => (r.groupDmId, r.memberId)) := .empty
  memberSkills : Table (fun r : MemberSkillRow => (r.memberId, r.skill)) := .empty
  memberFreezes : Table MemberFreezeRow.memberId := .empty
  threads : Table ThreadRow.id := .empty
  threadAttributes : Table ThreadAttributesRow.threadId := .empty
  threadPriorities : Table PriorityRow.threadId := .empty
  threadRequiredSkills : Table (fun r : RequiredSkillRow => (r.threadId, r.skill)) := .empty
  threadWorkers : Table (fun r : WorkerRow => (r.threadId, r.memberId)) := .empty
  threadBudgets : Table BudgetRow.threadId := .empty
  usageLedger : Table UsageRow.usageReportId := .empty
  threadDependencies : Table (fun r : DependencyRow => (r.threadId, r.dependsOnThreadId)) := .empty
  threadUnclaimable : Table UnclaimableRow.threadId := .empty
  threadBlocks : Table BlockRow.threadId := .empty
  threadUnlandedCloses : Table UnlandedCloseRow.threadId := .empty
  taskFingerprints : Table FingerprintRow.threadId := .empty
  approvalGates : Table ApprovalGateRow.id := .empty
  threadReviewReqs : Table ReviewReqRow.threadId := .empty
  threadResults : Table ResultRow.threadId := .empty
  threadTransitions : Table TransitionRow.id := .empty
  threadCancellations : Table CancellationRow.threadId := .empty
  threadReviews : Table (fun r : ReviewRow => (r.threadId, r.reviewerId)) := .empty
  threadReviewers : Table (fun r : ReviewerRow => (r.threadId, r.memberId)) := .empty
  reviewPackets : Table PacketRow.id := .empty
  threadArtifacts : Table (fun r : ArtifactRow => (r.threadId, r.sha256)) := .empty
  delegationGrants : Table GrantRow.id := .empty
  threadLandGate : Table LandGateRow.threadId := .empty
  references : Table ReferenceRow.id := .empty
  threadHandoffs : Table HandoffRow.threadId := .empty
  threadPlans : Table PlanRow.parentThreadId := .empty
  threadPlanChildren : Table (fun r : PlanChildRow => (r.parentThreadId, r.childKey)) := .empty
  recipeRunChildren : Table RecipeRunChildRow.threadId := .empty
  threadFootprints : Table (fun r : FootprintRow => (r.threadId, r.kind, r.value)) := .empty
  slotCapacities : Table (fun r : SlotCapacityRow => (r.workspaceId, r.slot)) := .empty
  repoPauses : Table (fun r : RepoPauseRow => (r.workspaceId, r.repo)) := .empty
  spawnBudgets : Table SpawnBudgetRow.workspaceId := .empty
  egressTargets : Table EgressTargetRow.id := .empty

namespace Db

/-- The channel of a thread, by its foreign key. -/
def channelOf (db : Db) (t : ThreadRow) : Option ChannelRow := db.channels.get? t.channelId

/-- The workspace a thread lives in, through its channel. -/
def workspaceOf (db : Db) (t : ThreadRow) : Option WorkspaceId :=
  (db.channelOf t).map ChannelRow.workspaceId

end Db

/-! The rows most rooms start from: a workspace, its members and its channel, and a thread. -/

abbrev oneWorkspace : Table WorkspaceRow.id := { rows := [{ id := ⟨1⟩ }] }

abbrev oneMember : Table MemberRow.id := { rows := [{ id := ⟨1⟩, workspaceId := ⟨1⟩ }] }

abbrev twoMembers : Table MemberRow.id :=
  { rows := [{ id := ⟨1⟩, workspaceId := ⟨1⟩ }, { id := ⟨2⟩, workspaceId := ⟨1⟩ }] }

abbrev generalChannel : Table ChannelRow.id :=
  { rows := [{ id := ⟨1⟩, workspaceId := ⟨1⟩, name := "general" }] }

abbrev oneThread : Table ThreadRow.id := { rows := [{ id := ⟨1⟩, channelId := ⟨1⟩ }] }

/-- A workspace with one channel and one member, and no thread yet. -/
abbrev quietDb : Db where
  workspaces := oneWorkspace
  members := oneMember
  channels := generalChannel

abbrev reviewThread : Table ThreadRow.id :=
  { rows := [{ id := ⟨1⟩, channelId := ⟨1⟩, state := .inReview }] }

abbrev oneApproval : Table ReviewReqRow.threadId :=
  { rows := [{ threadId := ⟨1⟩, requiredCount := 1 }] }

abbrev planAttributes : Table ThreadAttributesRow.threadId :=
  { rows := [{ threadId := ⟨1⟩, kind := .plan }] }

abbrev branchTarget : Table EgressTargetRow.id :=
  { rows :=
      [{ id := ⟨1⟩, workspaceId := ⟨1⟩, surface := .githubBranch, selector := "owner/repo@main" }] }

/-- Two threads that each want one file for themselves. -/
abbrev contestedFile : Table (fun r : FootprintRow => (r.threadId, r.kind, r.value)) :=
  { rows :=
      [{ threadId := ⟨1⟩, workspaceId := ⟨1⟩, repo := "maidan", mode := .exclusive, kind := .path,
         value := "src/main.rs", matchNamespace := .path, matchKey := "src/main.rs" },
       { threadId := ⟨2⟩, workspaceId := ⟨1⟩, repo := "maidan", mode := .exclusive, kind := .path,
         value := "src/main.rs", matchNamespace := .path, matchKey := "src/main.rs" }] }

/-- SQL's `a = b` where a condition is tested: `NULL` equals nothing. -/
def sqlEq {α : Type} [DecidableEq α] : Option α → Option α → Bool
  | some a, some b => a = b
  | _, _ => false

end Maidan
