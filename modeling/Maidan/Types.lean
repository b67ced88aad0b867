/-
# Identifiers, instants and errors

The vocabulary of `maidan-types` that the store's transactions are written in.

* **Identifiers** are UUIDs in the source.  Here each kind is its own type over `Nat`: the store
  only compares them (`=`, and `ORDER BY id`), and a supply of fresh ones is needed.
* **Instants** are `DateTime<Utc>`; an `Int` counts their nanoseconds since the epoch.  SQLite
  stores the RFC 3339 text that `to_rfc3339` writes, always in UTC; on the years that text can hold,
  comparing two of those texts is comparing the two instants.  `julianday` is the exception:
  SQLite's date functions keep milliseconds only.
* **Errors** keep the variant and the text of `StoreError`.
-/
import Mathlib

namespace Maidan

/-! ## 1. Identifiers -/

structure WorkspaceId where
  val : Nat
deriving DecidableEq, Repr

structure ChannelId where
  val : Nat
deriving DecidableEq, Repr

structure MemberId where
  val : Nat
deriving DecidableEq, Repr

structure ThreadId where
  val : Nat
deriving DecidableEq, Repr

/-- The fencing token of one claim. -/
structure ClaimLeaseId where
  val : Nat
deriving DecidableEq, Repr

structure UsageReportId where
  val : Nat
deriving DecidableEq, Repr

structure GateId where
  val : Nat
deriving DecidableEq, Repr

structure RunId where
  val : Nat
deriving DecidableEq, Repr

structure ConversationId where
  val : Nat
deriving DecidableEq, Repr

structure TransitionId where
  val : Nat
deriving DecidableEq, Repr

structure PacketId where
  val : Nat
deriving DecidableEq, Repr

structure MessageId where
  val : Nat
deriving DecidableEq, Repr

structure ReferenceId where
  val : Nat
deriving DecidableEq, Repr

structure GrantId where
  val : Nat

structure EgressTargetId where
  val : Nat
deriving DecidableEq, Repr

structure RecipeId where
  val : Nat

structure PeerId where
  val : Nat
deriving DecidableEq, Repr

structure WorkspaceKeyId where
  val : Nat
deriving DecidableEq, Repr

structure ApiTokenId where
  val : Nat
deriving DecidableEq, Repr

structure AppInstallationId where
  val : Nat
deriving DecidableEq, Repr

structure DelegationGrantId where
  val : Nat
deriving DecidableEq, Repr

structure OAuthGrantId where
  val : Nat
deriving DecidableEq, Repr

/-- The lineage of an OAuth grant: what one authorization gave rise to. -/
structure LineageId where
  val : Nat
deriving DecidableEq, Repr

/-- The id of a content key, `content_subject`: a message's own, or for a message of a peer the
name-based UUID of the two. -/
structure ContentKeyId where
  origin : Option PeerId
  message : MessageId
deriving DecidableEq, Repr

/-! ## 2. Instants -/

/-- `chrono::Duration::seconds`, in nanoseconds. -/
def seconds (s : Int) : Int := s * 1000000000

/-- `Duration::num_seconds`: whole seconds, towards zero. -/
def numSeconds (d : Int) : Int := d.tdiv 1000000000

/-- `clock::truncate_micros`: drop the nanoseconds below one microsecond. -/
def truncateMicros (t : Int) : Int := t - t % 1000

/-- SQLite's `julianday`, up to its fixed scale and origin: whole milliseconds, rounded. -/
def julianday (t : Int) : Int := (t + 500000) / 1000000

/-- SQLite's `CAST(strftime('%s', t) AS INTEGER)`. -/
def unixSecs (t : Int) : Int := julianday t / 1000

/-- `LIMIT`, where SQLite reads a negative limit as none. -/
def sqlLimit {α : Type} (limit : Int) (l : List α) : List α :=
  if limit < 0 then l else l.take limit.toNat

theorem sqlLimit_sublist (limit : Int) (l : List α) : (sqlLimit limit l).Sublist l := by
  unfold sqlLimit
  split
  · exact .refl _
  · exact List.take_sublist _ _

/-- `i64::MAX`. -/
def i64Max : Int := 9223372036854775807

theorem truncateMicros_le (t : Int) : truncateMicros t ≤ t := by
  unfold truncateMicros
  omega

theorem truncateMicros_nonneg (h : 0 ≤ t) : 0 ≤ truncateMicros t := by
  unfold truncateMicros
  omega

/-! ## 3. Enumerations -/

inductive TaskKind
  | change
  | plan
  | review
deriving DecidableEq, Repr

inductive TaskEngine
  | pi
  | session
  | human
deriving DecidableEq, Repr

inductive TaskLane
  | batch
  | flex
deriving DecidableEq, Repr

def TaskEngine.asStr : TaskEngine → String
  | .pi => "pi"
  | .session => "session"
  | .human => "human"

inductive TaskSize
  | s
  | m
  | l
deriving DecidableEq, Repr

inductive TaskTier
  | a
  | b
deriving DecidableEq, Repr

/-- `UniqueAttributeKey`: the attributes a workspace can keep unique. -/
inductive UniqueAttributeKey
  | linearIssue
  | repo
deriving DecidableEq, Repr

inductive SpawnAxis
  | children
  | depth
  | tools
deriving DecidableEq, Repr

inductive ReviewDecision
  | approve
  | requestChanges
deriving DecidableEq, Repr

inductive LandGateStatus
  | pass
  | fail
deriving DecidableEq, Repr

/-- Land-gate vocabulary; only `green` is a land. -/
inductive LandColor
  | green
  | amber
  | red
deriving DecidableEq, Repr

def LandColor.asStr : LandColor → String
  | .green => "green"
  | .amber => "amber"
  | .red => "red"

inductive RelationKind
  | supports
  | refutes
  | defines
  | depends
  | duplicates
  | grounds
  | supersedes
  | seededFrom
  | other (relation : String)
deriving DecidableEq, Repr

/-- One side of a reference: `(kind, id)`. -/
inductive RefEnd
  | thread (id : ThreadId)
  | message (id : MessageId)
deriving DecidableEq, Repr

/-! ## 4. Evidence -/

/-- The result a review packet pins. -/
structure ResultEvidence where
  sha256 : String
  producedBy : MemberId
deriving DecidableEq, Repr

inductive EvidenceKind
  | result
  | artifact
  | landGate

/-- How far a piece of evidence can be trusted. -/
inductive AttestationTier
  | verified
  | attached
  | selfReported

structure EvidenceAttestation where
  kind : EvidenceKind
  sha256 : Option String
  tier : AttestationTier
  attestedBy : MemberId

/-- The evidence a thread put in front of its reviewers, by content hash. -/
structure EvidenceManifest where
  threadId : ThreadId
  result : Option ResultEvidence
  artifacts : List String
  attestations : List EvidenceAttestation := []

/-- `same_evidence`: the tiers are left out on purpose. -/
def EvidenceManifest.sameEvidence (m other : EvidenceManifest) : Bool :=
  m.threadId == other.threadId && m.result == other.result && m.artifacts == other.artifacts

/-! ## 5. Errors -/

/-- `SpawnDenial`: the cap a spawn would break. -/
structure SpawnDenial where
  workspaceId : WorkspaceId
  channelId : ChannelId
  threadId : ThreadId
  axis : SpawnAxis
  limit : Int
  observed : Int
deriving DecidableEq, Repr

/-- The variants of `StoreError` the modelled transactions return.  `database` is what a violated
constraint of the schema comes back as. -/
inductive StoreError
  | notFound
  | conflict (msg : String)
  | invalidInput (msg : String)
  | attributeHeld (held : List (UniqueAttributeKey × String)) (holder : ThreadId)
  | spawnRejected (denial : SpawnDenial)
  | database (msg : String)
deriving DecidableEq, Repr

end Maidan
