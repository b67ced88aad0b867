/-
# What the reviewers are handed

`review_packets.rs`: at each `start_review` a packet PINS the thread's evidence -- its result and
its linked artifacts, each by content hash -- and a verdict counts only for what it was shown.

Three functions are code outside the repository or tables of the standard library: the SHA-256 of
a result's and of a manifest's canonical JSON, and Unicode lower case.  They are the fields of
`Env`, and nothing is assumed of them.  A manifest is stored as its JSON and read back as the
manifest it was.
-/
import Maidan.Review.LandGate

namespace Maidan

open Relational

/-- What the store takes from outside. -/
structure Env where
  /-- `str::to_lowercase`. -/
  toLowercase : List Char → List Char
  /-- `result_sha256`. -/
  resultSha256 : String → String
  /-- `EvidenceManifest::root`. -/
  root : EvidenceManifest → String

/-- An environment that hashes nothing, for evaluating the model. -/
def plainEnv : Env where
  toLowercase := id
  resultSha256 := id
  root := fun _ => "root"

/-! ## 1. Who put the evidence there -/

/-- `Author`. -/
structure Author where
  member : MemberId
  actor : Option MemberId
  actorUnknown : Bool

/-- `author`: a row without an actor predates the column. -/
def author (member : MemberId) (actor : Option MemberId) (delegated : Bool) : Author where
  member := member
  actor := actor.or (if delegated then none else some member)
  actorUnknown := actor.isNone && delegated

/-- `Author::is_worker`. -/
def Author.isWorker (a : Author) (workers : List MemberId) : Bool :=
  a.actorUnknown || workers.contains a.member ||
    match a.actor with
    | none => false
    | some actor => workers.contains actor

/-- `Author::tier`. -/
def Author.tier (a : Author) (workers : List MemberId) : AttestationTier :=
  if a.isWorker workers then .selfReported else .attached

/-- `EVER_DELEGATED`. -/
def everDelegated (db : Db) (member : MemberId) : Bool :=
  db.delegationGrants.rows.any fun g => g.subjectId == member

variable (env : Env)

/-- `evidence_in_tx`: the manifest, and who put each piece of it there. -/
def evidenceInTx (db : Db) (thread : ThreadId) :
    EvidenceManifest × Option Author × List (String × Author) :=
  let row := db.threadResults.get? thread
  let links := ((db.threadArtifacts.rows.filter fun a => a.threadId == thread).insertionSort
    (fun a b => a.sha256 ≤ b.sha256)).map fun a =>
      (a.sha256, author a.linkedBy a.linkedActorId (everDelegated db a.linkedBy))
  ({ threadId := thread
     result := row.map fun r =>
       { sha256 := env.resultSha256 r.result, producedBy := r.producedBy }
     artifacts := links.map Prod.fst },
   row.map fun r => author r.producedBy r.producedActorId (everDelegated db r.producedBy),
   links)

/-- `manifest_in_tx`. -/
def manifestInTx (db : Db) (thread : ThreadId) : EvidenceManifest :=
  (evidenceInTx env db thread).1

/-! ## 2. Tiers -/

/-- `attest`, in its fixed order: the result, the artifacts, the land-gate pass. -/
def attest (manifest : EvidenceManifest) (resultAuthor : Option Author)
    (linkAuthors : List (String × Author)) (workers : List MemberId) (gate : GateReading) :
    List EvidenceAttestation :=
  (match manifest.result, resultAuthor with
   | some result, some a =>
     [{ kind := .result, sha256 := some result.sha256, tier := a.tier workers,
        attestedBy := a.member }]
   | _, _ => []) ++
  (manifest.artifacts.filterMap fun sha =>
    (linkAuthors.find? fun link => link.1 == sha).map fun link =>
      { kind := .artifact, sha256 := some sha, tier := link.2.tier workers,
        attestedBy := link.2.member }) ++
  (match gate with
   | .recorded pass =>
     if pass.qualifies then
       [{ kind := .landGate, sha256 := pass.artifactSha, tier := .verified,
          attestedBy := pass.recordedBy }]
     else []
   | _ => [])

/-- `attestations_in_tx`. -/
def attestationsInTx (db : Db) (manifest : EvidenceManifest) (resultAuthor : Option Author)
    (linkAuthors : List (String × Author)) : List EvidenceAttestation :=
  attest manifest resultAuthor linkAuthors
    ((db.threadWorkers.rows.filter fun w => w.threadId == manifest.threadId).map WorkerRow.memberId)
    (readLandGate db manifest.threadId)

/-! ## 3. Packets -/

/-- `review_packets::record_in_tx`. -/
def recordPacketInTx (db : Db) (thread : ThreadId) (packet : PacketId) (now : Int) :
    Except StoreError Db :=
  let (manifest, resultAuthor, linkAuthors) := evidenceInTx env db thread
  let manifest :=
    { manifest with attestations := attestationsInTx db manifest resultAuthor linkAuthors }
  match db.reviewPackets.insert?
      { id := packet, threadId := thread, manifest := manifest, evidenceRoot := env.root manifest,
        createdAt := now } with
  | none => .error (.database "UNIQUE constraint failed: maidan_review_packets.id")
  | some packets => .ok { db with reviewPackets := packets }

/-- `ORDER BY created_at DESC, id DESC LIMIT 1`. -/
def newestPacket (packets : List PacketRow) : Option PacketRow :=
  firstBy (fun p => [-p.createdAt, -(p.id.val : Int)]) packets

/-- `latest_root_in_tx`. -/
def latestRootInTx (db : Db) (thread : ThreadId) : Option String :=
  (newestPacket (db.reviewPackets.rows.filter fun p => p.threadId == thread)).map
    PacketRow.evidenceRoot

/-- The text of `ensure_unchanged_in_tx`. -/
def evidenceChangedText : String :=
  "the evidence changed after it was handed to review: its result or linked artifacts " ++
  "are not what the reviewers were shown. Next: start_review again, so the review " ++
  "covers what is there now"

/-- `ensure_unchanged_in_tx`, as a question: does the evidence still match what the packet with
`root` pinned? -/
def unchangedSince (db : Db) (thread : ThreadId) (root : String) : Bool :=
  match newestPacket (db.reviewPackets.rows.filter fun p =>
      p.threadId == thread && p.evidenceRoot == root) with
  | none => false
  | some pinned => pinned.manifest.sameEvidence (manifestInTx env db thread)

/-- `ensure_unchanged_in_tx`. -/
def ensureUnchangedInTx (db : Db) (thread : ThreadId) (root : String) : Except StoreError Unit :=
  if unchangedSince env db thread root then .ok () else .error (.conflict evidenceChangedText)

/-- `verify_root_in_tx`: a verdict that names a root must name the current one, unchanged. -/
def verifyRootInTx (db : Db) (thread : ThreadId) (root : String) : Except StoreError Unit :=
  match latestRootInTx db thread with
  | none => .error (.conflict (
      "nothing was handed to review: there is no evidence to decide on. " ++
      "Next: start_review hands the thread over, then read get_review_packet"))
  | some latest =>
    if latest ≠ root then
      .error (.conflict (
        "stale evidence: the current review was handed evidence_root " ++ latest ++ ", not " ++
        root ++ ". Next: read get_review_packet and decide on what it shows"))
    else ensureUnchangedInTx env db thread latest

/-- `evidence_changed`: `false` before any hand-off. -/
def evidenceChanged (db : Db) (thread : ThreadId) : Bool :=
  match latestRootInTx db thread with
  | none => false
  | some root => !unchangedSince env db thread root

end Maidan
