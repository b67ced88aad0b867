/-
# Ingesting a peer's events

`ingest_envelope` (`federation.rs`), called by the push route and by the poller, takes one event
of a peer's log into the local one.  It is a SEQUENCE OF STORE CALLS with no transaction around
them:

1. `federated_ingest_exists` -- already ingested, nothing to do;
2. `last_federated_verified_link` -- the last link verified from this peer;
3. `verify_peer_link` -- the envelope continues the chain (a pure step);
4. `record_federated_verified_link` -- the chain has advanced, whatever policy says next;
5. `append_federated_event` -- the event goes into the local log, if its kind may be pushed;
6. `try_record_federated_ingest` -- the dedup row.

So a run is a program counter (`Pc`) over the shared tables, and a schedule interleaves the calls
of any number of runs (`FedAct`).  A run may also stop anywhere: a call fails, or the process does.

What the runs keep out of the log the second time is in `Federation.AtMostOnce`.
-/
import Maidan.Lib.Table
import Maidan.Events.Chain

namespace Maidan

open Relational

/-! ## 1. Peers and envelopes -/

/-- The columns of a `Peer` that ingest reads. -/
structure Peer where
  id : PeerId
  workspaceId : WorkspaceId

/-- `FederationEnvelope`. -/
structure FederationEnvelope where
  originPeerId : PeerId
  remoteEventId : Int
  event : StoredEvent

/-- The errors of `ingest_envelope`.  `store` is a store call that failed. -/
inductive ApiError
  | badRequest (msg : String)
  | forbidden (msg : String)
  | eventLogBroken (breakAt : Option Int) (reason : ChainBreakReason)
  | internal (msg : String)
  | store

/-- `FederationError::InvalidEnvelope`, as `federation_err` answers it. -/
def invalidEnvelope (msg : String) : ApiError := .badRequest ("invalid envelope: " ++ msg)

/-- `FederationEnvelope::validate`. -/
def FederationEnvelope.validate (e : FederationEnvelope) : Except ApiError Unit :=
  if e.remoteEventId < 0 then .error (invalidEnvelope "remote_event_id must be non-negative")
  else if e.event.id ≠ e.remoteEventId then
    .error (invalidEnvelope "event.id must equal remote_event_id")
  else if e.event.id < 0 then .error (invalidEnvelope "event.id must be non-negative")
  else if e.event.lsn ≠ e.event.id then .error (invalidEnvelope "event.lsn must equal event.id")
  else .ok ()

/-- **An envelope past the first two checks**: well formed, and from the peer that sent it. -/
structure Delivery where
  peer : Peer
  envelope : FederationEnvelope
  valid : envelope.validate = .ok ()
  mine : envelope.originPeerId = peer.id

/-- The checks before the first store call. -/
def accept (peer : Peer) (envelope : FederationEnvelope) : Except ApiError Delivery :=
  match h : envelope.validate with
  | .error e => .error e
  | .ok () =>
    if h' : envelope.originPeerId = peer.id then .ok ⟨peer, envelope, h, h'⟩
    else .error (.forbidden "origin_peer_id does not match authenticated peer")

theorem Delivery.link_id (d : Delivery) : d.envelope.event.link.id = d.envelope.remoteEventId := by
  have hvalid := d.valid
  unfold FederationEnvelope.validate at hvalid
  split at hvalid
  · cases hvalid
  split at hvalid
  · cases hvalid
  exact not_not.mp ‹_›

/-! ## 2. The tables -/

/-- A row of `maidan_federated_ingest`. -/
structure FederatedIngestRow where
  peerId : PeerId
  remoteEventId : Int
  localEventId : Int
  originPrevHash : String
  originContentHash : String

/-- A row of `maidan_federated_verified_link`. -/
structure VerifiedLinkRow where
  peerId : PeerId
  remoteEventId : Int
  originPrevHash : String
  originContentHash : String

/-- A row of the local event log.  Of a federated event it names the envelope it was appended for:
the peer is a column of the row, the number is kept only in `maidan_federated_ingest` and stands
here so that the appends of one envelope can be counted. -/
structure LogRow where
  id : Int
  workspaceId : WorkspaceId
  event : Event
  source : Option (PeerId × Int) := none

/-- What the runs share. -/
structure Node where
  federatedIngest : Table (fun r : FederatedIngestRow => (r.peerId, r.remoteEventId)) := .empty
  verifiedLink : Table VerifiedLinkRow.peerId := .empty
  log : List LogRow := []

variable (node : Node) (peer : PeerId)

/-- `ingest_exists`. -/
def ingestExists (remoteEventId : Int) : Bool :=
  (node.federatedIngest.get? (peer, remoteEventId)).isSome

/-- `last_origin_link`. -/
def lastOriginLink : Option EventLink :=
  (firstBy (fun r => -r.remoteEventId) (node.federatedIngest.rows.filter fun r =>
    r.peerId == peer && r.originContentHash != "")).map fun r =>
      { id := r.remoteEventId, lsn := r.remoteEventId, prevHash := r.originPrevHash,
        contentHash := r.originContentHash }

/-- `last_verified_link`: the verified link, else the last ingested one. -/
def lastVerifiedLink : Option EventLink :=
  match node.verifiedLink.get? peer with
  | none => lastOriginLink node peer
  | some row =>
    if row.originContentHash = "" then lastOriginLink node peer
    else some { id := row.remoteEventId, lsn := row.remoteEventId, prevHash := row.originPrevHash,
                contentHash := row.originContentHash }

/-- `record_verified_link`: an upsert that never moves the link backwards. -/
def recordVerifiedLink (link : EventLink) : Node :=
  { node with
    verifiedLink := node.verifiedLink.upsert
      { peerId := peer, remoteEventId := link.id, originPrevHash := link.prevHash,
        originContentHash := link.contentHash }
      (fun old =>
        if old.remoteEventId < link.id then
          { old with
            remoteEventId := link.id, originPrevHash := link.prevHash,
            originContentHash := link.contentHash }
        else old)
      (by
        intro old
        split <;> rfl) }

/-- The id the next row of the log gets. -/
def nextLogId : Int := node.log.length + 1

/-- `append_federated_event`. -/
def appendFederatedEvent (d : Delivery) (event : Event) : Node :=
  { node with
    log := node.log ++
      [{ id := nextLogId node, workspaceId := d.peer.workspaceId, event := event,
         source := some (d.peer.id, d.envelope.remoteEventId) }] }

/-- `try_record_ingest`: whether the row was new. -/
def tryRecordIngest (remoteEventId localEventId : Int) (origin : EventLink) : Node × Bool :=
  ({ node with
      federatedIngest := node.federatedIngest.insertIgnore
        { peerId := peer, remoteEventId := remoteEventId, localEventId := localEventId,
          originPrevHash := origin.prevHash, originContentHash := origin.contentHash } },
    !ingestExists node peer remoteEventId)

/-! ## 3. Runs and schedules -/

/-- `IngestOutcome`. -/
inductive IngestOutcome
  | ingested
  | skippedDuplicate
  | skippedNotFederatable

/-- The call a run of `ingest_envelope` makes next. -/
inductive Pc
  | existsCheck
  | readLink
  | verify (previous : Option EventLink)
  | recordLink
  | append
  | recordIngest (logId : Int)
  | done (result : Except ApiError IngestOutcome)

structure IngestRun where
  delivery : Delivery
  pc : Pc := .existsCheck

/-- **One call of `ingest_envelope`.** -/
def ingestCall (env : HashEnv) (node : Node) (d : Delivery) : Pc → Node × Pc
  | .existsCheck =>
    if ingestExists node d.peer.id d.envelope.remoteEventId then
      (node, .done (.ok .skippedDuplicate))
    else (node, .readLink)
  | .readLink => (node, .verify (lastVerifiedLink node d.peer.id))
  | .verify previous =>
    match verifyPeerLink env d.envelope.event.link d.envelope.event.payload previous with
    | .error reason => (node, .done (.error (.eventLogBroken (some d.envelope.event.id) reason)))
    | .ok () => (node, .recordLink)
  | .recordLink => (recordVerifiedLink node d.peer.id d.envelope.event.link, .append)
  | .append =>
    match env.openedEvent d.envelope.event.payload with
    | .error e => (node, .done (.error (.badRequest ("invalid event payload: " ++ e))))
    | .ok event =>
      if event.kind.federatable then
        (appendFederatedEvent node d event, .recordIngest (nextLogId node))
      else (node, .done (.ok .skippedNotFederatable))
  | .recordIngest logId =>
    let (node, recorded) := tryRecordIngest node d.peer.id d.envelope.remoteEventId logId
      d.envelope.event.link
    (node, .done (.ok (if recorded then .ingested else .skippedDuplicate)))
  | .done result => (node, .done result)

/-- The node and the runs on it. -/
structure Fed where
  node : Node := {}
  runs : List IngestRun := []

/-- What can happen next. -/
inductive FedAct
  /-- The push route or the poller starts a run. -/
  | deliver (peer : Peer) (envelope : FederationEnvelope)
  /-- A run makes its next call. -/
  | call (run : Nat)
  /-- A run's next call fails, or the process stops there. -/
  | fail (run : Nat)
  /-- The node appends an event of its own. -/
  | appendLocal (workspace : WorkspaceId) (event : Event)

def fedNext (env : HashEnv) (s : Fed) : FedAct → Fed
  | .deliver peer envelope =>
    match accept peer envelope with
    | .error _ => s
    | .ok d => { s with runs := s.runs ++ [{ delivery := d }] }
  | .call i =>
    match s.runs[i]? with
    | none => s
    | some r =>
      let (node, pc) := ingestCall env s.node r.delivery r.pc
      { node := node, runs := s.runs.set i { r with pc := pc } }
  | .fail i =>
    match s.runs[i]? with
    | none => s
    | some r => { s with runs := s.runs.set i { r with pc := .done (.error .store) } }
  | .appendLocal workspace event =>
    { s with
      node := { s.node with
        log := s.node.log ++
          [{ id := nextLogId s.node, workspaceId := workspace, event := event }] } }

/-- The pairs `(peer, remote_event_id)` the log holds an event for, with repetitions. -/
def ingestedPairs : List (PeerId × Int) := node.log.filterMap LogRow.source

end Maidan
