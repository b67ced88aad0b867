/-
# Polling a peer

`poll_peer` (`federation_worker.rs`) asks a peer for the events after the cursor, ingests them one
by one and then saves the cursor.  FOUR DURABLE WRITES stand behind one event, each in its own
statement: the verified link, the append, the ingest row, and -- for the batch -- the cursor.  Any
of them may fail, and the process may stop between any two.

The poller is a machine that makes one call at a time (`pollCall`), over the calls of
`ingest_envelope` as `Federation.Ingest` has them.  A failing call (`pollFail`) ends the batch: the
cursor moves over what was ingested before it.  A stop (`PollAct.stop`) forgets the batch.

§3 says where a poller that can still go on stands: what it has verified is an initial piece of the
origin's log (`Standing`), and everything verified BEYOND the cursor has its ingest row
(`Position`).  That is what a retry needs, because `verify_peer_link` refuses an event at or before
the last verified link, and only the ingest row keeps the retry from asking it.
-/
import Maidan.Lib.Ordered
import Maidan.Federation.Ingest

namespace Maidan

open Relational Table Run Ordered List

/-! ## 1. The machine -/

/-- Where a poll of one peer stands: nothing under way; a batch whose rest is `page`; or the
ingestion of one event, at the call `pc`.  `maxId` is `max_id`. -/
inductive PollPhase
  | idle
  | batch (page : List StoredEvent) (maxId : Int)
  | ingesting (d : Delivery) (pc : Pc) (page : List StoredEvent) (maxId : Int)

/-- The tables, the peer's `last_synced_event_id` and the poll under way. -/
structure Poller where
  node : Node
  lastSynced : Int := 0
  phase : PollPhase := .idle

/-- The page `list_events` returns. -/
def listEvents (events : List StoredEvent) (lastSynced : Int) : List StoredEvent :=
  (after StoredEvent.id lastSynced events).take 100

/-- The envelope the poller makes of an event it was sent. -/
def polledEnvelope (peer : Peer) (e : StoredEvent) : FederationEnvelope :=
  { originPeerId := peer.id, remoteEventId := e.id, event := e }

variable (env : HashEnv)

/-- **One call of `poll_peer`**, when it succeeds. -/
def pollCall (peer : Peer) (events : List StoredEvent) (s : Poller) : Poller :=
  match s.phase with
  | .idle => { s with phase := .batch (listEvents events s.lastSynced) s.lastSynced }
  | .batch (e :: page) maxId =>
    match accept peer (polledEnvelope peer e) with
    | .ok d => { s with phase := .ingesting d .existsCheck page maxId }
    | .error _ => { s with phase := .batch [] maxId }
  | .ingesting d (.done (.ok _)) page maxId =>
    { s with phase := .batch page (max maxId d.envelope.remoteEventId) }
  | .ingesting _ (.done (.error _)) _ maxId => { s with phase := .batch [] maxId }
  | .ingesting d pc page maxId =>
    let (node, pc) := ingestCall env s.node d pc
    { s with node := node, phase := .ingesting d pc page maxId }
  | .batch [] maxId =>
    if s.lastSynced < maxId then { s with lastSynced := maxId, phase := .idle }
    else { s with phase := .idle }

/-- Whether the payload opens as an event a peer may push. -/
def federates (e : StoredEvent) : Bool :=
  match env.openedEvent e.payload with
  | .ok event => event.kind.federatable
  | .error _ => false

/-- What a failing store call makes of a run of `ingest_envelope`.  Where no call is made (the
link is checked, or the event is refused) nothing can fail. -/
def Pc.failed (env : HashEnv) (d : Delivery) : Pc → Pc
  | .existsCheck | .readLink | .recordLink | .recordIngest _ => .done (.error .store)
  | .append =>
    if federates env d.envelope.event then .done (.error (.internal "event log append failed"))
    else .append
  | pc => pc

/-- **The call fails**: the listing, a call of `ingest_envelope`, or the saving of the cursor. -/
def pollFail (s : Poller) : Poller :=
  match s.phase with
  | .idle => s
  | .batch [] _ => { s with phase := .idle }
  | .batch (_ :: _) _ => s
  | .ingesting d pc page maxId => { s with phase := .ingesting d (pc.failed env d) page maxId }

/-- What can happen next. -/
inductive PollAct
  | go
  | fail
  | stop

def pollNext (peer : Peer) (events : List StoredEvent) (s : Poller) : PollAct → Poller
  | .go => pollCall env peer events s
  | .fail => pollFail env s
  | .stop => { s with phase := .idle }

/-! ## 2. The faults a poller survives -/

/-- Every event after the cursor that is verified has its ingest row. -/
def caughtUp (peer : Peer) (events : List StoredEvent) (s : Poller) : Bool :=
  match lastVerifiedLink s.node peer.id with
  | none => true
  | some link => events.all fun e =>
      e.id ≤ s.lastSynced || link.id < e.id || ingestExists s.node peer.id e.id

/-- **The faults that leave nothing half done.**  The process stops, or the cursor is not saved,
only where every verified event after the saved cursor has its ingest row; and no call fails between
the record of a link and the ingest row of its event. -/
def harmless (peer : Peer) (events : List StoredEvent) (s : Poller) : PollAct → Bool
  | .go => true
  | .stop => caughtUp peer events s
  | .fail =>
    match s.phase with
    | .batch [] maxId => maxId ≤ s.lastSynced || caughtUp peer events s
    | .ingesting d .append _ _ => !federates env d.envelope.event
    | .ingesting _ (.recordIngest _) _ _ => false
    | _ => true

/-! ## 3. Where the poller stands -/

/-- **The log of an origin**: numbered from one on, and a chain that verifies. -/
structure OriginLog (env : HashEnv) where
  events : List StoredEvent
  positive : ∀ e ∈ events, 0 < e.id
  stamped : ∀ e ∈ events, e.lsn = e.id
  verifies :
    (verifyChain env (events.map StoredEvent.link) (events.map StoredEvent.payload)).ok = true

variable {e : StoredEvent}

section

variable {env : HashEnv} {origin : OriginLog env} {peer : Peer}

theorem OriginLog.chainOk (origin : OriginLog env) :
    ChainOk env (origin.events.map fun e => (e.link, e.payload)) := by
  rw [← verifyChain_ok_iff, map_map, map_map]
  exact origin.verifies

theorem OriginLog.rowOk (origin : OriginLog env) (he : e ∈ origin.events) :
    RowOk env (e.link, e.payload) :=
  origin.chainOk.rowOk _ (mem_map_of_mem he)

theorem OriginLog.continues (origin : OriginLog env) :
    (origin.events.map StoredEvent.link).IsChain (Continues env) := by
  have h := origin.chainOk.continues
  rwa [map_map] at h

theorem OriginLog.increasing (origin : OriginLog env) :
    Increasing StoredEvent.id origin.events := by
  have hlt : (origin.events.map StoredEvent.id).IsChain (· < ·) := by
    have h := isChain_map_of_isChain EventLink.id (fun _ _ h => h.after) origin.continues
    rwa [map_map] at h
  exact pairwise_map.mp (isChain_iff_pairwise.mp hlt)

/-- The row `record_verified_link` writes for an event. -/
def verifiedRow (peer : PeerId) (e : StoredEvent) : VerifiedLinkRow :=
  { peerId := peer, remoteEventId := e.id, originPrevHash := e.prevHash,
    originContentHash := e.contentHash }

/-- **What is verified is an initial piece of the origin's log**, its last event is the link on
record, and nothing else has been ingested.  What has its ingest row is in the local log. -/
structure Standing (origin : OriginLog env) (peer : Peer) (node : Node) (past : List StoredEvent) :
    Prop where
  verified : past <+: origin.events
  row : node.verifiedLink.get? peer.id = past.getLast?.map (verifiedRow peer.id)
  ingested : ∀ id, ingestExists node peer.id id = true → ∃ e ∈ past, e.id = id
  logged : ∀ id, ingestExists node peer.id id = true → (peer.id, id) ∈ ingestedPairs node

/-- **Where a retry may start**: at a mark up to which everything is verified and what federates is
ingested, and beyond which everything that is verified is ingested. -/
structure Position (origin : OriginLog env) (ingested : Int → Bool) (past : List StoredEvent)
    (mark : Int) : Prop where
  reached : ∀ e ∈ origin.events, e.id ≤ mark → e ∈ past
  kept : ∀ e ∈ origin.events, e.id ≤ mark → federates env e = true → ingested e.id = true
  caught : ∀ e ∈ past, mark < e.id → ingested e.id = true

theorem Standing.mem_of_ingested (h : Standing origin peer node past) (he : e ∈ origin.events)
    (hin : ingestExists node peer.id e.id = true) : e ∈ past := by
  obtain ⟨e', he', hid⟩ := h.ingested e.id hin
  rwa [← origin.increasing.eq_of_key (h.verified.subset he') he hid]

theorem Standing.lastVerifiedLink (h : Standing origin peer node past) :
    lastVerifiedLink node peer.id = past.getLast?.map StoredEvent.link := by
  unfold Maidan.lastVerifiedLink
  rw [h.row]
  cases hlast : past.getLast? with
  | none =>
    have hnone : (node.federatedIngest.rows.filter fun r =>
        r.peerId == peer.id && r.originContentHash != "") = [] := by
      refine filter_eq_nil_iff.mpr fun r hr hpeer => ?_
      simp only [Bool.and_eq_true, beq_iff_eq] at hpeer
      have hin : ingestExists node peer.id r.remoteEventId = true := by
        unfold ingestExists
        rw [← hpeer.1, get?_of_mem hr]
        rfl
      obtain ⟨e, he, -⟩ := h.ingested _ hin
      rw [getLast?_eq_none_iff.mp hlast] at he
      cases he
    simp only [Option.map_none, lastOriginLink, hnone]
    rfl
  | some e =>
    have he : e ∈ origin.events := h.verified.subset (mem_of_getLast? hlast)
    have hhash : e.contentHash ≠ "" := (origin.rowOk he).contentHash_ne
    simp only [map_some, verifiedRow, StoredEvent.link, if_neg hhash, origin.stamped e he]

/-- **The first event after the mark is either verified already or the next one to verify.** -/
theorem Standing.next (h : Standing origin peer node past)
    (hreached : ∀ e ∈ origin.events, e.id ≤ mark → e ∈ past)
    (hpage : e :: page <+: after StoredEvent.id mark origin.events) (he : e ∉ past) :
    ∃ rest, origin.events = past ++ e :: rest := by
  obtain ⟨more, hmore⟩ := hpage
  obtain ⟨low, hsplit, hlow⟩ := origin.increasing.split_after mark
  rw [← hmore, cons_append] at hsplit
  obtain ⟨rest, hrest⟩ := h.verified
  have hin : ∀ x ∈ low, x ∈ past := fun x hx => hreached x (by simp [hsplit, hx]) (hlow x hx)
  have hnodup : origin.events.Nodup := origin.increasing.imp fun hlt heq => by
    rw [heq] at hlt
    exact Int.lt_irrefl _ hlt
  rw [hsplit] at hrest
  rcases append_eq_append_iff.mp hrest with ⟨between, hbetween, hback⟩ | ⟨extra, hextra, hback⟩
  · -- `past` ends before `low` does, so what lies between the two is in `past` twice
    cases between with
    | nil => exact ⟨page ++ more, by rw [hsplit, hbetween, append_nil]⟩
    | cons x =>
      have hx : x ∈ past := hin x (by simp [hbetween])
      rw [hsplit, hbetween, append_assoc] at hnodup
      exact absurd rfl ((nodup_append.mp hnodup).2.2 x hx x (by simp))
  · cases extra with
    | nil => exact ⟨page ++ more, by rw [hsplit, hextra, append_nil]⟩
    | cons =>
      rw [cons_append, List.cons.injEq] at hback
      exact absurd (by simp [hextra, hback.1]) he

/-! ## 4. The ingestion of one event -/

/-- The event under way is the first after the mark, and the rest of the page comes after it. -/
structure Handling (origin : OriginLog env) (peer : Peer) (d : Delivery) (page : List StoredEvent)
    (maxId : Int) : Prop where
  ours : d.peer = peer
  first : d.envelope.event :: page <+: after StoredEvent.id maxId origin.events

/-- **Between the record of the link and the ingest row**: the event `e` is verified and has no
ingest row.  From here a retry would be refused. -/
structure HalfDone (origin : OriginLog env) (ingested : Int → Bool) (past : List StoredEvent)
    (maxId : Int) (e : StoredEvent) : Prop where
  reached : ∀ x ∈ origin.events, x.id ≤ e.id → x ∈ past
  kept : ∀ x ∈ origin.events, x.id ≤ maxId → federates env x = true → ingested x.id = true
  caught : ∀ x ∈ past, e.id < x.id → ingested x.id = true
  missing : ingested e.id = false

/-- What holds at each call of the ingestion of `e`. -/
def PcOk (origin : OriginLog env) (peer : Peer) (node : Node) (past : List StoredEvent)
    (maxId : Int) (e : StoredEvent) : Pc → Prop
  | .existsCheck | .done (.error _) => Position origin (ingestExists node peer.id) past maxId
  | .readLink | .recordLink => Position origin (ingestExists node peer.id) past maxId ∧ e ∉ past
  | .verify previous =>
    (Position origin (ingestExists node peer.id) past maxId ∧ e ∉ past) ∧
      previous = past.getLast?.map StoredEvent.link
  | .append => HalfDone origin (ingestExists node peer.id) past maxId e
  | .recordIngest _ =>
    HalfDone origin (ingestExists node peer.id) past maxId e ∧ (peer.id, e.id) ∈ ingestedPairs node
  | .done (.ok _) => Position origin (ingestExists node peer.id) past e.id

/-- How many calls an ingestion has left. -/
def Pc.rank : Pc → Nat
  | .existsCheck => 6
  | .readLink => 5
  | .verify _ => 4
  | .recordLink => 3
  | .append => 2
  | .recordIngest _ => 1
  | .done _ => 0

def Pc.isError : Pc → Bool
  | .done (.error _) => true
  | _ => false

section

variable {node : Node} {past page : List StoredEvent} {d : Delivery} {maxId : Int}

section

variable (h : Handling origin peer d page maxId)
include h

theorem Handling.event_mem : d.envelope.event ∈ origin.events := by
  obtain ⟨more, hmore⟩ := h.first
  exact (origin.increasing.first_after hmore.symm).1

/-- Up to the event under way there is nothing but what the mark had passed, and the event. -/
theorem Handling.upto (hx : x ∈ origin.events) (hle : x.id ≤ d.envelope.event.id) :
    x.id ≤ maxId ∨ x = d.envelope.event := by
  obtain ⟨more, hmore⟩ := h.first
  exact (origin.increasing.first_after hmore.symm).2.2.1 x hx hle

theorem Handling.beyond : maxId < d.envelope.event.id := by
  obtain ⟨more, hmore⟩ := h.first
  exact (origin.increasing.first_after hmore.symm).2.1

theorem Handling.rest : page <+: after StoredEvent.id d.envelope.event.id origin.events := by
  obtain ⟨more, hmore⟩ := h.first
  exact ⟨more, (origin.increasing.first_after hmore.symm).2.2.2.symm⟩

end

/-- **The event is done with**: the mark moves to it. -/
theorem HalfDone.finish (hh : Handling origin peer d page maxId)
    (h : HalfDone origin ingested past maxId d.envelope.event)
    (hmore : ∀ id, ingested id = true → ingested' id = true)
    (hdone : federates env d.envelope.event = true → ingested' d.envelope.event.id = true) :
    Position origin ingested' past d.envelope.event.id := by
  refine { h with kept := ?_, caught := fun x hx hlt => hmore _ (h.caught x hx hlt) }
  intro x hx hle hfed
  rcases hh.upto hx hle with hbefore | rfl
  · exact hmore _ (h.kept x hx hbefore hfed)
  · exact hdone hfed

section

variable (hst : Standing origin peer node past)
include hst

theorem Position.advance (hh : Handling origin peer d page maxId)
    (h : Position origin (ingestExists node peer.id) past maxId)
    (hin : ingestExists node peer.id d.envelope.event.id = true) :
    Position origin (ingestExists node peer.id) past d.envelope.event.id where
  reached := by
    intro x hx hle
    rcases hh.upto hx hle with hbefore | rfl
    · exact h.reached x hx hbefore
    · exact hst.mem_of_ingested hx hin
  kept := by
    intro x hx hle hfed
    rcases hh.upto hx hle with hbefore | rfl
    · exact h.kept x hx hbefore hfed
    · exact hin
  caught := fun x hx hlt => h.caught x hx (Int.lt_trans hh.beyond hlt)

/-- **The record of the link** makes the event the last verified one. -/
theorem Standing.record (hsplit : origin.events = past ++ e :: rest) :
    Standing origin peer (recordVerifiedLink node peer.id e.link) (past ++ [e]) where
  verified := ⟨rest, by rw [hsplit, append_assoc]; rfl⟩
  row := by
    unfold recordVerifiedLink
    simp only [get?_upsert, hst.row, if_true, getLast?_concat, map_some]
    cases hlast : past.getLast? with
    | none => rfl
    | some x =>
      have hlt : x.id < e.id := by
        have hinc := origin.increasing
        rw [hsplit] at hinc
        exact (pairwise_append.mp hinc).2.2 x (mem_of_getLast? hlast) e (by simp)
      have hlink : x.id < e.link.id := hlt
      simp only [map_some, Option.elim_some, verifiedRow, if_pos hlink]
      rfl
  ingested := by
    intro id hin
    obtain ⟨x, hx, hid⟩ := hst.ingested id hin
    exact ⟨x, by simp [hx], hid⟩
  logged := hst.logged

theorem HalfDone.of_recorded (hh : Handling origin peer d page maxId)
    (h : Position origin (ingestExists node peer.id) past maxId) (hnew : d.envelope.event ∉ past) :
    HalfDone origin (ingestExists node peer.id) (past ++ [d.envelope.event]) maxId
      d.envelope.event where
  reached := by
    intro x hx hle
    rcases hh.upto hx hle with hbefore | rfl
    · exact mem_append_left _ (h.reached x hx hbefore)
    · simp
  kept := h.kept
  caught := by
    intro x hx hlt
    rcases mem_append.mp hx with hx | hx
    · exact h.caught x hx (Int.lt_trans hh.beyond hlt)
    · rw [mem_singleton.mp hx] at hlt
      exact absurd hlt (Int.lt_irrefl _)
  missing := by
    cases hin : ingestExists node peer.id d.envelope.event.id with
    | false => rfl
    | true => exact absurd (hst.mem_of_ingested hh.event_mem hin) hnew

end

/-- **The ingest row** is the only thing `try_record_ingest` adds. -/
theorem ingestExists_tryRecordIngest (node : Node) (peer : PeerId) (remote logId : Int)
    (link : EventLink) (id : Int) :
    ingestExists (tryRecordIngest node peer remote logId link).1 peer id =
      (ingestExists node peer id || id == remote) := by
  unfold ingestExists tryRecordIngest
  simp only [get?_insertIgnore, Prod.mk.injEq, true_and]
  by_cases hid : remote = id
  · simp [hid]
  · simp [hid, Ne.symm hid]

theorem Standing.ingest (hst : Standing origin peer node past) (he : e ∈ past)
    (hlog : (peer.id, e.id) ∈ ingestedPairs node) (logId : Int) :
    Standing origin peer (tryRecordIngest node peer.id e.id logId e.link).1 past := by
  refine { hst with ingested := ?_, logged := ?_ }
  · intro id hin
    rw [ingestExists_tryRecordIngest, Bool.or_eq_true, beq_iff_eq] at hin
    rcases hin with hin | rfl
    · exact hst.ingested id hin
    · exact ⟨e, he, rfl⟩
  · intro id hin
    rw [ingestExists_tryRecordIngest, Bool.or_eq_true, beq_iff_eq] at hin
    rcases hin with hin | rfl
    · exact hst.logged id hin
    · exact hlog

theorem Standing.append (hst : Standing origin peer node past) (event : Event) :
    Standing origin peer (appendFederatedEvent node d event) past := by
  refine { hst with logged := ?_ }
  intro id hin
  have hold := hst.logged id hin
  unfold ingestedPairs appendFederatedEvent at *
  rw [filterMap_append]
  exact mem_append_left _ hold

theorem mem_ingestedPairs_append (node : Node) (d : Delivery) (event : Event) :
    (d.peer.id, d.envelope.remoteEventId) ∈ ingestedPairs (appendFederatedEvent node d event) := by
  unfold ingestedPairs appendFederatedEvent
  rw [filterMap_append]
  exact mem_append_right _ (by simp)

/-- **The next event of the origin verifies** against the last one verified. -/
theorem OriginLog.verifies_next (origin : OriginLog env)
    (hsplit : origin.events = past ++ e :: rest) :
    verifyPeerLink env e.link e.payload (past.getLast?.map StoredEvent.link) = .ok () := by
  refine verifyPeerLink_iff.mpr ⟨origin.rowOk (by simp [hsplit]), fun prev hprev => ?_⟩
  obtain ⟨x, hx, rfl⟩ := map_eq_some_iff.mp hprev
  obtain ⟨front, rfl⟩ := getLast?_eq_some_iff.mp hx
  have hchain := origin.continues
  rw [hsplit, append_assoc, map_append] at hchain
  exact (isChain_cons_cons.mp hchain.right_of_append).1

theorem Delivery.remote_eq (d : Delivery) : d.envelope.remoteEventId = d.envelope.event.id :=
  d.link_id.symm

/-- **One call of an ingestion that can go on goes on**: the position is kept, no error comes up,
and fewer calls are left. -/
theorem ingestCall_ok (hopens : ∀ e ∈ origin.events, ∃ event, env.openedEvent e.payload = .ok event)
    (hst : Standing origin peer node past) (hh : Handling origin peer d page maxId)
    (hpc : PcOk origin peer node past maxId d.envelope.event pc) (hrank : pc.rank ≠ 0) :
    ∃ past', Standing origin peer (ingestCall env node d pc).1 past' ∧
      PcOk origin peer (ingestCall env node d pc).1 past' maxId d.envelope.event
        (ingestCall env node d pc).2 ∧
      (ingestCall env node d pc).2.isError = false ∧ (ingestCall env node d pc).2.rank < pc.rank := by
  have hpeer := hh.ours
  cases pc with
  | existsCheck =>
    simp only [ingestCall, d.remote_eq, hpeer]
    cases hin : ingestExists node peer.id d.envelope.event.id with
    | true => exact ⟨past, hst, Position.advance hst hh hpc hin, rfl, by simp [Pc.rank]⟩
    | false =>
      refine ⟨past, hst, ⟨hpc, fun hmem => ?_⟩, rfl, by simp [Pc.rank]⟩
      -- verified and beyond the mark, the event would have its ingest row
      rw [hpc.caught _ hmem hh.beyond] at hin
      cases hin
  | readLink =>
    simp only [ingestCall, hpeer]
    exact ⟨past, hst, ⟨hpc, hst.lastVerifiedLink⟩, rfl, by simp [Pc.rank]⟩
  | verify =>
    obtain ⟨⟨hpos, hnew⟩, rfl⟩ := hpc
    obtain ⟨rest, hsplit⟩ := hst.next hpos.reached hh.first hnew
    simp only [ingestCall, origin.verifies_next hsplit]
    exact ⟨past, hst, ⟨hpos, hnew⟩, rfl, by simp [Pc.rank]⟩
  | recordLink =>
    obtain ⟨hpos, hnew⟩ := hpc
    obtain ⟨rest, hsplit⟩ := hst.next hpos.reached hh.first hnew
    simp only [ingestCall, hpeer]
    have hhalf := HalfDone.of_recorded hst hh hpos hnew
    exact ⟨_, hst.record hsplit, hhalf, rfl, by simp [Pc.rank]⟩
  | append =>
    obtain ⟨event, hevent⟩ := hopens _ hh.event_mem
    cases hfed : event.kind.federatable with
    | true =>
      simp only [ingestCall, hevent, hfed, if_true]
      have hlog := mem_ingestedPairs_append node d event
      rw [d.remote_eq, hpeer] at hlog
      exact ⟨past, hst.append event, ⟨hpc, hlog⟩, rfl, by simp [Pc.rank]⟩
    | false =>
      simp only [ingestCall, hevent, hfed, Bool.false_eq_true, if_false]
      refine ⟨past, hst, HalfDone.finish hh hpc (fun _ h => h) (fun h => ?_), rfl, by simp [Pc.rank]⟩
      simp [federates, hevent, hfed] at h
  | recordIngest logId =>
    obtain ⟨hhalf, hlog⟩ := hpc
    have hpast : d.envelope.event ∈ past := hhalf.reached _ hh.event_mem (Int.le_refl _)
    simp only [ingestCall, d.remote_eq, hpeer]
    refine ⟨past, hst.ingest hpast hlog logId, HalfDone.finish hh hhalf ?_ ?_, rfl,
      by simp [Pc.rank]⟩
    · intro id hin
      rw [ingestExists_tryRecordIngest, hin, Bool.true_or]
    · intro _
      rw [ingestExists_tryRecordIngest, beq_self_eq_true, Bool.or_true]
  | done => exact absurd rfl hrank

end

end

end Maidan
