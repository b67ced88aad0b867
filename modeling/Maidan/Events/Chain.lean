/-
# Events and their chain

An event log is chained per workspace (`event_chain.rs`): each row carries the hash of its payload
(`content_hash`) and a commitment to the row before it (`prev_hash`).  A node that receives a
peer's rows one by one checks each against the last link it verified (`verify_peer_link`).

SHA-256 and the canonical form of JSON are parameters (`HashEnv`); what they are applied to, and
every check on the result, is the source's.  `ChainVerifier` walks a whole log with the same check
of one row, and `verifyChain_ok_iff` says what a log that passes is: every row carries the hash of
its payload, and each commits to the row before it.  A client that catches up checks page after page,
each from the last link before it (`verify_catch_up`); how the log is cut does not change the verdict.
-/
import Maidan.Lib.Run
import Maidan.Lib.Text
import Maidan.Types

namespace Maidan

open List

/-! ## 1. Event kinds -/

/-- `EventKind`. -/
inductive EventKind
  | workspaceCreated
  | memberJoined
  | channelCreated
  | threadCreated
  | threadStateChanged
  | threadAssignmentChanged
  | threadReady
  | threadResultSet
  | threadCancelled
  | threadAttributesSet
  | approvalRequested
  | threadBlocked
  | blockedResolved
  | statusDeclared
  | claimExpired
  | claimUnacknowledged
  | claimStalled
  | claimFailed
  | usageReported
  | threadLanded
  | threadNotice
  | threadHandoff
  | resultDeliveryFailed
  | reviewSubmitted
  | approvalDismissed
  | waitTimedOut
  | evidenceAdded
  | scheduleSkipped
  | threadSpawnDenied
  | projectorMisconfigured
  | memberFrozen
  | memberUnfrozen
  | memberDisplayNameChanged
  | intakeProposed
  | intakeAccepted
  | intakeRejected
  | usageOverAllowance
  | messagePosted
  | messageEdited
  | messageTombstoned
  | mentionRecorded
  | voteCast
  | voteRetracted
  | reactionAdded
  | reactionRemoved
  | messagePinned
  | messageUnpinned
  | referenceAdded
  | artifactUpserted
  | memoryBlockUpdated

/-- `EventKind::federatable`: the kinds a peer may push. -/
def EventKind.federatable : EventKind → Bool
  | .workspaceCreated | .memberJoined | .channelCreated | .threadCreated | .threadStateChanged
  | .threadAssignmentChanged | .messagePosted | .messageEdited | .messageTombstoned
  | .mentionRecorded | .voteCast | .voteRetracted | .reactionAdded | .reactionRemoved
  | .messagePinned | .messageUnpinned | .referenceAdded => true
  | _ => false

/-- An event as a node reads it: its kind, and the rest of it as text. -/
structure Event where
  kind : EventKind
  content : String

/-! ## 2. Links -/

/-- `EventLink`. -/
structure EventLink where
  id : Int
  lsn : Int
  prevHash : String
  contentHash : String

/-- The columns of a `StoredEvent` that travel. -/
structure StoredEvent where
  id : Int
  lsn : Int
  payload : String
  prevHash : String
  contentHash : String

/-- `StoredEvent::link`. -/
def StoredEvent.link (e : StoredEvent) : EventLink :=
  { id := e.id, lsn := e.lsn, prevHash := e.prevHash, contentHash := e.contentHash }

/-- What the chain is computed with, and how a payload is read as an event
(`StoredEvent::opened_event`). -/
structure HashEnv (π : Type := String) where
  /-- The hex digits of the SHA-256 of a text. -/
  sha256 : String → String
  /-- `canonical_json`, `none` where it fails. -/
  canonicalJson : π → Option String
  openedEvent : π → Except String Event

section Chain

variable {π : Type}

/-- `HASH_PREFIX`. -/
def hashStart : String := "sha256:"

/-- `encode_digest`. -/
def encodeDigest (hex : String) : String := hashStart ++ hex

/-- `genesis_hash`. -/
def genesisHash (env : HashEnv π) : String := encodeDigest (env.sha256 "maidan.event-log.genesis/1")

/-- `content_hash`. -/
def contentHash (env : HashEnv π) (payload : π) : Option String :=
  (env.canonicalJson payload).map fun bytes => encodeDigest (env.sha256 bytes)

/-- `chain_hash`. -/
def chainHash (env : HashEnv π) (prevHash contentHash : String) (id : Int) : String :=
  encodeDigest (env.sha256 (prevHash ++ "\n" ++ contentHash ++ "\n" ++ toString id))

/-- `next_prev_hash`: what the next append writes, given the workspace's head. -/
def nextPrevHash (env : HashEnv π) : Option EventLink → String
  | none => genesisHash env
  | some link => chainHash env link.prevHash link.contentHash link.id

/-- `link_for`. -/
def linkFor (env : HashEnv π) (id : Int) (payload : π) (previous : Option EventLink) :
    Option EventLink :=
  (contentHash env payload).map fun content =>
    { id := id, lsn := id, prevHash := nextPrevHash env previous, contentHash := content }

/-- `hex_decode` succeeds.  It trims first, which the length check before it does not. -/
def hexDecodes (hex : List Char) : Bool :=
  let trimmed := Text.trim hex
  Text.utf8Len trimmed % 2 == 0 && !trimmed.isEmpty && trimmed.all Text.isAsciiHexDigit

/-- `is_well_formed_hash`. -/
def isWellFormedHash (s : String) : Bool :=
  match Text.stripStart hashStart s.toList with
  | none => false
  | some hex => Text.utf8Len hex == 64 && hexDecodes hex

/-! ## 3. Verification -/

/-- `ChainBreakReason`. -/
inductive ChainBreakReason
  | contentHashMismatch
  | prevHashMismatch
  | malformedHash
  | idNotIncreasing
deriving DecidableEq, Repr

/-- The payload half of `verify_link`. -/
def verifyContent (env : HashEnv π) (link : EventLink) (payload : π) :
    Except ChainBreakReason Unit :=
  match contentHash env payload with
  | none => .error .malformedHash
  | some expected =>
    if expected = link.contentHash then .ok () else .error .contentHashMismatch

/-- `verify_link`. -/
def verifyLink (env : HashEnv π) (link : EventLink) (payload : π) (previous : Option EventLink)
    (fromGenesis : Bool) : Except ChainBreakReason Unit :=
  if !isWellFormedHash link.prevHash || !isWellFormedHash link.contentHash then
    .error .malformedHash
  else
    match previous with
    | some prev =>
      if link.id ≤ prev.id then .error .idNotIncreasing
      else if link.prevHash ≠ chainHash env prev.prevHash prev.contentHash prev.id then
        .error .prevHashMismatch
      else verifyContent env link payload
    | none =>
      if fromGenesis && link.prevHash != genesisHash env then .error .prevHashMismatch
      else verifyContent env link payload

/-- `verify_peer_link`. -/
def verifyPeerLink (env : HashEnv π) (link : EventLink) (payload : π)
    (previous : Option EventLink) : Except ChainBreakReason Unit :=
  verifyLink env link payload previous (previous.isNone && link.prevHash == genesisHash env)

/-! ## 4. Walking a log -/

/-- `EVENT_CHAIN_ALG`. -/
def eventChainAlg : String := "sha256"

/-- `ChainVerifyReport`. -/
structure ChainVerifyReport where
  ok : Bool
  algorithm : String := eventChainAlg
  genesis : String
  checked : UInt32
  head : Option EventLink
  fromGenesis : Bool
  breakAt : Option Int := none
  reason : Option ChainBreakReason := none

/-- `ChainVerifier`: the walk between two rows.  The genesis hash it keeps is `genesisHash env`. -/
structure ChainVerifier where
  fromGenesis : Bool := true
  previous : Option EventLink := none
  checked : UInt32 := 0
  started : Bool := false

/-- The first row decides whether the chain starts at genesis or at a retention floor. -/
def ChainVerifier.begin (env : HashEnv π) (v : ChainVerifier) (link : EventLink) : ChainVerifier :=
  if v.started then v
  else { v with fromGenesis := link.prevHash == genesisHash env, started := true }

/-- `ChainVerifier::push`: the walk goes on, or a report is final. -/
def ChainVerifier.push (env : HashEnv π) (v : ChainVerifier) (row : EventLink × π) :
    Except ChainVerifyReport ChainVerifier :=
  let v := v.begin env row.1
  match verifyLink env row.1 row.2 v.previous (v.fromGenesis && v.checked == 0) with
  | .error reason =>
    .error { ok := false, genesis := genesisHash env, checked := v.checked, head := v.previous,
             fromGenesis := v.fromGenesis, breakAt := some row.1.id, reason := some reason }
  | .ok () => .ok { v with previous := some row.1, checked := v.checked + 1 }

/-- `ChainVerifier::finish`. -/
def ChainVerifier.finish (env : HashEnv π) (v : ChainVerifier) : ChainVerifyReport :=
  { ok := true, genesis := genesisHash env, checked := v.checked, head := v.previous,
    fromGenesis := v.fromGenesis }

/-- The report of a walk that has ended, one way or the other. -/
def ChainVerifier.report (env : HashEnv π) :
    Except ChainVerifyReport ChainVerifier → ChainVerifyReport
  | .error report => report
  | .ok v => v.finish env

/-- `verify_chain` on slices. -/
def verifyChain (env : HashEnv π) (links : List EventLink) (payloads : List π) :
    ChainVerifyReport :=
  if links.length ≠ payloads.length then
    { ok := false, genesis := genesisHash env, checked := 0, head := none, fromGenesis := true,
      breakAt := links.head?.map EventLink.id, reason := some .malformedHash }
  else if links.isEmpty then
    { ok := true, genesis := genesisHash env, checked := 0, head := none, fromGenesis := true }
  else
    ChainVerifier.report env ((links.zip payloads).foldlM (ChainVerifier.push env) {})

/-! ## 5. What a log that verifies is -/

/-- **A row on its own**: two well-formed hashes, one of them that of the payload. -/
structure RowOk (env : HashEnv π) (row : EventLink × π) : Prop where
  prevFormed : isWellFormedHash row.1.prevHash = true
  contentFormed : isWellFormedHash row.1.contentHash = true
  content : contentHash env row.2 = some row.1.contentHash

/-- **A link that continues another.** -/
structure Continues (env : HashEnv π) (prev link : EventLink) : Prop where
  after : prev.id < link.id
  commits : link.prevHash = chainHash env prev.prevHash prev.contentHash prev.id

/-- **What `verify_link` checks.** -/
theorem verifyLink_iff {env : HashEnv π} {link : EventLink} {payload : π}
    {previous : Option EventLink} {fromGenesis : Bool} :
    verifyLink env link payload previous fromGenesis = .ok () ↔
      RowOk env (link, payload) ∧ (∀ prev ∈ previous, Continues env prev link) ∧
        (previous = none → fromGenesis = true → link.prevHash = genesisHash env) := by
  have hcontent : verifyContent env link payload = .ok () ↔
      contentHash env payload = some link.contentHash := by
    unfold verifyContent
    cases contentHash env payload with
    | none => simp
    | some expected =>
      by_cases he : expected = link.contentHash
      · simp [he]
      · simp [he]
  unfold verifyLink
  by_cases hformed : isWellFormedHash link.prevHash = true ∧ isWellFormedHash link.contentHash = true
  · have hrow : RowOk env (link, payload) ↔ contentHash env payload = some link.contentHash :=
      ⟨fun h => h.content, fun h => ⟨hformed.1, hformed.2, h⟩⟩
    simp only [hformed, Bool.not_true, Bool.or_self, Bool.false_eq_true, if_false, hrow]
    cases previous with
    | none =>
      by_cases hg : (fromGenesis && link.prevHash != genesisHash env) = true
      · simp only [Bool.and_eq_true, bne_iff_ne] at hg
        simp [hg]
      · rw [if_neg hg, hcontent]
        simp only [Bool.and_eq_true, bne_iff_ne, not_and, not_not] at hg
        simp only [Option.mem_def, reduceCtorEq, false_implies, implies_true, true_and,
          forall_const]
        exact ⟨fun h => ⟨h, hg⟩, fun h => h.1⟩
    | some prev =>
      have hcont : (∀ p ∈ some prev, Continues env p link) ↔ prev.id < link.id ∧
            link.prevHash = chainHash env prev.prevHash prev.contentHash prev.id := by
        constructor
        · intro h
          exact ⟨(h prev rfl).after, (h prev rfl).commits⟩
        · rintro ⟨ha, hc⟩ p ⟨⟩
          exact ⟨ha, hc⟩
      rw [hcont]
      by_cases hid : link.id ≤ prev.id
      · simp [hid, Int.not_lt.mpr hid]
      · by_cases hp : link.prevHash = chainHash env prev.prevHash prev.contentHash prev.id
        · simp [hid, hp, hcontent, Int.not_le.mp hid]
        · simp [hid, hp]
  · rw [if_pos (by grind)]
    constructor
    · intro h
      cases h
    · rintro ⟨h, -⟩
      exact absurd ⟨h.prevFormed, h.contentFormed⟩ hformed

variable {env : HashEnv π} {row : EventLink × π}

/-- **What `verify_peer_link` checks.**  Without a link before it, the row may start a chain anywhere. -/
theorem verifyPeerLink_iff : verifyPeerLink env link payload previous = .ok () ↔
      RowOk env (link, payload) ∧ ∀ prev ∈ previous, Continues env prev link := by
  unfold verifyPeerLink
  rw [verifyLink_iff]
  constructor
  · rintro ⟨hrow, hcont, -⟩
    exact ⟨hrow, hcont⟩
  · rintro ⟨hrow, hcont⟩
    refine ⟨hrow, hcont, fun _ hgen => ?_⟩
    simp only [Bool.and_eq_true, beq_iff_eq] at hgen
    exact hgen.2

theorem RowOk.contentHash_ne (h : RowOk env row) : row.1.contentHash ≠ "" := by
  intro hempty
  have hformed := h.contentFormed
  rw [hempty] at hformed
  exact absurd hformed (by decide)

/-- **What verifies lies beyond the link before it, and carries a hash.** -/
theorem verifyPeerLink_spec (h : verifyPeerLink env link payload previous = .ok ()) :
    (∀ prev ∈ previous, prev.id < link.id) ∧ link.contentHash ≠ "" := by
  obtain ⟨hrow, hcont⟩ := verifyPeerLink_iff.mp h
  exact ⟨fun prev hprev => (hcont prev hprev).after, hrow.contentHash_ne⟩

/-- **A log that verifies**: every row is right on its own, and continues the one before it. -/
structure ChainOk (env : HashEnv π) (rows : List (EventLink × π)) : Prop where
  rowOk : ∀ row ∈ rows, RowOk env row
  continues : (rows.map Prod.fst).IsChain (Continues env)

theorem ChainOk.contiguous (h : ChainOk env rows) (hin : rows' <:+: rows) : ChainOk env rows' where
  rowOk := fun row hrow => h.rowOk row (hin.subset hrow)
  continues := List.IsChain.infix h.continues (hin.map Prod.fst)

/-- A row known to start at genesis passes the check for it. -/
theorem verifyLink_floor {prev : Option EventLink} {floor : Bool}
    (h : prev = none → floor = true → link.prevHash = genesisHash env) :
    verifyLink env link payload prev floor = verifyLink env link payload prev false := by
  cases prev with
  | some => rfl
  | none =>
    cases floor with
    | false => rfl
    | true => simp [verifyLink, h rfl rfl]

/-- **One row of the walk** is held against the row before it, and a first row passes wherever it
starts. -/
theorem ChainVerifier.push_eq {v : ChainVerifier} (hv : v.previous = none → v.started = false) :
    v.push env row =
      match verifyLink env row.1 row.2 v.previous false with
      | .error reason =>
        .error { ok := false, genesis := genesisHash env, checked := v.checked, head := v.previous,
                 fromGenesis := (v.begin env row.1).fromGenesis, breakAt := some row.1.id,
                 reason := some reason }
      | .ok () =>
        .ok { v.begin env row.1 with previous := some row.1, checked := v.checked + 1 } := by
  have hkept : (v.begin env row.1).previous = v.previous ∧ (v.begin env row.1).checked = v.checked := by
    unfold ChainVerifier.begin
    split <;> exact ⟨rfl, rfl⟩
  have hfloor : v.previous = none → ((v.begin env row.1).fromGenesis && v.checked == 0) = true →
      row.1.prevHash = genesisHash env := by
    intro hnone hfloor
    simp only [ChainVerifier.begin, hv hnone, Bool.false_eq_true, if_false, Bool.and_eq_true,
      beq_iff_eq] at hfloor
    exact hfloor.1
  unfold ChainVerifier.push
  dsimp only
  rw [hkept.1, hkept.2, verifyLink_floor hfloor]

theorem ChainVerifier.push_eq_ok {v v' : ChainVerifier} (hv : v.previous = none → v.started = false) :
    v.push env row = .ok v' ↔ RowOk env row ∧ (∀ prev ∈ v.previous, Continues env prev row.1) ∧
        v' = { v.begin env row.1 with previous := some row.1, checked := v.checked + 1 } := by
  have hlink := @verifyLink_iff π env row.1 row.2 v.previous false
  simp only [Bool.false_eq_true, false_imp_iff, imp_true_iff, and_true] at hlink
  rw [ChainVerifier.push_eq hv, ← and_assoc, ← hlink]
  cases verifyLink env row.1 row.2 v.previous false with
  | error => simp
  | ok => simp [eq_comm]

/-- **The walk succeeds exactly on a log that verifies**, whatever it has passed before. -/
theorem ChainVerifier.walk_isOk_iff (env : HashEnv π) :
    ∀ (rows : List (EventLink × π)) (v : ChainVerifier), (v.previous = none → v.started = false) →
      ((∃ v', rows.foldlM (ChainVerifier.push env) v = .ok v') ↔ (∀ row ∈ rows, RowOk env row) ∧
          (v.previous.toList ++ rows.map Prod.fst).IsChain (Continues env))
  | [], v, _ => by
    have hshort : v.previous.toList.IsChain (Continues env) := by
      cases v.previous with
      | none => exact .nil
      | some link => exact .singleton link
    simpa [List.foldlM, pure, Except.pure] using hshort
  | row :: rows, v, hv => by
    have hnext : ∀ v', v.push env row = .ok v' → v'.previous = some row.1 := by
      intro v' h
      rw [((ChainVerifier.push_eq_ok hv).mp h).2.2]
    have hchain : (v.previous.toList ++ row.1 :: rows.map Prod.fst).IsChain (Continues env) ↔
        (∀ prev ∈ v.previous, Continues env prev row.1) ∧
          (row.1 :: rows.map Prod.fst).IsChain (Continues env) := by
      cases v.previous with
      | none => simp
      | some => simp [isChain_cons_cons]
    rw [map_cons, hchain]
    constructor
    · rintro ⟨v', h⟩
      rw [foldlM_cons, Run.bind_eq_ok] at h
      obtain ⟨v1, hpush, hrest⟩ := h
      have hprev := hnext v1 hpush
      obtain ⟨hrow, hcont, -⟩ := (ChainVerifier.push_eq_ok hv).mp hpush
      obtain ⟨hrows, hchain'⟩ :=
        (ChainVerifier.walk_isOk_iff env rows v1 (by simp [hprev])).mp ⟨v', hrest⟩
      rw [hprev] at hchain'
      exact ⟨forall_mem_cons.mpr ⟨hrow, hrows⟩, hcont, hchain'⟩
    · rintro ⟨hrows, hcont, hchain'⟩
      obtain ⟨hrow, hrows⟩ := forall_mem_cons.mp hrows
      obtain ⟨v1, hpush⟩ : ∃ v1, v.push env row = .ok v1 :=
        ⟨_, (ChainVerifier.push_eq_ok hv).mpr ⟨hrow, hcont, rfl⟩⟩
      have hprev := hnext v1 hpush
      obtain ⟨v', hrest⟩ :=
        (ChainVerifier.walk_isOk_iff env rows v1 (by simp [hprev])).mpr
          ⟨hrows, by rw [hprev]; exact hchain'⟩
      exact ⟨v', by rw [foldlM_cons, hpush]; exact hrest⟩

theorem ChainVerifier.report_ok_iff (hbreak : ∀ r, walk = .error r → r.ok = false) :
    (ChainVerifier.report env walk).ok = true ↔ ∃ v, walk = .ok v := by
  cases walk with
  | error report => simp [ChainVerifier.report, hbreak report rfl]
  | ok => simp [ChainVerifier.report, ChainVerifier.finish]

theorem ChainVerifier.walk_error {report : ChainVerifyReport} :
    ∀ {rows : List (EventLink × π)} {v : ChainVerifier},
      rows.foldlM (ChainVerifier.push env) v = .error report → report.ok = false
  | [], _, h => by cases h
  | row :: rows, v, h => by
    rw [foldlM_cons] at h
    cases hpush : v.push env row with
    | error =>
      rw [hpush] at h
      cases h
      unfold ChainVerifier.push at hpush
      dsimp only at hpush
      split at hpush
      · cases hpush
        rfl
      · cases hpush
    | ok =>
      rw [hpush] at h
      exact ChainVerifier.walk_error h

/-- **The report of a walk from the start is ok exactly on a log that verifies.** -/
theorem ChainVerifier.report_walk_iff (env : HashEnv π) (rows : List (EventLink × π)) :
    (ChainVerifier.report env (rows.foldlM (ChainVerifier.push env) {})).ok = true ↔
      ChainOk env rows := by
  rw [ChainVerifier.report_ok_iff fun r hr => ChainVerifier.walk_error hr,
    ChainVerifier.walk_isOk_iff env rows {} fun _ => rfl]
  exact ⟨fun h => ⟨h.1, h.2⟩, fun h => ⟨h.rowOk, h.continues⟩⟩

theorem zip_columns {α β : Type} (rows : List (α × β)) :
    (rows.map Prod.fst).zip (rows.map Prod.snd) = rows := by
  rw [zip_map', map_id']

/-- `verify_chain` of slices that belong together. -/
theorem verifyChain_ok_iff (env : HashEnv π) (rows : List (EventLink × π)) :
    (verifyChain env (rows.map Prod.fst) (rows.map Prod.snd)).ok = true ↔ ChainOk env rows := by
  unfold verifyChain
  rw [if_neg (by simp), zip_columns]
  cases rows with
  | nil => exact ⟨fun _ => ⟨fun _ h => absurd h not_mem_nil, .nil⟩, fun _ => rfl⟩
  | cons row rows => exact ChainVerifier.report_walk_iff env (row :: rows)

theorem ChainVerifier.walk_fromGenesis :
    ∀ {rows : List (EventLink × π)} {v v' : ChainVerifier}, v.started = true →
      rows.foldlM (ChainVerifier.push env) v = .ok v' → v'.fromGenesis = v.fromGenesis
  | [], _, _, _, h => by
    cases h
    rfl
  | row :: rows, v, v', hv, h => by
    rw [foldlM_cons, Run.bind_eq_ok] at h
    obtain ⟨v1, hpush, hrest⟩ := h
    have hbegin : v.begin env row.1 = v := if_pos hv
    unfold ChainVerifier.push at hpush
    simp only [hbegin] at hpush
    split at hpush
    · cases hpush
    cases hpush
    refine (ChainVerifier.walk_fromGenesis ?_ hrest).trans rfl
    exact hv

/-- **A chain is reported as from genesis exactly when its first row follows genesis.** -/
theorem verifyChain_fromGenesis {rows : List (EventLink × π)}
    (hok : (verifyChain env ((row :: rows).map Prod.fst) ((row :: rows).map Prod.snd)).ok = true) :
    (verifyChain env ((row :: rows).map Prod.fst) ((row :: rows).map Prod.snd)).fromGenesis = true ↔
      row.1.prevHash = genesisHash env := by
  unfold verifyChain at hok ⊢
  rw [if_neg (by simp), if_neg (by simp), zip_columns] at hok ⊢
  rw [ChainVerifier.report_ok_iff fun r hr => ChainVerifier.walk_error hr] at hok
  obtain ⟨v, hv⟩ := hok
  rw [hv]
  rw [foldlM_cons, Run.bind_eq_ok] at hv
  obtain ⟨v1, hpush, hrest⟩ := hv
  obtain ⟨-, -, rfl⟩ := (ChainVerifier.push_eq_ok fun _ => rfl).mp hpush
  have hkept := ChainVerifier.walk_fromGenesis rfl hrest
  simp [ChainVerifier.report, ChainVerifier.finish, hkept, ChainVerifier.begin]

end Chain

/-! ## 6. Page by page -/

section CatchUp

variable {env : HashEnv} {previous : Option EventLink}

/-- The loop of `verify_chain_from`, `i` rows in. -/
def chainFromLoop (env : HashEnv) (previous : Option EventLink) (fromGenesis : Bool) :
    List (EventLink × String) → Option EventLink → Nat → ChainVerifyReport
  | [], prev, i =>
    { ok := true, genesis := genesisHash env, checked := .ofNat i, head := prev, fromGenesis }
  | row :: rows, prev, i =>
    match verifyLink env row.1 row.2 prev (previous.isNone && fromGenesis && i == 0) with
    | .error reason =>
      { ok := false, genesis := genesisHash env, checked := .ofNat i, head := prev, fromGenesis,
        breakAt := some row.1.id, reason := some reason }
    | .ok () => chainFromLoop env previous fromGenesis rows (some row.1) (i + 1)

/-- `verify_chain_from`. -/
def verifyChainFrom (env : HashEnv) (previous : Option EventLink) (links : List EventLink)
    (payloads : List String) : ChainVerifyReport :=
  if links.length ≠ payloads.length then
    { ok := false, genesis := genesisHash env, checked := 0, head := previous,
      fromGenesis := previous.isNone, breakAt := links.head?.map EventLink.id,
      reason := some .malformedHash }
  else
    match links with
    | [] =>
      { ok := true, genesis := genesisHash env, checked := 0, head := previous,
        fromGenesis := previous.isNone }
    | first :: _ =>
      chainFromLoop env previous (previous.isNone && first.prevHash == genesisHash env)
        (links.zip payloads) previous 0

/-- `verify_catch_up`. -/
def verifyCatchUp (env : HashEnv) (previous : Option EventLink) (events : List StoredEvent) :
    ChainVerifyReport :=
  verifyChainFrom env previous (events.map StoredEvent.link) (events.map StoredEvent.payload)

/-- A client that catches up page by page, each checked from the last link before it, and stops at
the first page that fails. -/
def catchUp (env : HashEnv) : Option EventLink → List (List StoredEvent) → ChainVerifyReport
  | previous, [] => verifyCatchUp env previous []
  | previous, page :: pages =>
    let report := verifyCatchUp env previous page
    if report.ok then catchUp env ((page.getLast?.map StoredEvent.link).or previous) pages
    else report

/-- What a report says of the chain: whether it is whole, else where and why it breaks. -/
def ChainVerifyReport.verdict (r : ChainVerifyReport) :
    Bool × Option Int × Option ChainBreakReason := (r.ok, r.breakAt, r.reason)

/-- **The verdict on a log**: each row is held against the one before it, and a first row with none
before it passes wherever it starts. -/
def chainVerdict (env : HashEnv) :
    Option EventLink → List StoredEvent → Bool × Option Int × Option ChainBreakReason
  | _, [] => (true, none, none)
  | prev, e :: events =>
    match verifyLink env e.link e.payload prev false with
    | .error reason => (false, some e.id, some reason)
    | .ok () => chainVerdict env (some e.link) events

theorem zip_link_payload (events : List StoredEvent) :
    (events.map StoredEvent.link).zip (events.map StoredEvent.payload) =
      events.map fun e => (e.link, e.payload) := zip_map'

theorem verifyCatchUp_verdict (env : HashEnv) (previous : Option EventLink)
    (events : List StoredEvent) :
    (verifyCatchUp env previous events).verdict = chainVerdict env previous events := by
  have hloop : ∀ {events prev i fromGenesis}, (prev = none → fromGenesis = true →
      ∀ e ∈ events.head?, e.prevHash = genesisHash env) →
      (chainFromLoop env previous fromGenesis (events.map fun e => (e.link, e.payload)) prev
        i).verdict = chainVerdict env prev events := by
    intro events
    induction events with
    | nil => exact fun _ => rfl
    | cons e events ih =>
      intro prev i fromGenesis h
      rw [map_cons, chainFromLoop, chainVerdict, verifyLink_floor (by simp_all [StoredEvent.link])]
      cases verifyLink env e.link e.payload prev false with
      | error => rfl
      | ok => exact ih (by simp)
  unfold verifyCatchUp verifyChainFrom
  rw [if_neg (by simp), zip_link_payload]
  cases events with
  | nil => rfl
  | cons e events => exact hloop (by simp [StoredEvent.link])

theorem verifyChain_verdict (events : List StoredEvent) :
    (verifyChain env (events.map StoredEvent.link) (events.map StoredEvent.payload)).verdict =
      chainVerdict env none events := by
  have hwalk : ∀ {events} {v : ChainVerifier}, (v.previous = none → v.started = false) →
      (ChainVerifier.report env ((events.map fun e : StoredEvent => (e.link, e.payload)).foldlM
        (ChainVerifier.push env) v)).verdict = chainVerdict env v.previous events := by
    intro events
    induction events with
    | nil => exact fun _ => rfl
    | cons e events ih =>
      intro v hv
      rw [map_cons, foldlM_cons, ChainVerifier.push_eq hv, chainVerdict]
      cases verifyLink env e.link e.payload v.previous false with
      | error => rfl
      | ok => exact ih (by simp)
  unfold verifyChain
  rw [if_neg (by simp), zip_link_payload]
  cases events with
  | nil => rfl
  | cons e events => exact hwalk (v := {}) fun _ => rfl

theorem chainVerdict_append (xs ys : List StoredEvent) : chainVerdict env previous (xs ++ ys) =
      if (chainVerdict env previous xs).1 then
        chainVerdict env ((xs.getLast?.map StoredEvent.link).or previous) ys
      else chainVerdict env previous xs := by
  induction xs generalizing previous with
  | nil => rfl
  | cons e xs ih =>
    rw [cons_append, chainVerdict, chainVerdict]
    cases verifyLink env e.link e.payload previous false with
    | error => rfl
    | ok =>
      simp only [ih, getLast?_cons]
      cases xs.getLast? <;> rfl

/-- **Catch-up pages compose.**  However a log is cut into pages, checking them one after the other
gives the verdict of `verify_chain_from` on the whole, and without a starting link also that of
`verify_chain`. -/
theorem catchUp_composes (env : HashEnv) (previous : Option EventLink)
    (pages : List (List StoredEvent)) :
    (catchUp env previous pages).verdict = (verifyCatchUp env previous pages.flatten).verdict ∧
      (catchUp env none pages).verdict = (verifyChain env (pages.flatten.map StoredEvent.link)
        (pages.flatten.map StoredEvent.payload)).verdict := by
  have hpages : ∀ previous, (catchUp env previous pages).verdict =
      chainVerdict env previous pages.flatten := by
    induction pages with
    | nil => exact fun _ => rfl
    | cons page pages ih =>
      intro previous
      rw [flatten_cons, chainVerdict_append, ← ih, ← verifyCatchUp_verdict, catchUp]
      cases hok : (verifyCatchUp env previous page).ok <;> simp [ChainVerifyReport.verdict, hok]
  rw [hpages, hpages, verifyCatchUp_verdict, verifyChain_verdict]
  exact ⟨rfl, rfl⟩

end CatchUp

end Maidan
