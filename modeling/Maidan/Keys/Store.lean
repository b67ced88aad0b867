/-
# Content keys in the store

What an append does about the key of a message (`content_keys.rs` and its SQLite half): seal the
words of a posted or edited message, create the key with the first of them, shred it with the
tombstone.  Beside the appends, a workspace's key is rotated, and the rewrap pass moves what is left
under retired keys and destroys those that nothing needs any more.

Two things that the tables' CHECK constraints say are in the types: a content key row is shredded
exactly when it has no wrapped key, and a workspace key row is destroyed exactly when it has none,
which only a retired one can be.

`KeyTables.created` is not a table.  It keeps, for every content key row, the data key it was
inserted with, so that what a row opens to later can be compared with it.
-/
import Maidan.Events.Log
import Maidan.Federation.Ingest
import Maidan.Keys.Seal

namespace Maidan

open Relational Run Ordered

/-! ## 1. Message events -/

/-- The two kinds of event that carry words. -/
inductive ContentKind
  | messagePosted
  | messageEdited
deriving DecidableEq, Repr

/-- **An event, as far as content keys see it**: words and `sealed` block of a message, or the
tombstone of one. -/
inductive MessageEvent (ω σ : Type)
  | content (kind : ContentKind) (workspace : WorkspaceId) (message : MessageId) (words : ω)
      (sealed : Option σ)
  | messageTombstoned (workspace : WorkspaceId) (message : MessageId)
  | other (workspace : Option WorkspaceId) (text : String)
deriving DecidableEq

section Store

variable {κ β ω σ : Type}

/-- `Event::workspace_id`. -/
def MessageEvent.workspaceId : MessageEvent ω σ → Option WorkspaceId
  | .content _ workspace _ _ _ => some workspace
  | .messageTombstoned workspace _ => some workspace
  | .other workspace _ => workspace

variable (c : Cipher κ β ω σ)

/-- `seal_payload`.  It is asked for events with words only. -/
def sealPayload (key : κ) (nonce : Nat) : MessageEvent ω σ → MessageEvent ω σ
  | .content kind workspace message words _ =>
    .content kind workspace message c.noWords (some (c.sealWords key message words nonce))
  | event => event

/-- `open_payload`: without a key, what is sealed stays as it is. -/
def openPayload (key : Option κ) : MessageEvent ω σ → Except SealError (MessageEvent ω σ)
  | .content kind workspace message words (some block) =>
    match key with
    | none => .ok (.content kind workspace message words (some block))
    | some key => do
      let opened ← authenticated (c.openWords key message block)
      .ok (.content kind workspace message (c.restore words opened) none)
  | event => .ok event

/-- `remap_event_workspace`, on the events here. -/
def remapEventWorkspace (workspace : WorkspaceId) : MessageEvent ω σ → MessageEvent ω σ
  | .content kind _ message words sealed => .content kind workspace message words sealed
  | .messageTombstoned _ message => .messageTombstoned workspace message
  | .other _ text => .other (some workspace) text

/-- `Plan`. -/
inductive Plan
  | nothing
  | sealFor (subject : ContentKeyId) (workspace : WorkspaceId) (arrivedShredded : Bool)
  | shred (subject : ContentKeyId)

/-- `Plan::for_event`. -/
def Plan.forEvent (origin : Option PeerId) : MessageEvent ω σ → Plan
  | .content _ workspace message _ sealed =>
    .sealFor { origin := origin, message := message } workspace sealed.isSome
  | .messageTombstoned _ message => .shred { origin := origin, message := message }
  | .other _ _ => .nothing

/-! ## 2. Tables -/

/-- A row of `maidan_content_keys`; `shredded_at` is set exactly when `wrapped` is gone. -/
structure ContentKeyRow (β : Type) where
  id : ContentKeyId
  workspaceId : WorkspaceId
  wrapped : Option (WrappedKey β)
  workspaceKeyId : Option WorkspaceKeyId

/-- A row of `maidan_workspace_keys`; `destroyed_at` is set exactly when `wrapped` is gone. -/
structure WorkspaceKeyRow (β : Type) where
  id : WorkspaceKeyId
  workspaceId : WorkspaceId
  custody : String
  wrapped : Option (WrappedKey β)
  retired : Bool
  destroyed_retired : wrapped = none → retired = true

/-- `SET wrapped_key = NULL, …, shredded_at = ?`. -/
def ContentKeyRow.shred {β : Type} (r : ContentKeyRow β) : ContentKeyRow β :=
  { r with wrapped := none }

/-- `SET kek_id = ?, wrapped_key = ?, workspace_key_id = ?`. -/
def ContentKeyRow.rewrap {β : Type} (wrapped : WrappedKey β) (id : WorkspaceKeyId)
    (r : ContentKeyRow β) : ContentKeyRow β :=
  { r with wrapped := some wrapped, workspaceKeyId := some id }

/-- `SET retired_at = ?`. -/
def WorkspaceKeyRow.retire {β : Type} (r : WorkspaceKeyRow β) : WorkspaceKeyRow β :=
  { r with retired := true, destroyed_retired := fun _ => rfl }

/-- `SET custody = ?, wrapping_key_id = ?, wrapped_key = ?`. -/
def WorkspaceKeyRow.rewrap {β : Type} (custody : String) (wrapped : WrappedKey β)
    (r : WorkspaceKeyRow β) : WorkspaceKeyRow β :=
  { r with custody := custody, wrapped := some wrapped, destroyed_retired := by simp }

/-- `SET wrapping_key_id = NULL, wrapped_key = NULL, destroyed_at = ?`.  The table's CHECK refuses it
for a row that is not retired. -/
def WorkspaceKeyRow.destroy {β : Type} (r : WorkspaceKeyRow β) : WorkspaceKeyRow β :=
  if h : r.retired = true then { r with wrapped := none, destroyed_retired := fun _ => h } else r

/-! None of them touches the id. -/

theorem ContentKeyRow.shred_id (r : ContentKeyRow β) : r.shred.id = r.id := rfl

theorem ContentKeyRow.rewrap_id (wrapped : WrappedKey β) (id : WorkspaceKeyId) (r : ContentKeyRow β) :
    (r.rewrap wrapped id).id = r.id := rfl

theorem WorkspaceKeyRow.retire_id (r : WorkspaceKeyRow β) : r.retire.id = r.id := rfl

theorem WorkspaceKeyRow.rewrap_id (custody : String) (wrapped : WrappedKey β)
    (r : WorkspaceKeyRow β) : (r.rewrap custody wrapped).id = r.id := rfl

theorem WorkspaceKeyRow.destroy_id (r : WorkspaceKeyRow β) : r.destroy.id = r.id := by
  unfold WorkspaceKeyRow.destroy
  split <;> rfl

/-- The key tables, the number of keys drawn, what the custody has destroyed, and the data key each
content key was created with. -/
structure KeyTables (κ β : Type) where
  contentKeys : Table (fun r : ContentKeyRow β => r.id) := .empty
  workspaceKeys : Table (fun r : WorkspaceKeyRow β => r.id) := .empty
  drawn : Nat := 0
  destroyed : List WorkspaceKeyId := []
  created : List (ContentKeyId × κ) := []

/-- The queued copies of an event's words: `maidan_webhook_deliveries` by `log_id`,
`maidan_egress_outbox` by `source_log_id`, `maidan_mail_outbox` by `content_key_id`. -/
structure Outboxes where
  webhookDeliveries : List Int := []
  egressOutbox : List Int := []
  mailOutbox : List (Option ContentKeyId) := []
deriving DecidableEq, Repr

structure Store (κ β ω σ : Type) where
  tables : KeyTables κ β := {}
  log : EventLog (MessageEvent ω σ) := .empty
  outboxes : Outboxes := {}

/-- `StoreError`, with the errors of a seal. -/
inductive KeyError
  | contentKey (e : SealError)
  | store (e : StoreError)

/-- `?` on a seal. -/
def sealing {α : Type} : Except SealError α → Except KeyError α := Except.mapError .contentKey

/-- `?` on a statement. -/
def storing {α : Type} : Except StoreError α → Except KeyError α := Except.mapError .store

/-! ## 3. Keys of a workspace -/

variable (t : KeyTables κ β)

/-- The stored workspace key a read joins beside a content key. -/
def joinedWorkspaceKey (r : ContentKeyRow β) : Option (WrappedKey β) :=
  r.workspaceKeyId.bind fun id => (t.workspaceKeys.get? id).bind WorkspaceKeyRow.wrapped

/-- The workspace's row that is not retired. -/
def activeRow (workspace : WorkspaceId) : Option (WorkspaceKeyRow β) :=
  t.workspaceKeys.rows.find? fun r => r.workspaceId = workspace && !r.retired

variable (keys : ContentKeyring κ β)

/-- The row a new workspace key gets. -/
def newWorkspaceKeyRow (id : WorkspaceKeyId) (workspace : WorkspaceId)
    (wrapped : WrappedKey β) : WorkspaceKeyRow β :=
  { id := id, workspaceId := workspace, custody := keys.custody.name, wrapped := some wrapped,
    retired := false, destroyed_retired := by simp }

variable (refuses : Refusals)

/-- **`active_workspace_key`**: the one on file, or a new one.  It comes back open. -/
def activeWorkspaceKey
    (subject : Option ContentKeyId) (t : KeyTables κ β) (workspace : WorkspaceId) :
    Except KeyError (KeyTables κ β × WorkspaceKeyId × κ) :=
  match activeRow t workspace with
  | some row =>
    match row.wrapped with
    | none => .error (.contentKey .malformed)
    | some wrapped => do
      let key ← sealing (keys.openWorkspaceKey c t.destroyed refuses subject row.id wrapped)
      .ok (t, row.id, key)
  | none => do
    let id : WorkspaceKeyId := ⟨t.drawn + 1⟩
    let key := c.generate t.drawn
    let wrapped ← sealing (keys.journalledWrap refuses subject id key t.drawn)
    match t.workspaceKeys.insert? (newWorkspaceKeyRow keys id workspace wrapped) with
    | none => .error (.store (.database "UNIQUE constraint failed: maidan_workspace_keys.id"))
    | some rows => .ok ({ t with workspaceKeys := rows, drawn := t.drawn + 1 }, id, key)

/-- `UPDATE … SET retired_at`, for the workspace's active key. -/
def KeyTables.retire (t : KeyTables κ β) (workspace : WorkspaceId) : KeyTables κ β :=
  { t with
    workspaceKeys := t.workspaceKeys.updateWhere
      (fun r => r.workspaceId = workspace && !r.retired) WorkspaceKeyRow.retire
      WorkspaceKeyRow.retire_id }

/-- `rotate_workspace_key`. -/
def rotateWorkspaceKey
    (t : KeyTables κ β) (workspace : WorkspaceId) : Except KeyError (KeyTables κ β) := do
  let (t, _, _) ← activeWorkspaceKey c keys refuses none (t.retire workspace) workspace
  .ok t

/-! ## 4. The key of a message -/

/-- `KeyState`. -/
inductive KeyState (β : Type)
  | absent
  | live (wrapped : WrappedKey β)
  | shredded

/-- `KeyState::from_columns`. -/
def KeyState.ofRow : Option (ContentKeyRow β) → KeyState β
  | none => .absent
  | some r =>
    match r.wrapped with
    | some wrapped => .live wrapped
    | none => .shredded

/-- `open_joined`: the workspace key a data key needs, open; nothing for one an instance KEK
wrapped. -/
def openJoined (destroyed : List WorkspaceKeyId) (subject : ContentKeyId) (kekId : KekId)
    (joined : Option (WrappedKey β)) : Except SealError (Option (WorkspaceKeyId × κ)) :=
  match parseWorkspaceKekId kekId with
  | none => .ok none
  | some id =>
    match joined with
    | none => .error (.unknownKek kekId)
    | some wrapped => do
      let key ← keys.openWorkspaceKey c destroyed refuses (some subject) id wrapped
      .ok (some (id, key))

/-- **What a read gets beside an event**: `open_workspace_keys`, then `unwrap_joined`.  `none` when
the event has no key or the key was shredded. -/
def unwrapJoined
    (t : KeyTables κ β) (subject : Option ContentKeyId) : Except SealError (Option κ) :=
  match subject.bind t.contentKeys.get? with
  | none => .ok none
  | some r =>
    match r.wrapped with
    | none => .ok none
    | some wrapped => do
      let opened ← openJoined c keys refuses t.destroyed r.id wrapped.kekId (joinedWorkspaceKey t r)
      let key ← keys.unwrap c opened r.id wrapped
      .ok (some key)

/-- `Write`; a new row that is live comes with the data key it was created with. -/
inductive KeyWrite (κ β : Type)
  | nothing
  | insert (wrapped : Option (WrappedKey β × κ))
  | shred

/-- `Decision`: the row change, and the key to seal with and whether it is the live one. -/
structure Decision (κ β : Type) where
  write : KeyWrite κ β
  sealWith : Option (κ × Bool)

/-- **`decide`.**  `workspaceKey` is the workspace's active key where the subject has no key yet;
`opened` is the workspace key that is open for this append. -/
def decideKey (opened workspaceKey : Option (WorkspaceKeyId × κ)) (subject : ContentKeyId)
    (state : KeyState β) (arrivedShredded : Bool) (drawn : Nat) :
    Except KeyError (Decision κ β) :=
  if arrivedShredded then
    .ok { write := match state with
            | .absent => .insert none
            | .live _ => .shred
            | .shredded => .nothing
          sealWith := none }
  else
    match state with
    | .absent =>
      match workspaceKey with
      | none => .error (.store (.invalidInput "a new content key needs its workspace's key"))
      | some (id, open') =>
        let key := c.generate drawn
        let wrapped := wrapForWorkspace c id open' subject key drawn
        .ok { write := .insert (some (wrapped, key)), sealWith := some (key, true) }
    | .live wrapped => do
      let key ← sealing (keys.unwrap c opened subject wrapped)
      .ok { write := .nothing, sealWith := some (key, true) }
    | .shredded => .ok { write := .nothing, sealWith := some (c.generate drawn, false) }

/-- `insert_in_tx`. -/
def insertInTx (subject : ContentKeyId) (workspace : WorkspaceId)
    (wrapped : Option (WrappedKey β × κ)) : Except KeyError (KeyTables κ β) :=
  match t.contentKeys.insert?
    { id := subject, workspaceId := workspace, wrapped := wrapped.map Prod.fst,
      workspaceKeyId := wrapped.bind fun w => parseWorkspaceKekId w.1.kekId } with
  | none => .error (.store (.database "UNIQUE constraint failed: maidan_content_keys.id"))
  | some rows =>
    .ok { t with
          contentKeys := rows
          created := t.created ++ wrapped.toList.map fun w => (subject, w.2) }

/-- The first statement of `shred_in_tx`. -/
def KeyTables.shred (t : KeyTables κ β) (subject : ContentKeyId) : KeyTables κ β :=
  { t with contentKeys := t.contentKeys.update subject ContentKeyRow.shred ContentKeyRow.shred_id }

/-- The ids of the events that carry the subject's words. -/
def EventLog.idsOf (log : EventLog (MessageEvent ω σ)) (subject : ContentKeyId) : List Int :=
  (log.rows.filter fun r => r.contentKeyId = some subject).map EventRow.id

/-- The other statements of `shred_in_tx`: what is queued of the subject's events goes. -/
def Outboxes.drop (o : Outboxes) (log : EventLog (MessageEvent ω σ)) (subject : ContentKeyId) :
    Outboxes :=
  { webhookDeliveries := o.webhookDeliveries.filter fun id => id ∉ log.idsOf subject
    egressOutbox := o.egressOutbox.filter fun id => id ∉ log.idsOf subject
    mailOutbox := o.mailOutbox.filter fun key => key ≠ some subject }

variable (s : Store κ β ω σ)

/-- `shred_in_tx`. -/
def shredInTx (subject : ContentKeyId) : Store κ β ω σ :=
  { s with tables := s.tables.shred subject, outboxes := s.outboxes.drop s.log subject }

/-! ## 5. Appends -/

/-- The workspace keys an append opens before it decides: the one that wraps a live key, or the
active one for a key to come. -/
def openForAppend
    (t : KeyTables κ β) (subject : ContentKeyId) (workspace : WorkspaceId) (arrivedShredded : Bool) :
    Except KeyError (KeyTables κ β × Option (WorkspaceKeyId × κ) × Option (WorkspaceKeyId × κ)) :=
  let row := t.contentKeys.get? subject
  match KeyState.ofRow row, arrivedShredded with
  | .live wrapped, _ => do
    let opened ← sealing (openJoined c keys refuses t.destroyed subject wrapped.kekId
      (row.bind (joinedWorkspaceKey t)))
    .ok (t, opened, none)
  | .absent, false => do
    let (t, active) ← activeWorkspaceKey c keys refuses (some subject) t workspace
    .ok (t, none, some active)
  | _, _ => .ok (t, none, none)

/-- The row change of a decision. -/
def writeKey (subject : ContentKeyId) (workspace : WorkspaceId) :
    KeyWrite κ β → Except KeyError (Store κ β ω σ)
  | .nothing => .ok s
  | .insert wrapped => do
    let t ← insertInTx s.tables subject workspace wrapped
    .ok { s with tables := t }
  | .shred => .ok (shredInTx s subject)

/-- `Decision::apply`, on the payload; the key and the nonce are drawn together. -/
def applyDecision (drawn : Nat) (payload : MessageEvent ω σ) : Option (κ × Bool) → MessageEvent ω σ
  | none => payload
  | some (key, _) => sealPayload c key drawn payload

/-- **`prepare_in_tx`**: the store, the payload to be hashed and the row's `content_key_id`. -/
def prepareInTx (payload : MessageEvent ω σ) :
    Plan → Except KeyError (Store κ β ω σ × MessageEvent ω σ × Option ContentKeyId)
  | .nothing => .ok (s, payload, none)
  | .shred subject => .ok (shredInTx s subject, payload, none)
  | .sealFor subject workspace arrivedShredded => do
    let state := KeyState.ofRow (s.tables.contentKeys.get? subject)
    let (t, opened, active) ← openForAppend c keys refuses s.tables subject workspace arrivedShredded
    let decision ← decideKey c keys opened active subject state arrivedShredded t.drawn
    let s ← writeKey { s with tables := { t with drawn := t.drawn + 1 } } subject workspace
      decision.write
    .ok (s, applyDecision c t.drawn payload decision.sealWith, some subject)

variable (env : HashEnv (MessageEvent ω σ))

/-- **`append_with_keys_in_tx`.** -/
def appendWithKeys (refuses : Refusals) (s : Store κ β ω σ)
    (event : MessageEvent ω σ) (origin : Option PeerId) (occurredAt : Int) :
    Except KeyError (Store κ β ω σ) := do
  let (s, payload, contentKeyId) ← prepareInTx c keys refuses s event (Plan.forEvent origin event)
  let (log, _) ← storing (appendRow env s.log event.workspaceId occurredAt payload contentKeyId)
  .ok { s with log := log }

/-- The append of a peer's event: opened with the key its origin sent, moved to the peer's
workspace, and appended under the peer's name. -/
def appendFederated (refuses : Refusals) (s : Store κ β ω σ) (peer : Peer)
    (payload : MessageEvent ω σ) (contentKey : Option κ) (occurredAt : Int) :
    Except KeyError (Store κ β ω σ) := do
  let event ← sealing (openPayload c contentKey payload)
  appendWithKeys c keys env refuses s (remapEventWorkspace peer.workspaceId event) (some peer.id)
    occurredAt

/-! ## 6. The rewrap pass -/

/-- `RewrapPass`. -/
structure RewrapPass where
  changed : Nat := 0
  skipped : Nat := 0
  undestroyed : Nat := 0

/-- A pass under way: the tables, the workspace keys the custody refused to open, the report. -/
structure Rewrapping (κ β : Type) where
  tables : KeyTables κ β
  refused : List WorkspaceKeyId := []
  report : RewrapPass := {}

variable (p : Rewrapping κ β)

/-- A row's savepoint was rolled back. -/
def Rewrapping.skip : Rewrapping κ β :=
  { p with report := { p.report with skipped := p.report.skipped + 1 } }

/-- A row's savepoint was committed. -/
def Rewrapping.commit (t : KeyTables κ β) : Rewrapping κ β :=
  { p with tables := t, report := { p.report with changed := p.report.changed + 1 } }

/-- `WHERE id > ? ORDER BY id LIMIT ?`. -/
def pageOf {ρ : Type} (key : ρ → Nat) (limit : Int) (rows : List ρ) (cursor : Nat) : List ρ :=
  sqlLimit limit ((rows.filter fun r => cursor < key r).insertionSort fun a b => key a ≤ key b)

/-- The rows of the first loop: workspace keys that the current custody did not wrap. -/
def staleWorkspaceKeys (t : KeyTables κ β) : List (WorkspaceKeyRow β) :=
  t.workspaceKeys.rows.filter fun r => r.wrapped.any fun w => !keys.custody.current w.kekId

/-- `rewrap_workspace_key` of a row, and its `UPDATE`. -/
def rewrapWorkspaceRow
    (t : KeyTables κ β) (row : WorkspaceKeyRow β) : Except KeyError (KeyTables κ β) :=
  match row.wrapped with
  | none => .error (.contentKey .malformed)
  | some wrapped => do
    let key ← sealing (keys.openWorkspaceKey c t.destroyed refuses none row.id wrapped)
    let rewrapped ← sealing (keys.journalledWrap refuses none row.id key t.drawn)
    .ok { t with
          workspaceKeys :=
            t.workspaceKeys.update row.id (WorkspaceKeyRow.rewrap keys.custody.name rewrapped)
              (WorkspaceKeyRow.rewrap_id _ _)
          drawn := t.drawn + 1 }

def rewrapWorkspaceStep (row : WorkspaceKeyRow β) : Rewrapping κ β :=
  match rewrapWorkspaceRow c keys refuses p.tables row with
  | .ok t => p.commit t
  | .error _ => p.skip

/-- The rows of the second loop: live content keys that an instance KEK or a retired workspace key
wraps, each with the workspace key joined beside it. -/
def strandedContentKeys : List (ContentKeyRow β × Option (WrappedKey β)) :=
  (t.contentKeys.rows.filter fun r => r.wrapped.isSome && (r.workspaceKeyId.isNone ||
      r.workspaceKeyId.any fun id => (t.workspaceKeys.get? id).any WorkspaceKeyRow.retired)).map
    fun r => (r, joinedWorkspaceKey t r)

/-- What the second loop does to a row, in its savepoint. -/
def rewrapContentRow (t : KeyTables κ β) (row : ContentKeyRow β) (joined : Option (WrappedKey β)) :
    Except KeyError (KeyTables κ β) :=
  match row.wrapped with
  | none => .error (.contentKey .malformed)
  | some wrapped => do
    let opened ← sealing (openJoined c keys refuses t.destroyed row.id wrapped.kekId joined)
    let dataKey ← sealing (keys.unwrap c opened row.id wrapped)
    let (t, active, open') ← activeWorkspaceKey c keys refuses (some row.id) t row.workspaceId
    let rewrapped := wrapForWorkspace c active open' row.id dataKey t.drawn
    .ok { t with
          contentKeys := t.contentKeys.update row.id (ContentKeyRow.rewrap rewrapped active)
            (ContentKeyRow.rewrap_id _ _)
          drawn := t.drawn + 1 }

/-- Whether the custody refused to open the row's workspace key. -/
def openRefused
    (t : KeyTables κ β) (row : ContentKeyRow β) (joined : Option (WrappedKey β)) : Bool :=
  match row.wrapped with
  | none => false
  | some wrapped =>
    match openJoined c keys refuses t.destroyed row.id wrapped.kekId joined with
    | .error .refused => true
    | _ => false

def rewrapContentStep (row : ContentKeyRow β × Option (WrappedKey β)) : Rewrapping κ β :=
  if row.1.workspaceKeyId.any fun id => p.refused.contains id then p.skip
  else
    let refused := if openRefused c keys refuses p.tables row.1 row.2
      then p.refused ++ row.1.workspaceKeyId.toList else p.refused
    match rewrapContentRow c keys refuses p.tables row.1 row.2 with
    | .ok t => { p.commit t with refused := refused }
    | .error _ => { p.skip with refused := refused }

/-- The rows of the third loop: retired workspace keys that no live content key needs. -/
def doomedWorkspaceKeys : List (WorkspaceKeyRow β) :=
  t.workspaceKeys.rows.filter fun r => r.retired && r.wrapped.isSome &&
    !t.contentKeys.rows.any fun k => k.workspaceKeyId = some r.id && k.wrapped.isSome

/-- `destroy_workspace_key`. -/
def destroyWorkspaceKey (id : WorkspaceKeyId) (wrapped : WrappedKey β) : Except SealError Unit := do
  let _ ← keys.owner c wrapped.kekId
  ask refuses (.destroy id)

/-- The custody has destroyed the key, and the row is marked. -/
def KeyTables.destroy (t : KeyTables κ β) (id : WorkspaceKeyId) : KeyTables κ β :=
  { t with
    workspaceKeys := t.workspaceKeys.update id WorkspaceKeyRow.destroy WorkspaceKeyRow.destroy_id
    destroyed := id :: t.destroyed }

def destroyStep (row : WorkspaceKeyRow β) : Rewrapping κ β :=
  match row.wrapped with
  | none => p
  | some wrapped =>
    match destroyWorkspaceKey c keys refuses row.id wrapped with
    | .ok () => p.commit (p.tables.destroy row.id)
    | .error _ =>
      { p with report := { p.report with
          skipped := p.report.skipped + 1, undestroyed := p.report.undestroyed + 1 } }

/-- The first loop of `rewrap`. -/
def rewrapWorkspaceKeys (limit : Int) (pages : Nat) (p : Rewrapping κ β) : Rewrapping κ β :=
  forPages (fun p cursor => pageOf (·.id.val) limit (staleWorkspaceKeys keys p.tables) cursor)
    (·.id.val) limit (rewrapWorkspaceStep c keys refuses) pages 0 p

/-- The second loop. -/
def rewrapContentKeys (uuid : ContentKeyId → Nat)
    (refuses : Refusals) (limit : Int) (pages : Nat) (p : Rewrapping κ β) : Rewrapping κ β :=
  forPages (fun p cursor => pageOf (uuid ·.1.id) limit (strandedContentKeys p.tables) cursor)
    (uuid ·.1.id) limit (rewrapContentStep c keys refuses) pages 0 p

/-- The third loop. -/
def destroyRetiredKeys (limit : Int) (pages : Nat) (p : Rewrapping κ β) : Rewrapping κ β :=
  forPages (fun p cursor => pageOf (·.id.val) limit (doomedWorkspaceKeys p.tables) cursor)
    (·.id.val) limit (destroyStep c keys refuses) pages 0 p

/-- **`rewrap`.**  `uuid` is the number of a content key's UUID, in whose order SQLite returns the
rows; a loop reads no row twice, so one page for every row is enough. -/
def rewrap (uuid : ContentKeyId → Nat)
    (refuses : Refusals) (limit : Int) (t : KeyTables κ β) : Rewrapping κ β :=
  let p : Rewrapping κ β := { tables := t }
  let p := rewrapWorkspaceKeys c keys refuses limit (p.tables.workspaceKeys.rows.length + 1) p
  let p := rewrapContentKeys c keys uuid refuses limit (p.tables.contentKeys.rows.length + 1) p
  destroyRetiredKeys c keys refuses limit (p.tables.workspaceKeys.rows.length + 1) p

/-! ## 7. Runs -/

/-- What happens to the store: appends, here and for a peer, with the words of the message and
maybe its origin's key; the shred of a message that is erased without an event (`tombstone`,
`prune_workspace_messages`); rotations and rewrap passes; and the queueing of an event's words. -/
inductive StoreOp (κ ω σ : Type)
  | append (event : MessageEvent ω σ) (occurredAt : Int) (refuses : Refusals)
  | appendFederated (peer : Peer) (payload : MessageEvent ω σ) (contentKey : Option κ)
      (occurredAt : Int) (refuses : Refusals)
  | shred (subject : ContentKeyId)
  | rotate (workspace : WorkspaceId) (refuses : Refusals)
  | rewrap (limit : Int) (refuses : Refusals)
  | queueWebhook (logId : Int)
  | queueEgress (sourceLogId : Int)
  | queueMail (sourceLogId : Int)

/-- The event an operation appends, and the peer it comes from. -/
def StoreOp.appends : StoreOp κ ω σ → Option (MessageEvent ω σ × Option PeerId)
  | .append event _ _ => some (event, none)
  | .appendFederated peer payload contentKey _ _ =>
    match openPayload c contentKey payload with
    | .ok event => some (remapEventWorkspace peer.workspaceId event, some peer.id)
    | .error _ => none
  | _ => none

/-- `content_key_id` of an event. -/
def EventLog.contentKeyOf (log : EventLog (MessageEvent ω σ)) (id : Int) : Option ContentKeyId :=
  (log.rows.find? fun r => r.id = id).bind EventRow.contentKeyId

/-- Mail about a message whose key is shredded is not queued. -/
def queueMail (sourceLogId : Int) : Store κ β ω σ :=
  let key := s.log.contentKeyOf sourceLogId
  if key.any fun subject => (s.tables.contentKeys.get? subject).any fun r => r.wrapped.isNone then s
  else { s with outboxes := { s.outboxes with mailOutbox := s.outboxes.mailOutbox ++ [key] } }

/-- One transaction, or one pass. -/
def storeStep (uuid : ContentKeyId → Nat) (s : Store κ β ω σ) :
    StoreOp κ ω σ → Except KeyError (Store κ β ω σ)
  | .append event occurredAt refuses => appendWithKeys c keys env refuses s event none occurredAt
  | .appendFederated peer payload contentKey occurredAt refuses =>
    appendFederated c keys env refuses s peer payload contentKey occurredAt
  | .shred subject => .ok (shredInTx s subject)
  | .rotate workspace refuses => do
    let t ← rotateWorkspaceKey c keys refuses s.tables workspace
    .ok { s with tables := t }
  | .rewrap limit refuses =>
    .ok { s with tables := (rewrap c keys uuid refuses limit s.tables).tables }
  | .queueWebhook logId =>
    .ok { s with outboxes := { s.outboxes with
            webhookDeliveries := s.outboxes.webhookDeliveries ++ [logId] } }
  | .queueEgress sourceLogId =>
    .ok { s with outboxes := { s.outboxes with
            egressOutbox := s.outboxes.egressOutbox ++ [sourceLogId] } }
  | .queueMail sourceLogId => .ok (queueMail s sourceLogId)

/-- The step with its rollback. -/
def storeNext
    (uuid : ContentKeyId → Nat) (s : Store κ β ω σ) (op : StoreOp κ ω σ) : Store κ β ω σ :=
  settle s (storeStep c keys env uuid s op)

end Store

end Maidan
