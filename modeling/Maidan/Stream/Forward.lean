/-
# The optimistic stream and its delivery cursor

A subscriber gets its events from the bus (`forward_bus_items`, `event_stream.rs`).  The bus may
drop some and says so (`Lagged`); then the stream reads the log itself from its watermark
(`replay_matching_events`).  Along the way it saves a DELIVERY CURSOR for the consumer: when the
consumer comes back, it is served from there on (`effective_subscribe_after_id`).

So the cursor must not pass an event the client was not sent.  The replay keeps to that: it saves
the id of the last row it SENT, and a page has no holes (`replayLoop_spec`).  The branch for bus
events does not: it buffers the id, and may save it, BEFORE it sends the frame; and it takes the
id whatever lies between it and the watermark.  `cursor_never_skips` says what a bus event must
find for this to be harmless, and that nothing else is needed.

* §1 is the log as a stream reads it, the client's channel and the actions of a stream;
* §2 is the replay, §3 the loop;
* §4 is the invariant: the watermark covers only what was sent, the buffer is below it.
-/
import Maidan.Types
import Maidan.Lib.Ordered
import Maidan.Lib.Run

namespace Maidan

open Ordered Run
open List hiding after

variable {π ε : Type}

/-! ## 1. Rows, frames and the client -/

/-- What a stream reads of a row of `maidan_events`, in its workspace. -/
structure StreamRow (π : Type) where
  id : Int
  insertedAt : Int := 0
  payload : π
deriving DecidableEq, Repr

/-- **What a client subscribed to**: `envelope_from_stored`, the filter and `frame_payload`. -/
structure Subscription (π ε : Type) where
  workspaceId : Option WorkspaceId
  consumerId : Option String
  envelopeFromStored : π → Option ε
  matchesEnvelope : ε → Bool
  framePayload : ε → Option String

variable (sub : Subscription π ε)

/-- `cursor_writer`. -/
def Subscription.cursorWriter : Option (String × WorkspaceId) :=
  sub.consumerId.bind fun consumer => sub.workspaceId.map fun ws => (consumer, ws)

/-- The row decodes, and the filter matches it. -/
def Subscription.wanted (row : StreamRow π) : Bool :=
  match sub.envelopeFromStored row.payload with
  | none => false
  | some envelope => sub.matchesEnvelope envelope

/-- The text the row is sent as. -/
def Subscription.frameOf (row : StreamRow π) : Option String :=
  (sub.envelopeFromStored row.payload).bind sub.framePayload

/-- What of a row goes out: its text, where it is wanted and has one. -/
def Subscription.offered (row : StreamRow π) : Option String :=
  if sub.wanted row then sub.frameOf row else none

theorem Subscription.offered_eq_some {sub : Subscription π ε} :
    sub.offered row = some text ↔ sub.wanted row = true ∧ sub.frameOf row = some text := by
  unfold offered
  cases sub.wanted row <;> simp

inductive Frame
  | event (logId : Int) (text : String)
  | replayTruncated (afterId : Int)
  | replayHint (skipped : Nat) (afterId : Int)
deriving DecidableEq, Repr

/-- What a stream does that outlives it: a frame in the client's channel, a cursor saved. -/
inductive Action
  | sent (frame : Frame)
  | saved (cursor : Int)
deriving DecidableEq, Repr

/-- **The client**: its channel closes after `room` more frames. -/
structure Client where
  room : Nat
  trace : List Action := []

/-- `tx.send`; `none` is a closed channel. -/
def Client.send (client : Client) (frame : Frame) : Option Client :=
  match client.room with
  | 0 => none
  | room + 1 => some { room := room, trace := client.trace ++ [.sent frame] }

/-- `advance_delivery_cursor`. -/
def Client.save (client : Client) (cursor : Int) (fails : Bool) : Client :=
  if fails then client else { client with trace := client.trace ++ [.saved cursor] }

/-! ## 2. The replay -/

/-- `REPLAY_LIMIT`. -/
def replayLimit : Nat := 500

variable (rows : List (StreamRow π))

/-- `list_events_after`, when the newest row to be seen is `head`. -/
def listEventsAfter (head afterId : Int) : List (StreamRow π) :=
  (after StreamRow.id afterId (rows.filter fun r => decide (r.id ≤ head))).take replayLimit

/-- The rows of a replay, one by one: the last id sent, and the client.  A row that does not
decode, match or serialize is passed over; a closed channel ends it. -/
def replayLoop (sub : Subscription π ε) : List (StreamRow π) → Int → Client → Int × Client
  | [], highWater, client => (highWater, client)
  | row :: rows, highWater, client =>
    match sub.envelopeFromStored row.payload with
    | none => replayLoop sub rows highWater client
    | some envelope =>
      if sub.matchesEnvelope envelope then
        match sub.framePayload envelope with
        | none => replayLoop sub rows highWater client
        | some text =>
          match client.send (.event row.id text) with
          | none => (highWater, client)
          | some client => replayLoop sub rows (max highWater row.id) client
      else replayLoop sub rows highWater client

theorem replayLoop_cons (row : StreamRow π) (rows : List (StreamRow π)) (highWater : Int)
    (client : Client) : replayLoop sub (row :: rows) highWater client =
      match sub.offered row with
      | none => replayLoop sub rows highWater client
      | some text =>
        match client.send (.event row.id text) with
        | none => (highWater, client)
        | some client => replayLoop sub rows (max highWater row.id) client := by
  rw [replayLoop, Subscription.offered, Subscription.wanted, Subscription.frameOf]
  cases sub.envelopeFromStored row.payload with
  | none => rfl
  | some envelope =>
    cases hmatch : sub.matchesEnvelope envelope with
    | false => simp [hmatch]
    | true => simp only [hmatch, if_true, Option.bind_some]

structure ReplayOutcome where
  highWater : Int
  truncated : Bool

/-- `replay_matching_events`.  `read` is what the store returned, `none` an error. -/
def replayMatchingEvents (read : Option (List (StreamRow π))) (afterId : Int) (saveFails : Bool)
    (client : Client) : Option ReplayOutcome × Client :=
  match sub.workspaceId with
  | none => (some { highWater := afterId, truncated := false }, client)
  | some _ =>
    match read with
    | none => (none, client)
    | some rows =>
      let (highWater, client) := replayLoop sub rows afterId client
      let client :=
        if afterId < highWater ∧ sub.consumerId.isSome then client.save highWater saveFails
        else client
      (some { highWater := highWater, truncated := rows.length == replayLimit }, client)

/-! ## 3. The loop -/

/-- `CURSOR_FLUSH_EVENTS`. -/
def cursorFlushEvents : Nat := 64

/-- The state of `forward_bus_items`; `running` is false once the loop was left. -/
structure Forward where
  watermark : Int
  pendingCursor : Option Int := none
  eventsSinceFlush : Nat := 0
  running : Bool := true
  client : Client

inductive BusItem (ε : Type)
  | event (logId : Int) (envelope : ε)
  | lagged (skipped : Nat)

/-- **One turn of the loop**: the item, and what it meets.  `elapsed` is
`CURSOR_FLUSH_INTERVAL`; `head` and `readFails` are the store's, at a replay; `saveFails` is an
error of `advance_delivery_cursor`. -/
structure Turn (ε : Type) where
  item : BusItem ε
  elapsed : Bool := false
  head : Int := 0
  readFails : Bool := false
  saveFails : Bool := false

/-- `flush_delivery_cursor`: the buffer is taken whether or not the write succeeds. -/
def flushDeliveryCursor (s : Forward) (saveFails : Bool) : Forward :=
  { s with
    pendingCursor := none
    client := match sub.cursorWriter, s.pendingCursor with
      | some _, some logId => s.client.save logId saveFails
      | _, _ => s.client }

/-- `pending_cursor.map_or(id, |p| p.max(id))`. -/
def buffered (pending : Option Int) (logId : Int) : Int :=
  match pending with
  | none => logId
  | some p => max p logId

/-- The threshold, with this event counted. -/
def flushDue (s : Forward) (t : Turn ε) : Bool :=
  decide (cursorFlushEvents ≤ s.eventsSinceFlush + 1) || t.elapsed

/-- The watermark and the cursor at an event, before it is sent. -/
def noteEvent (s : Forward) (t : Turn ε) (logId : Int) : Forward :=
  let s := { s with watermark := max s.watermark logId }
  if sub.cursorWriter.isSome then
    let due := flushDue s t
    let s := { s with
      pendingCursor := some (buffered s.pendingCursor logId)
      eventsSinceFlush := s.eventsSinceFlush + 1 }
    if due then { flushDeliveryCursor sub s t.saveFails with eventsSinceFlush := 0 } else s
  else s

/-- A frame, and the loop left where the channel is closed. -/
def Forward.send (s : Forward) (frame : Frame) : Forward :=
  match s.client.send frame with
  | none => { s with running := false }
  | some client => { s with client := client }

/-- `BusItem::Event`. -/
def onEvent (s : Forward) (t : Turn ε) (logId : Int) (envelope : ε) : Forward :=
  if logId ≤ s.watermark then s
  else
    let s := noteEvent sub s t logId
    match sub.framePayload envelope with
    | none => s
    | some text => s.send (.event logId text)

/-- `BusItem::Lagged`. -/
def onLagged (s : Forward) (t : Turn ε) (skipped : Nat) : Forward :=
  let afterId := s.watermark
  match sub.workspaceId with
  | none => s.send (.replayHint skipped afterId)
  | some _ =>
    let read := if t.readFails then none else some (listEventsAfter rows t.head afterId)
    match replayMatchingEvents sub read afterId t.saveFails s.client with
    | (some outcome, client) =>
      { s with
        watermark := max s.watermark outcome.highWater
        -- the result of this send is ignored
        client := if outcome.truncated then
            (client.send (.replayTruncated outcome.highWater)).getD client
          else client }
    | (none, client) => { s with client := client }.send (.replayHint skipped afterId)

def forwardTurn (s : Forward) (t : Turn ε) : Forward :=
  if s.running then
    match t.item with
    | .event logId envelope => onEvent sub s t logId envelope
    | .lagged skipped => onLagged sub rows s t skipped
  else s

/-- `forward_bus_items`, until the bus ends or the loop is left, with the last flush. -/
def forwardBusItems (s : Forward) (turns : List (Turn ε)) (lastSaveFails : Bool) : Forward :=
  flushDeliveryCursor sub (exec (forwardTurn sub rows) s turns) lastSaveFails

/-- **The stream a subscription starts with** (`ws.rs`, `mcp_stream.rs`): the replay from
`afterId`, if there is something to resume.  A failed read closes the socket. -/
def openStream (afterId : Int) (fromResumeToken : Bool) (client : Client) (opening : Turn ε) :
    Option Forward :=
  if 0 < afterId ∨ fromResumeToken then
    let read := if opening.readFails then none
      else some (listEventsAfter rows opening.head afterId)
    match replayMatchingEvents sub read afterId opening.saveFails client with
    | (none, _) => none
    | (some outcome, client) => some
        { watermark := outcome.highWater
          client := if outcome.truncated then
              (client.send (.replayTruncated outcome.highWater)).getD client
            else client }
  else some { watermark := afterId, client := client }

/-- A subscription from its start to its end. -/
def subscribe (afterId : Int) (fromResumeToken : Bool) (client : Client) (opening : Turn ε)
    (turns : List (Turn ε)) (lastSaveFails : Bool) : Client :=
  match openStream sub rows afterId fromResumeToken client opening with
  | none => client
  | some s => (forwardBusItems sub rows s turns lastSaveFails).client

/-! ## 4. What the cursor covers -/

variable {cursor : Int} {trace : List Action} {client : Client} {s : Forward}

section Covering

variable (sub : Subscription π ε) (rows : List (StreamRow π)) (start : Int)

/-- **Everything wanted from `start` up to `cursor` has been sent.** -/
def HandedOver (cursor : Int) (trace : List Action) : Prop :=
  ∀ r ∈ rows, sub.wanted r = true → start < r.id → r.id ≤ cursor →
    ∃ text, sub.frameOf r = some text ∧ .sent (.event r.id text) ∈ trace

/-- **The cursor never skips**: whenever one is saved, everything wanted up to it was sent
first. -/
def NeverSkips (trace : List Action) : Prop :=
  ∀ pre cursor post, trace = pre ++ .saved cursor :: post → HandedOver sub rows start cursor pre

variable {sub rows start}

theorem HandedOver.mono (h : HandedOver sub rows start cursor trace) (hsub : trace ⊆ trace') :
    HandedOver sub rows start cursor trace' := by
  intro r hr hwanted hlt hle
  obtain ⟨text, hframe, hsent⟩ := h r hr hwanted hlt hle
  exact ⟨text, hframe, hsub hsent⟩

theorem HandedOver.le (h : HandedOver sub rows start cursor trace) (hle : cursor' ≤ cursor) :
    HandedOver sub rows start cursor' trace :=
  fun r hr hwanted hlt hle' => h r hr hwanted hlt (hle'.trans hle)

theorem NeverSkips.nil : NeverSkips sub rows start [] := by
  intro pre cursor post h
  simp at h

theorem NeverSkips.sent (h : NeverSkips sub rows start trace) (frame : Frame) :
    NeverSkips sub rows start (trace ++ [.sent frame]) := by
  intro pre cursor post heq
  rcases eq_nil_or_concat post with rfl | ⟨post, last, rfl⟩
  · have hlast := (append_inj' heq rfl).2
    simp at hlast
  · rw [concat_eq_append, ← cons_append, ← append_assoc] at heq
    exact h pre cursor post (append_inj' heq rfl).1

theorem NeverSkips.saved (h : NeverSkips sub rows start trace)
    (hover : HandedOver sub rows start cursor trace) :
    NeverSkips sub rows start (trace ++ [.saved cursor]) := by
  intro pre cursor' post heq
  rcases eq_nil_or_concat post with rfl | ⟨post, last, rfl⟩
  · obtain ⟨rfl, hlast⟩ := append_inj' heq rfl
    simp only [List.cons.injEq, Action.saved.injEq, and_true] at hlast
    exact hlast ▸ hover
  · rw [concat_eq_append, ← cons_append, ← append_assoc] at heq
    exact h pre cursor' post (append_inj' heq rfl).1

/-! The client only gets more. -/

theorem Client.send_cases (h : client.send frame = some client') :
    client'.trace = client.trace ++ [.sent frame] := by
  unfold Client.send at h
  split at h
  · cases h
  cases h
  rfl

theorem Client.send_of_room (h : 0 < client.room) (frame : Frame) :
    ∃ client', client.send frame = some client' ∧
      client'.trace = client.trace ++ [.sent frame] := by
  unfold Client.send
  cases hroom : client.room with
  | zero => omega
  | succ => exact ⟨_, rfl, rfl⟩

theorem Client.save_trace (client : Client) (cursor : Int) (fails : Bool) :
    (client.save cursor fails).trace = client.trace ∨
      fails = false ∧ (client.save cursor fails).trace = client.trace ++ [.saved cursor] := by
  cases fails with
  | true => exact .inl rfl
  | false => exact .inr ⟨rfl, rfl⟩

theorem NeverSkips.getD (h : NeverSkips sub rows start client.trace) (frame : Frame) :
    NeverSkips sub rows start ((client.send frame).getD client).trace ∧
      client.trace ⊆ ((client.send frame).getD client).trace := by
  cases hsend : client.send frame with
  | none => exact ⟨h, List.Subset.refl _⟩
  | some =>
    rw [Option.getD_some, Client.send_cases hsend]
    exact ⟨h.sent frame, subset_append_left _ _⟩

theorem NeverSkips.save (h : NeverSkips sub rows start client.trace)
    (hover : HandedOver sub rows start cursor client.trace) (fails : Bool) :
    NeverSkips sub rows start (client.save cursor fails).trace ∧
      client.trace ⊆ (client.save cursor fails).trace := by
  rcases client.save_trace cursor fails with heq | ⟨-, heq⟩
  · rw [heq]
    exact ⟨h, List.Subset.refl _⟩
  · rw [heq]
    exact ⟨h.saved hover, subset_append_left _ _⟩

/-- **The rows of a replay.**  It saves nothing; the mark it returns is the one it began with or
the id of a row of the page; and of the page it has sent everything wanted up to that mark. -/
theorem replayLoop_spec (hframes : ∀ r ∈ rows, sub.wanted r = true → (sub.frameOf r).isSome) :
    ∀ {page : List (StreamRow π)} {highWater : Int} {client : Client},
      page ⊆ rows → Increasing StreamRow.id page → (∀ r ∈ page, highWater < r.id) →
      NeverSkips sub rows start client.trace →
      ∀ {highWater' : Int} {client' : Client},
        replayLoop sub page highWater client = (highWater', client') →
        NeverSkips sub rows start client'.trace ∧ client.trace ⊆ client'.trace ∧
          (highWater' = highWater ∨ ∃ r ∈ page, highWater' = r.id) ∧
          ∀ r ∈ page, sub.wanted r = true → r.id ≤ highWater' →
            ∃ text, sub.frameOf r = some text ∧ .sent (.event r.id text) ∈ client'.trace := by
  intro page
  induction page with
  | nil =>
    intro highWater client _ _ _ hskips highWater' client' h
    cases h
    exact ⟨hskips, List.Subset.refl _, .inl rfl, by simp⟩
  | cons row page ih =>
    intro highWater client hpage hinc habove hskips highWater' client' h
    obtain ⟨hrow, hpage'⟩ := cons_subset.mp hpage
    obtain ⟨hlater, hinc'⟩ := pairwise_cons.mp hinc
    obtain ⟨hlow, habove'⟩ := forall_mem_cons.mp habove
    rw [replayLoop_cons] at h
    cases hoffered : sub.offered row with
    | none =>
      -- a row that is passed over is not wanted
      have hunwanted : sub.wanted row ≠ true := by
        intro hwanted
        obtain ⟨text, htext⟩ := Option.isSome_iff_exists.mp (hframes row hrow hwanted)
        rw [Subscription.offered_eq_some.mpr ⟨hwanted, htext⟩] at hoffered
        cases hoffered
      rw [hoffered] at h
      obtain ⟨hskips', hgrew, hmark, hsent⟩ := ih hpage' hinc' habove' hskips h
      exact ⟨hskips', hgrew,
        hmark.imp_right fun ⟨r, hr, heq⟩ => ⟨r, mem_cons_of_mem _ hr, heq⟩,
        forall_mem_cons.mpr ⟨fun hwanted => absurd hwanted hunwanted, hsent⟩⟩
    | some text =>
      rw [hoffered] at h
      cases hsend : client.send (.event row.id text) with
      | none =>
        simp only [hsend] at h
        cases h
        refine ⟨hskips, List.Subset.refl _, .inl rfl, fun r hr _ hle => ?_⟩
        exact absurd hle (Int.not_le.mpr (habove r hr))
      | some =>
        simp only [hsend, max_eq_right (Int.le_of_lt hlow)] at h
        have htrace := Client.send_cases hsend
        obtain ⟨hskips', hgrew, hmark, hsent⟩ :=
          ih hpage' hinc' hlater (htrace ▸ hskips.sent (.event row.id text)) h
        rw [htrace] at hgrew
        refine ⟨hskips', fun a ha => hgrew (mem_append_left _ ha), .inr ?_,
          forall_mem_cons.mpr ⟨fun _ _ => ⟨text,
            (Subscription.offered_eq_some.mp hoffered).2, hgrew (by simp)⟩, hsent⟩⟩
        rcases hmark with rfl | ⟨r, hr, heq⟩
        · exact ⟨row, mem_cons_self, rfl⟩
        · exact ⟨r, mem_cons_of_mem _ hr, heq⟩

/-- **A replay covers what it passes**: a page has no holes. -/
theorem replayMatchingEvents_spec (hrows : Increasing StreamRow.id rows)
    (hframes : ∀ r ∈ rows, sub.wanted r = true → (sub.frameOf r).isSome) {head afterId : Int}
    {readFails saveFails : Bool} (hskips : NeverSkips sub rows start client.trace)
    (hover : HandedOver sub rows start afterId client.trace)
    (h : replayMatchingEvents sub (if readFails then none else
      some (listEventsAfter rows head afterId)) afterId saveFails client =
        (some outcome, client')) : NeverSkips sub rows start client'.trace ∧
      HandedOver sub rows start (max afterId outcome.highWater) client'.trace := by
  unfold replayMatchingEvents at h
  cases hws : sub.workspaceId with
  | none =>
    simp only [hws] at h
    cases h
    rw [max_self]
    exact ⟨hskips, hover⟩
  | some =>
    cases readFails with
    | true =>
      simp only [hws, if_true] at h
      cases h
    | false =>
      simp only [hws, Bool.false_eq_true, if_false] at h
      cases hloop : replayLoop sub (listEventsAfter rows head afterId) afterId client with
      | mk highWater client1 =>
        simp only [hloop] at h
        have hseen : Increasing StreamRow.id
            (after StreamRow.id afterId (rows.filter fun r => decide (r.id ≤ head))) :=
          (hrows.filter _).filter _
        have hmem : ∀ {r : StreamRow π}, r ∈ listEventsAfter rows head afterId →
            r ∈ rows ∧ r.id ≤ head ∧ afterId < r.id := by
          intro r hr
          have hr := mem_of_mem_take hr
          simp only [after, mem_filter, decide_eq_true_eq] at hr
          exact ⟨hr.1.1, hr.1.2, hr.2⟩
        obtain ⟨hskips', hgrew, hmark, hsent⟩ := replayLoop_spec hframes (fun r hr => (hmem hr).1)
          (hseen.sublist (take_sublist _ _)) (fun r hr => (hmem hr).2.2) hskips hloop
        have hover' : HandedOver sub rows start (max afterId highWater) client1.trace := by
          intro r hr hwanted hlt hle
          by_cases hold : r.id ≤ afterId
          · exact hover.mono hgrew r hr hwanted hlt hold
          · rcases hmark with rfl | ⟨x, hx, rfl⟩
            · omega
            · have hrx : r.id ≤ x.id := by omega
              refine hsent r (hseen.mem_take_of_le ?_ hx hrx) hwanted hrx
              simp only [after, mem_filter, decide_eq_true_eq]
              exact ⟨⟨hr, hrx.trans (hmem hx).2.1⟩, by omega⟩
        split at h
        · cases h
          obtain ⟨hskips'', hgrew'⟩ :=
            hskips'.save (hover'.le (le_max_right _ _)) saveFails
          exact ⟨hskips'', hover'.mono hgrew'⟩
        · cases h
          exact ⟨hskips', hover'⟩

/-! ## 5. The loop keeps it -/

/-- **The state of a stream whose cursor is safe.** -/
structure Covered (sub : Subscription π ε) (rows : List (StreamRow π)) (start : Int)
    (s : Forward) : Prop where
  skips : NeverSkips sub rows start s.client.trace
  handed : HandedOver sub rows start s.watermark s.client.trace
  pending : ∀ p ∈ s.pendingCursor, p ≤ s.watermark

/-- **A turn that does no harm.**  A bus event above the watermark must find the channel open and
a frame to send; no save may fall due at it, unless the write fails; and nothing wanted may lie
between the watermark and the event: no replay before it was cut short. -/
def Harmless (sub : Subscription π ε) (rows : List (StreamRow π)) (start : Int) (s : Forward)
    (t : Turn ε) : Prop :=
  match t.item with
  | .lagged _ => True
  | .event logId envelope => s.running = true → s.watermark < logId →
      0 < s.client.room ∧ (sub.framePayload envelope).isSome ∧
      (flushDue s t = true → t.saveFails = true) ∧
      ∀ r ∈ rows, sub.wanted r = true → max start s.watermark < r.id → logId ≤ r.id

/-- The bus carries the log's events. -/
def Carried (sub : Subscription π ε) (rows : List (StreamRow π)) (t : Turn ε) : Prop :=
  match t.item with
  | .lagged _ => True
  | .event logId envelope =>
    ∀ r ∈ rows, r.id = logId → sub.envelopeFromStored r.payload = some envelope

/-- Without a save due that succeeds, an event only moves the watermark and the buffer. -/
theorem noteEvent_spec {s : Forward} {t : Turn ε} {logId : Int}
    (hpending : ∀ p ∈ s.pendingCursor, p ≤ s.watermark)
    (hdue : flushDue s t = true → t.saveFails = true) :
    (noteEvent sub s t logId).client = s.client ∧
      (noteEvent sub s t logId).watermark = max s.watermark logId ∧
      ∀ p ∈ (noteEvent sub s t logId).pendingCursor, p ≤ max s.watermark logId := by
  have hbuffered : buffered s.pendingCursor logId ≤ max s.watermark logId := by
    cases hp : s.pendingCursor with
    | none => exact le_max_right _ _
    | some p => exact max_le_max_right logId (hpending p hp)
  unfold noteEvent
  cases hwriter : sub.cursorWriter with
  | none => exact ⟨rfl, rfl, fun p hp => (hpending p hp).trans (le_max_left _ _)⟩
  | some =>
    dsimp only [Option.isSome_some]
    rw [if_pos rfl]
    split
    · rename_i h
      simp [flushDeliveryCursor, hwriter, Client.save, hdue h]
    · refine ⟨rfl, rfl, ?_⟩
      rintro p ⟨⟩
      exact hbuffered

theorem Covered.send (h : Covered sub rows start s) (frame : Frame) :
    Covered sub rows start (s.send frame) := by
  unfold Forward.send
  cases hsend : s.client.send frame with
  | none => exact ⟨h.skips, h.handed, h.pending⟩
  | some =>
    have htrace := Client.send_cases hsend
    refine ⟨htrace ▸ h.skips.sent frame, ?_, h.pending⟩
    exact h.handed.mono (htrace ▸ subset_append_left _ _)

theorem Covered.onEvent (h : Covered sub rows start s) (hitem : t.item = .event logId envelope)
    (hrunning : s.running = true) (hharmless : Harmless sub rows start s t)
    (hcarried : Carried sub rows t) :
    Covered sub rows start (Maidan.onEvent sub s t logId envelope) := by
  unfold Maidan.onEvent
  split
  · exact h
  · rename_i hnew
    simp only [Harmless, hitem] at hharmless
    simp only [Carried, hitem] at hcarried
    have hlt : s.watermark < logId := Int.not_le.mp hnew
    obtain ⟨hroom, hframe, hdue, hgap⟩ := hharmless hrunning hlt
    obtain ⟨text, htext⟩ := Option.isSome_iff_exists.mp hframe
    obtain ⟨hclient, hwatermark, hpending⟩ := @noteEvent_spec _ _ sub s t logId h.pending hdue
    obtain ⟨client, hsend, htrace⟩ := Client.send_of_room hroom (.event logId text)
    simp only [htext, Forward.send, hclient, hsend]
    refine ⟨htrace ▸ h.skips.sent _, ?_, ?_⟩
    · intro r hr hwanted hstart hle
      simp only [htrace]
      by_cases hold : r.id ≤ s.watermark
      · exact h.handed.mono (subset_append_left _ _) r hr hwanted hstart hold
      · -- beyond the watermark there is nothing wanted below the event, so this is the event
        have hge := hgap r hr hwanted (by omega)
        have hid : r.id = logId := by
          rw [hwatermark] at hle
          omega
        refine ⟨text, ?_, by simp [hid]⟩
        simp [Subscription.frameOf, hcarried r hr hid, htext]
    · rw [hwatermark]
      exact hpending

section

variable (hrows : Increasing StreamRow.id rows)
include hrows

section

variable (hframes : ∀ r ∈ rows, sub.wanted r = true → (sub.frameOf r).isSome)
include hframes

section

variable (h : Covered sub rows start s)
include h

theorem Covered.onLagged (t : Turn ε) (skipped : Nat) :
    Covered sub rows start (Maidan.onLagged sub rows s t skipped) := by
  unfold Maidan.onLagged
  cases hws : sub.workspaceId with
  | none => exact h.send _
  | some =>
    dsimp only
    split
    · rename_i outcome client hreplay
      obtain ⟨hskips, hover⟩ := replayMatchingEvents_spec hrows hframes h.skips h.handed hreplay
      have hpending : ∀ p ∈ s.pendingCursor, p ≤ max s.watermark outcome.highWater :=
        fun p hp => (h.pending p hp).trans (le_max_left _ _)
      split
      · obtain ⟨hskips', hgrew⟩ := hskips.getD (.replayTruncated outcome.highWater)
        exact ⟨hskips', hover.mono hgrew, hpending⟩
      · exact ⟨hskips, hover, hpending⟩
    · rename_i client hreplay
      -- a failed read touches nothing
      have hsame : client = s.client := by
        unfold replayMatchingEvents at hreplay
        simp only [hws] at hreplay
        split at hreplay
        · cases hreplay
          rfl
        · cases hreplay
      rw [hsame]
      exact h.send _

theorem Covered.turn (hharmless : Harmless sub rows start s t) (hcarried : Carried sub rows t) :
    Covered sub rows start (forwardTurn sub rows s t) := by
  unfold forwardTurn
  split
  · rename_i hrunning
    split
    · rename_i logId envelope hitem
      exact h.onEvent hitem hrunning hharmless hcarried
    · rename_i skipped hitem
      exact h.onLagged hrows hframes t skipped
  · exact h

theorem Covered.run (hcarried : ∀ t ∈ turns, Carried sub rows t)
    (hmeets : Meets (forwardTurn sub rows) (Harmless sub rows start) s turns) :
    Covered sub rows start (exec (forwardTurn sub rows) s turns) := by
  induction turns generalizing s with
  | nil => exact h
  | cons t turns ih =>
    obtain ⟨ht, hturns⟩ := forall_mem_cons.mp hcarried
    exact ih (h.turn hrows hframes hmeets.1 ht) hturns hmeets.2

end

end

end

theorem Covered.flush (h : Covered sub rows start s) (saveFails : Bool) :
    NeverSkips sub rows start (flushDeliveryCursor sub s saveFails).client.trace := by
  unfold flushDeliveryCursor
  split
  · rename_i logId _ hp
    exact (h.skips.save (h.handed.le (h.pending logId hp)) saveFails).1
  · exact h.skips

theorem Covered.openStream (hrows : Increasing StreamRow.id rows)
    (hframes : ∀ r ∈ rows, sub.wanted r = true → (sub.frameOf r).isSome) {afterId : Int}
    (hstart : afterId ≤ start) {fromResumeToken : Bool}
    (h : Maidan.openStream sub rows afterId fromResumeToken { room := room } opening = some s) :
    Covered sub rows start s := by
  have hnone : HandedOver sub rows start afterId [] := by
    intro r _ _ hlt hle
    omega
  unfold Maidan.openStream at h
  split at h
  · dsimp only at h
    split at h
    · cases h
    rename_i outcome client hreplay
    cases h
    obtain ⟨hskips, hover⟩ := replayMatchingEvents_spec hrows hframes .nil hnone hreplay
    split
    · obtain ⟨hskips', hgrew⟩ := hskips.getD (.replayTruncated outcome.highWater)
      exact ⟨hskips', (hover.le (le_max_right _ _)).mono hgrew, by simp⟩
    · exact ⟨hskips, hover.le (le_max_right _ _), by simp⟩
  · cases h
    exact ⟨.nil, hnone, by simp⟩

end Covering

/-- **When the cursor never skips.**  In every subscription whose matching rows all have a frame
and whose turns do no harm: whenever a delivery cursor is saved, everything wanted above the
starting position and up to it was sent to the client first. -/
theorem cursor_never_skips (hrows : Increasing StreamRow.id rows)
    (hframes : ∀ r ∈ rows, sub.wanted r = true → (sub.frameOf r).isSome) (afterId start : Int)
    (hstart : afterId ≤ start) (fromResumeToken : Bool) (room : Nat) (opening : Turn ε)
    (turns : List (Turn ε)) (lastSaveFails : Bool) (hcarried : ∀ t ∈ turns, Carried sub rows t)
    (hmeets : ∀ s, openStream sub rows afterId fromResumeToken { room := room } opening = some s →
      Meets (forwardTurn sub rows) (Harmless sub rows start) s turns) :
    NeverSkips sub rows start (subscribe sub rows afterId fromResumeToken { room := room } opening
      turns lastSaveFails).trace := by
  unfold subscribe
  cases hopen : openStream sub rows afterId fromResumeToken { room := room } opening with
  | none => exact .nil
  | some s =>
    have hcovered := Covered.openStream hrows hframes hstart hopen
    exact (hcovered.run hrows hframes hcarried (hmeets s hopen)).flush lastSaveFails

/-- A consumer that wants every row, as it is. -/
def everything : Subscription String String where
  workspaceId := some ⟨1⟩
  consumerId := some "tail"
  envelopeFromStored := some
  matchesEnvelope := fun _ => true
  framePayload := some

def threeEvents : List (StreamRow String) :=
  [{ id := 1, payload := "a" }, { id := 2, payload := "b" }, { id := 3, payload := "c" }]

/-- The first event from the bus, the other two from the log after a lag notice. -/
def laggedTurns : List (Turn String) :=
  [{ item := .event 1 "a" }, { item := .lagged 2, head := 3 }]

/-- The replay saves 3 when all three are sent; the buffer holds 1 until the end. -/
theorem cursor_never_skips_lagged :
    NeverSkips everything threeEvents 0 (subscribe everything threeEvents 0 false { room := 10 }
        { item := .lagged 0 } laggedTurns false).trace ∧
      (subscribe everything threeEvents 0 false { room := 10 } { item := .lagged 0 } laggedTurns
        false).trace = [.sent (.event 1 "a"), .sent (.event 2 "b"), .sent (.event 3 "c"),
          .saved 3, .saved 1] := by
  refine ⟨cursor_never_skips everything threeEvents (by unfold Increasing; decide) (by decide) 0 0
    (le_refl 0) false 10 { item := .lagged 0 } laggedTurns false ?_ ?_, by decide⟩
  · have hfirst : Carried everything threeEvents { item := .event 1 "a" } := by
      unfold Carried
      decide
    exact forall_mem_cons.mpr ⟨hfirst, forall_mem_singleton.mpr trivial⟩
  · rintro s ⟨⟩
    exact ⟨fun _ _ => ⟨by decide, rfl, by decide, by decide⟩, trivial, trivial⟩

/-- **A cursor past an event that was not sent.**  The client goes away before the first event:
its send fails, the loop is left, and the last flush saves the event's id. -/
theorem failed_send_moves_cursor :
    Carried everything threeEvents { item := .event 1 "a" } ∧
      (subscribe everything threeEvents 0 false { room := 0 } { item := .lagged 0 }
        [{ item := .event 1 "a" }] false).trace = [.saved 1] ∧
      ¬ NeverSkips everything threeEvents 0 (subscribe everything threeEvents 0 false { room := 0 }
        { item := .lagged 0 } [{ item := .event 1 "a" }] false).trace := by
  refine ⟨by unfold Carried; decide, by decide, fun h => ?_⟩
  obtain ⟨text, -, hsent⟩ := h [] 1 [] (by decide) { id := 1, payload := "a" } (by decide) rfl
    (by decide) (by decide)
  cases hsent

end Maidan
