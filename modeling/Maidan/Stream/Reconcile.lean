/-
# At-least-once delivery

`reconcile_deliver` (`event_stream.rs`) reads the log itself.  A batch takes the rows above the
cursor that are STABLE -- `inserted_at` at least a stability window ago -- in the order of their
ids, sends those that match, and moves the cursor past all of them.  The window is there for rows
that commit late: a row is to be visible by the time it is stable.

The loop selects by `inserted_at` and resumes by `id`.  Nothing is skipped as long as the two
orders agree; but `inserted_at` is read from the clock of the replica that writes the row.  Where a
row carries a later stamp than a row with a higher id, there is a reading at which the second is
stable and the first is not, and the cursor passes the first for good.

`reconcile_skips_nothing_iff` says that this is exactly so: over all runs, with reads that fail,
cursors that are not saved, channels that close and restarts from the saved cursor, nothing is
skipped and everything is sent in the end IF AND ONLY IF no matching row is stamped after a row
with a higher id.
-/
import Maidan.Stream.Forward

namespace Maidan

open Ordered Run
open List hiding after

variable {π ε : Type}

/-! ## 1. The loop -/

/-- **One turn of the inner loop.**  `now` is the reading the cutoff is taken from, `visible` says
which rows the read finds committed, and the channel closes after `room` more frames. -/
structure Batch (π : Type) where
  now : Int
  visible : StreamRow π → Bool := fun _ => true
  room : Nat := replayLimit
  readFails : Bool := false
  saveFails : Bool := false

/-- A consumer's stream, over its connections: the cursor of the loop, the saved one, whether the
loop runs, and what was done. -/
structure Reconcile where
  cursor : Int
  saved : Int
  live : Bool := true
  trace : List Action := []
deriving DecidableEq, Repr

/-- The rows a batch at `b` may read. -/
def stableRows (rows : List (StreamRow π)) (window : Int) (b : Batch π) : List (StreamRow π) :=
  rows.filter fun r => b.visible r && decide (r.insertedAt ≤ b.now - window)

/-- `list_after_stable`. -/
def listAfterStable (rows : List (StreamRow π)) (window cursor : Int) (b : Batch π) :
    List (StreamRow π) :=
  (after StreamRow.id cursor (stableRows rows window b)).take replayLimit

/-- The rows of a batch, one by one: the highest id, or `none` where the channel closed. -/
def deliverRows (sub : Subscription π ε) : List (StreamRow π) → Int → Client → Option Int × Client
  | [], batchMax, client => (some batchMax, client)
  | row :: rows, batchMax, client =>
    let batchMax := max batchMax row.id
    match sub.envelopeFromStored row.payload with
    | none => deliverRows sub rows batchMax client
    | some envelope =>
      if sub.matchesEnvelope envelope then
        match sub.framePayload envelope with
        | none => deliverRows sub rows batchMax client
        | some text =>
          match client.send (.event row.id text) with
          | none => (none, client)
          | some client => deliverRows sub rows batchMax client
      else deliverRows sub rows batchMax client

variable (sub : Subscription π ε)

/-- A batch, once it has been read. -/
def deliverPage (page : List (StreamRow π)) (s : Reconcile) (b : Batch π) : Reconcile :=
  match deliverRows sub page s.cursor { room := b.room, trace := s.trace } with
  | (none, client) => { s with live := false, trace := client.trace }
  | (some batchMax, client) =>
    { s with
      cursor := batchMax
      saved := if b.saveFails then s.saved else max s.saved batchMax
      trace := client.trace }

/-- `reconcile_deliver`, one batch. -/
def reconcileBatch (rows : List (StreamRow π)) (window : Int) (s : Reconcile) (b : Batch π) :
    Reconcile :=
  if s.live = false ∨ b.readFails then s
  else
    let page := listAfterStable rows window s.cursor b
    if page.isEmpty then s else deliverPage sub page s b

inductive ReconcileOp (π : Type)
  | batch (b : Batch π)
  | restart

/-- A batch, or a new connection: it starts at `effective_subscribe_after_id`, where the client
asks for `start`. -/
def reconcileNext (rows : List (StreamRow π)) (window start : Int) (s : Reconcile) :
    ReconcileOp π → Reconcile
  | .batch b => reconcileBatch sub rows window s b
  | .restart => { s with cursor := max start s.saved, live := true }

/-- **Committed within the window**: what is stable at the reading is visible. -/
def InWindow (rows : List (StreamRow π)) (window : Int) : ReconcileOp π → Prop
  | .batch b => ∀ r ∈ rows, r.insertedAt ≤ b.now - window → b.visible r = true
  | .restart => True

/-! ## 2. A page -/

section Page

variable {sub : Subscription π ε} {rows : List (StreamRow π)}

theorem deliverRows_cons (row : StreamRow π) (page : List (StreamRow π)) (batchMax : Int)
    (client : Client) : deliverRows sub (row :: page) batchMax client =
      match sub.offered row with
      | none => deliverRows sub page (max batchMax row.id) client
      | some text =>
        match client.send (.event row.id text) with
        | none => (none, client)
        | some client => deliverRows sub page (max batchMax row.id) client := by
  rw [deliverRows, Subscription.offered, Subscription.wanted, Subscription.frameOf]
  cases sub.envelopeFromStored row.payload with
  | none => rfl
  | some envelope =>
    cases hmatch : sub.matchesEnvelope envelope with
    | false => simp [hmatch]
    | true => simp only [hmatch, if_true, Option.bind_some]

/-- **What the rows of a batch have done.**  Only rows of the page are sent; where the channel stays
open, the mark is the highest id and everything wanted that has a frame was sent. -/
structure Delivered (sub : Subscription π ε) (page : List (StreamRow π)) (batchMax : Int)
    (client : Client) (mark : Option Int) (client' : Client) : Prop where
  grew : client.trace ⊆ client'.trace
  only : ∀ id text, .sent (.event id text) ∈ client'.trace →
    .sent (.event id text) ∈ client.trace ∨ ∃ r ∈ page, r.id = id
  mark : ∀ m ∈ mark, (m = batchMax ∨ ∃ r ∈ page, m = r.id) ∧ batchMax ≤ m ∧
    (∀ r ∈ page, r.id ≤ m) ∧ ∀ r ∈ page, ∀ text, sub.offered r = some text →
      .sent (.event r.id text) ∈ client'.trace

variable {page : List (StreamRow π)}

theorem Delivered.cons {mark : Option Int}
    (h : Delivered sub page (max batchMax row.id) client1 mark client')
    (hgrew : client.trace ⊆ client1.trace)
    (honly : ∀ id text, .sent (.event id text) ∈ client1.trace →
      .sent (.event id text) ∈ client.trace ∨ row.id = id)
    (hsent : ∀ text, sub.offered row = some text → .sent (.event row.id text) ∈ client1.trace) :
    Delivered sub (row :: page) batchMax client mark client' := by
  refine ⟨fun a ha => h.grew (hgrew ha), fun id text hmem => ?_, fun m hm => ?_⟩
  · rcases h.only id text hmem with hmem | ⟨r, hr, hid⟩
    · exact (honly id text hmem).imp_right fun hid => ⟨row, mem_cons_self, hid⟩
    · exact .inr ⟨r, mem_cons_of_mem _ hr, hid⟩
  · obtain ⟨hfrom, hge, hall, hlater⟩ := h.mark m hm
    refine ⟨?_, (le_max_left _ _).trans hge,
      forall_mem_cons.mpr ⟨(le_max_right _ _).trans hge, hall⟩,
      forall_mem_cons.mpr ⟨fun text hoffered => h.grew (hsent text hoffered), hlater⟩⟩
    rcases hfrom with hfrom | ⟨r, hr, hid⟩
    · rcases le_total batchMax row.id with hle | hle
      · rw [max_eq_right hle] at hfrom
        exact .inr ⟨row, mem_cons_self, hfrom⟩
      · rw [max_eq_left hle] at hfrom
        exact .inl hfrom
    · exact .inr ⟨r, mem_cons_of_mem _ hr, hid⟩

theorem deliverRows_spec {client' : Client}
    (h : deliverRows sub page batchMax client = (mark, client')) :
    Delivered sub page batchMax client mark client' := by
  induction page generalizing batchMax client with
  | nil =>
    cases h
    exact ⟨List.Subset.refl _, fun _ _ => .inl, by simp⟩
  | cons row page ih =>
    rw [deliverRows_cons] at h
    cases hoffered : sub.offered row with
    | none =>
      rw [hoffered] at h
      exact (ih h).cons (List.Subset.refl _) (fun _ _ => .inl) (by simp [hoffered])
    | some text =>
      rw [hoffered] at h
      cases hsend : client.send (.event row.id text) with
      | none =>
        simp only [hsend] at h
        cases h
        exact ⟨List.Subset.refl _, fun _ _ => .inl, by simp⟩
      | some =>
        simp only [hsend] at h
        have htrace := Client.send_cases hsend
        refine (ih h).cons (htrace ▸ subset_append_left _ _) (fun id text' hmem => ?_) ?_
        · rw [htrace] at hmem
          rcases mem_append.mp hmem with hmem | hmem
          · exact .inl hmem
          · simp only [mem_singleton, Action.sent.injEq, Frame.event.injEq] at hmem
            exact .inr hmem.1.symm
        · simp [hoffered, htrace]

theorem deliverRows_open {batchMax : Int} {client : Client} (hroom : page.length ≤ client.room) :
    ∃ m client', deliverRows sub page batchMax client = (some m, client') := by
  induction page generalizing batchMax client with
  | nil => exact ⟨_, _, rfl⟩
  | cons row page ih =>
    rw [length_cons] at hroom
    rw [deliverRows_cons]
    cases sub.offered row with
    | none => exact ih (by omega)
    | some =>
      obtain ⟨room, hroom'⟩ : ∃ room, client.room = room + 1 := ⟨client.room - 1, by omega⟩
      simp only [Client.send, hroom']
      exact ih (by dsimp only; omega)

end Page

/-! ## 3. In the order of the stamps -/

variable {b : Batch π} {s : Reconcile}

section Runs

variable (sub : Subscription π ε) (rows : List (StreamRow π)) (window start : Int)

/-- **No matching row is stamped after a row with a higher id.** -/
def StampsInOrder : Prop :=
  ∀ r ∈ rows, sub.wanted r = true → start < r.id →
    ∀ r' ∈ rows, r.id < r'.id → r.insertedAt ≤ r'.insertedAt

/-- Every matching row has a frame. -/
def AllFramed : Prop := ∀ r ∈ rows, sub.wanted r = true → start < r.id → (sub.frameOf r).isSome

variable {sub rows window start}

theorem mem_listAfterStable (h : r ∈ listAfterStable rows window cursor b) :
    r ∈ stableRows rows window b ∧ cursor < r.id := by
  simpa [after] using mem_filter.mp (mem_of_mem_take h)

theorem mem_stableRows : r ∈ stableRows rows window b ↔
      r ∈ rows ∧ b.visible r = true ∧ r.insertedAt ≤ b.now - window := by
  simp [stableRows]

theorem reconcileBatch_cases (s : Reconcile) (b : Batch π) :
    reconcileBatch sub rows window s b = s ∨
      ∃ mark client, deliverRows sub (listAfterStable rows window s.cursor b) s.cursor
          { room := b.room, trace := s.trace } = (mark, client) ∧
        match mark with
        | none => reconcileBatch sub rows window s b =
            { s with live := false, trace := client.trace }
        | some m => reconcileBatch sub rows window s b =
            { s with
              cursor := m
              saved := if b.saveFails then s.saved else max s.saved m
              trace := client.trace } := by
  unfold reconcileBatch
  split
  · exact .inl rfl
  · dsimp only
    split
    · exact .inl rfl
    · refine .inr ?_
      unfold deliverPage
      cases hrows : deliverRows sub (listAfterStable rows window s.cursor b) s.cursor
        { room := b.room, trace := s.trace } with
      | mk mark client =>
        refine ⟨mark, client, rfl, ?_⟩
        cases mark <;> rfl

/-- **The cursors of a stream that has skipped nothing**, the loop's and the saved one. -/
structure Reconciled (sub : Subscription π ε) (rows : List (StreamRow π)) (start : Int)
    (s : Reconcile) : Prop where
  from_start : start ≤ s.cursor
  cursor : HandedOver sub rows start s.cursor s.trace
  saved : HandedOver sub rows start s.saved s.trace

/-- **One batch.**  The last row of the page is stable, so everything wanted below it is stamped no
later, is stable and visible itself, and lies on the page. -/
theorem Reconciled.batch (hrows : Increasing StreamRow.id rows)
    (horder : StampsInOrder sub rows start) (hframed : AllFramed sub rows start)
    (h : Reconciled sub rows start s) (hwindow : InWindow rows window (.batch b)) :
    Reconciled sub rows start (reconcileBatch sub rows window s b) := by
  rcases @reconcileBatch_cases _ _ sub rows window s b with
    heq | ⟨mark, client, hdeliver, heq⟩
  · rw [heq]
    exact h
  · obtain ⟨hgrew, -, hmark⟩ := deliverRows_spec hdeliver
    cases mark with
    | none =>
      rw [heq]
      exact ⟨h.from_start, h.cursor.mono hgrew, h.saved.mono hgrew⟩
    | some m =>
      obtain ⟨hfrom, hge, -, hsent⟩ := hmark m rfl
      have hover : HandedOver sub rows start m client.trace := by
        intro r hr hwanted hstart hle
        by_cases hold : r.id ≤ s.cursor
        · exact h.cursor.mono hgrew r hr hwanted hstart hold
        · rcases hfrom with rfl | ⟨x, hx, rfl⟩
          · exact absurd hle hold
          · obtain ⟨hxstable, -⟩ := mem_listAfterStable hx
            obtain ⟨hxrows, -, hxstamp⟩ := mem_stableRows.mp hxstable
            have hstamp : r.insertedAt ≤ b.now - window := by
              rcases Int.lt_or_eq_of_le hle with hlt | heq'
              · exact (horder r hr hwanted hstart x hxrows hlt).trans hxstamp
              · rw [hrows.eq_of_key hr hxrows heq']
                exact hxstamp
            have hstable : r ∈ stableRows rows window b :=
              mem_stableRows.mpr ⟨hr, hwindow r hr hstamp, hstamp⟩
            have hpage : r ∈ listAfterStable rows window s.cursor b := by
              refine Increasing.mem_take_of_le ((hrows.filter _).filter _) ?_ hx hle
              exact mem_filter.mpr ⟨hstable, decide_eq_true (Int.not_le.mp hold)⟩
            obtain ⟨text, htext⟩ := Option.isSome_iff_exists.mp (hframed r hr hwanted hstart)
            exact ⟨text, htext,
              hsent r hpage text (Subscription.offered_eq_some.mpr ⟨hwanted, htext⟩)⟩
      rw [heq]
      refine ⟨h.from_start.trans hge, hover, ?_⟩
      split
      · exact h.saved.mono hgrew
      · rcases le_total s.saved m with hle | hle
        · rw [max_eq_right hle]
          exact hover
        · rw [max_eq_left hle]
          exact h.saved.mono hgrew

theorem Reconciled.next (hrows : Increasing StreamRow.id rows)
    (horder : StampsInOrder sub rows start) (hframed : AllFramed sub rows start)
    (h : Reconciled sub rows start s) (hwindow : InWindow rows window op) :
    Reconciled sub rows start (reconcileNext sub rows window start s op) := by
  cases op with
  | batch => exact h.batch hrows horder hframed hwindow
  | restart =>
    refine ⟨le_max_left _ _, fun r hr hwanted hstart hle => ?_, h.saved⟩
    have hle' : r.id ≤ max start s.saved := hle
    exact h.saved r hr hwanted hstart (by omega)

/-! ## 4. To the end of what is stable -/

/-- A batch that goes well: the read succeeds and the channel takes the page. -/
def Batch.goesWell (b : Batch π) : Prop := b.readFails = false ∧ replayLimit ≤ b.room

/-- **Batch by batch to the end.**  While the same rows are stable, each batch that goes well
leaves fewer of them above the cursor. -/
theorem stable_drained {stable : List (StreamRow π)} {bs : List (Batch π)} {s : Reconcile}
    (hbs : ∀ b ∈ bs, b.goesWell ∧ stableRows rows window b = stable) (hlive : s.live = true)
    (hlen : (after StreamRow.id s.cursor stable).length ≤ bs.length) :
    (exec (reconcileBatch sub rows window) s bs).live = true ∧
      ∀ r ∈ stable, r.id ≤ (exec (reconcileBatch sub rows window) s bs).cursor := by
  induction bs generalizing s with
  | nil =>
    refine ⟨hlive, fun r hr => ?_⟩
    have hnil := eq_nil_of_length_eq_zero (Nat.le_zero.mp hlen)
    by_contra hlt
    have hmem : r ∈ after StreamRow.id s.cursor stable :=
      mem_filter.mpr ⟨hr, decide_eq_true (Int.not_le.mp hlt)⟩
    rw [hnil] at hmem
    cases hmem
  | cons b bs ih =>
    obtain ⟨⟨⟨hread, hroom⟩, hstable⟩, hbs'⟩ := forall_mem_cons.mp hbs
    have hpage : listAfterStable rows window s.cursor b =
        (after StreamRow.id s.cursor stable).take replayLimit := by
      rw [listAfterStable, hstable]
    rw [exec_cons]
    cases hafter : after StreamRow.id s.cursor stable with
    | nil =>
      -- nothing is left: the batch changes nothing
      have hsame : reconcileBatch sub rows window s b = s := by
        unfold reconcileBatch
        simp [hpage, hafter]
      rw [hsame]
      exact ih hbs' hlive (by simp [hafter])
    | cons first rest =>
      obtain ⟨m, client, hdeliver⟩ := @deliverRows_open _ _ sub
        (listAfterStable rows window s.cursor b) s.cursor { room := b.room, trace := s.trace }
        ((length_take_le _ _).trans hroom)
      obtain ⟨-, -, hmark⟩ := deliverRows_spec hdeliver
      obtain ⟨-, hge, hall, -⟩ := hmark m rfl
      have hnext : reconcileBatch sub rows window s b =
          { s with
            cursor := m
            saved := if b.saveFails then s.saved else max s.saved m
            trace := client.trace } := by
        unfold reconcileBatch
        have hne : (listAfterStable rows window s.cursor b).isEmpty = false := by
          rw [hpage, hafter]
          rfl
        simp [hlive, hread, hne, deliverPage, hdeliver]
      have hfirst : first.id ≤ m := by
        refine hall first ?_
        rw [hpage, hafter]
        exact mem_cons_self
      have hless : (after StreamRow.id m stable).length < (first :: rest).length := by
        rw [← after_after hge, hafter]
        unfold after
        rw [filter_cons_of_neg (by simpa using hfirst)]
        exact Nat.lt_succ_of_le (length_filter_le _ _)
      rw [hnext]
      refine ih hbs' hlive ?_
      rw [hafter, length_cons, length_cons] at hlen
      rw [length_cons] at hless
      dsimp only
      omega

/-! ## 5. When nothing is skipped -/

theorem reconcileBatch_only {id : Int}
    (h : .sent (.event id text) ∈ (reconcileBatch sub rows window s b).trace) :
    .sent (.event id text) ∈ s.trace ∨ ∃ r ∈ stableRows rows window b, r.id = id := by
  rcases @reconcileBatch_cases _ _ sub rows window s b with heq | ⟨mark, client, hdeliver, heq⟩
  · rw [heq] at h
    exact .inl h
  · obtain ⟨-, honly, -⟩ := deliverRows_spec hdeliver
    have htrace : (reconcileBatch sub rows window s b).trace = client.trace := by
      cases mark <;> simp only at heq <;> rw [heq]
    rw [htrace] at h
    exact (honly id text h).imp_right fun ⟨r, hr, hid⟩ => ⟨r, (mem_listAfterStable hr).1, hid⟩

theorem exec_batches (bs : List (Batch π)) (s : Reconcile) :
    exec (reconcileNext sub rows window start) s (bs.map .batch) =
      exec (reconcileBatch sub rows window) s bs := by
  induction bs generalizing s with
  | nil => rfl
  | cons b bs ih => exact ih _

theorem reconcileBatch_saves (hb : b.saveFails = false) (h : s.cursor ≤ max start s.saved) :
    (reconcileBatch sub rows window s b).cursor ≤
      max start (reconcileBatch sub rows window s b).saved := by
  rcases @reconcileBatch_cases _ _ sub rows window s b with heq | ⟨mark, client, -, heq⟩
  · rw [heq]
    exact h
  · cases mark with
    | none =>
      rw [heq]
      exact h
    | some =>
      simp only [hb, Bool.false_eq_true, if_false] at heq
      rw [heq]
      exact (le_max_right _ _).trans (le_max_right _ _)

/-- **A drain at one reading**: the saved cursor passes every stable row, and no other is sent. -/
theorem drained_at (hrows : Increasing StreamRow.id rows) (reading saved : Int) :
    ∃ ops : List (ReconcileOp π), (∀ op ∈ ops, InWindow rows window op) ∧
      (∀ r ∈ rows, start < r.id → r.insertedAt ≤ reading - window →
        r.id ≤ (exec (reconcileNext sub rows window start) { cursor := start, saved := saved }
          ops).saved) ∧
      ∀ r ∈ rows, reading - window < r.insertedAt → ∀ text, .sent (.event r.id text) ∉
        (exec (reconcileNext sub rows window start) { cursor := start, saved := saved }
          ops).trace := by
  let b : Batch π := { now := reading }
  let bs := List.replicate (stableRows rows window b).length b
  have hb : ∀ b' ∈ bs, b' = b := fun b' hb' => eq_of_mem_replicate hb'
  refine ⟨bs.map .batch, ?_, ?_⟩
  · intro op hop
    obtain ⟨b', hb', rfl⟩ := mem_map.mp hop
    rw [hb b' hb']
    exact fun _ _ _ => rfl
  · rw [exec_batches]
    constructor
    · intro r hr hstart hstamp
      have hgood : ∀ b' ∈ bs, b'.goesWell ∧
          stableRows rows window b' = stableRows rows window b := by
        intro b' hb'
        rw [hb b' hb']
        exact ⟨⟨rfl, Nat.le_refl _⟩, rfl⟩
      have hlen : (after StreamRow.id start (stableRows rows window b)).length ≤ bs.length := by
        rw [length_replicate]
        exact length_filter_le _ _
      have hpassed := (@stable_drained _ _ sub rows window _ bs
        { cursor := start, saved := saved } hgood rfl hlen).2 r
        (mem_stableRows.mpr ⟨hr, rfl, hstamp⟩)
      have hsaved := @exec_inv_of_mem Reconcile _ (reconcileBatch sub rows window)
        (fun s => s.cursor ≤ max start s.saved) bs (fun s b' hb' => by
          rw [hb b' hb']
          exact reconcileBatch_saves rfl) { cursor := start, saved := saved } (le_max_left _ _)
      omega
    · intro r hr hstamp text
      refine @exec_inv_of_mem Reconcile _ (reconcileBatch sub rows window)
        (fun s => .sent (.event r.id text) ∉ s.trace) bs ?_
        { cursor := start, saved := saved } not_mem_nil
      intro s b' hb' hs hsent
      rw [hb b' hb'] at hsent
      rcases reconcileBatch_only hsent with hsent | ⟨r', hr', hid⟩
      · exact hs hsent
      · obtain ⟨hrow, -, hstable⟩ := mem_stableRows.mp hr'
        rw [hrows.eq_of_key hrow hr hid] at hstable
        exact absurd hstable (Int.not_le.mpr hstamp)

end Runs

/-- **Reconcile delivery skips nothing.**  After every run in which rows commit within the window,
the saved cursor has passed no matching row that was not sent; and once all rows are stable, a
stream that runs on sends every matching row above the start: one batch for each row is enough. -/
def SkipsNothing (rows : List (StreamRow π)) (window start saved : Int) : Prop :=
  ∀ ops : List (ReconcileOp π), (∀ op ∈ ops, InWindow rows window op) →
    let s := exec (reconcileNext sub rows window start) { cursor := start, saved := saved } ops
    HandedOver sub rows start s.saved s.trace ∧
      (s.live = true → ∀ bs : List (Batch π), rows.length ≤ bs.length →
        (∀ b ∈ bs, b.goesWell ∧ stableRows rows window b = rows) →
        ∀ r ∈ rows, sub.wanted r = true → start < r.id →
          ∃ text, sub.frameOf r = some text ∧ .sent (.event r.id text) ∈
            (exec (reconcileBatch sub rows window) s bs).trace)

/-- **When reconcile delivery skips nothing**: exactly when no matching row is stamped after a row
with a higher id, and each has a frame. -/
theorem reconcile_skips_nothing_iff (rows : List (StreamRow π))
    (hrows : Increasing StreamRow.id rows) (window start saved : Int) (hsaved : saved ≤ start) :
    SkipsNothing sub rows window start saved ↔
      StampsInOrder sub rows start ∧ AllFramed sub rows start := by
  constructor
  · intro h
    constructor
    · intro r hr hwanted hstart r' hr' hlt
      by_contra hstamp
      -- a reading at which the later row is stable and the earlier one is not
      obtain ⟨ops, hops, hpassed, hunsent⟩ :=
        @drained_at _ _ sub rows window start hrows (r'.insertedAt + window) saved
      have hcursor := hpassed r' hr' (by omega) (by omega)
      obtain ⟨text, -, hsent⟩ := (h ops hops).1 r hr hwanted hstart (by omega)
      exact hunsent r hr (by omega) text hsent
    · intro r hr hwanted hstart
      obtain ⟨ops, hops, hpassed, -⟩ :=
        @drained_at _ _ sub rows window start hrows (r.insertedAt + window) saved
      obtain ⟨text, htext, -⟩ := (h ops hops).1 r hr hwanted hstart (hpassed r hr hstart (by omega))
      rw [htext]
      rfl
  · rintro ⟨horder, hframed⟩ ops hops
    have hinit : Reconciled sub rows start { cursor := start, saved := saved } :=
      ⟨le_refl _, fun r _ _ hlt hle => absurd hlt (Int.not_lt.mpr hle),
        fun r _ _ hlt hle => absurd hlt (Int.not_lt.mpr (hle.trans hsaved))⟩
    have hrun := exec_inv_of_mem ops
      (fun s op hop hs => hs.next hrows horder hframed (hops op hop)) hinit
    refine ⟨hrun.saved, fun hlive bs hlen hbs r hr hwanted hstart => ?_⟩
    have hstep : ∀ s, ∀ b ∈ bs, Reconciled sub rows start s →
        Reconciled sub rows start (reconcileBatch sub rows window s b) := by
      intro s b hb hs
      refine hs.batch hrows horder hframed fun r hr _ => ?_
      rw [← (hbs b hb).2] at hr
      exact (mem_stableRows.mp hr).2.1
    have hend := exec_inv_of_mem bs hstep hrun
    have hall := (@stable_drained _ _ sub rows window rows bs _ hbs hlive
      ((length_filter_le _ _).trans hlen)).2 r hr
    exact hend.cursor r hr hwanted hstart hall

/-- Three rows stamped in order. -/
def stampedEvents : List (StreamRow String) :=
  [{ id := 1, insertedAt := 10, payload := "a" }, { id := 2, insertedAt := 10, payload := "b" },
   { id := 3, insertedAt := 14, payload := "c" }]

theorem reconcile_skips_nothing_stamped : SkipsNothing everything stampedEvents 2 0 0 :=
  (reconcile_skips_nothing_iff everything stampedEvents (by unfold Increasing; decide) 2 0 0
    (le_refl 0)).mpr ⟨by unfold StampsInOrder; decide, by unfold AllFramed; decide⟩

/-- The same, with the first row written by a replica whose clock is ahead. -/
def skewedEvents : List (StreamRow String) :=
  [{ id := 1, insertedAt := 20, payload := "a" }, { id := 2, insertedAt := 10, payload := "b" }]

/-- Two batches: at 15 the second row alone is stable, at 30 both are. -/
def skewedRun : List (ReconcileOp String) :=
  [.batch { now := 15 }, .restart, .batch { now := 30 }]

/-- **The cursor passes a row for good.**  Every row is visible all the time; the first one is
stable when the cursor is past it, and is never sent. -/
theorem skewed_stamp_skips_row :
    (∀ op ∈ skewedRun, InWindow skewedEvents 2 op) ∧
      exec (reconcileNext everything skewedEvents 2 0) { cursor := 0, saved := 0 } skewedRun =
        { cursor := 2, saved := 2, trace := [.sent (.event 2 "b")] } ∧
      ¬ SkipsNothing everything skewedEvents 2 0 0 := by
  have hwindow : ∀ op ∈ skewedRun, InWindow skewedEvents 2 op := by
    simp [skewedRun, InWindow]
  refine ⟨hwindow, by decide, fun h => ?_⟩
  obtain ⟨text, -, hsent⟩ := (h skewedRun hwindow).1 { id := 1, insertedAt := 20, payload := "a" }
    (by decide) rfl (by decide) (by decide)
  revert hsent
  have htrace : (exec (reconcileNext everything skewedEvents 2 0) { cursor := 0, saved := 0 }
      skewedRun).trace = [.sent (.event 2 "b")] := by decide
  rw [htrace]
  simp

end Maidan
