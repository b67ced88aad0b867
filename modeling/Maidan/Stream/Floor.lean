/-
# The notify floor

The Postgres listener (`notify_floor.rs`) hears of an event by a NOTIFY that carries its id, and
NOTIFYs get lost.  `NotifyFloor` keeps a mark: a pointer above it first drains the ids in between
from the log, a reconnect drains everything above it.  The mark moves only past what was read, so
a failed read is made up for later.

One thing the mark cannot show is an id that was TAKEN before the mark passed it and commits
afterwards.  Its own NOTIFY is then all there is, and when that is lost, or its read fails, the
event stays out.  `notify_floor_heals` says that this is the only way to miss one, over every
interleaving of transactions, deliveries, losses, disconnects and failing reads.

* §1 is the drain, page by page, and what it leaves behind (`drain_spec`);
* §2 is `on_pointer` and `on_reconnect`, with ONE statement for both (`Advance`);
* §3 is the listener among the transactions, and the invariant: a committed event is published,
  above the mark, or late and its NOTIFY under way or lost.
-/
import Maidan.Lib.Ordered
import Maidan.Lib.Run

namespace Maidan

open Ordered Run List

/-! ## 1. The drain -/

/-- `BACKFILL_BATCH`. -/
def backfillBatch : Nat := 256

/-- `Drained`. -/
structure Drained where
  reached : Int
  complete : Bool

/-- The ids of a page, published one by one.  The flag says that the upper bound was met. -/
def drainPage (toExclusive : Option Int) : List Int → Int → List Int → Int × List Int × Bool
  | [], cursor, published => (cursor, published, false)
  | e :: page, cursor, published =>
    if toExclusive.any fun upper => decide (upper ≤ e) then (cursor, published, true)
    else drainPage toExclusive page e (published ++ [e])

/-- `drain` from `cursor`, `fails n` being the outcome of its `n`-th read. -/
def drain (log : List Int) (toExclusive : Option Int) (fails : Nat → Bool) :
    Nat → Nat → Int → List Int → Drained × List Int
  | 0, _, cursor, published => ({ reached := cursor, complete := false }, published)
  | fuel + 1, n, cursor, published =>
    if fails n then ({ reached := cursor, complete := false }, published)
    else
      let batch := (after id cursor log).take backfillBatch
      match drainPage toExclusive batch cursor published with
      | (cursor, published, true) => ({ reached := cursor, complete := true }, published)
      | (cursor, published, false) =>
        if backfillBatch ≤ batch.length then drain log toExclusive fails fuel (n + 1) cursor published
        else ({ reached := cursor, complete := true }, published)

/-- **What has been published from a mark on.**  Ids of the log, nothing left out up to `reached`. -/
structure Advance (log : List Int) (mark : Int) (published : List Int) (reached : Int)
    (published' : List Int) : Prop where
  grew : published ⊆ published'
  only : ∀ e ∈ published', e ∈ published ∨ e ∈ log
  forward : mark ≤ reached
  filled : ∀ e ∈ log, mark < e → e ≤ reached → e ∈ published'

theorem Advance.refl (log : List Int) (mark : Int) (published : List Int) :
    Advance log mark published mark published where
  grew := List.Subset.refl _
  only _ h := .inl h
  forward := le_refl _
  filled _ _ hlt hle := absurd hlt (Int.not_lt.mpr hle)

theorem Advance.trans (h : Advance log a pa b pb) (h' : Advance log b pb c pc) :
    Advance log a pa c pc where
  grew _ he := h'.grew (h.grew he)
  only e he := (h'.only e he).elim (h.only e) .inr
  forward := h.forward.trans h'.forward
  filled e he hlt hle := by
    by_cases hb : e ≤ b
    · exact h'.grew (h.filled e he hlt hb)
    · exact h'.filled e he (Int.not_le.mp hb) hle

theorem Advance.next (hlog : Increasing id log) (hafter : after id mark log = first :: rest)
    (published : List Int) : Advance log mark published first (published ++ [first]) := by
  obtain ⟨hin, hlt, hbetween, -⟩ := hlog.first_after hafter
  refine ⟨subset_append_left _ _, fun e he => ?_, Int.le_of_lt hlt, fun e he hlt' hle => ?_⟩
  · rcases mem_append.mp he with he | he
    · exact .inl he
    · rw [mem_singleton.mp he]
      exact .inr hin
  · rcases hbetween e he hle with hle' | rfl
    · exact absurd hlt' (Int.not_lt.mpr hle')
    · simp

/-- **A page.**  It is the first ids above the cursor; where the bound was not met, what is left
above the cursor is what the page left. -/
theorem drainPage_spec (hlog : Increasing id log) :
    ∀ {page rest : List Int} {cursor : Int} {published : List Int},
      after id cursor log = page ++ rest → (∀ upper ∈ toExclusive, cursor < upper) →
      ∀ {cursor' : Int} {published' : List Int} {met : Bool},
        drainPage toExclusive page cursor published = (cursor', published', met) →
        Advance log cursor published cursor' published' ∧ (∀ upper ∈ toExclusive, cursor' < upper) ∧
          (met = false → after id cursor' log = rest) ∧
          (met = true → ∀ e ∈ log, cursor' < e → ∃ upper ∈ toExclusive, upper ≤ e) := by
  intro page
  induction page with
  | nil =>
    intro rest cursor published hafter hto cursor' published' met h
    cases h
    exact ⟨.refl _ _ _, hto, fun _ => hafter, fun h => nomatch h⟩
  | cons first page ih =>
    intro rest cursor published hafter hto cursor' published' met h
    obtain ⟨hin, hlt, hbetween, htail⟩ := hlog.first_after hafter
    unfold drainPage at h
    split at h
    · rename_i hmet
      cases h
      obtain ⟨upper, hmem, hle⟩ := (Option.any_eq_true _ _).mp hmet
      refine ⟨.refl _ _ _, hto, fun h => (nomatch h), fun _ e he hlt' => ⟨upper, hmem, ?_⟩⟩
      have hle := of_decide_eq_true hle
      by_contra hbelow
      rcases hbetween e he (by simp only [id_eq]; omega) with hle' | rfl
      · exact absurd hlt' (Int.not_lt.mpr hle')
      · exact hbelow hle
    · rename_i hnot
      have hto' : ∀ upper ∈ toExclusive, first < upper := by
        intro upper hmem
        by_contra hge
        refine hnot ((Option.any_eq_true _ _).mpr ⟨upper, hmem, decide_eq_true ?_⟩)
        omega
      obtain ⟨hadv, hto'', hrest, hbound⟩ := ih htail hto' h
      exact ⟨(Advance.next hlog hafter published).trans hadv, hto'', hrest, hbound⟩

/-- **A drain**: it stays below the bound; when it is complete, everything above where it stopped
is at the bound or beyond; and it is complete when no read fails. -/
theorem drain_spec (hlog : Increasing id log) :
    ∀ {fuel n : Nat} {cursor : Int} {published : List Int},
      (after id cursor log).length < fuel → (∀ upper ∈ toExclusive, cursor < upper) →
      ∀ {d : Drained} {published' : List Int},
        drain log toExclusive fails fuel n cursor published = (d, published') →
        Advance log cursor published d.reached published' ∧
          (∀ upper ∈ toExclusive, d.reached < upper) ∧
          (d.complete = true → ∀ e ∈ log, d.reached < e → ∃ upper ∈ toExclusive, upper ≤ e) ∧
          ((∀ k, fails k = false) → d.complete = true) := by
  intro fuel
  induction fuel with
  | zero =>
    omega
  | succ fuel ih =>
    intro n cursor published hfuel hto d published' h
    unfold drain at h
    split at h
    · rename_i hfail
      cases h
      refine ⟨.refl _ _ _, hto, fun h => (nomatch h), fun hnone => ?_⟩
      rw [hnone n] at hfail
      cases hfail
    · dsimp only at h
      have hsplit := (take_append_drop backfillBatch (after id cursor log)).symm
      cases hpage : drainPage toExclusive ((after id cursor log).take backfillBatch) cursor
        published with
      | mk cursor1 result =>
        obtain ⟨published1, met⟩ := result
        obtain ⟨hadv, hto1, hrest, hbound⟩ := drainPage_spec hlog hsplit hto hpage
        rw [hpage] at h
        cases met with
        | true =>
          cases h
          exact ⟨hadv, hto1, fun _ => hbound rfl, fun _ => rfl⟩
        | false =>
          have hleft := hrest rfl
          dsimp only at h
          split at h
          · rename_i hfull
            -- a full page leaves less to drain
            have hless : (after id cursor1 log).length < fuel := by
              rw [hleft, length_drop]
              rw [length_take, Nat.min_def] at hfull
              unfold backfillBatch at hfull ⊢
              split at hfull <;> omega
            obtain ⟨hadv', hto', hcomplete, hnone⟩ := ih hless hto1 h
            exact ⟨hadv.trans hadv', hto', hcomplete, hnone⟩
          · rename_i hshort
            cases h
            -- a short page leaves nothing
            have hnil : (after id cursor log).drop backfillBatch = [] := by
              rw [length_take, Nat.min_def] at hshort
              refine drop_eq_nil_of_le ?_
              split at hshort <;> omega
            refine ⟨hadv, hto1, fun _ e he hlt => ?_, fun _ => rfl⟩
            have hmem : e ∈ after id cursor1 log := mem_filter.mpr ⟨he, decide_eq_true hlt⟩
            rw [hleft, hnil] at hmem
            cases hmem

/-! ## 2. The floor -/

/-- `NotifyFloor`, with what it has published. -/
structure NotifyFloor where
  lastSeen : Int
  published : List Int := []

/-- A drain from the mark, with a page for every row at the worst. -/
def NotifyFloor.drain (floor : NotifyFloor) (log : List Int) (toExclusive : Option Int)
    (fails : Nat → Bool) : Drained × List Int :=
  Maidan.drain log toExclusive fails (log.length + 1) 0 floor.lastSeen floor.published

/-- The first half of `on_pointer`: everything up to `covered` was delivered or has its own NOTIFY
to come. -/
def NotifyFloor.cover (floor : NotifyFloor) (log : List Int) (fails : Nat → Bool) (logId : Int) :
    Int × List Int :=
  if floor.lastSeen + 1 < logId then
    match floor.drain log (some logId) fails with
    | (drained, published) =>
      (if drained.complete then logId - 1 else drained.reached, published)
  else (floor.lastSeen, floor.published)

/-- `on_pointer`: `fails` are the outcomes of the drain's reads, `getFails` that of the pointer's
own. -/
def NotifyFloor.onPointer (floor : NotifyFloor) (log : List Int) (fails : Nat → Bool)
    (getFails : Bool) (logId : Int) : NotifyFloor :=
  match floor.cover log fails logId with
  | (covered, published) =>
    let delivered := !getFails && decide (logId ∈ log)
    let reached := if delivered ∧ logId - 1 ≤ covered then max covered logId else covered
    { lastSeen := max floor.lastSeen reached
      published := if delivered then published ++ [logId] else published }

/-- `on_reconnect`. -/
def NotifyFloor.onReconnect (floor : NotifyFloor) (log : List Int) (fails : Nat → Bool) :
    NotifyFloor :=
  let (drained, published) := floor.drain log none fails
  { lastSeen := drained.reached, published := published }

/-- What a step of the floor does. -/
abbrev NotifyFloor.Advances (log : List Int) (floor floor' : NotifyFloor) : Prop :=
  Advance log floor.lastSeen floor.published floor'.lastSeen floor'.published

section Floor

variable {log : List Int} {floor : NotifyFloor} {fails : Nat → Bool}

section

variable (hlog : Increasing id log)
include hlog

theorem NotifyFloor.drain_advance {toExclusive : Option Int}
    (hto : ∀ upper ∈ toExclusive, floor.lastSeen < upper) {d : Drained} {published : List Int}
    (h : floor.drain log toExclusive fails = (d, published)) :
    Advance log floor.lastSeen floor.published d.reached published ∧
      (∀ upper ∈ toExclusive, d.reached < upper) ∧
      (d.complete = true → ∀ e ∈ log, d.reached < e → ∃ upper ∈ toExclusive, upper ≤ e) ∧
      ((∀ k, fails k = false) → d.complete = true) :=
  drain_spec hlog (Nat.lt_succ_of_le (length_filter_le _ _)) hto h

/-- **What lies below the pointer.**  `covered` leaves nothing of the log behind, and stays below
the pointer or at the mark. -/
theorem NotifyFloor.cover_spec {published : List Int}
    (h : floor.cover log fails logId = (covered, published)) :
    Advance log floor.lastSeen floor.published covered published ∧
      covered ≤ max floor.lastSeen (logId - 1) := by
  unfold NotifyFloor.cover at h
  split at h
  · cases hdrain : floor.drain log (some logId) fails with
    | mk d =>
      have hto : ∀ upper ∈ some logId, floor.lastSeen < upper := by
        rintro upper ⟨⟩
        omega
      obtain ⟨hadv, hbelow, hcomplete, -⟩ := NotifyFloor.drain_advance hlog hto hdrain
      have hreached := hbelow logId rfl
      simp only [hdrain, Prod.mk.injEq] at h
      obtain ⟨rfl, rfl⟩ := h
      split
      · rename_i hdone
        refine ⟨⟨hadv.grew, hadv.only, by omega, fun e he hlt hle => ?_⟩, le_max_right _ _⟩
        by_cases hin : e ≤ d.reached
        · exact hadv.filled e he hlt hin
        · obtain ⟨upper, hupper, hge⟩ := hcomplete hdone e he (Int.not_le.mp hin)
          cases hupper
          omega
      · exact ⟨hadv, by omega⟩
  · cases h
    exact ⟨.refl _ _ _, le_max_left _ _⟩

/-- **A pointer.**  Its own event is published unless its read fails. -/
theorem NotifyFloor.onPointer_spec {getFails : Bool} {logId : Int} :
    floor.Advances log (floor.onPointer log fails getFails logId) ∧
      (getFails = false → logId ∈ log →
        logId ∈ (floor.onPointer log fails getFails logId).published) := by
  unfold NotifyFloor.onPointer
  cases hcover : floor.cover log fails logId with
  | mk covered =>
    obtain ⟨hadv, hle⟩ := NotifyFloor.cover_spec hlog hcover
    have hforward := hadv.forward
    cases hdelivered : (!getFails && decide (logId ∈ log)) with
    | false =>
      simp only [Bool.false_eq_true, false_and, if_false, max_eq_right hforward]
      refine ⟨hadv, fun hget hin => ?_⟩
      simp [hget, hin] at hdelivered
    | true =>
      have hin : logId ∈ log := by
        simp only [Bool.and_eq_true, decide_eq_true_eq] at hdelivered
        exact hdelivered.2
      refine ⟨⟨fun e he => ?_, fun e he => ?_, le_max_left _ _, fun e he hlt hup => ?_⟩, by simp⟩
      · simp [hadv.grew he]
      · simp only [if_true, mem_append, mem_singleton] at he
        rcases he with he | rfl
        · exact hadv.only e he
        · exact .inr hin
      · simp only [if_true, true_and] at hup ⊢
        by_cases hold : e ≤ covered
        · exact mem_append_left _ (hadv.filled e he hlt hold)
        · -- the mark went past `covered`, so only to the pointer itself
          have heq : e = logId := by
            split at hup <;> omega
          simp [heq]

/-- **A reconnect.** -/
theorem NotifyFloor.onReconnect_spec : floor.Advances log (floor.onReconnect log fails) ∧
      ((∀ k, fails k = false) → ∀ e ∈ log, floor.lastSeen < e →
        e ∈ (floor.onReconnect log fails).published) := by
  obtain ⟨hadv, -, hcomplete, hnone⟩ :=
    @NotifyFloor.drain_advance log floor fails hlog none (by simp) _ _ rfl
  refine ⟨hadv, fun hfails e he hlt => ?_⟩
  by_cases hin : e ≤ (floor.drain log none fails).1.reached
  · exact hadv.filled e he hlt hin
  · obtain ⟨upper, hupper, -⟩ := hcomplete (hnone hfails) e he (Int.not_le.mp hin)
    cases hupper

end

end Floor

/-! ## 3. The listener among the transactions -/

inductive TxStatus
  | running
  | committed
  | rolledBack
deriving DecidableEq, Repr

/-- **The database and one listener.**  The ids `1 … taken` have been drawn, one per transaction.
`queue` are the NOTIFYs under way.  Three fields are a record: the ids that were at or below the
mark when they committed, those whose NOTIFY was lost, those whose own read failed. -/
structure Listener where
  taken : Nat
  status : Int → TxStatus
  floor : NotifyFloor
  connected : Bool := true
  queue : List Int := []
  late : List Int := []
  lost : List Int := []
  unread : List Int := []

/-- The committed events, in the order of their ids. -/
def Listener.log (s : Listener) : List Int :=
  ((List.range s.taken).map fun n : Nat => (n : Int) + 1).filter fun e => s.status e == .committed

variable (s : Listener)

/-- `EventLog::head`: the newest id, 0 for an empty log. -/
def Listener.head : Int := s.log.getLast?.getD 0

/-- `NotifyFloor::start`, after LISTEN: some NOTIFYs may already be under way. -/
def Listener.start (taken : Nat) (status : Int → TxStatus) (queue : List Int) : Listener :=
  let s : Listener :=
    { taken := taken, status := status, floor := { lastSeen := 0 }, queue := queue }
  { s with floor := { lastSeen := s.head } }

inductive ListenerOp
  | begin
  | commit (e : Int)
  | rollBack (e : Int)
  | deliver (fails : Nat → Bool) (getFails : Bool)
  | lose (e : Int)
  | disconnect
  | reconnect (fails : Nat → Bool)

/-- The transaction of this id is under way. -/
def Listener.running (s : Listener) (e : Int) : Bool :=
  decide (0 < e ∧ e ≤ s.taken) && s.status e == .running

def Listener.setStatus (e : Int) (status : TxStatus) : Listener :=
  { s with status := fun e' => if e' = e then status else s.status e' }

/-- A commit.  Its NOTIFY reaches the queue of a connected listener, and nobody otherwise. -/
def Listener.commit (e : Int) : Listener :=
  { s.setStatus e .committed with
    queue := if s.connected then s.queue ++ [e] else s.queue
    lost := if s.connected then s.lost else s.lost ++ [e]
    late := if e ≤ s.floor.lastSeen then s.late ++ [e] else s.late }

/-- The next NOTIFY of the queue. -/
def Listener.deliver (fails : Nat → Bool) (getFails : Bool) : Listener :=
  match s.queue with
  | [] => s
  | logId :: queue =>
    { s with
      queue := queue
      floor := s.floor.onPointer s.log fails getFails logId
      unread := if getFails then s.unread ++ [logId] else s.unread }

/-- What is under way is gone with the connection. -/
def Listener.drop : Listener := { s with queue := [], lost := s.lost ++ s.queue }

def listenerNext : ListenerOp → Listener
  | .begin => { s.setStatus (s.taken + 1) .running with taken := s.taken + 1 }
  | .commit e => if s.running e then s.commit e else s
  | .rollBack e => if s.running e then s.setStatus e .rolledBack else s
  | .deliver fails getFails => s.deliver fails getFails
  | .lose e =>
    if e ∈ s.queue then { s with queue := s.queue.erase e, lost := s.lost ++ [e] } else s
  | .disconnect => { s.drop with connected := false }
  | .reconnect fails =>
    { s.drop with connected := true, floor := s.floor.onReconnect s.log fails }

variable {e : Int}

theorem Listener.mem_log {s : Listener} :
    e ∈ s.log ↔ (0 < e ∧ e ≤ s.taken) ∧ s.status e = .committed := by
  unfold Listener.log
  rw [mem_filter, mem_map, beq_iff_eq]
  refine and_congr_left fun _ => ?_
  constructor
  · rintro ⟨n, hn, rfl⟩
    rw [mem_range] at hn
    omega
  · rintro ⟨hpos, hle⟩
    exact ⟨(e - 1).toNat, mem_range.mpr (by omega), by omega⟩

theorem Listener.log_increasing : Increasing id s.log := by
  refine Increasing.filter ?_ _
  refine pairwise_map.mpr (pairwise_lt_range.imp fun h => ?_)
  simp only [id_eq]
  omega

theorem Listener.le_head {s : Listener} (he : e ∈ s.log) : e ≤ s.head := by
  unfold Listener.head
  cases hlast : s.log.getLast? with
  | none =>
    rw [getLast?_eq_none_iff.mp hlast] at he
    cases he
  | some last =>
    obtain ⟨front, hfront⟩ := getLast?_eq_some_iff.mp hlast
    have hinc := s.log_increasing
    rw [hfront] at he hinc
    rcases mem_append.mp he with he | he
    · exact Int.le_of_lt ((pairwise_append.mp hinc).2.2 e he last (by simp))
    · rw [mem_singleton.mp he]
      rfl

/-- **Nothing is missed without a trace.**  A committed event above the start is published, or above
the mark, or late with its NOTIFY under way, lost, or its read failed. -/
structure Healing (start : Int) (s : Listener) : Prop where
  published : ∀ e ∈ s.floor.published, e ∈ s.log
  queued : ∀ e ∈ s.queue, e ∈ s.log
  accounted : ∀ e ∈ s.log, start < e → e ∈ s.floor.published ∨ s.floor.lastSeen < e ∨
    e ∈ s.late ∧ (e ∈ s.queue ∨ e ∈ s.lost ∨ e ∈ s.unread)

section Steps

variable {start : Int} {s : Listener}

theorem Healing.of_log (h : Healing start s) (hlog : ∀ e, e ∈ s'.log ↔ e ∈ s.log)
    (hfloor : s'.floor = s.floor) (hqueue : s'.queue = s.queue) (hlate : s'.late = s.late)
    (hlost : s'.lost = s.lost) (hunread : s'.unread = s.unread) : Healing start s' := by
  refine ⟨fun e he => ?_, fun e he => ?_, fun e he hstart => ?_⟩
  · rw [hfloor] at he
    exact (hlog e).mpr (h.published e he)
  · rw [hqueue] at he
    exact (hlog e).mpr (h.queued e he)
  · rw [hfloor, hqueue, hlate, hlost, hunread]
    exact h.accounted e ((hlog e).mp he) hstart

theorem Healing.begin (h : Healing start s) : Healing start (listenerNext s .begin) := by
  refine h.of_log (fun e => ?_) rfl rfl rfl rfl rfl
  rw [Listener.mem_log, Listener.mem_log]
  simp only [listenerNext, Listener.setStatus]
  split
  · constructor
    · rintro ⟨-, ⟨⟩⟩
    · omega
  · refine and_congr_left fun _ => ?_
    omega

theorem Healing.rollBack (h : Healing start s) (hrunning : s.running e = true) :
    Healing start (s.setStatus e .rolledBack) := by
  refine h.of_log (fun e' => ?_) rfl rfl rfl rfl rfl
  rw [Listener.mem_log, Listener.mem_log]
  simp only [Listener.setStatus]
  split
  · rename_i heq
    simp only [Listener.running, Bool.and_eq_true, beq_iff_eq] at hrunning
    simp [heq, hrunning.2]
  · rfl

theorem Listener.mem_log_commit (hrunning : s.running e = true) :
    e' ∈ (s.commit e).log ↔ e' ∈ s.log ∨ e' = e := by
  simp only [Listener.running, Bool.and_eq_true, decide_eq_true_eq] at hrunning
  rw [Listener.mem_log, Listener.mem_log]
  simp only [Listener.commit, Listener.setStatus]
  by_cases heq : e' = e
  · simp [heq, hrunning.1]
  · simp [heq]

section

variable (h : Healing start s)
include h

/-- **A commit.**  Above the mark the event is still to be drained; below it the NOTIFY is all there
is, and it is under way or lost. -/
theorem Healing.commit (hrunning : s.running e = true) : Healing start (s.commit e) := by
  have hlate : s.late ⊆ (s.commit e).late ∧ (e ≤ s.floor.lastSeen → e ∈ (s.commit e).late) := by
    unfold Listener.commit
    dsimp only
    split
    · exact ⟨subset_append_left _ _, by simp⟩
    · rename_i hmark
      exact ⟨List.Subset.refl _, fun hle => absurd hle hmark⟩
  have hnotified : s.queue ⊆ (s.commit e).queue ∧ s.lost ⊆ (s.commit e).lost ∧
      (∀ e' ∈ (s.commit e).queue, e' ∈ s.queue ∨ e' = e) ∧
      (e ∈ (s.commit e).queue ∨ e ∈ (s.commit e).lost) := by
    unfold Listener.commit
    cases s.connected with
    | true => simp
    | false => simpa using fun e' he' => .inl he'
  obtain ⟨hqueue, hlost, honly, hsomewhere⟩ := hnotified
  refine ⟨fun e' he' => ?_, fun e' he' => ?_, fun e' he' hstart => ?_⟩
  · exact (Listener.mem_log_commit hrunning).mpr (.inl (h.published e' he'))
  · exact (Listener.mem_log_commit hrunning).mpr ((honly e' he').imp_left (h.queued e'))
  · rcases (Listener.mem_log_commit hrunning).mp he' with he' | rfl
    · refine (h.accounted e' he' hstart).imp_right (Or.imp_right ?_)
      rintro ⟨hlate', hwhere⟩
      exact ⟨hlate.1 hlate', hwhere.imp (@hqueue e') (Or.imp_left (@hlost e'))⟩
    · by_cases hmark : e' ≤ s.floor.lastSeen
      · exact .inr (.inr ⟨hlate.2 hmark, hsomewhere.imp_right .inl⟩)
      · exact .inr (.inl (Int.not_le.mp hmark))

/-- **A step of the floor**, with the record of what it could not read. -/
theorem Healing.advance (hlog : ∀ e, e ∈ s'.log ↔ e ∈ s.log)
    (hadv : s.floor.Advances s.log s'.floor) (hqueue : s'.queue ⊆ s.queue)
    (hlate : s'.late = s.late) (hlost : s.lost ⊆ s'.lost) (hunread : s.unread ⊆ s'.unread)
    (hgone : ∀ e ∈ s.queue, e ∈ s'.floor.published ∨ e ∈ s'.queue ∨ e ∈ s'.lost ∨ e ∈ s'.unread) :
    Healing start s' := by
  refine ⟨fun e he => ?_, fun e he => (hlog e).mpr (h.queued e (hqueue he)), fun e he hstart => ?_⟩
  · exact (hlog e).mpr ((hadv.only e he).elim (h.published e) fun he => he)
  · have he := (hlog e).mp he
    rcases h.accounted e he hstart with hpub | habove | ⟨hlate', hwhere⟩
    · exact .inl (hadv.grew hpub)
    · by_cases hmark : e ≤ s'.floor.lastSeen
      · exact .inl (hadv.filled e he habove hmark)
      · exact .inr (.inl (Int.not_le.mp hmark))
    · rcases hwhere with hq | hl | hu
      · exact (hgone e hq).imp_right fun hwhere => .inr ⟨hlate ▸ hlate', hwhere⟩
      · exact .inr (.inr ⟨hlate ▸ hlate', .inr (.inl (hlost hl))⟩)
      · exact .inr (.inr ⟨hlate ▸ hlate', .inr (.inr (hunread hu))⟩)

theorem Healing.deliver (fails : Nat → Bool) (getFails : Bool) :
    Healing start (s.deliver fails getFails) ∧
      s.floor.lastSeen ≤ (s.deliver fails getFails).floor.lastSeen := by
  unfold Listener.deliver
  cases hqueue : s.queue with
  | nil => exact ⟨h, le_refl _⟩
  | cons logId =>
    obtain ⟨hadv, hown⟩ := @NotifyFloor.onPointer_spec s.log s.floor fails s.log_increasing getFails
      logId
    have hin : logId ∈ s.log := h.queued logId (by simp [hqueue])
    refine ⟨h.advance (fun e => Iff.rfl) hadv ?_ rfl (List.Subset.refl _) ?_ ?_, hadv.forward⟩
    · rw [hqueue]
      exact subset_cons_self _ _
    · dsimp only
      split
      · exact subset_append_left _ _
      · exact List.Subset.refl _
    · intro e he
      rw [hqueue] at he
      rcases mem_cons.mp he with rfl | he
      · cases getFails with
        | false => exact .inl (hown rfl hin)
        | true => simp
      · exact .inr (.inl he)

theorem Healing.next (op : ListenerOp) : Healing start (listenerNext s op) ∧
      s.floor.lastSeen ≤ (listenerNext s op).floor.lastSeen := by
  cases op with
  | begin => exact ⟨h.begin, le_refl _⟩
  | commit =>
    unfold listenerNext
    dsimp only
    split
    · rename_i hrunning
      exact ⟨h.commit hrunning, le_refl _⟩
    · exact ⟨h, le_refl _⟩
  | rollBack =>
    unfold listenerNext
    dsimp only
    split
    · rename_i hrunning
      exact ⟨h.rollBack hrunning, le_refl _⟩
    · exact ⟨h, le_refl _⟩
  | deliver fails getFails => exact h.deliver fails getFails
  | lose e =>
    unfold listenerNext
    dsimp only
    split
    · refine ⟨h.advance (fun e => Iff.rfl) (.refl _ _ _) (erase_subset) rfl
        (subset_append_left _ _) (List.Subset.refl _) fun e' he' => ?_, le_refl _⟩
      by_cases heq : e' = e
      · simp [heq]
      · exact .inr (.inl ((mem_erase_of_ne heq).mpr he'))
    · exact ⟨h, le_refl _⟩
  | disconnect =>
    refine ⟨h.advance (fun e => Iff.rfl) (.refl _ _ _) (nil_subset _) rfl
      (subset_append_left _ _) (List.Subset.refl _) fun e he => ?_, le_refl _⟩
    simp [listenerNext, Listener.drop, he]
  | reconnect fails =>
    obtain ⟨hadv, -⟩ := @NotifyFloor.onReconnect_spec s.log s.floor fails s.log_increasing
    refine ⟨h.advance (fun e => Iff.rfl) hadv (nil_subset _) rfl
      (subset_append_left _ _) (List.Subset.refl _) fun e he => ?_, hadv.forward⟩
    simp [listenerNext, Listener.drop, he]

end

end Steps

theorem Healing.start (taken : Nat) (status : Int → TxStatus) (queue : List Int)
    (hqueue : ∀ e ∈ queue, e ∈ (Listener.start taken status queue).log) :
    Healing (Listener.start taken status queue).floor.lastSeen
      (Listener.start taken status queue) where
  published e he := by cases he
  queued := hqueue
  accounted e he hlt := absurd (Listener.le_head he) (Int.not_le.mpr hlt)

/-- **The notify floor heals every gap it claims to.**  In every run the floor publishes only
committed events and its mark never decreases; and after a reconnect in which no read fails, every
committed event above the starting mark has been published, except one that was at or below the
mark when it committed and whose NOTIFY was lost or whose own read failed. -/
theorem notify_floor_heals (taken : Nat) (status : Int → TxStatus) (queue : List Int)
    (hqueue : ∀ e ∈ queue, e ∈ (Listener.start taken status queue).log) (ops : List ListenerOp) :
    let begun := Listener.start taken status queue
    let s := exec listenerNext begun ops
    (∀ e ∈ s.floor.published, e ∈ s.log) ∧ (∀ pre post, ops = pre ++ post →
        (exec listenerNext begun pre).floor.lastSeen ≤ s.floor.lastSeen) ∧
      ∀ fails, (∀ k, fails k = false) → ∀ e ∈ (listenerNext s (.reconnect fails)).log,
        begun.floor.lastSeen < e → e ∈ (listenerNext s (.reconnect fails)).floor.published ∨
          e ∈ (listenerNext s (.reconnect fails)).late ∧
            (e ∈ (listenerNext s (.reconnect fails)).lost ∨
              e ∈ (listenerNext s (.reconnect fails)).unread) := by
  intro begun s
  have hrun : ∀ ops, Healing begun.floor.lastSeen (exec listenerNext begun ops) := fun ops =>
    exec_inv (fun s op hs => (hs.next op).1) ops (Healing.start taken status queue hqueue)
  refine ⟨(hrun ops).published, ?_, ?_⟩
  · rintro pre post rfl
    have hmono : ∀ post : List ListenerOp, (exec listenerNext begun pre).floor.lastSeen ≤
        (exec listenerNext begun (pre ++ post)).floor.lastSeen := by
      intro post
      induction post using List.reverseRecOn with
      | nil => simp
      | append_singleton post op ih =>
        rw [← append_assoc, exec_append]
        exact ih.trans ((hrun (pre ++ post)).next op).2
    exact hmono post
  · intro fails hfails e he hlt
    obtain ⟨-, hall⟩ := @NotifyFloor.onReconnect_spec s.log s.floor fails s.log_increasing
    rcases (hrun ops).accounted e he hlt with hpub | habove | ⟨hlate, hwhere⟩
    · have hadv := (@NotifyFloor.onReconnect_spec s.log s.floor fails s.log_increasing).1
      exact .inl (hadv.grew hpub)
    · exact .inl (hall hfails e he habove)
    · refine .inr ⟨hlate, ?_⟩
      rcases hwhere with hq | hl | hu
      · exact .inl (mem_append_right _ hq)
      · exact .inl (mem_append_left _ hl)
      · exact .inr hu

/-- Ids 1 and 2 are drawn; 2 commits and is heard of first, 1 commits below the mark. -/
def lateCommit : List ListenerOp :=
  [.begin, .begin, .commit 2, .deliver (fun _ => false) false, .commit 1,
   .deliver (fun _ => false) false]

/-- The listener after it, reconnected. -/
def healedLate : Listener :=
  listenerNext (exec listenerNext (Listener.start 0 (fun _ => .running) []) lateCommit)
    (.reconnect fun _ => false)

/-- With its NOTIFY delivered, the late event is published with the other. -/
theorem notify_floor_heals_late :
    healedLate.log = [1, 2] ∧ ∀ e ∈ healedLate.log, e ∈ healedLate.floor.published := by
  refine ⟨by decide, fun e he => ?_⟩
  have hmissed : healedLate.lost = [] ∧ healedLate.unread = [] := by decide
  rcases (notify_floor_heals 0 (fun _ => .running) [] (by simp) lateCommit).2.2 (fun _ => false)
    (fun _ => rfl) e he (Listener.mem_log.mp he).1.1 with hpub | ⟨-, hlost | hunread⟩
  · exact hpub
  · exact absurd (hmissed.1 ▸ hlost) not_mem_nil
  · exact absurd (hmissed.2 ▸ hunread) not_mem_nil

end Maidan
