/-
# Does one bad row stop the outbox relay?

`run_once` claims the 64 lowest relayable rows and publishes each.  A row that fails is counted
(`record_attempt`) and, at the cap, quarantined, so that a poison row is not retried for ever.  But
a row can be bad in two places.  What `BusEnvelope::from_sealed_payload` refuses fails in the loop,
where failures are counted.  A data key that does not unwrap, or a payload that is not JSON, fails
already in `claim_pending`: after its claim has committed, for the whole batch, and before the loop
that would have counted it.  When the leases have run out the batch is the same again.

`relay_settles_iff`: the relay gets through exactly the outboxes without a row of the second kind.
One direction is a measure, the tries the relayable rows have left; the other is that such a row
stays as it is.
-/
import Maidan.Lib.Table
import Maidan.Types

namespace Maidan

open Relational List

/-! ## 1. The relay -/

/-- Where a row that cannot be opened fails: when the claim maps its rows, or in the loop. -/
inductive Fault
  | claim
  | relay
deriving DecidableEq, Repr

/-- A row of `maidan_outbox`, with what its event makes of it. -/
structure OutboxRow where
  id : Int
  fault : Option Fault := none
  attempts : Nat := 0
  claimedAt : Option Int := none
  published : Bool := false
  quarantined : Bool := false
deriving DecidableEq, Repr

abbrev RelayDb := Table OutboxRow.id

def OutboxRow.relayable (row : OutboxRow) : Bool := !row.published && !row.quarantined

/-- `CLAIM_LEASE_SECS`, as a duration. -/
def claimLease : Int := seconds 60

namespace RelayDb

/-- The rows `claim_pending` picks: `BATCH` of them, in the order of their ids. -/
def picked (db : RelayDb) (now : Int) : List OutboxRow :=
  ((db.rows.filter fun row => row.relayable ∧ ∀ c ∈ row.claimedAt, c < now - claimLease).insertionSort
    fun a b => a.id ≤ b.id).take 64

/-- What the loop makes of a row: published, or counted and at the cap quarantined. -/
def relayed (maxAttempts : Nat) (row : OutboxRow) : OutboxRow :=
  match row.fault with
  | none => { row with published := true }
  | some _ => { row with
      attempts := row.attempts + 1, claimedAt := none
      quarantined := row.quarantined || maxAttempts ≤ row.attempts + 1 }

/-- `run_once`, over a bus that takes every event.  A claim that fails has committed. -/
def runOnce (maxAttempts : Nat) (db : RelayDb) (now : Int) : RelayDb :=
  let batch := db.picked now
  let failed := batch.any fun row => row.fault = some .claim
  db.updateWhere (fun row => row.id ∈ batch.map OutboxRow.id)
    (fun row =>
      let row := { row with claimedAt := some now }
      if failed then row else relayed maxAttempts row)
    (by intro row; simp only [relayed]; split <;> [rfl; (split <;> rfl)])

/-- The outbox after the first `n` ticks. -/
def after (maxAttempts : Nat) (db : RelayDb) (times : Nat → Int) : Nat → RelayDb
  | 0 => db
  | n + 1 => (after maxAttempts db times n).runOnce maxAttempts (times n)

/-- Every row that can be opened is published, every other quarantined. -/
def Settled (db : RelayDb) : Prop :=
  ∀ row ∈ db.rows, if row.fault = none then row.published = true else row.quarantined = true

/-! ## 2. One tick -/

variable {db : RelayDb} {now : Int} {maxAttempts : Nat} {row : OutboxRow} {times : Nat → Int}

theorem mem_picked (h : row ∈ db.picked now) : row ∈ db.rows ∧ row.relayable = true := by
  have hmem := mem_filter.mp ((mem_insertionSort _).mp (mem_of_mem_take h))
  exact ⟨hmem.1, (of_decide_eq_true hmem.2).1⟩

/-- The leases are over. -/
def Lapsed (db : RelayDb) (now : Int) : Prop :=
  ∀ row ∈ db.rows, ∀ c ∈ row.claimedAt, c < now - claimLease

theorem exists_picked (hlapsed : db.Lapsed now) (h : row ∈ db.rows)
    (hrow : row.relayable = true) : ∃ r, r ∈ db.picked now := by
  have hmem : row ∈ (db.rows.filter fun row =>
      row.relayable ∧ ∀ c ∈ row.claimedAt, c < now - claimLease).insertionSort
        fun a b => a.id ≤ b.id :=
    (mem_insertionSort _).mpr (mem_filter.mpr ⟨h, decide_eq_true ⟨hrow, hlapsed row h⟩⟩)
  refine exists_mem_of_ne_nil _ fun hnil => ?_
  rcases take_eq_nil_iff.mp hnil with h64 | hnil
  · cases h64
  · rw [hnil] at hmem
    cases hmem

/-- What holds before every tick when no row fails in the claim. -/
structure Sound (db : RelayDb) (now : Int) : Prop where
  opens : ∀ row ∈ db.rows, row.fault ≠ some .claim
  fair : ∀ row ∈ db.rows, if row.fault = none then row.quarantined = false else row.published = false
  lapsed : db.Lapsed now

/-- Without a row that fails in the claim, a tick relays the rows it picks. -/
theorem Sound.rows_runOnce (h : db.Sound now) :
    (db.runOnce maxAttempts now).rows = db.rows.map fun row =>
      if row.id ∈ (db.picked now).map OutboxRow.id then
        relayed maxAttempts { row with claimedAt := some now } else row := by
  have hopens : (db.picked now).any (fun row => row.fault = some .claim) = false := by
    simp only [any_eq_false, decide_eq_true_eq]
    exact fun row hrow => h.opens row (mem_picked hrow).1
  simp [runOnce, Table.updateWhere, hopens]

theorem Sound.runOnce (h : db.Sound now) (hlater : now + claimLease < later) :
    (db.runOnce maxAttempts now).Sound later := by
  have hrow : ∀ row ∈ (db.runOnce maxAttempts now).rows, ∃ r ∈ db.rows, row = r ∨
      row = relayed maxAttempts { r with claimedAt := some now } := by
    intro row hrow
    rw [h.rows_runOnce] at hrow
    obtain ⟨r, hr, rfl⟩ := mem_map.mp hrow
    refine ⟨r, hr, ?_⟩
    split
    · exact .inr rfl
    · exact .inl rfl
  refine ⟨fun row hmem => ?_, fun row hmem => ?_, fun row hmem c hc => ?_⟩ <;>
    obtain ⟨r, hr, rfl | rfl⟩ := hrow row hmem
  · exact h.opens row hr
  · have := h.opens r hr
    unfold relayed
    split <;> exact this
  · exact h.fair row hr
  · have := h.fair r hr
    unfold relayed
    grind
  · have := h.lapsed row hr c hc
    unfold claimLease seconds at *
    omega
  · unfold relayed at hc
    split at hc <;> cases hc
    omega

/-- The tries a row has left. -/
def weight (maxAttempts : Nat) (row : OutboxRow) : Nat :=
  if row.relayable then maxAttempts - row.attempts + 1 else 0

theorem weight_relayed (row : OutboxRow) (now : Int) :
    weight maxAttempts (relayed maxAttempts { row with claimedAt := some now }) ≤
        weight maxAttempts row ∧
      (row.relayable = true → weight maxAttempts (relayed maxAttempts { row with claimedAt := some now })
        < weight maxAttempts row) := by
  unfold weight relayed OutboxRow.relayable
  grind

/-- **A tick uses up a try**, as long as some row is relayable. -/
theorem Sound.weight_lt (h : db.Sound now) (hmem : row ∈ db.rows) (hrow : row.relayable = true) :
    ((db.runOnce maxAttempts now).rows.map (weight maxAttempts)).sum <
      (db.rows.map (weight maxAttempts)).sum := by
  obtain ⟨r, hr⟩ := exists_picked h.lapsed hmem hrow
  rw [h.rows_runOnce, map_map]
  refine sum_lt_sum _ _ (fun x _ => ?_) ⟨r, (mem_picked hr).1, ?_⟩
  · simp only [Function.comp_apply]
    split
    · exact (weight_relayed x now).1
    · exact le_rfl
  · simp only [Function.comp_apply]
    rw [if_pos (mem_map_of_mem hr)]
    exact (weight_relayed r now).2 (mem_picked hr).2

/-! ## 3. Tick after tick -/

theorem Sound.settles (hspaced : ∀ n, times n + claimLease < times (n + 1)) (n : Nat)
    (h : (db.after maxAttempts times n).Sound (times n)) :
    ∃ m, (db.after maxAttempts times m).Settled := by
  by_cases hleft : ∃ row ∈ (db.after maxAttempts times n).rows, row.relayable = true
  · obtain ⟨row, hmem, hrow⟩ := hleft
    have hlt := @Sound.weight_lt _ _ maxAttempts _ h hmem hrow
    exact Sound.settles hspaced (n + 1) (h.runOnce (hspaced n))
  · refine ⟨n, fun row hmem => ?_⟩
    have hfair := h.fair row hmem
    have hrow : row.relayable ≠ true := fun hrow => hleft ⟨row, hmem, hrow⟩
    unfold OutboxRow.relayable at hrow
    grind
termination_by ((db.after maxAttempts times n).rows.map (weight maxAttempts)).sum
decreasing_by exact hlt

/-- **A row that fails in the claim stays as it is.** -/
theorem stuck (h : row ∈ db.rows) (hfault : row.fault = some .claim)
    (hrow : row.quarantined = false) (n : Nat) :
    ∃ r ∈ (db.after maxAttempts times n).rows, r.fault = some .claim ∧ r.quarantined = false := by
  induction n with
  | zero => exact ⟨row, h, hfault, hrow⟩
  | succ n ih =>
    obtain ⟨r, hr, hfault, hopen⟩ := ih
    simp only [after, runOnce, Table.mem_updateWhere, exists_exists_and_eq_and]
    refine ⟨r, hr, ?_⟩
    split
    · -- picked, so the claim fails for the batch
      rename_i hpicked
      obtain ⟨x, hx, hid⟩ := mem_map.mp (of_decide_eq_true hpicked)
      have hxr := Table.eq_of_key_eq (mem_picked hx).1 hr hid
      have hany : ((db.after maxAttempts times n).picked (times n)).any
          (fun row => row.fault = some .claim) = true :=
        any_eq_true.mpr ⟨x, hx, by simp [hxr, hfault]⟩
      simp [hany, hfault, hopen]
    · exact ⟨hfault, hopen⟩

/-- **The relay gets through exactly the outboxes without a row that fails in the claim.** -/
theorem relay_settles_iff (db : RelayDb) (maxAttempts : Nat) (times : Nat → Int)
    (hpending : ∀ row ∈ db.rows, row.relayable = true) (hlapsed : db.Lapsed (times 0))
    (hspaced : ∀ n, times n + claimLease < times (n + 1)) :
    (∃ n, (db.after maxAttempts times n).Settled) ↔ ∀ row ∈ db.rows, row.fault ≠ some .claim := by
  constructor
  · rintro ⟨n, hsettled⟩ row hmem hfault
    have hopen := hpending row hmem
    unfold OutboxRow.relayable at hopen
    obtain ⟨r, hr, hbad, hnot⟩ := stuck hmem hfault (by grind) n
    have := hsettled r hr
    grind
  · intro hopens
    refine Sound.settles hspaced 0 ⟨hopens, fun row hmem => ?_, hlapsed⟩
    have hopen := hpending row hmem
    unfold OutboxRow.relayable at hopen
    grind

/-- A row the loop refuses, before one that is fine. -/
def refusedFirst : RelayDb := { rows := [{ id := 1, fault := some .relay }, { id := 2 }] }

theorem relay_settles_iff_refusedFirst :
    ∃ n, (refusedFirst.after 16 (fun n => seconds (61 * n)) n).Settled := by
  refine (relay_settles_iff refusedFirst 16 _ (by decide) ?_ ?_).mpr (by decide)
  · unfold Lapsed refusedFirst
    simp
  · intro n
    unfold claimLease seconds
    push_cast
    omega

/-- A row whose data key does not unwrap, before one that is fine. -/
def unopenedFirst : RelayDb := { rows := [{ id := 1, fault := some .claim }, { id := 2 }] }

/-- **The bad row stops the relay**: however many ticks, it is never quarantined. -/
theorem relay_stuck_unopenedFirst :
    ¬∃ n, (unopenedFirst.after 16 (fun n => seconds (61 * n)) n).Settled := by
  rintro ⟨n, hsettled⟩
  obtain ⟨r, hr, hbad, hnot⟩ := @stuck unopenedFirst 16 { id := 1, fault := some .claim }
    (fun n => seconds (61 * n)) (by decide) rfl rfl n
  have := hsettled r hr
  grind

end RelayDb

end Maidan
