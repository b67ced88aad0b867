/-
# The retry budget of a host

The delivery workers ask one budget, in memory, before each attempt: a token bucket per host, spent
by retries alone.  A full table is cleared of idle buckets before a new host is taken up; where all
are busy, its retry is sent untracked.

`f64` and `Instant` are read as exact numbers, not negative; `-` stops at zero, as
`saturating_duration_since` does.  The clock is read before the lock is taken, so that the calls come
in the order of their times is an assumption.

What a host may be sent is a potential (`allowance`): a retry sent takes one from it, time gives at
most `refill_per_sec` a second, and clearing an idle bucket leaves it as it was.
-/
import Maidan.Lib.Run
import Maidan.Lib.Table
import Maidan.Lib.Text

namespace Maidan

open Relational Table Run

inductive Attempt
  | first
  | retry

inductive Admission
  | send
  | defer (delay : ℚ≥0)
deriving DecidableEq

/-- `Bucket`, with the host it is held under. -/
structure Bucket where
  host : String
  tokens : ℚ≥0
  refilledAt : ℚ≥0
  deferredUntil : ℚ≥0

/-- `RetryBudget`; its `hosts` are passed on from call to call. -/
structure RetryBudget where
  burst : ℚ≥0
  refillPerSec : ℚ≥0

abbrev Hosts := Table Bucket.host

/-- A call of `admit`, at the time its clock reads. -/
structure AdmitCall where
  now : ℚ≥0
  host : String
  attempt : Attempt := .retry

def AdmitCall.key (c : AdmitCall) : String := String.ofList (Text.toAsciiLowercase c.host.toList)

def AdmitCall.isRetry (c : AdmitCall) : Bool := c.attempt matches .retry

namespace RetryBudget

/-- `RETRY_BURST`. -/
def retryBurst : Nat := 10

/-- `RETRY_REFILL_PER_SEC`. -/
def retryRefillPerSec : Nat := 2

/-- `MIN_DEFER`, in seconds. -/
def minDefer : ℚ≥0 := 1

/-- `MAX_DEFER`, in seconds. -/
def maxDefer : ℚ≥0 := 60

/-- `MAX_TRACKED_HOSTS`. -/
def maxTrackedHosts : Nat := 10000

/-- `with_clock`. -/
def withClock (burst refillPerSec : Nat) : RetryBudget := ⟨burst, max refillPerSec 1⟩

/-- `RetryBudget::new`. -/
def new : RetryBudget := withClock retryBurst retryRefillPerSec

variable (b : RetryBudget) (k : Bucket) (hosts : Hosts) (c : AdmitCall) (key : String) (now : ℚ≥0)

/-- What the bucket would hold by `now`, if it could. -/
def filled : ℚ≥0 := k.tokens + (now - k.refilledAt) * b.refillPerSec

/-- `refill`. -/
def refill : Bucket := { k with tokens := min (b.filled k now) b.burst, refilledAt := now }

/-- `is_idle`. -/
def isIdle : Bool := k.deferredUntil ≤ now ∧ b.burst ≤ b.filled k now

/-- No bucket of `key`, and no room for one. -/
def full : Bool := (hosts.get? key).isNone && maxTrackedHosts ≤ hosts.rows.length

def makeRoom : Hosts :=
  if full hosts c.key then hosts.deleteWhere (b.isIdle · c.now) else hosts

/-- A token spent, or a slot one interval after the last one handed out. -/
def spend : Bucket × Admission :=
  if 1 ≤ k.tokens then ({ k with tokens := k.tokens - 1 }, .send)
  else
    let interval := 1 / b.refillPerSec
    let nextToken := now + (1 - k.tokens) / b.refillPerSec
    let slot := if now < k.deferredUntil then max (k.deferredUntil + interval) nextToken
      else nextToken
    let slot := min slot (now + maxDefer)
    ({ k with deferredUntil := slot }, .defer (max minDefer (min (slot - now) maxDefer)))

/-- The bucket of `c`, a full one where there is none. -/
def bucket : Bucket :=
  b.refill ((hosts.get? c.key).getD ⟨c.key, b.burst, c.now, c.now⟩) c.now

/-- `admit` of a retry, the table not full. -/
def admitTracked : Hosts × Admission :=
  let (k, admission) := b.spend (b.bucket hosts c) c.now
  (hosts.upsert { k with host := c.key } fun r => { k with host := r.host }, admission)

/-- `admit`. -/
def admitAttempt : Hosts × Admission :=
  match c.attempt with
  | .first => (hosts, .send)
  | .retry =>
    let hosts := b.makeRoom hosts c
    if full hosts c.key then (hosts, .send) else b.admitTracked hosts c

def next : Hosts := (b.admitAttempt hosts c).1

/-- A retry to the host of `key`, sent. -/
def sends (hosts : Hosts) (c : AdmitCall) : Bool :=
  c.isRetry ∧ c.key = key ∧ (b.admitAttempt hosts c).2 = .send

/-- A retry to it that found the table full of busy hosts. -/
def untracked (hosts : Hosts) (c : AdmitCall) : Bool :=
  c.isRetry ∧ c.key = key ∧ full (b.makeRoom hosts c) key

/-- How many calls of a run are such. -/
def tally (p : Hosts → AdmitCall → Bool) (calls : List AdmitCall) : Nat :=
  (outputs b.next p hosts calls).count true

/-- **What the host of `key` may be sent at `now`.** -/
def allowance : ℚ≥0 := (hosts.get? key).elim b.burst fun k => (b.refill k now).tokens

theorem allowance_le_burst : b.allowance hosts key now ≤ b.burst := by
  unfold allowance
  cases hosts.get? key with
  | none => exact le_rfl
  | some => exact min_le_right _ _

/-- Time gives at most the refill. -/
theorem allowance_later (start : ℚ≥0) : b.allowance hosts key now ≤
    b.allowance hosts key start + b.refillPerSec * (now - start) := by
  unfold allowance
  cases hosts.get? key with
  | none => exact le_self_add
  | some k =>
    have hfilled : b.filled k now ≤ b.filled k start + b.refillPerSec * (now - start) :=
      calc k.tokens + (now - k.refilledAt) * b.refillPerSec
        _ ≤ k.tokens + (now - start + (start - k.refilledAt)) * b.refillPerSec := by
          gcongr
          exact tsub_le_tsub_add_tsub
        _ = _ := by unfold filled; ring
    simp only [Option.elim_some, refill, ← min_add_add_right]
    exact min_le_min hfilled le_self_add

/-- **Clearing idle buckets goes unnoticed.** -/
theorem allowance_makeRoom :
    b.allowance (b.makeRoom hosts c) key c.now = b.allowance hosts key c.now := by
  unfold makeRoom
  split
  · unfold allowance
    rw [get?_deleteWhere]
    cases hosts.get? key with
    | none => rfl
    | some k =>
      cases hidle : b.isIdle k c.now with
      | true =>
        have hfull := (of_decide_eq_true hidle).2
        simp [Option.filter, hidle, refill, hfull]
      | false => simp [Option.filter, hidle]
  · rfl

theorem spend_spec : (b.spend k now).1.refilledAt = k.refilledAt ∧
    (b.spend k now).1.tokens + (decide ((b.spend k now).2 = .send)).toNat = k.tokens := by
  unfold spend
  split
  · rename_i hone
    simpa using tsub_add_cancel_of_le hone
  · simp

theorem bucket_tokens : (b.bucket hosts c).tokens = b.allowance hosts c.key c.now := by
  unfold bucket allowance
  cases hosts.get? c.key with
  | none => simp [refill, filled]
  | some => rfl

/-- A tracked retry is spent where it is sent. -/
theorem allowance_admitTracked : b.allowance (b.admitTracked hosts c).1 key c.now +
    (decide (c.key = key ∧ (b.admitTracked hosts c).2 = .send)).toNat ≤
      b.allowance hosts key c.now := by
  obtain ⟨hnow, htokens⟩ := spend_spec b (b.bucket hosts c) c.now
  rw [show (b.bucket hosts c).refilledAt = c.now from rfl] at hnow
  by_cases hkey : c.key = key
  · subst hkey
    rw [← bucket_tokens b hosts, ← htokens]
    unfold allowance admitTracked
    rw [get?_upsert]
    cases hosts.get? c.key <;> simp [refill, filled, hnow]
  · simp [allowance, admitTracked, get?_upsert, hkey]

/-- **A retry sent is spent**, unless it found no room. -/
theorem allowance_next : b.allowance (b.next hosts c) key c.now + (b.sends key hosts c).toNat ≤
    b.allowance hosts key c.now + (b.untracked key hosts c).toNat := by
  unfold next sends untracked admitAttempt AdmitCall.isRetry
  cases c.attempt with
  | first => simp
  | retry =>
    rw [← allowance_makeRoom b hosts]
    by_cases hfull : full (b.makeRoom hosts c) c.key
    · by_cases hkey : c.key = key
      · subst hkey
        simp [hfull]
      · simp [hfull, hkey]
    · simp only [hfull, true_and]
      exact (allowance_admitTracked ..).trans le_self_add

theorem tally_cons (p : Hosts → AdmitCall → Bool) (calls : List AdmitCall) :
    b.tally hosts p (c :: calls) = b.tally (b.next hosts c) p calls + (p hosts c).toNat := by
  cases h : p hosts c <;> simp [tally, outputs, h]

/-- The retries sent, against what the host may be sent at the start. -/
theorem tally_sends_le (start stop : ℚ≥0) (calls : List AdmitCall)
    (horder : (calls.map AdmitCall.now).Pairwise (· ≤ ·))
    (hwindow : ∀ c ∈ calls, start ≤ c.now ∧ c.now ≤ stop) :
    b.tally hosts (b.sends key) calls ≤ b.allowance hosts key start +
      b.refillPerSec * (stop - start) + b.tally hosts (b.untracked key) calls := by
  induction calls generalizing hosts start with
  | nil => simp [tally, outputs]
  | cons c calls ih =>
    obtain ⟨hc, hwindow⟩ := List.forall_mem_cons.mp hwindow
    obtain ⟨hle, horder⟩ := List.pairwise_cons.mp horder
    have hrest := ih (b.next hosts c) c.now horder fun d hd =>
      ⟨hle _ (List.mem_map_of_mem hd), (hwindow d hd).2⟩
    have hnext := allowance_next b hosts c key
    have hlater := allowance_later b hosts key c.now start
    -- the window is split at its first call
    rw [tally_cons, tally_cons, ← tsub_add_tsub_cancel hc.2 hc.1]
    simp only [← NNRat.coe_le_coe] at *
    push_cast at *
    linarith

/-- **The budget holds in every window**, whatever the table it starts from: the retries sent to one
host number at most the burst and what the window refills, those aside that found the table full of
busy hosts.  A first attempt is always sent, and leaves to later calls the table it found. -/
theorem retries_bounded (b : RetryBudget) (hosts : Hosts) (key : String) (start stop : ℚ≥0)
    (calls : List AdmitCall) (horder : (calls.map AdmitCall.now).Pairwise (· ≤ ·))
    (hwindow : ∀ c ∈ calls, start ≤ c.now ∧ c.now ≤ stop) :
    b.tally hosts (b.sends key) calls ≤
      b.burst + b.refillPerSec * (stop - start) + b.tally hosts (b.untracked key) calls ∧
    ∀ hosts c, c.isRetry = false → b.admitAttempt hosts c = (hosts, .send) := by
  refine ⟨(tally_sends_le b hosts key start stop calls horder hwindow).trans ?_, fun hosts c h => ?_⟩
  · gcongr
    exact allowance_le_burst ..
  · unfold AdmitCall.isRetry at h
    unfold admitAttempt
    cases hattempt : c.attempt with
    | first => rfl
    | retry => simp [hattempt] at h

/-- Three retries at once, a first attempt, and a retry a second later: the bound is reached. -/
theorem retries_bounded_burst :
    let b := withClock 2 1
    let calls := List.replicate 3 (AdmitCall.mk 0 "h" .retry) ++ [⟨0, "H", .first⟩, ⟨1, "H", .retry⟩]
    b.tally {} (b.sends "h") calls = 3 ∧ b.tally {} (b.untracked "h") calls = 0 ∧
      (3 : ℚ≥0) ≤ b.burst + b.refillPerSec * (1 - 0) + (0 : Nat) := by
  intro b calls
  have hsent : b.tally {} (b.sends "h") calls = 3 := by decide +kernel
  have hroom : b.tally {} (b.untracked "h") calls = 0 := by decide +kernel
  have hbound := (retries_bounded b {} "h" 0 1 calls (by decide +kernel) (by decide +kernel)).1
  rw [hsent, hroom] at hbound
  exact ⟨hsent, hroom, hbound⟩

end RetryBudget

end Maidan
