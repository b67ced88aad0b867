/-
# Accounted usage

`report_accounted_usage` (`sqlite/budget.rs`) with the ledger it reserves its row in
(`sqlite/usage_ledger.rs`): one transaction that records a report under the caller's own key, adds
it to the thread's counters, and stops the run when the budget is spent.

`INSERT OR IGNORE` is the whole of the idempotency: it reserves the key, or says that the key is
taken.  Two things follow that `reportAccountedUsage_cases` puts side by side.  A report whose key is
taken writes nothing, whatever it carries; and a report that is counted found its key free, and
leaves a finished row under it.

The appended events and the dead-letter row are left out; the ids of the events, which the ledger
row keeps, are drawn.
-/
import Maidan.Claim.Steps
import Maidan.Usage.Rollup

namespace Maidan

open Machine Relational Run Text

/-! ## 1. Counters -/

/-- The counters of a budget row that a report moves. -/
inductive Counter
  | tokens
  | usdMicros
  | turns
  | inputTokens
  | outputTokens
  | cacheReadTokens
  | cacheWrite5mTokens
  | cacheWrite1hTokens

def BudgetRow.used (bu : BudgetRow) : Counter → Int
  | .tokens => bu.usedTokens
  | .usdMicros => bu.usedUsdMicros
  | .turns => bu.usedTurns
  | .inputTokens => bu.usedInputTokens
  | .outputTokens => bu.usedOutputTokens
  | .cacheReadTokens => bu.usedCacheReadTokens
  | .cacheWrite5mTokens => bu.usedCacheWrite5mTokens
  | .cacheWrite1hTokens => bu.usedCacheWrite1hTokens

/-- What a report adds to each.  Tokens are fresh tokens: a cache read is none. -/
def NewUsageLedgerEntry.adds (new : NewUsageLedgerEntry) : Counter → Int
  | .tokens => new.tokens.input.toInt + new.tokens.output.toInt + new.tokens.cacheWrite5m.toInt +
      new.tokens.cacheWrite1h.toInt
  | .usdMicros => new.usdMicros.toInt
  | .turns => new.turns.toInt
  | .inputTokens => new.tokens.input.toInt
  | .outputTokens => new.tokens.output.toInt
  | .cacheReadTokens => new.tokens.cacheRead.toInt
  | .cacheWrite5mTokens => new.tokens.cacheWrite5m.toInt
  | .cacheWrite1hTokens => new.tokens.cacheWrite1h.toInt

/-- A thread's counter; 0 when it has no budget row. -/
def used (db : Db) (thread : ThreadId) (c : Counter) : Int :=
  ((db.threadBudgets.get? thread).map (·.used c)).getD 0

variable {db db' : Db} {row entry : UsageRow} {new : NewUsageLedgerEntry}

theorem used_congr (h : db'.threadBudgets = db.threadBudgets) (thread : ThreadId) (c : Counter) :
    used db' thread c = used db thread c := by
  unfold used
  rw [h]

/-- **The wall charge moves no other counter.** -/
theorem used_chargeWall (db : Db) (thread id : ThreadId) (worked : Option Int) (c : Counter) :
    used (db.chargeWall thread worked) id c = used db id c := by
  unfold used Db.chargeWall
  cases worked with
  | none => rfl
  | some =>
    simp only [Table.get?_upsert]
    by_cases h : thread = id
    · subst h
      cases db.threadBudgets.get? thread <;> cases c <;> simp [BudgetRow.used]
    · simp [h]

/-! ## 2. The ledger -/

/-- SQLite's `length` of a text, which counts up to the first `NUL`. -/
def sqlLength (l : List Char) : Nat := (l.takeWhile (· != '\x00')).length

/-- `CHECK (length(trim(model)) BETWEEN 1 AND 255)`.  The ledger's other checks ask for what
`validate` has asked for. -/
def modelChecks (model : String) : Bool :=
  let n := sqlLength (sqlTrim model.toList)
  decide (1 ≤ n) && decide (n ≤ 255)

/-- `reserve_in_tx`: `INSERT OR IGNORE`.  It ignores a key that is taken and a failed check, and
`none` says so; a foreign key it does not ignore. -/
def reserveInTx (db : Db) (new : NewUsageLedgerEntry) (workspaceId : WorkspaceId)
    (acceptedAt : Int) : Except StoreError (Option Db) :=
  let row := new.reserved workspaceId acceptedAt
  if (db.usageLedger.get? new.usageReportId).isSome || !modelChecks row.model then .ok none
  else if (db.members.get? new.reporter).isNone then
    .error (.database "FOREIGN KEY constraint failed")
  else .ok (some { db with usageLedger := db.usageLedger.insertIgnore row })

/-- `standard_price`. -/
def UsageRow.standardPrice (row : UsageRow) : Option PriceSnapshot := do
  let input ← row.standardInputPrice
  let output ← row.standardOutputPrice
  let cacheRead ← row.standardCacheReadPrice
  let cacheWrite5m ← row.standardCacheWrite5mPrice
  let cacheWrite1h ← row.standardCacheWrite1hPrice
  some ⟨input, output, cacheRead, cacheWrite5m, cacheWrite1h⟩

/-- The evidence `row_to_entry` reads back. -/
def UsageRow.evidence (row : UsageRow) : UsageEvidence :=
  { provider := row.provider, serviceTier := row.serviceTier, batch := row.batch
    harness := row.harness, harnessVersion := row.harnessVersion, effort := row.effort
    cacheKey := row.cacheKey, cacheMissReason := row.cacheMissReason
    packSha256 := row.packSha256.getD [], standardPrice := row.standardPrice }

/-- `row_to_entry`, as far as it can refuse: a row that was reserved and never finished. -/
def rowToEntry (row : UsageRow) : Except StoreError UsageRow :=
  if row.budget.isNone then .error (.conflict "usage report is still pending")
  else if row.stopped.isNone then .error (.conflict "usage report outcome is still pending")
  else if row.usageEventId.isNone then .error (.conflict "usage report event is still pending")
  else .ok row

/-- `UsageLedgerEntry::matches_request`. -/
def UsageRow.matchesRequest (row : UsageRow) (new : NewUsageLedgerEntry) : Bool :=
  row.usageReportId == new.usageReportId && row.threadId == new.threadId &&
    row.reporterId == new.reporter && row.claimLeaseId == new.claimLeaseId &&
    row.model == trimStr new.model && row.tokens == new.tokens &&
    row.usdMicros == new.usdMicros && row.price == new.priceSnapshot && row.turns == new.turns &&
    row.evidence == new.evidence

/-- The `SET` of `finish_in_tx`. -/
def UsageRow.finish (row : UsageRow) (budget : BudgetRow) (reason : Option String)
    (usageEventId : Int) (claimFailedEventId : Option Int) : UsageRow :=
  { row with
    budget := some budget, stopped := some reason.isSome, reason, usageEventId := some usageEventId,
    claimFailedEventId }

theorem UsageRow.finish_id (budget : BudgetRow) (reason : Option String) (usageEventId : Int)
    (claimFailedEventId : Option Int) (row : UsageRow) :
    (row.finish budget reason usageEventId claimFailedEventId).usageReportId =
      row.usageReportId := rfl

/-- `finish_in_tx`. -/
def finishInTx (db : Db) (usageReportId : UsageReportId) (budget : BudgetRow)
    (reason : Option String) (usageEventId : Int) (claimFailedEventId : Option Int) : Db :=
  { db with
    usageLedger := db.usageLedger.update usageReportId
      (·.finish budget reason usageEventId claimFailedEventId)
      (UsageRow.finish_id budget reason usageEventId claimFailedEventId) }

/-! ## 3. The budget -/

/-- The `DO UPDATE SET` of `add_accounted_usage_in_tx`, and from an empty row its `VALUES`. -/
def BudgetRow.addUsage (bu : BudgetRow) (fresh : Int64) (new : NewUsageLedgerEntry) : BudgetRow :=
  { bu with
    usedTokens := bu.usedTokens + fresh.toInt
    usedUsdMicros := bu.usedUsdMicros + new.usdMicros.toInt
    usedTurns := bu.usedTurns + new.turns.toInt
    usedInputTokens := bu.usedInputTokens + new.tokens.input.toInt
    usedOutputTokens := bu.usedOutputTokens + new.tokens.output.toInt
    usedCacheReadTokens := bu.usedCacheReadTokens + new.tokens.cacheRead.toInt
    usedCacheWrite5mTokens := bu.usedCacheWrite5mTokens + new.tokens.cacheWrite5m.toInt
    usedCacheWrite1hTokens := bu.usedCacheWrite1hTokens + new.tokens.cacheWrite1h.toInt }

theorem BudgetRow.addUsage_threadId (fresh : Int64) (new : NewUsageLedgerEntry) (bu : BudgetRow) :
    (bu.addUsage fresh new).threadId = bu.threadId := rfl

/-- Every counter can be read back as an `i64`. -/
def BudgetRow.readable (bu : BudgetRow) : Bool :=
  [Counter.tokens, .usdMicros, .turns, .inputTokens, .outputTokens, .cacheReadTokens,
    .cacheWrite5mTokens, .cacheWrite1hTokens].all fun c => decide (InI64 (bu.used c))

/-- `add_accounted_usage_in_tx`: the totals, and the row it returns.  A counter that leaves `i64`
comes back as a floating-point number, and reading it ends the call before the commit. -/
def addAccountedUsageInTx (db : Db) (new : NewUsageLedgerEntry) :
    Except StoreError (Db × BudgetRow) := do
  let fresh ← new.tokens.fresh.mapError .invalidInput
  let row := ((db.threadBudgets.get? new.threadId).getD { threadId := new.threadId }).addUsage
    fresh new
  if row.readable then
    .ok ({ db with
      threadBudgets := db.threadBudgets.upsert
        (BudgetRow.addUsage { threadId := new.threadId } fresh new) (·.addUsage fresh new)
        (BudgetRow.addUsage_threadId fresh new) }, row)
  else .error (.database "a counter left the 64-bit integers")

/-- `keep_stopped_wall`: a stop records the wall time it measured. -/
def keepStoppedWall (db : Db) (thread : ThreadId) (budget : BudgetRow) (wall : Option Int) :
    Db × BudgetRow :=
  match (wall.map (max 0)).filter fun secs => decide (0 < secs) with
  | none => (db, budget)
  | some secs =>
    let db := db.chargeWall thread (some secs)
    (db, (db.threadBudgets.get? thread).getD budget)

/-- `BudgetReason::as_str`. -/
def BudgetReason.asStr : BudgetReason → String
  | .tokens => "tokens"
  | .usd => "usd"
  | .turns => "turns"
  | .wall => "wall"

/-! ## 4. The transaction -/

/-- What one call draws: the clock, the database's clock, and the ids of the events it appends. -/
structure ReportDraws where
  now : Int
  acceptedAt : Int
  usageEventId : Int
  claimFailedEventId : Int

/-- What a spent budget stops: the wall time it measured is kept and the claim is cleared. -/
def stopInTx (db : Db) (thread : ThreadId) (budget : BudgetRow) (wall : Option Int) :
    Option BudgetReason → Db × BudgetRow
  | none => (db, budget)
  | some _ =>
    let kept := keepStoppedWall db thread budget wall
    (kept.1.setThread thread ThreadRow.clearClaim ThreadRow.clearClaim_id, kept.2)

/-- The part after the reservation and the holder check. -/
def countReport (db : Db) (new : NewUsageLedgerEntry) (thread : ThreadRow) (row : UsageRow)
    (draws : ReportDraws) : Except StoreError (Db × UsageRow) := do
  let counted ← addAccountedUsageInTx db new
  let wall := thread.workStartedAt.map fun started => numSeconds (draws.now - started)
  let stopping := counted.2.exceeded wall
  let stopped := stopInTx counted.1 new.threadId counted.2 wall stopping
  let reason := stopping.map BudgetReason.asStr
  let failed := stopping.map fun _ => draws.claimFailedEventId
  .ok (finishInTx stopped.1 new.usageReportId stopped.2 reason draws.usageEventId failed,
    row.finish stopped.2 reason draws.usageEventId failed)

/-- The part for a key that was not reserved. -/
def retryReport (db : Db) (new : NewUsageLedgerEntry) (workspaceId : WorkspaceId) :
    Except StoreError (Db × UsageRow) :=
  match db.usageLedger.get? new.usageReportId with
  | none => .error (.conflict "usage report id was not readable")
  | some row => do
    let existing ← rowToEntry row
    if existing.workspaceId ≠ workspaceId ∨ !existing.matchesRequest new then
      .error (.conflict "usage_report_id was already used for different content")
    else .ok (db, existing)

/-- The thread and the room it is in, of a thread that is not tombstoned. -/
def reportContext (db : Db) (thread : ThreadId) : Option (ThreadRow × WorkspaceId) :=
  match db.threads.get? thread with
  | none => none
  | some row => if row.tombstonedAt.isSome then none else (db.workspaceOf row).map (row, ·)

/-- `report_accounted_usage`: the state it commits and the entry it returns. -/
def reportAccountedUsage (db : Db) (new : NewUsageLedgerEntry) (draws : ReportDraws) :
    Except StoreError (Db × UsageRow) := do
  new.validate.mapError .invalidInput
  match reportContext db new.threadId with
  | none => .error .notFound
  | some (thread, workspaceId) =>
    match ← reserveInTx db new workspaceId draws.acceptedAt with
    | none => retryReport db new workspaceId
    | some db =>
      if thread.assigneeId ≠ some new.reporter ∨ thread.claimLeaseId ≠ some new.claimLeaseId then
        .error (.conflict "usage reporter is not the active holder of this claim lease")
      else countReport db new thread (new.reserved workspaceId draws.acceptedAt) draws

/-! ## 5. What is read back -/

/-- **The row remembers the evidence**: the columns are read back as they were written. -/
theorem evidence_reserved (new : NewUsageLedgerEntry) (workspaceId : WorkspaceId)
    (acceptedAt : Int) : (new.reserved workspaceId acceptedAt).evidence = new.evidence := by
  have hpacks : (new.reserved workspaceId acceptedAt).packSha256.getD [] =
      new.evidence.packSha256 := by
    unfold NewUsageLedgerEntry.reserved
    cases new.evidence.packSha256 <;> rfl
  have hstandard : (new.reserved workspaceId acceptedAt).standardPrice =
      new.evidence.standardPrice := by
    unfold NewUsageLedgerEntry.reserved UsageRow.standardPrice
    cases new.evidence.standardPrice <;> rfl
  unfold UsageRow.evidence
  rw [hpacks, hstandard]
  rfl

theorem matchesRequest_iff : row.matchesRequest new = true ↔
      row.usageReportId = new.usageReportId ∧ row.threadId = new.threadId ∧
        row.reporterId = new.reporter ∧ row.claimLeaseId = new.claimLeaseId ∧
        row.model = trimStr new.model ∧ row.tokens = new.tokens ∧ row.usdMicros = new.usdMicros ∧
        row.price = new.priceSnapshot ∧ row.turns = new.turns ∧ row.evidence = new.evidence := by
  simp only [UsageRow.matchesRequest, Bool.and_eq_true, beq_iff_eq, and_assoc]

/-- **A finished row matches the report it was reserved for.** -/
theorem matchesRequest_finish (new : NewUsageLedgerEntry) (workspaceId : WorkspaceId)
    (acceptedAt : Int) (budget : BudgetRow) (reason : Option String) (usageEventId : Int)
    (claimFailedEventId : Option Int) :
    ((new.reserved workspaceId acceptedAt).finish budget reason usageEventId
      claimFailedEventId).matchesRequest new = true :=
  matchesRequest_iff.mpr ⟨rfl, rfl, rfl, rfl, rfl, rfl, rfl, rfl, rfl,
    evidence_reserved new workspaceId acceptedAt⟩

theorem rowToEntry_finish (row : UsageRow) (budget : BudgetRow) (reason : Option String)
    (usageEventId : Int) (claimFailedEventId : Option Int) :
    rowToEntry (row.finish budget reason usageEventId claimFailedEventId) =
      .ok (row.finish budget reason usageEventId claimFailedEventId) := rfl

theorem rowToEntry_eq_ok (h : rowToEntry row = .ok entry) : entry = row := by
  unfold rowToEntry at h
  split at h
  · cases h
  split at h
  · cases h
  split at h
  · cases h
  cases h
  rfl

/-! ## 6. The inversion -/

theorem used_addUsage (hfresh : fresh.toInt = new.adds .tokens) (bu : BudgetRow) (c : Counter) :
    (bu.addUsage fresh new).used c = bu.used c + new.adds c := by
  cases c with
  | tokens => exact congrArg (bu.usedTokens + ·) hfresh
  | usdMicros | turns | inputTokens | outputTokens | cacheReadTokens | cacheWrite5mTokens
  | cacheWrite1hTokens => rfl

theorem used_empty (thread : ThreadId) (c : Counter) :
    BudgetRow.used { threadId := thread } c = 0 := by
  cases c <;> rfl

/-- **The totals move by what the report adds.** -/
theorem addAccountedUsageInTx_spec (h : addAccountedUsageInTx db new = .ok (db', budget)) :
    db' = { db with threadBudgets := db'.threadBudgets } ∧ ∀ thread c, used db' thread c =
        used db thread c + if thread = new.threadId then new.adds c else 0 := by
  obtain ⟨fresh, hfresh, h⟩ := bind_ok h
  have htokens : fresh.toInt = new.adds .tokens := by
    cases hf : new.tokens.fresh with
    | error => rw [hf] at hfresh; cases hfresh
    | ok =>
      rw [hf] at hfresh
      cases hfresh
      rw [(TokenUsage.fresh_eq_ok.mp hf).2]
      simp only [TokenUsage.freshCounts, ints_cons, ints_nil, List.sum_cons, List.sum_nil,
        NewUsageLedgerEntry.adds]
      omega
  dsimp only at h
  split at h
  · cases h
    refine ⟨rfl, fun thread c => ?_⟩
    unfold used
    rw [Table.get?_upsert]
    by_cases ht : new.threadId = thread
    · subst ht
      cases db.threadBudgets.get? new.threadId with
      | none =>
        simp only [BudgetRow.addUsage_threadId, if_true, Option.elim_none, map_some,
          Option.getD_some, Option.map_none, Option.getD_none, used_addUsage htokens, used_empty]
      | some =>
        simp only [BudgetRow.addUsage_threadId, if_true, Option.elim_some, map_some,
          Option.getD_some, used_addUsage htokens]
    · simp [BudgetRow.addUsage_threadId, ht, Ne.symm ht]
  · cases h

theorem keepStoppedWall_cases (db : Db) (thread : ThreadId) (budget : BudgetRow)
    (wall : Option Int) :
    ∃ worked, (keepStoppedWall db thread budget wall).1 = db.chargeWall thread worked := by
  unfold keepStoppedWall
  split
  · exact ⟨none, rfl⟩
  · rename_i secs _
    exact ⟨some secs, rfl⟩

/-- **A stop** clears the thread's claim and moves no counter but the wall's. -/
theorem stopInTx_spec (db : Db) (thread : ThreadId) (budget : BudgetRow) (wall : Option Int)
    (stopping : Option BudgetReason) :
    (stopInTx db thread budget wall stopping).1 =
        { db with
          threads := (stopInTx db thread budget wall stopping).1.threads
          threadBudgets := (stopInTx db thread budget wall stopping).1.threadBudgets } ∧
      ((stopInTx db thread budget wall stopping).1.threads = db.threads ∨
        (stopInTx db thread budget wall stopping).1.threads =
          db.threads.update thread ThreadRow.clearClaim ThreadRow.clearClaim_id) ∧
      ∀ id c, used (stopInTx db thread budget wall stopping).1 id c = used db id c := by
  cases stopping with
  | none => exact ⟨rfl, .inl rfl, fun _ _ => rfl⟩
  | some =>
    obtain ⟨worked, hkept⟩ := keepStoppedWall_cases db thread budget wall
    unfold stopInTx
    dsimp only
    rw [hkept]
    exact ⟨rfl, .inr rfl, fun id c => used_chargeWall db thread id worked c⟩

/-- **What an answered report did.**  It repeated a report the ledger holds and wrote nothing, or
it found its key free, was counted, and left a finished row that matches it. -/
inductive Reported (db : Db) (new : NewUsageLedgerEntry) (db' : Db) (entry : UsageRow) : Prop
  | retried {thread : ThreadRow} {workspaceId : WorkspaceId}
      (hcontext : reportContext db new.threadId = some (thread, workspaceId))
      (hget : db.usageLedger.get? new.usageReportId = some entry)
      (hmatch : entry.matchesRequest new = true) (hpayer : entry.workspaceId = workspaceId)
      (hentry : rowToEntry entry = .ok entry) (hdb : db' = db)
  | counted {thread : ThreadRow} {workspaceId : WorkspaceId}
      (hcontext : reportContext db new.threadId = some (thread, workspaceId))
      (hfree : db.usageLedger.get? new.usageReportId = none)
      (hget : ∀ id, db'.usageLedger.get? id =
        if id = new.usageReportId then some entry else db.usageLedger.get? id)
      (hmatch : entry.matchesRequest new = true) (hpayer : entry.workspaceId = workspaceId)
      (hentry : rowToEntry entry = .ok entry)
      (hused : ∀ id c, used db' id c = used db id c + if id = new.threadId then new.adds c else 0)
      (hthreads : db'.threads = db.threads ∨ db'.threads =
        db.threads.update new.threadId ThreadRow.clearClaim ThreadRow.clearClaim_id)
      (hframe : db' = { db with
        threads := db'.threads, threadBudgets := db'.threadBudgets,
        usageLedger := db'.usageLedger })

theorem retryReport_spec (h : retryReport db new workspaceId = .ok (db', entry)) :
    db.usageLedger.get? new.usageReportId = some entry ∧ entry.workspaceId = workspaceId ∧
      entry.matchesRequest new = true ∧ rowToEntry entry = .ok entry ∧ db' = db := by
  unfold retryReport at h
  split at h
  · cases h
  rename_i row hget
  obtain ⟨existing, hentry, hout⟩ := bind_ok h
  obtain rfl := rowToEntry_eq_ok hentry
  split at hout
  · cases hout
  rename_i hmatch
  cases hout
  simp only [ne_eq, Bool.not_eq_true', not_or, not_not, Bool.not_eq_false] at hmatch
  exact ⟨hget, hmatch.1, hmatch.2, hentry, rfl⟩

theorem reserveInTx_eq_some (h : reserveInTx db new workspaceId acceptedAt = .ok (some db')) :
    db.usageLedger.get? new.usageReportId = none ∧
      db' = { db with
        usageLedger := db.usageLedger.insertIgnore (new.reserved workspaceId acceptedAt) } := by
  unfold reserveInTx at h
  dsimp only at h
  split at h
  · cases h
  rename_i hfree
  split at h
  · cases h
  cases h
  simp only [Bool.or_eq_true, not_or, Option.not_isSome_iff_eq_none] at hfree
  exact ⟨hfree.1, rfl⟩

theorem countReport_spec (h : countReport db new thread row draws = .ok (db', entry)) :
    (∃ budget reason failed, entry = row.finish budget reason draws.usageEventId failed ∧
      ∀ id, db'.usageLedger.get? id =
        if id = new.usageReportId then
          (db.usageLedger.get? id).map (·.finish budget reason draws.usageEventId failed)
        else db.usageLedger.get? id) ∧
    (∀ id c, used db' id c = used db id c + if id = new.threadId then new.adds c else 0) ∧
    (db'.threads = db.threads ∨ db'.threads =
      db.threads.update new.threadId ThreadRow.clearClaim ThreadRow.clearClaim_id) ∧
    db' = { db with
      threads := db'.threads, threadBudgets := db'.threadBudgets,
      usageLedger := db'.usageLedger } := by
  obtain ⟨⟨db1, budget⟩, hadd, h⟩ := bind_ok h
  obtain ⟨hframe1, hused1⟩ := addAccountedUsageInTx_spec hadd
  dsimp only at h
  generalize thread.workStartedAt.map (fun started => numSeconds (draws.now - started)) = wall at h
  generalize budget.exceeded wall = stopping at h
  obtain ⟨hframe2, hthreads2, hused2⟩ := stopInTx_spec db1 new.threadId budget wall stopping
  generalize stopInTx db1 new.threadId budget wall stopping = stopped at h hframe2 hthreads2 hused2
  obtain ⟨db2, kept⟩ := stopped
  dsimp only at h hframe2 hthreads2 hused2
  cases h
  have hthreads1 : db1.threads = db.threads := by rw [hframe1]
  have hledger : db2.usageLedger = db.usageLedger := by rw [hframe2, hframe1]
  refine ⟨⟨kept, _, _, rfl, fun id => ?_⟩, fun id c => ?_, ?_, ?_⟩
  · unfold finishInTx
    rw [Table.get?_update, hledger]
  · rw [← hused1, ← hused2]
    rfl
  · rw [← hthreads1]
    exact hthreads2
  · unfold finishInTx
    rw [hframe2, hframe1]

/-- **The inversion of an answered report.** -/
theorem reportAccountedUsage_cases (h : reportAccountedUsage db new draws = .ok (db', entry)) :
    Reported db new db' entry := by
  obtain ⟨_, _, h⟩ := bind_ok h
  split at h
  · cases h
  rename_i thread workspaceId hcontext
  obtain ⟨reserved, hreserve, h⟩ := bind_ok h
  cases reserved with
  | none =>
    obtain ⟨hget, hpayer, hmatch, hentry, hdb⟩ := retryReport_spec h
    exact .retried hcontext hget hmatch hpayer hentry hdb
  | some db1 =>
    obtain ⟨hfree, hdb1⟩ := reserveInTx_eq_some hreserve
    dsimp only at h
    split at h
    · cases h
    obtain ⟨⟨budget, reason, failed, hentry, hget⟩, hused, hthreads, hframe⟩ :=
      countReport_spec h
    have hget1 : ∀ id, db1.usageLedger.get? id =
        if id = new.usageReportId then some (new.reserved workspaceId draws.acceptedAt)
        else db.usageLedger.get? id := by
      intro id
      rw [hdb1]
      rw [Table.get?_insertIgnore]
      by_cases hid : id = new.usageReportId
      · subst hid
        simp [NewUsageLedgerEntry.reserved, hfree]
      · simp [NewUsageLedgerEntry.reserved, hid, Ne.symm hid]
    refine .counted hcontext hfree (fun id => ?_) ?_ ?_ ?_ ?_ ?_ ?_
    · rw [hget, hget1, hentry]
      by_cases hid : id = new.usageReportId
      · rw [if_pos hid, if_pos hid, if_pos hid]
        rfl
      · rw [if_neg hid, if_neg hid, if_neg hid]
    · rw [hentry]
      exact matchesRequest_finish new workspaceId draws.acceptedAt budget reason _ failed
    · rw [hentry]
      rfl
    · rw [hentry]
      exact rowToEntry_finish _ budget reason _ failed
    · intro id c
      rw [hused, hdb1]
      rfl
    · rw [hdb1] at hthreads
      exact hthreads
    · rw [hframe, hdb1]

end Maidan
