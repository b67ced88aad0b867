/-
# Usage is counted once

A worker that does not know whether its report arrived sends it again.  Over any run of reports on
any threads, of claims given and ended in any way, and of budgets set and patched, a thread's
counters are the sums over the DISTINCT reports it answered (`usage_counts_once`).

What carries the argument is the pair (ledger, counters).  A report either finds its key in the
ledger and changes nothing at all, or finds it free and moves both at once; nothing else moves
either (`usageNext_quiet`).  `KnownReport` is what an answered report leaves behind for its retries: a
finished row that matches it, in the room its thread is still in.
-/
import Maidan.Usage.Report

namespace Maidan

open Relational Table Run Text List

/-! ## 1. Claims move no counter -/

variable {db db' : Db} {new old : NewUsageLedgerEntry} {entry : UsageRow} {thread : ThreadId}
  {draws : ReportDraws}

/-- **Wall charges move no counter but the wall's.** -/
theorem WallCharged.used (h : WallCharged db db') (id : ThreadId) (c : Counter) :
    used db' id c = used db id c := by
  induction h with
  | same h => exact used_congr h id c
  | charge _ _ h _ ih => rw [ih, used_congr h, used_chargeWall]

/-! ## 2. The run -/

/-- `BudgetLimits`. -/
structure BudgetLimits where
  maxTokens : Option Int := none
  maxUsdMicros : Option Int := none
  maxTurns : Option Int := none
  maxWallSecs : Option Int := none

/-- `BudgetPatch`: absent leaves a limit, `some none` lifts it. -/
structure BudgetPatch where
  maxTokens : Option (Option Int) := none
  maxUsdMicros : Option (Option Int) := none
  maxTurns : Option (Option Int) := none
  maxWallSecs : Option (Option Int) := none

/-- `BudgetPatch::apply`. -/
def BudgetPatch.apply (patch : BudgetPatch) (current : BudgetLimits) : BudgetLimits :=
  { maxTokens := patch.maxTokens.getD current.maxTokens
    maxUsdMicros := patch.maxUsdMicros.getD current.maxUsdMicros
    maxTurns := patch.maxTurns.getD current.maxTurns
    maxWallSecs := patch.maxWallSecs.getD current.maxWallSecs }

/-- The limits of a budget row. -/
def BudgetRow.limits (bu : BudgetRow) : BudgetLimits :=
  ⟨bu.maxTokens, bu.maxUsdMicros, bu.maxTurns, bu.maxWallSecs⟩

/-- The `SET` of `set_budget`: what is used is preserved. -/
def BudgetRow.setLimits (limits : BudgetLimits) (bu : BudgetRow) : BudgetRow :=
  { bu with
    maxTokens := limits.maxTokens, maxUsdMicros := limits.maxUsdMicros
    maxTurns := limits.maxTurns, maxWallSecs := limits.maxWallSecs }

theorem BudgetRow.setLimits_threadId (limits : BudgetLimits) (bu : BudgetRow) :
    (bu.setLimits limits).threadId = bu.threadId := rfl

/-- `set_budget`. -/
def setBudget (db : Db) (thread : ThreadId) (limits : BudgetLimits) : Except StoreError Db :=
  if (db.threads.get? thread).isNone then .error (.database "FOREIGN KEY constraint failed")
  else .ok { db with
    threadBudgets := db.threadBudgets.upsert (BudgetRow.setLimits limits { threadId := thread })
      (BudgetRow.setLimits limits) (BudgetRow.setLimits_threadId limits) }

/-- `patch_budget`. -/
def patchBudget (db : Db) (thread : ThreadId) (patch : BudgetPatch) : Except StoreError Db :=
  setBudget db thread (patch.apply (((db.threadBudgets.get? thread).map BudgetRow.limits).getD {}))

/-- **What happens to a thread that reports**: its reports and everyone else's, claims given and
ended, and its budget set. -/
inductive UsageOp
  | report (new : NewUsageLedgerEntry) (draws : ReportDraws)
  | claim (op : ClaimOp)
  | setBudget (thread : ThreadId) (limits : BudgetLimits)
  | patchBudget (thread : ThreadId) (patch : BudgetPatch)

def usageStep (db : Db) : UsageOp → Except StoreError Db
  | .report new draws => (reportAccountedUsage db new draws).map Prod.fst
  | .claim op => step db op
  | .setBudget thread limits => setBudget db thread limits
  | .patchBudget thread patch => patchBudget db thread patch

def usageNext (db : Db) (op : UsageOp) : Db := settle db (usageStep db op)

/-- The report an operation gets answered on `thread`. -/
def answeredBy (thread : ThreadId) (db : Db) : UsageOp → Option NewUsageLedgerEntry
  | .report new draws =>
    if new.threadId = thread ∧ (reportAccountedUsage db new draws).isOk then some new else none
  | _ => none

/-- **The reports a run gets answered on `thread`**, retries included, in the order of the run. -/
def answered (thread : ThreadId) : Db → List UsageOp → List NewUsageLedgerEntry
  | _, [] => []
  | db, op :: ops => (answeredBy thread db op).toList ++ answered thread (usageNext db op) ops

/-- The first report under each key that is not `seen` yet. -/
def firsts (seen : UsageReportId → Bool) : List NewUsageLedgerEntry → List NewUsageLedgerEntry
  | [] => []
  | new :: rest =>
    if seen new.usageReportId then firsts seen rest
    else new :: firsts (fun id => id == new.usageReportId || seen id) rest

/-- **The distinct reports** of a list, by their key. -/
def distinct (reports : List NewUsageLedgerEntry) : List NewUsageLedgerEntry :=
  firsts (fun _ => false) reports

/-! ## 3. One step -/

theorem used_setBudget (h : setBudget db thread limits = .ok db') (id : ThreadId) (c : Counter) :
    used db' id c = used db id c := by
  unfold setBudget at h
  split at h
  · cases h
  cases h
  have hlimits : ∀ bu : BudgetRow, (bu.setLimits limits).used c = bu.used c := by
    intro bu
    cases c <;> rfl
  unfold used
  rw [get?_upsert]
  by_cases hid : thread = id
  · subst hid
    cases db.threadBudgets.get? thread with
    | none =>
      simp only [BudgetRow.setLimits_threadId, if_true, Option.elim_none, map_some,
        Option.getD_some, Option.map_none, Option.getD_none, hlimits, used_empty]
    | some =>
      simp [BudgetRow.setLimits_threadId, hlimits]
  · simp [BudgetRow.setLimits_threadId, hid]

theorem setBudget_frame (h : setBudget db thread limits = .ok db') :
    db' = { db with threadBudgets := db'.threadBudgets } := by
  unfold setBudget at h
  split at h
  · cases h
  cases h
  rfl

/-- A thread keeps its room: what `report_accounted_usage` reads of it, the claim apart. -/
def KeepsRooms (db db' : Db) : Prop :=
  ∀ id row workspaceId, reportContext db id = some (row, workspaceId) →
    ∃ row', reportContext db' id = some (row', workspaceId)

theorem KeepsRooms.of_rows (hchannels : db'.channels = db.channels)
    (h : ∀ id row, db.threads.get? id = some row → ∃ row', db'.threads.get? id = some row' ∧
      row'.channelId = row.channelId ∧ row'.tombstonedAt = row.tombstonedAt) :
    KeepsRooms db db' := by
  intro id row workspaceId hcontext
  unfold reportContext at hcontext
  split at hcontext
  · cases hcontext
  rename_i r hget
  obtain ⟨r', hget', hchannel, htomb⟩ := h id r hget
  split at hcontext
  · cases hcontext
  rename_i hlive
  obtain ⟨ws, hws, hpair⟩ := map_eq_some_iff.mp hcontext
  cases hpair
  refine ⟨r', ?_⟩
  unfold reportContext
  rw [hget']
  dsimp only
  rw [htomb, if_neg hlive]
  have hsame : db'.workspaceOf r' = db.workspaceOf row := by
    unfold Db.workspaceOf Db.channelOf
    rw [hchannels, hchannel]
  rw [hsame, hws]
  rfl

/-- **A step no report is part of**: it moves no counter and no ledger row. -/
structure Quiet (db db' : Db) : Prop where
  used : ∀ id c, used db' id c = used db id c
  ledger : db'.usageLedger = db.usageLedger
  rooms : KeepsRooms db db'

theorem KeepsRooms.refl (db : Db) : KeepsRooms db db := fun _ row _ h => ⟨row, h⟩

theorem Quiet.refl (db : Db) : Quiet db db := ⟨fun _ _ => rfl, rfl, .refl db⟩

theorem step_quiet (h : step db op = .ok db') : Quiet db db' := by
  obtain ⟨hframe, -, hcharged, heffect⟩ := step_committed h
  have hchannels : db'.channels = db.channels := by rw [hframe]
  refine ⟨hcharged.used, by rw [hframe], .of_rows hchannels fun id row hrow => ?_⟩
  cases heffect id with
  | absent hnone => rw [hnone] at hrow; cases hrow
  | moved hget hget' hmove =>
    obtain rfl := mem_unique hget hrow
    exact ⟨_, hget', hmove.samePlace.1, hmove.samePlace.2.2⟩

theorem setBudget_quiet (h : setBudget db thread limits = .ok db') : Quiet db db' := by
  have hframe := setBudget_frame h
  have hthreads : db'.threads = db.threads := by rw [hframe]
  refine ⟨used_setBudget h, by rw [hframe], .of_rows (by rw [hframe]) fun id row hrow => ?_⟩
  exact ⟨row, by rw [hthreads, hrow], rfl, rfl⟩

/-- **The other steps are quiet.** -/
theorem usageNext_quiet (db : Db) (op : UsageOp) (hop : ∀ new draws, op ≠ .report new draws) :
    Quiet db (usageNext db op) := by
  unfold usageNext
  cases h : usageStep db op with
  | error => exact .refl db
  | ok =>
    cases op with
    | report new draws => exact absurd rfl (hop new draws)
    | claim => exact step_quiet h
    | setBudget | patchBudget => exact setBudget_quiet h

theorem usageNext_report_ok (h : reportAccountedUsage db new draws = .ok (db', entry)) :
    usageNext db (.report new draws) = db' := by
  simp only [usageNext, usageStep, h]
  rfl

theorem usageNext_report_error (h : reportAccountedUsage db new draws = .error e) :
    usageNext db (.report new draws) = db := by
  simp only [usageNext, usageStep, h]
  rfl

theorem Reported.rooms (h : Reported db new db' entry) : KeepsRooms db db' := by
  cases h with
  | retried _ _ _ _ _ hdb => exact hdb ▸ .refl db
  | counted _ _ _ _ _ _ _ hthreads hframe =>
    refine .of_rows (by rw [hframe]) fun id row hrow => ?_
    rcases hthreads with hsame | hcleared
    · exact ⟨row, by rw [hsame, hrow], rfl, rfl⟩
    · rw [hcleared, get?_update, hrow]
      by_cases hid : id = new.threadId
      · rw [if_pos hid]
        exact ⟨row.clearClaim, rfl, rfl, rfl⟩
      · rw [if_neg hid]
        exact ⟨row, rfl, rfl, rfl⟩

/-! ## 4. Retries -/

/-- **The ledger knows the report**: a finished row under its key matches it, and was paid by the
room its thread is in. -/
structure KnownReport (db : Db) (new : NewUsageLedgerEntry) (entry : UsageRow) : Prop where
  valid : new.validate = .ok ()
  row : db.usageLedger.get? new.usageReportId = some entry
  matched : entry.matchesRequest new = true
  finished : rowToEntry entry = .ok entry
  room : ∃ thread, reportContext db new.threadId = some (thread, entry.workspaceId)

theorem validate_of_answered (h : reportAccountedUsage db new draws = .ok (db', entry)) :
    new.validate = .ok () := by
  obtain ⟨_, hvalid, _⟩ := bind_ok h
  exact mapError_eq_ok hvalid

/-- **An answered report is known from then on.** -/
theorem knownReport_of_answered (h : reportAccountedUsage db new draws = .ok (db', entry)) :
    KnownReport db' new entry := by
  have hvalid := validate_of_answered h
  have hreported := reportAccountedUsage_cases h
  have hrooms := hreported.rooms
  cases hreported with
  | retried hcontext hget hmatch hpayer hentry hdb =>
    subst hdb
    exact ⟨hvalid, hget, hmatch, hentry, _, hpayer ▸ hcontext⟩
  | counted hcontext _ hget hmatch hpayer hentry _ _ _ =>
    exact ⟨hvalid, by rw [hget, if_pos rfl], hmatch, hentry, hpayer ▸ hrooms _ _ _ hcontext⟩

/-- **A known report stays known**, with the row it has. -/
theorem KnownReport.next (h : KnownReport db old entry) (op : UsageOp) :
    KnownReport (usageNext db op) old entry := by
  have hkeep : ∀ {db'}, db'.usageLedger.get? old.usageReportId = some entry → KeepsRooms db db' →
      KnownReport db' old entry := by
    intro db' hrow hrooms
    obtain ⟨thread, hroom⟩ := h.room
    exact ⟨h.valid, hrow, h.matched, h.finished, hrooms _ _ _ hroom⟩
  by_cases hop : ∃ new draws, op = .report new draws
  · obtain ⟨new, draws, rfl⟩ := hop
    cases hr : reportAccountedUsage db new draws with
    | error => rw [usageNext_report_error hr]; exact h
    | ok out =>
      rw [usageNext_report_ok hr]
      have hreported := reportAccountedUsage_cases hr
      refine hkeep ?_ hreported.rooms
      cases hreported with
      | retried _ _ _ _ _ hdb => rw [hdb, h.row]
      | counted _ hfree hget =>
        -- a counted report found its key free, so it is another key
        have hne : old.usageReportId ≠ new.usageReportId := by
          intro heq
          rw [← heq, h.row] at hfree
          cases hfree
        rw [hget, if_neg hne, h.row]
  · have hquiet := usageNext_quiet db op fun new draws heq => hop ⟨new, draws, heq⟩
    exact hkeep (by rw [hquiet.ledger, h.row]) hquiet.rooms

theorem KnownReport.exec {db : Db} (h : KnownReport db old entry) :
    ∀ ops, KnownReport (exec usageNext db ops) old entry
  | [] => h
  | op :: ops => (h.next op).exec ops

/-- **The same content**: equal in every field, the model up to the blanks around it. -/
def SameContent (old new : NewUsageLedgerEntry) : Prop :=
  { new with model := trimStr new.model } = { old with model := trimStr old.model }

instance (old new : NewUsageLedgerEntry) : Decidable (SameContent old new) :=
  inferInstanceAs (Decidable (_ = _))

theorem sameContent_iff :
    SameContent old new ↔ new.usageReportId = old.usageReportId ∧ new.threadId = old.threadId ∧
      new.reporter = old.reporter ∧ new.claimLeaseId = old.claimLeaseId ∧
      trimStr new.model = trimStr old.model ∧ new.tokens = old.tokens ∧
      new.usdMicros = old.usdMicros ∧ new.priceSnapshot = old.priceSnapshot ∧
      new.turns = old.turns ∧ new.evidence = old.evidence := by
  unfold SameContent
  rw [NewUsageLedgerEntry.mk.injEq]

theorem matchesRequest_iff_sameContent {row : UsageRow} (h : row.matchesRequest old = true) :
    row.matchesRequest new = true ↔ SameContent old new := by
  rw [matchesRequest_iff] at h
  obtain ⟨h1, h2, h3, h4, h5, h6, h7, h8, h9, h₁₀⟩ := h
  rw [matchesRequest_iff, sameContent_iff, h1, h2, h3, h4, h5, h6, h7, h8, h9, h₁₀]
  simp only [eq_comm]

theorem SameContent.validate (h : SameContent old new) : new.validate = old.validate := by
  obtain ⟨_, _, _, _, hmodel, htokens, husd, hprice, hturns, hevidence⟩ := sameContent_iff.mp h
  have htrim : trim new.model.toList = trim old.model.toList := by
    have := congrArg String.toList hmodel
    simpa [trimStr] using this
  unfold NewUsageLedgerEntry.validate NewUsageLedgerEntry.checkStandard
  rw [htrim, htokens, husd, hprice, hturns, hevidence]

/-- **A retry is answered with the row the ledger has, and changes nothing.** -/
theorem KnownReport.retry (h : KnownReport db old entry) (hsame : SameContent old new)
    (draws : ReportDraws) : reportAccountedUsage db new draws = .ok (db, entry) := by
  have hmatch := (matchesRequest_iff_sameContent h.matched).mpr hsame
  have hvalid := hsame.validate.trans h.valid
  obtain ⟨hid, hthread, _⟩ := sameContent_iff.mp hsame
  obtain ⟨thread, hroom⟩ := h.room
  have hreserve : reserveInTx db new entry.workspaceId draws.acceptedAt = .ok none := by
    unfold reserveInTx
    rw [hid, h.row]
    rfl
  have hretry : retryReport db new entry.workspaceId = .ok (db, entry) := by
    unfold retryReport
    rw [hid, h.row]
    dsimp only
    rw [h.finished]
    simp [bind, Except.bind, hmatch]
  unfold reportAccountedUsage
  rw [hvalid, hthread, hroom]
  simp only [Except.mapError, bind, Except.bind, hreserve, hretry]

/-- **The same key with other content is refused.** -/
theorem KnownReport.refuse (h : KnownReport db old entry)
    (hid : new.usageReportId = old.usageReportId) (hother : ¬SameContent old new)
    (draws : ReportDraws) : ∃ e, reportAccountedUsage db new draws = .error e := by
  cases hr : reportAccountedUsage db new draws with
  | error e => exact ⟨e, rfl⟩
  | ok out =>
    refine absurd ?_ hother
    cases reportAccountedUsage_cases hr with
    | retried _ hget hmatch =>
      rw [hid, h.row] at hget
      cases hget
      exact (matchesRequest_iff_sameContent h.matched).mp hmatch
    | counted _ hfree =>
      rw [hid, h.row] at hfree
      cases hfree

/-! ## 5. Counting -/

/-- The keys the ledger holds for `thread`. -/
def seenOn (db : Db) (thread : ThreadId) (id : UsageReportId) : Bool :=
  (db.usageLedger.get? id).any fun row => row.threadId == thread

/-- **What one step adds**: what it answers under a key the thread's ledger does not hold. -/
theorem usageNext_counts (db : Db) (op : UsageOp) (thread : ThreadId) :
    (∀ c, used (usageNext db op) thread c = used db thread c +
      ((firsts (seenOn db thread) (answeredBy thread db op).toList).map (·.adds c)).sum) ∧
    (∀ id, seenOn (usageNext db op) thread id = (seenOn db thread id ||
        (answeredBy thread db op).any fun new => id == new.usageReportId)) := by
  by_cases hop : ∃ new draws, op = .report new draws
  · obtain ⟨new, draws, rfl⟩ := hop
    cases hr : reportAccountedUsage db new draws with
    | error =>
      have hnone : answeredBy thread db (.report new draws) = none := by
        simp [answeredBy, hr, Except.isOk, Except.toBool]
      rw [usageNext_report_error hr, hnone]
      exact ⟨fun c => by simp [firsts], fun id => by simp⟩
    | ok out =>
      obtain ⟨db', entry⟩ := out
      rw [usageNext_report_ok hr]
      have hanswered : answeredBy thread db (.report new draws) =
          if new.threadId = thread then some new else none := by
        simp [answeredBy, hr, Except.isOk, Except.toBool]
      rw [hanswered]
      cases reportAccountedUsage_cases hr with
      | retried _ hget hmatch _ _ hdb =>
        have hthread := (matchesRequest_iff.mp hmatch).2.1
        rw [hdb]
        by_cases ht : new.threadId = thread
        · -- the key is the thread's already: nothing is added to the sums or to the ledger
          have hseen : seenOn db thread new.usageReportId = true := by
            simp [seenOn, hget, hthread, ht]
          rw [if_pos ht]
          refine ⟨fun c => by simp [firsts, hseen], fun id => ?_⟩
          by_cases hid : id = new.usageReportId
          · simp [hid, hseen]
          · simp [hid]
        · rw [if_neg ht]
          exact ⟨fun c => by simp [firsts], fun id => by simp⟩
      | counted _ hfree hget hmatch _ _ hused _ _ =>
        have hthread := (matchesRequest_iff.mp hmatch).2.1
        have hseen : ∀ id, seenOn db' thread id =
            (seenOn db thread id || (id == new.usageReportId && new.threadId == thread)) := by
          intro id
          unfold seenOn
          rw [hget]
          by_cases hid : id = new.usageReportId
          · subst hid
            simp [hfree, hthread]
          · simp [hid]
        have hnew : seenOn db thread new.usageReportId = false := by simp [seenOn, hfree]
        by_cases ht : new.threadId = thread
        · rw [if_pos ht]
          refine ⟨fun c => ?_, fun id => by simp [hseen, ht]⟩
          rw [hused, if_pos ht.symm]
          simp [firsts, hnew]
        · rw [if_neg ht]
          refine ⟨fun c => ?_, fun id => by simp [hseen, ht]⟩
          rw [hused, if_neg (Ne.symm ht)]
          simp [firsts]
  · have hquiet := usageNext_quiet db op fun new draws heq => hop ⟨new, draws, heq⟩
    have hnone : answeredBy thread db op = none := by
      cases op with
      | report new draws => exact absurd ⟨new, draws, rfl⟩ hop
      | claim | setBudget | patchBudget => rfl
    rw [hnone]
    refine ⟨fun c => ?_, fun id => ?_⟩
    · rw [hquiet.used]
      simp [firsts]
    · unfold seenOn
      rw [hquiet.ledger]
      simp

theorem firsts_toList_append (seen : UsageReportId → Bool) (step : Option NewUsageLedgerEntry)
    (rest : List NewUsageLedgerEntry) :
    firsts seen (step.toList ++ rest) = firsts seen step.toList ++
        firsts (fun id => seen id || step.any fun new => id == new.usageReportId) rest := by
  cases step with
  | none => simp [firsts]
  | some new =>
    simp only [Option.toList_some, singleton_append, firsts, Option.any_some]
    by_cases hseen : seen new.usageReportId = true
    · rw [if_pos hseen, if_pos hseen, nil_append]
      congr 1
      funext id
      by_cases hid : id = new.usageReportId
      · simp [hid, hseen]
      · simp [hid]
    · rw [if_neg hseen, if_neg hseen, singleton_append]
      congr 2
      funext id
      exact Bool.or_comm _ _

/-- **Over a run**, the counters move by the first reports answered under keys that are new. -/
theorem exec_counts (thread : ThreadId) : ∀ (ops : List UsageOp) (db : Db) (c : Counter),
    used (exec usageNext db ops) thread c = used db thread c +
      ((firsts (seenOn db thread) (answered thread db ops)).map (·.adds c)).sum
  | [], db, c => by simp [answered, firsts]
  | op :: ops, db, c => by
    obtain ⟨hused, hseen⟩ := usageNext_counts db op thread
    have hseen' : seenOn (usageNext db op) thread = fun id => seenOn db thread id ||
        (answeredBy thread db op).any fun new => id == new.usageReportId := funext hseen
    rw [exec_cons, exec_counts thread ops (usageNext db op) c, hused, answered,
      firsts_toList_append, hseen', map_append, sum_append]
    omega

theorem knownReport_of_mem_answered :
    ∀ (ops : List UsageOp) (db : Db), old ∈ answered thread db ops →
      ∃ entry, KnownReport (exec usageNext db ops) old entry
  | [], _, h => absurd h not_mem_nil
  | op :: ops, db, h => by
    rw [answered, mem_append] at h
    rcases h with h | h
    · cases op with
      | report =>
        simp only [answeredBy, Option.mem_toList, Option.ite_none_right_eq_some,
          Option.some.injEq] at h
        obtain ⟨⟨_, hok⟩, rfl⟩ := h
        obtain ⟨⟨db', entry⟩, hr⟩ := exists_of_isOk hok
        refine ⟨entry, ?_⟩
        rw [exec_cons, usageNext_report_ok hr]
        exact (knownReport_of_answered hr).exec ops
      | claim | setBudget | patchBudget => exact absurd h not_mem_nil
    · exact knownReport_of_mem_answered ops _ h

/-- **Usage counts once.**  From a thread with no usage, after any run: each counter is the sum over
the distinct reports answered on the thread; a report under a key that was answered before, with the
same content, is answered and changes nothing; with other content it is refused and changes
nothing. -/
theorem usage_counts_once (db : Db) (thread : ThreadId)
    (hledger : ∀ row ∈ db.usageLedger.rows, row.threadId ≠ thread)
    (hzero : ∀ c, used db thread c = 0) (ops : List UsageOp) :
    (∀ c, used (exec usageNext db ops) thread c =
      ((distinct (answered thread db ops)).map (·.adds c)).sum) ∧
    ∀ old ∈ answered thread db ops, ∀ new draws, new.usageReportId = old.usageReportId →
      usageNext (exec usageNext db ops) (.report new draws) = exec usageNext db ops ∧
      (SameContent old new → ∃ entry, reportAccountedUsage (exec usageNext db ops) new draws =
        .ok (exec usageNext db ops, entry)) ∧
      (¬SameContent old new → ∃ e,
        reportAccountedUsage (exec usageNext db ops) new draws = .error e) := by
  refine ⟨fun c => ?_, fun old hold new draws hid => ?_⟩
  · have hseen : seenOn db thread = fun _ => false := by
      funext id
      unfold seenOn
      cases hget : db.usageLedger.get? id with
      | none => rfl
      | some row => simpa using hledger row (mem_of_get? hget)
    rw [exec_counts, hzero, Int.zero_add, hseen]
    rfl
  · obtain ⟨entry, hknown⟩ := knownReport_of_mem_answered ops db hold
    refine ⟨?_, fun hsame => ⟨entry, hknown.retry hsame draws⟩,
      fun hother => hknown.refuse hid hother draws⟩
    by_cases hsame : SameContent old new
    · exact usageNext_report_ok (hknown.retry hsame draws)
    · obtain ⟨e, he⟩ := hknown.refuse hid hsame draws
      exact usageNext_report_error he

/-- A worker holding a thread of its workspace. -/
def reporterDb : Db :=
  { members := oneMember
    channels := { rows := [{ id := ⟨1⟩, workspaceId := ⟨1⟩, name := "dev" }], nodup := by decide }
    threads :=
      { rows := [{ id := ⟨1⟩, channelId := ⟨1⟩, assigneeId := some ⟨1⟩, claimLeaseId := some ⟨1⟩ }]
        nodup := by decide } }

/-- The batch report twice, another one, the claim released, and the first report once more. -/
def reporterRun : List UsageOp :=
  [.report batchReport ⟨0, 0, 1, 2⟩, .report batchReport ⟨5, 5, 3, 4⟩,
    .report { batchReport with usageReportId := ⟨2⟩ } ⟨6, 6, 5, 6⟩,
    .claim (.release ⟨1⟩ ⟨1⟩ ⟨1⟩ 7), .report batchReport ⟨8, 8, 7, 8⟩]

set_option maxRecDepth 40000 in
theorem usage_counts_once_reporter :
    used (exec usageNext reporterDb reporterRun) ⟨1⟩ .usdMicros = 208 ∧
      (answered ⟨1⟩ reporterDb reporterRun).length = 4 := by
  have hrun := (usage_counts_once reporterDb ⟨1⟩ (by decide) (fun _ => rfl) reporterRun).1 .usdMicros
  rw [hrun]
  constructor
  · decide +kernel
  · decide +kernel

end Maidan
