/-
# What retention may delete

A sweep picks its rows by `occurred_at`, the time an event's writer gave it; the chain links them
by id.  Nothing keeps the two orders together, so a sweep can take a row from the MIDDLE of a
workspace, and it can take a workspace's NEWEST row.  Three readers of the log are affected, and
each by one of the two:

* `verify_chain` tolerates a missing beginning, not a missing middle (`retention_keeps_chain`);
* a peer's next link is chained to whatever row is newest when it is appended
  (`pruning_keeps_peer`);
* a cursor is compared with the oldest row that is left (`fresh_cursor_lost_nothing`).

Each result is about every run of appends and sweeps whose sweeps spare what that reader needs.
-/
import Maidan.Events.Log

namespace Maidan

open Ordered Run
open List hiding after

variable {π : Type}

/-! ## 1. No hole, no break -/

/-- **The step leaves no hole**: of three rows of one workspace it deletes no middle one alone. -/
def LogOp.leavesNoHole (log : EventLog π) (op : LogOp π) : Prop :=
  ∀ a ∈ log.rows, ∀ b ∈ log.rows, ∀ c ∈ log.rows,
    a.workspaceId = b.workspaceId → b.workspaceId = c.workspaceId → a.id < b.id → b.id < c.id →
      b.id ∈ op.selects log → a.id ∈ op.selects log ∨ c.id ∈ op.selects log

instance (log : EventLog π) (op : LogOp π) : Decidable (op.leavesNoHole log) :=
  inferInstanceAs (Decidable (∀ a ∈ log.rows, ∀ b ∈ log.rows, ∀ c ∈ log.rows, _))

variable {env : HashEnv π} {workspace : WorkspaceId} {op : LogOp π} {occurredAt : Int} {payload : π}

theorem scoped_delete_contiguous (h : op.leavesNoHole log) (workspace : Option WorkspaceId) :
    (log.delete (op.selects log)).scoped workspace <:+: log.scoped workspace := by
  rw [scoped_delete]
  refine kept_contiguous fun a b c habc ha hc => ?_
  have hpair := (log.increasing_scoped workspace).sublist habc
  simp only [pairwise_cons, mem_cons, forall_eq_or_imp] at hpair
  have hmem := fun r hr => EventLog.mem_scoped.mp (habc.subset (a := r) hr)
  simp only [Bool.not_eq_true', contains_eq_mem, decide_eq_false_iff_not] at ha hc ⊢
  obtain ⟨hra, hwa⟩ := hmem a (by simp)
  obtain ⟨hrb, hwb⟩ := hmem b (by simp)
  obtain ⟨hrc, hwc⟩ := hmem c (by simp)
  intro hb
  rcases h a hra b hrb c hrc (hwa.trans hwb.symm) (hwb.trans hwc.symm) hpair.1.1 hpair.2.1.1 hb with
    h | h
  · exact ha h
  · exact hc h

/-- **An append continues the chain of its workspace.** -/
theorem ChainOk.append (hsha : HexDigits env) {workspace : Option WorkspaceId}
    (h : ChainOk env ((log.scoped workspace).map EventRow.chained))
    (hcontent : contentHash env payload = some content) : ChainOk env ((log.scoped workspace ++
      [nextRow env log workspace occurredAt payload content key]).map EventRow.chained) := by
  rw [map_append, map_singleton]
  refine ⟨?_, ?_⟩
  · intro row hrow
    rcases mem_append.mp hrow with hrow | hrow
    · exact h.rowOk row hrow
    · rw [mem_singleton.mp hrow]
      exact ⟨hsha.nextPrevHash_formed _, hsha.contentHash_formed hcontent, hcontent⟩
  · rw [map_append, isChain_append]
    refine ⟨h.continues, .singleton _, ?_⟩
    intro x hx y hy
    obtain rfl := Option.some.inj hy
    rw [map_map, getLast?_map] at hx
    obtain ⟨last, hlast, rfl⟩ := Option.map_eq_some_iff.mp hx
    have hmem : last ∈ log.rows := (EventLog.mem_scoped.mp (mem_of_getLast? hlast)).1
    refine ⟨Int.lt_add_one_of_le (log.ids last hmem).2, ?_⟩
    simp only [EventRow.chained, EventRow.link, nextRow, chainHeadInTx, hlast, Option.map_some,
      nextPrevHash, Function.comp]

/-- **Every workspace's rows verify.** -/
def AllChained (env : HashEnv π) (log : EventLog π) : Prop :=
  ∀ workspace, ChainOk env ((log.scoped workspace).map EventRow.chained)

theorem allChained_next (hsha : HexDigits env) (log : EventLog π) (op : LogOp π)
    (h : AllChained env log) (hop : op.leavesNoHole log) :
    AllChained env (logNext env log op) := by
  intro workspace
  have hdid := logNext_logged env log op
  generalize logNext env log op = log' at hdid ⊢
  cases hdid with
  | refused => exact h workspace
  | appended hcontent hrows _ =>
    rw [scoped_appended workspace hrows]
    split
    · rename_i hws
      subst hws
      exact (h _).append hsha hcontent
    · exact h workspace
  | deleted => exact (h workspace).contiguous ((scoped_delete_contiguous hop workspace).map _)

/-- **Retention keeps the chain**, in every run of appends and sweeps in which no sweep leaves a
hole in a workspace: whatever is left of a workspace verifies. -/
theorem retention_keeps_chain (env : HashEnv π) (hsha : HexDigits env) (ops : List (LogOp π))
    (hops : Meets (logNext env) (fun log op => op.leavesNoHole log) .empty ops)
    (workspace : WorkspaceId) :
    ((exec (logNext env) .empty ops).verifyChain env workspace).ok = true := by
  have hstart : AllChained env (EventLog.empty : EventLog π) := fun _ => ⟨by simp [EventLog.scoped,
    EventLog.empty], by simp [EventLog.scoped, EventLog.empty]⟩
  rw [EventLog.verifyChain_ok_iff]
  exact exec_inv_of_meets (allChained_next hsha) ops .empty hstart hops (some workspace)

/-- The `n`-th payload, an event of the first workspace, at `t` seconds. -/
def sampleAppend (n : Nat) (t : Int) : LogOp String :=
  .append (some ⟨1⟩) (seconds t) (samplePayload n)

/-- A sweep of everything before `t` seconds. -/
def sampleSweep (t : Int) : LogOp String := .prune {} (seconds t) 1000 100

/-- Two events, the older one swept, and a third. -/
theorem retention_keeps_chain_swept :
    let log := exec (logNext sampleEnv) .empty
      [sampleAppend 1 1, sampleAppend 2 2, sampleSweep 2, sampleAppend 3 3]
    log.rows.map EventRow.id = [2, 3] ∧ (log.verifyChain sampleEnv ⟨1⟩).ok = true :=
  ⟨by decide +kernel, retention_keeps_chain sampleEnv sampleEnv_hexDigits _ (by decide +kernel) ⟨1⟩⟩

/-- **A writer that stamps its event before another's and appends it after** leaves a row that a
sweep takes from the middle, and the next row no longer verifies. -/
theorem sweep_breaks_chain :
    let log := exec (logNext sampleEnv) .empty
      [sampleAppend 1 2, sampleAppend 2 1, sampleAppend 3 2, sampleSweep 2]
    log.rows.map EventRow.id = [1, 3] ∧ (log.verifyChain sampleEnv ⟨1⟩).ok = false ∧
    (log.verifyChain sampleEnv ⟨1⟩).breakAt = some 3 ∧
    (log.verifyChain sampleEnv ⟨1⟩).reason = some .prevHashMismatch := by
  decide +kernel

/-! ## 2. The newest row, and a peer -/

/-- **An origin's log and the last link of a workspace its peer has verified.** -/
structure Feed (π : Type) where
  log : EventLog π := .empty
  verified : Option EventLink := none

/-- The rows of the workspace the peer has yet to see, in the order of their ids. -/
def Feed.pending (workspace : WorkspaceId) (s : Feed π) : List (EventRow π) :=
  after EventRow.id ((s.verified.map EventLink.id).getD 0) (s.log.scoped (some workspace))

/-- The log moves on, or the peer is sent the next row. -/
inductive FeedAct (π : Type)
  | log (op : LogOp π)
  | deliver

/-- One act.  The peer keeps the link of a row that `verify_peer_link` accepts. -/
def feedNext (env : HashEnv π) (workspace : WorkspaceId) (s : Feed π) : FeedAct π → Feed π
  | .log op => { s with log := logNext env s.log op }
  | .deliver =>
    match s.pending workspace with
    | [] => s
    | row :: _ =>
      match verifyPeerLink env row.link row.payload s.verified with
      | .ok () => { s with verified := some row.link }
      | .error _ => s

/-- **Only what the peer has verified is pruned.** -/
def FeedAct.prunesVerified (workspace : WorkspaceId) (s : Feed π) : FeedAct π → Prop
  | .log op => ∀ row ∈ s.log.scoped (some workspace), row.id ∈ op.selects s.log →
      row.id ≤ (s.verified.map EventLink.id).getD 0
  | .deliver => True

/-- **The newest row of the workspace is spared.** -/
def FeedAct.sparesHead (workspace : WorkspaceId) (s : Feed π) : FeedAct π → Prop
  | .log op => ∀ row ∈ (s.log.scoped (some workspace)).getLast?, row.id ∉ op.selects s.log
  | .deliver => True

instance (workspace : WorkspaceId) (s : Feed π) :
    ∀ act : FeedAct π, Decidable (act.prunesVerified workspace s ∧ act.sparesHead workspace s)
  | .log op => inferInstanceAs (Decidable ((∀ row ∈ s.log.scoped (some workspace),
      row.id ∈ op.selects s.log → row.id ≤ _) ∧
      ∀ row ∈ (s.log.scoped (some workspace)).getLast?, row.id ∉ op.selects s.log))
  | .deliver => inferInstanceAs (Decidable (True ∧ True))

/-- The rows are accepted one after another, each against the link of the one before. -/
def acceptsAll (env : HashEnv π) : Option EventLink → List (EventRow π) → Bool
  | _, [] => true
  | previous, row :: rows =>
    (verifyPeerLink env row.link row.payload previous).isOk && acceptsAll env (some row.link) rows

theorem acceptsAll_of_chain : ∀ {rows : List (EventRow π)}
    {previous : Option EventLink}, (∀ row ∈ rows, RowOk env row.chained) →
      (previous.toList ++ rows.map EventRow.link).IsChain (Continues env) →
      acceptsAll env previous rows = true
  | [], _, _, _ => rfl
  | row :: rows, previous, hrows, hchain => by
    obtain ⟨hrow, hrest⟩ := forall_mem_cons.mp hrows
    have hcont : ∀ prev ∈ previous, Continues env prev row.link := by
      rintro prev rfl
      exact (isChain_cons_cons.mp hchain).1
    have hnext : (row.link :: rows.map EventRow.link).IsChain (Continues env) :=
      hchain.right_of_append
    simp only [acceptsAll, verifyPeerLink_iff.mpr ⟨hrow, hcont⟩, Except.isOk, Except.toBool,
      Bool.true_and]
    exact acceptsAll_of_chain hrest hnext

variable {s : Feed π}

/-- **What the peer and the origin agree on**: the pending rows continue the peer's link, and the
next append will continue the last of them. -/
structure FeedInv (env : HashEnv π) (workspace : WorkspaceId) (s : Feed π) : Prop where
  rowOk : ∀ row ∈ s.pending workspace, RowOk env row.chained
  continues : (s.verified.toList ++ (s.pending workspace).map EventRow.link).IsChain (Continues env)
  head : chainHeadInTx s.log (some workspace) =
    ((s.pending workspace).getLast?.map EventRow.link).or s.verified
  seen : (s.verified.map EventLink.id).getD 0 ≤ s.log.lastId

theorem feedInv_append (hsha : HexDigits env) (h : FeedInv env workspace s)
    (hcontent : contentHash env payload = some content) (hrows : log'.rows =
      s.log.rows ++ [nextRow env s.log (some workspace) occurredAt payload content none])
    (hlast : s.log.lastId ≤ log'.lastId) : FeedInv env workspace { s with log := log' } := by
  generalize hrow : nextRow env s.log (some workspace) occurredAt payload content none = row at hrows
  have hid : row.id = s.log.lastId + 1 := by rw [← hrow]; rfl
  have hscoped : log'.scoped (some workspace) = s.log.scoped (some workspace) ++ [row] := by
    rw [scoped_appended _ hrows, if_pos (by rw [← hrow]; rfl)]
  -- the new row lies beyond the peer's link, so it is the last of the pending ones
  have hpending : Feed.pending workspace { s with log := log' } = s.pending workspace ++ [row] := by
    have hseen := h.seen
    unfold Feed.pending after
    rw [hscoped, filter_append, filter_cons_of_pos (by simp; omega)]
    rfl
  have hnew : ∀ prev ∈ (((s.pending workspace).getLast?.map EventRow.link).or s.verified),
      Continues env prev row.link := by
    intro prev hprev
    rw [← h.head] at hprev
    obtain ⟨last, hl, rfl⟩ := Option.map_eq_some_iff.mp hprev
    have hmem := (EventLog.mem_scoped.mp (mem_of_getLast? hl)).1
    refine ⟨?_, ?_⟩
    · have hle := (s.log.ids last hmem).2
      show last.id < row.id
      omega
    · rw [← hrow]
      simp only [EventRow.link, nextRow, chainHeadInTx, hl, Option.map_some, nextPrevHash]
  refine ⟨?_, ?_, ?_, ?_⟩
  · intro r hr
    rw [hpending] at hr
    rcases mem_append.mp hr with hr | hr
    · exact h.rowOk r hr
    · rw [mem_singleton.mp hr, ← hrow]
      exact ⟨hsha.nextPrevHash_formed _, hsha.contentHash_formed hcontent, hcontent⟩
  · rw [hpending, map_append, ← append_assoc, isChain_append]
    refine ⟨h.continues, .singleton _, ?_⟩
    intro prev hprev link hlink
    obtain rfl := Option.some.inj hlink
    refine hnew prev ?_
    rw [getLast?_append, getLast?_map] at hprev
    cases hv : s.verified with
    | none | some => simpa [hv] using hprev
  · rw [hpending, chainHeadInTx, hscoped]
    simp
  · exact Int.le_trans h.seen hlast

theorem feedInv_delete (h : FeedInv env workspace s)
    (hverified : FeedAct.prunesVerified workspace s (.log op))
    (hhead : FeedAct.sparesHead workspace s (.log op)) :
    FeedInv env workspace { s with log := s.log.delete (op.selects s.log) } := by
  have hpending : Feed.pending workspace { s with log := s.log.delete (op.selects s.log) } =
      s.pending workspace := by
    unfold Feed.pending after
    rw [scoped_delete, filter_filter]
    refine filter_congr fun r hr => ?_
    simp only [Bool.and_eq_left_iff_imp, decide_eq_true_eq, Bool.not_eq_true',
      contains_eq_mem, decide_eq_false_iff_not]
    intro hlt hsel
    exact absurd (hverified r hr hsel) (Int.not_le.mpr hlt)
  have hnewest : chainHeadInTx (s.log.delete (op.selects s.log)) (some workspace) =
      chainHeadInTx s.log (some workspace) := by
    unfold chainHeadInTx
    rw [scoped_delete, getLast?_kept]
    intro r hr
    simpa using hhead r hr
  refine ⟨?_, ?_, ?_, h.seen⟩
  · rw [hpending]
    exact h.rowOk
  · rw [hpending]
    exact h.continues
  · rw [hpending, hnewest]
    exact h.head

theorem feedInv_deliver (h : FeedInv env workspace s) :
    FeedInv env workspace (feedNext env workspace s .deliver) := by
  simp only [feedNext]
  cases hp : s.pending workspace with
  | nil => exact h
  | cons row rest =>
    have hmem : row ∈ s.pending workspace := by simp [hp]
    obtain ⟨hscoped, hlt⟩ := mem_filter.mp hmem
    cases hver : verifyPeerLink env row.link row.payload s.verified with
    | error =>
      simp only [hver]
      exact h
    | ok =>
      simp only [hver]
      have hpending : Feed.pending workspace { s with verified := some row.link } = rest := by
        have hle : (s.verified.map EventLink.id).getD 0 ≤ row.id :=
          Int.le_of_lt (of_decide_eq_true hlt)
        have hinc : Increasing EventRow.id (s.pending workspace) :=
          (s.log.increasing_scoped (some workspace)).filter _
        calc Feed.pending workspace { s with verified := some row.link }
            = after EventRow.id row.id (s.log.scoped (some workspace)) := rfl
          _ = after EventRow.id row.id (s.pending workspace) := (after_after hle _).symm
          _ = rest := by
            rw [hp] at hinc ⊢
            exact @after_append _ EventRow.id [] rest row hinc
      have hcont := h.continues
      have hrowOk := h.rowOk
      have hhead := h.head
      rw [hp] at hcont hrowOk hhead
      refine ⟨?_, ?_, ?_, ?_⟩
      · rw [hpending]
        exact (forall_mem_cons.mp hrowOk).2
      · rw [hpending]
        exact hcont.right_of_append
      · rw [hpending]
        rw [hhead, getLast?_cons]
        cases rest.getLast? with
        | none | some => rfl
      · exact (s.log.ids row (EventLog.mem_scoped.mp hscoped).1).2

theorem feedInv_next (hsha : HexDigits env) (s : Feed π) (act : FeedAct π)
    (h : FeedInv env workspace s)
    (hact : act.prunesVerified workspace s ∧ act.sparesHead workspace s) :
    FeedInv env workspace (feedNext env workspace s act) := by
  cases act with
  | deliver => exact feedInv_deliver h
  | log op =>
    simp only [feedNext]
    have hdid := logNext_logged env s.log op
    generalize logNext env s.log op = log' at hdid ⊢
    cases hdid with
    | refused => exact h
    | deleted => exact feedInv_delete h hact.1 hact.2
    | @appended ws occurredAt payload content _ hcontent hrows hlast =>
      have hgrown : s.log.lastId ≤ log'.lastId := by omega
      by_cases hws : ws = some workspace
      · subst hws
        exact feedInv_append hsha h hcontent hrows hgrown
      · -- an event of another workspace
        have hscoped : log'.scoped (some workspace) = s.log.scoped (some workspace) := by
          rw [scoped_appended _ hrows]
          exact if_neg hws
        have hpending : Feed.pending workspace { s with log := log' } = s.pending workspace := by
          unfold Feed.pending
          rw [hscoped]
        refine ⟨?_, ?_, ?_, Int.le_trans h.seen hgrown⟩
        · rw [hpending]
          exact h.rowOk
        · rw [hpending]
          exact h.continues
        · rw [hpending, chainHeadInTx, hscoped]
          exact h.head

/-- **A peer that is up to date stays connected**, in every run in which each sweep deletes only
rows the peer has verified and spares the newest row of the workspace: at every point, the rows
the peer has yet to see are accepted, one after another in the order of their ids. -/
theorem pruning_keeps_peer (env : HashEnv π) (hsha : HexDigits env) (workspace : WorkspaceId)
    (acts : List (FeedAct π))
    (hacts : Meets (feedNext env workspace)
      (fun s act => act.prunesVerified workspace s ∧ act.sparesHead workspace s) {} acts) :
    acceptsAll env (exec (feedNext env workspace) {} acts).verified
      ((exec (feedNext env workspace) {} acts).pending workspace) = true := by
  have hstart : FeedInv env workspace ({} : Feed π) :=
    ⟨fun _ h => absurd h not_mem_nil, .nil, rfl, Int.le_refl 0⟩
  have hend := exec_inv_of_meets (feedInv_next hsha) acts {} hstart hacts
  exact acceptsAll_of_chain hend.rowOk hend.continues

/-- Two events that the peer has seen, the older one swept, and a third. -/
def feedActs : List (FeedAct String) :=
  [.log (sampleAppend 1 1), .log (sampleAppend 2 2), .deliver, .deliver, .log (sampleSweep 2),
   .log (sampleAppend 3 3)]

theorem pruning_keeps_peer_swept :
    let s := exec (feedNext sampleEnv ⟨1⟩) {} feedActs
    (s.pending ⟨1⟩).map EventRow.id = [3] ∧ acceptsAll sampleEnv s.verified (s.pending ⟨1⟩) = true :=
  ⟨by decide +kernel,
    pruning_keeps_peer sampleEnv sampleEnv_hexDigits ⟨1⟩ feedActs (by decide +kernel)⟩

/-- **A sweep of everything starts the chain again**: the next event follows genesis, and the peer
that saw the one before refuses it. -/
theorem swept_log_refused_by_peer :
    let s := exec (feedNext sampleEnv ⟨1⟩) {}
      [.log (sampleAppend 1 1), .deliver, .log (sampleSweep 2), .log (sampleAppend 2 3)]
    s.verified.map EventLink.id = some 1 ∧ (s.pending ⟨1⟩).map EventRow.id = [2] ∧
    (s.pending ⟨1⟩).map (fun row => verifyPeerLink sampleEnv row.link row.payload s.verified) =
      [.error .prevHashMismatch] := by
  decide +kernel

/-! ## 3. The oldest row, and a cursor -/

/-- **The log, and every row that was ever in it.** -/
structure Archive (π : Type) where
  log : EventLog π := .empty
  held : List (EventRow π) := []

/-- One step; the rows under newly drawn ids go on record. -/
def archiveNext (env : HashEnv π) (s : Archive π) (op : LogOp π) : Archive π :=
  { log := logNext env s.log op
    held := s.held ++ after EventRow.id s.log.lastId (logNext env s.log op).rows }

/-- The events of the workspace that are no longer in the log. -/
def Archive.pruned (workspace : WorkspaceId) (s : Archive π) : List (EventRow π) :=
  s.held.filter fun r =>
    r.workspaceId == some workspace && s.log.rows.all fun k => k.id != r.id

/-- **The step takes the oldest**: with a row, every older row of its workspace. -/
def LogOp.takesOldest (log : EventLog π) (op : LogOp π) : Prop :=
  ∀ a ∈ log.rows, ∀ b ∈ log.rows, a.workspaceId = b.workspaceId → a.id < b.id →
    b.id ∈ op.selects log → a.id ∈ op.selects log

instance (log : EventLog π) (op : LogOp π) : Decidable (op.takesOldest log) :=
  inferInstanceAs (Decidable (∀ a ∈ log.rows, ∀ b ∈ log.rows, _))

/-- What is gone is older than what is left. -/
structure ArchiveInv (s : Archive π) : Prop where
  increasing : Increasing EventRow.id s.held
  drawn : ∀ r ∈ s.held, r.id ≤ s.log.lastId
  kept : ∀ r ∈ s.log.rows, r ∈ s.held
  older : ∀ workspace, ∀ r ∈ s.pruned workspace, ∀ k ∈ s.log.scoped (some workspace), r.id < k.id

theorem Archive.mem_pruned {s : Archive π} : r ∈ s.pruned workspace ↔
      r ∈ s.held ∧ r.workspaceId = some workspace ∧ ∀ k ∈ s.log.rows, k.id ≠ r.id := by
  simp [Archive.pruned, mem_filter]

theorem archiveInv_next (s : Archive π) (op : LogOp π) (h : ArchiveInv s)
    (hop : op.takesOldest s.log) : ArchiveInv (archiveNext env s op) := by
  have hold : after EventRow.id s.log.lastId s.log.rows = [] :=
    after_eq_nil fun r hr => (s.log.ids r hr).2
  unfold archiveNext
  have hdid := logNext_logged env s.log op
  generalize logNext env s.log op = log' at hdid ⊢
  cases hdid with
  | refused =>
    rw [hold, append_nil]
    exact h
  | deleted =>
    have hnone : after EventRow.id s.log.lastId (s.log.delete (op.selects s.log)).rows = [] :=
      after_eq_nil fun r hr => (s.log.ids r (mem_filter.mp hr).1).2
    rw [hnone, append_nil]
    refine ⟨h.increasing, h.drawn, fun r hr => h.kept r (mem_filter.mp hr).1, ?_⟩
    intro workspace r hr k hk
    obtain ⟨hheld, hws, hgone⟩ := Archive.mem_pruned.mp hr
    obtain ⟨hkrows, hkws⟩ := EventLog.mem_scoped.mp hk
    obtain ⟨hklog, hkept⟩ := mem_filter.mp hkrows
    by_cases hin : ∃ r' ∈ s.log.rows, r'.id = r.id
    · -- the row goes with this step
      obtain ⟨r', hr', hid⟩ := hin
      obtain rfl : r' = r := Increasing.eq_of_key h.increasing (h.kept r' hr') hheld hid
      have hsel : r'.id ∈ op.selects s.log := by
        by_contra hnot
        exact hgone r' (mem_filter.mpr ⟨hr', by simpa using hnot⟩) rfl
      by_contra hle
      have hne : k.id ≠ r'.id := by
        intro heq
        rw [heq] at hkept
        simp [hsel] at hkept
      have hlt : k.id < r'.id := by omega
      have hksel := hop k hklog r' hr' (hkws.trans hws.symm) hlt hsel
      simp [hksel] at hkept
    · -- it was gone before
      refine h.older workspace r (Archive.mem_pruned.mpr ⟨hheld, hws, ?_⟩) k
        (EventLog.mem_scoped.mpr ⟨hklog, hkws⟩)
      intro k' hk' hid
      exact hin ⟨k', hk', hid⟩
  | appended hcontent hrows =>
    generalize hrow : nextRow env s.log _ _ _ _ none = row at hrows
    have hid : row.id = s.log.lastId + 1 := by rw [← hrow]; rfl
    have hnew : after EventRow.id s.log.lastId log'.rows = [row] := by
      unfold after at hold ⊢
      rw [hrows, filter_append, hold, filter_cons_of_pos (by simp only [hid, decide_eq_true_eq]; omega)]
      rfl
    rw [hnew]
    refine ⟨?_, ?_, ?_, ?_⟩
    · refine pairwise_append.mpr ⟨h.increasing, pairwise_singleton _ _, ?_⟩
      intro a ha b hb
      rw [mem_singleton.mp hb, hid]
      exact Int.lt_add_one_of_le (h.drawn a ha)
    · intro r hr
      show r.id ≤ log'.lastId
      rcases mem_append.mp hr with hr | hr
      · have := h.drawn r hr
        omega
      · rw [mem_singleton.mp hr]
        omega
    · intro r hr
      rw [hrows] at hr
      rcases mem_append.mp hr with hr | hr
      · exact mem_append_left _ (h.kept r hr)
      · exact mem_append_right _ hr
    · intro workspace r hr k hk
      obtain ⟨hheld, hws, hgone⟩ := Archive.mem_pruned.mp hr
      obtain ⟨hkrows, hkws⟩ := EventLog.mem_scoped.mp hk
      simp only [hrows] at hgone hkrows
      have hheld' : r ∈ s.held := by
        rcases mem_append.mp hheld with hheld | hheld
        · exact hheld
        · exact absurd (congrArg EventRow.id (mem_singleton.mp hheld)).symm
            (hgone row (by simp))
      rcases mem_append.mp hkrows with hkrows | hkrows
      · refine h.older workspace r (Archive.mem_pruned.mpr ⟨hheld', hws, ?_⟩) k
          (EventLog.mem_scoped.mpr ⟨hkrows, hkws⟩)
        intro k' hk'
        exact hgone k' (mem_append_left _ hk')
      · rw [mem_singleton.mp hkrows, hid]
        exact Int.lt_add_one_of_le (h.drawn r hheld')

/-- **A fresh cursor has lost nothing while the workspace holds an event**, in every run in which
each sweep takes the oldest events of a workspace first: no event after the cursor is gone. -/
theorem fresh_cursor_lost_nothing (env : HashEnv π) (ops : List (LogOp π))
    (hops : Meets (archiveNext env) (fun s op => op.takesOldest s.log) {} ops)
    (workspace : WorkspaceId) (cursor : Int) (hcursor : 0 < cursor)
    (hholds : (exec (archiveNext env) {} ops).log.scoped (some workspace) ≠ [])
    (hfresh : ensureCursorFresh (exec (archiveNext env) {} ops).log workspace cursor = .ok ()) :
    ∀ event ∈ (exec (archiveNext env) {} ops).pruned workspace, event.id ≤ cursor := by
  have hstart : ArchiveInv ({} : Archive π) :=
    ⟨.nil, fun _ h => absurd h not_mem_nil, fun _ h => absurd h not_mem_nil,
      fun _ _ h => absurd h not_mem_nil⟩
  have hend := exec_inv_of_meets archiveInv_next ops {} hstart hops
  generalize exec (archiveNext env) {} ops = s at hholds hfresh hend ⊢
  intro event hevent
  obtain ⟨oldest, rest, hscoped⟩ := exists_cons_of_ne_nil hholds
  have holder : event.id < oldest.id :=
    hend.older workspace event hevent oldest (by simp [hscoped])
  have hdrawn : event.id ≤ s.log.lastId := hend.drawn event (Archive.mem_pruned.mp hevent).1
  have hbound := s.log.drawn.2
  have hmin : minEventId s.log workspace = some oldest.id := by simp [minEventId, hscoped]
  have hnear := (ensureCursorFresh_eq_ok hcursor hmin).mp hfresh
  by_cases hmax : cursor < i64Max
  · have := hnear hmax
    omega
  · omega

/-- Two events, the older one swept: a reader that has seen the older one goes on. -/
theorem fresh_cursor_lost_nothing_swept :
    let s := exec (archiveNext sampleEnv) {} [sampleAppend 1 1, sampleAppend 2 2, sampleSweep 2]
    s.pruned ⟨1⟩ ≠ [] ∧ ∀ event ∈ s.pruned ⟨1⟩, event.id ≤ 1 :=
  ⟨by decide +kernel, fresh_cursor_lost_nothing sampleEnv _ (by decide +kernel) ⟨1⟩ 1 (by decide)
    (by decide +kernel) (by decide +kernel)⟩

/-- **An emptied log calls every cursor fresh**, also one that has yet to see an event. -/
theorem emptied_log_hides_loss :
    let s := exec (archiveNext sampleEnv) {} [sampleAppend 1 1, sampleAppend 2 2, sampleSweep 3]
    1 ∈ s.held.map EventRow.id ∧ ensureCursorFresh s.log ⟨1⟩ 1 = .ok () ∧
    (s.pruned ⟨1⟩).map EventRow.id = [1, 2] := by
  decide +kernel

end Maidan
