/-
# The bytes of an artifact: are they there while its row is, and gone when it is?

The rows of an artifact are in the database and its bytes in the blob store, one of each for all
workspaces that uploaded the same content.  No transaction covers both.  An upload PUTS the bytes,
writes the row, and puts the bytes back if they have gone meanwhile (`restore_if_reaped`).  An erase
that takes the last reference takes the row, and then REAPS the bytes: under a lease on the sha,
while which no row of it is written, and only if there is no row.

Between two of these steps anything may happen.  This module follows ONE content.  Each reap keeps
its own retry, where the queue has one row for the sha; an upsert that fails otherwise than over the
allowance, which leaves the bytes to nobody, is left out.

* While the row stands no lease is live (`Fenced`), so no delete lands: `stored_bytes_stay`.
* `restore_if_reaped` does not look whether the row is still there.  An erase between the two puts
  the bytes back for good, with no row and no reap to come (`restored_bytes_stay`).  Apart from that
  somebody is always on the way to them (`Attended`): `erased_bytes_go`.
-/
import Maidan.Lib.Run
import Maidan.Types

namespace Maidan

open Run

/-! ## 1. Uploads and reaps, step by step -/

inductive UploadStage
  | idle
  | put
  /-- The row is written, `restore_if_reaped` is not done. -/
  | rowWritten
  | returned
  | refused
deriving DecidableEq, Repr

inductive ReapStage
  | idle
  | due
  | deleting
  /-- The delete has landed. -/
  | deleted
  /-- The delete failed or overran, and waits for another try. -/
  | queued
  | done
deriving DecidableEq, Repr

/-- `REAP_LEASE_SECS`. -/
def reapLeaseSecs : Int := 60

/-- One content: its rows, its bytes, the lease on it, and who is at work. -/
structure Content where
  now : Int := 0
  row : Bool := false
  refs : List WorkspaceId := []
  bytes : Bool := false
  /-- The row of `maidan_artifact_reaps`: whose it is, and when it expires. -/
  lease : Option (Nat × Int) := none
  upload : Nat → UploadStage := fun _ => .idle
  reap : Nat → ReapStage := fun _ => .idle

/-- The steps of uploads, erases and reaps; each upload and each reap has a number. -/
inductive ContentOp
  | tick (elapsed : Nat)
  | put (u : Nat)
  /-- `upsert_with_event`, for a workspace or unscoped. -/
  | upsert (u : Nat) (workspace : Option WorkspaceId)
  /-- The upsert is refused with `OverAllowance`, and the bytes are to be reaped. -/
  | refuse (u r : Nat)
  | restore (u : Nat)
  /-- `erase_ref_in_tx`, of an erase or a media expiry. -/
  | erase (workspace : WorkspaceId) (r : Nat)
  /-- `purge_on`; `uploaded`: the row names a member of the workspace. -/
  | purge (workspace : WorkspaceId) (uploaded : Bool) (r : Nat)
  /-- `reap_blob`, up to its lease. -/
  | claim (r : Nat)
  /-- The delete takes effect. -/
  | land (r : Nat)
  | answer (r : Nat)
  | fail (r : Nat)
  /-- The delete is abandoned: it may land yet, and its lease is left to lapse. -/
  | overrun (r : Nat)
  | retry (r : Nat)

namespace Content

variable (s : Content)

/-- `reap_in_progress`. -/
def reapInProgress : Bool := s.lease.any fun l => s.now < l.2

def setUpload (u : Nat) (stage : UploadStage) : Content :=
  { s with upload := Function.update s.upload u stage }

def setReap (r : Nat) (stage : ReapStage) : Content :=
  { s with reap := Function.update s.reap r stage }

/-- `DELETE FROM maidan_artifact_reaps WHERE sha256 = ? AND token = ?`. -/
def release (r : Nat) : Content := { s with lease := s.lease.filter fun l => l.1 ≠ r }

/-- The row goes when nobody refers to it any more, and a reap is due. -/
def dropRef (workspace : WorkspaceId) (r : Nat) : Content :=
  let refs := s.refs.filter (· ≠ workspace)
  if s.row = true ∧ refs = [] then { s.setReap r .due with refs, row := false } else { s with refs }

/-- Whether the step is its process's next, and waits for no lease. -/
def ready : ContentOp → Bool
  | .tick _ | .land _ => true
  | .put u => s.upload u = .idle
  | .upsert u _ => s.upload u = .put ∧ s.reapInProgress = false
  | .refuse u r => s.upload u = .put ∧ s.reap r = .idle
  | .restore u => s.upload u = .rowWritten
  | .erase workspace r => workspace ∈ s.refs ∧ s.reap r = .idle
  | .purge workspace uploaded r => (workspace ∈ s.refs ∨ uploaded) ∧ s.reap r = .idle
  | .claim r => s.reap r = .due ∧ s.reapInProgress = false
  | .answer r => s.reap r = .deleted
  | .fail r => s.reap r = .due ∨ s.reap r = .deleting ∨ s.reap r = .deleted
  | .overrun r => s.reap r = .deleting ∨ s.reap r = .deleted
  | .retry r => s.reap r = .queued

def step : ContentOp → Content
  | .tick elapsed => { s with now := s.now + elapsed }
  | .put u => { s.setUpload u .put with bytes := true }
  | .upsert u workspace =>
    { s.setUpload u .rowWritten with row := true, refs := s.refs.union workspace.toList }
  | .refuse u r => (s.setUpload u .refused).setReap r .due
  | .restore u => { s.setUpload u .returned with bytes := true }
  | .erase workspace r | .purge workspace _ r => s.dropRef workspace r
  | .claim r =>
    if s.row then s.setReap r .done
    else { s.setReap r .deleting with lease := some (r, s.now + seconds reapLeaseSecs) }
  | .land r =>
    { s with
      bytes := false
      reap := if s.reap r = .deleting then Function.update s.reap r .deleted else s.reap }
  | .answer r => (s.release r).setReap r .done
  | .fail r => (s.release r).setReap r .queued
  | .overrun r => s.setReap r .queued
  | .retry r => s.setReap r .due

def next (s : Content) (op : ContentOp) : Content := if s.ready op then s.step op else s

/-! ## 2. While the row stands -/

/-- **A delete has no effect after its lease has lapsed.** -/
def LandsInTime (s : Content) (op : ContentOp) : Prop :=
  ∀ r, op = .land r → ∃ expires, s.lease = some (r, expires) ∧ s.now < expires

/-- **Where the row stands no lease is live.** -/
def Fenced (s : Content) : Prop := s.row = true → s.reapInProgress = false

variable {s} {op : ContentOp}

theorem next_cases {P : Content → Prop} (h : P s) (hstep : s.ready op = true → P (s.step op)) :
    P (s.next op) := by
  unfold next
  split
  · exact hstep ‹_›
  · exact h

theorem reapInProgress_eq_false :
    s.reapInProgress = false ↔ ∀ l, s.lease = some l → l.2 ≤ s.now := by
  unfold reapInProgress
  cases s.lease with
  | none | some => simp

theorem Fenced.next (h : Fenced s) : Fenced (s.next op) := by
  refine next_cases h fun hready hrow => ?_
  cases op with
  | put | refuse | restore | overrun | retry | land => exact h hrow
  | tick elapsed =>
    rw [reapInProgress_eq_false]
    intro l hl
    have hlapsed := reapInProgress_eq_false.mp (h hrow) l hl
    exact Int.le_trans hlapsed (Int.le_add_of_nonneg_right (Int.natCast_nonneg elapsed))
  | upsert => exact (of_decide_eq_true hready).2
  | erase | purge =>
    simp only [step, dropRef] at hrow ⊢
    split at hrow
    · cases hrow
    · rw [if_neg ‹_›]
      exact h hrow
  | claim =>
    simp only [step] at hrow ⊢
    split at hrow
    · rw [if_pos ‹_›]
      exact h hrow
    · exact absurd hrow ‹_›
  | answer | fail =>
    rw [reapInProgress_eq_false]
    intro l hl
    exact reapInProgress_eq_false.mp (h hrow) l (Option.filter_eq_some_iff.mp hl).1

/-- Only a delete takes bytes, and no delete lands while the row stands. -/
theorem bytes_next (hfenced : Fenced s) (hland : LandsInTime s op) (hrow : s.row = true)
    (h : s.bytes = true) : (s.next op).bytes = true := by
  refine next_cases (P := fun s => s.bytes = true) h fun _ => ?_
  cases op with
  | land r =>
    obtain ⟨expires, hlease, hlive⟩ := hland r rfl
    exact absurd (reapInProgress_eq_false.mp (hfenced hrow) _ hlease) (Int.not_le.mpr hlive)
  | put | restore => rfl
  | tick | upsert | refuse | answer | fail | overrun | retry => exact h
  | claim =>
    simp only [step]
    split
    · exact h
    · exact h
  | erase | purge =>
    simp only [step, dropRef]
    split
    · exact h
    · exact h

/-- **A stored artifact never loses its bytes.**  From the moment an upload has returned, for as long
as the row stands and no delete lands after its lease, the bytes are there. -/
theorem stored_bytes_stay {before after : List ContentOp} {u : Nat}
    (hreturns : (exec next {} before).upload u = .rowWritten)
    (hsince : Meets next (fun s op => s.row = true ∧ s.LandsInTime op)
      (exec next {} (before ++ [.restore u])) after) :
    (exec next {} (before ++ [.restore u] ++ after)).bytes = true := by
  have hfenced : Fenced (exec next {} (before ++ [.restore u])) :=
    exec_inv (fun _ _ h => h.next) _ fun _ => rfl
  have hbytes : (exec next {} (before ++ [.restore u])).bytes = true := by
    have hready : (exec next {} before).ready (.restore u) = true := decide_eq_true hreturns
    rw [exec_append, exec_cons, exec_nil, next, if_pos hready]
    rfl
  rw [exec_append]
  exact (exec_inv_of_meets (fun s op (h : Fenced s ∧ s.bytes = true) hop =>
    ⟨h.1.next, bytes_next h.1 hop.2 hop.1 h.2⟩) after _ ⟨hfenced, hbytes⟩ hsince).2

/-- Workspace 1 has uploaded the content and erased it, and the bytes are reaped. -/
def reapedOps : List ContentOp :=
  [.put 0, .upsert 0 (some ⟨1⟩), .restore 0, .erase ⟨1⟩ 0, .claim 0, .land 0, .answer 0]

/-- Workspace 2 uploads it once more; then workspace 3 does too, and workspace 2 erases it. -/
theorem stored_bytes_stay_shared : (exec next {} reapedOps).bytes = false ∧
    (exec next {} (reapedOps ++ [.put 1, .upsert 1 (some ⟨2⟩)] ++ [.restore 1] ++
      [.put 2, .upsert 2 (some ⟨3⟩), .erase ⟨2⟩ 1])).bytes = true :=
  ⟨by decide, stored_bytes_stay (by decide)
    ⟨⟨by decide, nofun⟩, ⟨by decide, nofun⟩, ⟨by decide, nofun⟩, trivial⟩⟩

/-! ## 3. When the row is gone -/

/-- Nobody is at work. -/
def Finished (s : Content) : Prop :=
  (∀ u, s.upload u ≠ .put ∧ s.upload u ≠ .rowWritten) ∧ ∀ r, s.reap r = .idle ∨ s.reap r = .done

/-- The step takes the last reference, and the row with it. -/
def takesRow (s : Content) : ContentOp → Bool
  | .erase workspace _ | .purge workspace _ _ => s.row = true ∧ s.refs.filter (· ≠ workspace) = []
  | _ => false

/-- **The row is not taken from an upload that has yet to see to its bytes.** -/
def LeavesUploads (s : Content) (op : ContentOp) : Prop :=
  s.ready op = true → s.takesRow op = true → ∀ u, s.upload u ≠ .rowWritten

/-- Somebody is on the way to the bytes. -/
def Pending (s : Content) : Prop :=
  (∃ u, s.upload u = .put) ∨ ∃ r, s.reap r = .due ∨ s.reap r = .deleting ∨ s.reap r = .queued

/-- **Bytes without a row are attended to.** -/
structure Attended (s : Content) : Prop where
  written : ∀ u, s.upload u = .rowWritten → s.row = true
  orphan : s.bytes = true → s.row = false → s.Pending

theorem Pending.of_reap (hreap : s.reap = Function.update before r stage)
    (h : stage = .due ∨ stage = .deleting ∨ stage = .queued) : s.Pending :=
  .inr ⟨r, by simpa [hreap] using h⟩

/-- The upload moves on to a stage that is not `rowWritten`. -/
theorem Attended.written_setUpload (h : Attended s) (hstage : stage ≠ .rowWritten) (v : Nat)
    (hv : (s.setUpload u stage).upload v = .rowWritten) : s.row = true := by
  simp only [setUpload, Function.update_apply] at hv
  split at hv
  · exact absurd hv hstage
  · exact h.written v hv

theorem Attended.step (h : Attended s) (hready : s.ready op = true) (hleaves : LeavesUploads s op) :
    Attended (s.step op) := by
  cases op with
  | tick => exact ⟨h.written, h.orphan⟩
  | put u => exact ⟨h.written_setUpload nofun, fun _ _ => .inl ⟨u, by simp [setUpload, Content.step]⟩⟩
  | upsert => exact ⟨fun _ _ => rfl, nofun⟩
  | refuse => exact ⟨h.written_setUpload nofun, fun _ _ => .of_reap rfl (.inl rfl)⟩
  | restore u =>
    have hrow : s.row = true := h.written u (of_decide_eq_true hready)
    exact ⟨fun _ _ => hrow, fun _ hgone => absurd (hrow.symm.trans hgone) nofun⟩
  | erase | purge =>
    simp only [Content.step, dropRef]
    split
    · rename_i hlast
      have hnone := hleaves hready (decide_eq_true hlast)
      exact ⟨fun u hu => absurd hu (hnone u), fun _ _ => .of_reap rfl (.inl rfl)⟩
    · exact ⟨h.written, h.orphan⟩
  | claim =>
    simp only [Content.step]
    split
    · rename_i hrow
      exact ⟨h.written, fun _ hgone => absurd (hrow.symm.trans hgone) nofun⟩
    · exact ⟨h.written, fun _ _ => .of_reap rfl (.inr (.inl rfl))⟩
  | land => exact ⟨h.written, nofun⟩
  | answer r =>
    refine ⟨h.written, fun hbytes hgone => ?_⟩
    have hdeleted : s.reap r = .deleted := of_decide_eq_true hready
    rcases h.orphan hbytes hgone with hput | ⟨r', hr'⟩
    · exact .inl hput
    · have hne : r' ≠ r := by
        rintro rfl
        simp [hdeleted] at hr'
      exact .inr ⟨r', by simpa [Content.step, setReap, release, hne] using hr'⟩
  | fail | overrun => exact ⟨h.written, fun _ _ => .of_reap rfl (.inr (.inr rfl))⟩
  | retry => exact ⟨h.written, fun _ _ => .of_reap rfl (.inl rfl)⟩

/-- **Erased bytes do not stay for good**, where no row is taken from an upload that has yet to see to
its bytes: once all uploads and reaps are finished, there are bytes only where there is a row. -/
theorem erased_bytes_go {ops : List ContentOp} (hops : Meets next LeavesUploads {} ops)
    (hfinished : Finished (exec next {} ops)) (hbytes : (exec next {} ops).bytes = true) :
    (exec next {} ops).row = true := by
  have hattended : Attended (exec next {} ops) := by
    refine exec_inv_of_meets (fun s op (h : Attended s) hop => ?_) ops {} ⟨nofun, nofun⟩ hops
    exact next_cases h fun hready => h.step hready hop
  by_contra hrow
  rcases hattended.orphan hbytes (Bool.not_eq_true _ ▸ hrow) with ⟨u, hu⟩ | ⟨r, hr⟩
  · exact (hfinished.1 u).1 hu
  · rcases hfinished.2 r with hidle | hdone
    · simp [hidle] at hr
    · simp [hdone] at hr

/-- Workspace 2 uploads the content after it was reaped. -/
theorem erased_bytes_go_shared :
    (exec next {} (reapedOps ++ [.put 1, .upsert 1 (some ⟨2⟩), .restore 1])).row = true := by
  refine erased_bytes_go ?_ ⟨fun u => ?_, fun r => ?_⟩ (by decide)
  · refine ⟨nofun, nofun, nofun, fun _ _ u => ?_, ?_⟩
    · rcases u with _ | u <;> exact nofun
    · exact ⟨fun _ => nofun, fun _ => nofun, fun _ => nofun, fun _ => nofun, fun _ => nofun,
        fun _ => nofun, trivial⟩
  · rcases u with _ | _ | u <;> exact ⟨nofun, nofun⟩
  · rcases r with _ | r
    · exact .inr rfl
    · exact .inl rfl

/-- **An erase falls between an upload's row and its `restore_if_reaped`**: everyone is finished, the
row is gone, and the bytes are back. -/
theorem restored_bytes_stay :
    let s := exec next {} [.put 0, .upsert 0 (some ⟨1⟩), .erase ⟨1⟩ 0, .claim 0, .land 0, .answer 0,
      .restore 0]
    Finished s ∧ s.bytes = true ∧ s.row = false := by
  refine ⟨⟨fun u => ?_, fun r => ?_⟩, by decide, by decide⟩
  · rcases u with _ | u <;> exact ⟨nofun, nofun⟩
  · rcases r with _ | r
    · exact .inr rfl
    · exact .inl rfl

end Content

end Maidan
