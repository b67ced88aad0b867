/-
# The deferred list and the queue

`list_deferred` (`sqlite/footprints.rs`) shows the threads the claim queue holds back for their
footprint.  It is written with the fragments `claim_next` uses and with one thing of its own, the
CLOCK: `claim_next` compares deadlines with `ClaimGrace::lease_clock`, `list_deferred` binds
`Utc::now()`.

The lease clock never runs ahead (`leaseClock_truncate_le`): during the boot grace it stands at the
epoch, after it it is the reading cut to microseconds.  So a lease whose deadline lies between the
two has lapsed for the list and is live for the queue, and such a lease can go wrong both ways:

* the thread that carries it is shown although the queue does not offer it;
* a thread it holds back is left out although the queue holds it back.

`deferred_list_agrees_iff` says that this is all: the list is the queue's exactly when neither
happens.
-/
import Maidan.Claim.QueueCounts

namespace Maidan

open Relational List

/-! ## 1. The list -/

/-- `DeferralReason`. -/
inductive DeferralReason
  | overlap
  | repoPaused
  | slotFull

/-- `deferral_reasons`. -/
def deferralReasons (overlap paused slotFull : Bool) : List DeferralReason :=
  [(overlap, DeferralReason.overlap), (paused, .repoPaused), (slotFull, .slotFull)].filterMap
    fun (on, reason) => if on then some reason else none

/-- `DeferredThread`. -/
structure DeferredThread where
  threadId : ThreadId
  reasons : List DeferralReason

/-- The `WHERE` of `deferred_select`, without the reader. -/
def heldBack (db : Db) (ws : WorkspaceId) (now : Int) (cand : ThreadRow) : Bool :=
  inScope db (.workspace ws) cand && cand.state == .open && cand.tombstonedAt.isNone &&
    available cand now && deferred db cand.id now

/-- `ORDER BY cand.created_at, cand.id`. -/
def olderThread (a b : ThreadRow) : Prop :=
  a.createdAt < b.createdAt ∨ a.createdAt = b.createdAt ∧ a.id.val ≤ b.id.val

instance : DecidableRel olderThread := fun a b => by unfold olderThread; infer_instance

/-- The `LIMIT` of `deferred_select`. -/
def deferredLimit : Nat := 200

/-- `deferred_select`, at `now`. -/
def deferredSelect (db : Db) (ws : WorkspaceId) (reader : Option MemberId) (now : Int) :
    List ThreadRow :=
  ((db.threads.rows.filter fun cand => heldBack db ws now cand &&
      (match reader with
       | none => true
       | some member => readableThread db cand.id (some ws) member)).insertionSort
    olderThread).take deferredLimit

/-- `list_deferred`, called when the clock reads `clock`. -/
def listDeferred (db : Db) (ws : WorkspaceId) (readableBy : Option MemberId) (clock : Int) :
    List DeferredThread :=
  (deferredSelect db ws readableBy clock).map fun cand =>
    { threadId := cand.id
      reasons := deferralReasons (conflictsWithLiveClaims db cand.id clock)
        (repoPaused db cand.id) (slotFull db cand.id clock) }

variable {clock : Int} {ws : WorkspaceId}

/-! ## 2. Two clocks -/

section Clocks

variable {db : Db} {ws : WorkspaceId} {leaseClock now : Int} {cand : ThreadRow}

/-- The lease clock of `claim_next` is at most the reading it is taken from. -/
theorem leaseClock_truncate_le (grace : ClaimGrace) (h : 0 ≤ clock) :
    grace.leaseClock (truncateMicros clock) ≤ clock :=
  (grace.leaseClock_le (truncateMicros_nonneg h)).trans (truncateMicros_le clock)

/-- **The thread's lease lapsed between the two clocks.** -/
def lapsedBetween (cand : ThreadRow) (leaseClock now : Int) : Bool :=
  cand.assigneeId.isSome &&
    (match cand.assignmentExpiresAt with
     | none => false
     | some expires => decide (leaseClock ≤ expires) && decide (expires < now))

/-- What is free on the earlier clock is free on the later, and what is free on the later alone
lapsed in between. -/
theorem available_iff (h : leaseClock ≤ now) : available cand now = true ↔
      available cand leaseClock = true ∨ lapsedBetween cand leaseClock now = true := by
  unfold available lapsedBetween
  cases cand.assigneeId with
  | none => simp
  | some =>
    cases cand.assignmentExpiresAt with
    | none => simp
    | some =>
      simp only [Option.isNone_some, Option.isSome_some, Bool.false_or, Bool.true_and,
        Bool.and_eq_true, decide_eq_true_eq]
      omega

theorem not_available_of_lapsedBetween (h : lapsedBetween cand leaseClock now = true) :
    available cand leaseClock = false := by
  unfold lapsedBetween at h
  unfold available
  cases hholder : cand.assigneeId with
  | none => simp [hholder] at h
  | some =>
    cases hexpires : cand.assignmentExpiresAt with
    | none => rfl
    | some =>
      simp only [hholder, hexpires, Option.isSome_some, Bool.true_and, Bool.and_eq_true,
        decide_eq_true_eq] at h
      simp only [Option.isNone_some, Bool.false_or, decide_eq_false_iff_not]
      omega

/-- **Live claims only lapse**, so what is held back later was held back before. -/
theorem deferred_anti (h : leaseClock ≤ now) (hd : deferred db thread now = true) :
    deferred db thread leaseClock = true :=
  deferred_mono (fun _ hf => hf) rfl rfl (fun _ => liveThread_anti h) hd

end Clocks

/-! ## 3. When the two agree -/

/-- The open threads of the workspace. -/
def openIn (db : Db) (ws : WorkspaceId) : List ThreadRow :=
  openThreads db (.workspace ws) none none none

theorem mem_openIn : cand ∈ openIn db ws ↔
      cand ∈ db.threads.rows ∧ inScope db (.workspace ws) cand = true ∧ cand.state = .open ∧
        cand.tombstonedAt = none := by
  unfold openIn openThreads servedBy
  simp [and_assoc]

theorem heldBack_iff (hcand : cand ∈ db.threads.rows) : heldBack db ws now cand = true ↔
      cand ∈ openIn db ws ∧ available cand now = true ∧ deferred db cand.id now = true := by
  unfold heldBack
  rw [mem_openIn]
  simp [hcand, and_assoc]

/-- **With at most 200 of them held back, the `LIMIT` cuts nothing.** -/
theorem mem_listDeferred {id : ThreadId}
    (hfew : ((openIn db ws).filter fun cand => deferred db cand.id clock).length ≤ deferredLimit) :
    id ∈ (listDeferred db ws none clock).map DeferredThread.threadId ↔
      ∃ cand ∈ openIn db ws, cand.id = id ∧ available cand clock = true ∧
        deferred db id clock = true := by
  have hsub : (db.threads.rows.filter fun cand => heldBack db ws clock cand && true).length ≤
      deferredLimit := by
    refine le_trans ?_ hfew
    unfold openIn openThreads
    rw [filter_filter]
    refine (monotone_filter_right db.threads.rows ?_).length_le
    intro cand hback
    simp only [heldBack, Bool.and_eq_true, Bool.and_true] at hback
    simp [hback, servedBy]
  unfold listDeferred deferredSelect
  rw [take_of_length_le (by rw [length_insertionSort]; exact hsub), map_map]
  constructor
  · intro h
    obtain ⟨cand, hcand, rfl⟩ := mem_map.mp h
    obtain ⟨hmem, hback⟩ := mem_filter.mp ((perm_insertionSort _ _).mem_iff.mp hcand)
    rw [Bool.and_true] at hback
    obtain ⟨hopen, havail, hdeferred⟩ := (heldBack_iff hmem).mp hback
    exact ⟨cand, hopen, rfl, havail, hdeferred⟩
  · rintro ⟨cand, hopen, rfl, havail, hdeferred⟩
    have hmem := (mem_openIn.mp hopen).1
    refine mem_map.mpr ⟨cand, ?_, rfl⟩
    rw [(perm_insertionSort _ _).mem_iff, mem_filter, Bool.and_true]
    exact ⟨hmem, (heldBack_iff hmem).mpr ⟨hopen, havail, hdeferred⟩⟩

/-- **No lapsed lease makes a difference.**  On the reading, no thread whose own lease lapsed
between the clocks is held back, and every free thread held back on the lease clock still is. -/
structure LapsesHarmless (db : Db) (ws : WorkspaceId) (leaseClock now : Int) : Prop where
  own : ∀ cand ∈ openIn db ws, lapsedBetween cand leaseClock now = true →
    deferred db cand.id now = false
  others : ∀ cand ∈ openIn db ws, available cand leaseClock = true →
    deferred db cand.id leaseClock = true → deferred db cand.id now = true

/-- **When the list is the queue's.**  With at most 200 open threads of the workspace held back,
`list_deferred` returns exactly the open threads that `claim_next`, at the same reading, could take
over and holds back, IF AND ONLY IF no lease that lapsed between the two clocks makes a
difference. -/
theorem deferred_list_agrees_iff (db : Db) (grace : ClaimGrace) (ws : WorkspaceId) (clock : Int)
    (hclock : 0 ≤ clock)
    (hfew : ((openIn db ws).filter fun cand =>
      deferred db cand.id (grace.leaseClock (truncateMicros clock))).length ≤ 200) :
    (∀ id, id ∈ (listDeferred db ws none clock).map DeferredThread.threadId ↔
      ∃ cand ∈ openIn db ws, cand.id = id ∧
        available cand (grace.leaseClock (truncateMicros clock)) = true ∧
        deferred db id (grace.leaseClock (truncateMicros clock)) = true) ↔
      LapsesHarmless db ws (grace.leaseClock (truncateMicros clock)) clock := by
  have hle := leaseClock_truncate_le grace hclock
  generalize grace.leaseClock (truncateMicros clock) = leaseClock at hle hfew ⊢
  have hlisted : ((openIn db ws).filter fun cand => deferred db cand.id clock).length ≤
      deferredLimit :=
    (monotone_filter_right _ fun _ => deferred_anti hle).length_le.trans hfew
  -- a thread is determined by its id, so the two sides can be compared row by row
  have hrow : ∀ cand ∈ openIn db ws, ∀ now, (∃ cand' ∈ openIn db ws, cand'.id = cand.id ∧
      available cand' now = true ∧ deferred db cand.id now = true) ↔
      available cand now = true ∧ deferred db cand.id now = true := by
    intro cand hcand now
    constructor
    · rintro ⟨cand', hcand', hid, havail, hdeferred⟩
      obtain rfl := Table.eq_of_key_eq (mem_openIn.mp hcand').1 (mem_openIn.mp hcand).1 hid
      exact ⟨havail, hdeferred⟩
    · rintro ⟨havail, hdeferred⟩
      exact ⟨cand, hcand, rfl, havail, hdeferred⟩
  simp only [mem_listDeferred hlisted]
  constructor
  · intro hsame
    refine ⟨fun cand hcand hlapsed => ?_, fun cand hcand havail hdeferred => ?_⟩
    · rw [← Bool.not_eq_true]
      intro hdeferred
      have hthis := (hrow cand hcand clock).mpr ⟨(available_iff hle).mpr (.inr hlapsed), hdeferred⟩
      have havail := ((hrow cand hcand leaseClock).mp ((hsame cand.id).mp hthis)).1
      rw [not_available_of_lapsedBetween hlapsed] at havail
      cases havail
    · have hthis := (hrow cand hcand leaseClock).mpr ⟨havail, hdeferred⟩
      exact ((hrow cand hcand clock).mp ((hsame cand.id).mpr hthis)).2
  · rintro ⟨hown, hothers⟩ id
    constructor
    · rintro ⟨cand, hcand, rfl, havail, hdeferred⟩
      refine ⟨cand, hcand, rfl, ?_, deferred_anti hle hdeferred⟩
      rcases (available_iff hle).mp havail with havail | hlapsed
      · exact havail
      · rw [hown cand hcand hlapsed] at hdeferred
        cases hdeferred
    · rintro ⟨cand, hcand, rfl, havail, hdeferred⟩
      exact ⟨cand, hcand, rfl, (available_iff hle).mpr (.inl havail),
        hothers cand hcand havail hdeferred⟩

/-- A thread held on a lease until 900 s after the epoch, and a free one that edits the same
file. -/
def lapsedDb : Db where
  __ := quietDb
  threads := { rows :=
    [{ id := ⟨1⟩, channelId := ⟨1⟩, assigneeId := some ⟨1⟩, claimLeaseId := some ⟨1⟩,
       claimedAt := some (seconds 800), assignmentExpiresAt := some (seconds 900) },
     { id := ⟨2⟩, channelId := ⟨1⟩ }] }
  threadFootprints := contestedFile

/-- Before the deadline the second thread is on the list. -/
theorem deferred_list_agrees_before_deadline :
    ⟨2⟩ ∈ (listDeferred lapsedDb ⟨1⟩ none (seconds 850)).map DeferredThread.threadId := by
  have hagree : LapsesHarmless lapsedDb ⟨1⟩
      (ClaimGrace.leaseClock {} (truncateMicros (seconds 850))) (seconds 850) :=
    ⟨by decide, by decide⟩
  rw [(deferred_list_agrees_iff lapsedDb {} ⟨1⟩ (seconds 850) (by decide) (by decide)).mpr hagree]
  decide

/-- **During the boot grace the list leaves out what the queue holds back.**  At 1000 s, with the
grace held until 1100 s, `claim_next` treats the lapsed lease as live and holds the second thread
back; the list is empty. -/
theorem deferred_list_misses_during_grace :
    listDeferred lapsedDb ⟨1⟩ none (seconds 1000) = [] ∧
      ∃ cand ∈ openIn lapsedDb ⟨1⟩, cand.id = ⟨2⟩ ∧
        available cand (ClaimGrace.leaseClock { untilMicros := 1100000000 }
          (truncateMicros (seconds 1000))) = true ∧
        deferred lapsedDb ⟨2⟩ (ClaimGrace.leaseClock { untilMicros := 1100000000 }
          (truncateMicros (seconds 1000))) = true := by
  decide

end Maidan
