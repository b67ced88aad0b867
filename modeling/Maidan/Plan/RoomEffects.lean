/-
# What the transactions of a plan's room leave

The facts that later modules read off `Plan.Completion`, one for each function:

* §1 -- an append adds one row, so it changes the landing of its own thread at most;
* §2 -- `Moves`: which threads may have ended, and that none comes back;
* §3 -- `Touched`: a part of a transaction that ends and lands threads of `P` alone, leaves the rows
  of every plan alone and takes no message back.  `afterCloseLoop` is made of such parts;
* §4 -- `Replanned`: what a plan and an amendment do to the rows;
* §5 -- `RoomStep`: the five things a transaction can do, whichever it is.
-/
import Maidan.Plan.Completion
import Maidan.Plan.SpawnBudget

namespace Maidan

open Relational Table Run List

/-! ## 1. Appends -/

variable {log : EventLog PlanEvent} {x child parentId : ThreadId} {event : PlanEvent}
  {action : ThreadAction} {drawn : Draws} {reason : String} {i : Nat}
  {hash : List (Option String) → String} {member : MemberId}

section Appends

variable {env : RoomEnv} {draws : RoomDraws} {s s' : PlanRoom}

theorem latestLanded_appended (h : log'.rows = log.rows ++ [row]) (x : ThreadId) :
    latestLanded log' x =
      if row.payload.threadId = x ∧ row.payload.landing.isSome then some row
      else latestLanded log x := by
  unfold latestLanded
  rw [h, filter_append]
  by_cases hrow : row.payload.threadId = x ∧ row.payload.landing.isSome
  · simp [hrow]
  · rw [if_neg hrow]
    have hnone : ([row].filter fun r =>
        r.payload.threadId == x && r.payload.landing.isSome) = [] := by
      simpa using hrow
    rw [hnone, append_nil]

theorem landingInTx_appended (h : log'.rows = log.rows ++ [row]) (x : ThreadId) :
    landingInTx log' x =
      if row.payload.threadId = x then row.payload.landing.or (landingInTx log x)
      else landingInTx log x := by
  unfold landingInTx
  rw [latestLanded_appended h]
  by_cases hx : row.payload.threadId = x
  · cases hl : row.payload.landing with
    | none => simp [hx]
    | some => simp [hx, hl]
  · simp [hx]

theorem landingInTx_isSome_iff : (landingInTx log x).isSome = true ↔
      ∃ r ∈ log.rows, r.payload.threadId = x ∧ r.payload.landing.isSome = true := by
  unfold landingInTx
  cases hlast : latestLanded log x with
  | none =>
    have hnone := filter_eq_nil_iff.mp (getLast?_eq_none_iff.mp hlast)
    simpa using hnone
  | some r =>
    obtain ⟨hmem, hkind⟩ := mem_filter.mp (mem_of_getLast? hlast)
    obtain ⟨hthread, hlanding⟩ := Bool.and_eq_true_iff.mp hkind
    exact ⟨fun h => ⟨r, hmem, beq_iff_eq.mp hthread, h⟩, fun _ => hlanding⟩

/-- **What an append leaves**: the tables and the messages are as they were, its thread is there,
and its landing, if it is one, is the latest of that thread. -/
theorem appendEvent_spec (h : appendEvent env draws s event = .ok s') :
    s'.db = s.db ∧ s'.notices = s.notices ∧ s.db.HasThread event.threadId ∧
      ∀ x, landingInTx s'.log x =
        if event.threadId = x then event.landing.or (landingInTx s.log x)
        else landingInTx s.log x := by
  obtain ⟨⟨ws, channel⟩, hscope, h⟩ := bind_ok h
  obtain ⟨⟨log, row⟩, happend, h⟩ := bind_ok h
  cases h
  obtain ⟨content, _, hrow, hrows, _⟩ := appendRow_eq_ok happend
  have hpayload : row.payload = event := by
    rw [hrow]
    rfl
  refine ⟨rfl, rfl, ?_, fun x => ?_⟩
  · unfold threadScopeInTx at hscope
    unfold Db.HasThread
    cases hg : s.db.threads.get? event.threadId with
    | none => simp [hg] at hscope
    | some => rfl
  · rw [landingInTx_appended hrows, hpayload]

end Appends

/-! ## 2. Moves -/

/-- The thread is open or in review. -/
def isLive (db : Db) (x : ThreadId) : Bool := (stateIn db x).any fun q => !q.isTerminal

/-- **What may have ended**: only threads of `P` may have passed from live to ended, and none the
other way. -/
structure Moves (db db' : Db) (P : ThreadId → Prop) : Prop where
  others : ∀ {y q}, ¬P y → stateIn db y = some q →
    ∃ q', stateIn db' y = some q' ∧ q'.isTerminal = q.isTerminal
  ended : ∀ {y q}, stateIn db y = some q → q.isTerminal = true →
    ∃ q', stateIn db' y = some q' ∧ q'.isTerminal = true
  there : ∀ {y}, db.HasThread y → db'.HasThread y

variable {db db' : Db} {draws : PlanDraws} {authority : CancelAuthority} {transition : TransitionId}
  {now ended : Int} {outcome : CancelOutcome} {op : ClaimOp}

theorem hasThread_iff_stateIn : db.HasThread x ↔ ∃ q, stateIn db x = some q := by
  unfold Db.HasThread stateIn
  cases db.threads.get? x with
  | none | some => simp

theorem isLive_iff : isLive db x = true ↔ ∃ q, stateIn db x = some q ∧ q.isTerminal = false := by
  unfold isLive
  cases stateIn db x with
  | none | some => simp

namespace Moves

variable {db db1 db' : Db} {P Q : ThreadId → Prop}

theorem of_each (h : ∀ {y q}, stateIn db y = some q → ∃ q', stateIn db' y = some q' ∧
    (q.isTerminal = true → q'.isTerminal = true) ∧ (¬P y → q'.isTerminal = q.isTerminal)) :
    Moves db db' P where
  others := by
    intro y q hy hq
    obtain ⟨q', hq', _, hsame⟩ := h hq
    exact ⟨q', hq', hsame hy⟩
  ended := by
    intro y q hq hend
    obtain ⟨q', hq', hkept, _⟩ := h hq
    exact ⟨q', hq', hkept hend⟩
  there := by
    intro y hy
    obtain ⟨q, hq⟩ := hasThread_iff_stateIn.mp hy
    obtain ⟨q', hq', _⟩ := h hq
    exact hasThread_iff_stateIn.mpr ⟨q', hq'⟩

theorem of_states (h : ∀ {y q}, stateIn db y = some q →
    ∃ q', stateIn db' y = some q' ∧ q'.isTerminal = q.isTerminal) : Moves db db' P :=
  of_each fun hq => by
    obtain ⟨q', hq', heq⟩ := h hq
    exact ⟨q', hq', heq.trans, fun _ => heq⟩

theorem of_threads (h : db'.threads = db.threads) : Moves db db' P :=
  of_states fun {y q} hq => by
    unfold stateIn at hq ⊢
    rw [h]
    exact ⟨q, hq, rfl⟩

theorem refl (db : Db) : Moves db db P := of_threads rfl

theorem trans (h : Moves db db1 P) (h' : Moves db1 db' P) : Moves db db' P where
  others := by
    intro y q hy hq
    obtain ⟨q1, hq1, heq1⟩ := h.others hy hq
    obtain ⟨q', hq', heq⟩ := h'.others hy hq1
    exact ⟨q', hq', heq.trans heq1⟩
  ended := by
    intro y q hq hend
    obtain ⟨q1, hq1, hend1⟩ := h.ended hq hend
    exact h'.ended hq1 hend1
  there := fun hy => h'.there (h.there hy)

theorem mono (h : Moves db db' P) (hPQ : ∀ y, P y → Q y) : Moves db db' Q :=
  { h with others := fun hy hq => h.others (fun hp => hy (hPQ _ hp)) hq }

theorem of_update (h : db'.threads = db.threads.update x f hf)
    (hend : ∀ r, r.state.isTerminal = true → (f r).state.isTerminal = true) :
    Moves db db' (· = x) :=
  of_each fun {y q} hq => by
    unfold stateIn at hq ⊢
    obtain ⟨r, hr, rfl⟩ := map_eq_some_iff.mp hq
    rw [h, get?_update, hr]
    by_cases hy : y = x
    · exact ⟨(f r).state, by simp [hy], hend r, absurd hy⟩
    · exact ⟨r.state, by simp [hy], id, fun _ => rfl⟩

/-- **No thread comes back.** -/
theorem live (h : Moves db db' P) {y : ThreadId} (hy : db.HasThread y)
    (hlive : isLive db' y = true) : isLive db y = true := by
  obtain ⟨q', hq', hnot⟩ := isLive_iff.mp hlive
  obtain ⟨q, hq⟩ := hasThread_iff_stateIn.mp hy
  refine isLive_iff.mpr ⟨q, hq, ?_⟩
  by_contra hend
  obtain ⟨q2, hq2, hend2⟩ := h.ended hq (Bool.not_eq_false _ ▸ hend)
  obtain rfl := mem_unique hq' hq2
  rw [hnot] at hend2
  cases hend2

end Moves

section Transactions

variable {env : Env} {db db' : Db} {thread : ThreadId} {actor : MemberId}

theorem isTerminal_of_apply (h : apply q action = some q') :
    (action = .close → q' = .closed) ∧ (action ≠ .close → q'.isTerminal = q.isTerminal) ∧
      (q.isTerminal = true → q'.isTerminal = true) := by
  cases q <;> cases action <;> cases h <;> decide

/-- **A transition** ends no thread, unless it is a close, which leaves its thread closed. -/
theorem transitionInSpawning_moves
    (h : transitionInSpawning env db thread actor action drawn = .ok db') :
    Moves db db' (fun y => y = thread ∧ action = .close) ∧
      db'.threadPlanChildren = db.threadPlanChildren ∧
      (action = .close → stateIn db' thread = some .closed) := by
  obtain ⟨row, toState, rfl, hmoved⟩ := transitionInSpawning_moved h
  obtain ⟨hclose, hsame, hend⟩ := isTerminal_of_apply hmoved.applied
  obtain ⟨hrow, hself⟩ := hmoved.stateIn_self
  refine ⟨.of_each fun {y q} hq => ?_, by rw [transitionInSpawning_frame h],
    fun hc => hclose hc ▸ hself⟩
  by_cases hy : y = row.id
  · subst hy
    obtain rfl := mem_unique hrow hq
    exact ⟨toState, hself, hend, fun hP => hsame fun hc => hP ⟨rfl, hc⟩⟩
  · exact ⟨q, hmoved.stateIn_others hy hq, id, fun _ => rfl⟩

theorem ThreadRow.isTerminal_land (r : ThreadRow) : (r.land .closed).state.isTerminal = true := by
  rfl

/-- **A cancel** moves its thread. -/
theorem cancelInTx_moves
    (h : cancelInTx db thread actor reason authority transition now ended = .ok (db', outcome)) :
    Moves db db' (· = thread) ∧ db'.threadPlanChildren = db.threadPlanChildren := by
  rcases cancelInTx_cases h with rfl | ⟨row, _, hthreads, _, hframe⟩
  · exact ⟨.refl _, rfl⟩
  · exact ⟨.of_update hthreads fun r _ => r.isTerminal_land, by rw [hframe]⟩

theorem cancelInTx_kept
    (h : cancelInTx db thread actor reason authority transition now ended = .ok (db', outcome))
    (hnot : outcome ≠ .cancelled) : db' = db := by
  rcases cancelInTx_eq_ok h with ⟨hsame, -⟩ | ⟨row, db1, entry, -, -, hout, -⟩
  · exact hsame
  · exact absurd hout hnot

/-- **Closing as abandoned** moves its thread. -/
theorem closeAbandoned_moves
    (h : closeAbandoned env db thread actor maintainer close reference drawn =
      .ok (db', moved, kept)) :
    Moves db db' (· = thread) ∧ db'.threadPlanChildren = db.threadPlanChildren := by
  obtain ⟨hthreads, hframe⟩ := closeAbandoned_frame h
  refine ⟨.of_update hthreads fun r _ => r.isTerminal_land, ?_⟩
  rw [hframe]

/-- A claim operation that lands nothing and cancels nothing leaves every state as it was. -/
theorem RowMove.state_of_quiet {charge : Int} (h : RowMove db op r r' charge)
    (hquiet : op.quiet = true) : r'.state = r.state := by
  cases h with
  | keep | claim | takeover | assign | unassign | renew | acknowledge | release | reap
  | releaseMember | freeze | escalate => rfl
  | land | cancel => cases hquiet

theorem step_moves (hquiet : op.quiet = true) (h : step db op = .ok db') (P : ThreadId → Prop) :
    Moves db db' P ∧ db'.threadPlanChildren = db.threadPlanChildren := by
  refine ⟨.of_states fun {y q} hq => ?_, by rw [(step_committed h).frame]⟩
  unfold stateIn at hq ⊢
  obtain ⟨r, hr, rfl⟩ := map_eq_some_iff.mp hq
  cases (step_committed h).effect y with
  | absent hn =>
    rw [hn] at hr
    cases hr
  | moved hg hg' hmove =>
    obtain rfl := mem_unique hr hg
    exact ⟨r.state, by rw [hg', map_some, hmove.state_of_quiet hquiet], rfl⟩

end Transactions

/-! ## 3. Parts of a transaction -/

/-- **A part of a transaction** that ends and lands threads of `P` alone: no plan gains or loses a
row, a landing is of a thread that is there, and no message is taken back. -/
structure Touched (s s' : PlanRoom) (P : ThreadId → Prop) : Prop where
  rows : s'.db.threadPlanChildren = s.db.threadPlanChildren
  moves : Moves s.db s'.db P
  landing : ∀ {y}, ¬P y → landingInTx s'.log y = landingInTx s.log y
  grounded : ∀ {y}, (landingInTx s'.log y).isSome = true →
    (landingInTx s.log y).isSome = true ∨ s'.db.HasThread y
  notices : s.notices <+: s'.notices

namespace Touched

variable {s s₁ s' : PlanRoom} {P Q : ThreadId → Prop}

theorem refl (s : PlanRoom) : Touched s s P where
  rows := rfl
  moves := .refl _
  landing := fun _ => rfl
  grounded := .inl
  notices := prefix_rfl

theorem trans (h : Touched s s1 P) (h' : Touched s1 s' P) : Touched s s' P where
  rows := h'.rows.trans h.rows
  moves := h.moves.trans h'.moves
  landing := fun hy => (h'.landing hy).trans (h.landing hy)
  grounded := by
    intro y hy
    rcases h'.grounded hy with hold | hthere
    · exact (h.grounded hold).imp_right h'.moves.there
    · exact .inr hthere
  notices := h.notices.trans h'.notices

theorem mono (h : Touched s s' P) (hPQ : ∀ y, P y → Q y) : Touched s s' Q :=
  { h with moves := h.moves.mono hPQ, landing := fun hy => h.landing fun hp => hy (hPQ _ hp) }

theorem of_db (hrows : db.threadPlanChildren = s.db.threadPlanChildren) (hmoves : Moves s.db db P) :
    Touched s { s with db := db } P where
  rows := hrows
  moves := hmoves
  landing := fun _ => rfl
  grounded := .inl
  notices := prefix_rfl

end Touched

section Parts

variable {env : RoomEnv} {draws : RoomDraws} {s s' : PlanRoom} {P : ThreadId → Prop}
  {actor : MemberId}

theorem appendEvent_touched (hP : event.landing.isSome → P event.threadId)
    (h : appendEvent env draws s event = .ok s') : Touched s s' P := by
  obtain ⟨hdb, hnotices, hthere, hlanding⟩ := appendEvent_spec h
  refine ⟨by rw [hdb], by rw [hdb]; exact .refl _, fun {y} hy => ?_, fun {y} hy => ?_,
    by rw [hnotices]⟩
  · rw [hlanding]
    by_cases hx : event.threadId = y
    · cases hl : event.landing with
      | none => simp
      | some => exact absurd (hx ▸ hP (by rw [hl]; rfl)) hy
    · rw [if_neg hx]
  · rw [hlanding] at hy
    by_cases hx : event.threadId = y
    · rw [hdb]
      exact .inr (hx ▸ hthere)
    · rw [if_neg hx] at hy
      exact .inl hy

theorem appendEvent_quiet (hquiet : event.landing = none)
    (h : appendEvent env draws s event = .ok s') : Touched s s' P :=
  appendEvent_touched (fun hl => by rw [hquiet] at hl; cases hl) h

theorem appendEvents_touched (hquiet : ∀ e ∈ events, e.landing = none)
    (h : appendEvents env draws s events = .ok s') : Touched s s' P := by
  induction events generalizing s with
  | nil =>
    cases h
    exact .refl _
  | cons event rest ih =>
    obtain ⟨s1, happend, h⟩ := bind_ok h
    exact (appendEvent_quiet (hquiet event mem_cons_self) happend).trans
      (ih (fun e he => hquiet e (mem_cons_of_mem _ he)) h)

variable {thread : ThreadId}

/-- **A notice** is a message more, and nothing else. -/
theorem postNoticeInTx_spec (h : postNoticeInTx env draws s thread actor notice = .ok s') :
    s'.db = s.db ∧ s'.notices = s.notices ++ [⟨thread, actor, notice⟩] ∧
      ∀ x, landingInTx s'.log x = landingInTx s.log x := by
  obtain ⟨hdb, hnotices, _, hlanding⟩ := appendEvent_spec h
  refine ⟨hdb, hnotices, fun x => ?_⟩
  rw [hlanding]
  exact ite_self _

theorem postNoticeInTx_touched (h : postNoticeInTx env draws s thread actor notice = .ok s') :
    Touched s s' P := by
  have hnotice : Touched s { s with notices := s.notices ++ [⟨thread, actor, notice⟩] } P :=
    ⟨rfl, .refl _, fun _ => rfl, .inl, prefix_append _ _⟩
  exact hnotice.trans (appendEvent_quiet rfl h)

theorem transitionInTx_touched (h : transitionInTx env draws s thread actor action drawn = .ok s') :
    Touched s s' (fun y => y = thread ∧ action = .close) ∧
      (action = .close → stateIn s'.db thread = some .closed) := by
  obtain ⟨db, htransition, h⟩ := bind_ok h
  obtain ⟨hmoves, hrows, hclosed⟩ := transitionInSpawning_moves htransition
  refine ⟨(Touched.of_db hrows hmoves).trans (appendEvent_quiet rfl h), fun hc => ?_⟩
  rw [(appendEvent_spec h).1]
  exact hclosed hc

/-- **A close through the gates** leaves its thread closed. -/
theorem closeThroughGates_touched
    (h : closeThroughGates env draws s thread actor fromOpen review close = .ok s') :
    Touched s s' (· = thread) ∧ stateIn s'.db thread = some .closed := by
  unfold closeThroughGates at h
  split at h
  · obtain ⟨s1, hreview, h⟩ := bind_ok h
    obtain ⟨hclose, hclosed⟩ := transitionInTx_touched h
    have hfirst := (transitionInTx_touched hreview).1.mono fun _ hy => hy.1
    exact ⟨hfirst.trans (hclose.mono fun _ hy => hy.1), hclosed rfl⟩
  · obtain ⟨hclose, hclosed⟩ := transitionInTx_touched h
    exact ⟨hclose.mono fun _ hy => hy.1, hclosed rfl⟩

theorem blockEach_touched (h : blockEach env draws child actor s dependents = .ok s') :
    Touched s s' P := by
  induction dependents generalizing s with
  | nil =>
    cases h
    exact .refl _
  | cons dependent rest ih =>
    unfold blockEach at h
    dsimp only at h
    split at h
    · exact ih h
    · rename_i blocks _
      obtain ⟨s1, hblocked, h⟩ := bind_ok h
      obtain ⟨s2, hposted, h⟩ := bind_ok h
      have hblock : Touched s { s with db := { s.db with threadBlocks := blocks } } P :=
        .of_db rfl (.of_threads rfl)
      exact ((hblock.trans (appendEvent_quiet rfl hblocked)).trans
        (postNoticeInTx_touched hposted)).trans (ih h)

/-- **A child that closed without landing** moves and lands nothing. -/
theorem unlandedInTx_touched (h : unlandedInTx env draws s parent child actor = .ok s') :
    Touched s s' P := by
  obtain ⟨s1, hblocks, h⟩ := bind_ok h
  exact (blockEach_touched hblocks).trans (postNoticeInTx_touched h)

theorem cancelEvents_touched (h : cancelEvents env draws s thread actor reason fromState = .ok s') :
    Touched s s' P := by
  obtain ⟨s1, hevents, h⟩ := bind_ok h
  refine (appendEvents_touched (fun e he => ?_) hevents).trans (postNoticeInTx_touched h)
  simp only [mem_cons, not_mem_nil, or_false] at he
  rcases he with rfl | rfl
  · rfl
  · rfl

theorem cancelledEvents_touched
    (h : cancelledEvents env draws before actor reason s children = .ok s') : Touched s s' P := by
  induction children generalizing s with
  | nil =>
    cases h
    exact .refl _
  | cons child rest ih =>
    obtain ⟨s1, hfirst, h⟩ := bind_ok h
    exact (cancelEvents_touched hfirst).trans (ih h)

/-- **An attempt to close a plan**, one way or another: there was none to make; a gate refused, and
the plan was told; or the plan is closed. -/
theorem closeParentInTx_cases
    (h : closeParentInTx env draws i s parent completing actor = .ok (s', closed)) :
    (closed = false ∧ s' = s ∧ (isLive s.db parent = false ∨ everyChildLanded s parent = false ∨
      landingInTx s.log completing = none)) ∨
    (closed = false ∧ ∃ reason,
      postNoticeInTx env draws s parent actor (.planCloseRefused reason) = .ok s') ∨
    (closed = true ∧ isLive s.db parent = true ∧ Touched s s' (· = parent) ∧
      stateIn s'.db parent = some .closed) := by
  unfold closeParentInTx at h
  cases hg : s.db.threads.get? parent with
  | none => simp [hg] at h
  | some row =>
    have hstate : stateIn s.db parent = some row.state := by
      unfold stateIn
      rw [hg]
      rfl
    simp only [hg] at h
    split at h
    · unfold isLive
      cases hq : row.state <;> simp_all [ThreadState.isTerminal]
    · split at h
      · rename_i hall
        cases h
        exact .inl ⟨rfl, rfl, .inr (.inl (by simpa using hall))⟩
      · split at h
        · rename_i hnone
          cases h
          exact .inl ⟨rfl, rfl, .inr (.inr hnone)⟩
        · split at h
          · rename_i s1 hclose
            obtain ⟨s2, hlanded, h⟩ := bind_ok h
            obtain ⟨s3, hposted, h⟩ := bind_ok h
            cases h
            obtain ⟨htouched, hclosed⟩ := closeThroughGates_touched hclose
            have hmore := htouched.trans (appendEvent_touched (fun _ => rfl) hlanded)
            refine .inr (.inr ⟨rfl, ?_, hmore.trans (postNoticeInTx_touched hposted), ?_⟩)
            · refine isLive_iff.mpr ⟨row.state, hstate, ?_⟩
              cases hq : row.state <;> simp_all [ThreadState.isTerminal]
            · rw [(postNoticeInTx_spec hposted).1, (appendEvent_spec hlanded).1]
              exact hclosed
          · rename_i reason _
            obtain ⟨s1, hposted, h⟩ := bind_ok h
            cases h
            exact .inr (.inl ⟨rfl, reason, hposted⟩)
          · cases h

/-- **The follow-up** leaves the rows of every plan alone, and no thread comes back in it. -/
theorem afterCloseLoop_touched (h : afterCloseLoop env draws actor fuel i s child = .ok s') :
    Touched s s' fun _ => True := by
  induction fuel generalizing i s child with
  | zero =>
    cases h
    exact .refl _
  | succ fuel ih =>
    unfold afterCloseLoop at h
    split at h
    · cases h
      exact .refl _
    · split at h
      · exact unlandedInTx_touched h
      · obtain ⟨⟨s1, closed⟩, hparent, h⟩ := bind_ok h
        have hfirst : Touched s s1 fun _ => True := by
          rcases closeParentInTx_cases hparent with
            ⟨_, rfl, _⟩ | ⟨_, reason, hposted⟩ | ⟨_, _, htouched, _⟩
          · exact .refl _
          · exact postNoticeInTx_touched hposted
          · exact htouched.mono fun _ _ => trivial
        dsimp only at h
        split at h
        · exact hfirst.trans (ih h)
        · cases h
          exact hfirst

end Parts

/-! ## 4. Rows -/

/-- **What the schema promises of the rows of a plan**: the parent and the child are there, and a
thread is the child of one plan. -/
structure Rooted (db : Db) : Prop where
  parents : ∀ c ∈ db.threadPlanChildren.rows, db.HasThread c.parentThreadId
  children : ∀ c ∈ db.threadPlanChildren.rows, db.HasThread c.childThreadId
  unique : ∀ c ∈ db.threadPlanChildren.rows, ∀ c' ∈ db.threadPlanChildren.rows,
    c.childThreadId = c'.childThreadId → c = c'

theorem Rooted.keep (h : Rooted db) (hthere : ∀ {y}, db.HasThread y → db'.HasThread y)
    (hrows : db'.threadPlanChildren = db.threadPlanChildren) : Rooted db' where
  parents := by
    rw [hrows]
    exact fun c hc => hthere (h.parents c hc)
  children := by
    rw [hrows]
    exact fun c hc => hthere (h.children c hc)
  unique := by
    rw [hrows]
    exact h.unique

theorem Rooted.planParent_eq (h : Rooted db) (hc : c ∈ db.threadPlanChildren.rows) :
    planParentInTx db c.childThreadId = some c.parentThreadId := by
  unfold planParentInTx
  cases hfind : db.threadPlanChildren.rows.find? fun x => x.childThreadId == c.childThreadId with
  | none =>
    have hno := find?_eq_none.mp hfind c hc
    simp at hno
  | some c' =>
    have hthread : c'.childThreadId = c.childThreadId := by
      simpa using find?_some hfind
    rw [h.unique c' (mem_of_find?_eq_some hfind) c hc hthread]
    rfl

/-- **The rows were rewritten for one plan**: those of `gone` are out of it, and `new` are in it, on
threads that are new and open. -/
structure Replanned (db db' : Db) (parentId : ThreadId) (gone : List ThreadId)
    (new : List PlanChildRow) : Prop where
  moves : Moves db db' (· ∈ gone)
  parent : db.HasThread parentId
  rows : ∀ c, c ∈ db'.threadPlanChildren.rows ↔
    (c ∈ db.threadPlanChildren.rows ∧ c.childThreadId ∉ gone) ∨ c ∈ new
  fresh : ∀ c ∈ new, c.parentThreadId = parentId ∧ ¬db.HasThread c.childThreadId ∧
    stateIn db' c.childThreadId = some .open
  unique : ∀ c ∈ new, ∀ c' ∈ new, c.childThreadId = c'.childThreadId → c = c'

theorem Rooted.replanned (h : Rooted db) (hr : Replanned db db' parentId gone new) :
    Rooted db' where
  parents := by
    intro c hc
    rcases (hr.rows c).mp hc with ⟨hold, _⟩ | hnew
    · exact hr.moves.there (h.parents c hold)
    · rw [(hr.fresh c hnew).1]
      exact hr.moves.there hr.parent
  children := by
    intro c hc
    rcases (hr.rows c).mp hc with ⟨hold, _⟩ | hnew
    · exact hr.moves.there (h.children c hold)
    · exact hasThread_iff_stateIn.mpr ⟨_, (hr.fresh c hnew).2.2⟩
  unique := by
    intro c hc c' hc' heq
    rcases (hr.rows c).mp hc with ⟨hold, _⟩ | hnew
    · rcases (hr.rows c').mp hc' with ⟨hold', _⟩ | hnew'
      · exact h.unique c hold c' hold' heq
      · exact absurd (heq ▸ h.children c hold) (hr.fresh c' hnew').2.1
    · rcases (hr.rows c').mp hc' with ⟨hold', _⟩ | hnew'
      · exact absurd (heq ▸ h.children c' hold') (hr.fresh c hnew).2.1
      · exact hr.unique c hnew c' hnew' heq

theorem insertChildrenInTx_states
    (h : insertChildrenInTx hash parent parentId member draws firstPosition i db children =
      .ok (db', made)) : (∀ {y q}, stateIn db y = some q → stateIn db' y = some q) ∧
      ∀ t ∈ made.map PlannedChild.threadId, stateIn db' t = some .open := by
  induction children generalizing i db made with
  | nil =>
    cases h
    exact ⟨fun hq => hq, by simp⟩
  | cons child rest ih =>
    obtain ⟨db1, hchild, h⟩ := bind_ok h
    obtain ⟨⟨db2, made2⟩, hrest, h⟩ := bind_ok h
    cases h
    obtain ⟨hold, hopen⟩ := ih hrest
    obtain ⟨hin, -⟩ := insertChildInTx_in hchild
    have hnew : stateIn db1 (draws.thread i) = some .open := by
      unfold stateIn
      rw [hin.reads]
      simp [planThread]
    refine ⟨fun {y q} hq => hold ?_, ?_⟩
    · unfold stateIn at hq ⊢
      rw [hin.reads, if_neg, hq]
      rintro rfl
      rw [hin.free] at hq
      cases hq
    · intro t ht
      rcases mem_cons.mp ht with rfl | ht
      · exact hold hnew
      · exact hopen t ht

/-- Children made by `insert_children_in_tx` on rows from which `gone` are out. -/
theorem Replanned.of_planned {parent : PlanParent} (hparent : db.HasThread parentId)
    (hmoves : Moves db db1 (· ∈ gone)) (hthere : ∀ {y}, db1.HasThread y ↔ db.HasThread y)
    (hrows : ∀ c, c ∈ db1.threadPlanChildren.rows ↔
      c ∈ db.threadPlanChildren.rows ∧ c.childThreadId ∉ gone)
    (h : insertChildrenInTx hash parent parentId member draws firstPosition i db1 children =
      .ok (db2, made)) (hthreads : db'.threads = db2.threads)
    (hlast : db'.threadPlanChildren = db2.threadPlanChildren) :
    ∃ new, Replanned db db' parentId gone new ∧ new.length = children.length := by
  obtain ⟨hkeys, hplanned, _⟩ := insertChildrenInTx_spec h
  obtain ⟨hold, hopen⟩ := insertChildrenInTx_states h
  obtain ⟨new, hnewRows, hmade, hparents⟩ := hplanned.rows
  have hids : new.map PlanChildRow.childThreadId = made.map PlannedChild.threadId := by
    rw [← hmade, map_map]
    rfl
  have hmem : ∀ c ∈ new, c.childThreadId ∈ made.map PlannedChild.threadId := fun c hc =>
    hids ▸ mem_map_of_mem hc
  refine ⟨new, ⟨?_, hparent, fun c => ?_, fun c hc => ⟨hparents c hc, ?_, ?_⟩, ?_⟩, ?_⟩
  · exact (hmoves.trans (.of_states fun hq => ⟨_, hold hq, rfl⟩)).trans (.of_threads hthreads)
  · rw [hlast, hnewRows, mem_append, hrows]
  · exact fun hhas => hplanned.free _ (hmem c hc) (hthere.mpr hhas)
  · unfold stateIn
    rw [hthreads]
    exact hopen _ (hmem c hc)
  · exact fun c hc c' hc' heq => inj_on_of_nodup_map (hids ▸ hplanned.nodup) hc hc' heq
  · have hlength := congrArg List.length hids
    have hlength' := congrArg List.length hkeys
    simp only [length_map] at hlength hlength'
    exact hlength.trans hlength'

/-- **A submit** puts its children in the plan, and takes none out of any. -/
theorem submit_replanned {outcome : PlanOutcome}
    (h : submit hash db parentId member plan draws = .ok (db', outcome)) :
    ∃ new, Replanned db db' parentId [] new := by
  obtain ⟨_, hread, _⟩ := bind_ok h
  obtain ⟨parent, hparent, _⟩ := bind_ok hread
  obtain ⟨t, ht, _⟩ := parentRow_spec hparent
  have hthere : db.HasThread parentId := isSome_of_eq_some ht
  rcases submit_cases h with
    ⟨rfl, _⟩ | ⟨parent', made, db1, db2, db3, _, _, _, hinsert, hmade, hdeps, hhold, _⟩
  · exact ⟨[], .refl _, hthere, by simp, by simp, by simp⟩
  · have hf1 := insertPlan_frame hinsert
    have hf3 := (holdIf_spec hhold).frame_of (insertPlanDeps_spec hdeps).frame
    have hthreads : db'.threads = db2.threads := by
      rw [hf3]
    have hrows : db'.threadPlanChildren = db2.threadPlanChildren := by
      rw [hf3]
    have hmoves : Moves db db1 (· ∈ ([] : List ThreadId)) := .of_threads (by rw [hf1])
    have hsame : ∀ {y}, db1.HasThread y ↔ db.HasThread y := by
      unfold Db.HasThread
      rw [hf1]
    obtain ⟨new, hreplanned, _⟩ := Replanned.of_planned hthere hmoves hsame
      (by rw [hf1]; simp) hmade hthreads hrows
    exact ⟨new, hreplanned⟩

theorem cancelChildren_moves (h : cancelChildren member reason draws i db cancel = .ok db') :
    Moves db db' (· ∈ cancel.map PlannedChild.threadId) := by
  induction cancel generalizing i db with
  | nil =>
    cases h
    exact .refl _
  | cons child rest ih =>
    obtain ⟨⟨db1, outcome⟩, hcancel, h⟩ := bind_ok h
    dsimp only at h
    split at h
    · have hfirst : Moves db db1 (· = child.threadId) := by
        have htaken : Moves db (db.takeOut child.threadId) (· = child.threadId) :=
          .of_threads rfl
        exact htaken.trans (cancelInTx_moves hcancel).1
      refine (hfirst.mono fun y hy => ?_).trans ((ih h).mono fun y hy => ?_)
      · simp [hy]
      · exact mem_cons_of_mem _ hy
    · cases h

theorem Rooted.gone_iff {amend : AmendPlan} (h : Rooted db)
    (hacc : amend.Accepted (existingChildren db parentId) steps)
    (hc : c ∈ db.threadPlanChildren.rows) (hp : c.parentThreadId = parentId) :
    c.childThreadId ∈ steps.cancel.map PlannedChild.threadId ↔ c.childKey ∈ amend.cancel := by
  have hrow : ∀ pc ∈ steps.cancel, ∃ c' ∈ db.threadPlanChildren.rows,
      c'.parentThreadId = parentId ∧ c'.childKey = pc.key ∧ c'.childThreadId = pc.threadId := by
    intro pc hpc
    obtain ⟨e, he, hkey, hthread⟩ := hacc.cancelled pc hpc
    obtain ⟨⟨c', t⟩, hr, rfl⟩ := mem_map.mp he
    obtain ⟨⟨hc', hp'⟩, _⟩ := mem_amendRows.mp hr
    exact ⟨c', hc', hp', hkey, hthread⟩
  rw [← hacc.cancelKeys, mem_map, mem_map]
  constructor
  · rintro ⟨pc, hpc, hthread⟩
    obtain ⟨c', hc', _, hkey, hthread'⟩ := hrow pc hpc
    rw [h.unique c hc c' hc' (hthread.symm.trans hthread'.symm)]
    exact ⟨pc, hpc, hkey.symm⟩
  · rintro ⟨pc, hpc, hkey⟩
    obtain ⟨c', hc', hp', hkey', hthread⟩ := hrow pc hpc
    have hpk : (c.parentThreadId, c.childKey) = (c'.parentThreadId, c'.childKey) := by
      rw [hp, hp', ← hkey, hkey']
    rw [eq_of_key_eq hc hc' hpk]
    exact ⟨pc, hpc, hthread.symm⟩

/-- **An amendment** takes the children it names out of its plan, ends them, and puts in those it
adds. -/
theorem amend_replanned {amend : AmendPlan} {outcome : PlanAmendment} (hrooted : Rooted db)
    (hadd : (amend.add.map PlanChild.key).Nodup)
    (h : Maidan.amend hash db parentId member amend draws = .ok (db', outcome)) :
    ∃ gone new, Replanned db db' parentId gone new ∧ new.length = amend.add.length ∧
      (∀ c ∈ db.threadPlanChildren.rows, c.parentThreadId = parentId →
        (c.childThreadId ∈ gone ↔ c.childKey ∈ amend.cancel)) ∧
      ∀ x ∈ gone, ∃ c ∈ db.threadPlanChildren.rows, c.parentThreadId = parentId ∧
        c.childThreadId = x := by
  obtain ⟨parent, amendments, steps, hparent, _, _, _, hsteps, hwrites, _⟩ := amend_cases h
  have hacc := AmendPlan.steps_spec existing_keys_nodup hadd hsteps
  obtain ⟨t, ht, _⟩ := parentRow_spec hparent
  have hthere : db.HasThread parentId := isSome_of_eq_some ht
  obtain ⟨db1, db2, db3, db4, db5, hcancel, hadded, hwire, hrewrite, _, hhold, hdb⟩ :=
    amendInTx_cases hwrites
  have hf5 := (holdIf_spec hhold).frame_of (wiring_frame hwire hrewrite)
  have hthreads : db'.threads = db2.threads := by
    rw [hdb, hf5]
  have hrows : db'.threadPlanChildren = db2.threadPlanChildren := by
    rw [hdb, hf5]
  have hcancelled := (cancelChildren_spec hcancel).1
  have hsame : ∀ {y}, db1.HasThread y ↔ db.HasThread y := hcancelled.hasThread _
  obtain ⟨new, hreplanned, hlength⟩ := Replanned.of_planned hthere (cancelChildren_moves hcancel)
    hsame hcancelled.rows hadded hthreads hrows
  refine ⟨_, new, hreplanned, hacc.add ▸ hlength, fun c hc hp => hrooted.gone_iff hacc hc hp, ?_⟩
  intro x hx
  obtain ⟨pc, hpc, rfl⟩ := mem_map.mp hx
  obtain ⟨e, he, _, hthread⟩ := hacc.cancelled pc hpc
  obtain ⟨⟨c, t'⟩, hr, rfl⟩ := mem_map.mp he
  obtain ⟨⟨hc, hp⟩, _⟩ := mem_amendRows.mp hr
  exact ⟨c, hc, hp, hthread⟩

/-! ## 5. A transaction -/

/-- **What a transaction on the room can do.** -/
inductive RoomStep (env : RoomEnv) (draws : RoomDraws) (s s' : PlanRoom) : RoomOp → Prop
  | kept {op : RoomOp} (h : Touched s s' fun _ => False) : RoomStep env draws s s' op
  | closed {op : RoomOp} {s₁ : PlanRoom} {x : ThreadId} {actor : MemberId}
      (h : Touched s s₁ (· = x)) (hafter : afterCloseInTx env draws s₁ x actor = .ok s') :
      RoomStep env draws s s' op
  | landed {thread : ThreadId} {repo : String} {prNumber : Int} (hdb : s'.db = s.db)
      (h : Touched s s' (· = thread)) : RoomStep env draws s s' (.landedFact thread repo prNumber)
  | swept {op : RoomOp} {ids : List Int} (h : s' = { s with log := s.log.delete ids }) :
      RoomStep env draws s s' op
  | submitted {op : RoomOp} {parent : ThreadId} {db' : Db} {new : List PlanChildRow}
      (h : Replanned s.db db' parent [] new)
      (hevents : Touched { s with db := db' } s' fun _ => False) : RoomStep env draws s s' op
  | amended {parent : ThreadId} {member : MemberId} {request amendment : AmendPlan}
      {planDraws : PlanDraws} {db' : Db} {gone : List ThreadId} {new : List PlanChildRow}
      (hchecked : request.checked = .ok amendment) (h : Replanned s.db db' parent gone new)
      (hlength : new.length = amendment.add.length)
      (hgone : ∀ c ∈ s.db.threadPlanChildren.rows, c.parentThreadId = parent →
        (c.childThreadId ∈ gone ↔ c.childKey ∈ amendment.cancel))
      (hinside : ∀ x ∈ gone, ∃ c ∈ s.db.threadPlanChildren.rows, c.parentThreadId = parent ∧
        c.childThreadId = x)
      (hevents : Touched { s with db := db' } s' fun _ => False) :
      RoomStep env draws s s' (.amendPlan parent member request planDraws)

section Steps

variable {env : RoomEnv} {draws : RoomDraws} {s s' : PlanRoom} {op : RoomOp}

/-- **One transaction**, whichever it is. -/
theorem roomTx_step (hrooted : Rooted s.db) (h : roomTx env s draws op = .ok s') :
    RoomStep env draws s s' op := by
  cases op with
  | submitPlan =>
    obtain ⟨plan, _, h⟩ := bind_ok h
    obtain ⟨⟨db', outcome⟩, hsubmit, h⟩ := bind_ok h
    obtain ⟨new, hreplanned⟩ := submit_replanned hsubmit
    exact .submitted hreplanned (appendEvents_touched (by simp [PlanEvent.landing]) h)
  | amendPlan =>
    obtain ⟨amendment, hchecked, h⟩ := bind_ok h
    obtain ⟨⟨db', outcome⟩, hamend, h⟩ := bind_ok h
    obtain ⟨s1, hcancelled, h⟩ := bind_ok h
    have hchecked := badRequest_eq_ok.mp hchecked
    obtain ⟨gone, new, hreplanned, hlength, hgone, hinside⟩ := amend_replanned hrooted
      (AmendPlan.add_nodup_of_checked hchecked) hamend
    exact .amended hchecked hreplanned hlength hgone hinside
      ((cancelledEvents_touched hcancelled).trans
        (appendEvents_touched (by simp [PlanEvent.landing]) h))
  | transition thread actor action gate =>
    obtain ⟨s1, htransition, h⟩ := bind_ok h
    obtain ⟨db', hescalated, h⟩ := bind_ok h
    have htouched := (transitionInTx_touched htransition).1
    by_cases hclose : action = .close
    · subst hclose
      cases hescalated
      exact .closed (htouched.mono fun _ hy => hy.1) h
    · simp only [hclose, if_false] at h
      cases h
      refine .kept ((htouched.mono fun _ hy => absurd hy.2 hclose).trans ?_)
      unfold escalateIf at hescalated
      split at hescalated
      · have hstep : step s1.db (.escalate thread gate 0) = .ok db' := hescalated
        obtain ⟨hmoves, hrows⟩ := step_moves rfl hstep fun _ => False
        exact .of_db hrows hmoves
      · cases hescalated
        exact .refl _
  | landChange =>
    simp only [roomTx, landChange] at h
    split at h
    · cases h
      exact .kept (.refl _)
    · split at h
      · cases h
        exact .kept (.refl _)
      · obtain ⟨s1, hclose, h⟩ := bind_ok h
        obtain ⟨s2, hlanded, h⟩ := bind_ok h
        exact .closed ((closeThroughGates_touched hclose).1.trans
          (appendEvent_touched (fun _ => rfl) hlanded)) h
  | cancel =>
    obtain ⟨⟨db', outcome⟩, hcancel, h⟩ := bind_ok h
    obtain ⟨hmoves, hrows⟩ := cancelInTx_moves hcancel
    dsimp only at h
    split at h
    · obtain ⟨s1, hevents, h⟩ := bind_ok h
      exact .closed ((Touched.of_db hrows hmoves).trans (cancelEvents_touched hevents)) h
    · rename_i hnot
      cases h
      rw [cancelInTx_kept hcancel hnot]
      exact .kept (.refl _)
  | closeAbandoned =>
    obtain ⟨⟨db', moved, kept⟩, hclose, h⟩ := bind_ok h
    obtain ⟨s1, hevent, h⟩ := bind_ok h
    obtain ⟨hmoves, hrows⟩ := closeAbandoned_moves hclose
    exact .closed ((Touched.of_db hrows hmoves).trans (appendEvent_quiet rfl hevent)) h
  | landedFact =>
    exact .landed (appendEvent_spec h).1 (appendEvent_touched (fun _ => rfl) h)
  | pruneEvents | pruneWorkspaceEvents =>
    cases h
    exact .swept rfl
  | claim op hquiet =>
    obtain ⟨db', hstep, rfl⟩ := map_eq_ok.mp h
    obtain ⟨hmoves, hrows⟩ := step_moves hquiet hstep _
    exact .kept (.of_db hrows hmoves)

end Steps

end Maidan
