/-
# Retention and the plans that read the log

Whether a plan closes is decided by `landing_in_tx`, and that reads the very table the sweeps
delete from.  This module compares a run with the same run WITHOUT its sweeps.

* §1 -- `Agree K`: two rooms that differ in their logs alone, with the same landing for every thread
  of `K` and the same last id.  Each function of the follow-up keeps two such rooms in lockstep as
  long as `K` has the threads whose landing it reads.
* §2 -- every transaction: what it may read are the children of live plans and live children
  (`Matters`), and once a thread does not matter it never will again.
* §3 -- sweeps.  `retention_changes_no_plan` holds of the runs in which no sweep takes the latest
  landing of a child that matters; `swept_landing_keeps_plan_open` has a run in which one does.
-/
import Maidan.Plan.Noticed

namespace Maidan

open Relational Run List

/-! ## 1. Two rooms in lockstep -/

/-- **Two rooms that agree on `K`.** -/
structure Agree (K : ThreadId → Prop) (s t : PlanRoom) : Prop where
  db : t.db = s.db
  notices : t.notices = s.notices
  lastId : t.log.lastId = s.log.lastId
  landing : ∀ {x}, K x → landingInTx t.log x = landingInTx s.log x

namespace Agree

variable {K K' : ThreadId → Prop} {s t : PlanRoom}

theorem refl (s : PlanRoom) : Agree K s s := ⟨rfl, rfl, rfl, fun _ => rfl⟩

theorem mono (h : Agree K s t) (hK : ∀ x, K' x → K x) : Agree K' s t :=
  ⟨h.db, h.notices, h.lastId, fun hx => h.landing (hK _ hx)⟩

theorem withDb (h : Agree K s t) (db : Db) : Agree K { s with db := db } { t with db := db } :=
  ⟨rfl, h.notices, h.lastId, h.landing⟩

theorem withNotices (h : Agree K s t) (notices : List PostedNotice) :
    Agree K { s with notices := notices } { t with notices := notices } :=
  ⟨h.db, rfl, h.lastId, h.landing⟩

end Agree

variable {parent x : ThreadId} {db db' : Db} {drawn : Draws} {op : RoomOp} {P : ThreadId → Prop}

variable {s s' : PlanRoom} {env : RoomEnv} {draws : RoomDraws} {i : Nat} {reason : String}
  {authority : CancelAuthority} {transition : TransitionId} {now ended : Int}

section Functions

variable {env : RoomEnv} {draws : RoomDraws} {K : ThreadId → Prop} {s t : PlanRoom}
  {actor : MemberId}

/-- Logs that number alike take an event alike. -/
theorem appendRow_lockstep {payload : π} (h : log'.lastId = log.lastId) :
    Lockstep (fun a b => b.1.lastId = a.1.lastId ∧ (∃ r, a.1.rows = log.rows ++ [r] ∧
        r.payload = payload) ∧ ∃ r, b.1.rows = log'.rows ++ [r] ∧ r.payload = payload)
      (appendRow json log ws at' payload none) (appendRow json log' ws at' payload none) := by
  unfold appendRow
  cases contentHash json payload with
  | none => exact rfl
  | some =>
    dsimp only
    by_cases hroom : log.lastId < i64Max
    · rw [dif_pos hroom, dif_pos (h ▸ hroom)]
      refine ⟨?_, ⟨_, rfl, rfl⟩, ⟨_, rfl, rfl⟩⟩
      change log'.lastId + 1 = log.lastId + 1
      rw [h]
    · rw [dif_neg hroom, dif_neg (h ▸ hroom)]
      exact rfl

section

variable (h : Agree K s t)
include h

/-- **An append** keeps two rooms agreeing, and makes them agree on the thread of a landing. -/
theorem appendEvent_lockstep (event : PlanEvent) :
    Lockstep (Agree fun x => K x ∨ (event.landing.isSome ∧ x = event.threadId))
      (appendEvent env draws s event) (appendEvent env draws t event) := by
  unfold appendEvent
  rw [h.db]
  refine Lockstep.bind_same fun ⟨ws, channel⟩ _ => ?_
  rw [h.lastId]
  refine (appendRow_lockstep h.lastId).bind ?_
  rintro ⟨log, r⟩ ⟨log', r'⟩ - - ⟨hlast, ⟨row, hrow, hpayload⟩, ⟨row', hrow', hpayload'⟩⟩
  refine ⟨rfl, h.notices, hlast, fun {x} hx => ?_⟩
  rw [landingInTx_appended hrow, landingInTx_appended hrow', hpayload, hpayload']
  rcases hx with hx | ⟨hsome, rfl⟩
  · rw [h.landing hx]
  · obtain ⟨l, hl⟩ := isSome_iff_exists.mp hsome
    simp [hl]

theorem appendEvent_agree (event : PlanEvent) :
    Lockstep (Agree K) (appendEvent env draws s event) (appendEvent env draws t event) :=
  (appendEvent_lockstep h event).mono fun _ _ hab => hab.mono fun _ => .inl

theorem appendEvents_agree (events : List PlanEvent) :
    Lockstep (Agree K) (appendEvents env draws s events) (appendEvents env draws t events) := by
  induction events generalizing s t with
  | nil => exact h
  | cons event rest ih =>
    exact (appendEvent_agree h event).bind fun _ _ _ _ hab => ih hab

theorem postNoticeInTx_agree (thread : ThreadId) (notice : PlanNotice) :
    Lockstep (Agree K) (postNoticeInTx env draws s thread actor notice)
      (postNoticeInTx env draws t thread actor notice) := by
  unfold postNoticeInTx
  rw [h.notices]
  exact appendEvent_agree (h.withNotices _) _

theorem transitionInTx_agree (thread : ThreadId) (action : ThreadAction) (drawn : Draws) :
    Lockstep (Agree K) (transitionInTx env draws s thread actor action drawn)
      (transitionInTx env draws t thread actor action drawn) := by
  unfold transitionInTx
  rw [h.db]
  exact Lockstep.bind_same fun db _ => appendEvent_agree (h.withDb db) _

theorem closeThroughGates_agree (thread : ThreadId) (fromOpen : Bool) (review close : Draws) :
    Lockstep (Agree K) (closeThroughGates env draws s thread actor fromOpen review close)
      (closeThroughGates env draws t thread actor fromOpen review close) := by
  unfold closeThroughGates
  split
  · exact (transitionInTx_agree h thread _ _).bind fun _ _ _ _ hab =>
      transitionInTx_agree hab thread _ _
  · exact transitionInTx_agree h thread _ _

theorem blockEach_agree (child : ThreadId) (dependents : List ThreadId) :
    Lockstep (Agree K) (blockEach env draws child actor s dependents)
      (blockEach env draws child actor t dependents) := by
  induction dependents generalizing s t with
  | nil => exact h
  | cons dependent rest ih =>
    unfold blockEach
    dsimp only
    rw [h.db]
    split
    · exact ih h
    · refine (appendEvent_agree (h.withDb _) _).bind fun _ _ _ _ hab => ?_
      exact (postNoticeInTx_agree hab _ _).bind fun _ _ _ _ hab => ih hab

theorem unlandedInTx_agree (parent child : ThreadId) :
    Lockstep (Agree K) (unlandedInTx env draws s parent child actor)
      (unlandedInTx env draws t parent child actor) := by
  unfold unlandedInTx
  rw [h.db]
  exact (blockEach_agree h child _).bind fun _ _ _ _ hab => postNoticeInTx_agree hab _ _

theorem cancelEvents_agree (thread : ThreadId) (reason : String) (fromState : ThreadState) :
    Lockstep (Agree K) (cancelEvents env draws s thread actor reason fromState)
      (cancelEvents env draws t thread actor reason fromState) :=
  (appendEvents_agree h _).bind fun _ _ _ _ hab => postNoticeInTx_agree hab _ _

theorem cancelledEvents_agree (before : Db) (reason : String) (children : List PlannedChild) :
    Lockstep (Agree K) (cancelledEvents env draws before actor reason s children)
      (cancelledEvents env draws before actor reason t children) := by
  induction children generalizing s t with
  | nil => exact h
  | cons child rest ih =>
    exact (cancelEvents_agree h _ _ _).bind fun _ _ _ _ hab => ih hab

/-- Of the log it reads the landings of the parent's children, and no others. -/
theorem everyChildLanded_agree
    (hchildren : ∀ c ∈ s.db.threadPlanChildren.rows, c.parentThreadId = parent → K c.childThreadId) :
    everyChildLanded t parent = everyChildLanded s parent := by
  unfold everyChildLanded
  rw [h.db, Bool.eq_iff_iff, all_eq_true, all_eq_true]
  refine forall₂_congr fun r hr => ?_
  obtain ⟨⟨hc, hp⟩, _⟩ := mem_amendRows.mp hr
  rw [h.landing (hchildren r.1 hc hp)]

/-- **An attempt to close a plan** reads the landings of the child that completes it and, if the
plan is live, of its children.  Where it closes the plan the rooms agree on the plan too. -/
theorem closeParentInTx_agree (hcompleting : K completing) (hchildren : isLive s.db parent = true →
      ∀ c ∈ s.db.threadPlanChildren.rows, c.parentThreadId = parent → K c.childThreadId) :
    Lockstep (fun a b => a.2 = b.2 ∧ Agree (fun x => K x ∨ (a.2 = true ∧ x = parent)) a.1 b.1)
      (closeParentInTx env draws i s parent completing actor)
      (closeParentInTx env draws i t parent completing actor) := by
  have hsame : ∀ {s t : PlanRoom}, Agree K s t →
      Agree (fun x => K x ∨ (false = true ∧ x = parent)) s t :=
    fun h => h.mono fun _ hx => hx.resolve_right fun hx => nomatch hx.1
  unfold closeParentInTx
  rw [h.db]
  cases hg : s.db.threads.get? parent with
  | none => exact rfl
  | some row =>
    dsimp only
    by_cases hstate : row.state ≠ .open ∧ row.state ≠ .inReview
    · rw [if_pos hstate, if_pos hstate]
      exact ⟨rfl, hsame h⟩
    · have hlive : isLive s.db parent = true := by
        refine isLive_iff.mpr ⟨row.state, by unfold stateIn; rw [hg]; rfl, ?_⟩
        cases hq : row.state <;> simp_all [ThreadState.isTerminal]
      rw [if_neg hstate, if_neg hstate, everyChildLanded_agree h (hchildren hlive)]
      split
      · exact ⟨rfl, hsame h⟩
      · rw [h.landing hcompleting]
        split
        · exact ⟨rfl, hsame h⟩
        · have hclose : Lockstep (Agree K)
              (closeThroughGates env draws s parent actor (row.state = .open) (draws.review i)
                (draws.close i))
              (closeThroughGates env draws t parent actor (row.state = .open) (draws.review i)
                (draws.close i)) :=
            closeThroughGates_agree h parent _ _ _
          cases hs : closeThroughGates env draws s parent actor (row.state = .open)
              (draws.review i) (draws.close i) with
          | ok s1 =>
            cases ht : closeThroughGates env draws t parent actor (row.state = .open)
                (draws.review i) (draws.close i) with
            | error e =>
              rw [hs, ht] at hclose
              exact hclose.elim
            | ok t1 =>
              rw [hs, ht] at hclose
              refine (appendEvent_lockstep hclose _).bind fun s2 t2 _ _ hlanded => ?_
              refine (postNoticeInTx_agree hlanded _ _).bind fun s3 t3 _ _ hposted => ?_
              exact ⟨rfl, hposted.mono fun x hx => hx.imp_right fun hx => ⟨rfl, hx.2⟩⟩
          | error e =>
            cases ht : closeThroughGates env draws t parent actor (row.state = .open)
                (draws.review i) (draws.close i) with
            | ok t1 =>
              rw [hs, ht] at hclose
              exact hclose.elim
            | error e' =>
              rw [hs, ht] at hclose
              obtain rfl : e = e' := hclose
              cases e with
              | conflict =>
                exact (postNoticeInTx_agree h _ _).bind fun s1 t1 _ _ hposted =>
                  ⟨rfl, hsame hposted⟩
              | _ => exact rfl

/-- **The loop.**  It reads the landings of the thread just closed, of the children of live plans,
and of the plans it closes itself. -/
theorem afterCloseLoop_agree (hrooted : Rooted s.db)
    (hlive : ∀ c ∈ s.db.threadPlanChildren.rows, isLive s.db c.parentThreadId = true →
      K c.childThreadId) (hchild : ∀ p, planParentInTx s.db child = some p → K child) :
    Lockstep (Agree K) (afterCloseLoop env draws actor fuel i s child)
      (afterCloseLoop env draws actor fuel i t child) := by
  induction fuel generalizing K i s t child with
  | zero => exact h
  | succ fuel ih =>
    unfold afterCloseLoop
    rw [h.db]
    cases hparent : planParentInTx s.db child with
    | none => exact h
    | some parent =>
      have hK : K child := hchild parent hparent
      dsimp only
      rw [h.landing hK]
      split
      · exact unlandedInTx_agree h parent child
      · refine (closeParentInTx_agree h hK fun hl c hc hp => hlive c hc (hp ▸ hl)).bind ?_
        rintro ⟨s1, closed⟩ ⟨t1, closed'⟩ hs - ⟨heq, hagree⟩
        obtain rfl : closed = closed' := heq
        cases closed with
        | false => exact hagree.mono fun _ => .inl
        | true =>
          obtain ⟨htouched, _⟩ : Touched s s1 (· = parent) ∧ True := by
            rcases closeParentInTx_cases hs with ⟨hf, _⟩ | ⟨hf, _⟩ | ⟨_, _, htouched, _⟩
            · cases hf
            · cases hf
            · exact ⟨htouched, trivial⟩
          have hrest := ih (i := i + 1) hagree (hrooted.keep htouched.moves.there htouched.rows)
            (fun c hc hl => ?_) (fun _ _ => .inr ⟨rfl, rfl⟩)
          · exact hrest.mono fun _ _ hab => hab.mono fun _ => .inl
          · rw [htouched.rows] at hc
            exact .inl (hlive c hc (htouched.moves.live (hrooted.parents c hc) hl))

theorem afterCloseInTx_agree (hrooted : Rooted s.db)
    (hlive : ∀ c ∈ s.db.threadPlanChildren.rows, isLive s.db c.parentThreadId = true →
      K c.childThreadId) (hchild : ∀ p, planParentInTx s.db x = some p → K x) :
    Lockstep (Agree K) (afterCloseInTx env draws s x actor) (afterCloseInTx env draws t x actor) := by
  unfold afterCloseInTx
  rw [h.db]
  exact afterCloseLoop_agree h hrooted hlive hchild

end

end Functions

/-! ## 2. Every transaction -/

/-- **The landing of `x` may be read**: `x` is a child that is live or whose plan is; or it is not
there yet. -/
def Matters (db : Db) (x : ThreadId) : Prop :=
  ¬db.HasThread x ∨ ∃ c ∈ db.threadPlanChildren.rows, c.childThreadId = x ∧
    (isLive db x = true ∨ isLive db c.parentThreadId = true)

/-- What follows a close reads only what matters: the children of live plans, and the thread
itself, which was live. -/
theorem closed_agree (hrooted : Rooted s.db) (hx : isLive s.db x = true)
    (htouched : Touched s s1 (· = x)) (h : Agree (Matters s.db) s1 t1) :
    Lockstep (Agree (Matters s.db)) (afterCloseInTx env draws s1 x actor)
      (afterCloseInTx env draws t1 x actor) := by
  refine afterCloseInTx_agree h (hrooted.keep htouched.moves.there htouched.rows) ?_ ?_
  · intro c hc hl
    rw [htouched.rows] at hc
    exact .inr ⟨c, hc, rfl, .inr (htouched.moves.live (hrooted.parents c hc) hl)⟩
  · intro p hp
    obtain ⟨c, hc, hchild, _⟩ := mem_of_planParent hp
    rw [htouched.rows] at hc
    exact .inr ⟨c, hc, hchild, .inl hx⟩

section Operations

variable {env : RoomEnv} {draws : RoomDraws} {s t s' : PlanRoom}

theorem isLive_of_get (hg : db.threads.get? x = some row) (hstate : row.state.isTerminal = false) :
    isLive db x = true :=
  isLive_iff.mpr ⟨row.state, by unfold stateIn; rw [hg]; rfl, hstate⟩

variable {actor : MemberId}

theorem isLive_of_close (h : transitionInTx env draws s x actor .close drawn = .ok s') :
    isLive s.db x = true := by
  obtain ⟨db, htransition, _⟩ := bind_ok h
  obtain ⟨row, toState, rfl, hmoved⟩ := transitionInSpawning_moved htransition
  refine isLive_of_get hmoved.there ?_
  have happlied := hmoved.applied
  cases hq : row.state <;> rw [hq] at happlied <;> first | rfl | cases happlied

theorem isLive_of_cancelled
    (h : cancelInTx db x actor reason authority transition now ended = .ok (db', .cancelled)) :
    isLive db x = true := by
  rcases cancelInTx_eq_ok h with ⟨-, hnot⟩ | ⟨row, db1, entry, hg, hopen, -⟩
  · exact absurd rfl hnot
  · exact isLive_of_get hg hopen

section

variable (hrooted : Rooted s.db)
include hrooted

section

variable (h : Agree (Matters s.db) s t)
include h

theorem transitionWithEvent_agree :
    Lockstep (Agree (Matters s.db)) (transitionWithEvent env draws s x actor action gate drawn)
      (transitionWithEvent env draws t x actor action gate drawn) := by
  refine (transitionInTx_agree h x action drawn).bind fun s1 t1 hs _ hagree => ?_
  rw [hagree.db]
  refine Lockstep.bind_same fun db hdb => ?_
  split
  · rename_i hclose
    subst hclose
    cases hdb
    have htouched := (transitionInTx_touched hs).1.mono fun _ hy => hy.1
    exact closed_agree hrooted (isLive_of_close hs) htouched (hagree.withDb s1.db)
  · exact hagree.withDb db

theorem landChange_agree :
    Lockstep (Agree (Matters s.db)) (landChange env draws s x actor repo prNumber review close)
      (landChange env draws t x actor repo prNumber review close) := by
  unfold landChange
  rw [h.db]
  cases hg : s.db.threads.get? x with
  | none => exact h
  | some =>
    dsimp only
    split
    · exact h
    · rename_i hlive
      have hx : isLive s.db x = true :=
        isLive_of_get hg (Bool.eq_false_iff.mpr fun hend => hlive (.inr hend))
      refine (closeThroughGates_agree h x _ _ _).bind fun s1 t1 hs _ hagree => ?_
      refine (appendEvent_agree hagree _).bind fun s2 t2 hs2 _ hagree => ?_
      exact closed_agree hrooted hx ((closeThroughGates_touched hs).1.trans
        (appendEvent_touched (fun _ => rfl) hs2)) hagree

theorem cancelThread_agree : Lockstep (Agree (Matters s.db))
      (cancelThread env draws s x actor reason authority transition now ended)
      (cancelThread env draws t x actor reason authority transition now ended) := by
  unfold cancelThread
  rw [h.db]
  refine Lockstep.bind_same fun ⟨db, outcome⟩ hcancel => ?_
  obtain ⟨hmoves, hrows⟩ := cancelInTx_moves hcancel
  dsimp only
  split
  · rename_i hcancelled
    subst hcancelled
    refine (cancelEvents_agree (h.withDb db) _ _ _).bind fun s1 t1 hs _ hagree => ?_
    exact closed_agree hrooted (isLive_of_cancelled hcancel)
      ((Touched.of_db hrows hmoves).trans (cancelEvents_touched hs)) hagree
  · exact h.withDb db

theorem closeAsAbandoned_agree : Lockstep (Agree (Matters s.db))
      (closeAsAbandoned env draws s x actor maintainer close reference drawn)
      (closeAsAbandoned env draws t x actor maintainer close reference drawn) := by
  unfold closeAsAbandoned
  rw [h.db]
  refine Lockstep.bind_same fun ⟨db, moved, kept⟩ hclose => ?_
  obtain ⟨hmoves, hrows⟩ := closeAbandoned_moves hclose
  have hx : isLive s.db x = true := by
    obtain ⟨row, _, _, _, rfl, hg, hstate, _⟩ := closeAbandoned_spec hclose
    refine isLive_of_get hg ?_
    rcases hstate with hstate | hstate <;> rw [hstate] <;> rfl
  refine (appendEvent_agree (h.withDb db) _).bind fun s1 t1 hs _ hagree => ?_
  exact closed_agree hrooted hx ((Touched.of_db hrows hmoves).trans (appendEvent_quiet rfl hs)) hagree

end

end

/-- A sweep of the log. -/
def RoomOp.isSweep : RoomOp → Bool
  | .pruneEvents .. => true
  | .pruneWorkspaceEvents .. => true
  | _ => false

/-- **Every other transaction** keeps two rooms in lockstep that agree on what matters. -/
theorem roomTx_agree (hnot : op.isSweep = false) (hrooted : Rooted s.db)
    (h : Agree (Matters s.db) s t) :
    Lockstep (Agree (Matters s.db)) (roomTx env s draws op) (roomTx env t draws op) := by
  cases op with
  | submitPlan =>
    refine Lockstep.bind_same fun plan _ => ?_
    rw [h.db]
    exact Lockstep.bind_same fun ⟨db, outcome⟩ _ => appendEvents_agree (h.withDb db) _
  | amendPlan =>
    refine Lockstep.bind_same fun amendment _ => ?_
    rw [h.db]
    refine Lockstep.bind_same fun ⟨db, outcome⟩ _ => ?_
    exact (cancelledEvents_agree (h.withDb db) _ _ _).bind fun _ _ _ _ hagree =>
      appendEvents_agree hagree _
  | transition => exact transitionWithEvent_agree hrooted h
  | landChange => exact landChange_agree hrooted h
  | cancel => exact cancelThread_agree hrooted h
  | closeAbandoned => exact closeAsAbandoned_agree hrooted h
  | landedFact => exact appendEvent_agree h _
  | pruneEvents | pruneWorkspaceEvents => cases hnot
  | claim op =>
    simp only [roomTx, h.db]
    cases step s.db op with
    | error => exact rfl
    | ok db => exact h.withDb db

end Operations

/-- **Nothing begins to matter**: what has ended stays so, and a new row is one of a new thread. -/
theorem Matters.of_moves (hrooted : Rooted db) (hmoves : Moves db db' P)
    (hrows : ∀ c ∈ db'.threadPlanChildren.rows,
      c ∈ db.threadPlanChildren.rows ∨ ¬db.HasThread c.childThreadId) (h : Matters db' x) :
    Matters db x := by
  rcases h with hgone | ⟨c, hc, rfl, hlive⟩
  · exact .inl fun hthere => hgone (hmoves.there hthere)
  · rcases hrows c hc with hold | hnew
    · refine .inr ⟨c, hold, rfl, ?_⟩
      exact hlive.imp (hmoves.live (hrooted.children c hold)) (hmoves.live (hrooted.parents c hold))
    · exact .inl hnew

theorem Touched.matters (h : Touched s s' P) (hrooted : Rooted s.db) (hx : Matters s'.db x) :
    Matters s.db x :=
  hx.of_moves hrooted h.moves fun _ hc => .inl (h.rows ▸ hc)

theorem Replanned.matters (h : Replanned db db' parent gone new) (hrooted : Rooted db)
    (hx : Matters db' x) : Matters db x := by
  refine hx.of_moves hrooted h.moves fun c hc => ?_
  rcases (h.rows c).mp hc with ⟨hold, _⟩ | hnew
  · exact .inl hold
  · exact .inr (h.fresh c hnew).2.1

/-- **Once a thread does not matter, it never will.** -/
theorem RoomStep.matters (h : RoomStep env draws s s' op) (hrooted : Rooted s.db)
    (hx : Matters s'.db x) : Matters s.db x := by
  cases h with
  | kept h => exact h.matters hrooted hx
  | closed h hafter =>
    have hloop := afterCloseLoop_touched hafter
    exact h.matters hrooted (hloop.matters (hrooted.keep h.moves.there h.rows) hx)
  | landed _ h => exact h.matters hrooted hx
  | swept h =>
    rw [h] at hx
    exact hx
  | submitted h hevents => exact h.matters hrooted (hevents.matters (hrooted.replanned h) hx)
  | amended _ h _ _ _ hevents =>
    exact h.matters hrooted (hevents.matters (hrooted.replanned h) hx)

/-! ## 3. Sweeps -/

/-- A landing in the log is of a thread that is there. -/
def Grounded (s : PlanRoom) : Prop :=
  ∀ x, (landingInTx s.log x).isSome = true → s.db.HasThread x

theorem Grounded.touched (hs : Grounded s) (h : Touched s s' P) : Grounded s' := fun x hx =>
  (h.grounded hx).elim (fun hold => h.moves.there (hs x hold)) id

theorem Grounded.replanned (hs : Grounded s) (h : Replanned s.db db' parent gone new) :
    Grounded { s with db := db' } :=
  fun x hx => h.moves.there (hs x hx)

theorem Grounded.roomStep (hs : Grounded s) (h : RoomStep env draws s s' op) : Grounded s' := by
  cases h with
  | kept h => exact hs.touched h
  | closed h hafter => exact (hs.touched h).touched (afterCloseLoop_touched hafter)
  | landed _ h => exact hs.touched h
  | swept h =>
    rw [h]
    exact fun x hx => hs x (landing_of_delete hx)
  | submitted h hevents => exact (hs.replanned h).touched hevents
  | amended _ h _ _ _ hevents => exact (hs.replanned h).touched hevents

/-- The ids a sweep selects. -/
def RoomOp.swept (s : PlanRoom) : RoomOp → List Int
  | .pruneEvents tables cutoff maxId limit => pruneEventsIds s.log tables cutoff maxId limit
  | .pruneWorkspaceEvents tables workspace cutoff limit =>
    pruneWorkspaceEventsIds s.log tables workspace cutoff limit
  | _ => []

/-- **The sweep spares the plans**: it does not select the latest landing of a child that is live or
whose plan is. -/
def RoomOp.spares (s : PlanRoom) (op : RoomOp) : Bool :=
  s.db.threadPlanChildren.rows.all fun c =>
    !(isLive s.db c.childThreadId || isLive s.db c.parentThreadId) ||
      (latestLanded s.log c.childThreadId).all fun r => !(op.swept s).contains r.id

/-- A deletion that spares the latest landing leaves it the latest. -/
theorem latestLanded_delete (h : ∀ r, latestLanded log x = some r → r.id ∉ ids) :
    latestLanded (log.delete ids) x = latestLanded log x := by
  unfold latestLanded at h ⊢
  dsimp only [EventLog.delete]
  rw [filter_comm]
  generalize log.rows.filter _ = rows at h ⊢
  cases hlast : rows.getLast? with
  | none =>
    rw [getLast?_eq_none_iff.mp hlast]
    rfl
  | some r =>
    obtain ⟨front, rfl⟩ := getLast?_eq_some_iff.mp hlast
    have hr : r.id ∉ ids := h r hlast
    simp [hr]

/-- **The run and the run without its sweeps**, so far. -/
structure Tracks (s t : PlanRoom) : Prop where
  rooted : Rooted s.db
  grounded : Grounded s
  agree : Agree (Matters s.db) s t

section Runs

variable {env : RoomEnv} {s t : PlanRoom}

/-- **A sweep that spares the plans goes unnoticed**: the landings it takes are not read any more. -/
theorem Tracks.delete (h : Tracks s t) (hspares : op.spares s = true) :
    Tracks { s with log := s.log.delete (op.swept s) } t := by
  refine { h with grounded := fun x hx => h.grounded x (landing_of_delete hx), agree := ?_ }
  refine ⟨h.agree.db, h.agree.notices, h.agree.lastId, fun {x} hx => ?_⟩
  refine (h.agree.landing hx).trans ?_
  rcases hx with hgone | ⟨c, hc, rfl, hlive⟩
  · have hnone : ∀ log, ((landingInTx log x).isSome = true → s.db.HasThread x) →
        landingInTx log x = none := fun log hthere =>
      Option.not_isSome_iff_eq_none.mp fun hsome => hgone (hthere hsome)
    rw [hnone s.log (h.grounded x), hnone _ fun hx => h.grounded x (landing_of_delete hx)]
  · have hrow := all_eq_true.mp hspares c hc
    have hkept : latestLanded (s.log.delete (op.swept s)) c.childThreadId =
        latestLanded s.log c.childThreadId := by
      refine latestLanded_delete fun r hr => ?_
      rcases Bool.or_eq_true_iff.mp hrow with hdead | hspared
      · rw [Bool.not_eq_true', Bool.or_eq_false_iff] at hdead
        rcases hlive with hlive | hlive
        · exact absurd (hdead.1.symm.trans hlive) Bool.false_ne_true
        · exact absurd (hdead.2.symm.trans hlive) Bool.false_ne_true
      · rw [hr] at hspared
        simpa using hspared
    unfold landingInTx
    rw [hkept]

/-- A sweep moves one of the two runs, any other operation both. -/
theorem Tracks.next (h : Tracks s t) (op : RoomDraws × RoomOp) (hspares : op.2.spares s = true) :
    Tracks (roomNext env s op) (if op.2.isSweep then t else roomNext env t op) := by
  cases hsweep : op.2.isSweep with
  | true =>
    have hdelete := h.delete hspares
    obtain ⟨draws, op⟩ := op
    cases op with
    | pruneEvents | pruneWorkspaceEvents => exact hdelete
    | _ => cases hsweep
  | false =>
    have hagree : Agree (Matters s.db) (roomNext env s op) (roomNext env t op) :=
      (roomTx_agree hsweep h.rooted h.agree).settle h.agree
    rcases roomNext_cases env s op with hsame | hok
    · rw [hsame] at hagree ⊢
      exact ⟨h.rooted, h.grounded, hagree⟩
    · have hstep := roomTx_step h.rooted hok
      exact ⟨h.rooted.roomStep hstep, h.grounded.roomStep hstep,
        hagree.mono fun _ hx => hstep.matters h.rooted hx⟩

theorem Tracks.exec (h : Tracks s t)
    (hmeets : Meets (roomNext env) (fun s op => op.2.spares s = true) s (pre ++ post)) :
    Tracks (exec (roomNext env) s pre)
      (Run.exec (roomNext env) t (pre.filter fun op => !op.2.isSweep)) := by
  induction pre generalizing s t with
  | nil => exact h
  | cons op pre ih =>
    have hrest := ih (h.next op hmeets.1) hmeets.2
    cases hsweep : op.2.isSweep with
    | true | false => simpa [hsweep] using hrest

end Runs

/-- **Retention changes no plan**: in a run whose sweeps spare the plans, every thread has at every
moment the state it has in the run without the sweeps, and carries the same notices.  So a plan
closes with the same landing, or with none. -/
theorem retention_changes_no_plan (env : RoomEnv) {s : PlanRoom} (hrooted : Rooted s.db)
    (hgrounded : Grounded s) (ops : List (RoomDraws × RoomOp))
    (hmeets : Meets (roomNext env) (fun s op => op.2.spares s = true) s ops)
    {pre : List (RoomDraws × RoomOp)} (hpre : pre <+: ops) :
    (exec (roomNext env) s pre).db =
      (exec (roomNext env) s (pre.filter fun op => !op.2.isSweep)).db ∧
    (exec (roomNext env) s pre).notices =
      (exec (roomNext env) s (pre.filter fun op => !op.2.isSweep)).notices := by
  obtain ⟨post, rfl⟩ := hpre
  have htracks : Tracks s s := ⟨hrooted, hgrounded, .refl s⟩
  have hagree := (htracks.exec hmeets).agree
  exact ⟨hagree.db.symm, hagree.notices.symm⟩

/-- The log is swept up to `cutoff` between the two landings. -/
def sweptBetween (cutoff : Int) : List (RoomDraws × RoomOp) :=
  [planAB, landsWith ⟨10⟩ 7 200, (roomDraws 250, .pruneEvents {} cutoff 100 100),
    landsWith ⟨11⟩ 8 300]

theorem grounded_of_no_events (h : s.log.rows = []) : Grounded s := by
  intro x hx
  simp [landingInTx, latestLanded, h] at hx

set_option maxRecDepth 40000 in
theorem retention_changes_no_plan_swept :
    Meets (roomNext plainRoomEnv) (fun s op => op.2.spares s = true) plainRoom (sweptBetween 3) ∧
    stateIn (exec (roomNext plainRoomEnv) plainRoom (sweptBetween 3)).db ⟨1⟩ = some .closed ∧
    (exec (roomNext plainRoomEnv) plainRoom (sweptBetween 3)).db =
      (exec (roomNext plainRoomEnv) plainRoom
        ((sweptBetween 3).filter fun op => !op.2.isSweep)).db := by
  have hmeets : Meets (roomNext plainRoomEnv) (fun s op => op.2.spares s = true) plainRoom
      (sweptBetween 3) := by
    decide +kernel
  refine ⟨hmeets, by decide +kernel, ?_⟩
  exact (retention_changes_no_plan plainRoomEnv (rooted_of_no_rows rfl)
    (grounded_of_no_events rfl) (sweptBetween 3) hmeets prefix_rfl).1

set_option maxRecDepth 40000 in
/-- **A swept landing keeps the plan open**: both children have landed and closed.  Without the
sweep the plan closes with the second landing; with it, it stays open. -/
theorem swept_landing_keeps_plan_open :
    Rooted plainRoom.db ∧ Grounded plainRoom ∧
    (∀ x ∈ [⟨10⟩, ⟨11⟩],
      stateIn (exec (roomNext plainRoomEnv) plainRoom (sweptBetween 100)).db x = some .closed) ∧
    stateIn (exec (roomNext plainRoomEnv) plainRoom
      ((sweptBetween 100).filter fun op => !op.2.isSweep)).db ⟨1⟩ = some .closed ∧
    stateIn (exec (roomNext plainRoomEnv) plainRoom (sweptBetween 100)).db ⟨1⟩ = some .open := by
  refine ⟨rooted_of_no_rows rfl, grounded_of_no_events rfl, ?_⟩
  decide +kernel

end Maidan
