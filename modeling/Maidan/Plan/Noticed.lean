/-
# Finished plans and the attempt to close them

A plan is FINISHED when its parent is open or in review, it has a child, and every child it has is
closed with a `ThreadLanded`.  What the store owes it then is an attempt to close the parent: the
parent closes, or it carries the refusal (`plan_close_refused`).

The attempt is made where a child CLOSES.  So the question is what else can finish a plan.

* §1 -- `planFinished`, and what finishes a plan: `Touched.finished` says that a part of a transaction
  finishes only plans with a child it touches.
* §2 -- the follow-up: when the loop of `after_close_in_tx` ends, every plan it has finished on its
  way is closed or refused.  The loop does end by itself: each round closes a plan, and the rows of
  live plans go down.
* §3 -- every transaction.  Two escape the follow-up: an amendment that takes the last unfinished
  children out, and a landed fact on a child that is closed already.
* §4 -- `finished_plans_are_noticed`, over runs in which neither happens; and the amendment.
-/
import Maidan.Plan.RoomEffects
import Maidan.Plan.Held

namespace Maidan

open Relational Run List

/-! ## 1. Finished plans -/

/-- The thread has ended. -/
def hasEnded (db : Db) (x : ThreadId) : Bool := (stateIn db x).any ThreadState.isTerminal

/-- The thread has ended, with a `ThreadLanded`. -/
def isDone (s : PlanRoom) (x : ThreadId) : Bool :=
  hasEnded s.db x && (landingInTx s.log x).isSome

/-- **The plan of `parent` is finished**: the parent is live, and it has children, all done. -/
def planFinished (s : PlanRoom) (parent : ThreadId) : Bool :=
  isLive s.db parent && !(planRows s.db parent).isEmpty &&
    (planRows s.db parent).all fun c => isDone s c.childThreadId

variable {s s' : PlanRoom} {p child y : ThreadId} {db' : Db} {P : ThreadId → Prop}
  {old : List PostedNotice}

theorem planFinished_iff : planFinished s p = true ↔ isLive s.db p = true ∧
      (∃ c ∈ s.db.threadPlanChildren.rows, c.parentThreadId = p) ∧
      ∀ c ∈ s.db.threadPlanChildren.rows, c.parentThreadId = p → isDone s c.childThreadId = true := by
  have hempty : (planRows s.db p).isEmpty = false ↔
      ∃ c ∈ s.db.threadPlanChildren.rows, c.parentThreadId = p := by
    rw [isEmpty_eq_false_iff_exists_mem]
    exact ⟨fun ⟨c, hc⟩ => ⟨c, mem_planRows.mp hc⟩, fun ⟨c, hc⟩ => ⟨c, mem_planRows.mpr hc⟩⟩
  unfold planFinished
  rw [Bool.and_eq_true, Bool.and_eq_true, Bool.not_eq_true', hempty, all_eq_true, and_assoc]
  refine and_congr_right fun _ => and_congr_right fun _ => ?_
  exact ⟨fun h c hc hp => h c (mem_planRows.mpr ⟨hc, hp⟩), fun h c hc =>
    h c (mem_planRows.mp hc).1 (mem_planRows.mp hc).2⟩

variable {db : Db} {x : ThreadId}

theorem hasEnded_iff : hasEnded db x = true ↔ ∃ q, stateIn db x = some q ∧ q.isTerminal = true := by
  unfold hasEnded
  cases stateIn db x with
  | none | some => simp

theorem Moves.hasEnded (h : Moves db db' P) (hy : ¬P y) (hthere : db.HasThread y)
    (hend : hasEnded db' y = true) : hasEnded db y = true := by
  obtain ⟨q, hq⟩ := hasThread_iff_stateIn.mp hthere
  obtain ⟨q1, hq1, heq⟩ := h.others hy hq
  obtain ⟨q', hq', hterm⟩ := hasEnded_iff.mp hend
  obtain rfl := mem_unique hq1 hq'
  exact hasEnded_iff.mpr ⟨q, hq, heq ▸ hterm⟩

section Finishing

variable {s s' : PlanRoom} {P : ThreadId → Prop} {p : ThreadId}

theorem Touched.isDone (h : Touched s s' P) (hy : ¬P y) (hthere : s.db.HasThread y)
    (hdone : isDone s' y = true) : isDone s y = true := by
  unfold Maidan.isDone at hdone ⊢
  obtain ⟨hend, hlanding⟩ := Bool.and_eq_true_iff.mp hdone
  rw [h.landing hy] at hlanding
  exact Bool.and_eq_true_iff.mpr ⟨h.moves.hasEnded hy hthere hend, hlanding⟩

/-- **What finishes a plan**: a part of a transaction finishes a plan only through a child it
touches. -/
theorem Touched.finished (h : Touched s s' P) (hrooted : Rooted s.db)
    (hfin : planFinished s' p = true) :
    planFinished s p = true ∨
      ∃ c ∈ s.db.threadPlanChildren.rows, c.parentThreadId = p ∧ P c.childThreadId := by
  obtain ⟨hlive, ⟨c0, hc0, hp0⟩, hall⟩ := planFinished_iff.mp hfin
  rw [h.rows] at hc0 hall
  by_cases htouched : ∃ c ∈ s.db.threadPlanChildren.rows, c.parentThreadId = p ∧ P c.childThreadId
  · exact .inr htouched
  · refine .inl (planFinished_iff.mpr ⟨?_, ⟨c0, hc0, hp0⟩, fun c hc hp => ?_⟩)
    · exact h.moves.live (hp0 ▸ hrooted.parents c0 hc0) hlive
    · exact h.isDone (fun hP => htouched ⟨c, hc, hp, hP⟩) (hrooted.children c hc) (hall c hc hp)

theorem Touched.finished_of_none (h : Touched s s' fun _ => False) (hrooted : Rooted s.db)
    (hfin : planFinished s' p = true) : planFinished s p = true := by
  rcases h.finished hrooted hfin with hold | ⟨_, _, _, hP⟩
  · exact hold
  · exact hP.elim

end Finishing

/-! ## 2. The follow-up -/

/-- **Refused since**: among the messages after those of `old` is a refusal to close `p`. -/
def Refused (old : List PostedNotice) (s : PlanRoom) (p : ThreadId) : Prop :=
  ∃ added, s.notices = old ++ added ∧
    ∃ author reason, (⟨p, author, .planCloseRefused reason⟩ : PostedNotice) ∈ added

theorem Refused.later (h : Refused old s p) (hmore : s.notices <+: s'.notices) :
    Refused old s' p := by
  obtain ⟨added, hadded, author, reason, hmem⟩ := h
  obtain ⟨more, hmore⟩ := hmore
  refine ⟨added ++ more, ?_, author, reason, mem_append_left _ hmem⟩
  rw [← hmore, hadded, append_assoc]

/-- The rows whose plan is live. -/
def liveRows (db : Db) : List PlanChildRow :=
  db.threadPlanChildren.rows.filter fun c => isLive db c.parentThreadId

/-- **Closing a plan brings the live rows down.** -/
theorem Touched.liveRows_lt (h : Touched s s' P) (hrooted : Rooted s.db)
    (hc : c ∈ s.db.threadPlanChildren.rows) (hlive : isLive s.db c.parentThreadId = true)
    (hclosed : isLive s'.db c.parentThreadId = false) :
    (liveRows s'.db).length < (liveRows s.db).length := by
  have hsub : List.Sublist (liveRows s'.db) (liveRows s.db) := by
    have hfilter : liveRows s'.db =
        (liveRows s.db).filter fun c => isLive s'.db c.parentThreadId := by
      unfold liveRows
      rw [h.rows, filter_filter]
      refine filter_congr fun c hc => ?_
      by_cases hlive' : isLive s'.db c.parentThreadId = true
      · rw [hlive', h.moves.live (hrooted.parents c hc) hlive']
        rfl
      · simp [hlive']
    rw [hfilter]
    exact filter_sublist
  refine lt_of_le_of_ne hsub.length_le fun heq => ?_
  have hmem : c ∈ liveRows s.db := mem_filter.mpr ⟨hc, hlive⟩
  rw [← hsub.eq_of_length heq] at hmem
  have hlive' := (mem_filter.mp hmem).2
  rw [hclosed] at hlive'
  cases hlive'

theorem mem_of_planParent (h : planParentInTx db child = some parent) :
    ∃ c ∈ db.threadPlanChildren.rows, c.childThreadId = child ∧ c.parentThreadId = parent := by
  obtain ⟨c, hfind, rfl⟩ := map_eq_some_iff.mp h
  exact ⟨c, mem_of_find?_eq_some hfind, by simpa using find?_some hfind, rfl⟩

theorem everyChildLanded_of_finished (h : planFinished s p = true) :
    everyChildLanded s p = true := by
  obtain ⟨_, _, hall⟩ := planFinished_iff.mp h
  refine all_eq_true.mpr fun r hr => ?_
  obtain ⟨c, t⟩ := r
  obtain ⟨⟨hc, hp⟩, ht⟩ := mem_amendRows.mp hr
  obtain ⟨hend, hlanding⟩ := Bool.and_eq_true_iff.mp (hall c hc hp)
  refine Bool.and_eq_true_iff.mpr ⟨?_, hlanding⟩
  obtain ⟨q, hq, hterm⟩ := hasEnded_iff.mp hend
  unfold stateIn at hq
  rw [ht] at hq
  obtain rfl := Option.some.inj hq
  cases hstate : t.state <;> rw [hstate] at hterm <;> first | rfl | cases hterm

section FollowUp

variable {env : RoomEnv} {draws : RoomDraws} {s s1 s' : PlanRoom} {actor : MemberId}

/-- **The loop settles what it finishes.**  Let every finished plan be one of `was`, refused since
`old`, or the plan of the thread just closed; then at the end every finished plan is one of `was` or
refused since `old`. -/
theorem afterCloseLoop_noticed {was : ThreadId → Prop} (hrooted : Rooted s.db)
    (hfuel : (liveRows s.db).length < fuel) (hfinished : ∀ p, planFinished s p = true →
      was p ∨ Refused old s p ∨ planParentInTx s.db child = some p) (hold : old <+: s.notices)
    (h : afterCloseLoop env draws actor fuel i s child = .ok s') (p : ThreadId)
    (hfin : planFinished s' p = true) : was p ∨ Refused old s' p := by
  induction fuel generalizing i s child with
  | zero => exact absurd hfuel (Nat.not_lt_zero _)
  | succ fuel ih =>
    unfold afterCloseLoop at h
    split at h
    · rename_i hnone
      cases h
      rcases hfinished p hfin with hwas | hrefused | hparent
      · exact .inl hwas
      · exact .inr hrefused
      · rw [hnone] at hparent
        cases hparent
    · rename_i parent hparent
      obtain ⟨c, hc, hchild, rfl⟩ := mem_of_planParent hparent
      -- a plan that is finished and not settled is the one around `child`
      have hsettle : ∀ p, planFinished s p = true → p ≠ c.parentThreadId →
          was p ∨ Refused old s p := by
        intro p hp hne
        rcases hfinished p hp with hwas | hrefused | hpar
        · exact .inl hwas
        · exact .inr hrefused
        · exact absurd (mem_unique hpar hparent) hne
      split at h
      · rename_i hnone
        have htouched : Touched s s' fun _ => False := unlandedInTx_touched h
        have hbefore := htouched.finished_of_none hrooted hfin
        -- the child has no landing, so its plan is not finished
        have hne : p ≠ c.parentThreadId := by
          rintro rfl
          have hdone := (planFinished_iff.mp hbefore).2.2 c hc rfl
          rw [hchild] at hdone
          have hlanding := (Bool.and_eq_true_iff.mp hdone).2
          rw [hnone] at hlanding
          cases hlanding
        exact (hsettle p hbefore hne).imp_right fun hr => hr.later htouched.notices
      · rename_i landed hlanded
        obtain ⟨⟨s1, closed⟩, hattempt, hrest⟩ := bind_ok h
        rcases closeParentInTx_cases hattempt with
          ⟨rfl, rfl, hwhy⟩ | ⟨rfl, reason, hposted⟩ | ⟨rfl, hlive, htouched, hclosed⟩
        · -- no attempt: the plan was not finished
          cases hrest
          refine hsettle p hfin ?_
          rintro rfl
          rcases hwhy with hdead | hchildren | hnone
          · rw [(planFinished_iff.mp hfin).1] at hdead
            cases hdead
          · rw [everyChildLanded_of_finished hfin] at hchildren
            cases hchildren
          · rw [hlanded] at hnone
            cases hnone
        · -- refused, and told
          cases hrest
          have htouched : Touched s s' fun _ => False := postNoticeInTx_touched hposted
          by_cases hp : p = c.parentThreadId
          · obtain ⟨before, hbefore⟩ := hold
            refine .inr ⟨before ++ [⟨c.parentThreadId, actor, .planCloseRefused reason⟩], ?_,
              actor, reason, by simp [hp]⟩
            rw [(postNoticeInTx_spec hposted).2.1, ← hbefore, append_assoc]
          · exact (hsettle p (htouched.finished_of_none hrooted hfin) hp).imp_right
              fun hr => hr.later htouched.notices
        · -- closed: the same question one plan further up
          have hdead : isLive s1.db c.parentThreadId = false := by
            unfold isLive
            rw [hclosed]
            rfl
          have hless := htouched.liveRows_lt hrooted hc hlive hdead
          refine ih (hrooted.keep htouched.moves.there htouched.rows) (by omega) (fun p hp => ?_)
            (hold.trans htouched.notices) hrest
          have hne : p ≠ c.parentThreadId := by
            rintro rfl
            rw [(planFinished_iff.mp hp).1] at hdead
            cases hdead
          rcases htouched.finished hrooted hp with hbefore | ⟨c', hc', rfl, hself⟩
          · rcases hsettle p hbefore hne with hwas | hrefused
            · exact .inl hwas
            · exact .inr (.inl (hrefused.later htouched.notices))
          · refine .inr (.inr ?_)
            have hrow := hrooted.planParent_eq hc'
            unfold planParentInTx at hrow ⊢
            rw [htouched.rows, ← hself]
            exact hrow

/-- **A close and its follow-up.**  A plan that is finished afterwards was finished before, or has
been refused. -/
theorem afterCloseInTx_noticed (hrooted : Rooted s.db) (htouched : Touched s s1 (· = x))
    (h : afterCloseInTx env draws s1 x actor = .ok s') (hfin : planFinished s' p = true) :
    planFinished s p = true ∨ Refused s.notices s' p := by
  have hrooted1 := hrooted.keep htouched.moves.there htouched.rows
  have hfuel : (liveRows s1.db).length < s1.db.threadPlanChildren.rows.length + 1 :=
    Nat.lt_succ_of_le (length_filter_le _ _)
  have hstart : ∀ p, planFinished s1 p = true → planFinished s p = true ∨
      Refused s.notices s1 p ∨ planParentInTx s1.db x = some p := by
    intro p hp
    rcases htouched.finished hrooted hp with hbefore | ⟨c, hc, rfl, rfl⟩
    · exact .inl hbefore
    · exact .inr (.inr (hrooted1.planParent_eq (htouched.rows ▸ hc)))
  exact afterCloseLoop_noticed hrooted1 hfuel hstart htouched.notices h p hfin

end FollowUp

/-! ## 3. Every transaction -/

/-- **The amendment finishes the plan**: it adds nothing, takes something out, and what it leaves,
which is not nothing, is done. -/
def AmendPlan.finishes (amendment : AmendPlan) (s : PlanRoom) (parent : ThreadId) : Bool :=
  let staying := (planRows s.db parent).filter fun c => !amendment.cancel.contains c.childKey
  isLive s.db parent && amendment.add.isEmpty && !amendment.cancel.isEmpty &&
    !staying.isEmpty && staying.all fun c => isDone s c.childThreadId

/-- **The fact finishes a plan**: its thread is the one child that has not landed, of a live plan
whose children have all ended. -/
def factFinishes (s : PlanRoom) (thread : ThreadId) : Bool :=
  match planParentInTx s.db thread with
  | none => false
  | some parent =>
    isLive s.db parent && (landingInTx s.log thread).isNone &&
      (planRows s.db parent).all fun c => hasEnded s.db c.childThreadId &&
        (c.childThreadId == thread || (landingInTx s.log c.childThreadId).isSome)

/-- **The condition on a step**: it does not finish a plan where no child closes. -/
def RoomOp.heeded (s : PlanRoom) : RoomOp → Bool
  | .amendPlan parent _ request _ =>
    match request.checked with
    | .ok amendment => !amendment.finishes s parent
    | .error _ => true
  | .landedFact thread _ _ => !factFinishes s thread
  | _ => true

/-- What new rows finish: nothing but the plan they are for, and that one only where children are
taken out and none is put in. -/
theorem Replanned.finished (h : Replanned s.db db' parentId gone new) (hrooted : Rooted s.db)
    (hinside : ∀ x ∈ gone, ∃ c ∈ s.db.threadPlanChildren.rows, c.parentThreadId = parentId ∧
      c.childThreadId = x) (hfin : planFinished { s with db := db' } p = true) :
    planFinished s p = true ∨ (p = parentId ∧ new = [] ∧ gone ≠ [] ∧ isLive s.db p = true ∧
      (∃ c ∈ s.db.threadPlanChildren.rows, c.parentThreadId = p ∧ c.childThreadId ∉ gone) ∧
      ∀ c ∈ s.db.threadPlanChildren.rows, c.parentThreadId = p → c.childThreadId ∉ gone →
        isDone s c.childThreadId = true) := by
  obtain ⟨hlive, ⟨c0, hc0, hp0⟩, hall⟩ := planFinished_iff.mp hfin
  -- a new child is open, so the plan has none
  have hnew : ∀ c ∈ new, c.parentThreadId ≠ p := by
    rintro c hc rfl
    have hend := (Bool.and_eq_true_iff.mp (hall c ((h.rows c).mpr (.inr hc)) rfl)).1
    obtain ⟨q, hq, hterm⟩ := hasEnded_iff.mp hend
    obtain rfl := Option.some.inj (hq.symm.trans (h.fresh c hc).2.2)
    cases hterm
  have hold0 : c0 ∈ s.db.threadPlanChildren.rows ∧ c0.childThreadId ∉ gone :=
    ((h.rows c0).mp hc0).resolve_right fun hc => hnew c0 hc hp0
  have hlive0 : isLive s.db p = true :=
    h.moves.live (hp0 ▸ hrooted.parents c0 hold0.1) hlive
  have hdone : ∀ c ∈ s.db.threadPlanChildren.rows, c.parentThreadId = p →
      c.childThreadId ∉ gone → isDone s c.childThreadId = true := by
    intro c hc hp hstay
    obtain ⟨hend, hlanding⟩ :=
      Bool.and_eq_true_iff.mp (hall c ((h.rows c).mpr (.inl ⟨hc, hstay⟩)) hp)
    exact Bool.and_eq_true_iff.mpr ⟨h.moves.hasEnded hstay (hrooted.children c hc) hend, hlanding⟩
  by_cases hgone : p = parentId ∧ gone ≠ []
  · obtain ⟨rfl, hgone⟩ := hgone
    refine .inr ⟨rfl, ?_, hgone, hlive0, ⟨c0, hold0.1, hp0, hold0.2⟩, hdone⟩
    exact eq_nil_iff_forall_not_mem.mpr fun c hc => hnew c hc (h.fresh c hc).1
  · -- no row of this plan is taken out
    refine .inl (planFinished_iff.mpr ⟨hlive0, ⟨c0, hold0.1, hp0⟩, fun c hc hp => ?_⟩)
    refine hdone c hc hp fun hmem => hgone ⟨?_, ne_nil_of_mem hmem⟩
    obtain ⟨c', hc', hp', hthread⟩ := hinside _ hmem
    rw [← hp, ← hp', hrooted.unique c' hc' c hc hthread]

theorem landing_of_delete (h : (landingInTx (log.delete ids) x).isSome = true) :
    (landingInTx log x).isSome = true := by
  obtain ⟨r, hr, hkind⟩ := landingInTx_isSome_iff.mp h
  exact landingInTx_isSome_iff.mpr ⟨r, (mem_filter.mp hr).1, hkind⟩

section Steps

variable {env : RoomEnv} {draws : RoomDraws} {s s' : PlanRoom} {op : RoomOp} {p : ThreadId}

theorem Rooted.roomStep (hrooted : Rooted s.db) (h : RoomStep env draws s s' op) :
    Rooted s'.db := by
  cases h with
  | kept h => exact hrooted.keep h.moves.there h.rows
  | closed h hafter =>
    have hloop := afterCloseLoop_touched hafter
    exact (hrooted.keep h.moves.there h.rows).keep hloop.moves.there hloop.rows
  | landed hdb h => exact hrooted.keep h.moves.there h.rows
  | swept h =>
    rw [h]
    exact hrooted
  | submitted h hevents =>
    exact (hrooted.replanned h).keep hevents.moves.there hevents.rows
  | amended _ h _ _ _ hevents =>
    exact (hrooted.replanned h).keep hevents.moves.there hevents.rows

theorem RoomStep.notices (h : RoomStep env draws s s' op) : s.notices <+: s'.notices := by
  cases h with
  | kept h => exact h.notices
  | closed h hafter => exact h.notices.trans (afterCloseLoop_touched hafter).notices
  | landed hdb h => exact h.notices
  | swept h =>
    rw [h]
  | submitted h hevents => exact hevents.notices
  | amended _ h _ _ _ hevents => exact hevents.notices

/-- **One transaction**: where it meets the condition, a plan that is finished afterwards was
finished before, or its close has been refused. -/
theorem RoomStep.noticed (hrooted : Rooted s.db) (h : RoomStep env draws s s' op)
    (hop : op.heeded s = true) (hfin : planFinished s' p = true) :
    planFinished s p = true ∨ Refused s.notices s' p := by
  cases h with
  | kept h => exact .inl (h.finished_of_none hrooted hfin)
  | closed h hafter => exact afterCloseInTx_noticed hrooted h hafter hfin
  | swept h =>
    subst h
    obtain ⟨hlive, hchild, hall⟩ := planFinished_iff.mp hfin
    refine .inl (planFinished_iff.mpr ⟨hlive, hchild, fun c hc hp => ?_⟩)
    obtain ⟨hend, hlanding⟩ := Bool.and_eq_true_iff.mp (hall c hc hp)
    exact Bool.and_eq_true_iff.mpr ⟨hend, landing_of_delete hlanding⟩
  | submitted h hevents =>
    have hbefore := hevents.finished_of_none (hrooted.replanned h) hfin
    rcases h.finished hrooted (by simp) hbefore with hold | ⟨_, _, hgone, _⟩
    · exact .inl hold
    · exact absurd rfl hgone
  | @landed thread repo prNumber hdb h =>
    refine .inl ((h.finished hrooted hfin).elim id ?_)
    rintro ⟨c0, hc0, rfl, rfl⟩
    obtain ⟨hlive, _, hall⟩ := planFinished_iff.mp hfin
    rw [hdb] at hlive hall
    have hended : ∀ c ∈ s.db.threadPlanChildren.rows, c.parentThreadId = c0.parentThreadId →
        hasEnded s.db c.childThreadId = true := fun c hc hp =>
      hdb ▸ (Bool.and_eq_true_iff.mp (hall c hc hp)).1
    have hothers : ∀ c ∈ s.db.threadPlanChildren.rows, c.parentThreadId = c0.parentThreadId →
        c.childThreadId ≠ c0.childThreadId → (landingInTx s.log c.childThreadId).isSome = true :=
      fun c hc hp hne => h.landing hne ▸ (Bool.and_eq_true_iff.mp (hall c hc hp)).2
    -- the thread had landed before, or this fact is the one the condition is about
    by_cases hlanded : (landingInTx s.log c0.childThreadId).isSome = true
    · refine planFinished_iff.mpr ⟨hlive, ⟨c0, hc0, rfl⟩, fun c hc hp => ?_⟩
      refine Bool.and_eq_true_iff.mpr ⟨hended c hc hp, ?_⟩
      by_cases hne : c.childThreadId = c0.childThreadId
      · rw [hne]
        exact hlanded
      · exact hothers c hc hp hne
    · have hfact : factFinishes s c0.childThreadId = true := by
        unfold factFinishes
        simp only [hrooted.planParent_eq hc0, hlive, Bool.true_and, Bool.and_eq_true,
          all_eq_true, Bool.or_eq_true, beq_iff_eq]
        refine ⟨by simpa using hlanded, fun c hc => ?_⟩
        obtain ⟨hc, hp⟩ := mem_planRows.mp hc
        exact ⟨hended c hc hp, or_iff_not_imp_left.mpr (hothers c hc hp)⟩
      simp [RoomOp.heeded, hfact] at hop
  | @amended parent member request amendment planDraws db' gone new hchecked h hlength hgone
      hinside hevents =>
    have hbefore := hevents.finished_of_none (hrooted.replanned h) hfin
    rcases h.finished hrooted hinside hbefore with
      hold | ⟨rfl, rfl, hsome, hlive, ⟨c0, hc0, hp0, hstay0⟩, hdone⟩
    · exact .inl hold
    · have hadd : amendment.add = [] := length_eq_zero_iff.mp hlength.symm
      have hcancel : amendment.cancel ≠ [] := by
        obtain ⟨x, hx⟩ := exists_mem_of_ne_nil _ hsome
        obtain ⟨c, hc, hp, rfl⟩ := hinside x hx
        exact ne_nil_of_mem ((hgone c hc hp).mp hx)
      have hstaying : ∀ c, c ∈ (planRows s.db p).filter
          (fun c => !amendment.cancel.contains c.childKey) ↔
          (c ∈ s.db.threadPlanChildren.rows ∧ c.parentThreadId = p) ∧ c.childThreadId ∉ gone := by
        intro c
        rw [mem_filter, mem_planRows]
        refine and_congr_right fun hc => ?_
        rw [hgone c hc.1 hc.2]
        simp
      have hfinishes : amendment.finishes s p = true := by
        unfold AmendPlan.finishes
        simp only [hlive, hadd, isEmpty_nil, Bool.true_and, Bool.and_eq_true,
          Bool.not_eq_true', isEmpty_eq_false_iff, all_eq_true]
        refine ⟨⟨hcancel, ne_nil_of_mem ((hstaying c0).mpr ⟨⟨hc0, hp0⟩, hstay0⟩)⟩, ?_⟩
        intro c hc
        obtain ⟨⟨hc, hp⟩, hstay⟩ := (hstaying c).mp hc
        exact hdone c hc hp hstay
      simp [RoomOp.heeded, hchecked, hfinishes] at hop

end Steps

/-! ## 4. Every run -/

section Runs

variable (env : RoomEnv)

theorem roomNext_cases (s : PlanRoom) (op : RoomDraws × RoomOp) :
    roomNext env s op = s ∨ roomTx env s op.1 op.2 = .ok (roomNext env s op) := by
  unfold roomNext
  cases roomTx env s op.1 op.2 with
  | error => exact .inl rfl
  | ok => exact .inr rfl

theorem Rooted.exec (hrooted : Rooted s.db) (ops : List (RoomDraws × RoomOp)) :
    Rooted (exec (roomNext env) s ops).db ∧
      s.notices <+: (Run.exec (roomNext env) s ops).notices := by
  have hstep : ∀ s1 op, Rooted s1.db ∧ s.notices <+: s1.notices →
      Rooted (roomNext env s1 op).db ∧ s.notices <+: (roomNext env s1 op).notices := by
    intro s1 op hs
    rcases roomNext_cases env s1 op with hsame | hok
    · rw [hsame]
      exact hs
    · have hstep := roomTx_step hs.1 hok
      exact ⟨hs.1.roomStep hstep, hs.2.trans hstep.notices⟩
  exact exec_inv hstep ops ⟨hrooted, prefix_rfl⟩

/-- **Finished plans are noticed.**  In every run whose steps do not finish a plan where no child
closes, a finished plan became so in a step that tried to close it and was refused: it has been
finished ever since, and carries the refusal. -/
theorem finished_plans_are_noticed {s : PlanRoom} (hrooted : Rooted s.db)
    (hstart : ∀ p, planFinished s p = false) (ops : List (RoomDraws × RoomOp))
    (hmeets : Meets (roomNext env) (fun s op => op.2.heeded s = true) s ops) {p : ThreadId}
    (hfin : planFinished (exec (roomNext env) s ops) p = true) :
    ∃ pre op post, ops = pre ++ op :: post ∧ planFinished (exec (roomNext env) s pre) p = false ∧
      ∀ mid, mid <+: post → planFinished (exec (roomNext env) s (pre ++ op :: mid)) p = true ∧
        Refused (exec (roomNext env) s pre).notices (exec (roomNext env) s (pre ++ op :: mid)) p := by
  obtain ⟨pre, op, post, rfl, hbefore, hsince⟩ :=
    exec_last_flip (P := fun s => planFinished s p = true) ops (by simp [hstart p]) hfin
  refine ⟨pre, op, post, rfl, by simpa using hbefore, fun mid hmid => ⟨hsince mid hmid, ?_⟩⟩
  have hpre := (hrooted.exec env pre).1
  have hop : op.2.heeded (exec (roomNext env) s pre) = true := (Meets.drop pre _ hmeets).1
  have hfirst : planFinished (roomNext env (exec (roomNext env) s pre) op) p = true := by
    simpa [exec_append] using hsince [] nil_prefix
  rcases roomNext_cases env (exec (roomNext env) s pre) op with hsame | hok
  · rw [hsame] at hfirst
    exact absurd hfirst hbefore
  · have hstep := roomTx_step hpre hok
    have hrefused := (hstep.noticed hpre hop hfirst).resolve_left hbefore
    rw [exec_append, exec_cons]
    exact hrefused.later ((hpre.roomStep hstep).exec env mid).2

end Runs

/-- An environment for evaluating runs of a room. -/
def plainRoomEnv : RoomEnv where
  gates := plainEnv
  json := { sha256 := id, canonicalJson := fun _ => some "event",
            openedEvent := fun _ => .error "not opened" }
  hash := plainHash
  title := fun _ => "Part"

/-- Draws from `first` on. -/
def drawsFrom (first : Nat) : Draws :=
  { transition := ⟨first⟩, packet := ⟨first⟩, child := ⟨first⟩, now := first, ended := first }

def roomDraws (first : Nat) : RoomDraws where
  review i := drawsFrom (first + 2 * i)
  close i := drawsFrom (first + 2 * i + 1)
  clock id := id

/-- Member 1 submits a plan of `a` and `b`, which become threads 10 and 11. -/
def planAB : RoomDraws × RoomOp :=
  (roomDraws 100, .submitPlan ⟨1⟩ ⟨1⟩
    { leaseId := ⟨1⟩, children := [readyChild "a", readyChild "b"] } (planDraws 10 1))

/-- The pull request `owner/repo#pr` of a child merges, and the child lands. -/
def landsWith (child : ThreadId) (pr first : Nat) : RoomDraws × RoomOp :=
  (roomDraws (first + 2),
    .landChange child ⟨1⟩ "owner/repo" pr (drawsFrom first) (drawsFrom (first + 1)))

/-- A room before its plan is made, whose plan thread needs an approval to close. -/
def gatedRoom : PlanRoom where
  db := { plannerDb with threadReviewReqs := oneApproval }

/-- … and one whose plan thread needs none. -/
def plainRoom : PlanRoom where
  db := plannerDb

theorem rooted_of_no_rows (h : db.threadPlanChildren.rows = []) : Rooted db where
  parents := by simp [h]
  children := by simp [h]
  unique := by simp [h]

theorem planFinished_of_no_rows (h : s.db.threadPlanChildren.rows = []) (p : ThreadId) :
    planFinished s p = false := by
  simp [planFinished, planRows, h]

/-- Both children land. -/
def bothLand : List (RoomDraws × RoomOp) := [planAB, landsWith ⟨10⟩ 7 200, landsWith ⟨11⟩ 8 300]

set_option maxRecDepth 40000 in
theorem finished_plans_are_noticed_gated :
    Meets (roomNext plainRoomEnv) (fun s op => op.2.heeded s = true) gatedRoom bothLand ∧
    planFinished (exec (roomNext plainRoomEnv) gatedRoom bothLand) ⟨1⟩ = true ∧
    ∃ pre op post, bothLand = pre ++ op :: post ∧
      planFinished (exec (roomNext plainRoomEnv) gatedRoom pre) ⟨1⟩ = false ∧
      ∀ mid, mid <+: post →
        planFinished (exec (roomNext plainRoomEnv) gatedRoom (pre ++ op :: mid)) ⟨1⟩ = true ∧
        Refused (exec (roomNext plainRoomEnv) gatedRoom pre).notices
          (exec (roomNext plainRoomEnv) gatedRoom (pre ++ op :: mid)) ⟨1⟩ := by
  have hmeets : Meets (roomNext plainRoomEnv) (fun s op => op.2.heeded s = true) gatedRoom
      bothLand := by
    decide +kernel
  have hfin : planFinished (exec (roomNext plainRoomEnv) gatedRoom bothLand) ⟨1⟩ = true := by
    decide +kernel
  exact ⟨hmeets, hfin, finished_plans_are_noticed plainRoomEnv (rooted_of_no_rows rfl)
    (planFinished_of_no_rows rfl) bothLand hmeets hfin⟩

/-- `a` lands, and the planner takes `b` out. -/
def landAndDrop : List (RoomDraws × RoomOp) :=
  [planAB, landsWith ⟨10⟩ 7 200,
   (roomDraws 300, .amendPlan ⟨1⟩ ⟨1⟩ { leaseId := ⟨1⟩, cancel := ["b"] } (planDraws 20 2))]

set_option maxRecDepth 40000 in
/-- **Finished, and not noticed**: the one child left in the plan has landed, the plan thread is
open, and nothing was posted on it. -/
theorem finished_plan_is_not_noticed :
    Rooted plainRoom.db ∧ (∀ p, planFinished plainRoom p = false) ∧
    planFinished (exec (roomNext plainRoomEnv) plainRoom landAndDrop) ⟨1⟩ = true ∧
    stateIn (exec (roomNext plainRoomEnv) plainRoom landAndDrop).db ⟨1⟩ = some .open ∧
    (exec (roomNext plainRoomEnv) plainRoom landAndDrop).notices =
      [⟨⟨11⟩, ⟨1⟩, .cancelled "cancelled by an amendment to its plan"⟩] := by
  refine ⟨rooted_of_no_rows rfl, planFinished_of_no_rows rfl, ?_⟩
  decide +kernel

end Maidan
