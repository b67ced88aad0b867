/-
# An amendment and the threads outside its plan

`amend` deletes and rewrites dependencies by thread id in a table the whole workspace shares, so
what it leaves alone has to be said about rows it never mentions.  Three answers:

* a row of a thread OUTSIDE the plan stays as it was, unless it is on a child the amendment cancels:
  a cancelled child's dependents stop waiting for it, wherever they are;
* an outside thread becomes claimable only where a cancelled child held it back, as a dependency or
  as the original of a duplicate;
* a child that is not added, cancelled or rewired waits for what it waited for.

`Spares` is what carries the second: one stage of the amendment shows every thread it does not
cancel the same rows.  The stages compose, and `Spares.claimable` reads claimability off the result.
-/
import Maidan.Deps.Acyclic
import Maidan.Task.Duplicates

namespace Maidan

open Relational Table Run Digraph List

/-! ## 1. What a stage leaves alone -/

/-- A row that holds no claim and is not in review. -/
def ThreadRow.Idle (r : ThreadRow) : Prop := r.assigneeId = none ∧ r.state ≠ .inReview

/-- **The other threads are spared.**  From `db` to `db'`, the threads of `gone` are closed and new
threads may come; what any other thread reads about itself and about its neighbours is there still.
Dependencies are told apart, in `Amending.Rewrote`. -/
structure Spares (db db' : Db) (gone : List ThreadId) : Prop where
  frame : db' = { db with
    threads := db'.threads, threadAttributes := db'.threadAttributes,
    threadFootprints := db'.threadFootprints, taskFingerprints := db'.taskFingerprints,
    threadPlanChildren := db'.threadPlanChildren, threadDependencies := db'.threadDependencies,
    threadBlocks := db'.threadBlocks, threadBudgets := db'.threadBudgets,
    threadTransitions := db'.threadTransitions, threadUnclaimable := db'.threadUnclaimable,
    threadCancellations := db'.threadCancellations, threadPlans := db'.threadPlans }
  hasThread : ∀ {id}, db.HasThread id → db'.HasThread id
  threads : ∀ {id r}, db.threads.get? id = some r → id ∉ gone → db'.threads.get? id = some r
  idle : ∀ {id r}, db.threads.get? id = some r → id ∈ gone → r.Idle
  attributes : ∀ {id}, db.HasThread id →
    db'.threadAttributes.get? id = db.threadAttributes.get? id
  footprints : ∀ f ∈ db.threadFootprints.rows, f ∈ db'.threadFootprints.rows
  fingerprints : ∀ {id}, db.HasThread id →
    db'.taskFingerprints.get? id = db.taskFingerprints.get? id
  blocks : ∀ {id b}, db.threadBlocks.get? id = some b → db'.threadBlocks.get? id = some b
  unclaimable : ∀ {id}, id ∉ gone → db'.threadUnclaimable.get? id = db.threadUnclaimable.get? id
  budgets : ∀ {id}, id ∉ gone → db'.threadBudgets.get? id = db.threadBudgets.get? id
  transitions : ∀ tr ∈ db'.threadTransitions.rows, tr.threadId ∉ gone →
    tr ∈ db.threadTransitions.rows

namespace Spares

variable {db db1 db' : Db} {gone gone' : List ThreadId}

theorem refl (db : Db) : Spares db db [] where
  frame := rfl
  hasThread := id
  threads := fun h _ => h
  idle := fun _ h => by cases h
  attributes := fun _ => rfl
  footprints := fun _ h => h
  fingerprints := fun _ => rfl
  blocks := id
  unclaimable := fun _ => rfl
  budgets := fun _ => rfl
  transitions := fun _ h _ => h

theorem trans (h : Spares db db1 gone) (h' : Spares db1 db' gone') :
    Spares db db' (gone ++ gone') where
  frame := by
    rw [h'.frame, h.frame]
  hasThread := fun hid => h'.hasThread (h.hasThread hid)
  threads := by
    intro id r hg hid
    rw [mem_append, not_or] at hid
    exact h'.threads (h.threads hg hid.1) hid.2
  idle := by
    intro id r hg hid
    by_cases hmem : id ∈ gone
    · exact h.idle hg hmem
    · exact h'.idle (h.threads hg hmem) ((mem_append.mp hid).resolve_left hmem)
  attributes := fun hid => (h'.attributes (h.hasThread hid)).trans (h.attributes hid)
  footprints := fun f hf => h'.footprints f (h.footprints f hf)
  fingerprints := fun hid => (h'.fingerprints (h.hasThread hid)).trans (h.fingerprints hid)
  blocks := fun hb => h'.blocks (h.blocks hb)
  unclaimable := by
    intro id hid
    rw [mem_append, not_or] at hid
    exact (h'.unclaimable hid.2).trans (h.unclaimable hid.1)
  budgets := by
    intro id hid
    rw [mem_append, not_or] at hid
    exact (h'.budgets hid.2).trans (h.budgets hid.1)
  transitions := by
    intro tr htr hid
    rw [mem_append, not_or] at hid
    exact h.transitions tr (h'.transitions tr htr hid.2) hid.1

end Spares

/-! ## 2. The stages -/

theorem ThreadRow.Idle.land (r : ThreadRow) : (r.land .closed).Idle :=
  ⟨rfl, by simp [ThreadRow.land, ThreadState.isTerminal]⟩

variable {member : MemberId}

theorem Spares.cancelInTx (hidle : ∀ r, db.threads.get? child = some r → r.Idle)
    (h : cancelInTx (db.takeOut child) child member reason .transition transition now ended =
      .ok (db', outcome)) : Spares db db' [child] := by
  obtain ⟨_, _, _, _, _, hframe⟩ : ∃ threads budgets transitions unclaimable cancellations,
      db' = { db.takeOut child with
        threads := threads, threadBudgets := budgets, threadTransitions := transitions,
        threadUnclaimable := unclaimable, threadCancellations := cancellations } := by
    rcases cancelInTx_cases h with rfl | ⟨row, _, _, _, hframe⟩
    · exact ⟨_, _, _, _, _, rfl⟩
    · exact ⟨_, _, _, _, _, hframe⟩
  have hthreads : ∀ {id}, id ≠ child → db'.threads.get? id = db.threads.get? id := by
    intro id hid
    rcases cancelInTx_cases h with rfl | ⟨row, _, hthreads, _, _⟩
    · rfl
    · rw [hthreads, get?_update_ne _ _ _ hid]
      rfl
  have hthere := (cancelInTx_takeOut h).hasThread
  have hothers := fun {id} (hid : id ≠ child) => cancelInTx_others h hid
  subst hframe
  refine { Spares.refl db with
    frame := rfl, hasThread := (hthere _).mpr, threads := ?_, idle := ?_, unclaimable := ?_,
    budgets := ?_, transitions := ?_ }
  · intro id r hg hid
    rw [hthreads (by simpa using hid)]
    exact hg
  · intro id r hg hid
    obtain rfl := mem_singleton.mp hid
    exact hidle r hg
  · intro id hid
    exact (hothers (by simpa using hid)).1
  · intro id hid
    exact (hothers (by simpa using hid)).2.1
  · intro tr htr hid
    exact (hothers (by simpa using hid)).2.2 tr htr rfl

theorem Spares.cancelChildren
    (hidle : ∀ c ∈ cancel, ∀ r, db.threads.get? c.threadId = some r → r.Idle)
    (h : cancelChildren member reason draws i db cancel = .ok db') :
    Spares db db' (cancel.map PlannedChild.threadId) := by
  induction cancel generalizing i db with
  | nil =>
    cases h
    exact Spares.refl _
  | cons child rest ih =>
    obtain ⟨⟨db1, outcome⟩, hcancel, h⟩ := bind_ok h
    dsimp only at h
    split at h
    · have hfirst := Spares.cancelInTx (hidle child mem_cons_self) hcancel
      refine hfirst.trans (ih (fun c hc r hr => ?_) h)
      -- the row is as it was, or it is the one just closed
      rcases cancelInTx_cases hcancel with rfl | ⟨row, _, hthreads, _, _⟩
      · exact hidle c (mem_cons_of_mem _ hc) r hr
      · rw [hthreads, get?_update] at hr
        split at hr
        · obtain ⟨r', _, rfl⟩ := map_eq_some_iff.mp hr
          exact ThreadRow.Idle.land r'
        · exact hidle c (mem_cons_of_mem _ hc) r hr
    · cases h

variable {id : ThreadId} {steps : AmendmentSteps} {added : List PlannedChild}

section Children

variable {hash : List (Option String) → String} {parent : PlanParent} {parentId : ThreadId}
  {member : MemberId} {draws : PlanDraws}

variable {db db' : Db}

theorem Spares.insertChildInTx
    (h : insertChildInTx hash parent parentId member draws db child id position = .ok db') :
    Spares db db' [] := by
  obtain ⟨hin, hkept, -⟩ := insertChildInTx_in h
  rw [(insertChildInTx_spec h).2]
  have hnew : ∀ {x}, db.HasThread x → x ≠ id := by
    rintro x hx rfl
    exact hin.not_hasThread_new hx
  have hreads : ∀ {x}, db.HasThread x → db'.threads.get? x = db.threads.get? x :=
    fun hx => (hin.reads _).trans (if_neg (Ne.symm (hnew hx)))
  refine { Spares.refl db with
    frame := rfl, hasThread := fun {x} hx => ?_, threads := fun {x r} hg _ => ?_
    attributes := fun hx => hin.attributes _ (hnew hx), footprints := hkept
    fingerprints := fun hx => hin.print_others (hnew hx) }
  · unfold Db.HasThread
    rw [hreads hx]
    exact hx
  · rw [hreads (isSome_iff_exists.mpr ⟨r, hg⟩)]
    exact hg

theorem Spares.insertChildrenInTx
    (h : insertChildrenInTx hash parent parentId member draws firstPosition i db children =
      .ok (db', made)) : Spares db db' [] := by
  induction children generalizing i db made with
  | nil =>
    cases h
    exact Spares.refl _
  | cons child rest ih =>
    obtain ⟨db1, hchild, h⟩ := bind_ok h
    obtain ⟨⟨db2, made2⟩, hrest, h⟩ := bind_ok h
    cases h
    exact (Spares.insertChildInTx hchild).trans (ih hrest)

end Children

theorem Spares.of_blocks (deps plans) {held : Table BlockRow.threadId}
    (hblocks : ∀ {id b}, db.threadBlocks.get? id = some b → held.get? id = some b) :
    Spares db { db with
      threadDependencies := deps, threadBlocks := held, threadPlans := plans } [] :=
  { Spares.refl db with frame := rfl, blocks := hblocks }

/-- **The writes of an amendment** spare every thread they do not cancel. -/
theorem Spares.amendInTx {hash : List (Option String) → String} {parentId : ThreadId}
    {amend : AmendPlan} {held : Bool}
    (hsteps : amend.steps (existingChildren db parentId) = .ok steps)
    (h : amendInTx hash db parent parentId member amend steps draws = .ok (db', added, held)) :
    Spares db db' (steps.cancel.map PlannedChild.threadId) := by
  obtain ⟨db1, db2, db3, db4, db5, hcancel, hadded, hwire, hrewrite, _, hhold, rfl⟩ :=
    amendInTx_cases h
  have hidle : ∀ c ∈ steps.cancel, ∀ r, db.threads.get? c.threadId = some r → r.Idle := by
    intro c hc r hr
    obtain ⟨_, _, hcancel, _⟩ := AmendPlan.parts_of_steps hsteps
    obtain ⟨e, he, -, hthread, hun⟩ := (cancelSteps_spec hcancel).2 c hc
    obtain ⟨⟨row, t⟩, hrow, rfl⟩ := mem_map.mp he
    have ht : db.threads.get? c.threadId = some t := hthread ▸ (mem_amendRows.mp hrow).2
    obtain rfl := mem_unique hr ht
    simp only [Bool.and_eq_true, beq_iff_eq, isNone_iff_eq_none] at hun
    exact ⟨hun.2, by simp [hun.1]⟩
  have hrest : Spares db2 { db5 with
      threadPlans := db5.threadPlans.update parentId PlanRow.amended PlanRow.amended_parent } [] := by
    have hdeps := wiring_frame hwire hrewrite
    rw [(holdIf_spec hhold).frame_of hdeps]
    refine Spares.of_blocks _ _ fun hb => (holdIf_spec hhold).kept ?_
    rw [hdeps]
    exact hb
  have hall := ((Spares.cancelChildren hidle hcancel).trans
    (Spares.insertChildrenInTx hadded)).trans hrest
  rwa [append_nil, append_nil] at hall

/-! ## 3. Claimability -/

namespace Spares

variable {db db' : Db} {gone : List ThreadId} {t : ThreadRow} {now : Int}

section

variable (h : Spares db db' gone)
include h

theorem liveThread (hl : liveThread db id now = true) : Maidan.liveThread db' id now = true := by
  unfold Maidan.liveThread at hl ⊢
  cases hg : db.threads.get? id with
  | none => simp [hg] at hl
  | some =>
    rw [hg] at hl
    have hnot : id ∉ gone := by
      intro hmem
      have hassignee := (liveClaim_iff.mp hl).1
      rw [(h.idle hg hmem).1] at hassignee
      cases hassignee
    rw [h.threads hg hnot]
    exact hl

section

variable (ht : db.threads.get? t.id = some t)
include ht

theorem duplicate (hd : duplicate db t = true) :
    Maidan.duplicate db' t = true ∨ ∃ v ∈ gone, Links db t.id v := by
  obtain ⟨orig, horig⟩ := isSome_iff_exists.mp hd
  obtain ⟨⟨f, hf, hdup⟩, o, ho, hlive⟩ := liveOriginalOn_spec horig
  by_cases hmem : orig ∈ gone
  · exact .inr ⟨orig, hmem, f, hf, hdup⟩
  · refine .inl ?_
    have hf' : db'.taskFingerprints.get? t.id = some f := by
      rw [h.fingerprints (isSome_of_eq_some ht)]
      exact hf
    have ho' := h.threads ho hmem
    unfold Maidan.duplicate liveOriginalOn
    simp [hf', hdup, ho', hlive]

theorem issueInReview (hi : issueInReview db t = true) : Maidan.issueInReview db' t = true := by
  have hhas : db.HasThread t.id := isSome_of_eq_some ht
  unfold Maidan.issueInReview at hi ⊢
  rw [h.attributes hhas, h.fingerprints hhas]
  cases ha : db.threadAttributes.get? t.id with
  | none => simp [ha] at hi
  | some =>
    simp only [ha, Bool.and_eq_true, any_eq_true] at hi ⊢
    obtain ⟨⟨hkind, oa, hoa, hmatch, ho⟩, hclear⟩ := hi
    refine ⟨⟨hkind, oa, ?_, hmatch, ?_⟩, hclear⟩
    · cases hg : db.threads.get? oa.threadId with
      | none => simp [hg] at ho
      | some o =>
        have hattr : db'.threadAttributes.get? oa.threadId = _ :=
          h.attributes (isSome_iff_exists.mpr ⟨o, hg⟩)
        rw [get?_of_mem hoa] at hattr
        exact mem_of_get? hattr
    · cases hg : db.threads.get? oa.threadId with
      | none => simp [hg] at ho
      | some =>
        simp only [hg, Bool.and_eq_true, beq_iff_eq] at ho
        have hnot : oa.threadId ∉ gone := fun hmem => (h.idle hg hmem).2 ho.2
        have hspace : ∀ x, db'.workspaceOf x = db.workspaceOf x := by
          intro x
          rw [h.frame]
          rfl
        simp only [h.threads hg hnot, hspace, Bool.and_eq_true, beq_iff_eq]
        exact ho

theorem withheld (hout : t.id ∉ gone) (hw : withheld db t = true) :
    Maidan.withheld db' t = true ∨ ∃ v ∈ gone, Links db t.id v := by
  have hparked : parked db' t = parked db t := by
    unfold parked
    rw [h.unclaimable hout]
  have hbudget : overBudget db' t = overBudget db t := by
    unfold overBudget
    rw [h.budgets hout]
  have hfinished : finished db t = true → finished db' t = true := by
    unfold finished
    have hresults : db'.threadResults = db.threadResults := by
      rw [h.frame]
    rw [hresults]
    cases db.threadResults.get? t.id with
    | none => exact id
    | some =>
      simp only [Bool.not_eq_true', any_eq_false]
      intro hno tr htr hc
      simp only [Bool.and_eq_true, beq_iff_eq] at hc
      refine hno tr (h.transitions tr htr (by rw [hc.1.1]; exact hout)) ?_
      simpa using hc
  unfold Maidan.withheld at hw ⊢
  simp only [Bool.or_eq_true] at hw ⊢
  rw [hparked, hbudget]
  rcases hw with (((hw | hw) | hw) | hw) | hw
  · exact .inl (.inl (.inl (.inl (.inl hw))))
  · exact (h.duplicate ht hw).imp_left fun hd => .inl (.inl (.inl (.inr hd)))
  · exact .inl (.inl (.inl (.inr (h.issueInReview ht hw))))
  · exact .inl (.inl (.inr hw))
  · exact .inl (.inr (hfinished hw))

end

theorem stalled (hdep : ∀ v, v ∉ gone → Depends db t.id v → Depends db' t.id v)
    (hs : stalled db t now = true) :
    Maidan.stalled db' t now = true ∨ ∃ v ∈ gone, Depends db t.id v := by
  unfold Maidan.stalled at hs ⊢
  simp only [Bool.or_eq_true] at hs ⊢
  rcases hs with ((hs | hs) | hs) | hs
  · refine .inl (.inl (.inl (.inl ?_)))
    obtain ⟨b, hb⟩ := isSome_iff_exists.mp hs
    exact isSome_iff_exists.mpr ⟨b, h.blocks hb⟩
  · obtain ⟨d, hd, hwait⟩ := any_eq_true.mp hs
    simp only [Bool.and_eq_true, beq_iff_eq] at hwait
    have hold : Depends db t.id d.dependsOnThreadId := by
      rw [depends_iff, ← hwait.1]
      exact hd
    by_cases hmem : d.dependsOnThreadId ∈ gone
    · exact .inr ⟨_, hmem, hold⟩
    · refine .inl (.inl (.inl (.inr (any_eq_true.mpr
        ⟨⟨t.id, d.dependsOnThreadId⟩, depends_iff.mp (hdep _ hmem hold), ?_⟩))))
      cases hg : db.threads.get? d.dependsOnThreadId with
      | none => simp [hg] at hwait
      | some dep =>
        have hcloses : db'.threadUnlandedCloses = db.threadUnlandedCloses := by
          rw [h.frame]
        have hunmet : unmet db' dep = unmet db dep := by
          unfold unmet
          rw [hcloses]
        rw [hg] at hwait
        simp only [h.threads hg hmem, hunmet]
        simpa using hwait.2
  · refine .inl (.inl (.inr ?_))
    have hgates : db'.approvalGates = db.approvalGates := by
      rw [h.frame]
    unfold gated at hs ⊢
    rw [hgates]
    exact hs
  · refine .inl (.inr (deferred_mono h.footprints ?_ ?_ (fun _ => h.liveThread) hs))
    · rw [h.frame]
    · rw [h.frame]

/-- **A thread that is claimable afterwards** was so before, or something gone held it back. -/
theorem claimable (ht : db.threads.get? t.id = some t) (hout : t.id ∉ gone)
    (hdep : ∀ v, v ∉ gone → Depends db t.id v → Depends db' t.id v)
    (hc : claimable db' t now = true) :
    Maidan.claimable db t now = true ∨ ∃ v ∈ gone, Depends db t.id v ∨ Links db t.id v := by
  unfold Maidan.claimable at hc ⊢
  simp only [Bool.and_eq_true, Bool.not_eq_true'] at hc ⊢
  cases hw : Maidan.withheld db t with
  | true =>
    rcases h.withheld ht hout hw with hw' | ⟨v, hv, hl⟩
    · rw [hc.1.2] at hw'
      cases hw'
    · exact .inr ⟨v, hv, .inr hl⟩
  | false =>
    cases hs : Maidan.stalled db t now with
    | true =>
      rcases h.stalled hdep hs with hs' | ⟨v, hv, hd⟩
      · rw [hc.2] at hs'
        cases hs'
      · exact .inr ⟨v, hv, .inl hd⟩
    | false => exact .inl ⟨⟨hc.1.1, rfl⟩, rfl⟩

end

end Spares

/-! ## 4. The amendment -/

section Amendments

variable {hash : List (Option String) → String} {db db' : Db} {parentId : ThreadId}
  {member : MemberId} {request amendment : AmendPlan} {draws : PlanDraws} {outcome : PlanAmendment}

theorem Amending.inPlan_or_added (h : Amending db parentId amendment steps added)
    (hu : u ∈ h.threads.map Prod.snd) :
    InPlan db parentId u ∨ u ∈ added.map PlannedChild.threadId := by
  rw [h.threads_eq, map_append, map_map, map_map, mem_append] at hu
  refine hu.imp_left fun hu => ?_
  obtain ⟨e, he, rfl⟩ := mem_map.mp hu
  exact h.wired.mem_existing_threads.mp (mem_map.mpr ⟨e, (AmendPlan.mem_staying.mp he).1, rfl⟩)

/-- **A child that stays and is not rewritten** waits for what it waited for. -/
theorem Amending.depends_staying (h : Amending db parentId amendment steps added)
    (hdep : h.Rewrote db') (he : e ∈ h.staying)
    (hkey : e.key ∉ (amendment.rewrite (existingChildren db parentId)).map Prod.fst) (v : ThreadId) :
    Depends db' e.threadId v ↔ Depends db e.threadId v := by
  have hmem := h.mem_threads_of_staying he
  have hnone : amendment.rewritten (existingChildren db parentId) e = none := by
    cases hrew : amendment.rewritten (existingChildren db parentId) e with
    | none => rfl
    | some deps =>
      exact absurd (mem_map.mpr ⟨(e.key, deps), mem_rewrite.mpr ⟨e, he, hrew, rfl⟩, rfl⟩) hkey
  have hthread : ¬NodeThread h.threads (amendment.rewrite (existingChildren db parentId))
      e.threadId := by
    intro hnode
    obtain ⟨e', he', heq, hsome⟩ := h.rewritten_of_nodeThread hmem hnode
    rw [h.staying_unique he' he heq, hnone] at hsome
    cases hsome
  have hedge : ¬NodeEdge h.threads (amendment.rewrite (existingChildren db parentId))
      e.threadId v := fun ⟨node, hnode, hu, _⟩ => hthread ⟨node, hnode, hu⟩
  have hadd : ¬NodeEdge h.threads (keyNodes amendment.add) e.threadId v := by
    rintro ⟨node, hnode, hu, _⟩
    exact h.staying_not_added he hnode (h.key_unique hmem (h.wire_iff.mp hu))
  -- one that waited for a cancelled child would have been rewritten
  have hstays : Depends db e.threadId v → v ∉ h.gone := by
    intro hd hgone
    obtain ⟨c, hc, hcv⟩ := mem_map.mp hgone
    obtain ⟨e', he', _, hthread'⟩ := h.accepted.cancelled c hc
    have hcancel : amendment.cancels e'.key = true := by
      rw [← h.gone_iff he', hthread', hcv]
      exact hgone
    have hon : e'.key ∈ e.dependsOn := by
      refine (h.wired.mem_dependsOn (AmendPlan.mem_staying.mp he).1).mpr ⟨e', he', rfl, ?_⟩
      rw [hthread', hcv]
      exact hd
    unfold AmendPlan.rewritten at hnone
    split at hnone
    · cases hnone
    rw [if_pos (any_eq_true.mpr ⟨_, hon, hcancel⟩)] at hnone
    cases hnone
  rw [hdep]
  simp only [hthread, hedge, hadd, or_false, false_and, not_false_eq_true, and_true]
  exact and_iff_left_of_imp hstays

/-- **An amendment stays inside its plan**, cancelled children apart.  For a thread outside the plan
every dependency stays as it was, unless it is on a cancelled child, or on the new thread of one it
waited for; one on a cancelled child that is not replaced is gone; the thread itself is untouched,
and is claimable only if it was before or was held back by a cancelled child.  A child that is not
cancelled or rewired waits for what it waited for. -/
theorem amend_stays_inside (hwired : Wired db) (hchecked : request.checked = .ok amendment)
    (h : amend hash db parentId member amendment draws = .ok (db', outcome)) :
    (∀ u, ¬InPlan db parentId u → u ∉ outcome.added.map PlannedChild.threadId →
      (∀ v, v ∉ outcome.cancelled.map PlannedChild.threadId →
        (∀ c ∈ outcome.added, c.threadId = v → ∀ d ∈ outcome.cancelled, d.key = c.key →
          ¬Depends db u d.threadId) →
        (Depends db' u v ↔ Depends db u v)) ∧
      ∀ c ∈ outcome.cancelled, c.key ∉ outcome.added.map PlannedChild.key →
        ¬Depends db' u c.threadId) ∧
    (∀ t now, db.threads.get? t.id = some t → ¬InPlan db parentId t.id →
      db'.threads.get? t.id = some t ∧
      (claimable db' t now = true → claimable db t now = true ∨
        ∃ c ∈ outcome.cancelled, Depends db t.id c.threadId ∨ Links db t.id c.threadId)) ∧
    ∀ c ∈ db.threadPlanChildren.rows, c.parentThreadId = parentId →
      c.childThreadId ∉ outcome.cancelled.map PlannedChild.threadId →
      c.childKey ∉ outcome.rewired → ∀ v, Depends db' c.childThreadId v ↔
        Depends db c.childThreadId v := by
  obtain ⟨parent, _, steps, _, _, _, _, hsteps, hwrites, hcancelled, hrewired⟩ := amend_cases h
  have hacc := AmendPlan.steps_spec existing_keys_nodup
    (AmendPlan.add_nodup_of_checked hchecked) hsteps
  obtain ⟨_, ham, hdep⟩ := amendInTx_spec hwired hacc hwrites
  have hspares := Spares.amendInTx hsteps hwrites
  have hrow : ∀ {u v}, ¬InPlan db parentId u → u ∉ outcome.added.map PlannedChild.threadId →
      (Depends db' u v ↔ Depends db u v ∧ v ∉ ham.gone) := by
    intro u v hu hadded
    refine ham.depends_outside hdep fun hboth => ?_
    exact (ham.inPlan_or_added hboth.1).elim hu hadded
  rw [hcancelled, hrewired, hacc.rewrite]
  refine ⟨fun u hu hadded => ⟨fun v hv _ => ?_, fun c hc _ hd => ?_⟩, fun t now ht hu => ?_,
    fun c hc hparent hstay hkey v => ?_⟩
  · rw [hrow hu hadded]
    exact and_iff_left hv
  · exact ((hrow hu hadded).mp hd).2 (mem_map.mpr ⟨c, hc, rfl⟩)
  · have hhas : db.HasThread t.id := isSome_of_eq_some ht
    have hout : t.id ∉ ham.gone := by
      intro hmem
      obtain ⟨c, hc, hthread⟩ := mem_map.mp hmem
      obtain ⟨e, he, _, hthread'⟩ := ham.accepted.cancelled c hc
      refine hu (hwired.mem_existing_threads.mp (mem_map.mpr ⟨e, he, ?_⟩))
      rw [hthread', hthread]
    have hadded : t.id ∉ outcome.added.map PlannedChild.threadId :=
      fun hmem => ham.addedFree _ hmem hhas
    refine ⟨hspares.threads ht hout, fun hc => ?_⟩
    refine (hspares.claimable ht hout (fun v hv hd => (hrow hu hadded).mpr ⟨hd, hv⟩) hc).imp_right ?_
    rintro ⟨v, hv, hheld⟩
    obtain ⟨c, hc, rfl⟩ := mem_map.mp hv
    exact ⟨c, hc, hheld⟩
  · obtain ⟨e, he, heq⟩ : ∃ e ∈ existingChildren db parentId,
        e.key = c.childKey ∧ e.threadId = c.childThreadId := by
      obtain ⟨t, ht⟩ := isSome_iff_exists.mp (hwired.children c hc)
      exact ⟨_, mem_map.mpr ⟨(c, t), mem_amendRows.mpr ⟨⟨hc, hparent⟩, ht⟩, rfl⟩, rfl, rfl⟩
    rw [← heq.1] at hkey
    rw [← heq.2] at hstay ⊢
    refine ham.depends_staying hdep (AmendPlan.mem_staying.mpr ⟨he, ?_⟩) hkey v
    rw [← Bool.not_eq_true, ← ham.gone_iff he]
    exact hstay

end Amendments

/-- The plan of `a` and `b`, threads 10 and 11, and thread 2 outside it, which waits for `a`. -/
def waitingOutside : Db := exec plainNext plannerDb [submitOp, .add ⟨2⟩ ⟨10⟩]

theorem wired_waitingOutside : Wired waitingOutside :=
  (exec_inv_of_meets (fun _ _ hs hop => Sound.depNext plainHash plainEnv hs hop)
    [submitOp, .add ⟨2⟩ ⟨10⟩] plannerDb sound_plannerDb (by decide)).wired

/-- The amendment that cancels `a`. -/
def dropA : AmendPlan := { leaseId := ⟨1⟩, cancel := ["a"] }

/-- Draws that number what is drawn from `first` on, all at one instant. -/
def planDraws (first : Nat) (now : Int) : PlanDraws where
  thread := fun i => ⟨first + i⟩
  transition := fun i => ⟨first + i⟩
  cancelledAt := fun _ => (now, now)
  heldAt := now
  now := now

theorem amend_stays_inside_dropA :
    Wired waitingOutside ∧ dropA.checked = .ok dropA ∧
    ∃ db' outcome, amend plainHash waitingOutside ⟨1⟩ ⟨1⟩ dropA (planDraws 20 1) =
        .ok (db', outcome) ∧
      ∀ t now, waitingOutside.threads.get? t.id = some t → ¬InPlan waitingOutside ⟨1⟩ t.id →
        db'.threads.get? t.id = some t ∧
        (claimable db' t now = true → claimable waitingOutside t now = true ∨
          ∃ c ∈ outcome.cancelled, Depends waitingOutside t.id c.threadId ∨
            Links waitingOutside t.id c.threadId) := by
  have hchecked : dropA.checked = .ok dropA := by decide +kernel
  obtain ⟨⟨db', outcome⟩, h⟩ := exists_of_isOk (x := amend plainHash waitingOutside ⟨1⟩ ⟨1⟩
    dropA (planDraws 20 1)) (by decide +kernel)
  exact ⟨wired_waitingOutside, hchecked, db', outcome, h,
    (amend_stays_inside wired_waitingOutside hchecked h).2.1⟩

set_option maxRecDepth 40000 in
/-- **Cancelling `a` drops the row of a thread outside the plan, and makes it claimable.** -/
theorem amendment_reaches_outside :
    Wired waitingOutside ∧ dropA.checked = .ok dropA ∧
    ∃ db' outcome t, amend plainHash waitingOutside ⟨1⟩ ⟨1⟩ dropA (planDraws 20 1) =
        .ok (db', outcome) ∧
      waitingOutside.threads.get? ⟨2⟩ = some t ∧ ¬InPlan waitingOutside ⟨1⟩ ⟨2⟩ ∧
      Depends waitingOutside ⟨2⟩ ⟨10⟩ ∧ ¬Depends db' ⟨2⟩ ⟨10⟩ ∧
      claimable waitingOutside t 1 = false ∧ claimable db' t 1 = true := by
  have hchecked : dropA.checked = .ok dropA := by decide +kernel
  obtain ⟨⟨db', outcome⟩, h⟩ := exists_of_isOk (x := amend plainHash waitingOutside ⟨1⟩ ⟨1⟩
    dropA (planDraws 20 1)) (by decide +kernel)
  have hdb : (amend plainHash waitingOutside ⟨1⟩ ⟨1⟩ dropA (planDraws 20 1)).toOption.map
      (fun r => (edgesOf r.1, claimable r.1 { id := ⟨2⟩, channelId := ⟨1⟩ } 1)) =
      some ([], true) := by
    decide +kernel
  rw [h] at hdb
  obtain ⟨hedges, hclaim⟩ := Prod.mk.inj (Option.some.inj hdb)
  refine ⟨wired_waitingOutside, hchecked, db', outcome, { id := ⟨2⟩, channelId := ⟨1⟩ }, h,
    by decide +kernel, by unfold InPlan; decide +kernel, ?_, ?_, by decide +kernel, hclaim⟩
  · exact depends_iff.mpr (by decide +kernel)
  · unfold Depends Edge
    rw [hedges]
    simp

end Maidan
