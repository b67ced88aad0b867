/-
# Reads before the transaction

The SQLite `submit` and `amend` read first and write afterwards.  Outside the transaction they read
the parent, check the hold, look for an earlier plan and ask the spawn budget; the transaction then
writes on what was read, whatever has happened to the parent in between.

* §1 is the machine: calls that have read and not yet committed, among claims, releases, reaps,
  assigns, cancels and one another.
* §2 is what a call knows while it waits.  `only_the_holder_plans` holds of the runs in which a
  call commits on a parent whose claim is the one it read and whose children have not grown since;
  `stale_reads_commit` has a run for each half that does not.
-/
import Maidan.Plan.Held
import Maidan.Plan.SpawnBudget

namespace Maidan

open Relational Run List

/-! ## 1. Calls in flight -/

variable (hash : List (Option String) → String)

/-- What a planner asks for. -/
inductive PlanRequest
  | submit (plan : SubmitPlan)
  | amend (amend : AmendPlan)

namespace PlanRequest

/-- The request as the route checks it. -/
def checked : PlanRequest → Except StoreError PlanRequest
  | .submit plan => badRequest (plan.checked.map .submit)
  | .amend request => badRequest (request.checked.map .amend)

/-- The lease the planner gives. -/
def leaseId : PlanRequest → ClaimLeaseId
  | .submit plan => plan.leaseId
  | .amend request => request.leaseId

/-- The children the request adds on balance: what it asks the spawn budget for. -/
def netAdding : PlanRequest → Int
  | .submit plan => plan.children.length
  | .amend request => request.add.length - request.cancel.length

/-- The reads of the request.  A submit that finds a plan answers with it and writes nothing. -/
def reads (db : Db) (parentId : ThreadId) (member : MemberId) (heldAt : Int) :
    PlanRequest → Except StoreError (Option PlanParent)
  | .submit plan => do
    match ← submitReads db parentId member plan heldAt with
    | .inl parent => return some parent
    | .inr _ => return none
  | .amend request => do
    let parent ← amendReads db parentId member request heldAt
    return some parent

end PlanRequest

/-- A call that has read and not yet committed, with the parent and the number of its active
children as they were then. -/
structure PlanCall where
  parentId : ThreadId
  member : MemberId
  request : PlanRequest
  parent : PlanParent
  children : Int

/-- The transaction of a call, and the children it makes. -/
def PlanCall.commit (db : Db) (draws : PlanDraws) (call : PlanCall) :
    Except StoreError (Db × List PlannedChild) :=
  match call.request with
  | .submit plan => submitInTx hash db call.parent call.parentId call.member plan draws
  | .amend amend =>
    (amendTx hash db call.parent call.parentId call.member amend draws).map
      fun (db, amendment) => (db, amendment.added)

/-- The store, and the calls in flight. -/
structure PlanDesk where
  db : Db
  calls : List PlanCall

/-- What can happen: a call reads, a call in flight commits, or a claim changes hands. -/
inductive PlanStep
  | read (parentId : ThreadId) (member : MemberId) (request : PlanRequest) (heldAt : Int)
  | commit (call : Nat) (draws : PlanDraws)
  | claim (op : ClaimOp)

/-- The call that the reads leave in flight. -/
def PlanDesk.read (s : PlanDesk) (parentId : ThreadId) (member : MemberId) (request : PlanRequest)
    (heldAt : Int) : Except StoreError PlanDesk := do
  let request ← request.checked
  match ← request.reads s.db parentId member heldAt with
  | none => return s
  | some parent =>
    return { s with calls := s.calls ++ [{ parentId := parentId, member := member,
                                           request := request, parent := parent,
                                           children := countActiveChildren s.db parentId }] }

/-- One step.  A call is over when its transaction is, committed or not. -/
def deskNext (s : PlanDesk) : PlanStep → PlanDesk
  | .read parentId member request heldAt => settle s (s.read parentId member request heldAt)
  | .commit i draws =>
    match s.calls[i]? with
    | none => s
    | some call =>
      { db := settle s.db ((call.commit hash s.db draws).map Prod.fst)
        calls := s.calls.eraseIdx i }
  | .claim op => { s with db := settle s.db (step s.db op) }

/-- **The reads of the call still stand**: the parent's claim is the one it read, and the parent has
no more children than it counted. -/
def PlanCall.current (db : Db) (call : PlanCall) : Bool :=
  (match db.threads.get? call.parentId with
    | none => false
    | some t => t.assigneeId == call.parent.assigneeId &&
        t.claimLeaseId == call.parent.claimLeaseId) &&
    decide (countActiveChildren db call.parentId ≤ call.children)

/-- An amendment that both cancels and adds has room for all it adds, where the workspace limits the
children of a thread. -/
def PlanCall.roomy (db : Db) (call : PlanCall) : Bool :=
  match call.request with
  | .submit _ => true
  | .amend amend =>
    ((db.spawnBudgets.get? call.parent.workspaceId).bind SpawnBudgetRow.maxChildren).all
      fun maxChildren => amend.roomy call.parent.workspaceId maxChildren db call.parentId

/-- **The condition on a step**: a call commits while its reads stand, and with room. -/
def PlanStep.current (s : PlanDesk) : PlanStep → Bool
  | .commit i _ => s.calls[i]?.all fun call => call.current s.db && call.roomy s.db
  | _ => true

/-! ## 2. What a call in flight knows -/

/-- **The calling member holds the parent** under the lease it gave. -/
def PlanCall.Holds (db : Db) (call : PlanCall) : Prop :=
  ∃ t, db.threads.get? call.parentId = some t ∧ t.assigneeId = some call.member ∧
    t.claimLeaseId = some call.request.leaseId

/-- **The thread has at most `max_children` active children**, where its workspace sets the limit. -/
def WithinMaxChildren (db : Db) (id : ThreadId) : Prop :=
  ∀ t ws budget maxChildren, db.threads.get? id = some t → db.workspaceOf t = some ws →
    db.spawnBudgets.get? ws = some budget → budget.maxChildren = some maxChildren →
    countActiveChildren db id ≤ maxChildren

/-- What the reads have shown, and what of it stays true whatever happens. -/
structure PlanCall.HasRead (db : Db) (call : PlanCall) : Prop where
  assignee : call.parent.assigneeId = some call.member
  lease : call.parent.claimLeaseId = some call.request.leaseId
  place : ∃ t, db.threads.get? call.parentId = some t ∧
    db.workspaceOf t = some call.parent.workspaceId
  room : ∀ {budget maxChildren}, db.spawnBudgets.get? call.parent.workspaceId = some budget →
    budget.maxChildren = some maxChildren → 0 < call.request.netAdding →
    call.children + call.request.netAdding ≤ maxChildren

/-- Every call in flight has what it read. -/
def PlanDesk.HasRead (s : PlanDesk) : Prop := ∀ call ∈ s.calls, call.HasRead s.db

variable {parent : PlanParent}

section Reads

variable {hash : List (Option String) → String} {db db' : Db} {call : PlanCall}

variable {member : MemberId}

theorem holdCheck_spec (h : holdCheck parent member lease now = .ok ()) :
    parent.assigneeId = some member ∧ parent.claimLeaseId = some lease := by
  unfold holdCheck at h
  split at h
  · cases h
  split at h
  · cases h
  rename_i hheld
  simp only [not_or, not_not] at hheld
  exact ⟨hheld.1, hheld.2.1⟩

/-- The reads, whichever the request: the parent, the hold and the room for what is asked. -/
theorem PlanRequest.reads_spec {request : PlanRequest}
    (h : request.reads db parentId member heldAt = .ok (some parent)) :
    parentRow db parentId = .ok parent ∧ holdCheck parent member request.leaseId heldAt = .ok () ∧
      (0 < request.netAdding → spawnBudget db parentId parent request.netAdding = .ok ()) := by
  cases request with
  | submit =>
    obtain ⟨answer, hreads, h⟩ := bind_ok h
    obtain ⟨parent', hparent, hreads⟩ := bind_ok hreads
    obtain ⟨_, hhold, hreads⟩ := bind_ok hreads
    split at hreads
    · cases hreads
      cases h
    · obtain ⟨_, hbudget, hreads⟩ := bind_ok hreads
      cases hreads
      cases h
      exact ⟨hparent, hhold, fun _ => hbudget⟩
  | amend =>
    obtain ⟨answer, hreads, h⟩ := bind_ok h
    obtain ⟨parent', hparent, hreads⟩ := bind_ok hreads
    obtain ⟨_, hhold, hreads⟩ := bind_ok hreads
    obtain ⟨_, hbudget, hreads⟩ := bind_ok hreads
    cases hreads
    cases h
    refine ⟨hparent, hhold, fun hpos => ?_⟩
    simp only [PlanRequest.netAdding] at hpos ⊢
    unfold netSpawnBudget at hbudget
    rw [if_pos hpos] at hbudget
    exact hbudget

theorem PlanCall.HasRead.of_reads {parentId : ThreadId} {request : PlanRequest}
    (h : request.reads db parentId member heldAt = .ok (some parent)) :
    PlanCall.HasRead db { parentId := parentId, member := member, request := request,
                          parent := parent, children := countActiveChildren db parentId } := by
  obtain ⟨hparent, hhold, hbudget⟩ := PlanRequest.reads_spec h
  obtain ⟨t, ht, _, hspace, _⟩ := parentRow_spec hparent
  obtain ⟨hassignee, hlease⟩ := holdCheck_spec hhold
  exact
    { assignee := hassignee
      lease := hlease
      place := ⟨t, ht, hspace⟩
      room := fun hget hmax hpos => spawnBudget_children hget hmax (hbudget hpos) }

theorem PlanCall.HasRead.grown {parent : Option ThreadId} (h : call.HasRead db)
    (hgrown : Grown db db' parent channel ids) (hchannels : db'.channels = db.channels)
    (hbudgets : db'.spawnBudgets = db.spawnBudgets) : call.HasRead db' := by
  refine { h with place := ?_, room := ?_ }
  · obtain ⟨t, ht, hspace⟩ := h.place
    obtain ⟨t', ht', hsame⟩ := hgrown.old ht
    exact ⟨t', ht', (hsame.workspaceOf hchannels).trans hspace⟩
  · rw [hbudgets]
    exact h.room

theorem PlanCall.commit_grown (h : call.commit hash db draws = .ok (db', made)) :
    Grown db db' (some call.parentId) call.parent.channelId (made.map PlannedChild.threadId) ∧
      db'.channels = db.channels ∧ db'.spawnBudgets = db.spawnBudgets ∧
      match call.request with
      | .submit plan => made.length = plan.children.length
      | .amend amend => made.length = amend.add.length := by
  unfold PlanCall.commit at h
  split at h
  · obtain ⟨_, _, h⟩ := bind_ok h
    obtain ⟨db1, hinsert, h⟩ := bind_ok h
    obtain ⟨⟨db2, made2⟩, hmade, h⟩ := bind_ok h
    obtain ⟨db3, hdeps, h⟩ := bind_ok h
    obtain ⟨db4, hhold, h⟩ := bind_ok h
    cases h
    obtain ⟨hgrown, hchannels, hbudgets, _, hlen⟩ := submit_grown hinsert hmade hdeps hhold
    exact ⟨hgrown, hchannels, hbudgets, hlen⟩
  · obtain ⟨⟨db1, amendment⟩, htx, hout⟩ := map_eq_ok.mp h
    cases hout
    obtain ⟨_, _, htx⟩ := bind_ok htx
    split at htx
    · cases htx
    rename_i steps hsteps
    obtain ⟨_, _, htx⟩ := bind_ok htx
    obtain ⟨⟨db2, added, held⟩, hwrites, htx⟩ := bind_ok htx
    cases htx
    obtain ⟨hgrown, hchannels, hbudgets, _, hlen⟩ := amendInTx_grown hwrites
    rw [(AmendPlan.parts_of_steps hsteps).1] at hlen
    exact ⟨hgrown, hchannels, hbudgets, hlen⟩

/-- **One step leaves every call in flight with what it has read.** -/
theorem PlanDesk.HasRead.next (hs : s.HasRead) : (deskNext hash s op).HasRead := by
  cases op with
  | read parentId member request heldAt =>
    simp only [deskNext]
    cases h : s.read parentId member request heldAt with
    | error => exact hs
    | ok =>
      obtain ⟨request', _, h⟩ := bind_ok h
      obtain ⟨parent, hreads, h⟩ := bind_ok h
      cases parent with
      | none =>
        cases h
        exact hs
      | some =>
        cases h
        intro call hcall
        rcases mem_append.mp hcall with hold | hnew
        · exact hs call hold
        · obtain rfl := mem_singleton.mp hnew
          exact .of_reads hreads
  | commit i draws =>
    simp only [deskNext]
    split
    · exact hs
    · rename_i call hcall
      intro call' hcall'
      have hread := hs call' (mem_of_mem_eraseIdx hcall')
      cases h : call.commit hash s.db draws with
      | error => exact hread
      | ok =>
        obtain ⟨hgrown, hchannels, hbudgets, _⟩ := PlanCall.commit_grown h
        exact hread.grown hgrown hchannels hbudgets
  | claim op =>
    simp only [deskNext]
    intro call hcall
    have hread := hs call hcall
    cases h : step s.db op with
    | error => exact hread
    | ok db' =>
      have hgrown : Grown s.db db' none ⟨0⟩ [] := step_grown h
      have hframe := (step_committed h).frame
      exact hread.grown hgrown (by rw [hframe]; rfl) (by rw [hframe]; rfl)

theorem PlanCall.holds_of_current (hread : call.HasRead db) (hcur : call.current db = true) :
    call.Holds db := by
  simp only [PlanCall.current, Bool.and_eq_true] at hcur
  obtain ⟨hclaim, _⟩ := hcur
  split at hclaim
  · cases hclaim
  rename_i t ht
  simp only [Bool.and_eq_true, beq_iff_eq] at hclaim
  exact ⟨t, ht, hclaim.1.trans hread.assignee, hclaim.2.trans hread.lease⟩

/-- The children are within the limit once a call commits that counted no fewer than there are. -/
theorem PlanCall.within_of_current (hread : call.HasRead db) (hcur : call.current db = true)
    (hroomy : call.roomy db = true) (h : call.commit hash db draws = .ok (db', made))
    (hmade : made ≠ []) : WithinMaxChildren db' call.parentId := by
  obtain ⟨hgrown, hchannels, hbudgets, hlen⟩ := PlanCall.commit_grown h
  have hread' := hread.grown hgrown hchannels hbudgets
  intro t ws budget maxChildren ht hws hget hmax
  obtain ⟨t', ht', hws'⟩ := hread'.place
  obtain rfl := mem_unique ht ht'
  obtain rfl := mem_unique hws hws'
  have hle := hgrown.countActiveChildren_le call.parentId
  rw [if_pos rfl, length_map] at hle
  have hpos : 0 < made.length := length_pos_iff.mpr hmade
  simp only [PlanCall.current, Bool.and_eq_true, decide_eq_true_eq] at hcur
  have hroom := hread'.room hget hmax
  cases hreq : call.request with
  | submit =>
    simp only [hreq, PlanRequest.netAdding] at hlen hroom
    omega
  | amend =>
    obtain ⟨r, hr, hin⟩ := hread.place
    rw [hbudgets] at hget
    simp only [hreq, PlanRequest.netAdding] at hlen hroom
    simp only [PlanCall.roomy, hreq, hget, hmax, bind_some, Option.all_some,
      AmendPlan.roomy, hr, hin, bne_self_eq_false, Bool.or_false, Bool.or_eq_true,
      List.isEmpty_iff, decide_eq_true_eq] at hroomy
    rcases hroomy with (hnone | hnone) | hfits
    · -- nothing is cancelled, so the budget was asked for all that is added
      rw [hnone, List.length_nil] at hroom
      omega
    · rw [hnone, List.length_nil] at hlen
      omega
    · omega

end Reads

/-- **Only the live holder plans**, in every run whose calls commit while their reads stand: a call
that commits children is the call of the member that holds the parent then, under the lease it gave,
and leaves the parent with at most `max_children` active children. -/
theorem only_the_holder_plans (db : Db) (ops : List PlanStep)
    (hops : Meets (deskNext hash) (fun s op => op.current s = true) ⟨db, []⟩ ops) :
    ∀ pre i draws post, ops = pre ++ .commit i draws :: post →
      ∀ call db' made, (exec (deskNext hash) ⟨db, []⟩ pre).calls[i]? = some call →
        call.commit hash (exec (deskNext hash) ⟨db, []⟩ pre).db draws = .ok (db', made) →
        made ≠ [] →
        call.Holds (exec (deskNext hash) ⟨db, []⟩ pre).db ∧
          WithinMaxChildren db' call.parentId := by
  rintro pre i draws post rfl call db' made hcall hcommit hmade
  have hstart : PlanDesk.HasRead ⟨db, []⟩ := by simp [PlanDesk.HasRead]
  have hread : (exec (deskNext hash) ⟨db, []⟩ pre).HasRead :=
    exec_inv (fun _ _ hs => hs.next) pre hstart
  have hcur := (hops.drop pre _).1
  simp only [PlanStep.current, hcall, Option.all_some, Bool.and_eq_true] at hcur
  have hcallRead := hread call (mem_of_getElem? hcall)
  exact ⟨PlanCall.holds_of_current hcallRead hcur.1,
    PlanCall.within_of_current hcallRead hcur.1 hcur.2 hcommit hmade⟩

/-- The planner's workspace with a second member, and at most two children to a thread. -/
def sharedDb : Db :=
  { plannerDb with
    members := twoMembers
    spawnBudgets := { rows := [{ workspaceId := ⟨1⟩, maxChildren := some 2 }] } }

/-- Member 1 asks for a plan of one child. -/
def planOne (key : String) : PlanStep :=
  .read ⟨1⟩ ⟨1⟩ (.submit { leaseId := ⟨1⟩, children := [readyChild key] }) 1

/-- Member 1 asks for one child more. -/
def addOne (key : String) : PlanStep :=
  .read ⟨1⟩ ⟨1⟩ (.amend { leaseId := ⟨1⟩, add := [readyChild key] }) 2

/-- A plan of one child, and one more, with a renewal while the plan is in flight. -/
def planAndAdd : List PlanStep :=
  [planOne "a", .claim (.renew ⟨1⟩ ⟨1⟩ ⟨1⟩ 60 1), .commit 0 (planDraws 10 1), addOne "b"]

set_option maxRecDepth 40000 in
theorem only_the_holder_plans_planAndAdd :
    Meets (deskNext plainHash) (fun s op => op.current s = true) ⟨sharedDb, []⟩
      (planAndAdd ++ [.commit 0 (planDraws 20 2)]) ∧
    ∃ call db' made, (exec (deskNext plainHash) ⟨sharedDb, []⟩ planAndAdd).calls[0]? = some call ∧
      call.commit plainHash (exec (deskNext plainHash) ⟨sharedDb, []⟩ planAndAdd).db
        (planDraws 20 2) = .ok (db', made) ∧ made = [⟨"b", ⟨20⟩⟩] ∧
      call.Holds (exec (deskNext plainHash) ⟨sharedDb, []⟩ planAndAdd).db ∧
      WithinMaxChildren db' call.parentId := by
  have hmeets : Meets (deskNext plainHash) (fun s op => op.current s = true) ⟨sharedDb, []⟩
      (planAndAdd ++ [.commit 0 (planDraws 20 2)]) := by
    decide +kernel
  have hsome : ((exec (deskNext plainHash) ⟨sharedDb, []⟩ planAndAdd).calls[0]?).isSome = true := by
    decide +kernel
  obtain ⟨call, hcall⟩ := isSome_iff_exists.mp hsome
  have hrun : ((exec (deskNext plainHash) ⟨sharedDb, []⟩ planAndAdd).calls[0]?).map (fun call =>
      (call.commit plainHash (exec (deskNext plainHash) ⟨sharedDb, []⟩ planAndAdd).db
        (planDraws 20 2)).map Prod.snd) = some (.ok [⟨"b", ⟨20⟩⟩]) := by
    decide +kernel
  rw [hcall] at hrun
  obtain ⟨⟨db', made⟩, hcommit, hmade⟩ := map_eq_ok.mp (Option.some.inj hrun)
  obtain rfl : made = _ := hmade
  exact ⟨hmeets, call, db', _, hcall, hcommit, rfl,
    only_the_holder_plans plainHash sharedDb _ hmeets planAndAdd 0 (planDraws 20 2) [] rfl call db'
      _ hcall hcommit (by simp)⟩

/-- While the plan of member 1 is in flight, member 1 gives the claim back and member 2 takes it. -/
def handedOver : List PlanStep :=
  [planOne "a", .claim (.release ⟨1⟩ ⟨1⟩ ⟨1⟩ 1), .claim (.claim ⟨1⟩ ⟨2⟩ ⟨2⟩ none 1)]

/-- Two amendments of member 1 read one after the other, and the first commits. -/
def readTwice : List PlanStep :=
  [planOne "a", .commit 0 (planDraws 10 1), addOne "b", addOne "c", .commit 0 (planDraws 20 2)]

/-- The next call in flight after `ops`: its parent's claim when it commits, the children it makes,
and how many the parent has then. -/
def commitAfter (ops : List PlanStep) (draws : PlanDraws) :
    Option (Option MemberId × Option ClaimLeaseId × List PlannedChild × Int) := do
  let s := exec (deskNext plainHash) ⟨sharedDb, []⟩ ops
  let call ← s.calls.head?
  let t ← s.db.threads.get? call.parentId
  let (db, made) ← (call.commit plainHash s.db draws).toOption
  return (t.assigneeId, t.claimLeaseId, made, countActiveChildren db call.parentId)

set_option maxRecDepth 40000 in
/-- **Reads that no longer stand are committed on.**  Member 1 makes a child of a plan that member 2
holds, and two amendments that each had room for one child leave three where two are allowed. -/
theorem stale_reads_commit : commitAfter handedOver (planDraws 10 1) =
      some (some ⟨2⟩, some ⟨2⟩, [⟨"a", ⟨10⟩⟩], 1) ∧
    commitAfter readTwice (planDraws 30 2) = some (some ⟨1⟩, some ⟨1⟩, [⟨"c", ⟨30⟩⟩], 3) := by
  decide +kernel

end Maidan
