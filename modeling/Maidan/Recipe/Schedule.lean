/-
# Can a recipe run finish?

Two rules meet in a recipe run.  The DEPENDENCY order wants every child finished before the root
leaves `open` (`instantiate` makes the root depend on each child).  The HIERARCHICAL rule of
`land_in_tx` wants no child past its parent's state, and the children of a recipe are not among the
exempt ones: they are neither a plan's children nor of the review family.

So with one child at least each waits for the other, for ever (`Locked`, kept by every accepted move
that respects the order).  A recipe without children finishes: its root starts review and closes.
`recipe_run_finishes_iff` puts the two together.
-/
import Maidan.Recipe.Instantiate

namespace Maidan

open Relational Run Digraph List

/-! ## 1. Schedules -/

/-- **The dependency order**: a thread leaves `open` only when every thread it depends on is done. -/
def InDependencyOrder (db : Db) (move : TransitionOp) : Prop :=
  ∀ row, db.threads.get? move.thread = some row → row.state = .open →
    ∀ v, Depends db move.thread v → ∃ dep, db.threads.get? v = some dep ∧ dep.state.isTerminal

/-- **A schedule** from `db` to `final`: transitions in dependency order, each one accepted. -/
def Schedule (env : Env) : Db → List TransitionOp → Db → Prop
  | db, [], final => final = db
  | db, move :: rest, final =>
    InDependencyOrder db move ∧ ∃ db', transitionInSpawning env db move.thread move.actor
      move.action move.draws = .ok db' ∧ Schedule env db' rest final

/-- The thread is closed. -/
def IsClosed (db : Db) (thread : ThreadId) : Prop :=
  ∃ row, db.threads.get? thread = some row ∧ row.state = .closed

/-- **The run finishes in dependency order.** -/
def Finishes (env : Env) (db : Db) (run : RecipeRun) : Prop :=
  ∃ moves final, Schedule env db moves final ∧ ∀ t ∈ run.threads, IsClosed final t

/-! ## 2. Ids no row names -/

/-- Nothing stands before the landing of `id`. -/
structure Unhindered (db : Db) (id : ThreadId) : Prop where
  reviewReq : db.threadReviewReqs.get? id = none
  landGate : db.threadLandGate.get? id = none
  unrefuted : ∀ ref ∈ db.references.rows, ref.dst ≠ .thread id
  unused : ∀ ul ∈ db.usageLedger.rows, ul.threadId ≠ id

/-- **What `Uuid::now_v7` is for**: no row names the id yet.  For all but the references the foreign
keys say so already. -/
structure Unnamed (db : Db) (id : ThreadId) : Prop extends Unhindered db id where
  planChild : ∀ c ∈ db.threadPlanChildren.rows, c.childThreadId ≠ id
  attributes : db.threadAttributes.get? id = none
  waitsForNone : ∀ v, ¬Depends db id v

variable {recipe : Recipe} {run : RecipeRun} {thread child : ThreadId} {action : ThreadAction}
  {draws : Draws} {toState : ThreadState} {ws : WorkspaceRow}

variable {db db' : Db} {actor : MemberId} {env : Env}

theorem Unnamed.ran {id : ThreadId} (h : Unnamed db id) (hran : Ran db db' recipe actor run) :
    Unhindered db' id := by
  rw [hran.frame]
  exact ⟨h.reviewReq, h.landGate, h.unrefuted, h.unused⟩

theorem Unnamed.not_exempt {id : ThreadId} (h : Unnamed db id) (hran : Ran db db' recipe actor run)
    (hid : id ∈ run.threads) : exempt db' id = false ∧ isOtherKind db' id = false := by
  have hplan : isPlanChild db' id = false := by
    unfold isPlanChild
    rw [hran.frame]
    simpa using h.planChild
  unfold exempt isReviewFamilyChild isOtherKind
  rw [hplan]
  cases ha : db'.threadAttributes.get? id with
  | none => simp
  | some a =>
    obtain ⟨hkind, hfamily⟩ := hran.plain id hid h.attributes a ha
    simp [hkind, hfamily]

theorem Unhindered.transition {id : ThreadId} (h : Unhindered db id)
    (hmove : transitionInSpawning env db thread actor action draws = .ok db') :
    Unhindered db' id := by
  rw [transitionInSpawning_frame hmove]
  exact ⟨h.reviewReq, h.landGate, h.unrefuted, h.unused⟩

/-! ## 3. A child locks its root -/

/-- **Root and child wait for each other.** -/
structure Locked (db : Db) (root child : ThreadId) : Prop where
  rootOpen : ∃ r, db.threads.get? root = some r ∧ r.state = .open
  childOpen : ∃ c, db.threads.get? child = some c ∧ c.state = .open ∧
    c.parentThreadId = some root
  ranked : exempt db child = false
  waits : Depends db root child

theorem depends_transition (h : transitionInSpawning env db thread actor action draws = .ok db') :
    Depends db' u v ↔ Depends db u v := by
  rw [depends_iff, depends_iff, transitionInSpawning_frame h]

/-- **The lock holds through every accepted move in order.**  The root may not move before the
child is done; the child may not move past the open root. -/
theorem Locked.move {move : TransitionOp} (h : Locked db root child)
    (horder : InDependencyOrder db move)
    (hmove : transitionInSpawning env db move.thread move.actor move.action move.draws = .ok db') :
    Locked db' root child := by
  obtain ⟨r, hr, hropen⟩ := h.rootOpen
  obtain ⟨c, hc, hcopen, hparent⟩ := h.childOpen
  obtain ⟨row, toState, hid, hm⟩ := transitionInSpawning_moved hmove
  have hnotroot : root ≠ row.id := by
    rintro rfl
    obtain ⟨dep, hdep, hterm⟩ := horder r (by rw [← hid]; exact hr) hropen child
      (by rw [← hid]; exact h.waits)
    rw [hc] at hdep
    obtain rfl := Option.some.inj hdep
    rw [hcopen] at hterm
    cases hterm
  have hnotchild : child ≠ row.id := by
    rintro rfl
    have hself : c = row := mem_unique hc hm.there
    subst hself
    have hrank := hm.guarded h.ranked hparent hr
    rw [hropen] at hrank
    rcases stateRank_apply hm.applied with hup | ⟨_, hreview, _⟩
    · rw [hup, hcopen] at hrank
      cases hrank
    · rw [hcopen] at hreview
      cases hreview
  exact
    { rootOpen := ⟨r, hm.others hnotroot hr, hropen⟩
      childOpen := ⟨c, hm.others hnotchild hc, hcopen, hparent⟩
      ranked := (hm.exemption hc).trans h.ranked
      waits := (depends_transition hmove).mpr h.waits }

theorem Locked.schedule : ∀ {moves : List TransitionOp} {db final : Db}, Locked db root child →
    Schedule env db moves final → Locked final root child
  | [], _, _, h, hrun => by
    cases hrun
    exact h
  | _ :: _, _, _, h, ⟨horder, _, hmove, hrest⟩ => (h.move horder hmove).schedule hrest

/-- **A locked run never finishes.** -/
theorem Locked.not_finishes (h : Locked db run.rootThreadId child) : ¬Finishes env db run := by
  rintro ⟨moves, final, hrun, hclosed⟩
  obtain ⟨r, hr, hopen⟩ := (h.schedule hrun).rootOpen
  obtain ⟨row, hrow, hstate⟩ := hclosed run.rootThreadId mem_cons_self
  rw [hr] at hrow
  obtain rfl := Option.some.inj hrow
  rw [hopen] at hstate
  cases hstate

/-- **One child is enough.** -/
theorem Ran.locked (h : Ran db db' recipe actor run) (hspec : recipe.spec.WellFormed)
    (hnew : ∀ t ∈ run.threads, Unnamed db t) (hchildren : recipe.spec.children ≠ []) :
    ∃ child, Locked db' run.rootThreadId child := by
  obtain ⟨first, hfirst⟩ := exists_mem_of_ne_nil _ hchildren
  have hkey : first.key ∈ run.childIds.map Prod.fst := by
    rw [h.keys]
    exact mem_map.mpr ⟨first, hfirst, rfl⟩
  obtain ⟨⟨key, child⟩, hentry, rfl⟩ := mem_map.mp hkey
  have hid : child ∈ run.childIds.map Prod.snd := mem_map.mpr ⟨_, hentry, rfl⟩
  have hlookup : childId run.childIds first.key = .ok child :=
    childId_eq_ok.mpr ((lastOf_eq_some_iff (by rw [h.keys]; exact hspec.nodup)).mpr hentry)
  obtain ⟨now, hr⟩ := h.root
  obtain ⟨now', hc⟩ := h.children child hid
  refine ⟨child, ⟨_, hr, rfl⟩, ⟨_, hc, rfl, rfl⟩, ?_, ?_⟩
  · have hmem : child ∈ run.threads := mem_cons_of_mem _ hid
    exact ((hnew child hmem).not_exempt h hmem).1
  · exact (h.depends _ _).mpr (.inr ⟨first, hfirst, .inr ⟨rfl, hlookup⟩⟩)

/-! ## 4. A root alone finishes -/

section Alone

variable {env : Env} {db db' : Db} {row : ThreadRow} {actor : MemberId} {now ended : Int}

/-- **Landing a thread without a parent** needs nothing but a fresh id. -/
theorem landInTx_alone (hrow : db.threads.get? row.id = some row)
    (hparent : row.parentThreadId = none) (hfree : db.threadTransitions.get? transition = none) :
    ∃ db', landInTx db row actor toState transition now ended = .ok db' := by
  have hcheck : parentCheck db row toState = .ok () := by
    unfold parentCheck
    rw [hparent]
  have hinsert : ∃ db1, db.insertTransition (landingRow db row actor toState transition now) =
      .ok db1 ∧ db1.threads = db.threads := by
    have hrow : db.threadTransitions.insert? (landingRow db row actor toState transition now) =
        some _ := Table.insert?_of_free hfree
    unfold Db.insertTransition
    rw [hrow]
    exact ⟨_, rfl, rfl⟩
  obtain ⟨db1, hins, hthreads⟩ := hinsert
  have hcharge : ∃ db2, chargeIfTerminal db1 row.id toState ended = .ok db2 := by
    unfold chargeIfTerminal
    split
    · exact ⟨_, chargeOpenClaimInTx_eq_ok.mpr ⟨row, by rw [hthreads]; exact hrow, rfl⟩⟩
    · exact ⟨_, rfl⟩
  obtain ⟨db2, hch⟩ := hcharge
  exact ⟨_, bind_eq_ok.mpr ⟨(), hcheck, bind_eq_ok.mpr ⟨db1, hins, bind_eq_ok.mpr ⟨db2, hch, rfl⟩⟩⟩⟩

theorem separationOfDuties_unowned (howner : row.ownerId = none) :
    separationOfDutiesInTx db row actor toState = .ok () := by
  unfold separationOfDutiesInTx
  rw [howner]
  rfl

/-- No usage was reported on the thread, so nobody's family is known and no review is spawned. -/
theorem spawnInTx_unused (hkind : isOtherKind db row.id = false)
    (hws : db.workspaceRowOf row = some ws)
    (hunused : ∀ ul ∈ db.usageLedger.rows, ul.threadId ≠ row.id) :
    spawnInTx env db row actor child now = .ok db := by
  have husage : authorUsage db row ws.id = none := by
    unfold authorUsage
    rw [filter_eq_nil_iff.mpr]
    · rfl
    · intro ul hul
      simp [hunused ul hul]
  unfold spawnInTx
  simp [hkind, hws, husage]

theorem requiredCount_unhindered {id : ThreadId} (h : Unhindered db id) :
    requiredCount db id = 0 := by
  unfold requiredCount
  rw [h.reviewReq]
  rfl

theorem closeGates_unhindered {id : ThreadId} (h : Unhindered db id) :
    closeGates env db id toState = .ok () := by
  have hreview : reviewGateInTx env db id = .ok () := by
    have hrefuted : refuted db id = false := by
      unfold refuted
      rw [any_eq_false]
      intro ref href
      simp [h.unrefuted ref href]
    unfold reviewGateInTx reviewGate
    simp [requiredCount_unhindered h, hrefuted]
  have hland : landGateInTx db id = .ok () := by
    unfold landGateInTx readLandGate
    rw [h.landGate]
  unfold closeGates
  split
  · exact bind_eq_ok.mpr ⟨(), hreview, hland⟩
  · rfl

/-- **A root that nothing hinders starts review.** -/
theorem startReview_alone (env : Env) (actor : MemberId) (hrow : db.threads.get? thread = some row)
    (hlive : row.tombstonedAt = none) (hopen : row.state = .open)
    (hparent : row.parentThreadId = none) (howner : row.ownerId = none) (h : Unhindered db thread)
    (hkind : isOtherKind db thread = false) (hws : db.workspaceRowOf row = some ws) :
    ∃ draws db', transitionInSpawning env db thread actor .startReview draws = .ok db' := by
  obtain rfl := get?_self hrow
  obtain ⟨packet, hpacket⟩ := db.reviewPackets.exists_free PacketId.mk PacketId.val fun _ => rfl
  obtain ⟨transition, htransition⟩ :=
    db.threadTransitions.exists_free TransitionId.mk TransitionId.val fun _ => rfl
  have hresult : resultGateInTx db row.id = .ok () := by
    unfold resultGateInTx
    simp [requiredCount_unhindered h]
  have hrecord : ∃ db1, recordPacketInTx env db row.id ⟨packet⟩ 0 = .ok db1 := by
    unfold recordPacketInTx
    dsimp only
    rw [Table.insert?_of_free hpacket]
    exact ⟨_, rfl⟩
  obtain ⟨db1, hrec⟩ := hrecord
  have hframe := recordPacketInTx_spec hrec
  have hspawn : spawnInTx env db1 row actor row.id 0 = .ok db1 := by
    rw [hframe]
    exact spawnInTx_unused hkind hws h.unused
  have hland : ∃ db', landInTx db1 row actor .inReview ⟨transition⟩ 0 0 = .ok db' := by
    rw [hframe]
    exact landInTx_alone hrow hparent htransition
  obtain ⟨db', hland⟩ := hland
  refine ⟨⟨⟨transition⟩, ⟨packet⟩, row.id, 0, 0⟩, db', ?_⟩
  unfold transitionInSpawning
  simp only [hrow, hlive, hopen, apply]
  refine bind_eq_ok.mpr ⟨(), separationOfDuties_unowned howner, ?_⟩
  refine bind_eq_ok.mpr ⟨db1, bind_eq_ok.mpr ⟨(), hresult, bind_eq_ok.mpr ⟨db1, hrec, hspawn⟩⟩, ?_⟩
  exact bind_eq_ok.mpr ⟨(), rfl, hland⟩

/-- **… and closes.** -/
theorem close_alone (env : Env) (actor : MemberId) (hrow : db.threads.get? thread = some row)
    (hlive : row.tombstonedAt = none) (hreview : row.state = .inReview)
    (hparent : row.parentThreadId = none) (howner : row.ownerId = none) (h : Unhindered db thread) :
    ∃ draws db', transitionInSpawning env db thread actor .close draws = .ok db' := by
  obtain rfl := get?_self hrow
  obtain ⟨transition, htransition⟩ :=
    db.threadTransitions.exists_free TransitionId.mk TransitionId.val fun _ => rfl
  have hland : ∃ db', landInTx db row actor .closed ⟨transition⟩ 0 0 = .ok db' :=
    landInTx_alone hrow hparent htransition
  obtain ⟨db', hland⟩ := hland
  refine ⟨⟨⟨transition⟩, ⟨0⟩, row.id, 0, 0⟩, db', ?_⟩
  unfold transitionInSpawning
  simp only [hrow, hlive, hreview, apply]
  refine bind_eq_ok.mpr ⟨(), separationOfDuties_unowned howner, ?_⟩
  refine bind_eq_ok.mpr ⟨db, rfl, ?_⟩
  exact bind_eq_ok.mpr ⟨(), closeGates_unhindered h, hland⟩

end Alone

theorem moved_row (h : transitionInSpawning env db thread actor action draws = .ok db')
    (hrow : db.threads.get? thread = some row) (ha : apply row.state action = some toState) :
    db'.threads.get? thread = some (row.land toState) := by
  obtain ⟨row', toState', rfl, hm⟩ := transitionInSpawning_moved h
  obtain rfl := mem_unique hrow hm.there
  obtain rfl := mem_unique ha hm.applied
  exact hm.self

/-- **A run of one thread**: review, then close. -/
theorem Ran.finishes_alone {channel : ChannelRow} (h : Ran db db' recipe actor run)
    (hchannel : db.channels.get? recipe.channelId = some channel)
    (hws : db.workspaces.get? channel.workspaceId = some ws) (hnew : Unnamed db run.rootThreadId)
    (hnone : recipe.spec.children = []) : Finishes env db' run := by
  obtain ⟨now, hroot⟩ := h.root
  have hids : run.childIds = [] := by
    have hkeys := h.keys
    rw [hnone] at hkeys
    exact map_eq_nil_iff.mp hkeys
  have hwaits : ∀ v, ¬Depends db' run.rootThreadId v := by
    intro v hd
    rcases (h.depends _ v).mp hd with hold | ⟨child, hchild, _⟩
    · exact hnew.waitsForNone v hold
    · rw [hnone] at hchild
      cases hchild
  have hrowWs : db'.workspaceRowOf
      (recipeThread recipe.channelId none actor run.rootThreadId now) = some ws := by
    rw [h.frame]
    unfold Db.workspaceRowOf Db.workspaceOf Db.channelOf
    simp only [recipeThread, hchannel, map_some, bind_some, hws]
  obtain ⟨draws1, db1, hstart⟩ := startReview_alone env actor hroot rfl rfl rfl rfl (hnew.ran h)
    (hnew.not_exempt h mem_cons_self).2 hrowWs
  have hreview := moved_row hstart hroot rfl
  obtain ⟨draws2, db2, hclose⟩ := close_alone env actor hreview rfl rfl rfl rfl
    ((hnew.ran h).transition hstart)
  have hclosed := moved_row hclose hreview rfl
  refine ⟨[⟨run.rootThreadId, actor, .startReview, draws1⟩,
    ⟨run.rootThreadId, actor, .close, draws2⟩], db2, ⟨?_, db1, hstart, ?_, db2, hclose, rfl⟩, ?_⟩
  · intro _ _ _ v hd
    exact absurd hd (hwaits v)
  · intro r hr hopen
    obtain rfl := mem_unique hreview hr
    cases hopen
  · intro t ht
    obtain rfl : t = run.rootThreadId := by
      simpa [RecipeRun.threads, hids] using ht
    exact ⟨_, hclosed, rfl⟩

/-! ## 5. The answer -/

/-- **A recipe run can finish in dependency order exactly when the recipe has no children.** -/
theorem recipe_run_finishes_iff {env : Env} {hash : List (Option String) → String} {db db' : Db}
    {recipe : Recipe} {params : RecipeParams} {actor : MemberId} {draws : RecipeDraws}
    {run : RecipeRun} {order : HashOrder} {channel : ChannelRow} {ws : WorkspaceRow}
    (hvalid : recipe.spec.validate order = .ok ())
    (hchannel : db.channels.get? recipe.channelId = some channel)
    (hws : db.workspaces.get? channel.workspaceId = some ws)
    (hfresh : ∀ i, Unnamed db (draws.thread i))
    (h : instantiate hash db recipe params actor draws = .ok (db', run)) :
    Finishes env db' run ↔ recipe.spec.children = [] := by
  obtain ⟨hdrawn, hran⟩ := instantiate_spec h
  have hnew : ∀ t ∈ run.threads, Unnamed db t := by
    intro t ht
    obtain ⟨i, rfl⟩ := hdrawn t ht
    exact hfresh i
  constructor
  · intro hfin
    by_contra hchildren
    obtain ⟨child, hlocked⟩ :=
      hran.locked (RecipeSpec.wellFormed_of_validate hvalid) hnew hchildren
    exact hlocked.not_finishes hfin
  · exact hran.finishes_alone hchannel hws (hnew _ mem_cons_self)

/-- A recipe `release` in the channel of `quietDb`. -/
def releaseRecipe (children : List RecipeChild) : Recipe where
  id := ⟨1⟩
  workspaceId := ⟨1⟩
  channelId := ⟨1⟩
  name := "release"
  spec := { children := children }

/-- Ids counted up from one, at one instant. -/
def countedDraws : RecipeDraws where
  thread i := ⟨i + 1⟩
  now _ := 0
  run := ⟨1⟩

/-- The map that hands its keys out as they came. -/
def insertionOrder : HashOrder where
  visit := id
  perm _ := .refl _

theorem quietDb_unnamed (id : ThreadId) : Unnamed quietDb id where
  reviewReq := rfl
  landGate := rfl
  unrefuted := fun _ h => nomatch h
  unused := fun _ h => nomatch h
  planChild := fun _ h => nomatch h
  attributes := rfl
  waitsForNone := fun _ h => nomatch h

theorem recipe_run_finishes_childless : ∃ db' run,
    instantiate plainHash quietDb (releaseRecipe []) .null ⟨1⟩ countedDraws = .ok (db', run) ∧
      Finishes plainEnv db' run := by
  obtain ⟨⟨db', run⟩, h⟩ := exists_of_isOk
    (x := instantiate plainHash quietDb (releaseRecipe []) .null ⟨1⟩ countedDraws) (by decide)
  have hvalid : (releaseRecipe []).spec.validate insertionOrder = .ok () := by decide
  exact ⟨db', run, h,
    (recipe_run_finishes_iff hvalid rfl rfl (fun _ => quietDb_unnamed _) h).mpr rfl⟩

/-- **The smallest recipe that never finishes**: one child, which depends on nothing. -/
theorem recipe_of_one_child_never_finishes : ∃ db' run,
    (releaseRecipe [⟨"build", "Build", [], []⟩]).spec.validate insertionOrder = .ok () ∧
      instantiate plainHash quietDb (releaseRecipe [⟨"build", "Build", [], []⟩]) .null
        ⟨1⟩ countedDraws = .ok (db', run) ∧ ¬Finishes plainEnv db' run := by
  have hvalid : (releaseRecipe [⟨"build", "Build", [], []⟩]).spec.validate insertionOrder =
      .ok () := by decide
  obtain ⟨⟨db', run⟩, h⟩ := exists_of_isOk (x := instantiate plainHash quietDb
    (releaseRecipe [⟨"build", "Build", [], []⟩]) .null ⟨1⟩ countedDraws) (by decide)
  have hran := (instantiate_spec h).2
  obtain ⟨child, hlocked⟩ := hran.locked (RecipeSpec.wellFormed_of_validate hvalid)
    (fun _ _ => quietDb_unnamed _) (by decide)
  exact ⟨db', run, hvalid, h, hlocked.not_finishes⟩

end Maidan
