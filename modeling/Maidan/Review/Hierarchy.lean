/-
# A child and its parent

`hsm.rs` promises that a child thread's state cannot outrun its parent.  The guard is
`parent_allows_transition`, and `land_in_tx` asks it of the thread that MOVES, looking up.
Nothing looks down: a parent that is sent back from review does not ask where its children are.

So the tree keeps its order along every run in which a send-back finds the children still open
(`child_never_outruns_parent`), and a send-back that does not find them so breaks it
(`sent_back_parent_is_outrun`).
-/
import Maidan.Review.Transition

namespace Maidan

open Relational Table Run

/-! ## 1. Trees and runs -/

/-- One transition, accepted or refused. -/
def transitionNext (env : Env) (db : Db) (op : TransitionOp) : Db :=
  settle db (transitionInSpawning env db op.thread op.actor op.action op.draws)

/-- **A tree that starts**: every thread open, none a plan's or a review family's child, every
parent there. -/
def freshTree (db : Db) : Bool :=
  db.threads.rows.all fun r =>
    r.state == .open && !exempt db r.id &&
      match r.parentThreadId with
      | none => true
      | some parent => (db.threads.get? parent).isSome

/-- `parent` is the parent of `child`. -/
def ParentOf (db : Db) (child parent : ThreadId) : Prop :=
  ∃ row, db.threads.get? child = some row ∧ row.parentThreadId = some parent

/-- `ancestor` is above `child`, by any number of steps. -/
def Above (db : Db) : ThreadId → ThreadId → Prop := Relation.TransGen (ParentOf db)

/-- The send-back finds the children of its thread still open. -/
def TransitionOp.childrenOpen (db : Db) (op : TransitionOp) : Bool :=
  op.action != .requestChanges ||
    db.threads.rows.all fun c =>
      c.parentThreadId != some op.thread || exempt db c.id || c.state == .open

/-! ## 2. What one transition keeps -/

/-- **The tree of `db₀`, in order**: its threads are there under the parents they had, are still
not exempt, and none is ahead of its parent. -/
structure InOrder (db₀ db : Db) : Prop where
  stays : ∀ {id r₀}, db₀.threads.get? id = some r₀ →
    ∃ r, db.threads.get? id = some r ∧ r.parentThreadId = r₀.parentThreadId
  plain : ∀ {id r₀}, db₀.threads.get? id = some r₀ → exempt db id = false
  ranked : ∀ {id parent r₀ p₀ r rp}, db₀.threads.get? id = some r₀ →
    r₀.parentThreadId = some parent → db₀.threads.get? parent = some p₀ →
    db.threads.get? id = some r → db.threads.get? parent = some rp →
    stateRank r.state ≤ stateRank rp.state

theorem freshTree_spec (h : freshTree db = true) {id : ThreadId} (hg : db.threads.get? id = some r) :
    r.state = .open ∧ exempt db id = false ∧
      ∀ parent, r.parentThreadId = some parent → (db.threads.get? parent).isSome := by
  have hr := List.all_eq_true.mp h r (mem_of_get? hg)
  simp only [Bool.and_eq_true, beq_iff_eq, Bool.not_eq_true'] at hr
  obtain ⟨⟨hopen, hex⟩, hp⟩ := hr
  rw [key_of_get? hg] at hex
  refine ⟨hopen, hex, fun parent hpar => ?_⟩
  rw [hpar] at hp
  exact hp

theorem InOrder.start (h : freshTree db = true) : InOrder db db where
  stays := fun hg => ⟨_, hg, rfl⟩
  plain := fun hg => (freshTree_spec h hg).2.1
  ranked := by
    intro id parent r0 p0 r rp _ _ _ hg hgp
    rw [(freshTree_spec h hg).1, (freshTree_spec h hgp).1]

section Step

variable {db₀ db db' : Db} {action : ThreadAction} {row : ThreadRow} {toState : ThreadState}

/-- The child that moves is not ahead of its parent: the guard has looked at this very parent. -/
theorem Moved.ranked_child (hm : Moved db db' action row toState) (hex : exempt db row.id = false)
    (hpar : row.parentThreadId = some parent) (hparent : (db.threads.get? parent).isSome)
    (hrp : db'.threads.get? parent = some rp) :
    stateRank (row.land toState).state ≤ stateRank rp.state := by
  by_cases hp : parent = row.id
  · subst hp
    obtain rfl := mem_unique hm.self hrp
    exact le_refl _
  · obtain ⟨x, hx⟩ := isSome_iff_exists.mp hparent
    obtain rfl := Option.some.inj ((hm.others hp hx).symm.trans hrp)
    rw [ThreadRow.land_state]
    exact hm.guarded hex hpar hx

theorem Moved.ranked_parent (hm : Moved db db' action row toState) {q : ThreadRow}
    (hle : stateRank q.state ≤ stateRank row.state)
    (hopen : action = .requestChanges → q.state = .open) :
    stateRank q.state ≤ stateRank (row.land toState).state := by
  rw [ThreadRow.land_state]
  rcases stateRank_apply hm.applied with hup | ⟨hact, _, _⟩
  · omega
  · rw [hopen hact]
    exact Nat.zero_le _

/-- **One transition keeps the tree in order**, if a send-back finds the children open. -/
theorem InOrder.moved (h : InOrder db0 db) (hm : Moved db db' action row toState)
    (hopen : action = .requestChanges → ∀ {id q}, db.threads.get? id = some q →
      q.parentThreadId = some row.id → exempt db id = false → q.state = .open) :
    InOrder db0 db' where
  stays := by
    intro id r0 h0
    obtain ⟨r, hr, hpar⟩ := h.stays h0
    by_cases hne : id = row.id
    · subst hne
      obtain rfl := mem_unique hm.there hr
      exact ⟨_, hm.self, (ThreadRow.SamePlace.land row toState).2.1.trans hpar⟩
    · exact ⟨r, hm.others hne hr, hpar⟩
  plain := by
    intro id r0 h0
    obtain ⟨r, hr, _⟩ := h.stays h0
    exact (hm.exemption hr).trans (h.plain h0)
  ranked := by
    intro id parent r0 p0 r rp h0 hpar0 hp0 hr hrp
    obtain ⟨q, hq, hqpar⟩ := h.stays h0
    obtain ⟨p, hp, _⟩ := h.stays hp0
    rw [hpar0] at hqpar
    by_cases hne : id = row.id
    · subst hne
      obtain rfl := mem_unique hm.there hq
      obtain rfl := mem_unique hm.self hr
      exact hm.ranked_child (h.plain h0) hqpar (by rw [hp]; rfl) hrp
    · obtain rfl := Option.some.inj ((hm.others hne hq).symm.trans hr)
      by_cases hpm : parent = row.id
      · subst hpm
        obtain rfl := mem_unique hm.self hrp
        exact hm.ranked_parent (h.ranked h0 hpar0 hp0 hq hm.there)
          fun hact => hopen hact hq hqpar (h.plain h0)
      · obtain rfl := Option.some.inj ((hm.others hpm hp).symm.trans hrp)
        exact h.ranked h0 hpar0 hp0 hq hp

theorem inOrder_step (env : Env) (h : InOrder db0 db) (hok : op.childrenOpen db = true) :
    InOrder db0 (transitionNext env db op) := by
  unfold transitionNext
  cases ht : transitionInSpawning env db op.thread op.actor op.action op.draws with
  | error => exact h
  | ok =>
    obtain ⟨row, toState, hid, hm⟩ := transitionInSpawning_moved ht
    refine h.moved hm fun hact id q hq hpar hex => ?_
    unfold TransitionOp.childrenOpen at hok
    simp only [hact, bne_self_eq_false, Bool.false_or] at hok
    have hc := List.all_eq_true.mp hok q (mem_of_get? hq)
    rw [← key_of_get? hq] at hex
    simpa [hpar, hid, hex] using hc

end Step

/-! ## 3. Whole runs -/

/-- **A child never outruns its parent**, nor any thread above it, in a run whose every send-back
finds the children of its thread open. -/
theorem child_never_outruns_parent (env : Env) {db : Db} (htree : freshTree db = true)
    (ops : List TransitionOp)
    (hops : Meets (transitionNext env) (fun db op => op.childrenOpen db = true) db ops)
    {child ancestor : ThreadId} (habove : Above db child ancestor) :
    ∃ r ra, (exec (transitionNext env) db ops).threads.get? child = some r ∧
      (exec (transitionNext env) db ops).threads.get? ancestor = some ra ∧
      stateRank r.state ≤ stateRank ra.state := by
  have hinv : InOrder db (exec (transitionNext env) db ops) :=
    exec_inv_of_meets (fun _ _ h hok => inOrder_step env h hok) ops db (InOrder.start htree) hops
  -- up the tree, one parent at a time
  induction habove with
  | single hpar =>
    obtain ⟨row, hg, hp⟩ := hpar
    obtain ⟨p₀, hp₀⟩ := isSome_iff_exists.mp ((freshTree_spec htree hg).2.2 _ hp)
    obtain ⟨r, hr, _⟩ := hinv.stays hg
    obtain ⟨rp, hrp, _⟩ := hinv.stays hp₀
    exact ⟨r, rp, hr, hrp, hinv.ranked hg hp hp₀ hr hrp⟩
  | tail _ hpar ih =>
    obtain ⟨r, rm, hr, hrm, hle⟩ := ih
    obtain ⟨row, hg, hp⟩ := hpar
    obtain ⟨p₀, hp₀⟩ := isSome_iff_exists.mp ((freshTree_spec htree hg).2.2 _ hp)
    obtain ⟨rp, hrp, _⟩ := hinv.stays hp₀
    exact ⟨r, rp, hr, hrp, hle.trans (hinv.ranked hg hp hp₀ hrm hrp)⟩

/-- A thread and its child, both open. -/
def pairDb : Db where
  __ := quietDb
  threads :=
    { rows := [{ id := ⟨1⟩, channelId := ⟨1⟩ },
               { id := ⟨2⟩, channelId := ⟨1⟩, parentThreadId := some ⟨1⟩ }] }

/-- Member 1 moves a thread; the `n`th draw of every id. -/
def moveOp (n : Nat) (thread : ThreadId) (action : ThreadAction) : TransitionOp where
  thread := thread
  actor := ⟨1⟩
  action := action
  draws := { transition := ⟨n⟩, packet := ⟨n⟩, child := ⟨n + 100⟩, now := n, ended := n }

/-- The parent is sent back while the child is open, then both land, the parent first. -/
def orderlyMoves : List TransitionOp :=
  [moveOp 1 ⟨1⟩ .startReview, moveOp 2 ⟨1⟩ .requestChanges, moveOp 3 ⟨1⟩ .startReview,
   moveOp 4 ⟨2⟩ .startReview, moveOp 5 ⟨1⟩ .close, moveOp 6 ⟨2⟩ .close]

theorem child_never_outruns_parent_orderly :
    freshTree pairDb = true ∧
    Meets (transitionNext plainEnv) (fun db op => op.childrenOpen db = true) pairDb orderlyMoves ∧
    ∃ r ra, (exec (transitionNext plainEnv) pairDb orderlyMoves).threads.get? ⟨2⟩ = some r ∧
      (exec (transitionNext plainEnv) pairDb orderlyMoves).threads.get? ⟨1⟩ = some ra ∧
      stateRank r.state ≤ stateRank ra.state :=
  ⟨by decide, by decide, child_never_outruns_parent plainEnv (by decide) orderlyMoves (by decide)
    (.single ⟨_, rfl, rfl⟩)⟩

/-- Both enter review, and then only the parent is sent back. -/
def overtakingMoves : List TransitionOp :=
  [moveOp 1 ⟨1⟩ .startReview, moveOp 2 ⟨2⟩ .startReview, moveOp 3 ⟨1⟩ .requestChanges]

/-- **A parent that is sent back is outrun.**  All three transitions are accepted, and the child
is in review under an open parent. -/
theorem sent_back_parent_is_outrun :
    freshTree pairDb = true ∧
    ((exec (transitionNext plainEnv) pairDb overtakingMoves).threads.rows.map
      fun r => (r.id, r.state)) = [(⟨1⟩, .open), (⟨2⟩, .inReview)] ∧
    stateRank .open < stateRank .inReview := by
  decide

end Maidan
