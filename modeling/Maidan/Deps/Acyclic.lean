/-
# The dependency table over whole runs

Six transactions write `maidan_thread_dependencies`: `add`, `remove`, a plan's `submit` and `amend`,
a recipe's `instantiate`, and `close_abandoned`, which repoints the dependents of what it closes.
Plans and specs reach the store CHECKED, as the routes hand them on, so here a step checks first.
What happens elsewhere between two of these leaves the rows alone, or drops some.

Five of the six keep the table without a cycle.  An amendment does when it is `untangled`, and
`dependencies_stay_acyclic` is the run theorem under that condition.
-/
import Maidan.Plan.Untangled
import Maidan.Recipe.Instantiate

namespace Maidan

open Relational Run Digraph Relation

/-! ## 1. The steps -/

/-- **A transaction from elsewhere.**  It keeps the schema's promises and inserts no dependency. -/
structure Elsewhere where
  run : Db → Db
  wired : ∀ {db}, Wired db → Wired (run db)
  fewer : ∀ {db u v}, Depends (run db) u v → Depends db u v

/-- What can happen to the table. -/
inductive DepOp
  | add (thread dependsOn : ThreadId)
  | remove (thread dependsOn : ThreadId)
  | submitPlan (parent : ThreadId) (member : MemberId) (plan : SubmitPlan) (draws : PlanDraws)
  | amendPlan (parent : ThreadId) (member : MemberId) (amend : AmendPlan) (draws : PlanDraws)
  | instantiate (order : HashOrder) (recipe : Recipe) (params : RecipeParams) (actor : MemberId)
      (draws : RecipeDraws)
  | closeAbandoned (thread : ThreadId) (actor : MemberId) (maintainer : Bool)
      (close : CloseAbandoned) (reference : ReferenceId) (draws : Draws)
  | elsewhere (other : Elsewhere)

/-- What a route refuses, it refuses with the text of the check. -/
def badRequest {α : Type} : Except String α → Except StoreError α
  | .ok a => .ok a
  | .error why => .error (.invalidInput why)

theorem badRequest_eq_ok : badRequest x = .ok a ↔ x = .ok a := by
  cases x with
  | error | ok => simp [badRequest]

section Steps

variable (hash : List (Option String) → String) (env : Env)

/-- One transaction. -/
def depTx (db : Db) : DepOp → Except StoreError Db
  | .add thread dependsOn => addDependency db thread dependsOn
  | .remove thread dependsOn => .ok (removeDependency db thread dependsOn).1
  | .submitPlan parent member plan draws => do
    let plan ← badRequest plan.checked
    let (db, _) ← submit hash db parent member plan draws
    return db
  | .amendPlan parent member amend draws => do
    let amend ← badRequest amend.checked
    let (db, _) ← Maidan.amend hash db parent member amend draws
    return db
  | .instantiate order recipe params actor draws => do
    badRequest (recipe.spec.validate order)
    let (db, _) ← Maidan.instantiate hash db recipe params actor draws
    return db
  | .closeAbandoned thread actor maintainer close reference draws => do
    let (db, _, _) ← Maidan.closeAbandoned env db thread actor maintainer close reference draws
    return db
  | .elsewhere other => .ok (other.run db)

/-- One step of a run. -/
def depNext (db : Db) (op : DepOp) : Db := settle db (depTx hash env db op)

end Steps

/-- **The condition on a step**: an amendment, as checked, is untangled where it is made. -/
def DepOp.untangles (db : Db) : DepOp → Bool
  | .amendPlan parent _ amend _ =>
    match amend.checked with
    | .ok amend => untangled db parent amend
    | .error _ => true
  | _ => true

/-! ## 2. What a step keeps -/

variable {db : Db}

theorem Sound.elsewhere (hs : Sound db) (other : Elsewhere) : Sound (other.run db) where
  wired := other.wired hs.wired
  noCycle := hs.noCycle.mono fun _ _ => other.fewer

/-- **One transaction** that goes through leaves the table sound. -/
theorem Sound.depTx {hash : List (Option String) → String} (hs : Sound db)
    (hop : op.untangles db = true) (h : depTx hash env db op = .ok db') : Sound db' := by
  cases op with
  | add => exact hs.addDependency h
  | remove thread dependsOn =>
    cases h
    exact hs.deleteDependency thread dependsOn
  | submitPlan =>
    obtain ⟨plan', hplan, h⟩ := bind_ok h
    obtain ⟨⟨db1, outcome⟩, hsubmit, h⟩ := bind_ok h
    cases h
    exact hs.submit (SubmitPlan.wellFormed_of_checked (badRequest_eq_ok.mp hplan)) hsubmit
  | amendPlan =>
    obtain ⟨amend', hchecked, h⟩ := bind_ok h
    obtain ⟨⟨db1, outcome⟩, hamend, h⟩ := bind_ok h
    cases h
    rw [badRequest_eq_ok] at hchecked
    obtain ⟨hwired, hcycle⟩ :=
      amend_noCycle_iff hs (AmendPlan.add_nodup_of_checked hchecked) hamend
    simp only [DepOp.untangles, hchecked] at hop
    exact ⟨hwired, hcycle.mpr hop⟩
  | instantiate =>
    obtain ⟨_, hspec, h⟩ := bind_ok h
    obtain ⟨⟨db1, run⟩, hrun, h⟩ := bind_ok h
    cases h
    exact hs.ran (instantiate_spec hrun).2
      (RecipeSpec.wellFormed_of_validate (badRequest_eq_ok.mp hspec))
  | closeAbandoned =>
    obtain ⟨⟨db1, moved, kept⟩, hclose, h⟩ := bind_ok h
    cases h
    exact hs.closeAbandoned hclose
  | elsewhere other =>
    cases h
    exact hs.elsewhere other

theorem Sound.depNext (hash : List (Option String) → String) (env : Env) {op : DepOp}
    (hs : Sound db) (hop : op.untangles db = true) : Sound (depNext hash env db op) := by
  unfold Maidan.depNext
  cases h : Maidan.depTx hash env db op with
  | error => exact hs
  | ok => exact hs.depTx hop h

/-! ## 3. Whole runs -/

/-- **The dependencies stay without a cycle** in every run whose amendments are untangled where they
are made. -/
theorem dependencies_stay_acyclic (hash : List (Option String) → String) (env : Env) {db : Db}
    (hwired : Wired db) (hcycle : NoCycle db) (ops : List DepOp)
    (hops : Meets (depNext hash env) (fun db op => op.untangles db = true) db ops) :
    NoCycle (exec (depNext hash env) db ops) := by
  have hsound : Sound (exec (depNext hash env) db ops) :=
    exec_inv_of_meets (fun _ _ hs hop => hs.depNext hash env hop) ops db ⟨hwired, hcycle⟩ hops
  exact hsound.noCycle

/-- A plan thread that member 1 holds under lease 1, and thread 2 beside it.  Nothing waits yet. -/
def plannerDb : Db where
  __ := quietDb
  threads :=
    { rows := [{ id := ⟨1⟩, channelId := ⟨1⟩, assigneeId := some ⟨1⟩, claimLeaseId := some ⟨1⟩,
                 claimedAt := some 0, createdBy := some ⟨1⟩ },
               { id := ⟨2⟩, channelId := ⟨1⟩ }] }
  threadAttributes := planAttributes
  egressTargets := branchTarget

theorem sound_plannerDb : Sound plannerDb where
  wired :=
    { ends := fun h => absurd (depends_iff.mp h) (by simp [plannerDb])
      children := by simp [plannerDb]
      unique := by simp [plannerDb] }
  noCycle := fun _ hloop => by
    obtain ⟨_, h, _⟩ := TransGen.head'_iff.mp hloop
    exact absurd (depends_iff.mp h) (by simp [plannerDb])

/-- A child that passes the lint. -/
def readyChild (key : String) : PlanChild where
  key := key
  title := "Part " ++ key
  attributes := some { acceptance := some "it runs", engine := some .session }
  footprint := some { repo := "owner/repo", mode := .exclusive, items := [⟨.path, key⟩] }
  test := some "cargo test"

/-- Member 1 submits a plan of `a` and `b`, which become threads 10 and 11. -/
def submitOp : DepOp :=
  .submitPlan ⟨1⟩ ⟨1⟩ { leaseId := ⟨1⟩, children := [readyChild "a", readyChild "b"] }
    { thread := fun i => ⟨10 + i⟩, transition := fun i => ⟨10 + i⟩, cancelledAt := fun _ => (0, 0),
      heldAt := 0, now := 0 }

/-- Member 1 amends it: `b` is to wait for `a`. -/
def rewireOp : DepOp :=
  .amendPlan ⟨1⟩ ⟨1⟩ { leaseId := ⟨1⟩, rewire := [⟨"b", ["a"]⟩] }
    { thread := fun i => ⟨20 + i⟩, transition := fun i => ⟨20 + i⟩, cancelledAt := fun _ => (1, 1),
      heldAt := 1, now := 1 }

/-- A step where no hash matters. -/
def plainNext : Db → DepOp → Db := depNext plainHash plainEnv

/-- `a` waits for thread 2, which waits for nothing. -/
def plainAmendment : List DepOp := [submitOp, .add ⟨10⟩ ⟨2⟩, rewireOp]

set_option maxRecDepth 40000 in
theorem dependencies_stay_acyclic_amended :
    Wired plannerDb ∧ NoCycle plannerDb ∧
    Meets plainNext (fun db op => op.untangles db = true) plannerDb plainAmendment ∧
    edgesOf (exec plainNext plannerDb plainAmendment) = [(⟨10⟩, ⟨2⟩), (⟨11⟩, ⟨10⟩)] ∧
    NoCycle (exec plainNext plannerDb plainAmendment) := by
  have hmeets : Meets plainNext (fun db op => op.untangles db = true) plannerDb plainAmendment := by
    decide +kernel
  exact ⟨sound_plannerDb.wired, sound_plannerDb.noCycle, hmeets, by decide +kernel,
    dependencies_stay_acyclic plainHash plainEnv sound_plannerDb.wired
      sound_plannerDb.noCycle plainAmendment hmeets⟩

/-- `a` waits for thread 2, and thread 2 for `b`: two rows that `add` accepts. -/
def tangledAmendment : List DepOp := [submitOp, .add ⟨10⟩ ⟨2⟩, .add ⟨2⟩ ⟨11⟩, rewireOp]

set_option maxRecDepth 40000 in
/-- **An amendment closes a cycle through a thread outside its plan.**  Every step is accepted. -/
theorem amendment_closes_a_cycle :
    Wired plannerDb ∧ NoCycle plannerDb ∧
    edgesOf (exec plainNext plannerDb tangledAmendment) = [(⟨10⟩, ⟨2⟩), (⟨2⟩, ⟨11⟩), (⟨11⟩, ⟨10⟩)] ∧
    ¬NoCycle (exec plainNext plannerDb tangledAmendment) := by
  have hedges : edgesOf (exec plainNext plannerDb tangledAmendment) =
      [(⟨10⟩, ⟨2⟩), (⟨2⟩, ⟨11⟩), (⟨11⟩, ⟨10⟩)] := by
    decide +kernel
  refine ⟨sound_plannerDb.wired, sound_plannerDb.noCycle, hedges, fun hcycle => ?_⟩
  have hdep : ∀ {u v}, (u, v) ∈ edgesOf (exec plainNext plannerDb tangledAmendment) →
      TransGen (Depends (exec plainNext plannerDb tangledAmendment)) u v :=
    fun hmem => .single hmem
  rw [hedges] at hdep
  have h₁ := hdep (u := ⟨10⟩) (v := ⟨2⟩) (by simp)
  have h₂ := hdep (u := ⟨2⟩) (v := ⟨11⟩) (by simp)
  have h₃ := hdep (u := ⟨11⟩) (v := ⟨10⟩) (by simp)
  exact hcycle ⟨10⟩ ((h₁.trans h₂).trans h₃)

end Maidan
