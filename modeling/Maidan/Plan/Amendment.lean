/-
# Amendments of a plan

`AmendPlan` (`plan.rs`): cancel unclaimed children, add children, rewire unclaimed ones.  `checked`
is what can be said of the amendment alone; `steps` works it out against the plan as it stands and
refuses one whose graph, BY KEY and within the plan, has a loop.

`graph` is that amended graph: added children as given, rewired ones as rewired, the rest as they
were, less any cancelled child that is not replaced.  `AmendPlan.steps_spec` is what an accepted
amendment promises of it.
-/
import Maidan.Plan.Child

namespace Maidan

open Run Text Digraph List

/-! ## 1. The amendment -/

/-- `PLAN_AMEND_CANCEL_REASON`. -/
def planAmendCancelReason : String := "cancelled by an amendment to its plan"

/-- `PLAN_MAX_AMENDMENTS`. -/
def planMaxAmendments : Int := 3

/-- `CANCEL_REASON_MAX_CHARS`. -/
def cancelReasonMaxChars : Nat := 500

/-- `PlanRewire`. -/
structure PlanRewire where
  key : String
  dependsOn : List String := []
deriving DecidableEq, Repr

/-- `AmendPlan`. -/
structure AmendPlan where
  leaseId : ClaimLeaseId
  cancel : List String := []
  add : List PlanChild := []
  rewire : List PlanRewire := []
  reason : Option String := none
deriving DecidableEq, Repr

/-- `validated_cancel_reason`. -/
def validatedCancelReason (reason : String) : Except String String :=
  let reason := trimStr reason
  if reason.isEmpty then .error "reason must not be empty"
  else if reason.toList.length > cancelReasonMaxChars then
    .error ("reason must be at most " ++ toString cancelReasonMaxChars ++ " characters")
  else .ok reason

/-- A blank reason reads as none. -/
def checkedReason : Option String → Except String (Option String)
  | none => .ok none
  | some reason =>
    if (trimStr reason).isEmpty then .ok none
    else (validatedCancelReason reason).map some

def checkKeys : List String → Except String Unit
  | [] => .ok ()
  | key :: rest => do
    checkKey key
    checkKeys rest

/-- The loop of `AmendPlan::checked` over the rewires. -/
def checkedRewires : List String → List PlanRewire → Except String (List PlanRewire)
  | _, [] => .ok []
  | seen, rewire :: rest => do
    let key := trimStr rewire.key
    checkKey key
    let dependsOn := normalizedKeys rewire.dependsOn
    if key ∈ seen then .error (aboutChild key "rewired twice")
    else if key ∈ dependsOn then .error (aboutChild key "a child cannot depend on itself")
    else do
      let rest ← checkedRewires (key :: seen) rest
      return { key := key, dependsOn := dependsOn } :: rest

/-- `AmendPlan::checked`. -/
def AmendPlan.checked (amend : AmendPlan) : Except String AmendPlan := do
  let cancel := normalizedKeys amend.cancel
  checkKeys cancel
  let add ← validateChildren amend.add .anyKey
  lintChildren add
  let rewire ← checkedRewires [] amend.rewire
  if cancel.isEmpty ∧ add.isEmpty ∧ rewire.isEmpty then
    .error "an amendment cancels, adds or rewires at least one child"
  else if planMaxChildren < add.length then
    .error ("an amendment adds at most " ++ toString planMaxChildren ++ " children")
  else do
    let reason ← checkedReason amend.reason
    return { amend with cancel := cancel, add := add, rewire := rewire, reason := reason }

/-- No key is added twice: the check of a plan's children is made on the added ones too. -/
theorem AmendPlan.add_nodup_of_checked {amend amend' : AmendPlan} (h : amend.checked = .ok amend') :
    (amend'.add.map PlanChild.key).Nodup := by
  obtain ⟨_, _, h⟩ := bind_ok h
  obtain ⟨add, hadd, h⟩ := bind_ok h
  obtain ⟨_, _, h⟩ := bind_ok h
  obtain ⟨rewire, _, h⟩ := bind_ok h
  split at h
  · cases h
  split at h
  · cases h
  obtain ⟨reason, _, h⟩ := bind_ok h
  cases h
  exact (validateChildren_spec hadd).1

/-- `adds_need_hold`. -/
def AmendPlan.addsNeedHold (amend : AmendPlan) : Bool := amend.add.any PlanChild.needsThreatModel

/-! ## 2. Against the plan as it stands -/

/-- `ExistingPlanChild`. -/
structure ExistingPlanChild where
  key : String
  threadId : ThreadId
  unclaimed : Bool
  dependsOn : List String

/-- `PlannedChild`. -/
structure PlannedChild where
  key : String
  threadId : ThreadId
deriving DecidableEq, Repr

/-- `AmendmentSteps`. -/
structure AmendmentSteps where
  cancel : List PlannedChild
  add : List PlanChild
  rewrite : List KeyNode

/-- `AmendRefusal`. -/
inductive AmendRefusal
  | invalid (why : String)
  | settled (why : String)

/-- `by_key`. -/
def byKey (existing : List ExistingPlanChild) (key : String) : Option ExistingPlanChild :=
  existing.reverse.find? fun c => c.key = key

/-- `settled`. -/
def settledRefusal (key what : String) : AmendRefusal :=
  .settled ("child \x60" ++ key ++ "\x60 is claimed or finished, so it cannot be " ++ what)

/-- The children to cancel. -/
def cancelSteps (existing : List ExistingPlanChild) :
    List String → Except AmendRefusal (List PlannedChild)
  | [] => .ok []
  | key :: rest =>
    match byKey existing key with
    | none => .error (.invalid (aboutChild key "not a key in this plan"))
    | some child =>
      if child.unclaimed then do
        let rest ← cancelSteps existing rest
        return { key := key, threadId := child.threadId } :: rest
      else .error (settledRefusal key "cancelled")

namespace AmendPlan

variable (amend : AmendPlan) (existing : List ExistingPlanChild)

/-- `cancelled`. -/
def cancels (key : String) : Bool := amend.cancel.contains key

/-- `added`. -/
def adds (key : String) : Bool := (amend.add.map PlanChild.key).contains key

/-- `kept`: a key of the amended plan. -/
def keeps (key : String) : Bool :=
  amend.adds key || ((byKey existing key).isSome && !amend.cancels key)

/-- The added keys are new, or replace a child cancelled with them.  The source walks a `HashSet`;
here the first in the order given is reported. -/
def checkAdds : List PlanChild → Except AmendRefusal Unit
  | [] => .ok ()
  | child :: rest =>
    if (byKey existing child.key).isSome ∧ !amend.cancels child.key then
      .error (.invalid (aboutChild child.key
        "already in the plan; cancel it in the same amendment to replace it"))
    else checkAdds rest

/-- Only unclaimed children the plan keeps are rewired. -/
def checkRewires : List PlanRewire → Except AmendRefusal Unit
  | [] => .ok ()
  | rewire :: rest =>
    if amend.adds rewire.key then
      .error (.invalid (aboutChild rewire.key
        "an added child takes its depends_on where it is added"))
    else
      match (byKey existing rewire.key).filter fun _ => !amend.cancels rewire.key with
      | none => .error (.invalid (aboutChild rewire.key "not a key the amended plan keeps"))
      | some child =>
        if child.unclaimed then checkRewires rest
        else .error (settledRefusal rewire.key "rewired")

/-- `rewires`. -/
def rewireOf (key : String) : Option PlanRewire := amend.rewire.reverse.find? fun r => r.key = key

/-- The dependencies a child that stays is rewritten to, if it is. -/
def rewritten (child : ExistingPlanChild) : Option (List String) :=
  match amend.rewireOf child.key with
  | some rewire => some rewire.dependsOn
  | none =>
    if child.dependsOn.any amend.cancels then
      some (child.dependsOn.filter (amend.keeps existing))
    else none

/-- The children that stay. -/
def staying : List ExistingPlanChild := existing.filter fun c => !amend.cancels c.key

/-- `graph`: the amended plan's graph, by key. -/
def graph : List KeyNode :=
  (amend.staying existing).map (fun c => (c.key, (amend.rewritten existing c).getD c.dependsOn)) ++
    keyNodes amend.add

/-- `rewrite`. -/
def rewrite : List KeyNode :=
  (amend.staying existing).filterMap fun c => (amend.rewritten existing c).map fun deps =>
    (c.key, deps)

/-- Every dependency of the amended graph is a key it keeps. -/
def checkGraph : List KeyNode → Except AmendRefusal Unit
  | [] => .ok ()
  | (key, deps) :: rest =>
    match deps.find? fun dep => !amend.keeps existing dep with
    | some dep => .error (.invalid (aboutChild key
        ("depends_on names \x60" ++ dep ++ "\x60, which the amended plan does not keep")))
    | none => checkGraph rest

/-- `AmendPlan::steps`. -/
def steps : Except AmendRefusal AmendmentSteps := do
  let cancel ← cancelSteps existing amend.cancel
  amend.checkAdds existing amend.add
  amend.checkRewires existing amend.rewire
  let graph := amend.graph existing
  amend.checkGraph existing graph
  match findKeyCycle graph with
  | some cycle => .error (.invalid
      ("the amended plan's dependencies loop: " ++ " -> ".intercalate cycle))
  | none =>
    if planMaxChildren < graph.length then
      .error (.invalid ("a plan has at most " ++ toString planMaxChildren ++
        " children; amended it would have " ++ toString graph.length))
    else return { cancel := cancel, add := amend.add, rewrite := amend.rewrite existing }

end AmendPlan

/-! ## 3. What an accepted amendment promises -/

variable {key : String} {steps : AmendmentSteps} {existing : List ExistingPlanChild}

theorem byKey_mem (h : byKey existing key = some child) : child ∈ existing ∧ child.key = key :=
  ⟨mem_reverse.mp (mem_of_find?_eq_some h), by simpa using find?_some h⟩

theorem byKey_isSome_iff :
    (byKey existing key).isSome ↔ key ∈ existing.map ExistingPlanChild.key := by
  unfold byKey
  simp

/-- **What is cancelled is there, and nobody has claimed it.** -/
theorem cancelSteps_spec : ∀ {keys : List String}
    {cancel : List PlannedChild}, cancelSteps existing keys = .ok cancel →
    cancel.map PlannedChild.key = keys ∧ ∀ c ∈ cancel, ∃ e ∈ existing,
      e.key = c.key ∧ e.threadId = c.threadId ∧ e.unclaimed = true
  | [], _, h => by
    cases h
    simp
  | key :: rest, cancel, h => by
    unfold cancelSteps at h
    split at h
    · cases h
    rename_i child hchild
    split at h
    · rename_i hun
      obtain ⟨rest', hrest, h⟩ := bind_ok h
      cases h
      obtain ⟨hkeys, hall⟩ := cancelSteps_spec hrest
      refine ⟨by simp [hkeys], fun c hc => ?_⟩
      rcases mem_cons.mp hc with rfl | hc
      · exact ⟨child, (byKey_mem hchild).1, (byKey_mem hchild).2, rfl, hun⟩
      · exact hall c hc
    · cases h

namespace AmendPlan

variable {amend : AmendPlan} {existing : List ExistingPlanChild}

theorem parts_of_steps (h : amend.steps existing = .ok steps) :
    steps.add = amend.add ∧ steps.rewrite = amend.rewrite existing ∧
      cancelSteps existing amend.cancel = .ok steps.cancel ∧
      amend.checkAdds existing amend.add = .ok () ∧
      amend.checkGraph existing (amend.graph existing) = .ok () ∧
      findKeyCycle (amend.graph existing) = none := by
  obtain ⟨cancel, hcancel, h⟩ := bind_ok h
  obtain ⟨_, hadds, h⟩ := bind_ok h
  obtain ⟨_, _, h⟩ := bind_ok h
  obtain ⟨_, hgraph, h⟩ := bind_ok h
  split at h
  · cases h
  rename_i hcycle
  split at h
  · cases h
  cases h
  exact ⟨rfl, rfl, hcancel, hadds, hgraph, hcycle⟩

theorem mem_staying :
    child ∈ amend.staying existing ↔ child ∈ existing ∧ amend.cancels child.key = false := by
  unfold staying
  simp

theorem graph_keys : (amend.graph existing).map Prod.fst =
    (amend.staying existing).map ExistingPlanChild.key ++ amend.add.map PlanChild.key := by
  unfold graph
  rw [map_append, keyNodes_keys, map_map]
  rfl

theorem adds_iff : amend.adds key = true ↔ key ∈ amend.add.map PlanChild.key := by
  exact contains_iff_mem

theorem keeps_iff :
    amend.keeps existing key = true ↔ key ∈ (amend.graph existing).map Prod.fst := by
  rw [graph_keys, mem_append, or_comm]
  unfold keeps
  rw [Bool.or_eq_true, Bool.and_eq_true, adds_iff, byKey_isSome_iff]
  refine or_congr_right ⟨?_, ?_⟩
  · rintro ⟨hmem, hcancel⟩
    obtain ⟨child, hchild, rfl⟩ := mem_map.mp hmem
    exact mem_map.mpr ⟨child, mem_staying.mpr ⟨hchild, by simpa using hcancel⟩, rfl⟩
  · intro hmem
    obtain ⟨child, hchild, rfl⟩ := mem_map.mp hmem
    obtain ⟨hex, hcancel⟩ := mem_staying.mp hchild
    exact ⟨mem_map.mpr ⟨child, hex, rfl⟩, by simp [hcancel]⟩

/-- A key that is taken may be added only where it is cancelled. -/
theorem checkAdds_spec : ∀ {adds : List PlanChild}, amend.checkAdds existing adds = .ok () →
    ∀ c ∈ adds, c.key ∈ existing.map ExistingPlanChild.key → amend.cancels c.key = true
  | [], _, _, hc => by cases hc
  | child :: rest, h, c, hc => by
    unfold checkAdds at h
    split at h
    · cases h
    rename_i hfree
    rcases mem_cons.mp hc with rfl | hc
    · intro hex
      by_contra hcancel
      exact hfree ⟨byKey_isSome_iff.mpr hex, by simpa using hcancel⟩
    · exact checkAdds_spec h c hc

/-- Whatever a child is to wait for is in the amended plan. -/
theorem checkGraph_spec : ∀ {nodes : List KeyNode}, amend.checkGraph existing nodes = .ok () →
    ∀ node ∈ nodes, ∀ dep ∈ node.2, amend.keeps existing dep = true
  | [], _, _, hn => by cases hn
  | (key, deps) :: rest, h, node, hn => by
    unfold checkGraph at h
    split at h
    · cases h
    rename_i hnone
    rcases mem_cons.mp hn with rfl | hn
    · intro dep hdep
      simpa using find?_eq_none.mp hnone dep hdep
    · exact checkGraph_spec h node hn

/-- **An accepted amendment**: the steps are those of the amendment, the children to cancel are
those it names, and the amended graph is one of distinct keys without a loop. -/
structure Accepted (amend : AmendPlan) (existing : List ExistingPlanChild)
    (steps : AmendmentSteps) : Prop where
  add : steps.add = amend.add
  rewrite : steps.rewrite = amend.rewrite existing
  cancelKeys : steps.cancel.map PlannedChild.key = amend.cancel
  cancelled : ∀ c ∈ steps.cancel, ∃ e ∈ existing, e.key = c.key ∧ e.threadId = c.threadId
  nodup : ((amend.graph existing).map Prod.fst).Nodup
  known : ∀ node ∈ amend.graph existing, ∀ dep ∈ node.2,
    dep ∈ (amend.graph existing).map Prod.fst
  acyclic : Acyclic (KeyEdge (amend.graph existing))

/-- **The checks, put together.**  A key stays or is added, not both, so the cycle search is exact. -/
theorem steps_spec (hexisting : (existing.map ExistingPlanChild.key).Nodup)
    (hadd : (amend.add.map PlanChild.key).Nodup) (h : amend.steps existing = .ok steps) :
    Accepted amend existing steps := by
  obtain ⟨hsame, hrewrite, hcancel, hadds, hgraph, hcycle⟩ := parts_of_steps h
  obtain ⟨hkeys, hthreads⟩ := cancelSteps_spec hcancel
  have hnodup : ((amend.graph existing).map Prod.fst).Nodup := by
    rw [graph_keys]
    refine nodup_append.mpr ⟨?_, hadd, ?_⟩
    · exact hexisting.sublist (filter_sublist.map _)
    · rintro key hstay key' hnew rfl
      obtain ⟨e, he, rfl⟩ := mem_map.mp hstay
      obtain ⟨c, hc, hkey⟩ := mem_map.mp hnew
      obtain ⟨hex, hnot⟩ := mem_staying.mp he
      have hyes := checkAdds_spec hadds c hc (by rw [hkey]; exact mem_map.mpr ⟨e, hex, rfl⟩)
      rw [hkey, hnot] at hyes
      cases hyes
  have hknown : ∀ node ∈ amend.graph existing, ∀ dep ∈ node.2,
      dep ∈ (amend.graph existing).map Prod.fst :=
    fun node hn dep hdep => keeps_iff.mp (checkGraph_spec hgraph node hn dep hdep)
  refine ⟨hsame, hrewrite, hkeys, fun c hc => ?_, hnodup, hknown,
    acyclic_of_findKeyCycle hnodup hknown hcycle⟩
  obtain ⟨e, he, hkey, hthread, -⟩ := hthreads c hc
  exact ⟨e, he, hkey, hthread⟩

end AmendPlan

end Maidan
