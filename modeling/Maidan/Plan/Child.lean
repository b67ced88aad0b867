/-
# Plans as submitted

`SubmitPlan` (`plan.rs`): the children a planner gives its plan, which depend on one another by key.
Everything here runs before the store opens a transaction, and every error names the child it is
about.

* `validate_children` trims, bounds and normalizes each child; keys are distinct, and a dependency
  is no self-loop and, in a plan as submitted, one of the plan's own keys;
* `find_key_cycle` searches the graph of the keys (`Lib.DepthFirst`);
* `lint_children` asks of every child what its worker will need.

`SubmitPlan.wellFormed_of_checked` is what the store may rely on; `acyclic_of_findKeyCycle` is the
search's half of it, which amendments use as well.
-/
import Maidan.Lib.DepthFirst
import Maidan.Task.Attributes

namespace Maidan

open Run Text Digraph List

/-! ## 1. Children -/

/-- `PLAN_MAX_CHILDREN`. -/
def planMaxChildren : Nat := 50

/-- `PLAN_KEY_MAX_CHARS`. -/
def planKeyMaxChars : Nat := 64

/-- `PLAN_HOLD_CHILDREN`. -/
def planHoldChildren : Nat := 5

/-- `PLAN_TEST_MAX_CHARS`. -/
def planTestMaxChars : Nat := 500

/-- `PLAN_HOLD_NOTE`. -/
def planHoldNote : String :=
  "plan held for review: a Maintainer releases it with POST /threads/\x7bparent\x7d/plan/release"

/-- `PlanChild`. -/
structure PlanChild where
  key : String
  title : String
  description : Option String := none
  attributes : Option TaskAttributes := none
  footprint : Option Footprint := none
  dependsOn : List String := []
  test : Option String := none
deriving DecidableEq, Repr

/-- The start of every error about a child. -/
def aboutChild (key text : String) : String := "child \x60" ++ key ++ "\x60: " ++ text

/-- `check_key`. -/
def checkKey (key : String) : Except String Unit :=
  if key.isEmpty then .error "every child needs a non-empty key"
  else if key.toList.length > planKeyMaxChars then
    .error (aboutChild key ("a key is at most " ++ toString planKeyMaxChars ++ " characters"))
  else if key.toList.any isControl then
    .error (aboutChild key "a key has no control characters")
  else .ok ()

/-- `normalized_keys`: trimmed, first occurrence kept. -/
def normalizedKeys (keys : List String) : List String := firstOccurrences (keys.map trimStr)

/-- `DependsOn`: where a child's `depends_on` keys may point. -/
inductive DependsOn
  | withinThese
  | anyKey
deriving DecidableEq, Repr

/-- The first loop of `validate_children`: keys and titles. -/
def validateNames : List String → List PlanChild → Except String (List PlanChild)
  | _, [] => .ok []
  | seen, child :: rest => do
    let key := trimStr child.key
    checkKey key
    if key ∈ seen then .error (aboutChild key "keys must be unique in a plan")
    else if (trimStr child.title).isEmpty then .error (aboutChild key "a title is required")
    else do
      let rest ← validateNames (key :: seen) rest
      return { child with key := key, title := trimStr child.title } :: rest

/-- The dependencies of one child. -/
def checkDependsOn (scope : DependsOn) (keys : List String) (key : String) :
    List String → Except String Unit
  | [] => .ok ()
  | dep :: rest =>
    if dep = key then .error (aboutChild key "a child cannot depend on itself")
    else if scope = .withinThese ∧ dep ∉ keys then
      .error (aboutChild key
        ("depends_on names \x60" ++ dep ++ "\x60, which is not a key in this plan"))
    else checkDependsOn scope keys key rest

/-- The footprint of one child; one without items reads as none. -/
def validatedFootprint (key : String) : Option Footprint → Except String (Option Footprint)
  | none => .ok none
  | some footprint =>
    match footprint.validated with
    | .error why => .error (aboutChild key ("footprint: " ++ why))
    | .ok footprint => .ok (if footprint.items.isEmpty then none else some footprint)

/-- The attributes of one child. -/
def validatedAttributes (key : String) :
    Option TaskAttributes → Except String (Option TaskAttributes)
  | none => .ok none
  | some attributes =>
    match attributes.validated with
    | .error why => .error (aboutChild key ("attributes: " ++ why))
    | .ok attributes => .ok (some attributes)

/-- The test command of one child. -/
def checkTest (key : String) : Option String → Except String Unit
  | none => .ok ()
  | some test =>
    if test.toList.length > planTestMaxChars then
      .error (aboutChild key
        ("a test command is at most " ++ toString planTestMaxChars ++ " characters"))
    else if test.toList.any isControl then .error (aboutChild key "a test command is one line")
    else .ok ()

/-- The test command goes to the end of the description, where the worker reads it. -/
def describedTest (description : Option String) : Option String → Option String
  | none => description
  | some test =>
    let line := "Test: \x60" ++ test ++ "\x60"
    match description with
    | none => some line
    | some text =>
      if (trimStr text).isEmpty then some line
      else some (String.ofList (trimEnd text.toList) ++ "\n\n" ++ line)

/-- The second loop of `validate_children`, for one child. -/
def validateBody (scope : DependsOn) (keys : List String) (child : PlanChild) :
    Except String PlanChild := do
  let dependsOn := normalizedKeys child.dependsOn
  checkDependsOn scope keys child.key dependsOn
  let footprint ← validatedFootprint child.key child.footprint
  let attributes ← validatedAttributes child.key child.attributes
  let test := trimmedOption child.test
  checkTest child.key test
  return { child with
    dependsOn := dependsOn, footprint := footprint, attributes := attributes, test := test,
    description := describedTest child.description test }

def validateBodies (scope : DependsOn) (keys : List String) :
    List PlanChild → Except String (List PlanChild)
  | [] => .ok []
  | child :: rest => do
    let child ← validateBody scope keys child
    let rest ← validateBodies scope keys rest
    return child :: rest

/-- `validate_children`. -/
def validateChildren (children : List PlanChild) (scope : DependsOn) :
    Except String (List PlanChild) := do
  let children ← validateNames [] children
  validateBodies scope (children.map PlanChild.key) children

/-- The lint of one child. -/
def lintChild (child : PlanChild) : Except String Unit :=
  if (child.attributes.bind TaskAttributes.acceptance).isNone then
    .error (aboutChild child.key "attributes.acceptance is required (how a reviewer verifies it)")
  else if child.test.isNone then
    .error (aboutChild child.key "test is required (the command that proves it done)")
  else if child.footprint.isNone then
    .error (aboutChild child.key "a footprint with at least one item is required")
  else
    match child.attributes.bind TaskAttributes.engine with
    | none => .error (aboutChild child.key "attributes.engine is required (pi, session or human)")
    | some engine =>
      if (child.attributes.any TaskAttributes.threatModel) ∧ engine ≠ .session then
        .error (aboutChild child.key
          ("a child that needs a threat model goes to a session, not " ++ engine.asStr))
      else .ok ()

/-- `lint_children`. -/
def lintChildren : List PlanChild → Except String Unit
  | [] => .ok ()
  | child :: rest => do
    lintChild child
    lintChildren rest

/-! ## 2. The graph of the keys -/

/-- A child as the search sees it: `(key, depends_on)`. -/
abbrev KeyNode := String × List String

variable (nodes : List KeyNode)

/-- `index`: of two nodes with one key the map keeps the later. -/
def keyIndex (key : String) : Option Nat :=
  (List.range nodes.length).reverse.find? fun i => nodes[i]?.any fun node => node.1 = key

/-- `edges`: a dependency that is no key has none. -/
def keyEdges (i : Nat) : List Nat :=
  match nodes[i]? with
  | none => []
  | some node => node.2.filterMap (keyIndex nodes)

/-- `find_key_cycle`: the keys around a loop, the first repeated at the end. -/
def findKeyCycle : Option (List String) :=
  match DepthFirst.findCycle (keyEdges nodes) nodes.length with
  | .cycle path => some (path.map fun i => (nodes[i]?.map Prod.fst).getD "")
  | _ => none

/-- **`key` depends on `dep`** in the graph. -/
def KeyEdge (key dep : String) : Prop :=
  ∃ deps, (key, deps) ∈ nodes ∧ dep ∈ deps

variable {nodes : List KeyNode} {key : String} {keys : List String} {scope : DependsOn}

theorem keyIndex_spec (h : keyIndex nodes key = some i) : ∃ deps, nodes[i]? = some (key, deps) := by
  have hany := find?_some h
  cases hn : nodes[i]? with
  | none => simp [hn] at hany
  | some node =>
    have hkey : node.1 = key := by simpa [hn] using hany
    exact ⟨node.2, by rw [← hkey]⟩

theorem keyIndex_of_mem (h : key ∈ nodes.map Prod.fst) : ∃ i, keyIndex nodes key = some i := by
  obtain ⟨node, hnode, rfl⟩ := mem_map.mp h
  obtain ⟨i, hi⟩ := getElem?_of_mem hnode
  refine Option.isSome_iff_exists.mp (find?_isSome.mpr ⟨i, ?_, by simp [hi]⟩)
  rw [List.mem_reverse, List.mem_range]
  exact (List.getElem?_eq_some_iff.mp hi).1

theorem lt_of_mem_keyEdges (h : j ∈ keyEdges nodes i) : i < nodes.length ∧ j < nodes.length := by
  unfold keyEdges at h
  split at h
  · cases h
  rename_i node hi
  obtain ⟨dep, _, hj⟩ := mem_filterMap.mp h
  obtain ⟨deps, hnode⟩ := keyIndex_spec hj
  exact ⟨(List.getElem?_eq_some_iff.mp hi).1, (List.getElem?_eq_some_iff.mp hnode).1⟩

/-- **No loop found, no loop there**, when the keys are distinct and every dependency is one. -/
theorem acyclic_of_findKeyCycle (hnd : (nodes.map Prod.fst).Nodup)
    (hknown : ∀ node ∈ nodes, ∀ dep ∈ node.2, dep ∈ nodes.map Prod.fst)
    (h : findKeyCycle nodes = none) : Acyclic (KeyEdge nodes) := by
  have hclear : ∃ mark, DepthFirst.findCycle (keyEdges nodes) nodes.length = .clear mark := by
    unfold findKeyCycle at h
    cases hfind : DepthFirst.findCycle (keyEdges nodes) nodes.length with
    | cycle => simp [hfind] at h
    | clear mark => exact ⟨mark, rfl⟩
    | spent =>
      have hfuel := DepthFirst.findCycle_ne_spent
        (fun x y (hy : y ∈ keyEdges nodes x) => (lt_of_mem_keyEdges hy).2)
      exact absurd hfind hfuel
  obtain ⟨mark, hclear⟩ := hclear
  have hindex := DepthFirst.acyclic_of_findCycle (fun x y hy => (lt_of_mem_keyEdges hy).1) hclear
  -- a key is labelled by the position of its node
  refine Acyclic.of_label (fun key i => ∃ deps, nodes[i]? = some (key, deps)) ?_ hindex ?_
  · rintro key i j ⟨deps, hi⟩ ⟨deps', hj⟩
    have hlt : i < (nodes.map Prod.fst).length := by
      rw [List.length_map]
      exact (List.getElem?_eq_some_iff.mp hi).1
    refine (List.getElem?_inj hlt hnd).mp ?_
    rw [List.getElem?_map, List.getElem?_map, hi, hj]
    rfl
  · rintro key dep ⟨deps, hnode, hdep⟩
    obtain ⟨i, hi⟩ := getElem?_of_mem hnode
    obtain ⟨j, hj⟩ := keyIndex_of_mem (hknown _ hnode dep hdep)
    refine ⟨i, j, ⟨deps, hi⟩, keyIndex_spec hj, ?_⟩
    unfold keyEdges
    rw [hi]
    exact mem_filterMap.mpr ⟨dep, hdep, hj⟩

/-! ## 3. Plans -/

/-- `SubmitPlan`. -/
structure SubmitPlan where
  leaseId : ClaimLeaseId
  children : List PlanChild

/-- The nodes of a list of children, as `find_cycle` builds them. -/
def keyNodes (children : List PlanChild) : List KeyNode :=
  children.map fun c => (c.key, c.dependsOn)

/-- `SubmitPlan::validated`. -/
def SubmitPlan.validated (plan : SubmitPlan) : Except String SubmitPlan :=
  let count := plan.children.length
  if count = 0 ∨ planMaxChildren < count then
    .error ("a plan has 1 to " ++ toString planMaxChildren ++ " children, not " ++ toString count)
  else do
    let children ← validateChildren plan.children .withinThese
    match findKeyCycle (keyNodes children) with
    | some cycle => .error ("the plan's dependencies loop: " ++ " -> ".intercalate cycle)
    | none => return { plan with children := children }

/-- `SubmitPlan::checked`. -/
def SubmitPlan.checked (plan : SubmitPlan) : Except String SubmitPlan := do
  let plan ← plan.validated
  lintChildren plan.children
  return plan

/-- A child that needs a threat model. -/
def PlanChild.needsThreatModel (child : PlanChild) : Bool :=
  child.attributes.any TaskAttributes.threatModel

/-- `needs_hold`. -/
def SubmitPlan.needsHold (plan : SubmitPlan) : Bool :=
  decide (planHoldChildren ≤ plan.children.length) || plan.children.any PlanChild.needsThreatModel

/-! ## 4. What a checked plan is -/

theorem validateNames_spec : ∀ {children : List PlanChild} {seen : List String}
    {children' : List PlanChild}, validateNames seen children = .ok children' →
    (children'.map PlanChild.key).Nodup ∧ ∀ c ∈ children', c.key ∉ seen
  | [], _, _, h => by
    cases h
    simp
  | child :: rest, seen, children', h => by
    obtain ⟨_, _, h⟩ := bind_ok h
    split at h
    · cases h
    rename_i hnew
    split at h
    · cases h
    obtain ⟨rest', hrest, h⟩ := bind_ok h
    cases h
    obtain ⟨hnodup, hseen⟩ := validateNames_spec hrest
    refine ⟨nodup_cons.mpr ⟨?_, hnodup⟩, ?_⟩
    · intro hmem
      obtain ⟨c, hc, hkey⟩ := mem_map.mp hmem
      exact hseen c hc (by simp [hkey])
    · intro c hc
      rcases mem_cons.mp hc with rfl | hc
      · exact hnew
      · exact fun hmem => hseen c hc (mem_cons_of_mem _ hmem)

theorem checkDependsOn_known : ∀ {deps : List String},
    checkDependsOn .withinThese keys key deps = .ok () → ∀ dep ∈ deps, dep ∈ keys
  | [], _, _, hdep => by cases hdep
  | dep :: rest, h, d, hd => by
    unfold checkDependsOn at h
    split at h
    · cases h
    split at h
    · cases h
    rename_i hknown
    rcases mem_cons.mp hd with rfl | hd
    · exact not_not.mp fun hno => hknown ⟨rfl, hno⟩
    · exact checkDependsOn_known h d hd

theorem validateBody_spec (h : validateBody scope keys child = .ok child') :
    child'.key = child.key ∧ checkDependsOn scope keys child'.key child'.dependsOn = .ok () := by
  obtain ⟨_, hdeps, h⟩ := bind_ok h
  obtain ⟨footprint, _, h⟩ := bind_ok h
  obtain ⟨attributes, _, h⟩ := bind_ok h
  obtain ⟨_, _, h⟩ := bind_ok h
  cases h
  exact ⟨rfl, hdeps⟩

theorem validateBodies_spec : ∀ {children children' : List PlanChild},
      validateBodies scope keys children = .ok children' →
      children'.map PlanChild.key = children.map PlanChild.key ∧
        ∀ c ∈ children', checkDependsOn scope keys c.key c.dependsOn = .ok ()
  | [], _, h => by
    cases h
    simp
  | child :: rest, children', h => by
    obtain ⟨child1, hchild, h⟩ := bind_ok h
    obtain ⟨rest1, hrest, h⟩ := bind_ok h
    cases h
    obtain ⟨hkey, hdeps⟩ := validateBody_spec hchild
    obtain ⟨hkeys, hall⟩ := validateBodies_spec hrest
    refine ⟨by simp [hkey, hkeys], fun c hc => ?_⟩
    rcases mem_cons.mp hc with rfl | hc
    · exact hdeps
    · exact hall c hc

/-- **Validated children** have distinct keys; in a plan as submitted they depend on its own. -/
theorem validateChildren_spec (h : validateChildren children scope = .ok children') :
    (children'.map PlanChild.key).Nodup ∧
      (scope = .withinThese → ∀ c ∈ children', ∀ dep ∈ c.dependsOn,
        dep ∈ children'.map PlanChild.key) := by
  obtain ⟨named, hnames, h⟩ := bind_ok h
  obtain ⟨hkeys, hdeps⟩ := validateBodies_spec h
  rw [hkeys]
  refine ⟨(validateNames_spec hnames).1, ?_⟩
  rintro rfl c hc dep hdep
  exact checkDependsOn_known (hdeps c hc) dep hdep

theorem keyNodes_keys (children : List PlanChild) :
    (keyNodes children).map Prod.fst = children.map PlanChild.key := by
  simp [keyNodes]

/-- **What the store may rely on**: distinct keys, known dependencies, no loop. -/
structure PlanWellFormed (children : List PlanChild) : Prop where
  nodup : (children.map PlanChild.key).Nodup
  known : ∀ c ∈ children, ∀ dep ∈ c.dependsOn, dep ∈ children.map PlanChild.key
  acyclic : Acyclic (KeyEdge (keyNodes children))

theorem SubmitPlan.wellFormed_of_checked {plan plan' : SubmitPlan}
    (h : plan.checked = .ok plan') : PlanWellFormed plan'.children := by
  obtain ⟨plan1, hvalid, h⟩ := bind_ok h
  obtain ⟨_, _, h⟩ := bind_ok h
  cases h
  unfold SubmitPlan.validated at hvalid
  dsimp only at hvalid
  split at hvalid
  · cases hvalid
  obtain ⟨children, hchildren, hvalid⟩ := bind_ok hvalid
  split at hvalid
  · cases hvalid
  rename_i hcycle
  cases hvalid
  obtain ⟨hnodup, hknown⟩ := validateChildren_spec hchildren
  refine ⟨hnodup, hknown rfl, acyclic_of_findKeyCycle ?_ ?_ hcycle⟩
  · rw [keyNodes_keys]
    exact hnodup
  · intro node hnode dep hdep
    obtain ⟨c, hc, rfl⟩ := mem_map.mp hnode
    rw [keyNodes_keys]
    exact hknown rfl c hc dep hdep

end Maidan
