/-
# Recipes and their validation

`RecipeSpec` (`recipe.rs`): a blueprint of a root thread and the child threads under it, which
depend on one another by key.  `validate` accepts a spec whose keys are there and distinct, whose
dependencies name siblings, and whose children can be counted out in dependency order
(`Lib.Kahn`).

The counting starts from a `HashMap`, so the order in which the first nodes are popped is not
fixed: it is a parameter (`HashOrder`), and what is proved holds for every order.
-/
import Maidan.Lib.Kahn
import Maidan.Lib.Run
import Maidan.Lib.Text
import Maidan.Types

namespace Maidan

open Run Text List

/-! ## 1. Specs -/

structure RecipeParam where
  name : String
  required : Bool := false

structure RecipeChild where
  key : String
  title : String
  requiredSkills : List String := []
  dependsOn : List String := []

/-- `RecipeSpec`, as far as instantiation reads it. -/
structure RecipeSpec where
  params : List RecipeParam := []
  children : List RecipeChild := []

/-- The params of one instantiation: `null`, an object with the names it gives a value that is not
`null`, or any other JSON. -/
inductive RecipeParams
  | null
  | object (given : List String)
  | other

variable (spec : RecipeSpec)

/-- `validate_params`. -/
def RecipeSpec.validateParams : RecipeParams → Except String Unit
  | .null =>
    if spec.params.any RecipeParam.required then .error "params object is required" else .ok ()
  | .other => .error "params must be a JSON object"
  | .object given =>
    match spec.params.find? fun p => p.required && !given.contains p.name with
    | none => .ok ()
    | some p => .error ("missing required param '" ++ p.name ++ "'")

/-! ## 2. Validation -/

/-- The order in which a `HashMap` hands out its keys. -/
structure HashOrder where
  visit : List String → List String
  perm : ∀ keys, (visit keys).Perm keys

/-- The first loop of `validate`. -/
def checkRecipeChildren : List String → List RecipeChild → Except String Unit
  | _, [] => .ok ()
  | seen, child :: rest =>
    if (trim child.key.toList).isEmpty then .error "recipe child key must not be empty"
    else if (trim child.title.toList).isEmpty then
      .error ("recipe child '" ++ child.key ++ "' has an empty title")
    else if child.key ∈ seen then .error ("duplicate recipe child key '" ++ child.key ++ "'")
    else checkRecipeChildren (child.key :: seen) rest

/-- The inner loop of the second. -/
def checkRecipeDeps (keys : List String) (child : RecipeChild) : List String → Except String Unit
  | [] => .ok ()
  | dep :: rest =>
    if dep = child.key then .error ("recipe child '" ++ child.key ++ "' depends on itself")
    else if dep ∉ keys then
      .error ("recipe child '" ++ child.key ++ "' depends on unknown child '" ++ dep ++ "'")
    else checkRecipeDeps keys child rest

/-- The second loop of `validate`. -/
def checkRecipeDependsOn (keys : List String) : List RecipeChild → Except String Unit
  | [] => .ok ()
  | child :: rest => do
    checkRecipeDeps keys child child.dependsOn
    checkRecipeDependsOn keys rest

/-- The children as the counting sees them. -/
def RecipeSpec.nodes : List (Kahn.Node String) :=
  spec.children.map fun c => { key := c.key, deps := c.dependsOn }

/-- `indegree`: of two children with one key the map keeps the later. -/
def RecipeSpec.indegree (key : String) : Nat :=
  (spec.nodes.reverse.find? fun n => n.key = key).elim 0 fun n => n.deps.length

variable (order : HashOrder)

/-- The state the counting starts in; the stack's top is the key handed out last. -/
def RecipeSpec.kahnStart : Kahn.State String where
  waiting := spec.indegree
  ready := ((order.visit (spec.nodes.map Kahn.Node.key).dedup).filter fun k =>
    spec.indegree k = 0).reverse

/-- `assert_acyclic`. -/
def RecipeSpec.assertAcyclic : Except String Unit :=
  if Kahn.popAll spec.nodes (spec.children.length + 1) (spec.kahnStart order) 0 =
      some spec.children.length then .ok ()
  else .error "recipe children form a dependency cycle"

/-- `validate`. -/
def RecipeSpec.validate : Except String Unit := do
  checkRecipeChildren [] spec.children
  checkRecipeDependsOn (spec.children.map RecipeChild.key) spec.children
  spec.assertAcyclic order

/-! ## 3. What an accepted spec is -/

theorem checkRecipeChildren_spec : ∀ {children : List RecipeChild} {seen : List String},
    checkRecipeChildren seen children = .ok () →
    (children.map RecipeChild.key).Nodup ∧ ∀ c ∈ children, c.key ∉ seen
  | [], _, _ => ⟨nodup_nil, by simp⟩
  | child :: rest, seen, h => by
    unfold checkRecipeChildren at h
    split at h
    · cases h
    split at h
    · cases h
    split at h
    · cases h
    rename_i hnew
    obtain ⟨hnodup, hseen⟩ := checkRecipeChildren_spec h
    refine ⟨nodup_cons.mpr ⟨?_, hnodup⟩, ?_⟩
    · intro hmem
      obtain ⟨c, hc, hkey⟩ := mem_map.mp hmem
      exact hseen c hc (by simp [hkey])
    · intro c hc
      rcases mem_cons.mp hc with rfl | hc
      · exact hnew
      · intro hmem
        exact hseen c hc (mem_cons_of_mem _ hmem)

theorem checkRecipeDeps_spec {keys : List String} : ∀ {deps : List String},
    checkRecipeDeps keys child deps = .ok () → ∀ d ∈ deps, d ∈ keys
  | [], _, d, hd => by cases hd
  | dep :: rest, h, d, hd => by
    unfold checkRecipeDeps at h
    split at h
    · cases h
    split at h
    · cases h
    rename_i hknown
    rcases mem_cons.mp hd with rfl | hd
    · exact not_not.mp hknown
    · exact checkRecipeDeps_spec h d hd

theorem checkRecipeDependsOn_spec {keys : List String} : ∀ {children : List RecipeChild},
    checkRecipeDependsOn keys children = .ok () →
    ∀ c ∈ children, ∀ d ∈ c.dependsOn, d ∈ keys
  | [], _, c, hc => by cases hc
  | child :: rest, h, c, hc => by
    obtain ⟨_, hchild, hrest⟩ := bind_ok h
    rcases mem_cons.mp hc with rfl | hc
    · exact checkRecipeDeps_spec hchild
    · exact checkRecipeDependsOn_spec hrest c hc

theorem RecipeSpec.nodes_keys :
    spec.nodes.map Kahn.Node.key = spec.children.map RecipeChild.key := by
  simp [RecipeSpec.nodes]

variable {spec : RecipeSpec}

theorem RecipeSpec.indegree_node (hnd : (spec.nodes.map Kahn.Node.key).Nodup)
    (hn : node ∈ spec.nodes) : spec.indegree node.key = node.deps.length := by
  unfold RecipeSpec.indegree
  cases hfind : spec.nodes.reverse.find? fun n => n.key = node.key with
  | none =>
    have hnone := find?_eq_none.mp hfind node (mem_reverse.mpr hn)
    simp at hnone
  | some found =>
    have hkey : found.key = node.key := by simpa using find?_some hfind
    have hmem : found ∈ spec.nodes := mem_reverse.mp (mem_of_find?_eq_some hfind)
    rw [inj_on_of_nodup_map hnd hmem hn hkey]
    rfl

theorem RecipeSpec.kahnStart_inv (hnd : (spec.nodes.map Kahn.Node.key).Nodup) :
    Kahn.Inv spec.nodes [] (spec.kahnStart order) := by
  have hmem : ∀ k ∈ (spec.kahnStart order).ready,
      k ∈ spec.nodes.map Kahn.Node.key ∧ spec.indegree k = 0 := by
    intro k hk
    obtain ⟨hvisit, hzero⟩ := mem_filter.mp (mem_reverse.mp hk)
    exact ⟨mem_dedup.mp ((order.perm _).mem_iff.mp hvisit), by simpa using hzero⟩
  refine ⟨?_, ?_, ?_, ?_⟩
  · intro node hn
    simpa [RecipeSpec.kahnStart] using RecipeSpec.indegree_node hnd hn
  · intro k hk
    exact (hmem k (by simpa using hk)).2
  · intro k hk
    exact (hmem k (by simpa using hk)).1
  · rw [append_nil]
    refine nodup_reverse.mpr (List.Nodup.filter _ ?_)
    exact (order.perm _).nodup_iff.mpr (nodup_dedup _)

/-- **The counting always ends**: its fuel is one more than there are children. -/
theorem RecipeSpec.popAll_isSome (spec : RecipeSpec) (order : HashOrder)
    (hnd : (spec.nodes.map Kahn.Node.key).Nodup) :
    (Kahn.popAll spec.nodes (spec.children.length + 1) (spec.kahnStart order) 0).isSome := by
  have hfuel : spec.nodes.length < spec.children.length + 1 + ([] : List String).length := by
    simp [RecipeSpec.nodes]
  exact Kahn.popAll_isSome hnd _ _ [] (spec.kahnStart_inv order hnd) hfuel

/-- **An accepted spec**: distinct keys, known dependencies, no cycle. -/
structure RecipeSpec.WellFormed (spec : RecipeSpec) : Prop where
  nodup : (spec.children.map RecipeChild.key).Nodup
  known : ∀ c ∈ spec.children, ∀ d ∈ c.dependsOn, d ∈ spec.children.map RecipeChild.key
  acyclic : Digraph.Acyclic (Kahn.Edges spec.nodes)

theorem RecipeSpec.wellFormed_of_validate {order : HashOrder} (h : spec.validate order = .ok ()) :
    spec.WellFormed := by
  obtain ⟨_, hkeys, h⟩ := bind_ok h
  obtain ⟨_, hdeps, h⟩ := bind_ok h
  have hnodup := (checkRecipeChildren_spec hkeys).1
  have hnd : (spec.nodes.map Kahn.Node.key).Nodup := by
    rw [spec.nodes_keys]
    exact hnodup
  refine ⟨hnodup, checkRecipeDependsOn_spec hdeps, ?_⟩
  unfold RecipeSpec.assertAcyclic at h
  split at h
  · rename_i hall
    have hlen : spec.nodes.length = spec.children.length := by simp [RecipeSpec.nodes]
    rw [← hlen] at hall
    exact Kahn.acyclic_of_popAll hnd (spec.kahnStart_inv order hnd) hall
  · cases h

end Maidan
