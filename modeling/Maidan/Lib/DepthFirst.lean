/-
# Depth-first search for a cycle

The iterative search with three marks and an explicit stack.  A node is FRESH until it is first
met, OPEN while it is on the stack, DONE when its last successor has been looked at; an edge into
an open node closes a cycle.

The search runs on fuel.  Two facts make it a decision:

* `findCycle_ne_spent` -- the fuel it is given is enough: every turn looks at an edge or takes a
  node off the stack, and `potential` counts what is left of both;
* `acyclic_of_findCycle` -- when it finds nothing, there is no cycle: what is done has only done
  successors, and no cycle (`Inv`).
-/
import Maidan.Lib.Digraph

namespace DepthFirst

open Relation Digraph List

/-! ## 1. The search -/

inductive Mark
  | fresh
  | open
  | done
deriving DecidableEq, Repr

/-- The marks, and the path from the start: each node with the index of its next successor, the
innermost first. -/
structure State where
  mark : Nat → Mark
  stack : List (Nat × Nat)

def setMark (mark : Nat → Mark) (x : Nat) (m : Mark) : Nat → Mark :=
  fun y => if y = x then m else mark y

/-- The path from `dest` on, and `dest` again. -/
def cycleOf (stack : List (Nat × Nat)) (dest : Nat) : List Nat :=
  let path := (stack.map Prod.fst).reverse
  path.drop ((path.findIdx? (· == dest)).getD 0) ++ [dest]

inductive Turn
  | found (cycle : List Nat)
  | go (s : State)
  | finished

variable (edges : Nat → List Nat)

/-- One turn of the loop. -/
def turn (s : State) : Turn :=
  match s.stack with
  | [] => .finished
  | (node, next) :: rest =>
    match (edges node)[next]? with
    | some dest =>
      match s.mark dest with
      | .open => .found (cycleOf s.stack dest)
      | .fresh =>
        .go { mark := setMark s.mark dest .open, stack := (dest, 0) :: (node, next + 1) :: rest }
      | .done => .go { s with stack := (node, next + 1) :: rest }
    | none => .go { mark := setMark s.mark node .done, stack := rest }

inductive Outcome
  | cycle (nodes : List Nat)
  | clear (mark : Nat → Mark)
  | spent

/-- The loop until the stack is empty. -/
def loop : Nat → State → Outcome
  | 0, _ => .spent
  | fuel + 1, s =>
    match turn edges s with
    | .found nodes => .cycle nodes
    | .finished => .clear s.mark
    | .go s' => loop fuel s'

/-- One loop from every start that is still fresh. -/
def search (fuel : Nat) : List Nat → (Nat → Mark) → Outcome
  | [], mark => .clear mark
  | start :: starts, mark =>
    if mark start = .fresh then
      match loop edges fuel { mark := setMark mark start .open, stack := [(start, 0)] } with
      | .clear mark' => search fuel starts mark'
      | outcome => outcome
    else search fuel starts mark

/-- Every successor of every node, and every node once more. -/
def work (n : Nat) : Nat := ∑ x ∈ Finset.range n, ((edges x).length + 1)

/-- **A cycle of the graph on `0, …, n - 1`**, if there is one. -/
def findCycle (n : Nat) : Outcome :=
  search edges (work edges n + 1) (List.range n) fun _ => .fresh

/-! ## 2. The fuel is enough -/

/-- What is left to do: the fresh nodes, and what is left of the nodes on the stack. -/
def potential (n : Nat) (s : State) : Nat :=
  (∑ x ∈ Finset.range n, if s.mark x = .fresh then (edges x).length + 1 else 0) +
    (s.stack.map fun e => (edges e.1).length - e.2 + 1).sum

variable {n : Nat} {mark : Nat → Mark}

/-- Opening a fresh node takes its share from the fresh ones. -/
theorem sum_setMark_open {x : Nat} (hx : x < n) (hf : mark x = .fresh) :
    (∑ y ∈ Finset.range n, if setMark mark x .open y = .fresh then (edges y).length + 1 else 0) +
        ((edges x).length + 1) =
      ∑ y ∈ Finset.range n, if mark y = .fresh then (edges y).length + 1 else 0 := by
  have hmem : x ∈ Finset.range n := Finset.mem_range.mpr hx
  rw [← Finset.add_sum_erase _ _ hmem, ← Finset.add_sum_erase _ _ hmem]
  have hself : setMark mark x .open x = .open := by simp [setMark]
  have hrest : ∀ y ∈ (Finset.range n).erase x,
      (if setMark mark x .open y = .fresh then (edges y).length + 1 else 0) =
        if mark y = .fresh then (edges y).length + 1 else 0 := by
    intro y hy
    have hne : y ≠ x := (Finset.mem_erase.mp hy).1
    simp [setMark, hne]
  rw [Finset.sum_congr rfl hrest, hself, hf]
  simp
  omega

/-- Finishing an open node leaves the fresh ones. -/
theorem sum_setMark_done (n : Nat) (mark : Nat → Mark) (x : Nat) :
    (∑ y ∈ Finset.range n, if setMark mark x .done y = .fresh then (edges y).length + 1 else 0) ≤
      ∑ y ∈ Finset.range n, if mark y = .fresh then (edges y).length + 1 else 0 := by
  refine Finset.sum_le_sum fun y _ => ?_
  by_cases hy : y = x
  · simp [setMark, hy]
  · simp [setMark, hy]

/-- A start is worth no more than the fresh nodes it is taken from. -/
theorem potential_start {start : Nat} (hs : start < n) (hf : mark start = .fresh) :
    potential edges n { mark := setMark mark start .open, stack := [(start, 0)] } ≤
      work edges n := by
  have hsum := sum_setMark_open edges hs hf
  have hle : (∑ y ∈ Finset.range n, if mark y = .fresh then (edges y).length + 1 else 0) ≤
      work edges n := by
    refine Finset.sum_le_sum fun y _ => ?_
    split <;> omega
  simp only [potential, map_cons, map_nil, sum_cons, sum_nil]
  omega

variable {edges}

/-- **Every turn does something.** -/
theorem potential_turn (hin : ∀ x, ∀ y ∈ edges x, y < n) {s s' : State}
    (h : turn edges s = .go s') : potential edges n s' < potential edges n s := by
  obtain ⟨mark, stack⟩ := s
  unfold turn at h
  cases stack with
  | nil => cases h
  | cons e =>
    obtain ⟨node, next⟩ := e
    cases hdest : (edges node)[next]? with
    | none =>
      simp only [hdest, Turn.go.injEq] at h
      subst h
      have hsum := sum_setMark_done edges n mark node
      simp only [potential, map_cons, sum_cons]
      omega
    | some dest =>
      have hlt : next < (edges node).length := (List.getElem?_eq_some_iff.mp hdest).1
      simp only [hdest] at h
      cases hm : mark dest with
      | «open» => simp [hm] at h
      | done =>
        simp only [hm, Turn.go.injEq] at h
        subst h
        simp only [potential, map_cons, sum_cons]
        omega
      | fresh =>
        simp only [hm, Turn.go.injEq] at h
        subst h
        have hsum := sum_setMark_open edges (hin node dest (mem_of_getElem? hdest)) hm
        simp only [potential, map_cons, sum_cons]
        omega

theorem loop_ne_spent (hin : ∀ x, ∀ y ∈ edges x, y < n) :
    ∀ (fuel : Nat) (s : State), potential edges n s < fuel → loop edges fuel s ≠ .spent
  | 0, _, h => by omega
  | fuel + 1, s, h => by
    unfold loop
    cases ht : turn edges s with
    | found | finished => simp
    | go s' =>
      have hlt := potential_turn hin ht
      exact loop_ne_spent hin fuel s' (by omega)

theorem search_ne_spent (hin : ∀ x, ∀ y ∈ edges x, y < n) :
    ∀ (starts : List Nat) (mark : Nat → Mark), (∀ x ∈ starts, x < n) →
      search edges (work edges n + 1) starts mark ≠ .spent
  | [], mark, _ => by simp [search]
  | start :: starts, mark, hs => by
    have hrest : ∀ x ∈ starts, x < n := fun x hx => hs x (mem_cons_of_mem start hx)
    unfold search
    split
    · rename_i hf
      have hle := potential_start edges (hs start mem_cons_self) hf
      have hloop := loop_ne_spent hin (work edges n + 1) _ (Nat.lt_succ_of_le hle)
      split
      · exact search_ne_spent hin starts _ hrest
      · exact hloop
    · exact search_ne_spent hin starts mark hrest

/-- **The search decides.** -/
theorem findCycle_ne_spent (hin : ∀ x, ∀ y ∈ edges x, y < n) : findCycle edges n ≠ .spent :=
  search_ne_spent hin (List.range n) _ fun _ hx => mem_range.mp hx

/-! ## 3. What is done has no cycle -/

/-- What the marks promise about the done nodes. -/
structure DoneOk (edges : Nat → List Nat) (mark : Nat → Mark) : Prop where
  closed : ∀ {x y}, mark x = .done → y ∈ edges x → mark y = .done
  acyclic : ∀ {x}, mark x = .done → ¬TransGen (fun x y => y ∈ edges x) x x

/-- The successors of `node` before the index `next` are done. -/
def DoneBefore (edges : Nat → List Nat) (mark : Nat → Mark) (node next : Nat) : Prop :=
  ∀ j < next, ∀ y, (edges node)[j]? = some y → mark y = .done

/-- The nodes under `child` on the stack: each has just gone into the one above it. -/
def Waiting (edges : Nat → List Nat) (mark : Nat → Mark) : Nat → List (Nat × Nat) → Prop
  | _, [] => True
  | child, (node, next) :: rest =>
    ∃ i, next = i + 1 ∧ (edges node)[i]? = some child ∧ DoneBefore edges mark node i ∧
      Waiting edges mark node rest

/-- The whole stack: its top looks for a next successor, the others wait. -/
def Explored (edges : Nat → List Nat) (mark : Nat → Mark) : List (Nat × Nat) → Prop
  | [] => True
  | (node, next) :: rest => DoneBefore edges mark node next ∧ Waiting edges mark node rest

/-- **The invariant of the loop.** -/
structure Inv (edges : Nat → List Nat) (s : State) : Prop where
  opened : ∀ x, s.mark x = .open ↔ x ∈ s.stack.map Prod.fst
  nodup : (s.stack.map Prod.fst).Nodup
  doneOk : DoneOk edges s.mark
  explored : Explored edges s.mark s.stack

theorem DoneBefore.mono {mark' : Nat → Mark} (hm : ∀ y, mark y = .done → mark' y = .done)
    {node next : Nat} (h : DoneBefore edges mark node next) : DoneBefore edges mark' node next :=
  fun j hj y hy => hm y (h j hj y hy)

theorem Waiting.mono {mark' : Nat → Mark} (hm : ∀ y, mark y = .done → mark' y = .done) :
    ∀ {child : Nat} (stack : List (Nat × Nat)), Waiting edges mark child stack →
      Waiting edges mark' child stack
  | _, [], _ => trivial
  | _, (_, _) :: rest, ⟨i, hi, hc, hd, hw⟩ => ⟨i, hi, hc, hd.mono hm, hw.mono hm rest⟩

/-- One successor further. -/
theorem DoneBefore.succ {node next dest : Nat} (h : DoneBefore edges mark node next)
    (hdest : (edges node)[next]? = some dest) (hm : mark dest = .done) :
    DoneBefore edges mark node (next + 1) := by
  intro j hj y hy
  rcases Nat.lt_succ_iff_lt_or_eq.mp hj with hlt | rfl
  · exact h j hlt y hy
  · rw [hdest] at hy
    cases hy
    exact hm

/-- Opening a fresh node makes no node done or undone. -/
theorem setMark_open_done (hf : mark dest = .fresh) :
    setMark mark dest .open y = .done ↔ mark y = .done := by
  unfold setMark
  split
  · simp [*]
  · rfl

theorem DoneOk.setMark_open (h : DoneOk edges mark) (hf : mark dest = .fresh) :
    DoneOk edges (setMark mark dest .open) where
  closed hx hy := (setMark_open_done hf).mpr (h.closed ((setMark_open_done hf).mp hx) hy)
  acyclic hx := h.acyclic ((setMark_open_done hf).mp hx)

section Turns

variable {mark : Nat → Mark} {node next dest : Nat} {rest : List (Nat × Nat)}

section

variable (h : Inv edges ⟨mark, (node, next) :: rest⟩)
include h

/-- Into a fresh successor. -/
theorem Inv.push (hdest : (edges node)[next]? = some dest) (hf : mark dest = .fresh) :
    Inv edges ⟨setMark mark dest .open, (dest, 0) :: (node, next + 1) :: rest⟩ := by
  have hkeep : ∀ y, mark y = .done → setMark mark dest .open y = .done :=
    fun _ => (setMark_open_done hf).mpr
  have hnotin : dest ∉ ((node, next) :: rest).map Prod.fst := by
    intro hm
    have hopen : mark dest = .open := (h.opened dest).mpr hm
    rw [hf] at hopen
    cases hopen
  obtain ⟨hdone, hwait⟩ := h.explored
  refine ⟨fun x => ?_, nodup_cons.mpr ⟨hnotin, h.nodup⟩, h.doneOk.setMark_open hf, ?_, ?_⟩
  · by_cases hx : x = dest
    · simp [setMark, hx]
    · have hopen := h.opened x
      simp only [setMark, hx, if_false, map_cons, mem_cons, false_or] at hopen ⊢
      exact hopen
  · intro j hj
    omega
  · exact ⟨next, rfl, hdest, hdone.mono hkeep, hwait.mono hkeep rest⟩

/-- Past a done successor. -/
theorem Inv.skip (hdest : (edges node)[next]? = some dest) (hd : mark dest = .done) :
    Inv edges ⟨mark, (node, next + 1) :: rest⟩ :=
  ⟨h.opened, h.nodup, h.doneOk, h.explored.1.succ hdest hd, h.explored.2⟩

/-- **A finished node**: all its successors are done, and none of them leads back to it. -/
theorem Inv.pop (hnone : (edges node)[next]? = none) :
    Inv edges ⟨setMark mark node .done, rest⟩ := by
  have hopen : mark node = .open := (h.opened node).mpr (by simp)
  obtain ⟨hdone, hwait⟩ := h.explored
  have hsucc : ∀ y ∈ edges node, mark y = .done := by
    intro y hy
    obtain ⟨j, hj⟩ := List.mem_iff_getElem?.mp hy
    have hlt : j < (edges node).length := (List.getElem?_eq_some_iff.mp hj).1
    have hle : (edges node).length ≤ next := List.getElem?_eq_none_iff.mp hnone
    exact hdone j (by omega) y hj
  have hkeep : ∀ y, mark y = .done → setMark mark node .done y = .done := by
    intro y hy
    unfold setMark
    split
    · rfl
    · exact hy
  have hback : ∀ {y}, setMark mark node .done y = .done → y = node ∨ mark y = .done := by
    intro y hy
    unfold setMark at hy
    split at hy
    · exact .inl ‹y = node›
    · exact .inr hy
  -- from a done node every path stays in done nodes
  have hstay : ∀ {x y}, ReflTransGen (fun x y => y ∈ edges x) x y → mark x = .done →
      mark y = .done := by
    intro x y hp hx
    induction hp with
    | refl => exact hx
    | tail _ he ih => exact h.doneOk.closed ih he
  have hnodup := nodup_cons.mp h.nodup
  refine ⟨fun x => ?_, hnodup.2, ⟨?_, ?_⟩, ?_⟩
  · by_cases hx : x = node
    · subst hx
      simp only [setMark, if_true, reduceCtorEq, false_iff]
      exact hnodup.1
    · have ho := h.opened x
      simp only [setMark, hx, if_false, map_cons, mem_cons, false_or] at ho ⊢
      exact ho
  · intro x y hx hy
    rcases hback hx with rfl | hx
    · exact hkeep y (hsucc y hy)
    · exact hkeep y (h.doneOk.closed hx hy)
  · intro x hx hc
    rcases hback hx with rfl | hx
    · obtain ⟨y, hy, hyx⟩ := TransGen.head'_iff.mp hc
      rw [hstay hyx (hsucc y hy)] at hopen
      cases hopen
    · exact h.doneOk.acyclic hx hc
  · cases rest with
    | nil => trivial
    | cons e rest =>
      obtain ⟨p, q⟩ := e
      obtain ⟨i, rfl, hc, hd, hw⟩ := hwait
      exact ⟨(hd.mono hkeep).succ hc (by simp [setMark]), hw.mono hkeep rest⟩

end

end Turns

/-- **Every turn keeps the invariant, and what has been met stays so.** -/
theorem turn_inv {s s' : State} (h : Inv edges s) (ht : turn edges s = .go s') :
    Inv edges s' ∧ ∀ x, s.mark x ≠ .fresh → s'.mark x ≠ .fresh := by
  obtain ⟨mark, stack⟩ := s
  unfold turn at ht
  cases stack with
  | nil => cases ht
  | cons e =>
    obtain ⟨node, next⟩ := e
    have hset : ∀ {z m}, m ≠ Mark.fresh → ∀ x, mark x ≠ .fresh → setMark mark z m x ≠ .fresh := by
      intro z m hm x hx
      unfold setMark
      split
      · exact hm
      · exact hx
    cases hdest : (edges node)[next]? with
    | none =>
      simp only [hdest, Turn.go.injEq] at ht
      subst ht
      exact ⟨h.pop hdest, hset (by decide)⟩
    | some dest =>
      simp only [hdest] at ht
      cases hm : mark dest with
      | «open» => simp [hm] at ht
      | done =>
        simp only [hm, Turn.go.injEq] at ht
        subst ht
        exact ⟨h.skip hdest hm, fun _ hx => hx⟩
      | fresh =>
        simp only [hm, Turn.go.injEq] at ht
        subst ht
        exact ⟨h.push hdest hm, hset (by decide)⟩

/-- Between two starts nothing is open. -/
structure Settled (edges : Nat → List Nat) (mark : Nat → Mark) : Prop extends DoneOk edges mark where
  noneOpen : ∀ x, mark x ≠ .open

theorem loop_clear : ∀ (fuel : Nat) {s : State} {mark : Nat → Mark}, Inv edges s →
    loop edges fuel s = .clear mark →
    Settled edges mark ∧ ∀ x, s.mark x ≠ .fresh → mark x = .done
  | 0, _, _, _, h => by cases h
  | fuel + 1, s, mark, hinv, h => by
    unfold loop at h
    cases ht : turn edges s with
    | found => simp [ht] at h
    | finished =>
      simp only [ht, Outcome.clear.injEq] at h
      subst h
      have hempty : s.stack = [] := by
        cases hs : s.stack with
        | nil => rfl
        | cons =>
          unfold turn at ht
          rw [hs] at ht
          dsimp only at ht
          split at ht
          · split at ht <;> cases ht
          · cases ht
      have hnone : ∀ x, s.mark x ≠ .open := by
        intro x hx
        rw [hinv.opened x, hempty] at hx
        cases hx
      refine ⟨⟨hinv.doneOk, hnone⟩, fun x hx => ?_⟩
      cases hm : s.mark x with
      | fresh => exact absurd hm hx
      | «open» => exact absurd hm (hnone x)
      | done => rfl
    | go =>
      simp only [ht] at h
      obtain ⟨hinv', hmet⟩ := turn_inv hinv ht
      obtain ⟨hsettled, hdone⟩ := loop_clear fuel hinv' h
      exact ⟨hsettled, fun x hx => hdone x (hmet x hx)⟩

/-- A start opens one node. -/
theorem Settled.start (h : Settled edges mark) {start : Nat} (hf : mark start = .fresh) :
    Inv edges { mark := setMark mark start .open, stack := [(start, 0)] } := by
  refine ⟨fun x => ?_, by simp, h.toDoneOk.setMark_open hf, ?_, trivial⟩
  · by_cases hx : x = start
    · simp [setMark, hx]
    · simp [setMark, hx, h.noneOpen x]
  · intro j hj
    omega

theorem search_clear (fuel : Nat) : ∀ (starts : List Nat) {mark mark' : Nat → Mark},
    Settled edges mark → search edges fuel starts mark = .clear mark' →
    Settled edges mark' ∧ (∀ x, mark x = .done → mark' x = .done) ∧ ∀ x ∈ starts, mark' x = .done
  | [], _, _, hs, h => by
    cases h
    exact ⟨hs, fun _ hx => hx, fun x hx => by cases hx⟩
  | start :: starts, mark, mark', hs, h => by
    unfold search at h
    split at h
    · rename_i hf
      split at h
      · rename_i mark1 hloop
        obtain ⟨hs1, hdone1⟩ := loop_clear fuel (hs.start hf) hloop
        obtain ⟨hs', hkeep, hall⟩ := search_clear fuel starts hs1 h
        have hmet : ∀ x, mark x ≠ .fresh ∨ x = start → mark1 x = .done := by
          intro x hx
          refine hdone1 x ?_
          change setMark mark start .open x ≠ .fresh
          unfold setMark
          split
          · decide
          · exact hx.resolve_right ‹x ≠ start›
        refine ⟨hs', fun x hx => hkeep x (hmet x (.inl (by rw [hx]; decide))), fun x hx => ?_⟩
        rcases mem_cons.mp hx with rfl | hx
        · exact hkeep x (hmet x (.inr rfl))
        · exact hall x hx
      · rename_i hne
        exact absurd h (hne mark')
    · rename_i hf
      obtain ⟨hs', hkeep, hall⟩ := search_clear fuel starts hs h
      refine ⟨hs', hkeep, fun x hx => ?_⟩
      rcases mem_cons.mp hx with rfl | hx
      · refine hkeep x ?_
        cases hm : mark x with
        | fresh => exact absurd hm hf
        | «open» => exact absurd hm (hs.noneOpen x)
        | done => rfl
      · exact hall x hx

/-- **Nothing found, no cycle.** -/
theorem acyclic_of_findCycle (hout : ∀ x, ∀ y ∈ edges x, x < n)
    (h : findCycle edges n = .clear mark) : Acyclic fun x y => y ∈ edges x := by
  have hinit : Settled edges fun _ => .fresh := by
    refine ⟨⟨?_, ?_⟩, ?_⟩
    · intro x y hx
      cases hx
    · intro x hx
      cases hx
    · intro x hx
      cases hx
  obtain ⟨hs, _, hall⟩ := search_clear _ (List.range n) hinit h
  intro x hc
  obtain ⟨y, hy, _⟩ := TransGen.head'_iff.mp hc
  exact hs.acyclic (hall x (mem_range.mpr (hout x y hy))) hc

end DepthFirst
