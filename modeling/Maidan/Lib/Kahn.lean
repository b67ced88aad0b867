/-
# Counting a graph out in dependency order

Kahn's algorithm as programs write it: every node starts with a count of its dependencies, the
nodes at zero wait on a stack, and whoever is popped lowers the count of each node that names it,
which goes on the stack when its count reaches zero.  The graph is in order when as many nodes are
popped as there are.

The count starts at the LENGTH of the dependency list, and a popped node lowers it by one however
often it is named.  So a count that has reached zero means that the list has no repetition and
every node on it has been popped; a node that names another twice is never popped.
-/
import Maidan.Lib.Digraph

namespace Kahn

open Digraph Relation List

variable {κ : Type} [DecidableEq κ]

/-! ## 1. The algorithm -/

structure Node (κ : Type) where
  key : κ
  deps : List κ

/-- The counts, and the stack with its top first. -/
structure State (κ : Type) where
  waiting : κ → Nat
  ready : List κ

/-- One node looks at the popped key. -/
def lower (popped : κ) (s : State κ) (node : Node κ) : State κ :=
  if popped ∈ node.deps then
    let left := s.waiting node.key - 1
    { waiting := fun k => if k = node.key then left else s.waiting k
      ready := if left = 0 then node.key :: s.ready else s.ready }
  else s

/-- How many nodes are popped before the stack is empty; `none` when the fuel runs out first. -/
def popAll (nodes : List (Node κ)) : Nat → State κ → Nat → Option Nat
  | 0, _, _ => none
  | fuel + 1, s, resolved =>
    match s.ready with
    | [] => some resolved
    | key :: ready =>
      popAll nodes fuel (nodes.foldl (lower key) { s with ready := ready }) (resolved + 1)

/-! ## 2. What the counts say -/

/-- `popped` is what has come off the stack, last first. -/
structure Inv (nodes : List (Node κ)) (popped : List κ) (s : State κ) : Prop where
  counts : ∀ node ∈ nodes, s.waiting node.key + popped.countP (· ∈ node.deps) = node.deps.length
  zero : ∀ k ∈ s.ready ++ popped, s.waiting k = 0
  known : ∀ k ∈ s.ready ++ popped, k ∈ nodes.map Node.key
  nodup : (s.ready ++ popped).Nodup

/-- A list without repetition holds no more members of `deps` than `deps` has. -/
theorem countP_le_length {popped deps : List κ} (h : popped.Nodup) :
    popped.countP (· ∈ deps) ≤ deps.length := by
  rw [countP_eq_length_filter]
  have hsub : popped.filter (· ∈ deps) ⊆ deps := by
    intro x hx
    simpa using (mem_filter.mp hx).2
  exact (List.Nodup.subperm (h.filter _) hsub).length_le

variable {nodes : List (Node κ)}

/-- **A count at zero**: every dependency has been popped. -/
theorem Inv.deps_popped {popped : List κ} {s : State κ} (h : Inv nodes popped s) {node : Node κ}
    (hn : node ∈ nodes) (hz : s.waiting node.key = 0) : ∀ d ∈ node.deps, d ∈ popped := by
  have hcount := h.counts node hn
  rw [hz, Nat.zero_add, countP_eq_length_filter] at hcount
  have hpop : popped.Nodup := (nodup_append.mp h.nodup).2.1
  have hsub : popped.filter (· ∈ node.deps) ⊆ node.deps := by
    intro x hx
    simpa using (mem_filter.mp hx).2
  have hperm := (List.Nodup.subperm (hpop.filter _) hsub).perm_of_length_le (Nat.le_of_eq hcount.symm)
  intro d hd
  exact (mem_filter.mp (hperm.mem_iff.mpr hd)).1

/-! ## 3. One pop -/

/-- A node the pass over `rest` leaves alone keeps its count. -/
theorem foldl_lower_waiting (popped : κ) : ∀ (rest : List (Node κ)) (s : State κ) (k : κ),
    k ∉ rest.map Node.key → (rest.foldl (lower popped) s).waiting k = s.waiting k
  | [], _, _, _ => rfl
  | node :: rest, s, k, hk => by
    simp only [map_cons, mem_cons, not_or] at hk
    rw [foldl_cons, foldl_lower_waiting popped rest _ k hk.2]
    unfold lower
    split
    · simp [hk.1]
    · rfl

/-- **The pass over the nodes**: each one that names the popped key has its count lowered. -/
theorem foldl_lower_node (popped : κ) : ∀ (rest : List (Node κ)) (s : State κ),
    (rest.map Node.key).Nodup → ∀ node ∈ rest, (rest.foldl (lower popped) s).waiting node.key =
        s.waiting node.key - if popped ∈ node.deps then 1 else 0
  | [], _, _, _, h => by cases h
  | first :: rest, s, hnd, node, hn => by
    obtain ⟨hfirst, hrest⟩ := nodup_cons.mp hnd
    rw [foldl_cons]
    rcases mem_cons.mp hn with rfl | hn
    · rw [foldl_lower_waiting popped rest _ _ hfirst]
      unfold lower
      split <;> simp
    · rw [foldl_lower_node popped rest _ hrest node hn]
      have hne : node.key ≠ first.key := by
        intro he
        exact hfirst (he ▸ mem_map_of_mem hn)
      unfold lower
      split
      · simp [hne]
      · rfl

/-- What the pass puts on the stack: keys of nodes whose count it brought to zero, each once. -/
theorem foldl_lower_ready (popped : κ) : ∀ (rest : List (Node κ)) (s : State κ),
    (rest.map Node.key).Nodup → ∃ fresh : List κ,
      (rest.foldl (lower popped) s).ready = fresh ++ s.ready ∧ fresh.Nodup ∧
      ∀ k ∈ fresh, ∃ node ∈ rest, node.key = k ∧ popped ∈ node.deps ∧ s.waiting k - 1 = 0
  | [], s, _ => ⟨[], rfl, nodup_nil, by simp⟩
  | first :: rest, s, hnd => by
    obtain ⟨hfirst, hrest⟩ := nodup_cons.mp hnd
    obtain ⟨fresh, hready, hfresh, hwhy⟩ := foldl_lower_ready popped rest (lower popped s first) hrest
    have hne : ∀ node ∈ rest, node.key ≠ first.key := by
      intro node hn he
      exact hfirst (he ▸ mem_map_of_mem hn)
    -- the count of a later node is not the first one's to change
    have hwhy' : ∀ k ∈ fresh, ∃ node ∈ first :: rest,
        node.key = k ∧ popped ∈ node.deps ∧ s.waiting k - 1 = 0 := by
      intro k hk
      obtain ⟨node, hn, rfl, hdep, hz⟩ := hwhy k hk
      refine ⟨node, mem_cons_of_mem _ hn, rfl, hdep, ?_⟩
      unfold lower at hz
      split at hz
      · simpa [hne node hn] using hz
      · exact hz
    rw [foldl_cons, hready]
    by_cases hpush : popped ∈ first.deps ∧ s.waiting first.key - 1 = 0
    · refine ⟨fresh ++ [first.key], ?_, ?_, ?_⟩
      · simp [lower, hpush.1, hpush.2]
      · refine nodup_append.mpr ⟨hfresh, nodup_singleton _, ?_⟩
        intro k hk k' hk'
        obtain ⟨node, hn, rfl, _, _⟩ := hwhy k hk
        rw [mem_singleton.mp hk']
        exact hne node hn
      · intro k hk
        rcases mem_append.mp hk with hk | hk
        · exact hwhy' k hk
        · rw [mem_singleton.mp hk]
          exact ⟨first, mem_cons_self, rfl, hpush.1, hpush.2⟩
    · refine ⟨fresh, ?_, hfresh, hwhy'⟩
      unfold lower
      split
      · rename_i hdep
        have hleft : ¬s.waiting first.key - 1 = 0 := fun hz => hpush ⟨hdep, hz⟩
        simp [hleft]
      · rfl

section Pop

variable {nodes : List (Node κ)} {popped ready : List κ} {key : κ} {waiting : κ → Nat}

/-- **A pop keeps the invariant**, with the popped key on the list. -/
theorem Inv.pop (hnd : (nodes.map Node.key).Nodup)
    (h : Inv nodes popped { waiting := waiting, ready := key :: ready }) :
    Inv nodes (key :: popped) (nodes.foldl (lower key) { waiting := waiting, ready := ready }) := by
  obtain ⟨fresh, hready, hfresh, hwhy⟩ :=
    foldl_lower_ready key nodes { waiting := waiting, ready := ready } hnd
  have hkeyout : key ∉ ready ++ popped := (nodup_cons.mp h.nodup).1
  have hpopped : (key :: popped).Nodup :=
    nodup_cons.mpr ⟨fun hm => hkeyout (mem_append_right _ hm), (nodup_append.mp h.nodup).2.1⟩
  have hold : ∀ k ∈ ready ++ key :: popped, k ∈ (key :: ready) ++ popped := by
    intro k hk
    simp only [mem_append, mem_cons] at hk ⊢
    tauto
  refine ⟨?_, ?_, ?_, ?_⟩
  · intro node hn
    rw [foldl_lower_node key nodes _ hnd node hn, countP_cons]
    have hcount := h.counts node hn
    have hle : (key :: popped).countP (· ∈ node.deps) ≤ node.deps.length :=
      countP_le_length hpopped
    rw [countP_cons] at hle
    split at hle <;> simp_all
    omega
  · intro k hk
    rw [hready, append_assoc] at hk
    rcases mem_append.mp hk with hk | hk
    · obtain ⟨node, hn, rfl, hdep, hz⟩ := hwhy k hk
      rw [foldl_lower_node key nodes _ hnd node hn, if_pos hdep]
      exact hz
    · obtain ⟨node, hn, rfl⟩ := mem_map.mp (h.known k (hold k hk))
      rw [foldl_lower_node key nodes _ hnd node hn]
      have hz : waiting node.key = 0 := h.zero node.key (hold _ hk)
      simp [hz]
  · intro k hk
    rw [hready, append_assoc] at hk
    rcases mem_append.mp hk with hk | hk
    · obtain ⟨node, hn, rfl, _, _⟩ := hwhy k hk
      exact mem_map_of_mem hn
    · exact h.known k (hold k hk)
  · rw [hready, append_assoc]
    refine nodup_append.mpr ⟨hfresh, ?_, ?_⟩
    · exact perm_middle.nodup_iff.mpr h.nodup
    · -- a key whose count was zero before had the popped key on its list already
      rintro k hk k' hk' rfl
      obtain ⟨node, hn, rfl, hdep, _⟩ := hwhy k hk
      have hz : waiting node.key = 0 := h.zero node.key (hold _ hk')
      exact hkeyout (mem_append_right _ (h.deps_popped hn hz key hdep))

end Pop

/-! ## 4. The whole run -/

/-- Each key comes after everything it depends on; last first. -/
def Ordered (nodes : List (Node κ)) : List κ → Prop
  | [] => True
  | k :: popped =>
    (∀ node ∈ nodes, node.key = k → ∀ d ∈ node.deps, d ∈ popped) ∧ Ordered nodes popped

/-- **What has been counted when the stack is empty.** -/
theorem popAll_spec (hnd : (nodes.map Node.key).Nodup) :
    ∀ (fuel : Nat) (s : State κ) (popped : List κ) (n : Nat), Inv nodes popped s →
      Ordered nodes popped → popAll nodes fuel s popped.length = some n →
      ∃ all : List κ, all.length = n ∧ all.Nodup ∧ all ⊆ nodes.map Node.key ∧ Ordered nodes all
  | 0, _, _, _, _, _, h => by cases h
  | fuel + 1, ⟨waiting, ready⟩, popped, n, hinv, hord, h => by
    unfold popAll at h
    cases ready with
    | nil =>
      injection h with h
      exact ⟨popped, h, by simpa using hinv.nodup, fun k hk => hinv.known k (by simpa using hk), hord⟩
    | cons key =>
      refine popAll_spec hnd fuel _ (key :: popped) n (hinv.pop hnd) ⟨?_, hord⟩ h
      rintro node hn rfl
      exact hinv.deps_popped hn (hinv.zero node.key (by simp))

/-- **The fuel is enough** when there is one unit for every node not yet popped and one more. -/
theorem popAll_isSome (hnd : (nodes.map Node.key).Nodup) :
    ∀ (fuel : Nat) (s : State κ) (popped : List κ), Inv nodes popped s →
      nodes.length < fuel + popped.length → (popAll nodes fuel s popped.length).isSome
  | 0, s, popped, hinv, hfuel => by
    have hle := (List.Nodup.subperm hinv.nodup (fun k hk => hinv.known k hk)).length_le
    simp only [length_append, length_map] at hle
    omega
  | fuel + 1, ⟨waiting, ready⟩, popped, hinv, hfuel => by
    unfold popAll
    cases ready with
    | nil => rfl
    | cons key =>
      refine popAll_isSome hnd fuel _ (key :: popped) (hinv.pop hnd) ?_
      simp only [length_cons]
      omega

/-- The edges of the nodes. -/
def Edges (nodes : List (Node κ)) (u v : κ) : Prop := ∃ node ∈ nodes, node.key = u ∧ v ∈ node.deps

omit [DecidableEq κ] in
theorem Ordered.closed : ∀ {l : List κ}, Ordered nodes l →
    ∀ {u v : κ}, u ∈ l → Edges nodes u v → v ∈ l
  | k :: l, h, u, v, hu, he => by
    rcases mem_cons.mp hu with rfl | hu
    · obtain ⟨node, hn, hk, hv⟩ := he
      exact mem_cons_of_mem _ (h.1 node hn hk v hv)
    · exact mem_cons_of_mem _ (Ordered.closed h.2 hu he)

omit [DecidableEq κ] in
/-- **An order rules out cycles.** -/
theorem Ordered.not_cyclic : ∀ {l : List κ}, Ordered nodes l → l.Nodup →
    ∀ {u : κ}, u ∈ l → ¬TransGen (Edges nodes) u u
  | k :: l, h, hnd, u, hu, hc => by
    obtain ⟨hk, hl⟩ := nodup_cons.mp hnd
    have hstay : ∀ {x y : κ}, x ∈ l → ReflTransGen (Edges nodes) x y → y ∈ l := by
      intro x y hx hp
      induction hp with
      | refl => exact hx
      | tail _ he ih => exact Ordered.closed h.2 ih he
    rcases mem_cons.mp hu with rfl | hu
    · -- the first step goes into the rest, and nothing leads back out of it
      obtain ⟨y, ⟨node, hn, hkey, hy⟩, hback⟩ := TransGen.head'_iff.mp hc
      exact hk (hstay (h.1 node hn hkey y hy) hback)
    · exact Ordered.not_cyclic h.2 hl hu hc

/-- **All counted, no cycle.** -/
theorem acyclic_of_popAll (hnd : (nodes.map Node.key).Nodup) {fuel : Nat} {s : State κ}
    (hinv : Inv nodes [] s) (h : popAll nodes fuel s 0 = some nodes.length) :
    Acyclic (Edges nodes) := by
  obtain ⟨all, hlen, hall, hsub, hord⟩ := popAll_spec hnd fuel s [] _ hinv trivial h
  have hperm := (List.Nodup.subperm hall hsub).perm_of_length_le (by simp [hlen])
  intro u hc
  obtain ⟨v, ⟨node, hn, hkey, _⟩, _⟩ := TransGen.head'_iff.mp hc
  have hu : u ∈ all := hperm.mem_iff.mpr (hkey ▸ mem_map_of_mem hn)
  exact hord.not_cyclic hall hu hc

end Kahn
