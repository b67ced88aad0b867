/-
# Directed graphs without cycles

A graph is its edge relation `E : α → α → Prop`; a PATH is `Relation.TransGen E`.  `Acyclic E` says
no node has a path to itself.  The rules below are the ways a graph can be changed and stay so:

* fewer edges, or labels from an acyclic graph (`mono`, `of_label`);
* ONE more edge, when its target has no path back (`insert`);
* two layers, where no edge leaves the lower one (`of_layer`);
* a part of the graph rewired, exactly when the new edges and the DETOURS of the old graph -- the
  paths that leave the part and come back -- have no cycle together (`acyclic_iff_detours`).

Without a cycle, a finite part has a node with no edge within it (`Acyclic.exists_last`); and with
finitely many sources, following edges ends (`Acyclic.follow_ends`).

The last section computes: `reach edges a` is the set a path from `a` can get to, by rounds of
saturation; `loopFree edges` decides `Acyclic`, and `detour` decides `Detour`, of a finite list of
edges.
-/
import Mathlib

namespace Digraph

open Relation List

variable {α β : Type}

/-- **No node has a path to itself.** -/
def Acyclic (E : α → α → Prop) : Prop := ∀ a, ¬TransGen E a a

/-! ## 1. Transport -/

variable {E : α → α → Prop}

/-- Fewer edges make no new cycle. -/
theorem Acyclic.mono {E' : α → α → Prop} (h : Acyclic E) (hsub : ∀ a b, E' a b → E a b) :
    Acyclic E' := fun a hc => h a (hc.lift id hsub)

/-- **Labelled nodes.**  Each edge joins two nodes whose labels have one, and a node has one label
at most. -/
theorem Acyclic.of_label {F : β → β → Prop} (label : α → β → Prop)
    (hlabel : ∀ {a k k'}, label a k → label a k' → k = k') (h : Acyclic F)
    (hE : ∀ a b, E a b → ∃ k k', label a k ∧ label b k' ∧ F k k') : Acyclic E := by
  have hpath : ∀ {a b}, TransGen E a b → ∃ k k', label a k ∧ label b k' ∧ TransGen F k k' := by
    intro a b hp
    induction hp with
    | single he =>
      obtain ⟨k, k', hk, hk', hF⟩ := hE _ _ he
      exact ⟨k, k', hk, hk', .single hF⟩
    | tail _ he ih =>
      obtain ⟨k, m, hk, hm, hF⟩ := ih
      obtain ⟨m', k', hm', hk', hF'⟩ := hE _ _ he
      obtain rfl := hlabel hm hm'
      exact ⟨k, k', hk, hk', hF.tail hF'⟩
  intro a hc
  obtain ⟨k, k', hk, hk', hF⟩ := hpath hc
  obtain rfl := hlabel hk hk'
  exact h k hF

/-! ## 2. One more edge -/

/-- A path that may use one more edge `a → b` does not, or ends with a stretch behind `b`. -/
theorem path_insert {a b x y : α} (h : TransGen (fun u v => E u v ∨ (u = a ∧ v = b)) x y) :
    TransGen E x y ∨ (ReflTransGen E x a ∧ ReflTransGen E b y) ∨
      (ReflTransGen E b a ∧ ReflTransGen E x a) := by
  induction h with
  | single h =>
    rcases h with h | ⟨rfl, rfl⟩
    · exact .inl (.single h)
    · exact .inr (.inl ⟨.refl, .refl⟩)
  | tail _ h ih =>
    rcases h with h | ⟨rfl, rfl⟩
    · rcases ih with ih | ⟨hxa, hby⟩ | hback
      · exact .inl (ih.tail h)
      · exact .inr (.inl ⟨hxa, hby.tail h⟩)
      · exact .inr (.inr hback)
    · rcases ih with ih | ⟨hxa, hby⟩ | hback
      · exact .inr (.inl ⟨ih.to_reflTransGen, .refl⟩)
      · exact .inr (.inr ⟨hby, hxa⟩)
      · exact .inr (.inr hback)

/-- **A new leaf**: a path that may use one more edge `a → b`, where nothing leaves `b`, does not,
or ends there. -/
theorem path_leaf {a b x y : α} (hab : a ≠ b) (hb : ∀ z, ¬E b z)
    (h : TransGen (fun u v => E u v ∨ (u = a ∧ v = b)) x y) :
    TransGen E x y ∨ (ReflTransGen E x a ∧ y = b) := by
  have hend : ∀ z, ReflTransGen E b z → z = b := by
    intro z hz
    rcases ReflTransGen.cases_head hz with rfl | ⟨c, hc, -⟩
    · rfl
    · exact absurd hc (hb c)
  rcases path_insert h with hxy | ⟨hxa, hby⟩ | ⟨hba, -⟩
  · exact .inl hxy
  · exact .inr ⟨hxa, hend y hby⟩
  · exact absurd (hend a hba) hab

/-- **One more edge**, whose target has no path back to its source. -/
theorem Acyclic.insert (h : Acyclic E) {a b : α} (hback : ¬ReflTransGen E b a) :
    Acyclic (fun u v => E u v ∨ (u = a ∧ v = b)) := by
  intro x hc
  rcases path_insert hc with hx | ⟨hxa, hbx⟩ | ⟨hba, _⟩
  · exact h x hx
  · exact hback (hbx.trans hxa)
  · exact hback hba

/-! ## 3. Layers -/

/-- **Two layers.**  No edge leaves `A`; the edges from `A`, and those that stay outside it, are
acyclic. -/
theorem Acyclic.of_layer (A : α → Prop) (hclosed : ∀ a b, E a b → A a → A b)
    (hin : Acyclic fun a b => E a b ∧ A a) (hout : Acyclic fun a b => E a b ∧ ¬A b) :
    Acyclic E := by
  have hstay : ∀ {a b}, TransGen E a b → A a → A b ∧ TransGen (fun a b => E a b ∧ A a) a b := by
    intro a b h ha
    induction h with
    | single h => exact ⟨hclosed _ _ h ha, .single ⟨h, ha⟩⟩
    | tail _ h ih => exact ⟨hclosed _ _ h ih.1, ih.2.tail ⟨h, ih.1⟩⟩
  have hnever : ∀ {a b}, TransGen E a b → ¬A b → TransGen (fun a b => E a b ∧ ¬A b) a b := by
    intro a b h hb
    induction h with
    | single h => exact .single ⟨h, hb⟩
    | tail _ h ih => exact (ih fun hc => hb (hclosed _ _ h hc)).tail ⟨h, hb⟩
  intro a hc
  by_cases ha : A a
  · exact hin a (hstay hc ha).2
  · exact hout a (hnever hc ha)

/-- Edges that all go down an order have no cycle. -/
theorem Acyclic.of_lt [Preorder α] (h : ∀ a b, E a b → b < a) : Acyclic E := by
  have hpath : ∀ {a b}, TransGen E a b → b < a := by
    intro a b hab
    induction hab with
    | single hE => exact h _ _ hE
    | tail _ hE ih => exact (h _ _ hE).trans ih
  exact fun a hc => lt_irrefl a (hpath hc)

/-- **Some node of a finite part has no edge within it.** -/
theorem Acyclic.exists_last (h : Acyclic E) {s : List α} (hs : ∃ a, a ∈ s) :
    ∃ a ∈ s, ∀ b ∈ s, ¬E a b := by
  let after : {x // x ∈ s} → {x // x ∈ s} → Prop := fun b a => TransGen E a b
  have hfinite : Finite {x // x ∈ s} := (finite_toSet s).to_subtype
  have hirrefl : Std.Irrefl after := ⟨fun a hc => h a hc⟩
  obtain ⟨a, ha⟩ := hs
  obtain ⟨⟨last, hlast⟩, _, hmin⟩ :=
    (Finite.wellFounded_of_trans_of_irrefl after).has_min Set.univ ⟨⟨a, ha⟩, trivial⟩
  exact ⟨last, hlast, fun b hb hE => hmin ⟨b, hb⟩ trivial (.single hE)⟩

/-! ## 4. Following edges -/

section Follow

variable {E : α → α → Prop} {next : α → Option α}

/-- `n` steps of a partial successor. -/
def follow (next : α → Option α) : Nat → α → Option α
  | 0, a => some a
  | n + 1, a => (next a).bind (follow next n)

/-- **Following edges ends.**  Each step is an edge of a graph without a cycle, and only `sources`
have a next node; the last node reached has none. -/
theorem Acyclic.follow_ends (h : Acyclic E) (hE : ∀ {a b}, next a = some b → E a b) :
    ∀ (k : Nat) (sources : List α), sources.length ≤ k → ∀ a,
      (∀ {b c}, ReflTransGen E a b → next b = some c → b ∈ sources) →
      ∃ n b, follow next n a = some b ∧ next b = none := by
  classical
  intro k
  induction k with
  | zero =>
    intro sources hlen a hsources
    refine ⟨0, a, rfl, Option.eq_none_iff_forall_ne_some.mpr fun b hb => ?_⟩
    have hmem := hsources .refl hb
    rw [length_eq_zero_iff.mp (Nat.le_zero.mp hlen)] at hmem
    cases hmem
  | succ k ih =>
    intro sources hlen a hsources
    cases hnext : next a with
    | none => exact ⟨0, a, rfl, hnext⟩
    | some b =>
      -- the walk goes on from `b` and never returns to `a`
      have ha : a ∈ sources := hsources .refl hnext
      obtain ⟨n, c, hn, hc⟩ := ih (sources.erase a)
        (by rw [length_erase_of_mem ha]; omega) b (by
          intro x y hx hy
          refine (mem_erase_of_ne ?_).mpr (hsources (.head (hE hnext) hx) hy)
          rintro rfl
          exact h x (.head' (hE hnext) hx))
      exact ⟨n + 1, c, by rw [follow, hnext, Option.bind_some, hn], hc⟩

/-- What every step keeps holds where following leads. -/
theorem follow_inv {P : α → Prop} (hstep : ∀ {a b}, next a = some b → P b) :
    ∀ {n : Nat} {a b : α}, P a → follow next n a = some b → P b
  | 0, _, _, ha, h => Option.some.inj h ▸ ha
  | n + 1, a, b, _, h => by
    obtain ⟨c, hc, h⟩ := Option.bind_eq_some_iff.mp h
    exact follow_inv hstep (hstep hc) h

end Follow

/-! ## 5. Detours -/

/-- **A detour** from `u` to `v`: a path that leaves `P` at once and is back only at its end. -/
def Detour (E : α → α → Prop) (P : α → Prop) (u v : α) : Prop :=
  ∃ w, E u w ∧ ¬P w ∧ TransGen (fun x y => E x y ∧ ¬P x) w v

/-- A path out of `P`, on its way: one edge out, and no node of `P` after that. -/
def Out (E : α → α → Prop) (P : α → Prop) (u y : α) : Prop :=
  ∃ w, E u w ∧ ¬P w ∧ ReflTransGen (fun x y => E x y ∧ ¬P x) w y

/-- A closed walk has a node in `P`, or never has. -/
theorem path_meets_or_avoids (P : α → Prop) {a y : α} (h : TransGen E a y) :
    (∃ b, P b ∧ ReflTransGen E a b ∧ ReflTransGen E b y) ∨
      TransGen (fun u v => E u v ∧ ¬P u ∧ ¬P v) a y := by
  have hend : ∀ {u v}, E u v → (P u ∨ P v) ∨ (E u v ∧ ¬P u ∧ ¬P v) := by
    intro u v hE
    by_cases hu : P u
    · exact .inl (.inl hu)
    · by_cases hv : P v
      · exact .inl (.inr hv)
      · exact .inr ⟨hE, hu, hv⟩
  induction h with
  | single h =>
    rcases hend h with (hu | hv) | hE
    · exact .inl ⟨a, hu, .refl, .single h⟩
    · exact .inl ⟨_, hv, .single h, .refl⟩
    · exact .inr (.single hE)
  | tail hpre h ih =>
    rcases ih with ⟨b, hb, hab, hby⟩ | ih
    · exact .inl ⟨b, hb, hab, hby.tail h⟩
    · rcases hend h with (hu | hv) | hE
      · exact .inl ⟨_, hu, hpre.to_reflTransGen, .single h⟩
      · exact .inl ⟨_, hv, hpre.to_reflTransGen.tail h, .refl⟩
      · exact .inr (ih.tail hE)

section Detours

variable {E E' G : α → α → Prop} {P : α → Prop}

/-- **A path between nodes of `P`** is made of inner edges and detours; one that is outside at the
moment has left by a last node of `P`. -/
theorem path_detours (hin : ∀ u v, E' u v → P u → P v → G u v)
    (hout : ∀ u v, E' u v → ¬(P u ∧ P v) → E u v) {p y : α} (hp : P p) (h : TransGen E' p y) :
    (P y → TransGen (fun u v => G u v ∨ (Detour E P u v ∧ P u ∧ P v)) p y) ∧
      (¬P y → ∃ q, P q ∧ ReflTransGen (fun u v => G u v ∨ (Detour E P u v ∧ P u ∧ P v)) p q ∧
        Out E P q y) := by
  induction h with
  | @single b h =>
    refine ⟨fun hb => .single (.inl (hin p b h hp hb)), fun hb => ?_⟩
    exact ⟨p, hp, .refl, b, hout p b h fun hc => hb hc.2, hb, .refl⟩
  | @tail b c _ h ih =>
    by_cases hb : P b
    · -- at a node of `P`: the next edge is an inner one, or the first of a detour
      refine ⟨fun hc => (ih.1 hb).tail (.inl (hin b c h hb hc)), fun hc => ?_⟩
      exact ⟨b, hb, (ih.1 hb).to_reflTransGen, c, hout b c h fun hbc => hc hbc.2, hc, .refl⟩
    · -- outside: the next edge goes on with the detour, or ends it
      obtain ⟨q, hq, hpq, w, hqw, hw, hwb⟩ := ih.2 hb
      have hE : E b c := hout b c h fun hbc => hb hbc.1
      refine ⟨fun hc => ?_, fun hc => ⟨q, hq, hpq, w, hqw, hw, hwb.tail ⟨hE, hb⟩⟩⟩
      have hdetour : Detour E P q c := ⟨w, hqw, hw, TransGen.tail' hwb ⟨hE, hb⟩⟩
      exact TransGen.tail' hpq (.inr ⟨hdetour, hq, hc⟩)

/-- A detour is a path of every graph that has `E`'s edges outside `P`. -/
theorem Detour.path (hout : ∀ u v, E u v → ¬(P u ∧ P v) → E' u v) {u v : α}
    (h : Detour E P u v) : TransGen E' u v := by
  obtain ⟨w, huw, hw, hwv⟩ := h
  refine TransGen.head (hout u w huw fun hP => hw hP.2) ?_
  exact hwv.lift id fun x y hxy => hout x y hxy.1 fun hP => hxy.2 hP.1

/-- Only the ends of `E`'s edges matter to its detours. -/
theorem Detour.congr {Q : α → Prop} (hPQ : ∀ x y, E x y → (P x ↔ Q x) ∧ (P y ↔ Q y)) {u v : α} :
    Detour E P u v ↔ Detour E Q u v := by
  have hstep : (fun x y => E x y ∧ ¬P x) = fun x y => E x y ∧ ¬Q x := by
    funext x y
    exact propext (and_congr_right fun hxy => not_congr (hPQ x y hxy).1)
  unfold Detour
  rw [hstep]
  exact exists_congr fun w => and_congr_right fun huw =>
    and_congr_left fun _ => not_congr (hPQ u w huw).2

/-- **A part rewired.**  Inside `P` the new graph has the edges `G`, elsewhere the edges of the old
graph `E`, which is acyclic.  The new graph is, exactly when `G` together with `E`'s detours is. -/
theorem acyclic_iff_detours (hE : Acyclic E) (hG : ∀ u v, G u v ↔ E' u v ∧ P u ∧ P v)
    (hout : ∀ u v, ¬(P u ∧ P v) → (E' u v ↔ E u v)) :
    Acyclic E' ↔ Acyclic fun u v => G u v ∨ (Detour E P u v ∧ P u ∧ P v) := by
  constructor
  · intro h a hc
    refine h a (TransGen.lift' id (fun u v huv => ?_) a a hc)
    rcases huv with huv | ⟨huv, _⟩
    · exact .single ((hG u v).mp huv).1
    · exact huv.path fun x y hxy hP => (hout x y hP).mpr hxy
  · intro h a hc
    rcases path_meets_or_avoids P hc with ⟨b, hb, hab, hba⟩ | havoid
    · -- the cycle, read from its node in `P`
      have hbb : TransGen E' b b := by
        rcases hab.cases_head with rfl | ⟨x, hax, hxb⟩
        · exact hc
        · exact TransGen.trans_right hba (TransGen.trans_left (.single hax) hxb)
      refine h b ((path_detours (fun u v huv hu hv => (hG u v).mpr ⟨huv, hu, hv⟩)
        (fun u v huv hP => (hout u v hP).mp huv) hb hbb).1 hb)
    · refine hE a (havoid.lift id fun u v huv => ?_)
      exact (hout u v fun hP => huv.2.1 hP.1).mp huv.1

end Detours

/-! ## 6. Computing with a finite list of edges -/

section Finite

variable [DecidableEq α] (edges : List (α × α)) (a : α)

/-- The edge relation of a list. -/
def Edge (edges : List (α × α)) (u v : α) : Prop := (u, v) ∈ edges

/-- One round of saturation: what `a` or a node already found has an edge to. -/
def round (found : List α) : List α :=
  (found ++ (edges.filter fun e => e.1 = a ∨ e.1 ∈ found).map Prod.snd).dedup

/-- What `k` rounds find. -/
def found : Nat → List α
  | 0 => []
  | k + 1 => round edges a (found k)

/-- **Everything a path from `a` gets to.** -/
def reach : List α := found edges a (edges.length + 1)

theorem mem_round {s : List α} {x : α} :
    x ∈ round edges a s ↔ x ∈ s ∨ ∃ u, (u = a ∨ u ∈ s) ∧ (u, x) ∈ edges := by
  unfold round
  rw [mem_dedup, mem_append, mem_map]
  refine or_congr_right ⟨?_, ?_⟩
  · rintro ⟨⟨u, v⟩, he, rfl⟩
    have hmem := mem_filter.mp he
    exact ⟨u, by simpa using hmem.2, hmem.1⟩
  · rintro ⟨u, hu, he⟩
    exact ⟨(u, x), mem_filter.mpr ⟨he, by simpa using hu⟩, rfl⟩

/-- Rounds find only what a path gets to. -/
theorem path_of_mem_found : ∀ (k : Nat) {x : α}, x ∈ found edges a k → TransGen (Edge edges) a x
  | 0, _, h => by cases h
  | k + 1, x, h => by
    rcases (mem_round edges a).mp h with hx | ⟨u, rfl | hu, he⟩
    · exact path_of_mem_found k hx
    · exact .single he
    · exact (path_of_mem_found k hu).tail he

/-- No edge leads out of what has been found. -/
def Saturated (s : List α) : Prop := ∀ u x, (u = a ∨ u ∈ s) → (u, x) ∈ edges → x ∈ s

variable {edges a}

omit [DecidableEq α] in
theorem Saturated.mem_of_path {s : List α} (h : Saturated edges a s) {x : α}
    (hp : TransGen (Edge edges) a x) : x ∈ s := by
  induction hp with
  | single he => exact h a _ (.inl rfl) he
  | tail _ he ih => exact h _ _ (.inr ih) he

theorem Saturated.round {s : List α} (h : Saturated edges a s) :
    Saturated edges a (round edges a s) := by
  have hback : ∀ x, x ∈ Digraph.round edges a s → x ∈ s := by
    intro x hx
    rcases (mem_round edges a).mp hx with hx | ⟨u, hu, he⟩
    · exact hx
    · exact h u x hu he
  intro u x hu he
  refine (mem_round edges a).mpr (.inl (h u x ?_ he))
  exact hu.imp_right (hback u)

variable (edges a)

theorem found_nodup : ∀ k, (found edges a k).Nodup
  | 0 => nodup_nil
  | _ + 1 => nodup_dedup _

/-- **Each round finds a new node, or nothing is left to find.** -/
theorem saturated_or_length : ∀ k,
    Saturated edges a (found edges a k) ∨ k ≤ (found edges a k).length
  | 0 => .inr (Nat.zero_le _)
  | k + 1 => by
    by_cases hs : Saturated edges a (found edges a k)
    · exact .inl hs.round
    · refine .inr ?_
      have hlen := (saturated_or_length k).resolve_left hs
      unfold Saturated at hs
      push Not at hs
      obtain ⟨u, x, hu, he, hx⟩ := hs
      have hsub : x :: found edges a k ⊆ found edges a (k + 1) := by
        intro y hy
        rcases mem_cons.mp hy with rfl | hy
        · exact (mem_round edges a).mpr (.inr ⟨u, hu, he⟩)
        · exact (mem_round edges a).mpr (.inl hy)
      have hle := (subperm_of_subset (nodup_cons.mpr ⟨hx, found_nodup edges a k⟩) hsub).length_le
      rw [length_cons] at hle
      omega

/-- What is found is the target of an edge, so no more is found than there are edges. -/
theorem length_found_le : ∀ k, (found edges a k).length ≤ edges.length := by
  intro k
  have hsub : found edges a k ⊆ edges.map Prod.snd := by
    intro x hx
    obtain ⟨u, _, he⟩ := (TransGen.tail'_iff).mp (path_of_mem_found edges a k hx)
    exact mem_map.mpr ⟨(u, x), he, rfl⟩
  have hle := (subperm_of_subset (found_nodup edges a k) hsub).length_le
  rwa [length_map] at hle

/-- **`reach` is reachability.** -/
theorem mem_reach {x : α} : x ∈ reach edges a ↔ TransGen (Edge edges) a x := by
  constructor
  · exact path_of_mem_found edges a _
  · intro h
    refine Saturated.mem_of_path ?_ h
    refine (saturated_or_length edges a (edges.length + 1)).resolve_right fun hle => ?_
    have := length_found_le edges a (edges.length + 1)
    omega

/-- No source of an edge reaches itself. -/
def loopFree : Bool := edges.all fun e => !(reach edges e.1).contains e.1

theorem loopFree_iff : loopFree edges = true ↔ Acyclic (Edge edges) := by
  unfold loopFree
  rw [all_eq_true]
  constructor
  · intro h a hc
    obtain ⟨b, he, _⟩ := TransGen.head'_iff.mp hc
    have hno := h (a, b) he
    have hmem := (mem_reach edges a).mpr hc
    simp [hmem] at hno
  · intro h e _
    have hno : e.1 ∉ reach edges e.1 := fun hmem => h e.1 ((mem_reach edges e.1).mp hmem)
    simpa using hno

/-- `Detour`, computed: an edge out, and the end found from there by edges that start outside. -/
def detour (inside : α → Bool) (u v : α) : Bool :=
  edges.any fun e => e.1 = u && !inside e.2 &&
    (reach (edges.filter fun e => !inside e.1) e.2).contains v

theorem detour_iff {inside : α → Bool} {u v : α} :
    detour edges inside u v = true ↔ Detour (Edge edges) (fun x => inside x = true) u v := by
  have hstep : Edge (edges.filter fun e => !inside e.1) =
      fun x y => Edge edges x y ∧ ¬inside x = true := by
    unfold Edge
    simp
  unfold detour Detour
  rw [any_eq_true, ← hstep]
  constructor
  · rintro ⟨⟨x, w⟩, he, h⟩
    simp only [Bool.and_eq_true, decide_eq_true_eq, Bool.not_eq_eq_eq_not, Bool.not_true,
      contains_iff_mem, mem_reach] at h
    obtain ⟨⟨rfl, hw⟩, hpath⟩ := h
    exact ⟨w, he, by simp [hw], hpath⟩
  · rintro ⟨w, he, hw, hpath⟩
    refine ⟨(u, w), he, ?_⟩
    simp only [Bool.and_eq_true, decide_eq_true_eq, Bool.not_eq_eq_eq_not, Bool.not_true,
      contains_iff_mem, mem_reach]
    exact ⟨⟨trivial, by simpa using hw⟩, hpath⟩

end Finite

end Digraph
