/-
# Acting once behind a watermark

Any number of runs handle numbered items of several sources, and each item is to be acted on at
most once.  No lock is held.  What keeps a second run off an item is a WATERMARK per source:

* a run READS the watermark of its source;
* it PASSES only when its item lies above what it read;
* it RAISES the watermark to its item or further;
* then it ACTS.

Alone, a run that comes later reads a watermark that covers the item and does not pass.  Two runs
that read before either raises both pass, so the pattern needs one discipline: nobody reads for an
item while another run of the same item stands BETWEEN its read and its raise.  `Step` is the
disciplined step and `Inv.step` the result; watermarks may only grow, and a read may return
more than the watermark, never less.

The invariant counts a run as a HOLDER of its item from the read that lets it pass to its act: an
item has one holder at most, none once it has been acted on, and every acted item is covered.
-/
import Mathlib

namespace Watermark

open List

/-! ## 1. Runs and their steps -/

/-- Where a run stands. -/
inductive Phase (α : Type)
  | idle
  | seen (mark : Option α)
  | passed
  | marked
  | spent

structure Run (κ α : Type) where
  source : κ
  item : α
  phase : Phase α

structure State (κ α : Type) where
  mark : κ → Option α
  acted : List (κ × α)
  runs : List (Run κ α)

variable {κ α : Type} [LinearOrder α]

/-- The item lies above what was read. -/
def Above (seen : Option α) (item : α) : Prop := ∀ m ∈ seen, m < item

/-- The watermark has reached the item. -/
def Covered (mark : Option α) (item : α) : Prop := ∃ m ∈ mark, item ≤ m

/-- Between the read and the raise. -/
def Phase.Between : Phase α → Prop
  | .seen _ | .passed => True
  | _ => False

/-- From the read that lets the run pass to its act. -/
def Run.Holds (r : Run κ α) : Prop :=
  match r.phase with
  | .seen m => Above m r.item
  | .passed | .marked => True
  | _ => False

/-- **One step of one run**, in the discipline. -/
inductive Step (s : State κ α) : State κ α → Prop
  | stay : Step s s
  | join (r : Run κ α) (hp : r.phase = .idle) : Step s { s with runs := s.runs ++ [r] }
  | read (i : Nat) (r : Run κ α) (m : Option α) (hi : s.runs[i]? = some r)
      (hread : ∀ low ∈ s.mark r.source, ∃ m' ∈ m, low ≤ m')
      (halone : ∀ (j : Nat) (r' : Run κ α), s.runs[j]? = some r' → j ≠ i → r'.source = r.source →
        r'.item = r.item → ¬r'.phase.Between) :
      Step s { s with runs := s.runs.set i { r with phase := .seen m } }
  | pass (i : Nat) (r : Run κ α) (m : Option α) (hi : s.runs[i]? = some r)
      (hp : r.phase = .seen m) (habove : Above m r.item) :
      Step s { s with runs := s.runs.set i { r with phase := .passed } }
  | raise (i : Nat) (r : Run κ α) (mark : κ → Option α) (hi : s.runs[i]? = some r)
      (hp : r.phase = .passed) (hgrow : ∀ k item, Covered (s.mark k) item → Covered (mark k) item)
      (hcov : Covered (mark r.source) r.item) :
      Step s { s with mark := mark, runs := s.runs.set i { r with phase := .marked } }
  | act (i : Nat) (r : Run κ α) (hi : s.runs[i]? = some r) (hp : r.phase = .marked) :
      Step s { s with
        acted := s.acted ++ [(r.source, r.item)]
        runs := s.runs.set i { r with phase := .spent } }
  | stop (i : Nat) (r : Run κ α) (hi : s.runs[i]? = some r) :
      Step s { s with runs := s.runs.set i { r with phase := .spent } }

/-! ## 2. The invariant -/

structure Inv (s : State κ α) : Prop where
  once : s.acted.Nodup
  covered : ∀ p ∈ s.acted, Covered (s.mark p.1) p.2
  marked : ∀ (i : Nat) (r : Run κ α), s.runs[i]? = some r → r.phase = .marked →
    Covered (s.mark r.source) r.item
  fresh : ∀ (i : Nat) (r : Run κ α), s.runs[i]? = some r → r.Holds → (r.source, r.item) ∉ s.acted
  sole : ∀ (i j : Nat) (r r' : Run κ α), s.runs[i]? = some r → s.runs[j]? = some r' → r.Holds →
    r'.Holds → r.source = r'.source → r.item = r'.item → i = j

theorem Inv.start (mark : κ → Option α) : Inv { mark := mark, acted := [], runs := [] } where
  once := nodup_nil
  covered p hp := by cases hp
  marked i r hi := by simp at hi
  fresh i r hi := by simp at hi
  sole i j r r' hi := by simp at hi

theorem get_set {β : Type} {l : List β} {i j : Nat} {a x : β} (h : (l.set i a)[j]? = some x) :
    (j = i ∧ x = a) ∨ (j ≠ i ∧ l[j]? = some x) := by
  rw [getElem?_set] at h
  split at h
  · rename_i hij
    split at h
    · cases h
      exact .inl ⟨hij.symm, rfl⟩
    · cases h
  · rename_i hij
    exact .inr ⟨fun hji => hij hji.symm, h⟩

variable {s : State κ α} {r : Run κ α}

/-- **A run that gives up what it held, or holds on**: the steps that let nobody new in. -/
theorem Inv.keep (h : Inv s) {i : Nat} (hi : s.runs[i]? = some r) {mark : κ → Option α}
    (hgrow : ∀ k item, Covered (s.mark k) item → Covered (mark k) item) {phase : Phase α}
    (hholds : ({ r with phase := phase } : Run κ α).Holds → r.Holds)
    (hmarked : phase = .marked → Covered (mark r.source) r.item) :
    Inv { s with mark := mark, runs := s.runs.set i { r with phase := phase } } := by
  refine ⟨h.once, fun p hp => hgrow _ _ (h.covered p hp), ?_, ?_, ?_⟩
  · intro j r' hj hp
    rcases get_set hj with ⟨-, rfl⟩ | ⟨-, hj⟩
    · exact hmarked hp
    · exact hgrow _ _ (h.marked j r' hj hp)
  · intro j r' hj hr'
    rcases get_set hj with ⟨-, rfl⟩ | ⟨-, hj⟩
    · exact h.fresh i r hi (hholds hr')
    · exact h.fresh j r' hj hr'
  · intro j k r1 r2 hj hk h1 h2 hsource hitem
    rcases get_set hj with ⟨rfl, rfl⟩ | ⟨_, hj'⟩ <;>
      rcases get_set hk with ⟨rfl, rfl⟩ | ⟨_, hk'⟩
    · rfl
    · exact h.sole j k r r2 hi hk' (hholds h1) h2 hsource hitem
    · exact h.sole j k r1 r hj' hi h1 (hholds h2) hsource hitem
    · exact h.sole j k r1 r2 hj' hk' h1 h2 hsource hitem

/-- **A read.**  It lets the run pass only if the watermark does not cover the item; then nobody
has acted on it, nobody has raised for it, and by the discipline nobody stands between. -/
theorem Inv.read (h : Inv s) {i : Nat} {m : Option α} (hi : s.runs[i]? = some r)
    (hread : ∀ low ∈ s.mark r.source, ∃ m' ∈ m, low ≤ m')
    (halone : ∀ (j : Nat) (r' : Run κ α), s.runs[j]? = some r' → j ≠ i → r'.source = r.source →
      r'.item = r.item → ¬r'.phase.Between) :
    Inv { s with runs := s.runs.set i { r with phase := .seen m } } := by
  have huncovered : Above m r.item → ¬Covered (s.mark r.source) r.item := by
    rintro habove ⟨low, hlow, hle⟩
    obtain ⟨m', hm', hle'⟩ := hread low hlow
    exact absurd (lt_of_le_of_lt (le_trans hle hle') (habove m' hm')) (lt_irrefl _)
  have hnobody : Above m r.item → ∀ (j : Nat) (r' : Run κ α), s.runs[j]? = some r' → j ≠ i →
      r'.source = r.source → r'.item = r.item → ¬r'.Holds := by
    intro habove j r' hj hne hsource hitem hholds
    unfold Run.Holds at hholds
    have hbetween := halone j r' hj hne hsource hitem
    cases hp : r'.phase with
    | seen | passed => exact hbetween (by rw [hp]; trivial)
    | marked =>
      have hcov := h.marked j r' hj hp
      rw [hsource, hitem] at hcov
      exact huncovered habove hcov
    | idle | spent => simp [hp] at hholds
  refine ⟨h.once, h.covered, ?_, ?_, ?_⟩
  · intro j r' hj hp
    rcases get_set hj with ⟨-, rfl⟩ | ⟨-, hj⟩
    · cases hp
    · exact h.marked j r' hj hp
  · intro j r' hj hr'
    rcases get_set hj with ⟨-, rfl⟩ | ⟨-, hj⟩
    · intro hacted
      exact huncovered hr' (h.covered _ hacted)
    · exact h.fresh j r' hj hr'
  · intro j k r1 r2 hj hk h1 h2 hsource hitem
    rcases get_set hj with ⟨rfl, rfl⟩ | ⟨hji, hj'⟩ <;>
      rcases get_set hk with ⟨rfl, rfl⟩ | ⟨hki, hk'⟩
    · rfl
    · exact absurd h2 (hnobody h1 k r2 hk' hki hsource.symm hitem.symm)
    · exact absurd h1 (hnobody h2 j r1 hj' hji hsource hitem)
    · exact h.sole j k r1 r2 hj' hk' h1 h2 hsource hitem

/-- **The act.** -/
theorem Inv.act (h : Inv s) {i : Nat} (hi : s.runs[i]? = some r) (hp : r.phase = .marked) :
    Inv { s with
      acted := s.acted ++ [(r.source, r.item)]
      runs := s.runs.set i { r with phase := .spent } } := by
  have hholds : r.Holds := by
    unfold Run.Holds
    rw [hp]
    trivial
  refine ⟨?_, ?_, ?_, ?_, ?_⟩
  · refine nodup_append.mpr ⟨h.once, nodup_singleton _, ?_⟩
    intro p hp' q hq
    rw [mem_singleton.mp hq]
    rintro rfl
    exact h.fresh i r hi hholds hp'
  · intro p hp'
    rcases mem_append.mp hp' with hp' | hp'
    · exact h.covered p hp'
    · rw [mem_singleton.mp hp']
      exact h.marked i r hi hp
  · intro j r' hj hp'
    rcases get_set hj with ⟨-, rfl⟩ | ⟨-, hj⟩
    · cases hp'
    · exact h.marked j r' hj hp'
  · intro j r' hj hr'
    rcases get_set hj with ⟨-, rfl⟩ | ⟨hji, hj⟩
    · exact hr'.elim
    · intro hmem
      rcases mem_append.mp hmem with hmem | hmem
      · exact h.fresh j r' hj hr' hmem
      · -- the acted item is the run's own, and the run held it alone
        have heq := mem_singleton.mp hmem
        exact hji (h.sole j i r' r hj hi hr' hholds (congrArg Prod.fst heq) (congrArg Prod.snd heq))
  · intro j k r1 r2 hj hk h1 h2 hsource hitem
    rcases get_set hj with ⟨rfl, rfl⟩ | ⟨_, hj'⟩ <;>
      rcases get_set hk with ⟨rfl, rfl⟩ | ⟨_, hk'⟩
    · rfl
    · exact h1.elim
    · exact h2.elim
    · exact h.sole j k r1 r2 hj' hk' h1 h2 hsource hitem

/-- A new run holds nothing. -/
theorem Inv.join (h : Inv s) (hp : r.phase = .idle) : Inv { s with runs := s.runs ++ [r] } := by
  have hidle : ¬r.Holds := by
    unfold Run.Holds
    rw [hp]
    exact id
  have hold : ∀ {j : Nat} {r' : Run κ α}, (s.runs ++ [r])[j]? = some r' →
      s.runs[j]? = some r' ∨ r' = r := by
    intro j r' hj
    rcases Nat.lt_or_ge j s.runs.length with hlt | hge
    · rw [getElem?_append_left hlt] at hj
      exact .inl hj
    · rw [getElem?_append_right hge] at hj
      exact .inr (mem_singleton.mp (mem_of_getElem? hj))
  refine ⟨h.once, h.covered, ?_, ?_, ?_⟩
  · intro j r' hj hp'
    rcases hold hj with hj | rfl
    · exact h.marked j r' hj hp'
    · rw [hp] at hp'
      cases hp'
  · intro j r' hj hr'
    rcases hold hj with hj | rfl
    · exact h.fresh j r' hj hr'
    · exact absurd hr' hidle
  · intro j k r1 r2 hj hk h1 h2 hsource hitem
    rcases hold hj with hj | rfl <;> rcases hold hk with hk | rfl
    · exact h.sole j k r1 r2 hj hk h1 h2 hsource hitem
    · exact absurd h2 hidle
    · exact absurd h1 hidle
    · exact absurd h1 hidle

/-- **Every disciplined step keeps the invariant.** -/
theorem Inv.step {s' : State κ α} (h : Inv s) (hs : Step s s') : Inv s' := by
  cases hs with
  | stay => exact h
  | join r hp => exact h.join hp
  | read i r m hi hread halone => exact h.read hi hread halone
  | pass i r m hi hp habove =>
    refine h.keep hi (fun _ _ hc => hc) (fun _ => ?_) (fun hm => by cases hm)
    unfold Run.Holds
    rw [hp]
    exact habove
  | raise i r mark hi hp hgrow hcov =>
    refine h.keep hi hgrow (fun _ => ?_) (fun _ => hcov)
    unfold Run.Holds
    rw [hp]
    trivial
  | act i r hi hp => exact h.act hi hp
  | stop i r hi =>
    exact h.keep hi (fun _ _ hc => hc) (fun hf => hf.elim) (fun hm => by cases hm)

end Watermark
