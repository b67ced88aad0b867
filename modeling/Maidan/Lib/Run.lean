/-
# Transactions and runs

A store's operation is a TRANSACTION: it computes `Except ε σ` from the state before it, and an
error rolls everything back.  `settle` is that rule.  A RUN folds the total step `next` over a
list of operations, so that a failed operation is a step that changes nothing and the run goes
on.  Four rules carry the inductions over runs:

* `exec_inv`, `exec_inv_of_mem` -- what each step preserves, the run preserves;
* `exec_inv_of_meets` -- the same, when the step needs a condition on the state it is taken in
  (`Meets`: every step of the run meets the condition where it is taken);
* `exec_reaches` -- what a step that brings a measure down reaches when it is taken often enough;
* `exec_last_flip` -- what holds at the end and did not hold at the start was brought about by some
  last step, and has held since.

`Lockstep` relates two computations that fail together, with one error, or both commit, to related
states.
-/
import Mathlib

namespace Run

/-! ## 1. Transactions -/

section Transactions

variable {ε σ α β : Type}

/-- **Commit or roll back.**  A transaction that fails leaves the state as it was. -/
def settle (s : σ) : Except ε σ → σ
  | .ok s' => s'
  | .error _ => s

theorem bind_eq_ok {x : Except ε α} {f : α → Except ε β} {b : β} :
    (x >>= f) = .ok b ↔ ∃ a, x = .ok a ∧ f a = .ok b := by
  cases x with
  | error =>
    constructor
    · intro h
      cases h
    · rintro ⟨a, ha, _⟩
      cases ha
  | ok a =>
    constructor
    · intro h
      exact ⟨a, rfl, h⟩
    · rintro ⟨a', ha, h⟩
      cases ha
      exact h

/-- A block that goes through went through its first step. -/
theorem bind_ok {x : Except ε α} {f : α → Except ε β} {b : β} (h : (x >>= f) = .ok b) :
    ∃ a, x = .ok a ∧ f a = .ok b := bind_eq_ok.mp h

/-- A block fails as its first step does not, so it fails later. -/
theorem bind_error {x : Except ε α} {f : α → Except ε β} {e : ε}
    (h : (x >>= f) = .error e) (hx : x ≠ .error e) : ∃ a, x = .ok a ∧ f a = .error e := by
  cases x with
  | error => exact (hx (congrArg Except.error (Except.error.inj h))).elim
  | ok a => exact ⟨a, rfl, h⟩

theorem map_eq_ok {x : Except ε α} {f : α → β} {b : β} :
    x.map f = .ok b ↔ ∃ a, x = .ok a ∧ f a = b := by
  cases x with
  | error | ok => simp [Except.map]

theorem mapError_eq_ok {δ : Type} {x : Except ε α} {f : ε → δ} {a : α}
    (h : x.mapError f = .ok a) : x = .ok a := by
  cases x with
  | error => cases h
  | ok => cases h; rfl

theorem toOption_eq_some {x : Except ε α} {a : α} : x.toOption = some a ↔ x = .ok a := by
  cases x with
  | error | ok => simp [Except.toOption]

/-- What evaluation shows to be committed, named. -/
theorem exists_of_isOk {x : Except ε α} (h : x.isOk = true) : ∃ a, x = .ok a := by
  cases x with
  | error => cases h
  | ok a => exact ⟨a, rfl⟩

/-- What every step of a loop preserves, the loop preserves. -/
theorem foldlM_inv {Inv : α → Prop} {step : α → β → Except ε α} (rows : List β)
    (hstep : ∀ s s', ∀ r ∈ rows, Inv s → step s r = .ok s' → Inv s') {s s' : α} (hs : Inv s)
    (h : rows.foldlM step s = .ok s') : Inv s' := by
  induction rows generalizing s with
  | nil =>
    cases h
    exact hs
  | cons r rest ih =>
    obtain ⟨s1, hr, h⟩ := bind_ok h
    refine ih (fun s s' x hx => hstep s s' x (List.mem_cons_of_mem r hx)) ?_ h
    exact hstep s s1 r List.mem_cons_self hs hr

end Transactions

/-! ## 2. Runs -/

section Runs

variable {σ α : Type} (next : σ → α → σ)

/-- The state a run ends in. -/
def exec (s : σ) (ops : List α) : σ := ops.foldl next s

@[simp] theorem exec_nil (s : σ) : exec next s [] = s := rfl

@[simp] theorem exec_cons (s : σ) (a : α) (ops : List α) :
    exec next s (a :: ops) = exec next (next s a) ops := rfl

theorem exec_append (s : σ) (ops ops' : List α) :
    exec next s (ops ++ ops') = exec next (exec next s ops) ops' :=
  List.foldl_append

/-- **Every step of the run meets `ok` in the state it is taken in.** -/
def Meets (ok : σ → α → Prop) : σ → List α → Prop
  | _, [] => True
  | s, a :: ops => ok s a ∧ Meets ok (next s a) ops

instance decidableMeets (ok : σ → α → Prop) [∀ s a, Decidable (ok s a)] :
    ∀ (s : σ) (ops : List α), Decidable (Meets next ok s ops)
  | _, [] => .isTrue trivial
  | s, a :: ops =>
    have := decidableMeets ok (next s a) ops
    inferInstanceAs (Decidable (ok s a ∧ Meets next ok (next s a) ops))

variable {next}

/-- What is left of a run still meets the condition. -/
theorem Meets.drop {ok : σ → α → Prop} : ∀ {s : σ} (pre post : List α),
    Meets next ok s (pre ++ post) → Meets next ok (exec next s pre) post
  | _, [], _, h => h
  | _, _ :: pre, post, h => Meets.drop pre post h.2

/-- **The run rule.**  An invariant of the steps that meet `ok` holds along every run whose
steps all meet it. -/
theorem exec_inv_of_meets {ok : σ → α → Prop} {Inv : σ → Prop}
    (hstep : ∀ s a, Inv s → ok s a → Inv (next s a)) :
    ∀ (ops : List α) (s : σ), Inv s → Meets next ok s ops → Inv (exec next s ops)
  | [], _, hs, _ => hs
  | a :: ops, s, hs, hm => exec_inv_of_meets hstep ops (next s a) (hstep s a hs hm.1) hm.2

/-- What each of the steps taken preserves, the run preserves. -/
theorem exec_inv_of_mem {Inv : σ → Prop} (ops : List α)
    (hstep : ∀ s, ∀ a ∈ ops, Inv s → Inv (next s a)) {s : σ} (hs : Inv s) :
    Inv (exec next s ops) := by
  induction ops generalizing s with
  | nil => exact hs
  | cons a ops ih =>
    exact ih (fun s b hb => hstep s b (List.mem_cons_of_mem a hb)) (hstep s a List.mem_cons_self hs)

theorem exec_inv {Inv : σ → Prop} (hstep : ∀ s a, Inv s → Inv (next s a))
    (ops : List α) {s : σ} (hs : Inv s) : Inv (exec next s ops) :=
  exec_inv_of_mem ops (fun s a _ => hstep s a) hs

/-- **The progress rule.**  Where a step keeps the invariant and brings a measure down as long as
the goal is not reached, taking that step again and again reaches the goal. -/
theorem exec_reaches {Inv Goal : σ → Prop} {a : α} (μ : σ → Nat)
    (hstep : ∀ s, Inv s → ¬Goal s → Inv (next s a) ∧ μ (next s a) < μ s) :
    ∀ s, Inv s → ∃ n, Inv (exec next s (List.replicate n a)) ∧
      Goal (exec next s (List.replicate n a)) := by
  intro s hs
  induction hm : μ s using Nat.strongRecOn generalizing s with
  | _ m ih =>
    by_cases hgoal : Goal s
    · exact ⟨0, hs, hgoal⟩
    · obtain ⟨hnext, hlt⟩ := hstep s hs hgoal
      obtain ⟨n, hn⟩ := ih _ (hm ▸ hlt) _ hnext rfl
      exact ⟨n + 1, hn⟩

section Outputs

variable {β : Type} (next) (out : σ → α → β)

/-- What the steps of a run give out, in order. -/
def outputs : σ → List α → List β
  | _, [] => []
  | s, a :: ops => out s a :: outputs (next s a) ops

theorem outputs_append (s : σ) (ops ops' : List α) : outputs next out s (ops ++ ops') =
      outputs next out s ops ++ outputs next out (exec next s ops) ops' := by
  induction ops generalizing s with
  | nil => rfl
  | cons a ops ih => simp [outputs, ih]

theorem outputs_concat (s : σ) (ops : List α) (a : α) :
    outputs next out s (ops ++ [a]) = outputs next out s ops ++ [out (exec next s ops) a] :=
  outputs_append next out s ops [a]

end Outputs

/-- **The last flip.**  A property that does not hold at the start and holds at the end was brought
about by a step after which it held throughout. -/
theorem exec_last_flip {P : σ → Prop} {s : σ} (ops : List α) (hs : ¬P s)
    (hend : P (exec next s ops)) :
    ∃ pre a post, ops = pre ++ a :: post ∧ ¬P (exec next s pre) ∧
      ∀ mid, mid <+: post → P (exec next s (pre ++ a :: mid)) := by
  induction ops using List.reverseRecOn with
  | nil => exact absurd hend hs
  | append_singleton ops a ih =>
    by_cases hbefore : P (exec next s ops)
    · obtain ⟨pre, b, post, rfl, hpre, hpost⟩ := ih hbefore
      refine ⟨pre, b, post ++ [a], by simp, hpre, fun mid hmid => ?_⟩
      rcases List.prefix_concat_iff.mp hmid with rfl | hmid
      · simpa using hend
      · exact hpost mid hmid
    · refine ⟨ops, a, [], rfl, hbefore, fun mid hmid => ?_⟩
      rw [List.prefix_nil.mp hmid]
      exact hend

end Runs

/-! ## 3. Two computations in lockstep -/

section Lockstep

variable {ε α β γ δ : Type} {R : α → β → Prop} {S : γ → δ → Prop}

/-- **Lockstep**: both fail, with the same error, or both commit, to related results. -/
def Lockstep (R : α → β → Prop) : Except ε α → Except ε β → Prop
  | .ok a, .ok b => R a b
  | .error e, .error e' => e = e'
  | _, _ => False

theorem Lockstep.bind {x : Except ε α} {y : Except ε β} {f : α → Except ε γ} {g : β → Except ε δ}
    (h : Lockstep R x y) (hfg : ∀ a b, x = .ok a → y = .ok b → R a b → Lockstep S (f a) (g b)) :
    Lockstep S (x >>= f) (y >>= g) := by
  cases x with
  | error =>
    cases y with
    | error => exact h
    | ok => exact h.elim
  | ok a =>
    cases y with
    | error => exact h.elim
    | ok b => exact hfg a b rfl rfl h

/-- The same computation first, on both sides. -/
theorem Lockstep.bind_same {x : Except ε α} {f : α → Except ε γ} {g : α → Except ε δ}
    (hfg : ∀ a, x = .ok a → Lockstep S (f a) (g a)) : Lockstep S (x >>= f) (x >>= g) := by
  cases x with
  | error => exact rfl
  | ok a => exact hfg a rfl

theorem Lockstep.mono {R' : α → β → Prop} {x : Except ε α} {y : Except ε β} (h : Lockstep R x y)
    (hRR' : ∀ a b, R a b → R' a b) : Lockstep R' x y := by
  cases x with
  | error =>
    cases y with
    | error => exact h
    | ok => exact h.elim
  | ok a =>
    cases y with
    | error => exact h.elim
    | ok b => exact hRR' a b h

/-- Both commit, or both roll back. -/
theorem Lockstep.settle {x : Except ε α} {y : Except ε β} {a : α} {b : β} (h : Lockstep R x y)
    (hab : R a b) : R (settle a x) (settle b y) := by
  cases x with
  | error =>
    cases y with
    | error => exact hab
    | ok => exact h.elim
  | ok =>
    cases y with
    | error => exact h.elim
    | ok => exact h

end Lockstep

end Run
