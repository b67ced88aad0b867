/-
# Machine integers, and SQL arithmetic over them

Two kinds of code compute with 64-bit integers and must not leave them.

* **Checked code** (`checked_add`, `try_from`) asks at every step.  `i64?` is that question, and a
  checked computation is a chain of it; `checkedSum_eq_some` is the rule for a sum of non-negative
  terms, where only the total matters.
* **SQL** does not ask: an integer expression whose value leaves 64 bits silently becomes a
  floating-point number.  `Expr.eval` is the evaluation that STOPS there.  `eval_eq_some_iff` says
  when it does not: every subexpression's exact value must fit (`Expr.Fits`), and then the result is
  the exact one.  `NULL` propagates, and division by zero is `NULL`.  `Expr.query` also refuses an
  expression that is too deep to be parsed.

`fits_join` brings a chain of additions down to its total, as `checkedSum_eq_some` does.
-/
import Mathlib

namespace Machine

open List

/-! ## 1. Checked integers -/

/-- `n` is a value of `i64`. -/
abbrev InI64 (n : Int) : Prop := -2 ^ 63 ≤ n ∧ n < 2 ^ 63

/-- `i64::try_from`, and what every checked operation on `i64` ends with. -/
def i64? (n : Int) : Option Int64 := if InI64 n then some (Int64.ofInt n) else none

/-- The same for `i128`, which no value of the language is stored in. -/
def i128? (n : Int) : Option Int := if -2 ^ 127 ≤ n ∧ n < 2 ^ 127 then some n else none

theorem inI64_toInt (x : Int64) : InI64 x.toInt := ⟨x.le_toInt, x.toInt_lt⟩

theorem i64?_eq_some {n : Int} {x : Int64} : i64? n = some x ↔ x.toInt = n := by
  unfold i64?
  constructor
  · intro h
    split at h
    · rename_i hn
      cases h
      exact Int64.toInt_ofInt_of_le hn.1 hn.2
    · cases h
  · rintro rfl
    rw [if_pos (inI64_toInt x), Int64.ofInt_toInt]

theorem exists_i64?_iff {n : Int} : (∃ x, i64? n = some x) ↔ InI64 n := by
  constructor
  · rintro ⟨x, hx⟩
    rw [← i64?_eq_some.mp hx]
    exact inI64_toInt x
  · intro hn
    exact ⟨Int64.ofInt n, if_pos hn⟩

theorem i128?_eq_some {n m : Int} : i128? n = some m ↔ n = m ∧ -2 ^ 127 ≤ n ∧ n < 2 ^ 127 := by
  unfold i128?
  split
  · rename_i hn
    simp only [Option.some.injEq, hn, and_true]
  · rename_i hn
    simp only [reduceCtorEq, hn, and_false]

/-- `into_iter().try_fold(0, i64::checked_add)`, from a total so far. -/
def checkedSumFrom (total : Int64) : List Int64 → Option Int64
  | [] => some total
  | x :: xs => do
    let total ← i64? (total.toInt + x.toInt)
    checkedSumFrom total xs

/-- `into_iter().try_fold(0, i64::checked_add)`. -/
def checkedSum (xs : List Int64) : Option Int64 := checkedSumFrom 0 xs

/-- The values of a list of `i64`. -/
def ints (xs : List Int64) : List Int := xs.map Int64.toInt

@[simp] theorem ints_nil : ints [] = [] := rfl

@[simp] theorem ints_cons (x : Int64) (xs : List Int64) : ints (x :: xs) = x.toInt :: ints xs := rfl

theorem sum_ints_nonneg {xs : List Int64} (h : ∀ x ∈ xs, 0 ≤ x.toInt) : 0 ≤ (ints xs).sum := by
  refine sum_nonneg fun n hn => ?_
  obtain ⟨x, hx, rfl⟩ := mem_map.mp hn
  exact h x hx

theorem checkedSumFrom_eq_some {total s : Int64} {xs : List Int64} (hpos : 0 ≤ total.toInt)
    (h : ∀ x ∈ xs, 0 ≤ x.toInt) :
    checkedSumFrom total xs = some s ↔ s.toInt = total.toInt + (ints xs).sum := by
  induction xs generalizing total with
  | nil =>
    simp only [checkedSumFrom, Option.some.injEq, ints_nil, sum_nil, Int.add_zero]
    exact ⟨fun h => h ▸ rfl, fun h => (Int64.toInt_inj.mp h).symm⟩
  | cons x xs ih =>
    have hx : 0 ≤ x.toInt := h x mem_cons_self
    have hxs : ∀ y ∈ xs, 0 ≤ y.toInt := fun y hy => h y (mem_cons_of_mem x hy)
    have hrest := sum_ints_nonneg hxs
    simp only [checkedSumFrom, Option.bind_eq_bind, Option.bind_eq_some_iff, ints_cons, sum_cons]
    constructor
    · rintro ⟨total', htotal, hs⟩
      rw [i64?_eq_some] at htotal
      rw [ih (by omega) hxs] at hs
      omega
    · intro hs
      -- what comes after only adds, so the next total fits because the last one does
      have hfits : InI64 (total.toInt + x.toInt) := by
        have hs' := inI64_toInt s
        constructor
        · omega
        · omega
      obtain ⟨total', htotal⟩ := exists_i64?_iff.mpr hfits
      refine ⟨total', htotal, ?_⟩
      rw [i64?_eq_some] at htotal
      rw [ih (by omega) hxs]
      omega

/-- **A checked sum of non-negative terms** succeeds exactly when its total fits. -/
theorem checkedSum_eq_some {s : Int64} {xs : List Int64} (h : ∀ x ∈ xs, 0 ≤ x.toInt) :
    checkedSum xs = some s ↔ s.toInt = (ints xs).sum := by
  unfold checkedSum
  rw [checkedSumFrom_eq_some (by decide) h]
  simp

/-! ## 2. SQL expressions -/

/-- **An integer expression** over the columns `γ`. -/
inductive Expr (γ : Type)
  | col (c : γ)
  | lit (n : Int)
  | add (a b : Expr γ)
  | mul (a b : Expr γ)
  | div (a b : Expr γ)
  | mod (a b : Expr γ)

namespace Expr

variable {γ : Type}

/-- An operation on two values: `NULL` if either is, else the exact result if it fits. -/
def lift (f : Int → Int → Option Int) : Option Int64 → Option Int64 → Option (Option Int64)
  | some x, some y =>
    match f x.toInt y.toInt with
    | none => some none
    | some n => (i64? n).map some
  | _, _ => some none

/-- Division towards zero; by zero it is `NULL`. -/
def sqlDiv (x y : Int) : Option Int := if y = 0 then none else some (x.tdiv y)

/-- The remainder of `sqlDiv`. -/
def sqlMod (x y : Int) : Option Int := if y = 0 then none else some (x.tmod y)

/-- **Evaluation over a row.**  The outer `none` is the step that leaves the 64-bit integers, the
inner one is `NULL`. -/
def eval (row : γ → Option Int64) : Expr γ → Option (Option Int64)
  | .col c => some (row c)
  | .lit n => (i64? n).map some
  | .add a b => do lift (fun x y => some (x + y)) (← eval row a) (← eval row b)
  | .mul a b => do lift (fun x y => some (x * y)) (← eval row a) (← eval row b)
  | .div a b => do lift sqlDiv (← eval row a) (← eval row b)
  | .mod a b => do lift sqlMod (← eval row a) (← eval row b)

/-- The depth of the tree, a leaf's being 1. -/
def height : Expr γ → Nat
  | .col _ | .lit _ => 1
  | .add a b | .mul a b | .div a b | .mod a b => max a.height b.height + 1

/-- SQLite's `SQLITE_MAX_EXPR_DEPTH`. -/
def maxDepth : Nat := 1000

/-- **What a query over the row answers**: one whose expression is too deep is refused. -/
def query (row : γ → Option Int64) (e : Expr γ) : Option (Option Int64) :=
  if e.height ≤ maxDepth then e.eval row else none

/-- The exact value.  A `NULL` column counts for nothing here; `Fits` rules it out. -/
def exact (row : γ → Option Int64) : Expr γ → Int
  | .col c => ((row c).getD 0).toInt
  | .lit n => n
  | .add a b => exact row a + exact row b
  | .mul a b => exact row a * exact row b
  | .div a b => (exact row a).tdiv (exact row b)
  | .mod a b => (exact row a).tmod (exact row b)

/-- **Every subexpression's exact value fits**, no column is `NULL` and no divisor is zero. -/
def Fits (row : γ → Option Int64) : Expr γ → Prop
  | .col c => (row c).isSome
  | .lit n => InI64 n
  | .add a b => (Fits row a ∧ Fits row b) ∧ InI64 (exact row a + exact row b)
  | .mul a b => (Fits row a ∧ Fits row b) ∧ InI64 (exact row a * exact row b)
  | .div a b => (Fits row a ∧ Fits row b) ∧ exact row b ≠ 0 ∧
      InI64 ((exact row a).tdiv (exact row b))
  | .mod a b => (Fits row a ∧ Fits row b) ∧ exact row b ≠ 0 ∧
      InI64 ((exact row a).tmod (exact row b))

variable {row : γ → Option Int64}

theorem Fits.inI64 : ∀ {e : Expr γ}, e.Fits row → InI64 (e.exact row)
  | .col c, _ => inI64_toInt ((row c).getD 0)
  | .lit _, h => h
  | .add _ _, h => h.2
  | .mul _ _, h => h.2
  | .div _ _, h => h.2.2
  | .mod _ _, h => h.2.2

theorem map_some_eq_some {n : Int} {v : Int64} :
    (i64? n).map some = some (some v) ↔ v.toInt = n := by
  rw [← i64?_eq_some]
  simp

/-- One operation, once its operands are known. -/
theorem bind_lift_eq_some {f : Int → Int → Option Int} {a b : Option (Option Int64)} {v : Int64} :
    (a.bind fun x => b.bind fun y => lift f x y) = some (some v) ↔
      ∃ x y : Int64, a = some (some x) ∧ b = some (some y) ∧ f x.toInt y.toInt = some v.toInt := by
  simp only [Option.bind_eq_some_iff]
  constructor
  · rintro ⟨x, ha, y, hb, h⟩
    cases x with
    | none => cases h
    | some x =>
      cases y with
      | none => cases h
      | some y =>
        refine ⟨x, y, ha, hb, ?_⟩
        unfold lift at h
        dsimp only at h
        split at h
        · cases h
        rename_i n hn
        rw [map_some_eq_some.mp h, hn]
  · rintro ⟨x, y, ha, hb, h⟩
    refine ⟨some x, ha, some y, hb, ?_⟩
    unfold lift
    dsimp only
    rw [h]
    exact map_some_eq_some.mpr rfl

theorem sqlDiv_eq_some {x y n : Int} : sqlDiv x y = some n ↔ y ≠ 0 ∧ x.tdiv y = n := by
  unfold sqlDiv
  split <;> simp_all

theorem sqlMod_eq_some {x y n : Int} : sqlMod x y = some n ↔ y ≠ 0 ∧ x.tmod y = n := by
  unfold sqlMod
  split <;> simp_all

/-- Where both operands are known by their exact values, so is the operation. -/
theorem bind_lift_exact {f : Int → Int → Option Int} {a b : Option (Option Int64)} {p q : Prop}
    {m n : Int} {v : Int64} (ha : ∀ x, a = some (some x) ↔ p ∧ x.toInt = m)
    (hb : ∀ y, b = some (some y) ↔ q ∧ y.toInt = n) (hm : p → InI64 m) (hn : q → InI64 n) :
    (a.bind fun x => b.bind fun y => lift f x y) = some (some v) ↔
      (p ∧ q) ∧ f m n = some v.toInt := by
  rw [bind_lift_eq_some]
  constructor
  · rintro ⟨x, y, hx, hy, h⟩
    obtain ⟨hp, rfl⟩ := (ha x).mp hx
    obtain ⟨hq, rfl⟩ := (hb y).mp hy
    exact ⟨⟨hp, hq⟩, h⟩
  · rintro ⟨⟨hp, hq⟩, h⟩
    obtain ⟨x, hx⟩ := exists_i64?_iff.mpr (hm hp)
    obtain ⟨y, hy⟩ := exists_i64?_iff.mpr (hn hq)
    rw [i64?_eq_some] at hx hy
    exact ⟨x, y, (ha x).mpr ⟨hp, hx⟩, (hb y).mpr ⟨hq, hy⟩, by rw [hx, hy]; exact h⟩

/-- The value of an `i64` fits, so saying so adds nothing. -/
theorem and_toInt_eq_iff {p : Prop} {n : Int} {v : Int64} :
    p ∧ v.toInt = n ↔ (p ∧ InI64 n) ∧ v.toInt = n := by
  constructor
  · rintro ⟨hp, rfl⟩
    exact ⟨⟨hp, inI64_toInt v⟩, rfl⟩
  · exact fun h => ⟨h.1.1, h.2⟩

/-- **Evaluation gives a value** exactly when everything fits, and then it is the exact one. -/
theorem eval_eq_some_iff : ∀ {e : Expr γ} {v : Int64},
    e.eval row = some (some v) ↔ e.Fits row ∧ v.toInt = e.exact row
  | .col c, v => by
    simp only [eval, Option.some.injEq, Fits, exact]
    cases row c with
    | none => simp
    | some => simp [Int64.toInt_inj, eq_comm]
  | .lit n, v => by
    simp only [eval, Fits, exact]
    rw [map_some_eq_some]
    exact ⟨fun h => ⟨h ▸ inI64_toInt v, h⟩, And.right⟩
  | .add a b, v => by
    simp only [eval, Option.bind_eq_bind, Fits, exact]
    rw [bind_lift_exact (fun _ => eval_eq_some_iff) (fun _ => eval_eq_some_iff) Fits.inI64
      Fits.inI64, Option.some.injEq, eq_comm (b := v.toInt)]
    exact and_toInt_eq_iff
  | .mul a b, v => by
    simp only [eval, Option.bind_eq_bind, Fits, exact]
    rw [bind_lift_exact (fun _ => eval_eq_some_iff) (fun _ => eval_eq_some_iff) Fits.inI64
      Fits.inI64, Option.some.injEq, eq_comm (b := v.toInt)]
    exact and_toInt_eq_iff
  | .div a b, v => by
    simp only [eval, Option.bind_eq_bind, Fits, exact]
    rw [bind_lift_exact (fun _ => eval_eq_some_iff) (fun _ => eval_eq_some_iff) Fits.inI64
      Fits.inI64, sqlDiv_eq_some, eq_comm (b := v.toInt), ← and_assoc,
      and_toInt_eq_iff, and_assoc (c := InI64 _)]
  | .mod a b, v => by
    simp only [eval, Option.bind_eq_bind, Fits, exact]
    rw [bind_lift_exact (fun _ => eval_eq_some_iff) (fun _ => eval_eq_some_iff) Fits.inI64
      Fits.inI64, sqlMod_eq_some, eq_comm (b := v.toInt), ← and_assoc,
      and_toInt_eq_iff, and_assoc (c := InI64 _)]

/-! ## 3. `NULL` -/

@[simp] theorem lift_null_left (f : Int → Int → Option Int) (y : Option Int64) :
    lift f none y = some none := by
  cases y <;> rfl

@[simp] theorem lift_null_right (f : Int → Int → Option Int) (x : Option Int64) :
    lift f x none = some none := by
  cases x <;> rfl

/-- What fits has a value. -/
theorem Fits.exists_eval {e : Expr γ} (h : e.Fits row) : ∃ v, e.eval row = some v := by
  obtain ⟨v, hv⟩ := exists_i64?_iff.mpr h.inI64
  rw [i64?_eq_some] at hv
  exact ⟨some v, eval_eq_some_iff.mpr ⟨h, hv⟩⟩

theorem eval_mul_null {a b : Expr γ} (ha : a.Fits row) (hb : b.eval row = some none) :
    (mul a b).eval row = some none := by
  obtain ⟨v, hv⟩ := ha.exists_eval
  simp [eval, hv, hb]

theorem eval_div_null {a b : Expr γ} (ha : a.eval row = some none) (hb : b.Fits row) :
    (div a b).eval row = some none := by
  obtain ⟨v, hv⟩ := hb.exists_eval
  simp [eval, hv, ha]

theorem eval_mod_null {a b : Expr γ} (ha : a.eval row = some none) (hb : b.Fits row) :
    (mod a b).eval row = some none := by
  obtain ⟨v, hv⟩ := hb.exists_eval
  simp [eval, hv, ha]

/-! ## 4. Sums -/

/-- `e₁ + … + eₙ`, as SQL associates it. -/
def join : List (Expr γ) → Expr γ
  | [] => .lit 0
  | e :: es => es.foldl .add e

theorem le_height_foldl_add (es : List (Expr γ)) (e : Expr γ) :
    e.height + es.length ≤ (es.foldl .add e).height := by
  induction es generalizing e with
  | nil => simp
  | cons x es ih =>
    have hstep := ih (.add e x)
    simp only [foldl_cons, length_cons, height] at hstep ⊢
    omega

/-- A sum is as deep as it is long. -/
theorem length_le_height_join (es : List (Expr γ)) : es.length ≤ (join es).height := by
  cases es with
  | nil => simp
  | cons e es =>
    have hle := le_height_foldl_add es e
    have hpos : 0 < e.height := by cases e <;> simp [height]
    simp only [join, length_cons]
    omega

theorem exact_foldl_add (row : γ → Option Int64) (es : List (Expr γ)) (e : Expr γ) :
    (es.foldl .add e).exact row = e.exact row + (es.map (exact row)).sum := by
  induction es generalizing e with
  | nil => simp
  | cons x es ih =>
    rw [foldl_cons, ih]
    simp only [exact, map_cons, sum_cons]
    omega

@[simp] theorem exact_join (row : γ → Option Int64) (es : List (Expr γ)) :
    (join es).exact row = (es.map (exact row)).sum := by
  cases es with
  | nil => rfl
  | cons e es =>
    exact exact_foldl_add row es e

variable {es : List (Expr γ)}

theorem sum_exact_nonneg (h : ∀ e ∈ es, 0 ≤ e.exact row) : 0 ≤ (es.map (exact row)).sum := by
  refine sum_nonneg fun n hn => ?_
  obtain ⟨e, he, rfl⟩ := mem_map.mp hn
  exact h e he

theorem fits_foldl_add {e : Expr γ} (hpos : 0 ≤ e.exact row) (hes : ∀ x ∈ es, 0 ≤ x.exact row) :
    (es.foldl .add e).Fits row ↔
      e.Fits row ∧ (∀ x ∈ es, x.Fits row) ∧ InI64 (e.exact row + (es.map (exact row)).sum) := by
  induction es generalizing e with
  | nil =>
    simp only [foldl_nil, not_mem_nil, false_implies, implies_true, true_and,
      map_nil, sum_nil, Int.add_zero]
    exact ⟨fun h => ⟨h, h.inI64⟩, And.left⟩
  | cons x es ih =>
    have hx : 0 ≤ x.exact row := hes x mem_cons_self
    have hrest : ∀ y ∈ es, 0 ≤ y.exact row := fun y hy => hes y (mem_cons_of_mem x hy)
    have hsum := sum_exact_nonneg hrest
    rw [foldl_cons, ih (by simp only [exact]; omega) hrest]
    simp only [Fits, exact, mem_cons, forall_eq_or_imp, map_cons, sum_cons, ← Int.add_assoc]
    constructor
    · rintro ⟨⟨⟨he, hfx⟩, _⟩, hfs, htotal⟩
      exact ⟨he, ⟨hfx, hfs⟩, htotal⟩
    · rintro ⟨he, ⟨hfx, hfs⟩, htotal⟩
      exact ⟨⟨⟨he, hfx⟩, by omega, by omega⟩, hfs, htotal⟩

/-- **A sum of non-negative terms** fits when its terms and its total do. -/
theorem fits_join (hes : ∀ e ∈ es, 0 ≤ e.exact row) :
    (join es).Fits row ↔ (∀ e ∈ es, e.Fits row) ∧ InI64 (es.map (exact row)).sum := by
  cases es with
  | nil => simp [join, Fits]
  | cons e =>
    rw [map_cons, sum_cons, forall_mem_cons, and_assoc]
    exact fits_foldl_add (hes e mem_cons_self) fun x hx => hes x (mem_cons_of_mem e hx)

/-- A sum of `NULL`s. -/
theorem eval_join_null (hne : es ≠ []) (h : ∀ e ∈ es, e.eval row = some none) :
    (join es).eval row = some none := by
  cases es with
  | nil => exact absurd rfl hne
  | cons e es =>
    have he : e.eval row = some none := h e mem_cons_self
    have hes : ∀ x ∈ es, x.eval row = some none := fun x hx => h x (mem_cons_of_mem e hx)
    clear h hne
    induction es generalizing e with
    | nil => exact he
    | cons x es ih =>
      refine ih (.add e x) ?_ fun y hy => hes y (mem_cons_of_mem x hy)
      simp [eval, he, hes x mem_cons_self]

end Expr

end Machine
