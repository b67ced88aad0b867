/-
# Keyed tables

A relational table with a primary key, as a list of rows whose keys are pairwise distinct.
The invariant travels WITH the value: a `Table key` cannot be built with two rows of one key,
so `get?` is a partial FUNCTION of the key and every statement about "the row of `k`" has one
meaning.

The statements of SQL that a transaction is made of become:

* `SELECT … WHERE pk = k`                 -- `get?`;
* `SELECT … WHERE p`                      -- `rows.filter p`, `EXISTS` -- `rows.any p`;
* `UPDATE … SET f WHERE p`                -- `updateWhere p f`, and `update k f` for one key;
* `DELETE … WHERE p`                      -- `deleteWhere p`;
* `INSERT …`                              -- `insert? r`, which a key already there refuses;
* `INSERT … ON CONFLICT DO NOTHING`       -- `insertIgnore r`;
* `INSERT … ON CONFLICT DO UPDATE SET f`  -- `upsert r f`;
* `SELECT … ORDER BY k LIMIT 1`           -- `firstBy k`, over the rows a `filter` left.

A hash map collected from such rows reads as `lastOf` of its entries.

Every operation comes with the equation that says what `get?` reads afterwards; nothing else
about the operations is used by a proof over a table.
-/
import Mathlib

namespace Relational

open List

-- what is read from a table is an `Option`
export Option (bind_eq_some_iff bind_some isNone_iff_eq_none isSome_iff_exists isSome_of_eq_some
  map_eq_some_iff map_some mem_unique)

/-- **A table with primary key `key`.**  `nodup` is the key's uniqueness. -/
structure Table {κ ρ : Type} (key : ρ → κ) where
  rows : List ρ := []
  nodup : (rows.map key).Nodup := by decide

namespace Table

variable {κ ρ : Type} {key : ρ → κ}

/-- The table without rows. -/
@[reducible] def empty : Table key := ⟨[], nodup_nil⟩

/-! ## 1. Reading -/

variable {t : Table key} {r : ρ}

/-- Two rows of one table with one key are one row. -/
theorem eq_of_key_eq {r' : ρ} (h : r ∈ t.rows) (h' : r' ∈ t.rows) (hk : key r = key r') : r = r' :=
  inj_on_of_nodup_map t.nodup h h' hk

section Reading

variable [DecidableEq κ]

/-- The row of key `k`. -/
def get? (t : Table key) (k : κ) : Option ρ := t.rows.find? fun r => key r = k

theorem mem_of_get? {t : Table key} {k : κ} {r : ρ} (h : t.get? k = some r) : r ∈ t.rows :=
  mem_of_find?_eq_some h

theorem key_of_get? {t : Table key} {k : κ} {r : ρ} (h : t.get? k = some r) : key r = k := by
  simpa using find?_some h

theorem get?_of_mem {t : Table key} {r : ρ} (h : r ∈ t.rows) : t.get? (key r) = some r := by
  cases hg : t.get? (key r) with
  | none =>
    have hne := find?_eq_none.mp hg r h
    simp at hne
  | some => rw [eq_of_key_eq (mem_of_get? hg) h (key_of_get? hg)]

theorem get?_eq_some_iff {t : Table key} {k : κ} {r : ρ} :
    t.get? k = some r ↔ r ∈ t.rows ∧ key r = k := by
  constructor
  · intro h
    exact ⟨mem_of_get? h, key_of_get? h⟩
  · rintro ⟨hm, rfl⟩
    exact get?_of_mem hm

theorem get?_eq_none_iff {t : Table key} {k : κ} : t.get? k = none ↔ ∀ r ∈ t.rows, key r ≠ k := by
  simp [get?]

end Reading

/-! ## 2. Writing -/

/-- `UPDATE … SET f WHERE p`.  `f` may not touch the key. -/
def updateWhere (t : Table key) (p : ρ → Bool) (f : ρ → ρ)
    (hf : ∀ r, key (f r) = key r := by intro _; rfl) : Table key where
  rows := t.rows.map fun r => if p r then f r else r
  nodup := by
    have h : t.rows.map (key ∘ fun r => if p r then f r else r) = t.rows.map key := by
      refine map_congr_left fun r _ => ?_
      cases hp : p r <;> simp [hp, hf]
    rw [map_map, h]
    exact t.nodup

/-- `DELETE … WHERE p`. -/
def deleteWhere (t : Table key) (p : ρ → Bool) : Table key where
  rows := t.rows.filter fun r => !p r
  nodup := t.nodup.sublist (filter_sublist.map key)

theorem map_key_updateWhere (t : Table key) (p : ρ → Bool) (f : ρ → ρ)
    (hf : ∀ r, key (f r) = key r) : (t.updateWhere p f hf).rows.map key = t.rows.map key := by
  unfold updateWhere
  rw [map_map]
  refine map_congr_left fun r _ => ?_
  cases hp : p r <;> simp [hp, hf]

theorem mem_updateWhere {p : ρ → Bool} {f : ρ → ρ} {hf : ∀ r, key (f r) = key r} {x : ρ} :
    x ∈ (t.updateWhere p f hf).rows ↔ ∃ r ∈ t.rows, (if p r then f r else r) = x := by
  simp [updateWhere]

/-- A row that no `UPDATE` writes is there afterwards if it was there and was not selected. -/
theorem mem_updateWhere_of_ne {p : ρ → Bool} {f : ρ → ρ} {hf : ∀ r, key (f r) = key r} {x : ρ}
    (hx : ∀ r, f r ≠ x) : x ∈ (t.updateWhere p f hf).rows ↔ x ∈ t.rows ∧ p x = false := by
  rw [mem_updateWhere]
  constructor
  · rintro ⟨r, hr, hrx⟩
    cases hp : p r with
    | true =>
      rw [hp, if_pos rfl] at hrx
      exact absurd hrx (hx r)
    | false =>
      rw [hp] at hrx
      cases hrx
      exact ⟨hr, hp⟩
  · rintro ⟨hmem, hp⟩
    exact ⟨x, hmem, by rw [hp]; rfl⟩

theorem mem_deleteWhere {p : ρ → Bool} : r ∈ (t.deleteWhere p).rows ↔ r ∈ t.rows ∧ p r = false := by
  simp [deleteWhere]

variable [DecidableEq κ]

/-- `UPDATE … SET f WHERE pk = k`. -/
def update (t : Table key) (k : κ) (f : ρ → ρ)
    (hf : ∀ r, key (f r) = key r := by intro _; rfl) : Table key :=
  t.updateWhere (fun r => key r = k) f hf

/-- `INSERT … ON CONFLICT DO NOTHING`. -/
def insertIgnore (t : Table key) (r : ρ) : Table key :=
  if h : t.get? (key r) = none then
    { rows := t.rows ++ [r]
      nodup := by
        have hne := get?_eq_none_iff.mp h
        rw [map_append, map_singleton, nodup_append]
        refine ⟨t.nodup, nodup_singleton _, ?_⟩
        intro a ha b hb hab
        obtain ⟨r', hr', rfl⟩ := mem_map.mp ha
        exact hne r' hr' (hab.trans (mem_singleton.mp hb)) }
  else t

/-- A plain `INSERT`: refused on a key that is there. -/
def insert? (t : Table key) (r : ρ) : Option (Table key) :=
  if t.get? (key r) = none then some (t.insertIgnore r) else none

/-- `INSERT r … ON CONFLICT DO UPDATE SET f`. -/
def upsert (t : Table key) (r : ρ) (f : ρ → ρ)
    (hf : ∀ r, key (f r) = key r := by intro _; rfl) : Table key :=
  if t.get? (key r) = none then t.insertIgnore r else t.update (key r) f hf

/-! ## 3. What is read after a write -/

theorem get?_updateWhere (t : Table key) (p : ρ → Bool) (f : ρ → ρ)
    (hf : ∀ r, key (f r) = key r) (k : κ) :
    (t.updateWhere p f hf).get? k = (t.get? k).map fun r => if p r then f r else r := by
  have hkey : ∀ r, key (if p r then f r else r) = key r := by
    intro r
    cases hp : p r <;> simp [hf]
  cases hg : t.get? k with
  | none =>
    rw [Option.map_none, get?_eq_none_iff]
    intro x hx
    obtain ⟨r, hr, rfl⟩ := mem_updateWhere.mp hx
    rw [hkey]
    exact get?_eq_none_iff.mp hg r hr
  | some r =>
    rw [map_some, get?_eq_some_iff, hkey]
    exact ⟨mem_updateWhere.mpr ⟨r, mem_of_get? hg, rfl⟩, key_of_get? hg⟩

theorem get?_deleteWhere (t : Table key) (p : ρ → Bool) (k : κ) :
    (t.deleteWhere p).get? k = (t.get? k).filter fun r => !p r := by
  ext r
  simp [get?_eq_some_iff, mem_deleteWhere, Option.filter_eq_some_iff, and_right_comm]

theorem get?_update (t : Table key) (k : κ) (f : ρ → ρ) (hf : ∀ r, key (f r) = key r) (k' : κ) :
    (t.update k f hf).get? k' = if k' = k then (t.get? k').map f else t.get? k' := by
  unfold update
  rw [get?_updateWhere]
  cases hg : t.get? k' with
  | none => simp
  | some =>
    have hk := key_of_get? hg
    by_cases h : k' = k <;> simp [hk, h]

theorem get?_update_ne (t : Table key) {k k' : κ} (f : ρ → ρ) (hf : ∀ r, key (f r) = key r)
    (h : k' ≠ k) : (t.update k f hf).get? k' = t.get? k' := by
  rw [get?_update, if_neg h]

theorem mem_insertIgnore {x : ρ} :
    x ∈ (t.insertIgnore r).rows ↔ x ∈ t.rows ∨ (t.get? (key r) = none ∧ x = r) := by
  unfold insertIgnore
  split
  · rename_i h
    simp [h]
  · rename_i h
    simp [h]

theorem get?_insertIgnore (t : Table key) (r : ρ) (k : κ) :
    (t.insertIgnore r).get? k = (t.get? k).or (if key r = k then some r else none) := by
  cases hg : t.get? k with
  | some =>
    rw [Option.some_or, get?_eq_some_iff]
    exact ⟨mem_insertIgnore.mpr (Or.inl (mem_of_get? hg)), key_of_get? hg⟩
  | none =>
    rw [Option.none_or]
    by_cases hk : key r = k
    · subst hk
      rw [if_pos rfl, get?_eq_some_iff]
      exact ⟨mem_insertIgnore.mpr (Or.inr ⟨hg, rfl⟩), rfl⟩
    · rw [if_neg hk, get?_eq_none_iff]
      intro x hx
      rcases mem_insertIgnore.mp hx with hx | ⟨_, rfl⟩
      · exact get?_eq_none_iff.mp hg x hx
      · exact hk

/-- A plain `INSERT` appends its row. -/
theorem rows_of_insert? {t' : Table key} (h : t.insert? r = some t') : t'.rows = t.rows ++ [r] := by
  unfold insert? at h
  split at h
  · rename_i hn
    cases h
    simp [insertIgnore, hn]
  · cases h

/-- **After a plain `INSERT`** its key, which was free, reads the new row. -/
theorem get?_of_insert? {t' : Table key} (h : t.insert? r = some t') :
    t.get? (key r) = none ∧ ∀ k, t'.get? k = if key r = k then some r else t.get? k := by
  unfold insert? at h
  split at h
  · rename_i hn
    cases h
    refine ⟨hn, fun k => ?_⟩
    rw [get?_insertIgnore]
    by_cases hk : key r = k
    · subst hk
      simp [hn]
    · simp [hk]
  · cases h

theorem get?_upsert (t : Table key) (r : ρ) (f : ρ → ρ) (hf : ∀ r, key (f r) = key r) (k : κ) :
    (t.upsert r f hf).get? k = if key r = k then some ((t.get? k).elim r f) else t.get? k := by
  unfold upsert
  split
  · rename_i hn
    rw [get?_insertIgnore]
    by_cases hk : key r = k
    · subst hk
      simp [hn]
    · simp [hk]
  · rename_i hs
    rw [get?_update]
    by_cases hk : key r = k
    · subst hk
      obtain ⟨x, hx⟩ := Option.ne_none_iff_exists'.mp hs
      simp [hx]
    · simp [hk, Ne.symm hk]

/-- A plain `INSERT` under a free key goes through. -/
theorem insert?_of_free (h : t.get? (key r) = none) :
    t.insert? r = some (t.insertIgnore r) := if_pos h

omit [DecidableEq κ] in
/-- A column that an `UPDATE` does not write. -/
theorem map_updateWhere {β : Type} (col : ρ → β) (t : Table key) (p : ρ → Bool) (f : ρ → ρ)
    (hf : ∀ r, key (f r) = key r) (hcol : ∀ r, col (f r) = col r) :
    (t.updateWhere p f hf).rows.map col = t.rows.map col := by
  unfold updateWhere
  rw [map_map]
  refine map_congr_left fun r _ => ?_
  cases hp : p r <;> simp [hp, hcol]

/-- **A second unique column** stays one, where an upsert brings a value no row has. -/
theorem nodup_map_upsert {β : Type} {col : ρ → β} {f : ρ → ρ} {hf : ∀ x, key (f x) = key x}
    (hcol : (t.rows.map col).Nodup) (hfr : ∀ x, col (f x) = col r)
    (hnew : ∀ x ∈ t.rows, col x ≠ col r) : ((t.upsert r f hf).rows.map col).Nodup := by
  unfold upsert
  split
  · rename_i hn
    simp only [insertIgnore, hn, dite_true, map_append, map_singleton]
    refine nodup_append.mpr ⟨hcol, nodup_singleton _, fun a ha b hb hab => ?_⟩
    obtain ⟨x, hx, rfl⟩ := mem_map.mp ha
    exact hnew x hx (hab.trans (mem_singleton.mp hb))
  · unfold update updateWhere
    rw [map_map]
    refine List.Nodup.map_on (fun x hx y hy hxy => ?_) hcol.of_map
    have hcase : ∀ z, col (if decide (key z = key r) then f z else z) =
        if key z = key r then col r else col z := by
      intro z
      by_cases hz : key z = key r <;> simp [hz, hfr]
    simp only [Function.comp_apply, hcase] at hxy
    by_cases hkx : key x = key r
    · by_cases hky : key y = key r
      · exact eq_of_key_eq hx hy (hkx.trans hky.symm)
      · rw [if_pos hkx, if_neg hky] at hxy
        exact absurd hxy.symm (hnew y hy)
    · by_cases hky : key y = key r
      · rw [if_neg hkx, if_pos hky] at hxy
        exact absurd hxy (hnew x hx)
      · rw [if_neg hkx, if_neg hky] at hxy
        exact inj_on_of_nodup_map hcol hx hy hxy

/-- **A numbered supply of keys** always has a free one left. -/
theorem exists_free (t : Table key) (mk : Nat → κ) (val : κ → Nat) (hval : ∀ n, val (mk n) = n) :
    ∃ n, t.get? (mk n) = none := by
  have habove : ∀ l : List ρ, ∃ n, ∀ r ∈ l, val (key r) < n := by
    intro l
    induction l with
    | nil => exact ⟨0, by simp⟩
    | cons r l ih =>
      obtain ⟨n, hn⟩ := ih
      refine ⟨max n (val (key r) + 1), fun x hx => ?_⟩
      rcases mem_cons.mp hx with rfl | hx
      · omega
      · have := hn x hx
        omega
  obtain ⟨n, hn⟩ := habove t.rows
  refine ⟨n, get?_eq_none_iff.mpr fun r hr heq => ?_⟩
  have hlt := hn r hr
  rw [heq, hval] at hlt
  exact Nat.lt_irrefl n hlt

end Table

/-! ## 4. `ORDER BY … LIMIT 1` -/

section FirstBy

variable {ρ κ : Type} [LT κ] [DecidableRel (fun a b : κ => a < b)]

/-- The better of a best row so far and the next one; an earlier row wins a tie. -/
def better (k : ρ → κ) : Option ρ → ρ → ρ
  | none, x => x
  | some b, x => if k x < k b then x else b

/-- The row `ORDER BY k LIMIT 1` returns. -/
def firstBy (k : ρ → κ) (l : List ρ) : Option ρ := l.foldl (fun b x => some (better k b x)) none

theorem better_mem (k : ρ → κ) (b : Option ρ) (x : ρ) :
    better k b x = x ∨ b = some (better k b x) := by
  cases b with
  | none => exact Or.inl rfl
  | some =>
    simp only [better]
    split
    · exact Or.inl rfl
    · exact Or.inr rfl

theorem foldl_better_mem (k : ρ → κ) : ∀ (l : List ρ) (b : Option ρ) {r : ρ},
    l.foldl (fun b x => some (better k b x)) b = some r → r ∈ l ∨ b = some r
  | [], _, _, h => Or.inr h
  | x :: t, b, r, h => by
    rcases foldl_better_mem k t _ h with hm | hb
    · exact Or.inl (mem_cons_of_mem x hm)
    · have hr : better k b x = r := Option.some.inj hb
      rcases better_mem k b x with hx | hb'
      · refine Or.inl ?_
        rw [← hr, hx]
        exact mem_cons_self
      · exact Or.inr (hr ▸ hb')

variable {k : ρ → κ} {l : List ρ}

theorem mem_of_firstBy {r : ρ} (h : firstBy k l = some r) : r ∈ l := by
  rcases foldl_better_mem k l none h with hm | hn
  · exact hm
  · cases hn

theorem foldl_better_isSome (k : ρ → κ) : ∀ (l : List ρ) (b : ρ),
    (l.foldl (fun b x => some (better k b x)) (some b)).isSome
  | [], _ => rfl
  | x :: t, b => foldl_better_isSome k t (better k (some b) x)

/-- **A row comes back exactly when there is one.** -/
theorem firstBy_isSome_iff : (firstBy k l).isSome ↔ ∃ r, r ∈ l := by
  cases l with
  | nil => simp [firstBy]
  | cons x t =>
    constructor
    · intro _
      exact ⟨x, mem_cons_self⟩
    · intro _
      exact foldl_better_isSome k t x

theorem firstBy_eq_none_iff : firstBy k l = none ↔ l = [] := by
  rw [← Option.not_isSome_iff_eq_none, firstBy_isSome_iff, eq_nil_iff_forall_not_mem, not_exists]

theorem foldl_better_least [IsTrans κ (· < ·)] [Std.Irrefl (α := κ) (· < ·)] (l : List ρ)
    {b : Option ρ} {r : ρ} {s : List ρ} (hb : ∀ y ∈ s, ∃ b', b = some b' ∧ ¬k y < k b')
    (h : l.foldl (fun b x => some (better k b x)) b = some r) :
    (∀ y ∈ s, ¬k y < k r) ∧ ∀ y ∈ l, ¬k y < k r := by
  induction l generalizing b s with
  | nil =>
    refine ⟨fun y hy => ?_, by simp⟩
    obtain ⟨b', rfl, hle⟩ := hb y hy
    cases h
    exact hle
  | cons x t ih =>
    have hx : ∀ y ∈ x :: s, ∃ b', some (better k b x) = some b' ∧ ¬k y < k b' := by
      intro y hy
      refine ⟨_, rfl, ?_⟩
      rcases mem_cons.mp hy with rfl | hy
      · cases b with
        | none => exact Std.Irrefl.irrefl (k y)
        | some =>
          simp only [better]
          split
          · exact Std.Irrefl.irrefl (k y)
          · assumption
      · obtain ⟨b', rfl, hle⟩ := hb y hy
        simp only [better]
        split
        · rename_i hlt
          exact fun hyx => hle (IsTrans.trans (r := (· < ·)) _ _ _ hyx hlt)
        · exact hle
    obtain ⟨hseen, ht⟩ := ih hx h
    refine ⟨fun y hy => hseen y (mem_cons_of_mem x hy), fun y hy => ?_⟩
    rcases mem_cons.mp hy with rfl | hy
    · exact hseen y mem_cons_self
    · exact ht y hy

/-- **No row comes before the one that comes back.** -/
theorem firstBy_least [IsTrans κ (· < ·)] [Std.Irrefl (α := κ) (· < ·)] {r : ρ}
    (h : firstBy k l = some r) : ∀ y ∈ l, ¬k y < k r :=
  (foldl_better_least (s := []) l (by simp) h).2

end FirstBy

/-! ## 5. Maps collected from a list -/

section LastOf

variable {κ ν : Type} [DecidableEq κ]

/-- The value of `k` in the map collected from a list of entries: a later entry wins. -/
def lastOf (entries : List (κ × ν)) (k : κ) : Option ν :=
  (entries.reverse.find? fun e => e.1 = k).map Prod.snd

theorem mem_of_lastOf {entries : List (κ × ν)} {k : κ} {v : ν} (h : lastOf entries k = some v) :
    (k, v) ∈ entries := by
  obtain ⟨⟨k', v'⟩, he, rfl⟩ := map_eq_some_iff.mp h
  obtain rfl : k' = k := by simpa using find?_some he
  exact mem_reverse.mp (mem_of_find?_eq_some he)

/-- **With distinct keys** every entry is the value of its key. -/
theorem lastOf_eq_some_iff {entries : List (κ × ν)} (hnd : (entries.map Prod.fst).Nodup) {k : κ}
    {v : ν} : lastOf entries k = some v ↔ (k, v) ∈ entries := by
  refine ⟨mem_of_lastOf, fun hmem => ?_⟩
  cases hlast : lastOf entries k with
  | none =>
    have hno := find?_eq_none.mp (Option.map_eq_none_iff.mp hlast) (k, v) (mem_reverse.mpr hmem)
    simp at hno
  | some v' =>
    have heq : (k, v') = (k, v) := inj_on_of_nodup_map hnd (mem_of_lastOf hlast) hmem rfl
    rw [(Prod.mk.inj heq).2]

end LastOf

/-- What a `filterMap` keeps, keyed as its source is keyed, is a sublist of the source's keys. -/
theorem map_filterMap_sublist {α β κ : Type} (l : List α) (source : α → κ) (target : β → κ)
    {f : α → Option β} (hkey : ∀ a b, f a = some b → target b = source a) :
    ((l.filterMap f).map target).Sublist (l.map source) := by
  induction l with
  | nil => exact List.Sublist.refl _
  | cons a l ih =>
    rw [filterMap_cons]
    cases hf : f a with
    | none => exact ih.cons _
    | some b =>
      rw [map_cons, map_cons, hkey a b hf]
      exact ih.cons_cons _

end Relational
