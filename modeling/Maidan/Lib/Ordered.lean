/-
# Rows in the order of their keys

A table whose rows come in strictly increasing order of a key, as a log does.  Two things are done
to such a table that a list of rows does not show at once:

* it is READ IN PAGES -- the rows after a cursor, at most so many, and then the cursor moves to the
  last of them.  `foldPages_eq` says that folding page by page is folding the whole rest;
* rows are DELETED from it.  What a chain says of neighbours survives a deletion that leaves no
  hole, because what is left is then a contiguous piece (`kept_contiguous`).

A pass that changes the rows it reads is `forPages`, with one rule, `forPages_inv`.
-/
import Mathlib

namespace Ordered

open List

section

variable {α : Type} (key : α → Int)

/-- The rows come in increasing order of their keys. -/
def Increasing (rows : List α) : Prop := rows.Pairwise fun a b => key a < key b

/-- The rows after a cursor. -/
def after (cursor : Int) (rows : List α) : List α := rows.filter fun r => decide (cursor < key r)

variable {key}

theorem Increasing.filter {rows : List α} (h : Increasing key rows) (p : α → Bool) :
    Increasing key (rows.filter p) :=
  List.Pairwise.sublist filter_sublist h

/-- The key names the row. -/
theorem Increasing.eq_of_key {rows : List α} (h : Increasing key rows) {a b : α} (ha : a ∈ rows)
    (hb : b ∈ rows) (hkey : key a = key b) : a = b := by
  have hnodup : (rows.map key).Nodup :=
    pairwise_map.mpr (h.imp fun hlt => Int.ne_of_lt hlt)
  exact inj_on_of_nodup_map hnodup ha hb hkey

/-- **A page has no holes**: it holds every row up to one it holds. -/
theorem Increasing.mem_take_of_le {rows : List α} (h : Increasing key rows) {n : Nat} {a b : α}
    (ha : a ∈ rows) (hb : b ∈ rows.take n) (hle : key a ≤ key b) : a ∈ rows.take n := by
  rw [← take_append_drop n rows] at h ha
  rcases mem_append.mp ha with ha | ha
  · exact ha
  · exact absurd hle (Int.not_le.mpr ((pairwise_append.mp h).2.2 b hb a ha))

/-- The cursor skips nothing that lies beyond every key it passes. -/
theorem after_eq_self {cursor : Int} {rows : List α} (h : ∀ r ∈ rows, cursor < key r) :
    after key cursor rows = rows :=
  filter_eq_self.mpr fun r hr => decide_eq_true (h r hr)

theorem after_eq_nil {cursor : Int} {rows : List α} (h : ∀ r ∈ rows, key r ≤ cursor) :
    after key cursor rows = [] :=
  filter_eq_nil_iff.mpr fun r hr hlt =>
    absurd (of_decide_eq_true hlt) (Int.not_lt.mpr (h r hr))

/-- A cursor further on reads a part of what an earlier one reads. -/
theorem after_after {c c' : Int} (h : c ≤ c') (rows : List α) :
    after key c' (after key c rows) = after key c' rows := by
  unfold after
  rw [filter_filter]
  refine filter_congr fun r _ => ?_
  simp only [Bool.and_eq_left_iff_imp, decide_eq_true_eq]
  omega

/-- **The rows after the last of the first ones are the remaining ones.** -/
theorem after_append {front rest : List α} {last : α} (h : Increasing key (front ++ last :: rest)) :
    after key (key last) (front ++ last :: rest) = rest := by
  obtain ⟨_, hlast, hfront⟩ := pairwise_append.mp h
  have hbefore : after key (key last) front = [] :=
    after_eq_nil fun r hr => Int.le_of_lt (hfront r hr last mem_cons_self)
  have hbeyond : after key (key last) rest = rest :=
    after_eq_self fun r hr => rel_of_pairwise_cons hlast hr
  unfold after at hbefore hbeyond ⊢
  rw [filter_append, hbefore, filter_cons_of_neg (by simp), hbeyond]
  rfl

/-- A cursor cuts the table in two. -/
theorem Increasing.split_after : ∀ {rows : List α}, Increasing key rows → ∀ cursor : Int,
    ∃ low, rows = low ++ after key cursor rows ∧ ∀ r ∈ low, key r ≤ cursor
  | [], _, _ => ⟨[], rfl, by simp⟩
  | r :: rows, h, cursor => by
    obtain ⟨hr, hrows⟩ := pairwise_cons.mp h
    by_cases hlt : cursor < key r
    · have hall : after key cursor (r :: rows) = r :: rows := by
        refine after_eq_self (forall_mem_cons.mpr ⟨hlt, fun x hx => ?_⟩)
        exact Int.lt_trans hlt (hr x hx)
      exact ⟨[], hall.symm, by simp⟩
    · obtain ⟨low, hsplit, hlow⟩ := Increasing.split_after hrows cursor
      have hskip : after key cursor (r :: rows) = after key cursor rows :=
        filter_cons_of_neg (by simpa using hlt)
      refine ⟨r :: low, ?_, forall_mem_cons.mpr ⟨Int.not_lt.mp hlt, hlow⟩⟩
      rw [hskip, cons_append, ← hsplit]

/-- **The first row after a cursor**: it lies beyond the cursor, nothing lies between the two, and
what comes after it is what the cursor read after it. -/
theorem Increasing.first_after {rows tail : List α} (h : Increasing key rows) {cursor : Int} {a : α}
    (hafter : after key cursor rows = a :: tail) :
    a ∈ rows ∧ cursor < key a ∧ (∀ r ∈ rows, key r ≤ key a → key r ≤ cursor ∨ r = a) ∧
      after key (key a) rows = tail := by
  obtain ⟨low, hsplit, hlow⟩ := h.split_after cursor
  rw [hafter] at hsplit
  have hmem : a ∈ after key cursor rows := by simp [hafter]
  obtain ⟨hin, hlt⟩ := mem_filter.mp hmem
  refine ⟨hin, of_decide_eq_true hlt, fun r hr hle => ?_, ?_⟩
  · rw [hsplit] at h hr
    rcases mem_append.mp hr with hr | hr
    · exact .inl (hlow r hr)
    · rcases mem_cons.mp hr with rfl | hr
      · exact .inr rfl
      · have hbeyond := rel_of_pairwise_cons (pairwise_append.mp h).2.1 hr
        exact absurd hle (Int.not_le.mpr hbeyond)
  · rw [hsplit] at h ⊢
    exact after_append h

/-! ## 1. Pages -/

variable {σ ε : Type}

variable (key) in
/-- **Folding a table page by page**: the rows after the cursor, at most `limit`, are folded, the
cursor moves to the last of them, and a page without rows ends it. -/
def foldPages (rows : List α) (limit : Nat) (f : σ → α → Except ε σ) : Nat → Int → σ → Except ε σ
  | 0, _, s => .ok s
  | fuel + 1, cursor, s =>
    let page := (after key cursor rows).take limit
    match page.getLast? with
    | none => .ok s
    | some last => do
      let s ← page.foldlM f s
      foldPages rows limit f fuel (key last) s

/-- **Page by page is all at once**, with a page for every row at the worst. -/
theorem foldPages_eq {rows : List α} (hrows : Increasing key rows) {limit : Nat} (hlimit : 0 < limit)
    (f : σ → α → Except ε σ) :
    ∀ (fuel : Nat) (cursor : Int) (s : σ), (after key cursor rows).length ≤ fuel →
      foldPages key rows limit f fuel cursor s = (after key cursor rows).foldlM f s
  | 0, cursor, s, hfuel => by
    have hnil : after key cursor rows = [] := eq_nil_of_length_eq_zero (Nat.le_zero.mp hfuel)
    rw [hnil]
    rfl
  | fuel + 1, cursor, s, hfuel => by
    have hinc : Increasing key (after key cursor rows) := hrows.filter _
    unfold foldPages
    cases hlast : ((after key cursor rows).take limit).getLast? with
    | none =>
      have hnil : (after key cursor rows).take limit = [] := getLast?_eq_none_iff.mp hlast
      have hempty : after key cursor rows = [] := by
        rcases take_eq_nil_iff.mp hnil with h | h
        · omega
        · exact h
      simp only [hempty, take_nil, getLast?_nil]
      rfl
    | some last =>
      obtain ⟨front, hfront⟩ := getLast?_eq_some_iff.mp hlast
      have hsplit : after key cursor rows = front ++ last :: (after key cursor rows).drop limit := by
        conv_lhs => rw [← take_append_drop limit (after key cursor rows), hfront]
        simp
      have hle : cursor ≤ key last := by
        have hmem : last ∈ after key cursor rows := by
          rw [hsplit]
          simp
        exact Int.le_of_lt (of_decide_eq_true (mem_filter.mp hmem).2)
      have hnext : after key (key last) rows = (after key cursor rows).drop limit := by
        rw [← after_after hle rows]
        conv_lhs => rw [hsplit]
        exact after_append (hsplit ▸ hinc)
      have hshorter : (after key (key last) rows).length ≤ fuel := by
        rw [hnext]
        rw [hsplit, length_append, length_cons] at hfuel
        omega
      simp only [hlast]
      conv_rhs => rw [← take_append_drop limit (after key cursor rows), foldlM_append]
      rw [← hnext]
      exact congrArg _ (funext fun s' => foldPages_eq hrows hlimit f fuel (key last) s' hshorter)

/-! ## 2. Deletions that leave no hole -/

/-- What comes before a kept row is kept. -/
theorem kept_initial {p : α → Bool} : ∀ {rows : List α},
    (∀ a b, [a, b].Sublist rows → p b = true → p a = true) → rows.filter p <+: rows
  | [], _ => prefix_rfl
  | x :: rows, h => by
    cases hx : p x with
    | true =>
      rw [filter_cons_of_pos hx, prefix_cons_inj]
      exact kept_initial fun a b hab => h a b (hab.trans (sublist_cons_self x rows))
    | false =>
      have hnone : rows.filter p = [] := by
        refine filter_eq_nil_iff.mpr fun b hb hpb => ?_
        have hxb := h x b ((singleton_sublist.mpr hb).cons_cons x) hpb
        rw [hx] at hxb
        cases hxb
      rw [filter_cons_of_neg (by simp [hx]), hnone]
      exact nil_prefix

/-- **Without a hole, what is kept is a contiguous piece**: a row between two kept ones is kept. -/
theorem kept_contiguous {p : α → Bool} : ∀ {rows : List α},
    (∀ a b c, [a, b, c].Sublist rows → p a = true → p c = true → p b = true) →
      rows.filter p <:+: rows
  | [], _ => infix_rfl
  | x :: rows, h => by
    cases hx : p x with
    | true =>
      rw [filter_cons_of_pos hx]
      refine List.IsPrefix.isInfix (prefix_cons_inj x |>.mpr (kept_initial ?_))
      intro a b hab hpb
      exact h x a b (hab.cons_cons x) hx hpb
    | false =>
      rw [filter_cons_of_neg (by simp [hx])]
      exact (kept_contiguous fun a b c habc => h a b c (habc.trans (sublist_cons_self x rows))).trans
        (suffix_cons x rows).isInfix

/-- A last row that is kept stays the last. -/
theorem getLast?_kept {p : α → Bool} {rows : List α} (h : ∀ x ∈ rows.getLast?, p x = true) :
    (rows.filter p).getLast? = rows.getLast? := by
  cases hlast : rows.getLast? with
  | none => simp [getLast?_eq_none_iff.mp hlast]
  | some x =>
    obtain ⟨front, rfl⟩ := getLast?_eq_some_iff.mp hlast
    rw [filter_append, filter_cons_of_pos (h x hlast)]
    simp

end

/-! ## 3. Passes over a table that changes under them -/

section Paged

variable {σ ρ ι : Type}

/-- **A pass over a table in pages.**  The rows after the cursor are read, each is dealt with as it
was read, and the cursor moves to the last of them; a page that is not full ends the pass. -/
def forPages (page : σ → Nat → List ρ) (key : ρ → Nat) (limit : Int) (each : σ → ρ → σ) :
    Nat → Nat → σ → σ
  | 0, _, s => s
  | fuel + 1, cursor, s =>
    let rows := page s cursor
    match rows.getLast? with
    | none => s
    | some last =>
      let s := rows.foldl each s
      if (rows.length : Int) < limit then s else forPages page key limit each fuel (key last) s

/-- Rows of different identity are dealt with independently: what was read of a row still holds
when its turn comes. -/
theorem foldl_inv_of_same {Inv : σ → Prop} {Same : σ → ρ → Prop} (ident : ρ → ι) {each : σ → ρ → σ}
    (hstep : ∀ s r, Inv s → Same s r → Inv (each s r))
    (hsame : ∀ s r r', Inv s → Same s r → ident r' ≠ ident r → Same s r' → Same (each s r) r') :
    ∀ (rows : List ρ) (s : σ), (rows.map ident).Nodup → Inv s → (∀ r ∈ rows, Same s r) →
      Inv (rows.foldl each s)
  | [], _, _, hs, _ => hs
  | r :: rows, s, hnodup, hs, hread => by
    obtain ⟨hr, hrows⟩ := forall_mem_cons.mp hread
    obtain ⟨hnew, hnodup⟩ := nodup_cons.mp hnodup
    refine foldl_inv_of_same ident hstep hsame rows (each s r) hnodup (hstep s r hs hr) ?_
    intro r' hr'
    refine hsame s r r' hs hr (fun heq => hnew ?_) (hrows r' hr')
    rw [← heq]
    exact mem_map_of_mem hr'

/-- **The rule of a pass**: an invariant that each row keeps, as it was read, holds after it. -/
theorem forPages_inv {Inv : σ → Prop} {Same : σ → ρ → Prop} (ident : ρ → ι)
    {page : σ → Nat → List ρ} {key : ρ → Nat} {limit : Int} {each : σ → ρ → σ}
    (hread : ∀ s cursor, Inv s → ((page s cursor).map ident).Nodup ∧ ∀ r ∈ page s cursor, Same s r)
    (hstep : ∀ s r, Inv s → Same s r → Inv (each s r))
    (hsame : ∀ s r r', Inv s → Same s r → ident r' ≠ ident r → Same s r' → Same (each s r) r') :
    ∀ (fuel cursor : Nat) (s : σ), Inv s → Inv (forPages page key limit each fuel cursor s)
  | 0, _, _, hs => hs
  | fuel + 1, cursor, s, hs => by
    obtain ⟨hnodup, hsame'⟩ := hread s cursor hs
    have hpage := foldl_inv_of_same ident hstep hsame (page s cursor) s hnodup hs hsame'
    simp only [forPages]
    split
    · exact hs
    · split
      · exact hpage
      · exact forPages_inv ident hread hstep hsame fuel _ _ hpage

/-- **Enough pages.**  Where a page that is not empty leaves less beyond its last row, a pass with
fuel for what lies beyond the cursor ends on its own: more fuel changes nothing. -/
theorem forPages_fuel {page : σ → Nat → List ρ} {key : ρ → Nat} {limit : Int} {each : σ → ρ → σ}
    {m : σ → Nat → Nat}
    (hless : ∀ s cursor last, (page s cursor).getLast? = some last →
      m ((page s cursor).foldl each s) (key last) < m s cursor) (more : Nat) :
    ∀ (fuel cursor : Nat) (s : σ), m s cursor < fuel →
      forPages page key limit each (fuel + more) cursor s =
        forPages page key limit each fuel cursor s := by
  intro fuel
  induction fuel with
  | zero =>
    omega
  | succ fuel ih =>
    intro cursor s hfuel
    rw [Nat.succ_add]
    simp only [forPages]
    cases hlast : (page s cursor).getLast? with
    | none => rfl
    | some last =>
      have hbeyond := hless s cursor last hlast
      simp only
      split
      · rfl
      · exact ih _ _ (by omega)

end Paged

end Ordered
