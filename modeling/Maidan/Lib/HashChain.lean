/-
# Chains of commitments

Each entry of a list carries a commitment to the entry before it: `prev b = digest a` for
neighbours `a`, `b`.  If the digest has no collisions among the entries at hand, an entry fixes the
whole list before it: of two such lists that end in the same entry, one is the end of the other.
-/
import Mathlib

namespace HashChain

open List

variable {α H : Type} {digest prev : α → H}

/-- Each entry commits to the one before it. -/
def Linked (digest prev : α → H) (xs : List α) : Prop := xs.IsChain fun a b => prev b = digest a

/-- The entry before a last one, and what the last one says about it. -/
theorem Linked.concat_iff {xs : List α} {z : α} : Linked digest prev (xs ++ [z]) ↔
      Linked digest prev xs ∧ ∀ a ∈ xs.getLast?, prev z = digest a := by
  unfold Linked
  rw [isChain_append]
  constructor
  · rintro ⟨hxs, -, h⟩
    exact ⟨hxs, fun a ha => h a ha z rfl⟩
  · rintro ⟨hxs, h⟩
    refine ⟨hxs, .singleton z, ?_⟩
    rintro a ha b ⟨⟩
    exact h a ha

/-- **The last entry fixes those before it**, as far back as both lists go. -/
theorem Linked.comparable {xs ys : List α} (hx : Linked digest prev xs)
    (hy : Linked digest prev ys) (hinj : ∀ a ∈ xs, ∀ b ∈ ys, digest a = digest b → a = b)
    (hlast : xs.getLast? = ys.getLast?) : xs <:+ ys ∨ ys <:+ xs := by
  induction xs using List.reverseRecOn generalizing ys with
  | nil => exact .inl (nil_suffix)
  | append_singleton xs z ih =>
    rw [getLast?_concat] at hlast
    obtain ⟨ys, rfl⟩ := getLast?_eq_some_iff.mp hlast.symm
    obtain ⟨hxs, hzx⟩ := Linked.concat_iff.mp hx
    obtain ⟨hys, hzy⟩ := Linked.concat_iff.mp hy
    have hinj' : ∀ a ∈ xs, ∀ b ∈ ys, digest a = digest b → a = b := fun a ha b hb =>
      hinj a (mem_append_left _ ha) b (mem_append_left _ hb)
    cases hlx : xs.getLast? with
    | none =>
      rw [getLast?_eq_none_iff.mp hlx]
      exact .inl ⟨ys, rfl⟩
    | some a =>
      cases hly : ys.getLast? with
      | none =>
        rw [getLast?_eq_none_iff.mp hly]
        exact .inr ⟨xs, rfl⟩
      | some b =>
        have hab : a = b := hinj' a (mem_of_getLast? hlx) b (mem_of_getLast? hly)
          ((hzx a hlx).symm.trans (hzy b hly))
        rcases ih hxs hys hinj' (by rw [hlx, hly, hab]) with h | h
        · exact .inl ((suffix_append_inj_of_length_eq rfl).mpr ⟨h, rfl⟩)
        · exact .inr ((suffix_append_inj_of_length_eq rfl).mpr ⟨h, rfl⟩)

/-- **A list that starts from a genesis no entry commits to is fixed by its last entry.** -/
theorem Linked.eq_of_last {xs ys : List α} {genesis : H} (hx : Linked digest prev xs)
    (hy : Linked digest prev ys) (hinj : ∀ a ∈ xs, ∀ b ∈ ys, digest a = digest b → a = b)
    (hlast : xs.getLast? = ys.getLast?) (hgx : ∀ a ∈ xs.head?, prev a = genesis)
    (hgy : ∀ b ∈ ys.head?, prev b = genesis) (hgenesis : ∀ a ∈ xs ++ ys, digest a ≠ genesis) :
    xs = ys := by
  have key : ∀ {us vs : List α}, Linked digest prev vs → us.getLast? = vs.getLast? →
      (∀ a ∈ us.head?, prev a = genesis) → (∀ a ∈ vs, digest a ≠ genesis) → us <:+ vs →
      us = vs := by
    rintro us vs hv hl hg hne ⟨front, rfl⟩
    cases front using List.reverseRecOn with
    | nil => rfl
    | append_singleton front b =>
      cases us with
      | nil => simp at hl
      | cons a =>
        -- the genesis entry would commit to the entry before it
        rw [append_assoc, singleton_append] at hv
        have hcommit : prev a = digest b := isChain_cons_cons.mp hv.right_of_append |>.1
        exact absurd (hcommit.symm.trans (hg a rfl)) (hne b (by simp))
  rcases hx.comparable hy hinj hlast with h | h
  · exact key hy hlast hgx (fun a ha => hgenesis a (mem_append_right _ ha)) h
  · exact (key hx hlast.symm hgy (fun a ha => hgenesis a (mem_append_left _ ha)) h).symm

end HashChain
