/-
# Text as a list of characters

The functions of a string library that a checker of user text is made of, over `List Char`:
trimming, folding, cutting at a character, the classes of characters it refuses, the length in
bytes.
-/
import Mathlib

namespace Text

open List

/-! ## 1. Classes of characters -/

/-- The characters with the property `White_Space`. -/
def isWhitespace (c : Char) : Bool :=
  let n := c.toNat
  (decide (9 ≤ n) && decide (n ≤ 13)) || n == 0x20 || n == 0x85 || n == 0xA0 || n == 0x1680 ||
    (decide (0x2000 ≤ n) && decide (n ≤ 0x200A)) || n == 0x2028 || n == 0x2029 || n == 0x202F ||
    n == 0x205F || n == 0x3000

/-- The characters of the category `Cc`. -/
def isControl (c : Char) : Bool :=
  let n := c.toNat
  decide (n ≤ 0x1F) || (decide (0x7F ≤ n) && decide (n ≤ 0x9F))

def isAsciiHexDigit (c : Char) : Bool :=
  c.isDigit || (decide ('a' ≤ c) && decide (c ≤ 'f')) || (decide ('A' ≤ c) && decide (c ≤ 'F'))

/-! ## 2. Cutting and folding -/

/-- Drop from the end while `p`. -/
def dropEndWhile (p : Char → Bool) (l : List Char) : List Char :=
  (l.reverse.dropWhile p).reverse

def trimEnd (l : List Char) : List Char := dropEndWhile isWhitespace l

def trim (l : List Char) : List Char := trimEnd (l.dropWhile isWhitespace)

def trimStr (s : String) : String := String.ofList (trim s.toList)

def toAsciiLowercase (l : List Char) : List Char := l.map Char.toLower

/-- The length of the UTF-8 encoding. -/
def utf8Len (l : List Char) : Nat := (l.map Char.utf8Size).sum

/-- What is left after `stem`, where the text starts with it. -/
def stripStart (stem : String) (l : List Char) : Option (List Char) :=
  List.isPrefixOf? stem.toList l

/-- The text without the ending `stem`, where it has it. -/
def stripEnd (stem : String) (l : List Char) : List Char :=
  if stem.toList.isSuffixOf l then l.take (l.length - stem.length) else l

/-- The text before and after the first `c`. -/
def splitOnce (c : Char) (l : List Char) : Option (List Char × List Char) :=
  match l.dropWhile (· != c) with
  | [] => none
  | _ :: rest => some (l.takeWhile (· != c), rest)

/-- Two texts cut at the last `c`. -/
theorem cut_at_last {α : Type} {c : α} {xs ys xs' ys' : List α} (hy : c ∉ ys) (hy' : c ∉ ys')
    (h : xs ++ c :: ys = xs' ++ c :: ys') : xs = xs' ∧ ys = ys' := by
  rcases append_eq_append_iff.mp h with ⟨as, rfl, has⟩ | ⟨as, rfl, has⟩
  · cases as with
    | nil => exact ⟨(append_nil xs).symm, tail_eq_of_cons_eq has⟩
    | cons => exact absurd (by simp [tail_eq_of_cons_eq has]) hy
  · cases as with
    | nil => exact ⟨append_nil xs', (tail_eq_of_cons_eq has).symm⟩
    | cons => exact absurd (by simp [tail_eq_of_cons_eq has]) hy'

/-- What cutting from both ends while `p` leaves. -/
theorem cut_append {p : Char → Bool} {u l w : List Char} (hu : ∀ c ∈ u, p c = true)
    (hl : ∀ c ∈ l, p c = false) (hw : ∀ c ∈ w, p c = true) :
    dropEndWhile p ((u ++ l ++ w).dropWhile p) = l := by
  have hkeep : ∀ {l : List Char} (w : List Char), (∀ c ∈ l, p c = false) → l ≠ [] →
      (l ++ w).dropWhile p = l ++ w := by
    intro l w hl hne
    obtain ⟨c, l, rfl⟩ := exists_cons_of_ne_nil hne
    simp [hl c mem_cons_self]
  rw [append_assoc, dropWhile_append_of_pos hu]
  rcases eq_or_ne l [] with rfl | hne
  · rw [nil_append, dropWhile_eq_nil_iff.mpr hw]
    rfl
  · rw [hkeep w hl hne, dropEndWhile, reverse_append, dropWhile_append_of_pos (by simpa using hw),
      ← append_nil l.reverse, hkeep [] (by simpa using hl) (by simpa using hne)]
    simp

theorem exists_cut (p : Char → Bool) (l : List Char) :
    ∃ u w, l = u ++ dropEndWhile p (l.dropWhile p) ++ w ∧ (∀ c ∈ u, p c = true) ∧
      ∀ c ∈ w, p c = true := by
  refine ⟨l.takeWhile p, ((l.dropWhile p).reverse.takeWhile p).reverse, ?_,
    fun c hc => mem_takeWhile_imp hc, fun c hc => mem_takeWhile_imp (mem_reverse.mp hc)⟩
  rw [append_assoc, dropEndWhile, ← reverse_append, takeWhile_append_dropWhile, reverse_reverse,
    takeWhile_append_dropWhile]

theorem not_isWhitespace_of_isAlpha {c : Char} (h : c.isAlpha = true) : isWhitespace c = false := by
  have hrange : 65 ≤ c.toNat ∧ c.toNat ≤ 122 := by
    simp only [Char.isAlpha, Char.isUpper, Char.isLower, Bool.or_eq_true, Bool.and_eq_true,
      decide_eq_true_eq, ge_iff_le, UInt32.le_iff_toNat_le] at h
    rcases h with h | h
    · exact ⟨h.1, Nat.le_trans h.2 (by decide)⟩
    · exact ⟨Nat.le_trans (by decide) h.1, h.2⟩
  simp only [isWhitespace]
  grind

end Text
