/-
# JSON values and their compact text

A value of a JSON library: integers, floating-point numbers of some type `φ`, strings, arrays, and
objects as lists of named fields.  `Value.text` writes it without blanks, the fields in the order
they stand in.

The text determines the value (`text_injective`).  It is read off from the left: a text followed
by a DELIMITER -- a comma, a closing bracket, or the end -- splits in one way only (`text_cancel`).
For strings that is the business of the escapes, for numbers of the delimiter, and arrays and
objects pass it on to their members (`joined_cancel`).

How a floating-point number is printed is a parameter: `FloatText` says what a printer that reads
back promises.
-/
import Mathlib

namespace Json

open List

/-! ## 1. Values -/

/-- A JSON value. -/
inductive Value (φ : Type)
  | null
  | bool (b : Bool)
  | int (n : Int)
  | float (f : φ)
  | str (s : String)
  | arr (items : List (Value φ))
  | obj (fields : List (String × Value φ))

/-- **The induction rule**: of an array or an object, all members first. -/
theorem Value.induct {φ : Type} {P : Value φ → Prop} (null : P .null) (bool : ∀ b, P (.bool b))
    (int : ∀ n, P (.int n)) (float : ∀ f, P (.float f)) (str : ∀ s, P (.str s))
    (arr : ∀ items, (∀ v ∈ items, P v) → P (.arr items))
    (obj : ∀ fields, (∀ f ∈ fields, P f.2) → P (.obj fields)) (v : Value φ) : P v :=
  @Value.rec φ P (fun items => ∀ v ∈ items, P v) (fun fields => ∀ f ∈ fields, P f.2)
    (fun f => P f.2) null bool int float str arr obj
    (fun _ h => absurd h not_mem_nil) (fun _ _ hv hvs => forall_mem_cons.mpr ⟨hv, hvs⟩)
    (fun _ h => absurd h not_mem_nil) (fun _ _ hf hfs => forall_mem_cons.mpr ⟨hf, hfs⟩)
    (fun _ _ hv => hv) v

/-! ## 2. Text -/

variable (c : Char)

/-- A character inside a string: the quote, the backslash and the control characters escaped. -/
def escapeChar : List Char :=
  if c = '"' then ['\\', '"']
  else if c = '\\' then ['\\', '\\']
  else if c.toNat = 8 then ['\\', 'b']
  else if c.toNat = 9 then ['\\', 't']
  else if c.toNat = 10 then ['\\', 'n']
  else if c.toNat = 12 then ['\\', 'f']
  else if c.toNat = 13 then ['\\', 'r']
  else if c.toNat < 32 then
    ['\\', 'u', '0', '0', Nat.digitChar (c.toNat / 16), Nat.digitChar (c.toNat % 16)]
  else [c]

def quote (s : String) : List Char := '"' :: (s.toList.flatMap escapeChar ++ ['"'])

/-- Texts with commas between them. -/
def joined : List (List Char) → List Char
  | [] => []
  | [t] => t
  | t :: t' :: ts => t ++ ',' :: joined (t' :: ts)

/-- The characters numbers are written with. -/
def isNumberChar : Bool := c.isDigit || c == '-' || c == '+' || c == '.' || c == 'e'

/-- **How the numbers of `φ` are printed**: each in its own way, and none like an integer. -/
structure FloatText (φ : Type) where
  text : φ → List Char
  injective : Function.Injective text
  chars : ∀ f, ∀ c ∈ text f, isNumberChar c = true
  marked : ∀ f, '.' ∈ text f ∨ 'e' ∈ text f

section Text

variable {φ : Type} (ft : FloatText φ)

mutual

/-- The compact text of a value. -/
def Value.text : Value φ → List Char
  | .null => ['n', 'u', 'l', 'l']
  | .bool true => ['t', 'r', 'u', 'e']
  | .bool false => ['f', 'a', 'l', 's', 'e']
  | .int n => (toString n).toList
  | .float f => ft.text f
  | .str s => quote s
  | .arr items => '[' :: (joined (Value.textItems items) ++ [']'])
  | .obj fields => '{' :: (joined (Value.textFields fields) ++ ['}'])

def Value.textItems : List (Value φ) → List (List Char)
  | [] => []
  | v :: items => v.text :: Value.textItems items

def Value.textFields : List (String × Value φ) → List (List Char)
  | [] => []
  | (k, v) :: fields => (quote k ++ ':' :: v.text) :: Value.textFields fields

end

theorem Value.textItems_eq_map (ft : FloatText φ) (items : List (Value φ)) :
    Value.textItems ft items = items.map (Value.text ft) := by
  induction items with
  | nil => rfl
  | cons v items ih => rw [Value.textItems, ih, map_cons]

/-- The text of a field. -/
def fieldText (ft : FloatText φ) (f : String × Value φ) : List Char :=
  quote f.1 ++ ':' :: f.2.text ft

theorem Value.textFields_eq_map (ft : FloatText φ) (fields : List (String × Value φ)) :
    Value.textFields ft fields = fields.map (fieldText ft) := by
  induction fields with
  | nil => rfl
  | cons f fields ih => rw [Value.textFields, ih, map_cons, fieldText]

end Text

/-! ## 3. Strings -/

/-- The value of a digit of a `\u` escape. -/
def hexValue : Nat := if c.isDigit then c.toNat - 48 else c.toNat - 87

/-- What stands after a backslash, and what follows it. -/
def readEscape : List Char → Option (Char × List Char)
  | 'b' :: rest => some (Char.ofNat 8, rest)
  | 't' :: rest => some (Char.ofNat 9, rest)
  | 'n' :: rest => some (Char.ofNat 10, rest)
  | 'f' :: rest => some (Char.ofNat 12, rest)
  | 'r' :: rest => some (Char.ofNat 13, rest)
  | 'u' :: _ :: _ :: a :: b :: rest => some (Char.ofNat (16 * hexValue a + hexValue b), rest)
  | c :: rest => some (c, rest)
  | [] => none

/-- One character read back, and what follows it. -/
def readChar : List Char → Option (Char × List Char)
  | [] => none
  | c :: rest => if c = '\\' then readEscape rest else some (c, rest)

theorem hexValue_digitChar : ∀ d < 16, hexValue (Nat.digitChar d) = d := by decide

theorem char_eq_of_toNat {c : Char} {n : Nat} (h : c.toNat = n) : c = Char.ofNat n := by
  rw [← h, Char.ofNat_toNat]

/-- **An escape reads back as the character it stands for.** -/
theorem readChar_escapeChar (rest : List Char) :
    readChar (escapeChar c ++ rest) = some (c, rest) := by
  unfold escapeChar
  split_ifs with hquote hback h8 h9 h10 h12 h13 hcontrol
  · rw [hquote]
    rfl
  · rw [hback]
    rfl
  · rw [char_eq_of_toNat h8]
    rfl
  · rw [char_eq_of_toNat h9]
    rfl
  · rw [char_eq_of_toNat h10]
    rfl
  · rw [char_eq_of_toNat h12]
    rfl
  · rw [char_eq_of_toNat h13]
    rfl
  · have hdigits : 16 * (c.toNat / 16) + c.toNat % 16 = c.toNat := Nat.div_add_mod c.toNat 16
    simp only [cons_append, nil_append, readChar, readEscape, if_true,
      hexValue_digitChar (c.toNat / 16) (by omega), hexValue_digitChar (c.toNat % 16) (by omega),
      hdigits, Char.ofNat_toNat]
  · exact if_neg hback

theorem escapeChar_cancel {c d : Char} {r r' : List Char}
    (h : escapeChar c ++ r = escapeChar d ++ r') : c = d ∧ r = r' := by
  have hread := congrArg readChar h
  rw [readChar_escapeChar, readChar_escapeChar] at hread
  exact Prod.mk.inj (Option.some.inj hread)

/-- An escape never starts with the quote that ends a string. -/
theorem escapeChar_head : ∃ a cs, escapeChar c = a :: cs ∧ a ≠ '"' := by
  unfold escapeChar
  split_ifs with hquote
  all_goals first
    | exact ⟨_, _, rfl, by decide⟩
    | exact ⟨_, _, rfl, hquote⟩

theorem escaped_cancel : ∀ {cs ds : List Char} {r r' : List Char},
    cs.flatMap escapeChar ++ '"' :: r = ds.flatMap escapeChar ++ '"' :: r' → cs = ds ∧ r = r'
  | [], [], r, r', h => ⟨rfl, tail_eq_of_cons_eq h⟩
  | [], d :: ds, r, r', h => by
    obtain ⟨a, as, ha, hne⟩ := escapeChar_head d
    rw [flatMap_cons, ha] at h
    exact absurd (head_eq_of_cons_eq h).symm hne
  | c :: cs, [], r, r', h => by
    obtain ⟨a, as, ha, hne⟩ := escapeChar_head c
    rw [flatMap_cons, ha] at h
    exact absurd (head_eq_of_cons_eq h) hne
  | c :: cs, d :: ds, r, r', h => by
    rw [flatMap_cons, flatMap_cons, append_assoc, append_assoc] at h
    obtain ⟨rfl, hrest⟩ := escapeChar_cancel h
    obtain ⟨rfl, rfl⟩ := escaped_cancel hrest
    exact ⟨rfl, rfl⟩

/-- **A quoted string ends where it says.** -/
theorem quote_cancel {s t : String} {r r' : List Char} (h : quote s ++ r = quote t ++ r') :
    s = t ∧ r = r' := by
  unfold quote at h
  rw [cons_append, cons_append, append_assoc, append_assoc] at h
  obtain ⟨hst, rfl⟩ := escaped_cancel (tail_eq_of_cons_eq h)
  exact ⟨String.toList_injective hst, rfl⟩

/-! ## 4. Numbers -/

/-- What may follow a value: a comma, a closing bracket, or nothing. -/
def Delimited (r : List Char) : Prop := ∀ c ∈ r.head?, c = ',' ∨ c = ']' ∨ c = '}'

theorem delimited_cons {c : Char} {r : List Char} (h : c = ',' ∨ c = ']' ∨ c = '}') :
    Delimited (c :: r) := by
  intro d hd
  obtain rfl := Option.some.inj hd
  exact h

theorem Delimited.not_number {r : List Char} (h : Delimited r) :
    ∀ c ∈ r.head?, isNumberChar c = false := by
  intro c hc
  rcases h c hc with rfl | rfl | rfl <;> decide

/-- A number ends where its characters do. -/
theorem number_cancel {t t' r r' : List Char} (ht : ∀ c ∈ t, isNumberChar c = true)
    (ht' : ∀ c ∈ t', isNumberChar c = true) (hr : Delimited r) (hr' : Delimited r')
    (h : t ++ r = t' ++ r') : t = t' ∧ r = r' := by
  have hspan : ∀ {t r : List Char}, (∀ c ∈ t, isNumberChar c = true) → Delimited r →
      (t ++ r).takeWhile isNumberChar = t := by
    intro t r ht hr
    rw [takeWhile_append_of_pos ht]
    cases r with
    | nil => simp
    | cons c =>
      have hc := hr.not_number c rfl
      rw [takeWhile_cons_of_neg (by simp [hc]), append_nil]
  have heq : t = t' := by rw [← hspan ht hr, h, hspan ht' hr']
  exact ⟨heq, append_cancel_left (heq ▸ h)⟩

/-- The text of an integer: digits, and a sign. -/
theorem int_chars (n : Int) : ∀ c ∈ (toString n).toList, c.isDigit = true ∨ c = '-' := by
  have hnat : ∀ m : Nat, ∀ c ∈ (toString m).toList, c.isDigit = true := by
    intro m c hc
    exact Nat.isDigit_of_mem_toDigits (b := 10) (by decide) (by decide) (by simpa using hc)
  intro c hc
  cases n with
  | ofNat m => exact .inl (hnat m c hc)
  | negSucc m =>
    have hsplit : (toString (Int.negSucc m)).toList = '-' :: (toString (m + 1)).toList := by
      show ("-" ++ toString (m + 1)).toList = _
      rw [String.toList_append]
      rfl
    rw [hsplit] at hc
    rcases mem_cons.mp hc with rfl | hc
    · exact .inr rfl
    · exact .inl (hnat (m + 1) c hc)

theorem int_numberChars (n : Int) : ∀ c ∈ (toString n).toList, isNumberChar c = true := by
  intro c hc
  rcases int_chars n c hc with h | rfl
  · simp [isNumberChar, h]
  · decide

theorem int_ne_nil (n : Int) : (toString n).toList ≠ [] := by
  cases n with
  | ofNat m =>
    show (toString m).toList ≠ []
    simp [Nat.toDigits_ne_nil]
  | negSucc m =>
    show ("-" ++ toString (m + 1)).toList ≠ []
    simp

/-- No integer is written like a floating-point number. -/
theorem int_ne_float {φ : Type} (ft : FloatText φ) (n : Int) (f : φ) :
    (toString n).toList ≠ ft.text f := by
  intro h
  rcases ft.marked f with hmark | hmark
  · rw [← h] at hmark
    rcases int_chars n _ hmark with hc | hc <;> revert hc <;> decide
  · rw [← h] at hmark
    rcases int_chars n _ hmark with hc | hc <;> revert hc <;> decide

/-! ## 5. Members -/

/-- A text that can be told from what follows it. -/
def Cancels {α : Type} (t : α → List Char) (a : α) : Prop :=
  ∀ b r r', Delimited r → Delimited r' → t a ++ r = t b ++ r' → a = b ∧ r = r'

/-- **Members between commas can be told apart**, if each can be told from what follows it and none
begins with the closing bracket. -/
theorem joined_cancel {α : Type} {t : α → List Char} {close : Char}
    (hclose : close = ']' ∨ close = '}') (hhead : ∀ a, ∃ c cs, t a = c :: cs ∧ c ≠ close) :
    ∀ {xs ys : List α} {r r' : List Char}, (∀ a ∈ xs, Cancels t a) →
      joined (xs.map t) ++ close :: r = joined (ys.map t) ++ close :: r' → xs = ys ∧ r = r'
  | [], [], _, _, _, h => ⟨rfl, tail_eq_of_cons_eq h⟩
  | [], y :: ys, _, _, _, h => by
    obtain ⟨c, cs, hc, hne⟩ := hhead y
    cases ys <;>
    · simp only [map_nil, map_cons, joined, hc, nil_append, cons_append] at h
      exact absurd (head_eq_of_cons_eq h).symm hne
  | x :: xs, [], _, _, _, h => by
    obtain ⟨c, cs, hc, hne⟩ := hhead x
    cases xs <;>
    · simp only [map_nil, map_cons, joined, hc, nil_append, cons_append] at h
      exact absurd (head_eq_of_cons_eq h) hne
  | [x], [y], r, r', hx, h => by
    obtain ⟨rfl, hrest⟩ := hx x mem_cons_self y _ _ (delimited_cons (.inr hclose))
      (delimited_cons (.inr hclose)) h
    exact ⟨rfl, tail_eq_of_cons_eq hrest⟩
  | [x], y :: y' :: ys, _, _, hx, h => by
    -- one member, and then the bracket where the other text has a comma
    simp only [map_cons, map_nil, joined, append_assoc, cons_append] at h
    obtain ⟨_, hrest⟩ := hx x mem_cons_self y _ _ (delimited_cons (.inr hclose))
      (delimited_cons (.inl rfl)) h
    exact absurd (head_eq_of_cons_eq hrest) (by rcases hclose with rfl | rfl <;> decide)
  | x :: x' :: xs, [y], _, _, hx, h => by
    simp only [map_cons, map_nil, joined, append_assoc, cons_append] at h
    obtain ⟨_, hrest⟩ := hx x mem_cons_self y _ _ (delimited_cons (.inl rfl))
      (delimited_cons (.inr hclose)) h
    exact absurd (head_eq_of_cons_eq hrest) (by rcases hclose with rfl | rfl <;> decide)
  | x :: x' :: xs, y :: y' :: ys, _, _, hx, h => by
    simp only [map_cons, joined, append_assoc, cons_append] at h
    obtain ⟨rfl, hrest⟩ := hx x mem_cons_self y _ _ (delimited_cons (.inl rfl))
      (delimited_cons (.inl rfl)) h
    have hx' : ∀ a ∈ x' :: xs, Cancels t a := fun a ha => hx a (mem_cons_of_mem _ ha)
    have hrest' : joined ((x' :: xs).map t) ++ close :: _ = joined ((y' :: ys).map t) ++ close :: _ :=
      tail_eq_of_cons_eq hrest
    obtain ⟨htail, rfl⟩ := joined_cancel hclose hhead hx' hrest'
    exact ⟨by rw [htail], rfl⟩

/-! ## 6. The text determines the value -/

/-- The kinds of values that the first character tells apart. -/
def Value.kind {φ : Type} : Value φ → Nat
  | .null => 0
  | .bool _ => 1
  | .int _ => 2
  | .float _ => 2
  | .str _ => 3
  | .arr _ => 4
  | .obj _ => 5

def charKind : Nat :=
  if c = 'n' then 0 else if c = 't' then 1 else if c = 'f' then 1 else if c = '"' then 3
  else if c = '[' then 4 else if c = '{' then 5 else if isNumberChar c then 2 else 6

theorem charKind_number {c : Char} (h : isNumberChar c = true) : charKind c = 2 := by
  have hne : ∀ d : Char, isNumberChar d = false → c ≠ d := by
    rintro d hd rfl
    rw [h] at hd
    cases hd
  simp only [charKind, h, if_true, hne 'n' (by decide), hne 't' (by decide), hne 'f' (by decide),
    hne '"' (by decide), hne '[' (by decide), hne '{' (by decide), if_false]

variable {φ : Type} (ft : FloatText φ)

/-- **The first character tells the kind.** -/
theorem text_head (v : Value φ) : ∃ c cs, v.text ft = c :: cs ∧ charKind c = v.kind := by
  have hnumber : ∀ t : List Char, t ≠ [] → (∀ c ∈ t, isNumberChar c = true) →
      ∃ c cs, t = c :: cs ∧ charKind c = 2 := by
    intro t hne ht
    obtain ⟨c, cs, rfl⟩ := exists_cons_of_ne_nil hne
    exact ⟨c, cs, rfl, charKind_number (ht c mem_cons_self)⟩
  cases v with
  | null => exact ⟨'n', _, rfl, (by decide : charKind 'n' = 0)⟩
  | bool b =>
    cases b with
    | false => exact ⟨'f', _, rfl, (by decide : charKind 'f' = 1)⟩
    | true => exact ⟨'t', _, rfl, (by decide : charKind 't' = 1)⟩
  | int n => exact hnumber _ (int_ne_nil n) (int_numberChars n)
  | float f =>
    refine hnumber (ft.text f) ?_ (ft.chars f)
    intro hnil
    rcases ft.marked f with h | h
    · exact ne_nil_of_mem h hnil
    · exact ne_nil_of_mem h hnil
  | str => exact ⟨'"', _, rfl, (by decide : charKind '"' = 3)⟩
  | arr => exact ⟨'[', _, rfl, (by decide : charKind '[' = 4)⟩
  | obj => exact ⟨'{', _, rfl, (by decide : charKind '{' = 5)⟩

theorem kind_eq_of_text {v w : Value φ} {r r' : List Char}
    (h : v.text ft ++ r = w.text ft ++ r') : v.kind = w.kind := by
  obtain ⟨c, cs, hv, hc⟩ := text_head ft v
  obtain ⟨d, ds, hw, hd⟩ := text_head ft w
  rw [hv, hw] at h
  rw [← hc, ← hd, head_eq_of_cons_eq h]

/-- No value begins with a closing bracket. -/
theorem text_head_ne (v : Value φ) {close : Char} (hclose : close = ']' ∨ close = '}') :
    ∃ c cs, v.text ft = c :: cs ∧ c ≠ close := by
  obtain ⟨c, cs, hv, hc⟩ := text_head ft v
  refine ⟨c, cs, hv, ?_⟩
  rintro rfl
  have hkind : v.kind ≠ 6 := by cases v <;> simp [Value.kind]
  rcases hclose with rfl | rfl
  · exact hkind (hc.symm.trans (by decide))
  · exact hkind (hc.symm.trans (by decide))

/-- **A value's text ends where it says.** -/
theorem text_cancel (v : Value φ) : Cancels (Value.text ft) v := by
  induction v using Value.induct with
  | null =>
    intro w r r' _ _ h
    have hkind := kind_eq_of_text ft h
    cases w <;> try cases hkind
    exact ⟨rfl, append_cancel_left h⟩
  | bool b =>
    intro w r r' _ _ h
    have hkind := kind_eq_of_text ft h
    cases w <;> try cases hkind
    rename_i b'
    cases b <;> cases b' <;> simp only [Value.text, cons_append] at h
    · exact ⟨rfl, by simpa using h⟩
    · exact absurd (head_eq_of_cons_eq h) (by decide)
    · exact absurd (head_eq_of_cons_eq h) (by decide)
    · exact ⟨rfl, by simpa using h⟩
  | int n =>
    intro w r r' hr hr' h
    have hkind := kind_eq_of_text ft h
    cases w with
    | int m =>
      obtain ⟨ht, hrest⟩ := number_cancel (int_numberChars n) (int_numberChars m) hr hr' h
      exact ⟨by rw [Int.repr_injective (String.toList_injective ht)], hrest⟩
    | float f =>
      obtain ⟨ht, _⟩ := number_cancel (int_numberChars n) (ft.chars f) hr hr' h
      exact absurd ht (int_ne_float ft n f)
    | _ => cases hkind
  | float f =>
    intro w r r' hr hr' h
    have hkind := kind_eq_of_text ft h
    cases w with
    | int m =>
      obtain ⟨ht, _⟩ := number_cancel (ft.chars f) (int_numberChars m) hr hr' h
      exact absurd ht.symm (int_ne_float ft m f)
    | float g =>
      obtain ⟨ht, hrest⟩ := number_cancel (ft.chars f) (ft.chars g) hr hr' h
      exact ⟨by rw [ft.injective ht], hrest⟩
    | _ => cases hkind
  | str =>
    intro w r r' _ _ h
    have hkind := kind_eq_of_text ft h
    cases w <;> try cases hkind
    obtain ⟨rfl, hrest⟩ := quote_cancel h
    exact ⟨rfl, hrest⟩
  | arr items ih =>
    intro w r r' _ _ h
    have hkind := kind_eq_of_text ft h
    cases w <;> try cases hkind
    simp only [Value.text, Value.textItems_eq_map, cons_append, append_assoc,
      nil_append, List.cons.injEq, true_and] at h
    obtain ⟨rfl, hrest⟩ := joined_cancel (.inl rfl) (fun v => text_head_ne ft v (.inl rfl)) ih h
    exact ⟨rfl, hrest⟩
  | obj fields ih =>
    intro w r r' _ _ h
    have hkind := kind_eq_of_text ft h
    cases w <;> try cases hkind
    simp only [Value.text, Value.textFields_eq_map, cons_append, append_assoc,
      nil_append, List.cons.injEq, true_and] at h
    -- a field's name ends at its quote, its value by the induction hypothesis
    have hfield : ∀ f ∈ fields, Cancels (fieldText ft) f := by
      rintro ⟨k, v⟩ hf ⟨k', v'⟩ s s' hs hs' hfs
      simp only [fieldText, append_assoc, cons_append] at hfs
      obtain ⟨rfl, hvalue⟩ := quote_cancel hfs
      obtain ⟨hv, hrest⟩ := ih (k, v) hf v' s s' hs hs' (tail_eq_of_cons_eq hvalue)
      exact ⟨by rw [← hv], hrest⟩
    obtain ⟨rfl, hrest⟩ :=
      joined_cancel (.inr rfl) (fun f => ⟨'"', _, rfl, by decide⟩) hfield h
    exact ⟨rfl, hrest⟩

/-- **The text determines the value.** -/
theorem text_injective : Function.Injective (Value.text ft) := by
  intro v w h
  have hend : Delimited [] := fun c hc => by cases hc
  exact (text_cancel ft v w [] [] hend hend (by rw [h])).1

end Json
