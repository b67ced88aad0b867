/-
# Canonical JSON, and what the chain hashes

`canonical_json` (`signed_export.rs`) writes a payload with the keys of every object sorted.  A
payload is a value whose objects already hold their keys in order (`JsonValue`): serde_json keeps
them in a sorted map.  So the sort moves nothing, the text is the compact text of the value, and
the library's result applies: the canonical text determines the payload
(`canonicalJson_injective`).

The other text the chain hashes is that of a link: `prev_hash`, `content_hash` and the id, with
line breaks between them.  It is read back from its END (`chainInput_injective`): the id and the
content hash of a row have no line break in them, whereas the `prev_hash` at a retention floor may
be any text that `is_well_formed_hash` lets through.
-/
import Maidan.Lib.Json
import Maidan.Events.Log

namespace Maidan

open Json List

/-! ## 1. The canonical writer -/

section Canonical

variable {φ : Type} (ft : FloatText φ)

/-- `keys.sort()`, with the values written beside their keys. -/
def sortKeys (fields : List (String × List Char)) : List (String × List Char) :=
  fields.insertionSort fun a b => a.1 ≤ b.1

mutual

/-- `write_canonical`. -/
def writeCanonical : Value φ → List Char
  | .null => ['n', 'u', 'l', 'l']
  | .bool true => ['t', 'r', 'u', 'e']
  | .bool false => ['f', 'a', 'l', 's', 'e']
  | .int n => (toString n).toList
  | .float f => ft.text f
  | .str s => quote s
  | .arr items => '[' :: (joined (writeItems items) ++ [']'])
  | .obj fields =>
    '{' :: (joined ((sortKeys (writeFields fields)).map fun f => quote f.1 ++ ':' :: f.2) ++ ['}'])

def writeItems : List (Value φ) → List (List Char)
  | [] => []
  | v :: items => writeCanonical v :: writeItems items

def writeFields : List (String × Value φ) → List (String × List Char)
  | [] => []
  | (k, v) :: fields => (k, writeCanonical v) :: writeFields fields

end

/-- **The objects of a value hold their keys in order**, as a sorted map does. -/
inductive KeysSorted : Value φ → Prop
  | null : KeysSorted .null
  | bool (b : Bool) : KeysSorted (.bool b)
  | int (n : Int) : KeysSorted (.int n)
  | float (f : φ) : KeysSorted (.float f)
  | str (s : String) : KeysSorted (.str s)
  | arr {items : List (Value φ)} (hitems : ∀ v ∈ items, KeysSorted v) : KeysSorted (.arr items)
  | obj {fields : List (String × Value φ)} (hkeys : (fields.map Prod.fst).Pairwise (· < ·))
      (hfields : ∀ f ∈ fields, KeysSorted f.2) : KeysSorted (.obj fields)

/-- `serde_json::Value`. -/
def JsonValue (φ : Type) : Type := { v : Value φ // KeysSorted v }

theorem writeItems_eq_map (items : List (Value φ)) :
    writeItems ft items = items.map (writeCanonical ft) := by
  induction items with
  | nil => rfl
  | cons v items ih => rw [writeItems, ih, map_cons]

theorem writeFields_eq_map (fields : List (String × Value φ)) :
    writeFields ft fields = fields.map fun f => (f.1, writeCanonical ft f.2) := by
  induction fields with
  | nil => rfl
  | cons f fields ih => rw [writeFields, ih, map_cons]

/-- **On a payload the sort moves nothing.** -/
theorem writeCanonical_eq_text (hv : KeysSorted v) : writeCanonical ft v = v.text ft := by
  induction hv with
  | null | int | float | str => rfl
  | bool b => cases b <;> rfl
  | arr hitems ih =>
    rw [writeCanonical, Value.text, writeItems_eq_map, Value.textItems_eq_map, map_congr_left ih]
  | @obj fields hkeys hfields ih =>
    have hsorted : (writeFields ft fields).Pairwise fun a b => a.1 ≤ b.1 := by
      rw [writeFields_eq_map, pairwise_map]
      exact (pairwise_map.mp hkeys).imp fun h => le_of_lt h
    have hfield : ∀ f ∈ fields, quote f.1 ++ ':' :: writeCanonical ft f.2 = fieldText ft f := by
      intro f hf
      rw [ih f hf, fieldText]
    rw [writeCanonical, Value.text, sortKeys, hsorted.insertionSort_eq, writeFields_eq_map,
      Value.textFields_eq_map, map_map]
    exact congrArg (fun texts => '{' :: (joined texts ++ ['}'])) (map_congr_left hfield)

/-- `canonical_json`. -/
def canonicalJson (v : JsonValue φ) : String := String.ofList (writeCanonical ft v.1)

/-- **The canonical text determines the payload.** -/
theorem canonicalJson_injective : Function.Injective (canonicalJson ft) := by
  intro v w h
  have hchars : writeCanonical ft v.1 = writeCanonical ft w.1 := String.ofList_injective h
  rw [writeCanonical_eq_text ft v.2, writeCanonical_eq_text ft w.2] at hchars
  exact Subtype.ext (text_injective ft hchars)

/-- The environment of a log with JSON payloads. -/
def jsonEnv (sha256 : String → String) (openedEvent : JsonValue φ → Except String Event) :
    HashEnv (JsonValue φ) where
  sha256 := sha256
  canonicalJson v := some (canonicalJson ft v)
  openedEvent := openedEvent

end Canonical

/-! ## 2. The text of a link -/

/-- What `chain_hash` hashes. -/
def chainInput (prevHash contentHash : String) (id : Int) : String :=
  prevHash ++ "\n" ++ contentHash ++ "\n" ++ toString id

theorem newline_notMem_int (id : Int) : '\n' ∉ (toString id).toList := by
  intro h
  rcases int_chars id _ h with hc | hc <;> revert hc <;> decide

/-- **A link is read back from its text**, if its content hash is one line. -/
theorem chainInput_injective {id id' : Int} (hc : '\n' ∉ c.toList) (hc' : '\n' ∉ c'.toList)
    (h : chainInput p c id = chainInput p' c' id') : p = p' ∧ c = c' ∧ id = id' := by
  have hchars := congrArg String.toList h
  have hnewline : "\n".toList = ['\n'] := rfl
  simp only [chainInput, String.toList_append, hnewline, append_assoc, singleton_append] at hchars
  have hfirst : (p.toList ++ '\n' :: c.toList) ++ '\n' :: (toString id).toList =
      (p'.toList ++ '\n' :: c'.toList) ++ '\n' :: (toString id').toList := by
    simpa using hchars
  obtain ⟨hpc, hid⟩ := Text.cut_at_last (newline_notMem_int id) (newline_notMem_int id') hfirst
  obtain ⟨hp, hcc⟩ := Text.cut_at_last hc hc' hpc
  exact ⟨String.toList_injective hp, String.toList_injective hcc,
    Int.repr_injective (String.toList_injective hid)⟩

end Maidan
