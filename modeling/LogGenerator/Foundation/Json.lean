import LogGenerator.Foundation.Bytes
import LogGenerator.Foundation.SortedEntries

/-!
# JSON values

The values of a JSON library whose objects are ordered maps and whose strings are
bytes. Writing needs valid UTF-8, so the texts of a value are collected.
-/

namespace LogGenerator

open Ascii

/-- How many bytes follow a first byte, and the range of the first of these. -/
def continuations (b : UInt8) : Option (ℕ × UInt8 × UInt8) :=
  if b < 0x80 then some (0, 0x80, 0xBF)
  else if b < 0xC2 then none
  else if b < 0xE0 then some (1, 0x80, 0xBF)
  else if b < 0xF0 then
    some (2, if b = 0xE0 then 0xA0 else 0x80, if b = 0xED then 0x9F else 0xBF)
  else if b < 0xF5 then
    some (3, if b = 0xF0 then 0x90 else 0x80, if b = 0xF4 then 0x8F else 0xBF)
  else none

/-- The rest of a text when `left` bytes are missing of a character, the next between `low`
and `high`. -/
def validUtf8From (left : ℕ) (low high : UInt8) : Bytes → Bool
  | [] => left = 0
  | b :: rest =>
    match left with
    | 0 =>
      match continuations b with
      | none => false
      | some (left, low, high) => validUtf8From left low high rest
    | left + 1 => low ≤ b && b ≤ high && validUtf8From left 0x80 0xBF rest

/-- Well-formed UTF-8: no overlong forms, no surrogates, nothing above U+10FFFF. -/
def validUtf8 (text : Bytes) : Bool := validUtf8From 0 0x80 0xBF text

example : validUtf8 (bytes "호점") = true := by decide

example : validUtf8 [0xED, 0xA0, 0x80] = false := by decide

/-- A floating-point number is given by its exact value. -/
inductive Json where
  | null
  | boolean (value : Bool)
  | number (value : ℤ)
  | real (value : ℚ)
  | string (value : Bytes)
  | array (items : List Json)
  | object (entries : List (Bytes × Json))

namespace Json

mutual

/-- Every string of a value, keys included. -/
def texts : Json → List Bytes
  | .string value => [value]
  | .array items => textsOfItems items
  | .object entries => textsOfEntries entries
  | _ => []

def textsOfItems : List Json → List Bytes
  | [] => []
  | item :: items => item.texts ++ textsOfItems items

def textsOfEntries : List (Bytes × Json) → List Bytes
  | [] => []
  | entry :: entries => entry.1 :: entry.2.texts ++ textsOfEntries entries

end

theorem textsOfItems_eq (items : List Json) : textsOfItems items = items.flatMap texts := by
  induction items with
  | nil => rw [textsOfItems, List.flatMap_nil]
  | cons item items ih => rw [textsOfItems, ih, List.flatMap_cons]

theorem textsOfEntries_eq (entries : List (Bytes × Json)) :
    textsOfEntries entries = entries.flatMap fun entry => entry.1 :: entry.2.texts := by
  induction entries with
  | nil => rw [textsOfEntries, List.flatMap_nil]
  | cons entry entries ih => rw [textsOfEntries, ih, List.flatMap_cons]

@[simp] theorem texts_string (value : Bytes) : (string value).texts = [value] := by rw [texts]

@[simp] theorem texts_number (value : ℤ) : (number value).texts = [] := by simp [texts]

@[simp] theorem texts_array (items : List Json) : (array items).texts = items.flatMap texts := by
  rw [texts, textsOfItems_eq]

@[simp] theorem texts_object (entries : List (Bytes × Json)) :
    (object entries).texts = entries.flatMap fun entry => entry.1 :: entry.2.texts := by
  rw [texts, textsOfEntries_eq]

/-- What can be written as UTF-8. -/
def ValidUtf8 (j : Json) : Prop := ∀ text ∈ j.texts, validUtf8 text = true

/-- The keys of every object ascend, as those of an ordered map do. -/
inductive IsValue : Json → Prop
  | null : IsValue .null
  | boolean (value : Bool) : IsValue (.boolean value)
  | number (value : ℤ) : IsValue (.number value)
  | real (value : ℚ) : IsValue (.real value)
  | string (value : Bytes) : IsValue (.string value)
  | array {items : List Json} : (∀ item ∈ items, IsValue item) → IsValue (.array items)
  | object {entries : List (Bytes × Json)} : SortedEntries.KeysAscend entries →
      (∀ entry ∈ entries, IsValue entry.2) → IsValue (.object entries)

/-- The entries of an object that is made from a list of them. -/
def objectOf (entries : List (Bytes × Json)) : List (Bytes × Json) :=
  entries.foldl (fun acc entry => SortedEntries.insert entry.1 entry.2 acc) []

theorem objectOf_eq {entries : List (Bytes × Json)} (h : SortedEntries.KeysAscend entries) :
    objectOf entries = entries :=
  SortedEntries.foldl_insert h

theorem isValue_insert {entries : List (Bytes × Json)} (h : (object entries).IsValue) (key : Bytes)
    {value : Json} (hvalue : value.IsValue) :
    (object (SortedEntries.insert key value entries)).IsValue := by
  cases h with
  | object hkeys hvalues =>
    refine .object (SortedEntries.keysAscend_insert key value hkeys) ?_
    intro entry hmem
    rcases SortedEntries.mem_insert hmem with rfl | hmem
    · exact hvalue
    · exact hvalues entry hmem

theorem isValue_objectOf {entries : List (Bytes × Json)} (h : ∀ entry ∈ entries, entry.2.IsValue) :
    (object (objectOf entries)).IsValue := by
  have hall : ∀ acc, (object acc).IsValue → (object (entries.foldl
      (fun acc entry => SortedEntries.insert entry.1 entry.2 acc) acc)).IsValue := by
    induction entries with
    | nil => exact fun acc hacc => hacc
    | cons first rest ih =>
      obtain ⟨hfirst, hrest⟩ := List.forall_mem_cons.mp h
      exact fun acc hacc => ih hrest _ (isValue_insert hacc first.1 hfirst)
  exact hall [] (.object .nil nofun)

/-- The entry of an object under a key; other values have none. -/
def field? (j : Json) (key : Bytes) : Option Json :=
  match j with
  | .object entries => entries.lookup key
  | _ => none

@[simp] theorem field?_object (entries : List (Bytes × Json)) (key : Bytes) :
    (object entries).field? key = entries.lookup key := rfl

def typeName : Json → Bytes
  | .null => bytes "null"
  | .boolean _ => bytes "boolean"
  | .number _ | .real _ => bytes "number"
  | .string _ => bytes "string"
  | .array _ => bytes "array"
  | .object _ => bytes "object"

/-- The message of the exception for a value of another type than expected. -/
def typeError (expected : String) (j : Json) : Bytes :=
  bytes "[json.exception.type_error.302] type must be " ++ bytes expected ++ bytes ", but is " ++
    j.typeName

/-- A conversion to `int`, which keeps the low 32 bits. -/
def asInt : Json → Except Bytes ℤ
  | .number value => .ok (value.bmod (2 ^ 32))
  | .real value => .ok ((value.num.tdiv value.den).bmod (2 ^ 32))
  | .boolean value => .ok (if value then 1 else 0)
  | j => .error (typeError "number" j)

def asString : Json → Except Bytes Bytes
  | .string value => .ok value
  | j => .error (typeError "string" j)

end Json

/-- Reading and writing values as text. A list of entries whose keys do not ascend is no value,
and nothing is assumed of it. -/
structure JsonLibrary where
  dump : Json → Except Bytes Bytes
  parse : Bytes → Except Bytes Json

/-- The value is written when its texts are valid UTF-8, and what was written reads back. -/
structure JsonLibrary.LawfulAt (L : JsonLibrary) (j : Json) : Prop where
  dump_iff : j.IsValue → ((∃ text, L.dump j = .ok text) ↔ j.ValidUtf8)
  parse_dump : ∀ text, j.IsValue → L.dump j = .ok text → L.parse (text ++ [lf]) = .ok j

end LogGenerator
