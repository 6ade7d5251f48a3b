import Mathlib.Data.Nat.Digits.Defs
import Mathlib.Data.Nat.Digits.Lemmas
import Mathlib.Tactic

/-!
# Byte strings and decimal numerals

A C++ `std::string` is a list of bytes here, so that sizes are byte counts and
no text encoding is assumed. The character classes are those of the "C"
locale: bytes from 128 on belong to none of them.
-/

namespace LogGenerator

abbrev Bytes := List UInt8

instance lawfulBEqBytes : LawfulBEq Bytes := inferInstance

/-- The bytes of a string literal of the source, encoded in UTF-8. -/
def bytes (s : String) : Bytes := s.toList.flatMap String.utf8EncodeChar

namespace Ascii

def tab : UInt8 := 9
def lf : UInt8 := 10
def cr : UInt8 := 13
def space : UInt8 := 32
def quote : UInt8 := 34
def apostrophe : UInt8 := 39
def backslash : UInt8 := 92

def isDigit (b : UInt8) : Bool := 48 ≤ b && b ≤ 57
def isUpper (b : UInt8) : Bool := 65 ≤ b && b ≤ 90
def isLower (b : UInt8) : Bool := 97 ≤ b && b ≤ 122
def isAlpha (b : UInt8) : Bool := isUpper b || isLower b
def isAlnum (b : UInt8) : Bool := isAlpha b || isDigit b
def isSpace (b : UInt8) : Bool := (9 ≤ b && b ≤ 13) || b == 32

def toLower (b : UInt8) : UInt8 := if isUpper b then b + 32 else b

/-- A property of all bytes is decided by trying them. -/
instance (priority := 1500) decidableForallByte (P : UInt8 → Prop) [DecidablePred P] :
    Decidable (∀ b, P b) :=
  decidable_of_iff (∀ i j : Fin 16, P (UInt8.ofNat (16 * i + j)))
    ⟨fun h b => by
      have hdigits := h ⟨b.toNat / 16, Nat.div_lt_of_lt_mul b.toNat_lt⟩
        ⟨b.toNat % 16, Nat.mod_lt _ (by decide)⟩
      simpa only [Nat.div_add_mod, UInt8.ofNat_toNat] using hdigits, fun h _ _ => h _⟩

/-- A property of the bytes of a string is decided by trying these only. -/
instance (priority := 2000) decidableForallMemBytes (s : List UInt8) (P : UInt8 → Prop)
    [DecidablePred P] : Decidable (∀ b ∈ s, P b) :=
  List.decidableBAll P s

end Ascii

open Ascii

def digit (d : ℕ) : UInt8 := UInt8.ofNat (48 + d)

def decimal (n : ℕ) : Bytes :=
  if n = 0 then [digit 0] else ((Nat.digits 10 n).map digit).reverse

/-- The number a digit string denotes. -/
def decimalValue (ds : Bytes) : ℕ :=
  ds.foldl (fun value b => 10 * value + (b.toNat - 48)) 0

theorem digit_toNat {d : ℕ} (hd : d < 10) : (digit d).toNat = 48 + d := by
  have h : 48 + d < 256 := by omega
  simp [digit, Nat.mod_eq_of_lt h]

theorem digit_isDigit {d : ℕ} (hd : d < 10) : isDigit (digit d) = true := by
  have h := digit_toNat hd
  simp only [isDigit, Bool.and_eq_true, decide_eq_true_eq, UInt8.le_iff_toNat_le]
  rw [h]
  exact ⟨by simp, by simpa using by omega⟩

theorem decimal_of_lt {n : ℕ} (hn : n < 10) : decimal n = [digit n] := by
  by_cases h : n = 0
  · simp [decimal, h]
  · rw [decimal, if_neg h, Nat.digits_of_lt 10 n h hn]
    rfl

theorem decimal_step {n : ℕ} (hn : 10 ≤ n) :
    decimal n = decimal (n / 10) ++ [digit (n % 10)] := by
  have hq : n / 10 ≠ 0 := by omega
  rw [decimal, if_neg (by omega), decimal, if_neg hq,
    Nat.digits_def' (by omega) (by omega)]
  simp

theorem decimal_ne_nil (n : ℕ) : decimal n ≠ [] := by
  by_cases hn : n < 10
  · simp [decimal_of_lt hn]
  · simp [decimal_step (not_lt.mp hn)]

theorem decimal_isDigit (n : ℕ) : ∀ b ∈ decimal n, isDigit b = true := by
  induction n using Nat.strong_induction_on with
  | _ n ih =>
    intro b hb
    by_cases hn : n < 10
    · rw [decimal_of_lt hn, List.mem_singleton] at hb
      exact hb ▸ digit_isDigit hn
    · rw [decimal_step (not_lt.mp hn), List.mem_append, List.mem_singleton] at hb
      rcases hb with hb | hb
      · exact ih (n / 10) (by omega) b hb
      · exact hb ▸ digit_isDigit (by omega)

theorem decimalValue_append_digit (ds : Bytes) {d : ℕ} (hd : d < 10) :
    decimalValue (ds ++ [digit d]) = 10 * decimalValue ds + d := by
  simp [decimalValue, digit_toNat hd]

@[simp] theorem decimalValue_decimal (n : ℕ) : decimalValue (decimal n) = n := by
  induction n using Nat.strong_induction_on with
  | _ n ih =>
    by_cases hn : n < 10
    · simp [decimal_of_lt hn, decimalValue, digit_toNat hn]
    · rw [decimal_step (not_lt.mp hn), decimalValue_append_digit _ (by omega),
        ih (n / 10) (by omega)]
      omega

/-- A numeral followed by anything but a digit is read back with `List.span`. -/
theorem span_decimal (n : ℕ) {b : UInt8} (hb : isDigit b = false) (rest : Bytes) :
    (decimal n ++ b :: rest).span isDigit = (decimal n, b :: rest) := by
  rw [List.span_eq_takeWhile_dropWhile, List.takeWhile_append_of_pos (decimal_isDigit n),
    List.dropWhile_append_of_pos (decimal_isDigit n)]
  simp [List.takeWhile, List.dropWhile, hb]

def indexOf (needle : Bytes) : Bytes → Option ℕ
  | [] => if needle = [] then some 0 else none
  | b :: rest =>
    if needle.isPrefixOf (b :: rest) then some 0 else (indexOf needle rest).map (· + 1)

/-- `s.find(needle, position)`. -/
def find (s needle : Bytes) (position : ℕ) : Option ℕ :=
  if position ≤ s.length then (indexOf needle (s.drop position)).map (position + ·) else none

def contains (s needle : Bytes) : Bool := (find s needle 0).isSome

/-- `s.find_first_of(set, position)`. -/
def findFirstOf (s set : Bytes) (position : ℕ) : Option ℕ :=
  ((s.drop position).findIdx? fun b => set.contains b).map (position + ·)

/-- `s.find_last_of(set)`. -/
def findLastOf (s set : Bytes) : Option ℕ :=
  (s.reverse.findIdx? fun b => set.contains b).map (s.length - 1 - ·)

end LogGenerator
