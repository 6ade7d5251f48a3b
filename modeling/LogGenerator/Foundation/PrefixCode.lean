import Mathlib.Tactic

/-!
# Self-delimiting codes

A code word can be read off the front of any input, so that a concatenation of
words has one reading. Words that cannot be written are kept out by `Word`.
-/

namespace LogGenerator

structure PrefixCode (α β : Type*) where
  encode : α → List β
  decode : List β → Option (α × List β)
  Word : α → Prop
  encode_ne_nil : ∀ a, encode a ≠ []
  decode_encode : ∀ a, Word a → ∀ rest, decode (encode a ++ rest) = some (a, rest)

namespace PrefixCode

variable {α β : Type*} (c : PrefixCode α β)

/-- Repeated reading; it fails on a rest that is no word, or when the fuel runs out. -/
def readWords : ℕ → List β → Option (List α)
  | _, [] => some []
  | 0, _ :: _ => none
  | fuel + 1, b :: input =>
    match c.decode (b :: input) with
    | none => none
    | some (a, rest) => (readWords fuel rest).map (a :: ·)

/-- Every word is non-empty, so the input length is enough fuel. -/
def read (input : List β) : Option (List α) := c.readWords input.length input

theorem readWords_flatMap (words : List α) (hw : ∀ a ∈ words, c.Word a) :
    ∀ fuel, words.length ≤ fuel → c.readWords fuel (words.flatMap c.encode) = some words := by
  induction words with
  | nil => intro fuel _; cases fuel <;> rfl
  | cons a words ih =>
    intro fuel hf
    obtain ⟨fuel, rfl⟩ : ∃ k, fuel = k + 1 := ⟨fuel - 1, by simp at hf; omega⟩
    have hd := c.decode_encode a (hw a (by simp)) (words.flatMap c.encode)
    have ht := ih (fun b hb => hw b (by simp [hb])) fuel (by simpa using hf)
    rw [List.flatMap_cons]
    cases he : c.encode a with
    | nil => exact absurd he (c.encode_ne_nil a)
    | cons b bs =>
      rw [he] at hd
      rw [List.cons_append] at hd ⊢
      simp [readWords, hd, ht]

theorem length_le_flatMap (words : List α) : words.length ≤ (words.flatMap c.encode).length := by
  induction words with
  | nil => simp
  | cons a words ih =>
    have ha : 0 < (c.encode a).length := List.length_pos_iff.mpr (c.encode_ne_nil a)
    simp only [List.flatMap_cons, List.length_cons, List.length_append]
    omega

/-- The reading consumes a concatenation of words exactly and returns the words. -/
theorem read_flatMap (words : List α) (hw : ∀ a ∈ words, c.Word a) :
    c.read (words.flatMap c.encode) = some words :=
  c.readWords_flatMap words hw _ (c.length_le_flatMap words)

theorem flatMap_encode_inj {xs ys : List α} (hx : ∀ a ∈ xs, c.Word a) (hy : ∀ a ∈ ys, c.Word a)
    (h : xs.flatMap c.encode = ys.flatMap c.encode) : xs = ys := by
  have hr := c.read_flatMap xs hx
  rw [h, c.read_flatMap ys hy] at hr
  exact (Option.some.inj hr).symm

end PrefixCode
end LogGenerator
