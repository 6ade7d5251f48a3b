import LogGenerator.Foundation.Occurrences
import LogGenerator.Foundation.RegexRewriting

/-!
# Texts with parts replaced

A word that does not occur in a text does not come into it when parts of the text are
replaced, as long as no occurrence of the word can reach into a replacement.
-/

namespace LogGenerator
namespace Patches

open Occurrences

variable {P : Bytes → Prop} {m w text out p : Bytes}

/-- An occurrence of the word can neither begin in the text and end behind it, nor begin
before it and end in it, nor lie in it. -/
structure Sealed (m w : Bytes) : Prop where
  free : Free m w
  head : ∃ c rest, w = c :: rest ∧ c ∉ m
  ends : ∀ front ∈ m.inits, front <:+ w → front = []

/-- `out` is the text with some parts replaced by texts that satisfy `P`. -/
inductive Patched (P : Bytes → Prop) : Bytes → Bytes → Prop
  | done : Patched P [] []
  | copy (c : UInt8) {rest out : Bytes} (h : Patched P rest out) :
    Patched P (c :: rest) (c :: out)
  | patch (part w : Bytes) {rest out : Bytes} (hw : P w) (h : Patched P rest out) :
    Patched P (part ++ rest) (w ++ out)

theorem free_of_append (front : Bytes) (h : Free m (front ++ text)) : Free m text :=
  fun hm => h (hm.trans (List.suffix_append front text).isInfix)

namespace Patched

theorem append (kept : Bytes) (h : Patched P text out) :
    Patched P (kept ++ text) (kept ++ out) := by
  induction kept with
  | nil => exact h
  | cons c kept ih => exact ih.copy c

protected theorem refl (text : Bytes) : Patched P text text := by
  have h := Patched.done (P := P).append text
  rwa [List.append_nil] at h

theorem map (f : UInt8 → UInt8) (h : Patched P text out) :
    Patched (fun w' => ∃ w, P w ∧ w' = w.map f) (text.map f) (out.map f) := by
  induction h with
  | done => exact .done
  | copy c _ ih => exact ih.copy (f c)
  | patch part w hw _ ih =>
    rw [List.map_append, List.map_append]
    exact ih.patch (part.map f) (w.map f) ⟨w, hw, rfl⟩

/-- What a patched text begins with, the text began with: a replacement begins with
something else. -/
theorem isPrefix (hP : ∀ w, P w → ∃ c rest, w = c :: rest ∧ c ∉ p) (h : Patched P text out)
    (hp : p <+: out) : p <+: text := by
  induction h generalizing p with
  | done => exact hp
  | copy c _ ih =>
    cases p with
    | nil => exact List.nil_prefix
    | cons d p =>
      obtain ⟨rfl, hrest⟩ := List.cons_prefix_cons.mp hp
      refine List.cons_prefix_cons.mpr ⟨rfl, ih ?_ hrest⟩
      intro w hw
      obtain ⟨c, rest, rfl, hc⟩ := hP w hw
      exact ⟨c, rest, rfl, fun hmem => hc (List.mem_cons_of_mem d hmem)⟩
  | patch part w hw _ ih =>
    obtain ⟨c, rest, rfl, hc⟩ := hP w hw
    cases p with
    | nil => exact List.nil_prefix
    | cons d p =>
      obtain ⟨rfl, -⟩ := List.cons_prefix_cons.mp hp
      exact absurd List.mem_cons_self hc

end Patched

/-- Behind a sealed text an occurrence lies in what follows. -/
theorem Sealed.free_append (hw : Sealed m w) (hout : Free m out) : Free m (w ++ out) := by
  intro hm
  rcases List.infix_append_iff.mp hm with hm | hm | ⟨front, back, rfl, hfront, hback⟩
  · exact hw.free hm
  · exact hout hm
  · -- the front of the word cannot end the sealed text, so it is empty
    obtain rfl := hw.ends front ((List.mem_inits _ _).mpr (List.prefix_append front back)) hfront
    exact hout hback.isInfix

/-- Replacements that are sealed for a word do not bring it into a text. -/
theorem Patched.free (hP : ∀ w, P w → Sealed m w) (h : Patched P text out)
    (htext : Free m text) : Free m out := by
  induction h with
  | done => exact htext
  | copy c h ih =>
    intro hm
    rcases List.infix_cons_iff.mp hm with hm | hm
    · exact htext ((h.copy c).isPrefix (fun w hw => (hP w hw).head) hm).isInfix
    · exact ih (free_of_append [c] htext) hm
  | patch part w hw _ ih => exact (hP w hw).free_append (ih (free_of_append part htext))

section

variable {r : Regex} {before subject tail : Bytes} {Q : Bytes → Prop}
  {f : Bytes → Bytes → Bytes → List (ℕ × ℕ × ℕ) → Bytes}

/-- A rewriting that keeps the front of every match replaces parts. -/
theorem patched_of_rewrites {text out : Bytes}
    (hf : ∀ before m after groups, r.First before m after groups →
      ∃ kept part w, m = kept ++ part ∧ f before m after groups = kept ++ w ∧ Q w)
    (h : r.Rewrites f tail before text out) : Patched Q text out := by
  induction h with
  | done => exact .done
  | copy _ _ ih => exact ih.copy _
  | edit _ hm _ ih =>
    obtain ⟨kept, part, w, rfl, heq, hw⟩ := hf _ _ _ _ hm
    rw [heq, List.append_assoc, List.append_assoc]
    exact (ih.patch part w hw).append kept

theorem patched_spliceFrom {edits : List Edit} (hedits : ∀ e ∈ edits, e.begin ≤ e.finish ∧ Q e.text)
    (cursor : ℕ) : Patched Q (subject.drop cursor) (spliceFrom subject edits cursor) := by
  induction edits generalizing cursor with
  | nil => exact .refl _
  | cons e edits ih =>
    rw [List.forall_mem_cons] at hedits
    rw [spliceFrom]
    split_ifs with hbehind
    · exact ih hedits.2 cursor
    · -- the text from the cursor on is what is kept, the part replaced and the rest
      have hkept : subject.drop cursor = (subject.drop cursor).take (e.begin - cursor) ++
          ((subject.drop e.begin).take (e.finish - e.begin) ++ subject.drop e.finish) := by
        have hpart := List.take_append_drop (e.finish - e.begin) (subject.drop e.begin)
        have hwhole := List.take_append_drop (e.begin - cursor) (subject.drop cursor)
        rw [List.drop_drop, Nat.add_sub_cancel' hedits.1.1] at hpart
        rw [List.drop_drop, Nat.add_sub_cancel' (not_lt.mp hbehind)] at hwhole
        rw [hpart, hwhole]
      have hpatched := ((ih hedits.2 e.finish).patch
        ((subject.drop e.begin).take (e.finish - e.begin)) e.text hedits.1.2).append
          ((subject.drop cursor).take (e.begin - cursor))
      rwa [← hkept, ← List.append_assoc] at hpatched

theorem patched_flatMap {g : UInt8 → Bytes} (hg : ∀ b, g b = [b] ∨ Q (g b)) (text : Bytes) :
    Patched Q text (text.flatMap g) := by
  induction text with
  | nil => exact .done
  | cons b text ih =>
    rw [List.flatMap_cons]
    rcases hg b with hb | hb
    · rw [hb]
      exact ih.copy b
    · exact ih.patch [b] (g b) hb

end

end Patches
end LogGenerator
