import LogGenerator.Foundation.Bytes

/-!
# Occurrences of a word

Texts as parts without the word and the word between them. The occurrences of a word
that does not overlap itself are the places between the parts.
-/

namespace LogGenerator
namespace Occurrences

variable {m text part rest : Bytes} {parts : List Bytes}

/-- The word does not occur in the text. -/
def Free (m text : Bytes) : Prop := ¬ m <:+: text

/-- No occurrence of the word begins inside another. -/
def Unbordered (m : Bytes) : Prop :=
  ∀ gap behind rest, m ++ rest = gap ++ (m ++ behind) → gap = [] ∨ m.length ≤ gap.length

/-- The first part, and the word before each of the others. -/
def joined (m part : Bytes) (parts : List Bytes) : Bytes := part ++ parts.flatMap (m ++ ·)

theorem indexOf_of_free (h : Free m text) : indexOf m text = none := by
  induction text with
  | nil =>
    rw [indexOf, if_neg]
    rintro rfl
    exact h List.infix_rfl
  | cons b text ih =>
    have hhere : m.isPrefixOf (b :: text) = false := by
      rw [Bool.eq_false_iff]
      exact fun hm => h (List.isPrefixOf_iff_prefix.mp hm).isInfix
    have hrest : Free m text := fun hm => h (hm.trans (List.infix_cons List.infix_rfl))
    simp [indexOf, hhere, ih hrest]

theorem exists_of_indexOf {n : ℕ} (h : indexOf m text = some n) :
    ∃ front behind, text = front ++ (m ++ behind) ∧ front.length = n := by
  induction text generalizing n with
  | nil =>
    rw [indexOf] at h
    split_ifs at h with hm
    exact ⟨[], [], by rw [hm]; rfl, Option.some.inj h⟩
  | cons b text ih =>
    rw [indexOf] at h
    split_ifs at h with hm
    · obtain ⟨behind, hbehind⟩ := List.isPrefixOf_iff_prefix.mp hm
      exact ⟨[], behind, hbehind.symm, Option.some.inj h⟩
    · obtain ⟨k, hk, rfl⟩ := Option.map_eq_some_iff.mp h
      obtain ⟨front, behind, rfl, rfl⟩ := ih hk
      exact ⟨b :: front, behind, rfl, rfl⟩

theorem exists_of_find {position n : ℕ} (h : find text m position = some n) :
    ∃ front behind, text = front ++ (m ++ behind) ∧ front.length = n ∧ position ≤ n := by
  rw [find] at h
  split_ifs at h with hposition
  obtain ⟨k, hk, rfl⟩ := Option.map_eq_some_iff.mp h
  obtain ⟨front, behind, hdrop, rfl⟩ := exists_of_indexOf hk
  refine ⟨text.take position ++ front, behind, ?_, ?_, Nat.le_add_right _ _⟩
  · rw [List.append_assoc, ← hdrop, List.take_append_drop]
  · rw [List.length_append, List.length_take_of_le hposition]

/-- No occurrence begins before the place found. -/
theorem indexOf_le (front : Bytes) (m behind : Bytes) :
    ∃ n, indexOf m (front ++ (m ++ behind)) = some n ∧ n ≤ front.length := by
  induction front with
  | nil =>
    refine ⟨0, ?_, le_rfl⟩
    rw [List.nil_append]
    cases htext : m ++ behind with
    | nil => rw [indexOf, if_pos (List.append_eq_nil_iff.mp htext).1]
    | cons b text => rw [indexOf, if_pos (List.isPrefixOf_iff_prefix.mpr ⟨behind, htext⟩)]
  | cons b front ih =>
    obtain ⟨n, hn, hle⟩ := ih
    rw [List.cons_append, indexOf, hn]
    split_ifs
    · exact ⟨0, rfl, Nat.zero_le _⟩
    · exact ⟨n + 1, rfl, Nat.succ_le_succ hle⟩

/-- The first occurrence does not depend on what follows it. -/
theorem indexOf_cut (h : indexOf m (part ++ (m ++ rest)) = some part.length) :
    indexOf m (part ++ m) = some part.length := by
  obtain ⟨n, hn, hle⟩ := indexOf_le part m []
  rw [List.append_nil] at hn
  obtain ⟨front, behind, htext, rfl⟩ := exists_of_indexOf hn
  obtain ⟨k, hk, hkle⟩ := indexOf_le front m (behind ++ rest)
  have hwhole : part ++ (m ++ rest) = front ++ (m ++ (behind ++ rest)) := by
    rw [← List.append_assoc, htext]
    simp only [List.append_assoc]
  rw [← hwhole, h, Option.some.injEq] at hk
  rw [hn, le_antisymm hle (hk ▸ hkle)]

theorem find_le {front behind : Bytes} {position : ℕ} (h : position ≤ front.length) :
    ∃ n, find (front ++ (m ++ behind)) m position = some n ∧ n ≤ front.length := by
  obtain ⟨n, hn, hle⟩ := indexOf_le (front.drop position) m behind
  have hbound : position ≤ (front ++ (m ++ behind)).length := by
    rw [List.length_append]
    omega
  refine ⟨position + n, ?_, ?_⟩
  · rw [find, if_pos hbound, List.drop_append_of_le_length h, hn]
    rfl
  · rw [List.length_drop] at hle
    omega

/-- An occurrence before which none begins is the first. -/
theorem indexOf_append (h : ∀ front behind, part ++ (m ++ rest) = front ++ (m ++ behind) →
    part.length ≤ front.length) : indexOf m (part ++ (m ++ rest)) = some part.length := by
  induction part with
  | nil =>
    rw [List.nil_append]
    cases htext : m ++ rest with
    | nil =>
      obtain ⟨rfl, rfl⟩ := List.append_eq_nil_iff.mp htext
      rfl
    | cons b text =>
      have hhere : m.isPrefixOf (b :: text) = true :=
        List.isPrefixOf_iff_prefix.mpr ⟨rest, htext⟩
      rw [indexOf, if_pos hhere]
      rfl
  | cons b part ih =>
    have hhere : m.isPrefixOf (b :: (part ++ (m ++ rest))) = false := by
      rw [Bool.eq_false_iff]
      intro hm
      obtain ⟨behind, hbehind⟩ := List.isPrefixOf_iff_prefix.mp hm
      have hlength := h [] behind hbehind.symm
      simp at hlength
    have hlater : ∀ front behind, part ++ (m ++ rest) = front ++ (m ++ behind) →
        part.length ≤ front.length := by
      intro front behind heq
      have hlength := h (b :: front) behind (by rw [List.cons_append, heq, List.cons_append])
      simpa using hlength
    rw [List.cons_append, indexOf, hhere, if_neg Bool.false_ne_true, ih hlater]
    rfl

/-- Behind a part without the word no earlier occurrence begins. -/
theorem Unbordered.length_le (hm : Unbordered m) (hpart : Free m part) {front behind : Bytes}
    (heq : part ++ (m ++ rest) = front ++ (m ++ behind)) : part.length ≤ front.length := by
  rcases List.append_eq_append_iff.mp heq with ⟨beyond, rfl, -⟩ | ⟨gap, rfl, hgap⟩
  · rw [List.length_append]
    omega
  · rcases hm gap rest behind hgap with rfl | hlong
    · simp
    · have hfits : m <+: gap := List.prefix_of_prefix_length_le
        (List.prefix_append m behind) (hgap ▸ List.prefix_append gap _) hlong
      exact absurd (hfits.isInfix.trans (List.suffix_append front gap).isInfix) hpart

theorem indexOf_byte {b : UInt8} (h : b ∉ part) (rest : Bytes) :
    indexOf [b] (part ++ b :: rest) = some part.length := by
  have hunbordered : Unbordered [b] := by
    intro gap behind rest _
    cases gap with
    | nil => exact .inl rfl
    | cons c gap => exact .inr (Nat.succ_le_succ (Nat.zero_le _))
  have hfree : Free [b] part := fun hoccurs => h (hoccurs.subset List.mem_cons_self)
  exact indexOf_append fun front behind heq => hunbordered.length_le hfree heq

theorem find_append (done text m : Bytes) :
    find (done ++ text) m done.length = (indexOf m text).map (done.length + ·) := by
  rw [find, if_pos (by simp), List.drop_left]

/-- The text begins with `part`, then comes the first occurrence of the word, then `behind`. -/
structure Leads (m text part behind : Bytes) : Prop where
  text_eq : text = part ++ (m ++ behind)
  first : ∀ front rest, text = front ++ (m ++ rest) → part.length ≤ front.length

theorem Leads.indexOf_eq {behind : Bytes} (h : Leads m text part behind) :
    indexOf m text = some part.length := by
  rw [h.text_eq]
  exact indexOf_append fun front rest heq => h.first front rest (h.text_eq.trans heq)

theorem exists_leads {n : ℕ} (h : indexOf m text = some n) :
    ∃ part behind, Leads m text part behind ∧ part.length = n := by
  obtain ⟨part, behind, htext, hlength⟩ := exists_of_indexOf h
  refine ⟨part, behind, ⟨htext, fun front rest heq => ?_⟩, hlength⟩
  obtain ⟨k, hk, hle⟩ := indexOf_le front m rest
  rw [← heq, h, Option.some.injEq] at hk
  omega

theorem Leads.find_eq {behind : Bytes} (h : Leads m text part behind) (done : Bytes) :
    find (done ++ text) m done.length = some (done ++ part).length := by
  rw [find_append, h.indexOf_eq, List.length_append]
  rfl

theorem exists_leads_of_find {done : Bytes} {n : ℕ}
    (h : find (done ++ text) m done.length = some n) :
    ∃ part behind, Leads m text part behind ∧ n = (done ++ part).length := by
  rw [find_append] at h
  obtain ⟨k, hk, rfl⟩ := Option.map_eq_some_iff.mp h
  obtain ⟨part, behind, hleads, rfl⟩ := exists_leads hk
  exact ⟨part, behind, hleads, List.length_append.symm⟩

section

variable {set front mid : Bytes} {b : UInt8}

theorem findFirstOf_append (hmid : ∀ c ∈ mid, set.contains c = false) (hb : set.contains b = true)
    (front rest : Bytes) :
    findFirstOf (front ++ (mid ++ b :: rest)) set front.length = some (front ++ mid).length := by
  have hnone : mid.findIdx? (fun c => set.contains c) = none := List.findIdx?_eq_none_iff.mpr hmid
  rw [findFirstOf, List.drop_left, List.findIdx?_append, hnone, List.findIdx?_cons, if_pos hb]
  simp

theorem findLastOf_append (hb : set.contains b = true) (hrest : ∀ c ∈ rest, set.contains c = false)
    (front : Bytes) : findLastOf (front ++ b :: rest) set = some front.length := by
  have hnone : rest.reverse.findIdx? (fun c => set.contains c) = none :=
    List.findIdx?_eq_none_iff.mpr fun c hc => hrest c (List.mem_reverse.mp hc)
  rw [findLastOf, List.reverse_append, List.reverse_cons, List.append_assoc, List.findIdx?_append,
    hnone, List.singleton_append, List.findIdx?_cons, if_pos hb]
  simp

/-- What is found stands there. -/
theorem exists_of_findLastOf {n : ℕ} (h : findLastOf text set = some n) :
    ∃ front b behind, text = front ++ b :: behind ∧ front.length = n ∧ set.contains b = true := by
  obtain ⟨k, hk, rfl⟩ := Option.map_eq_some_iff.mp h
  obtain ⟨hlt, hb, -⟩ := List.findIdx?_eq_some_iff_getElem.mp hk
  rw [List.length_reverse] at hlt
  rw [List.getElem_reverse] at hb
  refine ⟨text.take (text.length - 1 - k), text[text.length - 1 - k],
    text.drop (text.length - 1 - k + 1), ?_, ?_, hb⟩
  · rw [List.getElem_cons_drop, List.take_append_drop]
  · rw [List.length_take]
    omega

end

end Occurrences
end LogGenerator
