import LogGenerator.Application.SanitizeStages

/-!
# Texts of keys and values

What `sanitize` makes of a text of pairs `key=value` with spaces between them, and when
every key is still there.
-/

namespace LogGenerator
namespace Application
namespace PrivacyAnonymizer

open Ascii Regex Runs

variable {before after m rest k w out : Bytes} {ps : List (Bytes × Bytes)}

def pairsText (ps : List (Bytes × Bytes)) : Bytes :=
  List.intercalate [space] (ps.map fun p => p.1 ++ 61 :: p.2)

/-- What stands behind a pair: the space and the other pairs, if any. -/
def following (ps : List (Bytes × Bytes)) : Bytes := if ps = [] then [] else space :: pairsText ps

theorem pairsText_cons (k w : Bytes) (ps : List (Bytes × Bytes)) :
    pairsText ((k, w) :: ps) = k ++ 61 :: (w ++ following ps) := by
  cases ps with
  | nil => simp [pairsText, following]
  | cons p ps => simp [pairsText, following, List.intercalate]

/-- A word without blanks and equals signs. -/
structure Word (w : Bytes) : Prop where
  ne_nil : w ≠ []
  plain : ∀ b ∈ w, isSpace b = false ∧ b ≠ 61

/-- A name that a pair may have: a letter or an underscore, then word characters. -/
structure KeyName (k : Bytes) : Prop where
  start : k.head?.any nameStart = true
  word : ∀ b ∈ k, isWord b = true

/-- The text is one of pairs with these keys in this order. -/
def KeepsKeys (keys : List Bytes) (out : Bytes) : Prop :=
  ∃ ps : List (Bytes × Bytes), ps.map Prod.fst = keys ∧ (∀ p ∈ ps, Word p.2) ∧ out = pairsText ps

theorem isWord_ne : ∀ b : UInt8, isWord b = true → b ≠ 61 ∧ b ≠ 32 ∧ b ≠ 64 := by decide

theorem isWord_of_nameStart : ∀ b : UInt8, nameStart b = true → isWord b = true ∧
    isDigit b = false ∧ b ≠ 43 := by
  decide

theorem KeyName.exists_cons (h : KeyName k) : ∃ b rest, k = b :: rest ∧ nameStart b = true := by
  have hstart := h.start
  cases k with
  | nil => simp at hstart
  | cons b rest => exact ⟨b, rest, rfl, hstart⟩

/-- What may stand behind a value. -/
def Follows (rest : Bytes) : Prop :=
  rest = [] ∨ ∃ b others, rest = space :: b :: others ∧ nameStart b = true

theorem follows_following (h : ∀ p ∈ ps, KeyName p.1) : Follows (following ps) := by
  cases ps with
  | nil => exact .inl rfl
  | cons p ps =>
    obtain ⟨b, name, hname, hstart⟩ := (h p List.mem_cons_self).exists_cons
    refine .inr ⟨b, name ++ 61 :: (p.2 ++ following ps), ?_, hstart⟩
    rw [following, if_neg (List.cons_ne_nil p ps), ← Prod.mk.eta (p := p), pairsText_cons, hname,
      List.cons_append]

theorem count_pairsText (hkeys : ∀ p ∈ ps, KeyName p.1) (hwords : ∀ p ∈ ps, Word p.2) :
    (pairsText ps).count 61 = ps.length := by
  induction ps with
  | nil => rfl
  | cons p ps ih =>
    rw [List.forall_mem_cons] at hkeys hwords
    have hk : p.1.count 61 = 0 := List.count_eq_zero.mpr fun hmem =>
      (isWord_ne 61 (hkeys.1.word 61 hmem)).1 rfl
    have hw : p.2.count 61 = 0 := List.count_eq_zero.mpr fun hmem =>
      (hwords.1.plain 61 hmem).2 rfl
    have hfollowing : (following ps).count 61 = ps.length := by
      rw [following]
      split_ifs with hps
      · rw [hps]; rfl
      · rw [List.count_cons_of_ne (by decide), ih hkeys.2 hwords.2]
    rw [← Prod.mk.eta (p := p), pairsText_cons, List.count_append, List.count_cons_self,
      List.count_append, hk, hw, hfollowing, List.length_cons]
    omega

/-- Every space in the text is followed by a digit. -/
def SpacesLeadToDigits (m : Bytes) : Prop :=
  ∀ x z, m = x ++ space :: z → z.head?.any isDigit = true

/-- No match begins in the key or at the equals sign of a pair in its place. -/
def KeyQuiet (r : Regex) (k w : Bytes) : Prop :=
  ∀ before rest, before.getLast?.all (· == space) = true → Follows rest →
    Quiet r before (k ++ [61]) (w ++ rest)

variable {r : Regex} {f : Bytes → Bytes → Bytes → List (ℕ × ℕ × ℕ) → Bytes}

theorem confined_value (hspaces : ∀ before m after, r.Matches before m after → SpacesLeadToDigits m)
    (hrest : Follows rest) : Confined r before w rest := by
  intro x y hw hy m after htext hm
  rcases List.append_eq_append_iff.mp htext with ⟨c, rfl, hc⟩ | ⟨c, rfl, -⟩
  · cases c with
    | nil => rw [List.append_nil]
    | cons d c =>
      rcases hrest with rfl | ⟨b, others, rfl, hstart⟩
      · simp at hc
      · rw [List.cons_append, List.cons.injEq] at hc
        obtain ⟨rfl, hc⟩ := hc
        have hdigit := hspaces _ _ _ hm y c rfl
        have hnot := (isWord_of_nameStart b hstart).2.1
        cases c with
        | nil => simp at hdigit
        | cons d c =>
          rw [List.cons_append, List.cons.injEq] at hc
          rw [← hc.1, List.head?_cons, Option.any_some, hnot] at hdigit
          cases hdigit
  · rw [List.length_append]
    omega

theorem quiet_space (hspaces : ∀ before m after, r.Matches before m after → SpacesLeadToDigits m)
    (hr : r.consumes = true) {b : UInt8} (hstart : nameStart b = true) :
    Quiet r before [space] (b :: rest) := by
  intro x y hxy hy m after htext hm
  obtain ⟨c, y, rfl⟩ := List.exists_cons_of_ne_nil hy
  obtain ⟨d, m, rfl⟩ := List.exists_cons_of_ne_nil (hm.ne_nil hr)
  have hx : x = [] := by
    cases x with
    | nil => rfl
    | cons e x => simp at hxy
  subst hx
  rw [List.nil_append, List.cons.injEq] at hxy
  obtain ⟨rfl, rfl⟩ := hxy
  rw [List.cons_append, List.cons_append, List.cons.injEq, List.nil_append] at htext
  obtain ⟨rfl, htext⟩ := htext
  have hdigit := hspaces _ _ _ hm [] m rfl
  have hnot := (isWord_of_nameStart b hstart).2.1
  cases m with
  | nil => simp at hdigit
  | cons d m =>
    rw [List.cons_append, List.cons.injEq] at htext
    rw [← htext.1, List.head?_cons, Option.any_some, hnot] at hdigit
    cases hdigit

/-- What a rewriting puts in place of a match is a word when the match is made of the bytes
of words. -/
def KeepsWords (r : Regex) (f : Bytes → Bytes → Bytes → List (ℕ × ℕ × ℕ) → Bytes) : Prop :=
  ∀ before m after groups, r.First before m after groups →
    (∀ b ∈ m, isSpace b = false ∧ b ≠ 61) → Word (f before m after groups)

theorem Word.rewrites (hw : Word w) (hf : KeepsWords r f)
    (h : Rewrites r f rest before w out) : Word out := by
  have hplain := h.forall_mem hw.plain fun before m after groups hm hfirst =>
    (hf before m after groups hfirst hm).plain
  refine ⟨?_, hplain⟩
  cases h with
  | done => exact hw.ne_nil
  | copy => exact List.cons_ne_nil _ _
  | @edit _ m tail _ _ hne hm h =>
    have hmplain := (List.forall_mem_append.mp hw.plain).1
    exact List.append_ne_nil_of_left_ne_nil (hf _ _ _ _ hm hmplain).ne_nil _

/-- A pair and what follows it are rewritten apart when no match begins in the key. -/
theorem rewrites_pair
    (hspaces : ∀ before m after, r.Matches before m after → SpacesLeadToDigits m)
    (hr : r.consumes = true) (hquiet : KeyQuiet r k w) (hkeys : ∀ p ∈ ps, KeyName p.1)
    (hbefore : before.getLast?.all (· == space) = true)
    (h : Rewrites r f [] before (pairsText ((k, w) :: ps)) out) :
    ∃ w' o, Rewrites r f (following ps) (before ++ (k ++ [61])) w w' ∧
      (ps = [] ∧ out = k ++ 61 :: w' ∨ ps ≠ [] ∧ out = k ++ 61 :: (w' ++ space :: o) ∧
        ∃ before', before'.getLast?.all (· == space) = true ∧
          Rewrites r f [] before' (pairsText ps) o) := by
  have hrest := follows_following hkeys
  have htext : pairsText ((k, w) :: ps) = (k ++ [61]) ++ (w ++ following ps) := by
    rw [pairsText_cons]
    simp
  rw [htext] at h
  obtain ⟨o, rfl, hvalue⟩ := h.append_of_quiet (by
    rw [List.append_nil]
    exact hquiet before (following ps) hbefore hrest)
  obtain ⟨w', o, rfl, hw', hothers⟩ := hvalue.split (by
    rw [List.append_nil]
    exact confined_value hspaces hrest)
  rw [List.append_nil] at hw'
  by_cases hps : ps = []
  · subst hps
    rw [show following [] = [] from rfl] at hothers
    exact ⟨w', [], hw', .inl ⟨rfl, by simp [hothers.of_nil]⟩⟩
  · obtain ⟨b, others, htext, hstart⟩ : ∃ b others, pairsText ps = b :: others ∧
        nameStart b = true := by
      rcases hrest with hnil | ⟨b, others, htext, hstart⟩
      · simp [following, hps] at hnil
      · rw [following, if_neg hps, List.cons.injEq] at htext
        exact ⟨b, others, htext.2, hstart⟩
    rw [following, if_neg hps] at hothers
    have hspace : Rewrites r f [] _ ([space] ++ pairsText ps) o := hothers
    obtain ⟨o, rfl, ho⟩ := hspace.append_of_quiet (by
      rw [htext, List.append_nil]
      exact quiet_space hspaces hr hstart)
    refine ⟨w', o, hw', .inr ⟨hps, by simp, _, ?_, ho⟩⟩
    rw [List.getLast?_concat]
    rfl

/-- A stage whose matches stay inside the values keeps the keys. -/
theorem keepsKeys_of_rewrites
    (hspaces : ∀ before m after, r.Matches before m after → SpacesLeadToDigits m)
    (hr : r.consumes = true) (hf : KeepsWords r f) (hkeys : ∀ p ∈ ps, KeyName p.1)
    (hwords : ∀ p ∈ ps, Word p.2) (hquiet : ∀ p ∈ ps, KeyQuiet r p.1 p.2)
    (hbefore : before.getLast?.all (· == space) = true)
    (h : Rewrites r f [] before (pairsText ps) out) : KeepsKeys (ps.map Prod.fst) out := by
  induction ps generalizing before out with
  | nil => exact ⟨[], rfl, nofun, h.of_nil⟩
  | cons p ps ih =>
    rw [List.forall_mem_cons] at hkeys hwords hquiet
    obtain ⟨w', o, hw', hout⟩ := rewrites_pair hspaces hr hquiet.1 hkeys.2 hbefore h
    have hword := hwords.1.rewrites hf hw'
    rcases hout with ⟨rfl, rfl⟩ | ⟨hps, rfl, before', hbefore', ho⟩
    · refine ⟨[(p.1, w')], rfl, by simpa using hword, ?_⟩
      simp [pairsText]
    · obtain ⟨qs, hqs, hqwords, rfl⟩ := ih hkeys.2 hwords.2 hquiet.2 hbefore' ho
      have hne : qs ≠ [] := by
        rintro rfl
        exact hps (List.map_eq_nil_iff.mp hqs.symm)
      refine ⟨(p.1, w') :: qs, by simp [hqs], List.forall_mem_cons.mpr ⟨hword, hqwords⟩, ?_⟩
      rw [pairsText_cons, following, if_neg hne]

theorem spaces_of_not_mem (h : space ∉ m) : SpacesLeadToDigits m := by
  rintro x z rfl
  exact absurd (List.mem_append_right x List.mem_cons_self) h

theorem spaces_of_uses (hr : r.uses space = false) :
    ∀ before m after, r.Matches before m after → SpacesLeadToDigits m := by
  intro before m after hm
  apply spaces_of_not_mem
  intro hspace
  rw [uses_of_matches hm space hspace] at hr
  cases hr

theorem SpacesLeadToDigits.append {m' : Bytes} (h : SpacesLeadToDigits m)
    (h' : SpacesLeadToDigits m') : SpacesLeadToDigits (m ++ m') := by
  intro x z heq
  rcases List.append_eq_append_iff.mp heq with ⟨c, rfl, hc⟩ | ⟨c, rfl, hc⟩
  · exact h' c z hc
  · cases c with
    | nil => exact h' [] z hc.symm
    | cons b c =>
      rw [List.cons_append, List.cons.injEq] at hc
      obtain ⟨rfl, rfl⟩ := hc
      have hdigit := h x c rfl
      cases c with
      | nil => simp at hdigit
      | cons b c => exact hdigit

/-- An optional dash or space before a digit. -/
theorem SpacesLeadToDigits.dash {o : Bytes} (ho : (opt (oneOf "- ")).Matches before o after)
    (hdigit : m.head?.any isDigit = true) (h : SpacesLeadToDigits m) :
    SpacesLeadToDigits (o ++ m) := by
  rcases matches_opt.mp ho with rfl | ⟨b, rfl, -⟩
  · exact h
  · intro x z heq
    cases x with
    | nil =>
      obtain ⟨-, rfl⟩ := List.cons.inj heq
      exact hdigit
    | cons c x => exact h x z (List.cons.inj heq).2

theorem spaces_of_digits (h : ∀ b ∈ m, isDigit b = true) : SpacesLeadToDigits m :=
  spaces_of_not_mem fun hmem => absurd (h space hmem) (by decide)

theorem head_digit (hne : m ≠ []) (h : ∀ b ∈ m, isDigit b = true) (rest : Bytes) :
    (m ++ rest).head?.any isDigit = true := by
  obtain ⟨b, m, rfl⟩ := List.exists_cons_of_ne_nil hne
  exact h b List.mem_cons_self

theorem spaces_residentPattern (before m after : Bytes)
    (h : residentPattern.Matches before m after) : SpacesLeadToDigits m := by
  obtain ⟨e, m', rfl, ⟨rfl, -⟩, front, rest, rfl, hfront, o, rest', rfl, ho, d, rest'', rfl,
    ⟨b, rfl, hb⟩, back, e', rfl, hback, e₁, e₂, rfl, ⟨rfl, -⟩, rfl⟩ := h
  have hrange : ∀ b : UInt8, ('1'.toNat ≤ b.toNat && b.toNat ≤ '8'.toNat) = true →
      isDigit b = true := by
    decide
  have hfront := (matches_times_set.mp hfront).2
  have hback : ∀ c ∈ b :: back, isDigit c = true :=
    List.forall_mem_cons.mpr ⟨hrange b hb, (matches_times_set.mp hback).2⟩
  apply (spaces_of_digits hfront).append
  apply SpacesLeadToDigits.dash ho
  · exact hrange b hb
  · simpa using spaces_of_digits hback

theorem spaces_phonePattern (before m after : Bytes) (h : phonePattern.Matches before m after) :
    SpacesLeadToDigits m := by
  have hkind : ∀ b : UInt8, (bytes "016789").contains b = true → isDigit b = true := by
    decide
  obtain ⟨front, rest, rfl, hfront, o, rest', rfl, ho, middle, rest'', rfl, hmiddle, o', rest₃, rfl,
    ho', back, e, rfl, hback, e₁, e₂, rfl, ⟨rfl, -⟩, rfl⟩ := h
  obtain ⟨hlength, hback⟩ := matches_times_set.mp hback
  obtain ⟨⟨hlong, -⟩, hmiddle⟩ := (matches_between_set (by decide)).mp hmiddle
  have hback_ne : back ≠ [] := by
    rintro rfl
    simp at hlength
  have hmiddle_ne : middle ≠ [] := by
    rintro rfl
    simp at hlong
  have hend : SpacesLeadToDigits (o' ++ (back ++ ([] ++ []))) := by
    apply SpacesLeadToDigits.dash ho' (head_digit hback_ne hback _)
    simpa using spaces_of_digits hback
  have hrest : SpacesLeadToDigits (o ++ (middle ++ (o' ++ (back ++ ([] ++ []))))) := by
    apply SpacesLeadToDigits.dash ho (head_digit hmiddle_ne hmiddle _)
    exact (spaces_of_digits hmiddle).append hend
  refine SpacesLeadToDigits.append ?_ hrest
  rcases hfront with ⟨plus', f', rfl, hplus, dash, f'', rfl, hdash, zero, f₃, rfl, hzero, one, f₄,
    rfl, hone, kind, e, rfl, ⟨b, rfl, hb⟩, rfl⟩ | ⟨e, f', rfl, ⟨rfl, -⟩, zero, f'', rfl, hzero,
    kind, e', rfl, ⟨b, rfl, hb⟩, rfl⟩
  · obtain rfl := matches_lit.mp hplus
    obtain rfl := matches_lit.mp hone
    have hcode : SpacesLeadToDigits (bytes "+82") := spaces_of_not_mem (by decide)
    have htail : ∀ c ∈ bytes "1" ++ ([b] ++ []), isDigit c = true := by
      rw [List.forall_mem_append]
      exact ⟨by decide, by simpa using hkind b hb⟩
    refine hcode.append (SpacesLeadToDigits.dash hdash ?_ ?_)
    · rcases matches_opt.mp hzero with rfl | hzero
      · rfl
      · rw [matches_lit.mp hzero]
        rfl
    · rcases matches_opt.mp hzero with rfl | hzero
      · exact spaces_of_digits htail
      · rw [matches_lit.mp hzero]
        exact SpacesLeadToDigits.append (spaces_of_not_mem (by decide)) (spaces_of_digits htail)
  · obtain rfl := matches_lit.mp hzero
    apply spaces_of_not_mem
    simp only [List.nil_append, List.append_nil, List.mem_append, List.mem_singleton, not_or]
    refine ⟨by decide, ?_⟩
    rintro rfl
    exact absurd (hkind _ hb) (by decide)

/-- A plus sign, or at the edge of a word a digit or a run of word characters that does not
end at an equals sign. -/
def Opens (before m after : Bytes) : Prop :=
  (∃ rest, m = 43 :: rest) ∨ WordEdge before (m ++ after) ∧
    ((∃ b rest, m = b :: rest ∧ isDigit b = true) ∨ ∃ u c rest, m = u ++ c :: rest ∧ u ≠ [] ∧
      (∀ b ∈ u, isWord b = true) ∧ isWord c = false ∧ c ≠ 61)

theorem isWord_of_isDigit : ∀ b : UInt8, isDigit b = true → isWord b = true := by decide

theorem Opens.head (h : Opens before m after) :
    ∃ b rest, m = b :: rest ∧ (b = 43 ∨ WordEdge before (m ++ after) ∧ isWord b = true) := by
  rcases h with ⟨rest, rfl⟩ | ⟨hedge, ⟨b, rest, rfl, hb⟩ | ⟨u, c, rest, rfl, hu, hword, -⟩⟩
  · exact ⟨43, rest, rfl, .inl rfl⟩
  · exact ⟨b, rest, rfl, .inr ⟨hedge, isWord_of_isDigit b hb⟩⟩
  · obtain ⟨b, u, rfl⟩ := List.exists_cons_of_ne_nil hu
    exact ⟨b, u ++ c :: rest, rfl, .inr ⟨hedge, hword b List.mem_cons_self⟩⟩

theorem keyQuiet_of_opens (hk : KeyName k)
    (hopens : ∀ before m after, r.Matches before m after → Opens before m after) :
    KeyQuiet r k w := by
  intro before rest _ _ x y hxy hy m after htext hm
  have hopen := hopens _ _ _ hm
  obtain ⟨b, m', rfl, hb⟩ := hopen.head
  obtain ⟨c, y', rfl⟩ := List.exists_cons_of_ne_nil hy
  obtain rfl : c = b := (List.cons.inj htext).1
  have hmem : c ∈ k ++ [61] := hxy ▸ List.mem_append_right x List.mem_cons_self
  rcases hb with rfl | ⟨hedge, hword⟩
  · rcases List.mem_append.mp hmem with hk' | hk'
    · exact absurd (hk.word 43 hk') (by decide)
    · simp at hk'
  · have hx : x <+: k := by
      rcases List.append_eq_append_iff.mp hxy with ⟨u, rfl, hu⟩ | ⟨u, rfl, -⟩
      · cases u with
        | nil => simp
        | cons d u =>
          have hlength := congrArg List.length hu
          simp at hlength
      · exact List.prefix_append x u
    cases hlast : x.getLast? with
    | some d =>
      -- inside the key there is no edge of a word
      have hd := hk.word d (hx.subset (List.mem_of_getLast? hlast))
      refine hedge ?_
      rw [List.getLast?_append, hlast, List.cons_append, List.head?_cons]
      simp [hd, hword]
    | none =>
      obtain rfl := List.getLast?_eq_none_iff.mp hlast
      rw [List.nil_append] at hxy
      rw [← hxy] at htext
      rcases hopen with ⟨rest', hplus⟩ | ⟨-, ⟨d, rest', hm', hdigit⟩ |
        ⟨u, d, rest', hm', hu, hwords, hnot, hne⟩⟩
      · rw [(List.cons.inj hplus).1] at hword
        exact absurd hword (by decide)
      · obtain ⟨e, name, rfl, hstart⟩ := hk.exists_cons
        obtain rfl : e = c := (List.cons.inj htext).1
        rw [← (List.cons.inj hm').1, (isWord_of_nameStart e hstart).2.1] at hdigit
        cases hdigit
      · have hleft : (k ++ 61 :: (w ++ rest)).dropWhile isWord = 61 :: (w ++ rest) :=
          dropWhile_append hk.word rfl
        have hright : (u ++ d :: (rest' ++ after)).dropWhile isWord = d :: (rest' ++ after) :=
          dropWhile_append hwords hnot
        have heq : k ++ 61 :: (w ++ rest) = u ++ d :: (rest' ++ after) := by
          rw [hm'] at htext
          simpa using htext
        rw [heq, hright] at hleft
        exact hne (List.cons.inj hleft).1

theorem opens_phonePattern (before m after : Bytes) (h : phonePattern.Matches before m after) :
    Opens before m after :=
  (matches_phonePattern h).imp id fun ⟨hedge, c, rest, hm⟩ =>
    ⟨hedge, .inl ⟨48, 49 :: c :: rest, hm, rfl⟩⟩

theorem opens_residentPattern (before m after : Bytes)
    (h : residentPattern.Matches before m after) : Opens before m after := by
  obtain ⟨hedge, front, rest, rfl, hlength, hdigits⟩ := matches_residentPattern h
  obtain ⟨b, front, rfl⟩ := List.exists_cons_of_length_eq_add_one hlength
  exact .inr ⟨hedge, .inl ⟨b, front ++ rest, rfl, hdigits b List.mem_cons_self⟩⟩

theorem opens_macPattern (before m after : Bytes) (h : macPattern.Matches before m after) :
    Opens before m after := by
  obtain ⟨hedge, a, b, c, rest, rfl, ha, hb, hc⟩ := matches_macPattern h
  refine .inr ⟨hedge, .inr ⟨[a, b], c, rest, rfl, List.cons_ne_nil _ _, by simp [ha, hb], ?_⟩⟩
  rcases hc with rfl | rfl
  all_goals decide

theorem isWord_of_isAlpha : ∀ b : UInt8, isAlpha b = true → isWord b = true := by decide

theorem opens_userPathPattern (before m after : Bytes)
    (h : userPathPattern.Matches before m after) : Opens before m after := by
  obtain ⟨hedge, a, rest, rfl, ha⟩ := matches_userPathPattern h
  exact .inr ⟨hedge, .inr ⟨[a], 58, rest, rfl, List.cons_ne_nil _ _,
    by simpa using isWord_of_isAlpha a ha, by decide, by decide⟩⟩

/-- An e-mail address whose local part begins before the text would take in its beginning. -/
def mailLike (w : Bytes) : Bool :=
  !(mailHost.run (.between (w.takeWhile mailCharacter) (w.dropWhile mailCharacter))).isEmpty

theorem not_mailCharacter_at : mailCharacter 64 = false := by decide

theorem mailLike_iff : mailLike w = true ↔
    ∃ l h z, w = l ++ (h ++ z) ∧ (∀ b ∈ l, mailCharacter b = true) ∧ mailHost.Matches l h z := by
  have hrun : mailLike w = true ↔ mailHost.run
      (.between (w.takeWhile mailCharacter) (w.dropWhile mailCharacter)) ≠ [] := by
    simp [mailLike]
  rw [hrun, run_ne_nil_iff]
  constructor
  · rintro ⟨h, z, hw, hm⟩
    refine ⟨w.takeWhile mailCharacter, h, z, ?_, List.all_eq_true.mp List.all_takeWhile, hm⟩
    rw [← hw, List.takeWhile_append_dropWhile]
  · rintro ⟨l, h, z, rfl, hl, hm⟩
    obtain ⟨d, rfl, -⟩ := matches_mailHost.mp hm
    have hstops : Stops mailCharacter (64 :: (d ++ z)) := not_mailCharacter_at
    have htake : (l ++ (64 :: d ++ z)).takeWhile mailCharacter = l := takeWhile_append hl hstops
    have hdrop : (l ++ (64 :: d ++ z)).dropWhile mailCharacter = 64 :: d ++ z :=
      dropWhile_append hl hstops
    rw [htake, hdrop]
    exact ⟨64 :: d, z, rfl, hm⟩

theorem wordEdge_follows (hrest : Follows rest) (m z : Bytes) :
    WordEdge m (z ++ rest) ↔ WordEdge m z := by
  cases z with
  | cons b z => exact Iff.rfl
  | nil =>
    rcases hrest with rfl | ⟨b, others, rfl, -⟩
    · exact Iff.rfl
    · rw [WordEdge, WordEdge, List.nil_append, List.head?_cons, List.head?_nil, Option.any_some,
        Option.any_none, show isWord space = false from rfl]

theorem uses_emailPattern_space : emailPattern.uses space = false := by decide

/-- A match over the beginning of a value: the at sign and the domain are in the value. -/
theorem mailLike_of_match {y : Bytes} (hw : Word w) (hrest : Follows rest) (hy : (64 : UInt8) ∉ y)
    (htext : y ++ (w ++ rest) = m ++ after) (hm : emailPattern.Matches before m after) :
    mailLike w = true ∧ y <+: m := by
  have hspace : space ∉ m := fun hmem => by
    have huses := uses_of_matches hm space hmem
    rw [uses_emailPattern_space] at huses
    cases huses
  obtain ⟨-, l, h, rfl, ⟨-, hl⟩, hhost⟩ := matches_emailPattern.mp hm
  obtain ⟨d, rfl, hdomain, hedge⟩ := matches_mailHost.mp hhost
  rw [List.append_assoc] at htext
  obtain ⟨l', rfl, hvalue⟩ : ∃ l', l = y ++ l' ∧ w ++ rest = l' ++ (64 :: d ++ after) := by
    rcases List.append_eq_append_iff.mp htext with ⟨l', rfl, hl'⟩ | ⟨c, rfl, hc⟩
    · exact ⟨l', rfl, hl'⟩
    · cases c with
      | nil => exact ⟨[], by simp, by simpa using hc.symm⟩
      | cons b c =>
        rw [List.cons_append, List.cons_append, List.cons.injEq] at hc
        rw [hc.1] at hy
        simp at hy
  refine ⟨?_, by rw [List.append_assoc]; exact List.prefix_append y _⟩
  obtain ⟨z, rfl, rfl⟩ : ∃ z, w = l' ++ (64 :: d ++ z) ∧ after = z ++ rest := by
    rw [← List.append_assoc] at hvalue
    rcases List.append_eq_append_iff.mp hvalue with ⟨c, hc, hrest'⟩ | ⟨z, rfl, hz⟩
    · cases c with
      | nil => exact ⟨[], by simpa using hc.symm, by simpa using hrest'.symm⟩
      | cons b c =>
        rcases hrest with rfl | ⟨e, others, rfl, -⟩
        · simp at hrest'
        · rw [List.cons_append, List.cons.injEq] at hrest'
          rw [List.append_assoc, hc, ← hrest'.1] at hspace
          simp at hspace
    · exact ⟨z, by rw [List.append_assoc], hz⟩
  rw [List.forall_mem_append] at hl
  refine mailLike_iff.mpr ⟨l', 64 :: d, z, rfl, hl.2, matches_mailHost.mpr ⟨d, rfl, hdomain, ?_⟩⟩
  exact (wordEdge_follows hrest _ z).mp hedge

theorem keyQuiet_emailPattern (hk : KeyName k) (hw : Word w) (hmail : mailLike w = false) :
    KeyQuiet emailPattern k w := by
  intro before rest _ hrest x y hxy _ m after htext hm
  have hy : (64 : UInt8) ∉ y := by
    intro hmem
    have hmem' : (64 : UInt8) ∈ k ++ [61] := hxy ▸ List.mem_append_right x hmem
    rcases List.mem_append.mp hmem' with hk' | hk'
    · exact (isWord_ne 64 (hk.word 64 hk')).2.2 rfl
    · simp at hk'
  rw [(mailLike_of_match hw hrest hy htext hm).1] at hmail
  cases hmail

theorem mailCharacter_of_isWord : ∀ b : UInt8, isWord b = true → mailCharacter b = true := by
  decide

/-- A value that is like the end of an e-mail address is taken for one with its key. -/
theorem matches_key (hk : KeyName k) (hrest : Follows rest) (hmail : mailLike w = true)
    (hbefore : before.getLast?.all (· == space) = true) :
    ∃ m after, k ++ 61 :: (w ++ rest) = m ++ after ∧ emailPattern.Matches before m after := by
  obtain ⟨l, h, z, rfl, hl, hhost⟩ := mailLike_iff.mp hmail
  obtain ⟨d, rfl, hdomain, hedge⟩ := matches_mailHost.mp hhost
  obtain ⟨b, name, rfl, hstart⟩ := hk.exists_cons
  refine ⟨(b :: name ++ 61 :: l) ++ 64 :: d, z ++ rest, by simp, matches_emailPattern.mpr
    ⟨?_, b :: name ++ 61 :: l, 64 :: d, rfl, ⟨List.cons_ne_nil _ _, ?_⟩, matches_mailHost.mpr
      ⟨d, rfl, hdomain, (wordEdge_follows hrest _ z).mpr hedge⟩⟩⟩
  · have hb := (isWord_of_nameStart b hstart).1
    have hnot : before.getLast?.any isWord = false := by
      cases hlast : before.getLast? with
      | none => rfl
      | some c =>
        rw [hlast, Option.all_some, beq_iff_eq] at hbefore
        rw [hbefore]
        rfl
    rw [WordEdge, hnot]
    simp [hb]
  · rw [List.forall_mem_append, List.forall_mem_cons (a := (61 : UInt8))]
    exact ⟨fun c hc => mailCharacter_of_isWord c (hk.word c hc), by decide, hl⟩

theorem marker_word {kind : PrivacyTokenKind} (h : kind ≠ .none) : Word (marker kind) := by
  cases kind
  case none => exact absurd rfl h
  all_goals exact ⟨by decide, by decide⟩

theorem keepsWords_marker (r : Regex) {kind : PrivacyTokenKind} (h : kind ≠ .none) :
    KeepsWords r fun _ _ _ _ => marker kind := fun _ _ _ _ _ _ => marker_word h

theorem Word.count (hw : Word w) : w.count 61 = 0 :=
  List.count_eq_zero.mpr fun hmem => (hw.plain 61 hmem).2 rfl

theorem count_replacePattern_le {pattern : Regex} (hr : pattern.consumes = true)
    {kind : PrivacyTokenKind} (h : kind ≠ .none) (text : Bytes) :
    (replacePattern text pattern kind).count 61 ≤ text.count 61 :=
  (replacePattern_rewrites hr text kind).count_le 61 fun _ _ _ _ _ => by
    rw [(marker_word h).count]
    exact Nat.zero_le _

/-- The address takes a key in, and its equals sign is lost. -/
theorem count_emailStage_lt (hkeys : ∀ p ∈ ps, KeyName p.1) (hwords : ∀ p ∈ ps, Word p.2)
    (hmail : ∃ p ∈ ps, mailLike p.2 = true) (hbefore : before.getLast?.all (· == space) = true)
    (h : Rewrites emailPattern (fun _ _ _ _ => marker .email) [] before (pairsText ps) out) :
    out.count 61 < (pairsText ps).count 61 := by
  have hmarker (m : Bytes) : (marker .email).count 61 ≤ m.count 61 := by
    rw [(marker_word (by decide)).count]
    exact Nat.zero_le _
  induction ps generalizing before out with
  | nil =>
    obtain ⟨p, hp, -⟩ := hmail
    cases hp
  | cons p ps ih =>
    obtain ⟨k, w⟩ := p
    rw [List.forall_mem_cons] at hkeys hwords
    have hrest := follows_following hkeys.2
    cases hhead : mailLike w with
    | true =>
      obtain ⟨b, name, hname, -⟩ := hkeys.1.exists_cons
      rw [pairsText_cons] at h ⊢
      obtain ⟨m, rest, groups, o, htext, hfirst, rfl, ho⟩ := h.edited (by simp) (by
        rw [List.append_nil]
        exact matches_key hkeys.1 hrest hhead hbefore)
      have hkey : (64 : UInt8) ∉ k ++ [61] := by
        intro hmem
        rcases List.mem_append.mp hmem with hk' | hk'
        · exact (isWord_ne 64 (hkeys.1.word 64 hk')).2.2 rfl
        · simp at hk'
      have hall : (k ++ [61]) ++ (w ++ following ps) = m ++ rest := by simpa using htext
      rw [List.append_nil] at hfirst
      have hcovers := (mailLike_of_match hwords.1 hrest hkey hall hfirst.matches).2
      have hlost : 0 < m.count 61 :=
        List.count_pos_iff.mpr (hcovers.subset (List.mem_append_right k List.mem_cons_self))
      have hle := ho.count_le 61 fun _ m _ _ _ => hmarker m
      rw [htext, List.count_append, List.count_append, (marker_word (by decide)).count]
      omega
    | false =>
      obtain ⟨p, hp, hlike⟩ := hmail
      have hlater : ∃ p ∈ ps, mailLike p.2 = true := by
        rcases List.mem_cons.mp hp with rfl | hp
        · rw [hhead] at hlike
          cases hlike
        · exact ⟨p, hp, hlike⟩
      obtain ⟨w', o, hw', hout⟩ := rewrites_pair (spaces_of_uses uses_emailPattern_space)
        (by decide) (keyQuiet_emailPattern hkeys.1 hwords.1 hhead) hkeys.2 hbefore h
      have hcount := (hwords.1.rewrites (keepsWords_marker _ (by decide)) hw').count
      rcases hout with ⟨rfl, rfl⟩ | ⟨hps, rfl, before', hbefore', ho⟩
      · obtain ⟨q, hq, -⟩ := hlater
        cases hq
      · have hless := ih hkeys.2 hwords.2 hlater hbefore' ho
        rw [pairsText_cons, following, if_neg hps, List.count_append, List.count_append,
          List.count_cons_self, List.count_cons_self, List.count_append, List.count_append,
          List.count_cons_of_ne (by decide), List.count_cons_of_ne (by decide), hcount]
        dsimp only
        omega

theorem replacePattern_keepsKeys {pattern : Regex} {kind : PrivacyTokenKind} {text : Bytes}
    {keys : List Bytes} (hr : pattern.consumes = true) (hkind : kind ≠ .none)
    (hspaces : ∀ before m after, pattern.Matches before m after → SpacesLeadToDigits m)
    (hopens : ∀ before m after, pattern.Matches before m after → Opens before m after)
    (hkeys : ∀ k ∈ keys, KeyName k) (h : KeepsKeys keys text) :
    KeepsKeys keys (replacePattern text pattern kind) := by
  obtain ⟨ps, rfl, hwords, rfl⟩ := h
  rw [List.forall_mem_map] at hkeys
  exact keepsKeys_of_rewrites hspaces hr (keepsWords_marker pattern hkind) hkeys hwords
    (fun p hp => keyQuiet_of_opens (hkeys p hp) hopens) rfl (replacePattern_rewrites hr _ kind)

theorem userPath_kept {groups : List (ℕ × ℕ × ℕ)}
    (h : userPathPattern.First before m after groups) :
    ∃ m₁ m₂, m = m₁ ++ m₂ ∧ keptGroup (bytes "TestUser") before m after groups =
      m₁ ++ bytes "TestUser" := by
  obtain ⟨m₁, m₂, hm, -, hkept⟩ := keptGroup_eq (by decide) h
  exact ⟨m₁, m₂, hm, hkept⟩

theorem replaceUserPath_keepsKeys {text : Bytes} {keys : List Bytes}
    (hkeys : ∀ k ∈ keys, KeyName k) (h : KeepsKeys keys text) :
    KeepsKeys keys (replaceKeepingGroup text userPathPattern (bytes "TestUser")) := by
  obtain ⟨ps, rfl, hwords, rfl⟩ := h
  rw [List.forall_mem_map] at hkeys
  apply keepsKeys_of_rewrites (spaces_of_uses (by decide)) (by decide) ?_ hkeys hwords
    (fun p hp => keyQuiet_of_opens (hkeys p hp) opens_userPathPattern) rfl
    (replaceKeepingGroup_rewrites (by decide) _ _)
  intro before m after groups hfirst hm
  obtain ⟨m₁, m₂, rfl, hkept⟩ := userPath_kept hfirst
  rw [hkept]
  refine ⟨List.append_ne_nil_of_right_ne_nil _ (by decide), ?_⟩
  rw [List.forall_mem_append]
  exact ⟨(List.forall_mem_append.mp hm).1, by decide⟩

theorem count_replaceUserPath_le (text : Bytes) :
    (replaceKeepingGroup text userPathPattern (bytes "TestUser")).count 61 ≤ text.count 61 := by
  apply (replaceKeepingGroup_rewrites (by decide) text _).count_le 61
  intro before m after groups hfirst
  obtain ⟨m₁, m₂, rfl, hkept⟩ := userPath_kept hfirst
  rw [hkept, List.count_append, List.count_append, show (bytes "TestUser").count 61 = 0 by decide]
  omega

theorem escape_append (u v : Bytes) : escapeUnsupportedControls (u ++ v) =
    escapeUnsupportedControls u ++ escapeUnsupportedControls v := List.flatMap_append

theorem escape_word (hword : ∀ b ∈ k, isWord b = true) : escapeUnsupportedControls k = k := by
  have hsame : ∀ b : UInt8, isWord b = true → (controlEscape b).getD [b] = [b] := by
    decide
  induction k with
  | nil => rfl
  | cons b k ih =>
    rw [List.forall_mem_cons] at hword
    rw [escapeUnsupportedControls, List.flatMap_cons, hsame b hword.1, ← escapeUnsupportedControls,
      ih hword.2, List.singleton_append]

theorem Word.escape (hw : Word w) : Word (escapeUnsupportedControls w) := by
  have hbyte : ∀ b : UInt8, isSpace b = false ∧ b ≠ 61 → (controlEscape b).getD [b] ≠ [] ∧
      ∀ c ∈ (controlEscape b).getD [b], isSpace c = false ∧ c ≠ 61 := by
    decide
  refine ⟨?_, ?_⟩
  · obtain ⟨b, rest, rfl⟩ := List.exists_cons_of_ne_nil hw.ne_nil
    exact List.append_ne_nil_of_left_ne_nil (hbyte b (hw.plain b List.mem_cons_self)).1 _
  · intro c hc
    obtain ⟨b, hb, hc⟩ := List.mem_flatMap.mp hc
    exact (hbyte b (hw.plain b hb)).2 c hc

theorem escape_keepsKeys {text : Bytes} {keys : List Bytes} (hkeys : ∀ k ∈ keys, KeyName k)
    (h : KeepsKeys keys text) : KeepsKeys keys (escapeUnsupportedControls text) := by
  obtain ⟨ps, rfl, hwords, rfl⟩ := h
  rw [List.forall_mem_map] at hkeys
  refine ⟨ps.map fun p => (p.1, escapeUnsupportedControls p.2), ?_, ?_, ?_⟩
  · rw [List.map_map]
    rfl
  · exact List.forall_mem_map.mpr fun p hp => (hwords p hp).escape
  · clear hwords
    induction ps with
    | nil => rfl
    | cons p ps ih =>
      rw [List.forall_mem_cons] at hkeys
      have hfollowing : escapeUnsupportedControls (following ps) =
          following (ps.map fun p => (p.1, escapeUnsupportedControls p.2)) := by
        rw [following, following]
        by_cases hps : ps = []
        · rw [hps]; rfl
        · rw [if_neg hps, if_neg (by simpa using hps), ← ih hkeys.2]
          rfl
      rw [← Prod.mk.eta (p := p), pairsText_cons, List.map_cons, pairsText_cons, escape_append,
        escape_word hkeys.1.word, ← hfollowing, ← escape_append]
      rfl

theorem count_escape_le (text : Bytes) :
    (escapeUnsupportedControls text).count 61 ≤ text.count 61 := by
  have hbyte : ∀ b : UInt8, ((controlEscape b).getD [b]).count 61 ≤ [b].count 61 := by
    decide
  induction text with
  | nil => exact le_rfl
  | cons b text ih =>
    have hb := hbyte b
    rw [escapeUnsupportedControls, List.flatMap_cons, ← escapeUnsupportedControls,
      List.count_append, show b :: text = [b] ++ text from rfl, List.count_append]
    omega

/-- The stages after the e-mail stage keep the keys of every text of pairs. -/
theorem sanitizePatterns_keepsKeys {text : Bytes} {keys : List Bytes}
    (hkeys : ∀ k ∈ keys, KeyName k)
    (h : KeepsKeys keys (replacePattern text emailPattern .email)) :
    KeepsKeys keys (sanitizePatterns text) := by
  apply escape_keepsKeys hkeys
  apply replaceUserPath_keepsKeys hkeys
  apply replacePattern_keepsKeys (by decide) (by decide) (spaces_of_uses (by decide))
    opens_macPattern hkeys
  apply replacePattern_keepsKeys (by decide) (by decide) spaces_residentPattern
    opens_residentPattern hkeys
  exact replacePattern_keepsKeys (by decide) (by decide) spaces_phonePattern opens_phonePattern
    hkeys h

theorem count_sanitizePatterns_le (text : Bytes) : (sanitizePatterns text).count 61 ≤
    (replacePattern text emailPattern .email).count 61 := by
  apply (count_escape_le _).trans
  apply (count_replaceUserPath_le _).trans
  apply (count_replacePattern_le (by decide) (by decide) _).trans
  apply (count_replacePattern_le (by decide) (by decide) _).trans
  exact count_replacePattern_le (by decide) (by decide) _

def valueCharacter (b : UInt8) : Bool :=
  33 ≤ b && b ≤ 126 && !(bytes "\"'=,;|\x7b\x7d[]").contains b

/-- A key in which no company name occurs, and a printable value without blanks, quotes,
separators and brackets. -/
structure Pair where
  key : Bytes
  value : Bytes
  isKey : KeyName key
  length_le : key.length ≤ 64
  no_company : ∀ name ∈ companyNames, ¬ (bytes name.1).map toLower <:+: key.map toLower
  value_ne : value ≠ []
  characters : ∀ b ∈ value, valueCharacter b = true

namespace Pair

/-- The value after the company names in it have been replaced. -/
def renamed (p : Pair) : Bytes := replaceNames companyNames p.value

def text (pairs : List Pair) : Bytes := pairsText (pairs.map fun p => (p.key, p.value))

theorem renamed_characters (p : Pair) : ∀ b ∈ p.renamed, valueCharacter b = true :=
  forall_mem_replaceNames (by decide) p.characters

theorem renamed_ne_nil (p : Pair) : p.renamed ≠ [] :=
  replaceNames_ne_nil (by decide) p.value_ne

theorem plain_of_valueCharacter : ∀ b : UInt8, valueCharacter b = true →
    (isSpace b = false ∧ b ≠ 61) ∧ valueBoundary b = false ∧ isQuote b = false ∧ b ≠ 123 ∧
      b ≠ 125 := by
  decide

theorem renamed_word (p : Pair) : Word p.renamed :=
  ⟨p.renamed_ne_nil, fun b hb => (plain_of_valueCharacter b (p.renamed_characters b hb)).1⟩

theorem fieldName (p : Pair) : FieldName p.key where
  start := p.isKey.start
  length_le := p.length_le
  characters b hb := by
    have hword : ∀ b : UInt8, isWord b = true → fieldCharacter b = true := by decide
    exact hword b (p.isKey.word b hb)

/-- What the field scanner leaves of the value. -/
def scanned (p : Pair) : Bytes :=
  if classifyField p.key = .none then p.renamed else marker (classifyField p.key)

theorem replacedValue_eq (p : Pair) : replacedValue p.key p.renamed = p.scanned := by
  have hopen : contains p.renamed (bytes "\x7b\x7b") = false :=
    contains_eq_false (b := 123) (by decide) fun hmem =>
      (plain_of_valueCharacter _ (p.renamed_characters _ hmem)).2.2.2.1 rfl
  have hclose : contains p.renamed (bytes "\x7d\x7d") = false :=
    contains_eq_false (b := 125) (by decide) fun hmem =>
      (plain_of_valueCharacter _ (p.renamed_characters _ hmem)).2.2.2.2 rfl
  rw [replacedValue, scanned]
  by_cases hkind : classifyField p.key = .none
  · rw [if_pos hkind, if_neg fun h => h.1 hkind]
  · rw [if_neg hkind, if_pos ⟨hkind, p.renamed_ne_nil, by simp [hopen], by simp [hclose]⟩]

theorem scanned_word (p : Pair) : Word p.scanned := by
  rw [scanned]
  split_ifs with hkind
  · exact p.renamed_word
  · exact marker_word hkind

theorem replaceNames_text (pairs : List Pair) :
    replaceNames companyNames (text pairs) = pairsText (pairs.map fun p => (p.key, p.renamed)) := by
  have hnames (c : UInt8) (hc : c = 61 ∨ c = 32) : ∀ name ∈ companyNames,
      bytes name.1 ≠ [] ∧ toLower c ∉ (bytes name.1).map toLower := by
    rcases hc with rfl | rfl
    all_goals decide
  rw [text]
  induction pairs with
  | nil => decide
  | cons p pairs ih =>
    rw [List.map_cons, List.map_cons, pairsText_cons, pairsText_cons,
      replaceNames_append (hnames 61 (.inl rfl)), replaceNames_eq p.no_company, following,
      following]
    by_cases hpairs : pairs = []
    · rw [hpairs]
      simp [renamed]
    · rw [if_neg (by simpa using hpairs), if_neg (by simpa using hpairs),
        replaceNames_append (hnames space (.inr rfl)), ih]
      rfl

theorem stops_following (ps : List (Bytes × Bytes)) :
    Stops (fun b => !valueBoundary b) (following ps) := by
  rw [following]
  split_ifs
  · rfl
  · exact stops_cons.mpr rfl

theorem plainValue (p : Pair) (rest : Bytes) : PlainValue (p.renamed ++ rest) := by
  have hspace : ∀ b : UInt8, valueCharacter b = true → (b == space) = false := by decide
  obtain ⟨b, value, hb⟩ := List.exists_cons_of_ne_nil p.renamed_ne_nil
  have hb' := p.renamed_characters b (hb ▸ List.mem_cons_self)
  rw [hb]
  exact ⟨hspace b hb', (plain_of_valueCharacter b hb').2.2.1⟩

theorem replaceSensitiveFields_text (pairs : List Pair) :
    replaceSensitiveFields (pairsText (pairs.map fun p => (p.key, p.renamed))) =
      pairsText (pairs.map fun p => (p.key, p.scanned)) := by
  have hseparator : isSeparator 61 = true := rfl
  rw [replaceSensitiveFields_eq]
  induction pairs with
  | nil => simp [pairsText]
  | cons p pairs ih =>
    let header := FieldHeader.direct p.fieldName hseparator
    have hheader := rewriteFields_header header (p.plainValue _)
      (fun b hb => (plain_of_valueCharacter b (p.renamed_characters b hb)).2.1)
      (stops_following (pairs.map fun p => (p.key, p.renamed)))
    have htext (rest : Bytes) : p.key ++ 61 :: rest = header.text ++ rest := by
      simp [header, FieldHeader.text, FieldHeader.direct]
    have hfollowing : rewriteFields false (following (pairs.map fun p => (p.key, p.renamed))) =
        following (pairs.map fun p => (p.key, p.scanned)) := by
      rw [following, following]
      by_cases hpairs : pairs = []
      · rw [hpairs]
        exact rewriteFields_nil false
      · rw [if_neg (by simpa using hpairs), if_neg (by simpa using hpairs),
          rewriteFields_skip fun h => Bool.noConfusion h, show fieldBoundary space = true from rfl, ih]
    rw [List.map_cons, List.map_cons, pairsText_cons, pairsText_cons, htext, hheader, hfollowing,
      show header.name = p.key from rfl, replacedValue_eq, htext, List.append_assoc]

theorem sanitizeFields_text (pairs : List Pair) :
    sanitizeFields (text pairs) = pairsText (pairs.map fun p => (p.key, p.scanned)) := by
  have hbrace : (123 : UInt8) ∉ pairsText (pairs.map fun p => (p.key, p.renamed)) := by
    have hkey : ∀ b : UInt8, isWord b = true → b ≠ 123 := by decide
    induction pairs with
    | nil => simp [pairsText]
    | cons p pairs ih =>
      rw [List.map_cons, pairsText_cons, List.mem_append, List.mem_cons, List.mem_append, following]
      rintro (hmem | hmem | hmem | hmem)
      · exact hkey 123 (p.isKey.word 123 hmem) rfl
      · exact absurd hmem (by decide)
      · exact (plain_of_valueCharacter 123 (p.renamed_characters 123 hmem)).2.2.2.1 rfl
      · split_ifs at hmem
        · cases hmem
        · exact ih ((List.mem_cons.mp hmem).resolve_left (by decide))
  rw [sanitizeFields, replaceNames_text, replaceLegacyStoreCode_eq hbrace,
    replacePartialMac_eq hbrace, replaceSensitiveFields_text]

/-- `sanitize` keeps the keys of a text of pairs exactly when no value that the field scanner
leaves alone is like the end of an e-mail address. -/
theorem sanitize_keepsKeys (pairs : List Pair) :
    KeepsKeys (pairs.map key) (sanitize (text pairs)) ↔
      ∀ p ∈ pairs, classifyField p.key ≠ .none ∨ mailLike p.renamed = false := by
  have hkeys : ∀ p ∈ pairs.map fun p => (p.key, p.scanned), KeyName p.1 :=
    List.forall_mem_map.mpr fun p _ => p.isKey
  have hwords : ∀ p ∈ pairs.map fun p => (p.key, p.scanned), Word p.2 :=
    List.forall_mem_map.mpr fun p _ => p.scanned_word
  have hnames : (pairs.map fun p => (p.key, p.scanned)).map Prod.fst = pairs.map key := by
    rw [List.map_map]
    rfl
  have hmarker (kind : PrivacyTokenKind) : mailLike (marker kind) = false := by
    cases kind
    all_goals decide
  have hmail : (∀ p ∈ pairs, classifyField p.key ≠ .none ∨ mailLike p.renamed = false) ↔
      ∀ p ∈ pairs.map fun p => (p.key, p.scanned), mailLike p.2 = false := by
    rw [List.forall_mem_map]
    apply forall_congr'
    intro p
    apply imp_congr_right
    intro _
    rw [scanned]
    split_ifs with hkind
    · simp [hkind]
    · simp [hkind, hmarker]
  have hemail : Rewrites emailPattern _ [] [] _ _ := replacePattern_rewrites (by decide)
    (pairsText (pairs.map fun p => (p.key, p.scanned))) .email
  rw [sanitize_eq, sanitizeFields_text, hmail]
  constructor
  · intro hkept p hp
    by_contra hlike
    have hless := count_emailStage_lt hkeys hwords ⟨p, hp, by simpa using hlike⟩ rfl hemail
    obtain ⟨qs, hqs, hqwords, hout⟩ := hkept
    have hqkeys : ∀ q ∈ qs, KeyName q.1 := by
      intro q hq
      have hmem : q.1 ∈ pairs.map key := hqs ▸ List.mem_map_of_mem hq
      obtain ⟨p, -, hkey⟩ := List.mem_map.mp hmem
      exact hkey ▸ p.isKey
    have hkept := count_sanitizePatterns_le (pairsText (pairs.map fun p => (p.key, p.scanned)))
    have hlength := congrArg List.length hqs
    rw [hout, count_pairsText hqkeys hqwords] at hkept
    rw [count_pairsText hkeys hwords, List.length_map] at hless
    rw [List.length_map, List.length_map] at hlength
    omega
  · intro hquiet
    have hfirst : KeepsKeys (pairs.map key) (replacePattern
        (pairsText (pairs.map fun p => (p.key, p.scanned))) emailPattern .email) := by
      rw [← hnames]
      exact keepsKeys_of_rewrites (spaces_of_uses uses_emailPattern_space) (by decide)
        (keepsWords_marker _ (by decide)) hkeys hwords
        (fun p hp => keyQuiet_emailPattern (hkeys p hp) (hwords p hp) (hquiet p hp)) rfl hemail
    exact sanitizePatterns_keepsKeys (List.forall_mem_map.mpr fun p _ => p.isKey) hfirst

/-- A field that is not classified, with an address for its value. -/
def unclassified : Pair where
  key := bytes "sender"
  value := bytes "a@b.c"
  isKey := ⟨by decide, by decide⟩
  length_le := by decide
  no_company := by decide
  value_ne := by decide
  characters := by decide

theorem sanitize_losesKey :
    ¬ KeepsKeys ([unclassified].map key) (sanitize (text [unclassified])) := by
  rintro ⟨ps, hps, -, hout⟩
  have hsanitize : sanitize (text [unclassified]) = bytes "\x7b\x7bEMAIL\x7d\x7d" := by
    decide
  have hlength := congrArg List.length hps
  rw [List.length_map] at hlength
  obtain ⟨q, rfl⟩ : ∃ q, ps = [q] := List.length_eq_one_iff.mp hlength
  rw [hsanitize, ← Prod.mk.eta (p := q), pairsText_cons] at hout
  have hmem : (61 : UInt8) ∈ q.1 ++ 61 :: (q.2 ++ following []) :=
    List.mem_append_right _ List.mem_cons_self
  rw [← hout] at hmem
  exact absurd hmem (by decide)

end Pair

end PrivacyAnonymizer
end Application
end LogGenerator
