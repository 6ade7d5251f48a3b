import LogGenerator.Application.SensitiveFields
import LogGenerator.Foundation.RegexRewriting

/-!
# The stages of `sanitize`

Every stage that replaces a pattern is a rewriting of its matches. What a match of each
pattern looks like decides where it can begin and end.
-/

namespace LogGenerator
namespace Application
namespace PrivacyAnonymizer

open Ascii Regex Runs

variable {before m after text : Bytes} {groups : List (ℕ × ℕ × ℕ)}

theorem replacePattern_rewrites {pattern : Regex} (hr : pattern.consumes = true) (input : Bytes)
    (kind : PrivacyTokenKind) :
    Rewrites pattern (fun _ _ _ _ => marker kind) [] [] input
      (replacePattern input pattern kind) := by
  rw [replacePattern, ← List.filterMap_eq_map']
  apply rewrites_splice _ input hr
  intro before m after groups _ _
  exact ⟨[], m, [], by simp, by simp, by simp, by simp⟩

/-- The first group, and a fixed text after it. -/
def keptGroup (text before m after : Bytes) (groups : List (ℕ × ℕ × ℕ)) : Bytes :=
  ((groups.lookup 1).map (slice (before ++ (m ++ after)))).getD [] ++ text

theorem replaceKeepingGroup_rewrites {pattern : Regex} (hr : pattern.consumes = true)
    (input text : Bytes) :
    Rewrites pattern (keptGroup text) [] [] input (replaceKeepingGroup input pattern text) := by
  rw [replaceKeepingGroup, ← List.filterMap_eq_map']
  apply rewrites_splice _ input hr
  rintro before m after groups rfl -
  exact ⟨[], m, [], by simp, by simp, by simp, by simp [keptGroup, Match.group?]⟩

/-- A pattern that begins with its group keeps what the group matched. -/
theorem keptGroup_eq {a s : Regex} (hs : s.groupless = true)
    (h : (Regex.seq (.group 1 a) s).First before m after groups) :
    ∃ m₁ m₂, m = m₁ ++ m₂ ∧ a.Matches before m₁ (m₂ ++ after) ∧
      keptGroup text before m after groups = m₁ ++ text := by
  obtain ⟨m₁, m₂, rfl, hm₁, -, hlookup⟩ := h.head_group hs
  refine ⟨m₁, m₂, rfl, hm₁, ?_⟩
  rw [keptGroup, hlookup, Option.map_some, Option.getD_some, slice, List.drop_left,
    Nat.add_sub_cancel_left, List.append_assoc, List.take_left]

/-- A pattern that needs a byte leaves a text without the byte as it is. -/
theorem Rewrites.eq_of_requires {r : Regex}
    {f : Bytes → Bytes → Bytes → List (ℕ × ℕ × ℕ) → Bytes} {out : Bytes} {b : UInt8}
    (h : Rewrites r f [] before text out) (hr : r.requires (· == b) = true) (hb : b ∉ text) :
    out = text := by
  apply h.eq_of_quiet
  rintro x y rfl - m after htext hm
  rw [List.append_nil] at htext
  subst htext
  obtain ⟨c, hc, hcb⟩ := exists_mem_of_requires hr hm
  obtain rfl : c = b := beq_iff_eq.mp hcb
  exact hb (List.mem_append_right x (List.mem_append_left after hc))

theorem replaceLegacyStoreCode_eq (h : (123 : UInt8) ∉ text) :
    replaceKeepingGroup text legacyStoreCodePattern (marker .storeCode) = text :=
  Rewrites.eq_of_requires (b := 123) (replaceKeepingGroup_rewrites (by decide) text _)
    (by decide) h

theorem replacePartialMac_eq (h : (123 : UInt8) ∉ text) :
    replaceKeepingGroup text partialMacMarkerPattern (marker .macAddress) = text :=
  Rewrites.eq_of_requires (b := 123) (replaceKeepingGroup_rewrites (by decide) text _)
    (by decide) h

/-- The replaced names, each with what is put in its place, in the order of the stages. -/
def companyNames : List (String × String) :=
  [("test123", "Your-Company"), ("lottermart", "Your-Company"), ("lottemart", "Your-Company"),
    ("lotte", "Your"), ("mart", "company")]

def replaceNames (names : List (String × String)) (text : Bytes) : Bytes :=
  names.foldl (fun text name => replaceAsciiCaseInsensitive text name.1 name.2) text

/-- The stages before the patterns that need no field name. -/
def sanitizeFields (text : Bytes) : Bytes :=
  replaceSensitiveFields (replaceKeepingGroup
    (replaceKeepingGroup (replaceNames companyNames text) legacyStoreCodePattern
      (marker .storeCode)) partialMacMarkerPattern (marker .macAddress))

def sanitizePatterns (text : Bytes) : Bytes :=
  let result := replacePattern text emailPattern .email
  let result := replacePattern result phonePattern .phone
  let result := replacePattern result residentPattern .identifier
  let result := replacePattern result macPattern .macAddress
  let result := replaceKeepingGroup result userPathPattern (bytes "TestUser")
  escapeUnsupportedControls result

theorem sanitize_eq (text : Bytes) : sanitize text = sanitizePatterns (sanitizeFields text) := rfl

/-- An occurrence of the name at the head of a text does not reach over a byte that is not
in it. -/
theorem equalsIgnoringCase_take {needle : Bytes} {c : UInt8}
    (hc : toLower c ∉ needle.map toLower) (u v : Bytes) :
    (needle.length ≤ (u ++ c :: v).length ∧
        equalsIgnoringCase needle ((u ++ c :: v).take needle.length)) ↔
      needle.length ≤ u.length ∧ equalsIgnoringCase needle (u.take needle.length) := by
  by_cases hlength : needle.length ≤ u.length
  · rw [List.take_append_of_le_length hlength]
    simp only [hlength, true_and, and_iff_right_iff_imp]
    intro _
    rw [List.length_append]
    omega
  · refine iff_of_false ?_ fun h => hlength h.1
    rintro ⟨-, hequal⟩
    have hmem : c ∈ (u ++ c :: v).take needle.length := by
      obtain ⟨k, hk⟩ := Nat.exists_eq_add_of_lt (not_le.mp hlength)
      rw [hk, Nat.add_assoc, List.take_length_add_append, List.take_succ_cons]
      simp
    rw [equalsIgnoringCase, beq_iff_eq] at hequal
    rw [hequal] at hc
    exact hc (List.mem_map_of_mem hmem)

theorem replaceIgnoringCase_append {needle replacement : Bytes} {c : UInt8} (hne : needle ≠ [])
    (hc : toLower c ∉ needle.map toLower) {skip : ℕ} {u : Bytes} (hskip : skip ≤ u.length)
    (v : Bytes) :
    replaceIgnoringCase needle replacement skip (u ++ c :: v) =
      replaceIgnoringCase needle replacement skip u ++
        c :: replaceIgnoringCase needle replacement 0 v := by
  have hpos := List.length_pos_iff.mpr hne
  induction u generalizing skip with
  | nil =>
    obtain rfl := Nat.le_zero.mp hskip
    have hhere := equalsIgnoringCase_take hc [] v
    have hnone : ¬ (needle.length ≤ (c :: v).length ∧
        equalsIgnoringCase needle ((c :: v).take needle.length) = true) :=
      fun h => hne (List.length_eq_zero_iff.mp (Nat.le_zero.mp (hhere.mp h).1))
    simp only [List.nil_append, replaceIgnoringCase, if_neg hnone]
  | cons b u ih =>
    cases skip with
    | succ skip =>
      rw [List.cons_append, replaceIgnoringCase, replaceIgnoringCase,
        ih (Nat.le_of_succ_le_succ hskip)]
    | zero =>
      have hhere := equalsIgnoringCase_take hc (b :: u) v
      rw [List.cons_append] at hhere ⊢
      rw [replaceIgnoringCase, replaceIgnoringCase]
      by_cases hfound : needle.length ≤ (b :: u).length ∧
          equalsIgnoringCase needle ((b :: u).take needle.length) = true
      · have hlength := hfound.1
        rw [List.length_cons] at hlength
        rw [if_pos (hhere.mpr hfound), if_pos hfound, ih (by omega), List.append_assoc]
      · rw [if_neg (mt hhere.mp hfound), if_neg hfound, ih (Nat.zero_le _), List.cons_append]

theorem replaceIgnoringCase_eq {needle : Bytes} (replacement : Bytes) {text : Bytes}
    (h : ¬ needle.map toLower <:+: text.map toLower) :
    replaceIgnoringCase needle replacement 0 text = text := by
  induction text with
  | nil => rfl
  | cons b rest ih =>
    have hrest : ¬ needle.map toLower <:+: rest.map toLower :=
      fun hfound => h (hfound.trans (List.infix_cons List.infix_rfl))
    rw [replaceIgnoringCase, if_neg, ih hrest]
    rintro ⟨-, hequal⟩
    rw [equalsIgnoringCase, beq_iff_eq] at hequal
    rw [hequal] at h
    exact h ((List.take_prefix _ _).map toLower).isInfix

theorem forall_mem_replaceIgnoringCase {needle replacement : Bytes} {P : UInt8 → Prop}
    (hreplacement : ∀ b ∈ replacement, P b) (skip : ℕ) (htext : ∀ b ∈ text, P b) :
    ∀ b ∈ replaceIgnoringCase needle replacement skip text, P b := by
  induction text generalizing skip with
  | nil => simp [replaceIgnoringCase]
  | cons b rest ih =>
    rw [List.forall_mem_cons] at htext
    cases skip with
    | succ skip => rw [replaceIgnoringCase]; exact ih skip htext.2
    | zero =>
      rw [replaceIgnoringCase]
      split_ifs
      · rw [List.forall_mem_append]
        exact ⟨hreplacement, ih _ htext.2⟩
      · rw [List.forall_mem_cons]
        exact ⟨htext.1, ih 0 htext.2⟩

theorem replaceIgnoringCase_ne_nil {needle replacement : Bytes} (hreplacement : replacement ≠ [])
    (htext : text ≠ []) : replaceIgnoringCase needle replacement 0 text ≠ [] := by
  cases text with
  | nil => exact absurd rfl htext
  | cons b rest =>
    rw [replaceIgnoringCase]
    split_ifs
    · exact List.append_ne_nil_of_left_ne_nil hreplacement _
    · exact List.cons_ne_nil _ _

section Names

variable {names : List (String × String)} {u v : Bytes} {c : UInt8}

theorem replaceNames_append
    (hc : ∀ name ∈ names, bytes name.1 ≠ [] ∧ toLower c ∉ (bytes name.1).map toLower)
    (u v : Bytes) :
    replaceNames names (u ++ c :: v) = replaceNames names u ++ c :: replaceNames names v := by
  induction names generalizing u v with
  | nil => rfl
  | cons name names ih =>
    rw [List.forall_mem_cons] at hc
    have hone : replaceAsciiCaseInsensitive (u ++ c :: v) name.1 name.2 = _ :=
      replaceIgnoringCase_append hc.1.1 hc.1.2 (Nat.zero_le u.length) v
    rw [replaceNames, List.foldl_cons, hone]
    exact ih hc.2 _ _

theorem replaceNames_eq (h : ∀ name ∈ names, ¬ (bytes name.1).map toLower <:+: u.map toLower) :
    replaceNames names u = u := by
  induction names with
  | nil => rfl
  | cons name names ih =>
    rw [List.forall_mem_cons] at h
    have hone : replaceAsciiCaseInsensitive u name.1 name.2 = u := replaceIgnoringCase_eq _ h.1
    rw [replaceNames, List.foldl_cons, hone]
    exact ih h.2

theorem forall_mem_replaceNames {P : UInt8 → Prop}
    (hnames : ∀ name ∈ names, ∀ b ∈ bytes name.2, P b) (hu : ∀ b ∈ u, P b) :
    ∀ b ∈ replaceNames names u, P b := by
  induction names generalizing u with
  | nil => exact hu
  | cons name names ih =>
    rw [List.forall_mem_cons] at hnames
    exact ih hnames.2 (forall_mem_replaceIgnoringCase hnames.1 0 hu)

theorem replaceNames_ne_nil (hnames : ∀ name ∈ names, bytes name.2 ≠ []) (hu : u ≠ []) :
    replaceNames names u ≠ [] := by
  induction names generalizing u with
  | nil => exact hu
  | cons name names ih =>
    rw [List.forall_mem_cons] at hnames
    exact ih hnames.2 (replaceIgnoringCase_ne_nil hnames.1 hu)

end Names

/-- A word begins or ends between the texts. -/
def WordEdge (before after : Bytes) : Prop :=
  before.getLast?.any isWord ≠ after.head?.any isWord

def mailCharacter (b : UInt8) : Bool :=
  isAlnum b || (bytes ".!#$%&'*+/=?^_\x60\x7b|\x7d~-").contains b

/-- `@[A-Za-z0-9-]+(?:\.[A-Za-z0-9-]+)+\b`, the e-mail pattern from the at sign on. -/
def mailHost : Regex :=
  let label := plus (.set fun b => isAlnum b || b == 45)
  seqs [lit "@", label, plus (.seq (lit ".") label), .boundary]

theorem matches_emailPattern : emailPattern.Matches before m after ↔
    WordEdge before (m ++ after) ∧ ∃ l h, m = l ++ h ∧ (l ≠ [] ∧ ∀ b ∈ l, mailCharacter b = true) ∧
      mailHost.Matches (before ++ l) h after := by
  constructor
  · rintro ⟨-, m', rfl, ⟨rfl, hedge⟩, l, h, rfl, hl, hh⟩
    rw [List.append_nil] at hl hh
    exact ⟨hedge, l, h, rfl, matches_plus_set.mp hl, hh⟩
  · rintro ⟨hedge, l, h, rfl, hl, hh⟩
    refine ⟨[], l ++ h, rfl, ⟨rfl, hedge⟩, l, h, rfl, ?_, ?_⟩
    · rw [List.append_nil]
      exact matches_plus_set.mpr hl
    · rwa [List.append_nil]

/-- A domain of at least two labels. -/
def mailDomain : Regex :=
  let label := plus (.set fun b => isAlnum b || b == 45)
  seqs [label, plus (.seq (lit ".") label)]

/-- What `mailHost` matches depends on the text around it at its end only. -/
theorem matches_mailHost : mailHost.Matches before m after ↔
    ∃ d, m = 64 :: d ∧ mailDomain.Matches [] d [] ∧ WordEdge m after := by
  have hlast (d : Bytes) : (before ++ (64 :: d)).getLast? = (64 :: d).getLast? :=
    List.getLast?_append_of_ne_nil before (List.cons_ne_nil _ _)
  constructor
  · rintro ⟨sign, m', rfl, hsign, l, m'', rfl, hl, ds, e, rfl, hds, e', e'', rfl, ⟨rfl, hedge⟩, rfl⟩
    obtain rfl : sign = [64] := matches_lit.mp hsign
    refine ⟨l ++ ds, by simp, ⟨l, ds, rfl, hl.congr rfl _ _, ds, [], by simp,
      hds.congr rfl _ _, rfl⟩, ?_⟩
    rw [WordEdge, List.singleton_append, ← hlast]
    simpa using hedge
  · rintro ⟨d, rfl, ⟨l, ds, rfl, hl, ds', e, rfl, hds, rfl⟩, hedge⟩
    rw [WordEdge, ← hlast] at hedge
    refine ⟨[64], _, rfl, matches_lit.mpr rfl, l, ds' ++ [], rfl, hl.congr rfl _ _, ds', [], rfl,
      hds.congr rfl _ _, [], [], rfl, ⟨rfl, ?_⟩, rfl⟩
    simpa using hedge

theorem matches_phonePattern (h : phonePattern.Matches before m after) :
    (∃ rest, m = 43 :: rest) ∨
      WordEdge before (m ++ after) ∧ ∃ c rest, m = 48 :: 49 :: c :: rest := by
  obtain ⟨front, rest, rfl, ⟨plus', rest', rfl, hplus, -⟩ | ⟨e, rest', rfl, ⟨rfl, hedge⟩,
    zero, rest'', rfl, hzero, c, e, rfl, ⟨c', rfl, -⟩, rfl⟩, -⟩ := h
  · obtain rfl : plus' = [43, 56, 50] := matches_lit.mp hplus
    exact .inl ⟨_, rfl⟩
  · obtain rfl : zero = [48, 49] := matches_lit.mp hzero
    rw [List.append_nil] at hedge
    refine .inr ⟨?_, c', rest, by simp⟩
    rw [WordEdge, List.append_assoc]
    exact hedge

theorem matches_residentPattern (h : residentPattern.Matches before m after) :
    WordEdge before (m ++ after) ∧ ∃ front rest, m = front ++ rest ∧ front.length = 6 ∧
      ∀ b ∈ front, isDigit b = true := by
  obtain ⟨e, m', rfl, ⟨rfl, hedge⟩, front, rest, rfl, hfront, -⟩ := h
  obtain ⟨hlength, hdigits⟩ := matches_times_set.mp hfront
  exact ⟨hedge, front, rest, rfl, hlength, hdigits⟩

theorem isWord_of_hexadecimal : ∀ b : UInt8,
    (isDigit b || (65 ≤ b && b ≤ 70) || (97 ≤ b && b ≤ 102)) = true → isWord b = true := by
  decide

theorem matches_macPattern (h : macPattern.Matches before m after) :
    WordEdge before (m ++ after) ∧ ∃ a b c rest, m = a :: b :: c :: rest ∧ isWord a = true ∧
      isWord b = true ∧ (c = 58 ∨ c = 45) := by
  obtain ⟨e, m', rfl, ⟨rfl, hedge⟩, pairs, rest, rfl, hpairs, -⟩ := h
  obtain ⟨pair, more, rfl, digits, s, rfl, hdigits, ⟨c, rfl, hc⟩⟩ :=
    hpairs.head_rep (by decide) (by decide)
  obtain ⟨hlength, hdigits⟩ := matches_times_set.mp hdigits
  obtain ⟨a, b, rfl⟩ := List.length_eq_two.mp hlength
  have hmark : ∀ c, (bytes ":-").contains c = true → c = 58 ∨ c = 45 := by decide
  exact ⟨hedge, a, b, c, more ++ rest, by simp, isWord_of_hexadecimal a (hdigits a (by simp)),
    isWord_of_hexadecimal b (hdigits b (by simp)), hmark c hc⟩

theorem icase_isAlpha : ∀ b : UInt8,
    (isAlpha b || isAlpha (toLower b) || (isLower b && isAlpha (b - 32))) = true →
      isAlpha b = true := by
  decide

theorem icase_colon : ∀ b : UInt8,
    (b == 58 || toLower b == 58 || (isLower b && b - 32 == 58)) = true → b = 58 := by
  decide

theorem matches_userPathPattern (h : userPathPattern.Matches before m after) :
    WordEdge before (m ++ after) ∧ ∃ a rest, m = a :: 58 :: rest ∧ isAlpha a = true := by
  obtain ⟨g, rest, rfl, ⟨e, g', rfl, ⟨rfl, hedge⟩, drive, g'', rfl, ⟨a, rfl, ha⟩, colon, g₃, rfl,
    ⟨c, e', rfl, ⟨b, rfl, hb⟩, rfl⟩, -⟩, -⟩ := h
  obtain rfl := icase_colon b hb
  refine ⟨?_, a, g₃ ++ rest, by simp, icase_isAlpha a ha⟩
  rw [WordEdge, List.append_assoc]
  exact hedge

end PrivacyAnonymizer
end Application
end LogGenerator
