import LogGenerator.Foundation.Json
import LogGenerator.Foundation.RegexGroups

/-!
# Parts of a UTF-8 text

A text can be cut in front of a byte of ASCII and behind it. So a part that begins and
ends there gives way to another text and the whole stays well formed, and so does a
subject whose edits are all of this kind.
-/

namespace LogGenerator

open Ascii Runs

def isAscii (b : UInt8) : Bool := b < 0x80

theorem isAscii_of_toLower : ∀ b : UInt8, isAscii (toLower b) = true → isAscii b = true := by
  decide

section Cuts

variable {left : ℕ} {low high b : UInt8} {u v text : Bytes}

theorem continuations_of_isAscii (hb : isAscii b = true) :
    continuations b = some (0, 0x80, 0xBF) := if_pos (of_decide_eq_true hb)

/-- A byte that goes on with a character is not one of ASCII. -/
theorem low_of_continuations (h : continuations b = some (left, low, high)) : 0x80 ≤ low := by
  unfold continuations at h
  split_ifs at h
  all_goals
    cases h
    decide

theorem validUtf8From_zero (text : Bytes) : validUtf8From 0 low high text = validUtf8 text := by
  cases text
  all_goals rfl

theorem validUtf8From_first (hb : continuations b = some (left, low, high)) {l h : UInt8}
    (text : Bytes) : validUtf8From 0 l h (b :: text) = validUtf8From left low high text := by
  unfold validUtf8From
  rw [hb]
  cases text
  all_goals rfl

theorem exists_continuations {l h : UInt8} (htext : validUtf8From 0 l h (b :: text) = true) :
    ∃ left low high, continuations b = some (left, low, high) := by
  unfold validUtf8From at htext
  cases hb : continuations b with
  | none =>
    rw [hb] at htext
    cases htext
  | some next => exact ⟨next.1, next.2.1, next.2.2, rfl⟩

theorem validUtf8From_next (text : Bytes) : validUtf8From (left + 1) low high (b :: text) =
    (low ≤ b && b ≤ high && validUtf8From left 0x80 0xBF text) := rfl

theorem validUtf8From_append (hu : validUtf8From left low high u = true) (v : Bytes) :
    validUtf8From left low high (u ++ v) = validUtf8 v := by
  induction u generalizing left low high with
  | nil =>
    obtain rfl : left = 0 := of_decide_eq_true hu
    apply validUtf8From_zero
  | cons b u ih =>
    rw [List.cons_append]
    cases left with
    | zero =>
      obtain ⟨left, low, high, hb⟩ := exists_continuations hu
      rw [validUtf8From_first hb] at hu ⊢
      exact ih hu
    | succ left =>
      rw [validUtf8From_next, Bool.and_eq_true] at hu
      rw [validUtf8From_next, hu.1, Bool.true_and, ih hu.2]

/-- A text cut in front of a byte of ASCII, or at its end. -/
theorem validUtf8From_cut (hlow : 0x80 ≤ low) (hv : Stops (fun b => !isAscii b) v)
    (h : validUtf8From left low high (u ++ v) = true) :
    validUtf8From left low high u = true ∧ validUtf8 v = true := by
  induction u generalizing left low high with
  | nil =>
    rw [List.nil_append] at h
    cases left with
    | zero => exact ⟨rfl, (validUtf8From_zero v).symm.trans h⟩
    | succ left =>
      cases v with
      | nil => cases h
      | cons b v =>
        have hascii : b < 0x80 := by simpa [isAscii] using stops_cons.mp hv
        rw [validUtf8From_next, Bool.and_eq_true, Bool.and_eq_true, decide_eq_true_eq] at h
        exact absurd (UInt8.le_trans hlow h.1.1) (UInt8.not_le.mpr hascii)
  | cons b u ih =>
    rw [List.cons_append] at h
    cases left with
    | zero =>
      obtain ⟨left, low, high, hb⟩ := exists_continuations h
      rw [validUtf8From_first hb] at h ⊢
      exact ih (low_of_continuations hb) h
    | succ left =>
      rw [validUtf8From_next, Bool.and_eq_true] at h ⊢
      obtain ⟨hu, hv⟩ := ih UInt8.le_rfl h.2
      exact ⟨⟨h.1, hu⟩, hv⟩

theorem validUtf8_append (hu : validUtf8 u = true) (v : Bytes) :
    validUtf8 (u ++ v) = validUtf8 v := validUtf8From_append hu v

theorem validUtf8_cut (hv : Stops (fun b => !isAscii b) v) (h : validUtf8 (u ++ v) = true) :
    validUtf8 u = true ∧ validUtf8 v = true := validUtf8From_cut UInt8.le_rfl hv h

theorem validUtf8_of_isAscii (h : ∀ b ∈ text, isAscii b = true) : validUtf8 text = true := by
  induction text with
  | nil => rfl
  | cons b text ih =>
    obtain ⟨hb, htext⟩ := List.forall_mem_cons.mp h
    unfold validUtf8
    rw [validUtf8From_first (continuations_of_isAscii hb)]
    exact ih htext

theorem stops_of_isAscii (hne : u ≠ []) (hu : ∀ b ∈ u, isAscii b = true) (v : Bytes) :
    Stops (fun b => !isAscii b) (u ++ v) := by
  cases u with
  | nil => exact absurd rfl hne
  | cons b u => simp [hu b List.mem_cons_self]

/-- A text cut around a part of ASCII. -/
theorem validUtf8_around {m : Bytes} (hne : m ≠ []) (hm : ∀ b ∈ m, isAscii b = true)
    (h : validUtf8 (u ++ (m ++ v)) = true) : validUtf8 u = true ∧ validUtf8 v = true := by
  obtain ⟨hu, hrest⟩ := validUtf8_cut (stops_of_isAscii hne hm v) h
  rw [validUtf8_append (validUtf8_of_isAscii hm)] at hrest
  exact ⟨hu, hrest⟩

end Cuts

/-- In front of `after`, `v` may take the place of `u` in every text. -/
def Replaces (u v after : Bytes) : Prop :=
  ∀ front, validUtf8 (front ++ (u ++ after)) = true → validUtf8 (front ++ (v ++ after)) = true

section Replaced

variable {u v u' v' m after front text : Bytes}

theorem Replaces.refl (u after : Bytes) : Replaces u u after := fun _ h => h

theorem Replaces.append (h : Replaces u v (u' ++ after)) (h' : Replaces u' v' after) :
    Replaces (u ++ u') (v ++ v') after := by
  intro front hu
  rw [List.append_assoc] at hu ⊢
  rw [← List.append_assoc]
  apply h'
  rw [List.append_assoc]
  exact h front hu

theorem Replaces.behind (m : Bytes) (h : Replaces u v after) :
    Replaces (m ++ u) (m ++ v) after := (Replaces.refl m _).append h

theorem Replaces.validUtf8 (h : Replaces u v []) (hu : validUtf8 u = true) :
    validUtf8 v = true := by
  have hv := h [] (by rwa [List.nil_append, List.append_nil])
  rwa [List.nil_append, List.append_nil] at hv

/-- A part of ASCII gives way to any well-formed text. -/
theorem replaces_ascii (hne : m ≠ []) (hm : ∀ b ∈ m, isAscii b = true)
    (hv : validUtf8 v = true) (after : Bytes) : Replaces m v after := by
  intro front h
  obtain ⟨hfront, hafter⟩ := validUtf8_around hne hm h
  rw [validUtf8_append hfront, validUtf8_append hv]
  exact hafter

/-- So does a part between a byte of ASCII and either another one or the end of the text. -/
theorem replaces_between (hne : m ≠ []) (hm : ∀ b ∈ m, isAscii b = true)
    (hafter : Stops (fun b => !isAscii b) after) (hv : validUtf8 v = true) :
    Replaces (m ++ u) (m ++ v) after := by
  intro front h
  rw [List.append_assoc] at h ⊢
  obtain ⟨hfront, hrest⟩ := validUtf8_around hne hm h
  obtain ⟨-, hend⟩ := validUtf8_cut hafter hrest
  rw [validUtf8_append hfront, validUtf8_append (validUtf8_of_isAscii hm), validUtf8_append hv]
  exact hend

end Replaced

namespace Regex

def OfAscii (r : Regex) : Prop := ∀ b, r.uses b = true → isAscii b = true

section OfAscii

variable {r s : Regex} {rs : List Regex} {p : UInt8 → Bool} {text : String} {low high : Char}
  {n min : ℕ} {max : Option ℕ} {before m after : Bytes}

theorem OfAscii.isAscii (hr : r.OfAscii) (h : r.Matches before m after) :
    ∀ b ∈ m, isAscii b = true := fun b hb => hr b (uses_of_matches h b hb)

@[simp] theorem ofAscii_set : (set p).OfAscii ↔ ∀ b, p b = true → LogGenerator.isAscii b = true :=
  Iff.rfl

@[simp] theorem ofAscii_seq : (seq r s).OfAscii ↔ r.OfAscii ∧ s.OfAscii := by
  simp [OfAscii, uses, or_imp, forall_and]

@[simp] theorem ofAscii_alt : (alt r s).OfAscii ↔ r.OfAscii ∧ s.OfAscii := by
  simp [OfAscii, uses, or_imp, forall_and]

@[simp] theorem ofAscii_rep : (rep r min max).OfAscii ↔ r.OfAscii := Iff.rfl

@[simp] theorem ofAscii_empty : empty.OfAscii := fun b hb => by cases hb

@[simp] theorem ofAscii_boundary : boundary.OfAscii := fun b hb => by cases hb

@[simp] theorem ofAscii_ahead {negated : Bool} : (ahead negated r).OfAscii :=
  fun b hb => by cases hb

@[simp] theorem ofAscii_seqs_cons : (seqs (r :: rs)).OfAscii ↔ r.OfAscii ∧ (seqs rs).OfAscii :=
  ofAscii_seq

@[simp] theorem ofAscii_seqs_nil : (seqs []).OfAscii := ofAscii_empty

@[simp] theorem ofAscii_lit :
    (lit text).OfAscii ↔ ∀ b ∈ bytes text, LogGenerator.isAscii b = true := by
  unfold lit
  induction bytes text with
  | nil => simp
  | cons b text ih => simp [ih]

@[simp] theorem ofAscii_oneOf :
    (oneOf text).OfAscii ↔ ∀ b ∈ bytes text, LogGenerator.isAscii b = true := by
  simp [oneOf]

@[simp] theorem ofAscii_numeral : numeral.OfAscii := by
  unfold numeral
  rw [ofAscii_set]
  decide

@[simp] theorem ofAscii_whitespace : whitespace.OfAscii := by
  unfold whitespace
  rw [ofAscii_set]
  decide

@[simp] theorem ofAscii_range (h : high.toNat < 128) : (range low high).OfAscii := by
  intro b hb
  have hb' : b.toNat ≤ high.toNat := by
    simp only [range, uses, Bool.and_eq_true, decide_eq_true_eq] at hb
    exact hb.2
  exact decide_eq_true (UInt8.lt_iff_toNat_lt.mpr (hb'.trans_lt h))

@[simp] theorem ofAscii_alts_single : (alts [r]).OfAscii ↔ r.OfAscii := Iff.rfl

@[simp] theorem ofAscii_alts_cons : (alts (r :: s :: rs)).OfAscii ↔
    r.OfAscii ∧ (alts (s :: rs)).OfAscii := ofAscii_alt

/-- The other case of a letter is of ASCII too. -/
theorem OfAscii.icase (h : r.OfAscii) : r.icase.OfAscii := by
  induction r with
  | set p =>
    have hupper : ∀ b, isLower b = true → LogGenerator.isAscii b = true := by decide
    intro b hb
    simp only [Regex.icase, uses, Bool.or_eq_true, Bool.and_eq_true] at hb
    rcases hb with (hb | hb) | hb
    · exact h b hb
    · exact isAscii_of_toLower b (h (toLower b) hb)
    · exact hupper b hb.1
  | seq r s ihr ihs =>
    rw [ofAscii_seq] at h
    exact ofAscii_seq.mpr ⟨ihr h.1, ihs h.2⟩
  | alt r s ihr ihs =>
    rw [ofAscii_alt] at h
    exact ofAscii_alt.mpr ⟨ihr h.1, ihs h.2⟩
  | rep r min max ih | group n r ih => exact ih h
  | empty | begin | boundary | ahead => exact h

end OfAscii

end Regex

/-- The edit puts a text where it may stand. -/
def Edit.Fits (subject : Bytes) (e : Edit) : Prop :=
  ∃ before m after, subject = before ++ (m ++ after) ∧ e.begin = before.length ∧
    e.finish = before.length + m.length ∧ Replaces m e.text after

namespace Regex

variable {subject : Bytes} {edits : List Edit}

theorem replaces_spliceFrom (hedits : ∀ e ∈ edits, e.Fits subject) (front text : Bytes)
    (hsubject : subject = front ++ text) :
    Replaces text (spliceFrom subject edits front.length) [] := by
  induction edits generalizing front text with
  | nil =>
    rw [spliceFrom, hsubject, List.drop_left]
    apply Replaces.refl
  | cons e edits ih =>
    obtain ⟨hfits, hrest⟩ := List.forall_mem_cons.mp hedits
    rw [spliceFrom]
    split_ifs with hbegin
    · exact ih hrest front text hsubject
    · obtain ⟨before, m, after, hcut, hb, hfinish, hreplaces⟩ := hfits
      obtain ⟨x, rfl⟩ : front <+: before := List.prefix_of_prefix_length_le
        ⟨text, hsubject.symm⟩ ⟨m ++ after, hcut.symm⟩ (by omega)
      have htext : text = x ++ (m ++ after) := by
        rw [hsubject, List.append_assoc] at hcut
        exact List.append_cancel_left hcut
      have hcopied : (subject.drop front.length).take (e.begin - front.length) = x := by
        rw [hsubject, List.drop_left, htext, hb, List.length_append, Nat.add_sub_cancel_left,
          List.take_left]
      have hbehind := ih hrest (front ++ x ++ m) after
        (by rw [hcut]; simp only [List.append_assoc])
      rw [List.length_append, ← hfinish] at hbehind
      rw [hcopied, htext, List.append_assoc]
      apply Replaces.behind
      apply Replaces.append _ hbehind
      rwa [List.append_nil]

/-- A subject whose edits fit stays well formed. -/
theorem validUtf8_splice (hedits : ∀ e ∈ edits, e.Fits subject)
    (h : validUtf8 subject = true) : validUtf8 (splice subject edits) = true :=
  (replaces_spliceFrom hedits [] subject rfl).validUtf8 h

/-- A captured part of ASCII gives way to a well-formed text. -/
theorem fits_captured {r : Regex} {text : Bytes} {n : ℕ} {bounds : ℕ × ℕ} {M : Match}
    (hr : r.consumes = true)
    (hcaptures : ∀ a, (n, a) ∈ r.captures → a.consumes = true ∧ a.OfAscii)
    (hM : M ∈ r.allMatches subject) (hbounds : M.groups.lookup n = some bounds)
    (htext : validUtf8 text = true) : Edit.Fits subject ⟨bounds.1, bounds.2, text⟩ := by
  obtain ⟨before, m, after, hsubject, hfirst, -, -⟩ := exists_first_of_mem hr hM
  obtain ⟨a, x, t, y, ha, rfl, ht, rfl⟩ := hfirst.captured hbounds
  obtain ⟨hconsumes, hascii⟩ := hcaptures a ha
  refine ⟨before ++ x, t, y ++ after, by simp [hsubject], ?_, ?_, ?_⟩
  · rw [List.length_append]
  · rw [List.length_append]
  · exact replaces_ascii (ht.ne_nil hconsumes) (hascii.isAscii ht) htext _

/-- A match of ASCII gives way to a well-formed text. -/
theorem fits_match {r : Regex} {text : Bytes} {M : Match} (hr : r.consumes = true)
    (hascii : r.OfAscii) (hM : M ∈ r.allMatches subject)
    (htext : validUtf8 text = true) : Edit.Fits subject ⟨M.begin, M.finish, text⟩ := by
  obtain ⟨before, m, after, hsubject, hfirst, hbegin, hfinish⟩ := exists_first_of_mem hr hM
  have hm := hfirst.matches
  exact ⟨before, m, after, hsubject, hbegin, hfinish,
    replaces_ascii (hm.ne_nil hr) (hascii.isAscii hm) htext _⟩

/-- A match that keeps its first group. -/
theorem fits_kept {a s : Regex} {text : Bytes} {n : ℕ} {M : Match}
    (hr : (Regex.seq (.group n a) s).consumes = true) (hs : s.groupless = true)
    (hM : M ∈ (Regex.seq (.group n a) s).allMatches subject)
    (hkept : ∀ before m₁ m₂ after groups,
      (Regex.seq (.group n a) s).First before (m₁ ++ m₂) after groups →
        a.Matches before m₁ (m₂ ++ after) → s.Matches (before ++ m₁) m₂ after →
          Replaces (m₁ ++ m₂) (m₁ ++ text) after) :
    Edit.Fits subject
      ⟨M.begin, M.finish, ((M.groups.lookup n).map (slice subject)).getD [] ++ text⟩ := by
  obtain ⟨before, m, after, rfl, hfirst, hbegin, hfinish⟩ := exists_first_of_mem hr hM
  obtain ⟨m₁, m₂, rfl, hm₁, hm₂, hlookup⟩ := hfirst.head_group hs
  refine ⟨before, m₁ ++ m₂, after, rfl, hbegin, hfinish, ?_⟩
  have hslice : slice (before ++ (m₁ ++ m₂ ++ after))
      (before.length, before.length + m₁.length) = m₁ := by
    rw [slice, List.drop_left, Nat.add_sub_cancel_left, List.append_assoc, List.take_left]
  rw [hlookup, Option.map_some, Option.getD_some, hslice]
  exact hkept before m₁ m₂ after M.groups hfirst hm₁ hm₂

theorem exists_of_head_flatMap {α β : Type*} {l : List α} {g : α → List β} {y : β}
    (h : (l.flatMap g).head? = some y) : ∃ x ∈ l, (g x).head? = some y := by
  induction l with
  | nil => cases h
  | cons x l ih =>
    rw [List.flatMap_cons, List.head?_append] at h
    cases hx : (g x).head? with
    | none =>
      rw [hx, Option.none_or] at h
      obtain ⟨z, hz, hy⟩ := ih h
      exact ⟨z, List.mem_cons_of_mem x hz, hy⟩
    | some z =>
      rw [hx, Option.some_or] at h
      exact ⟨x, List.mem_cons_self, hx.trans h⟩

/-- A match found first that ends in a repetition ends where the repetition has to. -/
theorem First.stops {a : Regex} {p : UInt8 → Bool} {min : ℕ} {before m after : Bytes}
    {groups : List (ℕ × ℕ × ℕ)}
    (h : (Regex.seq a (.seq (.rep (.set p) min none) .empty)).First before m after groups) :
    Stops p after := by
  obtain ⟨c, hc, hat, -⟩ := h
  obtain ⟨c₁, hc₁, hhead⟩ := exists_of_head_flatMap hc
  obtain ⟨m₁, text, -, -, hat₁⟩ :=
    (realizes_run a).sound (Cursor.at_between before (m ++ after)) c₁ hc₁
  obtain ⟨d, rest, rfl, hd, hrest⟩ := exists_run p text
  obtain ⟨m₂, after', htext, hm₂, -⟩ := (realizes_run _).sound hat₁ c (List.mem_of_head? hhead)
  obtain ⟨m₂, _, rfl, hrep, rfl⟩ := hm₂
  obtain ⟨hmin, -, hall⟩ := matches_rep_set.mp hrep
  have hlength : min ≤ d.length := by
    have hmin' : min ≤ m₂.length := hmin.resolve_right (Option.some_ne_none _).symm
    rw [List.append_nil] at htext
    rcases List.append_eq_append_iff.mp htext with ⟨x, rfl, hx⟩ | ⟨x, rfl, hx⟩
    · cases x with
      | nil => rwa [List.append_nil] at hmin'
      | cons b x =>
        have hb := hall b (by simp)
        rw [hx, List.cons_append, stops_cons, hb] at hrest
        cases hrest
    · rw [List.length_append]
      omega
  have hrepeated : (Regex.rep (.set p) min none).Finds (before ++ m₁) d rest :=
    finds_rep_set hd hlength (by simp) hrest
  have hfound := (hrepeated.seq (finds_empty _ rest)) c₁.groups
  rw [List.append_nil, ← hat₁.eq_within, hhead] at hfound
  obtain rfl := Option.some.inj hfound
  rw [← hat.rest_eq]
  exact hrest

end Regex
end LogGenerator
