import LogGenerator.Foundation.Regex

/-!
# What an expression matches

The texts an expression matches between a text before and a text behind, apart from
the order in which backtracking tries them. The matcher finds all of them and no others.
-/

namespace LogGenerator

open Ascii

variable {b : UInt8} {before text m after rest : Bytes} {c : Cursor}

/-- The cursor stands between two texts. -/
structure Cursor.At (c : Cursor) (before text : Bytes) : Prop where
  prev_eq : c.prev = before.getLast?
  rest_eq : c.rest = text
  pos_eq : c.pos = before.length

theorem Cursor.At.next (h : c.At before (b :: rest)) : (c.next b rest).At (before ++ [b]) rest :=
  ⟨by simp [Cursor.next], rfl, by simp [Cursor.next, h.pos_eq]⟩

/-- The cursor between two texts, with no group captured. -/
def Cursor.between (before text : Bytes) : Cursor :=
  { prev := before.getLast?, rest := text, pos := before.length }

theorem Cursor.at_between (before text : Bytes) : (Cursor.between before text).At before text :=
  ⟨rfl, rfl, rfl⟩

theorem Cursor.At.withGroups (h : c.At before text) (groups : List (ℕ × ℕ × ℕ)) :
    { c with groups := groups }.At before text := ⟨h.prev_eq, h.rest_eq, h.pos_eq⟩

theorem Cursor.At.between_eq (h : c.At before text) :
    { c with groups := [] } = Cursor.between before text := by
  rw [Cursor.between, ← h.prev_eq, ← h.rest_eq, ← h.pos_eq]

namespace Regex

/-- `n` matches, one after another. -/
def Times (M : Bytes → Bytes → Bytes → Prop) : ℕ → Bytes → Bytes → Bytes → Prop
  | 0, _, m, _ => m = []
  | n + 1, before, m, after =>
    ∃ m₁ m₂, m = m₁ ++ m₂ ∧ M before m₁ (m₂ ++ after) ∧ Times M n (before ++ m₁) m₂ after

/-- The expression matches `m` between `before` and `after`. -/
def Matches : Regex → Bytes → Bytes → Bytes → Prop
  | .empty, _, m, _ => m = []
  | .set p, _, m, _ => ∃ b, m = [b] ∧ p b = true
  | .seq a b, before, m, after =>
    ∃ m₁ m₂, m = m₁ ++ m₂ ∧ a.Matches before m₁ (m₂ ++ after) ∧ b.Matches (before ++ m₁) m₂ after
  | .alt a b, before, m, after => a.Matches before m after ∨ b.Matches before m after
  | .rep a min max, before, m, after =>
    ∃ n, (min ≤ n ∨ max = some n) ∧ (∀ k ∈ max, n ≤ k) ∧ Times a.Matches n before m after
  | .group _ a, before, m, after => a.Matches before m after
  | .begin, before, m, _ => m = [] ∧ before = []
  | .boundary, before, m, after =>
    m = [] ∧ before.getLast?.any isWord ≠ after.head?.any isWord
  | .ahead negated a, before, m, after =>
    m = [] ∧ (negated = false ↔ ∃ m' after', after = m' ++ after' ∧ a.Matches before m' after')

/-- The cursors a step leads to are those behind the texts of a language. -/
structure Realizes (step : Cursor → List Cursor) (M : Bytes → Bytes → Bytes → Prop) : Prop where
  sound : ∀ {c before text}, c.At before text → ∀ c' ∈ step c,
    ∃ m after, text = m ++ after ∧ M before m after ∧ c'.At (before ++ m) after
  complete : ∀ {c before m after}, c.At before (m ++ after) → M before m after →
    ∃ c' ∈ step c, c'.At (before ++ m) after

variable {step : Cursor → List Cursor} {M : Bytes → Bytes → Bytes → Prop}

theorem Realizes.ne_nil_iff (h : Realizes step M) (hc : c.At before text) :
    step c ≠ [] ↔ ∃ m after, text = m ++ after ∧ M before m after := by
  constructor
  · intro hne
    obtain ⟨c', hc'⟩ := List.exists_mem_of_ne_nil _ hne
    obtain ⟨m, after, rfl, hm, -⟩ := h.sound hc c' hc'
    exact ⟨m, after, rfl, hm⟩
  · rintro ⟨m, after, rfl, hm⟩
    obtain ⟨c', hc', -⟩ := h.complete hc hm
    exact List.ne_nil_of_mem hc'

/-- A repetition ends here, or it goes through its body once more and then has one
iteration less before it. -/
theorem mem_repeated_succ {fuel min : ℕ} {max : Option ℕ} {c' : Cursor} :
    c' ∈ repeated step (fuel + 1) min max c ↔
      (min = 0 ∨ max = some 0) ∧ c' = c ∨
        max ≠ some 0 ∧ ∃ c₁ ∈ step c, ¬ (min = 0 ∧ c₁.pos = c.pos) ∧
          c' ∈ repeated step fuel (min - 1) (max.map (· - 1)) c₁ := by
  have hlonger : (c' ∈ (step c).flatMap fun c₁ => if min = 0 ∧ c₁.pos = c.pos then []
      else repeated step fuel (min - 1) (max.map (· - 1)) c₁) ↔
      ∃ c₁ ∈ step c, ¬ (min = 0 ∧ c₁.pos = c.pos) ∧
        c' ∈ repeated step fuel (min - 1) (max.map (· - 1)) c₁ := by
    rw [List.mem_flatMap]
    apply exists_congr
    intro c₁
    split_ifs with hempty
    · simp [hempty]
    · simp [hempty]
  rw [repeated]
  by_cases hmax : max = some 0
  · simp [hmax]
  · by_cases hmin : min = 0
    · rw [if_neg hmax, if_pos hmin, List.mem_append, hlonger, List.mem_singleton]
      simp only [hmin, hmax, true_or, true_and, ne_eq, not_false_eq_true]
      exact or_comm
    · rw [if_neg hmax, if_neg hmin, hlonger]
      simp [hmin, hmax]

/-- One iteration more, in the bounds that count it. -/
theorem bounds_succ {n min : ℕ} {max : Option ℕ} (hmax : max ≠ some 0) :
    ((min - 1 ≤ n ∨ max.map (· - 1) = some n) ∧ ∀ k ∈ max.map (· - 1), n ≤ k) ↔
      (min ≤ n + 1 ∨ max = some (n + 1)) ∧ ∀ k ∈ max, n + 1 ≤ k := by
  cases max with
  | none => simp
  | some k =>
    obtain ⟨k, rfl⟩ : ∃ j, k = j + 1 := Nat.exists_eq_succ_of_ne_zero (by simpa using hmax)
    simp

theorem repeated_sound (h : Realizes step M) {fuel min : ℕ} {max : Option ℕ}
    (hc : c.At before text) {c' : Cursor} (hc' : c' ∈ repeated step fuel min max c) :
    ∃ n m after, text = m ++ after ∧ ((min ≤ n ∨ max = some n) ∧ ∀ k ∈ max, n ≤ k) ∧
      Times M n before m after ∧ c'.At (before ++ m) after := by
  induction fuel generalizing c before text min max with
  | zero =>
    rw [repeated] at hc'
    split_ifs at hc' with hmin
    · obtain rfl := List.mem_singleton.mp hc'
      exact ⟨0, [], text, rfl, ⟨.inl hmin.le, fun k _ => k.zero_le⟩, rfl,
        by rwa [List.append_nil]⟩
    · cases hc'
  | succ fuel ih =>
    rcases mem_repeated_succ.mp hc' with ⟨hmin, rfl⟩ | ⟨hmax, c₁, hc₁, -, hrest⟩
    · exact ⟨0, [], text, rfl, ⟨hmin.imp Nat.le_of_eq id, fun k _ => k.zero_le⟩, rfl,
        by rwa [List.append_nil]⟩
    · obtain ⟨m₁, after₁, rfl, hm₁, hat₁⟩ := h.sound hc c₁ hc₁
      obtain ⟨n, m₂, after, rfl, hbounds, htimes, hat⟩ := ih hat₁ hrest
      refine ⟨n + 1, m₁ ++ m₂, after, (List.append_assoc ..).symm, ?_,
        ⟨m₁, m₂, rfl, hm₁, htimes⟩, ?_⟩
      · exact (bounds_succ hmax).mp hbounds
      · rwa [← List.append_assoc]

/-- Iterations past the minimum that match nothing are left out, so that the fuel lasts. -/
theorem repeated_complete (h : Realizes step M) {n fuel min : ℕ} {max : Option ℕ}
    (hc : c.At before (m ++ after)) (hfuel : (m ++ after).length + min < fuel)
    (hbounds : (min ≤ n ∨ max = some n) ∧ ∀ k ∈ max, n ≤ k) (hm : Times M n before m after) :
    ∃ c' ∈ repeated step fuel min max c, c'.At (before ++ m) after := by
  obtain ⟨fuel, rfl⟩ : ∃ k, fuel = k + 1 := ⟨fuel - 1, by omega⟩
  induction n generalizing c before m min max fuel with
  | zero =>
    obtain rfl : m = [] := hm
    refine ⟨c, mem_repeated_succ.mpr (.inl ⟨?_, rfl⟩), by rwa [List.append_nil]⟩
    exact hbounds.1.imp Nat.le_zero.mp id
  | succ n ih =>
    obtain ⟨m₁, m₂, rfl, hm₁, hm₂⟩ := hm
    have hmax : max ≠ some 0 := by
      rintro rfl
      exact absurd (hbounds.2 0 rfl) (Nat.not_succ_le_zero n)
    by_cases hempty : min = 0 ∧ m₁ = []
    · obtain ⟨rfl, rfl⟩ := hempty
      rw [List.append_nil] at hm₂
      exact ih hc ⟨.inl n.zero_le, fun k hk => (Nat.le_succ n).trans (hbounds.2 k hk)⟩ hm₂ fuel
        hfuel
    · rw [List.append_assoc] at hc hfuel
      obtain ⟨c₁, hc₁, hat₁⟩ := h.complete hc hm₁
      have hpos : c₁.pos = c.pos + m₁.length := by
        rw [hat₁.pos_eq, hc.pos_eq, List.length_append]
      have hmoves : ¬ (min = 0 ∧ c₁.pos = c.pos) := fun hstays => hempty
        ⟨hstays.1, List.length_eq_zero_iff.mp (by omega)⟩
      have hshort : (m₂ ++ after).length + (min - 1) < fuel := by
        rw [List.length_append] at hfuel
        rcases Nat.eq_zero_or_pos min with rfl | hmin
        · have := List.length_pos_iff.mpr fun hnil => hempty ⟨rfl, hnil⟩
          omega
        · omega
      obtain ⟨fuel, rfl⟩ : ∃ k, fuel = k + 1 := ⟨fuel - 1, by omega⟩
      obtain ⟨c', hc', hat⟩ := ih hat₁ ((bounds_succ hmax).mpr hbounds) hm₂ fuel hshort
      refine ⟨c', mem_repeated_succ.mpr (.inr ⟨hmax, c₁, hc₁, hmoves, hc'⟩), ?_⟩
      rwa [← List.append_assoc]

/-- A step that stays where it is, under a condition on the two texts. -/
theorem realizes_test {test : Cursor → Bool} {P : Bytes → Bytes → Prop}
    (h : ∀ c before text, c.At before text → (test c = true ↔ P before text)) :
    Realizes (fun c => if test c then [c] else []) fun before m after =>
      m = [] ∧ P before after := by
  constructor
  · intro c before text hc c' hc'
    split_ifs at hc' with htest
    · obtain rfl := List.mem_singleton.mp hc'
      exact ⟨[], text, rfl, ⟨rfl, (h c' before text hc).mp htest⟩, by rwa [List.append_nil]⟩
    · cases hc'
  · rintro c before m after hc ⟨rfl, hP⟩
    refine ⟨c, ?_, by rwa [List.append_nil]⟩
    rw [if_pos ((h c before after hc).mpr hP)]
    exact List.mem_singleton_self c

theorem realizes_run (r : Regex) : Realizes r.run r.Matches := by
  induction r with
  | empty =>
    constructor
    · intro c before text hc c' hc'
      obtain rfl := List.mem_singleton.mp hc'
      exact ⟨[], text, rfl, rfl, by rwa [List.append_nil]⟩
    · rintro c before m after hc rfl
      exact ⟨c, List.mem_singleton_self c, by rwa [List.append_nil]⟩
  | set p =>
    constructor
    · intro c before text hc c' hc'
      rw [run, hc.rest_eq] at hc'
      cases text with
      | nil => cases hc'
      | cons b rest =>
        simp only at hc'
        split_ifs at hc' with hb
        · obtain rfl := List.mem_singleton.mp hc'
          exact ⟨[b], rest, rfl, ⟨b, rfl, hb⟩, hc.next⟩
        · cases hc'
    · rintro c before m after hc ⟨b, rfl, hb⟩
      refine ⟨c.next b after, ?_, Cursor.At.next hc⟩
      rw [run, hc.rest_eq]
      simp [hb]
  | seq a b iha ihb =>
    constructor
    · intro c before text hc c' hc'
      obtain ⟨c₁, hc₁, hc'⟩ := List.mem_flatMap.mp hc'
      obtain ⟨m₁, after₁, rfl, hm₁, hat₁⟩ := iha.sound hc c₁ hc₁
      obtain ⟨m₂, after, rfl, hm₂, hat₂⟩ := ihb.sound hat₁ c' hc'
      exact ⟨m₁ ++ m₂, after, (List.append_assoc ..).symm, ⟨m₁, m₂, rfl, hm₁, hm₂⟩,
        by rwa [← List.append_assoc]⟩
    · rintro c before m after hc ⟨m₁, m₂, rfl, hm₁, hm₂⟩
      rw [List.append_assoc] at hc
      obtain ⟨c₁, hc₁, hat₁⟩ := iha.complete hc hm₁
      obtain ⟨c', hc', hat₂⟩ := ihb.complete hat₁ hm₂
      exact ⟨c', List.mem_flatMap.mpr ⟨c₁, hc₁, hc'⟩, by rwa [← List.append_assoc]⟩
  | alt a b iha ihb =>
    constructor
    · intro c before text hc c' hc'
      rcases List.mem_append.mp hc' with hc' | hc'
      · obtain ⟨m, after, rfl, hm, hat⟩ := iha.sound hc c' hc'
        exact ⟨m, after, rfl, .inl hm, hat⟩
      · obtain ⟨m, after, rfl, hm, hat⟩ := ihb.sound hc c' hc'
        exact ⟨m, after, rfl, .inr hm, hat⟩
    · rintro c before m after hc (hm | hm)
      · obtain ⟨c', hc', hat⟩ := iha.complete hc hm
        exact ⟨c', List.mem_append_left _ hc', hat⟩
      · obtain ⟨c', hc', hat⟩ := ihb.complete hc hm
        exact ⟨c', List.mem_append_right _ hc', hat⟩
  | rep a min max ih =>
    constructor
    · intro c before text hc c' hc'
      obtain ⟨n, m, after, rfl, hbounds, htimes, hat⟩ := repeated_sound ih hc hc'
      exact ⟨m, after, rfl, ⟨n, hbounds.1, hbounds.2, htimes⟩, hat⟩
    · rintro c before m after hc ⟨n, hmin, hmax, htimes⟩
      exact repeated_complete ih hc (by rw [hc.rest_eq]; omega) ⟨hmin, hmax⟩ htimes
  | group n a ih =>
    constructor
    · intro c before text hc c' hc'
      obtain ⟨c₁, hc₁, rfl⟩ := List.mem_map.mp hc'
      obtain ⟨m, after, rfl, hm, hat⟩ := ih.sound hc c₁ hc₁
      exact ⟨m, after, rfl, hm, hat.withGroups _⟩
    · intro c before m after hc hm
      obtain ⟨c₁, hc₁, hat⟩ := ih.complete hc hm
      exact ⟨_, List.mem_map_of_mem hc₁, hat.withGroups _⟩
  | begin =>
    apply realizes_test
    intro c before text hc
    rw [hc.prev_eq, Option.isNone_iff_eq_none, List.getLast?_eq_none_iff]
  | boundary =>
    apply realizes_test
    intro c before text hc
    rw [hc.prev_eq, hc.rest_eq, bne_iff_ne]
  | ahead negated a ih =>
    apply realizes_test
    intro c before text hc
    rw [← ih.ne_nil_iff hc, beq_iff_eq]
    cases negated <;> simp

theorem run_ne_nil_iff {r : Regex} : r.run (.between before text) ≠ [] ↔
    ∃ m after, text = m ++ after ∧ r.Matches before m after :=
  (realizes_run r).ne_nil_iff (Cursor.at_between before text)

variable {p : UInt8 → Bool} {r : Regex} {rs : List Regex} {min n : ℕ} {max : Option ℕ}

@[simp] theorem matches_alt {a b : Regex} : (Regex.alt a b).Matches before m after ↔
    a.Matches before m after ∨ b.Matches before m after := Iff.rfl

theorem matches_seq {a b : Regex} : (Regex.seq a b).Matches before m after ↔
    ∃ m₁ m₂, m = m₁ ++ m₂ ∧ a.Matches before m₁ (m₂ ++ after) ∧ b.Matches (before ++ m₁) m₂ after :=
  Iff.rfl

@[simp] theorem matches_seqs_nil : (seqs []).Matches before m after ↔ m = [] := Iff.rfl

theorem matches_seqs_cons : (seqs (r :: rs)).Matches before m after ↔
    ∃ m₁ m₂, m = m₁ ++ m₂ ∧ r.Matches before m₁ (m₂ ++ after) ∧
      (seqs rs).Matches (before ++ m₁) m₂ after := Iff.rfl

theorem matches_seqs_append {ss : List Regex} : (seqs (rs ++ ss)).Matches before m after ↔
    ∃ m₁ m₂, m = m₁ ++ m₂ ∧ (seqs rs).Matches before m₁ (m₂ ++ after) ∧
      (seqs ss).Matches (before ++ m₁) m₂ after := by
  induction rs generalizing before m with
  | nil => simp
  | cons r rs ih =>
    rw [List.cons_append, matches_seqs_cons]
    constructor
    · rintro ⟨m₁, _, rfl, hr, h⟩
      obtain ⟨m₂, m₃, rfl, hrs, hss⟩ := ih.mp h
      rw [List.append_assoc] at hr hss
      exact ⟨m₁ ++ m₂, m₃, by simp, ⟨m₁, m₂, rfl, hr, hrs⟩, hss⟩
    · rintro ⟨_, m₃, rfl, ⟨m₁, m₂, rfl, hr, hrs⟩, hss⟩
      rw [← List.append_assoc before] at hss
      refine ⟨m₁, m₂ ++ m₃, by simp, ?_, ih.mpr ⟨m₂, m₃, rfl, hrs, hss⟩⟩
      rwa [List.append_assoc]

@[simp] theorem matches_lit {s : String} : (lit s).Matches before m after ↔ m = bytes s := by
  rw [lit]
  generalize bytes s = word
  induction word generalizing before m with
  | nil => exact Iff.rfl
  | cons b word ih =>
    rw [List.foldr_cons, matches_seq]
    constructor
    · rintro ⟨m₁, m₂, rfl, ⟨c, rfl, hc⟩, hm₂⟩
      rw [ih.mp hm₂, beq_iff_eq.mp hc, List.singleton_append]
    · rintro rfl
      exact ⟨[b], word, rfl, ⟨b, rfl, beq_self_eq_true b⟩, ih.mpr rfl⟩

theorem times_set : Times (Regex.set p).Matches n before m after ↔
    m.length = n ∧ ∀ b ∈ m, p b = true := by
  induction n generalizing before m with
  | zero =>
    rw [Times, List.length_eq_zero_iff]
    exact ⟨fun h => ⟨h, by simp [h]⟩, And.left⟩
  | succ n ih =>
    constructor
    · rintro ⟨m₁, m₂, rfl, ⟨b, rfl, hb⟩, hm₂⟩
      obtain ⟨hlength, hall⟩ := ih.mp hm₂
      exact ⟨by simp [hlength], List.forall_mem_cons.mpr ⟨hb, hall⟩⟩
    · rintro ⟨hlength, hall⟩
      obtain ⟨b, rest, rfl⟩ := List.exists_cons_of_length_eq_add_one hlength
      rw [List.forall_mem_cons] at hall
      exact ⟨[b], rest, rfl, ⟨b, rfl, hall.1⟩, ih.mpr ⟨Nat.succ_injective hlength, hall.2⟩⟩

theorem matches_rep_set : (Regex.rep (.set p) min max).Matches before m after ↔
    (min ≤ m.length ∨ max = some m.length) ∧ (∀ k ∈ max, m.length ≤ k) ∧ ∀ b ∈ m, p b = true := by
  constructor
  · rintro ⟨n, hmin, hmax, htimes⟩
    obtain ⟨rfl, hall⟩ := times_set.mp htimes
    exact ⟨hmin, hmax, hall⟩
  · rintro ⟨hmin, hmax, hall⟩
    exact ⟨m.length, hmin, hmax, times_set.mpr ⟨rfl, hall⟩⟩

theorem matches_plus_set : (plus (.set p)).Matches before m after ↔
    m ≠ [] ∧ ∀ b ∈ m, p b = true := by
  rw [plus, matches_rep_set]
  simp [Nat.one_le_iff_ne_zero]

theorem matches_times_set : (times (.set p) n).Matches before m after ↔
    m.length = n ∧ ∀ b ∈ m, p b = true := by
  rw [times, matches_rep_set]
  simp only [Option.some.injEq, Option.mem_def, forall_eq']
  constructor
  · rintro ⟨hmin, hmax, hall⟩
    exact ⟨by omega, hall⟩
  · rintro ⟨rfl, hall⟩
    exact ⟨.inr rfl, le_rfl, hall⟩

theorem matches_between_set {k : ℕ} (hnk : n ≤ k) : (between (.set p) n k).Matches before m after ↔
    (n ≤ m.length ∧ m.length ≤ k) ∧ ∀ b ∈ m, p b = true := by
  rw [between, matches_rep_set, and_assoc]
  simp only [Option.some.injEq, Option.mem_def, forall_eq']
  constructor
  · rintro ⟨hmin, hmax, hall⟩
    exact ⟨by omega, hmax, hall⟩
  · rintro ⟨hmin, hmax, hall⟩
    exact ⟨.inl hmin, hmax, hall⟩

theorem matches_opt : (opt r).Matches before m after ↔ m = [] ∨ r.Matches before m after := by
  constructor
  · rintro ⟨n, -, hmax, htimes⟩
    rcases n with - | - | n
    · exact .inl htimes
    · obtain ⟨m₁, m₂, rfl, hm₁, rfl⟩ := htimes
      rw [List.append_nil]
      exact .inr hm₁
    · exact absurd (hmax 1 rfl) (by omega)
  · rintro (rfl | hm)
    · exact ⟨0, .inl le_rfl, fun k _ => k.zero_le, rfl⟩
    · refine ⟨1, .inl (Nat.zero_le 1), fun k hk => (Option.mem_some.mp hk).le, ?_⟩
      exact ⟨m, [], (List.append_nil m).symm, hm, rfl⟩

/-- The bytes of which a match may be made. -/
def uses : Regex → UInt8 → Bool
  | .set p, b => p b
  | .seq r s, b | .alt r s, b => r.uses b || s.uses b
  | .rep r _ _, b | .group _ r, b => r.uses b
  | _, _ => false

theorem uses_of_matches (h : r.Matches before m after) : ∀ b ∈ m, r.uses b = true := by
  induction r generalizing before m after with
  | empty => obtain rfl := h; exact nofun
  | set p =>
    obtain ⟨b, rfl, hb⟩ := h
    simpa [uses] using hb
  | seq r s ihr ihs =>
    obtain ⟨m₁, m₂, rfl, h₁, h₂⟩ := h
    rw [List.forall_mem_append]
    exact ⟨fun b hb => by simp [uses, ihr h₁ b hb], fun b hb => by simp [uses, ihs h₂ b hb]⟩
  | alt r s ihr ihs =>
    rcases h with h | h
    · exact fun b hb => by simp [uses, ihr h b hb]
    · exact fun b hb => by simp [uses, ihs h b hb]
  | rep r min max ih =>
    obtain ⟨n, -, -, htimes⟩ := h
    induction n generalizing before m with
    | zero => obtain rfl := htimes; exact nofun
    | succ n ihn =>
      obtain ⟨m₁, m₂, rfl, h₁, h₂⟩ := htimes
      rw [List.forall_mem_append]
      exact ⟨ih h₁, ihn h₂⟩
  | group n r ih => exact ih h
  | begin => obtain ⟨rfl, -⟩ := h; exact nofun
  | boundary => obtain ⟨rfl, -⟩ := h; exact nofun
  | ahead negated r => obtain ⟨rfl, -⟩ := h; exact nofun

/-- A repetition that must run at least once begins with a match of its body. -/
theorem Matches.head_rep (hmin : 0 < min) (hmax : max ≠ some 0)
    (h : (Regex.rep r min max).Matches before m after) :
    ∃ m₁ m₂, m = m₁ ++ m₂ ∧ r.Matches before m₁ (m₂ ++ after) := by
  obtain ⟨n, hn, -, htimes⟩ := h
  cases n with
  | zero =>
    rcases hn with hn | hn
    · omega
    · exact absurd hn hmax
  | succ n =>
    obtain ⟨m₁, m₂, rfl, h₁, -⟩ := htimes
    exact ⟨m₁, m₂, rfl, h₁⟩

/-- A byte of the class is seen to occur in every match. -/
def requires (p : UInt8 → Bool) : Regex → Bool
  | .set q => decide (∀ c, q c = true → p c = true)
  | .seq r s => r.requires p || s.requires p
  | .alt r s => r.requires p && s.requires p
  | .rep r min max => r.requires p && 0 < min && max != some 0
  | .group _ r => r.requires p
  | _ => false

theorem exists_mem_of_requires (hp : r.requires p = true) (h : r.Matches before m after) :
    ∃ b ∈ m, p b = true := by
  induction r generalizing before m after with
  | set q =>
    obtain ⟨c, rfl, hc⟩ := h
    exact ⟨c, List.mem_singleton_self c, of_decide_eq_true hp c hc⟩
  | seq r s ihr ihs =>
    obtain ⟨m₁, m₂, rfl, h₁, h₂⟩ := h
    rw [requires, Bool.or_eq_true] at hp
    rcases hp with hp | hp
    · obtain ⟨b, hb, hpb⟩ := ihr hp h₁
      exact ⟨b, List.mem_append_left m₂ hb, hpb⟩
    · obtain ⟨b, hb, hpb⟩ := ihs hp h₂
      exact ⟨b, List.mem_append_right m₁ hb, hpb⟩
  | alt r s ihr ihs =>
    rw [requires, Bool.and_eq_true] at hp
    exact h.elim (ihr hp.1) (ihs hp.2)
  | rep r min max ih =>
    simp only [requires, Bool.and_eq_true, decide_eq_true_eq, bne_iff_ne] at hp
    obtain ⟨m₁, m₂, rfl, h₁⟩ := h.head_rep hp.1.2 hp.2
    obtain ⟨b, hb, hpb⟩ := ih hp.1.1 h₁
    exact ⟨b, List.mem_append_left m₂ hb, hpb⟩
  | group n r ih => exact ih hp h
  | empty | begin | boundary | ahead => cases hp

/-- No match is seen to be empty. -/
def consumes : Regex → Bool
  | .set _ => true
  | .seq r s => r.consumes || s.consumes
  | .alt r s => r.consumes && s.consumes
  | .rep r min max => r.consumes && 0 < min && max != some 0
  | .group _ r => r.consumes
  | _ => false

theorem Matches.ne_nil (hr : r.consumes = true) (h : r.Matches before m after) : m ≠ [] := by
  induction r generalizing before m after with
  | set p =>
    obtain ⟨b, rfl, -⟩ := h
    exact List.cons_ne_nil b []
  | seq r s ihr ihs =>
    obtain ⟨m₁, m₂, rfl, h₁, h₂⟩ := h
    rw [consumes, Bool.or_eq_true] at hr
    rcases hr with hr | hr
    · exact List.append_ne_nil_of_left_ne_nil (ihr hr h₁) m₂
    · exact List.append_ne_nil_of_right_ne_nil m₁ (ihs hr h₂)
  | alt r s ihr ihs =>
    rw [consumes, Bool.and_eq_true] at hr
    exact h.elim (ihr hr.1) (ihs hr.2)
  | rep r min max ih =>
    simp only [consumes, Bool.and_eq_true, decide_eq_true_eq, bne_iff_ne] at hr
    obtain ⟨m₁, m₂, rfl, h₁⟩ := h.head_rep hr.1.2 hr.2
    exact List.append_ne_nil_of_left_ne_nil (ih hr.1.1 h₁) m₂
  | group n r ih => exact ih hr h
  | empty | begin | boundary | ahead => cases hr

/-- No match is shorter. -/
def shortest : Regex → ℕ
  | .set _ => 1
  | .seq r s => r.shortest + s.shortest
  | .alt r s => Nat.min r.shortest s.shortest
  | .rep r min max => max.elim min (Nat.min min) * r.shortest
  | .group _ r => r.shortest
  | _ => 0

theorem shortest_le (h : r.Matches before m after) : r.shortest ≤ m.length := by
  induction r generalizing before m after with
  | set p =>
    obtain ⟨b, rfl, -⟩ := h
    exact le_rfl
  | seq r s ihr ihs =>
    obtain ⟨m₁, m₂, rfl, h₁, h₂⟩ := h
    rw [List.length_append]
    exact Nat.add_le_add (ihr h₁) (ihs h₂)
  | alt r s ihr ihs =>
    rcases h with h | h
    · exact (Nat.min_le_left _ _).trans (ihr h)
    · exact (Nat.min_le_right _ _).trans (ihs h)
  | rep r min max ih =>
    obtain ⟨n, hmin, -, htimes⟩ := h
    have hcount : max.elim min (Nat.min min) ≤ n := by
      cases max with
      | none => exact hmin.elim id fun h => nomatch h
      | some k => exact hmin.elim (Nat.min_le_left _ _).trans fun h =>
          (Nat.min_le_right _ _).trans (Option.some.inj h).le
    have hlength : n * r.shortest ≤ m.length := by
      clear hmin hcount
      induction n generalizing before m with
      | zero => rw [Nat.zero_mul]; exact Nat.zero_le _
      | succ n ihn =>
        obtain ⟨m₁, m₂, rfl, h₁, h₂⟩ := htimes
        rw [Nat.succ_mul, List.length_append, Nat.add_comm]
        exact Nat.add_le_add (ih h₁) (ihn h₂)
    exact (Nat.mul_le_mul_right _ hcount).trans hlength
  | group n r ih => exact ih h
  | empty | begin | boundary | ahead => exact Nat.zero_le _

/-- The length that all matches are seen to have. -/
def width : Regex → Option ℕ
  | .set _ => some 1
  | .seq r s => do return (← r.width) + (← s.width)
  | .alt r s => if r.width = s.width then r.width else none
  | .rep r min max => if max = some min then r.width.map (min * ·) else none
  | .group _ r => r.width
  | _ => some 0

theorem length_of_width {k : ℕ} (hr : r.width = some k) (h : r.Matches before m after) :
    m.length = k := by
  induction r generalizing before m after k with
  | set p =>
    obtain ⟨b, rfl, -⟩ := h
    exact Option.some.inj hr
  | seq r s ihr ihs =>
    obtain ⟨m₁, m₂, rfl, h₁, h₂⟩ := h
    obtain ⟨i, hi, hrest⟩ := Option.bind_eq_some_iff.mp hr
    obtain ⟨j, hj, hsum⟩ := Option.bind_eq_some_iff.mp hrest
    rw [List.length_append, ihr hi h₁, ihs hj h₂]
    exact Option.some.inj hsum
  | alt r s ihr ihs =>
    rw [width] at hr
    split_ifs at hr with heq
    rcases h with h | h
    · exact ihr hr h
    · exact ihs (heq ▸ hr) h
  | rep r min max ih =>
    rw [width] at hr
    split_ifs at hr with heq
    subst heq
    obtain ⟨j, hj, rfl⟩ := Option.map_eq_some_iff.mp hr
    obtain ⟨n, hmin, hmax, htimes⟩ := h
    obtain rfl : n = min := by
      have hle := hmax min rfl
      rcases hmin with hmin | hmin
      · omega
      · exact (Option.some.inj hmin).symm
    clear hmin hmax hr
    induction n generalizing before m with
    | zero => rw [htimes, List.length_nil, Nat.zero_mul]
    | succ n ihn =>
      obtain ⟨m₁, m₂, rfl, h₁, h₂⟩ := htimes
      rw [List.length_append, ih hj h₁, ihn h₂]
      ring
  | group n r ih => exact ih hr h
  | empty | begin | boundary | ahead =>
    obtain rfl := Option.some.inj hr
    first
      | exact congrArg List.length h
      | exact congrArg List.length h.1

/-- The expression does not look at the text around a match. -/
def contextFree : Regex → Bool
  | .empty | .set _ => true
  | .seq r s | .alt r s => r.contextFree && s.contextFree
  | .rep r _ _ | .group _ r => r.contextFree
  | .begin | .boundary | .ahead _ _ => false

theorem Matches.congr (hfree : r.contextFree = true) (h : r.Matches before m after)
    (before' after' : Bytes) : r.Matches before' m after' := by
  induction r generalizing before m after before' after' with
  | empty | set => exact h
  | seq r s ihr ihs =>
    rw [contextFree, Bool.and_eq_true] at hfree
    obtain ⟨m₁, m₂, rfl, h₁, h₂⟩ := h
    exact ⟨m₁, m₂, rfl, ihr hfree.1 h₁ before' _, ihs hfree.2 h₂ _ after'⟩
  | alt r s ihr ihs =>
    rw [contextFree, Bool.and_eq_true] at hfree
    exact h.imp (ihr hfree.1 · before' after') (ihs hfree.2 · before' after')
  | rep r min max ih =>
    obtain ⟨n, hmin, hmax, htimes⟩ := h
    refine ⟨n, hmin, hmax, ?_⟩
    clear hmin hmax
    induction n generalizing before m before' with
    | zero => exact htimes
    | succ n ihn =>
      obtain ⟨m₁, m₂, rfl, h₁, h₂⟩ := htimes
      exact ⟨m₁, m₂, rfl, ih hfree h₁ before' _, ihn _ h₂⟩
  | group n r ih => exact ih hfree h before' after'
  | begin | boundary | ahead => cases hfree

end Regex
end LogGenerator
