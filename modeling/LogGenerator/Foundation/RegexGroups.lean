import LogGenerator.Foundation.RegexRewriting
import LogGenerator.Foundation.Runs

/-!
# Groups and the order of the matches

What a captured group has matched, and the match that backtracking finds first where
only one way leads on.
-/

namespace LogGenerator

/-- The cursor between two texts, with the groups captured so far. -/
def Cursor.within (before text : Bytes) (groups : List (ℕ × ℕ × ℕ)) : Cursor :=
  { Cursor.between before text with groups := groups }

theorem Cursor.At.eq_within {c : Cursor} {before text : Bytes} (h : c.At before text) :
    c = .within before text c.groups := by
  rw [Cursor.within, Cursor.between, ← h.prev_eq, ← h.rest_eq, ← h.pos_eq]

namespace Regex

open Runs

variable {r : Regex} {before text m after : Bytes} {groups : List (ℕ × ℕ × ℕ)} {c c' : Cursor}

/-- The groups of an expression that a match can record. -/
def captures : Regex → List (ℕ × Regex)
  | .group n a => (n, a) :: a.captures
  | .seq a b | .alt a b => a.captures ++ b.captures
  | .rep a _ _ => a.captures
  | _ => []

theorem captures_of_groupless (hr : r.groupless = true) : r.captures = [] := by
  induction r with
  | seq a b iha ihb | alt a b iha ihb =>
    rw [groupless, Bool.and_eq_true] at hr
    rw [captures, iha hr.1, ihb hr.2, List.append_nil]
  | rep a min max ih => exact ih hr
  | group n a => cases hr
  | empty | set | begin | boundary | ahead => rfl

/-- What the only other group of an expression captures. -/
theorem eq_of_mem_captures {x y s a : Regex} {n k : ℕ} (hnk : n ≠ k) (hx : x.groupless = true)
    (hy : y.groupless = true) (hs : s.groupless = true)
    (h : (k, a) ∈ (Regex.seq (.group n x) (.seq (.group k y) s)).captures) : a = y := by
  simpa [captures, captures_of_groupless hx, captures_of_groupless hy, captures_of_groupless hs,
    hnk.symm] using h

/-- A group of the list has matched a part of the `n` bytes from the start of the text on. -/
def Captured (captures : List (ℕ × Regex)) (before text : Bytes) (n : ℕ) (g : ℕ × ℕ × ℕ) : Prop :=
  ∃ a x m after, (g.1, a) ∈ captures ∧ text = x ++ (m ++ after) ∧ a.Matches (before ++ x) m after ∧
    g.2 = (before.length + x.length, before.length + x.length + m.length) ∧
      x.length + m.length ≤ n

theorem Captured.mono {cs cs' : List (ℕ × Regex)} {n n' : ℕ} {g : ℕ × ℕ × ℕ} (hcs : cs ⊆ cs')
    (hn : n ≤ n') (h : Captured cs before text n g) : Captured cs' before text n' g := by
  obtain ⟨a, x, m, after, ha, htext, hm, hg, hle⟩ := h
  exact ⟨a, x, m, after, hcs ha, htext, hm, hg, hle.trans hn⟩

/-- A group captured from a later place on. -/
theorem Captured.behind {cs : List (ℕ × Regex)} {n n' : ℕ} {g : ℕ × ℕ × ℕ} {u : Bytes}
    (hn : u.length + n ≤ n') (h : Captured cs (before ++ u) text n g) :
    Captured cs before (u ++ text) n' g := by
  obtain ⟨a, x, m, after, ha, rfl, hm, hg, hle⟩ := h
  refine ⟨a, u ++ x, m, after, ha, by rw [List.append_assoc], by rwa [← List.append_assoc], ?_, ?_⟩
  · rw [hg, List.length_append, List.length_append, Nat.add_assoc]
  · rw [List.length_append]
    omega

theorem repeated_captured {a : Regex} (ih : ∀ {c c' : Cursor} {before m after : Bytes},
      c.At before (m ++ after) → c' ∈ a.run c → c'.At (before ++ m) after → ∀ g ∈ c'.groups,
        g ∈ c.groups ∨ Captured a.captures before (m ++ after) m.length g)
    {fuel min : ℕ} {max : Option ℕ} (hc : c.At before (m ++ after))
    (h : c' ∈ repeated a.run fuel min max c) (hc' : c'.At (before ++ m) after) :
    ∀ g ∈ c'.groups, g ∈ c.groups ∨ Captured a.captures before (m ++ after) m.length g := by
  induction fuel generalizing c before m min max with
  | zero =>
    rw [repeated] at h
    split_ifs at h
    · obtain rfl := List.mem_singleton.mp h
      exact fun g hg => .inl hg
    · cases h
  | succ fuel ihf =>
    rcases mem_repeated_succ.mp h with ⟨-, rfl⟩ | ⟨-, c₁, h₁, -, h₂⟩
    · exact fun g hg => .inl hg
    · obtain ⟨m₁, rest, htext, -, hat₁⟩ := (realizes_run a).sound hc c₁ h₁
      obtain ⟨-, m₂, after', rfl, -, -, hat₂⟩ := repeated_sound (realizes_run a) hat₁ h₂
      obtain rfl : after = after' := hc'.rest_eq.symm.trans hat₂.rest_eq
      rw [← List.append_assoc] at htext
      obtain rfl := List.append_cancel_right htext
      rw [List.append_assoc] at hc ⊢
      intro g hg
      rcases ihf hat₁ h₂ hat₂ g hg with hg | hg
      · refine (ih hc h₁ hat₁ g hg).imp id (Captured.mono (List.Subset.refl _) ?_)
        rw [List.length_append]
        exact Nat.le_add_right _ _
      · exact .inr (hg.behind (by rw [List.length_append]))

theorem groups_captured (hc : c.At before (m ++ after)) (h : c' ∈ r.run c)
    (hc' : c'.At (before ++ m) after) :
    ∀ g ∈ c'.groups, g ∈ c.groups ∨ Captured r.captures before (m ++ after) m.length g := by
  induction r generalizing c c' before m after with
  | seq a b iha ihb =>
    obtain ⟨c₁, h₁, h₂⟩ := List.mem_flatMap.mp h
    obtain ⟨m₁, rest, htext, -, hat₁⟩ := (realizes_run a).sound hc c₁ h₁
    obtain ⟨m₂, after', rfl, -, hat₂⟩ := (realizes_run b).sound hat₁ c' h₂
    obtain rfl : after = after' := hc'.rest_eq.symm.trans hat₂.rest_eq
    rw [← List.append_assoc] at htext
    obtain rfl := List.append_cancel_right htext
    rw [List.append_assoc] at hc ⊢
    intro g hg
    rcases ihb hat₁ h₂ hat₂ g hg with hg | hg
    · refine (iha hc h₁ hat₁ g hg).imp id (Captured.mono (List.subset_append_left _ _) ?_)
      rw [List.length_append]
      exact Nat.le_add_right _ _
    · refine .inr ((hg.mono (List.subset_append_right _ _) le_rfl).behind ?_)
      rw [List.length_append]
  | alt a b iha ihb =>
    intro g hg
    rcases List.mem_append.mp h with h | h
    · exact (iha hc h hc' g hg).imp id (Captured.mono (List.subset_append_left _ _) le_rfl)
    · exact (ihb hc h hc' g hg).imp id (Captured.mono (List.subset_append_right _ _) le_rfl)
  | rep a min max ih =>
    have hrep : c' ∈ repeated a.run (c.rest.length + min + 1) min max c := h
    exact repeated_captured (a := a) ih hc hrep hc'
  | group n a ih =>
    obtain ⟨c₁, h₁, rfl⟩ := List.mem_map.mp h
    obtain ⟨m₁, rest, htext, hm₁, hat₁⟩ := (realizes_run a).sound hc c₁ h₁
    have hat : c₁.At (before ++ m) after := ⟨hc'.prev_eq, hc'.rest_eq, hc'.pos_eq⟩
    obtain rfl : after = rest := hat.rest_eq.symm.trans hat₁.rest_eq
    obtain rfl := List.append_cancel_right htext
    intro g hg
    rcases List.mem_cons.mp hg with rfl | hg
    · refine .inr ⟨a, [], m, after, List.mem_cons_self, rfl, by rwa [List.append_nil], ?_, ?_⟩
      · rw [hc.pos_eq, hat.pos_eq, List.length_append]
        rfl
      · simp
    · exact (ih hc h₁ hat g hg).imp id (Captured.mono (List.subset_cons_self _ _) le_rfl)
  | empty | set | begin | boundary | ahead =>
    have hgroups : c'.groups = c.groups := groups_of_groupless rfl h
    rw [hgroups]
    exact fun g hg => .inl hg

/-- What a group of the match found has matched. -/
theorem First.captured {n : ℕ} {bounds : ℕ × ℕ} (h : r.First before m after groups)
    (hg : groups.lookup n = some bounds) : ∃ a x t y, (n, a) ∈ r.captures ∧ m = x ++ (t ++ y) ∧
      a.Matches (before ++ x) t (y ++ after) ∧
        bounds = (before.length + x.length, before.length + x.length + t.length) := by
  obtain ⟨c, hc, hat, rfl⟩ := h
  obtain ⟨l₁, l₂, hgroups, -⟩ := List.lookup_eq_some_iff.mp hg
  have hmem : (n, bounds) ∈ c.groups := by
    rw [hgroups]
    simp
  have hcaptured := groups_captured (Cursor.at_between before (m ++ after))
    (List.mem_of_head? hc) hat (n, bounds) hmem
  rcases hcaptured with hnil | ⟨a, x, t, rest, ha, htext, ht, hbounds, hle⟩
  · cases hnil
  · obtain ⟨y, rfl⟩ : x ++ t <+: m := List.prefix_of_prefix_length_le
      ⟨rest, by rw [htext, List.append_assoc]⟩ (List.prefix_append m after)
      (by rwa [List.length_append])
    rw [List.append_assoc, List.append_assoc, List.append_cancel_left_eq,
      List.append_cancel_left_eq] at htext
    subst htext
    exact ⟨a, x, t, y, ha, List.append_assoc .., ht, hbounds⟩

theorem exists_first_of_mem_matchesFrom {M : Match} (hr : r.consumes = true)
    (before text : Bytes) (fuel : ℕ) (h : M ∈ r.matchesFrom fuel (.between before text)) :
    ∃ x m after, text = x ++ (m ++ after) ∧ r.First (before ++ x) m after M.groups ∧
      M.begin = before.length + x.length ∧ M.finish = before.length + x.length + m.length := by
  induction hlength : text.length using Nat.strong_induction_on generalizing before text fuel with
  | _ length ih =>
    subst hlength
    by_cases hrun : r.run (.between before text) = []
    · cases text with
      | nil =>
        rw [matchesFrom_nil hrun] at h
        cases h
      | cons b rest =>
        rw [matchesFrom_skip hrun] at h
        obtain ⟨x, m, after, rfl, hfirst, hbegin, hfinish⟩ :=
          ih rest.length (Nat.lt_succ_self _) (before ++ [b]) rest fuel h rfl
        refine ⟨b :: x, m, after, rfl, by rwa [List.append_cons], ?_, ?_⟩
        all_goals
          simp only [List.length_append, List.length_cons, List.length_nil] at hbegin hfinish ⊢
          omega
    · obtain ⟨m, after, groups, rfl, hm, hfirst⟩ := exists_first hrun
      cases fuel with
      | zero => cases h
      | succ fuel =>
        rw [matchesFrom_found hfirst] at h
        rcases List.mem_cons.mp h with rfl | h
        · exact ⟨[], m, after, rfl, by rwa [List.append_nil], rfl, rfl⟩
        · have hpos := List.length_pos_iff.mpr (hm.ne_nil hr)
          obtain ⟨x, m', after', rfl, hfirst', hbegin, hfinish⟩ := ih after.length
            (by rw [List.length_append]; omega) (before ++ m) after fuel h rfl
          refine ⟨m ++ x, m', after', by rw [List.append_assoc], by rwa [← List.append_assoc], ?_, ?_⟩
          all_goals
            simp only [List.length_append] at hbegin hfinish ⊢
            omega

/-- A match of the list of all matches has been found between two texts. -/
theorem exists_first_of_mem {subject : Bytes} {M : Match} (hr : r.consumes = true)
    (h : M ∈ r.allMatches subject) : ∃ before m after, subject = before ++ (m ++ after) ∧
      r.First before m after M.groups ∧ M.begin = before.length ∧
        M.finish = before.length + m.length := by
  obtain ⟨before, m, after, hsubject, hfirst, hbegin, hfinish⟩ :=
    exists_first_of_mem_matchesFrom hr [] subject _ h
  simp only [List.length_nil, Nat.zero_add] at hbegin hfinish
  exact ⟨before, m, after, hsubject, hfirst, hbegin, hfinish⟩

variable {a b : Regex} {p : UInt8 → Bool} {m₁ m₂ d : Bytes} {min n k : ℕ} {max : Option ℕ}

/-- Between the texts `m` is found first, and nothing is captured on the way. -/
def Finds (r : Regex) (before m after : Bytes) : Prop :=
  ∀ groups, (r.run (.within before (m ++ after) groups)).head? =
    some (.within (before ++ m) after groups)

theorem head_flatMap {α β : Type*} {l : List α} {g : α → List β} {x : α} {y : β}
    (hx : l.head? = some x) (hy : (g x).head? = some y) : (l.flatMap g).head? = some y := by
  cases l with
  | nil => cases hx
  | cons z l =>
    obtain rfl := Option.some.inj hx
    rw [List.flatMap_cons, List.head?_append, hy]
    rfl

theorem finds_empty (before after : Bytes) : Regex.empty.Finds before [] after := by
  intro groups
  rw [List.append_nil]
  rfl

theorem Finds.seq (h₁ : a.Finds before m₁ (m₂ ++ after)) (h₂ : b.Finds (before ++ m₁) m₂ after) :
    (Regex.seq a b).Finds before (m₁ ++ m₂) after := by
  intro groups
  rw [List.append_assoc, ← List.append_assoc before]
  exact head_flatMap (h₁ groups) (h₂ groups)

/-- A greedy repetition of a class of bytes takes all of them. -/
theorem finds_rep_set (hd : ∀ b ∈ d, p b = true) (hmin : min ≤ d.length)
    (hmax : ∀ k ∈ max, d.length ≤ k) (hafter : Stops p after) :
    (Regex.rep (.set p) min max).Finds before d after := by
  intro groups
  have hgreedy (fuel : ℕ) (hfuel : d.length < fuel) :
      (repeated (Regex.set p).run fuel min max (.within before (d ++ after) groups)).head? =
        some (.within (before ++ d) after groups) := by
    induction d generalizing before min max fuel with
    | nil =>
      obtain ⟨fuel, rfl⟩ := Nat.exists_eq_succ_of_ne_zero (Nat.ne_of_gt hfuel)
      have hnone : (Regex.set p).run (.within before after groups) = [] := by
        cases after with
        | nil => rfl
        | cons b after => simp [run, Cursor.within, Cursor.between, stops_cons.mp hafter]
      obtain rfl := Nat.le_zero.mp hmin
      rw [repeated, List.nil_append, hnone, List.append_nil, if_pos rfl]
      split_ifs
      all_goals rfl
    | cons b d ih =>
      rw [List.forall_mem_cons] at hd
      obtain ⟨fuel, rfl⟩ : ∃ k, fuel = k + 1 := ⟨fuel - 1, by omega⟩
      have hmax' : max ≠ some 0 := by
        rintro rfl
        exact absurd (hmax 0 rfl) (Nat.not_succ_le_zero _)
      have hnext : (Regex.set p).run (.within before (b :: d ++ after) groups) =
          [.within (before ++ [b]) (d ++ after) groups] := by
        simp [run, Cursor.within, Cursor.between, Cursor.next, hd.1]
      have hmoves : (Cursor.within (before ++ [b]) (d ++ after) groups).pos ≠
          (Cursor.within before (b :: d ++ after) groups).pos := by
        simp [Cursor.within, Cursor.between]
      have hmin' : min - 1 ≤ d.length := by
        rw [List.length_cons] at hmin
        omega
      have hmax'' : ∀ k ∈ max.map (· - 1), d.length ≤ k := by
        simp only [Option.mem_map]
        rintro k ⟨k, hk, rfl⟩
        exact Nat.le_sub_one_of_lt (hmax k hk)
      have hrest : (repeated (Regex.set p).run fuel (min - 1) (max.map (· - 1))
          (.within (before ++ [b]) (d ++ after) groups)).head? =
            some (.within (before ++ [b] ++ d) after groups) :=
        ih hd.2 hmin' hmax'' fuel (Nat.lt_of_succ_lt_succ hfuel)
      rw [← List.append_cons] at hrest
      simp only [repeated, if_neg hmax', hnext, List.flatMap_singleton, hmoves, and_false,
        if_false]
      split_ifs
      · rw [List.head?_append, hrest]
        rfl
      · exact hrest
  exact hgreedy _ (by simp [Cursor.within, Cursor.between]; omega)

end Regex
end LogGenerator
