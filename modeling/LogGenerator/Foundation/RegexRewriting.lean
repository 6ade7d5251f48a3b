import LogGenerator.Foundation.RegexLanguage
import LogGenerator.Foundation.Runs

/-!
# Rewriting the matches of an expression

A text is rewritten from left to right: a byte at which no match begins is copied, a
match gives way to another text. Searching for all matches and splicing their edits into
the subject comes to the same.
-/

namespace LogGenerator
namespace Regex

open Runs

variable {r : Regex} {b : UInt8} {before text m after rest tail out u v : Bytes}
  {groups : List (ℕ × ℕ × ℕ)} {f : Bytes → Bytes → Bytes → List (ℕ × ℕ × ℕ) → Bytes}

/-- The match that a search finds between two texts. -/
def First (r : Regex) (before m after : Bytes) (groups : List (ℕ × ℕ × ℕ)) : Prop :=
  ∃ c, (r.run (.between before (m ++ after))).head? = some c ∧ c.At (before ++ m) after ∧
    c.groups = groups

theorem exists_first (h : r.run (.between before text) ≠ []) : ∃ m after groups,
    text = m ++ after ∧ r.Matches before m after ∧ r.First before m after groups := by
  obtain ⟨c, cs, hcs⟩ := List.exists_cons_of_ne_nil h
  obtain ⟨m, after, rfl, hm, hat⟩ := (realizes_run r).sound (Cursor.at_between before text) c
    (by rw [hcs]; exact List.mem_cons_self)
  exact ⟨m, after, c.groups, rfl, hm, c, by rw [hcs]; rfl, hat, rfl⟩

theorem First.matches (h : r.First before m after groups) : r.Matches before m after := by
  obtain ⟨c, hc, hat, -⟩ := h
  obtain ⟨m', after', htext, hm, hat'⟩ :=
    (realizes_run r).sound (Cursor.at_between before (m ++ after)) c (List.mem_of_head? hc)
  obtain rfl : after = after' := hat.rest_eq.symm.trans hat'.rest_eq
  obtain rfl := List.append_cancel_right htext
  exact hm

/-- `out` is the text with its matches rewritten, where `before` stands before it and `tail`
behind it. -/
inductive Rewrites (r : Regex) (f : Bytes → Bytes → Bytes → List (ℕ × ℕ × ℕ) → Bytes)
    (tail : Bytes) : Bytes → Bytes → Bytes → Prop
  | done (before : Bytes) : Rewrites r f tail before [] []
  | copy {before rest out : Bytes} {b : UInt8}
      (hnone : ∀ m after, b :: (rest ++ tail) = m ++ after → ¬ r.Matches before m after)
      (h : Rewrites r f tail (before ++ [b]) rest out) :
      Rewrites r f tail before (b :: rest) (b :: out)
  | edit {before m rest out : Bytes} {groups : List (ℕ × ℕ × ℕ)} (hne : m ≠ [])
      (hm : r.First before m (rest ++ tail) groups)
      (h : Rewrites r f tail (before ++ m) rest out) :
      Rewrites r f tail before (m ++ rest) (f before m (rest ++ tail) groups ++ out)

/-- Edits behind a part of the subject leave the part as it is. -/
theorem spliceFrom_append {edits : List Edit}
    (h : ∀ e ∈ edits, before.length + m.length ≤ e.begin) :
    spliceFrom (before ++ (m ++ after)) edits before.length =
      m ++ spliceFrom (before ++ (m ++ after)) edits (before.length + m.length) := by
  cases edits with
  | nil =>
    rw [spliceFrom, spliceFrom, List.drop_left, ← List.length_append, ← List.append_assoc,
      List.drop_left]
  | cons e edits =>
    have hbegin := h e List.mem_cons_self
    rw [spliceFrom, spliceFrom, if_neg (by omega), if_neg (by omega), List.drop_left,
      ← List.length_append, ← List.append_assoc before, List.drop_left, List.length_append,
      List.take_append, List.take_of_length_le (by omega)]
    simp only [List.append_assoc]
    rw [show e.begin - before.length - m.length = e.begin - (before.length + m.length) by omega]

theorem matchesFrom_nil (h : r.run (.between before []) = []) (fuel : ℕ) :
    r.matchesFrom fuel (.between before []) = [] := by
  cases fuel with
  | zero => rfl
  | succ fuel =>
    rw [matchesFrom, search, h]
    rfl

theorem matchesFrom_skip (h : r.run (.between before (b :: rest)) = []) (fuel : ℕ) :
    r.matchesFrom fuel (.between before (b :: rest)) =
      r.matchesFrom fuel (.between (before ++ [b]) rest) := by
  cases fuel with
  | zero => rfl
  | succ fuel =>
    have hnext : (Cursor.between before (b :: rest)).next b rest =
        .between (before ++ [b]) rest := ((Cursor.at_between before (b :: rest)).next).between_eq
    rw [matchesFrom, search, h, matchesFrom, ← hnext]
    rfl

theorem matchesFrom_found (h : r.First before m after groups) (fuel : ℕ) :
    r.matchesFrom (fuel + 1) (.between before (m ++ after)) =
      ⟨before.length, before.length + m.length, groups⟩ ::
        r.matchesFrom fuel (.between (before ++ m) after) := by
  obtain ⟨c, hc, hat, rfl⟩ := h
  rw [matchesFrom, search, hc]
  simp only
  rw [hat.between_eq, hat.pos_eq, List.length_append]
  rfl

/-- An edit of a match: what `f` makes of it is the match with its part replaced. -/
def Edits (edit : Match → Option Edit)
    (f : Bytes → Bytes → Bytes → List (ℕ × ℕ × ℕ) → Bytes)
    (before m after : Bytes) (groups : List (ℕ × ℕ × ℕ)) : Prop :=
  match edit ⟨before.length, before.length + m.length, groups⟩ with
  | none => f before m after groups = m
  | some e => ∃ front part back, m = front ++ (part ++ back) ∧
      e.begin = before.length + front.length ∧ e.finish = e.begin + part.length ∧
        f before m after groups = front ++ (e.text ++ back)

theorem spliceFrom_found {edit : Match → Option Edit} {ms : List Match}
    (hedit : Edits edit f before m after groups)
    (hbegin : ∀ e ∈ ms.filterMap edit, before.length + m.length ≤ e.begin) :
    let edits := (⟨before.length, before.length + m.length, groups⟩ :: ms).filterMap edit
    (∀ e ∈ edits, before.length ≤ e.begin) ∧
      spliceFrom (before ++ (m ++ after)) edits before.length = f before m after groups ++
        spliceFrom (before ++ (m ++ after)) (ms.filterMap edit) (before.length + m.length) := by
  have hlater : ∀ e ∈ ms.filterMap edit, before.length ≤ e.begin :=
    fun e he => (Nat.le_add_right _ _).trans (hbegin e he)
  rw [Edits] at hedit
  cases hfound : edit ⟨before.length, before.length + m.length, groups⟩ with
  | none =>
    simp only [hfound] at hedit
    rw [List.filterMap_cons_none hfound, hedit]
    exact ⟨hlater, spliceFrom_append hbegin⟩
  | some e =>
    simp only [hfound] at hedit
    obtain ⟨front, part, back, rfl, hb, hfinish, hf⟩ := hedit
    rw [List.filterMap_cons_some hfound, hf]
    refine ⟨List.forall_mem_cons.mpr ⟨by omega, hlater⟩, ?_⟩
    have hfront : ((before ++ (front ++ (part ++ back) ++ after)).drop before.length).take
        (e.begin - before.length) = front := by
      rw [List.drop_left, List.append_assoc, hb, Nat.add_sub_cancel_left, List.take_left]
    have hback : spliceFrom (before ++ (front ++ (part ++ back) ++ after)) (ms.filterMap edit)
        e.finish = back ++ spliceFrom (before ++ (front ++ (part ++ back) ++ after))
          (ms.filterMap edit) (before.length + (front ++ (part ++ back)).length) := by
      have htext : before ++ (front ++ (part ++ back) ++ after) =
          (before ++ (front ++ part)) ++ (back ++ after) := by simp only [List.append_assoc]
      have hat : e.finish = (before ++ (front ++ part)).length := by
        rw [hfinish, hb, List.length_append, List.length_append, Nat.add_assoc]
      have hend : before.length + (front ++ (part ++ back)).length =
          (before ++ (front ++ part)).length + back.length := by
        simp only [List.length_append]
        omega
      rw [hend] at hbegin ⊢
      rw [htext, hat]
      exact spliceFrom_append hbegin
    rw [spliceFrom, if_neg (by omega), hfront, hback]
    simp only [List.append_assoc]

theorem rewrites_matchesFrom {edit : Match → Option Edit} {subject : Bytes}
    (hr : r.consumes = true)
    (hedit : ∀ before m after groups, before ++ (m ++ after) = subject →
      r.First before m after groups → Edits edit f before m after groups)
    (before text : Bytes) (hsubject : before ++ text = subject) (fuel : ℕ)
    (hfuel : text.length < fuel) :
    (∀ e ∈ (r.matchesFrom fuel (.between before text)).filterMap edit, before.length ≤ e.begin) ∧
      Rewrites r f [] before text (spliceFrom subject
        ((r.matchesFrom fuel (.between before text)).filterMap edit) before.length) := by
  induction hlength : text.length using Nat.strong_induction_on generalizing before text fuel with
  | _ length ih =>
    subst hlength hsubject
    by_cases hrun : r.run (.between before text) = []
    · cases text with
      | nil =>
        rw [matchesFrom_nil hrun, List.filterMap_nil, List.append_nil, spliceFrom,
          List.drop_length]
        exact ⟨List.forall_mem_nil _, .done before⟩
      | cons b rest =>
        obtain ⟨hbegin, hrest⟩ := ih rest.length (Nat.lt_succ_self _) (before ++ [b]) rest
          (by rw [List.append_assoc, List.singleton_append]) fuel
          ((Nat.lt_succ_self _).trans hfuel) rfl
        rw [← matchesFrom_skip hrun, List.length_append] at hbegin hrest
        refine ⟨fun e he => (Nat.le_add_right _ _).trans (hbegin e he), ?_⟩
        have hcopy : spliceFrom (before ++ ([b] ++ rest)) _ before.length = _ :=
          spliceFrom_append hbegin
        rw [List.singleton_append] at hcopy
        rw [hcopy]
        apply Rewrites.copy _ hrest
        intro m after htext hm
        rw [List.append_nil] at htext
        exact run_ne_nil_iff.mpr ⟨m, after, htext, hm⟩ hrun
    · obtain ⟨m, after, groups, rfl, hm, hfirst⟩ := exists_first hrun
      have hne := hm.ne_nil hr
      have hpos := List.length_pos_iff.mpr hne
      obtain ⟨fuel, rfl⟩ : ∃ k, fuel = k + 1 := ⟨fuel - 1, by omega⟩
      rw [List.length_append] at hfuel ih
      obtain ⟨hbegin, hrest⟩ := ih after.length (by omega) (before ++ m) after
        (List.append_assoc ..) fuel (by omega) rfl
      rw [List.length_append] at hbegin
      rw [List.length_append] at hrest
      obtain ⟨hbegin', hsplice⟩ := spliceFrom_found
        (hedit before m after groups rfl hfirst) hbegin
      rw [matchesFrom_found hfirst, hsplice]
      refine ⟨hbegin', ?_⟩
      have hedited : Rewrites r f [] before (m ++ after) _ :=
        .edit hne (by rwa [List.append_nil]) hrest
      rwa [List.append_nil] at hedited

/-- Splicing the edits of all matches rewrites them. -/
theorem rewrites_splice (edit : Match → Option Edit) (subject : Bytes) (hr : r.consumes = true)
    (hedit : ∀ before m after groups, before ++ (m ++ after) = subject →
      r.First before m after groups → Edits edit f before m after groups) :
    Rewrites r f [] [] subject (splice subject ((r.allMatches subject).filterMap edit)) :=
  (rewrites_matchesFrom hr hedit [] subject rfl _ (Nat.lt_succ_self _)).2

/-- The expression captures nothing. -/
def groupless : Regex → Bool
  | .seq r s | .alt r s => r.groupless && s.groupless
  | .rep r _ _ => r.groupless
  | .group _ _ => false
  | _ => true

theorem groups_of_groupless {c c' : Cursor} (hr : r.groupless = true) (h : c' ∈ r.run c) :
    c'.groups = c.groups := by
  induction r generalizing c c' with
  | empty => rw [List.mem_singleton.mp h]
  | set p =>
    rw [run] at h
    split at h
    · cases h
    · split_ifs at h
      · rw [List.mem_singleton.mp h]
        rfl
      · cases h
  | seq r s ihr ihs =>
    rw [groupless, Bool.and_eq_true] at hr
    obtain ⟨c₁, h₁, h₂⟩ := List.mem_flatMap.mp h
    rw [ihs hr.2 h₂, ihr hr.1 h₁]
  | alt r s ihr ihs =>
    rw [groupless, Bool.and_eq_true] at hr
    exact (List.mem_append.mp h).elim (ihr hr.1) (ihs hr.2)
  | rep r min max ih =>
    rw [run] at h
    generalize c.rest.length + min + 1 = fuel at h
    induction fuel generalizing c min max with
    | zero =>
      rw [repeated] at h
      split_ifs at h
      · rw [List.mem_singleton.mp h]
      · cases h
    | succ fuel ihf =>
      rcases mem_repeated_succ.mp h with ⟨-, rfl⟩ | ⟨-, c₁, h₁, -, h₂⟩
      · rfl
      · rw [ihf (min - 1) (max.map (· - 1)) hr h₂, ih hr h₁]
  | group n r ih => cases hr
  | begin | boundary | ahead =>
    rw [run] at h
    split_ifs at h
    · rw [List.mem_singleton.mp h]
    · cases h

/-- The group at the head of an expression. -/
theorem First.head_group {n : ℕ} {a s : Regex} (hs : s.groupless = true)
    (h : (Regex.seq (.group n a) s).First before m after groups) :
    ∃ m₁ m₂, m = m₁ ++ m₂ ∧ a.Matches before m₁ (m₂ ++ after) ∧ s.Matches (before ++ m₁) m₂ after ∧
      groups.lookup n = some (before.length, before.length + m₁.length) := by
  obtain ⟨c, hc, hat, rfl⟩ := h
  obtain ⟨c₁, hc₁, hc₂⟩ := List.mem_flatMap.mp (List.mem_of_head? hc)
  obtain ⟨c₀, hc₀, rfl⟩ := List.mem_map.mp hc₁
  obtain ⟨m₁, rest, htext, hm₁, hat₁⟩ :=
    (realizes_run a).sound (Cursor.at_between before (m ++ after)) c₀ hc₀
  obtain ⟨m₂, after', rfl, hm₂, hat₂⟩ := (realizes_run s).sound (hat₁.withGroups _) c hc₂
  obtain rfl : after = after' := hat.rest_eq.symm.trans hat₂.rest_eq
  rw [← List.append_assoc] at htext
  obtain rfl := List.append_cancel_right htext
  refine ⟨m₁, m₂, rfl, hm₁, hm₂, ?_⟩
  rw [groups_of_groupless hs hc₂, hat₁.pos_eq, List.length_append]
  simp [Cursor.between]

/-- No match begins in the part `u` of a text. -/
def Quiet (r : Regex) (before u rest : Bytes) : Prop :=
  ∀ x y, u = x ++ y → y ≠ [] → ∀ m after, y ++ rest = m ++ after → ¬ r.Matches (before ++ x) m after

/-- A match that begins in the part `u` of a text ends in it. -/
def Confined (r : Regex) (before u rest : Bytes) : Prop :=
  ∀ x y, u = x ++ y → y ≠ [] → ∀ m after, y ++ rest = m ++ after → r.Matches (before ++ x) m after →
    m.length ≤ y.length

theorem Quiet.confined (h : Quiet r before u rest) : Confined r before u rest :=
  fun x y hu hy m after htext hm => absurd hm (h x y hu hy m after htext)

theorem Confined.behind (h : Confined r before (u ++ v) rest) :
    Confined r (before ++ u) v rest := by
  intro x y hv hy m after htext hm
  exact h (u ++ x) y (by rw [hv, List.append_assoc]) hy m after htext
    (by rwa [← List.append_assoc])

/-- A part whose matches end in it is rewritten apart from the rest. -/
theorem Rewrites.split (h : Rewrites r f tail before (u ++ v) out)
    (hconfined : Confined r before u (v ++ tail)) :
    ∃ o₁ o₂, out = o₁ ++ o₂ ∧ Rewrites r f (v ++ tail) before u o₁ ∧
      Rewrites r f tail (before ++ u) v o₂ := by
  generalize htext : u ++ v = text at h
  induction h generalizing u with
  | done before =>
    obtain ⟨rfl, rfl⟩ := List.append_eq_nil_iff.mp htext
    exact ⟨[], [], rfl, .done _, .done _⟩
  | @copy before rest out b hnone h ih =>
    cases u with
    | nil =>
      rw [List.nil_append] at htext
      subst htext
      exact ⟨[], b :: out, rfl, .done _, by rw [List.append_nil]; exact .copy hnone h⟩
    | cons c u =>
      obtain ⟨rfl, rfl⟩ := List.cons.inj htext
      have hlater : Confined r (before ++ [c]) u (v ++ tail) := Confined.behind hconfined
      obtain ⟨o₁, o₂, rfl, h₁, h₂⟩ := ih hlater rfl
      rw [List.append_assoc, List.singleton_append] at h₂
      exact ⟨c :: o₁, o₂, rfl, .copy (by rwa [← List.append_assoc]) h₁, h₂⟩
  | @edit before m rest out groups hne hm h ih =>
    cases u with
    | nil =>
      rw [List.nil_append] at htext
      subst htext
      exact ⟨[], _, rfl, .done _, by rw [List.append_nil]; exact .edit hne hm h⟩
    | cons c u =>
      have hall : c :: u ++ (v ++ tail) = m ++ (rest ++ tail) := by
        rw [← List.append_assoc, htext, List.append_assoc]
      have hshort := hconfined [] (c :: u) rfl (List.cons_ne_nil c u) m _ hall
        (by rw [List.append_nil]; exact hm.matches)
      obtain ⟨later, hu⟩ : m <+: c :: u := List.prefix_of_prefix_length_le
        ⟨rest, rfl⟩ (htext ▸ List.prefix_append _ _) hshort
      rw [← hu] at hconfined htext ⊢
      rw [List.append_assoc, List.append_cancel_left_eq] at htext
      obtain ⟨o₁, o₂, rfl, h₁, h₂⟩ := ih hconfined.behind htext
      rw [List.append_assoc] at h₂
      rw [← htext, List.append_assoc later v tail] at hm ⊢
      exact ⟨_, o₂, (List.append_assoc ..).symm, .edit hne hm h₁, h₂⟩

/-- A part at which no match begins stays as it is. -/
theorem Rewrites.eq_of_quiet (h : Rewrites r f tail before u out) (hquiet : Quiet r before u tail) :
    out = u := by
  induction h with
  | done before => rfl
  | @copy before rest out b hnone h ih =>
    rw [ih]
    intro x y hrest hy m after htext hm
    exact hquiet (b :: x) y (by rw [hrest, List.cons_append]) hy m after htext
      (by rwa [List.append_cons])
  | @edit before m rest out groups hne hm h ih =>
    refine absurd hm.matches ?_
    have hnone := hquiet [] (m ++ rest) rfl (by simp [hne]) m (rest ++ tail) (List.append_assoc ..)
    rwa [List.append_nil] at hnone

theorem Rewrites.of_nil (h : Rewrites r f tail before [] out) : out = [] :=
  h.eq_of_quiet fun _ _ hxy hy => absurd (List.append_eq_nil_iff.mp hxy.symm).2 hy

theorem Rewrites.append_of_quiet (h : Rewrites r f tail before (u ++ v) out)
    (hquiet : Quiet r before u (v ++ tail)) :
    ∃ o, out = u ++ o ∧ Rewrites r f tail (before ++ u) v o := by
  obtain ⟨o₁, o₂, rfl, h₁, h₂⟩ := h.split hquiet.confined
  exact ⟨o₂, by rw [h₁.eq_of_quiet hquiet], h₂⟩

/-- A match at the head of the text is rewritten. -/
theorem Rewrites.edited (h : Rewrites r f tail before text out) (htext : text ≠ [])
    (hmatch : ∃ m after, text ++ tail = m ++ after ∧ r.Matches before m after) :
    ∃ m rest groups o, text = m ++ rest ∧ r.First before m (rest ++ tail) groups ∧
      out = f before m (rest ++ tail) groups ++ o ∧ Rewrites r f tail (before ++ m) rest o := by
  cases h with
  | done before => exact absurd rfl htext
  | copy hnone h =>
    obtain ⟨m, after, hm, hmatch⟩ := hmatch
    exact absurd hmatch (hnone m after hm)
  | edit hne hm h => exact ⟨_, _, _, _, rfl, hm, rfl, h⟩

theorem Rewrites.forall_mem {P : UInt8 → Prop} (h : Rewrites r f tail before text out)
    (htext : ∀ b ∈ text, P b)
    (hf : ∀ before m after groups, (∀ b ∈ m, P b) → r.First before m after groups →
      ∀ b ∈ f before m after groups, P b) : ∀ b ∈ out, P b := by
  induction h with
  | done before => exact List.forall_mem_nil P
  | @copy before rest out b hnone h ih =>
    rw [List.forall_mem_cons] at htext ⊢
    exact ⟨htext.1, ih htext.2⟩
  | @edit before m rest out groups hne hm h ih =>
    rw [List.forall_mem_append] at htext ⊢
    exact ⟨hf before m _ groups htext.1 hm, ih htext.2⟩

theorem Rewrites.count_le (b : UInt8) (h : Rewrites r f tail before text out)
    (hf : ∀ before m after groups, r.First before m after groups →
      (f before m after groups).count b ≤ m.count b) : out.count b ≤ text.count b := by
  induction h with
  | done before => exact le_rfl
  | @copy before rest out c hnone h ih =>
    rw [List.count_cons, List.count_cons]
    omega
  | @edit before m rest out groups hne hm h ih =>
    have hle := hf before m _ groups hm
    rw [List.count_append, List.count_append]
    omega

end Regex
end LogGenerator
