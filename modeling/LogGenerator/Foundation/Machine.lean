import Mathlib.Tactic

/-!
# Labelled state machines

A step is a partial function of the state and an action: an action that is
blocked in a state yields `none`. Everything the environment decides is in the
action, so a run is a list of actions and can be evaluated.
-/

namespace LogGenerator

structure Machine (σ α : Type*) where
  initial : σ
  step : σ → α → Option σ

namespace Machine

variable {σ α : Type*} (M : Machine σ α)

/-- Finite runs all of whose steps are allowed by `ok` in the state they leave. -/
inductive Steps (ok : σ → α → Prop) : σ → σ → Prop
  | refl (s : σ) : Steps ok s s
  | tail {s t u : σ} (a : α) : Steps ok s t → ok t a → M.step t a = some u → Steps ok s u

/-- No restriction on the steps. -/
def anyStep : σ → α → Prop := fun _ _ => True

def Reachable (s : σ) : Prop := M.Steps anyStep M.initial s

variable {M} {ok ok' : σ → α → Prop} {s t u : σ}

theorem Steps.trans (h : M.Steps ok s t) (h' : M.Steps ok t u) : M.Steps ok s u := by
  induction h' with
  | refl => exact h
  | tail a _ hok hstep ih => exact .tail a ih hok hstep

theorem Steps.single (a : α) (hok : ok s a) (hstep : M.step s a = some t) : M.Steps ok s t :=
  .tail a (.refl s) hok hstep

theorem Steps.mono (hmono : ∀ s a, ok s a → ok' s a) (h : M.Steps ok s t) : M.Steps ok' s t := by
  induction h with
  | refl => exact .refl _
  | tail a _ hok hstep ih => exact .tail a ih (hmono _ _ hok) hstep

theorem Steps.any (h : M.Steps ok s t) : M.Steps anyStep s t := h.mono fun _ _ _ => trivial

/-- The induction rule: what every allowed step preserves holds along a run. -/
theorem Steps.invariant {I : σ → Prop} (h : M.Steps ok s t) (hs : I s)
    (hstep : ∀ s a t, I s → ok s a → M.step s a = some t → I t) : I t := by
  induction h with
  | refl => exact hs
  | tail a _ hok hst ih => exact hstep _ a _ ih hok hst

/-- The same with an invariant already known of the states on the way. -/
theorem Steps.invariant_with {I J : σ → Prop} (h : M.Steps ok s t) (hs : I s) (hJ : J s)
    (hJstep : ∀ s a t, J s → ok s a → M.step s a = some t → J t)
    (hstep : ∀ s a t, J s → I s → ok s a → M.step s a = some t → I t) : I t :=
  (h.invariant (I := fun s => J s ∧ I s) ⟨hJ, hs⟩ fun s a t hi hok hst =>
    ⟨hJstep s a t hi.1 hok hst, hstep s a t hi.1 hi.2 hok hst⟩).2

/-- The simulation rule: a run of a machine that refines another follows a run of the other. -/
theorem Steps.simulates {τ β : Type*} {N : Machine τ β} {okN : τ → β → Prop} {R : σ → τ → Prop}
    {x : τ} (h : M.Steps ok s t) (hs : R s x)
    (hstep : ∀ s a t x, R s x → ok s a → M.step s a = some t → ∃ y, N.Steps okN x y ∧ R t y) :
    ∃ y, N.Steps okN x y ∧ R t y := by
  induction h with
  | refl => exact ⟨x, .refl x, hs⟩
  | tail a _ hok hst ih =>
    obtain ⟨y, hxy, hy⟩ := ih
    obtain ⟨z, hyz, hz⟩ := hstep _ a _ y hy hok hst
    exact ⟨z, hxy.trans hyz, hz⟩

/-- Performs a list of actions; `none` when one of them is blocked. -/
def exec (M : Machine σ α) (start : σ) : List α → Option σ
  | [] => some start
  | a :: actions =>
    match M.step start a with
    | none => none
    | some next => M.exec next actions

theorem Steps.of_exec {actions : List α} (hok : ∀ s, ∀ a ∈ actions, ok s a)
    (h : M.exec s actions = some t) : M.Steps ok s t := by
  induction actions generalizing s with
  | nil =>
    cases h
    exact .refl _
  | cons a actions ih =>
    simp only [exec] at h
    cases hst : M.step s a with
    | none => simp [hst] at h
    | some u =>
      simp only [hst] at h
      have hfirst : M.Steps ok s u := .single a (hok s a List.mem_cons_self) hst
      exact hfirst.trans (ih (fun s b hb => hok s b (List.mem_cons_of_mem a hb)) h)

theorem reachable_of_exec {actions : List α} (h : M.exec M.initial actions = some t) :
    M.Reachable t :=
  .of_exec (fun _ _ _ => trivial) h

/-- Performs a list of actions as long as `allowed` agrees. -/
def execWhile (M : Machine σ α) (allowed : σ → α → Bool) (start : σ) : List α → Option σ
  | [] => some start
  | a :: actions =>
    if allowed start a then
      match M.step start a with
      | none => none
      | some next => M.execWhile allowed next actions
    else none

theorem Steps.of_execWhile {allowed : σ → α → Bool} {actions : List α}
    (hok : ∀ s, ∀ a ∈ actions, allowed s a = true → ok s a)
    (h : M.execWhile allowed s actions = some t) : M.Steps ok s t := by
  induction actions generalizing s with
  | nil =>
    cases h
    exact .refl _
  | cons a actions ih =>
    simp only [execWhile] at h
    split_ifs at h with hallowed
    cases hst : M.step s a with
    | none => simp [hst] at h
    | some u =>
      simp only [hst] at h
      have hfirst : M.Steps ok s u := .single a (hok s a List.mem_cons_self hallowed) hst
      exact hfirst.trans (ih (fun s b hb => hok s b (List.mem_cons_of_mem a hb)) h)

/-- How many steps of a run are urgent in the state they leave. -/
def urgentSteps (M : Machine σ α) (urgent : σ → α → Bool) (start : σ) : List α → ℕ
  | [] => 0
  | a :: actions =>
    match M.step start a with
    | none => 0
    | some next => (if urgent start a then 1 else 0) + M.urgentSteps urgent next actions

/-- The rule for runs in which some steps may come any number of times: a run has no more
urgent steps than the rank that these lower and no allowed step raises. -/
theorem urgentSteps_le_rank {I : σ → Prop} {urgent : σ → α → Bool} {rank : σ → ℕ}
    (hstep : ∀ s a t, I s → ok s a → M.step s a = some t →
      I t ∧ rank t + (if urgent s a then 1 else 0) ≤ rank s)
    {actions : List α} (hok : ∀ s, ∀ a ∈ actions, ok s a) (hs : I s)
    (h : M.exec s actions = some t) : M.urgentSteps urgent s actions + rank t ≤ rank s := by
  induction actions generalizing s with
  | nil =>
    cases h
    simp [urgentSteps]
  | cons a actions ih =>
    simp only [exec] at h
    rw [urgentSteps]
    cases hst : M.step s a with
    | none => simp [hst] at h
    | some u =>
      simp only [hst] at h ⊢
      obtain ⟨hu, hfirst⟩ := hstep s a u hs (hok s a List.mem_cons_self) hst
      have hrest := ih (fun s b hb => hok s b (List.mem_cons_of_mem a hb)) hu h
      omega

/-- The rule for a goal that is reached once and for all: each urgent step comes nearer, and no
step goes away from it. -/
theorem rank_le_sub_urgentSteps {I : σ → Prop} {urgent : σ → α → Bool} {rank : σ → ℕ}
    (hstep : ∀ s a t, I s → M.step s a = some t →
      I t ∧ rank t ≤ rank s - (if urgent s a then 1 else 0))
    {actions : List α} (hs : I s) (h : M.exec s actions = some t) :
    rank t ≤ rank s - M.urgentSteps urgent s actions := by
  induction actions generalizing s with
  | nil =>
    cases h
    exact Nat.le_refl _
  | cons a actions ih =>
    simp only [exec] at h
    rw [urgentSteps]
    cases hst : M.step s a with
    | none => simp [hst] at h
    | some u =>
      simp only [hst] at h ⊢
      obtain ⟨hu, hfirst⟩ := hstep s a u hs hst
      have hrest := ih hu h
      omega

end Machine

/-- A sum over the threads after the component of one of them has changed. -/
theorem sum_update_add {ι α M : Type*} [Fintype ι] [DecidableEq ι] [AddCommMonoid M] (f : ι → α)
    (g : α → M) (i : ι) (v : α) :
    ∑ j, g (Function.update f i v j) + g (f i) = ∑ j, g (f j) + g v := by
  have hrest : ∑ j ∈ Finset.univ.erase i, g (Function.update f i v j) =
      ∑ j ∈ Finset.univ.erase i, g (f j) := by
    apply Finset.sum_congr rfl
    intro j hj
    rw [Function.update_of_ne (Finset.ne_of_mem_erase hj)]
  have hnew := Finset.add_sum_erase Finset.univ (fun j => g (Function.update f i v j))
    (Finset.mem_univ i)
  have hold := Finset.add_sum_erase Finset.univ (fun j => g (f j)) (Finset.mem_univ i)
  simp only [Function.update_self, hrest] at hnew
  rw [← hnew, ← hold]
  abel

end LogGenerator
