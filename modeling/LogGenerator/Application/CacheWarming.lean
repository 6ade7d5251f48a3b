import LogGenerator.Application.LogPreparationCache

/-!
# Warming the cache

`tokenize_and_cache` and then `prepare`, each performed by one thread while no
other takes a step. What matters is which keys the first leaves in the table.
-/

namespace LogGenerator
namespace Application

open Ascii Domain

/-- A step of one caller, with any choice of the entries to drop. -/
def CallerMoves (a b : CallerStep) : Prop :=
  ∃ victims, callerStep a.entries a.compilationCount victims a.caller = some b

abbrev CallerRun : CallerStep → CallerStep → Prop := Relation.ReflTransGen CallerMoves

/-- What one thread sees of the state. -/
def CacheState.view (s : CacheState) (thread : ℕ) : CallerStep :=
  ⟨s.entries, s.compilationCount, s.callers thread⟩

def onlyThread (thread : ℕ) : CacheState → CacheAction → Prop :=
  fun _ action => ∃ victims, action = .step thread victims

/-- `thread` makes a call, from `s` on, and is the only one to take steps until it returns. -/
def Performs (thread : ℕ) (call : CacheCall) (s : CacheState)
    (result : Except Bytes CacheResponse) (t : CacheState) : Prop :=
  ∃ begun, cacheStep s (.begin thread call) = some begun ∧
    preparationCache.Steps (onlyThread thread) begun t ∧
    t.callers thread = .returned call result

theorem callerRun_of_steps {thread : ℕ} {s t : CacheState}
    (h : preparationCache.Steps (onlyThread thread) s t) :
    CallerRun (s.view thread) (t.view thread) := by
  induction h with
  | refl => exact .refl
  | tail action _ hok hstep ih =>
    obtain ⟨victims, rfl⟩ := hok
    apply ih.tail
    obtain ⟨next, hnext, hstate⟩ := Option.map_eq_some_iff.mp hstep
    refine ⟨victims, ?_⟩
    rw [← hstate]
    simpa [CacheState.view] using hnext

theorem steps_of_callerRun {thread : ℕ} {s : CacheState} {b : CallerStep}
    (h : CallerRun (s.view thread) b) :
    ∃ t, preparationCache.Steps (onlyThread thread) s t ∧ t.view thread = b := by
  induction h with
  | refl => exact ⟨s, .refl s, rfl⟩
  | tail _ hmove ih =>
    obtain ⟨t, ht, rfl⟩ := ih
    obtain ⟨victims, hnext⟩ := hmove
    refine ⟨_, ht.tail (.step thread victims) ⟨victims, rfl⟩ (Option.map_eq_some_iff.mpr
      ⟨_, hnext, rfl⟩), ?_⟩
    simp [CacheState.view]

/-- The thread has no call under way. -/
def Caller.Free : Caller → Prop
  | .idle | .returned _ _ => True
  | .lookup _ _ _ | .insertAlias _ _ => False

theorem begin_of_free {thread : ℕ} {call : CacheCall} {s : CacheState}
    (h : (s.callers thread).Free) :
    cacheStep s (.begin thread call) =
      some { s with callers := Function.update s.callers thread (.begin call) } := by
  cases hcaller : s.callers thread with
  | idle | returned => simp [cacheStep, hcaller]
  | lookup | insertAlias => simp [hcaller, Caller.Free] at h

theorem performs_run {thread : ℕ} {call : CacheCall} {s t : CacheState}
    {result : Except Bytes CacheResponse} (h : Performs thread call s result t) :
    CallerRun ⟨s.entries, s.compilationCount, .begin call⟩
      ⟨t.entries, t.compilationCount, .returned call result⟩ := by
  obtain ⟨begun, hbegin, hsteps, hreturned⟩ := h
  have hrun := callerRun_of_steps hsteps
  have hbegun : begun.view thread = ⟨s.entries, s.compilationCount, .begin call⟩ := by
    cases hcaller : s.callers thread with
    | idle | returned =>
      simp only [cacheStep, hcaller, Option.some.injEq] at hbegin
      simp [← hbegin, CacheState.view]
    | lookup | insertAlias => simp [cacheStep, hcaller] at hbegin
  rw [hbegun, CacheState.view, hreturned] at hrun
  exact hrun

theorem exists_performs {thread : ℕ} {call : CacheCall} {s : CacheState} {b : CallerStep}
    {result : Except Bytes CacheResponse} (hfree : (s.callers thread).Free)
    (h : CallerRun ⟨s.entries, s.compilationCount, .begin call⟩ b)
    (hb : b.caller = .returned call result) :
    ∃ t, Performs thread call s result t ∧ t.view thread = b := by
  have hview : CacheState.view
      { s with callers := Function.update s.callers thread (.begin call) } thread =
      ⟨s.entries, s.compilationCount, .begin call⟩ := by simp [CacheState.view]
  rw [← hview] at h
  obtain ⟨t, hsteps, ht⟩ := steps_of_callerRun h
  refine ⟨t, ⟨_, begin_of_free hfree, hsteps, ?_⟩, ht⟩
  rw [← hb, ← ht, CacheState.view]

/-- `get_or_compile` returns `entry` and leaves `entries'`. -/
inductive Obtains (entries : MemoTable Bytes CacheEntry) (n : ℕ) (item : LogTemplate) :
    MemoTable Bytes CacheEntry → ℕ → CacheEntry → Prop
  | found {entry : CacheEntry} : entries.lookup (cacheKey item) = some entry →
      Obtains entries n item entries n entry
  | aliased {entry : CacheEntry} {victim : Bytes} {entries' : MemoTable Bytes CacheEntry} :
      entries.lookup (cacheKey item) = none →
      entries.lookup (cacheKey (LogRenderer.tokenizeTemplate item)) = some entry →
      entries.insertBounded maximumEntries victim (cacheKey item) entry = some entries' →
      Obtains entries n item entries' n entry
  | compiled {compiled : CompiledLog} {victims : Bytes × Bytes}
      {entries' : MemoTable Bytes CacheEntry} :
      entries.lookup (cacheKey item) = none →
      entries.lookup (cacheKey (LogRenderer.tokenizeTemplate item)) = none →
      LogRenderer.compile (LogRenderer.tokenizeTemplate item) = .ok compiled →
      publish entries victims (cacheKey item) (cacheKey (LogRenderer.tokenizeTemplate item))
        (makeEntry compiled) = some (entries', none) →
      Obtains entries n item entries' (n + 1) (makeEntry compiled)

variable {entries entries' : MemoTable Bytes CacheEntry} {n n' : ℕ} {item : LogTemplate}
  {entry : CacheEntry} {errand : Errand}

/-- What `get_or_compile` compiles of `item` compiles. -/
def Compilable (item : LogTemplate) : Prop :=
  (LogRenderer.compile (LogRenderer.tokenizeTemplate item)).isOk

theorem compilable_of_compile {compiled : CompiledLog}
    (h : LogRenderer.compile (LogRenderer.tokenizeTemplate item) = .ok compiled) :
    Compilable item := by
  rw [Compilable, h]
  rfl

theorem Compilable.exists_compile (h : Compilable item) :
    ∃ compiled, LogRenderer.compile (LogRenderer.tokenizeTemplate item) = .ok compiled := by
  unfold Compilable at h
  cases hcompiled : LogRenderer.compile (LogRenderer.tokenizeTemplate item) with
  | ok compiled => exact ⟨compiled, rfl⟩
  | error what => simp [hcompiled, Except.isOk, Except.toBool] at h

/-- The form that `tokenize_and_cache` returns is compiled like the template itself, where
tokenizing it again changes nothing. -/
theorem compilable_tokenizeTemplate
    (hagain : LogRenderer.tokenizeTemplate (LogRenderer.tokenizeTemplate item) =
      LogRenderer.tokenizeTemplate item) :
    Compilable (LogRenderer.tokenizeTemplate item) ↔ (LogRenderer.compile item).isOk := by
  have hcompile : LogRenderer.compile (LogRenderer.tokenizeTemplate item) =
      LogRenderer.compile item := by
    rw [LogRenderer.compile, hagain, LogRenderer.compile]
  rw [Compilable, hagain, hcompile]

theorem Obtains.run (h : Obtains entries n item entries' n' entry) (errand : Errand) :
    CallerRun ⟨entries, n, .lookup item errand .findOriginal⟩
      ⟨entries', n', errand.resume entry⟩ := by
  cases h with
  | found horiginal =>
    apply Relation.ReflTransGen.single
    exact ⟨([], []), by simp [callerStep, lookupStep, horiginal]⟩
  | @aliased _ victim _ horiginal htokenized hinsert =>
    have hfirst : CallerMoves ⟨entries, n, .lookup item errand .findOriginal⟩
        ⟨entries, n, .lookup item errand .findTokenized⟩ :=
      ⟨([], []), by simp [callerStep, lookupStep, horiginal]⟩
    have hsecond : CallerMoves ⟨entries, n, .lookup item errand .findTokenized⟩
        ⟨entries, n, .lookup item errand (.insertAlias entry)⟩ :=
      ⟨([], []), by simp [callerStep, lookupStep, htokenized]⟩
    have hthird : CallerMoves ⟨entries, n, .lookup item errand (.insertAlias entry)⟩
        ⟨entries', n, errand.resume entry⟩ :=
      ⟨(victim, []), by simp [callerStep, lookupStep, hinsert]⟩
    exact ((Relation.ReflTransGen.single hfirst).tail hsecond).tail hthird
  | @compiled compiled victims _ horiginal htokenized hcompile hpublish =>
    have hfirst : CallerMoves ⟨entries, n, .lookup item errand .findOriginal⟩
        ⟨entries, n, .lookup item errand .findTokenized⟩ :=
      ⟨([], []), by simp [callerStep, lookupStep, horiginal]⟩
    have hsecond : CallerMoves ⟨entries, n, .lookup item errand .findTokenized⟩
        ⟨entries, n, .lookup item errand .compile⟩ :=
      ⟨([], []), by simp [callerStep, lookupStep, htokenized]⟩
    have hthird : CallerMoves ⟨entries, n, .lookup item errand .compile⟩
        ⟨entries, n, .lookup item errand (.publish (makeEntry compiled))⟩ :=
      ⟨([], []), by simp [callerStep, lookupStep, hcompile]⟩
    have hfourth : CallerMoves ⟨entries, n, .lookup item errand (.publish (makeEntry compiled))⟩
        ⟨entries', n, .lookup item errand (.count (makeEntry compiled))⟩ :=
      ⟨victims, by simp [callerStep, lookupStep, hpublish]⟩
    have hfifth : CallerMoves ⟨entries', n, .lookup item errand (.count (makeEntry compiled))⟩
        ⟨entries', n + 1, errand.resume (makeEntry compiled)⟩ :=
      ⟨([], []), rfl⟩
    exact ((((Relation.ReflTransGen.single hfirst).tail hsecond).tail hthird).tail hfourth).tail
      hfifth

/-- A caller that has not returned yet moves on. -/
theorem CallerRun.move {a b : CallerStep} {call : CacheCall}
    {result : Except Bytes CacheResponse} (h : CallerRun a b)
    (hb : b.caller = .returned call result) (ha : a.caller ≠ .returned call result) :
    ∃ c, CallerMoves a c ∧ CallerRun c b := by
  rcases h.cases_head with rfl | hmove
  · exact absurd hb ha
  · exact hmove

theorem CallerRun.eq_of_returned {b : CallerStep} {call : CacheCall}
    {result : Except Bytes CacheResponse}
    (h : CallerRun ⟨entries, n, .returned call result⟩ b) :
    b = ⟨entries, n, .returned call result⟩ := by
  rcases h.cases_head with rfl | ⟨c, ⟨victims, hmove⟩, -⟩
  · rfl
  · cases hmove

/-- Every `get_or_compile` that is part of a call which returns has obtained its entry or thrown. -/
theorem obtains_of_run {b : CallerStep} {call : CacheCall} {result : Except Bytes CacheResponse}
    (h : CallerRun ⟨entries, n, .lookup item errand .findOriginal⟩ b)
    (hb : b.caller = .returned call result) :
    (∃ entries' n' entry, Obtains entries n item entries' n' entry ∧
      CallerRun ⟨entries', n', errand.resume entry⟩ b) ∨
    ∃ what, b = ⟨entries, n, .returned errand.call (.error what)⟩ := by
  obtain ⟨c, ⟨_, hmove⟩, hrun⟩ := h.move hb (by simp)
  cases horiginal : entries.lookup (cacheKey item) with
  | some entry =>
    simp only [callerStep, lookupStep, horiginal, Option.some.injEq] at hmove
    exact .inl ⟨_, _, _, .found horiginal, hmove ▸ hrun⟩
  | none =>
  simp only [callerStep, lookupStep, horiginal, Option.some.injEq] at hmove
  obtain ⟨c, ⟨_, hmove⟩, hrun⟩ := CallerRun.move (hmove ▸ hrun) hb (by simp)
  cases htokenized : entries.lookup (cacheKey (LogRenderer.tokenizeTemplate item)) with
  | some entry =>
    simp only [callerStep, lookupStep, htokenized, Option.some.injEq] at hmove
    obtain ⟨c, ⟨victims, hmove⟩, hrun⟩ := CallerRun.move (hmove ▸ hrun) hb (by simp)
    obtain ⟨entries', hinsert, rfl⟩ := Option.map_eq_some_iff.mp hmove
    exact .inl ⟨_, _, _, .aliased horiginal htokenized hinsert, hrun⟩
  | none =>
  simp only [callerStep, lookupStep, htokenized, Option.some.injEq] at hmove
  obtain ⟨c, ⟨_, hmove⟩, hrun⟩ := CallerRun.move (hmove ▸ hrun) hb (by simp)
  cases hcompile : LogRenderer.compile (LogRenderer.tokenizeTemplate item) with
  | error what =>
    simp only [callerStep, lookupStep, hcompile, Option.some.injEq] at hmove
    exact .inr ⟨what, CallerRun.eq_of_returned (hmove ▸ hrun)⟩
  | ok compiled =>
    simp only [callerStep, lookupStep, hcompile, Option.some.injEq] at hmove
    obtain ⟨c, ⟨victims, hmove⟩, hrun⟩ := CallerRun.move (hmove ▸ hrun) hb (by simp)
    obtain ⟨entries', hpublish⟩ : ∃ entries', publish entries victims (cacheKey item)
        (cacheKey (LogRenderer.tokenizeTemplate item)) (makeEntry compiled) =
          some (entries', none) ∧
        c = ⟨entries', n, .lookup item errand (.count (makeEntry compiled))⟩ := by
      simp only [callerStep, lookupStep] at hmove
      split at hmove
      next => cases hmove
      next found hpublish =>
        simp only [publish, htokenized] at hpublish
        split at hpublish
        · cases hpublish
        · split_ifs at hpublish
          · obtain ⟨_, -, hnone⟩ := Option.map_eq_some_iff.mp hpublish
            cases hnone
          · cases hpublish
      next entries' hpublish =>
        exact ⟨entries', hpublish, (Option.some.inj hmove).symm⟩
    obtain ⟨hpublish, rfl⟩ := hpublish
    obtain ⟨c, ⟨_, hmove⟩, hrun⟩ := CallerRun.move hrun hb (by simp)
    simp only [callerStep, lookupStep, Option.some.injEq] at hmove
    exact .inl ⟨_, _, _, .compiled horiginal htokenized hcompile hpublish, hmove ▸ hrun⟩

section Keys

open MemoTable

variable {k₀ k₁ k₂ : Bytes} {K K' : Finset Bytes}

/-- The keys that `get_or_compile` can leave: `k₁` is the key of the template, `k₂` that of its
tokenized form. -/
inductive ObtainsKeys (k₁ k₂ : Bytes) (K : Finset Bytes) : Finset Bytes → Prop
  | found : k₁ ∈ K → ObtainsKeys k₁ k₂ K K
  | aliased {K' : Finset Bytes} : k₁ ∉ K → k₂ ∈ K → Inserts maximumEntries K k₁ K' →
      ObtainsKeys k₁ k₂ K K'
  | compiled {K' : Finset Bytes} : k₁ ∉ K → k₂ ∉ K → k₁ = k₂ → Inserts maximumEntries K k₂ K' →
      ObtainsKeys k₁ k₂ K K'
  | published {M K' : Finset Bytes} : k₁ ∉ K → k₂ ∉ K → k₁ ≠ k₂ →
      Inserts maximumEntries K k₂ M → Inserts maximumEntries M k₁ K' → ObtainsKeys k₁ k₂ K K'

theorem ObtainsKeys.mem (h : ObtainsKeys k₁ k₂ K K') : k₁ ∈ K' := by
  cases h with
  | found h => exact h
  | aliased _ _ h => exact h.mem
  | compiled _ _ heq h => exact heq ▸ h.mem
  | published _ _ _ _ h => exact h.mem

theorem obtainsKeys_of_obtains (h : Obtains entries n item entries' n' entry) :
    ObtainsKeys (cacheKey item) (cacheKey (LogRenderer.tokenizeTemplate item)) entries.keys
      entries'.keys := by
  cases h with
  | found horiginal =>
    apply ObtainsKeys.found
    exact Finmap.mem_keys.mpr (Finmap.mem_of_lookup_eq_some horiginal)
  | aliased horiginal htokenized hinsert =>
    rw [Finmap.lookup_eq_none, ← Finmap.mem_keys] at horiginal
    have hmem := Finmap.mem_keys.mpr (Finmap.mem_of_lookup_eq_some htokenized)
    exact .aliased horiginal hmem (inserts_of_insertBounded hinsert)
  | compiled horiginal htokenized hcompile hpublish =>
    rw [Finmap.lookup_eq_none, ← Finmap.mem_keys] at horiginal
    have hnew := htokenized
    rw [Finmap.lookup_eq_none, ← Finmap.mem_keys] at hnew
    simp only [publish, htokenized] at hpublish
    split at hpublish
    · cases hpublish
    · next middle hmiddle =>
      have hfirst := inserts_of_insertBounded hmiddle
      split_ifs at hpublish with hkeys
      · obtain ⟨last, hlast, hpair⟩ := Option.map_eq_some_iff.mp hpublish
        cases hpair
        exact .published horiginal hnew hkeys hfirst (inserts_of_insertBounded hlast)
      · cases hpublish
        exact .compiled horiginal hnew (not_not.mp hkeys) hfirst

theorem exists_obtains (hcompile : Compilable item) (n : ℕ)
    (h : ObtainsKeys (cacheKey item) (cacheKey (LogRenderer.tokenizeTemplate item))
      entries.keys K') :
    ∃ entries' n' entry, Obtains entries n item entries' n' entry ∧ entries'.keys = K' := by
  cases h with
  | found horiginal =>
    obtain ⟨entry, hentry⟩ := Finmap.mem_iff.mp (Finmap.mem_keys.mp horiginal)
    exact ⟨_, _, _, .found hentry, rfl⟩
  | aliased horiginal htokenized hinsert =>
    rw [Finmap.mem_keys, ← Finmap.lookup_eq_none] at horiginal
    obtain ⟨entry, hentry⟩ := Finmap.mem_iff.mp (Finmap.mem_keys.mp htokenized)
    obtain ⟨victim, entries', htable, hkeys⟩ := exists_insertBounded_of_inserts entry hinsert
    exact ⟨_, _, _, .aliased horiginal hentry htable, hkeys⟩
  | compiled horiginal htokenized heq hinsert =>
    rw [Finmap.mem_keys, ← Finmap.lookup_eq_none] at horiginal htokenized
    obtain ⟨compiled, hcompiled⟩ := hcompile.exists_compile
    obtain ⟨victim, entries', htable, hkeys⟩ :=
      exists_insertBounded_of_inserts (makeEntry compiled) hinsert
    have hpublish : publish entries (victim, []) (cacheKey item)
        (cacheKey (LogRenderer.tokenizeTemplate item)) (makeEntry compiled) =
          some (entries', none) := by
      simp [publish, htokenized, htable, heq]
    exact ⟨_, _, _, .compiled horiginal htokenized hcompiled hpublish, hkeys⟩
  | @published M _ horiginal htokenized hne hfirst hsecond =>
    rw [Finmap.mem_keys, ← Finmap.lookup_eq_none] at horiginal htokenized
    obtain ⟨compiled, hcompiled⟩ := hcompile.exists_compile
    obtain ⟨victim, middle, hmiddle, hkeys⟩ :=
      exists_insertBounded_of_inserts (makeEntry compiled) hfirst
    rw [← hkeys] at hsecond
    obtain ⟨victim', entries', htable, hkeys'⟩ :=
      exists_insertBounded_of_inserts (makeEntry compiled) hsecond
    have hpublish : publish entries (victim, victim') (cacheKey item)
        (cacheKey (LogRenderer.tokenizeTemplate item)) (makeEntry compiled) =
          some (entries', none) := by
      simp [publish, htokenized, hmiddle, hne, htable]
    exact ⟨_, _, _, .compiled horiginal htokenized hcompiled hpublish, hkeys'⟩

/-- When the insertion of a third key can leave a table with neither of two. -/
theorem exists_inserts_neither (hmem : k₁ ∈ K) :
    (∃ K', Inserts maximumEntries K k₀ K' ∧ k₁ ∉ K' ∧ k₂ ∉ K') ↔
      maximumEntries ≤ K.card ∧ k₀ ∉ K ∧ k₀ ≠ k₂ ∧ (k₂ = k₁ ∨ k₂ ∉ K) := by
  constructor
  · rintro ⟨K', hinsert, hlost, hneither⟩
    obtain ⟨hfull, hnew, rfl⟩ := hinsert.eq_of_lost hmem hlost
    simp only [Finset.mem_insert, Finset.mem_erase, not_or, not_and_or, not_not] at hneither
    exact ⟨hfull, hnew, Ne.symm hneither.1, hneither.2⟩
  · rintro ⟨hfull, hnew, hne, hneither⟩
    refine ⟨_, inserts_erase hfull hnew hmem, ?_, ?_⟩
    · have hkeys : k₁ ≠ k₀ := fun heq => hnew (heq ▸ hmem)
      simp [hkeys]
    · simp only [Finset.mem_insert, Finset.mem_erase, not_or, not_and_or, not_not]
      exact ⟨hne.symm, hneither⟩

/-- When `get_or_compile` can leave the table full, without `k₀` and with `k₁` alone. -/
def Crowded (k₀ k₁ k₂ : Bytes) (K : Finset Bytes) : Prop :=
  if k₁ ∈ K then maximumEntries ≤ K.card ∧ k₀ ∉ K ∧ (k₂ = k₁ ∨ k₂ ∉ K)
  else if k₂ ∈ K then maximumEntries ≤ K.card ∧ k₀ ∉ K
  else maximumEntries ≤ K.card ∨ K.card + 1 = maximumEntries ∧ k₀ ∉ K

instance (k₀ k₁ k₂ : Bytes) (K : Finset Bytes) : Decidable (Crowded k₀ k₁ k₂ K) := by
  unfold Crowded
  infer_instance

theorem exists_obtainsKeys_crowded (h₁ : k₀ ≠ k₁) (h₂ : k₀ ≠ k₂) :
    (∃ K', ObtainsKeys k₁ k₂ K K' ∧ maximumEntries ≤ K'.card ∧ k₀ ∉ K' ∧ (k₂ = k₁ ∨ k₂ ∉ K')) ↔
      Crowded k₀ k₁ k₂ K := by
  unfold Crowded
  split_ifs with horiginal htokenized
  · constructor
    · rintro ⟨K', hobtains, hcrowded⟩
      cases hobtains with
      | found => exact hcrowded
      | aliased hnew | compiled hnew | published hnew => exact absurd horiginal hnew
    · intro hcrowded
      exact ⟨K, .found horiginal, hcrowded⟩
  · have hne : k₂ ≠ k₁ := fun heq => horiginal (heq ▸ htokenized)
    constructor
    · rintro ⟨K', hobtains, -, hlost, hneither⟩
      cases hobtains with
      | found h => exact absurd h horiginal
      | compiled _ hnew | published _ hnew => exact absurd htokenized hnew
      | aliased _ _ hinsert =>
        obtain ⟨hfull, -, rfl⟩ := hinsert.eq_of_lost htokenized (hneither.resolve_left hne)
        refine ⟨hfull, fun hmem => hlost ?_⟩
        exact Finset.mem_insert_of_mem (Finset.mem_erase.mpr ⟨h₂, hmem⟩)
    · rintro ⟨hfull, hlost⟩
      have hinsert := inserts_erase hfull horiginal htokenized
      refine ⟨_, .aliased horiginal htokenized hinsert, ?_, ?_, .inr ?_⟩
      · rw [hinsert.card horiginal, if_pos hfull]
        exact hfull
      · simp [h₁, hlost]
      · simp [hne]
  · by_cases hne : k₁ = k₂
    · rw [← exists_inserts_full (by decide) htokenized h₂]
      constructor
      · rintro ⟨K', hobtains, hfull, hlost, -⟩
        cases hobtains with
        | found h => exact absurd h horiginal
        | aliased _ h => exact absurd h htokenized
        | published _ _ h => exact absurd hne h
        | compiled _ _ _ hinsert => exact ⟨K', hinsert, hfull, hlost⟩
      · rintro ⟨K', hinsert, hfull, hlost⟩
        exact ⟨K', .compiled horiginal htokenized hne hinsert, hfull, hlost, .inl hne.symm⟩
    · rw [← exists_inserts_full (by decide) htokenized h₂]
      constructor
      · rintro ⟨K', hobtains, -, hlost, hneither⟩
        cases hobtains with
        | found h => exact absurd h horiginal
        | aliased _ h => exact absurd h htokenized
        | compiled _ _ h => exact absurd h hne
        | @published M _ _ _ _ hfirst hsecond =>
          obtain ⟨hfull, -, rfl⟩ :=
            hsecond.eq_of_lost hfirst.mem (hneither.resolve_left (Ne.symm hne))
          refine ⟨M, hfirst, hfull, fun hmem => hlost ?_⟩
          exact Finset.mem_insert_of_mem (Finset.mem_erase.mpr ⟨h₂, hmem⟩)
      · rintro ⟨M, hfirst, hfull, hlost⟩
        have hnew : k₁ ∉ M := by
          intro hmem
          rcases Finset.mem_insert.mp (hfirst.subset hmem) with heq | hold
          · exact hne heq
          · exact horiginal hold
        have hsecond := inserts_erase hfull hnew hfirst.mem
        refine ⟨_, .published horiginal htokenized hne hfirst hsecond, ?_, ?_, .inr ?_⟩
        · rw [hsecond.card hnew, if_pos hfull]
          exact hfull
        · simp [h₁, hlost]
        · simp [Ne.symm hne]

end Keys

/-- Where the entry for the tokenized form of `item` can be dropped by its own publication. -/
def Exposed (entries : MemoTable Bytes CacheEntry) (item : LogTemplate) : Prop :=
  let tokenized := LogRenderer.tokenizeTemplate item
  let again := LogRenderer.tokenizeTemplate tokenized
  cacheKey item ≠ cacheKey tokenized ∧ cacheKey item ≠ cacheKey again ∧
    Crowded (cacheKey item) (cacheKey tokenized) (cacheKey again) entries.keys

/-- After any `tokenize_and_cache` of `item` from `s` on, a `prepare` of the result or of `item`
itself compiles nothing. -/
def Warms (s : CacheState) (thread : ℕ) (item : LogTemplate) : Prop :=
  ∀ tokenized analysis t,
    Performs thread (.tokenizeAndCache item) s (.ok (.tokenized tokenized analysis)) t →
    ∀ (other : ℕ) (config : GeneratorConfig) (seeds : ℕ → UInt64) (x : LogTemplate),
      config.templates = [x] → x = tokenized ∨ x = item →
      ∀ result u, Performs other (.prepare config seeds) t result u →
        u.compilationCount = t.compilationCount

variable {s t : CacheState} {thread : ℕ}

/-- What `tokenize_and_cache` returns, and the keys that it leaves. -/
theorem tokenizeAndCache_keys {tokenized : LogTemplate} {analysis : LogTemplateAnalysis}
    (h : Performs thread (.tokenizeAndCache item) s (.ok (.tokenized tokenized analysis)) t) :
    tokenized = LogRenderer.tokenizeTemplate item ∧
    ∃ K', ObtainsKeys (cacheKey tokenized) (cacheKey (LogRenderer.tokenizeTemplate tokenized))
        s.entries.keys K' ∧
      if cacheKey item = cacheKey tokenized then t.entries.keys = K'
      else MemoTable.Inserts maximumEntries K' (cacheKey item) t.entries.keys := by
  rcases obtains_of_run (performs_run h) rfl with
    ⟨entries', n', entry, hobtains, hrun⟩ | ⟨what, heq⟩
  · have hkeys := obtainsKeys_of_obtains hobtains
    unfold Errand.resume at hrun
    dsimp only at hrun
    split_ifs at hrun with hne
    · obtain ⟨c, ⟨victims, hmove⟩, hrest⟩ := hrun.move rfl (by simp)
      obtain ⟨last, hinsert, rfl⟩ := Option.map_eq_some_iff.mp hmove
      have hlast := hrest.eq_of_returned
      simp only [CallerStep.mk.injEq, Caller.returned.injEq, Except.ok.injEq, tokenizedResponse,
        CacheResponse.tokenized.injEq] at hlast
      obtain ⟨rfl, -, -, rfl, -⟩ := hlast
      refine ⟨rfl, _, hkeys, ?_⟩
      rw [if_neg hne]
      exact MemoTable.inserts_of_insertBounded hinsert
    · have hlast := hrun.eq_of_returned
      simp only [CallerStep.mk.injEq, Caller.returned.injEq, Except.ok.injEq, tokenizedResponse,
        CacheResponse.tokenized.injEq] at hlast
      obtain ⟨rfl, -, -, rfl, -⟩ := hlast
      refine ⟨rfl, _, hkeys, ?_⟩
      rw [if_pos (not_not.mp hne)]
  · simp at heq

theorem exists_tokenizeAndCache {K' K'' : Finset Bytes} (hfree : (s.callers thread).Free)
    (hcompile : Compilable (LogRenderer.tokenizeTemplate item))
    (hobtains : ObtainsKeys (cacheKey (LogRenderer.tokenizeTemplate item))
      (cacheKey (LogRenderer.tokenizeTemplate (LogRenderer.tokenizeTemplate item)))
      s.entries.keys K')
    (hne : cacheKey item ≠ cacheKey (LogRenderer.tokenizeTemplate item))
    (hinsert : MemoTable.Inserts maximumEntries K' (cacheKey item) K'') :
    ∃ analysis t, Performs thread (.tokenizeAndCache item) s
      (.ok (.tokenized (LogRenderer.tokenizeTemplate item) analysis)) t ∧ t.entries.keys = K'' := by
  obtain ⟨entries', n', entry, hentry, rfl⟩ := exists_obtains hcompile s.compilationCount hobtains
  obtain ⟨victim, last, htable, hkeys⟩ := MemoTable.exists_insertBounded_of_inserts entry hinsert
  have hlookup := hentry.run (.tokenizeAndCache item)
  have hresume : Errand.resume (.tokenizeAndCache item) entry = .insertAlias item entry := by
    rw [Errand.resume, if_pos hne]
  have hlast : CallerMoves ⟨entries', n', .insertAlias item entry⟩
      ⟨last, n', .returned (.tokenizeAndCache item) (.ok (tokenizedResponse item entry))⟩ :=
    ⟨(victim, []), by simp [callerStep, htable]⟩
  have hbegin : Caller.begin (.tokenizeAndCache item) = .lookup
      (LogRenderer.tokenizeTemplate item) (.tokenizeAndCache item) .findOriginal := rfl
  rw [hresume, ← hbegin] at hlookup
  obtain ⟨t, hperforms, hview⟩ := exists_performs hfree (hlookup.tail hlast) rfl
  refine ⟨entry.analysis, t, hperforms, ?_⟩
  rw [← hkeys]
  exact congrArg (fun v => v.entries.keys) hview

/-- `prepare` with one template compiles only what compiles and neither of its two keys finds. -/
theorem prepare_compilationCount {config : GeneratorConfig} {seeds : ℕ → UInt64} {x : LogTemplate}
    {result : Except Bytes CacheResponse} (hconfig : config.templates = [x])
    (h : Performs thread (.prepare config seeds) s result t) :
    t.compilationCount = s.compilationCount ∨ Compilable x ∧
      cacheKey x ∉ s.entries ∧ cacheKey (LogRenderer.tokenizeTemplate x) ∉ s.entries := by
  have hrun := performs_run h
  rw [Caller.begin, hconfig, Caller.prepareNext] at hrun
  rcases obtains_of_run hrun rfl with ⟨entries', n', entry, hobtains, hrest⟩ | ⟨what, heq⟩
  · have hlast := hrest.eq_of_returned
    simp only [CallerStep.mk.injEq] at hlast
    cases hobtains with
    | found | aliased => exact .inl hlast.2.1
    | compiled horiginal htokenized hcompiled =>
      exact .inr ⟨compilable_of_compile hcompiled, Finmap.lookup_eq_none.mp horiginal,
        Finmap.lookup_eq_none.mp htokenized⟩
  · simp only [CallerStep.mk.injEq] at heq
    exact .inl heq.2.1

theorem exists_prepare_compiles {config : GeneratorConfig} (seeds : ℕ → UInt64) {x : LogTemplate}
    (hfree : (s.callers thread).Free) (hconfig : config.templates = [x])
    (hcompile : Compilable x)
    (horiginal : cacheKey x ∉ s.entries)
    (htokenized : cacheKey (LogRenderer.tokenizeTemplate x) ∉ s.entries) :
    ∃ result u, Performs thread (.prepare config seeds) s result u ∧
      u.compilationCount = s.compilationCount + 1 := by
  obtain ⟨K', hkeys⟩ : ∃ K', ObtainsKeys (cacheKey x)
      (cacheKey (LogRenderer.tokenizeTemplate x)) s.entries.keys K' := by
    rw [← Finmap.mem_keys] at horiginal htokenized
    obtain ⟨M, hfirst⟩ := MemoTable.exists_inserts (show 0 < maximumEntries by decide)
      s.entries.keys (cacheKey (LogRenderer.tokenizeTemplate x))
    by_cases hne : cacheKey x = cacheKey (LogRenderer.tokenizeTemplate x)
    · exact ⟨M, .compiled horiginal htokenized hne hfirst⟩
    · obtain ⟨K', hsecond⟩ := MemoTable.exists_inserts (show 0 < maximumEntries by decide)
        M (cacheKey x)
      exact ⟨K', .published horiginal htokenized hne hfirst hsecond⟩
  obtain ⟨entries', n', entry, hobtains, -⟩ := exists_obtains hcompile s.compilationCount hkeys
  have hn : n' = s.compilationCount + 1 := by
    cases hobtains with
    | found h => exact absurd (Finmap.mem_of_lookup_eq_some h) horiginal
    | aliased _ h => exact absurd (Finmap.mem_of_lookup_eq_some h) htokenized
    | compiled => rfl
  have hrun := hobtains.run (.prepare config seeds [] [])
  have hbegin : Caller.begin (.prepare config seeds) =
      .lookup x (.prepare config seeds [] []) .findOriginal := by
    rw [Caller.begin, hconfig, Caller.prepareNext]
  rw [← hbegin] at hrun
  obtain ⟨u, hperforms, hview⟩ := exists_performs hfree hrun rfl
  exact ⟨_, u, hperforms, (congrArg CallerStep.compilationCount hview).trans hn⟩

theorem not_warms_of_exposed (hfree : (s.callers thread).Free)
    (hcompile : Compilable (LogRenderer.tokenizeTemplate item))
    (hexposed : Exposed s.entries item) : ¬ Warms s thread item := by
  intro hwarms
  obtain ⟨hne, hagain, hcrowded⟩ := hexposed
  obtain ⟨K', hobtains, hfull, hnew, hneither⟩ :=
    (exists_obtainsKeys_crowded hne hagain).mpr hcrowded
  obtain ⟨K'', hinsert, hlost, hlost'⟩ :=
    (exists_inserts_neither hobtains.mem).mpr ⟨hfull, hnew, hagain, hneither⟩
  obtain ⟨analysis, t, hperforms, rfl⟩ :=
    exists_tokenizeAndCache hfree hcompile hobtains hne hinsert
  rw [Finmap.mem_keys] at hlost hlost'
  have hfree' : (t.callers thread).Free := by
    obtain ⟨_, -, -, hreturned⟩ := hperforms
    rw [hreturned]
    trivial
  let config : GeneratorConfig := { templates := [LogRenderer.tokenizeTemplate item] }
  obtain ⟨result, u, hprepare, hcount⟩ :=
    exists_prepare_compiles (fun _ => 0) hfree' (show config.templates = [_] from rfl) hcompile
      hlost hlost'
  have hsaved := hwarms _ _ t hperforms thread config _ _ rfl (.inl rfl) _ u hprepare
  omega

theorem warms_of_not_exposed
    (hexposed : ¬ (Exposed s.entries item ∧ Compilable (LogRenderer.tokenizeTemplate item))) :
    Warms s thread item := by
  intro tokenized analysis t hperforms other config seeds x hconfig hx result u hprepare
  obtain ⟨rfl, K', hobtains, hkeys⟩ := tokenizeAndCache_keys hperforms
  rcases prepare_compilationCount hconfig hprepare with hsaved | ⟨hcompile, hlost, hlost'⟩
  · exact hsaved
  rw [← Finmap.mem_keys] at hlost hlost'
  split_ifs at hkeys with heq
  · have hmem := hobtains.mem
    rw [← hkeys] at hmem
    rcases hx with rfl | rfl
    · exact absurd hmem hlost
    · rw [← heq] at hmem
      exact absurd hmem hlost
  · rcases hx with rfl | rfl
    · obtain ⟨hfull, hnew, hagain, hneither⟩ :=
        (exists_inserts_neither hobtains.mem).mp ⟨_, hkeys, hlost, hlost'⟩
      refine absurd ⟨⟨heq, hagain, ?_⟩, hcompile⟩ hexposed
      exact (exists_obtainsKeys_crowded heq hagain).mp ⟨K', hobtains, hfull, hnew, hneither⟩
    · exact absurd hkeys.mem hlost

def emailTemplate : LogTemplate := { sample := bytes "a@b.cd" }

theorem emailTemplate_keys :
    LogRenderer.tokenizeTemplate emailTemplate =
      { emailTemplate with sample := PrivacyAnonymizer.marker .email } ∧
    LogRenderer.tokenizeTemplate (LogRenderer.tokenizeTemplate emailTemplate) =
      LogRenderer.tokenizeTemplate emailTemplate ∧
    cacheKey emailTemplate ≠ cacheKey (LogRenderer.tokenizeTemplate emailTemplate) := by
  have hfirst : LogRenderer.tokenize (bytes "a@b.cd") = PrivacyAnonymizer.marker .email := by
    decide
  have hsecond : LogRenderer.tokenize (PrivacyAnonymizer.marker .email) =
      PrivacyAnonymizer.marker .email := by
    decide
  have htokenized : LogRenderer.tokenizeTemplate emailTemplate =
      { emailTemplate with sample := PrivacyAnonymizer.marker .email } :=
    congrArg (fun sample => { emailTemplate with sample := sample }) hfirst
  refine ⟨htokenized, ?_, ?_⟩
  · rw [htokenized]
    exact congrArg (fun sample => { emailTemplate with sample := sample }) hsecond
  · rw [htokenized, Ne, cacheKey_eq_iff]
    decide

def numbered (i : ℕ) : LogTemplate := { sample := decimal i }

/-- The table after the first `n` numbers have been compiled as templates. -/
def numberedEntries : ℕ → MemoTable Bytes CacheEntry
  | 0 => ∅
  | n + 1 => (numberedEntries n).insert (cacheKey (numbered n))
      (makeEntry (makeCompiledLog [.literal (decimal n)]))

theorem mem_numberedEntries {key : Bytes} :
    key ∈ (numberedEntries n).keys ↔ ∃ i < n, key = cacheKey (numbered i) := by
  induction n with
  | zero => simp [numberedEntries]
  | succ n ih =>
    rw [numberedEntries, MemoTable.keys_insert, Finset.mem_insert, ih]
    constructor
    · rintro (rfl | ⟨i, hi, rfl⟩)
      · exact ⟨n, n.lt_succ_self, rfl⟩
      · exact ⟨i, hi.trans n.lt_succ_self, rfl⟩
    · rintro ⟨i, hi, rfl⟩
      rcases Nat.lt_succ_iff_lt_or_eq.mp hi with hi | rfl
      · exact .inr ⟨i, hi, rfl⟩
      · exact .inl rfl

theorem card_numberedEntries (n : ℕ) : (numberedEntries n).keys.card = n := by
  induction n with
  | zero => simp [numberedEntries]
  | succ n ih =>
    have hnew : cacheKey (numbered n) ∉ (numberedEntries n).keys := by
      rw [mem_numberedEntries]
      rintro ⟨i, hi, hkey⟩
      rw [cacheKey_eq_iff] at hkey
      have hvalue := congrArg decimalValue (List.head_eq_of_cons_eq hkey)
      rw [numbered, numbered, decimalValue_decimal, decimalValue_decimal] at hvalue
      omega
    rw [numberedEntries, MemoTable.keys_insert, Finset.card_insert_of_notMem hnew, ih]

/-- A text with something other than a digit in it is none of the numbers. -/
theorem cacheKey_notMem_numberedEntries (b : UInt8) (hmem : b ∈ item.sample)
    (hdigit : ¬ isDigit b) : cacheKey item ∉ (numberedEntries n).keys := by
  rw [mem_numberedEntries]
  rintro ⟨i, -, hkey⟩
  rw [cacheKey_eq_iff] at hkey
  have hsample : item.sample = decimal i := List.head_eq_of_cons_eq hkey
  rw [hsample] at hmem
  exact absurd (decimal_isDigit i b hmem) hdigit

theorem emailTemplate_notMem (n : ℕ) :
    cacheKey emailTemplate ∉ (numberedEntries n).keys ∧
      cacheKey (LogRenderer.tokenizeTemplate emailTemplate) ∉ (numberedEntries n).keys := by
  constructor
  · exact cacheKey_notMem_numberedEntries 64 (by decide) (by decide)
  · rw [emailTemplate_keys.1]
    exact cacheKey_notMem_numberedEntries 123 (by decide) (by decide)

/-- Warming the cache saves the compilation, whatever is dropped, exactly where the new entry is
not exposed. -/
theorem warms_iff (s : CacheState) (thread : ℕ) (item : LogTemplate)
    (hfree : (s.callers thread).Free) :
    Warms s thread item ↔
      ¬ (Exposed s.entries item ∧ Compilable (LogRenderer.tokenizeTemplate item)) :=
  ⟨fun hwarms ⟨hexposed, hcompile⟩ => not_warms_of_exposed hfree hcompile hexposed hwarms,
    warms_of_not_exposed⟩

/-- The entries of `emailTemplate` and of its tokenized form after those of `n` numbers. -/
def warmedEntries (n : ℕ) : MemoTable Bytes CacheEntry :=
  ((numberedEntries n).insert (cacheKey (LogRenderer.tokenizeTemplate emailTemplate))
    (makeEntry (makeCompiledLog [.privacy .email]))).insert (cacheKey emailTemplate)
    (makeEntry (makeCompiledLog [.privacy .email]))

theorem card_warmedEntries (n : ℕ) : (warmedEntries n).keys.card = n + 2 := by
  obtain ⟨-, -, hne⟩ := emailTemplate_keys
  obtain ⟨hnew, hnew'⟩ := emailTemplate_notMem n
  rw [warmedEntries, MemoTable.keys_insert, MemoTable.keys_insert, Finset.card_insert_of_notMem,
    Finset.card_insert_of_notMem hnew', card_numberedEntries]
  rw [Finset.mem_insert, not_or]
  exact ⟨hne, hnew⟩

theorem not_exposed_warmedEntries (n : ℕ) : ¬ Exposed (warmedEntries n) emailTemplate := by
  rintro ⟨-, -, hcrowded⟩
  have hmem : cacheKey emailTemplate ∈ (warmedEntries n).keys := by
    simp [warmedEntries, MemoTable.keys_insert]
  have hmem' : cacheKey (LogRenderer.tokenizeTemplate emailTemplate) ∈ (warmedEntries n).keys := by
    simp [warmedEntries, MemoTable.keys_insert]
  rw [Crowded, if_pos hmem'] at hcrowded
  exact hcrowded.2.1 hmem

def warmedCache : CacheState where
  entries := warmedEntries 510
  compilationCount := 511
  callers _ := .idle

/-- A full table that holds both of the template's entries. -/
theorem warms_warmedCache :
    warmedCache.entries.keys.card = maximumEntries ∧ Warms warmedCache 0 emailTemplate := by
  have hentries : warmedCache.entries = warmedEntries 510 := by simp only [warmedCache]
  constructor
  · rw [hentries, card_warmedEntries]
    rfl
  · apply (warms_iff warmedCache 0 emailTemplate trivial).mpr
    rintro ⟨hexposed, -⟩
    rw [hentries] at hexposed
    exact not_exposed_warmedEntries 510 hexposed

def fullCache : CacheState where
  entries := numberedEntries maximumEntries
  compilationCount := maximumEntries
  callers _ := .idle

/-- With 512 other entries the alias for the text as it was can drop the entry just published. -/
theorem fullCache_not_warms :
    fullCache.entries.keys.card = maximumEntries ∧ ¬ Warms fullCache 0 emailTemplate := by
  obtain ⟨-, hagain, hne⟩ := emailTemplate_keys
  have hentries : fullCache.entries = numberedEntries maximumEntries := by simp only [fullCache]
  have hcard : fullCache.entries.keys.card = maximumEntries := by
    rw [hentries, card_numberedEntries]
  have hnew : cacheKey (LogRenderer.tokenizeTemplate emailTemplate) ∉ fullCache.entries.keys := by
    rw [hentries]
    exact (emailTemplate_notMem maximumEntries).2
  have hcompile := (compilable_tokenizeTemplate hagain).mpr rfl
  refine ⟨hcard, not_warms_of_exposed trivial hcompile ⟨hne, ?_, ?_⟩⟩
  · rw [hagain]
    exact hne
  · rw [hagain, Crowded, if_neg hnew, if_neg hnew]
    exact .inl hcard.ge

end Application
end LogGenerator
