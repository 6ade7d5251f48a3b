import LogGenerator.Application.CacheWarming

/-!
# How large the cache grows

Three of the four insertions make room first. The fourth, which publishes under
the original key what another thread has compiled meanwhile, does not.
-/

namespace LogGenerator
namespace Application

open Ascii Domain MemoTable

section Publish

variable {entries entries' : MemoTable Bytes CacheEntry} {victims : Bytes × Bytes}
  {originalKey tokenizedKey : Bytes} {entry : CacheEntry} {found : Option CacheEntry}

/-- The section adds an alias to what is there already, without making room for it. -/
theorem publish_found (hmem : tokenizedKey ∈ entries)
    (h : publish entries victims originalKey tokenizedKey entry = some (entries', found)) :
    entries'.keys = insert originalKey entries.keys := by
  obtain ⟨known, hknown⟩ := Finmap.mem_iff.mp hmem
  simp only [publish, hknown, Option.some.injEq, Prod.mk.injEq] at h
  rw [← h.1, keys_insert]

theorem publish_new (hnew : tokenizedKey ∉ entries)
    (h : publish entries victims originalKey tokenizedKey entry = some (entries', found)) :
    ∃ M, Inserts maximumEntries entries.keys tokenizedKey M ∧
      (entries'.keys = M ∨ Inserts maximumEntries M originalKey entries'.keys) := by
  simp only [publish, Finmap.lookup_eq_none.mpr hnew] at h
  split at h
  · cases h
  next middle hmiddle =>
  refine ⟨middle.keys, inserts_of_insertBounded hmiddle, ?_⟩
  split_ifs at h
  · obtain ⟨last, hlast, hpair⟩ := Option.map_eq_some_iff.mp h
    cases hpair
    exact .inr (inserts_of_insertBounded hlast)
  · cases h
    exact .inl rfl

end Publish

/-- A caller whose next section publishes an alias finds the alias there already, or room. -/
def CallerFits (entries : MemoTable Bytes CacheEntry) : Caller → Prop
  | .lookup item _ (.publish _) =>
    cacheKey (LogRenderer.tokenizeTemplate item) ∈ entries →
      cacheKey item ∈ entries ∨ entries.keys.card < maximumEntries
  | _ => True

def AliasFits (s : CacheState) : CacheAction → Prop
  | .begin _ _ => True
  | .step thread _ => CallerFits s.entries (s.callers thread)

section Step

variable {entries : MemoTable Bytes CacheEntry} {compilationCount : ℕ} {victims : Bytes × Bytes}

theorem le_card_publish {entries' : MemoTable Bytes CacheEntry} {originalKey tokenizedKey : Bytes}
    {entry : CacheEntry} {found : Option CacheEntry}
    (h : publish entries victims originalKey tokenizedKey entry = some (entries', found)) :
    entries.keys.card ≤ entries'.keys.card := by
  by_cases htokenized : tokenizedKey ∈ entries
  · rw [publish_found htokenized h]
    exact Finset.card_le_card (Finset.subset_insert _ _)
  · obtain ⟨M, hfirst, hlast⟩ := publish_new htokenized h
    rcases hlast with heq | hsecond
    · rw [heq]
      exact hfirst.le_card
    · exact hfirst.le_card.trans hsecond.le_card

theorem le_card_callerStep {caller : Caller} {next : CallerStep}
    (h : callerStep entries compilationCount victims caller = some next) :
    entries.keys.card ≤ next.entries.keys.card := by
  cases caller with
  | idle | returned => cases h
  | insertAlias original entry =>
    obtain ⟨entries', hinsert, rfl⟩ := Option.map_eq_some_iff.mp h
    exact (inserts_of_insertBounded hinsert).le_card
  | lookup item errand pc =>
    cases pc with
    | findOriginal | findTokenized | compile =>
      simp only [callerStep, lookupStep] at h
      split at h
      all_goals
        cases h
        exact le_rfl
    | insertAlias entry =>
      obtain ⟨entries', hinsert, rfl⟩ := Option.map_eq_some_iff.mp h
      exact (inserts_of_insertBounded hinsert).le_card
    | publish entry =>
      simp only [callerStep, lookupStep] at h
      split at h
      next => cases h
      next hpublish =>
        cases h
        exact le_card_publish hpublish
      next hpublish =>
        cases h
        exact le_card_publish hpublish
    | count entry =>
      cases h
      exact le_rfl

/-- Room is made only for what comes in its place. -/
theorem le_card_cacheStep {s t : CacheState} {action : CacheAction}
    (h : cacheStep s action = some t) : s.entries.keys.card ≤ t.entries.keys.card := by
  cases action with
  | begin thread call =>
    unfold cacheStep at h
    dsimp only at h
    split at h
    all_goals cases h
    all_goals exact le_rfl
  | step thread victims =>
    obtain ⟨next, hnext, rfl⟩ := Option.map_eq_some_iff.mp h
    exact le_card_callerStep hnext

theorem card_publish_le_iff {entries' : MemoTable Bytes CacheEntry} {item : LogTemplate}
    {errand : Errand} {entry : CacheEntry} {found : Option CacheEntry}
    (hcard : entries.keys.card ≤ maximumEntries)
    (h : publish entries victims (cacheKey item) (cacheKey (LogRenderer.tokenizeTemplate item))
      entry = some (entries', found)) :
    entries'.keys.card ≤ maximumEntries ↔
      CallerFits entries (.lookup item errand (.publish entry)) := by
  unfold CallerFits
  dsimp only
  by_cases htokenized : cacheKey (LogRenderer.tokenizeTemplate item) ∈ entries
  · rw [publish_found htokenized h, forall_prop_of_true htokenized, ← Finmap.mem_keys]
    by_cases horiginal : cacheKey item ∈ entries.keys
    · rw [Finset.insert_eq_of_mem horiginal]
      exact iff_of_true hcard (.inl horiginal)
    · rw [Finset.card_insert_of_notMem horiginal, or_iff_right horiginal]
      exact Iff.rfl
  · apply iff_of_true _ fun hmem => absurd hmem htokenized
    obtain ⟨M, hfirst, hlast⟩ := publish_new htokenized h
    have hmiddle := hfirst.card_le hcard
    rcases hlast with heq | hsecond
    · rw [heq]
      exact hmiddle
    · exact hsecond.card_le hmiddle

/-- A step keeps the bound exactly when the alias it may publish fits. -/
theorem card_callerStep_le_iff {caller : Caller} {next : CallerStep}
    (hcard : entries.keys.card ≤ maximumEntries)
    (h : callerStep entries compilationCount victims caller = some next) :
    next.entries.keys.card ≤ maximumEntries ↔ CallerFits entries caller := by
  cases caller with
  | idle | returned => cases h
  | insertAlias original entry =>
    obtain ⟨entries', hinsert, rfl⟩ := Option.map_eq_some_iff.mp h
    exact iff_of_true ((inserts_of_insertBounded hinsert).card_le hcard) trivial
  | lookup item errand pc =>
    cases pc with
    | findOriginal | findTokenized | compile =>
      simp only [callerStep, lookupStep] at h
      split at h
      all_goals
        cases h
        exact iff_of_true hcard trivial
    | insertAlias entry =>
      obtain ⟨entries', hinsert, rfl⟩ := Option.map_eq_some_iff.mp h
      exact iff_of_true ((inserts_of_insertBounded hinsert).card_le hcard) trivial
    | publish entry =>
      simp only [callerStep, lookupStep] at h
      split at h
      next => cases h
      next hpublish =>
        cases h
        exact card_publish_le_iff hcard hpublish
      next hpublish =>
        cases h
        exact card_publish_le_iff hcard hpublish
    | count entry =>
      cases h
      exact iff_of_true hcard trivial

theorem card_cacheStep_le_iff {s t : CacheState} {action : CacheAction}
    (hcard : s.entries.keys.card ≤ maximumEntries) (h : cacheStep s action = some t) :
    t.entries.keys.card ≤ maximumEntries ↔ AliasFits s action := by
  cases action with
  | begin thread call =>
    apply iff_of_true _ trivial
    unfold cacheStep at h
    dsimp only at h
    split at h
    all_goals cases h
    all_goals exact hcard
  | step thread victims =>
    obtain ⟨next, hnext, rfl⟩ := Option.map_eq_some_iff.mp h
    exact card_callerStep_le_iff hcard hnext

end Step

theorem card_entries_le {s : CacheState}
    (h : preparationCache.Steps AliasFits preparationCache.initial s) :
    s.entries.keys.card ≤ maximumEntries := by
  have hempty : preparationCache.initial.entries.keys.card ≤ maximumEntries := by
    have hkeys : preparationCache.initial.entries.keys = ∅ := Finmap.keys_empty
    simp [hkeys]
  apply Machine.Steps.invariant h hempty
  intro s action t hcard hfits hstep
  exact (card_cacheStep_le_iff hcard hstep).mpr hfits

/-- The table never shrinks, so a state within the bound has only such states behind it. -/
theorem steps_of_card_le {s : CacheState} (h : preparationCache.Reachable s)
    (hcard : s.entries.keys.card ≤ maximumEntries) :
    preparationCache.Steps AliasFits preparationCache.initial s := by
  induction h with
  | refl => exact .refl _
  | tail action _ _ hstep ih =>
    have hbefore := (le_card_cacheStep hstep).trans hcard
    exact (ih hbefore).tail action ((card_cacheStep_le_iff hbefore hstep).mp hcard) hstep

/-- The cache holds no more than the maximum after exactly the runs whose aliases all fit,
whatever the threads call and whichever of them goes on. -/
theorem bounded_iff (s : CacheState) :
    preparationCache.Reachable s ∧ s.entries.keys.card ≤ maximumEntries ↔
      preparationCache.Steps AliasFits preparationCache.initial s := by
  constructor
  · rintro ⟨hreachable, hcard⟩
    exact steps_of_card_le hreachable hcard
  · intro h
    exact ⟨h.any, card_entries_le h⟩

theorem Performs.reachable {thread : ℕ} {call : CacheCall} {s t : CacheState}
    {result : Except Bytes CacheResponse} (h : Performs thread call s result t)
    (hs : preparationCache.Reachable s) : preparationCache.Reachable t := by
  obtain ⟨begun, hbegin, hsteps, -⟩ := h
  have hbegun : preparationCache.Reachable begun := hs.tail (.begin thread call) trivial hbegin
  exact hbegun.trans hsteps.any

/-- The other threads stand still meanwhile. -/
theorem Performs.callers_other {thread other : ℕ} {call : CacheCall} {s t : CacheState}
    {result : Except Bytes CacheResponse} (h : Performs thread call s result t)
    (hne : other ≠ thread) : t.callers other = s.callers other := by
  obtain ⟨begun, hbegin, hsteps, -⟩ := h
  have hbegun : begun.callers other = s.callers other := by
    unfold cacheStep at hbegin
    dsimp only at hbegin
    split at hbegin
    all_goals cases hbegin
    all_goals exact Function.update_of_ne hne _ _
  apply hsteps.invariant (I := fun u => u.callers other = s.callers other) hbegun
  rintro u action v hu ⟨victims, rfl⟩ hstep
  obtain ⟨next, -, rfl⟩ := Option.map_eq_some_iff.mp hstep
  rw [← hu]
  exact Function.update_of_ne hne _ _

theorem Performs.free {thread : ℕ} {call : CacheCall} {s t : CacheState}
    {result : Except Bytes CacheResponse} (h : Performs thread call s result t) :
    (t.callers thread).Free := by
  obtain ⟨-, -, -, hreturned⟩ := h
  rw [hreturned]
  trivial

/-- A template that is its own tokenized form can be compiled into a table with room for it. -/
theorem exists_precompile {s : CacheState} {thread : ℕ} {item : LogTemplate}
    (hfree : (s.callers thread).Free) (hcompile : (LogRenderer.compile item).isOk)
    (htokenized : LogRenderer.tokenizeTemplate item = item) (hnew : cacheKey item ∉ s.entries.keys)
    (hroom : s.entries.keys.card < maximumEntries) :
    ∃ result t, Performs thread (.precompile [item]) s result t ∧
      t.entries.keys = insert (cacheKey item) s.entries.keys := by
  have hkeys : ObtainsKeys (cacheKey item) (cacheKey (LogRenderer.tokenizeTemplate item))
      s.entries.keys (insert (cacheKey item) s.entries.keys) := by
    rw [htokenized]
    exact .compiled hnew hnew rfl (inserts_insert hroom)
  rw [← htokenized] at hcompile
  obtain ⟨entries', n', entry, hobtains, hentries⟩ :=
    exists_obtains hcompile s.compilationCount hkeys
  have hrun := hobtains.run (.precompile [item] [])
  have hbegin : Caller.begin (.precompile [item]) =
      .lookup item (.precompile [item] []) .findOriginal := rfl
  rw [← hbegin] at hrun
  obtain ⟨t, hperforms, hview⟩ := exists_performs hfree hrun rfl
  refine ⟨_, t, hperforms, ?_⟩
  rw [← hentries]
  exact congrArg (fun v => v.entries.keys) hview

/-- A template with a token of `n + 1` letters that its sample does not use. -/
def tokenNamed (n : ℕ) : LogTemplate where
  sample := bytes "1"
  testCase := { values := [(List.replicate (n + 1) 65, [])], sorted := List.pairwise_singleton _ _ }

theorem tokenNamed_tokenized (n : ℕ) :
    LogRenderer.tokenizeTemplate (tokenNamed n) = tokenNamed n := by
  have hsample : LogRenderer.tokenize (bytes "1") = bytes "1" := by decide
  unfold LogRenderer.tokenizeTemplate tokenNamed LogRenderer.tokenizeTestCase
  simp [hsample]

theorem compile_tokenNamed (n : ℕ) : (LogRenderer.compile (tokenNamed n)).isOk := by
  have hvalid : validToken (List.replicate (n + 1) 65) = true := by
    simp [validToken, isUpper]
  have hcount : countOccurrences (bytes "1") (braced (List.replicate (n + 1) 65)) = 0 :=
    rfl
  rw [LogRenderer.compile, tokenNamed_tokenized, expandTestCase]
  simp [tokenNamed, expandTokens, hvalid, hcount, substituteValues]
  rfl

theorem cacheKey_tokenNamed_injective : Function.Injective fun n => cacheKey (tokenNamed n) := by
  intro m n h
  rw [cacheKey_eq_iff] at h
  have hlength := congrArg (fun components => (components.map List.length).sum) h
  simpa [keyComponents, tokenNamed] using hlength

def tokenKeys (n : ℕ) : Finset Bytes := (Finset.range n).image fun i => cacheKey (tokenNamed i)

theorem card_tokenKeys (n : ℕ) : (tokenKeys n).card = n := by
  rw [tokenKeys, Finset.card_image_of_injective _ cacheKey_tokenNamed_injective, Finset.card_range]

theorem cacheKey_notMem_tokenKeys {item : LogTemplate} (h : item.sample ≠ bytes "1") (n : ℕ) :
    cacheKey item ∉ tokenKeys n := by
  intro hmem
  obtain ⟨i, -, hkey⟩ := Finset.mem_image.mp hmem
  exact h (List.head_eq_of_cons_eq ((cacheKey_eq_iff _ _).mp hkey)).symm

/-- Thread 1 has compiled `emailTemplate`, and thread 0 is about to call. -/
def Waiting (s : CacheState) : Prop :=
  preparationCache.Reachable s ∧ (s.callers 0).Free ∧
    ∃ entry, s.callers 1 = .lookup emailTemplate (.precompile [emailTemplate] []) (.publish entry)

theorem Waiting.performs {s t : CacheState} {call : CacheCall}
    {result : Except Bytes CacheResponse} (hs : Waiting s) (h : Performs 0 call s result t) :
    Waiting t := by
  obtain ⟨hreachable, -, entry, hcaller⟩ := hs
  refine ⟨h.reachable hreachable, h.free, entry, ?_⟩
  rw [h.callers_other one_ne_zero]
  exact hcaller

theorem exists_waiting : ∃ s, Waiting s ∧ s.entries.keys = ∅ := by
  cases hcompile : LogRenderer.compile (LogRenderer.tokenizeTemplate emailTemplate) with
  | error what =>
    have hok : (LogRenderer.compile (LogRenderer.tokenizeTemplate emailTemplate)).isOk := rfl
    rw [hcompile] at hok
    cases hok
  | ok compiled =>
  have hexec : preparationCache.exec preparationCache.initial
      [.begin 1 (.precompile [emailTemplate]), .step 1 ([], []), .step 1 ([], []),
        .step 1 ([], [])] = some ⟨∅, 0, Function.update (fun _ => .idle) 1
          (.lookup emailTemplate (.precompile [emailTemplate] [])
            (.publish (makeEntry compiled)))⟩ := by
    simp [Machine.exec, preparationCache, cacheStep, callerStep, lookupStep, hcompile,
      Caller.begin, Caller.precompileNext]
  refine ⟨_, ⟨Machine.reachable_of_exec hexec, ?_, makeEntry compiled, ?_⟩, Finmap.keys_empty⟩
  · dsimp only
    rw [Function.update_of_ne zero_ne_one]
    trivial
  · dsimp only
    rw [Function.update_self]

/-- Thread 0 fills the table meanwhile. -/
theorem exists_filled {n : ℕ} (hn : n ≤ maximumEntries) :
    ∃ s, Waiting s ∧ s.entries.keys = tokenKeys n := by
  induction n with
  | zero =>
    obtain ⟨s, hs, hkeys⟩ := exists_waiting
    exact ⟨s, hs, hkeys⟩
  | succ n ih =>
    obtain ⟨s, hs, hkeys⟩ := ih (by omega)
    have hnew : cacheKey (tokenNamed n) ∉ s.entries.keys := by
      rw [hkeys, tokenKeys, Finset.mem_image]
      rintro ⟨i, hi, hkey⟩
      obtain rfl := cacheKey_tokenNamed_injective hkey
      exact absurd hi Finset.notMem_range_self
    have hroom : s.entries.keys.card < maximumEntries := by
      rw [hkeys, card_tokenKeys]
      exact hn
    obtain ⟨result, t, hperforms, ht⟩ := exists_precompile hs.2.1 (compile_tokenNamed n)
      (tokenNamed_tokenized n) hnew hroom
    refine ⟨t, hs.performs hperforms, ?_⟩
    rw [ht, hkeys, tokenKeys, tokenKeys, Finset.range_add_one, Finset.image_insert]

/-- Thread 1 publishes the address under its own key when the table is full already. -/
theorem card_entries_overfull :
    ∃ s, preparationCache.Reachable s ∧ s.entries.keys.card = maximumEntries + 1 := by
  obtain ⟨htokenized, hagain, hne⟩ := emailTemplate_keys
  obtain ⟨s, hs, hkeys⟩ := exists_filled (n := 511) (by decide)
  have hnew : cacheKey (LogRenderer.tokenizeTemplate emailTemplate) ∉ s.entries.keys := by
    rw [hkeys, htokenized]
    exact cacheKey_notMem_tokenKeys (by decide) 511
  have hroom : s.entries.keys.card < maximumEntries := by
    rw [hkeys, card_tokenKeys]
    decide
  obtain ⟨result, t, hperforms, ht⟩ := exists_precompile hs.2.1 rfl hagain hnew hroom
  obtain ⟨hreachable, -, entry, hcaller⟩ := hs.performs hperforms
  have hmem : cacheKey (LogRenderer.tokenizeTemplate emailTemplate) ∈ t.entries := by
    rw [← Finmap.mem_keys, ht]
    exact Finset.mem_insert_self _ _
  obtain ⟨known, hknown⟩ := Finmap.mem_iff.mp hmem
  have hstep : preparationCache.step t (.step 1 ([], [])) =
      some ⟨t.entries.insert (cacheKey emailTemplate) known, t.compilationCount,
        Function.update t.callers 1 (Errand.resume (.precompile [emailTemplate] []) known)⟩ := by
    simp [preparationCache, cacheStep, callerStep, lookupStep, publish, hcaller, hknown]
  refine ⟨_, hreachable.tail _ trivial hstep, ?_⟩
  have hlast : cacheKey emailTemplate ∉ t.entries.keys := by
    rw [ht, hkeys, Finset.mem_insert, not_or]
    exact ⟨hne, cacheKey_notMem_tokenKeys (by decide) 511⟩
  dsimp only
  rw [keys_insert, Finset.card_insert_of_notMem hlast, ht, Finset.card_insert_of_notMem hnew, hkeys,
    card_tokenKeys]
  rfl

end Application
end LogGenerator
