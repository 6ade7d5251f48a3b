import LogGenerator.Application.PreparedLog
import LogGenerator.Foundation.Machine
import LogGenerator.Foundation.MemoTable
import LogGenerator.Foundation.PrefixCode

/-!
# The log preparation cache

Any number of threads call into one cache. A step is one section under `mutex_`,
one access to the counter or one compilation outside the lock; which entries an
eviction drops is part of the action.
-/

namespace LogGenerator
namespace Application

open Ascii Domain

namespace LogRenderer

def timestampOffset (config : GeneratorConfig) : ℤ :=
  match config.timestampGeneration.mode with
  | .offset => config.timestampGeneration.offset.value
  | .range => 0

/-- The blueprints bound to the addresses and the offset; `seeds` are the random states drawn. -/
def bindAll (config : GeneratorConfig) (seeds : ℕ → UInt64) (compiled : List CompiledLog) :
    List PreparedLog :=
  compiled.zipIdx.map fun (blueprint, index) =>
    PreparedLog.bind blueprint config.sourceIp config.destinationIp (timestampOffset config)
      (seeds index)

def prepare (config : GeneratorConfig) (seeds : ℕ → UInt64) : Except Bytes (List PreparedLog) :=
  (config.templates.mapM compile).map (bindAll config seeds)

end LogRenderer

def appendKeyComponent (key value : Bytes) : Bytes :=
  key ++ decimal value.length ++ bytes ":" ++ value ++ bytes "|"

/-- What goes into the key: the sample, then each token followed by its values. -/
def keyComponents (item : LogTemplate) : List Bytes :=
  item.sample :: item.testCase.values.flatMap fun entry => entry.1 :: entry.2

def cacheKey (item : LogTemplate) : Bytes := (keyComponents item).foldl appendKeyComponent []

structure CacheEntry where
  compiled : CompiledLog
  analysis : LogTemplateAnalysis

def makeEntry (compiled : CompiledLog) : CacheEntry := ⟨compiled, LogRenderer.analyze compiled⟩

def maximumEntries : ℕ := 512

inductive CacheCall where
  | tokenizeAndCache (item : LogTemplate)
  | precompile (items : List LogTemplate)
  | prepare (config : GeneratorConfig) (seeds : ℕ → UInt64)

inductive CacheResponse where
  | tokenized (item : LogTemplate) (analysis : LogTemplateAnalysis)
  | precompiled
  | prepared (logs : List PreparedLog)

/-- The templates that a call is given. -/
def CacheCall.templates : CacheCall → List LogTemplate
  | .tokenizeAndCache item => [item]
  | .precompile items => items
  | .prepare config _ => config.templates

/-- What a running `get_or_compile` is part of, with the templates still to come. -/
inductive Errand where
  | tokenizeAndCache (original : LogTemplate)
  | precompile (items rest : List LogTemplate)
  | prepare (config : GeneratorConfig) (seeds : ℕ → UInt64) (compiled : List CompiledLog)
    (rest : List LogTemplate)

def Errand.call : Errand → CacheCall
  | .tokenizeAndCache original => .tokenizeAndCache original
  | .precompile items _ => .precompile items
  | .prepare config seeds _ _ => .prepare config seeds

inductive LookupPc where
  | findOriginal
  | findTokenized
  | insertAlias (entry : CacheEntry)
  | compile
  | publish (entry : CacheEntry)
  | count (entry : CacheEntry)

inductive Caller where
  | idle
  | lookup (item : LogTemplate) (errand : Errand) (pc : LookupPc)
  | insertAlias (original : LogTemplate) (entry : CacheEntry)
  | returned (call : CacheCall) (result : Except Bytes CacheResponse)

def tokenizedResponse (original : LogTemplate) (entry : CacheEntry) : CacheResponse :=
  .tokenized (LogRenderer.tokenizeTemplate original) entry.analysis

/-- `precompile` with `rest` still to do. -/
def Caller.precompileNext (items : List LogTemplate) : List LogTemplate → Caller
  | [] => .returned (.precompile items) (.ok .precompiled)
  | item :: rest => .lookup item (.precompile items rest) .findOriginal

/-- `prepare` with `rest` still to do. -/
def Caller.prepareNext (config : GeneratorConfig) (seeds : ℕ → UInt64)
    (compiled : List CompiledLog) : List LogTemplate → Caller
  | [] => .returned (.prepare config seeds)
      (.ok (.prepared (LogRenderer.bindAll config seeds compiled)))
  | item :: rest => .lookup item (.prepare config seeds compiled rest) .findOriginal

def Caller.begin : CacheCall → Caller
  | .tokenizeAndCache item =>
    .lookup (LogRenderer.tokenizeTemplate item) (.tokenizeAndCache item) .findOriginal
  | .precompile items => .precompileNext items items
  | .prepare config seeds => .prepareNext config seeds [] config.templates

/-- What follows when `get_or_compile` returns `entry`. -/
def Errand.resume : Errand → CacheEntry → Caller
  | .tokenizeAndCache original, entry =>
    if cacheKey original ≠ cacheKey (LogRenderer.tokenizeTemplate original) then
      .insertAlias original entry
    else .returned (.tokenizeAndCache original) (.ok (tokenizedResponse original entry))
  | .precompile items rest, _ => .precompileNext items rest
  | .prepare config seeds compiled rest, entry =>
    .prepareNext config seeds (compiled ++ [entry.compiled]) rest

structure CacheState where
  entries : MemoTable Bytes CacheEntry
  compilationCount : ℕ
  callers : ℕ → Caller

/-- One caller's share of a step. -/
structure CallerStep where
  entries : MemoTable Bytes CacheEntry
  compilationCount : ℕ
  caller : Caller

inductive CacheAction where
  | begin (thread : ℕ) (call : CacheCall)
  | step (thread : ℕ) (victims : Bytes × Bytes)

/-- The section of `get_or_compile` that publishes a blueprint. -/
def publish (entries : MemoTable Bytes CacheEntry) (victims : Bytes × Bytes)
    (originalKey tokenizedKey : Bytes) (entry : CacheEntry) :
    Option (MemoTable Bytes CacheEntry × Option CacheEntry) :=
  match entries.lookup tokenizedKey with
  | some found => some (entries.insert originalKey found, some found)
  | none =>
    match entries.insertBounded maximumEntries victims.1 tokenizedKey entry with
    | none => none
    | some entries =>
      if originalKey ≠ tokenizedKey then
        (entries.insertBounded maximumEntries victims.2 originalKey entry).map (·, none)
      else some (entries, none)

def lookupStep (entries : MemoTable Bytes CacheEntry) (compilationCount : ℕ)
    (victims : Bytes × Bytes) (item : LogTemplate) (errand : Errand) :
    LookupPc → Option CallerStep
  | .findOriginal =>
    match entries.lookup (cacheKey item) with
    | some entry => some ⟨entries, compilationCount, errand.resume entry⟩
    | none => some ⟨entries, compilationCount, .lookup item errand .findTokenized⟩
  | .findTokenized =>
    match entries.lookup (cacheKey (LogRenderer.tokenizeTemplate item)) with
    | some entry => some ⟨entries, compilationCount, .lookup item errand (.insertAlias entry)⟩
    | none => some ⟨entries, compilationCount, .lookup item errand .compile⟩
  | .insertAlias entry =>
    (entries.insertBounded maximumEntries victims.1 (cacheKey item) entry).map fun entries =>
      ⟨entries, compilationCount, errand.resume entry⟩
  | .compile =>
    match LogRenderer.compile (LogRenderer.tokenizeTemplate item) with
    | .error what => some ⟨entries, compilationCount, .returned errand.call (.error what)⟩
    | .ok compiled =>
      some ⟨entries, compilationCount, .lookup item errand (.publish (makeEntry compiled))⟩
  | .publish entry =>
    match publish entries victims (cacheKey item) (cacheKey (LogRenderer.tokenizeTemplate item))
        entry with
    | none => none
    | some (entries, some found) => some ⟨entries, compilationCount, errand.resume found⟩
    | some (entries, none) => some ⟨entries, compilationCount, .lookup item errand (.count entry)⟩
  | .count entry => some ⟨entries, compilationCount + 1, errand.resume entry⟩

def callerStep (entries : MemoTable Bytes CacheEntry) (compilationCount : ℕ)
    (victims : Bytes × Bytes) : Caller → Option CallerStep
  | .idle | .returned _ _ => none
  | .lookup item errand pc => lookupStep entries compilationCount victims item errand pc
  | .insertAlias original entry =>
    (entries.insertBounded maximumEntries victims.1 (cacheKey original) entry).map fun entries =>
      ⟨entries, compilationCount,
        .returned (.tokenizeAndCache original) (.ok (tokenizedResponse original entry))⟩

def cacheStep (s : CacheState) : CacheAction → Option CacheState
  | .begin thread call =>
    match s.callers thread with
    | .idle | .returned _ _ =>
      some { s with callers := Function.update s.callers thread (.begin call) }
    | .lookup _ _ _ | .insertAlias _ _ => none
  | .step thread victims =>
    (callerStep s.entries s.compilationCount victims (s.callers thread)).map fun next =>
      ⟨next.entries, next.compilationCount, Function.update s.callers thread next.caller⟩

def preparationCache : Machine CacheState CacheAction where
  initial := ⟨∅, 0, fun _ => .idle⟩
  step := cacheStep

/-- A length, a colon, that many bytes and a bar. -/
def readKeyComponent (input : Bytes) : Option (Bytes × Bytes) :=
  match input.span isDigit with
  | (ds, _ :: body) => some (body.take (decimalValue ds), body.drop (decimalValue ds + 1))
  | (_, []) => none

def componentCode : PrefixCode Bytes UInt8 where
  encode := appendKeyComponent []
  decode := readKeyComponent
  Word _ := True
  encode_ne_nil value := by simp [appendKeyComponent, decimal_ne_nil]
  decode_encode value _ rest := by
    have hcolon : bytes ":" = [58] := by decide
    have hbar : bytes "|" = [124] := by decide
    have hs := span_decimal value.length (show isDigit 58 = false by decide)
      (value ++ 124 :: rest)
    have hinput : appendKeyComponent [] value ++ rest =
        decimal value.length ++ 58 :: (value ++ 124 :: rest) := by
      simp [appendKeyComponent, hcolon, hbar]
    rw [hinput, readKeyComponent, hs]
    simp [List.drop_append]

theorem foldl_appendKeyComponent (key : Bytes) (components : List Bytes) :
    components.foldl appendKeyComponent key = key ++ components.flatMap componentCode.encode := by
  induction components generalizing key with
  | nil => simp
  | cons value components ih =>
    rw [List.foldl_cons, ih, List.flatMap_cons]
    simp [componentCode, appendKeyComponent]

/-- Two templates share a key exactly when their flat component lists agree. -/
theorem cacheKey_eq_iff (a b : LogTemplate) :
    cacheKey a = cacheKey b ↔ keyComponents a = keyComponents b := by
  constructor
  · intro h
    rw [cacheKey, cacheKey, foldl_appendKeyComponent, foldl_appendKeyComponent, List.nil_append,
      List.nil_append] at h
    exact componentCode.flatMap_encode_inj (fun _ _ => trivial) (fun _ _ => trivial) h
  · intro h
    rw [cacheKey, cacheKey, h]

/-- The number of values of each token. -/
def valueCounts (item : LogTemplate) : List ℕ :=
  item.testCase.values.map fun entry => entry.2.length

/-- A sequence of tokens and values is cut in one way into tokens with so many values. -/
theorem values_eq_of_counts {values values' : List (Bytes × List Bytes)}
    (hcounts : (values.map fun entry => entry.2.length) = values'.map fun entry => entry.2.length)
    (h : (values.flatMap fun entry => entry.1 :: entry.2) =
      values'.flatMap fun entry => entry.1 :: entry.2) : values = values' := by
  induction values generalizing values' with
  | nil =>
    cases values' with
    | nil => rfl
    | cons entry values' => cases hcounts
  | cons entry values ih =>
    cases values' with
    | nil => cases hcounts
    | cons entry' values' =>
      obtain ⟨hlength, hcounts⟩ := List.cons.inj hcounts
      rw [List.flatMap_cons, List.flatMap_cons] at h
      obtain ⟨hentry, hrest⟩ := List.append_inj h (congrArg (· + 1) hlength)
      obtain ⟨htoken, hvalues⟩ := List.cons.inj hentry
      rw [ih hcounts hrest, Prod.ext htoken hvalues]

/-- The templates share a key exactly when they are the same to the compiler. -/
def KeyIdentifies (a b : LogTemplate) : Prop :=
  cacheKey a = cacheKey b ↔ a.sample = b.sample ∧ a.testCase.values = b.testCase.values

/-- The key does not say where the values of a token end. -/
theorem keyIdentifies_iff (a b : LogTemplate) : KeyIdentifies a b ↔
    (keyComponents a = keyComponents b → valueCounts a = valueCounts b) := by
  unfold KeyIdentifies
  rw [cacheKey_eq_iff]
  constructor
  · intro h hcomponents
    obtain ⟨-, hvalues⟩ := h.mp hcomponents
    rw [valueCounts, valueCounts, hvalues]
  · intro h
    constructor
    · intro hcomponents
      obtain ⟨hsample, hflat⟩ := List.cons.inj hcomponents
      exact ⟨hsample, values_eq_of_counts (h hcomponents) hflat⟩
    · rintro ⟨hsample, hvalues⟩
      rw [keyComponents, keyComponents, hsample, hvalues]

theorem expandTokens_ok (id id' : Bytes) (entries : List (Bytes × List Bytes)) :
    ∀ {result expanded : Bytes}, expandTokens id entries result = .ok expanded →
      expandTokens id' entries result = .ok expanded := by
  induction entries with
  | nil =>
    intro result expanded h
    exact h
  | cons entry entries ih =>
    intro result expanded h
    obtain ⟨token, values⟩ := entry
    unfold expandTokens at h ⊢
    split_ifs at h ⊢
    split at h
    · cases h
    · exact ih h

/-- The identifier of a template shows only in the texts of its errors. -/
theorem compile_congr {a b : LogTemplate} (hsample : a.sample = b.sample)
    (hvalues : a.testCase.values = b.testCase.values) {compiled : CompiledLog}
    (h : LogRenderer.compile a = .ok compiled) : LogRenderer.compile b = .ok compiled := by
  unfold LogRenderer.compile expandTestCase at h ⊢
  simp only [LogRenderer.tokenizeTemplate, LogRenderer.tokenizeTestCase, hsample, hvalues] at h ⊢
  cases hexpand : expandTokens a.id
      (b.testCase.values.map fun entry => (entry.1, entry.2.map LogRenderer.tokenize))
      (LogRenderer.tokenize b.sample) with
  | error what =>
    rw [hexpand] at h
    cases h
  | ok expanded =>
    rw [hexpand] at h
    rw [expandTokens_ok a.id b.id _ hexpand]
    exact h

/-- A second tokenization changes neither the sample nor a value. -/
def Settled (item : LogTemplate) : Prop :=
  LogRenderer.tokenize (LogRenderer.tokenize item.sample) = LogRenderer.tokenize item.sample ∧
    ∀ entry ∈ item.testCase.values, ∀ value ∈ entry.2,
      LogRenderer.tokenize (LogRenderer.tokenize value) = LogRenderer.tokenize value

theorem Settled.tokenizeTemplate {item : LogTemplate} (h : Settled item) :
    LogRenderer.tokenizeTemplate (LogRenderer.tokenizeTemplate item) =
      LogRenderer.tokenizeTemplate item := by
  have hvalues : ((item.testCase.values.map fun entry =>
        (entry.1, entry.2.map LogRenderer.tokenize)).map fun entry =>
        (entry.1, entry.2.map LogRenderer.tokenize)) =
      item.testCase.values.map fun entry => (entry.1, entry.2.map LogRenderer.tokenize) := by
    rw [List.map_map]
    apply List.map_congr_left
    intro entry hentry
    simp only [Function.comp_apply, List.map_map, Prod.mk.injEq, true_and]
    apply List.map_congr_left
    intro value hvalue
    rw [Function.comp_apply, h.2 entry hentry value hvalue]
  simp only [LogRenderer.tokenizeTemplate, LogRenderer.tokenizeTestCase, h.1, hvalues]

theorem Settled.compile {item : LogTemplate} (h : Settled item) :
    LogRenderer.compile (LogRenderer.tokenizeTemplate item) = LogRenderer.compile item := by
  rw [LogRenderer.compile, LogRenderer.compile, h.tokenizeTemplate]

/-- `Held item entry`: the cache may hand out `entry` for `item`. This is what the relation has to
satisfy on the templates of `D` for every run to keep to it. -/
structure Kept (D : Set LogTemplate) (Held : LogTemplate → CacheEntry → Prop) : Prop where
  tokenized : ∀ item ∈ D, LogRenderer.tokenizeTemplate item ∈ D
  sameKey : ∀ a ∈ D, ∀ b ∈ D, cacheKey a = cacheKey b → ∀ entry, Held a entry → Held b entry
  raw : ∀ item ∈ D, ∀ entry, Held (LogRenderer.tokenizeTemplate item) entry → Held item entry
  compiled : ∀ item ∈ D, ∀ compiled,
    LogRenderer.compile (LogRenderer.tokenizeTemplate item) = .ok compiled →
      Held (LogRenderer.tokenizeTemplate item) (makeEntry compiled)

/-- What an entry has to be under its key. -/
def Answers (D : Set LogTemplate) (Held : LogTemplate → CacheEntry → Prop) (key : Bytes)
    (entry : CacheEntry) : Prop :=
  ∀ item ∈ D, cacheKey item = key → Held item entry

/-- One of `items` does not compile, those before it have been served. -/
def Rejected (Held : LogTemplate → CacheEntry → Prop) (items : List LogTemplate) (what : Bytes) :
    Prop :=
  ∃ before item rest entries, items = before ++ item :: rest ∧ List.Forall₂ Held before entries ∧
    LogRenderer.compile (LogRenderer.tokenizeTemplate item) = .error what

/-- What a call may return or throw. -/
def CacheCall.Yields (Held : LogTemplate → CacheEntry → Prop) :
    CacheCall → Except Bytes CacheResponse → Prop
  | .tokenizeAndCache item, .ok response =>
    ∃ entry, Held item entry ∧ response = tokenizedResponse item entry
  | .tokenizeAndCache item, .error what => Rejected Held [LogRenderer.tokenizeTemplate item] what
  | .precompile items, .ok response =>
    (∃ entries, List.Forall₂ Held items entries) ∧ response = .precompiled
  | .precompile items, .error what => Rejected Held items what
  | .prepare config seeds, .ok response => ∃ entries, List.Forall₂ Held config.templates entries ∧
      response = .prepared (LogRenderer.bindAll config seeds (entries.map CacheEntry.compiled))
  | .prepare config _, .error what => Rejected Held config.templates what

/-- The templates of every call that begins are in `U`. -/
def CallsWithin (U : Set LogTemplate) : CacheState → CacheAction → Prop
  | _, .begin _ call => ∀ item ∈ call.templates, item ∈ U
  | _, .step _ _ => True

namespace LogPreparationCache

variable {U D : Set LogTemplate} {Held : LogTemplate → CacheEntry → Prop}
  {item original : LogTemplate} {entry : CacheEntry} {entries entries' : MemoTable Bytes CacheEntry}
  {victims : Bytes × Bytes}

theorem answers_of_held (hkept : Kept D Held) (hitem : item ∈ D) (h : Held item entry) :
    Answers D Held (cacheKey item) entry := by
  intro other hother hkey
  exact hkept.sameKey item hitem other hother hkey.symm entry h

theorem publish_sound (hkept : Kept D Held) (hitem : item ∈ D)
    (hentries : entries.Sound (Answers D Held))
    (hentry : Held (LogRenderer.tokenizeTemplate item) entry) {found : Option CacheEntry}
    (h : publish entries victims (cacheKey item)
      (cacheKey (LogRenderer.tokenizeTemplate item)) entry = some (entries', found)) :
    entries'.Sound (Answers D Held) ∧ ∀ other, found = some other → Held item other := by
  have htokenized := hkept.tokenized item hitem
  have horiginal := answers_of_held hkept hitem (hkept.raw item hitem entry hentry)
  unfold publish at h
  split at h
  · rename_i other hother
    cases h
    have hheld := hkept.raw item hitem other (hentries _ _ hother _ htokenized rfl)
    refine ⟨hentries.insert (answers_of_held hkept hitem hheld), ?_⟩
    intro _ hsame
    cases hsame
    exact hheld
  · split at h
    · cases h
    · rename_i _ middle hmiddle
      have hsound := hentries.insertBounded (answers_of_held hkept htokenized hentry) hmiddle
      split_ifs at h
      · obtain ⟨last, hlast, hpair⟩ := Option.map_eq_some_iff.mp h
        cases hpair
        refine ⟨hsound.insertBounded horiginal hlast, ?_⟩
        intro _ hnone
        cases hnone
      · cases h
        refine ⟨hsound, ?_⟩
        intro _ hnone
        cases hnone

/-- Of `items` all but `rest` have been served, with the entries `given`. -/
def Served (D : Set LogTemplate) (Held : LogTemplate → CacheEntry → Prop)
    (items : List LogTemplate) (given : List CacheEntry) (rest : List LogTemplate) : Prop :=
  (∀ item ∈ items, item ∈ D) ∧ ∃ before, items = before ++ rest ∧ List.Forall₂ Held before given

variable {items rest : List LogTemplate} {given : List CacheEntry}

theorem Served.mem (h : Served D Held items given (item :: rest)) : item ∈ D := by
  obtain ⟨hitems, before, rfl, _⟩ := h
  exact hitems item (by simp)

theorem Served.next (h : Served D Held items given (item :: rest)) (hentry : Held item entry) :
    Served D Held items (given ++ [entry]) rest := by
  obtain ⟨hitems, before, rfl, hbefore⟩ := h
  refine ⟨hitems, before ++ [item], by simp, ?_⟩
  exact List.rel_append hbefore (.cons hentry .nil)

theorem Served.all (h : Served D Held items given []) : List.Forall₂ Held items given := by
  obtain ⟨_, before, rfl, hbefore⟩ := h
  rw [List.append_nil]
  exact hbefore

theorem Served.rejected {what : Bytes} (h : Served D Held items given (item :: rest))
    (hitem : LogRenderer.compile (LogRenderer.tokenizeTemplate item) = .error what) :
    Rejected Held items what := by
  obtain ⟨_, before, hitems, hbefore⟩ := h
  exact ⟨before, item, rest, given, hitems, hbefore, hitem⟩

def ErrandOk (D : Set LogTemplate) (Held : LogTemplate → CacheEntry → Prop) :
    Errand → LogTemplate → Prop
  | .tokenizeAndCache original, item =>
    original ∈ D ∧ item = LogRenderer.tokenizeTemplate original
  | .precompile items rest, item => ∃ given, Served D Held items given (item :: rest)
  | .prepare config _ compiled rest, item => ∃ given,
    Served D Held config.templates given (item :: rest) ∧ compiled = given.map CacheEntry.compiled

/-- The entries that a caller holds may be handed out, and so may those it was given. -/
def CallerOk (D : Set LogTemplate) (Held : LogTemplate → CacheEntry → Prop) : Caller → Prop
  | .idle => True
  | .lookup item errand pc => ErrandOk D Held errand item ∧
    match pc with
    | .publish entry => Held (LogRenderer.tokenizeTemplate item) entry
    | .insertAlias entry | .count entry => Held item entry
    | .findOriginal | .findTokenized | .compile => True
  | .insertAlias original entry => original ∈ D ∧ Held original entry
  | .returned call result => (∀ item ∈ call.templates, item ∈ D) ∧ call.Yields Held result

theorem ErrandOk.mem (hkept : Kept D Held) {errand : Errand} (h : ErrandOk D Held errand item) :
    item ∈ D := by
  cases errand with
  | tokenizeAndCache original =>
    obtain ⟨horiginal, rfl⟩ := h
    exact hkept.tokenized original horiginal
  | precompile items rest =>
    obtain ⟨_, hserved⟩ := h
    exact hserved.mem
  | prepare config seeds compiled rest =>
    obtain ⟨_, hserved, _⟩ := h
    exact hserved.mem

theorem precompileNext_ok (h : Served D Held items given rest) :
    CallerOk D Held (.precompileNext items rest) := by
  cases rest with
  | nil => exact ⟨h.1, ⟨given, h.all⟩, rfl⟩
  | cons item rest => exact ⟨⟨given, h⟩, trivial⟩

theorem prepareNext_ok {config : GeneratorConfig} (seeds : ℕ → UInt64)
    (h : Served D Held config.templates given rest) :
    CallerOk D Held (.prepareNext config seeds (given.map CacheEntry.compiled) rest) := by
  cases rest with
  | nil => exact ⟨h.1, given, h.all, rfl⟩
  | cons item rest => exact ⟨⟨given, h, rfl⟩, trivial⟩

theorem begin_ok {call : CacheCall} (h : ∀ item ∈ call.templates, item ∈ D) :
    CallerOk D Held (.begin call) := by
  cases call with
  | tokenizeAndCache item => exact ⟨⟨h item (by simp [CacheCall.templates]), rfl⟩, trivial⟩
  | precompile items => exact precompileNext_ok ⟨h, [], rfl, .nil⟩
  | prepare config seeds => exact prepareNext_ok seeds ⟨h, [], rfl, .nil⟩

theorem tokenized_ok (horiginal : original ∈ D) (hentry : Held original entry) :
    CallerOk D Held
      (.returned (.tokenizeAndCache original) (.ok (tokenizedResponse original entry))) := by
  refine ⟨?_, entry, hentry, rfl⟩
  intro item hitem
  rw [List.mem_singleton.mp hitem]
  exact horiginal

/-- Whatever the errand, an entry for its template lets it go on. -/
theorem resume_ok (hkept : Kept D Held) {errand : Errand} (h : ErrandOk D Held errand item)
    (hentry : Held item entry) : CallerOk D Held (errand.resume entry) := by
  cases errand with
  | tokenizeAndCache original =>
    obtain ⟨horiginal, rfl⟩ := h
    have hheld := hkept.raw original horiginal entry hentry
    simp only [Errand.resume]
    split_ifs
    · exact ⟨horiginal, hheld⟩
    · exact tokenized_ok horiginal hheld
  | precompile items rest =>
    obtain ⟨given, hserved⟩ := h
    exact precompileNext_ok (hserved.next hentry)
  | prepare config seeds compiled rest =>
    obtain ⟨given, hserved, rfl⟩ := h
    have hnext := prepareNext_ok seeds (hserved.next hentry)
    rw [List.map_append] at hnext
    exact hnext

/-- A compilation that fails gives the error of the whole call. -/
theorem fails_ok {errand : Errand} (h : ErrandOk D Held errand item) {what : Bytes}
    (hitem : LogRenderer.compile (LogRenderer.tokenizeTemplate item) = .error what) :
    CallerOk D Held (.returned errand.call (.error what)) := by
  cases errand with
  | tokenizeAndCache original =>
    obtain ⟨horiginal, rfl⟩ := h
    refine ⟨?_, [], _, [], [], rfl, .nil, hitem⟩
    intro item hmem
    rw [List.mem_singleton.mp hmem]
    exact horiginal
  | precompile items rest =>
    obtain ⟨given, hserved⟩ := h
    exact ⟨hserved.1, hserved.rejected hitem⟩
  | prepare config seeds compiled rest =>
    obtain ⟨given, hserved, rfl⟩ := h
    exact ⟨hserved.1, hserved.rejected hitem⟩

theorem lookupStep_ok (hkept : Kept D Held) (hentries : entries.Sound (Answers D Held))
    {errand : Errand} {pc : LookupPc} (h : CallerOk D Held (.lookup item errand pc))
    {compilationCount : ℕ} {next : CallerStep}
    (hstep : lookupStep entries compilationCount victims item errand pc = some next) :
    next.entries.Sound (Answers D Held) ∧ CallerOk D Held next.caller := by
  obtain ⟨herrand, hpc⟩ := h
  have hitem := herrand.mem hkept
  cases pc with
  | findOriginal =>
    simp only [lookupStep] at hstep
    split at hstep
    · rename_i entry hfound
      cases hstep
      exact ⟨hentries, resume_ok hkept herrand (hentries _ _ hfound item hitem rfl)⟩
    · cases hstep
      exact ⟨hentries, herrand, trivial⟩
  | findTokenized =>
    simp only [lookupStep] at hstep
    split at hstep
    · rename_i entry hfound
      cases hstep
      have htokenized := hentries _ _ hfound _ (hkept.tokenized item hitem) rfl
      exact ⟨hentries, herrand, hkept.raw item hitem entry htokenized⟩
    · cases hstep
      exact ⟨hentries, herrand, trivial⟩
  | insertAlias entry =>
    obtain ⟨entries', hinsert, rfl⟩ := Option.map_eq_some_iff.mp hstep
    have hsound := hentries.insertBounded (answers_of_held hkept hitem hpc) hinsert
    exact ⟨hsound, resume_ok hkept herrand hpc⟩
  | compile =>
    simp only [lookupStep] at hstep
    split at hstep
    · rename_i what hwhat
      cases hstep
      exact ⟨hentries, fails_ok herrand hwhat⟩
    · rename_i compiled hcompiled
      cases hstep
      exact ⟨hentries, herrand, hkept.compiled item hitem compiled hcompiled⟩
  | publish entry =>
    simp only [lookupStep] at hstep
    split at hstep
    · cases hstep
    · rename_i entries' found hpublish
      cases hstep
      obtain ⟨hsound, hfound⟩ := publish_sound hkept hitem hentries hpc hpublish
      exact ⟨hsound, resume_ok hkept herrand (hfound found rfl)⟩
    · rename_i entries' hpublish
      cases hstep
      have hsound := (publish_sound hkept hitem hentries hpc hpublish).1
      exact ⟨hsound, herrand, hkept.raw item hitem entry hpc⟩
  | count entry =>
    cases hstep
    exact ⟨hentries, resume_ok hkept herrand hpc⟩

theorem callerStep_ok (hkept : Kept D Held) (hentries : entries.Sound (Answers D Held))
    {caller : Caller} (h : CallerOk D Held caller) {compilationCount : ℕ} {next : CallerStep}
    (hstep : callerStep entries compilationCount victims caller = some next) :
    next.entries.Sound (Answers D Held) ∧ CallerOk D Held next.caller := by
  cases caller with
  | idle => cases hstep
  | lookup item errand pc => exact lookupStep_ok hkept hentries h hstep
  | insertAlias original entry =>
    obtain ⟨horiginal, hentry⟩ := h
    obtain ⟨entries', hinsert, rfl⟩ := Option.map_eq_some_iff.mp hstep
    have hanswers := answers_of_held hkept horiginal hentry
    exact ⟨hentries.insertBounded hanswers hinsert, tokenized_ok horiginal hentry⟩
  | returned call result => cases hstep

/-- The entries are right under their keys, and every caller is right so far. -/
structure Consistent (D : Set LogTemplate) (Held : LogTemplate → CacheEntry → Prop)
    (s : CacheState) : Prop where
  entries : s.entries.Sound (Answers D Held)
  callers : ∀ thread, CallerOk D Held (s.callers thread)

theorem callers_update {P : Caller → Prop} {s : CacheState} (h : ∀ thread, P (s.callers thread))
    (thread : ℕ) {caller : Caller} (hcaller : P caller) (other : ℕ) :
    P (Function.update s.callers thread caller other) := by
  by_cases hother : other = thread
  · rw [hother, Function.update_self]
    exact hcaller
  · rw [Function.update_of_ne hother]
    exact h other

/-- A call begins when the thread has none underway. -/
theorem begin_cases {s t : CacheState} {thread : ℕ} {call : CacheCall}
    (hstep : cacheStep s (.begin thread call) = some t) :
    t = { s with callers := Function.update s.callers thread (.begin call) } := by
  simp only [cacheStep] at hstep
  split at hstep
  · cases hstep
    rfl
  · cases hstep
    rfl
  · cases hstep
  · cases hstep

theorem consistent_step (hkept : Kept D Held) (hD : U ⊆ D) (s : CacheState) (action : CacheAction)
    (t : CacheState) (h : Consistent D Held s) (haction : CallsWithin U s action)
    (hstep : cacheStep s action = some t) : Consistent D Held t := by
  cases action with
  | begin thread call =>
    rw [begin_cases hstep]
    have hbegin : CallerOk D Held (.begin call) :=
      begin_ok fun item hitem => hD (haction item hitem)
    exact ⟨h.entries, callers_update h.callers thread hbegin⟩
  | step thread victims =>
    obtain ⟨next, hnext, rfl⟩ := Option.map_eq_some_iff.mp hstep
    obtain ⟨hentries, hcaller⟩ := callerStep_ok hkept h.entries (h.callers thread) hnext
    exact ⟨hentries, callers_update h.callers thread hcaller⟩

theorem consistent_initial (D : Set LogTemplate) (Held : LogTemplate → CacheEntry → Prop) :
    Consistent D Held preparationCache.initial :=
  ⟨MemoTable.sound_empty, fun _ => trivial⟩

/-- In every run over templates of `D` a call that has ended returned or threw what it may. -/
theorem yields_of_returned (hkept : Kept D Held) (hD : U ⊆ D) {s : CacheState}
    (hrun : preparationCache.Steps (CallsWithin U) preparationCache.initial s) {thread : ℕ}
    {call : CacheCall} {result : Except Bytes CacheResponse}
    (hreturned : s.callers thread = .returned call result) :
    (∀ item ∈ call.templates, item ∈ D) ∧ call.Yields Held result := by
  have hconsistent := hrun.invariant (consistent_initial D Held) (consistent_step hkept hD)
  have hok := hconsistent.callers thread
  rw [hreturned] at hok
  exact hok

end LogPreparationCache

/-- The templates of `U` and their tokenized forms: all that `get_or_compile` is asked for. -/
def forms (U : Set LogTemplate) : Set LogTemplate := U ∪ LogRenderer.tokenizeTemplate '' U

/-- Every template of `U` is settled, and none that compiles shares its key with a different
test case. -/
structure Unambiguous (U : Set LogTemplate) : Prop where
  settled : ∀ item ∈ U, Settled item
  separated : ∀ a ∈ forms U, ∀ b ∈ forms U, (LogRenderer.compile a).isOk →
    keyComponents a = keyComponents b → a.testCase.values = b.testCase.values

/-- The entry is what compiling `item` on its own gives. -/
def Describes (item : LogTemplate) (entry : CacheEntry) : Prop :=
  LogRenderer.compile item = .ok entry.compiled ∧ entry = makeEntry entry.compiled

/-- What a call returns when every template is compiled on its own. -/
def CacheCall.expected : CacheCall → Except Bytes CacheResponse
  | .tokenizeAndCache item =>
    (LogRenderer.compile item).map fun compiled => tokenizedResponse item (makeEntry compiled)
  | .precompile items => (items.mapM LogRenderer.compile).map fun _ => .precompiled
  | .prepare config seeds => (LogRenderer.prepare config seeds).map .prepared

namespace LogPreparationCache

variable {U : Set LogTemplate} {item : LogTemplate} {entry : CacheEntry}
  {items : List LogTemplate}

theorem tokenizeTemplate_mem_forms (hU : Unambiguous U) (h : item ∈ forms U) :
    LogRenderer.tokenizeTemplate item ∈ forms U := by
  rcases h with h | ⟨original, horiginal, rfl⟩
  · exact .inr ⟨item, h, rfl⟩
  · exact .inr ⟨original, horiginal, ((hU.settled original horiginal).tokenizeTemplate).symm⟩

theorem compile_tokenizeTemplate (hU : Unambiguous U) (h : item ∈ forms U) :
    LogRenderer.compile (LogRenderer.tokenizeTemplate item) = LogRenderer.compile item := by
  rcases h with h | ⟨original, horiginal, rfl⟩
  · exact (hU.settled item h).compile
  · rw [(hU.settled original horiginal).tokenizeTemplate]

/-- Between unambiguous templates an entry that is right for one is right for all it is found for. -/
theorem kept_describes (hU : Unambiguous U) : Kept (forms U) Describes where
  tokenized _ hitem := tokenizeTemplate_mem_forms hU hitem
  sameKey a ha b hb hkey entry h := by
    have hcomponents := (cacheKey_eq_iff a b).mp hkey
    have hok : (LogRenderer.compile a).isOk := by
      rw [h.1]
      rfl
    have hvalues := hU.separated a ha b hb hok hcomponents
    have hsample : a.sample = b.sample := (List.cons.inj hcomponents).1
    exact ⟨compile_congr hsample hvalues h.1, h.2⟩
  raw item hitem entry h := by
    rw [Describes, compile_tokenizeTemplate hU hitem] at h
    exact h
  compiled _ _ _ hcompiled := ⟨hcompiled, rfl⟩

theorem mapM_of_describes {given : List CacheEntry} (h : List.Forall₂ Describes items given) :
    items.mapM LogRenderer.compile = .ok (given.map CacheEntry.compiled) := by
  induction h with
  | nil => rfl
  | cons hentry _ ih =>
    rw [List.mapM_cons, hentry.1, ih]
    rfl

theorem mapM_of_rejected (hU : Unambiguous U) (hitems : ∀ item ∈ items, item ∈ forms U)
    {what : Bytes} (h : Rejected Describes items what) :
    items.mapM LogRenderer.compile = .error what := by
  obtain ⟨before, item, rest, given, rfl, hbefore, hitem⟩ := h
  rw [compile_tokenizeTemplate hU (hitems item (by simp))] at hitem
  rw [List.mapM_append, mapM_of_describes hbefore, List.mapM_cons, hitem]
  rfl

theorem expected_of_yields (hU : Unambiguous U) {call : CacheCall}
    (hcall : ∀ item ∈ call.templates, item ∈ forms U) {result : Except Bytes CacheResponse}
    (h : call.Yields Describes result) : result = call.expected := by
  cases call with
  | tokenizeAndCache item =>
    have hitem := hcall item (by simp [CacheCall.templates])
    cases result with
    | ok response =>
      obtain ⟨entry, ⟨hcompile, hmade⟩, rfl⟩ := h
      simp only [CacheCall.expected, hcompile]
      rw [hmade]
      rfl
    | error what =>
      have htokenized : ∀ other ∈ [LogRenderer.tokenizeTemplate item], other ∈ forms U := by
        intro other hother
        rw [List.mem_singleton.mp hother]
        exact tokenizeTemplate_mem_forms hU hitem
      have hrejected := mapM_of_rejected hU htokenized h
      rw [List.mapM_cons, compile_tokenizeTemplate hU hitem] at hrejected
      cases hcompile : LogRenderer.compile item with
      | error what' =>
        rw [hcompile] at hrejected
        cases hrejected
        simp only [CacheCall.expected, hcompile]
        rfl
      | ok compiled =>
        rw [hcompile] at hrejected
        cases hrejected
  | precompile items =>
    cases result with
    | ok response =>
      obtain ⟨⟨given, hgiven⟩, rfl⟩ := h
      rw [CacheCall.expected, mapM_of_describes hgiven]
      rfl
    | error what =>
      have hrejected : items.mapM LogRenderer.compile = .error what := mapM_of_rejected hU hcall h
      rw [CacheCall.expected, hrejected]
      rfl
  | prepare config seeds =>
    cases result with
    | ok response =>
      obtain ⟨given, hgiven, rfl⟩ := h
      rw [CacheCall.expected, LogRenderer.prepare, mapM_of_describes hgiven]
      rfl
    | error what =>
      have hrejected : config.templates.mapM LogRenderer.compile = .error what :=
        mapM_of_rejected hU hcall h
      rw [CacheCall.expected, LogRenderer.prepare, hrejected]
      rfl

theorem expected_of_returned (hU : Unambiguous U) {s : CacheState}
    (hrun : preparationCache.Steps (CallsWithin U) preparationCache.initial s) {thread : ℕ}
    {call : CacheCall} {result : Except Bytes CacheResponse}
    (hreturned : s.callers thread = .returned call result) : result = call.expected := by
  obtain ⟨hcall, hyields⟩ :=
    yields_of_returned (kept_describes hU) Set.subset_union_left hrun hreturned
  exact expected_of_yields hU hcall hyields

end LogPreparationCache

namespace LogPreparationCache

variable {U : Set LogTemplate} {compiled : CompiledLog}

end LogPreparationCache

/-- The most steps that a lookup takes from here on. -/
def LookupPc.rank : LookupPc → ℕ
  | .findOriginal => 5
  | .findTokenized => 4
  | .compile => 3
  | .publish _ => 2
  | .insertAlias _ | .count _ => 1

def Errand.rank : Errand → ℕ
  | .tokenizeAndCache _ => 1
  | .precompile _ rest | .prepare _ _ _ rest => 5 * rest.length

def Caller.rank : Caller → ℕ
  | .idle | .returned _ _ => 0
  | .lookup _ errand pc => pc.rank + errand.rank
  | .insertAlias _ _ => 1

/-- The call that the thread has underway, or has made last. -/
def Caller.call : Caller → Option CacheCall
  | .idle => none
  | .lookup _ errand _ => some errand.call
  | .insertAlias original _ => some (.tokenizeAndCache original)
  | .returned call _ => some call

def CacheAction.Begins (thread : ℕ) : CacheAction → Prop
  | .begin other _ => other = thread
  | .step _ _ => False

namespace LogPreparationCache

variable {item : LogTemplate} {entries : MemoTable Bytes CacheEntry} {victims : Bytes × Bytes}
  {compilationCount : ℕ} {next : CallerStep} {caller : Caller} {call : CacheCall}

end LogPreparationCache

open LogPreparationCache

/-- Every call that has ended returned or threw what compiling each template on its own does. -/
def Transparent (s : CacheState) : Prop :=
  ∀ thread call result, s.callers thread = .returned call result → result = call.expected

/-- However the calls interleave and whatever is evicted, calls over unambiguous templates do
not see the cache. -/
theorem preparationCache_transparent {U : Set LogTemplate} (hU : Unambiguous U) {s : CacheState}
    (hrun : preparationCache.Steps (CallsWithin U) preparationCache.initial s) : Transparent s := by
  intro thread call result hreturned
  exact expected_of_returned hU hrun hreturned

/-- The segments that a call has prepared; `none` when it threw or prepares nothing. -/
def preparedSegments : Except Bytes CacheResponse → Option (List (List RenderSegment))
  | .ok (.prepared logs) => some (logs.map fun log => log.compiled.segments)
  | _ => none

/-- What a returned caller has prepared, and what it would have without the cache. -/
def outcome : Caller → Option (Option (List (List RenderSegment)) × Option (List (List RenderSegment)))
  | .returned call result => some (preparedSegments result, preparedSegments call.expected)
  | _ => none

/-- One thread that prepares `config`, its call and `steps` steps. -/
def soleCall (config : GeneratorConfig) (steps : ℕ) : List CacheAction :=
  .begin 0 (.prepare config fun _ => 1) :: List.replicate steps (.step 0 ([], []))

def soleOutcome (config : GeneratorConfig) (steps : ℕ) :
    Option (Option (List (List RenderSegment)) × Option (List (List RenderSegment))) :=
  (preparationCache.exec preparationCache.initial (soleCall config steps)).bind fun s =>
    outcome (s.callers 0)

theorem returned_of_outcome {caller : Caller}
    {segments expected : Option (List (List RenderSegment))}
    (h : outcome caller = some (segments, expected)) : ∃ call result,
      caller = .returned call result ∧ preparedSegments result = segments ∧
        preparedSegments call.expected = expected := by
  cases caller with
  | returned call result =>
    cases h
    exact ⟨call, result, rfl, rfl, rfl⟩
  | idle | lookup | insertAlias => cases h

theorem returned_of_soleOutcome {config : GeneratorConfig} {steps : ℕ}
    {segments expected : Option (List (List RenderSegment))}
    (h : soleOutcome config steps = some (segments, expected)) : ∃ s,
      preparationCache.exec preparationCache.initial (soleCall config steps) = some s ∧
      ∃ call result, s.callers 0 = .returned call result ∧ preparedSegments result = segments ∧
        preparedSegments call.expected = expected := by
  obtain ⟨s, hs, houtcome⟩ := Option.bind_eq_some_iff.mp h
  exact ⟨s, hs, returned_of_outcome houtcome⟩

def address : LogTemplate := { sample := bytes "m@n.op" }

/-- The raw and the tokenized form of one template. -/
def bothForms : Set LogTemplate := {address, LogRenderer.tokenizeTemplate address}

def bothFormsConfig : GeneratorConfig where
  templates := [address, LogRenderer.tokenizeTemplate address]

/-- Thread 1 compiles before thread 0 has published, and finds its entry when it publishes. -/
def twoCallers : List CacheAction :=
  .begin 0 (.tokenizeAndCache address) :: .begin 1 (.prepare bothFormsConfig fun _ => 1) ::
    [0, 0, 1, 1, 0, 1, 0, 1, 1, 0, 0].map fun thread => .step thread ([], [])

theorem callsWithin_twoCallers (s : CacheState) :
    ∀ a ∈ twoCallers, CallsWithin bothForms s a := by
  intro a ha
  rcases List.mem_cons.mp ha with rfl | ha
  · intro item hitem
    exact .inl (List.mem_singleton.mp hitem)
  · rcases List.mem_cons.mp ha with rfl | ha
    · intro item hitem
      rcases List.mem_cons.mp hitem with rfl | hitem
      · exact .inl rfl
      · exact .inr (List.mem_singleton.mp hitem)
    · obtain ⟨thread, _, rfl⟩ := List.mem_map.mp ha
      trivial

set_option maxRecDepth 100000 in
theorem unambiguous_bothForms : Unambiguous bothForms := by
  have htokenized : LogRenderer.tokenize (bytes "m@n.op") = bytes "\x7b\x7bEMAIL\x7d\x7d" := by
    decide
  have hkept : LogRenderer.tokenize (bytes "\x7b\x7bEMAIL\x7d\x7d") =
      bytes "\x7b\x7bEMAIL\x7d\x7d" := by decide
  have hvalues : ∀ item ∈ forms bothForms, item.testCase.values = [] := by
    rintro item ((rfl | rfl) | ⟨_, (rfl | rfl), rfl⟩)
    · rfl
    · rfl
    · rfl
    · rfl
  constructor
  · intro item hitem
    refine ⟨?_, ?_⟩
    · rcases hitem with rfl | rfl
      · simp only [address, htokenized, hkept]
      · simp only [LogRenderer.tokenizeTemplate, address, htokenized, hkept]
    · rw [hvalues item (.inl hitem)]
      intro entry hentry
      cases hentry
  · intro a ha b hb _ _
    rw [hvalues a ha, hvalues b hb]

set_option maxRecDepth 100000 in
set_option synthInstance.maxSize 1000 in
/-- One compilation serves both threads and both forms. -/
theorem preparationCache_transparent_twoCallers : Unambiguous bothForms ∧
    ∃ s, preparationCache.exec preparationCache.initial twoCallers = some s ∧
      (∃ call result, s.callers 0 = .returned call result) ∧
      outcome (s.callers 1) = some (some [[.privacy .email], [.privacy .email]],
        some [[.privacy .email], [.privacy .email]]) ∧
      s.compilationCount = 1 ∧ Transparent s := by
  have hrun : (preparationCache.exec preparationCache.initial twoCallers).map (fun s =>
      (outcome (s.callers 0), outcome (s.callers 1), s.compilationCount)) =
      some (some (none, none), some (some [[.privacy .email], [.privacy .email]],
        some [[.privacy .email], [.privacy .email]]), 1) := by decide
  obtain ⟨s, hs, houtcomes⟩ := Option.map_eq_some_iff.mp hrun
  obtain ⟨hfirst, hsecond, hcount⟩ : _ ∧ _ ∧ _ := by simpa only [Prod.mk.injEq] using houtcomes
  obtain ⟨call, result, hreturned, _⟩ := returned_of_outcome hfirst
  refine ⟨unambiguous_bothForms, s, hs, ⟨call, result, hreturned⟩, hsecond, hcount, ?_⟩
  exact preparationCache_transparent unambiguous_bothForms
    (Machine.Steps.of_exec callsWithin_twoCallers hs)

def nestedAddress : LogTemplate := { sample := bytes "a@b.c@d.e" }

def oneToken : LogTemplate where
  sample := bytes "\x7b\x7bA\x7d\x7d"
  testCase :=
    { values := [(bytes "A", [bytes "B"])]
      sorted := by decide }

def twoTokens : LogTemplate where
  sample := bytes "\x7b\x7bA\x7d\x7d"
  testCase :=
    { values := [(bytes "A", []), (bytes "B", [])]
      sorted := by decide }

/-- A value of the one template is a token of the other. -/
theorem cacheKey_collision : ¬ ∀ a b : LogTemplate, KeyIdentifies a b := by
  intro h
  have hkey : cacheKey oneToken = cacheKey twoTokens := by decide
  obtain ⟨-, hvalues⟩ := (h oneToken twoTokens).mp hkey
  exact absurd hvalues (by decide)

theorem not_transparent_of_outcome {config : GeneratorConfig} {steps : ℕ}
    {segments expected : Option (List (List RenderSegment))}
    (h : soleOutcome config steps = some (segments, expected)) (hne : segments ≠ expected) :
    ∃ s, preparationCache.exec preparationCache.initial (soleCall config steps) = some s ∧
      ¬ Transparent s := by
  obtain ⟨s, hs, call, result, hreturned, rfl, rfl⟩ := returned_of_soleOutcome h
  refine ⟨s, hs, fun htransparent => hne ?_⟩
  rw [htransparent 0 call result hreturned]

set_option maxRecDepth 100000 in
/-- The cache tokenizes `{{EMAIL}}@d.e` a second time, which makes it another text; and it takes
a template that is rejected on its own for another one with the same key. -/
theorem preparationCache_not_transparent :
    (¬ ∀ s, preparationCache.Reachable s → Transparent s) ∧
      ∃ s, preparationCache.exec preparationCache.initial
        (soleCall { templates := [oneToken, twoTokens] } 6) = some s ∧ ¬ Transparent s := by
  have hnested : soleOutcome { templates := [nestedAddress] } 5 =
      some (some [[.literal (bytes "\x7b\x7b"), .privacy .email]],
        some [[.privacy .email, .literal (bytes "@d.e")]]) := by decide
  have hshared : soleOutcome { templates := [oneToken, twoTokens] } 6 =
      some (some [[.literal (bytes "B")], [.literal (bytes "B")]], none) := by decide
  obtain ⟨s, hs, hnot⟩ := not_transparent_of_outcome hnested (by decide)
  refine ⟨?_, not_transparent_of_outcome hshared (by decide)⟩
  intro hclaim
  exact hnot (hclaim s (Machine.reachable_of_exec hs))

end Application
end LogGenerator
