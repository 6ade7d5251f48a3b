import LogGenerator.Application.Transport
import LogGenerator.Foundation.Json

/-!
# The JSON catalog

`load` and `save` of the sample catalog. Files are a map from paths to contents; the
JSON library is a parameter, and what the operating system answers during a `save` is
data of the call.
-/

namespace LogGenerator
namespace Domain

open Ascii

/-- `values[token] = values` of the `std::map`. -/
def LogTestCase.set (t : LogTestCase) (token : Bytes) (values : List Bytes) : LogTestCase where
  values := SortedEntries.insert token values t.values
  sorted := SortedEntries.keysAscend_insert token values t.sorted

def validSampleId (value : Bytes) : Bool := value ≠ [] && value.all isDigit

end Domain

namespace Infrastructure

open Ascii Domain Application

abbrev Files := Bytes → Option Bytes

namespace JsonLogCatalog

def catalogError (file message : Bytes) : Failure :=
  .exception (bytes "JSON catalog " ++ file ++ bytes ": " ++ message)

/-- The checks on an item that `load` and `save` both make, after those on its fields. -/
def checkItem (file : Bytes) (identifiers : List Bytes) (item : LogTemplate) :
    Except Failure Unit :=
  if !validSampleId item.id then .error (catalogError file (bytes "id must contain only digits"))
  else if item.name = [] ∨ item.sample = [] then
    .error (catalogError file (bytes "name and sample must not be empty"))
  else if item.id ∈ identifiers then
    .error (catalogError file (bytes "duplicate id '" ++ item.id ++ bytes "'"))
  else .ok ()

def requiredText (value : Json) (key : String) (file : Bytes) : Except Failure Bytes :=
  match value.field? (bytes key) with
  | some (.string text) => .ok text
  | _ => .error (catalogError file (bytes "missing string field '" ++ bytes key ++ bytes "'"))

def readStrings (file : Bytes) : List Json → Except Failure (List Bytes)
  | [] => .ok []
  | .string text :: items => (readStrings file items).map (text :: ·)
  | _ :: _ => .error (catalogError file (bytes "every test_case value must be a string"))

def tokenError (file : Bytes) : Failure :=
  catalogError file (bytes "test_case values must be arrays keyed by token name")

/-- The loop of `read_test_case` over the tokens. -/
def readTokens (file : Bytes) : List (Bytes × Json) → LogTestCase → Except Failure LogTestCase
  | [], result => .ok result
  | (token, .array items) :: rest, result =>
    if token = [] then .error (tokenError file)
    else
      match readStrings file items with
      | .error failure => .error failure
      | .ok values => readTokens file rest (result.set token values)
  | _ :: _, _ => .error (tokenError file)

def readTestCase (value : Json) (file : Bytes) : Except Failure LogTestCase :=
  match value.field? (bytes "test_case") with
  | none => .ok {}
  | some (.object entries) => readTokens file entries {}
  | some _ => .error (catalogError file (bytes "test_case must be an object"))

/-- `value.value("source", std::string{})`. -/
def readSource (value : Json) : Except Failure Bytes :=
  match value.field? (bytes "source") with
  | none => .ok []
  | some source => source.asString.mapError .exception

def readItem (value : Json) (file : Bytes) : Except Failure LogTemplate :=
  match value with
  | .object _ => do
    let id ← requiredText value "id" file
    let name ← requiredText value "name" file
    let sample ← requiredText value "sample" file
    let source ← readSource value
    let testCase ← readTestCase value file
    return { id := id, name := name, sample := sample, source := source, testCase := testCase }
  | _ => .error (catalogError file (bytes "every logs entry must be an object"))

def loadItems (file : Bytes) : List Bytes → List Json → Except Failure (List LogTemplate)
  | _, [] => .ok []
  | identifiers, value :: values => do
    let item ← readItem value file
    checkItem file identifiers item
    let rest ← loadItems file (item.id :: identifiers) values
    return item :: rest

def rootError (file : Bytes) : Failure :=
  catalogError file (bytes "schema_version 1 and a logs array are required")

/-- `root.value("schema_version", 0)`. -/
def schemaVersion (root : Json) : Except Failure ℤ :=
  match root.field? (bytes "schema_version") with
  | none => .ok 0
  | some version => version.asInt.mapError .exception

def loadRoot (file : Bytes) (root : Json) : Except Failure (List LogTemplate) :=
  match root with
  | .object _ => do
    let version ← schemaVersion root
    if version ≠ 1 then .error (rootError file)
    else
      match root.field? (bytes "logs") with
      | some (.array values) => loadItems file [] values
      | _ => .error (rootError file)
  | _ => .error (rootError file)

def load (L : JsonLibrary) (file : Bytes) (files : Files) : Except Failure (List LogTemplate) :=
  match files file with
  | none => .error (catalogError file (bytes "file was not found or could not be opened"))
  | some text =>
    match L.parse text with
    | .error what => .error (catalogError file what)
    | .ok root => loadRoot file root

def testCaseJson (testCase : LogTestCase) : Json :=
  .object (Json.objectOf (testCase.values.map fun entry => (entry.1, .array (entry.2.map .string))))

def itemJson (item : LogTemplate) : Json :=
  let value := Json.objectOf [(bytes "id", .string item.id), (bytes "name", .string item.name),
    (bytes "sample", .string item.sample)]
  let value :=
    if item.source = [] then value
    else SortedEntries.insert (bytes "source") (.string item.source) value
  .object
    (if item.testCase.values = [] then value
    else SortedEntries.insert (bytes "test_case") (testCaseJson item.testCase) value)

/-- The loop of `save` over the items. -/
def savedItems (file : Bytes) : List Bytes → List LogTemplate → Except Failure (List Json)
  | _, [] => .ok []
  | identifiers, item :: items => do
    checkItem file identifiers item
    let rest ← savedItems file (item.id :: identifiers) items
    return itemJson item :: rest

def rootJson (logs : List Json) : Json :=
  .object (Json.objectOf [(bytes "schema_version", .number 1), (bytes "logs", .array logs)])

/-- What the operating system answers during a `save`, in the order of the calls. `writeLimit`
is where writing or flushing fails, when it does; `move` answers each attempt to replace the
file with an error, or with none when it succeeds. -/
structure SaveIo where
  processId : ℕ := 1
  sequence : ℕ := 0
  windows : Bool := false
  parentError : Option Bytes := none
  opened : Bool := true
  writeLimit : Option ℕ := none
  move : ℕ → Option ℕ := fun _ => none
  removed : Bool := true

def temporaryPathFor (file : Bytes) (io : SaveIo) : Bytes :=
  file ++ bytes ".tmp." ++ decimal io.processId ++ bytes "." ++ decimal io.sequence

/-- `ERROR_ACCESS_DENIED`, `ERROR_SHARING_VIOLATION` and `ERROR_LOCK_VIOLATION`. -/
def retryableErrors : List ℕ := [5, 32, 33]

/-- The attempts of the Windows loop from `attempt` on, with `left` more after it. -/
def moveWithRetry (move : ℕ → Option ℕ) (attempt : ℕ) : ℕ → Option ℕ
  | 0 => move attempt
  | left + 1 =>
    match move attempt with
    | none => none
    | some error =>
      if error ∈ retryableErrors then moveWithRetry move (attempt + 1) left else some error

/-- The error of `replace_file_with_retry`, or none when the file was replaced. -/
def replaceFileWithRetry (io : SaveIo) : Option ℕ :=
  if io.windows then moveWithRetry io.move 0 6 else io.move 0

/-- The part of `save` behind the opened temporary file. -/
def replaceWith (L : JsonLibrary) (file : Bytes) (root : Json) (io : SaveIo) (files : Files) :
    Except Failure Unit × Files :=
  let temporary := temporaryPathFor file io
  match L.dump root with
  | .error what => (.error (.exception what), Function.update files temporary (some []))
  | .ok text =>
    let content := text ++ [lf]
    match io.writeLimit with
    | some limit =>
      (.error (catalogError file (bytes "temporary file write failed")),
        Function.update files temporary (some (content.take limit)))
    | none =>
      match replaceFileWithRetry io with
      | none =>
        (.ok (), Function.update (Function.update files temporary none) file (some content))
      | some error =>
        (.error (catalogError file
          (bytes "atomic replacement failed (" ++ decimal error ++ bytes ")")),
          Function.update files temporary (if io.removed then none else some content))

def save (L : JsonLibrary) (file : Bytes) (items : List LogTemplate) (io : SaveIo)
    (files : Files) : Except Failure Unit × Files :=
  match savedItems file [] items with
  | .error failure => (.error failure, files)
  | .ok logs =>
    match io.parentError with
    | some what => (.error (.exception what), files)
    | none =>
      if !io.opened then
        (.error (catalogError file (bytes "temporary file could not be opened")), files)
      else replaceWith L file (rootJson logs) io files

theorem testCaseJson_eq (testCase : LogTestCase) : testCaseJson testCase =
    .object (testCase.values.map fun entry => (entry.1, .array (entry.2.map .string))) := by
  rw [testCaseJson, Json.objectOf_eq]
  exact List.pairwise_map.mpr testCase.sorted

theorem field_itemJson (item : LogTemplate) :
    (itemJson item).field? (bytes "id") = some (.string item.id) ∧
      (itemJson item).field? (bytes "name") = some (.string item.name) ∧
      (itemJson item).field? (bytes "sample") = some (.string item.sample) ∧
      (itemJson item).field? (bytes "source") =
        (if item.source = [] then none else some (.string item.source)) ∧
      (itemJson item).field? (bytes "test_case") =
        if item.testCase.values = [] then none else some (testCaseJson item.testCase) := by
  simp only [itemJson, Json.objectOf, List.foldl_cons, List.foldl_nil, Json.field?_object]
  refine ⟨?_, ?_, ?_, ?_, ?_⟩
  all_goals
    split_ifs
    all_goals
      simp +decide only [SortedEntries.lookup_insert, List.lookup_nil, ↓reduceIte]

theorem readStrings_map (file : Bytes) (values : List Bytes) :
    readStrings file (values.map .string) = .ok values := by
  induction values with
  | nil => rfl
  | cons value values ih =>
    rw [List.map_cons, readStrings, ih]
    rfl

/-- The entries that `testCaseJson` writes for tokens. -/
def tokenEntries (values : List (Bytes × List Bytes)) : List (Bytes × Json) :=
  values.map fun entry => (entry.1, .array (entry.2.map .string))

theorem readTokens_ok (file : Bytes) {values : List (Bytes × List Bytes)}
    (htokens : ∀ entry ∈ values, entry.1 ≠ []) (result : LogTestCase)
    (hsorted : SortedEntries.KeysAscend (result.values ++ values)) :
    readTokens file (tokenEntries values) result =
      .ok { values := result.values ++ values, sorted := hsorted } := by
  induction values generalizing result with
  | nil =>
    simp only [tokenEntries, List.map_nil, readTokens, List.append_nil]
  | cons entry values ih =>
    obtain ⟨hfirst, hrest⟩ := List.forall_mem_cons.mp htokens
    have hbefore : ∀ other ∈ result.values, other.1 < entry.1 := fun other hmem =>
      (List.pairwise_append.mp hsorted).2.2 other hmem entry List.mem_cons_self
    have hset : (result.set entry.1 entry.2).values = result.values ++ [entry] :=
      SortedEntries.insert_of_forall_lt entry.2 hbefore
    have hshift : result.values ++ entry :: values =
        (result.set entry.1 entry.2).values ++ values := by
      rw [hset, List.append_assoc, List.singleton_append]
    rw [tokenEntries, List.map_cons, readTokens, if_neg hfirst, readStrings_map]
    simp only [hshift] at hsorted ⊢
    exact ih hrest _ hsorted

theorem readTokens_error (file : Bytes) {values : List (Bytes × List Bytes)}
    (hempty : ∃ entry ∈ values, entry.1 = []) (result : LogTestCase) :
    readTokens file (tokenEntries values) result = .error (tokenError file) := by
  induction values generalizing result with
  | nil =>
    obtain ⟨entry, hmem, -⟩ := hempty
    cases hmem
  | cons entry values ih =>
    rw [tokenEntries, List.map_cons, readTokens]
    split_ifs with hfirst
    · rfl
    · rw [readStrings_map]
      obtain ⟨other, hmem, hother⟩ := hempty
      rcases List.mem_cons.mp hmem with rfl | hmem
      · exact absurd hother hfirst
      · exact ih ⟨other, hmem, hother⟩ _

/-- Every token has a name. -/
def TokensNamed (item : LogTemplate) : Prop := ∀ entry ∈ item.testCase.values, entry.1 ≠ []

instance (item : LogTemplate) : Decidable (TokensNamed item) := by
  unfold TokensNamed
  infer_instance

theorem readTestCase_itemJson (file : Bytes) (item : LogTemplate) :
    readTestCase (itemJson item) file =
      if TokensNamed item then .ok item.testCase else .error (tokenError file) := by
  rw [readTestCase, (field_itemJson item).2.2.2.2]
  by_cases hnone : item.testCase.values = []
  · have hnamed : TokensNamed item := by
      intro entry hmem
      rw [hnone] at hmem
      cases hmem
    rw [if_pos hnone, if_pos hnamed]
    cases hcase : item.testCase with
    | mk values sorted =>
      rw [hcase] at hnone
      cases hnone
      rfl
  · rw [if_neg hnone, testCaseJson_eq]
    change readTokens file (tokenEntries item.testCase.values) {} = _
    split_ifs with hnamed
    · exact readTokens_ok file hnamed {} item.testCase.sorted
    · unfold TokensNamed at hnamed
      push Not at hnamed
      exact readTokens_error file hnamed {}

theorem readItem_itemJson (file : Bytes) (item : LogTemplate) :
    readItem (itemJson item) file =
      if TokensNamed item then .ok item else .error (tokenError file) := by
  obtain ⟨hid, hname, hsample, hsource, -⟩ := field_itemJson item
  have hreadSource : readSource (itemJson item) = .ok item.source := by
    rw [readSource, hsource]
    split_ifs with hempty
    · rw [hempty]
    · rfl
  have htest := readTestCase_itemJson file item
  simp only [readItem, itemJson] at hid hname hsample htest hreadSource ⊢
  simp only [requiredText, hid, hname, hsample, hreadSource, htest, bind, Except.bind]
  split_ifs
  · rfl
  · rfl

theorem savedItems_cons {file : Bytes} {identifiers : List Bytes} {item : LogTemplate}
    {items : List LogTemplate} {logs : List Json}
    (h : savedItems file identifiers (item :: items) = .ok logs) :
    checkItem file identifiers item = .ok () ∧ ∃ rest,
      savedItems file (item.id :: identifiers) items = .ok rest ∧ logs = itemJson item :: rest := by
  rw [savedItems] at h
  cases hcheck : checkItem file identifiers item with
  | error failure =>
    rw [hcheck] at h
    cases h
  | ok u =>
    rw [hcheck] at h
    cases hrest : savedItems file (item.id :: identifiers) items with
    | error failure =>
      simp only [bind, Except.bind, hrest] at h
      cases h
    | ok rest =>
      simp only [bind, Except.bind, hrest] at h
      cases h
      exact ⟨rfl, rest, rfl, rfl⟩

theorem savedItems_eq {file : Bytes} {identifiers : List Bytes} {items : List LogTemplate}
    {logs : List Json} (h : savedItems file identifiers items = .ok logs) :
    logs = items.map itemJson := by
  induction items generalizing identifiers logs with
  | nil =>
    cases h
    rfl
  | cons item items ih =>
    obtain ⟨-, rest, hrest, rfl⟩ := savedItems_cons h
    rw [List.map_cons, ih hrest]

/-- Of what the checks have let pass, only a token without a name is not read back. -/
theorem loadItems_savedItems {file : Bytes} {identifiers : List Bytes} {items : List LogTemplate}
    {logs : List Json} (h : savedItems file identifiers items = .ok logs) :
    loadItems file identifiers logs = .ok items ↔ ∀ item ∈ items, TokensNamed item := by
  induction items generalizing identifiers logs with
  | nil =>
    cases h
    simp [loadItems]
  | cons item items ih =>
    obtain ⟨hcheck, rest, hrest, rfl⟩ := savedItems_cons h
    rw [loadItems, readItem_itemJson, List.forall_mem_cons]
    by_cases hnamed : TokensNamed item
    · rw [if_pos hnamed, and_iff_right hnamed, ← ih hrest]
      simp only [bind, Except.bind, hcheck]
      cases loadItems file (item.id :: identifiers) rest with
      | error failure => simp
      | ok loaded => simp [pure, Except.pure]
    · rw [if_neg hnamed]
      simp only [bind, Except.bind, hnamed, false_and, iff_false]
      exact nofun

theorem loadRoot_rootJson (file : Bytes) (logs : List Json) :
    loadRoot file (rootJson logs) = loadItems file [] logs := by
  have hversion : (rootJson logs).field? (bytes "schema_version") = some (.number 1) := by
    simp +decide only [rootJson, Json.objectOf, List.foldl_cons, List.foldl_nil, Json.field?_object,
      SortedEntries.lookup_insert, ↓reduceIte]
  have hlogs : (rootJson logs).field? (bytes "logs") = some (.array logs) := by
    simp only [rootJson, Json.objectOf, List.foldl_cons, List.foldl_nil, Json.field?_object,
      SortedEntries.lookup_insert, ↓reduceIte]
  simp only [rootJson] at hversion hlogs ⊢
  rw [loadRoot, schemaVersion, hversion, hlogs]
  rfl

theorem itemJson_eq (item : LogTemplate) : itemJson item =
    .object ([(bytes "id", .string item.id), (bytes "name", .string item.name),
      (bytes "sample", .string item.sample)] ++
      (if item.source = [] then [] else [(bytes "source", .string item.source)]) ++
      if item.testCase.values = [] then [] else [(bytes "test_case", testCaseJson item.testCase)]) := by
  unfold itemJson Json.objectOf
  split_ifs
  all_goals
    simp +decide only [List.foldl_cons, List.foldl_nil, SortedEntries.insert, ↓reduceIte,
      List.append_nil, List.cons_append, List.nil_append]

theorem rootJson_eq (logs : List Json) : rootJson logs =
    .object [(bytes "logs", .array logs), (bytes "schema_version", .number 1)] := by
  simp +decide only [rootJson, Json.objectOf, List.foldl_cons, List.foldl_nil, SortedEntries.insert,
    ↓reduceIte]

theorem isValue_testCaseJson (testCase : LogTestCase) : (testCaseJson testCase).IsValue := by
  refine Json.isValue_objectOf ?_
  intro entry hmem
  obtain ⟨values, -, rfl⟩ := List.mem_map.mp hmem
  refine .array ?_
  intro item hitem
  obtain ⟨text, -, rfl⟩ := List.mem_map.mp hitem
  exact .string text

theorem isValue_itemJson (item : LogTemplate) : (itemJson item).IsValue := by
  have hrequired : (Json.object (Json.objectOf [(bytes "id", .string item.id),
      (bytes "name", .string item.name), (bytes "sample", .string item.sample)])).IsValue := by
    refine Json.isValue_objectOf ?_
    simp only [List.forall_mem_cons, List.not_mem_nil, false_implies, implies_true, and_true]
    exact ⟨.string _, .string _, .string _⟩
  have htestCase := isValue_testCaseJson item.testCase
  unfold itemJson
  split_ifs
  · exact hrequired
  · exact Json.isValue_insert hrequired _ htestCase
  · exact Json.isValue_insert hrequired _ (.string _)
  · exact Json.isValue_insert (Json.isValue_insert hrequired _ (.string _)) _ htestCase

theorem isValue_rootJson (items : List LogTemplate) :
    (rootJson (items.map itemJson)).IsValue := by
  refine Json.isValue_objectOf ?_
  simp only [List.forall_mem_cons, List.not_mem_nil, false_implies, implies_true, and_true]
  refine ⟨.number 1, .array ?_⟩
  intro value hmem
  obtain ⟨item, -, rfl⟩ := List.mem_map.mp hmem
  exact isValue_itemJson item

/-- The texts of an item, the tokens of its test case among them. -/
def itemTexts (item : LogTemplate) : List Bytes :=
  [item.id, item.name, item.sample, item.source] ++
    item.testCase.values.flatMap fun entry => entry.1 :: entry.2

theorem texts_testCaseJson (testCase : LogTestCase) :
    (testCaseJson testCase).texts = testCase.values.flatMap fun entry => entry.1 :: entry.2 := by
  have htexts (values : List Bytes) : (values.map Json.string).flatMap Json.texts = values := by
    simp [List.flatMap_map]
  simp [testCaseJson_eq, List.flatMap_map, htexts]

theorem validUtf8_itemJson (item : LogTemplate) :
    (itemJson item).ValidUtf8 ↔ ∀ text ∈ itemTexts item, validUtf8 text = true := by
  have hkeys : validUtf8 (bytes "id") = true ∧ validUtf8 (bytes "name") = true ∧
      validUtf8 (bytes "sample") = true ∧ validUtf8 (bytes "source") = true ∧
      validUtf8 (bytes "test_case") = true := by decide
  obtain ⟨hid, hname, hsample, hsource, htest⟩ := hkeys
  have hempty : validUtf8 [] = true := rfl
  unfold Json.ValidUtf8
  rw [itemJson_eq, itemTexts]
  split_ifs with hnoSource hnoTest hnoTest
  all_goals
    simp only [Json.texts_object, Json.texts_string, texts_testCaseJson, List.flatMap_append,
      List.flatMap_cons, List.flatMap_nil, List.forall_mem_append, List.forall_mem_cons,
      List.not_mem_nil, false_implies, implies_true, true_and, and_true, and_assoc, *]

theorem validUtf8_rootJson (items : List LogTemplate) : (rootJson (items.map itemJson)).ValidUtf8 ↔
    ∀ item ∈ items, ∀ text ∈ itemTexts item, validUtf8 text = true := by
  have hlogs : validUtf8 (bytes "logs") = true := by decide
  have hversion : validUtf8 (bytes "schema_version") = true := by decide
  simp only [← validUtf8_itemJson]
  simp only [Json.ValidUtf8, rootJson_eq, Json.texts_object, Json.texts_array, Json.texts_number,
    List.flatMap_cons, List.flatMap_nil, List.append_nil, List.forall_mem_append,
    List.forall_mem_cons, List.not_mem_nil, false_implies, implies_true, and_true, hlogs, hversion,
    true_and, List.mem_flatMap, List.mem_map, forall_exists_index, and_imp,
    forall_apply_eq_imp_iff₂]
  exact ⟨fun h item hmem text htext => h text item hmem htext,
    fun h text item hmem htext => h item hmem text htext⟩

/-- What the checks of `save` ask for. -/
structure ValidItems (items : List LogTemplate) : Prop where
  valid : ∀ item ∈ items, validSampleId item.id = true ∧ item.name ≠ [] ∧ item.sample ≠ []
  nodup : (items.map LogTemplate.id).Nodup

theorem checkItem_iff {file : Bytes} {identifiers : List Bytes} {item : LogTemplate} :
    checkItem file identifiers item = .ok () ↔
      (validSampleId item.id = true ∧ item.name ≠ [] ∧ item.sample ≠ []) ∧
        item.id ∉ identifiers := by
  unfold checkItem
  split_ifs with hid hempty hmem
  · simp_all
  · simp only [false_iff]
    rintro ⟨⟨-, hname, hsample⟩, -⟩
    exact hempty.elim hname hsample
  · simp [hmem]
  · push Not at hempty
    simp_all

theorem savedItems_iff (file : Bytes) (identifiers : List Bytes) {items : List LogTemplate} :
    (∃ logs, savedItems file identifiers items = .ok logs) ↔
      ValidItems items ∧ ∀ item ∈ items, item.id ∉ identifiers := by
  induction items generalizing identifiers with
  | nil =>
    have hvalid : ValidItems [] := ⟨nofun, List.nodup_nil⟩
    simp [savedItems, hvalid]
  | cons item items ih =>
    have hstep : (∃ logs, savedItems file identifiers (item :: items) = .ok logs) ↔
        checkItem file identifiers item = .ok () ∧
          ∃ rest, savedItems file (item.id :: identifiers) items = .ok rest := by
      constructor
      · rintro ⟨logs, h⟩
        obtain ⟨hcheck, rest, hrest, -⟩ := savedItems_cons h
        exact ⟨hcheck, rest, hrest⟩
      · rintro ⟨hcheck, rest, hrest⟩
        refine ⟨itemJson item :: rest, ?_⟩
        simp [savedItems, hcheck, hrest, bind, Except.bind, pure, Except.pure]
    rw [hstep, ih, checkItem_iff]
    constructor
    · rintro ⟨⟨hitem, hfresh⟩, ⟨hvalid, hnodup⟩, hrest⟩
      refine ⟨⟨List.forall_mem_cons.mpr ⟨hitem, hvalid⟩, ?_⟩, List.forall_mem_cons.mpr ⟨hfresh, ?_⟩⟩
      · rw [List.map_cons, List.nodup_cons]
        refine ⟨?_, hnodup⟩
        intro hmem
        obtain ⟨other, hother, heq⟩ := List.mem_map.mp hmem
        exact hrest other hother (heq ▸ List.mem_cons_self)
      · exact fun other hmem => fun h => hrest other hmem (List.mem_cons_of_mem _ h)
    · rintro ⟨⟨hvalid, hnodup⟩, hfresh⟩
      obtain ⟨hitem, hvalid⟩ := List.forall_mem_cons.mp hvalid
      obtain ⟨hfirst, hfresh⟩ := List.forall_mem_cons.mp hfresh
      rw [List.map_cons, List.nodup_cons] at hnodup
      refine ⟨⟨hitem, hfirst⟩, ⟨hvalid, hnodup.2⟩, ?_⟩
      intro other hmem hbad
      rcases List.mem_cons.mp hbad with heq | hbad
      · exact hnodup.1 (heq ▸ List.mem_map_of_mem hmem)
      · exact hfresh other hmem hbad

/-- A file does not have the name of its temporary file. -/
theorem temporaryPathFor_ne (file : Bytes) (io : SaveIo) : file ≠ temporaryPathFor file io := by
  intro h
  have hlength := congrArg List.length h
  have hsuffix : (bytes ".tmp.").length = 5 := by decide
  simp only [temporaryPathFor, List.length_append, hsuffix] at hlength
  omega

/-- Whether the temporary file is opened. -/
def Begins (items : List LogTemplate) (io : SaveIo) : Prop :=
  ValidItems items ∧ io.parentError = none ∧ io.opened = true

variable (L : JsonLibrary) (file : Bytes) {items : List LogTemplate} {io : SaveIo}

theorem save_of_begins (h : Begins items io) (before : Files) :
    save L file items io before = replaceWith L file (rootJson (items.map itemJson)) io before := by
  obtain ⟨hvalid, hparent, hopened⟩ := h
  obtain ⟨logs, hlogs⟩ := (savedItems_iff file []).mpr ⟨hvalid, fun _ _ => List.not_mem_nil⟩
  rw [save, hlogs, ← savedItems_eq hlogs]
  simp [hparent, hopened]

theorem save_of_not_begins (h : ¬ Begins items io) (before : Files) :
    ∃ failure, save L file items io before = (.error failure, before) := by
  unfold save
  split
  · next failure _ => exact ⟨failure, rfl⟩
  · next logs hlogs =>
    have hvalid := ((savedItems_iff file []).mp ⟨logs, hlogs⟩).1
    split
    · exact ⟨_, rfl⟩
    · next hparent =>
      have hopened : io.opened = false := by
        by_contra hopened
        exact h ⟨hvalid, hparent, by simpa using hopened⟩
      simp only [hopened, Bool.not_false, ↓reduceIte]
      exact ⟨_, rfl⟩

/-- A returned `save` has written the items to the file, and nothing is left beside it. -/
theorem save_ok {L : JsonLibrary} {file : Bytes} {before after : Files}
    (h : save L file items io before = (.ok (), after)) :
    ValidItems items ∧ ∃ text, L.dump (rootJson (items.map itemJson)) = .ok text ∧
      after = Function.update (Function.update before (temporaryPathFor file io) none) file
        (some (text ++ [lf])) := by
  by_cases hbegins : Begins items io
  · refine ⟨hbegins.1, ?_⟩
    rw [save_of_begins L file hbegins, replaceWith] at h
    split at h
    · cases h
    · next text htext =>
      split at h
      · cases h
      · split at h
        · cases h
          exact ⟨text, htext, rfl⟩
        · cases h
  · obtain ⟨failure, hfailure⟩ := save_of_not_begins L file hbegins before
    rw [hfailure] at h
    cases h

/-- What a `save` has written is loaded again, unless a token has no name. -/
theorem load_save {L : JsonLibrary} {file : Bytes} {before after : Files}
    (hlaw : L.LawfulAt (rootJson (items.map itemJson)))
    (h : save L file items io before = (.ok (), after)) :
    load L file after = .ok items ↔ ∀ item ∈ items, TokensNamed item := by
  obtain ⟨hvalid, text, htext, rfl⟩ := save_ok h
  obtain ⟨logs, hlogs⟩ := (savedItems_iff file []).mpr ⟨hvalid, fun _ _ => List.not_mem_nil⟩
  have hparse := hlaw.parse_dump text (isValue_rootJson items) htext
  rw [load, Function.update_self]
  simp only [hparse, loadRoot_rootJson]
  rw [← savedItems_eq hlogs]
  exact loadItems_savedItems hlogs

/-- The library as it acts on one value with the given text. -/
def writtenAs (root : Json) (text : Bytes) : JsonLibrary where
  dump _ := .ok text
  parse input := if input = text ++ [lf] then .ok root else .error (bytes "parse error")

theorem lawfulAt_writtenAs {root : Json} (text : Bytes) (h : root.ValidUtf8) :
    (writtenAs root text).LawfulAt root where
  dump_iff _ := ⟨fun _ => h, fun _ => ⟨text, rfl⟩⟩
  parse_dump written _ hwritten := by
    cases hwritten
    exact if_pos rfl

/-- A catalog of one item, whose token has no values. -/
def oneToken (token : Bytes) : List LogTemplate :=
  [{ id := bytes "1", name := bytes "n", sample := bytes "s"
     testCase := { values := [(token, [])], sorted := List.pairwise_singleton _ _ } }]

/-- The written form of `oneToken`. -/
def oneTokenText (token : Bytes) : Bytes :=
  bytes "\x7b\n  \"logs\": [\n    \x7b\n      \"id\": \"1\",\n      \"name\": \"n\",\n" ++
    bytes "      \"sample\": \"s\",\n      \"test_case\": \x7b\n        \"" ++ token ++
    bytes "\": []\n      \x7d\n    \x7d\n  ],\n  \"schema_version\": 1\n\x7d"

theorem lawfulAt_oneToken {token : Bytes} (h : validUtf8 token = true) :
    (writtenAs (rootJson ((oneToken token).map itemJson)) (oneTokenText token)).LawfulAt
      (rootJson ((oneToken token).map itemJson)) := by
  refine lawfulAt_writtenAs _ ((validUtf8_rootJson _).mpr ?_)
  have hid : validUtf8 (bytes "1") = true := by decide
  have hname : validUtf8 (bytes "n") = true := by decide
  have hsample : validUtf8 (bytes "s") = true := by decide
  have hsource : validUtf8 [] = true := rfl
  simp [oneToken, itemTexts, hid, hname, hsample, hsource, h]

theorem load_save_oneToken :
    load (writtenAs (rootJson ((oneToken (bytes "T")).map itemJson)) (oneTokenText (bytes "T")))
        (bytes "logs.json")
        (save (writtenAs (rootJson ((oneToken (bytes "T")).map itemJson)) (oneTokenText (bytes "T")))
          (bytes "logs.json") (oneToken (bytes "T")) {} fun _ => none).2 =
      .ok (oneToken (bytes "T")) := by
  have hsaved : (save (writtenAs (rootJson ((oneToken (bytes "T")).map itemJson))
      (oneTokenText (bytes "T"))) (bytes "logs.json") (oneToken (bytes "T")) {}
      fun _ => none).1 = .ok () := rfl
  exact (load_save (lawfulAt_oneToken (by decide)) (Prod.ext hsaved rfl)).mpr (by decide)

/-- A token without a name is written and then refused. -/
theorem load_save_emptyToken : ¬ ∀ (L : JsonLibrary) (file : Bytes) (items : List LogTemplate)
    (io : SaveIo) (before after : Files), L.LawfulAt (rootJson (items.map itemJson)) →
    save L file items io before = (.ok (), after) → load L file after = .ok items := by
  intro h
  have hlogs : savedItems (bytes "logs.json") [] (oneToken []) =
      .ok ((oneToken []).map itemJson) := rfl
  have hload := h _ (bytes "logs.json") (oneToken []) {} (fun _ => none) _
    (lawfulAt_oneToken rfl) rfl
  rw [load, Function.update_self] at hload
  simp only [writtenAs, ↓reduceIte, loadRoot_rootJson] at hload
  exact absurd ((loadItems_savedItems hlogs).mp hload) (by decide)

/-- The files after a `save`: the whole new text, or what was there before, and in both cases
no temporary file of this call. -/
def LeavesClean (L : JsonLibrary) (file : Bytes) (items : List LogTemplate) (io : SaveIo)
    (before : Files) : Prop :=
  let (result, after) := save L file items io before
  let temporary := temporaryPathFor file io
  (∀ path, path ≠ file → path ≠ temporary → after path = before path) ∧
    match result with
    | .ok () =>
      after temporary = none ∧ ∃ text, L.dump (rootJson (items.map itemJson)) = .ok text ∧
        after file = some (text ++ [lf])
    | .error _ => after file = before file ∧ (after temporary = none ∨ after = before)

/-- Once the temporary file is open, it gets its whole content. -/
def Writable (items : List LogTemplate) (io : SaveIo) : Prop :=
  Begins items io →
    (∀ item ∈ items, ∀ text ∈ itemTexts item, validUtf8 text = true) ∧ io.writeLimit = none

theorem leavesClean_of_writable {L : JsonLibrary} {file : Bytes} (before : Files)
    (hlaw : L.LawfulAt (rootJson (items.map itemJson))) (hremoved : io.removed = true)
    (h : Writable items io) : LeavesClean L file items io before := by
  have hne := temporaryPathFor_ne file io
  by_cases hbegins : Begins items io
  · obtain ⟨hvalid, hlimit⟩ := h hbegins
    obtain ⟨text, htext⟩ := (hlaw.dump_iff (isValue_rootJson items)).mpr
      ((validUtf8_rootJson items).mpr hvalid)
    rw [LeavesClean, save_of_begins L file hbegins, replaceWith, htext, hlimit]
    cases replaceFileWithRetry io with
    | none =>
      refine ⟨?_, ?_, text, rfl, Function.update_self ..⟩
      · intro path hfile htemporary
        rw [Function.update_of_ne hfile, Function.update_of_ne htemporary]
      · rw [Function.update_of_ne hne.symm, Function.update_self]
    | some error =>
      simp only [hremoved, ↓reduceIte]
      refine ⟨?_, ?_, .inl (Function.update_self ..)⟩
      · exact fun path _ htemporary => Function.update_of_ne htemporary _ _
      · exact Function.update_of_ne hne _ _
  · obtain ⟨failure, hfailure⟩ := save_of_not_begins L file hbegins before
    rw [LeavesClean, hfailure]
    exact ⟨fun _ _ _ => rfl, rfl, .inr rfl⟩

/-- A text that is not written whole stays behind in the temporary file. -/
theorem writable_of_leavesClean {L : JsonLibrary} {file : Bytes} {before : Files}
    (hlaw : L.LawfulAt (rootJson (items.map itemJson)))
    (hfresh : before (temporaryPathFor file io) = none)
    (h : LeavesClean L file items io before) : Writable items io := by
  intro hbegins
  rw [LeavesClean, save_of_begins L file hbegins, replaceWith] at h
  have hstays (content : Bytes) (hclean : Function.update before (temporaryPathFor file io)
      (some content) (temporaryPathFor file io) = none ∨
      Function.update before (temporaryPathFor file io) (some content) = before) : False := by
    rcases hclean with hnone | hsame
    · rw [Function.update_self] at hnone
      cases hnone
    · have := congrFun hsame (temporaryPathFor file io)
      rw [Function.update_self, hfresh] at this
      cases this
  cases htext : L.dump (rootJson (items.map itemJson)) with
  | error what =>
    rw [htext] at h
    exact (hstays [] h.2.2).elim
  | ok text =>
    rw [htext] at h
    refine ⟨(validUtf8_rootJson items).mp ((hlaw.dump_iff (isValue_rootJson items)).mp ⟨text, htext⟩),
      ?_⟩
    cases hlimit : io.writeLimit with
    | none => rfl
    | some limit =>
      rw [hlimit] at h
      exact (hstays _ h.2.2).elim

theorem save_leavesClean {L : JsonLibrary} {file : Bytes} (before : Files)
    (hlaw : L.LawfulAt (rootJson (items.map itemJson))) (hremoved : io.removed = true) :
    (Writable items io → LeavesClean L file items io before) ∧
      (before (temporaryPathFor file io) = none → LeavesClean L file items io before →
        Writable items io) :=
  ⟨leavesClean_of_writable before hlaw hremoved, writable_of_leavesClean hlaw⟩

theorem save_leavesClean_oneToken :
    LeavesClean (writtenAs (rootJson ((oneToken (bytes "T")).map itemJson))
      (oneTokenText (bytes "T"))) (bytes "logs.json") (oneToken (bytes "T"))
      { move := fun _ => some 13 } fun _ => none :=
  (save_leavesClean _ (lawfulAt_oneToken (by decide)) rfl).1 fun _ => ⟨by decide, rfl⟩

/-- The library as it refuses a text that is not UTF-8. -/
def refusesText : JsonLibrary where
  dump _ := .error (bytes "[json.exception.type_error.316] invalid UTF-8 byte at index 0: 0xFF")
  parse _ := .error (bytes "parse error")

/-- A catalog of one item, whose name is not UTF-8. -/
def invalidName : List LogTemplate :=
  [{ id := bytes "1", name := [0xFF], sample := bytes "s" }]

/-- A name that is not UTF-8 leaves an empty temporary file. -/
theorem save_leavesTemporary : ¬ ∀ (L : JsonLibrary) (file : Bytes) (items : List LogTemplate)
    (io : SaveIo) (before : Files), L.LawfulAt (rootJson (items.map itemJson)) →
    io.removed = true → before (temporaryPathFor file io) = none →
    LeavesClean L file items io before := by
  intro h
  have hinvalid : ¬ ∀ item ∈ invalidName, ∀ text ∈ itemTexts item, validUtf8 text = true := by
    intro hvalid
    exact absurd (hvalid _ List.mem_cons_self [0xFF] (.tail _ (.head _))) (by decide)
  have hlaw : refusesText.LawfulAt (rootJson (invalidName.map itemJson)) :=
    { dump_iff := fun _ => ⟨nofun, fun hvalid => absurd ((validUtf8_rootJson _).mp hvalid) hinvalid⟩
      parse_dump := nofun }
  have hbegins : Begins invalidName {} :=
    ⟨⟨by decide, List.nodup_singleton _⟩, rfl, rfl⟩
  have hclean := h refusesText (bytes "logs.json") invalidName {} (fun _ => none) hlaw rfl rfl
  exact hinvalid (writable_of_leavesClean hlaw rfl hclean hbegins).1

end JsonLogCatalog
end Infrastructure
end LogGenerator
