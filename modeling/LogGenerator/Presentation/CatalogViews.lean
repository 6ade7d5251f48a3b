import LogGenerator.Application.SampleLogImportService

/-!
# The views of the catalog

The items, their search texts, previews and analyses stand in four lists of their own,
with a list of the indices that the search has found and the index selected. A row is
what one index shows in all of them; the lists are the columns of one list of rows.
-/

namespace LogGenerator

open Ascii

namespace Application

/-- `PrivacyAnonymizer::search_terms`. -/
def PrivacyAnonymizer.searchTerms : PrivacyTokenKind → Bytes
  | .person => bytes "person name user_name user_nm emp_nm 성명 이름 사람"
  | .store => bytes "store branch shop site str_nm 점포 지점 매장 호점"
  | .storeCode =>
    bytes "store_code branch_code site_num str_cd bizpl_cd 점포코드 매장코드 지점코드"
  | .userId => bytes "user account login id 계정 사용자 아이디"
  | .employeeId => bytes "employee emp employee_id emp_no 사번 임직원"
  | .department => bytes "department dept team group 부서 조직 팀 파트"
  | .organization => bytes "organization company corporate org 회사 법인"
  | .email => bytes "email e-mail mail 이메일 메일"
  | .phone => bytes "phone mobile telephone tel 전화 휴대폰 연락처"
  | .address => bytes "address postal zip 주소 우편번호"
  | .ipAddress => bytes "ip address network 아이피 네트워크"
  | .macAddress => bytes "mac address hardware 맥주소 하드웨어"
  | .host => bytes "host hostname device terminal server 호스트 장비 단말 서버"
  | .identifier => bytes "identifier uuid guid session 개인식별 식별자 세션"
  | .secret => bytes "secret password token key credential 비밀번호 비밀 인증"
  | .filePath => bytes "file path filename directory 파일 경로 폴더"
  | .none => []

/-- `LogCatalogService::privacy_search_terms`. -/
def LogCatalogService.privacySearchTerms (analysis : LogTemplateAnalysis) : Bytes :=
  privacyTokenKinds.foldl (fun result kind =>
    if analysis.privacyTokenMask &&& privacyTokenBit kind = 0 then result
    else
      (if result = [] then [] else result ++ [space]) ++ PrivacyAnonymizer.searchTerms kind) []

end Application

namespace Presentation

open Domain Application

def lowercase (value : Bytes) : Bytes := value.map toLower

def samplePreview (sample : Bytes) : Bytes :=
  let length := min sample.length 180
  sample.take length ++ if length < sample.length then bytes "..." else []

def catalogSearchText (item : LogTemplate) (privacySearchTerms : Bytes) : Bytes :=
  lowercase (item.name ++ [space] ++ item.source ++ [space] ++ item.sample ++
    (item.testCase.values.flatMap fun (token, values) =>
      space :: token ++ values.flatMap fun value => space :: value) ++
    if privacySearchTerms = [] then [] else space :: privacySearchTerms)

structure CatalogLoadResult where
  items : List LogTemplate := []
  searchNames : List Bytes := []
  previews : List Bytes := []
  analyses : List LogTemplateAnalysis := []
  error : Bytes := []
  selectedIndex : Option ℕ := none
  replaceItems : Bool := true

structure CatalogViews where
  items : List LogTemplate := []
  searchNames : List Bytes := []
  previews : List Bytes := []
  analyses : List LogTemplateAnalysis := []
  filteredIndices : List ℕ := []
  selectedLog : ℕ := 0
  rotateFiltered : Bool := true
  search : Bytes := []

namespace CatalogViews

def rebuildFilter (v : CatalogViews) : CatalogViews :=
  let query := lowercase v.search
  let filtered := (List.range v.items.length).filter fun index =>
    query = [] ∨ (v.searchNames[index]?).any fun name => contains name query
  { v with
    filteredIndices := filtered
    selectedLog :=
      match filtered with
      | [] => v.selectedLog
      | first :: _ => if v.selectedLog ∈ filtered then v.selectedLog else first }

/-- `apply_catalog_result` from the place where it has taken the result. -/
def applyCatalogResult (result : CatalogLoadResult) (v : CatalogViews) : CatalogViews :=
  if result.error ≠ [] then v
  else if !result.replaceItems then v
  else
    let last := min v.selectedLog (if result.items = [] then 0 else result.items.length - 1)
    rebuildFilter { v with
      items := result.items
      searchNames := result.searchNames
      previews := result.previews
      analyses := result.analyses
      selectedLog :=
        match result.selectedIndex with
        | some index => if index < result.items.length then index else last
        | none => last }

/-- What `save_catalog_editor` does to the lists with a new item. -/
def pushItem (item : LogTemplate) (analysis : LogTemplateAnalysis) (v : CatalogViews) :
    CatalogViews :=
  rebuildFilter { v with
    items := v.items ++ [item]
    searchNames := v.searchNames ++
      [catalogSearchText item (LogCatalogService.privacySearchTerms analysis)]
    previews := v.previews ++ [samplePreview item.sample]
    analyses := v.analyses ++ [analysis]
    selectedLog := v.items.length }

/-- What `save_catalog_editor` does to the lists with an item they have. -/
def replaceItem (index : ℕ) (item : LogTemplate) (analysis : LogTemplateAnalysis)
    (v : CatalogViews) : CatalogViews :=
  rebuildFilter (if index < v.items.length then
    { v with
      items := v.items.set index item
      searchNames := v.searchNames.set index
        (catalogSearchText item (LogCatalogService.privacySearchTerms analysis))
      previews := v.previews.set index (samplePreview item.sample)
      analyses := v.analyses.set index analysis
      selectedLog := index }
  else v)

/-- What `delete_selected_catalog_item` does to the lists. -/
def eraseItem (index : ℕ) (v : CatalogViews) : CatalogViews :=
  let items := v.items.eraseIdx index
  rebuildFilter { v with
    items := items
    searchNames := v.searchNames.eraseIdx index
    previews := v.previews.eraseIdx index
    analyses := v.analyses.eraseIdx index
    selectedLog := if items = [] then 0 else min index (items.length - 1) }

def visibleCatalogIndex (v : CatalogViews) : ℕ :=
  if v.items = [] then 0
  else
    match v.rotateFiltered, v.filteredIndices with
    | true, first :: _ => first
    | _, _ => min v.selectedLog (v.items.length - 1)

/-- The templates that `start_test` hands on; `none` when it reads behind the list. -/
def startTemplates (v : CatalogViews) : Option (List LogTemplate) :=
  if v.rotateFiltered then v.filteredIndices.mapM fun index => v.items[index]?
  else (v.items[v.selectedLog]?).map fun item => [item]

end CatalogViews

/-- The analysis is what `tokenize` has answered for the item, or for one that became
the item. -/
def Analysed (Answers : LogTemplate → LogTemplateAnalysis → Prop) (item : LogTemplate)
    (analysis : LogTemplateAnalysis) : Prop :=
  ∃ given, Answers given analysis ∧
    (given = item ∨ item.sample = (LogRenderer.tokenizeTemplate given).sample ∧
      item.testCase = (LogRenderer.tokenizeTemplate given).testCase)

structure CatalogRow (Answers : LogTemplate → LogTemplateAnalysis → Prop) where
  item : LogTemplate
  analysis : LogTemplateAnalysis
  analysed : Analysed Answers item analysis

variable {Answers : LogTemplate → LogTemplateAnalysis → Prop}

namespace CatalogRow

def searchText (row : CatalogRow Answers) : Bytes :=
  catalogSearchText row.item (LogCatalogService.privacySearchTerms row.analysis)

def preview (row : CatalogRow Answers) : Bytes := samplePreview row.item.sample

def matchesQuery (search : Bytes) (row : CatalogRow Answers) : Bool :=
  contains row.searchText (lowercase search)

end CatalogRow

/-- The four lists of a result are the columns of the rows. -/
structure CatalogLoadResult.Lists (result : CatalogLoadResult) (rows : List (CatalogRow Answers)) :
    Prop where
  items : result.items = rows.map CatalogRow.item
  searchNames : result.searchNames = rows.map CatalogRow.searchText
  previews : result.previews = rows.map CatalogRow.preview
  analyses : result.analyses = rows.map CatalogRow.analysis

namespace CatalogViews

variable {v : CatalogViews} {rows : List (CatalogRow Answers)}

/-- The four lists are the columns of the rows. -/
structure Lists (v : CatalogViews) (rows : List (CatalogRow Answers)) : Prop where
  items : v.items = rows.map CatalogRow.item
  searchNames : v.searchNames = rows.map CatalogRow.searchText
  previews : v.previews = rows.map CatalogRow.preview
  analyses : v.analyses = rows.map CatalogRow.analysis

/-- The rows are shown: the lists are their columns, the indices found are those of the rows
that the query is in, in ascending order, and a row is selected. -/
structure Shows (v : CatalogViews) (rows : List (CatalogRow Answers)) : Prop
    extends v.Lists rows where
  ascending : v.filteredIndices.Pairwise (· < ·)
  found : ∀ index, index ∈ v.filteredIndices ↔
    ∃ row, rows[index]? = some row ∧ row.matchesQuery v.search = true
  selected : rows ≠ [] → v.selectedLog < rows.length

@[simp] theorem rebuildFilter_items (v : CatalogViews) : v.rebuildFilter.items = v.items := rfl

theorem contains_nil (text : Bytes) : contains text [] = true := by
  cases text <;> simp [contains, find, indexOf]

/-- The filter is right as soon as the lists are and a row is selected. -/
theorem shows_rebuildFilter (hlists : v.Lists rows)
    (hselected : rows ≠ [] → v.selectedLog < rows.length) : v.rebuildFilter.Shows rows := by
  have hlength : v.items.length = rows.length := by rw [hlists.items, List.length_map]
  have hfound : ∀ index, index ∈ v.rebuildFilter.filteredIndices ↔
      ∃ row, rows[index]? = some row ∧ row.matchesQuery v.search = true := by
    intro index
    simp only [rebuildFilter, List.mem_filter, List.mem_range, hlength, hlists.searchNames,
      List.getElem?_map, decide_eq_true_eq]
    constructor
    · rintro ⟨hindex, hquery⟩
      refine ⟨rows[index], List.getElem?_eq_getElem hindex, ?_⟩
      rw [List.getElem?_eq_getElem hindex] at hquery
      rcases hquery with hquery | hquery
      · rw [CatalogRow.matchesQuery, hquery, contains_nil]
      · exact hquery
    · rintro ⟨row, hrow, hquery⟩
      obtain ⟨hindex, rfl⟩ := List.getElem?_eq_some_iff.mp hrow
      rw [List.getElem?_eq_getElem hindex]
      exact ⟨hindex, .inr hquery⟩
  refine ⟨⟨hlists.items, hlists.searchNames, hlists.previews, hlists.analyses⟩, ?_, hfound, ?_⟩
  · exact List.pairwise_lt_range.filter _
  · intro hrows
    have hfirst : ∀ index ∈ v.rebuildFilter.filteredIndices, index < rows.length := by
      intro index hindex
      obtain ⟨row, hrow, -⟩ := (hfound index).mp hindex
      exact (List.getElem?_eq_some_iff.mp hrow).1
    unfold rebuildFilter at hfirst ⊢
    simp only at hfirst ⊢
    split
    · exact hselected hrows
    · next first rest heq =>
      split_ifs
      · exact hselected hrows
      · exact hfirst first (by rw [heq]; exact List.mem_cons_self)

theorem Shows.search (h : v.Shows rows) (query : Bytes) :
    (rebuildFilter { v with search := query }).Shows rows :=
  shows_rebuildFilter ⟨h.items, h.searchNames, h.previews, h.analyses⟩ h.selected

theorem Shows.select (h : v.Shows rows) {index : ℕ} (hindex : index ∈ v.filteredIndices) :
    ({ v with selectedLog := index } : CatalogViews).Shows rows := by
  obtain ⟨row, hrow, -⟩ := (h.found index).mp hindex
  exact { h with selected := fun _ => (List.getElem?_eq_some_iff.mp hrow).1 }

theorem Shows.rotate (h : v.Shows rows) (rotate : Bool) :
    ({ v with rotateFiltered := rotate } : CatalogViews).Shows rows :=
  { h with }

theorem Shows.pushItem (h : v.Shows rows) (row : CatalogRow Answers) :
    (v.pushItem row.item row.analysis).Shows (rows ++ [row]) := by
  apply shows_rebuildFilter
  · constructor <;> simp only [h.items, h.searchNames, h.previews, h.analyses, List.map_append,
      List.map_cons, List.map_nil] <;> rfl
  · intro _
    simp [h.items]

theorem Shows.replaceItem (h : v.Shows rows) (index : ℕ) (row : CatalogRow Answers) :
    (v.replaceItem index row.item row.analysis).Shows (rows.set index row) := by
  have hlength : v.items.length = rows.length := by rw [h.items, List.length_map]
  unfold CatalogViews.replaceItem
  apply shows_rebuildFilter
  · split_ifs with hindex
    · constructor <;> simp only [h.items, h.searchNames, h.previews, h.analyses, List.map_set] <;>
        rfl
    · rw [List.set_eq_of_length_le (by omega)]
      exact h.toLists
  · rw [List.length_set]
    intro hrows
    split_ifs with hindex
    · exact hlength ▸ hindex
    · rw [List.set_eq_of_length_le (by omega)] at hrows
      exact h.selected hrows

theorem Shows.eraseItem (h : v.Shows rows) (index : ℕ) :
    (v.eraseItem index).Shows (rows.eraseIdx index) := by
  have hitems : v.items.eraseIdx index = (rows.eraseIdx index).map CatalogRow.item := by
    rw [h.items, List.eraseIdx_map]
  unfold CatalogViews.eraseItem
  apply shows_rebuildFilter
  · constructor <;> simp only [h.items, h.searchNames, h.previews, h.analyses, List.eraseIdx_map]
  · intro hrows
    have hne : v.items.eraseIdx index ≠ [] := by
      rw [hitems, Ne, List.map_eq_nil_iff]
      exact hrows
    have hpos := List.length_pos_iff.mpr hrows
    simp only [if_neg hne]
    rw [hitems, List.length_map]
    omega

/-- A result that fails or replaces nothing leaves the views alone, any other takes the
place of all lists. -/
theorem Shows.applyCatalogResult {result : CatalogLoadResult}
    (hresult : result.error = [] → result.replaceItems = true →
      ∃ loaded : List (CatalogRow Answers), result.Lists loaded)
    (h : v.Shows rows) :
    ∃ rows' : List (CatalogRow Answers), (v.applyCatalogResult result).Shows rows' := by
  unfold CatalogViews.applyCatalogResult
  by_cases herror : result.error = []
  · rw [if_neg (not_not.mpr herror)]
    cases hreplace : result.replaceItems with
    | false => exact ⟨rows, h⟩
    | true =>
      obtain ⟨loaded, hloaded⟩ := hresult herror hreplace
      refine ⟨loaded, shows_rebuildFilter ⟨hloaded.items, hloaded.searchNames, hloaded.previews,
        hloaded.analyses⟩ ?_⟩
      intro hrows
      have hlength : result.items.length = loaded.length := by
        rw [hloaded.items, List.length_map]
      have hpos := List.length_pos_iff.mpr hrows
      have hne : result.items ≠ [] := List.length_pos_iff.mp (hlength ▸ hpos)
      simp only [if_neg hne]
      split
      · split_ifs
        · omega
        · omega
      · omega
  · rw [if_pos herror]
    exact ⟨rows, h⟩

theorem Shows.visible_lt (h : v.Shows rows) (hne : v.items ≠ []) :
    v.visibleCatalogIndex < v.items.length := by
  have hlength : v.items.length = rows.length := by rw [h.items, List.length_map]
  have hpos := List.length_pos_iff.mpr hne
  unfold visibleCatalogIndex
  rw [if_neg hne]
  split
  · next first _ _ heq =>
    obtain ⟨row, hrow, -⟩ := (h.found first).mp (by rw [heq]; exact List.mem_cons_self)
    exact hlength ▸ (List.getElem?_eq_some_iff.mp hrow).1
  · omega

/-- `start_test` hands on the items found, or the one selected. -/
theorem Shows.exists_startTemplates (h : v.Shows rows) (hne : v.items ≠ []) :
    ∃ templates, v.startTemplates = some templates ∧ ∀ item ∈ templates, item ∈ v.items := by
  have hlength : v.items.length = rows.length := by rw [h.items, List.length_map]
  have hrows : rows ≠ [] := by
    rintro rfl
    exact hne h.items
  unfold startTemplates
  split_ifs with hrotate
  · have hbound : ∀ index ∈ v.filteredIndices, ∃ item, v.items[index]? = some item := by
      intro index hindex
      obtain ⟨row, hrow, -⟩ := (h.found index).mp hindex
      have hlt := (List.getElem?_eq_some_iff.mp hrow).1
      exact ⟨_, List.getElem?_eq_getElem (hlength ▸ hlt)⟩
    generalize v.filteredIndices = indices at hbound
    induction indices with
    | nil => exact ⟨[], rfl, List.forall_mem_nil _⟩
    | cons index indices ih =>
      rw [List.forall_mem_cons] at hbound
      obtain ⟨item, hitem⟩ := hbound.1
      obtain ⟨templates, htemplates, hmem⟩ := ih hbound.2
      refine ⟨item :: templates, ?_, List.forall_mem_cons.mpr
        ⟨List.mem_of_getElem? hitem, hmem⟩⟩
      rw [List.mapM_cons, hitem, htemplates]
      rfl
  · have hlt : v.selectedLog < v.items.length := hlength ▸ h.selected hrows
    refine ⟨[v.items[v.selectedLog]], by rw [List.getElem?_eq_getElem hlt]; rfl, ?_⟩
    simp

end CatalogViews
end Presentation
end LogGenerator
