import LogGenerator.Application.SanitizeStages
import LogGenerator.Foundation.Patches

/-!
# No company name survives

The names are gone after their five passes. Whatever a pass or a later stage puts into the
text begins with a byte that no name has and ends in nothing that a name begins with, so
that no name can come about across its ends.
-/

namespace LogGenerator
namespace Application
namespace PrivacyAnonymizer

open Ascii Regex Occurrences Patches

variable {needle replacement text m : Bytes}

/-- The word stands somewhere in the text, in capital or small letters. -/
def OccursIgnoringCase (word text : Bytes) : Prop :=
  ∃ front found behind, text = front ++ (found ++ behind) ∧ equalsIgnoringCase word found = true

/-- What is put into a text cannot become a part of the word, in whatever case. -/
def SealedIgnoringCase (word w : Bytes) : Prop := Sealed (word.map toLower) (w.map toLower)

def FreeIgnoringCase (word text : Bytes) : Prop := Free (word.map toLower) (text.map toLower)

theorem freeIgnoringCase_iff (word text : Bytes) :
    FreeIgnoringCase word text ↔ ¬ OccursIgnoringCase word text := by
  apply not_congr
  constructor
  · intro h
    obtain ⟨found, ⟨front, behind, htext⟩, hfound⟩ := List.infix_map_iff.mp h
    refine ⟨front, found, behind, by rw [← htext, List.append_assoc], ?_⟩
    rw [equalsIgnoringCase, beq_iff_eq, hfound]
  · rintro ⟨front, found, behind, rfl, hfound⟩
    rw [equalsIgnoringCase, beq_iff_eq] at hfound
    rw [hfound]
    exact List.IsInfix.map toLower ⟨front, behind, List.append_assoc ..⟩

theorem FreeIgnoringCase.of_patched {P : Bytes → Prop} {out : Bytes}
    (hP : ∀ w, P w → SealedIgnoringCase m w) (h : Patched P text out)
    (htext : FreeIgnoringCase m text) : FreeIgnoringCase m out := by
  apply (h.map toLower).free _ htext
  rintro w' ⟨w, hw, rfl⟩
  exact hP w hw

theorem patched_replaceIgnoringCase (needle replacement text : Bytes) (skip : ℕ) :
    Patched (· = replacement) (text.drop skip)
      (replaceIgnoringCase needle replacement skip text) := by
  induction text generalizing skip with
  | nil =>
    rw [List.drop_nil, replaceIgnoringCase]
    exact .done
  | cons b rest ih =>
    cases skip with
    | succ skip => exact ih skip
    | zero =>
      rw [replaceIgnoringCase, List.drop_zero]
      split_ifs with hfound
      · cases needle with
        | nil => exact .patch [b] replacement rfl (ih 0)
        | cons c needle =>
          have h := Patched.patch (b :: rest.take needle.length) replacement
            (P := (· = replacement)) rfl (ih needle.length)
          rwa [List.cons_append, List.take_append_drop] at h
      · exact (ih 0).copy b

/-- A pass leaves no occurrence of its own name: a name that begins with a kept byte would
have stood there before. -/
theorem freeIgnoringCase_replaced (hsealed : SealedIgnoringCase needle replacement) (text : Bytes)
    (skip : ℕ) : FreeIgnoringCase needle (replaceIgnoringCase needle replacement skip text) := by
  have hnil : FreeIgnoringCase needle [] := fun h =>
    hsealed.free (h.trans (List.nil_infix))
  induction text generalizing skip with
  | nil =>
    rw [replaceIgnoringCase]
    exact hnil
  | cons b rest ih =>
    cases skip with
    | succ skip => exact ih skip
    | zero =>
      have hpatched := patched_replaceIgnoringCase needle replacement (b :: rest) 0
      rw [replaceIgnoringCase] at hpatched ⊢
      split_ifs at hpatched ⊢ with hfound
      · rw [FreeIgnoringCase, List.map_append]
        exact hsealed.free_append (ih _)
      · intro hm
        rw [List.map_cons] at hm
        rcases List.infix_cons_iff.mp hm with hm | hm
        · have hstood := (hpatched.map toLower).isPrefix (p := needle.map toLower)
            (by rintro w' ⟨w, rfl, rfl⟩; exact hsealed.head) (by rwa [List.map_cons])
          rw [List.drop_zero, List.prefix_iff_eq_take, List.length_map, ← List.map_take] at hstood
          have hlength := congrArg List.length hstood
          rw [List.length_map, List.length_map, List.length_take] at hlength
          apply hfound
          exact ⟨by omega, by rw [equalsIgnoringCase, beq_iff_eq]; exact hstood⟩
        · exact ih 0 hm

theorem freeIgnoringCase_replaceNames {names : List (String × String)}
    (hnames : ∀ name ∈ names, SealedIgnoringCase m (bytes name.2))
    (htext : FreeIgnoringCase m text) : FreeIgnoringCase m (replaceNames names text) := by
  induction names generalizing text with
  | nil => exact htext
  | cons name names ih =>
    rw [List.forall_mem_cons] at hnames
    apply ih hnames.2
    apply FreeIgnoringCase.of_patched _ (patched_replaceIgnoringCase _ _ text 0) htext
    rintro w rfl
    exact hnames.1

theorem forall_freeIgnoringCase_replaceNames {names : List (String × String)}
    (hnames : ∀ name ∈ names, ∀ other ∈ names, SealedIgnoringCase (bytes name.1) (bytes other.2))
    (text : Bytes) :
    ∀ name ∈ names, FreeIgnoringCase (bytes name.1) (replaceNames names text) := by
  induction names generalizing text with
  | nil => exact List.forall_mem_nil _
  | cons first names ih =>
    rw [List.forall_mem_cons]
    constructor
    · -- gone after its own pass, and no later pass brings it back
      have hfirst := hnames first List.mem_cons_self
      have hgone := freeIgnoringCase_replaced (hfirst first List.mem_cons_self) text 0
      have hlater : ∀ other ∈ names, SealedIgnoringCase (bytes first.1) (bytes other.2) :=
        fun other hother => hfirst other (List.mem_cons_of_mem first hother)
      have hkept : FreeIgnoringCase (bytes first.1) (replaceNames names _) :=
        freeIgnoringCase_replaceNames hlater hgone
      exact hkept
    · exact ih (fun name hname other hother => hnames name (List.mem_cons_of_mem first hname)
        other (List.mem_cons_of_mem first hother)) _

theorem patched_replaceKeepingGroup (pattern : Regex) {a s : Regex}
    (hpattern : pattern = .seq (.group 1 a) s) (hs : s.groupless = true)
    (hr : pattern.consumes = true) (input text : Bytes) :
    Patched (· = text) input (replaceKeepingGroup input pattern text) := by
  apply patched_of_rewrites _ (replaceKeepingGroup_rewrites hr input text)
  intro before m after groups hfirst
  rw [hpattern] at hfirst
  obtain ⟨kept, part, rfl, -, heq⟩ := keptGroup_eq hs hfirst
  exact ⟨kept, part, text, rfl, heq, rfl⟩

theorem icase_backslash : ∀ b : UInt8,
    (b == backslash || toLower b == backslash || (isLower b && b - 32 == backslash)) = true →
      b = backslash := by
  decide

/-- The name in a path follows a backslash, which keeps what stands before it apart. -/
theorem patched_replaceUserPath (input : Bytes) :
    Patched (· = bytes "\\TestUser") input
      (replaceKeepingGroup input userPathPattern (bytes "TestUser")) := by
  apply patched_of_rewrites _ (replaceKeepingGroup_rewrites (by decide) input _)
  intro before m after groups hfirst
  obtain ⟨path, name, rfl, hpath, heq⟩ := keptGroup_eq (by decide) hfirst
  obtain ⟨e, g₁, rfl, -, drive, g₂, rfl, -, colon, g₃, rfl, -, slash, g₄, rfl, -, users, g₅, rfl, -,
    last, e', rfl, ⟨b, rfl, hb⟩, rfl⟩ := hpath
  obtain rfl := icase_backslash b hb
  refine ⟨e ++ (drive ++ (colon ++ (slash ++ users))), backslash :: name, _, ?_, ?_, rfl⟩
  · simp
  · rw [heq]
    simp [bytes]
    rfl

theorem patched_replacePattern (pattern : Regex) (hr : pattern.consumes = true) (input : Bytes)
    (kind : PrivacyTokenKind) :
    Patched (· = marker kind) input (replacePattern input pattern kind) := by
  apply patched_of_rewrites _ (replacePattern_rewrites hr input kind)
  intro before m after groups _
  exact ⟨[], m, marker kind, rfl, rfl, rfl⟩

/-- A marker that a field can get. -/
def IsMarker (w : Bytes) : Prop := ∃ kind, kind ≠ PrivacyTokenKind.none ∧ w = marker kind

theorem forall_mem_fieldEdits (input : Bytes) (fuel candidate : ℕ) :
    ∀ e ∈ fieldEdits input fuel candidate, e.begin ≤ e.finish ∧ IsMarker e.text := by
  induction fuel generalizing candidate with
  | zero => exact List.forall_mem_nil _
  | succ fuel ih =>
    rw [fieldEdits]
    split_ifs
    · exact List.forall_mem_nil _
    · exact ih _
    · cases hscan : scanField (input.drop candidate) with
      | noField => exact ih _
      | inputEnds => exact List.forall_mem_nil _
      | field f =>
        obtain ⟨-, hbounds, -⟩ := scanField_bounds hscan
        apply List.forall_mem_append.mpr ⟨_, ih _⟩
        intro e he
        rw [fieldEdit] at he
        split_ifs at he with hkind
        · obtain rfl := List.mem_singleton.mp he
          exact ⟨Nat.add_le_add_left hbounds candidate, _, hkind.1, rfl⟩
        · cases he

theorem patched_replaceSensitiveFields (input : Bytes) :
    Patched IsMarker input (replaceSensitiveFields input) :=
  patched_spliceFrom (forall_mem_fieldEdits input _ 0) 0

def IsControlEscape (w : Bytes) : Prop := ∃ b, controlEscape b = some w

theorem patched_escapeUnsupportedControls (input : Bytes) :
    Patched IsControlEscape input (escapeUnsupportedControls input) := by
  apply patched_flatMap
  intro b
  cases hescape : controlEscape b with
  | none => exact .inl rfl
  | some w => exact .inr ⟨b, hescape⟩

instance (m w : Bytes) : Decidable (Sealed m w) :=
  decidable_of_iff
    (¬ m <:+: w ∧ w.head?.any (fun c => !m.contains c) ∧ ∀ front ∈ m.inits, front <:+ w → front = [])
    (by
      constructor
      · rintro ⟨hfree, hhead, hends⟩
        refine ⟨hfree, ?_, hends⟩
        cases w with
        | nil => cases hhead
        | cons c rest => exact ⟨c, rest, rfl, by simpa using hhead⟩
      · rintro ⟨hfree, ⟨c, rest, rfl, hc⟩, hends⟩
        exact ⟨hfree, by simpa using hc, hends⟩)

instance (word w : Bytes) : Decidable (SealedIgnoringCase word w) :=
  inferInstanceAs (Decidable (Sealed _ _))

theorem sealed_replacements : ∀ name ∈ companyNames, ∀ other ∈ companyNames,
    SealedIgnoringCase (bytes name.1) (bytes other.2) := by
  decide

theorem sealed_marker {w : Bytes} (hw : IsMarker w) :
    ∀ name ∈ companyNames, SealedIgnoringCase (bytes name.1) w := by
  obtain ⟨kind, hkind, rfl⟩ := hw
  cases kind with
  | none => exact absurd rfl hkind
  | _ => decide

theorem sealed_testUser : ∀ name ∈ companyNames,
    SealedIgnoringCase (bytes name.1) (bytes "\\TestUser") := by
  decide

theorem controlEscape_eq_none : ∀ b : UInt8, 32 ≤ b → controlEscape b = none := by
  decide

theorem sealed_controlEscapes : ∀ n < 32, ∀ w ∈ controlEscape (UInt8.ofNat n),
    ∀ name ∈ companyNames, SealedIgnoringCase (bytes name.1) w := by
  decide

theorem sealed_controlEscape {w : Bytes} (hw : IsControlEscape w) :
    ∀ name ∈ companyNames, SealedIgnoringCase (bytes name.1) w := by
  obtain ⟨b, hb⟩ := hw
  have hlt : b.toNat < 32 := by
    by_contra hge
    rw [controlEscape_eq_none b (UInt8.le_iff_toNat_le.mpr (not_lt.mp hge))] at hb
    cases hb
  apply sealed_controlEscapes b.toNat hlt
  rwa [UInt8.ofNat_toNat]

section

variable {name : String × String} (hname : name ∈ companyNames)

include hname

theorem freeIgnoringCase_sanitizeFields (sample : Bytes) :
    FreeIgnoringCase (bytes name.1) (sanitizeFields sample) := by
  have hmarker (kind : PrivacyTokenKind) (hkind : kind ≠ .none) :
      ∀ w, w = marker kind → SealedIgnoringCase (bytes name.1) w :=
    fun w hw => sealed_marker ⟨kind, hkind, hw⟩ name hname
  have hnames := forall_freeIgnoringCase_replaceNames sealed_replacements sample name hname
  have hstores := hnames.of_patched (hmarker .storeCode (by decide))
    (patched_replaceKeepingGroup legacyStoreCodePattern rfl (by decide) (by decide) _ _)
  have haddresses := hstores.of_patched (hmarker .macAddress (by decide))
    (patched_replaceKeepingGroup partialMacMarkerPattern rfl (by decide) (by decide) _ _)
  exact haddresses.of_patched (fun w hw => sealed_marker hw name hname)
    (patched_replaceSensitiveFields _)

theorem freeIgnoringCase_sanitizePatterns {text : Bytes}
    (h : FreeIgnoringCase (bytes name.1) text) :
    FreeIgnoringCase (bytes name.1) (sanitizePatterns text) := by
  have hmarker (kind : PrivacyTokenKind) (hkind : kind ≠ .none) :
      ∀ w, w = marker kind → SealedIgnoringCase (bytes name.1) w :=
    fun w hw => sealed_marker ⟨kind, hkind, hw⟩ name hname
  have hemails := h.of_patched (hmarker .email (by decide))
    (patched_replacePattern emailPattern (by decide) _ _)
  have hphones := hemails.of_patched (hmarker .phone (by decide))
    (patched_replacePattern phonePattern (by decide) _ _)
  have hresidents := hphones.of_patched (hmarker .identifier (by decide))
    (patched_replacePattern residentPattern (by decide) _ _)
  have haddresses := hresidents.of_patched (hmarker .macAddress (by decide))
    (patched_replacePattern macPattern (by decide) _ _)
  have hpaths := haddresses.of_patched (by rintro w rfl; exact sealed_testUser name hname)
    (patched_replaceUserPath _)
  exact hpaths.of_patched (fun w hw => sealed_controlEscape hw name hname)
    (patched_escapeUnsupportedControls _)

end

/-- No company name survives sanitizing, in whatever case it is written. -/
theorem sanitize_lacksNames (sample : Bytes) :
    ∀ name ∈ ["test123", "lottermart", "lottemart", "lotte", "mart"],
      ¬ OccursIgnoringCase (bytes name) (sanitize sample) := by
  have hnames : ["test123", "lottermart", "lottemart", "lotte", "mart"] =
      companyNames.map Prod.fst := rfl
  intro name hname
  rw [hnames] at hname
  obtain ⟨pair, hpair, rfl⟩ := List.mem_map.mp hname
  rw [← freeIgnoringCase_iff, sanitize_eq]
  exact freeIgnoringCase_sanitizePatterns hpair (freeIgnoringCase_sanitizeFields hpair sample)

theorem sanitize_lacksNames_seam :
    ¬ OccursIgnoringCase (bytes "lotte") (sanitize (bytes "lotLoTTEte LotteMart user=lotte")) :=
  sanitize_lacksNames (bytes "lotLoTTEte LotteMart user=lotte") "lotte" (by simp)

end PrivacyAnonymizer
end Application
end LogGenerator
