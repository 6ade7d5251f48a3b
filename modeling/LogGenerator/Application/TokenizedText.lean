import LogGenerator.Application.AddressPatterns
import LogGenerator.Application.SanitizeStages
import LogGenerator.Foundation.Utf8

/-!
# Tokenized texts

Every stage of `tokenize` cuts a text at bytes of ASCII only. So the tokens that it puts
in never tear a character apart, whatever script the sample is written in.
-/

namespace LogGenerator
namespace Application

open Ascii Domain Regex Runs

namespace PrivacyAnonymizer

variable {b : UInt8} {text : Bytes}

/-- What is equal to a name of ASCII but for its case is of ASCII. -/
theorem isAscii_of_equalsIgnoringCase {needle found : Bytes}
    (hneedle : ∀ b ∈ needle, isAscii b = true) (h : equalsIgnoringCase needle found = true) :
    ∀ b ∈ found, isAscii b = true := by
  intro b hb
  have hmem : toLower b ∈ needle.map toLower := by
    rw [equalsIgnoringCase, beq_iff_eq] at h
    rw [h]
    exact List.mem_map_of_mem hb
  obtain ⟨c, hc, hcb⟩ := List.mem_map.mp hmem
  have hlower : ∀ c : UInt8, isAscii c = true → isAscii (toLower c) = true := by decide
  apply isAscii_of_toLower
  rw [← hcb]
  exact hlower c (hneedle c hc)

theorem replaces_replaceIgnoringCase {needle replacement : Bytes} (hne : needle ≠ [])
    (hneedle : ∀ b ∈ needle, isAscii b = true) (hreplacement : validUtf8 replacement = true)
    (skip : ℕ) (text after : Bytes) :
    Replaces (text.drop skip) (replaceIgnoringCase needle replacement skip text) after := by
  induction text generalizing skip with
  | nil =>
    rw [List.drop_nil, replaceIgnoringCase]
    apply Replaces.refl
  | cons b rest ih =>
    cases skip with
    | succ skip => exact ih skip
    | zero =>
      rw [List.drop_zero, replaceIgnoringCase]
      split_ifs with hfound
      · obtain ⟨hlength, hequal⟩ := hfound
        obtain ⟨n, hn⟩ := Nat.exists_eq_succ_of_ne_zero (mt List.length_eq_zero_iff.mp hne)
        have hsplit : b :: rest =
            (b :: rest).take needle.length ++ rest.drop (needle.length - 1) := by
          rw [hn, Nat.succ_sub_one, ← List.drop_succ_cons, List.take_append_drop]
        rw [hsplit]
        apply Replaces.append _ (ih (needle.length - 1))
        apply replaces_ascii _ (isAscii_of_equalsIgnoringCase hneedle hequal) hreplacement
        rw [hn, List.take_succ_cons]
        apply List.cons_ne_nil
      · exact (ih 0).behind [b]

theorem validUtf8_replaceAsciiCaseInsensitive {needle replacement : String}
    (hne : bytes needle ≠ []) (hneedle : ∀ b ∈ bytes needle, isAscii b = true)
    (hreplacement : validUtf8 (bytes replacement) = true) (h : validUtf8 text = true) :
    validUtf8 (replaceAsciiCaseInsensitive text needle replacement) = true :=
  (replaces_replaceIgnoringCase hne hneedle hreplacement 0 text []).validUtf8 h

theorem validUtf8_replaceNames {names : List (String × String)}
    (hnames : ∀ name ∈ names, bytes name.1 ≠ [] ∧ (∀ b ∈ bytes name.1, isAscii b = true) ∧
      validUtf8 (bytes name.2) = true) (h : validUtf8 text = true) :
    validUtf8 (replaceNames names text) = true := by
  induction names generalizing text with
  | nil => exact h
  | cons name names ih =>
    obtain ⟨⟨hne, hname, hreplacement⟩, hrest⟩ := List.forall_mem_cons.mp hnames
    exact ih hrest (validUtf8_replaceAsciiCaseInsensitive hne hname hreplacement h)

theorem ascii_companyNames : ∀ name ∈ companyNames, bytes name.1 ≠ [] ∧
    (∀ b ∈ bytes name.1, isAscii b = true) ∧ validUtf8 (bytes name.2) = true := by
  decide

theorem isAscii_controlEscape : ∀ b : UInt8, ∀ escape ∈ controlEscape b,
    isAscii b = true ∧ validUtf8 escape = true := by
  decide

theorem replaces_escapeUnsupportedControls (text after : Bytes) :
    Replaces text (escapeUnsupportedControls text) after := by
  induction text with
  | nil => apply Replaces.refl
  | cons b text ih =>
    have hfirst : Replaces [b] ((controlEscape b).getD [b]) (text ++ after) := by
      cases hescape : controlEscape b with
      | none => apply Replaces.refl
      | some escape =>
        obtain ⟨hb, hvalid⟩ := isAscii_controlEscape b escape hescape
        apply replaces_ascii (List.cons_ne_nil b []) _ hvalid
        rwa [List.forall_mem_singleton]
    rw [escapeUnsupportedControls, List.flatMap_cons]
    exact hfirst.append ih

theorem isAscii_of_isQuote : ∀ b, isQuote b = true → isAscii b = true := by
  decide

theorem isAscii_of_valueBoundary : ∀ b, valueBoundary b = true → isAscii b = true := by
  decide

theorem validUtf8_marker (kind : PrivacyTokenKind) : validUtf8 (marker kind) = true := by
  cases kind
  all_goals decide

theorem stops_dropWhile {p q : UInt8 → Bool} (h : ∀ b, p b = false → q b = false) (l : Bytes) :
    Stops q (l.dropWhile p) := by
  induction l with
  | nil => rfl
  | cons b l ih =>
    cases hb : p b with
    | true => rwa [List.dropWhile_cons_of_pos hb]
    | false =>
      rw [List.dropWhile_cons_of_neg (by simp [hb])]
      exact h b hb

/-- A field is read up to a separator and blanks, then its value is measured. -/
theorem exists_value {f : FieldAt} (h : scanField text = .field f) : ∃ front m b value,
    text = front ++ (m ++ b :: value) ∧ m ≠ [] ∧ (∀ c ∈ m, isAscii c = true) ∧
      if isQuote b then
        f.valueBegin = (front ++ m).length + 1 ∧
          f.valueEnd = (front ++ m).length + 1 + (value.takeWhile (· != b)).length
      else
        f.valueBegin = (front ++ m).length ∧ f.valueEnd =
          (front ++ m).length + ((b :: value).takeWhile fun c => !valueBoundary c).length := by
  unfold scanField at h
  extract_lets opening afterQuote name afterName closing blanks atSeparator spaces value valueAt at h
  have hdrop : atSeparator = text.drop (opening + name.length + closing + blanks) := by
    simp only [atSeparator, afterName, afterQuote, List.drop_drop, Nat.add_assoc]
  split at h
  · cases h
  split at h
  · cases h
  split at h
  · cases h
  rename_i hseparator
  obtain ⟨separator, tail, hcons, hascii⟩ : ∃ separator tail, atSeparator = separator :: tail ∧
      isAscii separator = true := by
    have hascii : ∀ b : UInt8, (b == 58 || b == 61) = true → isAscii b = true := by decide
    cases hat : atSeparator with
    | nil => simp [hat] at hseparator
    | cons separator tail =>
      refine ⟨separator, tail, rfl, hascii separator ?_⟩
      simpa [hat, or_iff_not_imp_left] using hseparator
  obtain ⟨front, hfront, hlength⟩ : ∃ front, text = front ++ separator :: tail ∧
      front.length = opening + name.length + closing + blanks := by
    refine ⟨text.take (opening + name.length + closing + blanks), ?_, ?_⟩
    · rw [← hcons, hdrop, List.take_append_drop]
    · have hpos := congrArg List.length (hdrop.symm.trans hcons)
      rw [List.length_drop, List.length_cons] at hpos
      rw [List.length_take]
      omega
  obtain ⟨run, rest, rfl, hrun, hrest⟩ := exists_run (· == space) tail
  have hspaces : spaces = run.length := by
    simp only [spaces, hcons, List.drop_succ_cons, List.drop_zero, takeWhile_append hrun hrest]
  have hvalue : value = rest := by
    simp only [value, hcons, Nat.add_comm 1, List.drop_succ_cons, hspaces, List.drop_left]
  have hat : valueAt = (front ++ separator :: run).length := by
    rw [List.length_append, List.length_cons, hlength, ← hspaces]
    simp only [valueAt]
    omega
  have hm : ∀ c ∈ separator :: run, isAscii c = true := by
    rw [List.forall_mem_cons]
    refine ⟨hascii, fun c hc => ?_⟩
    rw [beq_iff_eq.mp (hrun c hc)]
    decide
  clear_value value valueAt
  subst hvalue hat
  cases value with
  | nil => cases h
  | cons b value =>
    refine ⟨front, separator :: run, b, value, hfront, List.cons_ne_nil _ _, hm, ?_⟩
    simp only at h
    split_ifs at h ⊢
    all_goals
      cases h
      exact ⟨rfl, rfl⟩

/-- A value stands behind bytes of ASCII, and in front of such a byte or at the end. -/
theorem exists_of_scanField {f : FieldAt} (h : scanField text = .field f) :
    ∃ front m value rest, text = front ++ (m ++ (value ++ rest)) ∧ m ≠ [] ∧
      (∀ b ∈ m, isAscii b = true) ∧ f.valueBegin = (front ++ m).length ∧
        f.valueEnd = (front ++ m).length + value.length ∧ Stops (fun b => !isAscii b) rest := by
  have hend {q : UInt8 → Bool} (hq : ∀ b, q b = false → isAscii b = true) (l : Bytes) :
      Stops (fun b => !isAscii b) (l.dropWhile q) :=
    stops_dropWhile (fun b hb => by rw [hq b hb]; rfl) l
  obtain ⟨front, m, b, value, rfl, hne, hm, hbounds⟩ := exists_value h
  split_ifs at hbounds with hquote
  · have hb := isAscii_of_isQuote b hquote
    have hlength : (front ++ m ++ [b]).length = (front ++ m).length + 1 := List.length_append
    refine ⟨front ++ m, [b], value.takeWhile (· != b), value.dropWhile (· != b), ?_,
      List.cons_ne_nil b [], List.forall_mem_singleton.mpr hb, ?_, ?_, hend ?_ value⟩
    · rw [List.takeWhile_append_dropWhile, List.append_assoc]
      rfl
    · rw [hbounds.1, hlength]
    · rw [hbounds.2, hlength]
    · intro c hc
      rwa [bne_eq_false_iff_eq.mp hc]
  · refine ⟨front, m, (b :: value).takeWhile (fun c => !valueBoundary c),
      (b :: value).dropWhile (fun c => !valueBoundary c), ?_, hne, hm, hbounds.1, hbounds.2,
      hend ?_ _⟩
    · rw [List.takeWhile_append_dropWhile]
    · intro c hc
      apply isAscii_of_valueBoundary
      simpa using hc

theorem replacedValue_cases (name value : Bytes) : replacedValue name value = value ∨
    ∃ kind, replacedValue name value = marker kind := by
  unfold replacedValue
  dsimp only
  split_ifs
  · exact .inr ⟨_, rfl⟩
  · exact .inl rfl

/-- The output of the scan may take the place of what it has read. -/
theorem replaces_rewriteFields (boundary : Bool) (text : Bytes) :
    Replaces text (rewriteFields boundary text) [] := by
  induction hlength : text.length using Nat.strong_induction_on generalizing boundary text with
  | _ length ih =>
    subst hlength
    cases text with
    | nil =>
      rw [rewriteFields_nil]
      apply Replaces.refl
    | cons b rest =>
      have hskip : Replaces (b :: rest) (b :: rewriteFields (fieldBoundary b) rest) [] :=
        (ih rest.length (Nat.lt_succ_self _) _ rest rfl).behind [b]
      cases boundary with
      | false =>
        rw [rewriteFields_skip (fun h => by cases h)]
        exact hskip
      | true =>
        cases hscan : scanField (b :: rest) with
        | noField =>
          rw [rewriteFields_skip fun _ => hscan]
          exact hskip
        | inputEnds =>
          rw [rewriteFields_inputEnds hscan]
          apply Replaces.refl
        | field f =>
          obtain ⟨front, m, value, behind, htext, hne, hm, hbegin, hend, hbehind⟩ :=
            exists_of_scanField hscan
          have hlength : (front ++ m ++ value).length = f.valueEnd := by
            rw [hend, List.length_append]
          have hdrop : (b :: rest).drop f.valueEnd = behind := by
            rw [htext, ← hlength, ← List.append_assoc, ← List.append_assoc, List.drop_left]
          have htake : (b :: rest).take f.valueBegin = front ++ m := by
            rw [htext, hbegin, ← List.append_assoc, List.take_left]
          have hslice : slice (b :: rest) (f.valueBegin, f.valueEnd) = value :=
            slice_eq (front ++ m) value behind (by rw [htext, List.append_assoc]) hbegin
              hlength.symm
          have hvalue : Replaces (front ++ (m ++ value))
              (front ++ (m ++ replacedValue f.name value)) (behind ++ []) := by
            rw [List.append_nil]
            apply Replaces.behind
            rcases replacedValue_cases f.name value with h | ⟨kind, h⟩
            · rw [h]
              apply Replaces.refl
            · rw [h]
              exact replaces_between hne hm hbehind (validUtf8_marker kind)
          have hshorter : behind.length < (b :: rest).length := by
            have hpos := List.length_pos_iff.mpr hne
            rw [htext]
            simp only [List.length_append]
            omega
          have hreplaced := hvalue.append (ih behind.length hshorter
            (atBoundary ((b :: rest).take f.valueEnd)) behind rfl)
          rw [rewriteFields_field hscan, hdrop, htake, hslice]
          simpa only [htext, List.append_assoc] using hreplaced

theorem validUtf8_replaceSensitiveFields (h : validUtf8 text = true) :
    validUtf8 (replaceSensitiveFields text) = true := by
  rw [replaceSensitiveFields_eq]
  exact (replaces_rewriteFields true text).validUtf8 h

theorem validUtf8_replacePattern {pattern : Regex} (hr : pattern.consumes = true)
    (hascii : pattern.OfAscii) (kind : PrivacyTokenKind)
    (h : validUtf8 text = true) : validUtf8 (replacePattern text pattern kind) = true := by
  apply validUtf8_splice _ h
  rw [List.forall_mem_map]
  intro M hM
  exact fits_match hr hascii hM (validUtf8_marker kind)

theorem validUtf8_replaceKeepingGroup {a s : Regex} {replacement : Bytes}
    (hr : (Regex.seq (.group 1 a) s).consumes = true) (hs : s.groupless = true)
    (hkept : ∀ before m₁ m₂ after groups,
      (Regex.seq (.group 1 a) s).First before (m₁ ++ m₂) after groups →
        a.Matches before m₁ (m₂ ++ after) → s.Matches (before ++ m₁) m₂ after →
          Replaces (m₁ ++ m₂) (m₁ ++ replacement) after)
    (h : validUtf8 text = true) :
    validUtf8 (replaceKeepingGroup text (.seq (.group 1 a) s) replacement) = true := by
  apply validUtf8_splice _ h
  rw [List.forall_mem_map]
  intro M hM
  exact fits_kept hr hs hM hkept

/-- What follows the group is of ASCII, as every marker is. -/
theorem validUtf8_replaceMarker {a s : Regex} (kind : PrivacyTokenKind)
    (hr : s.consumes = true) (hs : s.groupless = true)
    (hascii : s.OfAscii) (h : validUtf8 text = true) :
    validUtf8 (replaceKeepingGroup text (.seq (.group 1 a) s) (marker kind)) = true := by
  apply validUtf8_replaceKeepingGroup _ hs _ h
  · rw [consumes, hr, Bool.or_true]
  · intro before m₁ m₂ after groups _ _ hm₂
    apply Replaces.behind
    exact replaces_ascii (hm₂.ne_nil hr) (hascii.isAscii hm₂) (validUtf8_marker kind) after

/-- The name of a user may be of any script; it ends in front of a byte of ASCII. -/
theorem validUtf8_replaceUserPath (h : validUtf8 text = true) :
    validUtf8 (replaceKeepingGroup text userPathPattern (bytes "TestUser")) = true := by
  apply validUtf8_replaceKeepingGroup _ _ _ h
  · decide
  · decide
  · intro before m₁ m₂ after groups hfirst hm₁ _
    have hends : ∀ b : UInt8, (b != backslash && !isSpace b ||
        (toLower b != backslash && !isSpace (toLower b)) ||
          (isLower b && (b - 32 != backslash && !isSpace (b - 32)))) = false →
            (!isAscii b) = false := by decide
    have hascii : (seqs [.boundary, .set isAlpha, lit ":", .set (· == backslash), lit "Users",
        .set (· == backslash)]).OfAscii := by
      simp only [ofAscii_seqs_cons, ofAscii_seqs_nil, ofAscii_boundary, ofAscii_set, ofAscii_lit]
      decide
    apply replaces_between (hm₁.ne_nil (by decide)) (hascii.icase.isAscii hm₁) _ (by decide)
    have hstops := hfirst.stops
    cases after with
    | nil => rfl
    | cons b after => exact hends b hstops

theorem ofAscii_hexadecimal : hexadecimal.OfAscii := by
  unfold hexadecimal OfAscii
  decide

theorem ofAscii_emailPattern : emailPattern.OfAscii := by
  simp only [emailPattern, plus, ofAscii_seqs_cons, ofAscii_seqs_nil, ofAscii_boundary, ofAscii_rep,
    ofAscii_set, ofAscii_seq, ofAscii_lit]
  decide

theorem ofAscii_phonePattern : phonePattern.OfAscii := by
  simp only [phonePattern, opt, between, times, ofAscii_seqs_cons, ofAscii_seqs_nil, ofAscii_rep,
    ofAscii_alts_cons, ofAscii_alts_single, ofAscii_boundary, ofAscii_numeral, ofAscii_lit,
    ofAscii_oneOf]
  decide

theorem ofAscii_residentPattern : residentPattern.OfAscii := by
  simp [residentPattern, opt, times]
  decide

theorem ofAscii_macPattern : macPattern.OfAscii := by
  simp [macPattern, times, ofAscii_hexadecimal]
  decide

theorem validUtf8_sanitize (h : validUtf8 text = true) : validUtf8 (sanitize text) = true := by
  have hnames := validUtf8_replaceNames ascii_companyNames h
  have hfields : validUtf8 (sanitizeFields text) = true := by
    apply validUtf8_replaceSensitiveFields
    apply validUtf8_replaceMarker .macAddress (by decide) (by decide)
    · simp [ofAscii_hexadecimal, times, plus, opt]
      decide
    · have hmarker : (lit "\x7b\x7bSTORE\x7d\x7d").OfAscii := by
        rw [ofAscii_lit]
        decide
      exact validUtf8_replaceMarker .storeCode (by decide) (by decide)
        (ofAscii_seqs_cons.mpr ⟨hmarker, ofAscii_seqs_nil⟩).icase hnames
  rw [sanitize_eq]
  apply (replaces_escapeUnsupportedControls _ []).validUtf8
  apply validUtf8_replaceUserPath
  apply validUtf8_replacePattern (by decide) ofAscii_macPattern
  apply validUtf8_replacePattern (by decide) ofAscii_residentPattern
  apply validUtf8_replacePattern (by decide) ofAscii_phonePattern
  exact validUtf8_replacePattern (by decide) ofAscii_emailPattern .email hfields

end PrivacyAnonymizer

section Captures

variable {input text : Bytes}

theorem ofAscii_ipAddress : ipAddress.OfAscii := by
  simp only [ipAddress, between, times, ofAscii_seq, ofAscii_rep, ofAscii_numeral, ofAscii_lit]
  decide

theorem validUtf8_replaceCapture {pattern : Regex} {replacement : Bytes}
    (hr : ReplacesAddress pattern) (hreplacement : validUtf8 replacement = true)
    (h : validUtf8 input = true) : validUtf8 (replaceCapture input pattern replacement) = true := by
  apply validUtf8_splice _ h
  intro e he
  obtain ⟨M, hM, hbounds⟩ := List.mem_filterMap.mp he
  obtain ⟨bounds, hgroup, rfl⟩ := Option.map_eq_some_iff.mp hbounds
  apply fits_captured hr.consumes _ hM hgroup hreplacement
  intro a ha
  rw [hr.captures a ha]
  exact ⟨by decide, ofAscii_ipAddress⟩

section Stamps

open TimestampPattern

/-- The parts of the patterns that become timestamps, in the order of the patterns. -/
theorem stamps_timestampPatterns : timestampPatterns.flatMap stamps =
    [seqs [.boundary, separatedDate, oneOf "T ", hour, lit ":", sixty, lit ":", sixty, fraction,
        zone],
      seqs [year, month, day, lit "T", times numeral 6, fraction, zone],
      seqs [.boundary, monthDay, plus whitespace, times numeral 4, plus whitespace, clock,
        opt (.seq (plus whitespace) (.alt (lit "GMT") (lit "UTC"))), .boundary],
      seqs [.boundary, monthDay, plus whitespace, clock, plus whitespace, times numeral 4,
        .boundary],
      seqs [.boundary, between numeral 1 2, lit "/", nameOfThree, lit "/", times numeral 4, lit ":",
        clock, plus whitespace, oneOf "+-", times numeral 4, .boundary],
      seqs [.boundary, monthDay, plus whitespace, clock, .boundary],
      seqs [year, month, day, times numeral 6],
      seqs [.boundary, separatedDate, oneOf " T", hour, lit ":", sixty, .ahead true (lit ":")],
      seqs [year, month, day],
      seqs [year, month],
      (times numeral 6).icase,
      seqs [.boundary, separatedDate, .boundary],
      seqs [.boundary, year, oneOf "-/", month, .boundary],
      (seqs [hour, lit ":", sixty, lit ":", sixty, fraction]).icase,
      seqs [.alt (.seq (oneOf "01") numeral) (.seq (lit "2") (range '0' '3')), lit ":", sixty,
        lit ":", sixty, fraction]] := rfl

theorem ofAscii_year : year.OfAscii := by
  simp +decide [year, times]

theorem ofAscii_month : month.OfAscii := by
  simp +decide [month]

theorem ofAscii_day : day.OfAscii := by
  simp +decide [day]

theorem ofAscii_hour : hour.OfAscii := by
  simp +decide [hour, opt]

theorem ofAscii_sixty : sixty.OfAscii := by
  simp [sixty]

theorem ofAscii_fraction : fraction.OfAscii := by
  simp +decide [fraction, opt, between]

theorem ofAscii_zone : zone.OfAscii := by
  simp +decide [zone, opt, times]

theorem ofAscii_clock : clock.OfAscii := by
  simp +decide [clock, times]

theorem ofAscii_nameOfThree : nameOfThree.OfAscii := by
  simp [nameOfThree, times]

theorem ofAscii_monthDay : monthDay.OfAscii := by
  simp [monthDay, opt, plus, between, ofAscii_nameOfThree]

theorem ofAscii_separatedDate : separatedDate.OfAscii := by
  simp +decide [separatedDate, ofAscii_year, ofAscii_month, ofAscii_day]

theorem ofAscii_timeOfDay : (seqs [hour, lit ":", sixty, lit ":", sixty, fraction]).OfAscii := by
  simp +decide [ofAscii_hour, ofAscii_sixty, ofAscii_fraction]

theorem ofAscii_stamps : ∀ a ∈ timestampPatterns.flatMap stamps, a.OfAscii := by
  have hsix : (Regex.rep numeral 6 (some 6)).OfAscii := ofAscii_numeral
  rw [stamps_timestampPatterns]
  simp +decide [hsix.icase, ofAscii_timeOfDay.icase, ofAscii_separatedDate, ofAscii_monthDay,
    ofAscii_clock, ofAscii_nameOfThree, ofAscii_year, ofAscii_month, ofAscii_day, ofAscii_hour,
    ofAscii_sixty, ofAscii_fraction, ofAscii_zone, opt, plus, times, between]

end Stamps

theorem isAscii_timestampStyleKey (style : TimestampStyle) :
    ∀ b ∈ timestampStyleKey style, isAscii b = true := by
  cases style
  all_goals decide

theorem isAscii_timestampMarker (style : TimestampStyle) {value : Bytes}
    (hvalue : ∀ b ∈ value, isAscii b = true) : ∀ b ∈ timestampMarker style value,
      isAscii b = true := by
  have hends : (∀ b ∈ timestampMarkerPrefix, isAscii b = true) ∧
      ∀ b ∈ bytes ":" ++ timestampMarkerSuffix, isAscii b = true := by decide
  intro b hb
  simp only [timestampMarker, List.mem_append] at hb hends
  have hkey := isAscii_timestampStyleKey style b
  grind

/-- A marker stays, a recognised timestamp is put into one. -/
theorem fits_timestampEdit {c : MatchCandidate} (h : c ∈ timestampCandidates input) :
    Edit.Fits input (timestampEdit input c) := by
  obtain ⟨-, hwithin, token, htoken, hspan⟩ := timestampFound h
  have hinput : input = input.take c.position ++ (slice input c.bounds ++
      input.drop (c.position + c.length)) := by
    rw [slice, MatchCandidate.bounds, Nat.add_sub_cancel_left, ← List.drop_drop,
      List.take_append_drop, List.take_append_drop]
  have hbegin : c.position = (input.take c.position).length := by
    rw [List.length_take]
    omega
  have hlength : (slice input c.bounds).length = c.length := by
    rw [slice, MatchCandidate.bounds, List.length_take, List.length_drop]
    omega
  refine ⟨input.take c.position, slice input c.bounds, input.drop (c.position + c.length), hinput,
    hbegin, ?_, ?_⟩
  · rw [← hbegin, hlength]
    rfl
  · have htext : (timestampEdit input c).text =
        if timestampMarkerPrefix.isPrefixOf (slice input c.bounds) then slice input c.bounds
        else timestampMarker token.style (slice input c.bounds) := by
      simp only [timestampEdit, htoken]
      rfl
    rw [htext]
    split_ifs with hmarker
    · apply Replaces.refl
    · cases hspan with
      | marker style value hslice =>
        rw [hslice, timestampMarker] at hmarker
        simp [List.isPrefixOf_iff_prefix, List.append_assoc] at hmarker
      | captured p hp M hM hgroup =>
        obtain ⟨a, ha, x, t, z, hcut, ht, hbounds⟩ :=
          exists_of_group (consumes_timestampPatterns p hp) hM hgroup
        have hstamp : slice input c.bounds = t := by
          rw [hbounds]
          exact slice_eq x t z hcut rfl List.length_append.symm
        have hascii := (ofAscii_stamps a (List.mem_flatMap.mpr ⟨p, hp, ha⟩)).isAscii ht
        rw [hstamp]
        apply replaces_ascii (ht.ne_nil (consumes_stamps p hp a ha)) hascii
        exact validUtf8_of_isAscii (isAscii_timestampMarker token.style hascii)

theorem validUtf8_tokenizeTimestamps (h : validUtf8 input = true) :
    validUtf8 (tokenizeTimestamps input) = true := by
  apply validUtf8_splice _ h
  rw [List.forall_mem_map]
  exact fun c hc => fits_timestampEdit hc

end Captures

namespace LogRenderer

variable {sample : Bytes}

theorem validUtf8_tokenize (h : validUtf8 sample = true) : validUtf8 (tokenize sample) = true := by
  have hmarkers : validUtf8 sourceIpMarker = true ∧ validUtf8 destinationIpMarker = true := by
    decide
  apply validUtf8_tokenizeTimestamps
  apply validUtf8_replaceCapture replacesAddress_arrowDestination hmarkers.2
  apply validUtf8_replaceCapture replacesAddress_arrowSource hmarkers.1
  apply validUtf8_replaceCapture replacesAddress_destination hmarkers.2
  apply validUtf8_replaceCapture replacesAddress_source hmarkers.1
  exact PrivacyAnonymizer.validUtf8_sanitize h

end LogRenderer

end Application
end LogGenerator
