import LogGenerator.Application.SensitiveFields
import LogGenerator.Application.TestCase
import LogGenerator.Foundation.RegexGroups
import Mathlib.Data.List.Chain

/-!
# Compiling a text into segments

Which candidates `compile_segments` collects, and the greedy sweep over them: the
segments stand for consecutive parts of the text, and no marker is left in a literal.
-/

namespace LogGenerator
namespace Application

open Ascii Occurrences Regex

variable {input m front behind : Bytes} {c d : MatchCandidate} {position : ℕ}

theorem exists_of_mem_occurrences {fuel n : ℕ} (h : n ∈ occurrences input m fuel position) :
    ∃ front behind, input = front ++ (m ++ behind) ∧ front.length = n := by
  induction fuel generalizing position with
  | zero => cases h
  | succ fuel ih =>
    unfold occurrences at h
    cases hfind : find input m position with
    | none =>
      rw [hfind] at h
      cases h
    | some found =>
      rw [hfind] at h
      rcases List.mem_cons.mp h with rfl | h
      · obtain ⟨front, behind, hinput, hlength, -⟩ := exists_of_find hfind
        exact ⟨front, behind, hinput, hlength⟩
      · exact ih h

theorem mem_occurrences (hm : Unbordered m) (hne : m ≠ []) {fuel : ℕ}
    (hposition : position ≤ front.length)
    (hfuel : (front ++ (m ++ behind)).length < fuel + position) :
    front.length ∈ occurrences (front ++ (m ++ behind)) m fuel position := by
  induction fuel generalizing position with
  | zero =>
    rw [List.length_append] at hfuel
    omega
  | succ fuel ih =>
    obtain ⟨n, hfind, hle⟩ : ∃ n, find (front ++ (m ++ behind)) m position = some n ∧
        n ≤ front.length := find_le hposition
    rw [occurrences, hfind]
    rcases hle.eq_or_lt with rfl | hlt
    · exact List.mem_cons_self
    · -- the word found does not overlap the one looked for
      obtain ⟨before, after, htext, rfl, hge⟩ := exists_of_find hfind
      have hbehind : before.length + m.length ≤ front.length := by
        rcases List.append_eq_append_iff.mp htext with ⟨gap, rfl, -⟩ | ⟨gap, rfl, hgap⟩
        · rw [List.length_append] at hlt
          omega
        · rcases hm gap behind after hgap with rfl | hlong
          · simp at hlt
          · rw [List.length_append]
            omega
      have hpos := List.length_pos_iff.mpr hne
      exact List.mem_cons_of_mem _ (ih hbehind (by omega))

/-- Every occurrence of a word that does not overlap itself is found. -/
theorem mem_allOccurrences (hm : Unbordered m) (hne : m ≠ []) {n : ℕ} :
    n ∈ allOccurrences input m ↔
      ∃ front behind, input = front ++ (m ++ behind) ∧ front.length = n := by
  constructor
  · exact exists_of_mem_occurrences
  · rintro ⟨front, behind, rfl, rfl⟩
    exact mem_occurrences hm hne (Nat.zero_le _) (Nat.lt_succ_self _)

/-- A marker that `tokenize_timestamps` writes around a value. -/
def timestampMarker (style : TimestampStyle) (value : Bytes) : Bytes :=
  timestampMarkerPrefix ++ timestampStyleKey style ++ bytes ":" ++ value ++ timestampMarkerSuffix

theorem eq_key_of_timestampStyleFromKey {key : Bytes} {style : TimestampStyle}
    (h : timestampStyleFromKey key = some style) : key = timestampStyleKey style := by
  obtain ⟨entry, hentry, rfl⟩ := Option.map_eq_some_iff.mp h
  have hkey := List.find?_some hentry
  have hknown : ∀ entry ∈ timestampStyleKeys, timestampStyleKey entry.1 = bytes entry.2 := by
    decide
  rw [hknown entry (List.mem_of_find?_eq_some hentry)]
  exact (beq_iff_eq.mp hkey).symm

/-- The part of the text is a known timestamp marker, up to the first suffix behind its
value, or what the capture group of a pattern has matched. -/
inductive TimestampSpan (input : Bytes) (bounds : ℕ × ℕ) (token : TimestampToken) : Prop
  | marker (style : TimestampStyle) (value : Bytes)
      (text : slice input bounds = timestampMarker style value)
      (first : indexOf timestampMarkerSuffix (value ++ timestampMarkerSuffix) = some value.length)
      (token : token = makeToken style value)
  | captured (p : TimestampPattern) (pattern : p ∈ timestampPatterns) (found : Match)
      (mem : found ∈ p.expression.allMatches input)
      (group : found.group? p.captureGroup = some bounds)
      (token : token = makeToken p.style (slice input bounds))

theorem slice_eq (front m behind : Bytes) {start finish : ℕ}
    (hinput : input = front ++ (m ++ behind)) (hstart : start = front.length)
    (hfinish : finish = (front ++ m).length) : slice input (start, finish) = m := by
  rw [slice, hinput, hstart, hfinish, List.drop_left, List.length_append, Nat.add_sub_cancel_left,
    List.take_left]

/-- Behind the prefix of a marker: its key up to the first colon, its value up to the first suffix
behind that, and what follows the marker. -/
structure MarkerBehind (rest key value behind : Bytes) : Prop where
  leads : ∃ text, Leads (bytes ":") rest key text ∧ Leads timestampMarkerSuffix text value behind

/-- How far the scan for markers may have come in the text: it goes on behind each marker, known or
not, and behind a prefix that begins none. -/
inductive Scans (input : Bytes) : Bytes → Bytes → Prop
  | start : Scans input [] input
  | behindMarker {done text part rest key value behind : Bytes} (scans : Scans input done text)
      (leads : Leads timestampMarkerPrefix text part rest)
      (marker : MarkerBehind rest key value behind) :
      Scans input (done ++ part ++ timestampMarkerPrefix ++ key ++ bytes ":" ++ value ++
        timestampMarkerSuffix) behind
  | behindPrefix {done text part rest : Bytes} (scans : Scans input done text)
      (leads : Leads timestampMarkerPrefix text part rest)
      (unfinished : ∀ key value behind, ¬ MarkerBehind rest key value behind) :
      Scans input (done ++ part ++ timestampMarkerPrefix) rest

theorem Scans.input_eq {done text : Bytes} (h : Scans input done text) : input = done ++ text := by
  induction h with
  | start => rfl
  | behindMarker _ leads marker ih =>
    obtain ⟨text, hkey, hvalue⟩ := marker.leads
    rw [ih, leads.text_eq, hkey.text_eq, hvalue.text_eq]
    simp only [List.append_assoc]
  | behindPrefix _ leads _ ih =>
    rw [ih, leads.text_eq]
    simp only [List.append_assoc]

/-- What becomes a timestamp: a known marker that the scan comes to, or what a pattern captures. -/
inductive TimestampHere (input : Bytes) : MatchCandidate → Prop
  | marker {done text part rest value behind : Bytes} (style : TimestampStyle)
      (scans : Scans input done text) (leads : Leads timestampMarkerPrefix text part rest)
      (marker : MarkerBehind rest (timestampStyleKey style) value behind) :
      TimestampHere input ⟨(done ++ part).length, (timestampMarker style value).length, -100,
        .timestamp (makeToken style value)⟩
  | captured {p : TimestampPattern} (pattern : p ∈ timestampPatterns) {found : Match}
      (mem : found ∈ p.expression.allMatches input) {bounds : ℕ × ℕ}
      (group : found.group? p.captureGroup = some bounds) :
      TimestampHere input ⟨bounds.1, bounds.2 - bounds.1, p.priority,
        .timestamp (makeToken p.style (slice input bounds))⟩

/-- The part of the text that the candidate covers. -/
def MatchCandidate.bounds (c : MatchCandidate) : ℕ × ℕ := (c.position, c.position + c.length)

/-- What a candidate says about the text. -/
structure TimestampFound (input : Bytes) (c : MatchCandidate) : Prop where
  length_pos : 0 < c.length
  within : c.position + c.length ≤ input.length
  token : ∃ token, c.segment = .timestamp token ∧ TimestampSpan input c.bounds token

/-- The two searches behind a prefix find the ends of the key and of the value. -/
theorem markerEnd_eq_some_iff {done rest : Bytes} {separator suffix : ℕ} :
    (do
      let separator ← find (done ++ rest) (bytes ":") done.length
      let suffix ← find (done ++ rest) timestampMarkerSuffix (separator + 1)
      return (separator, suffix)) = some (separator, suffix) ↔
    ∃ key value behind, MarkerBehind rest key value behind ∧ separator = (done ++ key).length ∧
      suffix = (done ++ key ++ bytes ":" ++ value).length := by
  simp only [Option.bind_eq_bind, Option.bind_eq_some_iff, Option.pure_def, Option.some.injEq,
    Prod.mk.injEq]
  have hcolon (key : Bytes) : (done ++ key).length + 1 = (done ++ key ++ bytes ":").length := by
    have hone : (bytes ":").length = 1 := by decide
    simp only [List.length_append, hone]
  have hsplit {key text : Bytes} (hkey : Leads (bytes ":") rest key text) :
      done ++ rest = done ++ key ++ bytes ":" ++ text := by
    rw [hkey.text_eq]
    simp only [List.append_assoc]
  constructor
  · rintro ⟨_, hseparator, _, hsuffix, rfl, rfl⟩
    obtain ⟨key, text, hkey, rfl⟩ := exists_leads_of_find hseparator
    rw [hcolon, hsplit hkey] at hsuffix
    obtain ⟨value, behind, hvalue, rfl⟩ := exists_leads_of_find hsuffix
    exact ⟨key, value, behind, ⟨text, hkey, hvalue⟩, rfl, rfl⟩
  · rintro ⟨key, value, behind, ⟨text, hkey, hvalue⟩, rfl, rfl⟩
    refine ⟨_, hkey.find_eq done, _, ?_, rfl, rfl⟩
    rw [hcolon, hsplit hkey]
    exact hvalue.find_eq _

section

variable {done text part rest key value : Bytes} {fuel : ℕ}

theorem markerCandidates_marker (leads : Leads timestampMarkerPrefix text part rest)
    (marker : MarkerBehind rest key value behind) :
    markerCandidates (done ++ text) (fuel + 1) done.length =
      ((timestampStyleFromKey key).map fun style => (⟨(done ++ part).length,
        (timestampMarker style value).length, -100,
          .timestamp (makeToken style value)⟩ : MatchCandidate)).toList ++
      markerCandidates (done ++ text) fuel (done ++ part ++ timestampMarkerPrefix ++ key ++
        bytes ":" ++ value ++ timestampMarkerSuffix).length := by
  have hinput : done ++ text = done ++ part ++ timestampMarkerPrefix ++ rest := by
    rw [leads.text_eq]
    simp only [List.append_assoc]
  have hbegin : (done ++ part).length + timestampMarkerPrefix.length =
      (done ++ part ++ timestampMarkerPrefix).length := List.length_append.symm
  have hfinish : (done ++ part ++ timestampMarkerPrefix ++ key ++ bytes ":" ++ value).length +
      timestampMarkerSuffix.length = (done ++ part ++ timestampMarkerPrefix ++ key ++ bytes ":" ++
        value ++ timestampMarkerSuffix).length := List.length_append.symm
  obtain ⟨after, hkey, hvalue⟩ := marker.leads
  have hslice : slice (done ++ part ++ timestampMarkerPrefix ++ rest)
      ((done ++ part ++ timestampMarkerPrefix).length,
        (done ++ part ++ timestampMarkerPrefix ++ key).length) = key :=
    slice_eq _ key (bytes ":" ++ after) (by rw [hkey.text_eq]) rfl rfl
  have hslice' : slice (done ++ part ++ timestampMarkerPrefix ++ rest)
      ((done ++ part ++ timestampMarkerPrefix ++ key).length + 1,
        (done ++ part ++ timestampMarkerPrefix ++ key ++ bytes ":" ++ value).length) = value := by
    have hone : (bytes ":").length = 1 := by decide
    apply slice_eq (done ++ part ++ timestampMarkerPrefix ++ key ++ bytes ":") value
      (timestampMarkerSuffix ++ behind)
    · rw [hkey.text_eq, hvalue.text_eq]
      simp only [List.append_assoc]
    · simp only [List.length_append, hone]
    · rfl
  rw [markerCandidates.eq_def]
  dsimp only
  rw [leads.find_eq]
  dsimp only
  rw [hbegin, hinput, markerEnd_eq_some_iff.mpr ⟨key, value, behind, marker, rfl, rfl⟩]
  dsimp only
  rw [hslice, hslice', hfinish]
  cases hstyle : timestampStyleFromKey key with
  | none => rfl
  | some style =>
    obtain rfl := eq_key_of_timestampStyleFromKey hstyle
    have hlength : (done ++ part ++ timestampMarkerPrefix ++ timestampStyleKey style ++ bytes ":" ++
        value ++ timestampMarkerSuffix).length - (done ++ part).length =
          (timestampMarker style value).length := by
      simp only [timestampMarker, List.length_append]
      omega
    dsimp only
    rw [hlength]
    rfl

theorem markerCandidates_prefix (leads : Leads timestampMarkerPrefix text part rest)
    (unfinished : ∀ key value behind, ¬ MarkerBehind rest key value behind) :
    markerCandidates (done ++ text) (fuel + 1) done.length =
      markerCandidates (done ++ text) fuel (done ++ part ++ timestampMarkerPrefix).length := by
  have hinput : done ++ text = done ++ part ++ timestampMarkerPrefix ++ rest := by
    rw [leads.text_eq]
    simp only [List.append_assoc]
  have hbegin : (done ++ part).length + timestampMarkerPrefix.length =
      (done ++ part ++ timestampMarkerPrefix).length := List.length_append.symm
  rw [markerCandidates.eq_def]
  dsimp only
  rw [leads.find_eq]
  dsimp only
  rw [hbegin, hinput]
  split
  · rfl
  · rename_i separator suffix hend
    obtain ⟨key, value, behind, hmarker, -⟩ := markerEnd_eq_some_iff.mp hend
    exact absurd hmarker (unfinished key value behind)

/-- The scan finds no other markers. -/
theorem timestampHere_of_mem_markerCandidates (scans : Scans input done text)
    (h : c ∈ markerCandidates input fuel done.length) : TimestampHere input c := by
  induction fuel generalizing done text with
  | zero => cases h
  | succ fuel ih =>
    cases hindex : indexOf timestampMarkerPrefix text with
    | none =>
      unfold markerCandidates at h
      rw [scans.input_eq, find_append, hindex] at h
      cases h
    | some n =>
      obtain ⟨part, rest, hleads, -⟩ := exists_leads hindex
      by_cases hmarker : ∃ key value behind, MarkerBehind rest key value behind
      · obtain ⟨key, value, behind, hmarker⟩ := hmarker
        have hnext := scans.behindMarker hleads hmarker
        rw [scans.input_eq, markerCandidates_marker hleads hmarker, ← scans.input_eq,
          List.mem_append, Option.mem_toList, Option.map_eq_some_iff] at h
        rcases h with ⟨style, hstyle, rfl⟩ | h
        · obtain rfl := eq_key_of_timestampStyleFromKey hstyle
          exact .marker style scans hleads hmarker
        · exact ih hnext h
      · push Not at hmarker
        rw [scans.input_eq, markerCandidates_prefix hleads hmarker, ← scans.input_eq] at h
        exact ih (scans.behindPrefix hleads hmarker) h

/-- Wherever the scan may come, the loop comes, and with steps left. -/
theorem exists_markerCandidates_subset (scans : Scans input done text) :
    ∃ fuel, text.length < fuel ∧
      markerCandidates input fuel done.length ⊆ markerCandidates input (input.length + 1) 0 := by
  induction scans with
  | start => exact ⟨_, Nat.lt_succ_self _, List.Subset.refl _⟩
  | behindMarker scans leads marker ih =>
    obtain ⟨fuel, hfuel, hsubset⟩ := ih
    obtain ⟨after, hkey, hvalue⟩ := marker.leads
    obtain ⟨fuel, rfl⟩ := Nat.exists_eq_add_of_lt (Nat.zero_lt_of_lt hfuel)
    rw [leads.text_eq, hkey.text_eq, hvalue.text_eq] at hfuel
    simp only [List.length_append] at hfuel
    rw [Nat.zero_add, scans.input_eq, markerCandidates_marker leads marker,
      ← scans.input_eq] at hsubset
    refine ⟨fuel, ?_, (List.append_subset.mp hsubset).2⟩
    have hone : (bytes ":").length = 1 := by decide
    omega
  | behindPrefix scans leads unfinished ih =>
    obtain ⟨fuel, hfuel, hsubset⟩ := ih
    obtain ⟨fuel, rfl⟩ := Nat.exists_eq_add_of_lt (Nat.zero_lt_of_lt hfuel)
    rw [leads.text_eq] at hfuel
    simp only [List.length_append] at hfuel
    rw [Nat.zero_add, scans.input_eq, markerCandidates_prefix leads unfinished,
      ← scans.input_eq] at hsubset
    have hprefix : timestampMarkerPrefix.length = 12 := by decide
    exact ⟨fuel, by omega, hsubset⟩

end

/-- The timestamp candidates are the known markers and the captures. -/
theorem mem_timestampCandidates_iff : c ∈ timestampCandidates input ↔ TimestampHere input c := by
  rw [timestampCandidates, sortCandidates, List.mem_insertionSort, List.mem_append,
    List.mem_flatMap]
  constructor
  · rintro (hmarker | ⟨p, hp, hpattern⟩)
    · exact timestampHere_of_mem_markerCandidates .start hmarker
    · obtain ⟨M, hM, hbounds⟩ := List.mem_filterMap.mp hpattern
      obtain ⟨bounds, hgroup, rfl⟩ := Option.map_eq_some_iff.mp hbounds
      exact .captured hp hM hgroup
  · rintro (⟨style, scans, leads, marker⟩ | ⟨hp, hM, hgroup⟩)
    · obtain ⟨fuel, hfuel, hsubset⟩ := exists_markerCandidates_subset scans
      obtain ⟨fuel, rfl⟩ := Nat.exists_eq_add_of_lt (Nat.zero_lt_of_lt hfuel)
      rw [Nat.zero_add, scans.input_eq, markerCandidates_marker leads marker,
        ← scans.input_eq, timestampStyleFromKey_key] at hsubset
      exact .inl (hsubset (List.mem_append_left _ List.mem_cons_self))
    · exact .inr ⟨_, hp, List.mem_filterMap.mpr
        ⟨_, hM, Option.map_eq_some_iff.mpr ⟨_, hgroup, rfl⟩⟩⟩

/-- The part of a pattern that becomes the timestamp. -/
def TimestampPattern.stamps (p : TimestampPattern) : List Regex :=
  if p.captureGroup = 0 then [p.expression]
  else (p.expression.captures.filter (·.1 == p.captureGroup)).map (·.2)

theorem consumes_timestampPatterns : ∀ p ∈ timestampPatterns, p.expression.consumes = true := by
  decide

theorem consumes_stamps : ∀ p ∈ timestampPatterns, ∀ a ∈ p.stamps, a.consumes = true := by
  decide

theorem exists_of_group {p : TimestampPattern} (hp : p.expression.consumes = true) {M : Match}
    (hM : M ∈ p.expression.allMatches input) {bounds : ℕ × ℕ}
    (hgroup : M.group? p.captureGroup = some bounds) : ∃ a ∈ p.stamps, ∃ x t z,
      input = x ++ (t ++ z) ∧ a.Matches x t z ∧ bounds = (x.length, x.length + t.length) := by
  obtain ⟨x, m, z, rfl, hfirst, hbegin, hfinish⟩ := exists_first_of_mem hp hM
  rw [Match.group?] at hgroup
  rw [TimestampPattern.stamps]
  split_ifs at hgroup ⊢ with hzero
  · obtain rfl := Option.some.inj hgroup
    refine ⟨_, List.mem_singleton_self _, x, m, z, rfl, hfirst.matches, ?_⟩
    rw [hbegin, hfinish]
  · obtain ⟨a, x', t, y, ha, rfl, ht, rfl⟩ := hfirst.captured hgroup
    refine ⟨a, ?_, x ++ x', t, y ++ z, by simp, ht, by rw [List.length_append]⟩
    rw [List.mem_map]
    exact ⟨(p.captureGroup, a), List.mem_filter.mpr ⟨ha, beq_self_eq_true _⟩, rfl⟩

theorem TimestampHere.found (h : TimestampHere input c) : TimestampFound input c := by
  cases h with
  | @marker done text part rest value behind style scans leads marker =>
    obtain ⟨after, hkey, hvalue⟩ := marker.leads
    have hinput : input = done ++ part ++ (timestampMarker style value ++ behind) := by
      rw [scans.input_eq, leads.text_eq, hkey.text_eq, hvalue.text_eq]
      simp only [timestampMarker, List.append_assoc]
    have hfirst : indexOf timestampMarkerSuffix (value ++ timestampMarkerSuffix) =
        some value.length := by
      have hindex := hvalue.indexOf_eq
      rw [hvalue.text_eq] at hindex
      exact indexOf_cut hindex
    have hlength := congrArg List.length hinput
    simp only [List.length_append] at hlength
    refine ⟨?_, ?_, _, rfl, .marker style value ?_ hfirst rfl⟩
    · simp only [timestampMarker, List.length_append, timestampMarkerSuffix]
      exact Nat.lt_add_left _ (by decide)
    · simp only [List.length_append]
      omega
    · exact slice_eq (done ++ part) (timestampMarker style value) behind hinput rfl
        List.length_append.symm
  | @captured p hp M hM bounds hgroup =>
    obtain ⟨a, ha, x, t, z, hinput, ht, rfl⟩ :=
      exists_of_group (consumes_timestampPatterns p hp) hM hgroup
    have hpos := List.length_pos_iff.mpr (ht.ne_nil (consumes_stamps p hp a ha))
    have hlength := congrArg List.length hinput
    simp only [List.length_append] at hlength
    have hcancel : x.length + t.length - x.length = t.length := Nat.add_sub_cancel_left ..
    refine ⟨?_, ?_, _, rfl, ?_⟩
    · simp only [hcancel]
      exact hpos
    · simp only [hcancel]
      omega
    · simp only [MatchCandidate.bounds, hcancel]
      exact .captured p hp M hM hgroup rfl

theorem timestampFound (h : c ∈ timestampCandidates input) : TimestampFound input c :=
  (mem_timestampCandidates_iff.mp h).found

/-- The markers beside the timestamps, each with its priority and its segment. -/
def plainMarkers : List (Bytes × ℤ × RenderSegment) :=
  privacyTokenKinds.map (fun kind => (PrivacyAnonymizer.marker kind, 100, .privacy kind)) ++
    [(sourceIpMarker, 90, .sourceIp), (destinationIpMarker, 90, .destinationIp)]

theorem unbordered_plainMarkers : ∀ entry ∈ plainMarkers, Unbordered entry.1 ∧ entry.1 ≠ [] := by
  have htoken {token : Bytes} (h : validToken token = true) :
      Unbordered (braced token) ∧ braced token ≠ [] :=
    ⟨LogRenderer.unbordered_braced h, LogRenderer.braced_ne_nil token⟩
  have hprivacy (kind : PrivacyTokenKind) (hkind : kind ≠ .none) :
      Unbordered (PrivacyAnonymizer.marker kind) ∧ PrivacyAnonymizer.marker kind ≠ [] := by
    cases kind
    case none => exact absurd rfl hkind
    all_goals exact htoken (by decide)
  simp only [plainMarkers, List.forall_mem_append, List.forall_mem_map, List.forall_mem_cons]
  refine ⟨fun kind hkind => hprivacy kind ?_, htoken (by decide), htoken (by decide), nofun⟩
  rintro rfl
  exact absurd hkind (by decide)

theorem mem_markerSegments {priority : ℤ} {segment : RenderSegment} (hm : Unbordered m)
    (hne : m ≠ []) : c ∈ markerSegments input m priority segment ↔
      ∃ front behind, input = front ++ (m ++ behind) ∧
        c = ⟨front.length, m.length, priority, segment⟩ := by
  rw [markerSegments, List.mem_map]
  constructor
  · rintro ⟨n, hn, rfl⟩
    obtain ⟨front, behind, hinput, rfl⟩ := (mem_allOccurrences hm hne).mp hn
    exact ⟨front, behind, hinput, rfl⟩
  · rintro ⟨front, behind, hinput, rfl⟩
    exact ⟨front.length, (mem_allOccurrences hm hne).mpr ⟨front, behind, hinput, rfl⟩, rfl⟩

/-- What the text can be compiled into: the timestamps, and the other markers wherever they
stand. -/
inductive Candidate (input : Bytes) : MatchCandidate → Prop
  | timestamp {c : MatchCandidate} (here : TimestampHere input c) : Candidate input c
  | plain {entry : Bytes × ℤ × RenderSegment} (marker : entry ∈ plainMarkers)
      {front behind : Bytes} (text : input = front ++ (entry.1 ++ behind)) :
      Candidate input ⟨front.length, entry.1.length, entry.2.1, entry.2.2⟩

def candidatesIn (input : Bytes) : Set MatchCandidate := {c | Candidate input c}

/-- `compile_segments` collects all of the candidates, and nothing else. -/
theorem mem_segmentCandidates : c ∈ segmentCandidates input ↔ c ∈ candidatesIn input := by
  have hplain : c ∈ segmentCandidates input ↔ c ∈ timestampCandidates input ∨
      ∃ entry ∈ plainMarkers, c ∈ markerSegments input entry.1 entry.2.1 entry.2.2 := by
    rw [segmentCandidates, sortCandidates, List.mem_insertionSort]
    simp only [plainMarkers, List.mem_append, List.mem_flatMap, List.mem_map, List.mem_cons,
      List.not_mem_nil, or_false, or_and_right, exists_or, exists_exists_and_eq_and,
      exists_eq_left, or_assoc]
  rw [hplain, mem_timestampCandidates_iff]
  constructor
  · rintro (here | ⟨entry, hentry, hmem⟩)
    · exact .timestamp here
    · obtain ⟨hm, hne⟩ := unbordered_plainMarkers entry hentry
      obtain ⟨front, behind, htext, rfl⟩ := (mem_markerSegments hm hne).mp hmem
      exact .plain hentry htext
  · rintro (here | ⟨hentry, htext⟩)
    · exact .inl here
    · obtain ⟨hm, hne⟩ := unbordered_plainMarkers _ hentry
      exact .inr ⟨_, hentry, (mem_markerSegments hm hne).mpr ⟨_, _, htext, rfl⟩⟩

/-- What the segment says about the part of the text. -/
def RenderSegment.StandsFor (input : Bytes) (bounds : ℕ × ℕ) : RenderSegment → Prop
  | .literal text => slice input bounds = text
  | .timestamp token => TimestampSpan input bounds token
  | .privacy kind => kind ≠ .none ∧ slice input bounds = PrivacyAnonymizer.marker kind
  | .sourceIp => slice input bounds = sourceIpMarker
  | .destinationIp => slice input bounds = destinationIpMarker

def RenderSegment.isLiteral : RenderSegment → Bool
  | .literal _ => true
  | _ => false

/-- A segment with the part of the text it stands for. -/
structure SegmentSpan (input : Bytes) where
  segment : RenderSegment
  bounds : ℕ × ℕ
  nonempty : bounds.1 < bounds.2
  within : bounds.2 ≤ input.length
  standsFor : segment.StandsFor input bounds

/-- The parts follow one another from the cursor to the end of the text. -/
def Tiles (input : Bytes) : ℕ → List (SegmentSpan input) → Prop
  | cursor, [] => cursor = input.length
  | cursor, span :: spans => span.bounds.1 = cursor ∧ Tiles input span.bounds.2 spans

/-- Of the candidates from the cursor on one that begins first, and of these a longest. -/
structure Chosen (candidates : Set MatchCandidate) (cursor : ℕ) (c : MatchCandidate) : Prop where
  mem : c ∈ candidates
  le : cursor ≤ c.position
  leftmost : ∀ d ∈ candidates, cursor ≤ d.position → c.position ≤ d.position
  longest : ∀ d ∈ candidates, d.position = c.position → d.length ≤ c.length

/-- The segments beside the literals are the candidates chosen one after another, each
from the end of the one before it on. -/
inductive Greedy {input : Bytes} (candidates : Set MatchCandidate) :
    ℕ → List (SegmentSpan input) → Prop
  | done {cursor : ℕ} (h : ∀ d ∈ candidates, d.position < cursor) : Greedy candidates cursor []
  | take {cursor : ℕ} {span : SegmentSpan input} {spans : List (SegmentSpan input)}
      (c : MatchCandidate) (chosen : Chosen candidates cursor c)
      (segment : span.segment = c.segment) (bounds : span.bounds = c.bounds)
      (behind : Greedy candidates span.bounds.2 spans) : Greedy candidates cursor (span :: spans)

theorem plainMarkers_standFor {bounds : ℕ × ℕ} : ∀ entry ∈ plainMarkers,
    slice input bounds = entry.1 →
      entry.2.2.StandsFor input bounds ∧ entry.2.2.isLiteral = false := by
  simp only [plainMarkers, List.forall_mem_append, List.forall_mem_map, List.forall_mem_cons]
  refine ⟨fun kind hkind h => ⟨⟨?_, h⟩, rfl⟩, fun h => ⟨h, rfl⟩, fun h => ⟨h, rfl⟩, nofun⟩
  rintro rfl
  exact absurd hkind (by decide)

theorem exists_span (h : c ∈ candidatesIn input) : ∃ span : SegmentSpan input,
    span.segment = c.segment ∧ span.bounds = c.bounds ∧ c.segment.isLiteral = false := by
  cases h with
  | timestamp here =>
    obtain ⟨hpos, hwithin, token, hsegment, hspan⟩ := here.found
    have hstands : c.segment.StandsFor input c.bounds := by
      rw [hsegment]
      exact hspan
    refine ⟨⟨c.segment, c.bounds, Nat.lt_add_of_pos_right hpos, hwithin, hstands⟩, rfl, rfl, ?_⟩
    rw [hsegment]
    rfl
  | @plain entry hentry front behind hinput =>
    have hpos := List.length_pos_iff.mpr (unbordered_plainMarkers entry hentry).2
    have hlength := congrArg List.length hinput
    simp only [List.length_append] at hlength
    obtain ⟨hstands, hliteral⟩ := plainMarkers_standFor entry hentry
      (slice_eq front entry.1 behind hinput rfl List.length_append.symm)
    exact ⟨⟨entry.2.2, (front.length, front.length + entry.1.length),
      Nat.lt_add_of_pos_right hpos, by omega, hstands⟩, rfl, rfl, hliteral⟩

theorem take_slice_drop (input : Bytes) {a b : ℕ} (h : a ≤ b) :
    input.take a ++ (slice input (a, b) ++ input.drop b) = input := by
  have hdrop : input.drop b = (input.drop a).drop (b - a) := by
    rw [List.drop_drop, Nat.add_sub_cancel' h]
  rw [slice, hdrop, List.take_append_drop, List.take_append_drop]

theorem Chosen.at_position {candidates : Set MatchCandidate} {cursor : ℕ}
    (h : Chosen candidates cursor c) : Chosen candidates c.position c :=
  ⟨h.mem, le_rfl, fun _ _ hle => hle, h.longest⟩

theorem before_trans {c d e : MatchCandidate} (hcd : c.Before d) (hde : d.Before e) :
    c.Before e := by
  unfold MatchCandidate.Before at *
  split_ifs at * <;> omega

theorem before_total (c d : MatchCandidate) : c.Before d ∨ d.Before c := by
  unfold MatchCandidate.Before
  split_ifs <;> omega

instance : IsTrans MatchCandidate MatchCandidate.Before := ⟨fun _ _ _ => before_trans⟩

instance : Std.Total MatchCandidate.Before := ⟨before_total⟩

theorem pairwise_sortCandidates (candidates : List MatchCandidate) :
    (sortCandidates candidates).Pairwise MatchCandidate.Before :=
  List.pairwise_insertionSort _ candidates

theorem MatchCandidate.Before.position_le (h : c.Before d) : c.position ≤ d.position := by
  unfold MatchCandidate.Before at h
  split_ifs at h <;> omega

theorem MatchCandidate.Before.length_le (h : c.Before d) (hposition : d.position = c.position) :
    d.length ≤ c.length := by
  unfold MatchCandidate.Before at h
  split_ifs at h <;> omega

/-- The segments from the cursor on, each with its part of the text. -/
structure Swept (candidates : Set MatchCandidate) (cursor : ℕ) (segments : List RenderSegment)
    (spans : List (SegmentSpan input)) : Prop where
  segments_eq : segments = spans.map (·.segment)
  tiles : Tiles input cursor spans
  greedy : Greedy candidates cursor (spans.filter fun span => !span.segment.isLiteral)
  apart : spans.IsChain fun span next =>
    ¬ (span.segment.isLiteral = true ∧ next.segment.isLiteral = true)
  gaps : ∀ span ∈ spans, span.segment.isLiteral = true →
    ∀ d ∈ candidates, span.bounds.1 ≤ d.position → span.bounds.2 ≤ d.position

namespace Swept

variable {candidates : Set MatchCandidate} {cursor : ℕ} {segments : List RenderSegment}
  {span : SegmentSpan input} {spans : List (SegmentSpan input)}

theorem done (h : ∀ d ∈ candidates, d.position < input.length) :
    @Swept input candidates input.length [] [] :=
  ⟨rfl, rfl, .done h, .nil, fun _ hspan => absurd hspan List.not_mem_nil⟩

theorem rest (h : ∀ d ∈ candidates, d.position < cursor) (hcursor : cursor < input.length) :
    ∃ span : SegmentSpan input,
      Swept candidates cursor [.literal (input.drop cursor)] [span] := by
  have hslice : slice input (cursor, input.length) = input.drop cursor := by
    rw [slice, ← List.length_drop, List.take_length]
  refine ⟨⟨.literal (input.drop cursor), (cursor, input.length), hcursor, le_rfl, hslice⟩,
    rfl, ⟨rfl, rfl⟩, .done h, .singleton _, ?_⟩
  rw [List.forall_mem_singleton]
  exact fun _ d hd hle => absurd (h d hd) (not_lt.mpr hle)

theorem take (h : Swept candidates span.bounds.2 segments spans)
    (hc : Chosen candidates c.position c) (hsegment : span.segment = c.segment)
    (hbounds : span.bounds = c.bounds) (hliteral : c.segment.isLiteral = false) :
    Swept candidates c.position (c.segment :: segments) (span :: spans) := by
  have hspan : span.segment.isLiteral = false := by rw [hsegment, hliteral]
  refine ⟨?_, ⟨?_, h.tiles⟩, ?_, ?_, ?_⟩
  · rw [h.segments_eq, List.map_cons, hsegment]
  · rw [hbounds]
    rfl
  · rw [List.filter_cons_of_pos (by rw [hspan]; rfl)]
    exact .take c hc hsegment hbounds h.greedy
  · refine h.apart.cons fun next _ hboth => ?_
    rw [hspan] at hboth
    exact Bool.false_ne_true hboth.1
  · rw [List.forall_mem_cons]
    refine ⟨fun h => ?_, h.gaps⟩
    rw [hspan] at h
    cases h

/-- The text before the candidate chosen next becomes a literal. -/
theorem gap (h : Swept candidates c.position (c.segment :: segments) (span :: spans))
    (hc : Chosen candidates cursor c) (hposition : cursor < c.position)
    (hsegment : span.segment = c.segment) (hbounds : span.bounds = c.bounds)
    (hliteral : c.segment.isLiteral = false) : ∃ gap : SegmentSpan input,
      Swept candidates cursor
        (.literal (slice input (cursor, c.position)) :: c.segment :: segments)
        (gap :: span :: spans) := by
  have hspan : span.segment.isLiteral = false := by rw [hsegment, hliteral]
  have hwithin : c.position ≤ input.length := by
    have hstart : span.bounds.1 = c.position := by rw [hbounds]; rfl
    rw [← hstart]
    exact span.nonempty.le.trans span.within
  refine ⟨⟨.literal (slice input (cursor, c.position)), (cursor, c.position), hposition, hwithin,
    rfl⟩, ?_, ⟨rfl, h.tiles⟩, ?_, ?_, ?_⟩
  · rw [h.segments_eq]
    rfl
  · have hgreedy := h.greedy
    rw [List.filter_cons_of_pos (by rw [hspan]; rfl)] at hgreedy
    rw [List.filter_cons_of_neg (by simp [RenderSegment.isLiteral]),
      List.filter_cons_of_pos (by rw [hspan]; rfl)]
    cases hgreedy with
    | take _ _ _ _ hbehind => exact .take c hc hsegment hbounds hbehind
  · refine List.IsChain.cons_cons (fun hboth => ?_) h.apart
    rw [hspan] at hboth
    exact Bool.false_ne_true hboth.2
  · rw [List.forall_mem_cons]
    exact ⟨fun _ d hd hle => hc.leftmost d hd hle, h.gaps⟩

theorem next (h : Swept candidates span.bounds.2 segments spans) (hc : Chosen candidates cursor c)
    (hsegment : span.segment = c.segment) (hbounds : span.bounds = c.bounds)
    (hliteral : c.segment.isLiteral = false) : ∃ spans : List (SegmentSpan input),
      Swept candidates cursor
        ((if cursor < c.position then [.literal (slice input (cursor, c.position))] else []) ++
          c.segment :: segments) spans := by
  have htake := h.take hc.at_position hsegment hbounds hliteral
  split_ifs with hposition
  · obtain ⟨gap, hgap⟩ := htake.gap hc hposition hsegment hbounds hliteral
    exact ⟨_, hgap⟩
  · rw [le_antisymm hc.le (not_lt.mp hposition)]
    exact ⟨_, htake⟩

theorem length_eq (h : @Swept input candidates cursor [] spans) : cursor = input.length := by
  have htiles := h.tiles
  rw [List.map_eq_nil_iff.mp h.segments_eq.symm] at htiles
  exact htiles

/-- A place where a marker begins is the place of a candidate. -/
theorem free (h : @Swept input (candidatesIn input) cursor segments spans) {text : Bytes}
    (htext : .literal text ∈ segments) : ∀ entry ∈ plainMarkers, Free entry.1 text := by
  rw [h.segments_eq] at htext
  obtain ⟨span, hspan, hsegment⟩ := List.mem_map.mp htext
  have hliteral : span.segment.isLiteral = true := by rw [hsegment]; rfl
  have hslice : slice input span.bounds = text := by
    have hstands := span.standsFor
    rwa [hsegment] at hstands
  rintro entry hentry ⟨front, behind, hmarker⟩
  have hnonempty := span.nonempty
  have hinput : input = input.take span.bounds.1 ++ front ++
      (entry.1 ++ (behind ++ input.drop span.bounds.2)) := by
    have hparts := take_slice_drop input hnonempty.le
    rw [hslice, ← hmarker] at hparts
    simpa only [List.append_assoc] using hparts.symm
  have hgap := h.gaps span hspan hliteral _ (.plain hentry hinput)
  have hpos := List.length_pos_iff.mpr (unbordered_plainMarkers entry hentry).2
  have hlength : text.length = span.bounds.2 - span.bounds.1 := by
    rw [← hslice, slice, List.length_take_of_le]
    rw [List.length_drop]
    exact Nat.sub_le_sub_right span.within _
  rw [← hmarker] at hlength
  simp only [List.length_append,
    List.length_take_of_le (hnonempty.le.trans span.within)] at hgap hlength
  omega

end Swept

/-- The first of the sorted candidates that does not begin before the cursor is chosen. -/
theorem chosen_of_sorted {candidates : Set MatchCandidate} {rest : List MatchCandidate}
    {cursor : ℕ}
    (hsorted : (c :: rest).Pairwise MatchCandidate.Before) (hmem : c ∈ candidates)
    (hgone : ∀ d ∈ candidates, d.position < cursor ∨ d ∈ c :: rest) (hle : cursor ≤ c.position) :
    Chosen candidates cursor c := by
  have hlater : ∀ d ∈ candidates, cursor ≤ d.position → d = c ∨ c.Before d := by
    intro d hd hcursor
    rcases hgone d hd with hlt | hd
    · exact absurd hlt (not_lt.mpr hcursor)
    · exact (List.mem_cons.mp hd).imp_right ((List.pairwise_cons.mp hsorted).1 d)
  refine ⟨hmem, hle, fun d hd hcursor => ?_, fun d hd hposition => ?_⟩
  · rcases hlater d hd hcursor with rfl | hbefore
    · exact le_rfl
    · exact hbefore.position_le
  · rcases hlater d hd (hposition ▸ hle) with rfl | hbefore
    · exact le_rfl
    · exact hbefore.length_le hposition

theorem exists_swept {rest : List MatchCandidate} {cursor : ℕ}
    (hsorted : rest.Pairwise MatchCandidate.Before) (hsub : ∀ d ∈ rest, d ∈ candidatesIn input)
    (hgone : ∀ d ∈ candidatesIn input, d.position < cursor ∨ d ∈ rest)
    (hcursor : cursor ≤ input.length) : ∃ spans : List (SegmentSpan input),
      Swept (candidatesIn input) cursor (segmentsFrom input rest cursor) spans := by
  induction rest generalizing cursor with
  | nil =>
    have hbefore : ∀ d ∈ candidatesIn input, d.position < cursor := by simpa using hgone
    unfold segmentsFrom
    split_ifs with hlt
    · obtain ⟨span, hswept⟩ := Swept.rest hbefore hlt
      exact ⟨[span], hswept⟩
    · obtain rfl := le_antisymm hcursor (not_lt.mp hlt)
      exact ⟨[], .done hbefore⟩
  | cons c rest ih =>
    obtain ⟨hmem, hrest⟩ := List.forall_mem_cons.mp hsub
    have hsorted' := (List.pairwise_cons.mp hsorted).2
    rw [segmentsFrom]
    by_cases hskip : c.position < cursor
    · rw [if_pos hskip]
      apply ih hsorted' hrest _ hcursor
      intro d hd
      rcases hgone d hd with hlt | hd
      · exact .inl hlt
      · rcases List.mem_cons.mp hd with rfl | hd
        · exact .inl hskip
        · exact .inr hd
    · rw [if_neg hskip]
      have hle := not_lt.mp hskip
      have hchosen := chosen_of_sorted hsorted hmem hgone hle
      obtain ⟨span, hsegment, hbounds, hliteral⟩ := exists_span hmem
      have hend : c.position < span.bounds.2 := by
        have hnonempty := span.nonempty
        rwa [hbounds] at hnonempty ⊢
      have hgone' : ∀ d ∈ candidatesIn input, d.position < span.bounds.2 ∨ d ∈ rest := by
        intro d hd
        rcases hgone d hd with hlt | hd
        · exact .inl (hlt.trans (hle.trans_lt hend))
        · rcases List.mem_cons.mp hd with rfl | hd
          · exact .inl hend
          · exact .inr hd
      obtain ⟨spans, hswept⟩ := ih hsorted' hrest hgone' span.within
      have hnext := hswept.next hchosen hsegment hbounds hliteral
      rwa [hbounds] at hnext

/-- Compilation tiles its input, greedily and without gaps, and leaves no marker behind. -/
theorem compileSegments_swept (input : Bytes) :
    (input = [] → compileSegments input = [.literal []]) ∧
    (input ≠ [] → ∃ spans : List (SegmentSpan input),
      Swept (candidatesIn input) 0 (compileSegments input) spans) ∧
    ∀ text, .literal text ∈ compileSegments input → ∀ entry ∈ plainMarkers, Free entry.1 text := by
  have hsorted : (segmentCandidates input).Pairwise MatchCandidate.Before :=
    pairwise_sortCandidates _
  obtain ⟨spans, hswept⟩ := exists_swept hsorted (fun d hd => mem_segmentCandidates.mp hd)
    (fun d hd => .inr (mem_segmentCandidates.mpr hd)) (Nat.zero_le input.length)
  have hempty : input = [] → compileSegments input = [.literal []] := by
    rintro rfl
    decide
  have hswept' (hinput : input ≠ []) : Swept (candidatesIn input) 0 (compileSegments input)
      spans := by
    rw [compileSegments, if_neg]
    · exact hswept
    · intro hnil
      rw [hnil] at hswept
      exact hinput (List.length_eq_zero_iff.mp hswept.length_eq.symm)
  refine ⟨hempty, fun hinput => ⟨spans, hswept' hinput⟩, fun text htext entry hentry => ?_⟩
  by_cases hinput : input = []
  · rw [hempty hinput, List.mem_singleton, RenderSegment.literal.injEq] at htext
    rw [htext]
    exact fun hm => (unbordered_plainMarkers entry hentry).2 (List.infix_nil.mp hm)
  · exact (hswept' hinput).free htext entry hentry

/-- A date, a tokenized date and two other markers. -/
example : compileSegments (bytes "a 20240102 " ++
      bytes "\x7b\x7bTIMESTAMP:DATE:2024-01-02\x7d\x7d\x7b\x7bSRC_IP\x7d\x7d") =
    [.literal (bytes "a "), .timestamp (makeToken .compactDate (bytes "20240102")),
      .literal (bytes " "), .timestamp (makeToken .dateOnly (bytes "2024-01-02")), .sourceIp] := by
  decide

end Application
end LogGenerator
