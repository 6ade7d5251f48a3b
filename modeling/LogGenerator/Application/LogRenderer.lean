import LogGenerator.Application.TimestampFormat
import LogGenerator.Domain.GeneratorConfig

/-!
# The log renderer

From a template to its compiled segments: `tokenize`, the expansion of the test case
and `compile_segments`.
-/

namespace LogGenerator
namespace Application

open Ascii Domain Regex

/-- `\d{1,3}(?:\.\d{1,3}){3}`. -/
def ipAddress : Regex :=
  .seq (between numeral 1 3) (times (.seq (lit ".") (between numeral 1 3)) 3)

/-- `((?:^|[\s,;|{])["']?(?:…)["']?\s*[:=]\s*["']?)(…)`, ignoring case, for a list of names. -/
def addressFieldPattern (names : List String) : Regex :=
  let quoteMark := opt (oneOf "\"'")
  .icase (seqs
    [.group 1 (seqs
      [.alt .begin (.set fun b => isSpace b || (bytes ",;|\x7b").contains b), quoteMark,
      alts (names.map lit), quoteMark, star whitespace, oneOf ":=", star whitespace, quoteMark]),
    .group 2 ipAddress])

def sourceFieldPattern : Regex :=
  addressFieldPattern ["src", "srcip", "src_ip", "src-ip", "srp_ip", "srcaddr", "src_addr",
    "srcaddress", "src_address", "sourceip", "source_ip", "sourceaddress", "source_address",
    "source-address", "clientip", "client_ip", "clientipaddr", "sip", "gateway"]

def destinationFieldPattern : Regex :=
  addressFieldPattern ["dst", "dstip", "dst_ip", "dest_ip", "dstnip", "dstn_ip", "dstaddr",
    "dst_addr", "dstaddress", "dst_address", "destinationip", "destination_ip",
    "destinationaddress", "destination_address", "destination-address", "serverip", "server_ip",
    "dip"]

/-- `(\b)(…)(?=:\d{1,5}\s*(?:-|=)>)`. -/
def arrowSourcePattern : Regex :=
  seqs
    [.group 1 .boundary, .group 2 ipAddress,
    .ahead false (seqs [lit ":", between numeral 1 5, star whitespace, oneOf "-=", lit ">"])]

/-- `((?:-|=)>\s*)(…)`. -/
def arrowDestinationPattern : Regex :=
  seqs [.group 1 (seqs [oneOf "-=", lit ">", star whitespace]), .group 2 ipAddress]

def replaceCapture (input : Bytes) (pattern : Regex) (replacement : Bytes) : Bytes :=
  splice input ((pattern.allMatches input).filterMap fun m =>
    (m.group? 2).map fun bounds => ⟨bounds.1, bounds.2, replacement⟩)

def sourceIpMarker : Bytes := braced (bytes "SRC_IP")

def destinationIpMarker : Bytes := braced (bytes "DST_IP")

namespace LogRenderer

def tokenize (sample : Bytes) : Bytes :=
  let result := PrivacyAnonymizer.sanitize sample
  let result := replaceCapture result sourceFieldPattern sourceIpMarker
  let result := replaceCapture result destinationFieldPattern destinationIpMarker
  let result := replaceCapture result arrowSourcePattern sourceIpMarker
  let result := replaceCapture result arrowDestinationPattern destinationIpMarker
  tokenizeTimestamps result

def tokenizeTestCase (testCase : LogTestCase) : LogTestCase where
  values := testCase.values.map fun entry => (entry.1, entry.2.map tokenize)
  sorted := List.pairwise_map.mpr testCase.sorted

def tokenizeTemplate (item : LogTemplate) : LogTemplate :=
  { item with
    sample := tokenize item.sample
    testCase := tokenizeTestCase item.testCase }

end LogRenderer

/-- The places of `marker` in `input` from `position` on, none overlapping another. -/
def occurrences (input marker : Bytes) : ℕ → ℕ → List ℕ
  | 0, _ => []
  | fuel + 1, position =>
    match find input marker position with
    | none => []
    | some found => found :: occurrences input marker fuel (found + marker.length)

def allOccurrences (input marker : Bytes) : List ℕ :=
  occurrences input marker (input.length + 1) 0

def countOccurrences (input marker : Bytes) : ℕ := (allOccurrences input marker).length

/-- The values of one token put in place of its markers, from `position` on. -/
def substituteValues (marker : Bytes) : List Bytes → Bytes → ℕ → Except Bytes Bytes
  | [], result, _ => .ok result
  | value :: values, result, position =>
    match find result marker position with
    | none => .error (bytes "basic_string::replace")
    | some found =>
      let sanitized := PrivacyAnonymizer.sanitize value
      substituteValues marker values
        (result.take found ++ sanitized ++ result.drop (found + marker.length))
        (found + sanitized.length)

def validToken (token : Bytes) : Bool := token ≠ [] && token.all fun b => isUpper b || b == 95

def expandTokens (id : Bytes) : List (Bytes × List Bytes) → Bytes → Except Bytes Bytes
  | [], result => .ok result
  | (token, values) :: entries, result =>
    if !validToken token then
      .error (bytes "Log test case '" ++ id ++ bytes "' contains an invalid token name")
    else if countOccurrences result (braced token) ≠ values.length then
      .error (bytes "Log test case '" ++ id ++ bytes "' value count does not match " ++
        braced token ++ bytes " occurrences")
    else
      match substituteValues (braced token) values result 0 with
      | .error what => .error what
      | .ok result => expandTokens id entries result

def expandTestCase (item : LogTemplate) : Except Bytes Bytes :=
  expandTokens item.id item.testCase.values item.sample

def markerSegments (input : Bytes) (marker : Bytes) (priority : ℤ) (segment : RenderSegment) :
    List MatchCandidate :=
  (allOccurrences input marker).map fun position => ⟨position, marker.length, priority, segment⟩

def segmentCandidates (input : Bytes) : List MatchCandidate :=
  sortCandidates (timestampCandidates input ++
    privacyTokenKinds.flatMap (fun kind =>
      markerSegments input (PrivacyAnonymizer.marker kind) 100 (.privacy kind)) ++
    markerSegments input sourceIpMarker 90 .sourceIp ++
    markerSegments input destinationIpMarker 90 .destinationIp)

def segmentsFrom (input : Bytes) : List MatchCandidate → ℕ → List RenderSegment
  | [], cursor => if cursor < input.length then [.literal (input.drop cursor)] else []
  | candidate :: candidates, cursor =>
    if candidate.position < cursor then segmentsFrom input candidates cursor
    else
      (if cursor < candidate.position then [.literal (slice input (cursor, candidate.position))]
        else []) ++
        candidate.segment :: segmentsFrom input candidates (candidate.position + candidate.length)

def compileSegments (input : Bytes) : List RenderSegment :=
  let segments := segmentsFrom input (segmentCandidates input) 0
  if segments = [] then [.literal input] else segments

def RenderSegment.isTimestamp : RenderSegment → Bool
  | .timestamp _ => true
  | _ => false

def RenderSegment.isPrivacy : RenderSegment → Bool
  | .privacy _ => true
  | _ => false

def RenderSegment.capacity : RenderSegment → ℕ
  | .literal text => text.length
  | .timestamp _ => 40
  | .privacy _ | .sourceIp | .destinationIp => 64

/-- The flags are those that `make_compiled_log` derives from the segments. -/
structure CompiledLog where
  segments : List RenderSegment
  capacityHint : ℕ
  hasTimestamp : Bool
  hasPrivacy : Bool
  cachePrivacyProfiles : Bool
  capacityHint_eq : capacityHint = (segments.map RenderSegment.capacity).sum
  hasTimestamp_eq : hasTimestamp = segments.any RenderSegment.isTimestamp
  hasPrivacy_eq : hasPrivacy = segments.any RenderSegment.isPrivacy
  cachePrivacyProfiles_eq : cachePrivacyProfiles = (hasPrivacy && capacityHint ≤ 64 * 1024)

def makeCompiledLog (segments : List RenderSegment) : CompiledLog where
  segments := segments
  capacityHint := (segments.map RenderSegment.capacity).sum
  hasTimestamp := segments.any RenderSegment.isTimestamp
  hasPrivacy := segments.any RenderSegment.isPrivacy
  cachePrivacyProfiles := segments.any RenderSegment.isPrivacy &&
    (segments.map RenderSegment.capacity).sum ≤ 64 * 1024
  capacityHint_eq := rfl
  hasTimestamp_eq := rfl
  hasPrivacy_eq := rfl
  cachePrivacyProfiles_eq := rfl

structure LogTemplateAnalysis where
  timestampCount : ℕ := 0
  sourceIpCount : ℕ := 0
  destinationIpCount : ℕ := 0
  privacyTokenCount : ℕ := 0
  privacyTokenMask : UInt32 := 0
  timestampStyles : List TimestampStyle := []
  deriving DecidableEq

/-- The bit of a kind is one less than its place among the enumerators. -/
def privacyTokenBit (kind : PrivacyTokenKind) : UInt32 :=
  match privacyTokenKinds.findIdx? (· == kind) with
  | some index => 1 <<< UInt32.ofNat index
  | none => 0

namespace LogRenderer

def analyzeSegment (result : LogTemplateAnalysis) : RenderSegment → LogTemplateAnalysis
  | .literal _ => result
  | .privacy kind =>
    { result with
      privacyTokenCount := result.privacyTokenCount + 1
      privacyTokenMask := result.privacyTokenMask ||| privacyTokenBit kind }
  | .timestamp token =>
    { result with
      timestampCount := result.timestampCount + 1
      timestampStyles :=
        if result.timestampStyles.contains token.style then result.timestampStyles
        else result.timestampStyles ++ [token.style] }
  | .sourceIp => { result with sourceIpCount := result.sourceIpCount + 1 }
  | .destinationIp => { result with destinationIpCount := result.destinationIpCount + 1 }

def analyze (compiled : CompiledLog) : LogTemplateAnalysis :=
  compiled.segments.foldl analyzeSegment {}

def compile (item : LogTemplate) : Except Bytes CompiledLog :=
  (expandTestCase (tokenizeTemplate item)).map fun expanded =>
    makeCompiledLog (compileSegments expanded)

end LogRenderer
end Application
end LogGenerator
