import LogGenerator.Application.CompileSegments
import LogGenerator.Application.SanitizeStages
import LogGenerator.Foundation.Occurrences
import LogGenerator.Foundation.RegexGroups

/-!
# The patterns of addresses and timestamps

What the patterns match that the tokenizer runs after `sanitize`, and which part of a
match gives way.
-/

namespace LogGenerator
namespace Application

open Ascii PrivacyAnonymizer Regex Runs

/-- The names in `source_field_pattern`. -/
def sourceNames : List String :=
  ["src", "srcip", "src_ip", "src-ip", "srp_ip", "srcaddr", "src_addr", "srcaddress",
    "src_address", "sourceip", "source_ip", "sourceaddress", "source_address", "source-address",
    "clientip", "client_ip", "clientipaddr", "sip", "gateway"]

/-- The names in `destination_field_pattern`. -/
def destinationNames : List String :=
  ["dst", "dstip", "dst_ip", "dest_ip", "dstnip", "dstn_ip", "dstaddr", "dst_addr",
    "dstaddress", "dst_address", "destinationip", "destination_ip", "destinationaddress",
    "destination_address", "destination-address", "serverip", "server_ip", "dip"]

/-- What stands before the address: a boundary, the name, the separator. -/
def fieldHead (names : List String) : Regex :=
  .icase (seqs
    [.alt .begin (.set fun b => isSpace b || (bytes ",;|\x7b").contains b), opt (oneOf "\"'"),
    alts (names.map lit), opt (oneOf "\"'"), star whitespace, oneOf ":=", star whitespace,
    opt (oneOf "\"'")])

theorem icase_set {p : UInt8 → Bool}
    (h : ∀ b, (p b || p (toLower b) || (isLower b && p (b - 32))) = p b) :
    (Regex.set p).icase = .set p := congrArg Regex.set (funext h)

theorem icase_ipAddress : ipAddress.icase = ipAddress := by
  have hnumeral : numeral.icase = numeral := icase_set (by decide)
  have hdot : (Regex.set (· == 46)).icase = .set (· == 46) := icase_set (by decide)
  have hlit : (lit ".").icase = lit "." := congrArg (Regex.seq · .empty) hdot
  simp only [ipAddress, between, times, icase, hnumeral, hlit]

theorem addressFieldPattern_eq (names : List String) : addressFieldPattern names =
    seqs [.group 1 (fieldHead names), .group 2 ipAddress] := by
  have hgroups : addressFieldPattern names =
      seqs [.group 1 (fieldHead names), .group 2 ipAddress.icase] := rfl
  rw [hgroups, icase_ipAddress]

/-- The names are in lower case, and the head of a field captures nothing. -/
structure AddressNames (names : List String) : Prop where
  characters : ∀ name ∈ names, ∀ b ∈ bytes name, isUpper b = false ∧ isSeparator b = false
  groupless : (fieldHead names).groupless = true

theorem addressNames_source : AddressNames sourceNames where
  characters := by decide
  groupless := by decide

theorem addressNames_destination : AddressNames destinationNames where
  characters := by decide
  groupless := by decide

/-- The second group is an address, and nothing else. -/
structure ReplacesAddress (r : Regex) : Prop where
  consumes : r.consumes = true
  captures : ∀ a, (2, a) ∈ r.captures → a = ipAddress
  digits : r.requires isDigit = true
  uses : r.uses 125 = false

theorem captures_addressField {names : List String} (hnames : AddressNames names) (a : Regex)
    (h : (2, a) ∈ (addressFieldPattern names).captures) : a = ipAddress := by
  rw [addressFieldPattern_eq] at h
  simp only [seqs, List.foldr_cons, List.foldr_nil, Regex.captures,
    captures_of_groupless hnames.groupless] at h
  simpa [Regex.captures, captures_of_groupless (show ipAddress.groupless = true by decide)] using h

theorem replacesAddress_source : ReplacesAddress sourceFieldPattern where
  consumes := by decide
  captures := captures_addressField addressNames_source
  digits := by decide
  uses := by decide

theorem replacesAddress_destination : ReplacesAddress destinationFieldPattern where
  consumes := by decide
  captures := captures_addressField addressNames_destination
  digits := by decide
  uses := by decide

theorem replacesAddress_arrowSource : ReplacesAddress arrowSourcePattern where
  consumes := by decide
  captures a h := by
    simpa [arrowSourcePattern, seqs, Regex.captures,
      captures_of_groupless (show ipAddress.groupless = true by decide)] using h
  digits := by decide
  uses := by decide

theorem replacesAddress_arrowDestination : ReplacesAddress arrowDestinationPattern where
  consumes := by decide
  captures a h := by
    simpa [arrowDestinationPattern, seqs, Regex.captures, show (oneOf "-=").captures = [] from rfl,
      show (lit ">").captures = [] from rfl, show (star whitespace).captures = [] from rfl,
      captures_of_groupless (show ipAddress.groupless = true by decide)] using h
  digits := by decide
  uses := by decide

end Application
end LogGenerator
