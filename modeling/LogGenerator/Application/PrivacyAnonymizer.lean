import LogGenerator.Foundation.Calendar
import LogGenerator.Foundation.Regex

/-!
# The privacy anonymizer

The rewriting stages of `sanitize` in their order, the field names they classify,
the markers they leave and the synthetic values that later take their place.
-/

namespace LogGenerator
namespace Application

open Ascii

inductive PrivacyTokenKind where
  | none | person | store | storeCode | userId | employeeId | department | organization | email
  | phone | address | ipAddress | macAddress | host | identifier | secret | filePath
  deriving DecidableEq, Repr

def privacyTokenKinds : List PrivacyTokenKind :=
  [.person, .store, .storeCode, .userId, .employeeId, .department, .organization, .email,
    .phone, .address, .ipAddress, .macAddress, .host, .identifier, .secret, .filePath]

/-- Two opening braces, the name, two closing braces. -/
def braced (name : Bytes) : Bytes := bytes "\x7b\x7b" ++ name ++ bytes "\x7d\x7d"

namespace PrivacyAnonymizer

def marker : PrivacyTokenKind → Bytes
  | .person => braced (bytes "PERSON")
  | .store => braced (bytes "STORE")
  | .storeCode => braced (bytes "STORE_CODE")
  | .userId => braced (bytes "USER_ID")
  | .employeeId => braced (bytes "EMPLOYEE_ID")
  | .department => braced (bytes "DEPARTMENT")
  | .organization => braced (bytes "ORGANIZATION")
  | .email => braced (bytes "EMAIL")
  | .phone => braced (bytes "PHONE")
  | .address => braced (bytes "ADDRESS")
  | .ipAddress => braced (bytes "IP_ADDRESS")
  | .macAddress => braced (bytes "MAC_ADDRESS")
  | .host => braced (bytes "HOST")
  | .identifier => braced (bytes "IDENTIFIER")
  | .secret => braced (bytes "SECRET")
  | .filePath => braced (bytes "FILE_PATH")
  | .none => []

def syntheticProfileCount : ℕ := 50

/-- One digit of `%X`. -/
def hexDigit (d : ℕ) : UInt8 := if d < 10 then digit d else UInt8.ofNat (55 + d)

/-- The field of profile `profileIndex` that stands for a marker. -/
def syntheticValue (kind : PrivacyTokenKind) (profileIndex : ℕ) : Bytes :=
  let number := profileIndex % syntheticProfileCount + 1
  match kind with
  | .person => bytes "홍길동 " ++ decimal number
  | .store => decimal number ++ bytes "호점"
  | .storeCode => decimal number
  | .userId => bytes "user" ++ decimal number
  | .employeeId => bytes "EMP" ++ zeroPadded 4 number
  | .department => bytes "테스트부서 " ++ decimal number
  | .organization => bytes "Your-Company"
  | .email => bytes "user" ++ decimal number ++ bytes "@example.invalid"
  | .phone => bytes "010-0000-" ++ zeroPadded 4 number
  | .address => bytes "서울특별시 테스트로 " ++ decimal number
  | .ipAddress => bytes "198.51.100." ++ decimal number
  | .macAddress => bytes "02:00:00:00:00:" ++ [hexDigit (number / 16), hexDigit (number % 16)]
  | .host => bytes "host-" ++ decimal number
  | .identifier => bytes "id-" ++ zeroPadded 4 number
  | .secret => bytes "secret-" ++ zeroPadded 4 number
  | .filePath =>
    bytes "C:/ProgramData/Your-Company/SecurityData/event-" ++ decimal number ++ bytes ".dat"
  | .none => []

def normalizeField (fieldName : Bytes) : Bytes :=
  fieldName.map fun b => if b == 45 || b == 46 then 95 else toLower b

def containsAny (value : Bytes) (candidates : List String) : Bool :=
  candidates.any fun candidate => contains value (bytes candidate)

def equalsAny (value : Bytes) (candidates : List String) : Bool :=
  candidates.any fun candidate => value == bytes candidate

def startsWith (value : Bytes) (text : String) : Bool := (bytes text).isPrefixOf value

def endsWith (value : Bytes) (text : String) : Bool := (bytes text).isSuffixOf value

def classifyField (fieldName : Bytes) : PrivacyTokenKind :=
  let field := normalizeField fieldName
  if equalsAny field ["src", "srcip", "src_ip", "srp_ip", "srcaddr", "src_addr", "srcaddress",
      "src_address", "sourceip", "source_ip", "sourceaddress", "source_address", "clientip",
      "client_ip", "clientipaddr", "sip", "gateway", "dst", "dstip", "dst_ip", "dest_ip",
      "dstnip", "dstn_ip", "dstaddr", "dst_addr", "dstaddress", "dst_address", "destinationip",
      "destination_ip", "destinationaddress", "destination_address", "serverip", "server_ip",
      "dip"] then .none
  else if containsAny field ["store_code", "branch_code", "shop_code", "site_num", "site_code",
      "site_cd", "str_cd", "bizpl_cd"] then .storeCode
  else if containsAny field ["store", "branch", "shop", "site_name", "site_nm", "str_nm",
      "bizpl"] then .store
  else if equalsAny field ["name"] || containsAny field ["user_name", "user_nm", "emp_name",
      "emp_nm", "employee_name", "person_name", "customer_name", "customer_nm", "cust_name",
      "cust_nm", "member_name", "member_nm", "client_name", "manager_name", "manager_nm",
      "mgr_name", "mgr_nm", "operator_name", "admin_name", "requester_name", "approver_name",
      "owner_name", "suser_name", "duser_name", "first_name", "firstname", "last_name",
      "lastname", "full_name", "fullname", "given_name", "family_name", "srcnm", "src_nm",
      "dstnm", "dst_nm", "ldap_name", "sess_uname"] || equalsAny field ["ssun"] then .person
  else if containsAny field ["email", "e_mail", "mail_addr", "mail_address"] then .email
  else if !equalsAny field ["ldap_tel"] && containsAny field ["phone", "mobile", "cellphone",
      "cell_phone", "telephone", "tel_no", "telnum", "fax"] then .phone
  else if containsAny field ["address", "postal", "postcode", "zip_code", "zipcode"] ||
      (contains field (bytes "addr") && !contains field (bytes "ip")) then .address
  else if equalsAny field ["mac"] || startsWith field "mac_" || endsWith field "_mac" then
    .macAddress
  else if equalsAny field ["ip"] || endsWith field "_ip" || startsWith field "ip_" ||
      containsAny field ["clientip", "agentip", "web_ip", "access_ip", "remote_ip",
      "local_ip"] then .ipAddress
  else if containsAny field ["password", "passwd", "pwd", "secret", "token", "api_key",
      "access_key", "private_key", "credential", "hmac"] ||
      equalsAny field ["payload", "reassembled"] then .secret
  else if containsAny field ["dept", "team", "division", "department", "groupname",
      "group_name"] || equalsAny field ["ldap_tel", "ssdn"] then .department
  else if containsAny field ["company", "corporate", "organization", "org_name", "org_nm",
      "com_name", "sess_dname", "sess_serverdname"] || equalsAny field ["sssdn", "ssdbn"] then
    .organization
  else if equalsAny field ["suser", "duser", "srcid", "src_id", "ldap_sno", "ssui", "ssda",
      "ssli", "tda"] || containsAny field ["username", "user_id", "userid", "login_id",
      "loginid", "account", "suser_id", "duser_id", "chakra_user_id", "manager_id", "mgr_id",
      "decide_mgr_id", "sess_localid", "sess_userid", "sess_dbaccount"] then .userId
  else if containsAny field ["emp_id", "employee_id", "empno", "emp_no", "employee_no"] then
    .employeeId
  else if equalsAny field ["host", "server_nm", "eqp_nm", "sensor_nm", "instance_nm",
      "dstn_host_nm", "src_host_nm", "sess_domain", "sess_serveruname", "ssd", "sssun"] ||
      containsAny field ["host_name", "hostname", "host_alias", "device_id", "deviceid",
      "terminal_id", "terminal_name", "term_name", "serial"] then .host
  else if equalsAny field ["path"] || containsAny field ["file_path", "filepath", "filename",
      "file_name", "origin_filename", "install_location", "application_path", "directory",
      "folder", "safpath"] then .filePath
  else if containsAny field ["resident", "rrn", "ssn", "passport", "card_no", "card_number",
      "customer_id", "customer_no", "cust_id", "cust_no", "member_id", "member_no", "birth",
      "birthday", "date_of_birth", "dob", "vehicle_no", "car_no", "license_no", "uuid", "guid",
      "session_id", "sessionid", "dbi_session", "dbi_statement", "dbi_transaction", "user_num",
      "client_num", "dept_num", "personal_id", "user_info", "user_key_id", "principalid",
      "identifier", "rcvid", "ec2_id", "dstid", "dst_id", "srcgrpid", "src_grp_id", "dstgrpid",
      "dst_grp_id", "sess_did", "sess_serverdid", "sess_uid", "sess_serveruid", "txn_stmguid",
      "txn_sessguid"] || equalsAny field ["_uid", "uid", "sssd", "sssu", "ssuid", "ssdid"] then
    .identifier
  else .none

def fieldCharacter (b : UInt8) : Bool := isAlnum b || b == 95 || b == 46 || b == 45

def fieldBoundary (b : UInt8) : Bool := isSpace b || b == 44 || b == 59 || b == 124 || b == 123

def valueBoundary (b : UInt8) : Bool :=
  isSpace b || b == 44 || b == 59 || b == 124 || b == 125 || b == 93

def isQuote (b : UInt8) : Bool := b == quote || b == apostrophe

/-- A field at a candidate: its name, the bounds of its value and the place where the
scan goes on, all but the name counted from the candidate. -/
structure FieldAt where
  name : Bytes
  valueBegin : ℕ
  valueEnd : ℕ
  position : ℕ

inductive FieldScan where
  | noField
  | inputEnds
  | field (f : FieldAt)

/-- One run of the loop body of `replace_sensitive_fields` from `candidate` on, where
`text` is what follows it. -/
def scanField (text : Bytes) : FieldScan :=
  let opening := if text.head?.any isQuote then 1 else 0
  let afterQuote := text.drop opening
  if !afterQuote.head?.any fun b => isAlpha b || b == 95 then .noField
  else
    let name := (afterQuote.take 64).takeWhile fieldCharacter
    let afterName := afterQuote.drop name.length
    if afterName.head?.any fieldCharacter then .noField
    else
      let closing := if afterName.head?.any isQuote then 1 else 0
      let blanks := ((afterName.drop closing).takeWhile fun b => b == space || b == tab).length
      let atSeparator := afterName.drop (closing + blanks)
      if !atSeparator.head?.any fun b => b == 58 || b == 61 then .noField
      else
        let spaces := ((atSeparator.drop 1).takeWhile (· == space)).length
        let value := atSeparator.drop (1 + spaces)
        let valueAt := opening + name.length + closing + blanks + 1 + spaces
        match value with
        | [] => .inputEnds
        | b :: quoted =>
          if isQuote b then
            let length := (quoted.takeWhile (· != b)).length
            .field ⟨name, valueAt + 1, valueAt + 1 + length, valueAt + 1 + length⟩
          else
            let length := (value.takeWhile fun c => !valueBoundary c).length
            .field ⟨name, valueAt, valueAt + length, valueAt + length⟩

/-- The replacement a field calls for. -/
def fieldEdit (input : Bytes) (candidate : ℕ) (f : FieldAt) : List Edit :=
  let kind := classifyField f.name
  let value := slice input (candidate + f.valueBegin, candidate + f.valueEnd)
  if kind ≠ .none ∧ value ≠ [] ∧ !contains value (bytes "\x7b\x7b") ∧
      !contains value (bytes "\x7d\x7d") then
    [⟨candidate + f.valueBegin, candidate + f.valueEnd, marker kind⟩]
  else []

def fieldEdits (input : Bytes) : ℕ → ℕ → List Edit
  | 0, _ => []
  | fuel + 1, candidate =>
    if input.length ≤ candidate then []
    else if 0 < candidate ∧ !(input[candidate - 1]?).any fieldBoundary then
      fieldEdits input fuel (candidate + 1)
    else
      match scanField (input.drop candidate) with
      | .noField => fieldEdits input fuel (candidate + 1)
      | .inputEnds => []
      | .field f =>
        fieldEdit input candidate f ++
          fieldEdits input fuel (max (candidate + f.position) (candidate + 1))

def replaceSensitiveFields (input : Bytes) : Bytes :=
  splice input (fieldEdits input (input.length + 1) 0)

def equalsIgnoringCase (a b : Bytes) : Bool := a.map toLower == b.map toLower

/-- The loop of `replace_ascii_case_insensitive`; `skip` bytes belong to an occurrence
already replaced. -/
def replaceIgnoringCase (needle replacement : Bytes) : ℕ → Bytes → Bytes
  | _, [] => []
  | skip + 1, _ :: rest => replaceIgnoringCase needle replacement skip rest
  | 0, b :: rest =>
    if needle.length ≤ (b :: rest).length ∧
        equalsIgnoringCase needle ((b :: rest).take needle.length) then
      replacement ++ replaceIgnoringCase needle replacement (needle.length - 1) rest
    else b :: replaceIgnoringCase needle replacement 0 rest

def replaceAsciiCaseInsensitive (value : Bytes) (needle replacement : String) : Bytes :=
  replaceIgnoringCase (bytes needle) (bytes replacement) 0 value

open Regex

def hexadecimal : Regex :=
  .set fun b => isDigit b || (65 ≤ b && b ≤ 70) || (97 ≤ b && b ≤ 102)

/-- `((?:\b(?:store_code|…|bizpl_cd))\s*[:=]\s*["']?)\{\{STORE\}\}`, ignoring case. -/
def legacyStoreCodePattern : Regex :=
  .icase (seqs
    [.group 1 (seqs
      [.boundary, alts [lit "store_code", lit "branch_code", lit "shop_code", lit "site_num",
        lit "site_code", lit "site_cd", lit "str_cd", lit "bizpl_cd"],
      star whitespace, oneOf ":=", star whitespace, opt (.set isQuote)]),
    lit "\x7b\x7bSTORE\x7d\x7d"])

/-- `(^|[^0-9A-Za-z_])(?:[0-9A-Fa-f]{2}:)+["']?\{\{MAC_ADDRESS\}\}`. -/
def partialMacMarkerPattern : Regex :=
  seqs
    [.group 1 (.alt .begin (.set fun b => !isWord b)),
    plus (.seq (times hexadecimal 2) (lit ":")), opt (.set isQuote),
    lit "\x7b\x7bMAC_ADDRESS\x7d\x7d"]

/-- `\b[A-Za-z0-9.!#$%&'*+/=?^_`{|}~-]+@[A-Za-z0-9-]+(?:\.[A-Za-z0-9-]+)+\b`. -/
def emailPattern : Regex :=
  let label := plus (.set fun b => isAlnum b || b == 45)
  seqs
    [.boundary, plus (.set fun b => isAlnum b || (bytes ".!#$%&'*+/=?^_\x60\x7b|\x7d~-").contains b),
    lit "@", label, plus (.seq (lit ".") label), .boundary]

/-- `(?:\+82[- ]?0?1[016789]|\b01[016789])[- ]?\d{3,4}[- ]?\d{4}\b`. -/
def phonePattern : Regex :=
  let dash := opt (oneOf "- ")
  seqs
    [alts [seqs [lit "+82", dash, opt (lit "0"), lit "1", oneOf "016789"],
      seqs [.boundary, lit "01", oneOf "016789"]],
    dash, between numeral 3 4, dash, times numeral 4, .boundary]

/-- `\b\d{6}[- ]?[1-8]\d{6}\b`. -/
def residentPattern : Regex :=
  seqs [.boundary, times numeral 6, opt (oneOf "- "), range '1' '8', times numeral 6, .boundary]

/-- `\b(?:[0-9A-Fa-f]{2}[:-]){5}[0-9A-Fa-f]{2}\b`. -/
def macPattern : Regex :=
  seqs
    [.boundary, times (.seq (times hexadecimal 2) (oneOf ":-")) 5, times hexadecimal 2, .boundary]

/-- `(\b[A-Za-z]:\\Users\\)[^\\\s]+`, ignoring case. -/
def userPathPattern : Regex :=
  .icase (seqs
    [.group 1 (seqs [.boundary, .set isAlpha, lit ":", .set (· == backslash), lit "Users",
      .set (· == backslash)]),
    plus (.set fun b => b != backslash && !isSpace b)])

/-- Every match gives way to its first group and a fixed text after it. -/
def replaceKeepingGroup (input : Bytes) (pattern : Regex) (text : Bytes) : Bytes :=
  splice input ((pattern.allMatches input).map fun m =>
    ⟨m.begin, m.finish, ((m.group? 1).map (slice input)).getD [] ++ text⟩)

def replacePattern (input : Bytes) (pattern : Regex) (kind : PrivacyTokenKind) : Bytes :=
  splice input ((pattern.allMatches input).map fun m => ⟨m.begin, m.finish, marker kind⟩)

/-- The escape of a control character; `none` for a byte that stays. -/
def controlEscape (b : UInt8) : Option Bytes :=
  if 32 ≤ b || b == tab || b == lf || b == cr then none
  else
    some (backslash :: match b.toNat with
      | 7 => bytes "a"
      | 8 => bytes "b"
      | 11 => bytes "v"
      | 12 => bytes "f"
      | n => bytes "x" ++ [hexDigit (n / 16), hexDigit (n % 16)])

def escapeUnsupportedControls (input : Bytes) : Bytes :=
  input.flatMap fun b => (controlEscape b).getD [b]

def sanitize (sample : Bytes) : Bytes :=
  let result := replaceAsciiCaseInsensitive sample "test123" "Your-Company"
  let result := replaceAsciiCaseInsensitive result "lottermart" "Your-Company"
  let result := replaceAsciiCaseInsensitive result "lottemart" "Your-Company"
  let result := replaceAsciiCaseInsensitive result "lotte" "Your"
  let result := replaceAsciiCaseInsensitive result "mart" "company"
  let result := replaceKeepingGroup result legacyStoreCodePattern (marker .storeCode)
  let result := replaceKeepingGroup result partialMacMarkerPattern (marker .macAddress)
  let result := replaceSensitiveFields result
  let result := replacePattern result emailPattern .email
  let result := replacePattern result phonePattern .phone
  let result := replacePattern result residentPattern .identifier
  let result := replacePattern result macPattern .macAddress
  let result := replaceKeepingGroup result userPathPattern (bytes "TestUser")
  escapeUnsupportedControls result

end PrivacyAnonymizer
end Application
end LogGenerator
