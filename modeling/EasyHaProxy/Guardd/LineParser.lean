import EasyHaProxy.Lib.Python
import EasyHaProxy.Lib.Regex
import EasyHaProxy.Lib.Dict
import EasyHaProxy.Guardd.AccessLog
import EasyHaProxy.Guardd.Paths

/-! `parse_access_line` and what it calls, with the exceptions each of them can raise. The target of a
request is the client's to write. -/
namespace EasyHaProxy.Guardd

open Text Python Regex

/-- The tables and compiled patterns the classification of a target reads. -/
structure Patterns where
  scannerPaths : Dict (List Char) String
  scannerSegments : Dict (List Char) String
  scannerPrefixes : List (List Char × String)
  decisiveCategories : List String
  assetSuffixes : List (List Char)
  authenticationPaths : List (List Char)
  queryRules : List (String × (List Char → Bool))
  observationQueries : List (String × (List Char → Bool))
  serviceApiProbe : List Char → Bool
  sensitiveTarget : List Char → Bool

/-- A parsed line with what the classification of its target says. -/
structure AccessRecord extends ParsedRequest where
  queryFlag : String := ""
  pathFlag : String := ""
  observationFlags : List String := []
  deriving DecidableEq

def maxHostLength : Nat := 128
def maxUserAgentLength : Nat := 128
def maxQueryLength : Nat := 2048
def queryDecodePasses : Nat := 2
def maxMatchedSegments : Nat := 12

def httpScheme : List Char := ['h', 't', 't', 'p', ':', '/', '/']
def httpsScheme : List Char := ['h', 't', 't', 'p', 's', ':', '/', '/']

/-- `startswith(("http://", "https://"))`: the target carries its host. -/
def absolute (text : List Char) : Bool := httpScheme.isPrefixOf text || httpsScheme.isPrefixOf text

def isControl (c : Char) : Bool := c.toNat < 0x20 || c.toNat = 0x7f

/-- `text.split(separator, count)`. -/
def splitAtMost (separator : Char) : Nat → List Char → List (List Char)
  | 0, text => [text]
  | n + 1, text =>
    match text.span (· != separator) with
    | (part, _ :: rest) => part :: splitAtMost separator n rest
    | (part, []) => [part]

/-- The part after the first separator, nothing where there is none. -/
def afterFirst (separator : Char) (text : List Char) : List Char := (text.dropWhile (· != separator)).tail

def beforeFirst (separator : Char) (text : List Char) : List Char := text.takeWhile (· != separator)

section Classification

variable (py : Interpreter) (patterns : Patterns)

def targetPath (text : List Char) : Except Raised (List Char) :=
  if absolute text then (py.urlparse text).map fun r => if r.path = [] then ['/'] else r.path
  else .ok text

/-- A target without query and fragment, decoded once, its segments resolved. -/
def canonicalTarget (text : List Char) : List Char :=
  let text := unquote (beforeFirst '#' (beforeFirst '?' text))
  let text := collapseSlashes (text.filter (!isControl ·))
  let text := if text.head? = some '/' then text else '/' :: text
  (joinSegments ((text.splitOn '/').foldl pushSegment [])).take maxPathLength

/-- `normalize_path` of any request target. -/
def normalizeTarget (value : List Char) : Except Raised (List Char) :=
  if value = [] then .ok ['/'] else (targetPath py (strip value)).map canonicalTarget

/-- `extract_host`: empty when the line has none. -/
def extractHost (value : List Char) : Except Raised (List Char) :=
  if absolute value then
    (py.urlparse value).map fun r =>
      ((py.lower (strip (py.hostname r))).filter (!isControl ·)).take maxHostLength
  else .ok []

/-- `is_asset`. -/
def isAsset (path : List Char) : Bool := patterns.assetSuffixes.any (·.isSuffixOf (py.lower path))

def isAuthenticationEndpoint (path : List Char) : Bool :=
  patterns.authenticationPaths.any fun entry =>
    let plain := entry.rdropWhile (· == '/')
    py.lower path == plain || (plain ++ ['/']).isPrefixOf (py.lower path)

def prefixCategory (segment : List Char) : String :=
  match patterns.scannerPrefixes.find? (fun row => row.1.isPrefixOf (py.lower segment)) with
  | some row => row.2
  | none => ""

/-- The first of the three that names a category. -/
def segmentCategory (segment : List Char) : String :=
  let plain := (patterns.scannerSegments.get? segment).getD ""
  let lowered := (patterns.scannerSegments.get? (py.lower segment)).getD ""
  if plain ≠ "" then plain else if lowered ≠ "" then lowered else prefixCategory py patterns segment

/-- The segments of a path in turn; `probable` is what an earlier one was taken for. -/
def classifySegments (path : List Char) : String → List (List Char) → String
  | probable, [] => if isAsset py patterns path || isAuthenticationEndpoint py patterns path then "" else probable
  | probable, segment :: rest =>
    let category := if segment = [] then "" else segmentCategory py patterns segment
    if category = "" then classifySegments path probable rest
    else if patterns.decisiveCategories.contains category then category
    else classifySegments path (if probable = "" then category else probable) rest

/-- `classify_path`. -/
def classifyPath (path : List Char) : String :=
  if path = [] ∨ path = ['/'] then ""
  else
    let category := (patterns.scannerPaths.get? path).getD ""
    if category ≠ "" then category
    else classifySegments py patterns path "" (splitAtMost '/' (maxMatchedSegments + 1) path).tail

def parameterValue (part : List Char) : List Char := if '=' ∈ part then afterFirst '=' part else part

/-- `classify_query`. -/
def classifyQuery (uri : List Char) : String :=
  let query := Nat.iterate unquotePlus queryDecodePasses ((afterFirst '?' uri).take maxQueryLength)
  if '?' ∉ uri ∨ (afterFirst '?' uri).take maxQueryLength = [] then ""
  else
    ((splitAtMost '&' 64 query).findSome? fun part =>
      (patterns.queryRules.find? (·.2 (strip (parameterValue part)))).map (·.1)).getD ""

def percent25 : List Char := ['%', '2', '5']

def contains (needle text : List Char) : Bool := text.tails.any needle.isPrefixOf

/-- Parent segments enough, and a target worth the way. -/
def traverses (text : List Char) : Bool :=
  2 ≤ (text.splitOn '/').count ['.', '.'] && patterns.sensitiveTarget text

/-- `classify_raw_path`: the text of the target where its URL cannot be read. -/
def classifyRawPath (uri : List Char) : String :=
  let text := (beforeFirst '#' (beforeFirst '?' uri)).take 2048
  if !contains ['.', '.'] text && !contains ['%', '2', 'e'] (py.lower text) &&
      !contains percent25 (py.lower text) then ""
  else
    let text := if absolute text then ((py.urlparse text).toOption.map (·.path)).getD text else text
    let decode (text : List Char) := py.lower ((unquote text).map fun c => if c = '\\' then '/' else c)
    if traverses patterns (decode text) || traverses patterns (decode (decode text))
    then "path-traversal" else ""

def queryFlags (query : List Char) : List String :=
  if query = [] then []
  else
    (splitAtMost '&' 64 query).foldl (fun flags part =>
      let value := unquotePlus (unquotePlus (parameterValue part))
      patterns.observationQueries.foldl (fun flags rule =>
        if rule.1 ∉ flags ∧ rule.2 value then flags ++ [rule.1] else flags) flags) []

/-- The path of a target as it was sent. -/
def rawPath (uri : List Char) : List Char := beforeFirst '#' (beforeFirst '?' (uri.take 4096))

/-- `observation_flags`. -/
def observationFlags (uri : List Char) : Except Raised (List String) := do
  let flags := queryFlags patterns ((beforeFirst '#' (afterFirst '?' (uri.take 4096))).take 2048)
  let raw := rawPath uri
  let path := if absolute raw then ((py.urlparse raw).toOption.map (·.path)).getD raw else raw
  let flags := if patterns.serviceApiProbe (path.take 200) then flags ++ ["observe:service-api-probe"]
    else flags
  if contains percent25 (py.lower raw) then
    let first ← normalizeTarget py raw
    let second ← normalizeTarget py (unquote raw)
    .ok (if second ≠ first ∧ patterns.decisiveCategories.contains (classifyPath py patterns second)
      then flags ++ ["observe:encoded-sensitive-path"] else flags)
  else .ok flags

end Classification

/-! ## The line -/

section Line

variable (py : Interpreter) (patterns : Patterns)

def space : Expr := .chars isSpace
def word : Expr := .chars (!isSpace ·)
def decimal : Expr := .chars fun c => (py.digit c).isSome
def asciiDigit (c : Char) : Bool := '0' ≤ c && c ≤ '9'
def hexDigit (c : Char) : Bool := asciiDigit c || 'a' ≤ c && c ≤ 'f' || 'A' ≤ c && c ≤ 'F'

/-- `_SYSLOG_PREFIX`. -/
def syslogPrefix : Expr :=
  .all [.start, .plus word, .plus space, .plus word, .plus space, .lit ['h', 'a', 'p', 'r', 'o', 'x', 'y', '['],
    .plus (decimal py), .lit [']', ':'], .star space]

/-- `_ACCESS_HEAD`. -/
def accessHead : Expr :=
  .all [.start,
    .group "client" (.alt (.all [.lit ['['], .plus (.chars fun c => hexDigit c || c == ':'), .lit [']']])
      (.plus (.chars fun c => asciiDigit c || c == '.'))),
    .lit [':'], .group "port" (.plus (decimal py)), .plus space,
    .lit ['['], .group "stamp" (.star (.chars (· != ']'))), .lit [']'], .plus space,
    .group "frontend" (.plus word), .plus space, .group "backend" (.plus word), .plus space,
    .group "times" (.plus word), .plus space,
    .group "status" (.alt (.lit ['-']) (.exactly (decimal py) 3)), .plus space,
    .group "bytes" (.alt (.lit ['-']) (.plus (decimal py))), .plus space]

def upperLetter : Expr := .chars fun c => 'A' ≤ c && c ≤ 'Z'

/-- `_ACCESS_TAIL`. -/
def accessTail : Expr :=
  .all [.group "method" (.seq (.exactly upperLetter 3) (.upTo upperLetter 7)), .plus space,
    .group "uri" (.plus word), .plus space,
    .group "proto" (.seq (.lit ['H', 'T', 'T', 'P', '/']) (.plus (.chars fun c => asciiDigit c || c == '.'))),
    .star space, .finish]

/-- `_BAD_REQUEST_TAIL`. -/
def badRequestTail : Expr := .all [.lit ['<', 'B', 'A', 'D', 'R', 'E', 'Q', '>'], .star space, .finish]

/-- A labelled field: `(?:^|\s)label=(?P<…>…)`. -/
def field (label : List Char) (name : String) (value : Expr) : Expr :=
  .all [.alt .start space, .lit (label ++ ['=']), .group name value]

def idField : Expr := field ['i', 'd'] "id" (.plus word)
def hostField : Expr := field ['h', 'o', 's', 't'] "host" (.plus word)
def uaField : Expr := field ['u', 'a'] "ua" (.star word)

def banReasonLabel : List Char := ['b', 'a', 'n', '_', 'r', 'e', 'a', 's', 'o', 'n', '=', '"']

/-- `_BAN_REASON_FIELD`. -/
def banReasonField : Expr :=
  .all [.lit banReasonLabel, .group "reason" (.star (.chars (· != '"'))), .lit ['"']]

/-- `_STAMP`. -/
def stampExpr : Expr :=
  .all [.start, .group "day" (.exactly (decimal py) 2), .lit ['/'],
    .group "month" (.exactly (.chars isAlpha) 3), .lit ['/'], .group "year" (.exactly (decimal py) 4), .lit [':'],
    .group "hour" (.exactly (decimal py) 2), .lit [':'], .group "minute" (.exactly (decimal py) 2), .lit [':'],
    .group "second" (.exactly (decimal py) 2)]

def months : List (List Char) :=
  [['J', 'a', 'n'], ['F', 'e', 'b'], ['M', 'a', 'r'], ['A', 'p', 'r'], ['M', 'a', 'y'], ['J', 'u', 'n'],
    ['J', 'u', 'l'], ['A', 'u', 'g'], ['S', 'e', 'p'], ['O', 'c', 't'], ['N', 'o', 'v'], ['D', 'e', 'c']]

def isLeap (year : Int) : Bool := year % 4 = 0 && (year % 100 ≠ 0 || year % 400 = 0)

def daysBeforeMonth (year : Int) (month : Nat) : Int :=
  ([0, 31, 59, 90, 120, 151, 181, 212, 243, 273, 304, 334].getD month 0) +
    if 2 ≤ month ∧ isLeap year then 1 else 0

/-- `calendar.timegm`; there is no year 0. -/
def timegm (year : Int) (month : Nat) (day hour minute second : Int) : Except Raised Int :=
  if year < 1 then .error .valueError
  else
    let y := year - 1
    let days := y * 365 + y / 4 - y / 100 + y / 400 + daysBeforeMonth year month + 1 - 719163 + day - 1
    .ok (((days * 24 + hour) * 60 + minute) * 60 + second)

/-- `parse_stamp`. -/
def parseStamp (value : List Char) : Int :=
  match matchStart (stampExpr py) value with
  | none => 0
  | some m =>
    match months.findIdx? (· == m.group "month") with
    | none => 0
    | some month =>
      match (do
        let year ← py.int (m.group "year")
        let day ← py.int (m.group "day")
        let hour ← py.int (m.group "hour")
        let minute ← py.int (m.group "minute")
        let second ← py.int (m.group "second")
        timegm year month day hour minute second) with
      | .ok ts => ts
      | .error _ => 0

/-- `_response_time`. -/
def responseTime (times : List Char) : Int :=
  match times.splitOn '/' with
  | [_, _, _, tr, _] =>
    match py.int tr with
    | .ok n => n
    | .error _ => -1
  | _ => -1

/-- `_total_time`. -/
def totalTime (times : List Char) : Int :=
  match py.int (times.rtakeWhile (· != '/')) with
  | .ok n => max 0 n
  | .error _ => 0

/-- `text.split(None, 1)[0]`, of which there is none in blank text. -/
def firstWord (text : List Char) : Except Raised (List Char) :=
  match text.dropWhile isSpace with
  | [] => .error .indexError
  | rest => .ok (rest.takeWhile (!isSpace ·))

/-- A number of the head, `-` where HAProxy has none. -/
def headNumber (text : List Char) : Except Raised Int := if text = ['-'] then .ok 0 else py.int text

def withoutPrefix (line : List Char) : List Char :=
  let text := strip line
  match matchStart (syslogPrefix py) text with
  | some m => m.rest
  | none => text

def groupText (name : String) (found : Option (List Char × Match)) : List Char :=
  match found with
  | some (_, m) => m.group name
  | none => []

/-- `ban_reason` of a line. -/
def banReasonOf (remainder : List Char) : List Char :=
  if contains banReasonLabel remainder then (groupText "reason" (search banReasonField remainder)).take 160
  else []

structure HeadFields where
  client : List Char
  status : Int
  bytesOut : Int
  stamp : Int
  term : List Char

/-- The first word behind the head. -/
def termOf (remainder : List Char) : Except Raised (List Char) :=
  if remainder = [] then .ok [] else firstWord remainder

def headFields (head : Match) : Except Raised HeadFields := do
  let client := head.group "client"
  let client := if client.head? = some '[' then client.tail.dropLast else client
  let status ← headNumber py (head.group "status")
  let bytesOut ← headNumber py (head.group "bytes")
  let stamp := parseStamp py (head.group "stamp")
  let term ← termOf head.rest
  .ok { client := client, status := status, bytesOut := bytesOut, stamp := stamp, term := term }

/-- The record of a line whose request HAProxy could not read. -/
def badRequestRecord (head : Match) (h : HeadFields) : AccessRecord where
  clientIp := String.ofList h.client
  status := h.status
  frontend := String.ofList (head.group "frontend")
  backend := String.ofList (head.group "backend")
  badRequest := true
  ts := h.stamp
  requestId := String.ofList (groupText "id" (search idField head.rest))
  bytesOut := h.bytesOut
  term := String.ofList h.term
  banReason := String.ofList (banReasonOf head.rest)

/-- `-` in the user agent field is none. -/
def userAgentOf (before : List Char) : List Char :=
  let agent := (groupText "ua" (search uaField before)).take maxUserAgentLength
  if agent = ['-'] then [] else agent

/-- The labelled host of a line, or the one in an absolute target. -/
def hostFieldOf (remainder uri : List Char) : Except Raised (List Char) :=
  match search hostField remainder with
  | some (_, m) => .ok (m.group "host")
  | none => extractHost py uri

def hostOfLine (remainder uri : List Char) : Except Raised (List Char) := do
  let host ← hostFieldOf py remainder uri
  if host = [] ∨ host = ['-'] ∨ host = ['{', '}'] then extractHost py uri
  else .ok (host.take maxHostLength)

def requestRecord (head : Match) (h : HeadFields) (before : List Char) (tail : Match) :
    Except Raised AccessRecord := do
  let uri := tail.group "uri"
  let path ← normalizeTarget py uri
  let host ← hostOfLine py head.rest uri
  let flags ← observationFlags py patterns uri
  let times := head.group "times"
  .ok
    { clientIp := String.ofList h.client
      status := h.status
      frontend := String.ofList (head.group "frontend")
      backend := String.ofList (head.group "backend")
      method := String.ofList (tail.group "method")
      path := String.ofList path
      host := String.ofList host
      ts := h.stamp
      requestId := String.ofList (groupText "id" (search idField head.rest))
      bytesOut := h.bytesOut
      durationMs := totalTime py times
      responseMs := responseTime py times
      times := String.ofList (times.take 40)
      term := String.ofList h.term
      banReason := String.ofList (banReasonOf head.rest)
      userAgent := String.ofList (userAgentOf before)
      queryFlag := classifyQuery patterns uri
      pathFlag := classifyRawPath py patterns uri
      observationFlags := flags }

/-- `parse_access_line`. -/
def parseAccessLine (line : List Char) : Except Raised (Option AccessRecord) :=
  if line = [] then .ok none
  else
    match matchStart (accessHead py) (withoutPrefix py line) with
    | none => .ok none
    | some head => do
      let h ← headFields py head
      match search accessTail head.rest with
      | none =>
        .ok (if (search badRequestTail head.rest).isSome then some (badRequestRecord head h) else none)
      | some (before, tail) => (requestRecord py patterns head h before tail).map some

end Line

end EasyHaProxy.Guardd
