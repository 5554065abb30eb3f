import EasyHaProxy.Lib.Pieces
import EasyHaProxy.Lib.Python
import EasyHaProxy.Lib.Validate
import EasyHaProxy.Lib.Yaml
import Mathlib

/-! A save checks the request step by step and writes a private file as soon as it has checked it; the
record is replaced at the end. The programs and the disk are what the host does. -/
namespace EasyHaProxy.Backupd.Settings

open Yaml Validate

/-- The characters of a text. -/
abbrev Chars := List Char

/-- How a request ends that is not answered. -/
inductive Failure
  /-- `BackupdError`. -/
  | refused (message code : String)
  /-- `TypeError` or `ValueError`. -/
  | malformed
  /-- `OverflowError`. -/
  | overflow
  deriving DecidableEq

def invalid (message : String) : Failure := .refused message "invalid"

/-- What one destination has on the disk; a record that cannot be read counts as none. -/
structure Files where
  record : Option Fields
  key : Option ByteArray
  password : Option ByteArray
  secret : Option ByteArray
  knownHosts : Option ByteArray

structure Store where
  files : Chars → Files
  schedule : Option Fields
  passphrase : Option ByteArray
  /-- `OnCalendar` of the drop-in. -/
  timer : Option Chars

/-- The interpreter and the machine. -/
structure Host where
  py : Python.Interpreter
  /-- `str` of a list or a mapping. -/
  str : Value → String
  /-- `int` of a float; there is none of what is no number, and of an infinity. -/
  whole : String → Except Failure Int
  /-- `str.isdigit` of one character. -/
  isDigit : Char → Bool
  listLimit : Nat
  now : String
  /-- What `ssh-keyscan` prints and complains of, or why it did not run. -/
  keyscan : Chars → Int → Except String (Chars × Chars)
  /-- What `ssh-keygen -l` prints of the keys. -/
  fingerprints : Chars → List String
  /-- Whether the record is small enough to be written. -/
  fits : Fields → Bool
  /-- The text of a `systemctl` that fails. -/
  timerFails : Option String

variable (host : Host)

/-! ## Values of a request -/

/-- `str(value or "")`. -/
def textOr (v : Option Value) : Chars :=
  match v with
  | some v => if v.truthy then (v.text host.str).toList else []
  | none => []

/-- `int(value)`. -/
def intOf : Value → Except Failure Int
  | .bool b => .ok b.toNat
  | .int n => .ok n
  | .str s => (host.py.int s.toList).mapError fun _ => .malformed
  | .other text _ => host.whole text
  | _ => .error .malformed

/-- `list(value or [])`. -/
def listOf : Option Value → Except Failure (List Value)
  | none => .ok []
  | some (.list items) => .ok items
  | some (.str s) => .ok (s.toList.map fun c => .str (String.ofList [c]))
  | some (.map fields) => .ok (fields.map fun field => .str field.1)
  | some v => if v.truthy then .error .malformed else .ok []

/-- `bool(record.get(key))`. -/
def flag (fields : Fields) (key : String) : Bool := ((fields.lookup key).map Value.truthy).getD false

/-! ## Checks -/

def isLowerAlnum (c : Char) : Bool := 'a' ≤ c && c ≤ 'z' || '0' ≤ c && c ≤ '9'

def isAlnum (c : Char) : Bool := isLowerAlnum c || 'A' ≤ c && c ≤ 'Z'

/-- `DESTINATION_NAME_RE`. -/
def isDestinationName : Chars → Bool
  | [] => false
  | c :: rest => isLowerAlnum c && rest.length ≤ 39 && rest.all fun c => isLowerAlnum c || c == '-'

/-- `str(value or "").strip().lower()`. -/
def lowered (v : Option Value) : Chars := Text.lower (Text.strip (textOr host v))

/-- The name of a destination as `destination_path` takes it. -/
def destinationName (v : Option Value) : Except Failure Chars := do
  let name := lowered host v
  require (isDestinationName name) (invalid "the destination name may use a-z, 0-9 and dashes")
  return name

/-- `load_destination`. -/
def loadDestination (s : Store) (v : Option Value) : Except Failure Fields := do
  let name ← destinationName host v
  let record ← expect (s.files name).record (invalid "cannot read the destination")
  require (record ≠ []) (.refused "no such destination" "not_found")
  return record

/-- `keep_count`. -/
def keepCount (v : Option Value) (default cap : Nat) : Except Failure Int :=
  match v with
  | none | some .null => .ok default
  | some (.str "") => .ok default
  | some v => match intOf host v with
    | .ok n => .ok (max 0 (min cap n))
    | .error .overflow => .error .overflow
    | .error _ => .error (invalid "a retention count must be a number")

def verifyModes : List Chars := [['a', 'u', 't', 'o'], ['t', 'r', 'a', 'n', 's', 'f', 'e', 'r']]

/-- `verify_mode`. -/
def verifyMode (v default : Option Value) : Except Failure Chars :=
  let text := lowered host v
  let fallback := lowered host default
  if text ∈ verifyModes then .ok text
  else if text ≠ [] then .error (invalid "verify must be auto or transfer")
  else .ok (if fallback ∈ verifyModes then fallback else ['a', 'u', 't', 'o'])

/-- `normalize_remote_dir`. -/
def normalizeRemoteDir (v : Option Value) : Except Failure Chars :=
  let text := Text.strip (textOr host v)
  let parts := (text.splitOn '/').filter fun part => part ≠ [] ∧ part ≠ ['.']
  let joined := ['/'].intercalate parts
  if text = [] ∨ text = ['.'] ∨ text = ['.', '/'] then .ok ['.']
  else if ['.', '.'] ∈ parts ∨ 512 < text.length ∨ text.any (·.toNat < 32) then
    .error (invalid "the remote path must be free of '..'")
  else if text.head? = some '/' then .ok ('/' :: joined)
  else .ok (if joined = [] then ['.'] else joined)

/-- A 24-hour `HH:MM`. -/
def isTime : Chars → Bool
  | [h, h', ':', m, m'] =>
    ((h == '0' || h == '1') && h'.isDigit || h == '2' && '0' ≤ h' && h' ≤ '3') &&
      '0' ≤ m && m ≤ '5' && m'.isDigit
  | _ => false

def defaultScheduleTime : Chars := ['0', '3', ':', '2', '0']

/-- `schedule_time`. -/
def scheduleTime (v : Option Value) (default : Chars) : Except Failure Chars :=
  let text := Text.strip (textOr host v)
  if text = [] then .ok default
  else if isTime text then .ok text
  else .error (invalid "the time must be given as HH:MM on a 24-hour clock")

def defaultKeepLocal : Int := 3

/-- `keep_local_value`. -/
def keepLocalValue (v : Option Value) (default : Int) : Except Failure Int :=
  let inRange (n : Int) : Except Failure Int := do
    require (1 ≤ n ∧ n ≤ host.listLimit)
      (invalid ("the number of backups kept on this server must be between 1 and " ++ toString host.listLimit))
    return n
  match v with
  | none | some .null => .ok default
  | some (.int n) => inRange n
  | some (.str s) =>
    if s = "" then .ok default
    else if Text.strip s.toList ≠ [] ∧ (Text.strip s.toList).all host.isDigit then do
      let n ← intOf host (.str s)
      inRange n
    else .error (invalid "the number of backups kept on this server must be a whole number")
  | some _ => .error (invalid "the number of backups kept on this server must be a whole number")

/-- `require_passphrase`. -/
def requirePassphrase (v : Option Value) : Except Failure Chars :=
  match v with
  | some (.str s) =>
    if s.toList.length < 12 then .error (invalid "the backup passphrase must contain at least 12 characters")
    else if 1024 < s.toList.length ∨ '\x00' ∈ s.toList ∨ '\n' ∈ s.toList ∨ '\r' ∈ s.toList then
      .error (invalid "the backup passphrase is invalid")
    else .ok s.toList
  | _ => .error (invalid "the backup passphrase must contain at least 12 characters")

/-! ## A destination -/

def text (l : Chars) : Value := .str (String.ofList l)

/-- `text.encode("utf-8")`. -/
def encode (l : Chars) : ByteArray := (String.ofList l).toByteArray

/-- `normalize_private_key`. -/
def normalizePrivateKey (material : Chars) : Chars := Text.trim (· = '\n') (Text.newlines material) ++ ['\n']

/-- `scan_host_key`. -/
def scanHostKey (address : Chars) (port : Int) : Except Failure Chars := do
  let (output, errors) ← (host.keyscan address port).mapError fun detail =>
    Failure.refused ("cannot read the host key: " ++ detail) "upstream"
  let lines := (Text.splitLines output).filter fun line => Text.strip line ≠ [] ∧ line.head? ≠ some '#'
  let detail := (Text.strip errors).take 300
  require (lines ≠ []) (.refused ("the far end did not offer a host key" ++
    if detail = [] then "" else ": " ++ String.ofList detail) "upstream")
  return ['\n'].intercalate (lines.insertionSort (· ≤ ·)) ++ ['\n']

/-- What a save writes before its record. -/
inductive Credential
  | none
  | key (content : Chars)
  | password (content : Chars)
  | secret (content : Chars)

/-- What the first checks of `save_destination` find in the request. -/
structure Sftp where
  host : Chars
  user : Chars
  port : Int
  path : Chars
  auth : Chars
  credential : Credential

def isUser (l : Chars) : Bool :=
  0 < l.length && l.length ≤ 64 && l.all fun c => isAlnum c || c == '.' || c == '_' || c == '-'

def keyAuth : Chars := ['k', 'e', 'y']

def passwordAuth : Chars := ['p', 'a', 's', 's', 'w', 'o', 'r', 'd']

def privateKeyMark : Chars := ['P', 'R', 'I', 'V', 'A', 'T', 'E', ' ', 'K', 'E', 'Y']

/-- The port of a request or of a record. -/
def portOf (v : Option Value) : Except Failure Int :=
  match v with
  | some v => if v.truthy then intOf host v else .ok 22
  | none => .ok 22

/-- The port of a request; an infinity is not among the failures expected. -/
def requestPort (v : Option Value) : Except Failure Int := do
  let port ← match portOf host v with
    | .error .malformed => .error (invalid "the port must be a number")
    | outcome => outcome
  require (1 ≤ port ∧ port ≤ 65535) (invalid "the port is out of range")
  return port

def sftpCredential (request existing : Fields) (auth : Chars) : Except Failure Credential :=
  if auth = keyAuth then
    let key := textOr host (request.lookup "private_key")
    if key ≠ [] then
      if privateKeyMark <:+: key then .ok (.key (normalizePrivateKey key))
      else .error (invalid "that does not look like a private key")
    else if flag existing "key_installed" then .ok .none
    else .error (invalid "a private key is required")
  else if flag request "password" then
    match request.lookup "password" with
    | some (.str s) =>
      if 1024 < s.toList.length ∨ '\x00' ∈ s.toList ∨ '\n' ∈ s.toList ∨ '\r' ∈ s.toList then
        .error (invalid "the password is not valid")
      else .ok (.password s.toList)
    | _ => .error (invalid "the password is not valid")
  else if flag existing "password_installed" then .ok .none
  else .error (invalid "a password is required")

/-- The value of the request, else of the record, else the default; each of them where it counts as true. -/
def firstOf (request existing : Option Value) (default : Value) : Value :=
  ((request.filter Value.truthy).or (existing.filter Value.truthy)).getD default

/-- The checks up to the private key or the password. -/
def checkSftp (request existing : Fields) : Except Failure Sftp := do
  let address := Text.strip (textOr host (request.lookup "host"))
  require (address ≠ [] ∧ address.length ≤ 253 ∧ address.any Text.isSpace = false)
    (invalid "a host is required")
  let user := Text.strip (textOr host (request.lookup "user"))
  require (isUser user) (invalid "the user name is not valid")
  let port ← requestPort host (request.lookup "port")
  let path ← normalizeRemoteDir host (request.lookup "path")
  let auth := lowered host (some (firstOf (request.lookup "auth") (existing.lookup "auth") (text keyAuth)))
  require (auth = keyAuth ∨ auth = passwordAuth) (invalid "auth must be key or password")
  let credential ← sftpCredential host request existing auth
  return ⟨address, user, port, path, auth, credential⟩

/-- What a save pins: the content of the file, where it is written, and what the record says of it. -/
structure Pin where
  written : Option Chars
  fingerprints : List Value
  source : Value

/-- Whether the record is of this host and port; the record's port is looked at only then. -/
def sameEndpoint (existing : Fields) (checked : Sftp) : Except Failure Bool :=
  match existing.lookup "host" with
  | some (.str s) =>
    if s.toList = checked.host then
      (portOf host (existing.lookup "port")).map fun port => decide (port = checked.port)
    else .ok false
  | _ => .ok false

/-- The host key: the one supplied, the one pinned for this endpoint, or the one the far end offers now. -/
def pinOf (request existing : Fields) (checked : Sftp) : Except Failure Pin := do
  let supplied := Text.strip (textOr host (request.lookup "host_key"))
  let same ← sameEndpoint host existing checked
  let fingerprints ← listOf (existing.lookup "host_key_fingerprints")
  let source := firstOf (existing.lookup "host_key_source") none (.str "supplied")
  let printed (content : Chars) : List Value := (host.fingerprints content).map .str
  if supplied ≠ [] then
    return ⟨some (supplied ++ ['\n']), printed (supplied ++ ['\n']), .str "supplied"⟩
  else if flag existing "host_key_pinned" ∧ same = true then
    return ⟨none, fingerprints, source⟩
  else
    let content ← scanHostKey host checked.host checked.port
    return ⟨some content, printed content, .str "first-use"⟩

/-- The end of every destination's record. -/
def commonFields (request existing : Fields) : Except Failure Fields := do
  let daily ← keepCount host (request.lookup "keep_daily") 7 365
  let weekly ← keepCount host (request.lookup "keep_weekly") 4 260
  let monthly ← keepCount host (request.lookup "keep_monthly") 6 120
  let verify ← verifyMode host (request.lookup "verify") (existing.lookup "verify")
  return [("keep_daily", .int daily), ("keep_weekly", .int weekly), ("keep_monthly", .int monthly),
    ("verify", text verify), ("updated_at", .str host.now)]

def Credential.isKey : Credential → Bool
  | .key _ => true
  | _ => false

def Credential.isPassword : Credential → Bool
  | .password _ => true
  | _ => false

def sftpRecord (request existing : Fields) (name : Chars) (checked : Sftp) (pin : Pin) : Except Failure Fields := do
  let common ← commonFields host request existing
  return [("name", text name), ("type", .str "sftp"), ("host", text checked.host), ("port", .int checked.port),
    ("user", text checked.user), ("path", text checked.path), ("auth", text checked.auth),
    ("key_installed", .bool (flag existing "key_installed" || checked.credential.isKey)),
    ("password_installed", .bool (flag existing "password_installed" || checked.credential.isPassword)),
    ("host_key_pinned", .bool true), ("host_key_fingerprints", .list pin.fingerprints),
    ("host_key_source", pin.source)] ++ common

/-! ## The saves -/

/-- `write_private`, of the file a credential goes to. -/
def Files.write (f : Files) : Credential → Files
  | .none => f
  | .key content => { f with key := some (encode content) }
  | .password content => { f with password := some (encode content) }
  | .secret content => { f with secret := some (encode content) }

def Files.pin (f : Files) (written : Option Chars) : Files :=
  match written with
  | some content => { f with knownHosts := some (encode content) }
  | none => f

def Store.update (s : Store) (name : Chars) (f : Files) : Store :=
  { s with files := Function.update s.files name f }

abbrev Outcome := Except Failure Fields × Store

/-- `atomic_json` at the end of a save. -/
def Store.replaceRecord (s : Store) (name : Chars) (record : Fields) : Outcome :=
  if host.fits record then (.ok record, s.update name { s.files name with record := some record })
  else (.error (.refused "job state is too large" "too_large"), s)

/-- The record of the destination, where one can be loaded. -/
def existingOf (s : Store) (name : Chars) : Fields := (s.files name).record.getD []

/-- `save_destination`, of an SFTP server. -/
def saveSftp (s : Store) (request : Fields) (name : Chars) : Outcome :=
  match checkSftp host request (existingOf s name) with
  | .error e => (.error e, s)
  | .ok checked =>
    let written := s.update name ((s.files name).write checked.credential)
    match pinOf host request (existingOf s name) checked with
    | .error e => (.error e, written)
    | .ok pin =>
      let pinned := written.update name ((written.files name).pin pin.written)
      match sftpRecord host request (existingOf s name) name checked pin with
      | .error e => (.error e, pinned)
      | .ok record => pinned.replaceRecord host name record

/-- What `save_s3_destination` finds in the request. -/
structure Bucket where
  endpoint : Chars
  allowInsecure : Bool
  bucket : Chars
  keyPrefix : Chars
  accessKey : Chars
  credential : Credential

def isBucket : Chars → Bool
  | [] => false
  | c :: rest => isLowerAlnum c && 1 ≤ rest.length && rest.length ≤ 62 &&
    rest.all fun c => isLowerAlnum c || c == '.' || c == '-'

def isAccessKey (l : Chars) : Bool :=
  3 ≤ l.length && l.length ≤ 128 && l.all fun c => isAlnum c || c ∈ ['/', '+', '=', '_', '-']

def httpScheme : Chars := ['h', 't', 't', 'p']

def httpsScheme : Chars := ['h', 't', 't', 'p', 's']

/-- The checks up to the secret key. -/
def checkBucket (request existing : Fields) : Except Failure Bucket := do
  let endpoint := (Text.strip (textOr host (request.lookup "endpoint"))).rdropWhile (· = '/')
  let parsed ← (host.py.urlparse endpoint).mapError fun _ => Failure.malformed
  require ((parsed.scheme = httpsScheme ∨ parsed.scheme = httpScheme) ∧ parsed.netloc ≠ [])
    (invalid "the endpoint must be a full https:// URL")
  let allowInsecure := flag request "allow_insecure"
  require (parsed.scheme = httpScheme → allowInsecure = true) (invalid ("the endpoint is plain http; tick 'allow insecure' only for a" ++
      " storage service on a trusted network"))
  let bucket := Text.strip (textOr host (request.lookup "bucket"))
  require (isBucket bucket) (invalid "the bucket name is not valid")
  let keyPrefix := Text.trim (· = '/') (Text.strip (textOr host (request.lookup "prefix")))
  require (¬ ['.', '.'] <:+: keyPrefix ∧ keyPrefix.length ≤ 256) (invalid "the prefix is not valid")
  let accessKey := Text.strip (textOr host (request.lookup "access_key"))
  require (isAccessKey accessKey) (invalid "the access key is not valid")
  let secret := textOr host (request.lookup "secret_key")
  require (secret ≠ [] ∨ flag existing "secret_installed") (invalid "a secret key is required")
  return ⟨endpoint, allowInsecure, bucket, keyPrefix, accessKey, if secret = [] then .none else .secret secret⟩

def s3Record (request existing : Fields) (name : Chars) (checked : Bucket) : Except Failure Fields := do
  let region := Text.strip (textOr host (some (firstOf (request.lookup "region") none (.str "us-east-1"))))
  let common ← commonFields host request existing
  return [("name", text name), ("type", .str "s3"), ("endpoint", text checked.endpoint),
    ("region", text (region.take 64)), ("bucket", text checked.bucket), ("prefix", text checked.keyPrefix),
    ("access_key", text checked.accessKey), ("secret_installed", .bool true),
    ("allow_insecure", .bool checked.allowInsecure)] ++ common

/-- `save_s3_destination`. -/
def saveS3Destination (s : Store) (request : Fields) (name : Chars) : Outcome :=
  match checkBucket host request (existingOf s name) with
  | .error e => (.error e, s)
  | .ok checked =>
    let written := s.update name ((s.files name).write checked.credential)
    match s3Record host request (existingOf s name) name checked with
    | .error e => (.error e, written)
    | .ok record => written.replaceRecord host name record

/-- `save_destination`. -/
def saveDestination (s : Store) (request : Fields) : Outcome :=
  match destinationName host (some (text (lowered host (request.lookup "name")))) with
  | .error e => (.error e, s)
  | .ok name =>
    let kind := lowered host (request.lookup "type")
    if kind = ['s', '3'] then saveS3Destination host s request name
    else if kind = ['s', 'f', 't', 'p'] then saveSftp host s request name
    else (.error (invalid "unsupported destination type"), s)

/-! ## The schedule -/

structure Schedule where
  enabled : Bool
  destinations : List Chars
  includeSsh : Bool
  quiesce : Bool
  passphraseStored : Bool
  lastRun : Value
  lastResult : Value
  time : Chars
  keepLocal : Int

/-- The texts among the items of `record.get("destinations") or []`. -/
def storedNames (v : Option Value) : Except Failure (List Chars) :=
  (listOf v).map fun items => items.filterMap fun item => match item with
    | .str s => some s.toList
    | _ => none

/-- Whether a value that may be left out is anything but `False`. -/
def notFalse (v : Option Value) (default : Bool) : Bool :=
  match v with
  | some (.bool b) => b
  | some _ => true
  | none => default

/-- `load_schedule`. -/
def loadSchedule (s : Store) : Except Failure Schedule := do
  let record := s.schedule.getD []
  let names ← storedNames (record.lookup "destinations")
  let time ← scheduleTime host (record.lookup "time") defaultScheduleTime
  return {
    enabled := flag record "enabled"
    destinations := names
    includeSsh := flag record "include_ssh"
    quiesce := notFalse (record.lookup "quiesce") true
    passphraseStored := s.passphrase.isSome
    lastRun := (record.lookup "last_run").getD (.str "")
    lastResult := (record.lookup "last_result").getD (.str "")
    time := time
    keepLocal := match keepLocalValue host (record.lookup "keep_local") defaultKeepLocal with
      | .ok n => n
      | .error _ => defaultKeepLocal }

/-- The destinations of a request, each of which has to be there. -/
def chosenNames (s : Store) (request : Fields) (current : Schedule) : Except Failure (List Chars) :=
  let choose (items : List Value) : Except Failure (List Chars) :=
    items.mapM fun item => do
      let _ ← loadDestination host s (some (text (lowered host (some item))))
      return lowered host (some item)
  match request.lookup "destinations" with
  | none | some .null => choose (current.destinations.map text)
  | some (.list items) => choose items
  | some _ => .error (invalid "destinations must be a list")

/-- The passphrase file as a request leaves it. -/
def passphraseAfter (s : Store) (request : Fields) : Except Failure Store :=
  match request.lookup "passphrase" with
  | some (.str p) =>
    if p = "" then .ok { s with passphrase := none }
    else (requirePassphrase (request.lookup "passphrase")).map fun content =>
      { s with passphrase := some (encode content) }
  | _ => .ok s

def wantedRecord (s : Store) (request : Fields) (current : Schedule) (chosen : List Chars) :
    Except Failure (Fields × Chars) := do
  let enabled := match request.lookup "enabled" with
    | none | some .null => current.enabled
    | some v => v.truthy
  require (enabled = true → s.passphrase.isSome = true)
    (invalid "a stored passphrase is required before the schedule can run")
  require (enabled = true → chosen ≠ []) (invalid "choose at least one destination before enabling the schedule")
  let time ← scheduleTime host (request.lookup "time") current.time
  let keepLocal ← keepLocalValue host (request.lookup "keep_local") current.keepLocal
  let includeSsh := ((request.lookup "include_ssh").map Value.truthy).getD current.includeSsh
  return ([("enabled", .bool enabled), ("destinations", .list (chosen.map text)), ("include_ssh", .bool includeSsh),
    ("quiesce", .bool (notFalse (request.lookup "quiesce") current.quiesce)), ("last_run", current.lastRun),
    ("last_result", current.lastResult), ("time", text time), ("keep_local", .int keepLocal)], time)

/-- `write_timer_time`: the drop-in is written before systemd is asked to take it up. -/
def writeTimerTime (s : Store) (time : Chars) : Except Failure Unit × Store :=
  (match host.timerFails with
    | some detail => .error (invalid ("the schedule was saved but the timer could not be updated: " ++ detail))
    | none => .ok (), { s with timer := some time })

/-- A request of `save_schedule`, and the store when it has ended. -/
abbrev ScheduleOutcome := Except Failure Schedule × Store

/-- `save_schedule`. -/
def saveSchedule (s : Store) (request : Fields) : ScheduleOutcome :=
  match loadSchedule host s with
  | .error e => (.error e, s)
  | .ok current =>
    match chosenNames host s request current with
    | .error e => (.error e, s)
    | .ok chosen =>
      match passphraseAfter s request with
      | .error e => (.error e, s)
      | .ok written =>
        match wantedRecord host written request current chosen with
        | .error e => (.error e, written)
        | .ok (record, time) =>
          if host.fits record then
            let saved := { written with schedule := some record }
            if time = current.time then (loadSchedule host saved, saved)
            else
              let timed := writeTimerTime host saved time
              (timed.1 >>= fun _ => loadSchedule host timed.2, timed.2)
          else (.error (.refused "job state is too large" "too_large"), written)

end EasyHaProxy.Backupd.Settings
