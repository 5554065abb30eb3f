import EasyHaProxy.Certs.Deliver
import EasyHaProxy.Lib.Fields
import EasyHaProxy.Lib.ReadWrite

/-! A test reads the target's record, lets the worker deliver for up to minutes, and writes the record back
with its result. The editor saves and deletes the same record meanwhile. -/
namespace EasyHaProxy.Certs.Edits

open EasyHaProxy.ReadWrite

abbrev Fields := List (String × Json)

/-- The record's file; nothing where there is no such target. -/
abbrev Content := Option Fields

/-- Why a request is refused. -/
inductive Refusal
  /-- `ValueError`. -/
  | value (text : String)
  | other

/-- The interpreter, and what the certificates and the directory look like to a request. -/
structure Host where
  py : Interpreter
  /-- `int(value)`; a `TypeError` counts as a `ValueError`. -/
  int : Json → Except Refusal Int
  /-- `_normalize_dns_name`. -/
  normalizeDnsName : String → Except Refusal String
  /-- Whether `_resolve_lineage` finds a lineage. -/
  resolves : String → Bool
  /-- Whether `_lineage_covering` finds one; the lineage's name. -/
  covering : List String → Option String
  /-- The number of records in the directory. -/
  records : Nat

def maxDeliveryTargets : Nat := 50

variable (host : Host)

def refuse (p : Prop) [Decidable p] (text : String) : Except Refusal Unit :=
  if p then .error (.value text) else .ok ()

/-- `str(payload.get(key) or default).strip()` -/
def textOf (payload : Fields) (key default : String) : String :=
  strip (field host.py ⟨"", payload⟩ key default)

def enabledOf (payload : Fields) : Bool := ((Json.get? payload "enabled").map (truthy host.py)).getD true

def twoCertificates (domains : List String) : String :=
  "no one certificate covers all of " ++ ", ".intercalate domains ++
    "; a target receives one certificate, so give each certificate a target of its own"

/-- The names of a request. -/
def requestDomains (payload : Fields) : Except Refusal (List String) := do
  let items ← (domainItems host.py ⟨"", payload⟩).mapError fun _ => Refusal.other
  let domains ← (items.filter fun item => strip item ≠ "").mapM host.normalizeDnsName
  refuse (domains = []) "choose at least one certificate to deliver"
  refuse (1 < domains.length ∧ (domains.head?.any host.resolves) = true ∧ host.covering domains = none)
    (twoCertificates domains)
  return domains

def requestPort (payload : Fields) : Except Refusal Int := do
  let port ← match (Json.get? payload "port").filter (truthy host.py) with
    | some v => match host.int v with
      | .error (.value _) => .error (.value "port must be a number")
      | outcome => outcome
    | none => .ok 22
  refuse (¬ (1 ≤ port ∧ port ≤ 65535)) "port must be between 1 and 65535"
  return port

/-- What a save leaves as it was unless a new one is sent. -/
def pfxPassword (payload existing : Fields) : Json :=
  match Json.get? payload "pfx_password" with
  | none | some .null => Json.getD existing "pfx_password" (.str "")
  | some v => .str (str host.py v)

/-- The record that `save_cert_delivery` writes. -/
def savedRecord (payload : Fields) (read : Content) : Except Refusal Fields := do
  refuse (read = none ∧ maxDeliveryTargets ≤ host.records) "at most 50 delivery targets"
  let existing := read.getD []
  let domains ← requestDomains host payload
  let transport := host.py.lower (textOf host payload "transport" "sftp")
  refuse (transport ∉ transports) "transport must be sftp or scp"
  let format := host.py.lower (textOf host payload "format" "pfx")
  refuse (format ∉ formats) "format must be pfx, pem-pair or pem-combined"
  let address := textOf host payload "host" ""
  let user := textOf host payload "user" ""
  let remotePath := textOf host payload "remote_path" ""
  refuse (address = "" ∨ user = "" ∨ remotePath = "") "host, user and remote path are all required"
  let port ← requestPort host payload
  return [("enabled", .bool (enabledOf host payload)), ("domains", .arr (domains.map .str)),
    ("transport", .str transport), ("host", .str address), ("port", .int port), ("user", .str user),
    ("remote_path", .str remotePath), ("format", .str format),
    ("post_command", .str (textOf host payload "post_command" "")),
    ("pfx_password", pfxPassword host payload existing),
    ("last_result", Json.getD existing "last_result" (.obj []))]

/-- How the worker's run ends: with its exit code and output, or with an exception. -/
inductive Worker
  | exited (code : Int) (output : List Char)
  | raised

/-- What a test writes as the record's last result. -/
def lastResult (code now : Int) (output : List Char) : Json :=
  .obj [("ok", .bool (code = 0)), ("at", .int now),
    ("detail", .str (String.ofList (output.drop (output.length - 400))))]

/-- The record that `test_cert_delivery` writes. -/
def testedRecord (worker : Worker) (now : Int) (record : Fields) : Option Fields :=
  match domainItems host.py ⟨"", record⟩, worker with
  | .ok domains, .exited code output =>
    if domains = [] ∨ host.covering domains = none then none
    else some (Fields.put "last_result" (lastResult code now output) record)
  | _, _ => none

/-! ## Runs -/

/-- A request for the target. -/
inductive Job
  /-- `save_cert_delivery`. -/
  | save (host : Host) (payload : Fields)
  /-- `delete_cert_delivery`. -/
  | delete
  /-- `test_cert_delivery`. -/
  | test (host : Host) (worker : Worker) (now : Int)

/-- What a request makes of the record it has read. -/
def make : Make Content Job
  | .save host payload, read =>
    match savedRecord host payload read with
    | .ok record => some (some record)
    | .error _ => none
  | .delete, _ => some none
  | .test host worker now, read =>
    match read with
    | some record => (testedRecord host worker now record).map some
    | none => none

/-- The record but for its last result, if there is a record; a save and a deletion set it. -/
def targetParts : Parts Content Job Unit where
  τ := Option Fields
  part _ record := record.map fun fields => fields.filter fun entry => entry.1 != "last_result"
  sets
    | .save .., _ => true
    | .delete, _ => true
    | .test .., _ => false

/-- A test keeps all of the record it has read but the result. -/
theorem copies_target : Copies make targetParts := by
  intro job read content hmake k hsets
  cases job with
  | save host payload => cases hsets
  | delete => cases hsets
  | test host worker now =>
    cases read with
    | none => cases hmake
    | some record =>
      obtain ⟨tested, htested, rfl⟩ := Option.map_eq_some_iff.mp hmake
      unfold testedRecord at htested
      split at htested
      · split at htested
        · cases htested
        · obtain rfl := Option.some.inj htested
          exact congrArg some (Fields.filter_put (p := (· != "last_result")) (by decide) _ record)
      · cases htested

/-- At every point of the run the target is as the last save or deletion left it, but for its last result. -/
def EditsSurvive (initial : Content) (events : List (Event Job)) : Prop :=
  ∀ pre, pre <+: events → Kept targetParts initial (Machine.run (step make) (start initial) pre)

/-- Sending a certificate on demand undoes no edit just where every test that writes its result finds
the target as it has read it. -/
theorem editsSurvive_iff (initial : Content) (events : List (Event Job)) :
    EditsSurvive initial events ↔ Machine.Along (step make) (Current targetParts) (start initial) events :=
  kept_along_iff copies_target initial events

/-- One lineage covers whatever is asked for. -/
def covered : Host where
  py := ⟨id, fun _ => "", fun _ => true⟩
  int := fun _ => .error .other
  normalizeDnsName := .ok
  resolves := fun _ => true
  covering := fun _ => some "example.com"
  records := 1

def mailTarget : Fields := [("enabled", .bool true), ("domains", .arr [.str "mail.example.com"])]

/-- The target is deleted while the worker delivers. -/
def deletedMeanwhile : List (Event Job) :=
  [.read 0 (.test covered (.exited 0 []) 1767225600), .read 1 .delete, .prepare 1, .write 1, .prepare 0, .write 0]

/-- The test brings the target back. -/
theorem deletion_undone :
    Finished (Machine.run (step make) (start (some mailTarget)) deletedMeanwhile) ∧
      ¬ Kept targetParts (some mailTarget)
        (Machine.run (step make) (start (some mailTarget)) deletedMeanwhile) := by
  constructor
  · intro session
    match session with
    | 0 => rfl
    | 1 => rfl
    | _ + 2 => rfl
  · intro h
    have hthere : true = false := congrArg Option.isSome (h ())
    cases hthere

end EasyHaProxy.Certs.Edits
