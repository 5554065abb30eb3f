import EasyHaProxy.Udp.Forwards
import EasyHaProxy.Haproxy.Sites
import EasyHaProxy.Lib.Machine

/-! What the panel stores in udp.yml: one forward is validated, checked against the stored ones and put
among them, or one is taken out. The rules of the loader are not asked. -/
namespace EasyHaProxy.Udp

open EasyHaProxy.Yaml EasyHaProxy.Text
open Guardd (isIPv4 isIPv6)
open Haproxy (isIdentifier isNameChar)

/-! ## Hosts -/

def isAlnum (c : Char) : Bool := isNameChar c && c != '_'

/-- `[A-Za-z0-9](?:[..]{0,61}[A-Za-z0-9])?`, with the characters the middle may have. -/
def isLabel (middle : Char → Bool) (l : List Char) : Bool :=
  l ≠ [] ∧ l.length ≤ 63 ∧ l.all middle ∧ l.head?.all isAlnum ∧ l.getLast?.all isAlnum

/-- `DOMAIN_RE`. -/
def isDomain (text : List Char) : Bool :=
  let name := (text.dropPrefix? ['*', '.']).getD text
  let body := (name.dropSuffix? ['.']).getD name
  let labels := body.splitOn '.'
  body.length ≤ 253 && 2 ≤ labels.length && labels.all (isLabel fun c => isAlnum c || c == '-')

/-- `HOSTNAME_LABEL_RE`. -/
def isHostnameLabel (text : List Char) : Bool := isLabel (fun c => isNameChar c || c == '-') text

/-- `HOST_RE`. -/
def isHostText (text : List Char) : Bool :=
  text ≠ [] ∧ text.length ≤ 253 ∧
    text.all fun c => isNameChar c || c == '.' || c == ':' || c == '%' || c == '-'

/-- What `validate_host` takes for a host name: no part of an address that did not parse. -/
def isHostName (text : List Char) : Bool :=
  !(text.splitOn '.').all (fun part => part ≠ [] ∧ part.all Char.isDigit) &&
    (isDomain text || isHostnameLabel text)

/-- The text without brackets, up to a zone. -/
def literalOf (text : List Char) : List Char :=
  let inner := if text.head? = some '[' ∧ text.getLast? = some ']' then text.tail.dropLast else text
  inner.takeWhile (· != '%')

/-- Whether `validate_host` accepts a text. -/
def acceptsHost (text : List Char) : Bool :=
  isHostText text && (isIPv4 (literalOf text) || isIPv6 (literalOf text) || (':' ∉ text && isHostName text))

/-! ## One entry -/

/-- What the panel asks of Python, of the host and of the stored entry's fingerprint. -/
structure Panel extends Outside where
  reprValue : Option Value → String
  /-- Whether `ipaddress` counts an IPv6 address as a loopback address. -/
  isLoopback6 : String → Bool
  /-- `entry_revision`. -/
  entryRevision : Fields → String
  /-- Whether the dumped file is within the size limit. -/
  fits : Fields → Bool

/-- The panel answers with a message, or an exception ends the request. -/
inductive Refusal
  | message (text : String)
  | raised

/-- A forward as `_normalize_udp_entry` returns it. -/
structure Entry where
  name : String
  listen : PortRange
  backendHost : String
  backend : PortRange
  banCheck : Bool
  zeroTrust : Bool
  enabled : Bool
  identifier : isIdentifier name.toList = true
  accepted : acceptsHost backendHost.toList = true
  notLoopback : ∀ ip, Ip4.read backendHost = some ip → ip.isLoopback = false
  notLocalhost : lower backendHost.toList ≠ "localhost".toList
  sameCount : listen.count = backend.count

/-- The record as it is stored. -/
def Entry.value (e : Entry) : Value :=
  .map [("name", .str e.name), ("listen_port", e.listen.format), ("backend_host", .str e.backendHost),
    ("backend_port", e.backend.format), ("ban_check", .bool e.banCheck), ("zero_trust", .bool e.zeroTrust),
    ("enabled", .bool e.enabled)]

variable (py : Panel)

def requireMessage (p : Prop) [Decidable p] (text : String) : Except Refusal (PLift p) :=
  if h : p then .ok ⟨h⟩ else .error (.message text)

/-- `_parse_port_range`. -/
def parsePortRange (value : Option Value) (label : String) : Except Refusal PortRange :=
  (checkPorts (label ++ " must be between 1 and 65535") label (portText py.str value)).mapError .message

/-- `_boolean`. -/
def boolean (raw : Fields) (field : String) (default : Bool) : Except Refusal Bool :=
  match raw.lookup field with
  | none => .ok default
  | some (.bool b) => .ok b
  | some _ => .error (.message (field ++ " must be true or false"))

/-- `backend_address is not None and backend_address.is_loopback`. -/
def loopbackHost (host : String) : Prop :=
  (∃ ip ∈ Ip4.read host, ip.isLoopback = true) ∨ isIPv6 host.toList = true ∧ py.isLoopback6 host = true

instance (host : String) : Decidable (loopbackHost py host) := by
  unfold loopbackHost
  cases Ip4.read host with
  | none => exact decidable_of_iff (isIPv6 host.toList = true ∧ py.isLoopback6 host = true) (by simp)
  | some ip =>
    exact decidable_of_iff (ip.isLoopback = true ∨ isIPv6 host.toList = true ∧ py.isLoopback6 host = true) (by simp)

theorem notLoopback_of (py : Panel) {host : String} (h : ¬ loopbackHost py host) :
    ∀ ip, Ip4.read host = some ip → ip.isLoopback = false := by
  intro ip hip
  by_contra hl
  exact h (Or.inl ⟨ip, hip, by simpa using hl⟩)

theorem sameCount_of (listen backend : PortRange) (h : PLift (listen.count = backend.count)) :
    listen.count = backend.count := h.down

def loopbackMessage : String := "backend_host must not use a loopback address; use a container or LAN backend"

def normalizeUdpFields (raw : Fields) : Except Refusal Entry := do
  let name := stripped py.str (raw.lookup "name")
  let identifier ← requireMessage (isIdentifier name.toList = true)
    "name: only Latin letters, digits, '.', '_', and '-' are allowed (up to 128 characters)"
  let listen ← parsePortRange py (raw.lookup "listen_port") "listen_port"
  let backendHost := stripped py.str (raw.lookup "backend_host")
  let accepted ← requireMessage (acceptsHost backendHost.toList = true)
    "backend_host: invalid IP address or hostname"
  let notLocalhost ← requireMessage (lower backendHost.toList ≠ "localhost".toList) loopbackMessage
  let reachable ← requireMessage (¬ loopbackHost py backendHost) loopbackMessage
  let backend ← parsePortRange py (raw.lookup "backend_port") "backend_port"
  let sameCount ← requireMessage (listen.count = backend.count)
    "listen_port and backend_port ranges must contain the same number of ports"
  let banCheck ← boolean raw "ban_check" true
  let zeroTrust ← boolean raw "zero_trust" false
  let enabled ← boolean raw "enabled" true
  return {
    name, listen, backendHost, backend, banCheck, zeroTrust, enabled
    identifier := identifier.down
    accepted := accepted.down
    notLoopback := notLoopback_of py reachable.down
    notLocalhost := notLocalhost.down
    sameCount := sameCount_of listen backend sameCount }

def normalizeUdpEntry : Value → Except Refusal Entry
  | .map raw => normalizeUdpFields py raw
  | _ => .error (.message "Invalid UDP forward format (expected a JSON object)")

/-! ## Among the stored entries -/

/-- `f.get(..)` of an entry that is no mapping raises. -/
def fieldsOf : Value → Except Refusal Fields
  | .map fields => .ok fields
  | _ => .error .raised

def hasName (name : String) (fields : Fields) : Bool :=
  match fields.lookup "name" with
  | some (.str s) => s == name
  | _ => false

/-- The first entry with a name, which is as far as the entries are looked at. -/
def findName (name : String) : List Value → Except Refusal (Option Nat)
  | [] => .ok none
  | f :: forwards => do
    let fields ← fieldsOf f
    if hasName name fields then return some 0 else return (← findName name forwards).map (· + 1)

def disabled (fields : Fields) : Bool :=
  match fields.lookup "enabled" with
  | some (.bool false) => true
  | _ => false

/-- `_overlapping_forward`, from an index on. -/
def overlappingForward (listen : PortRange) (skipIndex : Option Nat) (index : Nat) :
    List Value → Except Refusal (Option String)
  | [] => .ok none
  | f :: forwards =>
    if some index = skipIndex then overlappingForward listen skipIndex (index + 1) forwards
    else do
      let current ← fieldsOf f
      if disabled current then overlappingForward listen skipIndex (index + 1) forwards
      else
        match checkPorts "existing listen_port must be between 1 and 65535" "existing listen_port"
            (portText py.str (current.lookup "listen_port")) with
        | .error text => .ok (some ("Existing UDP configuration is invalid: " ++ text))
        | .ok r =>
          if listen.start ≤ r.stop ∧ r.start ≤ listen.stop then
            .ok (some ("UDP listen range " ++ toString listen.start ++ "-" ++ toString listen.stop ++ " overlaps " ++
              py.reprValue (current.lookup "name") ++ " (" ++ toString r.start ++ "-" ++ toString r.stop ++ ")"))
          else overlappingForward listen skipIndex (index + 1) forwards

/-- `check_entry_revision`. -/
def checkEntryRevision (fields : Fields) (expected : Option String) (what : String) : Except Refusal Unit :=
  let expected := String.ofList (strip (expected.getD "").toList)
  if expected ≠ "" ∧ py.entryRevision fields ≠ expected then
    .error (.message (what ++ " was changed in another session after this page was loaded. " ++
      "Reload the page to see that change, then make yours again."))
  else .ok ()

/-- The forwards of the file, none where there is no list. -/
def storedForwards (data : Fields) : List Value :=
  match forwardsOf data with
  | some (.list forwards) => forwards
  | _ => []

/-- `data[key] = value`. -/
def setField (fields : Fields) (key : String) (v : Value) : Fields :=
  if fields.any (·.1 == key) then fields.map fun f => if f.1 = key then (key, v) else f else fields ++ [(key, v)]

/-- The file that is written, unless it is too large. -/
def writeForwards (data : Fields) (forwards : List Value) : Except Refusal Fields :=
  let written := setField (data.filter (·.1 ≠ "udp")) "udp_forwards" (.list forwards)
  if py.fits written then .ok written else .error (.message "udp.yml exceeds the size limit")

/-- A message that is there is the answer. -/
def refuse : Option String → Except Refusal Unit
  | some text => .error (.message text)
  | none => .ok ()

/-- The two checks of the listening ports; `busy` is what the host answers about them. -/
def checkListen (busy : PortRange → Option String) (forwards : List Value) (entry : Entry)
    (skipIndex : Option Nat) : Except Refusal Unit := do
  let overlap ← overlappingForward py entry.listen skipIndex 0 forwards
  refuse overlap
  refuse (if entry.enabled then busy entry.listen else none)

/-- `any(f.get("name") == name for f in forwards)` must not hold. -/
def checkNewName (forwards : List Value) (name : String) : Except Refusal Unit := do
  let found ← findName name forwards
  refuse (found.map fun _ => "UDP forward with name=" ++ py.repr name ++ " already exists")

def checkRename (forwards : List Value) (name originalName : String) : Except Refusal Unit :=
  if name = originalName then .ok () else checkNewName py forwards name

/-- `_save_udp` for a forward that is there under a name. -/
def replaceUdp (data : Fields) (entry : Entry) (originalName : String) (revision : Option String)
    (busy : PortRange → Option String) : Except Refusal Fields := do
  let forwards := storedForwards data
  let found ← findName originalName forwards
  match found with
  | none => .error (.message ("UDP forward with name=" ++ py.repr originalName ++ " not found"))
  | some idx => do
    let stored ← fieldsOf (forwards.getD idx .null)
    checkEntryRevision py stored revision ("UDP forward " ++ py.repr originalName)
    checkRename py forwards entry.name originalName
    checkListen py busy forwards entry (some idx)
    writeForwards py data (forwards.set idx entry.value)

/-- `_save_udp` for a new forward. -/
def createUdp (data : Fields) (entry : Entry) (busy : PortRange → Option String) : Except Refusal Fields := do
  let forwards := storedForwards data
  checkNewName py forwards entry.name
  checkListen py busy forwards entry none
  writeForwards py data (forwards ++ [entry.value])

def saveUdp (data : Fields) (raw : Value) (originalName revision : Option String)
    (busy : PortRange → Option String) : Except Refusal Fields := do
  let entry ← normalizeUdpEntry py raw
  let name := originalName.getD ""
  if name = "" then createUdp py data entry busy else replaceUdp py data entry name revision busy

/-- The list comprehension of `_delete_udp`. -/
def withoutName (name : String) : List Value → Except Refusal (List Value)
  | [] => .ok []
  | f :: forwards => do
    let fields ← fieldsOf f
    let rest ← withoutName name forwards
    return if hasName name fields then rest else f :: rest

def deleteUdp (data : Fields) (name : String) : Except Refusal Fields :=
  match forwardsOf data with
  | some (.list forwards) => do
    let kept ← withoutName name forwards
    if kept.length = forwards.length then .error (.message ("UDP forward with name=" ++ py.repr name ++ " not found"))
    else writeForwards py data kept
  | _ => .error (.message "Invalid udp.yml structure (expected a udp_forwards list)")

/-! ## Requests -/

inductive Request
  | save (raw : Value) (originalName revision : Option String) (busy : PortRange → Option String)
  | delete (name : String)

def answer (data : Fields) : Request → Except Refusal Fields
  | .save raw originalName revision busy => saveUdp py data raw originalName revision busy
  | .delete name => deleteUdp py data name

/-- The file after a request: what was written, or what was there. -/
def step (data : Fields) (request : Request) : Fields :=
  match answer py data request with
  | .ok written => written
  | .error _ => data

/-- An accepted save of an enabled forward names no IPv6 address and no address with a zone. -/
def NamesIpv4 (data : Fields) : Request → Prop
  | .save (.map raw) originalName revision busy =>
    (∃ written, saveUdp py data (.map raw) originalName revision busy = .ok written) →
      raw.lookup "enabled" ≠ some (.bool false) →
      ':' ∉ (stripped py.str (raw.lookup "backend_host")).toList ∧
        '%' ∉ (stripped py.str (raw.lookup "backend_host")).toList
  | _ => True

end EasyHaProxy.Udp
