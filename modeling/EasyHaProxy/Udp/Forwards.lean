import EasyHaProxy.Lib.Yaml
import EasyHaProxy.Lib.Validate
import EasyHaProxy.Guardd.Basic
import EasyHaProxy.Lib.Decimal
import Mathlib.Data.List.Pairwise

/-! What the loader reads from the managed file before it programs any rule: a list of enabled forwards with
primitive fields, or one reason to stop. -/
namespace EasyHaProxy.Udp

open EasyHaProxy.Yaml EasyHaProxy.Text
open Guardd (isIPv4)

/-! ## Ports and addresses -/

def maxPortsPerForward : Nat := 1024

structure PortRange where
  start : Nat
  stop : Nat
  pos : 1 ≤ start
  le : start ≤ stop
  bound : stop ≤ 65535
  few : stop - start + 1 ≤ maxPortsPerForward
  deriving DecidableEq

namespace PortRange

def count (r : PortRange) : Nat := r.stop - r.start + 1

def ports (r : PortRange) : List Nat := List.range' r.start r.count

@[simp] theorem mem_ports {r : PortRange} {port : Nat} : port ∈ r.ports ↔ r.start ≤ port ∧ port ≤ r.stop := by
  have := r.le
  rw [ports, count, List.mem_range'_1]
  omega

/-- `_format_port_range`. -/
def format (r : PortRange) : Value :=
  if r.start = r.stop then .int r.start else .str (toString r.start ++ "-" ++ toString r.stop)

end PortRange

def isPort (digits : List Char) : Bool := digits ≠ [] ∧ digits.length ≤ 5 ∧ digits.all Char.isDigit

def number (digits : List Char) : Nat := Nat.ofDigitChars 10 digits 0

/-- `PORT_RANGE_RE`: a port, or two with a hyphen between them. -/
def matchPorts (text : List Char) : Option (Nat × Nat) :=
  match text.splitOn '-' with
  | [start] => if isPort start then some (number start, number start) else none
  | [start, stop] => if isPort start && isPort stop then some (number start, number stop) else none
  | _ => none

/-- The checks `_port_range` of the loader and `_parse_port_range` of the panel share; they word one
error differently. -/
def checkPorts (outside : String) (field : String) (text : String) : Except String PortRange :=
  match matchPorts text.toList with
  | none => .error (field ++ " must be a port or inclusive range such as 51820-51830")
  | some (start, stop) =>
    if hrange : (1 ≤ start ∧ start ≤ 65535) ∧ 1 ≤ stop ∧ stop ≤ 65535 then
      if hle : start ≤ stop then
        if hfew : stop - start + 1 ≤ maxPortsPerForward then
          .ok ⟨start, stop, hrange.1.1, hle, hrange.2.2, hfew⟩
        else .error (field ++ " range may contain at most " ++ toString maxPortsPerForward ++ " ports")
      else .error (field ++ " range end must not be lower than its start")
    else .error outside

/-- `str(value if value is not None else "").strip()`. -/
def portText (str : Value → String) (value : Option Value) : String :=
  match value with
  | none | some .null => ""
  | some v => String.ofList (strip (v.text str).toList)

/-- An IPv4 address as `ipaddress` writes it. -/
structure Ip4 where
  text : String
  valid : isIPv4 text.toList = true
  deriving DecidableEq

def Ip4.read (text : String) : Option Ip4 := if h : isIPv4 text.toList = true then some ⟨text, h⟩ else none

/-- `is_loopback`: the address is in 127.0.0.0/8. -/
def Ip4.isLoopback (ip : Ip4) : Bool := (ip.text.toList.splitOn '.').head? == some ['1', '2', '7']

/-! ## One entry -/

/-- What `getaddrinfo` raises: an `OSError`, or something else, which nothing catches. -/
inductive LookupError
  | os (text : String)
  | other

/-- What is asked of Python and of the resolver. -/
structure Outside where
  /-- `str` of a list or a mapping. -/
  str : Value → String
  /-- `repr` of a text. -/
  repr : String → String
  /-- The addresses `socket.getaddrinfo(host, None, family=AF_INET)` lists. -/
  getaddrinfo : String → Except LookupError (List Ip4)

/-- A `ConfigError` with its text, or an exception that is none. -/
inductive Fault
  | config (message : String)
  | other

/-- A forward as `normalize_forward` returns it. -/
structure Forward where
  name : String
  listen : PortRange
  backendIp : Ip4
  backend : PortRange
  banCheck : Bool
  zeroTrust : Bool
  sameCount : listen.count = backend.count
  notLoopback : backendIp.isLoopback = false

variable (py : Outside)

/-- `_resolve_ipv4`. -/
def resolveIpv4 (host : String) : Except Fault Ip4 :=
  match Ip4.read host with
  | some ip => .ok ip
  | none =>
    match py.getaddrinfo host with
    | .error (.os text) => .error (.config ("cannot resolve backend host " ++ py.repr host ++ ": " ++ text))
    | .error .other => .error .other
    | .ok [] => .error (.config ("backend host " ++ py.repr host ++ " has no IPv4 address"))
    | .ok (ip :: _) => .ok ip

/-- `_port_range`. -/
def portRange (value : Option Value) (field : String) : Except Fault PortRange :=
  let text := portText py.str value
  (checkPorts (field ++ " must be within 1-65535, got " ++ py.repr text) field text).mapError .config

/-- `{name or _format_port_range(start, end)!r}`. -/
def shownName (name : String) (listen : PortRange) : String :=
  if name ≠ "" then py.repr name
  else if listen.start = listen.stop then toString listen.start
  else py.repr (toString listen.start ++ "-" ++ toString listen.stop)

def requireConfig (p : Prop) [Decidable p] (message : String) : Except Fault (PLift p) :=
  if h : p then .ok ⟨h⟩ else .error (.config message)

def normalizeFields (raw : Fields) : Except Fault Forward := do
  let name := stripped py.str (raw.lookup "name")
  let listen ← portRange py (raw.lookup "listen_port") "listen_port"
  let backendHost := stripped py.str (raw.lookup "backend_host")
  let _ ← requireConfig (backendHost ≠ "") ("forward " ++ shownName py name listen ++ " is missing backend_host")
  let backendIp ← resolveIpv4 py backendHost
  let notLoopback ← requireConfig (backendIp.isLoopback = false)
    "backend_host must not resolve to a loopback address; use a container or LAN backend"
  let backend ← portRange py (raw.lookup "backend_port") "backend_port"
  let sameCount ← requireConfig (listen.count = backend.count)
    "listen_port and backend_port ranges must contain the same number of ports"
  return {
    name := if name ≠ "" then name else "udp" ++ toString listen.start
    listen, backendIp, backend
    banCheck := ((raw.lookup "ban_check").getD (.bool true)).truthy
    zeroTrust := ((raw.lookup "zero_trust").getD (.bool false)).truthy
    sameCount := sameCount.down
    notLoopback := notLoopback.down }

def normalizeForward : Value → Except Fault Forward
  | .map raw => normalizeFields py raw
  | _ => .error (.config "each UDP forward must be a mapping")

/-! ## The file -/

/-- How the loader stops: `SystemExit` with its text, or an exception. -/
inductive Exit
  | systemExit (message : String)
  | raised

/-- `isinstance(entry, dict) and entry.get("enabled") is False`. -/
def skipped : Value → Bool
  | .map raw => match raw.lookup "enabled" with
    | some (.bool false) => true
    | _ => false
  | _ => false

/-- The loop of `load_forwards`. -/
def loadEntries (path : String) (index : Nat) (seenPorts : List Nat) (forwards : List Forward) :
    List Value → Except Exit (List Forward)
  | [] => .ok forwards
  | entry :: entries =>
    if skipped entry then loadEntries path (index + 1) seenPorts forwards entries
    else
      match normalizeForward py entry with
      | .error (.config message) =>
        .error (.systemExit (path ++ ": udp_forwards[" ++ toString index ++ "]: " ++ message))
      | .error .other => .error .raised
      | .ok forward =>
        -- the ports ascend, so the first one seen before is the least
        match forward.listen.ports.filter (· ∈ seenPorts) with
        | first :: _ =>
          .error (.systemExit (path ++ ": udp_forwards[" ++ toString index ++ "]: listen port " ++ toString first ++
            " is configured more than once"))
        | [] => loadEntries path (index + 1) (seenPorts ++ forward.listen.ports) (forwards ++ [forward]) entries

/-- What opening and parsing the file gives. -/
inductive File
  | missing
  | unreadable (text : String)
  | unparsable
  | parsed (data : Value)

/-- `data.get("udp_forwards")`, or `data.get("udp")` where that is `None`. -/
def forwardsOf (data : Fields) : Option Value :=
  match data.lookup "udp_forwards" with
  | none | some .null => data.lookup "udp"
  | some v => some v

def loadForwards (path : String) : File → Except Exit (List Forward)
  | .missing => .ok []
  | .unreadable text => .error (.systemExit ("cannot read " ++ path ++ ": " ++ text))
  | .unparsable => .error .raised
  | .parsed data =>
    match if data.truthy then data else .map [] with
    | .map fields =>
      match forwardsOf fields with
      | some (.list entries) => loadEntries py path 0 [] [] entries
      | _ => .ok []
    | _ => .error (.systemExit (path ++ ": root must be a mapping"))

/-! ## The loaded forwards share no port -/

section Apart

variable {py} {path : String} {index : Nat} {seenPorts : List Nat} {before forwards : List Forward}
  {entries : List Value} {file : File}

def PortRange.Apart (r s : PortRange) : Prop := ∀ port, port ∈ r.ports → port ∉ s.ports

theorem apart_of_loadEntries (h : loadEntries py path index seenPorts before entries = .ok forwards)
    (hseen : ∀ f ∈ before, ∀ port ∈ f.listen.ports, port ∈ seenPorts)
    (hbefore : before.Pairwise fun f g => f.listen.Apart g.listen) :
    forwards.Pairwise fun f g => f.listen.Apart g.listen := by
  induction entries generalizing index seenPorts before with
  | nil =>
    obtain rfl : before = forwards := Except.ok.inj h
    exact hbefore
  | cons entry entries ih =>
    rw [loadEntries] at h
    split at h
    · exact ih h hseen hbefore
    · split at h
      · cases h
      · cases h
      · rename_i forward _
        split at h
        · cases h
        · rename_i hnone
          have hnew : ∀ port ∈ forward.listen.ports, port ∉ seenPorts := by
            simpa [List.filter_eq_nil_iff] using hnone
          refine ih h ?_ ?_
          · intro f hf port hport
            rw [List.mem_append]
            rcases List.mem_append.mp hf with hf | hf
            · exact Or.inl (hseen f hf port hport)
            · obtain rfl := List.mem_singleton.mp hf
              exact Or.inr hport
          · rw [List.pairwise_append]
            refine ⟨hbefore, List.pairwise_singleton _ _, ?_⟩
            rintro f hf g hg port hport hport'
            obtain rfl := List.mem_singleton.mp hg
            exact hnew port hport' (hseen f hf port hport)

instance : Std.Symm fun f g : Forward => f.listen.Apart g.listen :=
  ⟨fun _ _ h port hg hf => h port hf hg⟩

theorem apart_of_loadForwards (h : loadForwards py path file = .ok forwards) :
    forwards.Pairwise fun f g => f.listen.Apart g.listen := by
  unfold loadForwards at h
  split at h
  · obtain rfl := Except.ok.inj h
    exact List.Pairwise.nil
  · cases h
  · cases h
  · split at h
    · split at h
      · exact apart_of_loadEntries h (by simp) List.Pairwise.nil
      · obtain rfl := Except.ok.inj h
        exact List.Pairwise.nil
    · cases h

end Apart

end EasyHaProxy.Udp
