import Mathlib.Data.List.Lex
import Mathlib.Data.Set.Subsingleton
import EasyHaProxy.Lib.Json
import EasyHaProxy.Lib.Python
import EasyHaProxy.Lib.Validate
import EasyHaProxy.Lib.Words
import EasyHaProxy.Controld.Basic

/-! A guarded change may not touch the host ACLs of HAProxy Admin and Authelia. The daemon reads them out of
the two configurations with a pattern and binds the checks it was given to them. -/
namespace EasyHaProxy.Controld

open Text Python

/-- The keys of `_CONTROL_PLANE_PATHS`. -/
inductive ControlPlaneService
  | admin
  | authelia
  deriving DecidableEq

namespace ControlPlaneService

def all : List ControlPlaneService := [.admin, .authelia]

def name : ControlPlaneService → String
  | .admin => "admin"
  | .authelia => "authelia"

def path : ControlPlaneService → String
  | .admin => "/api/control-plane-health"
  | .authelia => "/api/health"

/-- `host_admin` and `host_authelia`. -/
def acl : ControlPlaneService → List Char
  | .admin => ['h', 'o', 's', 't', '_', 'a', 'd', 'm', 'i', 'n']
  | .authelia => ['h', 'o', 's', 't', '_', 'a', 'u', 't', 'h', 'e', 'l', 'i', 'a']

def named (service : List Char) : Option ControlPlaneService := all.find? fun s => s.name.toList = service

def ofAcl (n : List Char) : Option ControlPlaneService := all.find? fun s => s.acl = n

theorem mem_all (s : ControlPlaneService) : s ∈ all := by
  cases s <;> decide

theorem ofAcl_acl (s : ControlPlaneService) : ofAcl s.acl = some s := by
  cases s <;> decide

theorem ofAcl_eq_none {n : List Char} (h : ∀ s : ControlPlaneService, s.acl ≠ n) : ofAcl n = none := by
  simp [ofAcl, h]

theorem isWord_acl (s : ControlPlaneService) : IsWord s.acl := by
  cases s <;> decide

end ControlPlaneService

/-- What `str(value or "")` makes of a value that is no string, and `str.lower`. -/
structure PyText where
  strOrEmpty : Json → String
  lower : List Char → List Char

/-- `str(item.get(key) or "")`. -/
def PyText.field (py : PyText) (fields : List (String × Json)) (key : String) : List Char :=
  match Json.get? fields key with
  | none => []
  | some (.str s) => s.toList
  | some v => (py.strOrEmpty v).toList

def rstripDots (l : List Char) : List Char := l.rdropWhile (· == '.')

/-! ## The checks of a request -/

def domainChar (c : Char) : Bool := isAlpha c || '0' ≤ c && c ≤ '9'

/-- One label of `_CONTROL_PLANE_DOMAIN_RE`. -/
def domainLabel (l : List Char) : Bool :=
  l.head?.any domainChar && l.getLast?.any domainChar && l.all (fun c => domainChar c || c == '-') &&
    l.length ≤ 63

def controlPlaneDomain (l : List Char) : Bool :=
  let labels := l.splitOn '.'
  l.length ≤ 253 && 2 ≤ labels.length && labels.all domainLabel

structure ControlPlaneCheck where
  service : ControlPlaneService
  domain : List Char

/-- No service is checked twice, and each at a domain. -/
structure ControlPlaneChecks where
  items : List ControlPlaneCheck
  distinct : (items.map ControlPlaneCheck.service).Nodup
  domains : ∀ c ∈ items, controlPlaneDomain c.domain = true

namespace ControlPlaneChecks

def none : ControlPlaneChecks := ⟨[], List.nodup_nil, by simp⟩

def services (checks : ControlPlaneChecks) : List ControlPlaneService :=
  checks.items.map ControlPlaneCheck.service

def add (checks : ControlPlaneChecks) (c : ControlPlaneCheck) (hs : c.service ∉ checks.services)
    (hd : controlPlaneDomain c.domain = true) : ControlPlaneChecks where
  items := checks.items ++ [c]
  distinct := by
    rw [List.map_append]
    exact checks.distinct.append (List.nodup_singleton _) (List.disjoint_singleton.mpr hs)
  domains := by
    intro other hother
    rcases List.mem_append.mp hother with h | h
    · exact checks.domains other h
    · rwa [List.mem_singleton.mp h]

/-- `{check["service"]: check["domain"] for check in checks}`. -/
def supplied (checks : ControlPlaneChecks) (s : ControlPlaneService) : Option (List Char) :=
  (checks.items.find? fun c => c.service = s).map ControlPlaneCheck.domain

theorem supplied_eq_some {checks : ControlPlaneChecks} {s : ControlPlaneService} {d : List Char} :
    checks.supplied s = some d ↔ ∃ c ∈ checks.items, c.service = s ∧ c.domain = d := by
  unfold supplied
  constructor
  · intro h
    obtain ⟨c, hc, rfl⟩ := Option.map_eq_some_iff.mp h
    exact ⟨c, List.mem_of_find?_eq_some hc, by simpa using List.find?_some hc, rfl⟩
  · rintro ⟨c, hc, rfl, rfl⟩
    cases hf : checks.items.find? fun other => other.service = c.service with
    | none =>
      have hne := List.find?_eq_none.mp hf c hc
      simp at hne
    | some other =>
      have hs : other.service = c.service := by simpa using List.find?_some hf
      rw [List.inj_on_of_nodup_map checks.distinct (List.mem_of_find?_eq_some hf) hc hs]
      rfl

end ControlPlaneChecks

section Decode

variable (py : PyText)

/-- One round of the loop over the payload. -/
def addControlPlaneCheck (checks : ControlPlaneChecks) (item : Json) : Except String ControlPlaneChecks :=
  match item.obj? with
  | none => .error "invalid control-plane check"
  | some fields =>
    let domain := rstripDots (py.lower (strip (py.field fields "domain")))
    match ControlPlaneService.named (py.lower (strip (py.field fields "service"))) with
    | none => .error "invalid or duplicate control-plane service"
    | some service =>
      if hs : service ∈ checks.services then .error "invalid or duplicate control-plane service"
      else if hd : controlPlaneDomain domain = true then .ok (checks.add ⟨service, domain⟩ hs hd)
      else .error ("invalid control-plane domain for " ++ service.name)

/-- `_decode_control_plane_checks`, from the document on. -/
def decodeControlPlaneChecks (payload : Json) : Except String ControlPlaneChecks := do
  match payload.arr? with
  | none => .error "one or two control-plane checks are required"
  | some items =>
    if 1 ≤ items.length ∧ items.length ≤ 2 then
      let checks ← items.foldlM (addControlPlaneCheck py) .none
      if .admin ∈ checks.services then .ok checks else .error "the HAProxy Admin check is required"
    else .error "one or two control-plane checks are required"

end Decode

/-! ## The ACLs of a configuration -/

def aclWord : List Char := ['a', 'c', 'l']
def hdrHost : List Char := ['h', 'd', 'r', '(', 'h', 'o', 's', 't', ')']
def dashI : List Char := ['-', 'i']

/-- `(host_admin|host_authelia)\s+`. -/
def readAclName (l : List Char) : Option (ControlPlaneService × List Char) :=
  match word ControlPlaneService.admin.acl l with
  | some rest => some (.admin, rest)
  | none => (word ControlPlaneService.authelia.acl l).map (.authelia, ·)

/-- `_CONTROL_PLANE_ACL_RE` at the start of a line: the service, the second group and the text
behind it. A `\s+` runs over line ends, a `.` does not. Blank lines after the group, which the last
`\s*` takes as well, start no match of their own. -/
def aclMatch (l : List Char) : Option (ControlPlaneService × List Char × List Char) := do
  let l ← word aclWord (blanks l)
  let (service, l) ← readAclName l
  let l ← word hdrHost l
  let l ← word dashI l
  -- with nothing but blanks to the end of the text a group has no value
  if l = [] then none
  else
    let line := l.takeWhile (· ≠ '\n')
    some (service, line.rdropWhile isSpace, l.drop line.length)

/-- The text from behind each line end on. -/
def afterLineEnds : List Char → List (List Char)
  | [] => []
  | c :: l => if c = '\n' then l :: afterLineEnds l else afterLineEnds l

/-- The places where `^` matches. -/
def lineStarts (l : List Char) : List (List Char) := l :: afterLineEnds l

/-- `finditer`: a match starts behind the one before it, which left `limit` characters. -/
def findFrom (limit : Nat) : List (List Char) → List (ControlPlaneService × List Char)
  | [] => []
  | start :: starts =>
    if limit < start.length then findFrom limit starts
    else
      match aclMatch start with
      | none => findFrom limit starts
      | some (service, values, rest) => (service, values) :: findFrom rest.length starts

def finditer (text : List Char) : List (ControlPlaneService × List Char) :=
  findFrom text.length (lineStarts text)

/-- `raw.decode("utf-8")`. -/
def decodeUtf8 (raw : Bytes) : Option (List Char) :=
  let bytes : ByteArray := ⟨raw.toArray⟩
  if h : bytes.IsValidUTF8 then some (String.fromUTF8 bytes h).toList else none

/-- The protected domains by the names of the ACLs; one without domains is not in the map. -/
structure ControlPlaneDomains where
  admin : List (List Char) := []
  authelia : List (List Char) := []
  deriving DecidableEq

namespace ControlPlaneDomains

def get (d : ControlPlaneDomains) : ControlPlaneService → List (List Char)
  | .admin => d.admin
  | .authelia => d.authelia

def set (d : ControlPlaneDomains) (s : ControlPlaneService) (values : List (List Char)) :
    ControlPlaneDomains :=
  match s with
  | .admin => { d with admin := values }
  | .authelia => { d with authelia := values }

@[simp] theorem get_set {d : ControlPlaneDomains} {s t : ControlPlaneService} {values : List (List Char)} :
    (d.set s values).get t = if s = t then values else d.get t := by
  cases s <;> cases t <;> rfl

end ControlPlaneDomains

section Transition

variable (py : PyText)

/-- The domains that the words of a line name. -/
def domainsOf (values : List (List Char)) : List (List Char) :=
  Validate.sortedSet ((values.filter fun value => strip value ≠ []).map fun value =>
    rstripDots (py.lower (strip value)))

/-- What each match of the pattern names. -/
def foundDomains (raw : Bytes) : List (ControlPlaneService × List (List Char)) :=
  ((decodeUtf8 raw).map fun text =>
    (finditer text).map fun m => (m.1, domainsOf py (words m.2))).getD []

/-- `if values: domains[match.group(1)] = values`. -/
def noteDomains (d : ControlPlaneDomains) (m : ControlPlaneService × List (List Char)) : ControlPlaneDomains :=
  if m.2 = [] then d else d.set m.1 m.2

/-- `_control_plane_domains_from_config`. -/
def controlPlaneDomainsFromConfig (raw : Bytes) : Except String ControlPlaneDomains :=
  if decodeUtf8 raw = none then .error "UnicodeDecodeError"
  else .ok ((foundDomains py raw).foldl noteDomains {})

/-- `_validate_guarded_control_plane_transition`. -/
def validateGuardedControlPlaneTransition (previous candidate : Bytes) (checks : ControlPlaneChecks) :
    Except String Unit := do
  let activeDomains ← controlPlaneDomainsFromConfig py previous
  let candidateDomains ← controlPlaneDomainsFromConfig py candidate
  if activeDomains.get .admin = [] then
    .error "the current config has no protected HAProxy Admin domain"
  else if activeDomains ≠ candidateDomains then
    .error "protected HAProxy Admin/Authelia domains changed; use the domain migration workflow"
  else
    match ControlPlaneService.all.find? fun s => 1 < (candidateDomains.get s).length with
    | some s => .error ("multiple protected domains found for " ++ s.name)
    | none =>
      if ControlPlaneService.all.all fun s => checks.supplied s = (candidateDomains.get s).head? then .ok ()
      else .error "control-plane checks do not match the protected domains"

end Transition

end EasyHaProxy.Controld
