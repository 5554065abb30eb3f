import EasyHaProxy.Lib.Machine
import EasyHaProxy.Lib.Decimal
import EasyHaProxy.Lib.Validate
import EasyHaProxy.Lib.Yaml
import EasyHaProxy.Haproxy.Sites
import Mathlib.Data.List.Pairwise

/-! The panel adds, edits, pauses and deletes one site at a time, each time against the others. HAProxy then
has to tell the sites apart by the names and the host names the template writes for them. -/
namespace EasyHaProxy.Panel.Identity

open EasyHaProxy.Yaml
open Validate (bind_eq_ok)
open EasyHaProxy.Haproxy (sanitize haproxyName isIdentifier)

/-- A stored site. The settings are its fields that no rule of identity reads. -/
structure Site where
  name : String
  domain : String
  altNames : List String
  paused : Bool
  certRenewalPaused : Bool
  settings : Fields

/-- What is outside: texts of values, and what the panel makes of the settings. -/
structure Outside where
  /-- `str` of a list or a mapping. -/
  str : Value → String
  /-- `repr` of a text. -/
  repr : String → String
  /-- `int` of a text. -/
  int : String → Option Int
  /-- The settings of a form as they are saved, or what is said of the first that is refused. -/
  settings : Fields → String → List String → Except String Fields
  /-- What `validate_config_data` says of the settings of all sites. -/
  problem : List Site → Option String
  /-- `entry_revision`. -/
  revision : Site → String

def strip (text : String) : String := String.ofList (Text.strip text.toList)

def refuseWith (refusal : Option String) : Except String Unit :=
  match refusal with
  | some message => .error message
  | none => .ok ()

/-! ## Names -/

/-- `validate_identifier`. -/
def validateIdentifier (value label : String) : Except String String :=
  if isIdentifier (Text.strip value.toList) then .ok (strip value)
  else .error (label ++ ": only Latin letters, digits, '.', '_', and '-' are allowed (up to 128 characters)")

def isLowerAlnum (c : Char) : Bool := 'a' ≤ c && c ≤ 'z' || '0' ≤ c && c ≤ '9'

def isLabelChar (c : Char) : Bool := isLowerAlnum c || c == '-'

/-- A label of `DOMAIN_RE` in lower case. -/
def isLabel (l : List Char) : Bool :=
  !l.isEmpty && decide (l.length ≤ 63) && l.all isLabelChar && l.head? != some '-' && l.getLast? != some '-'

/-- A text without one dot at its end. -/
def withoutDot (l : List Char) : List Char := if l.getLast? = some '.' then l.dropLast else l

/-- `DOMAIN_RE` behind a wildcard. -/
def isDomainBody (l : List Char) : Bool :=
  decide ((withoutDot l).length ≤ 253) && decide (2 ≤ ((withoutDot l).splitOn '.').length) &&
    ((withoutDot l).splitOn '.').all isLabel

def isWildcard : List Char → Bool
  | '*' :: '.' :: _ => true
  | _ => false

/-- `validate_domain` where no wildcard is allowed. -/
def validateDomain (value label : String) : Except String String :=
  let text := Text.lower (Text.strip value.toList)
  if isWildcard text && isDomainBody (text.drop 2) then
    .error (label ++ ": a wildcard is only allowed among the extra certificate names, and only with DNS-01 validation")
  else if isDomainBody text then .ok (String.ofList (text.rdropWhile (· = '.')))
  else .error (label ++ ": invalid DNS name")

/-- `_routing_names`. -/
def routingNames (site : Site) : List String :=
  (site.domain :: site.altNames).filterMap fun name =>
    let text := Text.lower (Text.strip name.toList)
    if text.isEmpty then none else some (String.ofList text)

section Panel

variable (out : Outside)

def conflictWith (candidate other : Site) : Option String :=
  if strip other.name = strip candidate.name then
    some ("A site named " ++ out.repr (strip candidate.name) ++ " already exists")
  else if haproxyName other.name = haproxyName candidate.name then
    some ("Choose another name: " ++ out.repr (strip candidate.name) ++
      " gives the same HAProxy backend name as the site " ++ out.repr (strip other.name) ++ ".")
  else if candidate.paused = false ∧ other.paused = false then
    match ((routingNames candidate).filter (· ∈ routingNames other)).insertionSort (· ≤ ·) with
    | shared :: _ => some ("This domain is already served by another site: " ++ out.repr shared ++
        " belongs to the site " ++ out.repr (strip other.name) ++ ".")
    | [] => none
  else none

/-- `site_identity_conflict`. -/
def siteIdentityConflict (candidate : Site) (others : List Site) : Option String :=
  others.findSome? (conflictWith out candidate)

/-- The alternative names of a stored site. -/
def validateAltNames (names : List String) (label : String) : Except String Unit :=
  if 100 < names.length then .error (label ++ " must be a list of at most 100 DNS names")
  else do
    let _ ← names.zipIdx.mapM fun name => validateDomain name.1 (label ++ "[" ++ toString name.2 ++ "]")
    return ()

/-- `_validate_site`, as far as names go. -/
def validateSite (site : Site × Nat) : Except String Unit := do
  let label := "sites[" ++ toString site.2 ++ "]"
  let _ ← validateIdentifier (if site.1.name = "" then site.1.domain else site.1.name) (label ++ ".name")
  let _ ← validateDomain (if site.1.domain = "" then site.1.name else site.1.domain) (label ++ ".domain")
  validateAltNames site.1.altNames (label ++ ".alt_names")

/-- `_no_shared_haproxy_names`; the names seen so far stand with the HAProxy name they give. -/
def noSharedHaproxyNames (label : String) : List (String × String) → List Site → Except String Unit
  | _, [] => .ok ()
  | seen, site :: sites =>
    match seen.lookup (haproxyName (strip site.name)) with
    | some other => .error (label ++ ": " ++ out.repr (strip site.name) ++ " and " ++ out.repr other ++
        " give the same HAProxy name")
    | none => noSharedHaproxyNames label ((haproxyName (strip site.name), strip site.name) :: seen) sites

/-- `validate_config_data` of the sites. -/
def validateConfigData (sites : List Site) : Except String Unit :=
  if 500 < sites.length then .error "sites must be a list of at most 500 items"
  else do
    let _ ← sites.zipIdx.mapM validateSite
    refuseWith (out.problem sites)
    noSharedHaproxyNames out "sites" [] sites

/-- What stands in the way of a write, whatever is written: a transaction that is pending, a disk that fails. -/
structure Obstacles where
  pending : Option String := none
  disk : Option String := none

/-- `update_yaml_file`. -/
def updateYamlFile (obstacles : Obstacles) (sites : List Site) : Except String (List Site) := do
  refuseWith obstacles.pending
  validateConfigData out sites
  refuseWith obstacles.disk
  return sites

/-! ## The operations -/

/-- `_add_site_minimal`: a site with a backend, or an access gate without one. -/
def minimalSite (name domain backendIp backendPort : String) : Except String Site :=
  if strip backendIp = "" ∧ strip backendPort = "" then
    .ok ⟨name, domain, [], false, false, [("access_gate", .bool true), ("authelia_enabled", .bool true)]⟩
  else
    match out.int (strip backendPort) with
    | none => .error "backend_port must be a number"
    | some port =>
      if 1 ≤ port ∧ port ≤ 65535 then
        .ok ⟨name, domain, [], false, false, [("backend_ip", .str (strip backendIp)), ("backend_port", .int port)]⟩
      else .error "backend_port must be between 1 and 65535"

def addSiteMinimal (name domain backendIp backendPort : String) (obstacles : Obstacles) (sites : List Site) :
    Except String (List Site) := do
  let newSite ← minimalSite out name domain backendIp backendPort
  refuseWith (siteIdentityConflict out newSite sites)
  updateYamlFile out obstacles (sites ++ [newSite])

/-- `_normalize_name_list`. -/
def normalizeNameList (value : Option Value) (label : String) (limit : Nat) : Except String (List String) := do
  let items ← match value with
    | none => .ok []
    | some .null => .ok []
    | some (.str text) =>
      .ok (((text.toList.splitOnP fun c => Text.isSpace c || c == ',').filter (· ≠ [])).map String.ofList)
    | some (.list items) => do
      let texts ← items.mapM fun raw =>
        match raw with
        | .str text => .ok (strip text)
        | _ => .error (label ++ " must contain only strings")
      .ok (texts.filter (· ≠ ""))
    | some _ => .error (label ++ " must be a list of DNS names")
  if limit < items.length then .error (label ++ " must contain at most " ++ toString limit ++ " names") else .ok items

/-- `_normalize_site_alt_names`. -/
def normalizeSiteAltNames (value : Option Value) (domain : String) : Except String (List String) := do
  let items ← normalizeNameList value "alt_names" 100
  let names ← items.mapM fun raw => validateDomain raw "alt_names"
  return names.foldl (fun seen name => if name = domain ∨ name ∈ seen then seen else seen ++ [name]) []

/-- `site.get(key) or site.get(other)` as a text. -/
def firstOf (form : Fields) (key other : String) : String :=
  match form.lookup key with
  | some v => if v.truthy then stripped out.str (some v) else stripped out.str (form.lookup other)
  | none => stripped out.str (form.lookup other)

def pauseOf (form : Fields) (key : String) (previous : Bool) : Bool :=
  match form.lookup key with
  | none => previous
  | some (.bool paused) => paused
  | some _ => false

def siteOfForm (form : Fields) (previous : Option Site) : Except String Site := do
  let name ← validateIdentifier (firstOf out form "name" "domain") "name"
  let domain ← validateDomain
    (match form.lookup "domain" with
      | some v => if v.truthy then stripped out.str (some v) else name
      | none => name) "domain"
  let altNames ← normalizeSiteAltNames (form.lookup "alt_names") domain
  let settings ← out.settings form domain altNames
  return ⟨name, domain, altNames, pauseOf form "paused" ((previous.map Site.paused).getD false),
    pauseOf form "cert_renewal_paused" ((previous.map Site.certRenewalPaused).getD false), settings⟩

/-- `check_entry_revision`. -/
def checkEntryRevision (entry : Option Site) (expected : String) : Except String Unit :=
  match entry with
  | none => .ok ()
  | some site =>
    if strip expected ≠ "" ∧ out.revision site ≠ strip expected then
      .error "This site was changed in another session after this page was loaded."
    else .ok ()

def replaceFirst (name : String) (new : Site) : List Site → Option (List Site)
  | [] => none
  | site :: sites =>
    if strip site.name = name then some (new :: sites) else (replaceFirst name new sites).map (site :: ·)

def formFields : Value → Except String Fields
  | .map fields => .ok fields
  | _ => .error "Invalid site format (expected a JSON object)"

/-- `_save_site_from_json`; an empty original name creates a site. -/
def saveSiteFromJson (form : Value) (originalName expectedRevision : String) (obstacles : Obstacles)
    (sites : List Site) : Except String (List Site) := do
  let form ← formFields form
  let previous := sites.find? fun site => strip site.name = strip originalName
  let new ← siteOfForm out form previous
  if strip originalName = "" then
    refuseWith (siteIdentityConflict out new sites)
    updateYamlFile out obstacles (sites ++ [new])
  else
    checkEntryRevision out previous expectedRevision
    refuseWith (siteIdentityConflict out new (sites.filter fun site => strip site.name ≠ strip originalName))
    match replaceFirst (strip originalName) new sites with
    | none => .error ("Site " ++ out.repr (strip originalName) ++ " was not found")
    | some sites => updateYamlFile out obstacles sites

/-- `PAUSE_KEYS`. -/
inductive PauseKey
  | paused | certRenewalPaused
  deriving DecidableEq

def pauseKey : String → Option PauseKey
  | "paused" => some .paused
  | "cert_renewal_paused" => some .certRenewalPaused
  | _ => none

def withPause (site : Site) (key : PauseKey) (paused : Bool) : Site :=
  match key with
  | .paused => { site with paused }
  | .certRenewalPaused => { site with certRenewalPaused := paused }

/-- `save_site_raw`. -/
def saveSiteRaw (name : String) (new : Site) (obstacles : Obstacles) (sites : List Site) :
    Except String (List Site) :=
  updateYamlFile out obstacles (sites.map fun site => if site.name = name then new else site)

/-- `set_site_pause`. -/
def setSitePause (name key : String) (paused : Bool) (obstacles : Obstacles) (sites : List Site) :
    Except String (List Site) :=
  match pauseKey key with
  | none => .error ("Unknown pause setting " ++ out.repr key)
  | some key =>
    match sites.find? fun site => site.name = name with
    | none => .error ("Site " ++ out.repr name ++ " was not found")
    | some site => do
      -- Back in HAProxy: its names must be free again.
      refuseWith (if key = .paused ∧ paused = false then
        siteIdentityConflict out (withPause site key paused) (sites.filter fun other => other.name ≠ name) else none)
      saveSiteRaw out name (withPause site key paused) obstacles sites

/-- `_delete_site_by_name`. -/
def deleteSite (name : String) (obstacles : Obstacles) (sites : List Site) : Except String (List Site) :=
  if sites.any fun site => site.name = name then
    updateYamlFile out obstacles (sites.filter fun site => site.name ≠ name)
  else .error ("Site " ++ out.repr name ++ " was not found")

inductive Request
  | addSiteMinimal (name domain backendIp backendPort : String)
  | saveSiteFromJson (form : Value) (originalName expectedRevision : String)
  | setSitePause (name key : String) (paused : Bool)
  | deleteSite (name : String)

/-- A request, and what stands in the way of its write. -/
structure Call where
  request : Request
  obstacles : Obstacles := {}

def answer (sites : List Site) (call : Call) : Except String (List Site) :=
  match call.request with
  | .addSiteMinimal name domain backendIp backendPort =>
    addSiteMinimal out name domain backendIp backendPort call.obstacles sites
  | .saveSiteFromJson form originalName expectedRevision =>
    saveSiteFromJson out form originalName expectedRevision call.obstacles sites
  | .setSitePause name key paused => setSitePause out name key paused call.obstacles sites
  | .deleteSite name => deleteSite out name call.obstacles sites

/-- A refused request leaves the file. -/
def step (sites : List Site) (call : Call) : List Site :=
  match answer out sites call with
  | .ok sites => sites
  | .error _ => sites

end Panel

/-! ## What HAProxy reads -/

/-- HAProxy splits a line at its blanks. -/
def haproxyWords (l : List Char) : List (List Char) :=
  (l.splitOnP fun c => c == ' ' || c == '\t').filter (· ≠ [])

/-- The host names of a site as the template joins them in a line, with those of `site_defaults` where the site
has none of its own. -/
def hostnames (defaultAltNames : List String) (site : Site) : List Char :=
  [' '].intercalate ((site.domain :: if site.altNames.isEmpty then defaultAltNames else site.altNames).map String.toList)

/-- The host names HAProxy compares, letters of either case alike. -/
def hostsRead (defaultAltNames : List String) (site : Site) : List (List Char) :=
  (haproxyWords (hostnames defaultAltNames site)).map (List.map Char.toLower)

/-- HAProxy can tell the sites apart: their names as the template writes them are distinct, and no two sites that
are published share a host name. -/
structure Distinguishable (defaultAltNames : List String) (sites : List Site) : Prop where
  names : (sites.map fun site => sanitize site.name).Nodup
  hosts : (sites.filter fun site => !site.paused).Pairwise fun a b =>
    ∀ host ∈ hostsRead defaultAltNames a, host ∉ hostsRead defaultAltNames b

def OneWord (text : String) : Prop := ∀ w ∈ haproxyWords text.toList, w = Text.strip text.toList

/-- A new site comes with a name that has no blanks around it, and with a domain that HAProxy reads as the panel
does. -/
def Plain (call : Call) : Prop :=
  match call.request with
  | .addSiteMinimal name domain _ _ => strip name = name ∧ OneWord domain
  | _ => True

/-- Neither of two sites is published, or they share no routing name. -/
def Apart (a b : Site) : Prop :=
  a.paused = false → b.paused = false → ∀ n ∈ routingNames a, n ∉ routingNames b

structure Written (site : Site) : Prop where
  name : strip site.name = site.name
  hosts : ∀ n ∈ site.domain :: site.altNames, OneWord n

structure Distinct (sites : List Site) : Prop where
  names : (sites.map fun site => haproxyName site.name).Nodup
  apart : sites.Pairwise Apart
  written : ∀ site ∈ sites, Written site

section Names

variable {text value label result : String} {l : List Char} {c : Char}

theorem strip_strip : strip (strip text) = strip text := by
  simp [strip, Text.strip_strip]

theorem haproxyName_strip : haproxyName (strip text) = haproxyName text := by
  simp [haproxyName, strip, Text.strip_strip]

theorem sanitize_of_strip (h : strip text = text) : sanitize text = haproxyName text := by
  rw [haproxyName]
  exact congrArg sanitize h.symm

theorem strip_of_validateIdentifier (h : validateIdentifier value label = .ok result) : strip result = result := by
  unfold validateIdentifier at h
  split at h
  · obtain rfl := Except.ok.inj h
    exact strip_strip
  · cases h

theorem isSpace_of_isLabelChar (h : isLabelChar c = true ∨ c = '.') : Text.isSpace c = false := by
  have hrange : 33 ≤ c.toNat ∧ c.toNat ≤ 126 := by
    simp only [isLabelChar, isLowerAlnum, Bool.or_eq_true, Bool.and_eq_true, decide_eq_true_eq, beq_iff_eq] at h
    rcases h with ((⟨hlo, hhi⟩ | ⟨hlo, hhi⟩) | rfl) | rfl
    · have hlo : 97 ≤ c.toNat := hlo
      have hhi : c.toNat ≤ 122 := hhi
      omega
    · have hlo : 48 ≤ c.toNat := hlo
      have hhi : c.toNat ≤ 57 := hhi
      omega
    · decide
    · decide
  exact Text.isSpace_of_shown hrange.1 hrange.2

theorem mem_of_isDomainBody (h : isDomainBody l = true) (hc : c ∈ l) : isLabelChar c = true ∨ c = '.' := by
  simp only [isDomainBody, Bool.and_eq_true, List.all_eq_true] at h
  have hwithout (hc : c ∈ withoutDot l) : isLabelChar c = true ∨ c = '.' := by
    have hjoin : ['.'].intercalate ((withoutDot l).splitOn '.') = withoutDot l := List.intercalate_splitOn '.'
    rw [← hjoin] at hc
    rcases Text.mem_intercalate hc with hdot | ⟨part, hpart, hc⟩
    · exact .inr (List.mem_singleton.mp hdot)
    · have hlabel := h.2 part hpart
      simp only [isLabel, Bool.and_eq_true, List.all_eq_true] at hlabel
      exact .inl (hlabel.1.1.2 c hc)
  by_cases hlast : l.getLast? = some '.'
  · obtain ⟨front, rfl⟩ := List.getLast?_eq_some_iff.mp hlast
    rcases List.mem_append.mp hc with hc | hc
    · exact hwithout (by simpa [withoutDot] using hc)
    · exact .inr (List.mem_singleton.mp hc)
  · exact hwithout (by rwa [withoutDot, if_neg hlast])

theorem noBlank_of_validateDomain (h : validateDomain value label = .ok result) :
    ∀ c ∈ result.toList, Text.isSpace c = false := by
  unfold validateDomain at h
  dsimp only at h
  split_ifs at h with hwild hbody
  obtain rfl := Except.ok.inj h
  intro c hc
  rw [String.toList_ofList] at hc
  exact isSpace_of_isLabelChar (mem_of_isDomainBody hbody ((List.rdropWhile_prefix _ _).subset hc))

theorem oneWord_of_noBlank (h : ∀ c ∈ text.toList, Text.isSpace c = false) : OneWord text := by
  have hstrip : Text.strip text.toList = text.toList :=
    Text.strip_eq_self (fun c hc => h c (List.mem_of_mem_head? hc)) fun c hc => h c (List.mem_of_getLast? hc)
  have hno : ∀ c ∈ text.toList, (c == ' ' || c == '\t') = false := by
    intro c hc
    rw [Bool.or_eq_false_iff, beq_eq_false_iff_ne, beq_eq_false_iff_ne]
    constructor <;> rintro rfl <;> exact absurd (h _ hc) (by decide)
  intro w hw
  rw [haproxyWords, List.splitOnP_eq_singleton hno] at hw
  rw [hstrip]
  exact List.mem_singleton.mp (List.mem_of_mem_filter hw)

theorem mem_foldl_seen {domain : String} {names seen : List String}
    (h : result ∈ names.foldl (fun seen name => if name = domain ∨ name ∈ seen then seen else seen ++ [name]) seen) :
    result ∈ seen ∨ result ∈ names := by
  induction names generalizing seen with
  | nil => exact .inl h
  | cons name names ih =>
    rw [List.foldl_cons] at h
    rcases ih h with h | h
    · split_ifs at h
      · exact .inl h
      · rcases List.mem_append.mp h with h | h
        · exact .inl h
        · exact .inr (List.mem_singleton.mp h ▸ List.mem_cons_self)
    · exact .inr (List.mem_cons_of_mem name h)

theorem noBlank_of_normalizeSiteAltNames {v : Option Value} {domain : String} {names : List String}
    (h : normalizeSiteAltNames v domain = .ok names) :
    ∀ n ∈ names, ∀ c ∈ n.toList, Text.isSpace c = false := by
  obtain ⟨items, -, h⟩ := bind_eq_ok.mp h
  obtain ⟨checked, hchecked, h⟩ := bind_eq_ok.mp h
  obtain rfl := Except.ok.inj h
  intro n hn
  rcases mem_foldl_seen hn with hn | hn
  · simp at hn
  · obtain ⟨raw, -, hraw⟩ := Validate.mem_of_mapM_ok hchecked hn
    exact noBlank_of_validateDomain hraw

end Names

/-! ## What an accepted request gives -/

section Accepted

variable {out : Outside} {site new other a b : Site} {sites others result : List Site} {obstacles : Obstacles}
  {name : String}

theorem refuseWith_eq_ok {refusal : Option String} {u : Unit} : refuseWith refusal = .ok u ↔ refusal = none := by
  cases refusal <;> simp [refuseWith]

theorem Apart.symm (h : Apart a b) : Apart b a :=
  fun hb ha n hnb hna => h ha hb n hna hnb

instance : Std.Symm Apart := ⟨fun _ _ => Apart.symm⟩

theorem apart_of_conflictWith (h : conflictWith out new other = none) : Apart new other := by
  unfold conflictWith at h
  split_ifs at h with hname hhaproxy hserving
  · split at h
    · cases h
    · rename_i hnil
      intro _ _ n hn hother
      rw [← List.length_eq_zero_iff, List.length_insertionSort, List.length_eq_zero_iff,
        List.filter_eq_nil_iff] at hnil
      exact hnil n hn (by simpa using hother)
  · intro hnew hother
    exact absurd ⟨hnew, hother⟩ hserving

theorem apart_of_siteIdentityConflict (h : siteIdentityConflict out new others = none) :
    ∀ other ∈ others, Apart new other :=
  fun other hother => apart_of_conflictWith (List.findSome?_eq_none_iff.mp h other hother)

theorem nodup_of_noSharedHaproxyNames {label : String} {seen : List (String × String)}
    (h : noSharedHaproxyNames out label seen sites = .ok ()) :
    (sites.map fun site => haproxyName site.name).Nodup ∧
      ∀ site ∈ sites, seen.lookup (haproxyName site.name) = none := by
  induction sites generalizing seen with
  | nil => simp
  | cons site sites ih =>
    rw [noSharedHaproxyNames, haproxyName_strip] at h
    split at h
    · cases h
    · rename_i hnone
      obtain ⟨hnodup, hseen⟩ := ih h
      have hne (other : Site) (hother : other ∈ sites) : haproxyName other.name ≠ haproxyName site.name ∧
          seen.lookup (haproxyName other.name) = none := by
        have hlookup := hseen other hother
        rw [List.lookup_cons] at hlookup
        split at hlookup
        · cases hlookup
        · rename_i hbeq
          exact ⟨by simpa using hbeq, hlookup⟩
      refine ⟨?_, ?_⟩
      · rw [List.map_cons, List.nodup_cons]
        refine ⟨fun hmem => ?_, hnodup⟩
        obtain ⟨other, hother, heq⟩ := List.mem_map.mp hmem
        exact (hne other hother).1 heq
      · intro other hother
        rcases List.mem_cons.mp hother with rfl | hother
        · exact hnone
        · exact (hne other hother).2

/-- What is written is what was to be written, and its HAProxy names are distinct. -/
theorem of_updateYamlFile (h : updateYamlFile out obstacles sites = .ok result) :
    result = sites ∧ (sites.map fun site => haproxyName site.name).Nodup := by
  obtain ⟨_, -, h⟩ := bind_eq_ok.mp h
  obtain ⟨_, hvalid, h⟩ := bind_eq_ok.mp h
  obtain ⟨_, -, h⟩ := bind_eq_ok.mp h
  refine ⟨(Except.ok.inj h).symm, ?_⟩
  unfold validateConfigData at hvalid
  split_ifs at hvalid
  obtain ⟨_, -, hvalid⟩ := bind_eq_ok.mp hvalid
  obtain ⟨_, -, hvalid⟩ := bind_eq_ok.mp hvalid
  exact (nodup_of_noSharedHaproxyNames hvalid).1

theorem written_of_siteOfForm {form : Fields} {previous : Option Site} (h : siteOfForm out form previous = .ok new) :
    Written new := by
  obtain ⟨name, hname, h⟩ := bind_eq_ok.mp h
  obtain ⟨domain, hdomain, h⟩ := bind_eq_ok.mp h
  obtain ⟨altNames, halt, h⟩ := bind_eq_ok.mp h
  obtain ⟨settings, -, h⟩ := bind_eq_ok.mp h
  obtain rfl := Except.ok.inj h
  refine ⟨strip_of_validateIdentifier hname, fun n hn => oneWord_of_noBlank ?_⟩
  rcases List.mem_cons.mp hn with rfl | hn
  · exact noBlank_of_validateDomain hdomain
  · exact noBlank_of_normalizeSiteAltNames halt n hn

theorem minimalSite_eq_ok {domain backendIp backendPort : String}
    (h : minimalSite out name domain backendIp backendPort = .ok new) :
    new.name = name ∧ new.domain = domain ∧ new.altNames = [] := by
  unfold minimalSite at h
  split at h
  · obtain rfl := Except.ok.inj h
    exact ⟨rfl, rfl, rfl⟩
  · split at h
    · cases h
    · split at h
      · obtain rfl := Except.ok.inj h
        exact ⟨rfl, rfl, rfl⟩
      · cases h

/-! ## One request -/

theorem Distinct.append (h : Distinct sites) (hnew : Written new) (hapart : ∀ other ∈ sites, Apart new other)
    (hnames : ((sites ++ [new]).map fun site => haproxyName site.name).Nodup) : Distinct (sites ++ [new]) := by
  refine ⟨hnames, ?_, ?_⟩
  · rw [List.pairwise_append]
    refine ⟨h.apart, List.pairwise_singleton _ _, fun other hother a ha => ?_⟩
    obtain rfl := List.mem_singleton.mp ha
    exact (hapart other hother).symm
  · intro site hsite
    rcases List.mem_append.mp hsite with hsite | hsite
    · exact h.written site hsite
    · rwa [List.mem_singleton.mp hsite]

theorem Distinct.replace {p : Site → Prop} [DecidablePred p] (h : Distinct sites) (hnew : Written new)
    (hone : ∀ a b, p a → p b → haproxyName a.name = haproxyName b.name)
    (hapart : ∀ other ∈ sites, ¬ p other → Apart new other)
    (hnames : ((sites.map fun site => if p site then new else site).map fun site => haproxyName site.name).Nodup) :
    Distinct (sites.map fun site => if p site then new else site) := by
  refine ⟨hnames, ?_, ?_⟩
  · have hdistinct : sites.Pairwise fun a b => haproxyName a.name ≠ haproxyName b.name :=
      List.pairwise_map.mp h.names
    rw [List.pairwise_map]
    refine (h.apart.and hdistinct).imp_of_mem fun {a b} ha hb hab => ?_
    by_cases hpa : p a
    · by_cases hpb : p b
      · exact absurd (hone a b hpa hpb) hab.2
      · rw [if_pos hpa, if_neg hpb]
        exact hapart b hb hpb
    · by_cases hpb : p b
      · rw [if_neg hpa, if_pos hpb]
        exact (hapart a ha hpa).symm
      · rw [if_neg hpa, if_neg hpb]
        exact hab.1
  · intro site hsite
    obtain ⟨old, hold, rfl⟩ := List.mem_map.mp hsite
    split_ifs
    · exact hnew
    · exact h.written old hold

theorem replaceFirst_eq_map (h : replaceFirst name new sites = some result)
    (hone : sites.Pairwise fun a b => haproxyName a.name ≠ haproxyName b.name) :
    result = sites.map fun site => if strip site.name = name then new else site := by
  induction sites generalizing result with
  | nil => cases h
  | cons site sites ih =>
    rw [replaceFirst] at h
    rw [List.pairwise_cons] at hone
    by_cases hsite : strip site.name = name
    · rw [if_pos hsite] at h
      obtain rfl := Option.some.inj h
      rw [List.map_cons, if_pos hsite]
      congr 1
      refine (List.map_id sites).symm.trans (List.map_congr_left fun other hother => ?_)
      rw [if_neg]
      · rfl
      · intro hname
        refine hone.1 other hother ?_
        have hother : haproxyName (strip other.name) = haproxyName other.name := haproxyName_strip
        rw [← haproxyName_strip, ← hother, hsite, hname]
    · rw [if_neg hsite] at h
      obtain ⟨rest, hrest, rfl⟩ := Option.map_eq_some_iff.mp h
      rw [List.map_cons, if_neg hsite, ih hrest hone.2]

theorem Distinct.add {domain backendIp backendPort : String} (h : Distinct sites)
    (hplain : strip name = name ∧ OneWord domain)
    (ha : addSiteMinimal out name domain backendIp backendPort obstacles sites = .ok result) : Distinct result := by
  obtain ⟨new, hnew, ha⟩ := bind_eq_ok.mp ha
  obtain ⟨_, hconflict, ha⟩ := bind_eq_ok.mp ha
  obtain ⟨rfl, hnames⟩ := of_updateYamlFile ha
  obtain ⟨hname, hdomain, halt⟩ := minimalSite_eq_ok hnew
  refine h.append ⟨by rw [hname, hplain.1], ?_⟩
    (apart_of_siteIdentityConflict (refuseWith_eq_ok.mp hconflict)) hnames
  rw [hdomain, halt]
  intro n hn
  rw [List.mem_singleton.mp hn]
  exact hplain.2

theorem Distinct.save {form : Value} {originalName expectedRevision : String} (h : Distinct sites)
    (ha : saveSiteFromJson out form originalName expectedRevision obstacles sites = .ok result) :
    Distinct result := by
  obtain ⟨fields, -, ha⟩ := bind_eq_ok.mp ha
  obtain ⟨new, hnew, ha⟩ := bind_eq_ok.mp ha
  have hwritten := written_of_siteOfForm hnew
  split at ha
  · obtain ⟨_, hconflict, ha⟩ := bind_eq_ok.mp ha
    obtain ⟨rfl, hnames⟩ := of_updateYamlFile ha
    exact h.append hwritten (apart_of_siteIdentityConflict (refuseWith_eq_ok.mp hconflict)) hnames
  · obtain ⟨_, -, ha⟩ := bind_eq_ok.mp ha
    obtain ⟨_, hconflict, ha⟩ := bind_eq_ok.mp ha
    split at ha
    · cases ha
    · rename_i replaced hreplace
      obtain ⟨rfl, hnames⟩ := of_updateYamlFile ha
      obtain rfl := replaceFirst_eq_map hreplace (List.pairwise_map.mp h.names)
      have hone (a b : Site) (hsa : strip a.name = strip originalName) (hsb : strip b.name = strip originalName) :
          haproxyName a.name = haproxyName b.name := by
        rw [← haproxyName_strip, hsa, ← hsb, haproxyName_strip]
      refine h.replace hwritten hone (fun other hother hname => ?_) hnames
      refine apart_of_siteIdentityConflict (refuseWith_eq_ok.mp hconflict) other ?_
      exact List.mem_filter.mpr ⟨hother, by simpa using hname⟩

theorem Written.withPause {key : PauseKey} {paused : Bool} (h : Written site) : Written (withPause site key paused) := by
  cases key <;> exact ⟨h.name, h.hosts⟩

theorem Apart.withPause {key : PauseKey} {paused : Bool} (h : Apart site other)
    (hkey : ¬ (key = .paused ∧ paused = false)) : Apart (withPause site key paused) other := by
  cases key with
  | certRenewalPaused => exact h
  | paused =>
    intro hpaused
    exact absurd ⟨rfl, hpaused⟩ hkey

theorem Distinct.pause {key : String} {paused : Bool} (h : Distinct sites)
    (ha : setSitePause out name key paused obstacles sites = .ok result) : Distinct result := by
  unfold setSitePause at ha
  split at ha
  · cases ha
  · rename_i key _
    split at ha
    · cases ha
    · rename_i site hfind
      have hsite := List.mem_of_find?_eq_some hfind
      have hname : site.name = name := by simpa using List.find?_some hfind
      obtain ⟨_, hconflict, ha⟩ := bind_eq_ok.mp ha
      obtain ⟨rfl, hnames⟩ := of_updateYamlFile ha
      have hone (a b : Site) (ha : a.name = name) (hb : b.name = name) : haproxyName a.name = haproxyName b.name := by
        rw [ha, hb]
      refine h.replace (h.written site hsite).withPause hone (fun other hother hne => ?_) hnames
      rw [refuseWith_eq_ok] at hconflict
      by_cases hkey : key = .paused ∧ paused = false
      · rw [if_pos hkey] at hconflict
        refine apart_of_siteIdentityConflict hconflict other ?_
        exact List.mem_filter.mpr ⟨hother, by simpa using hne⟩
      · have hdiffer : site ≠ other := fun heq => hne (heq ▸ hname)
        exact (h.apart.forall hsite hother hdiffer).withPause hkey

theorem Distinct.delete (h : Distinct sites) (ha : deleteSite out name obstacles sites = .ok result) :
    Distinct result := by
  unfold deleteSite at ha
  split at ha
  · obtain ⟨rfl, hnames⟩ := of_updateYamlFile ha
    exact ⟨hnames, h.apart.filter _, fun site hsite => h.written site (List.mem_of_mem_filter hsite)⟩
  · cases ha

/-- A request that comes with plain names keeps the sites distinct. -/
theorem Distinct.step {call : Call} (h : Distinct sites) (hplain : Plain call) :
    Distinct (step out sites call) := by
  unfold Identity.step
  split
  · rename_i result ha
    obtain ⟨request, obstacles⟩ := call
    cases request with
    | addSiteMinimal name domain backendIp backendPort => exact h.add hplain ha
    | saveSiteFromJson form originalName expectedRevision => exact h.save ha
    | setSitePause name key paused => exact h.pause ha
    | deleteSite name => exact h.delete ha
  · exact h

end Accepted

/-! ## What HAProxy reads of distinct sites -/

section Read

variable {out : Outside} {site a b : Site} {sites : List Site} {w host : List Char} {c : Char}

theorem haproxyWords_append_cons {l m : List Char} :
    haproxyWords (l ++ ' ' :: m) = haproxyWords l ++ haproxyWords m := by
  unfold haproxyWords
  rw [List.splitOnP_append_cons _ _ (by rfl), List.filter_append]

theorem mem_haproxyWords_intercalate {names : List (List Char)} (h : w ∈ haproxyWords ([' '].intercalate names)) :
    ∃ n ∈ names, w ∈ haproxyWords n := by
  induction names with
  | nil => simp [haproxyWords] at h
  | cons name names ih =>
    cases names with
    | nil => exact ⟨name, List.mem_cons_self, by simpa using h⟩
    | cons next names =>
      rw [List.intercalate_cons_cons, List.append_assoc, List.singleton_append, haproxyWords_append_cons,
        List.mem_append] at h
      rcases h with h | h
      · exact ⟨name, List.mem_cons_self, h⟩
      · obtain ⟨n, hn, h⟩ := ih h
        exact ⟨n, List.mem_cons_of_mem name hn, h⟩

theorem routingName_of_mem_hostsRead (h : Written site) (hhost : host ∈ hostsRead [] site) :
    ∃ text, host = text.map Char.toLower ∧ String.ofList (Text.lower text) ∈ routingNames site := by
  obtain ⟨w, hw, rfl⟩ := List.mem_map.mp hhost
  refine ⟨w, rfl, ?_⟩
  have hnames : (site.domain :: if site.altNames.isEmpty then [] else site.altNames) = site.domain :: site.altNames := by
    cases site.altNames <;> rfl
  rw [hostnames, hnames] at hw
  obtain ⟨n, hn, hw⟩ := mem_haproxyWords_intercalate hw
  obtain ⟨name, hname, rfl⟩ := List.mem_map.mp hn
  have hne : w ≠ [] := by simpa using (List.mem_filter.mp hw).2
  obtain rfl := h.hosts name hname w hw
  refine List.mem_filterMap.mpr ⟨name, hname, ?_⟩
  have hlower : (Text.lower (Text.strip name.toList)).isEmpty = false := by
    simpa [Text.lower] using hne
  simp [hlower]

theorem toLower_eq_kelvin (h : c.toLower = '\u212a') : c = '\u212a' := by
  by_cases hc : 'A' ≤ c ∧ c ≤ 'Z'
  · have hlo : 65 ≤ c.toNat := hc.1
    have hhi : c.toNat ≤ 90 := hc.2
    obtain ⟨n, hn, hcn⟩ : ∃ n, n ∈ List.range' 65 26 ∧ c = Char.ofNat n :=
      ⟨c.toNat, by rw [List.mem_range'_1]; omega, by simp⟩
    rw [hcn] at h
    exact absurd h ((by decide : ∀ n ∈ List.range' 65 26, (Char.ofNat n).toLower ≠ '\u212a') n hn)
  · exact (dif_neg hc).symm.trans h

/-- What HAProxy takes for the same host the panel takes for the same host. -/
theorem lower_eq_of_map_toLower {l m : List Char} (h : l.map Char.toLower = m.map Char.toLower) :
    Text.lower l = Text.lower m := by
  have hlower (l : List Char) : Text.lower l = (l.map Char.toLower).map fun c => if c = '\u212a' then 'k' else c := by
    rw [Text.lower, List.map_map]
    refine List.map_congr_left fun c _ => ?_
    by_cases hc : c = '\u212a'
    · subst hc
      decide
    · rw [if_neg hc, Function.comp_apply, if_neg fun hk => hc (toLower_eq_kelvin hk)]
  rw [hlower, hlower, h]

theorem Distinct.distinguishable (h : Distinct sites) : Distinguishable [] sites := by
  refine ⟨?_, ?_⟩
  · have hmap : (sites.map fun site => sanitize site.name) = sites.map fun site => haproxyName site.name :=
      List.map_congr_left fun site hsite => sanitize_of_strip (h.written site hsite).name
    rw [hmap]
    exact h.names
  · refine (h.apart.filter _).imp_of_mem fun {a b} ha hb hab => ?_
    obtain ⟨ha, hserving⟩ := List.mem_filter.mp ha
    obtain ⟨hb, hserving'⟩ := List.mem_filter.mp hb
    intro host hhost hhost'
    obtain ⟨text, rfl, hname⟩ := routingName_of_mem_hostsRead (h.written a ha) hhost
    obtain ⟨text', heq, hname'⟩ := routingName_of_mem_hostsRead (h.written b hb) hhost'
    rw [← lower_eq_of_map_toLower heq] at hname'
    exact hab (by simpa using hserving) (by simpa using hserving') _ hname hname'

theorem distinct_nil : Distinct [] := ⟨List.nodup_nil, List.Pairwise.nil, by simp⟩

end Read

/-- Without alternative names in `site_defaults`, every session of requests that come with plain names leaves
sites that HAProxy can tell apart. -/
theorem sites_distinguishable (out : Outside) (calls : List Call) (h : ∀ call ∈ calls, Plain call) :
    Distinguishable [] (Machine.run (step out) [] calls) := by
  have halong : Machine.Along (step out) (fun _ call => Plain call) [] calls := by
    generalize ([] : List Site) = sites
    induction calls generalizing sites with
    | nil => trivial
    | cons call calls ih =>
      exact ⟨h call List.mem_cons_self, ih (fun c hc => h c (List.mem_cons_of_mem call hc)) _⟩
  exact (halong.keeps distinct_nil fun _ _ hs hplain => hs.step hplain).distinguishable

/-! ## A session whose names HAProxy confuses -/

instance (text : String) : Decidable (OneWord text) := inferInstanceAs (Decidable (∀ w ∈ _, _))

/-- A panel that refuses no settings. -/
def lenient : Outside where
  str _ := ""
  repr := id
  int _ := none
  settings form _ _ := .ok form
  problem _ := none
  revision _ := ""

/-- Two sites, of which one is paused; the other is renamed and takes its domain, so that the pause
cannot be lifted. -/
def twoSites : List Call :=
  [⟨.addSiteMinimal "shop" "a.co" "" "", {}⟩, ⟨.addSiteMinimal "mail" "b.co" "" "", {}⟩,
    ⟨.setSitePause "mail" "paused" true, {}⟩,
    ⟨.saveSiteFromJson (.map [("name", .str "store"), ("domain", .str "b.co")]) "shop" "", {}⟩,
    ⟨.setSitePause "mail" "paused" false, {}⟩]

theorem sites_distinguishable_twoSites :
    (Machine.run (step lenient) [] twoSites).map (fun site => (site.name, site.domain, site.paused)) =
        [("store", "b.co", false), ("mail", "b.co", true)] ∧
      Distinguishable [] (Machine.run (step lenient) [] twoSites) := by
  refine ⟨by decide +kernel, sites_distinguishable lenient twoSites ?_⟩
  simp only [twoSites, List.forall_mem_cons, List.not_mem_nil, false_imp_iff, implies_true, and_true, Plain]
  decide

theorem haproxyName_toList (text : String) : (haproxyName text).toList =
    (Text.strip text.toList).map fun c => if EasyHaProxy.Haproxy.isNameChar c then c else '_' := by
  simp [haproxyName, sanitize]

def padded : Site := ⟨"a ", "x.co", [], false, false, [("access_gate", .bool true), ("authelia_enabled", .bool true)]⟩

def underscored : Site := ⟨"a_", "y.co", [], false, false, [("access_gate", .bool true), ("authelia_enabled", .bool true)]⟩

theorem haproxyName_padded_ne : haproxyName padded.name ≠ haproxyName underscored.name := by
  intro h
  have hlist := congrArg String.toList h
  rw [haproxyName_toList, haproxyName_toList] at hlist
  exact absurd hlist (by decide)

theorem conflictWith_padded : conflictWith lenient underscored padded = none := by
  unfold conflictWith
  rw [if_neg (by decide), if_neg haproxyName_padded_ne, if_pos ⟨rfl, rfl⟩]
  rfl

theorem step_padded : step lenient [] ⟨.addSiteMinimal "a " "x.co" "" "", {}⟩ = [padded] := rfl

theorem noSharedHaproxyNames_padded :
    noSharedHaproxyNames lenient "sites" [] [padded, underscored] = .ok () := by
  have hbeq : (haproxyName (strip underscored.name) == haproxyName (strip padded.name)) = false := by
    rw [haproxyName_strip, haproxyName_strip]
    exact beq_false_of_ne haproxyName_padded_ne.symm
  simp [noSharedHaproxyNames, List.lookup_cons, hbeq]

theorem addSiteMinimal_underscored :
    addSiteMinimal lenient "a_" "y.co" "" "" {} [padded] = .ok [padded, underscored] := by
  refine bind_eq_ok.mpr ⟨underscored, rfl, bind_eq_ok.mpr ⟨(), ?_, ?_⟩⟩
  · rw [refuseWith_eq_ok, siteIdentityConflict, List.findSome?_cons, conflictWith_padded]
    rfl
  · refine bind_eq_ok.mpr ⟨(), rfl, bind_eq_ok.mpr ⟨(), ?_, rfl⟩⟩
    exact bind_eq_ok.mpr ⟨[(), ()], rfl, bind_eq_ok.mpr ⟨(), rfl, noSharedHaproxyNames_padded⟩⟩

theorem step_underscored :
    step lenient [padded] ⟨.addSiteMinimal "a_" "y.co" "" "", {}⟩ = [padded, underscored] := by
  have hanswer : answer lenient [padded] ⟨.addSiteMinimal "a_" "y.co" "" "", {}⟩ = .ok [padded, underscored] :=
    addSiteMinimal_underscored
  rw [step, hanswer]

/-- A name with a blank behind it, and one with an underscore there: the template writes both the same. -/
theorem padded_name_confused : ¬ Distinguishable [] (Machine.run (step lenient) []
    [⟨.addSiteMinimal "a " "x.co" "" "", {}⟩, ⟨.addSiteMinimal "a_" "y.co" "" "", {}⟩]) := by
  intro h
  rw [Machine.run_cons, step_padded, Machine.run_cons, step_underscored, Machine.run_nil] at h
  have hsame : sanitize padded.name = sanitize underscored.name := by
    rw [← String.toList_inj]
    simp only [sanitize, String.toList_map]
    decide
  exact (List.nodup_cons.mp h.names).1 (List.mem_singleton.mpr hsame)

end EasyHaProxy.Panel.Identity
