import EasyHaProxy.Lib.Validate
import EasyHaProxy.Haproxy.Inventory

/-! Three readers of `admin_ips_enabled` and `admin_allowed_ips`: the guard that protects the administrator
who applies a configuration, the builder of the list the transaction installs, and the template that writes
the rule. -/
namespace EasyHaProxy.Panel

open Haproxy Validate

/-- What `yaml.safe_load` gives; a float is known by whether it is zero. -/
inductive Yaml where
  | null
  | bool (b : Bool)
  | int (n : Int)
  | float (zero : Bool)
  | str (s : String)
  | list (items : List Yaml)
  | map (fields : List (String × Yaml))
  | timestamp

/-- Python's truth of a value, which is Jinja's. -/
def Yaml.truthy : Yaml → Bool
  | .null => false
  | .bool b => b
  | .int n => n ≠ 0
  | .float zero => !zero
  | .str s => s ≠ ""
  | .list items => !items.isEmpty
  | .map fields => !fields.isEmpty
  | .timestamp => true

abbrev Vars := List (String × Yaml)

/-- Python's `ipaddress`, and `str` of what is not a string. Nothing below depends on how
they work. -/
structure Python where
  Addr : Type
  Net : Type
  ipAddress : String → Option Addr
  ipNetwork : String → Option Net
  addrText : Addr → String
  netText : Net → String
  version : Addr → Nat
  netVersion : Net → Nat
  mem : Addr → Net → Bool
  str : Yaml → String

inductive AccessError where
  | tooManyEntries
  | invalidEntry (text : String)
  | notAList | notAString
  | noEntries
  | clientNotListed
  deriving DecidableEq

def strip (text : String) : String := String.ofList (Text.strip text.toList)

variable (py : Python)

namespace Python

def strOf : Yaml → String
  | .str s => s
  | v => py.str v

/-- The text of an entry as the lists keep it. -/
def canonical (text : String) : Option String :=
  if '/' ∈ text.toList then (py.ipNetwork text).map py.netText
  else (py.ipAddress text).map py.addrText

end Python

/-- The loop over the entries, which both readers have: blanks are skipped, repeats dropped. -/
def canonicalEntries (textOf : Yaml → Except AccessError String) :
    List String → List Yaml → Except AccessError (List String)
  | entries, [] => .ok entries
  | entries, raw :: rest => do
    let text ← textOf raw
    if strip text = "" then canonicalEntries textOf entries rest
    else
      let parsed ← expect (py.canonical (strip text)) (.invalidEntry (strip text))
      canonicalEntries textOf (if parsed ∈ entries then entries else entries ++ [parsed]) rest

/-- `_normalize_admin_allowed_ips`; `split` is `re.split` at commas and line ends. -/
def normalizeAdminAllowedIps (split : String → List String) (value : Option Yaml) :
    Except AccessError (List String) := do
  let items : List Yaml :=
    match value with
    | some (.list items) => items
    | some v => if v.truthy then (split (py.strOf v)).map .str else [.str ""]
    | none => [.str ""]
  require (items.length ≤ 256) .tooManyEntries
  canonicalEntries py (fun raw => .ok (py.strOf raw)) [] items

/-- `_client_is_in_admin_allowlist`. -/
def clientIsInAdminAllowlist (clientIp : String) (entries : List String) : Bool :=
  match py.ipAddress (strip clientIp) with
  | none => false
  | some address =>
    entries.any fun entry =>
      let text := if '/' ∈ entry.toList then entry
        else entry ++ (if py.version address = 4 then "/32" else "/128")
      match py.ipNetwork text with
      | none => false
      | some network => py.version address = py.netVersion network && py.mem address network

/-- `validate_admin_access_for_client`. -/
def validateAdminAccessForClient (split : String → List String) (vars : Vars) (clientIp : String) :
    Except AccessError Unit :=
  match vars.lookup "admin_ips_enabled" with
  | some (.bool true) => do
    let entries ← normalizeAdminAllowedIps py split (vars.lookup "admin_allowed_ips")
    require (entries ≠ []) .noEntries
    require (clientIsInAdminAllowlist py clientIp entries) .clientNotListed
  | _ => .ok ()

/-- `config_admin_allowlist`; without the key the transaction leaves the installed list. -/
def configAdminAllowlist (vars : Vars) : Except AccessError (Option (List String)) :=
  match vars.lookup "admin_allowed_ips" with
  | none => .ok none
  | some (.list items) => do
    require (items.length ≤ 256) .notAList
    let entries ← canonicalEntries py
      (fun | .str s => .ok s | _ => .error .notAString) [] items
    pure (some entries)
  | some _ => .error .notAList

/-- The configuration rendered from `vars`, for any other settings: a missing
`admin_ips_enabled` is true to the template. -/
def rendered (vars : Vars) (cfg : Config) : Config :=
  { cfg with
    adminIpsEnabled := ((vars.lookup "admin_ips_enabled").map Yaml.truthy).getD true
    adminDomain := (vars.lookup "admin_domain").map py.strOf }

def DeniesAdminByAddress (cfg : Config) : Prop :=
  ∃ c, .rule (.deny 403 .adminIps) c ∈ cfg.feHttps

variable {py} {cfg : Config} {vars : Vars} {split : String → List String} {clientIp : String}
  {entries out : List String} {items : List Yaml}

/-- Only the section that protects the admin domain writes such a rule. -/
theorem mem_adminProtection_of_mem {c : List Operand}
    (h : .rule (.deny 403 .adminIps) c ∈ cfg.feHttps) :
    .rule (.deny 403 .adminIps) c ∈ cfg.adminProtection := by
  simp only [Config.feHttps, List.mem_append] at h
  rcases h with (((((h | h) | h) | h) | h) | h) | h
  · simp [Config.defaultPort] at h
  · cases Config.act_of_mem_reception h
  · cases Config.act_of_mem_accounting h
  · simp [Config.banned] at h
  · simp only [Config.refusals, List.mem_append] at h
    rcases h with ((((h | h) | h) | h) | h) | h
    · simp [Config.newBan] at h
    · exact h
    · simp [Config.limits, Config.requestLimits, Config.errorLimits] at h
    · simp [Config.addressLists] at h
    · simp [Config.sniHostValidation] at h
    · simp [Config.clientCertificates] at h
  · cases Config.act_of_mem_identity h
  · rw [← Rules.mem_rules, Config.rules_routing] at h
    cases h

theorem deniesAdminByAddress_iff :
    DeniesAdminByAddress cfg ↔ cfg.adminIpsEnabled = true ∧ cfg.adminDomain.isSome = true := by
  constructor
  · rintro ⟨c, h⟩
    have hsection := mem_adminProtection_of_mem h
    simp only [Config.adminProtection, List.mem_ite_nil_left, List.mem_append,
      List.mem_ite_nil_right, List.mem_cons, List.not_mem_nil, Rules.Line.rule.injEq, reduceCtorEq,
      false_and, or_false, and_false, true_and] at hsection
    obtain ⟨hdomain, hips, -⟩ := hsection
    exact ⟨hips, by simpa [Option.isSome_iff_ne_none] using hdomain⟩
  · rintro ⟨hips, hdomain⟩
    refine ⟨.acl .hostAdmin :: .notAcl .allowedAdmin :: cfg.notProbe, ?_⟩
    have hsection : .rule (.deny 403 .adminIps)
        (.acl .hostAdmin :: .notAcl .allowedAdmin :: cfg.notProbe) ∈ cfg.adminProtection := by
      rw [Config.adminProtection, if_neg (by simpa [Option.isSome_iff_ne_none] using hdomain), if_pos hips]
      exact List.mem_append_left _ List.mem_cons_self
    simp only [Config.feHttps, Config.refusals, List.mem_append]
    tauto

/-- Where the builder accepts the entries the guard reads the same ones. -/
theorem canonicalEntries_of_strings
    (h : canonicalEntries py (fun | .str s => .ok s | _ => .error .notAString) entries items =
      .ok out) :
    canonicalEntries py (fun raw => .ok (py.strOf raw)) entries items = .ok out := by
  induction items generalizing entries with
  | nil => exact h
  | cons raw rest ih =>
    simp only [canonicalEntries, bind_eq_ok] at h ⊢
    obtain ⟨text, htext, h⟩ := h
    refine ⟨text, ?_, ?_⟩
    · cases raw <;> cases htext
      rfl
    · split_ifs at h ⊢ with hblank
      · exact ih h
      · rw [bind_eq_ok] at h ⊢
        obtain ⟨parsed, hparsed, h⟩ := h
        exact ⟨parsed, hparsed, ih h⟩

/-- An explicit `true` makes the guard check the very list that is installed. -/
theorem listed_of_guard (htrue : vars.lookup "admin_ips_enabled" = some (.bool true))
    (hguard : validateAdminAccessForClient py split vars clientIp = .ok ())
    {list : Option (List String)} (hlist : configAdminAllowlist py vars = .ok list) :
    ∃ entries, list = some entries ∧ clientIsInAdminAllowlist py clientIp entries = true := by
  simp only [validateAdminAccessForClient, htrue, bind_eq_ok, require_eq_ok] at hguard
  obtain ⟨entries, hentries, -, hne, hclient⟩ := hguard
  unfold configAdminAllowlist at hlist
  split at hlist
  · -- Without the key the guard has read no entry at all.
    rename_i hnone
    rw [hnone] at hentries
    have hblank : entries = [] := by
      simp only [normalizeAdminAllowedIps, canonicalEntries, Python.strOf, bind_eq_ok,
        require_eq_ok] at hentries
      obtain ⟨-, -, text, htext, h⟩ := hentries
      cases htext
      rw [if_pos (by decide)] at h
      cases h
      rfl
    exact absurd hblank hne
  · rename_i items hitems
    rw [hitems] at hentries
    simp only [normalizeAdminAllowedIps, bind_eq_ok, require_eq_ok, pure_eq_ok] at hentries hlist
    obtain ⟨-, -, hentries⟩ := hentries
    obtain ⟨-, -, installed, hinstalled, rfl⟩ := hlist
    have hsame := canonicalEntries_of_strings hinstalled
    rw [hentries] at hsame
    cases hsame
    exact ⟨entries, rfl, hclient⟩
  · cases hlist

/-- An apply by this client cannot lock it out: once the guard has passed and a payload
exists (`prepared` says that its other parts could be built), the rendered configuration does
not refuse by address or the installed list has the client. -/
def NotLockedOut (py : Python) (split : String → List String) (prepared : Bool) (vars : Vars)
    (clientIp : String) (cfg : Config) : Prop :=
  validateAdminAccessForClient py split vars clientIp = .ok () → prepared = true →
    ∀ list, configAdminAllowlist py vars = .ok list →
      ¬ DeniesAdminByAddress (rendered py vars cfg) ∨
        ∃ entries, list = some entries ∧ clientIsInAdminAllowlist py clientIp entries = true

/-- The values that restrict the admin host without being the boolean `true` the guard
looks for, absence among them. -/
def UnguardedSwitch (vars : Vars) : Prop :=
  vars.lookup "admin_ips_enabled" ≠ some (.bool true) ∧
    ((vars.lookup "admin_ips_enabled").map Yaml.truthy).getD true = true

/-- The guard protects whoever applies exactly where the switch is the boolean `true` or off
to the template as well, or where there was nothing to protect: no admin domain, no payload,
or a client that is on the list anyway. -/
theorem apply_keeps_admin_access_iff (py : Python) (split : String → List String) (prepared : Bool)
    (vars : Vars) (clientIp : String) (cfg : Config) :
    NotLockedOut py split prepared vars clientIp cfg ↔
      (UnguardedSwitch vars → (vars.lookup "admin_domain").isSome = true → prepared = true →
        ∀ list, configAdminAllowlist py vars = .ok list →
          ∃ entries, list = some entries ∧ clientIsInAdminAllowlist py clientIp entries = true) := by
  have hdenies : DeniesAdminByAddress (rendered py vars cfg) ↔
      ((vars.lookup "admin_ips_enabled").map Yaml.truthy).getD true = true ∧
        (vars.lookup "admin_domain").isSome = true := by
    rw [deniesAdminByAddress_iff, rendered, Option.isSome_map]
  constructor
  · rintro h ⟨hswitch, hon⟩ hdomain hprepared list hlist
    have hguard : validateAdminAccessForClient py split vars clientIp = .ok () := by
      unfold validateAdminAccessForClient
      split
      · rename_i htrue
        exact absurd htrue hswitch
      · rfl
    exact (h hguard hprepared list hlist).resolve_left fun hno => hno (hdenies.mpr ⟨hon, hdomain⟩)
  · intro h hguard hprepared list hlist
    by_cases htrue : vars.lookup "admin_ips_enabled" = some (.bool true)
    · exact Or.inr (listed_of_guard htrue hguard hlist)
    by_cases hden : DeniesAdminByAddress (rendered py vars cfg)
    · obtain ⟨hon, hdomain⟩ := hdenies.mp hden
      exact Or.inr (h ⟨htrue, hon⟩ hdomain hprepared list hlist)
    · exact Or.inl hden

/-- Only addresses of four numbers, each its own network. -/
def plainPython : Python where
  Addr := String
  Net := String
  ipAddress text := if text.toList.filter (· = '.') = ['.', '.', '.'] then some text else none
  ipNetwork text := some text
  addrText := id
  netText := id
  version _ := 4
  netVersion _ := 4
  mem address network := address ++ "/32" = network
  str _ := ""

/-- A file without `admin_ips_enabled` that lists another address. -/
def quietVars : Vars :=
  [("admin_domain", .str "admin.example.com"), ("admin_allowed_ips", .list [.str "192.0.2.10"])]

theorem absent_switch_locks_out : ¬ ∀ (py : Python) (split : String → List String) (prepared : Bool)
    (vars : Vars) (clientIp : String) (cfg : Config),
    NotLockedOut py split prepared vars clientIp cfg := by
  intro h
  have hguard : validateAdminAccessForClient plainPython (fun text => [text]) quietVars
      "198.51.100.7" = .ok () := rfl
  have hlist : configAdminAllowlist plainPython quietVars = .ok (some ["192.0.2.10"]) := rfl
  have hdenies : DeniesAdminByAddress (rendered plainPython quietVars {}) :=
    deniesAdminByAddress_iff.mpr ⟨rfl, rfl⟩
  obtain ⟨entries, hentries, hclient⟩ :=
    (h _ _ true _ _ {} hguard rfl _ hlist).resolve_left fun hno => hno hdenies
  cases hentries
  revert hclient
  decide

end EasyHaProxy.Panel
