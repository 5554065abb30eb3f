import EasyHaProxy.Lib.Dict
import EasyHaProxy.Lib.Json
import EasyHaProxy.Lib.Validate
import EasyHaProxy.Guardd.Paths
import Mathlib.Data.List.Infix

/-! The operator's own rules, exceptions and modes: the document the panel saves, the signatures it is
checked against, and what is left of it after a restart. -/
namespace EasyHaProxy.Guardd

open Text Validate

/-! ## Signatures -/

/-- What `load_signatures` read from the signature file. -/
structure Shipped where
  segments : Dict String String
  paths : Dict String String
  queryRules : List String
  /-- Token as matched, with the token as written and its category. -/
  userAgents : Dict String (String × String)

/-- The operator's changes to the shipped list. -/
structure Overrides where
  added : Dict String String
  disabled : List String

/-- The tables in force. -/
structure Signatures where
  scannerSegments : Dict String String
  scannerPaths : Dict String String
  queryRules : List String
  userAgents : Dict String (String × String)

def publishSignatures (shipped : Shipped) (overrides : Overrides) : Signatures :=
  let paths := overrides.disabled.foldl Dict.erase shipped.paths
  let segments := overrides.disabled.foldl Dict.erase shipped.segments
  let (segments, paths) := overrides.added.entries.foldl
    (fun (segments, paths) (token, category) =>
      if token.toList.head? = some '/' then (segments, paths.set token category)
      else (segments.set token category, paths))
    (segments, paths)
  { scannerSegments := segments
    scannerPaths := paths
    queryRules := shipped.queryRules
    userAgents := shipped.userAgents }

def Signatures.categories (signatures : Signatures) : List String :=
  (signatures.scannerSegments.entries ++ signatures.scannerPaths.entries).map Prod.snd

def detectionNewRules : List String :=
  ["observe:sql-injection", "observe:script-injection", "observe:encoded-sensitive-path",
    "observe:service-api-probe", "behavior:slow-enumeration"]

def detectionWarningRules : List String :=
  ["auth:credential-spray", "auth:distributed-login", "auth:failed-login-burst"]

def builtinDetectionIds (signatures : Signatures) : List String :=
  signatures.categories.map ("path:" ++ ·) ++ signatures.queryRules.map ("query:" ++ ·) ++
    signatures.userAgents.entries.map ("ua:" ++ ·.2.1) ++ ["raw:path-traversal"] ++
    detectionNewRules ++ detectionWarningRules

/-! ## The document -/

inductive MatchKind
  | exact
  | leading
  | segment
  deriving DecidableEq

def MatchKind.text : MatchKind → String
  | .exact => "exact"
  | .leading => "prefix"
  | .segment => "segment"

inductive RuleMode
  | observe
  | enforce
  deriving DecidableEq

def RuleMode.text : RuleMode → String
  | .observe => "observe"
  | .enforce => "enforce"

/-- The names of `DETECTION_PROFILES`. -/
inductive SiteProfile
  | web
  | api
  | webdav
  | onec
  | docker
  deriving DecidableEq

def SiteProfile.text : SiteProfile → String
  | .web => "web"
  | .api => "api"
  | .webdav => "webdav"
  | .onec => "1c"
  | .docker => "docker"

/-- Where a rule or an exception applies. -/
structure Scope where
  hosts : List String
  methods : List String
  kind : MatchKind
  value : String
  statuses : List Int
  deriving DecidableEq

structure DetectionRule where
  id : String
  scope : Scope
  category : String
  mode : RuleMode
  deriving DecidableEq

structure DetectionException where
  id : String
  rule : String
  scope : Scope
  reason : String
  expires : Int
  deriving DecidableEq

structure DetectionSettings where
  revision : Int := 0
  rules : List DetectionRule := []
  exceptions : List DetectionException := []
  modes : List (String × RuleMode) := []
  profiles : Dict String SiteProfile := Dict.empty
  deriving DecidableEq

def Scope.fields (scope : Scope) : List (String × Json) :=
  [("hosts", .arr (scope.hosts.map .str)), ("methods", .arr (scope.methods.map .str)),
    ("match", .str scope.kind.text), ("value", .str scope.value),
    ("statuses", .arr (scope.statuses.map .int))]

def DetectionRule.toJson (row : DetectionRule) : Json :=
  .obj (("id", Json.str row.id) :: row.scope.fields ++
    [("category", Json.str row.category), ("mode", Json.str row.mode.text)])

def DetectionException.toJson (row : DetectionException) : Json :=
  .obj (("id", Json.str row.id) :: ("rule", Json.str row.rule) :: row.scope.fields ++
    [("reason", Json.str row.reason), ("expires", Json.int row.expires)])

/-- The document `json.dumps` writes and `json.loads` reads back. -/
def DetectionSettings.toJson (settings : DetectionSettings) : Json :=
  .obj [("version", .int 1), ("revision", .int settings.revision),
    ("rules", .arr (settings.rules.map (·.toJson))),
    ("exceptions", .arr (settings.exceptions.map (·.toJson))),
    ("modes", .obj (settings.modes.map fun (k, v) => (k, .str v.text))),
    ("profiles", .obj (settings.profiles.entries.map fun (k, v) => (k, .str v.text)))]

/-! ## Its checks -/

section Patterns

def isAlnum (c : Char) : Bool := 'a' ≤ c && c ≤ 'z' || '0' ≤ c && c ≤ '9'

/-- `[a-z0-9](?:[a-z0-9.-]{0,251}[a-z0-9])?` with no two dots together. -/
def isHostName (host : List Char) : Bool :=
  host.length ≤ 253 && host.all (fun c => isAlnum c || c == '.' || c == '-') &&
    host.head?.any isAlnum && host.getLast?.any isAlnum && !decide (['.', '.'] <:+: host)

/-- A full match of `(?:tag|..):[..]{1,limit}`. -/
def isTagged (tags : List String) (allowed : Char → Bool) (limit : Nat) (value : String) : Bool :=
  tags.any fun tag =>
    let head := tag.toList ++ [':']
    let rest := value.toList.drop head.length
    head.isPrefixOf value.toList && decide (1 ≤ rest.length) && decide (rest.length ≤ limit) &&
      rest.all allowed

def isRuleId (value : String) : Bool := isTagged ["custom"] (fun c => isAlnum c || c == '-') 48 value

def isExceptionId (value : String) : Bool :=
  isTagged ["exception"] (fun c => isAlnum c || c == '-') 48 value

/-- The shape of an identifier a signature update may take away and bring back. -/
def isDormantId (value : String) : Bool :=
  isTagged ["path", "query", "ua", "raw", "observe", "behavior", "auth"]
    (fun c => isAlnum c || 'A' ≤ c && c ≤ 'Z' || "_. /+:-".toList.contains c) 100 value

def isMethodName (value : String) : Bool :=
  3 ≤ value.length && value.length ≤ 16 && value.toList.all (fun c => 'A' ≤ c && c ≤ 'Z')

/-- A plain path: no parameters, escapes, blanks or control characters. -/
def isPlainPath (value : String) : Bool :=
  1 ≤ value.length && value.length ≤ 200 &&
    value.toList.all (fun c => !("?#%\\ ".toList.contains c) && 32 ≤ c.toNat && c.toNat ≠ 127)

end Patterns

def detectionHost (value : Json) : Except String String := do
  let value ← expect value.str? "expected a host name without a port"
  require (value.length ≤ 253) "expected a host name without a port"
  let host := (lower value.toList).rdropWhile (· == '.')
  require (isHostName host) "expected a host name without a port"
  pure (String.ofList host)

def readMatch : Json → Option MatchKind
  | .str "exact" => some .exact
  | .str "prefix" => some .leading
  | .str "segment" => some .segment
  | _ => none

def readRuleMode : Json → Option RuleMode
  | .str "observe" => some .observe
  | .str "enforce" => some .enforce
  | _ => none

def readProfile : Json → Option SiteProfile
  | .str "web" => some .web
  | .str "api" => some .api
  | .str "webdav" => some .webdav
  | .str "1c" => some .onec
  | .str "docker" => some .docker
  | _ => none

def readMethod (value : Json) : Except String String := do
  let method ← expect value.str? "expected uppercase HTTP methods"
  require (isMethodName method) "expected uppercase HTTP methods"
  pure method

def readStatus (value : Json) : Except String Int := do
  let status ← expect value.int? "expected at most sixteen HTTP status codes"
  require (100 ≤ status ∧ status ≤ 599) "expected at most sixteen HTTP status codes"
  pure status

def checkPath (kind : MatchKind) (value : String) : Except String Unit :=
  match kind with
  | .segment =>
    require ('/' ∉ value.toList ∧ value ≠ "." ∧ value ≠ "..") "expected one path segment"
  | .exact =>
    require (value.toList.head? = some '/' ∧ normalizePath value = value)
      "expected a canonical path starting with a slash"
  | .leading => do
    require (value.toList.head? = some '/' ∧ normalizePath value = value)
      "expected a canonical path starting with a slash"
    require (value ≠ "/") "a prefix must name a route"

def detectionScope (row : List (String × Json)) : Except String Scope := do
  let hosts ← expect ((Json.getD row "hosts" .null).arr?) "choose one to eight exact host names"
  require (1 ≤ hosts.length ∧ hosts.length ≤ 8) "choose one to eight exact host names"
  let methods ← expect (Json.getD row "methods" (.arr [])).arr? "expected at most sixteen methods"
  require (methods.length ≤ 16) "expected at most sixteen methods"
  let methods ← methods.mapM readMethod
  let statuses ← expect (Json.getD row "statuses" (.arr [])).arr?
    "expected at most sixteen HTTP status codes"
  require (statuses.length ≤ 16) "expected at most sixteen HTTP status codes"
  let statuses ← statuses.mapM readStatus
  let kind ← expect (readMatch (Json.getD row "match" (.str "exact")))
    "match must be exact, prefix or segment"
  let value ← expect (Json.getD row "value" .null).str?
    "expected a plain path without parameters or escapes"
  require (isPlainPath value) "expected a plain path without parameters or escapes"
  checkPath kind value
  let hosts ← hosts.mapM detectionHost
  pure { hosts := sortedSet hosts
         methods := sortedSet methods
         kind
         value := rstripSlash value
         statuses := sortedSet statuses }

def checkRule (signatures : Signatures) (accepted : List DetectionRule) (row : Json) :
    Except String DetectionRule := do
  let fields ← expect row.obj? "expected a stable custom rule identifier"
  let name ← expect (Json.getD fields "id" (.str "")).str? "expected a stable custom rule identifier"
  require (isRuleId name) "expected a stable custom rule identifier"
  require (name ∉ accepted.map (·.id)) "duplicate rule identifier"
  let category ← expect (Json.getD fields "category" (.str "custom")).str? "unknown category"
  require (category ∈ signatures.categories ∨ category = "custom") "unknown category"
  let mode ← expect (readRuleMode (Json.getD fields "mode" (.str "observe")))
    "mode must be observe or enforce"
  let scope ← detectionScope fields
  pure { id := name, scope, category, mode }

/-- `supported_id`: known, or of the shape a vanished signature's identifier has. -/
def supportedId (known : List String) (value : String) : Bool :=
  known.contains value || isDormantId value

def checkMode (known : List String) (entry : String × Json) : Except String (String × RuleMode) := do
  require (supportedId known entry.1) "unknown rule or mode"
  let mode ← expect (readRuleMode entry.2) "unknown rule or mode"
  pure (entry.1, mode)

def checkException (known : List String) (accepted : List DetectionException) (row : Json) :
    Except String DetectionException := do
  let fields ← expect row.obj? "expected an exception identifier"
  let name ← expect (Json.getD fields "id" (.str "")).str? "expected an exception identifier"
  require (isExceptionId name) "expected an exception identifier"
  require (name ∉ accepted.map (·.id)) "duplicate exception or unknown rule"
  let rule ← expect (Json.getD fields "rule" .null).str? "duplicate exception or unknown rule"
  require (supportedId known rule) "duplicate exception or unknown rule"
  let reason ← expect (Json.getD fields "reason" .null).str?
    "an exception needs a reason of 3 to 200 characters"
  let reason := strip reason.toList
  require (3 ≤ reason.length ∧ reason.length ≤ 200)
    "an exception needs a reason of 3 to 200 characters"
  let expires ← expect (Json.getD fields "expires" (.int 0)).int?
    "expected an expiry timestamp or zero"
  require (0 ≤ expires ∧ expires ≤ 4102444800) "expected an expiry timestamp or zero"
  let scope ← detectionScope fields
  pure { id := name, rule, scope, reason := String.ofList reason, expires }

def checkProfile (entry : String × Json) : Except String (String × SiteProfile) := do
  let profile ← expect (readProfile entry.2) "unknown site profile or too many sites"
  pure (entry.1, profile)

def readSite (entry : String × SiteProfile) : Except String (String × SiteProfile) := do
  let host ← detectionHost (.str entry.1)
  pure (host, entry.2)

def validateDetectionConfig (signatures : Signatures) (data : Json) :
    Except String DetectionSettings := do
  let fields ← expect data.obj? "expected detection configuration version 1"
  require ((Json.getD fields "version" .null).int? = some 1)
    "expected detection configuration version 1"
  let rules ← expect (Json.getD fields "rules" (.arr [])).arr? "too many contextual rules"
  require (rules.length ≤ 128) "too many contextual rules"
  let exceptions ← expect (Json.getD fields "exceptions" (.arr [])).arr? "too many exceptions"
  require (exceptions.length ≤ 128) "too many exceptions"
  let modes ← expect (Json.getD fields "modes" (.obj [])).obj? "too many rule modes"
  require (modes.length ≤ 128) "too many rule modes"
  let checked ← collect (checkRule signatures) [] rules
  let known := builtinDetectionIds signatures ++ checked.map (·.id)
  let modes ← modes.mapM (checkMode known)
  require (∀ entry ∈ modes, ¬ (entry.2 = .enforce ∧
      (entry.1 ∈ detectionWarningRules ∨ "auth:".toList <+: entry.1.toList)))
    "login correlations are warning-only"
  let exclusions ← collect (checkException known) [] exceptions
  let profiles ← expect (Json.getD fields "profiles" (.obj [])).obj?
    "unknown site profile or too many sites"
  require (profiles.length ≤ 64) "unknown site profile or too many sites"
  let profiles ← profiles.mapM checkProfile
  let revision ← expect (Json.getD fields "revision" (.int 0)).int? "invalid settings revision"
  require (0 ≤ revision ∧ revision < 2 ^ 53) "invalid settings revision"
  let sites ← profiles.mapM readSite
  pure { revision, rules := checked, exceptions := exclusions, modes,
         profiles := Dict.ofPairs sites }

/-! ## The context -/

/-- The settings in force and the document saved under `detection_context_v1`. -/
structure DetectionContext where
  config : DetectionSettings := {}
  saved : Option Json := none
  stateErrors : Nat := 0

/-- `DetectionContext.__init__`: a document that does not pass is ignored as a whole. -/
def DetectionContext.init (signatures : Signatures) (saved : Option Json) : DetectionContext :=
  match saved with
  | none => {}
  | some data =>
    match validateDetectionConfig signatures data with
    | .ok config => { config, saved }
    | .error _ => { saved, stateErrors := 1 }

def DetectionContext.replace (signatures : Signatures) (context : DetectionContext) (data : Json) :
    Except String DetectionContext := do
  let checked ← validateDetectionConfig signatures data
  require (checked.revision = context.config.revision) "settings changed; reload before saving"
  let config := { checked with revision := checked.revision + 1 }
  pure { context with config, saved := some config.toJson }

/-! ## A checked document passes again -/

section Again

variable {signatures signatures' : Signatures} {row : List (String × Json)} {scope : Scope}

theorem lower_of_hostName {host : List Char}
    (h : host.all (fun c => isAlnum c || c == '.' || c == '-')) : lower host = host := by
  conv_rhs => rw [← List.map_id host]
  apply List.map_congr_left
  intro c hc
  have hok := List.all_eq_true.mp h c hc
  by_cases hk : c = '\u212a'
  · subst hk
    exact absurd hok (by decide)
  rw [if_neg hk, id_eq]
  refine dif_neg ?_
  rintro ⟨h1, h2⟩
  simp only [isAlnum, Bool.or_eq_true, Bool.and_eq_true, decide_eq_true_eq, beq_iff_eq] at hok
  rcases hok with ((⟨ha, _⟩ | ⟨_, h9⟩) | rfl) | rfl
  · exact absurd (UInt32.le_trans ha h2) (by decide)
  · exact absurd (UInt32.le_trans h1 h9) (by decide)
  · exact absurd h1 (by decide)
  · exact absurd h1 (by decide)

theorem detectionHost_again {value : Json} {host : String} (h : detectionHost value = .ok host) :
    detectionHost (.str host) = .ok host := by
  simp only [detectionHost, bind_eq_ok, expect_eq_ok, require_eq_ok, pure_eq_ok, exists_const] at h ⊢
  obtain ⟨text, -, -, hok, rfl⟩ := h
  generalize (lower text.toList).rdropWhile (· == '.') = l at hok ⊢
  have hparts := hok
  simp only [isHostName, Bool.and_eq_true, decide_eq_true_eq] at hparts
  obtain ⟨⟨⟨⟨hlen, hall⟩, -⟩, hlast⟩, -⟩ := hparts
  have hrd : l.rdropWhile (· == '.') = l := by
    rw [List.rdropWhile_eq_self_iff]
    intro hl
    rw [List.getLast?_eq_some_getLast hl, Option.any_some] at hlast
    intro hdot
    rw [beq_iff_eq.mp hdot] at hlast
    exact absurd hlast (by decide)
  refine ⟨String.ofList l, rfl, ?_, ?_, ?_⟩
  · rw [← String.length_toList, String.toList_ofList]
    exact hlen
  · rwa [String.toList_ofList, lower_of_hostName hall, hrd]
  · rw [String.toList_ofList, lower_of_hostName hall, hrd]

theorem readMethod_again {value : Json} {method : String} (h : readMethod value = .ok method) :
    readMethod (.str method) = .ok method := by
  simp only [readMethod, bind_eq_ok, expect_eq_ok, require_eq_ok, pure_eq_ok, exists_const] at h ⊢
  obtain ⟨m, -, hm, rfl⟩ := h
  exact ⟨m, rfl, hm, rfl⟩

theorem readStatus_again {value : Json} {status : Int} (h : readStatus value = .ok status) :
    readStatus (.int status) = .ok status := by
  simp only [readStatus, bind_eq_ok, expect_eq_ok, require_eq_ok, pure_eq_ok, exists_const] at h ⊢
  obtain ⟨s, -, hs, rfl⟩ := h
  exact ⟨s, rfl, hs, rfl⟩

@[simp] theorem readMatch_text (kind : MatchKind) : readMatch (.str kind.text) = some kind := by
  cases kind <;> rfl

@[simp] theorem readRuleMode_text (mode : RuleMode) : readRuleMode (.str mode.text) = some mode := by
  cases mode <;> rfl

@[simp] theorem readProfile_text (p : SiteProfile) : readProfile (.str p.text) = some p := by
  cases p <;> rfl

/-- The members of a checked list pass again, in the order they are stored in. -/
theorem mapM_sortedSet_again {α : Type} [LinearOrder α] {f : Json → Except String α}
    {encode : α → Json} {items : List Json} {out : List α} (h : items.mapM f = .ok out)
    (hf : ∀ j a, f j = .ok a → f (encode a) = .ok a) :
    ((sortedSet out).map encode).mapM f = .ok (sortedSet out) := by
  apply mapM_map_eq_ok
  intro b hb
  obtain ⟨j, -, hj⟩ := mem_of_mapM_ok h (mem_sortedSet.mp hb)
  exact hf j b hj

theorem rstripSlash_of_checkPath {kind : MatchKind} {value : String} (hp : isPlainPath value)
    (h : checkPath kind value = .ok ()) : rstripSlash value = value := by
  have hlen : value.length ≤ maxPathLength := by
    simp only [isPlainPath, Bool.and_eq_true, decide_eq_true_eq] at hp
    exact hp.1.2
  cases kind with
  | segment =>
    simp only [checkPath, require_eq_ok] at h
    have hself : value.toList.rdropWhile (· == '/') = value.toList := by
      rw [List.rdropWhile_eq_self_iff]
      intro hl hslash
      rw [beq_iff_eq] at hslash
      exact h.1 (hslash ▸ List.getLast_mem hl)
    have hne : value.toList ≠ [] := by
      intro he
      simp only [isPlainPath, ← String.length_toList, he, Bool.and_eq_true, decide_eq_true_eq] at hp
      exact absurd hp.1.1 (by decide)
    rw [rstripSlash, hself]
    simp only [if_neg hne, String.ofList_toList]
  | exact =>
    simp only [checkPath, require_eq_ok] at h
    exact rstripSlash_of_canonical hlen h.1 h.2
  | leading =>
    simp only [checkPath, bind_eq_ok, require_eq_ok, exists_const] at h
    exact rstripSlash_of_canonical hlen h.1.1 h.1.2

/-- A stored scope reads back as itself, whatever other fields stand beside it. -/
theorem detectionScope_again (h : detectionScope row = .ok scope) {row' : List (String × Json)}
    (hrow : ∀ key ∈ ["hosts", "methods", "match", "value", "statuses"],
      Json.get? row' key = Json.get? scope.fields key) : detectionScope row' = .ok scope := by
  have hget (key : String) (d : Json) (hk : key ∈ ["hosts", "methods", "match", "value", "statuses"]) :
      Json.getD row' key d = Json.getD scope.fields key d := by
    rw [Json.getD, Json.getD, hrow key hk]
  simp only [detectionScope, bind_eq_ok, expect_eq_ok, require_eq_ok, pure_eq_ok, exists_const] at h ⊢
  rw [hget "hosts" _ (by decide), hget "methods" _ (by decide), hget "match" _ (by decide),
    hget "value" _ (by decide), hget "statuses" _ (by decide)]
  obtain ⟨hosts, -, hhosts, methods, -, hmethods, methods', hm, statuses, -, hstatuses, statuses',
    hs, kind, -, value, -, hplain, ⟨⟩, hpath, hosts', hh, rfl⟩ := h
  have hvalue := rstripSlash_of_checkPath hplain hpath
  refine ⟨_, rfl, ?_, _, rfl, ?_, _, mapM_sortedSet_again hm (fun _ _ => readMethod_again), _, rfl,
    ?_, _, mapM_sortedSet_again hs (fun _ _ => readStatus_again), kind, readMatch_text kind,
    value, ?_, hplain, ⟨⟩, hpath, _, mapM_sortedSet_again hh (fun _ _ => detectionHost_again), ?_⟩
  · have hle := length_sortedSet_le hosts'
    rw [length_of_mapM_ok hh] at hle
    rw [List.length_map]
    refine ⟨?_, hle.trans hhosts.2⟩
    obtain ⟨host, hmem⟩ := List.exists_mem_of_length_pos (by rw [length_of_mapM_ok hh]; exact hhosts.1)
    exact List.length_pos_of_mem (mem_sortedSet.mpr hmem)
  · rw [List.length_map]
    exact ((length_sortedSet_le _).trans (length_of_mapM_ok hm).le).trans hmethods
  · rw [List.length_map]
    exact ((length_sortedSet_le _).trans (length_of_mapM_ok hs).le).trans hstatuses
  · rw [hvalue]
    rfl
  · simp [sortedSet_sortedSet, hvalue]

def DetectionRule.Published (signatures : Signatures) (row : DetectionRule) : Prop :=
  row.category ∈ signatures.categories ∨ row.category = "custom"

instance (signatures : Signatures) (row : DetectionRule) : Decidable (row.Published signatures) :=
  inferInstanceAs (Decidable (_ ∨ _))

theorem checkRule_again {accepted accepted' : List DetectionRule}
    {data : Json} {row : DetectionRule} (h : checkRule signatures accepted data = .ok row) :
    checkRule signatures' accepted' row.toJson = .ok row ↔
      row.Published signatures' ∧ row.id ∉ accepted'.map (·.id) := by
  simp only [checkRule, bind_eq_ok, expect_eq_ok, require_eq_ok, pure_eq_ok, exists_const] at h ⊢
  obtain ⟨fields, -, name, -, hid, -, category, -, -, mode, -, scope, hscope, rfl⟩ := h
  constructor
  · rintro ⟨_, hf, _, hn, -, hnew, _, hc, hpub, -⟩
    cases hf
    cases hn
    cases hc
    exact ⟨hpub, hnew⟩
  · rintro ⟨hpub, hnew⟩
    refine ⟨_, rfl, _, rfl, hid, hnew, _, rfl, hpub, mode, readRuleMode_text mode, scope, ?_, rfl⟩
    apply detectionScope_again hscope
    simp only [List.forall_mem_cons, List.not_mem_nil, IsEmpty.forall_iff, implies_true, and_true]
    exact ⟨rfl, rfl, rfl, rfl, rfl⟩

theorem id_fresh_of_checkRule {accepted : List DetectionRule} {data : Json} {row : DetectionRule}
    (h : checkRule signatures accepted data = .ok row) : row.id ∉ accepted.map (·.id) := by
  simp only [checkRule, bind_eq_ok, expect_eq_ok, require_eq_ok, pure_eq_ok, exists_const] at h
  obtain ⟨_, -, _, -, -, hfresh, _, -, -, _, -, _, -, rfl⟩ := h
  exact hfresh

theorem published_of_checkRule {accepted' : List DetectionRule}
    {row row' : DetectionRule} (h : checkRule signatures' accepted' row.toJson = .ok row') :
    row.Published signatures' := by
  simp only [checkRule, bind_eq_ok, expect_eq_ok, require_eq_ok, exists_const] at h
  obtain ⟨_, hf, _, -, -, -, _, hc, hpub, -⟩ := h
  cases hf
  cases hc
  exact hpub

theorem checkMode_eq_ok {known : List String} {k : String} {mode : RuleMode}
    {out : String × RuleMode} :
    checkMode known (k, .str mode.text) = .ok out ↔ supportedId known k ∧ out = (k, mode) := by
  simp only [checkMode, bind_eq_ok, expect_eq_ok, require_eq_ok, pure_eq_ok, exists_const]
  constructor
  · rintro ⟨hk, m, hm, rfl⟩
    rw [readRuleMode_text, Option.some.injEq] at hm
    exact ⟨hk, by rw [hm]⟩
  · rintro ⟨hk, rfl⟩
    exact ⟨hk, mode, readRuleMode_text mode, rfl⟩

theorem checkException_again {known known' : List String}
    {accepted accepted' : List DetectionException} {data : Json} {row : DetectionException}
    (h : checkException known accepted data = .ok row) :
    checkException known' accepted' row.toJson = .ok row ↔
      supportedId known' row.rule ∧ row.id ∉ accepted'.map (·.id) := by
  simp only [checkException, bind_eq_ok, expect_eq_ok, require_eq_ok, pure_eq_ok, exists_const] at h ⊢
  obtain ⟨fields, -, name, -, hid, -, rule, -, -, reason, -, hreason, expires, -, hexp, scope,
    hscope, rfl⟩ := h
  constructor
  · rintro ⟨_, hf, _, hn, -, hnew, _, hr, hsup, -⟩
    cases hf
    cases hn
    cases hr
    exact ⟨hsup, hnew⟩
  · rintro ⟨hsup, hnew⟩
    refine ⟨_, rfl, _, rfl, hid, hnew, _, rfl, hsup, _, rfl, ?_, _, rfl, hexp, scope, ?_, ?_⟩
    · rwa [String.toList_ofList, strip_strip]
    · apply detectionScope_again hscope
      simp only [List.forall_mem_cons, List.not_mem_nil, IsEmpty.forall_iff, implies_true, and_true]
      exact ⟨rfl, rfl, rfl, rfl, rfl⟩
    · rw [String.toList_ofList, strip_strip]

theorem id_fresh_of_checkException {known : List String} {accepted : List DetectionException}
    {data : Json} {row : DetectionException} (h : checkException known accepted data = .ok row) :
    row.id ∉ accepted.map (·.id) := by
  simp only [checkException, bind_eq_ok, expect_eq_ok, require_eq_ok, pure_eq_ok, exists_const] at h
  obtain ⟨_, -, _, -, -, hfresh, _, -, -, _, -, -, _, -, -, _, -, rfl⟩ := h
  exact hfresh

theorem supportedId_of_checkException {known : List String} {accepted : List DetectionException}
    {row row' : DetectionException} (h : checkException known accepted row.toJson = .ok row') :
    supportedId known row.rule := by
  simp only [checkException, bind_eq_ok, expect_eq_ok, require_eq_ok, exists_const] at h
  obtain ⟨_, hf, _, -, -, -, _, hr, hsup, -⟩ := h
  cases hf
  cases hr
  exact hsup

theorem checkProfile_again (entry : String × SiteProfile) :
    checkProfile (entry.1, .str entry.2.text) = .ok entry := by
  simp only [checkProfile, bind_eq_ok, expect_eq_ok, pure_eq_ok]
  exact ⟨entry.2, readProfile_text _, rfl⟩

theorem readSite_again {entry site : String × SiteProfile} (h : readSite entry = .ok site) :
    readSite site = .ok site := by
  simp only [readSite, bind_eq_ok, pure_eq_ok] at h ⊢
  obtain ⟨host, hhost, rfl⟩ := h
  exact ⟨host, detectionHost_again hhost, rfl⟩

/-- The identifiers a document's modes and exceptions may name. -/
def DetectionSettings.knownIds (signatures : Signatures) (settings : DetectionSettings) :
    List String :=
  builtinDetectionIds signatures ++ settings.rules.map (·.id)

/-- What the signatures in force say about a stored document: every rule's category is
still there, whatever else it names is known or may be dormant, and its revision fits. -/
structure DetectionSettings.Supported (signatures : Signatures) (settings : DetectionSettings) :
    Prop where
  categories : ∀ row ∈ settings.rules, row.Published signatures
  modes : ∀ entry ∈ settings.modes, supportedId (settings.knownIds signatures) entry.1
  exceptions : ∀ row ∈ settings.exceptions, supportedId (settings.knownIds signatures) row.rule
  revision : settings.revision < 2 ^ 53

variable {data : Json} {checked settings : DetectionSettings}

/-- The rules of a checked document are read back unless a category is gone. -/
theorem collect_rules_again {rows : List Json} {rules : List DetectionRule}
    (h : collect (checkRule signatures) [] rows = .ok rules)
    (hpub : ∀ row ∈ rules, row.Published signatures') :
    collect (checkRule signatures') [] (rules.map (·.toJson)) = .ok rules := by
  apply collect_recheck h
  intro acc row b hb hrow
  rw [checkRule_again hrow]
  exact ⟨hpub b hb, id_fresh_of_checkRule hrow⟩

theorem collect_exceptions_again {known known' : List String} {rows : List Json}
    {exceptions : List DetectionException}
    (h : collect (checkException known) [] rows = .ok exceptions)
    (hsup : ∀ row ∈ exceptions, supportedId known' row.rule) :
    collect (checkException known') [] (exceptions.map (·.toJson)) = .ok exceptions := by
  apply collect_recheck h
  intro acc row b hb hrow
  rw [checkException_again hrow]
  exact ⟨hsup b hb, id_fresh_of_checkException hrow⟩

/-- A document checked under one set of signatures passes under another that supports it,
whatever revision it is saved with. -/
theorem validateDetectionConfig_again (h : validateDetectionConfig signatures data = .ok checked)
    {revision : Int} (hrev : 0 ≤ revision)
    (hs : ({ checked with revision } : DetectionSettings).Supported signatures') :
    validateDetectionConfig signatures' ({ checked with revision } : DetectionSettings).toJson =
      .ok { checked with revision } := by
  simp only [validateDetectionConfig, bind_eq_ok, expect_eq_ok, require_eq_ok, pure_eq_ok,
    exists_const] at h ⊢
  obtain ⟨fields, -, -, rules, -, hrules, exceptions, -, hexceptions, modes, -, hmodes, checkedRules,
    hcr, modes', hm, hwarn, exclusions, hce, profiles, -, hprofiles, profiles', hp, revision', -, -,
    sites, hsites, rfl⟩ := h
  refine ⟨_, rfl, rfl, _, rfl, ?_, _, rfl, ?_, _, rfl, ?_, _, collect_rules_again hcr hs.categories,
    modes', ?_, hwarn, _, collect_exceptions_again hce hs.exceptions, _, rfl, ?_,
    (Dict.ofPairs sites).entries, mapM_map_eq_ok (fun entry _ => checkProfile_again entry), _, rfl,
    ⟨hrev, hs.revision⟩, (Dict.ofPairs sites).entries, ?_, ?_⟩
  · rw [List.length_map, length_of_collect hcr]
    simpa using hrules
  · rw [List.length_map, length_of_collect hce]
    simpa using hexceptions
  · rw [List.length_map, length_of_mapM_ok hm]
    exact hmodes
  · apply mapM_map_eq_ok
    intro entry hentry
    exact checkMode_eq_ok.mpr ⟨hs.modes entry hentry, rfl⟩
  · have hle := Dict.length_ofPairs_le sites
    rw [length_of_mapM_ok hsites, length_of_mapM_ok hp] at hle
    rw [List.length_map]
    exact hle.trans hprofiles
  · conv_lhs => rw [← List.map_id (Dict.ofPairs sites).entries]
    apply mapM_map_eq_ok
    intro site hsite
    obtain ⟨entry, -, hentry⟩ := mem_of_mapM_ok hsites (Dict.mem_of_mem_ofPairs hsite)
    exact readSite_again hentry
  · rw [Dict.ofPairs_entries]

/-- A document that passes under the signatures in force is supported by them. -/
theorem supported_of_validate (h : validateDetectionConfig signatures data = .ok checked)
    {revision : Int} {loaded : DetectionSettings}
    (hl : validateDetectionConfig signatures' ({ checked with revision } : DetectionSettings).toJson =
      .ok loaded) :
    ({ checked with revision } : DetectionSettings).Supported signatures' := by
  simp only [validateDetectionConfig, bind_eq_ok, expect_eq_ok, require_eq_ok, pure_eq_ok,
    exists_const] at h hl
  obtain ⟨_, -, -, _, -, -, _, -, -, _, -, -, checkedRules, hcr, _, -, -, _, -, _, -, -, _, -, _, -, -,
    _, -, rfl⟩ := h
  obtain ⟨_, hf, -, _, hr, -, _, he, -, _, hm, -, loadedRules, hlr, _, hlm, -, _, hle, _, -, -, _, -, _,
    hrev, hrange, -⟩ := hl
  cases hf
  cases hr
  cases he
  cases hm
  cases hrev
  have hpub : ∀ row ∈ checkedRules, row.Published signatures' := by
    intro row hrow
    obtain ⟨acc, b, hb⟩ := check_of_collect hlr (List.mem_map_of_mem hrow)
    exact published_of_checkRule hb
  -- With every category there the rules read back are the stored ones, so the same ids are known.
  obtain rfl : checkedRules = loadedRules := by
    have := collect_rules_again hcr hpub
    exact Except.ok.inj (this.symm.trans hlr)
  refine ⟨hpub, ?_, ?_, hrange.2⟩
  · intro entry hentry
    obtain ⟨out, hout⟩ := ok_of_mapM_ok hlm (List.mem_map_of_mem hentry)
    exact (checkMode_eq_ok.mp hout).1
  · intro row hrow
    obtain ⟨acc, b, hb⟩ := check_of_collect hle (List.mem_map_of_mem hrow)
    exact supportedId_of_checkException hb

end Again

/-! ## What a restart keeps -/

section Restart

/-- Nothing a document stores is gone after loading it, rules without their category aside. -/
structure DetectionSettings.KeptIn (signatures : Signatures) (stored loaded : DetectionSettings) :
    Prop where
  exceptions : ∀ row ∈ stored.exceptions, row ∈ loaded.exceptions
  modes : ∀ entry ∈ stored.modes, entry ∈ loaded.modes
  rules : ∀ row ∈ stored.rules, row.Published signatures → row ∈ loaded.rules
  profiles : ∀ entry ∈ stored.profiles.entries, entry ∈ loaded.profiles.entries

/-- A document of nothing but rules whose category is gone. -/
structure DetectionSettings.OnlyVanished (signatures : Signatures) (settings : DetectionSettings) :
    Prop where
  exceptions : settings.exceptions = []
  modes : settings.modes = []
  rules : ∀ row ∈ settings.rules, ¬ row.Published signatures
  profiles : settings.profiles.entries = []

variable {signatures signatures' : Signatures} {data : Json} {context context' : DetectionContext}

theorem DetectionSettings.keptIn_self (settings : DetectionSettings) :
    settings.KeptIn signatures settings :=
  ⟨fun _ h => h, fun _ h => h, fun _ h _ => h, fun _ h => h⟩

/-- Nothing is kept of a document that is ignored as a whole. -/
theorem DetectionSettings.keptIn_empty_iff {settings : DetectionSettings} :
    settings.KeptIn signatures {} ↔ settings.OnlyVanished signatures := by
  constructor
  · intro h
    refine ⟨List.eq_nil_iff_forall_not_mem.mpr ?_, List.eq_nil_iff_forall_not_mem.mpr ?_, ?_,
      List.eq_nil_iff_forall_not_mem.mpr ?_⟩
    · exact fun row hrow => List.not_mem_nil (h.exceptions row hrow)
    · exact fun entry hentry => List.not_mem_nil (h.modes entry hentry)
    · exact fun row hrow hpub => List.not_mem_nil (h.rules row hrow hpub)
    · exact fun entry hentry => List.not_mem_nil (h.profiles entry hentry)
  · intro h
    refine ⟨?_, ?_, fun row hrow hpub => absurd hpub (h.rules row hrow), ?_⟩
    · simp [h.exceptions]
    · simp [h.modes]
    · simp [h.profiles]

/-- What `replace` saves is the document it checked, one revision on. -/
theorem DetectionContext.replace_ok (h : context.replace signatures data = .ok context') :
    ∃ checked, validateDetectionConfig signatures data = .ok checked ∧ 0 ≤ checked.revision ∧
      context'.config = { checked with revision := checked.revision + 1 } ∧
      context'.saved = some context'.config.toJson := by
  simp only [DetectionContext.replace, bind_eq_ok, require_eq_ok, pure_eq_ok, exists_const] at h
  obtain ⟨checked, hc, -, rfl⟩ := h
  refine ⟨checked, hc, ?_, rfl, rfl⟩
  simp only [validateDetectionConfig, bind_eq_ok, expect_eq_ok, require_eq_ok, pure_eq_ok,
    exists_const] at hc
  obtain ⟨_, -, -, _, -, -, _, -, -, _, -, -, _, -, _, -, -, _, -, _, -, -, _, -, revision, -, hrev,
    _, -, rfl⟩ := hc
  exact hrev.1

/-- A restart under other signatures keeps the saved settings exactly when these support
the whole document, or there is nothing in it to lose. -/
theorem restart_keeps_detection_iff {shipped shipped' : Shipped} {overrides overrides' : Overrides}
    (h : context.replace (publishSignatures shipped overrides) data = .ok context') :
    let after := publishSignatures shipped' overrides'
    context'.config.KeptIn after (DetectionContext.init after context'.saved).config ↔
      context'.config.Supported after ∨ context'.config.OnlyVanished after := by
  obtain ⟨checked, hc, hrev, hconfig, hsaved⟩ := DetectionContext.replace_ok h
  dsimp only
  generalize publishSignatures shipped' overrides' = after
  rw [hsaved, hconfig]
  by_cases hs : ({ checked with revision := checked.revision + 1 } : DetectionSettings).Supported after
  · simp only [DetectionContext.init, validateDetectionConfig_again hc (by omega) hs]
    exact iff_of_true (DetectionSettings.keptIn_self _) (Or.inl hs)
  · cases hv : validateDetectionConfig after
        ({ checked with revision := checked.revision + 1 } : DetectionSettings).toJson with
    | ok loaded => exact absurd (supported_of_validate hc hv) hs
    | error e =>
      simp only [DetectionContext.init, hv, hs, false_or]
      exact DetectionSettings.keptIn_empty_iff

/-- The signature file with a database dump in it, and without. -/
def shippedWith (segments : List (String × String)) : Shipped :=
  { segments := Dict.ofPairs segments
    paths := Dict.ofPairs [("/.env", "secrets")]
    queryRules := ["traversal"]
    userAgents := Dict.empty }

def noOverrides : Overrides := { added := Dict.empty, disabled := [] }

/-- A rule for dumps and an exception from a rule that has nothing to do with it. -/
def dumpDocument : Json :=
  let scope : List (String × Json) := [("hosts", .arr [.str "a.example"]), ("value", .str "/x")]
  .obj [("version", .int 1),
    ("rules", .arr [.obj (("id", .str "custom:dumps") :: ("category", .str "backup") :: scope)]),
    ("exceptions", .arr [.obj (("id", .str "exception:env") :: ("rule", .str "path:secrets") ::
      ("reason", .str "known probe") :: scope)])]

def dumpScope : Scope :=
  { hosts := ["a.example"], methods := [], kind := .exact, value := "/x", statuses := [] }

def dumpSettings : DetectionSettings :=
  { revision := 1
    rules := [{ id := "custom:dumps", scope := dumpScope, category := "backup", mode := .observe }]
    exceptions := [{ id := "exception:env", rule := "path:secrets", scope := dumpScope
                     reason := "known probe", expires := 0 }] }

theorem validate_dumpDocument :
    validateDetectionConfig (publishSignatures (shippedWith [("dump.sql", "backup")]) noOverrides)
      dumpDocument = .ok { dumpSettings with revision := 0 } := by
  decide +kernel

theorem replace_dumpDocument :
    ({} : DetectionContext).replace
        (publishSignatures (shippedWith [("dump.sql", "backup")]) noOverrides) dumpDocument =
      .ok { config := dumpSettings, saved := some dumpSettings.toJson } := by
  simp only [DetectionContext.replace, bind_eq_ok, require_eq_ok, pure_eq_ok, exists_const]
  exact ⟨_, validate_dumpDocument, rfl, rfl⟩

theorem restart_keeps_detection_dumps :
    let after := publishSignatures (shippedWith [("dump.sql", "backup"), ("wp-admin", "cms")]) noOverrides
    dumpSettings.KeptIn after (DetectionContext.init after (some dumpSettings.toJson)).config :=
  (restart_keeps_detection_iff replace_dumpDocument).mpr
    (Or.inl ⟨by decide, by decide, by decide, by decide⟩)

/-- Dropping the dumps from the signature file drops the exception from another rule. -/
theorem restart_loses_detection :
    ¬ ∀ (shipped shipped' : Shipped) (overrides overrides' : Overrides)
        (context context' : DetectionContext) (data : Json),
      context.replace (publishSignatures shipped overrides) data = .ok context' →
      let after := publishSignatures shipped' overrides'
      context'.config.KeptIn after (DetectionContext.init after context'.saved).config := by
  intro h
  have hkept := h _ (shippedWith [("wp-admin", "cms")]) _ noOverrides _ _ _ replace_dumpDocument
  have herror : validateDetectionConfig
      (publishSignatures (shippedWith [("wp-admin", "cms")]) noOverrides) dumpSettings.toJson =
      .error "unknown category" := by
    decide +kernel
  have hlost := hkept.exceptions _ (List.mem_singleton.mpr rfl)
  simp [DetectionContext.init, herror] at hlost

end Restart

end EasyHaProxy.Guardd
