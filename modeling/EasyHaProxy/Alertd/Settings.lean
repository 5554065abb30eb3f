import EasyHaProxy.Lib.Validate
import EasyHaProxy.Alertd.Basic

/-! The settings file is read leniently and a change is checked strictly. A change is merged into the
settings as a document, and the document is read back the way the file is. -/
namespace EasyHaProxy.Alertd

open Validate

/-- The whole of the operator's settings: what is sent where, and what the panel shows. -/
structure AlertSettings extends AlertConfig where
  emailEnabled : Bool := true
  recipient : String := ""
  portalMinSeverity : Severity := .warning
  webhookUrl : String := ""
  webhookHeaderName : String := ""
  webhookHeaderValue : String := ""
  webhookAllowPrivate : Bool := false

/-! ## Documents -/

/-- A JSON value as `int()` takes it: refused, refused by another error, or a number. -/
inductive Number
  | unreadable
  | infinite
  | value (n : Int)
  deriving DecidableEq

def Number.int? : Number → Option Int
  | value n => some n
  | _ => none

/-- A rule in a document; nothing for a key it lacks. -/
structure RuleObject where
  enabled : Option Bool := none
  triggerDelay : Option Number := none
  repeatAfter : Option Number := none
  deriving DecidableEq

/-- A settings document; nothing for a key it lacks. A flag is what the code makes of the value
(`is not False`, `is True`), a text is `str(value or "")`, and a rule is nothing when it is no
object. -/
structure Document where
  enabled : Option Bool := none
  emailEnabled : Option Bool := none
  recipient : Option String := none
  minSeverity : Option String := none
  portalMinSeverity : Option String := none
  configVersion : Option Int := none
  webhookUrl : Option String := none
  webhookHeaderName : Option String := none
  webhookHeaderValue : Option String := none
  webhookAllowPrivate : Option Bool := none
  rules : Option (Dict String (Option RuleObject)) := none

section Reading

def stripped (text : String) : String := String.ofList (Text.strip text.toList)

def Severity.text : Severity → String
  | info => "info"
  | warning => "warning"
  | critical => "critical"

def readSeverity (text : String) : Option Severity :=
  match String.ofList (Text.lower (Text.strip text.toList)) with
  | "info" => some .info
  | "warning" => some .warning
  | "critical" => some .critical
  | _ => none

/-- `_HEADER_NAME_RE`. -/
def headerNameOk (name : String) : Bool :=
  match name.toList with
  | [] => false
  | c :: rest => isAlnum c && decide (rest.length ≤ 63) && rest.all (fun c => isAlnum c || c = '-')

/-- A text that does not pass its check is read as the empty text. -/
def readField (ok : String → Bool) (text : String) : String := if ok (stripped text) then stripped text else ""

def maxHeaderChars : Nat := 4096

def RuleObject.settings (o : RuleObject) (rule : Rule) : RuleSettings where
  enabled := o.enabled.getD rule.enabled
  triggerDelay := clampInt (o.triggerDelay.getD (.value rule.triggerDelay)).int? rule.triggerDelay 0 86400
  repeatAfter := clampInt (o.repeatAfter.getD (.value rule.repeatAfter)).int? rule.repeatAfter 300 (7 * 86400)

/-- `int()` of an infinite number is an error nobody catches. -/
def RuleObject.overflows (o : RuleObject) : Bool :=
  o.triggerDelay = some .infinite || o.repeatAfter = some .infinite

def loadRule (loaded : Dict String RuleSettings) (e : String × Option RuleObject) : Dict String RuleSettings :=
  match rulesByName e.1, e.2 with
  | some rule, some o => loaded.set rule.name (o.settings rule)
  | _, _ => loaded

def loadRules (rules : Dict String (Option RuleObject)) : Dict String RuleSettings :=
  rules.entries.foldl loadRule Dict.empty

def configVersion : Int := 2

def Document.rulesD (doc : Document) : Dict String (Option RuleObject) := doc.rules.getD Dict.empty

def Document.overflows (doc : Document) : Bool :=
  doc.rulesD.entries.any (fun e => (rulesByName e.1).isSome && (e.2.map (·.overflows)).getD false)

def Document.settings (doc : Document) : AlertSettings where
  enabled := doc.enabled.getD true
  emailEnabled := doc.emailEnabled.getD true
  recipient := readField emailOk (doc.recipient.getD "")
  minSeverity :=
    let severity := (doc.minSeverity.bind readSeverity).getD .warning
    -- a file written before version 2 kept "info" only because it was the default then
    if doc.configVersion.getD 0 < 2 ∧ severity = .info then .warning else severity
  portalMinSeverity := (doc.portalMinSeverity.bind readSeverity).getD .warning
  webhookUrl := stripped (doc.webhookUrl.getD "")
  webhookHeaderName := readField headerNameOk (doc.webhookHeaderName.getD "")
  webhookHeaderValue := cleanText (doc.webhookHeaderValue.getD "") maxHeaderChars
  webhookAllowPrivate := doc.webhookAllowPrivate.getD false
  rules := loadRules doc.rulesD

/-- `load_config` of a document. -/
def Document.load (doc : Document) : Except String AlertSettings :=
  if doc.overflows then .error "cannot convert float infinity to integer" else .ok doc.settings

def RuleSettings.asDict (settings : RuleSettings) : RuleObject where
  enabled := some settings.enabled
  triggerDelay := some (.value settings.triggerDelay)
  repeatAfter := some (.value settings.repeatAfter)

def AlertSettings.asDict (c : AlertSettings) : Document where
  enabled := some c.enabled
  emailEnabled := some c.emailEnabled
  recipient := some c.recipient
  minSeverity := some c.minSeverity.text
  portalMinSeverity := some c.portalMinSeverity.text
  configVersion := some configVersion
  webhookUrl := some c.webhookUrl
  webhookHeaderName := some c.webhookHeaderName
  webhookHeaderValue := some c.webhookHeaderValue
  webhookAllowPrivate := some c.webhookAllowPrivate
  rules := some (c.rules.mapValues (fun _ settings => some settings.asDict))

end Reading

/-! ## The webhook's target -/

/-- What `urlparse` makes of a text; a part that is missing is empty. -/
structure Url where
  scheme : String
  hostname : String
  username : String
  password : String
  port : Except String (Option Nat)
  path : String
  query : String

/-- One answer of the resolver. -/
structure Address where
  text : String
  isAddress : Bool := true
  isLoopback : Bool := false
  isLinkLocal : Bool := false
  isMulticast : Bool := false
  isReserved : Bool := false
  isUnspecified : Bool := false
  isPrivate : Bool := false

structure Net where
  urlparse : String → Except String Url
  getaddrinfo : String → Nat → Except String (List Address)

/-- The first answer that is an address is the one that counts. -/
def usableAddress (allowPrivate : Bool) : List Address → Except String Address
  | [] => .error "the webhook host did not resolve to a usable address"
  | address :: rest =>
    if !address.isAddress then usableAddress allowPrivate rest
    else if address.isLoopback || address.isLinkLocal || address.isMulticast then
      .error "the webhook host resolves to a loopback or link-local address"
    else if address.isReserved || address.isUnspecified then
      .error "the webhook host resolves to a reserved address"
    else if address.isPrivate && !allowPrivate then
      .error ("the webhook host resolves to a private address; enable " ++
        "'allow private destinations' if that is intended")
    else .ok address

structure Target where
  hostname : String
  address : String
  port : Nat
  path : String

def targetPort (url : Url) : Except String Nat := do
  let given ← url.port
  -- port 0 is as good as none
  let port := if given.getD 0 = 0 then 443 else given.getD 0
  require (port ≤ 65535) "the webhook port is out of range"
  return port

def resolveWebhookTarget (net : Net) (url : String) (allowPrivate : Bool) : Except String Target := do
  let parsed ← net.urlparse (stripped url)
  require (parsed.scheme = "https") "the webhook URL must use https"
  require (parsed.hostname ≠ "") "the webhook URL has no host"
  require (parsed.username = "" ∧ parsed.password = "") "put the secret in the header, not in the URL"
  let port ← targetPort parsed
  let infos ← net.getaddrinfo parsed.hostname port
  let address ← usableAddress allowPrivate infos
  return {
    hostname := parsed.hostname
    address := address.text
    port := port
    path := (if parsed.path = "" then "/" else parsed.path) ++
      (if parsed.query = "" then "" else "?" ++ parsed.query) }

/-! ## Changing the settings -/

/-- What the panel sends: a document, whose rules may be no object. -/
structure ConfigPayload extends Document where
  rulesRefused : Bool := false

/-- The mask the browser echoes for a secret it was never sent. -/
def mask : String := "***"

/-- A text field that may be emptied and is otherwise checked. -/
def mergeField (ok : String → Bool) (error : String) (old : String) : Option String → Except String String
  | none => .ok old
  | some text => if stripped text ≠ "" ∧ ¬ ok (stripped text) then .error error else .ok (stripped text)

def mergeRecipient : String → Option String → Except String String :=
  mergeField emailOk "the recipient is not a valid email address"

def mergeSeverity (key : String) (old : Severity) : Option String → Except String Severity
  | none => .ok old
  | some text =>
    match readSeverity text with
    | none => .error (key ++ " must be info, warning or critical")
    | some severity => .ok severity

def mergeUrl (net : Net) (allowPrivate : Bool) (old : String) : Option String → Except String String
  | none => .ok old
  | some text =>
    if stripped text = "" then .ok ""
    else
      match resolveWebhookTarget net (stripped text) allowPrivate with
      | .error e => .error e
      | .ok _ => .ok (stripped text)

def mergeHeaderName : String → Option String → Except String String :=
  mergeField headerNameOk "the header name may use letters, digits and -"

def mergeHeaderValue (old : String) : Option String → String
  | none => old
  | some text => if text = mask then old else text

def checkRule (e : String × Option RuleObject) : Except String Unit := do
  require ((rulesByName e.1).isSome = true) ("unknown rule: " ++ e.1)
  require (e.2.isSome = true) ("rule " ++ e.1 ++ " must be an object")

/-- `dict.update`. -/
def overlay {ν : Type} (old new : Dict String ν) : Dict String ν :=
  new.entries.foldl (fun d e => d.set e.1 e.2) old

/-- A rule that is sent replaces the whole of the rule that was there. -/
def mergeRules (old : Dict String (Option RuleObject)) (p : ConfigPayload) :
    Except String (Dict String (Option RuleObject)) := do
  require (p.rulesRefused = false) "rules must be an object"
  let _ ← p.rulesD.entries.mapM checkRule
  return overlay old p.rulesD

def AlertSettings.merged (c : AlertSettings) (net : Net) (p : ConfigPayload) : Except String Document := do
  let recipient ← mergeRecipient c.recipient p.recipient
  let minSeverity ← mergeSeverity "min_severity" c.minSeverity p.minSeverity
  let portalMinSeverity ← mergeSeverity "portal_min_severity" c.portalMinSeverity p.portalMinSeverity
  let allowPrivate := p.webhookAllowPrivate.getD c.webhookAllowPrivate
  let webhookUrl ← mergeUrl net allowPrivate c.webhookUrl p.webhookUrl
  let webhookHeaderName ← mergeHeaderName c.webhookHeaderName p.webhookHeaderName
  let rules ← mergeRules c.asDict.rulesD p
  return {
    enabled := some (p.enabled.getD c.enabled)
    emailEnabled := some (p.emailEnabled.getD c.emailEnabled)
    recipient := some recipient
    minSeverity := some minSeverity.text
    portalMinSeverity := some portalMinSeverity.text
    configVersion := some configVersion
    webhookUrl := some webhookUrl
    webhookHeaderName := some webhookHeaderName
    webhookHeaderValue := some (mergeHeaderValue c.webhookHeaderValue p.webhookHeaderValue)
    webhookAllowPrivate := some allowPrivate
    rules := some rules }

/-- `update_config` from its read to the settings it writes and installs. -/
def updateConfig (net : Net) (c : AlertSettings) (p : ConfigPayload) : Except String AlertSettings := do
  let doc ← c.merged net p
  doc.load

end EasyHaProxy.Alertd
