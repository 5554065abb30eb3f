import EasyHaProxy.Lib.Dict
import EasyHaProxy.Lib.Text

/-! The words of easy-ha-proxy-alertd.py: the catalogue of rules, the rows of its two tables and what
`observe` reads from a producer. Times are whole seconds. -/
namespace EasyHaProxy.Alertd

def maxMuteSeconds : Int := 30 * 86400
def staleCloseAfter : Int := 7 * 86400
def retentionDays : Int := 90
@[irreducible] def maxEventRows : Nat := 50000
def maxTextChars : Nat := 2000
def maxSubjectChars : Nat := 200
@[irreducible] def maxStateRows : Nat := 5000
def stormWindowSeconds : Int := 300
def stormMaxNotifications : Nat := 8
def pruneInterval : Int := 3600

inductive Severity
  | info | warning | critical
  deriving DecidableEq, Repr

def Severity.rank : Severity → Nat
  | info => 0
  | warning => 1
  | critical => 2

inductive Kind
  | level | event
  deriving DecidableEq, Repr

inductive AlertState
  | ok | pending | firing
  deriving DecidableEq, Repr

inductive Transition
  | fired | repeated | escalated | recovered | suppressed | dismissed | stale | expired | retired
  deriving DecidableEq, Repr

/-! ## Rules -/

/-- One condition the gateway knows how to complain about. -/
structure Rule where
  name : String
  kind : Kind
  severity : Severity
  title : String
  triggerDelay : Int := 0
  repeatAfter : Int := 6 * 3600
  autoClear : Int := 3600
  staleAfter : Int := 900
  enabled : Bool := true
  deriving DecidableEq

def rules : List Rule :=
  [{ name := "site.down", kind := .level, severity := .critical,
     title := "Site is down", triggerDelay := 300 },
   { name := "http.error_ratio", kind := .level, severity := .warning,
     title := "HTTP 5xx ratio above the threshold", triggerDelay := 300 },
   { name := "response.slow", kind := .level, severity := .warning,
     title := "Response time above the threshold", triggerDelay := 300 },
   { name := "authelia.unavailable", kind := .level, severity := .critical,
     title := "Authelia is not answering", triggerDelay := 120 },
   { name := "monitoring.storage", kind := .level, severity := .warning,
     title := "Monitoring storage is under pressure" },
   { name := "monitoring.paused", kind := .level, severity := .warning,
     title := "Historical monitoring is paused" },
   { name := "certificate.expiring", kind := .level, severity := .warning,
     title := "Certificate expires soon", repeatAfter := 24 * 3600, staleAfter := 13 * 3600 },
   { name := "certificate.renewal_failed", kind := .event, severity := .critical,
     title := "Certificate renewal failed", autoClear := 6 * 3600 },
   { name := "security.burst", kind := .event, severity := .warning,
     title := "Burst of hostile requests" },
   { name := "security.hostile_ip", kind := .event, severity := .info,
     title := "Adaptive protection acted on an address" },
   { name := "security.engine_failing", kind := .level, severity := .warning,
     title := "Adaptive protection is not working", triggerDelay := 300 },
   { name := "backup.failed", kind := .event, severity := .critical,
     title := "Backup job failed", autoClear := 6 * 3600 },
   { name := "backup.space_low", kind := .event, severity := .warning,
     title := "Backup storage is running out of space", autoClear := 24 * 3600 },
   { name := "restore.failed", kind := .event, severity := .critical,
     title := "Restore job failed", autoClear := 6 * 3600 },
   { name := "update.failed", kind := .event, severity := .warning,
     title := "Software update failed", autoClear := 6 * 3600 },
   { name := "update.available", kind := .level, severity := .info,
     title := "Software updates are available", repeatAfter := 7 * 86400, staleAfter := 8 * 86400 },
   { name := "config.apply_failed", kind := .event, severity := .critical,
     title := "HAProxy apply or reload failed" },
   { name := "mail.delivery_failed", kind := .level, severity := .critical,
     title := "Mail cannot be delivered", staleAfter := 6 * 3600 }]

def rulesByName (name : String) : Option Rule := rules.find? (fun rule => rule.name = name)

theorem name_of_rulesByName {name : String} {rule : Rule} (h : rulesByName name = some rule) :
    rule.name = name := by
  simpa using List.find?_some h

structure RuleSettings where
  enabled : Bool
  triggerDelay : Int
  repeatAfter : Int
  deriving DecidableEq

/-- Operator-visible settings; absent rules keep the catalogue defaults. -/
structure AlertConfig where
  enabled : Bool := true
  minSeverity : Severity := .warning
  rules : Dict String RuleSettings := Dict.empty

def AlertConfig.settingsFor (config : AlertConfig) (rule : Rule) : RuleSettings :=
  config.rules.getD rule.name ⟨rule.enabled, rule.triggerDelay, rule.repeatAfter⟩

/-! ## Rows -/

/-- Rule and subject. -/
abbrev AlertKey := String × String

/-- A row of `alert_state`; its key stands beside it. -/
structure AlertRow where
  state : AlertState
  severity : Severity
  since : Int
  firstSeen : Int
  lastSeen : Int
  lastNotified : Int
  notifyCount : Nat
  summary : String
  detail : String
  acknowledgedTs : Int := 0
  mutedUntil : Int := 0
  staleSince : Int := 0
  deriving DecidableEq

/-- Why a message was not handed to the channels. -/
inductive HeldBack
  | switchedOff
  | ruleOff
  | belowMinimum
  | muted (mutedUntil : Int)
  | acknowledged
  | informationEnds
  | storm
  deriving DecidableEq, Repr

/-- What `deliver` returns: the channels that took the message and the errors of the others. -/
structure Delivery where
  delivered : List String := []
  errors : List String := []
  deriving DecidableEq, Repr

/-- A row of `alert_events`. The two delivery columns hold a reason or an outcome. -/
structure AlertEvent where
  id : Nat
  ts : Int
  key : AlertKey
  transition : Transition
  severity : Severity
  summary : String
  heldBack : Option HeldBack := none
  delivery : Delivery := {}
  deriving DecidableEq

/-! ## Observations -/

/-- What a producer sends; a field that is missing or empty is the empty text. -/
structure Payload where
  rule : String
  subject : String := ""
  /-- Nothing when it is not a boolean. -/
  active : Option Bool := none
  severity : String := ""
  summary : String := ""
  detail : String := ""
  /-- Given and read as a number, given and not readable, or not given. -/
  triggerDelay : Option (Option Int) := none
  recipient : String := ""
  retired : Bool := false

inductive ObserveError
  | unknownRule (name : String)
  | subject
  | active
  | recipient
  deriving DecidableEq

section Reading

def isControl (c : Char) : Bool :=
  c ≤ '\x08' || c = '\x0b' || c = '\x0c' || ('\x0e' ≤ c && c ≤ '\x1f') || c = '\x7f'

def cleanText (value : String) (limit : Nat) : String :=
  String.ofList ((Text.strip (value.toList.filter (fun c => !isControl c))).take limit)

def clampInt (value : Option Int) (default minV maxV : Int) : Int :=
  match value with
  | none => default
  | some number => max minV (min maxV number)

def isAlnum (c : Char) : Bool :=
  ('a' ≤ c && c ≤ 'z') || ('A' ≤ c && c ≤ 'Z') || ('0' ≤ c && c ≤ '9')

/-- `_SUBJECT_RE`. -/
def subjectOk (subject : String) : Bool :=
  match subject.toList with
  | [] => false
  | c :: rest =>
    isAlnum c && decide (rest.length ≤ 199) && rest.all (fun c => isAlnum c || " ._:/@*-".toList.contains c)

/-- `_EMAIL_RE`: the last dot of the domain is the one before its ending. -/
def emailOk (address : String) : Bool :=
  match address.toList.splitOn '@' with
  | [user, domain] =>
    let ending := (domain.reverse.takeWhile (· ≠ '.')).reverse
    let host := domain.take (domain.length - ending.length - 1)
    decide (0 < user.length ∧ user.length ≤ 64) && user.all (fun c => !Text.isSpace c) &&
      domain.contains '.' && decide (0 < host.length ∧ host.length ≤ 253) &&
      host.all (fun c => !Text.isSpace c) && decide (2 ≤ ending.length ∧ ending.length ≤ 63) &&
      ending.all (fun c => isAlnum c || c = '-')
  | _ => false

def severityOf (text : String) (rule : Rule) : Severity :=
  match String.ofList (Text.lower (Text.strip text.toList)) with
  | "info" => .info
  | "warning" => .warning
  | "critical" => .critical
  | _ => rule.severity

end Reading

/-- An observation as `_apply` and `_retire` take it. -/
structure Observation where
  rule : Rule
  subject : String
  active : Bool
  severity : Severity
  summary : String
  detail : String
  overrideDelay : Option Int
  retired : Bool

def Observation.key (o : Observation) : AlertKey := (o.rule.name, o.subject)

/-- An event is by definition something that happened. -/
def readActive (rule : Rule) (active : Option Bool) : Except ObserveError Bool :=
  match rule.kind, active with
  | .event, _ => .ok true
  | .level, some active => .ok active
  | .level, none => .error .active

def Payload.overrideDelay (payload : Payload) (rule : Rule) : Option Int :=
  match rule.kind, payload.triggerDelay with
  | .level, some value => some (clampInt value rule.triggerDelay 0 86400)
  | _, _ => none

def Payload.observation (payload : Payload) (rule : Rule) (subject : String) (active : Bool) : Observation where
  rule := rule
  subject := subject
  active := active
  severity := severityOf payload.severity rule
  summary := cleanText (if payload.summary = "" then rule.title else payload.summary) maxTextChars
  detail := cleanText payload.detail maxTextChars
  overrideDelay := payload.overrideDelay rule
  retired := payload.retired && rule.kind = .level

/-- The part of `observe` before the lock: an observation, or a refusal. -/
def Payload.read (payload : Payload) : Except ObserveError Observation :=
  let name := String.ofList (Text.strip payload.rule.toList)
  match rulesByName name with
  | none => .error (.unknownRule name)
  | some rule =>
    let subject := cleanText (if payload.subject = "" then "-" else payload.subject) maxSubjectChars
    if ¬ subjectOk subject then .error .subject
    else
      match readActive rule payload.active with
      | .error e => .error e
      | .ok active =>
        let recipient := String.ofList (Text.strip payload.recipient.toList)
        if recipient ≠ "" ∧ ¬ emailOk recipient then .error .recipient
        else .ok (payload.observation rule subject active)

/-- What is accepted is about a rule of the catalogue, and only a level is ever inactive. -/
theorem Payload.read_ok {payload : Payload} {o : Observation} (h : payload.read = .ok o) :
    rulesByName o.rule.name = some o.rule ∧ (o.active = false → o.rule.kind = .level) := by
  simp only [Payload.read] at h
  split at h
  · cases h
  · rename_i rule hrule
    generalize cleanText _ maxSubjectChars = subject at h
    split at h
    · cases h
    · split at h
      · cases h
      · rename_i active hactive
        split at h
        · cases h
        · cases h
          refine ⟨by rw [← name_of_rulesByName hrule] at hrule; exact hrule, fun hinactive => ?_⟩
          cases hkind : rule.kind with
          | level => exact hkind
          | event =>
            simp only [readActive, hkind] at hactive
            cases hactive
            cases hinactive

end EasyHaProxy.Alertd
