import EasyHaProxy.Lib.Dict

/-! The words of easy-ha-proxy-guardd.py: the codes a ban carries in `tbl_ban`, the events the engine
stores, the modes and the two ban policies, and the rows of its database. -/
namespace EasyHaProxy.Guardd

/-- An address as the log, the tables and the database spell it. -/
abbrev Ip := String

inductive Mode
  | off | monitor | enforce
  deriving DecidableEq, Repr

inductive BanPolicy
  | legacy | u02
  deriving DecidableEq, Repr

def adaptiveBanCode : Int := 40
def manualBanCode : Int := 50
def manualBanReplacedMargin : Int := 120
def manualBanDefaultSeconds : Int := 7 * 86400
def decisionPendingGrace : Int := 60
def ownBanCodes : List Int := [adaptiveBanCode, manualBanCode]
def legacyBanCodes : List Int := [10, 20, 30]
def legacyLiftsPerCycle : Nat := 200
def knownBansMax : Nat := 5000
def trustAfterSignInSeconds : Int := 7 * 86400
def wouldBanScore : Int := 60
def maxPathLength : Nat := 200
def decisionsKeepRows : Nat := 20000
def enforcementBatch : Nat := 200
def enforcementSweepReserve : Nat := 50

inductive EventType
  | scannerPath | scannerDecisive | queryInjection | scannerMulti | lowAndSlow
  | notFoundEnum | wideEnum | massEnum | invalidHost | recurring | nosniProbing
  | rateExceeded | errorRateExceeded | legacyBan | hardFloor | hardFloorTrusted
  | banApplied | banLifted | legacyBanLifted
  deriving DecidableEq, Repr

/-- The text stored in the `event_type` column. -/
def EventType.text : EventType → String
  | scannerPath => "SCANNER_PATH"
  | scannerDecisive => "SCANNER_PATH_DECISIVE"
  | queryInjection => "QUERY_INJECTION"
  | scannerMulti => "SCANNER_MULTI_CATEGORY"
  | lowAndSlow => "LOW_AND_SLOW_SCANNER"
  | notFoundEnum => "NOT_FOUND_ENUMERATION"
  | wideEnum => "WIDE_ENUMERATION"
  | massEnum => "MASS_ENUMERATION"
  | invalidHost => "INVALID_HOST_ACTIVITY"
  | recurring => "RECURRING_SCANNER"
  | nosniProbing => "NOSNI_PROBING"
  | rateExceeded => "RATE_EXCEEDED"
  | errorRateExceeded => "ERROR_RATE_EXCEEDED"
  | legacyBan => "LEGACY_HAPROXY_BAN"
  | hardFloor => "HARD_FLOOR_EPISODE"
  | hardFloorTrusted => "HARD_FLOOR_TRUSTED"
  | banApplied => "BAN_APPLIED"
  | banLifted => "BAN_LIFTED"
  | legacyBanLifted => "LEGACY_BAN_LIFTED"

/-- `COOLDOWN_SECONDS.get(event_type, 60)`. -/
def EventType.cooldown : EventType → Int
  | scannerPath => 300
  | scannerMulti => 900
  | lowAndSlow => 3600
  | notFoundEnum => 900
  | wideEnum => 900
  | massEnum => 3600
  | recurring => 6 * 3600
  | invalidHost => 600
  | nosniProbing => 600
  | rateExceeded => 60
  | errorRateExceeded => 60
  | hardFloor => 600
  | hardFloorTrusted => 600
  | _ => 60

/-- A Python slice `text[:n]`. -/
def truncate (n : Nat) (text : String) : String := String.ofList (text.toList.take n)

section Addresses

/-- One octet as `ipaddress` reads it: ASCII digits, no leading zero, at most 255. -/
def isOctet (part : List Char) : Bool :=
  !part.isEmpty && part.all Char.isDigit && part.length ≤ 3 &&
    (part.length == 1 || part.head? != some '0') &&
    part.foldl (fun n c => 10 * n + (c.toNat - '0'.toNat)) 0 ≤ 255

def isIPv4 (text : List Char) : Bool :=
  let parts := text.splitOn '.'
  parts.length == 4 && parts.all isOctet

def isHextet (part : List Char) : Bool :=
  !part.isEmpty && part.length ≤ 4 &&
    part.all (fun c => c.isDigit || ('a' ≤ c && c ≤ 'f') || ('A' ≤ c && c ≤ 'F'))

/-- The scope of an IPv6 address, when there is one, is not empty and holds no second `%`. -/
def scopeOk (text : List Char) : Bool :=
  match text.dropWhile (· != '%') with
  | [] => true
  | _ :: scope => !scope.isEmpty && !scope.contains '%'

/-- The parts of an IPv6 address between its colons, a dotted IPv4 tail counting as two. -/
def hextets (text : List Char) : Option (List (List Char)) :=
  let parts := text.splitOn ':'
  match parts.getLast? with
  | none => none
  | some tail =>
    if tail.contains '.' then
      if isIPv4 tail then some (parts.dropLast ++ [['0'], ['0']]) else none
    else some parts

def isIPv6 (text : List Char) : Bool :=
  !text.contains '/' && scopeOk text &&
    let addr := text.takeWhile (· != '%')
    decide (3 ≤ (addr.splitOn ':').length) &&
    match hextets addr with
    | none => false
    | some parts =>
      let n := parts.length
      let first := parts.head?.getD []
      let tail := parts.getLast?.getD []
      let inner := (parts.drop 1).dropLast
      let gaps := inner.filter List.isEmpty
      decide (n ≤ 9) && decide (gaps.length ≤ 1) &&
      if gaps.length = 1 then
        -- "::" stands for at least one group; an empty end part is only its other half.
        let skip := 1 + inner.findIdx List.isEmpty
        let hi := if first.isEmpty then skip - 1 else skip
        let lo := if tail.isEmpty then n - skip - 2 else n - skip - 1
        (!first.isEmpty || hi == 0) && (!tail.isEmpty || lo == 0) && decide (hi + lo < 8) &&
          (parts.filter (fun p => !p.isEmpty)).all isHextet
      else n == 8 && parts.all isHextet

/-- `ipaddress.ip_address(ip).version`, or nothing when it raises. -/
def ipVersion (ip : Ip) : Option Nat :=
  if isIPv4 ip.toList then some 4 else if isIPv6 ip.toList then some 6 else none

/-- Whether a ban could ever be applied to this address: `tbl_ban` is an IPv4 table. -/
def enforceable (ip : Ip) : Bool := ipVersion ip == some 4

end Addresses

/-- A row of `security_events`. -/
structure SecurityEvent where
  id : Nat := 0
  ts : Int
  ip : Ip
  eventType : EventType
  source : String := ""
  site : String := ""
  category : String := ""
  detail : String := ""
  handled : Bool := false
  deriving DecidableEq, Repr

/-- `detail = f"code={code}"` for a code of the gateway's own. -/
def ownBanDetail (detail : String) : Bool :=
  ownBanCodes.any (fun code => detail == "code=" ++ toString code)

/-- A row of `ip_state`. -/
structure IpState where
  family : Nat
  enforceable : Bool
  firstSeen : Int
  lastSeen : Int
  excluded : Bool := false
  exclusionReason : String := ""
  bannedUntil : Int := 0
  banCode : Int := 0
  authenticatedAt : Int := 0
  deriving DecidableEq, Repr

/-- A row of `manual_bans`. -/
structure ManualBan where
  placedAt : Int
  expiresAt : Int
  seenAt : Int
  reasserted : Bool := false
  deriving DecidableEq, Repr

inductive DecisionAction
  | applied | lifted | restored | observed | ended
  deriving DecidableEq, Repr

inductive DecisionSource
  | adaptive | operator | restart | haproxy | policy | expiry | mode
  deriving DecidableEq, Repr

inductive DecisionOutcome
  | pending | applied | failed | abandoned | observed
  deriving DecidableEq, Repr

/-- A row of `ban_decisions`, without the reason, which nothing reads back to decide. -/
structure Decision where
  id : Nat := 0
  ts : Int
  ip : Ip
  action : DecisionAction
  source : DecisionSource
  outcome : DecisionOutcome
  code : Int := 0
  until_ : Int := 0
  strike : Int := 0
  score : Int := 0
  policy : BanPolicy := .legacy
  deriving DecidableEq, Repr

/-- Who guardd must never act on, and why. -/
structure Verdict where
  excluded : Bool
  reason : String
  source : String := ""
  deriving DecidableEq, Repr

/-- An entry of `tbl_ban`: the flag, the reason code and when it leaves the table
(milliseconds). `standing` numbers the ban: an entry rewritten while it is flagged
keeps it. -/
structure BanEntry where
  gpc0 : Int
  gpt0 : Int
  expires : Int
  standing : Nat := 0
  deriving DecidableEq, Repr

def BanEntry.flagged (e : BanEntry) : Bool := 0 < e.gpc0

end EasyHaProxy.Guardd
