import EasyHaProxy.Guardd.AccessLog
import EasyHaProxy.Lib.Machine
import EasyHaProxy.Lib.Pieces
import EasyHaProxy.Lib.Python
import EasyHaProxy.Lib.Recency
import Mathlib.Algebra.BigOperators.Group.List.Basic
import Mathlib.Data.Rat.Lemmas

/-! Trusted addresses going over a site's request limit: one episode from the first request over the limit
until the rate has stayed under it for a window. -/
namespace EasyHaProxy.Guardd

open Python

def rateWarning : String := "RATE_WARNING"
def trustedRateMaxPending : Nat := 500
def rateCeilingsRecheck : ℚ := 60

/-- `SiteCeiling`; `read_site_ceilings` leaves out what has no limit or no window. `Net` are the networks of
`ipaddress`. -/
structure SiteCeiling (Net : Type) where
  id : String
  names : List String
  limit : Int
  window : Int
  /-- The networks a site open only to named addresses lets in; none for an ordinary site. -/
  allow : Option (List Net)
  enforced : Bool
  limit_pos : 0 < limit
  window_pos : 0 < window
  deriving DecidableEq

/-- The record of an episode. -/
structure Episode where
  kind : String := rateWarning
  ip : Ip
  site : String
  trust : String
  limit : Int
  window : Int
  enforced : Bool
  started : Int
  ended : Int
  lastOver : Int
  peak : Int
  overLimit : Nat := 0
  requests : Nat := 0
  rateLimited : Nat := 0
  banned : Nat := 0
  rateBan : Bool := false

/-- An address and a site. -/
abbrev RateKey := Ip × String

def Episode.key (e : Episode) : RateKey := (e.ip, e.site)

/-- What the gateway did with a request under the rules in force today. -/
def Episode.note (e : Episode) (request : ParsedRequest) (ts : Int) : Episode :=
  let e := { e with requests := e.requests + 1, ended := max e.ended ts }
  let e := match request.refusal with
    | some .rateLimited => { e with rateLimited := e.rateLimited + 1 }
    | some .banned => { e with banned := e.banned + 1 }
    | _ => e
  if "RATE_LIMIT_SITE".toList.isPrefixOf request.banReason.toList then { e with rateBan := true } else e

/-- `_TrustedCounter` -/
structure TrustedCounter where
  start : Int
  curr : Int := 0
  prev : Int := 0
  episode : Option Episode := none

/-- `_TrustedCounter.add`: the rate, by HAProxy's arithmetic. -/
def TrustedCounter.add (c : TrustedCounter) (ts period : Int) : TrustedCounter × Int :=
  -- A line logged late counts in the current period, not in the past.
  let ts := max ts c.start
  let passed := (ts - c.start) / period
  let c :=
    if 2 ≤ passed then { c with prev := 0, curr := 0, start := c.start + passed * period }
    else if passed = 1 then { c with prev := c.curr, curr := 0, start := c.start + period }
    else c
  let c := { c with curr := c.curr + 1 }
  (c, c.curr + c.prev * (period - (ts - c.start)) / period)

/-! ## Host names -/

section Hosts

variable (py : Interpreter)

/-- `re.sub(r":\d+$", "", text)` -/
def dropPort (text : List Char) : List Char :=
  let digits := text.rtakeWhile fun c => (py.digit c).isSome
  let front := text.rdropWhile fun c => (py.digit c).isSome
  if digits ≠ [] ∧ front.getLast? = some ':' then front.dropLast else text

/-- `^\d+(\.\d+){3}$` -/
def isDotted (text : List Char) : Bool :=
  let parts := (Text.dropNewline text).splitOnP (· == '.')
  parts.length = 4 && parts.all fun part => part ≠ [] && part.all fun c => (py.digit c).isSome

def isLabelChar (c : Char) : Bool := 'a' ≤ c && c ≤ 'z' || '0' ≤ c && c ≤ '9'

/-- `[a-z0-9](?:[a-z0-9-]{0,61}[a-z0-9])?` -/
def isHostLabel (label : List Char) : Bool :=
  label.length ≤ 63 && label.all (fun c => isLabelChar c || c == '-') && label.head?.any isLabelChar &&
    label.getLast?.any isLabelChar

/-- `_HOSTNAME_RE`; its `$` lets a newline stand at the end. -/
def isHostname (text : List Char) : Bool :=
  let name := Text.dropNewline text
  let labels := name.splitOnP (· == '.')
  1 ≤ name.length && name.length ≤ 253 && 2 ≤ labels.length && labels.all isHostLabel

/-- `normalize_host`: lower case, without a port; "" for an address or anything odd. -/
def normalizeHost (host : String) : String :=
  let text := py.lower (Text.strip host.toList)
  if text.head? = some '[' then ""
  else
    let text := dropPort py text
    if text = [] ∨ isDotted py text then "" else if isHostname text then String.ofList text else ""

end Hosts

/-- The generated configuration when it is looked at: its stat, and what `read_site_ceilings` makes of it. -/
structure CeilingFile (Net : Type) where
  signature : Option (Int × Int)
  sites : Dict String (SiteCeiling Net)

/-- `TrustedRates` -/
structure TrustedRates (Net : Type) where
  maxKeys : Nat
  sites : Dict String (SiteCeiling Net) := Dict.empty
  hosts : Dict String String := Dict.empty
  anyAllowList : Bool := false
  signature : Option (Int × Int) := none
  checked : ℚ := 0
  /-- The least recently used first. -/
  counters : Dict RateKey TrustedCounter := Dict.empty
  finished : List Episode := []
  clock : Int := 0
  opened : Nat := 0
  evicted : Nat := 0
  dropped : Nat := 0
  maxKeys_pos : 0 < maxKeys

namespace TrustedRates

variable {Net : Type}

/-- `TrustedRates(config_path, max_keys)` -/
def create (maxKeys : Int) : TrustedRates Net where
  maxKeys := (max 1 maxKeys).toNat
  maxKeys_pos := by omega

/-- `_finish`: beyond what may wait, episodes are counted only. -/
def finish (s : TrustedRates Net) (episode : Episode) : TrustedRates Net :=
  if trustedRateMaxPending ≤ s.finished.length then { s with dropped := s.dropped + 1 }
  else { s with finished := s.finished ++ [episode] }

/-- `_finish` of a counter's episode, if it has one. -/
def finishOf (s : TrustedRates Net) (counter : TrustedCounter) : TrustedRates Net :=
  match counter.episode with
  | none => s
  | some episode => s.finish episode

/-- A counter is given up, and its episode ends. -/
def giveUp (s : TrustedRates Net) (key : RateKey) : TrustedRates Net :=
  match s.counters.get? key with
  | none => s
  | some counter => { s with counters := s.counters.erase key }.finishOf counter

/-- The episode of a counter ends, and the counter stays. -/
def close (s : TrustedRates Net) (key : RateKey) : TrustedRates Net :=
  match s.counters.get? key with
  | none => s
  | some counter =>
    { s with counters := s.counters.set key { counter with episode := none } }.finishOf counter

/-! ## The ceilings -/

def hostsOf (sites : Dict String (SiteCeiling Net)) : Dict String String :=
  (sites.entries.flatMap fun e => e.2.names.map fun name => (name, e.2.id)).foldl
    (fun hosts e => if hosts.contains e.1 then hosts else hosts.set e.1 e.2) Dict.empty

section Ops

variable [DecidableEq Net]

/-- `reload` -/
def reload (force : Bool) (file : CeilingFile Net) (s : TrustedRates Net) : TrustedRates Net :=
  if force = false ∧ file.signature = s.signature then s
  else
    let sites := if file.signature.isSome then file.sites else Dict.empty
    -- An episode is measured against one limit. When the limit changes or the site goes, it ends.
    let gone := s.counters.keys.filter fun key => s.sites.get? key.2 ≠ sites.get? key.2
    { gone.foldl giveUp s with
      sites := sites
      hosts := hostsOf sites
      anyAllowList := sites.entries.any fun e => e.2.allow.isSome
      signature := file.signature }

/-- `_maybe_reload`, at a moment of the monotonic clock. -/
def maybeReload (moment : ℚ) (file : CeilingFile Net) (s : TrustedRates Net) : TrustedRates Net :=
  if s.checked = 0 ∨ rateCeilingsRecheck ≤ moment - s.checked then
    reload false file { s with checked := moment }
  else s

/-! ## Observing -/

/-- Over the limit, the least recently used counter goes, and its episode ends. -/
def makeRoom (s : TrustedRates Net) : TrustedRates Net :=
  if s.maxKeys < s.counters.entries.length then
    match s.counters.popOldest with
    | none => s
    | some ((_, oldest), rest) => { s with counters := rest, evicted := s.evicted + 1 }.finishOf oldest
  else s

def touch (s : TrustedRates Net) (key : RateKey) (ts : Int) : TrustedRates Net × TrustedCounter :=
  match s.counters.get? key with
  | some counter => ({ s with counters := s.counters.moveToEnd key }, counter)
  | none => ({ s with counters := s.counters.set key { start := ts } }.makeRoom, { start := ts })

/-- The episode a request over the limit begins. -/
def openEpisode (site : SiteCeiling Net) (request : ParsedRequest) (trust : String) (ts rate : Int) : Episode where
  ip := request.clientIp
  site := site.id
  trust := trust
  limit := site.limit
  window := site.window
  enforced := site.enforced
  started := ts
  ended := ts
  lastOver := ts
  peak := rate

def episodeAfter (site : SiteCeiling Net) (request : ParsedRequest) (trust : String) (ts rate : Int)
    (episode : Option Episode) : Option Episode :=
  let episode :=
    if site.limit < rate then
      let e := episode.getD (openEpisode site request trust ts rate)
      some { e with lastOver := ts, overLimit := e.overLimit + 1, peak := max e.peak rate }
    else episode
  episode.map (·.note request ts)

/-- The part of `observe` after the counter is found. -/
def record (s : TrustedRates Net) (counter : TrustedCounter) (site : SiteCeiling Net) (request : ParsedRequest)
    (trust : String) (ts : Int) : TrustedRates Net :=
  let (after, rate) := counter.add ts site.window
  let episode := episodeAfter site request trust ts rate counter.episode
  { s with
    counters := s.counters.modify (request.clientIp, site.id) fun _ => { after with episode := episode }
    opened := s.opened + if counter.episode.isNone ∧ episode.isSome then 1 else 0 }

def count (s : TrustedRates Net) (site : SiteCeiling Net) (request : ParsedRequest) (trust : String) (ts : Int) :
    TrustedRates Net :=
  let (s, counter) := touch { s with clock := max s.clock ts } (request.clientIp, site.id) ts
  s.record counter site request trust ts

/-- `int(...)` of a float. -/
def intOf (q : ℚ) : Int := q.num.tdiv q.den

/-- `int(stamp or request.ts or now or self.clock)` -/
def timeOf (s : TrustedRates Net) (request : ParsedRequest) (now : Int) (stamp : Option ℚ) : Int :=
  if stamp.getD 0 ≠ 0 then intOf (stamp.getD 0)
  else if request.ts ≠ 0 then request.ts
  else if now ≠ 0 then now
  else s.clock

variable (py : Interpreter) (inNetwork : Ip → Net → Bool)

def trustOn (site : SiteCeiling Net) (request : ParsedRequest) (trust : String) : Option String :=
  if trust ≠ "" then some trust
  else match site.allow with
    | none => none
    | some allow => if allow.any (inNetwork request.clientIp) then some "site-allow-list" else none

/-- Count a request, if a trusted address made it to a limited site. -/
def consider (request : ParsedRequest) (trust : String) (now : Int) (stamp : Option ℚ) (s : TrustedRates Net) :
    TrustedRates Net :=
  -- Nearly every request: a stranger, and no site that trusts by address.
  if trust = "" ∧ s.anyAllowList = false then s
  else
    let host := normalizeHost py request.host
    if host = "" then s
    else match s.sites.get? ((s.hosts.get? host).getD "") with
      | none => s
      | some site =>
        match trustOn inNetwork site request trust with
        | none => s
        | some trust => count s site request trust (timeOf s request now stamp)

/-- `observe`, with the ceilings looked at before the first request. -/
def observe (request : ParsedRequest) (trust : String) (now : Int) (stamp : Option ℚ) (moment : ℚ)
    (file : CeilingFile Net) (s : TrustedRates Net) : TrustedRates Net :=
  consider py inNetwork request trust now stamp (if s.checked = 0 then maybeReload moment file s else s)

/-- One round of the loop of `tick`. -/
def tickKey (reference : Int) (s : TrustedRates Net) (key : RateKey) : TrustedRates Net :=
  match s.counters.get? key with
  | none => s
  | some counter =>
    let window := ((s.sites.get? key.2).map (·.window)).getD 0
    let ended := counter.episode.any fun e => window < reference - e.lastOver
    let s := if ended then s.close key else s
    if (ended ∨ counter.episode.isNone) ∧ 2 * window < reference - counter.start then
      { s with counters := s.counters.erase key }
    else s

/-- `tick` -/
def tick (now : Int) (idle : Bool) (moment : ℚ) (file : CeilingFile Net) (s : TrustedRates Net) :
    TrustedRates Net :=
  let s := maybeReload moment file s
  let reference := if idle then max s.clock now else s.clock
  s.counters.keys.foldl (tickKey reference) s

/-- `finish_all` -/
def finishAll (s : TrustedRates Net) : TrustedRates Net := s.counters.keys.foldl close s

/-- `take_finished` -/
def takeFinished (s : TrustedRates Net) : TrustedRates Net × List Episode := ({ s with finished := [] }, s.finished)

end Ops

def openEpisodes (s : TrustedRates Net) : List Episode := s.counters.entries.filterMap (·.2.episode)

end TrustedRates

end EasyHaProxy.Guardd
