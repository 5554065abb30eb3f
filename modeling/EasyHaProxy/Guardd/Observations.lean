import Mathlib.Algebra.Ring.Int.Defs
import EasyHaProxy.Lib.Machine
import EasyHaProxy.Guardd.AccessLog
import EasyHaProxy.Guardd.Detection
import EasyHaProxy.Guardd.LineParser

/-! The counts `DetectionContext` keeps of each rule and the windows of slow enumeration, what `persist`
writes of them and what a new context makes of it. -/
namespace EasyHaProxy.Guardd

open Text Python Validate

def detectionMaxTracked : Nat := 256
def detectionMaxStats : Nat := 128
def detectionTtl : Int := 24 * 3600
def slowTtl : Int := 6 * 3600

/-! ## What is kept -/

/-- What became of a match. -/
inductive DetectionAction
  | trusted
  | excepted
  | observe
  | enforce
  deriving DecidableEq

/-- What was seen of a rule; the key of the row is its `id`. -/
structure StatsRow where
  first : Int
  last : Int
  hits : Int := 0
  trusted : Int := 0
  excepted : Int := 0
  observe : Int := 0
  enforce : Int := 0
  ips : List Int := []
  hosts : Dict String Int := Dict.empty
  deriving DecidableEq

/-- What one client asked of one host in half an hour. -/
structure Bucket where
  missing : Int := 0
  total : Int := 0
  good : Int := 0
  paths : List Int := []
  deriving DecidableEq

structure SlowEntry where
  last : Int
  buckets : Dict Int Bucket := Dict.empty
  deriving DecidableEq

structure Observations where
  stats : Dict String StatsRow := Dict.empty
  slow : Dict (String × String) SlowEntry := Dict.empty
  evictions : Nat := 0
  stateErrors : Nat := 0
  lastSaved : Int := 0

/-- `zlib.crc32`, one octet. -/
def crcByte (crc : UInt32) (byte : UInt8) : UInt32 :=
  Nat.iterate (fun c => if c &&& 1 = 1 then (c >>> 1) ^^^ 0xedb88320 else c >>> 1) 8 (crc ^^^ byte.toUInt32)

/-- `_address_key`. -/
def addressKey (text : String) : Int :=
  ((text.toUTF8.toList.foldl crcByte 0xffffffff ^^^ 0xffffffff).toNat : Int)

section Recent

variable {κ ν : Type} [DecidableEq κ]

/-- `d[k] = v`, `move_to_end(k)`, and the oldest taken off until `limit` are left. -/
def putLast (limit : Nat) (d : Dict κ ν) (k : κ) (v : ν) : Dict κ ν :=
  ⟨((d.erase k).entries ++ [(k, v)]).drop ((d.erase k).entries.length + 1 - limit), by
    have hnodup : (((d.erase k).entries ++ [(k, v)]).map Prod.fst).Nodup := by
      rw [List.map_append]
      refine List.Nodup.append (d.erase k).nodup (List.nodup_singleton k) (List.disjoint_singleton.mpr ?_)
      intro hmem
      obtain ⟨e, he, hk⟩ := List.mem_map.mp hmem
      simp [Dict.erase, hk] at he
    exact hnodup.sublist ((List.drop_sublist _ _).map _)⟩

def droppedBy (limit : Nat) (d : Dict κ ν) (k : κ) : Nat := (d.erase k).entries.length + 1 - limit

variable {limit : Nat} {d : Dict κ ν} {k : κ} {v : ν} {e : κ × ν}

theorem mem_putLast (h : e ∈ (putLast limit d k v).entries) : e = (k, v) ∨ e ∈ d.entries := by
  rcases List.mem_append.mp (List.mem_of_mem_drop h) with hold | hnew
  · exact Or.inr (List.mem_filter.mp hold).1
  · exact Or.inl (List.mem_singleton.mp hnew)

theorem length_putLast_le : (putLast limit d k v).entries.length ≤ limit := by
  unfold putLast
  dsimp only
  rw [List.length_drop, List.length_append, List.length_singleton]
  omega

end Recent

/-! ## Noting a match -/

/-- `scope_matches`. -/
def scopeMatches (scope : Scope) (request : ParsedRequest) : Bool :=
  scope.hosts.contains (String.ofList ((lower request.host.toList).rdropWhile (· == '.'))) &&
    (scope.methods.isEmpty || scope.methods.contains request.method) &&
    (scope.statuses.isEmpty || scope.statuses.contains request.status) &&
    match scope.kind with
    | .exact => request.path == scope.value
    | .segment => (request.path.toList.splitOn '/').contains scope.value.toList
    | .leading => request.path == scope.value || (scope.value.toList ++ ['/']).isPrefixOf request.path.toList

/-- `_action`: an exception that is not over, else the mode of the rule. -/
def actionOf (config : DetectionSettings) (rule : String) (request : ParsedRequest) (now : Int)
    (default : RuleMode) : DetectionAction :=
  if config.exceptions.any fun e =>
      e.rule == rule && (e.expires == 0 || now < e.expires) && scopeMatches e.scope request then .excepted
  else
    match (config.modes.lookup rule).getD default with
    | .observe => .observe
    | .enforce => .enforce

def StatsRow.count (row : StatsRow) : DetectionAction → StatsRow
  | .trusted => { row with trusted := row.trusted + 1 }
  | .excepted => { row with excepted := row.excepted + 1 }
  | .observe => { row with observe := row.observe + 1 }
  | .enforce => { row with enforce := row.enforce + 1 }

/-- A set of at most 64 addresses. -/
def addIp (ips : List Int) (ip : Int) : List Int := if ips.length < 64 then ips.insert ip else ips

/-- At most eight hosts, as the requests name them. -/
def addHost (hosts : Dict String Int) (host : String) : Dict String Int :=
  if hosts.contains host ∨ hosts.entries.length < 8 then
    hosts.set (truncate 253 host) (hosts.getD (truncate 253 host) 0 + 1)
  else hosts

/-- A row with one more match. -/
def StatsRow.note (row : StatsRow) (request : ParsedRequest) (now : Int) (action : DetectionAction) : StatsRow :=
  let row := { row with last := now, hits := row.hits + 1 }.count action
  { row with ips := addIp row.ips (addressKey request.clientIp), hosts := addHost row.hosts request.host }

/-- The row a match is noted in; one that began a day ago is begun anew. -/
def Observations.rowFor (o : Observations) (rule : String) (now : Int) : StatsRow :=
  match o.stats.get? rule with
  | some row => if detectionTtl ≤ now - row.first then { first := now, last := now } else row
  | none => { first := now, last := now }

/-- `note`. -/
def Observations.note (o : Observations) (rule : String) (request : ParsedRequest) (now : Int)
    (action : DetectionAction) : Observations :=
  { o with
    stats := putLast detectionMaxStats o.stats rule ((o.rowFor rule now).note request now action)
    evictions := o.evictions + droppedBy detectionMaxStats o.stats rule }

/-! ## Slow enumeration -/

def slowEnumeration : String := "behavior:slow-enumeration"

/-- `is_served`. -/
def isServed (status : Int) : Bool := 200 ≤ status && status < 300

/-- The half hour of a time. -/
def slotOf (now : Int) : Int := now / 1800

def addPath (paths : List Int) (path : Int) : List Int :=
  if paths.length < 32 ∧ path ∉ paths then paths ++ [path] else paths

def Bucket.add (bucket : Bucket) (request : ParsedRequest) : Bucket :=
  let bucket := { bucket with total := bucket.total + 1 }
  if request.status = 404 ∨ request.status = 410 then
    { bucket with missing := bucket.missing + 1, paths := addPath bucket.paths (addressKey request.path) }
  else if isServed request.status then { bucket with good := bucket.good + 1 }
  else bucket

def SlowEntry.add (entry : SlowEntry) (request : ParsedRequest) (now : Int) : SlowEntry :=
  let buckets := entry.buckets.filter fun slot _ => slotOf entry.last - 11 ≤ slot
  { entry with buckets := buckets.set (slotOf now) (((buckets.get? (slotOf now)).getD {}).add request) }

/-- Mostly misses, of many paths, in several windows. -/
def SlowEntry.suspicious (entry : SlowEntry) : Bool :=
  let buckets := entry.buckets.entries.map Prod.snd
  let missing := (buckets.map (·.missing)).sum
  let total := (buckets.map (·.total)).sum
  !(missing < 24 || missing * 10 < total * 9) &&
    !((buckets.flatMap (·.paths)).dedup.length < 24 || (buckets.filter (!·.paths.isEmpty)).length < 3)

section Slow

variable (py : Interpreter) (patterns : Patterns)

/-- What is not looked at: answered by the gateway, without host, a page's own file, the root. -/
def passedOver (request : ParsedRequest) (handled : Bool) : Bool :=
  handled || request.host == "" || isAsset py patterns request.path.toList ||
    request.path == "" || request.path == "/"

/-- The entry of a client and a host, its last request not before the one at `now`. -/
def Observations.entryFor (o : Observations) (key : String × String) (now : Int) : SlowEntry :=
  let entry := (o.slow.get? key).getD { last := now }
  { entry with last := max entry.last now }

/-- `observe_slow`. -/
def Observations.observeSlow (o : Observations) (config : DetectionSettings) (request : ParsedRequest)
    (now : Int) (handled : Bool) : Observations :=
  if passedOver py patterns request handled then o
  else
    let key := (request.clientIp, truncate 253 request.host)
    let entry := o.entryFor key now
    if slotOf now < slotOf entry.last - 11 then { o with slow := o.slow.set key entry }
    else
      let entry := entry.add request now
      let o := { o with
        slow := putLast detectionMaxTracked o.slow key entry
        evictions := o.evictions + droppedBy detectionMaxTracked o.slow key }
      if entry.suspicious then
        o.note slowEnumeration request now (actionOf config slowEnumeration request now .observe)
      else o

end Slow

/-! ## Saving -/

/-- A row of `detection_observations_v1`. -/
structure SavedStats where
  id : String
  first : Int
  last : Int
  hits : Int
  trusted : Int
  excepted : Int
  observe : Int
  enforce : Int
  ips : List Int
  hosts : List (String × Int)

structure SavedBucket where
  slot : Int
  missing : Int
  total : Int
  good : Int
  paths : List Int

/-- A row of `detection_slow_v1`. -/
structure SavedSlow where
  ip : String
  host : String
  last : Int
  buckets : List SavedBucket

structure Saved where
  stats : List SavedStats := []
  slow : List SavedSlow := []

def sorted (l : List Int) : List Int := l.insertionSort (· ≤ ·)

def StatsRow.save (id : String) (row : StatsRow) : SavedStats where
  id := id
  first := row.first
  last := row.last
  hits := row.hits
  trusted := row.trusted
  excepted := row.excepted
  observe := row.observe
  enforce := row.enforce
  ips := sorted row.ips
  hosts := row.hosts.entries

def Bucket.save (slot : Int) (bucket : Bucket) : SavedBucket where
  slot := slot
  missing := bucket.missing
  total := bucket.total
  good := bucket.good
  paths := sorted bucket.paths

def SlowEntry.save (key : String × String) (entry : SlowEntry) : SavedSlow where
  ip := key.1
  host := key.2
  last := entry.last
  buckets := entry.buckets.entries.map fun e => e.2.save e.1

/-- What a save at `now` drops. -/
def Observations.prune (o : Observations) (now : Int) : Observations :=
  { o with
    stats := o.stats.filter fun _ row => now - detectionTtl ≤ row.last
    slow := o.slow.filter fun _ entry => now - slowTtl ≤ entry.last
    lastSaved := now }

def Observations.save (o : Observations) : Saved where
  stats := o.stats.entries.map fun e => e.2.save e.1
  slow := o.slow.entries.map fun e => e.2.save e.1

/-- `persist`; what is written, if anything is. -/
def Observations.persist (o : Observations) (now : Int) (force : Bool) : Observations × Option Saved :=
  if ¬ force ∧ now - o.lastSaved < 60 then (o, none) else (o.prune now, some (o.prune now).save)

/-! ## A new context -/

def isCount (n : Int) : Bool := 0 ≤ n && n ≤ 10 ^ 12

def isWord (n : Int) : Bool := 0 ≤ n && n < 2 ^ 32

/-- A row of a rule that is not known or not of its day is skipped; one that is not sound is an
error. -/
def restoreStats (known : List String) (now : Int) (row : SavedStats) :
    Except String (Option (String × StatsRow)) :=
  if known.contains row.id ∧ (now - detectionTtl ≤ row.last ∧ row.last ≤ now + 60) ∧ row.first ≤ row.last then do
    require (∀ n ∈ [row.hits, row.trusted, row.excepted, row.observe, row.enforce], isCount n = true)
      "invalid counter"
    let hosts ← (row.hosts.take 8).mapM fun e => (detectionHost (.str e.1)).map (·, e.2)
    require ((∀ ip ∈ row.ips.take 64, isWord ip = true) ∧ ∀ e ∈ hosts, 0 ≤ e.2) "invalid aggregate"
    pure (some (row.id,
      { first := row.first, last := row.last, hits := row.hits, trusted := row.trusted
        excepted := row.excepted, observe := row.observe, enforce := row.enforce
        ips := (row.ips.take 64).dedup, hosts := Dict.ofPairs hosts }))
  else pure none

/-- A window of the last six hours; `array("I")` takes no other numbers. -/
def restoreBucket (now : Int) (bucket : SavedBucket) : Except String (Option (Int × Bucket)) :=
  if slotOf now - 11 ≤ bucket.slot ∧ bucket.slot ≤ slotOf now then do
    require ((∀ n ∈ [bucket.missing, bucket.total, bucket.good], isCount n = true) ∧
      bucket.missing + bucket.good ≤ bucket.total) "invalid bucket"
    require (∀ path ∈ bucket.paths.take 32, isWord path = true) "unsigned int is out of range"
    pure (some (bucket.slot, ⟨bucket.missing, bucket.total, bucket.good, bucket.paths.take 32⟩))
  else pure none

def restoreSlow (now : Int) (row : SavedSlow) : Except String (Option ((String × String) × SlowEntry)) := do
  require (ipVersion row.ip).isSome "does not appear to be an IPv4 or IPv6 address"
  let host ← detectionHost (.str row.host)
  let buckets ← (row.buckets.take 12).mapM (restoreBucket now)
  let restored := Dict.ofPairs (buckets.filterMap id)
  if restored.entries ≠ [] ∧ now - slowTtl ≤ row.last ∧ row.last ≤ now + 60 then
    pure (some ((row.ip, host), { last := row.last, buckets := restored }))
  else pure none

def restored? {α β : Type} (x : Except α (Option β)) : Option β := x.toOption.join

def isError {α β : Type} (x : Except α β) : Bool := x.toOption.isNone

/-- The observations of a new `DetectionContext` that knows these rules. -/
def Observations.restore (known : List String) (now : Int) (saved : Saved) : Observations :=
  let stats := (saved.stats.take detectionMaxStats).map (restoreStats known now)
  let slow := (saved.slow.take detectionMaxTracked).map (restoreSlow now)
  { stats := Dict.ofPairs (stats.filterMap restored?)
    slow := Dict.ofPairs (slow.filterMap restored?)
    stateErrors := stats.countP isError + slow.countP isError }

end EasyHaProxy.Guardd
