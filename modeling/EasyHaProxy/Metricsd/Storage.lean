import EasyHaProxy.Lib.Double
import EasyHaProxy.Metricsd.Database

/-! Limits on what monitoring may occupy, and the pass that cleans up and decides whether to keep writing. A
pass measures the files several times: the measurements are its input. -/
namespace EasyHaProxy.Metricsd

def gib : Nat := 1024 ^ 3
def mib : Nat := 1024 ^ 2

/-! The fractions of the source, as the doubles Python reads them as. -/

/-- 0.10 -/
def tenth : Double := ⟨3602879701896397, 55⟩
/-- 0.05 -/
def twentieth : Double := ⟨3602879701896397, 56⟩
/-- 0.80 -/
def warningDatabaseFraction : Double := ⟨3602879701896397, 52⟩
/-- 0.90 -/
def pressureDatabaseFraction : Double := ⟨8106479329266893, 53⟩
/-- 0.95 -/
def resumeDatabaseFraction : Double := ⟨4278419646001971, 52⟩
/-- 1.25 -/
def pressureReserveFactor : Double := ⟨5, 2⟩

def autoMaxDatabaseBytes : Nat := 5 * gib
def autoReserveFloorBytes : Nat := 2 * gib
def autoReserveCeilingBytes : Nat := 10 * gib
def resumeReserveMarginFloor : Nat := 512 * mib

def autoMaxDatabase (filesystemTotal : Nat) : Nat :=
  min autoMaxDatabaseBytes (Double.scaled filesystemTotal tenth).toInt

def autoReserve (filesystemTotal : Nat) : Nat :=
  max autoReserveFloorBytes (min (Double.scaled filesystemTotal tenth).toInt autoReserveCeilingBytes)

/-- The sizes of the database files and of the filesystem they are on. -/
structure Storage where
  databaseBytes : Nat
  walBytes : Nat
  shmBytes : Nat
  filesystemTotal : Nat
  filesystemFree : Nat
  deriving DecidableEq

/-- Everything monitoring owns. -/
def Storage.totalBytes (s : Storage) : Nat := s.databaseBytes + s.walBytes + s.shmBytes

inductive StorageState where
  | normal | warning | pressure | critical
  deriving DecidableEq

structure StorageStatus where
  state : StorageState
  reason : String
  storage : Storage
  maxDatabaseBytes : Nat
  reservedFreeBytes : Nat
  deriving DecidableEq

namespace MetricsConfig

variable (config : MetricsConfig)

/-- The size limit and the free-space reserve in bytes, `auto` from the filesystem. -/
def resolveLimits (filesystemTotal : Nat) : Nat × Nat :=
  (config.maxDatabaseBytes.getD (autoMaxDatabase filesystemTotal),
   config.reservedFreeBytes.getD (autoReserve filesystemTotal))

/-- Which state a measurement is, and why. -/
def classifyStorage (total free maximum reserve : Nat) : StorageState × String :=
  if maximum > 0 ∧ total ≥ maximum then (.critical, "database reached its size limit")
  else if reserve > 0 ∧ free ≤ reserve then (.critical, "filesystem hit the free-space reserve")
  else if maximum > 0 ∧ (Double.scaled maximum pressureDatabaseFraction).leNat total then
    (.pressure, "database near its size limit")
  else if reserve > 0 ∧ (Double.scaled reserve pressureReserveFactor).gtNat free then
    (.pressure, "filesystem near the free-space reserve")
  else if maximum > 0 ∧ (Double.scaled maximum warningDatabaseFraction).leNat total then
    (.warning, "database above 80% of its size limit")
  else if reserve > 0 ∧ free < reserve * 2 then
    (.warning, "filesystem free space below twice the reserve")
  else (.normal, "within limits")

def measure (s : Storage) : StorageStatus :=
  let limits := config.resolveLimits s.filesystemTotal
  let verdict := classifyStorage s.totalBytes s.filesystemFree limits.1 limits.2
  ⟨verdict.1, verdict.2, s, limits.1, limits.2⟩

end MetricsConfig

/-- How long each kind of row is kept. -/
structure Retention where
  minuteDays : Nat
  minuteServerHours : Nat
  hourDays : Nat
  deriving DecidableEq

/-- Retention floors applied as disk pressure escalates; level 0 is what was configured. -/
def retentionLadder : List Retention := [⟨3, 6, 180⟩, ⟨1, 2, 90⟩, ⟨1, 1, 30⟩]

def Retention.cutoffs (r : Retention) (now : Nat) : MetricsDatabase.Cutoffs where
  minute := now - r.minuteDays * 86400
  minuteServer := now - r.minuteServerHours * 3600
  hour := now - r.hourDays * 86400

/-- Configured retention, trimmed by the ladder at higher levels. -/
def MetricsConfig.retentionForLevel (config : MetricsConfig) (level : Nat) : Retention :=
  let configured : Retention := ⟨config.retentionOneMinuteDays, config.retentionOneMinuteServerHours,
    config.retentionOneHourDays⟩
  match min level retentionLadder.length with
  | 0 => configured
  | rung + 1 =>
    let floors := retentionLadder.getD rung configured
    ⟨min configured.minuteDays floors.minuteDays, min configured.minuteServerHours floors.minuteServerHours,
      min configured.hourDays floors.hourDays⟩

inductive StorageAction where
  | walCheckpoint
  | trimLevel (level : Nat)
  | paused
  | resumed
  deriving DecidableEq

/-- Extra free space required on top of the reserve before resuming. -/
def resumeMargin (status : StorageStatus) : Nat :=
  let floor :=
    if status.storage.filesystemTotal > 0 then
      min resumeReserveMarginFloor (Double.scaled status.storage.filesystemTotal twentieth).toInt
    else resumeReserveMarginFloor
  max floor (Double.scaled status.reservedFreeBytes tenth).toInt

def mayResume (status : StorageStatus) : Bool :=
  let margin := resumeMargin status
  let spaceRecovered := status.reservedFreeBytes = 0 ∨
    status.storage.filesystemFree > status.reservedFreeBytes + margin
  let budgetRecovered := status.maxDatabaseBytes = 0 ∨
    (Double.scaled status.maxDatabaseBytes resumeDatabaseFraction).gtNat status.storage.totalBytes
  spaceRecovered && budgetRecovered

structure StorageGuard where
  state : StorageState := .normal
  writesPaused : Bool := false
  pressureLevel : Nat := 0
  lastPauseTs : Option Nat := none
  lastResumeTs : Option Nat := none
  deriving DecidableEq

/-- What one pass measures: at first, after a checkpoint and after each level of the ladder. -/
structure Measurements where
  first : Storage
  checkpointed : Storage
  trimmed : Nat → Storage

/-- The same sizes at every measurement of a pass. -/
def Measurements.steady (s : Storage) : Measurements := ⟨s, s, fun _ => s⟩

namespace MetricsConfig

variable (config : MetricsConfig) {db : MetricsDatabase} {now : Nat}

def trim (db : MetricsDatabase) (now level : Nat) : MetricsDatabase :=
  db.applyRetention ((config.retentionForLevel level).cutoffs now)

/-- The measurement a pass starts cleaning up from, after the write-ahead log. -/
def manageWal (m : Measurements) : StorageStatus × List StorageAction :=
  let status := config.measure m.first
  if status.storage.walBytes < config.walSoftLimitBytes then (status, [])
  else (config.measure m.checkpointed, [.walCheckpoint])

def relieved (state : StorageState) : Bool := state = .normal || state = .warning

/-- The rungs of the ladder a pass goes through: up to the first that relieves it. -/
def rungs (trimmed : Nat → Storage) : List Nat → List Nat
  | [] => []
  | level :: levels =>
    if relieved (config.measure (trimmed level)).state then [level]
    else level :: rungs trimmed levels

/-- Roll up, trim, one rung at a time. -/
def climb (now : Nat) (db : MetricsDatabase) (levels : List Nat) : MetricsDatabase :=
  levels.foldl (fun db level => config.trim (db.rollupHours (hourOf now)) now level) db

def trimLevels (m : Measurements) : List Nat :=
  if relieved (config.manageWal m).1.state || !config.autoReduceRetention then []
  else config.rungs m.trimmed [1, 2, 3]

/-- The measurement a pass decides on. -/
def finalStatus (m : Measurements) : StorageStatus :=
  match (config.trimLevels m).getLast? with
  | some level => config.measure (m.trimmed level)
  | none => (config.manageWal m).1

/-- Measure, clean up as far as needed, and decide whether to keep writing. -/
def enforce (guard : StorageGuard) (db : MetricsDatabase) (now : Nat) (m : Measurements) :
    StorageGuard × MetricsDatabase × StorageStatus × List StorageAction :=
  let managed := config.manageWal m
  let levels := config.trimLevels m
  let db := config.climb now db levels
  let status := config.finalStatus m
  let actions := managed.2 ++ levels.map .trimLevel
  let pressureLevel :=
    if levels ≠ [] then min retentionLadder.length (max guard.pressureLevel 1)
    else if managed.1.state = .normal then 0
    else guard.pressureLevel
  let guard := { guard with state := status.state, pressureLevel }
  if status.state = .critical then
    if guard.writesPaused then (guard, db, status, actions)
    else ({ guard with writesPaused := true, lastPauseTs := some now }, db, status, actions ++ [.paused])
  else if guard.writesPaused && mayResume status then
    ({ guard with writesPaused := false, lastResumeTs := some now }, db, status, actions ++ [.resumed])
  else (guard, db, status, actions)

end MetricsConfig

end EasyHaProxy.Metricsd
