import EasyHaProxy.Lib.Machine
import EasyHaProxy.Metricsd.Storage

/-! Polls, flushes, digest pulls and maintenance over one database, as a machine whose operations come in
any order. Alerts and the log are left out. -/
namespace EasyHaProxy.Metricsd

/-- The monitors that change what is gathered. -/
structure Monitors where
  machine : Bool := true
  components : Bool := true
  disk : Bool := true
  network : Bool := true
  temperature : Bool := true
  percentiles : Bool := true
  refusals : Bool := true
  deriving DecidableEq

/-- What a poll reads of the machine, with `none` for what could not be read. -/
structure HostReading where
  cpu : Option Int := none
  busy : Option Int := none
  memory : Option (Int × Int) := none
  disk : Option (Int × Int) := none
  diskIo : Option (Int × Int) := none
  network : Option (Int × Int) := none
  temperature : Option Int := none

structure ComponentReading where
  name : String
  group : String
  cpu : Option Int
  memory : Option Int

structure MachineReading where
  host : HostReading := {}
  components : List ComponentReading := []

def HostReading.asked (reading : HostReading) (monitors : Monitors) : HostReading where
  cpu := if monitors.machine then reading.cpu else none
  busy := if monitors.machine then reading.busy else none
  memory := if monitors.machine then reading.memory else none
  disk := if monitors.disk then reading.disk else none
  diskIo := if monitors.disk then reading.diskIo else none
  network := if monitors.network then reading.network else none
  temperature := if monitors.temperature then reading.temperature else none

def HostReading.gauges (reading : HostReading) : List (Gauge × Int) :=
  (reading.cpu.map (Gauge.cpu, ·)).toList ++ (reading.busy.map (Gauge.haproxyBusy, ·)).toList ++
    (reading.memory.map fun m => [(Gauge.memory, m.1), (Gauge.memoryTotal, m.2)]).getD [] ++
    (reading.disk.map fun d => [(Gauge.diskUsed, d.1), (Gauge.diskTotal, d.2)]).getD [] ++
    (reading.temperature.map (Gauge.temp, ·)).toList

def HostReading.counters (reading : HostReading) : List (Column × Int) :=
  (reading.diskIo.map fun d => [(Column.diskRead, d.1), (Column.diskWrite, d.2)]).getD [] ++
    (reading.network.map fun n => [(Column.netRx, n.1), (Column.netTx, n.2)]).getD []

/-- A share of the processor is at most a hundred percent, in tenths. -/
def ComponentReading.gauges (reading : ComponentReading) : List (Gauge × Int) :=
  (reading.cpu.map fun cpu => (Gauge.cpu, min 1000 cpu)).toList ++
    (reading.memory.map (Gauge.memory, ·)).toList

/-- One minute of guardd's digest; `ts` is `none` where it is no number. -/
structure DigestMinute where
  ts : Option Int
  backends : List (String × List Int)
  refusedGeo : Int
  refusedBanned : Int
  refusedRate : Int
  refusedOther : Int
  deriving DecidableEq

structure DigestPayload where
  boundsMs : List Int
  minutes : List DigestMinute
  deriving DecidableEq

structure Collector where
  objectIds : Dict ObjectKey Nat := .empty
  baselines : Dict (Nat × Column) (Int × Nat) := .empty
  buckets : Dict Nat Bucket := .empty
  bucketTs : Option Nat := none
  lastStates : Dict Nat String := .empty
  monitors : Monitors := {}

structure MetricsWorld where
  config : MetricsConfig
  db : MetricsDatabase
  storage : StorageGuard
  collector : Collector

def Collector.start (db : MetricsDatabase) (monitors : Monitors) : Collector where
  baselines := db.baselines
  lastStates := db.loadLastStates
  monitors

/-- Turn an absolute counter into a per-interval delta: nothing for the first sample, a
counter that went backwards or a stale baseline. -/
def deltaOf (maxGap : Nat) (previous : Option (Int × Nat)) (current : Int) (now : Nat) : Int :=
  match previous with
  | none => 0
  | some (lastValue, lastTs) =>
    if current < lastValue then 0
    else if now > lastTs + maxGap then 0
    else current - lastValue

/-- The base word of a status: `UP 1/3` is `UP`. -/
def stateWord (status : String) : String :=
  String.ofList ((Text.strip ((Text.strip status.toList).takeWhile (· ≠ ' '))).map Char.toUpper)

namespace MetricsWorld

variable (w : MetricsWorld)

/-- A frontend that has answered so many requests. -/
def requestsRow (requests : Int) : StatRow where
  pxname := "web"
  svname := "FRONTEND"
  status := "OPEN"
  cell column := if column = .reqTot then requests else 0

/-- A world with nothing recorded yet. -/
def initial (config : MetricsConfig) : MetricsWorld := ⟨config, .empty, {}, {}⟩

def withCollector (c : Collector) : MetricsWorld := { w with collector := c }

@[simp] theorem withCollector_config {c : Collector} : (w.withCollector c).config = w.config := rfl

@[simp] theorem withCollector_db {c : Collector} : (w.withCollector c).db = w.db := rfl

@[simp] theorem withCollector_storage {c : Collector} : (w.withCollector c).storage = w.storage := rfl

@[simp] theorem withCollector_collector {c : Collector} : (w.withCollector c).collector = c := rfl

/-- The id of an object, registered when this process sees it first. -/
def objectFor (key : ObjectKey) (now : Nat) : Nat × MetricsWorld :=
  match w.collector.objectIds.get? key with
  | some id => (id, w)
  | none =>
    let registered := w.db.objectId key now
    (registered.1,
      { w with
        db := registered.2
        collector := { w.collector with
          objectIds := w.collector.objectIds.set key registered.1 } })

def bucket (id : Nat) : Bucket := w.collector.buckets.getD id {}

def setBucket (id : Nat) (b : Bucket) : MetricsWorld :=
  w.withCollector { w.collector with buckets := w.collector.buckets.set id b }

/-- `bucket.add_counter(name, self._delta(…))`. -/
def countCounter (id : Nat) (now : Nat) (reading : Column × Int) : MetricsWorld :=
  let key := (id, reading.1)
  let delta := deltaOf w.config.maxGap (w.collector.baselines.get? key) reading.2 now
  (w.withCollector { w.collector with
    baselines := w.collector.baselines.set key (reading.2, now) }).setBucket id
      ((w.bucket id).addCounter reading.1 delta)

def trackState (id : Nat) (status : String) (now : Nat) : MetricsWorld :=
  let state := stateWord status
  if named : state = "" then w
  else
    let previous := w.collector.lastStates.get? id
    if previous = some state then w
    else if w.storage.writesPaused then w
    else
      { w with
        db := w.db.recordStateChange id (previous.getD "") state now named
        collector := { w.collector with lastStates := w.collector.lastStates.set id state } }

/-- The numbers of a row, into the bucket of its object. -/
def sampleRow (id : Nat) (row : StatRow) (now : Nat) : MetricsWorld :=
  let w := w.setBucket id (w.bucket id).sample
  let w := row.counters.foldl (fun w reading => w.countCounter id now reading) w
  gaugeColumns.foldl (fun w g => w.setBucket id ((w.bucket id).addGauge g.1 (row.cell g.2))) w

def observe (key : ObjectKey) (row : StatRow) (now : Nat) : MetricsWorld :=
  let (id, w) := w.objectFor key now
  let w := w.sampleRow id row now
  if key.kind = .server ∨ key.kind = .backend then w.trackState id row.status now else w

/-- The bucket of an object that no `show stat` row reports, with one more sample. -/
def sampleMachine (key : ObjectKey) (now : Nat) (gauges : List (Gauge × Int))
    (counters : List (Column × Int)) : MetricsWorld :=
  let (id, w) := w.objectFor key now
  let b := gauges.foldl (fun b g => b.addGauge g.1 g.2) (w.bucket id).sample
  w.setBucket id (counters.foldl (fun b c => b.addCounter c.1 c.2) b)

def observeHost (reading : MachineReading) (now : Nat) : MetricsWorld :=
  let monitors := w.collector.monitors
  let host := reading.host.asked monitors
  if host.gauges = [] ∧ host.counters = [] then w
  else
    let w := w.sampleMachine ⟨.host, "", ""⟩ now host.gauges host.counters
    if monitors.machine && monitors.components then
      reading.components.foldl
        (fun w c => w.sampleMachine ⟨.component, c.name, c.group⟩ now c.gauges []) w
    else w

/-- The rows of the minute being collected. -/
def pendingRows : List (Nat × MetricRow) :=
  (w.collector.buckets.entries.filter fun b => b.2.samples ≠ 0).map fun b => (b.1, b.2.row)

/-- Write the minute out. A paused guard drops it; the baselines in memory stay correct. -/
def flushLocked (bucketTs : Nat) : MetricsWorld :=
  if w.collector.buckets.entries = [] then w
  else
    let rows := w.pendingRows
    let w := w.withCollector { w.collector with buckets := .empty }
    if rows = [] then w
    else if w.storage.writesPaused then w
    else { w with db := (w.db.writeBuckets bucketTs rows).storeBaselines w.collector.baselines }

def flush (now : Nat) (force : Bool) : MetricsWorld :=
  match w.collector.bucketTs with
  | none => w
  | some bucketTs =>
    if !force && minuteOf now = bucketTs then w
    else
      let w := w.flushLocked bucketTs
      w.withCollector { w.collector with bucketTs := some (minuteOf now) }

/-- The start of a poll: the minute that ended is written, the new one begins. -/
def turnMinute (now : Nat) : MetricsWorld :=
  match w.collector.bucketTs with
  | none => w.withCollector { w.collector with bucketTs := some (minuteOf now) }
  | some bucketTs =>
    if minuteOf now = bucketTs then w
    else
      let w := w.flushLocked bucketTs
      w.withCollector { w.collector with bucketTs := some (minuteOf now) }

def collected (config : MetricsConfig) (row : StatRow) : Option ObjectKey :=
  (classify row).filter fun key => !config.excluded key.proxy

def observeRow (now : Nat) (row : StatRow) : MetricsWorld :=
  match collected w.config row with
  | some key => w.observe key row now
  | none => w

def hostMonitored : Bool :=
  w.collector.monitors.machine || w.collector.monitors.disk || w.collector.monitors.network ||
    w.collector.monitors.temperature

/-- `show stat` without usable rows is an error before anything happened. -/
def poll (now : Nat) (rows : List StatRow) (machine : MachineReading) : MetricsWorld :=
  if rows = [] then w
  else
    let w := rows.foldl (fun w row => w.observeRow now row) (w.turnMinute now)
    if w.hostMonitored then w.observeHost machine now else w

/-- A clean stop, which writes the minute begun, and a new process over the same database. -/
def restart (now : Nat) : MetricsWorld :=
  let w := w.flush now true
  w.withCollector (Collector.start w.db w.collector.monitors)

/-! ## The access log's digests -/

def histogramOf (counts : List Int) : Option Histogram :=
  if h : counts.length = 19 then some fun i => max 0 (counts.get (i.cast h.symm)) else none

/-- The histogram of a backend, unless it is malformed or the backend excluded. -/
def acceptedHistogram (config : MetricsConfig) (entry : String × List Int) : Option Histogram :=
  if config.excluded entry.1 then none else histogramOf entry.2

def digestBackend (now : Nat) (done : Dict Nat Histogram × MetricsWorld) (entry : String × List Int) :
    Dict Nat Histogram × MetricsWorld :=
  match acceptedHistogram done.2.config entry with
  | none => done
  | some histogram =>
    let (id, w) := done.2.objectFor ⟨.backend, String.ofList (entry.1.toList.take 200), ""⟩ now
    (done.1.set id histogram, w)

def refusedRow (minute : DigestMinute) : MetricRow where
  samples := 1
  value
    | .refusedGeo => max 0 minute.refusedGeo
    | .refusedBanned => max 0 minute.refusedBanned
    | .refusedRate => max 0 minute.refusedRate
    | .refusedOther => max 0 minute.refusedOther
    | _ => 0

def storeHistograms (now bucketTs : Nat) (minute : DigestMinute) : MetricsWorld :=
  if w.collector.monitors.percentiles then
    let (rows, w) := minute.backends.foldl (digestBackend now) (.empty, w)
    { w with db := w.db.writeLatency bucketTs rows }
  else w

def storeRefusals (now bucketTs : Nat) (minute : DigestMinute) : MetricsWorld :=
  if w.collector.monitors.refusals then
    let (id, w) := w.objectFor ⟨.edge, "", ""⟩ now
    { w with db := w.db.writeBuckets bucketTs [(id, refusedRow minute)] }
  else w

def storeMinute (now : Nat) (minute : Nat × DigestMinute) : MetricsWorld :=
  (w.storeHistograms now minute.1 minute.2).storeRefusals now minute.1 minute.2

/-- The minutes of an answer that are newer than the cursor. -/
def freshMinutes (since : Nat) (minutes : List DigestMinute) : List (Nat × DigestMinute) :=
  minutes.filterMap fun minute => minute.ts.bind fun ts =>
    if ts ≤ (since : Int) then none else some (ts.toNat, minute)

/-- Are digests asked for, and is there room for them? -/
def pulls : Bool :=
  (w.collector.monitors.percentiles || w.collector.monitors.refusals) && !w.storage.writesPaused

/-- Store the minutes completed since the last ask. A histogram cut elsewhere is skipped. -/
def pullDigests (now : Nat) (payload : DigestPayload) : MetricsWorld :=
  if w.pulls = false then w
  else if payload.boundsMs ≠ digestBoundsMs then w
  else
    let minutes := freshMinutes w.db.digestCursor payload.minutes
    let newest := (minutes.map Prod.fst).foldl max w.db.digestCursor
    let w := minutes.foldl (fun w minute => w.storeMinute now minute) w
    { w with db := { w.db with digestCursor := newest } }

/-! ## Maintenance -/

def enforce (now : Nat) (m : Measurements) : MetricsWorld :=
  let pass := w.config.enforce w.storage w.db now m
  { w with storage := pass.1, db := pass.2.1 }

/-- The housekeeping before the guard measures. -/
def housekeeping (now : Nat) : MetricsDatabase :=
  ((w.db.rollupHours (hourOf now)).rollupLatencyHours (hourOf (now - latencyRollupLagSeconds))).applyRetention
    ((w.config.retentionForLevel w.storage.pressureLevel).cutoffs now)

def runMaintenance (now : Nat) (m : Measurements) : MetricsWorld :=
  { w with db := w.housekeeping now }.enforce now m

/-- The guard of a new process, and the pass it makes before collecting starts. -/
def boot (now : Nat) (m : Measurements) : MetricsWorld := { w with storage := {} }.enforce now m

end MetricsWorld

inductive MetricsOp where
  | poll (now : Nat) (rows : List StatRow) (machine : MachineReading)
  /-- A poll or a pull that got no answer. -/
  | failed
  | flush (now : Nat) (force : Bool)
  | restart (now : Nat)
  | pullDigests (now : Nat) (payload : DigestPayload)
  | runMaintenance (now : Nat) (m : Measurements)
  | enforce (now : Nat) (m : Measurements)
  | boot (now : Nat) (m : Measurements)
  | setMonitors (monitors : Monitors)

namespace MetricsWorld

def step (w : MetricsWorld) : MetricsOp → MetricsWorld
  | .poll now rows machine => w.poll now rows machine
  | .failed => w
  | .flush now force => w.flush now force
  | .restart now => w.restart now
  | .pullDigests now payload => w.pullDigests now payload
  | .runMaintenance now m => w.runMaintenance now m
  | .enforce now m => w.enforce now m
  | .boot now m => w.boot now m
  | .setMonitors monitors => w.withCollector { w.collector with monitors }

end MetricsWorld

end EasyHaProxy.Metricsd
