import EasyHaProxy.Lib.Dict
import EasyHaProxy.Lib.Text
import Mathlib.Algebra.Group.Nat.Defs
import Mathlib.Algebra.Ring.Int.Defs

/-! Rows of `show stat`, the minute bucket of one object and the metric row it becomes. Cells are read as
`_to_int` reads them, so a row carries numbers. -/
namespace EasyHaProxy.Metricsd

def bucketSeconds : Nat := 60
def hourSeconds : Nat := 3600
def daySeconds : Nat := 86400

/-- How stale a baseline may be and still be credited as a delta. -/
def baselineMaxGapSeconds : Nat := 2 * bucketSeconds

/-- The latency rollup waits this long past an hour. -/
def latencyRollupLagSeconds : Nat := 600

def minuteOf (now : Nat) : Nat := now - now % bucketSeconds
def hourOf (now : Nat) : Nat := now - now % hourSeconds

inductive Kind where
  | frontend | backend | server | host | component | edge
  deriving DecidableEq

structure ObjectKey where
  kind : Kind
  proxy : String
  server : String
  deriving DecidableEq

/-- The persisted columns of a bucket beside `samples`, in table order. -/
inductive Column where
  | requests | sessions | bytesIn | bytesOut | resp2xx | resp3xx | resp4xx | resp5xx | respOther
  | checkFailures | connCurAvg | connCurMax | queueAvg | queueMax | queueMsAvg | connectMsAvg
  | responseMsAvg | responseMsMax | totalMsAvg | cpuAvg | cpuMax | haproxyBusyAvg | haproxyBusyMax
  | memoryAvg | memoryMax | memoryTotal | diskUsedAvg | diskTotal | diskRead | diskWrite | netRx
  | netTx | tempAvg | tempMax | refusedGeo | refusedBanned | refusedRate | refusedOther
  deriving DecidableEq

inductive Aggregation where
  | sum | max | wavg
  deriving DecidableEq

/-- How a column aggregates across buckets. -/
def aggregation : Column → Aggregation
  | .requests | .sessions | .bytesIn | .bytesOut | .resp2xx | .resp3xx | .resp4xx | .resp5xx
  | .respOther | .checkFailures | .diskRead | .diskWrite | .netRx | .netTx | .refusedGeo
  | .refusedBanned | .refusedRate | .refusedOther => .sum
  | .connCurMax | .queueMax | .responseMsMax | .cpuMax | .haproxyBusyMax | .memoryMax
  | .memoryTotal | .diskTotal | .tempMax => .max
  | .connCurAvg | .queueAvg | .queueMsAvg | .connectMsAvg | .responseMsAvg | .totalMsAvg | .cpuAvg
  | .haproxyBusyAvg | .memoryAvg | .diskUsedAvg | .tempAvg => .wavg

structure MetricRow where
  samples : Int
  value : Column → Int

/-- The `show stat` columns the collector reads. -/
inductive StatColumn where
  | reqTot | stot | bin | bout | hrsp1xx | hrsp2xx | hrsp3xx | hrsp4xx | hrsp5xx | hrspOther
  | chkfail | scur | qcur | qtime | ctime | rtime | ttime
  deriving DecidableEq

structure StatRow where
  pxname : String
  svname : String
  status : String
  cell : StatColumn → Int

inductive Gauge where
  | connCur | queue | queueMs | connectMs | responseMs | totalMs
  | cpu | haproxyBusy | memory | memoryTotal | diskUsed | diskTotal | temp
  deriving DecidableEq

def counterColumns : List (Column × StatColumn) :=
  [(.requests, .reqTot), (.sessions, .stot), (.bytesIn, .bin), (.bytesOut, .bout),
   (.resp2xx, .hrsp2xx), (.resp3xx, .hrsp3xx), (.resp4xx, .hrsp4xx), (.resp5xx, .hrsp5xx),
   (.checkFailures, .chkfail)]

/-- Folded together into one column. -/
def otherResponseColumns : List StatColumn := [.hrsp1xx, .hrspOther]

def gaugeColumns : List (Gauge × StatColumn) :=
  [(.connCur, .scur), (.queue, .qcur), (.queueMs, .qtime), (.connectMs, .ctime),
   (.responseMs, .rtime), (.totalMs, .ttime)]

/-- The counters of a row in the order `_observe` takes them. -/
def StatRow.counters (row : StatRow) : List (Column × Int) :=
  counterColumns.map (fun c => (c.1, row.cell c.2)) ++
    [(.respOther, (otherResponseColumns.map row.cell).sum)]

def stripped (text : String) : String := String.ofList (Text.strip text.toList)

/-- Which object a row is about, or `none` to skip it. -/
def classify (row : StatRow) : Option ObjectKey :=
  let proxy := stripped row.pxname
  let svname := stripped row.svname
  if proxy = "" ∨ svname = "" then none
  else if svname = "FRONTEND" then some ⟨.frontend, proxy, ""⟩
  else if svname = "BACKEND" then some ⟨.backend, proxy, ""⟩
  else some ⟨.server, proxy, svname⟩

/-- The settings the collector and the storage guard read; `load_config` clamps the
retentions to at least one. -/
structure MetricsConfig where
  pollIntervalSeconds : Nat := 10
  retentionOneMinuteDays : Nat := 7
  retentionOneMinuteServerHours : Nat := 24
  retentionOneHourDays : Nat := 365
  excludeExact : List String :=
    ["be_admin", "be_stats", "be_http_challenge", "be_tls_terminator", "be_maintenance"]
  excludePrefix : List String := ["tbl_"]
  /-- `none` means derived from the filesystem the database sits on. -/
  maxDatabaseBytes : Option Nat := none
  reservedFreeBytes : Option Nat := none
  autoReduceRetention : Bool := true
  walSoftLimitBytes : Nat := 64 * 1024 ^ 2
  minuteDays_pos : 1 ≤ retentionOneMinuteDays := by decide
  minuteServerHours_pos : 1 ≤ retentionOneMinuteServerHours := by decide
  hourDays_pos : 1 ≤ retentionOneHourDays := by decide

def MetricsConfig.excluded (config : MetricsConfig) (proxy : String) : Bool :=
  proxy = "" || proxy ∈ config.excludeExact ||
    config.excludePrefix.any (fun start => start.toList.isPrefixOf proxy.toList)

/-- Counters older than this are not measured against. -/
def MetricsConfig.maxGap (config : MetricsConfig) : Nat :=
  max baselineMaxGapSeconds (3 * config.pollIntervalSeconds)

/-- One object's accumulated samples for the minute being collected. -/
structure Bucket where
  counters : Dict Column Int := .empty
  gaugeSums : Dict Gauge Int := .empty
  gaugeMaxima : Dict Gauge Int := .empty
  samples : Nat := 0

namespace Bucket

variable {b : Bucket} {c : Column}

def addCounter (b : Bucket) (name : Column) (delta : Int) : Bucket :=
  if delta = 0 then b
  else { b with counters := b.counters.set name (b.counters.getD name 0 + delta) }

def addGauge (b : Bucket) (name : Gauge) (value : Int) : Bucket :=
  let b := { b with gaugeSums := b.gaugeSums.set name (b.gaugeSums.getD name 0 + value) }
  match b.gaugeMaxima.get? name with
  | some current =>
    if value > current then { b with gaugeMaxima := b.gaugeMaxima.set name value } else b
  | none => { b with gaugeMaxima := b.gaugeMaxima.set name value }

def sample (b : Bucket) : Bucket := { b with samples := b.samples + 1 }

def count (b : Bucket) (c : Column) : Int := b.counters.getD c 0

def average (b : Bucket) (name : Gauge) : Int :=
  b.gaugeSums.getD name 0 / (max 1 b.samples : Nat)

def maximum (b : Bucket) (name : Gauge) : Int := b.gaugeMaxima.getD name 0

def row (b : Bucket) : MetricRow where
  samples := b.samples
  value
    | .connCurAvg => b.average .connCur
    | .connCurMax => b.maximum .connCur
    | .queueAvg => b.average .queue
    | .queueMax => b.maximum .queue
    | .queueMsAvg => b.average .queueMs
    | .connectMsAvg => b.average .connectMs
    | .responseMsAvg => b.average .responseMs
    | .responseMsMax => b.maximum .responseMs
    | .totalMsAvg => b.average .totalMs
    | .cpuAvg => b.average .cpu
    | .cpuMax => b.maximum .cpu
    | .haproxyBusyAvg => b.average .haproxyBusy
    | .haproxyBusyMax => b.maximum .haproxyBusy
    | .memoryAvg => b.average .memory
    | .memoryMax => b.maximum .memory
    | .memoryTotal => b.maximum .memoryTotal
    | .diskUsedAvg => b.average .diskUsed
    | .diskTotal => b.maximum .diskTotal
    | .tempAvg => b.average .temp
    | .tempMax => b.maximum .temp
    | counter => b.count counter

/-- The summed columns are the bucket's counters. -/
theorem row_counter (h : aggregation c = .sum) : b.row.value c = b.count c := by
  cases c <;> first | rfl | simp [aggregation] at h

@[simp] theorem row_samples : b.row.samples = b.samples := rfl

@[simp] theorem count_sample : b.sample.count c = b.count c := rfl

@[simp] theorem samples_sample : b.sample.samples = b.samples + 1 := rfl

@[simp] theorem count_addGauge {name : Gauge} {value : Int} :
    (b.addGauge name value).count c = b.count c := by
  simp only [addGauge]
  split
  · split <;> rfl
  · rfl

@[simp] theorem samples_addGauge {name : Gauge} {value : Int} :
    (b.addGauge name value).samples = b.samples := by
  simp only [addGauge]
  split
  · split <;> rfl
  · rfl

@[simp] theorem count_addCounter {name : Column} {delta : Int} :
    (b.addCounter name delta).count c = b.count c + if c = name then delta else 0 := by
  unfold addCounter
  split
  · simp_all
  · by_cases hc : c = name <;> simp [count, Dict.getD, hc]

@[simp] theorem samples_addCounter {name : Column} {delta : Int} :
    (b.addCounter name delta).samples = b.samples := by
  unfold addCounter
  split <;> rfl

end Bucket

end EasyHaProxy.Metricsd
