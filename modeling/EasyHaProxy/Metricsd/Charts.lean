import EasyHaProxy.Lib.Slots
import EasyHaProxy.Metricsd.Hours

/-! Which table and step a window is drawn from, which rows a chart reads, and how many slots these fall
into. -/
namespace EasyHaProxy.Metricsd

open Slots

def maxChartPoints : Nat := 1500
def maxRangeSeconds : Nat := 365 * daySeconds

/-! ## Windows -/

def ranges : List (String × Nat) :=
  [("1h", 3600), ("6h", 6 * 3600), ("24h", 86400), ("7d", 7 * 86400), ("30d", 30 * 86400),
   ("90d", 90 * 86400), ("1y", 365 * 86400)]

def defaultRange : String := "24h"

def resolveRange (value : String) : String × Nat :=
  let key := String.ofList (Text.lower (Text.strip value.toList))
  match ranges.lookup key with
  | some seconds => (key, min seconds maxRangeSeconds)
  | none => (defaultRange, min 86400 maxRangeSeconds)

/-- The parameters of a request: what `int` makes of the two times, and the name of a preset. -/
structure WindowQuery where
  since : Option Int
  till : Option Int
  range : String

structure Window where
  range : String
  since : Int
  till : Int
  deriving DecidableEq

/-- `number(name)`: nothing below one is a time. -/
def positive (value : Option Int) : Option Int := value.filter (0 < ·)

def resolveWindow (now : Nat) (query : WindowQuery) : Window :=
  let preset :=
    let resolved := resolveRange query.range
    ⟨resolved.1, (now : Int) - resolved.2, now⟩
  match positive query.since, positive query.till with
  | some since, some till =>
    if since < till then ⟨"custom", till - min (till - since) maxRangeSeconds, till⟩ else preset
  | _, _ => preset

/-- The two tables of a kind of row. -/
inductive Source where
  | minutes
  | hours
  deriving DecidableEq

/-- The hours of a step, both divisions rounded up. -/
def stepHours (rangeSeconds : Nat) : Nat := max 1 (ceilDiv (ceilDiv rangeSeconds hourSeconds) maxChartPoints)

def chooseResolution (rangeSeconds : Nat) : Source × Nat :=
  if rangeSeconds ≤ 86400 then (.minutes, bucketSeconds)
  else (.hours, hourSeconds * stepHours rangeSeconds)

/-- `choose_resolution(max(1, until - since))`. -/
def Window.resolution (window : Window) : Source × Nat :=
  chooseResolution (max 1 (window.till - window.since)).toNat

def Window.holds (window : Window) (t : Nat) : Bool := window.since ≤ t && (t : Int) < window.till

/-- `GROUP BY slot ORDER BY slot` over the timestamps of rows. -/
def Window.slots (window : Window) (times : List Nat) : List Nat :=
  Slots.slots window.resolution.2 (times.filter window.holds)

/-! ## Rows -/

inductive Chart where
  | requests | traffic | responses | latency | connections | cpu | memory | disk | diskio | network
  | temperature | percentiles | refusals
  deriving DecidableEq

/-- Charts about the machine rather than about a proxy object. -/
def Chart.ofHost : Chart → Bool
  | .cpu | .memory | .disk | .diskio | .network | .temperature => true
  | _ => false

def Chart.selects (chart : Chart) (site : String) (key : ObjectKey) : Bool :=
  match chart with
  | .latency | .percentiles => key.kind = .backend && (site = "" || key.proxy = site)
  | .refusals => key.kind = .edge
  | _ =>
    if chart.ofHost then key.kind = .host
    else if site = "" then key.kind = .frontend
    else key.kind = .backend && key.proxy = site

structure Stored (ν : Type) where
  ts : Nat
  object : ObjectRow
  row : ν

namespace MetricsDatabase

/-- `FROM table m JOIN objects o ON o.id = m.object_id`. -/
def joined {ν : Type} (db : MetricsDatabase) (table : BucketTable ν) : List (Stored ν) :=
  table.entries.filterMap fun e => (db.objects.rows.find? fun o => o.id = e.1.2).map fun o => ⟨e.1.1, o, e.2⟩

def metricTable (db : MetricsDatabase) : Source → BucketTable MetricRow
  | .minutes => db.metric1m
  | .hours => db.metric1h

def latencyTable (db : MetricsDatabase) : Source → BucketTable Histogram
  | .minutes => db.latency1m
  | .hours => db.latency1h

/-- The timestamps of the rows a chart reads. -/
def chartTimes (db : MetricsDatabase) (chart : Chart) (site : String) (source : Source) : List Nat :=
  match chart with
  | .percentiles => ((db.joined (db.latencyTable source)).filter fun r => chart.selects site r.object.key).map Stored.ts
  | _ => ((db.joined (db.metricTable source)).filter fun r => chart.selects site r.object.key).map Stored.ts

/-- The slots of a chart before they are cut. -/
def chartSlots (db : MetricsDatabase) (chart : Chart) (site : String) (window : Window) : List Nat :=
  window.slots (db.chartTimes chart site window.resolution.1)

/-- `points[:MAX_CHART_POINTS]`. -/
def chartPoints (db : MetricsDatabase) (chart : Chart) (site : String) (window : Window) : List Nat :=
  (db.chartSlots chart site window).take maxChartPoints

end MetricsDatabase

/-! ## How many slots a window has -/

/-- What the timestamps of a table are: hours are whole hours. -/
def Source.Keeps (source : Source) (times : List Nat) : Prop :=
  source = .hours → ∀ t ∈ times, hourSeconds ∣ t

/-- The whole hours of the window, with those that come before the first one in its step. -/
def Window.Fits (window : Window) : Prop :=
  window.resolution.1 = .minutes ∨
    let k := stepHours (max 1 (window.till - window.since)).toNat
    let first := ceilDiv window.since.toNat hourSeconds
    first % k + (ceilDiv window.till.toNat hourSeconds - first) ≤ maxChartPoints * k

namespace Window

variable {window : Window} {times : List Nat}

theorem holds_iff {t : Nat} : window.holds t = true ↔ window.since.toNat ≤ t ∧ t < window.till.toNat := by
  unfold holds
  rw [Bool.and_eq_true, decide_eq_true_eq, decide_eq_true_eq]
  omega

/-- A day of minutes always fits, whatever its seconds. -/
theorem length_slots_minutes (h : window.resolution.1 = .minutes) :
    (window.slots times).length ≤ maxChartPoints := by
  have hrange : (max 1 (window.till - window.since)).toNat ≤ 86400 := by
    unfold resolution chooseResolution at h
    split at h
    · assumption
    · cases h
  have hstep : window.resolution.2 = 60 := by
    unfold resolution chooseResolution
    rw [if_pos hrange]
    rfl
  unfold slots
  rw [hstep]
  refine length_slots_le (a := window.since.toNat / 60) fun t ht => ?_
  obtain ⟨hlow, hhigh⟩ := holds_iff.mp (List.mem_filter.mp ht).2
  unfold maxChartPoints
  omega

theorem stepHours_pos (rangeSeconds : Nat) : 0 < stepHours rangeSeconds :=
  lt_of_lt_of_le Nat.zero_lt_one (le_max_left _ _)

/-- The slots of a window fit, whatever is stored, exactly when its hours do. -/
theorem fits_iff : (∀ times, window.resolution.1.Keeps times →
    (window.slots times).length ≤ maxChartPoints) ↔ window.Fits := by
  by_cases hm : window.resolution.1 = .minutes
  · exact iff_of_true (fun times _ => length_slots_minutes hm) (Or.inl hm)
  have hlong : ¬ (max 1 (window.till - window.since)).toNat ≤ 86400 := by
    intro h
    apply hm
    unfold resolution chooseResolution
    rw [if_pos h]
  have hres : window.resolution =
      (.hours, hourSeconds * stepHours (max 1 (window.till - window.since)).toNat) := by
    unfold resolution chooseResolution
    rw [if_neg hlong]
  have hcount := aligned_slots_iff window.since.toNat window.till.toNat
    (by decide : 0 < hourSeconds) (stepHours_pos (max 1 (window.till - window.since)).toNat)
    (by decide : 0 < maxChartPoints)
  have hfits : window.Fits ↔ ceilDiv window.since.toNat hourSeconds %
      stepHours (max 1 (window.till - window.since)).toNat + (ceilDiv window.till.toNat hourSeconds -
        ceilDiv window.since.toNat hourSeconds) ≤
      maxChartPoints * stepHours (max 1 (window.till - window.since)).toNat :=
    or_iff_right hm
  rw [hfits, ← hcount]
  unfold slots
  rw [hres]
  constructor
  · intro h times htimes
    have hall : times.filter window.holds = times :=
      List.filter_eq_self.mpr fun t ht => holds_iff.mpr (htimes t ht).2
    have := h times fun _ t ht => (htimes t ht).1
    rwa [hall] at this
  · intro h times hkeeps
    refine h _ fun t ht => ?_
    obtain ⟨hmem, hin⟩ := List.mem_filter.mp ht
    exact ⟨hkeeps rfl t hmem, holds_iff.mp hin⟩

end Window

/-! ## What is stored -/

/-- The hourly tables hold whole hours. -/
structure HoursAligned (db : MetricsDatabase) : Prop where
  metrics : ∀ key ∈ db.metric1h.keys, hourSeconds ∣ key.1
  latency : ∀ key ∈ db.latency1h.keys, hourSeconds ∣ key.1

section Aligned

variable {ν : Type} {db : MetricsDatabase} {table : BucketTable ν} {summary : List ν → ν}
  {rows : List ((Nat × Nat) × ν)} {p : Nat × Nat → ν → Bool} {now : Nat}

theorem dvd_replaceGroups (h : ∀ key ∈ table.keys, hourSeconds ∣ key.1) :
    ∀ key ∈ (Table.replaceGroups (Rollup.slotKey hourSeconds) summary rows table).keys,
      hourSeconds ∣ key.1 := by
  intro key hkey
  rw [Dict.mem_keys, Table.get?_replaceGroups] at hkey
  split at hkey
  · exact h key (Dict.mem_keys.mpr hkey)
  · rename_i hgroup
    rw [Table.groupRows_eq_nil, not_not] at hgroup
    obtain ⟨r, -, rfl⟩ := List.mem_map.mp hgroup
    exact Nat.dvd_of_mod_eq_zero Rollup.slotOf_mod

theorem dvd_filter (h : ∀ key ∈ table.keys, hourSeconds ∣ key.1) :
    ∀ key ∈ (table.filter p).keys, hourSeconds ∣ key.1 := by
  intro key hkey
  rw [Dict.mem_keys, Dict.get?_filter] at hkey
  refine h key (Dict.mem_keys.mpr ?_)
  cases hget : table.get? key with
  | none => simp [hget] at hkey
  | some v => rfl

theorem HoursAligned.rollupHours (h : HoursAligned db) : HoursAligned (db.rollupHours now) := by
  unfold MetricsDatabase.rollupHours
  split
  · exact h
  · exact ⟨dvd_replaceGroups h.metrics, h.latency⟩

theorem HoursAligned.rollupLatencyHours (h : HoursAligned db) : HoursAligned (db.rollupLatencyHours now) := by
  unfold MetricsDatabase.rollupLatencyHours
  split
  · exact h
  · exact ⟨h.metrics, dvd_replaceGroups h.latency⟩

theorem HoursAligned.applyRetention {cutoffs : MetricsDatabase.Cutoffs} (h : HoursAligned db) :
    HoursAligned (db.applyRetention cutoffs) :=
  ⟨dvd_filter h.metrics, dvd_filter h.latency⟩

theorem HoursAligned.climb {config : MetricsConfig} {levels : List Nat} (h : HoursAligned db) :
    HoursAligned (config.climb now db levels) := by
  induction levels generalizing db with
  | nil => exact h
  | cons level levels ih => exact ih h.rollupHours.applyRetention

theorem HoursAligned.enforce {config : MetricsConfig} {guard : StorageGuard} {m : Measurements}
    (h : HoursAligned db) : HoursAligned (config.enforce guard db now m).2.1 := by
  rw [MetricsConfig.enforce_db]
  exact h.climb

theorem HoursAligned.apply {x : Write} (h : HoursAligned db) : HoursAligned (db.apply x) := by
  cases x <;> exact ⟨h.metrics, h.latency⟩

end Aligned

namespace MetricsWorld

variable {w : MetricsWorld} {op : MetricsOp}

theorem hoursAligned_collects (hop : Collecting op) (h : HoursAligned w.db) : HoursAligned (w.step op).db :=
  (step_collects (w := w) hop).wrote.keeps h fun _ _ hdb _ => hdb.apply

theorem hoursAligned_step (h : HoursAligned w.db) : HoursAligned (w.step op).db := by
  cases op with
  | poll now rows machine => exact hoursAligned_collects trivial h
  | failed => exact h
  | flush now force => exact hoursAligned_collects trivial h
  | restart now => exact hoursAligned_collects trivial h
  | pullDigests now payload => exact hoursAligned_collects trivial h
  | runMaintenance now m => exact h.rollupHours.rollupLatencyHours.applyRetention.enforce
  | enforce now m => exact h.enforce
  | boot now m => exact h.enforce
  | setMonitors monitors => exact h

theorem hoursAligned_run (h : HoursAligned w.db) (ops : List MetricsOp) :
    HoursAligned (Machine.run step w ops).db := by
  induction ops generalizing w with
  | nil => exact h
  | cons op ops ih => exact ih (hoursAligned_step h)

end MetricsWorld

namespace MetricsDatabase

variable {ν : Type} {db : MetricsDatabase} {table : BucketTable ν}

theorem mem_keys_of_joined {r : Stored ν} (h : r ∈ db.joined table) : (r.ts, r.object.id) ∈ table.keys := by
  obtain ⟨e, he, hr⟩ := List.mem_filterMap.mp h
  obtain ⟨o, ho, rfl⟩ := Option.map_eq_some_iff.mp hr
  have hid : o.id = e.1.2 := by simpa using List.find?_some ho
  rw [hid]
  exact List.mem_map_of_mem he

theorem chartTimes_keeps (h : HoursAligned db) (chart : Chart) (site : String) (source : Source) :
    source.Keeps (db.chartTimes chart site source) := by
  rintro rfl t ht
  have hmetrics : ∀ r ∈ db.joined db.metric1h, hourSeconds ∣ r.ts := fun r hr =>
    h.metrics _ (mem_keys_of_joined hr)
  have hlatency : ∀ r ∈ db.joined db.latency1h, hourSeconds ∣ r.ts := fun r hr =>
    h.latency _ (mem_keys_of_joined hr)
  cases chart with
  | percentiles =>
    obtain ⟨r, hr, rfl⟩ := List.mem_map.mp ht
    exact hlatency r (List.mem_filter.mp hr).1
  | _ =>
    obtain ⟨r, hr, rfl⟩ := List.mem_map.mp ht
    exact hmetrics r (List.mem_filter.mp hr).1

end MetricsDatabase

/-- A window draws all its points, whatever is stored, exactly when its hours fit into the steps;
of such a window no chart is cut in any run. -/
theorem chart_cut_iff (now : Nat) (query : WindowQuery) :
    ((∀ times, (resolveWindow now query).resolution.1.Keeps times →
        ((resolveWindow now query).slots times).length ≤ maxChartPoints) ↔
      (resolveWindow now query).Fits) ∧
    ((resolveWindow now query).Fits → ∀ (config : MetricsConfig) (ops : List MetricsOp) (chart : Chart)
      (site : String), let db := (Machine.run MetricsWorld.step (.initial config) ops).db
        db.chartPoints chart site (resolveWindow now query) = db.chartSlots chart site (resolveWindow now query)) := by
  refine ⟨Window.fits_iff, fun hfits config ops chart site => ?_⟩
  have haligned : HoursAligned (Machine.run MetricsWorld.step (.initial config) ops).db :=
    MetricsWorld.hoursAligned_run ⟨by rintro _ ⟨⟩, by rintro _ ⟨⟩⟩ ops
  exact List.take_of_length_le
    (Window.fits_iff.mpr hfits _ (MetricsDatabase.chartTimes_keeps haligned chart site _))

def threeHours : List MetricsOp :=
  [.poll 46790 [MetricsWorld.requestsRow 10] {}, .poll 46805 [MetricsWorld.requestsRow 14] {},
    .poll 54010 [MetricsWorld.requestsRow 20] {}, .poll 54030 [MetricsWorld.requestsRow 25] {},
    .flush 54100 true, .runMaintenance 57700 MetricsWorld.roomy]

/-- 2500 hours, in steps of two. -/
def evenHours : WindowQuery := ⟨some 7200, some 9007200, ""⟩

theorem chart_cut_iff_even_hours :
    let db := (Machine.run MetricsWorld.step (.initial {}) threeHours).db
    db.chartSlots .requests "" (resolveWindow 9007200 evenHours) = [43200, 50400] ∧
      db.chartPoints .requests "" (resolveWindow 9007200 evenHours) =
        db.chartSlots .requests "" (resolveWindow 9007200 evenHours) :=
  ⟨by decide +kernel,
    (chart_cut_iff 9007200 evenHours).2 (Or.inr (by decide +kernel)) {} threeHours .requests ""⟩

def oddHours : WindowQuery := ⟨some 3600, some 10803600, ""⟩

/-- They straddle 1501 steps of two hours. -/
theorem odd_hours_cut : ¬ ∀ (now : Nat) (query : WindowQuery) (times : List Nat),
    (resolveWindow now query).resolution.1.Keeps times →
      ((resolveWindow now query).slots times).length ≤ maxChartPoints := by
  intro h
  have hfits := Window.fits_iff.mp (h 0 oddHours)
  have hwindow : resolveWindow 0 oddHours = ⟨"custom", 3600, 10803600⟩ := by decide
  rw [hwindow] at hfits
  obtain hm | hk := hfits
  · exact absurd hm (by decide)
  · exact absurd hk (by decide)

end EasyHaProxy.Metricsd
