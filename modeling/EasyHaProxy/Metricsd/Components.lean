import Mathlib.Data.List.DropRight
import EasyHaProxy.Lib.Tally
import EasyHaProxy.Metricsd.Charts

/-! The processor and memory charts with what their components add up to: from a line for each component,
and in short from sums that SQLite makes. -/
namespace EasyHaProxy.Metricsd

open EasyHaProxy.Tally

/-! ## Names -/

def isLowerHex (c : Char) : Bool := '0' ≤ c && c ≤ '9' || 'a' ≤ c && c ≤ 'f'
def isAsciiDigit (c : Char) : Bool := '0' ≤ c && c ≤ '9'

/-- `-job-` -/
def jobMark : List Char := ['-', 'j', 'o', 'b', '-']
/-- `easy-ha-proxy-web-reboot` -/
def webReboot : List Char :=
  ['e', 'a', 's', 'y', '-', 'h', 'a', '-', 'p', 'r', 'o', 'x', 'y', '-', 'w', 'e', 'b', '-', 'r', 'e',
    'b', 'o', 'o', 't']
/-- `easy-ha-proxy-reboot` -/
def reboot : List Char :=
  ['e', 'a', 's', 'y', '-', 'h', 'a', '-', 'p', 'r', 'o', 'x', 'y', '-', 'r', 'e', 'b', 'o', 'o', 't']

/-- `^(?P<service>.+)-job-[0-9a-f]{6,32}$`: a `-` is no digit, so the digits are all there are at the end. -/
def jobService (l : List Char) : Option (List Char) :=
  let digits := l.rtakeWhile isLowerHex
  if 6 ≤ digits.length ∧ digits.length ≤ 32 then
    ((l.rdropWhile isLowerHex).reverse.dropPrefix? jobMark.reverse).bind fun rest =>
      if rest = [] ∨ '\n' ∈ rest then none else some rest.reverse
  else none

/-- `^(?P<service>easy-ha-proxy-web-reboot)-[0-9a-f]{12}$`. -/
def webRebootService (l : List Char) : Option (List Char) :=
  (l.dropPrefix? (webReboot ++ ['-'])).bind fun digits =>
    if digits.length = 12 ∧ digits.all isLowerHex then some webReboot else none

/-- `^(?P<service>easy-ha-proxy-reboot)-[0-9]{14}-[0-9]+-[0-9a-f]{8}$`. -/
def rebootService (l : List Char) : Option (List Char) :=
  (l.dropPrefix? (reboot ++ ['-'])).bind fun rest =>
    match rest.splitOn '-' with
    | [time, serial, digits] =>
      if time.length = 14 ∧ time.all isAsciiDigit ∧ serial ≠ [] ∧ serial.all isAsciiDigit ∧
          digits.length = 8 ∧ digits.all isLowerHex then some reboot
      else none
    | _ => none

/-- The service a unit's work is counted under; a `$` also stands before a last line end. -/
def componentName (name : String) : String :=
  let l := if name.toList.getLast? = some '\n' then name.toList.dropLast else name.toList
  match (jobService l).or ((webRebootService l).or (rebootService l)) with
  | some service => String.ofList service
  | none => name

/-! ## Charts -/

/-- The keys of `COMPONENT_COLUMNS`. -/
inductive MachineChart where
  | cpu
  | memory
  deriving DecidableEq

namespace MachineChart

def chart : MachineChart → Chart
  | .cpu => .cpu
  | .memory => .memory

/-- `CHART_SERIES`. -/
def columns : MachineChart → List Column
  | .cpu => [.cpuAvg, .cpuMax, .haproxyBusyAvg]
  | .memory => [.memoryAvg, .memoryMax, .memoryTotal]

/-- `COMPONENT_COLUMNS`. -/
def average : MachineChart → Column
  | .cpu => .cpuAvg
  | .memory => .memoryAvg

def peak : MachineChart → Column
  | .cpu => .cpuMax
  | .memory => .memoryMax

end MachineChart

/-- A value as the read API returns it: a share in tenths of a percent is one with one decimal. -/
inductive ChartValue where
  | percent (tenths : Int)
  | bytes (n : Int)
  deriving DecidableEq

def memoryUnit : Int := 1024

/-- `_from_storage`, and `convert`, which is the same without a branch per value. -/
def MachineChart.fromStorage : MachineChart → Int → ChartValue
  | .cpu, value => .percent value
  | .memory, value => .bytes (value * memoryUnit)

def componentContainer : String := "container"
def componentService : String := "service"

structure ComponentLine where
  name : String
  group : String
  values : List ChartValue
  mean : Int
  meanShown : ChartValue
  peak : ChartValue
  deriving DecidableEq

/-- What the components add to the lines of a chart. -/
structure ComponentGroups where
  helpers : List ChartValue
  containers : List ChartValue
  other : List ChartValue
  deriving DecidableEq

structure Series where
  chart : Chart
  resolutionSeconds : Nat
  source : Source
  points : List Nat
  values : List (Column × List ChartValue)
  groups : ComponentGroups
  components : Option (List ComponentLine)
  deriving DecidableEq

/-- The order in which SQLite answers a query that asks for none. -/
structure ScanOrder where
  order : {α : Type} → List α → List α
  perm : ∀ {α : Type} (l : List α), (order l).Perm l

/-- As the rows are stored, and the other way. -/
def ScanOrder.stored : ScanOrder := ⟨id, List.Perm.refl⟩

def ScanOrder.reversed : ScanOrder := ⟨List.reverse, List.reverse_perm⟩

/-! ## The queries -/

structure ComponentRow where
  slot : Nat
  proxy : String
  group : String
  value : Int
  highest : Int

structure GroupRow where
  slot : Nat
  containers : Int
  helpers : Int
  claimed : Int

/-- Seconds between two stored rows. -/
def Source.step : Source → Nat
  | .minutes => bucketSeconds
  | .hours => hourSeconds

/-- `CASE WHEN m.samples > 0 THEN COALESCE(m.average, 0) ELSE 0 END`. -/
def storedValue (chart : MachineChart) (row : MetricRow) : Int :=
  if 0 < row.samples then row.value chart.average else 0

namespace MetricsDatabase

variable (db : MetricsDatabase) (o : ScanOrder) (chart : MachineChart) (window : Window)

def storedOf (kind : Kind) : List (Stored MetricRow) :=
  (db.joined (db.metricTable window.resolution.1)).filter fun r => r.object.key.kind = kind && window.holds r.ts

/-- The machine's own slots, each with its rows aggregated, in the order of time. -/
def hostRows : List (Nat × MetricRow) :=
  let stored := db.storedOf window .host
  (window.slots (stored.map Stored.ts)).map fun s =>
    (s, rollupRow ((stored.filter fun r => Slots.slot window.resolution.2 r.ts = s).map Stored.row))

/-- The rows of `_add_components`; the id of an object stands for its row. -/
def componentRows : List ComponentRow :=
  let stored := db.storedOf window .component
  if window.resolution.2 = window.resolution.1.step then
    (o.order stored).map fun r =>
      ⟨r.ts, r.object.key.proxy, r.object.key.server, storedValue chart r.row, r.row.value chart.peak⟩
  else
    let groupOf (r : Stored MetricRow) := (Slots.slot window.resolution.2 r.ts, r.object)
    (o.order (stored.map groupOf).dedup).map fun g =>
      let row := rollupRow ((stored.filter fun r => groupOf r = g).map Stored.row)
      ⟨g.1, g.2.key.proxy, g.2.key.server, row.value chart.average, row.value chart.peak⟩

def haproxyIds : List Int :=
  let ids := (db.objects.rows.filter fun r =>
    r.key.kind = .component && componentName r.key.proxy = "haproxy").map fun r => (r.id : Int)
  if ids = [] then [-1] else ids

/-- The rows of `_add_component_groups`. -/
def groupRows : List GroupRow :=
  let stored := db.storedOf window .component
  let value (r : Stored MetricRow) := storedValue chart r.row
  o.order ((stored.map Stored.ts).dedup.map fun ts =>
    let rows := stored.filter fun r => r.ts = ts
    ⟨ts, sumOf rows (fun r => r.object.key.server = componentContainer) value,
      sumOf rows (fun r => r.object.key.server = componentService && ((r.object.id : Int) ∉ db.haproxyIds)) value,
      sumOf rows (fun _ => true) value⟩)

end MetricsDatabase

/-! ## A line for each component -/

/-- An entry of `found`: what is under a group and a name. -/
structure Found where
  raw : List Int
  highest : Int

structure Totals where
  helpers : List Int
  containers : List Int
  claimed : List Int

def Totals.zero (size : Nat) : Totals :=
  ⟨List.replicate size 0, List.replicate size 0, List.replicate size 0⟩

def ComponentRow.key (r : ComponentRow) : String × String := (r.group, componentName r.proxy)

/-- One round of the loop over the rows. -/
def noteComponent (points : List Nat) (found : Dict (String × String) Found) (r : ComponentRow) :
    Dict (String × String) Found :=
  match points.idxOf? r.slot with
  | none => found
  | some index =>
    let entry := found.getD r.key ⟨List.replicate points.length 0, 0⟩
    found.set r.key ⟨entry.raw.modify index (· + r.value), max entry.highest r.highest⟩

def isContainer (key : String × String) : Bool := key.1 = componentContainer

def isHelper (key : String × String) : Bool := key.1 = componentService && key.2 ≠ "haproxy"

/-- One round of the loop over `found`. -/
def addFound (totals : Totals) (e : (String × String) × Found) : Totals where
  claimed := addLine totals.claimed e.2.raw
  containers := if isContainer e.1 then addLine totals.containers e.2.raw else totals.containers
  helpers := if !isContainer e.1 && isHelper e.1 then addLine totals.helpers e.2.raw else totals.helpers

def componentLine (chart : MachineChart) (size : Nat) (e : (String × String) × Found) : ComponentLine where
  name := e.1.2
  group := e.1.1
  values := e.2.raw.map chart.fromStorage
  mean := e.2.raw.sum / (max 1 size : Nat)
  meanShown := chart.fromStorage (e.2.raw.sum / (max 1 size : Nat))
  peak := chart.fromStorage (max e.2.highest (e.2.raw.max?.getD 0))

/-- `(-item["mean"], item["name"])`. -/
def lineBefore (a b : ComponentLine) : Prop := b.mean < a.mean ∨ b.mean = a.mean ∧ a.name ≤ b.name

instance : DecidableRel lineBefore := fun _ _ => inferInstanceAs (Decidable (_ ∨ _))

/-- The group totals as the chart draws them; the host and its parts are sampled a moment apart,
so what is left over is never negative. -/
def Totals.groups (chart : MachineChart) (totals : Totals) (host : List Int) : ComponentGroups where
  helpers := totals.helpers.map chart.fromStorage
  containers := totals.containers.map chart.fromStorage
  other := List.zipWith (fun h claimed => chart.fromStorage (max 0 (h - claimed))) host totals.claimed

def foundOf (points : List Nat) (rows : List ComponentRow) : Dict (String × String) Found :=
  rows.foldl (noteComponent points) .empty

/-- The totals of `_add_components`. -/
def lineTotals (points : List Nat) (rows : List ComponentRow) : Totals :=
  (foundOf points rows).entries.foldl addFound (.zero points.length)

def componentLines (chart : MachineChart) (points : List Nat) (rows : List ComponentRow) : List ComponentLine :=
  ((foundOf points rows).entries.map (componentLine chart points.length)).insertionSort lineBefore

/-! ## A sum for each slot -/

/-- One round of the loop over the grouped rows. -/
def noteGroup (points : List Nat) (totals : Totals) (r : GroupRow) : Totals where
  containers := setCell points totals.containers r.slot r.containers
  helpers := setCell points totals.helpers r.slot r.helpers
  claimed := setCell points totals.claimed r.slot r.claimed

/-- The totals of `_add_component_groups`. -/
def groupTotals (points : List Nat) (rows : List GroupRow) : Totals :=
  rows.foldl (noteGroup points) (.zero points.length)

/-! ## The answer -/

namespace MetricsDatabase

variable (db : MetricsDatabase) (o : ScanOrder) (chart : MachineChart) (window : Window)

/-- `points[:MAX_CHART_POINTS]` of the machine's slots. -/
def hostPoints : List Nat := ((db.hostRows window).map Prod.fst).take maxChartPoints

def payload (totals : Totals) (components : Option (List ComponentLine)) : Series where
  chart := chart.chart
  resolutionSeconds := window.resolution.2
  source := window.resolution.1
  points := db.hostPoints window
  values := chart.columns.map fun column =>
    (column, ((db.hostRows window).map fun r => chart.fromStorage (r.2.value column)).take maxChartPoints)
  groups := totals.groups chart ((db.hostRows window).map fun r => r.2.value chart.average)
  components

/-- `_add_components`. -/
def addComponents : Series :=
  let rows := db.componentRows o chart window
  db.payload chart window (lineTotals (db.hostPoints window) rows)
    (some (componentLines chart (db.hostPoints window) rows))

/-- `_add_component_groups`: by the full path where a slot is several stored rows. -/
def addComponentGroups : Series :=
  if window.resolution.2 ≠ window.resolution.1.step then { db.addComponents o chart window with components := none }
  else db.payload chart window (groupTotals (db.hostPoints window) (db.groupRows o chart window)) none

/-- `series`, for the charts with components. -/
def series (components : Bool) : Series :=
  if components then db.addComponents o chart window else db.addComponentGroups o chart window

end MetricsDatabase

/-! ## Lines add up to sums -/

section Lines

variable {points : List Nat} {found : Dict (String × String) Found} {rows : List ComponentRow}
  {r : ComponentRow} {kind : String × String → Bool} {i : Nat}

/-- Every line has a value for each point. -/
def Sized (size : Nat) (found : Dict (String × String) Found) : Prop :=
  ∀ e ∈ found.entries, e.2.raw.length = size

/-- What an entry adds at a point to the total of a kind. -/
def cellOf (kind : String × String → Bool) (i : Nat) (key : String × String) (entry : Found) : Int :=
  if kind key then entry.raw.getD i 0 else 0

theorem length_getD (h : Sized points.length found) (key : String × String) :
    (found.getD key ⟨List.replicate points.length 0, 0⟩).raw.length = points.length := by
  unfold Dict.getD
  cases hg : found.get? key with
  | none => simp
  | some entry => exact h (key, entry) (Dict.mem_entries.mpr hg)

theorem sized_noteComponent (h : Sized points.length found) :
    Sized points.length (noteComponent points found r) := by
  unfold noteComponent
  split
  · exact h
  · rintro ⟨key, entry⟩ he
    obtain ⟨-, rfl⟩ | ⟨-, he⟩ := Dict.mem_entries_set.mp he
    · rw [List.length_modify]
      exact length_getD h r.key
    · exact h _ he

theorem total_noteComponent (hn : points.Nodup) (h : Sized points.length found) (hi : i < points.length) :
    Table.total (cellOf kind i) (noteComponent points found r) = Table.total (cellOf kind i) found +
      if points[i]? = some r.slot && kind r.key then r.value else 0 := by
  unfold noteComponent
  cases hx : points.idxOf? r.slot with
  | none =>
    have hout : points[i]? ≠ some r.slot := by
      intro hs
      have := (idxOf?_iff hn).mpr hs
      rw [hx] at this
      cases this
    simp [hout]
  | some j =>
    have hpos : points[i]? = some r.slot ↔ j = i := by
      rw [← idxOf?_iff hn, hx, Option.some_inj]
    have hset := Table.total_set (f := cellOf kind i) (d := found) (k := r.key)
      (v := ⟨(found.getD r.key ⟨List.replicate points.length 0, 0⟩).raw.modify j (· + r.value),
        max (found.getD r.key ⟨List.replicate points.length 0, 0⟩).highest r.highest⟩)
    have hlength := length_getD h r.key
    have hshare : Table.share (cellOf kind i) found r.key =
        cellOf kind i r.key (found.getD r.key ⟨List.replicate points.length 0, 0⟩) := by
      unfold Table.share Dict.getD
      cases found.get? r.key with
      | none => simp [cellOf, List.getD_eq_getElem?_getD, hi]
      | some entry => rfl
    rw [hshare] at hset
    simp only
    generalize found.getD r.key ⟨List.replicate points.length 0, 0⟩ = entry at hset hlength ⊢
    have hcell : (entry.raw.modify j (· + r.value)).getD i 0 =
        entry.raw.getD i 0 + if j = i then r.value else 0 := by
      have hin : i < entry.raw.length := by omega
      rw [List.getD_eq_getElem?_getD, List.getD_eq_getElem?_getD, List.getElem?_modify,
        List.getElem?_eq_getElem hin]
      split <;> simp
    have hnew : cellOf kind i r.key ⟨entry.raw.modify j (· + r.value), max entry.highest r.highest⟩ =
        cellOf kind i r.key entry + if points[i]? = some r.slot && kind r.key then r.value else 0 := by
      unfold cellOf
      by_cases hk : kind r.key = true
      · rw [if_pos hk, if_pos hk, hcell]
        simp [hk, hpos]
      · rw [if_neg hk, if_neg hk]
        simp [hk]
    omega

theorem sized_foldl (h : Sized points.length found) :
    Sized points.length (rows.foldl (noteComponent points) found) := by
  induction rows generalizing found with
  | nil => exact h
  | cons r rows ih => exact ih (sized_noteComponent h)

theorem total_foldl (rows : List ComponentRow) (kind : String × String → Bool) (hn : points.Nodup) (h : Sized points.length found) (hi : i < points.length) :
    Table.total (cellOf kind i) (rows.foldl (noteComponent points) found) = Table.total (cellOf kind i) found +
      sumOf rows (fun r => points[i]? = some r.slot && kind r.key) ComponentRow.value := by
  induction rows generalizing found with
  | nil => simp
  | cons r rows ih =>
    rw [List.foldl_cons, ih (sized_noteComponent h), total_noteComponent hn h hi, sumOf_cons, add_assoc]

def slotSums (points : List Nat) (rows : List ComponentRow) (kind : String × String → Bool) : List Int :=
  (List.range points.length).map fun i =>
    sumOf rows (fun r => points[i]? = some r.slot && kind r.key) ComponentRow.value

theorem addFound_foldl {entries : List ((String × String) × Found)} {totals : Totals} :
    entries.foldl addFound totals =
      ⟨entries.foldl (fun t e => if !isContainer e.1 && isHelper e.1 then addLine t e.2.raw else t) totals.helpers,
        entries.foldl (fun t e => if isContainer e.1 then addLine t e.2.raw else t) totals.containers,
        entries.foldl (fun t e => if (fun _ => true) e.1 then addLine t e.2.raw else t) totals.claimed⟩ := by
  induction entries generalizing totals with
  | nil => rfl
  | cons e entries ih =>
    rw [List.foldl_cons, ih]
    rfl

theorem foldl_lines (hn : points.Nodup) (kind : String × String → Bool) :
    (foundOf points rows).entries.foldl (fun t e => if kind e.1 then addLine t e.2.raw else t)
      (List.replicate points.length 0) = slotSums points rows kind := by
  have hsized : Sized points.length (foundOf points rows) := sized_foldl fun _ he => by cases he
  rw [foldl_addLine Found.raw (List.length_replicate ..) hsized]
  refine List.map_congr_left fun i hi => ?_
  have hi : i < points.length := List.mem_range.mp hi
  have htotal : Table.total (cellOf kind i) (foundOf points rows) = Table.total (cellOf kind i) .empty + _ :=
    total_foldl rows kind hn (fun _ he => by cases he) hi
  have hempty : Table.total (cellOf kind i) (.empty : Dict (String × String) Found) = 0 := rfl
  rw [hempty, zero_add] at htotal
  rw [← htotal]
  simp [List.getD_eq_getElem?_getD, hi, Table.total, cellOf]

theorem lineTotals_eq (hn : points.Nodup) : lineTotals points rows =
    ⟨slotSums points rows fun key => !isContainer key && isHelper key, slotSums points rows isContainer,
      slotSums points rows fun _ => true⟩ := by
  unfold lineTotals
  rw [addFound_foldl, Totals.mk.injEq]
  exact ⟨foldl_lines hn fun key => !isContainer key && isHelper key, foldl_lines hn isContainer,
    foldl_lines hn fun _ => true⟩

end Lines

/-! ## Both paths -/

namespace MetricsDatabase

variable {db : MetricsDatabase} {o o' : ScanOrder} {chart : MachineChart} {window : Window} {points : List Nat}
  {kind : String × String → Bool}

/-- What the stored rows of a kind of component add up to, slot by slot. -/
def storedSums (points : List Nat) (stored : List (Stored MetricRow)) (kind : String × String → Bool)
    (value : Stored MetricRow → Int) : List Int :=
  (List.range points.length).map fun i => sumOf stored (fun r => points[i]? = some r.ts &&
    kind (r.object.key.server, componentName r.object.key.proxy)) value

theorem componentRows_perm : (db.componentRows o chart window).Perm (db.componentRows o' chart window) := by
  unfold componentRows
  split
  · exact ((o.perm _).trans (o'.perm _).symm).map _
  · exact ((o.perm _).trans (o'.perm _).symm).map _

theorem slotSums_perm : slotSums points (db.componentRows o chart window) kind =
    slotSums points (db.componentRows o' chart window) kind :=
  List.map_congr_left fun _ _ => sumOf_perm componentRows_perm

theorem slotSums_stored (h : window.resolution.2 = window.resolution.1.step) :
    slotSums points (db.componentRows o chart window) kind =
      storedSums points (db.storedOf window .component) kind fun r => storedValue chart r.row := by
  unfold slotSums storedSums componentRows
  rw [if_pos h]
  refine List.map_congr_left fun i _ => ?_
  rw [sumOf_map]
  exact sumOf_perm (o.perm _)

theorem object_of_joined {ν : Type} {table : BucketTable ν} {r : Stored ν} (h : r ∈ db.joined table) :
    r.object ∈ db.objects.rows := by
  obtain ⟨e, -, hr⟩ := List.mem_filterMap.mp h
  obtain ⟨object, ho, rfl⟩ := Option.map_eq_some_iff.mp hr
  exact List.mem_of_find?_eq_some ho

theorem mem_haproxyIds {r : Stored MetricRow} (hr : r ∈ db.storedOf window .component) :
    (r.object.id : Int) ∈ db.haproxyIds ↔ componentName r.object.key.proxy = "haproxy" := by
  obtain ⟨hjoined, hkind⟩ := List.mem_filter.mp hr
  have hobject := object_of_joined hjoined
  have hcomponent : r.object.key.kind = .component := by
    simp only [Bool.and_eq_true, decide_eq_true_eq] at hkind
    exact hkind.1
  have hids : (r.object.id : Int) ∈ ((db.objects.rows.filter fun r =>
      r.key.kind = .component && componentName r.key.proxy = "haproxy").map fun r => (r.id : Int)) ↔
      componentName r.object.key.proxy = "haproxy" := by
    constructor
    · intro h
      obtain ⟨other, hother, he⟩ := List.mem_map.mp h
      obtain ⟨hmem, hname⟩ := List.mem_filter.mp hother
      have : other = r.object :=
        List.inj_on_of_nodup_map db.objects.ids hmem hobject (Int.ofNat.inj he)
      subst this
      simp only [Bool.and_eq_true, decide_eq_true_eq] at hname
      exact hname.2
    · intro hname
      exact List.mem_map.mpr ⟨r.object, List.mem_filter.mpr ⟨hobject, by simp [hcomponent, hname]⟩, rfl⟩
  unfold haproxyIds
  simp only
  split
  · rename_i hnone
    rw [← hids, hnone]
    simp
  · exact hids

theorem noteGroup_foldl {rows : List GroupRow} {totals : Totals} : rows.foldl (noteGroup points) totals =
    ⟨rows.foldl (fun t r => setCell points t r.slot r.helpers) totals.helpers,
      rows.foldl (fun t r => setCell points t r.slot r.containers) totals.containers,
      rows.foldl (fun t r => setCell points t r.slot r.claimed) totals.claimed⟩ := by
  induction rows generalizing totals with
  | nil => rfl
  | cons r rows ih =>
    rw [List.foldl_cons, ih]
    rfl

/-- Setting the sums of the groups leaves the sums of the stored rows. -/
theorem foldl_groups (hn : points.Nodup) (field : GroupRow → Int) {p : Stored MetricRow → Bool}
    {value : Stored MetricRow → Int} {stored : List (Stored MetricRow)} {rows : List GroupRow}
    (group : Nat → GroupRow) (hrows : rows.Perm ((stored.map Stored.ts).dedup.map group))
    (hslot : ∀ ts, (group ts).slot = ts)
    (hfield : ∀ ts, field (group ts) = sumOf (stored.filter fun r => r.ts = ts) p value) :
    rows.foldl (fun t r => setCell points t r.slot (field r)) (List.replicate points.length 0) =
      (List.range points.length).map fun i => sumOf stored (fun r => points[i]? = some r.ts && p r) value := by
  have hnodup : (rows.map GroupRow.slot).Nodup := by
    rw [(hrows.map GroupRow.slot).nodup_iff, List.map_map]
    simpa [Function.comp_def, hslot] using List.nodup_dedup _
  rw [foldl_setCell hn hnodup (List.length_replicate ..) fun i hi _ => by
    simp [List.getD_eq_getElem?_getD, hi]]
  refine List.map_congr_left fun i hi => ?_
  have hzero : (List.replicate points.length (0 : Int)).getD i 0 = 0 := by
    simp [List.getD_eq_getElem?_getD, List.mem_range.mp hi]
  rw [hzero, zero_add, sumOf_perm hrows, sumOf_map, ← sumOf_groups]
  simp only [hslot, hfield]

/-- The short path adds the stored rows, too. -/
theorem groupTotals_eq (hn : points.Nodup) : groupTotals points (db.groupRows o chart window) =
    let stored := db.storedOf window .component
    let value (r : Stored MetricRow) := storedValue chart r.row
    ⟨storedSums points stored isHelper value, storedSums points stored isContainer value,
      storedSums points stored (fun _ => true) value⟩ := by
  unfold groupTotals
  rw [noteGroup_foldl, Totals.mk.injEq]
  have hperm := o.perm ((db.storedOf window .component).map Stored.ts).dedup
  refine ⟨?_, ?_, ?_⟩
  · refine (foldl_groups hn GroupRow.helpers _ (o.perm _) (fun _ => rfl) (fun _ => rfl)).trans ?_
    refine List.map_congr_left fun i _ => sumOf_congr fun r hr => ?_
    have := mem_haproxyIds hr
    by_cases hname : componentName r.object.key.proxy = "haproxy" <;> simp_all [isHelper]
  · exact foldl_groups hn GroupRow.containers _ (o.perm _) (fun _ => rfl) (fun _ => rfl)
  · exact foldl_groups hn GroupRow.claimed _ (o.perm _) (fun _ => rfl) (fun _ => rfl)

theorem not_container_of_helper {key : String × String} (h : isHelper key = true) : isContainer key = false := by
  unfold isHelper at h
  simp only [Bool.and_eq_true, decide_eq_true_eq] at h
  simp [isContainer, h.1, componentService, componentContainer]

theorem helper_kind : (fun key => !isContainer key && isHelper key) = isHelper := by
  funext key
  cases h : isHelper key with
  | false => simp
  | true => simp [not_container_of_helper h]

theorem hostPoints_eq (chart : MachineChart) (site : String) : db.hostPoints window = db.chartPoints chart.chart site window := by
  have htimes : db.chartTimes chart.chart site window.resolution.1 =
      ((db.joined (db.metricTable window.resolution.1)).filter fun r => r.object.key.kind = .host).map Stored.ts := by
    cases chart <;> rfl
  have hslots : (db.hostRows window).map Prod.fst = window.slots ((db.storedOf window .host).map Stored.ts) := by
    simp [hostRows, Function.comp_def]
  have hsame : ((db.storedOf window .host).map Stored.ts).filter window.holds =
      (db.chartTimes chart.chart site window.resolution.1).filter window.holds := by
    rw [htimes, storedOf, List.filter_map, List.filter_map, List.filter_filter, List.filter_filter]
    refine congrArg (List.map Stored.ts) (List.filter_congr fun r _ => ?_)
    simp only [Function.comp_apply]
    cases window.holds r.ts <;> simp
  unfold hostPoints chartPoints chartSlots
  rw [hslots, Window.slots, Window.slots, hsame]

theorem hostPoints_nodup : (db.hostPoints window).Nodup := by
  rw [hostPoints_eq .cpu ""]
  exact Slots.nodup_slots.sublist (List.take_sublist _ _)

/-- Where a slot is one stored row both paths have the same totals. -/
theorem totals_eq (h : window.resolution.2 = window.resolution.1.step) :
    groupTotals (db.hostPoints window) (db.groupRows o chart window) =
      lineTotals (db.hostPoints window) (db.componentRows o' chart window) := by
  rw [groupTotals_eq hostPoints_nodup, lineTotals_eq hostPoints_nodup, helper_kind, slotSums_stored h,
    slotSums_stored h, slotSums_stored h]

/-- Elsewhere they have them from the same rows, in whatever order these come. -/
theorem lineTotals_order : lineTotals (db.hostPoints window) (db.componentRows o chart window) =
    lineTotals (db.hostPoints window) (db.componentRows o' chart window) := by
  rw [lineTotals_eq hostPoints_nodup, lineTotals_eq hostPoints_nodup, Totals.mk.injEq]
  exact ⟨slotSums_perm, slotSums_perm, slotSums_perm⟩

theorem addComponents_dropped : { db.addComponents o chart window with components := none } =
    db.payload chart window (lineTotals (db.hostPoints window) (db.componentRows o chart window)) none := rfl

/-- Without the lines of the components a chart has the same points, series and group totals. -/
theorem series_without_components (db : MetricsDatabase) (o o' : ScanOrder) (chart : MachineChart)
    (window : Window) : db.series o chart window false =
      { db.series o' chart window true with components := none } := by
  unfold series
  simp only [Bool.false_eq_true, if_false, if_true]
  unfold addComponentGroups
  rw [addComponents_dropped, addComponents_dropped]
  split
  · exact congrArg (db.payload chart window · none) lineTotals_order
  · rename_i h
    exact congrArg (db.payload chart window · none) (totals_eq (not_not.mp h))

/-- HAProxy, a container and a helper of the gateway, read in two minutes. -/
def threeComponents (cpu : Int) : MachineReading where
  host := { cpu := some cpu }
  components := [⟨"haproxy", "service", some 100, none⟩, ⟨"panel", "container", some 70, none⟩,
    ⟨"easy-ha-proxy-geoip", "service", some 30, none⟩]

def twoMinutes : MetricsDatabase :=
  (Machine.run MetricsWorld.step (.initial {}) [.poll 46790 [MetricsWorld.requestsRow 10] (threeComponents 250),
    .poll 46805 [MetricsWorld.requestsRow 14] (threeComponents 210), .flush 46870 true]).db

theorem series_without_components_two_minutes :
    let window := resolveWindow 47000 ⟨none, none, "24h"⟩
    (twoMinutes.series .stored .cpu window false).groups =
        ⟨[.percent 30, .percent 30], [.percent 70, .percent 70], [.percent 50, .percent 10]⟩ ∧
      twoMinutes.series .stored .cpu window false =
        { twoMinutes.series .reversed .cpu window true with components := none } :=
  ⟨by decide +kernel, series_without_components twoMinutes .stored .reversed .cpu _⟩

end MetricsDatabase

end EasyHaProxy.Metricsd
