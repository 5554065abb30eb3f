import EasyHaProxy.Lib.Rollup
import EasyHaProxy.Metricsd.Basic

/-! The SQLite tables, and the writes the collector and the storage guard make to them. The numbers of rows
that only reach the log are not returned. -/
namespace EasyHaProxy.Metricsd

/-- One more than the largest id in use, as SQLite picks a row id. -/
def nextRowId (ids : List Nat) : Nat := ids.foldr max 0 + 1

theorem lt_nextRowId {ids : List Nat} {id : Nat} (h : id ∈ ids) : id < nextRowId ids := by
  unfold nextRowId
  induction ids with
  | nil => simp at h
  | cons a ids ih =>
    rw [List.foldr_cons]
    rcases List.mem_cons.mp h with rfl | h
    · omega
    · have := ih h
      omega

structure ObjectRow where
  id : Nat
  key : ObjectKey
  firstSeen : Nat
  lastSeen : Nat
  deriving DecidableEq

/-- The `objects` table: the id and the (kind, proxy, server) of a row are unique. -/
structure Objects where
  rows : List ObjectRow
  ids : (rows.map ObjectRow.id).Nodup
  keys : (rows.map ObjectRow.key).Nodup

namespace Objects

def empty : Objects := ⟨[], List.nodup_nil, List.nodup_nil⟩

def find? (t : Objects) (key : ObjectKey) : Option ObjectRow := t.rows.find? (fun r => r.key = key)

def nextId (t : Objects) : Nat := nextRowId (t.rows.map ObjectRow.id)

def seen (key : ObjectKey) (now : Nat) (r : ObjectRow) : ObjectRow :=
  if r.key = key then { r with lastSeen := now } else r

@[simp] theorem seen_id {key : ObjectKey} {now : Nat} {r : ObjectRow} : (seen key now r).id = r.id := by
  unfold seen
  split <;> rfl

@[simp] theorem seen_key {key : ObjectKey} {now : Nat} {r : ObjectRow} :
    (seen key now r).key = r.key := by
  unfold seen
  split <;> rfl

/-- `INSERT … ON CONFLICT (kind, proxy, server) DO UPDATE SET last_seen`. -/
def upsert (t : Objects) (key : ObjectKey) (now : Nat) : Objects :=
  match h : t.find? key with
  | some _ =>
    { rows := t.rows.map (seen key now)
      ids := by simpa [Function.comp_def] using t.ids
      keys := by simpa [Function.comp_def] using t.keys }
  | none =>
    { rows := t.rows ++ [⟨t.nextId, key, now, now⟩]
      ids := by
        rw [List.map_append]
        refine List.Nodup.append t.ids (List.nodup_singleton _) (List.disjoint_singleton.mpr ?_)
        exact fun hid => Nat.lt_irrefl _ (lt_nextRowId hid)
      keys := by
        rw [List.map_append]
        refine List.Nodup.append t.keys (List.nodup_singleton _) (List.disjoint_singleton.mpr ?_)
        intro hkey
        obtain ⟨r, hr, he⟩ := List.mem_map.mp hkey
        have := List.find?_eq_none.mp h r hr
        simp [he] at this }

variable {t : Objects} {key k : ObjectKey} {now i : Nat}

def idOf (t : Objects) (key : ObjectKey) : Option Nat := (t.find? key).map ObjectRow.id

def Registered (t : Objects) (i : Nat) : Prop := i ∈ t.rows.map ObjectRow.id

theorem idOf_eq_some : t.idOf key = some i ↔ ∃ r ∈ t.rows, r.key = key ∧ r.id = i := by
  unfold idOf find?
  constructor
  · intro h
    obtain ⟨r, hr, rfl⟩ := Option.map_eq_some_iff.mp h
    exact ⟨r, List.mem_of_find?_eq_some hr, by simpa using List.find?_some hr, rfl⟩
  · rintro ⟨r, hr, rfl, rfl⟩
    cases hf : t.rows.find? (fun other => other.key = r.key) with
    | none =>
      have hne := List.find?_eq_none.mp hf r hr
      simp at hne
    | some other =>
      have hkey : other.key = r.key := by simpa using List.find?_some hf
      rw [List.inj_on_of_nodup_map t.keys (List.mem_of_find?_eq_some hf) hr hkey]
      rfl

theorem registered_of_idOf (h : t.idOf key = some i) : t.Registered i := by
  obtain ⟨r, hr, -, rfl⟩ := idOf_eq_some.mp h
  exact List.mem_map_of_mem hr

/-- Two objects do not share an id. -/
theorem idOf_injective (h : t.idOf key = some i) (h' : t.idOf k = some i) : key = k := by
  obtain ⟨r, hr, rfl, hi⟩ := idOf_eq_some.mp h
  obtain ⟨r', hr', rfl, hi'⟩ := idOf_eq_some.mp h'
  rw [List.inj_on_of_nodup_map t.ids hr hr' (hi.trans hi'.symm)]

/-- An object that is known is only marked as seen; another one is appended. -/
theorem upsert_cases (t : Objects) (key : ObjectKey) (now : Nat) :
    (∃ i, t.idOf key = some i ∧ (t.upsert key now).rows = t.rows.map (seen key now)) ∨
      (t.idOf key = none ∧ (t.upsert key now).rows = t.rows ++ [⟨t.nextId, key, now, now⟩]) := by
  unfold upsert idOf
  split
  · rename_i r h
    exact Or.inl ⟨r.id, by rw [h]; rfl, rfl⟩
  · rename_i h
    exact Or.inr ⟨by rw [h]; rfl, rfl⟩

theorem mem_map_seen {P : Nat → ObjectKey → Prop} {rows : List ObjectRow} :
    (∃ r ∈ rows.map (seen key now), P r.id r.key) ↔ ∃ r ∈ rows, P r.id r.key := by
  simp only [List.mem_map]
  constructor
  · rintro ⟨_, ⟨r, hr, rfl⟩, hP⟩
    exact ⟨r, hr, by simpa using hP⟩
  · rintro ⟨r, hr, hP⟩
    exact ⟨_, ⟨r, hr, rfl⟩, by simpa using hP⟩

theorem idOf_upsert_ne (h : k ≠ key) : (t.upsert key now).idOf k = t.idOf k := by
  apply Option.ext
  intro i
  rw [idOf_eq_some, idOf_eq_some]
  rcases upsert_cases t key now with ⟨_, -, hrows⟩ | ⟨-, hrows⟩
  · rw [hrows]
    exact mem_map_seen (P := fun id key => key = k ∧ id = i)
  · rw [hrows]
    simp [Ne.symm h]

theorem idOf_upsert_self : (t.upsert key now).idOf key = some ((t.idOf key).getD t.nextId) := by
  rw [idOf_eq_some]
  rcases upsert_cases t key now with ⟨i, hi, hrows⟩ | ⟨hnone, hrows⟩
  · rw [hrows, hi]
    exact (mem_map_seen (P := fun id k => k = key ∧ id = i)).mpr (idOf_eq_some.mp hi)
  · rw [hrows, hnone]
    exact ⟨_, List.mem_append_right _ List.mem_cons_self, rfl, rfl⟩

theorem registered_upsert (h : t.Registered i) : (t.upsert key now).Registered i := by
  unfold Registered at h ⊢
  rcases upsert_cases t key now with ⟨_, -, hrows⟩ | ⟨-, hrows⟩
  · rw [hrows]
    simpa [Function.comp_def] using h
  · rw [hrows, List.map_append]
    exact List.mem_append_left _ h

theorem not_registered_nextId : ¬ t.Registered t.nextId := fun h => Nat.lt_irrefl _ (lt_nextRowId h)

end Objects

/-- A transition of a server or backend; `_track_state` never records an empty state. -/
structure StateEvent where
  id : Nat
  ts : Nat
  objectId : Nat
  previousState : String
  state : String
  named : state ≠ ""
  deriving DecidableEq

/-- The `server_state_events` table in the order of its ids. -/
structure StateEvents where
  rows : List StateEvent
  ordered : rows.Pairwise (fun a b => a.id < b.id)

namespace StateEvents

def empty : StateEvents := ⟨[], List.Pairwise.nil⟩

def nextId (t : StateEvents) : Nat := nextRowId (t.rows.map StateEvent.id)

def insert (t : StateEvents) (ts objectId : Nat) (previousState state : String) (named : state ≠ "") :
    StateEvents where
  rows := t.rows ++ [⟨t.nextId, ts, objectId, previousState, state, named⟩]
  ordered := List.pairwise_append.mpr ⟨t.ordered, List.pairwise_singleton _ _, by
    intro a ha b hb
    rw [List.mem_singleton.mp hb]
    exact lt_nextRowId (List.mem_map_of_mem ha)⟩

def filter (t : StateEvents) (p : StateEvent → Bool) : StateEvents :=
  ⟨t.rows.filter p, t.ordered.filter p⟩

/-- `WHERE id IN (SELECT MAX(id) … WHERE p GROUP BY object_id)`. -/
def newest (t : StateEvents) (p : StateEvent → Bool) : List StateEvent :=
  t.rows.filter (fun e => p e &&
    t.rows.all (fun other => p other → other.objectId = e.objectId → other.id ≤ e.id))

end StateEvents

/-- The upper edges of the digest histogram in milliseconds. -/
def digestBoundsMs : List Int :=
  [5, 10, 25, 50, 75, 100, 150, 200, 300, 500, 750, 1000, 1500, 2000, 3000, 5000, 10000, 30000]

/-- One count for each bucket of the histogram, the open one at the top included. -/
abbrev Histogram := Fin 19 → Int

/-- Tables by (bucket_ts, object_id). -/
abbrev BucketTable (ν : Type) := Dict (Nat × Nat) ν

/-- The tables, and in the last four fields what no table holds: every minute row ever
written, and up to where hourly rows were dropped for their age. -/
structure MetricsDatabase where
  objects : Objects
  /-- `counter_baseline`: the value and when it was read. -/
  baselines : Dict (Nat × Column) (Int × Nat)
  metric1m : BucketTable MetricRow
  metric1h : BucketTable MetricRow
  latency1m : BucketTable Histogram
  latency1h : BucketTable Histogram
  stateEvents : StateEvents
  /-- The numbers kept in `collector_state`. -/
  rollupWatermark : Nat
  latencyRollupWatermark : Nat
  digestCursor : Nat
  everMetrics : BucketTable MetricRow
  everLatency : BucketTable Histogram
  metricsDropped : Int
  latencyDropped : Int

/-- Counters add up; averages are weighted by samples, in integer division towards zero;
peaks stay peaks. -/
def rollupRow (rows : List MetricRow) : MetricRow where
  samples := (rows.map MetricRow.samples).sum
  value column := match aggregation column with
    | .sum => (rows.map fun r => r.value column).sum
    | .wavg => (rows.map fun r : MetricRow => r.value column * r.samples).sum.tdiv (rows.map MetricRow.samples).sum
    | .max => (rows.map fun r => r.value column).max?.getD 0

def rollupHistogram (rows : List Histogram) : Histogram := fun i => (rows.map fun r => r i).sum

namespace MetricsDatabase

def empty : MetricsDatabase where
  objects := .empty
  baselines := .empty
  metric1m := .empty
  metric1h := .empty
  latency1m := .empty
  latency1h := .empty
  stateEvents := .empty
  rollupWatermark := 0
  latencyRollupWatermark := 0
  digestCursor := 0
  everMetrics := .empty
  everLatency := .empty
  metricsDropped := 0
  latencyDropped := 0

def objectId (db : MetricsDatabase) (key : ObjectKey) (now : Nat) : Nat × MetricsDatabase :=
  let objects := db.objects.upsert key now
  ((objects.idOf key).getD 0, { db with objects })

def storeBaselines (db : MetricsDatabase) (baselines : Dict (Nat × Column) (Int × Nat)) :
    MetricsDatabase :=
  { db with baselines := Table.writeAll db.baselines baselines.entries }

def writeBuckets (db : MetricsDatabase) (bucketTs : Nat) (rows : List (Nat × MetricRow)) :
    MetricsDatabase :=
  let rows := rows.map fun r => ((bucketTs, r.1), r.2)
  { db with
    metric1m := Table.writeAll db.metric1m rows
    everMetrics := Table.writeAll db.everMetrics rows }

def recordStateChange (db : MetricsDatabase) (objectId : Nat) (previous state : String) (now : Nat)
    (named : state ≠ "") : MetricsDatabase :=
  { db with stateEvents := db.stateEvents.insert now objectId previous state named }

def loadLastStates (db : MetricsDatabase) : Dict Nat String :=
  Dict.ofPairs ((db.stateEvents.newest fun _ => true).map fun e => (e.objectId, e.state))

/-- Aggregate the minutes since the watermark into hourly rows. -/
def rollupHours (db : MetricsDatabase) (beforeTs : Nat) : MetricsDatabase :=
  if beforeTs ≤ db.rollupWatermark then db
  else
    { db with
      metric1h := Table.replaceGroups (Rollup.slotKey hourSeconds) rollupRow
        (Rollup.between db.metric1m db.rollupWatermark beforeTs) db.metric1h
      rollupWatermark := beforeTs }

def writeLatency (db : MetricsDatabase) (bucketTs : Nat) (rows : Dict Nat Histogram) :
    MetricsDatabase :=
  let rows := rows.entries.map fun r => ((bucketTs, r.1), r.2)
  { db with
    latency1m := Table.writeAll db.latency1m rows
    everLatency := Table.writeAll db.everLatency rows }

def rollupLatencyHours (db : MetricsDatabase) (beforeTs : Nat) : MetricsDatabase :=
  if beforeTs ≤ db.latencyRollupWatermark then db
  else
    { db with
      latency1h := Table.replaceGroups (Rollup.slotKey hourSeconds) rollupHistogram
        (Rollup.between db.latency1m db.latencyRollupWatermark beforeTs) db.latency1h
      latencyRollupWatermark := beforeTs }

/-- Is the object a server? Its minutes have a retention of their own. -/
def isServer (db : MetricsDatabase) (objectId : Nat) : Bool :=
  db.objects.rows.any (fun r => r.id = objectId && r.key.kind = .server)

/-- The cutoffs of a retention pass; a young clock makes them negative. -/
structure Cutoffs where
  minute : Int
  minuteServer : Int
  hour : Int
  deriving DecidableEq

def applyRetention (db : MetricsDatabase) (cutoffs : Cutoffs) : MetricsDatabase :=
  { db with
    metric1m := db.metric1m.filter fun key _ => !((key.1 : Int) < cutoffs.minute) &&
      !((key.1 : Int) < cutoffs.minuteServer && db.isServer key.2)
    latency1m := db.latency1m.filter fun key _ => !((key.1 : Int) < cutoffs.minute)
    latency1h := db.latency1h.filter fun key _ => !((key.1 : Int) < cutoffs.hour)
    metric1h := db.metric1h.filter fun key _ => !((key.1 : Int) < cutoffs.hour)
    stateEvents := db.stateEvents.filter fun e => !((e.ts : Int) < cutoffs.hour)
    metricsDropped := max db.metricsDropped (min cutoffs.hour db.rollupWatermark)
    latencyDropped := max db.latencyDropped (min cutoffs.hour db.latencyRollupWatermark) }

end MetricsDatabase

end EasyHaProxy.Metricsd
