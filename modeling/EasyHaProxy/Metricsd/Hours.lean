import EasyHaProxy.Metricsd.Spec

/-! Minutes are rolled up behind two watermarks. The hours stay the summaries of every minute written for as
long as no minute is written, and none deleted, on the wrong side of them. -/
namespace EasyHaProxy.Metricsd

namespace MetricsDatabase

variable {db db' : MetricsDatabase} {cutoffs : Cutoffs} {now beforeTs : Nat} {x : Write}

structure RolledUp (db : MetricsDatabase) : Prop where
  metrics : Rollup.Exact hourSeconds rollupRow db.metric1m db.metric1h db.everMetrics
    db.rollupWatermark db.metricsDropped
  latency : Rollup.Exact hourSeconds rollupHistogram db.latency1m db.latency1h db.everLatency
    db.latencyRollupWatermark db.latencyDropped

/-- Every hour behind the watermark is what its minutes sum up to, all that were ever
written, unless it was dropped for its age. -/
def HoursExact (db : MetricsDatabase) : Prop :=
  (∀ hour object, hour < db.rollupWatermark → db.metric1h.get? (hour, object) =
    if (hour : Int) < db.metricsDropped then none
    else Rollup.summarised hourSeconds rollupRow db.everMetrics (hour, object)) ∧
  ∀ hour object, hour < db.latencyRollupWatermark → db.latency1h.get? (hour, object) =
    if (hour : Int) < db.latencyDropped then none
    else Rollup.summarised hourSeconds rollupHistogram db.everLatency (hour, object)

theorem RolledUp.hoursExact (h : db.RolledUp) : db.HoursExact := ⟨h.metrics.rolled, h.latency.rolled⟩

theorem rolledUp_empty : empty.RolledUp := ⟨Rollup.empty rfl, Rollup.empty rfl⟩

theorem hourOf_mod : hourOf now % hourSeconds = 0 := Rollup.slotOf_mod

theorem RolledUp.rollupHours (h : db.RolledUp) : (db.rollupHours (hourOf now)).RolledUp := by
  unfold MetricsDatabase.rollupHours
  split
  · exact h
  · rename_i hlt
    exact ⟨h.metrics.roll hourOf_mod (Nat.le_of_not_le hlt), h.latency⟩

theorem RolledUp.rollupLatencyHours (h : db.RolledUp) : (db.rollupLatencyHours (hourOf now)).RolledUp := by
  unfold MetricsDatabase.rollupLatencyHours
  split
  · exact h
  · rename_i hlt
    exact ⟨h.metrics, h.latency.roll hourOf_mod (Nat.le_of_not_le hlt)⟩

theorem applyRetention_metric1m : (db.applyRetention cutoffs).metric1m = db.metric1m.filter fun key _ =>
    !((key.1 : Int) < cutoffs.minute) && !((key.1 : Int) < cutoffs.minuteServer && db.isServer key.2) := rfl

theorem applyRetention_latency1m : (db.applyRetention cutoffs).latency1m =
    db.latency1m.filter fun key _ => !((key.1 : Int) < cutoffs.minute) := rfl

theorem RolledUp.applyRetention (h : db.RolledUp) (hminute : cutoffs.minute ≤ db.rollupWatermark)
    (hserver : cutoffs.minuteServer ≤ db.rollupWatermark)
    (hlatency : ∀ key ∈ db.latency1m.keys, db.latencyRollupWatermark ≤ key.1 → cutoffs.minute ≤ key.1) :
    (db.applyRetention cutoffs).RolledUp where
  metrics := by
    have hfine : Rollup.Exact hourSeconds rollupRow (db.applyRetention cutoffs).metric1m db.metric1h
        db.everMetrics db.rollupWatermark db.metricsDropped := by
      rw [applyRetention_metric1m]
      apply h.metrics.trimFine
      intro key row _ hw
      have hm : ¬ (key.1 : Int) < cutoffs.minute := by omega
      have hs : ¬ (key.1 : Int) < cutoffs.minuteServer := by omega
      simp [hm, hs]
    exact hfine.trimCoarse cutoffs.hour
  latency := by
    have hfine : Rollup.Exact hourSeconds rollupHistogram (db.applyRetention cutoffs).latency1m db.latency1h
        db.everLatency db.latencyRollupWatermark db.latencyDropped := by
      rw [applyRetention_latency1m]
      apply h.latency.trimFine
      intro key row hrow hw
      have := hlatency key (Dict.mem_keys.mpr (by simp [hrow])) hw
      simp only [Bool.not_eq_true', decide_eq_false_iff_not]
      omega
    exact hfine.trimCoarse cutoffs.hour

/-- The writes of the collector, ahead of both watermarks. -/
theorem RolledUp.apply {paused : Bool} {minutes histograms : List Nat} (h : db.RolledUp)
    (hx : Permitted paused minutes histograms x) (hm : ∀ b ∈ minutes, db.rollupWatermark ≤ b)
    (hl : ∀ b ∈ histograms, db.latencyRollupWatermark ≤ b) : (db.apply x).RolledUp := by
  cases x with
  | object key now => exact ⟨h.metrics, h.latency⟩
  | metrics bucketTs rows =>
    refine ⟨h.metrics.writeAll fun r hr => ?_, h.latency⟩
    obtain ⟨row, -, rfl⟩ := List.mem_map.mp hr
    exact hm bucketTs hx.2
  | baselines values => exact ⟨h.metrics, h.latency⟩
  | state objectId previous state now named => exact ⟨h.metrics, h.latency⟩
  | latency bucketTs rows =>
    refine ⟨h.metrics, h.latency.writeAll fun r hr => ?_⟩
    obtain ⟨row, hrow, rfl⟩ := List.mem_map.mp hr
    rcases hx.2 with hnone | hmem
    · rw [hnone] at hrow
      cases hrow
    · exact hl bucketTs hmem
  | cursor newest => exact ⟨h.metrics, h.latency⟩

theorem apply_watermarks : (db.apply x).rollupWatermark = db.rollupWatermark ∧
    (db.apply x).latencyRollupWatermark = db.latencyRollupWatermark := by
  cases x <;> exact ⟨rfl, rfl⟩

end MetricsDatabase

/-! ## Cutoffs stay behind the hour -/

namespace MetricsConfig

variable {config : MetricsConfig} {db : MetricsDatabase} {now level : Nat} {levels : List Nat}

theorem retentionForLevel_pos : 1 ≤ (config.retentionForLevel level).minuteDays ∧
    1 ≤ (config.retentionForLevel level).minuteServerHours := by
  have hm := config.minuteDays_pos
  have hs := config.minuteServerHours_pos
  have hlevel : min level retentionLadder.length ≤ 3 := Nat.min_le_right _ _
  unfold retentionForLevel
  generalize min level retentionLadder.length = rung at hlevel
  match rung, hlevel with
  | 0, _ => exact ⟨hm, hs⟩
  | 1, _ => exact ⟨le_min hm (by simp [retentionLadder]), le_min hs (by simp [retentionLadder])⟩
  | 2, _ => exact ⟨le_min hm (by simp [retentionLadder]), le_min hs (by simp [retentionLadder])⟩
  | 3, _ => exact ⟨le_min hm (by simp [retentionLadder]), le_min hs (by simp [retentionLadder])⟩

theorem lt_hourOf_add (now : Nat) : now < hourOf now + 3600 := by
  unfold hourOf hourSeconds
  omega

theorem cutoffs_le (config : MetricsConfig) (now level : Nat) :
    ((config.retentionForLevel level).cutoffs now).minute + 86400 ≤ now ∧
    ((config.retentionForLevel level).cutoffs now).minuteServer + 3600 ≤ now := by
  obtain ⟨hm, hs⟩ : 1 ≤ (config.retentionForLevel level).minuteDays ∧
      1 ≤ (config.retentionForLevel level).minuteServerHours := retentionForLevel_pos
  simp only [Retention.cutoffs]
  omega

/-- No histogram that is still to be rolled up is older than the cutoff. -/
def LatencyKept (db : MetricsDatabase) (cutoff : Int) : Prop :=
  ∀ key ∈ db.latency1m.keys, db.latencyRollupWatermark ≤ key.1 → cutoff ≤ key.1

theorem le_rollupWatermark (db : MetricsDatabase) (now : Nat) :
    hourOf now ≤ (db.rollupHours (hourOf now)).rollupWatermark := by
  unfold MetricsDatabase.rollupHours
  split
  · assumption
  · exact le_rfl

theorem le_latencyRollupWatermark (db : MetricsDatabase) (now : Nat) :
    hourOf now ≤ (db.rollupLatencyHours (hourOf now)).latencyRollupWatermark := by
  unfold MetricsDatabase.rollupLatencyHours
  split
  · assumption
  · exact le_rfl

theorem rollupHours_latency : (db.rollupHours now).latency1m = db.latency1m ∧
    (db.rollupHours now).latencyRollupWatermark = db.latencyRollupWatermark := by
  unfold MetricsDatabase.rollupHours
  split <;> exact ⟨rfl, rfl⟩

theorem LatencyKept.rollupHours {cutoff : Int} (h : LatencyKept db cutoff) :
    LatencyKept (db.rollupHours now) cutoff := by
  unfold LatencyKept
  rw [rollupHours_latency.1, rollupHours_latency.2]
  exact h

theorem LatencyKept.applyRetention {cutoff : Int} {cutoffs : MetricsDatabase.Cutoffs}
    (h : LatencyKept db cutoff) : LatencyKept (db.applyRetention cutoffs) cutoff := by
  intro key hkey
  apply h key
  rw [MetricsDatabase.applyRetention_latency1m] at hkey
  rw [Dict.mem_keys, Dict.get?_filter] at hkey
  rw [Dict.mem_keys]
  cases hget : db.latency1m.get? key with
  | none => simp [hget] at hkey
  | some v => rfl

/-- What the lagging rollup left behind is younger than any cutoff. -/
theorem latencyKept_of_lag (h : hourOf (now - latencyRollupLagSeconds) ≤ db.latencyRollupWatermark) :
    LatencyKept db ((config.retentionForLevel level).cutoffs now).minute := by
  intro key _ hw
  have hcut := (cutoffs_le config now level).1
  have hhour := lt_hourOf_add (now - latencyRollupLagSeconds)
  unfold latencyRollupLagSeconds at hhour h
  omega

/-- Rows of a level are trimmed behind an hour that was just rolled up. -/
theorem rolledUp_applyRetention (h : db.RolledUp) (hw : hourOf now ≤ db.rollupWatermark)
    (hl : LatencyKept db ((config.retentionForLevel level).cutoffs now).minute) :
    (db.applyRetention ((config.retentionForLevel level).cutoffs now)).RolledUp := by
  have hcut := cutoffs_le config now level
  have hhour := lt_hourOf_add now
  exact h.applyRetention (by omega) (by omega) hl

theorem rolledUp_climb (h : db.RolledUp)
    (hl : ∀ level ∈ levels, LatencyKept db ((config.retentionForLevel level).cutoffs now).minute) :
    (config.climb now db levels).RolledUp := by
  induction levels generalizing db with
  | nil => exact h
  | cons level levels ih =>
    apply ih
    · exact rolledUp_applyRetention h.rollupHours (le_rollupWatermark db now)
        (hl level List.mem_cons_self).rollupHours
    · intro other hother
      exact (hl other (List.mem_cons_of_mem _ hother)).rollupHours.applyRetention

theorem enforce_db {guard : StorageGuard} {m : Measurements} :
    (config.enforce guard db now m).2.1 = config.climb now db (config.trimLevels m) := by
  simp only [enforce]
  split
  · split <;> rfl
  · split <;> rfl

end MetricsConfig

/-! ## Runs -/

/-- When an operation happens. -/
def MetricsOp.now? : MetricsOp → Option Nat
  | .poll now _ _ | .flush now _ | .restart now | .pullDigests now _ | .runMaintenance now _
  | .enforce now _ | .boot now _ => some now
  | .failed | .setMonitors _ => none

namespace MetricsWorld

variable {w : MetricsWorld} {op : MetricsOp} {now : Nat}

/-- The minute cutoffs of a pass that no rollup of the histograms comes before. -/
def bareCutoffs (w : MetricsWorld) : MetricsOp → List Int
  | .enforce now m | .boot now m =>
    (w.config.trimLevels m).map fun level => ((w.config.retentionForLevel level).cutoffs now).minute
  | _ => []

/-- Minutes are written ahead of the watermarks, and no histogram is deleted ahead of
its own. -/
def InTime (w : MetricsWorld) (op : MetricsOp) : Prop :=
  (∀ b ∈ w.metricMinutes op, w.db.rollupWatermark ≤ b) ∧
    (∀ b ∈ w.latencyMinutes op, w.db.latencyRollupWatermark ≤ b) ∧
    ∀ cutoff ∈ w.bareCutoffs op, ∀ key ∈ w.db.latency1m.keys,
      w.db.latencyRollupWatermark ≤ key.1 → cutoff ≤ key.1

instance : Decidable (w.InTime op) :=
  inferInstanceAs (Decidable ((∀ b ∈ w.metricMinutes op, w.db.rollupWatermark ≤ b) ∧
    (∀ b ∈ w.latencyMinutes op, w.db.latencyRollupWatermark ≤ b) ∧
    ∀ cutoff ∈ w.bareCutoffs op, ∀ key ∈ w.db.latency1m.keys,
      w.db.latencyRollupWatermark ≤ key.1 → cutoff ≤ key.1))

theorem rolledUp_collects (hop : Collecting op) (h : w.db.RolledUp) (ht : w.InTime op) :
    (w.step op).db.RolledUp := by
  have hkept := (step_collects (w := w) hop).wrote.keeps
    (I := fun db => db.RolledUp ∧ db.rollupWatermark = w.db.rollupWatermark ∧
      db.latencyRollupWatermark = w.db.latencyRollupWatermark) ⟨h, rfl, rfl⟩
  refine (hkept fun db x hdb hx => ⟨?_, ?_⟩).1
  · exact hdb.1.apply hx (hdb.2.1 ▸ ht.1) (hdb.2.2 ▸ ht.2.1)
  · rw [MetricsDatabase.apply_watermarks.1, MetricsDatabase.apply_watermarks.2]
    exact hdb.2

/-- The two rollups of the housekeeping, before it deletes. -/
def rolled (w : MetricsWorld) (now : Nat) : MetricsDatabase :=
  (w.db.rollupHours (hourOf now)).rollupLatencyHours (hourOf (now - latencyRollupLagSeconds))

theorem housekeeping_eq : w.housekeeping now =
    (w.rolled now).applyRetention ((w.config.retentionForLevel w.storage.pressureLevel).cutoffs now) := rfl

theorem latencyKept_rolled {level : Nat} :
    MetricsConfig.LatencyKept (w.rolled now) ((w.config.retentionForLevel level).cutoffs now).minute :=
  MetricsConfig.latencyKept_of_lag (MetricsConfig.le_latencyRollupWatermark _ _)

theorem hour_le_rolled : hourOf now ≤ (w.rolled now).rollupWatermark := by
  have hhours := MetricsConfig.le_rollupWatermark w.db now
  unfold rolled MetricsDatabase.rollupLatencyHours
  split <;> exact hhours

theorem rolledUp_housekeeping (h : w.db.RolledUp) : (w.housekeeping now).RolledUp := by
  rw [housekeeping_eq]
  exact MetricsConfig.rolledUp_applyRetention h.rollupHours.rollupLatencyHours hour_le_rolled latencyKept_rolled

theorem rolledUp_step (h : w.db.RolledUp) (ht : w.InTime op) : (w.step op).db.RolledUp := by
  cases op with
  | poll now rows machine => exact rolledUp_collects trivial h ht
  | failed => exact h
  | flush now force => exact rolledUp_collects trivial h ht
  | restart now => exact rolledUp_collects trivial h ht
  | pullDigests now payload => exact rolledUp_collects trivial h ht
  | runMaintenance now m =>
    change (w.config.enforce w.storage (w.housekeeping now) now m).2.1.RolledUp
    rw [MetricsConfig.enforce_db]
    refine MetricsConfig.rolledUp_climb (rolledUp_housekeeping h) fun level _ => ?_
    rw [housekeeping_eq]
    exact latencyKept_rolled.applyRetention
  | enforce now m =>
    change (w.config.enforce w.storage w.db now m).2.1.RolledUp
    rw [MetricsConfig.enforce_db]
    exact MetricsConfig.rolledUp_climb h fun level hl => ht.2.2 _ (List.mem_map_of_mem hl)
  | boot now m =>
    change (w.config.enforce {} w.db now m).2.1.RolledUp
    rw [MetricsConfig.enforce_db]
    exact MetricsConfig.rolledUp_climb h fun level hl => ht.2.2 _ (List.mem_map_of_mem hl)
  | setMonitors monitors => exact h

/-- In a run whose minutes are all written in time the hours are exactly their minutes. -/
theorem hours_are_their_minutes (config : MetricsConfig) (ops : List MetricsOp)
    (h : Machine.Along step InTime (initial config) ops) :
    (Machine.run step (initial config) ops).db.HoursExact := by
  have hrolled := h.keeps (I := fun w => w.db.RolledUp) MetricsDatabase.rolledUp_empty
    (fun _ _ hw ht => rolledUp_step hw ht)
  exact hrolled.hoursExact

/-- An answer with one minute in which some requests were turned away by country. -/
def refusedAt (ts : Nat) (geo : Int) : DigestPayload := ⟨digestBoundsMs, [⟨some ts, [], geo, 0, 0, 0⟩]⟩

/-- A large filesystem with room to spare. -/
def roomy : Measurements := .steady ⟨4096, 0, 0, 100 * gib, 90 * gib⟩

/-- Two minutes before one o'clock, both delivered before the hour is rolled up. -/
def inTimeOps : List MetricsOp :=
  [.poll 46790 [requestsRow 10] {}, .poll 46805 [requestsRow 14] {}, .pullDigests 46830 (refusedAt 46680 1),
    .pullDigests 46890 (refusedAt 46740 5), .runMaintenance 46900 roomy]

theorem hours_are_their_minutes_in_time :
    Machine.Along step InTime (initial {}) inTimeOps ∧
      (Machine.run step (initial {}) inTimeOps).db.HoursExact := by
  have h : Machine.Along step InTime (initial {}) inTimeOps := by decide +kernel
  exact ⟨h, hours_are_their_minutes {} inTimeOps h⟩

/-- The digest of 12:59 arrives a minute and a half after the minute, later than the pass
that rolled up its hour. -/
def lateOps : List MetricsOp :=
  [.pullDigests 46830 (refusedAt 46680 1), .runMaintenance 46840 roomy,
    .pullDigests 46890 (refusedAt 46740 5)]

theorem late_minute_missing : ¬ ∀ (config : MetricsConfig) (ops : List MetricsOp),
    (ops.filterMap MetricsOp.now?).Pairwise (· ≤ ·) →
      (Machine.run step (initial config) ops).db.HoursExact := by
  intro h
  have hhour := (h {} lateOps (by decide)).1 43200 1 (by decide +kernel)
  exact absurd (congrArg (Option.map fun row => row.value .refusedGeo) hhour) (by decide +kernel)

end MetricsWorld

end EasyHaProxy.Metricsd
