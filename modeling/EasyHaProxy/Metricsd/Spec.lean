import EasyHaProxy.Metricsd.Collector

/-! Polls, flushes and digest pulls change the database by a few kinds of writes. Which ones, and for which
minutes, is said once here; the invariants of the tables follow from it. -/
namespace EasyHaProxy.Metricsd

inductive Write where
  | object (key : ObjectKey) (now : Nat)
  | metrics (bucketTs : Nat) (rows : List (Nat × MetricRow))
  | baselines (values : Dict (Nat × Column) (Int × Nat))
  | state (objectId : Nat) (previous state : String) (now : Nat) (named : state ≠ "")
  | latency (bucketTs : Nat) (rows : Dict Nat Histogram)
  | cursor (newest : Nat)

def MetricsDatabase.apply (db : MetricsDatabase) : Write → MetricsDatabase
  | .object key now => (db.objectId key now).2
  | .metrics bucketTs rows => db.writeBuckets bucketTs rows
  | .baselines values => db.storeBaselines values
  | .state objectId previous state now named => db.recordStateChange objectId previous state now named
  | .latency bucketTs rows => db.writeLatency bucketTs rows
  | .cursor newest => { db with digestCursor := newest }

/-- One database comes from another by writes of a kind. -/
inductive Wrote (P : Write → Prop) (db : MetricsDatabase) : MetricsDatabase → Prop where
  | refl : Wrote P db db
  | step {db' : MetricsDatabase} {x : Write} : Wrote P db db' → P x → Wrote P db (db'.apply x)

namespace Wrote

variable {P Q : Write → Prop} {I : MetricsDatabase → Prop} {db db' db'' : MetricsDatabase} {x : Write}

theorem single (h : P x) : Wrote P db (db.apply x) := .step .refl h

theorem trans (h : Wrote P db db') (h' : Wrote P db' db'') : Wrote P db db'' := by
  induction h' with
  | refl => exact h
  | step _ hx ih => exact ih.step hx

/-- What each of the writes preserves. -/
theorem keeps (h : Wrote P db db') (hI : I db) (hstep : ∀ db x, I db → P x → I (db.apply x)) : I db' := by
  induction h with
  | refl => exact hI
  | step _ hx ih => exact hstep _ _ ih hx

end Wrote

/-- Of a paused guard only objects are registered; otherwise rows are written for the
minutes given. -/
def Permitted (paused : Bool) (minutes histograms : List Nat) : Write → Prop
  | .object _ _ => True
  | .metrics bucketTs _ => paused = false ∧ bucketTs ∈ minutes
  | .baselines _ | .state .. | .cursor _ => paused = false
  | .latency bucketTs rows => paused = false ∧ (rows.entries = [] ∨ bucketTs ∈ histograms)

/-- A step of the collector: the guard, the settings and the monitors stay, the database is
written. -/
structure Collects (minutes histograms : List Nat) (w w' : MetricsWorld) : Prop where
  config : w'.config = w.config
  storage : w'.storage = w.storage
  monitors : w'.collector.monitors = w.collector.monitors
  wrote : Wrote (Permitted w.storage.writesPaused minutes histograms) w.db w'.db

namespace MetricsWorld

variable {w w' w'' : MetricsWorld} {minutes histograms : List Nat} {key : ObjectKey} {now : Nat}

def flushedMinutes (w : MetricsWorld) : List Nat :=
  if w.pendingRows = [] ∨ w.storage.writesPaused = true then [] else w.collector.bucketTs.toList

/-- The minutes of an answer that are stored. -/
def digestMinutes (w : MetricsWorld) (payload : DigestPayload) : List (Nat × DigestMinute) :=
  if w.pulls = false ∨ payload.boundsMs ≠ digestBoundsMs then []
  else freshMinutes w.db.digestCursor payload.minutes

def metricMinutes (w : MetricsWorld) : MetricsOp → List Nat
  | .poll now rows _ =>
    if rows = [] ∨ w.collector.bucketTs = some (minuteOf now) then [] else w.flushedMinutes
  | .flush now force =>
    if force = false ∧ w.collector.bucketTs = some (minuteOf now) then [] else w.flushedMinutes
  | .restart _ => w.flushedMinutes
  | .pullDigests _ payload =>
    if w.collector.monitors.refusals then (w.digestMinutes payload).map Prod.fst else []
  | _ => []

def bringsHistogram (config : MetricsConfig) (minute : Nat × DigestMinute) : Bool :=
  minute.2.backends.any fun entry => (acceptedHistogram config entry).isSome

/-- The minutes an operation writes histograms for. -/
def latencyMinutes (w : MetricsWorld) : MetricsOp → List Nat
  | .pullDigests _ payload =>
    if w.collector.monitors.percentiles then
      ((w.digestMinutes payload).filter (bringsHistogram w.config)).map Prod.fst
    else []
  | _ => []

end MetricsWorld

namespace Collects

variable {w w' w'' : MetricsWorld} {minutes histograms : List Nat} {α : Type}

theorem refl : Collects minutes histograms w w := ⟨rfl, rfl, rfl, .refl⟩

theorem trans (h : Collects minutes histograms w w') (h' : Collects minutes histograms w' w'') :
    Collects minutes histograms w w'' where
  config := h'.config.trans h.config
  storage := h'.storage.trans h.storage
  monitors := h'.monitors.trans h.monitors
  wrote := h.wrote.trans (h.storage ▸ h'.wrote)

theorem memory {c : Collector} (h : c.monitors = w.collector.monitors) :
    Collects minutes histograms w (w.withCollector c) := ⟨rfl, rfl, h, .refl⟩

theorem foldl {f : MetricsWorld → α → MetricsWorld} {l : List α}
    (h : ∀ w', Collects minutes histograms w w' → ∀ a ∈ l, Collects minutes histograms w' (f w' a)) :
    Collects minutes histograms w (l.foldl f w) := by
  have hall : ∀ w', Collects minutes histograms w w' → Collects minutes histograms w (l.foldl f w') := by
    induction l with
    | nil => exact fun w' hw => hw
    | cons a l ih =>
      intro w' hw
      exact ih (fun w' hw a ha => h w' hw a (List.mem_cons_of_mem _ ha)) _
        (hw.trans (h w' hw a List.mem_cons_self))
  exact hall w refl

end Collects

namespace MetricsWorld

variable {w : MetricsWorld} {minutes histograms : List Nat} {key : ObjectKey} {now id bucketTs : Nat}
  {row : StatRow}

theorem objectFor_collects : Collects minutes histograms w (w.objectFor key now).2 := by
  unfold objectFor
  split
  · exact .refl
  · exact ⟨rfl, rfl, rfl, .single (x := .object key now) trivial⟩

theorem setBucket_collects {b : Bucket} : Collects minutes histograms w (w.setBucket id b) := .memory rfl

theorem countCounter_collects {reading : Column × Int} :
    Collects minutes histograms w (w.countCounter id now reading) := .memory rfl

theorem trackState_collects {status : String} :
    Collects minutes histograms w (w.trackState id status now) := by
  simp only [trackState]
  split
  · exact .refl
  · split
    · exact .refl
    · split
      · exact .refl
      · rename_i named _ hpaused
        exact ⟨rfl, rfl, rfl, .single (x := .state id _ _ now named) (by simpa [Permitted] using hpaused)⟩

theorem sampleRow_collects : Collects minutes histograms w (w.sampleRow id row now) := by
  simp only [sampleRow]
  exact setBucket_collects.trans ((Collects.foldl fun w _ reading _ => countCounter_collects).trans
    (Collects.foldl fun w _ g _ => setBucket_collects))

theorem observe_collects : Collects minutes histograms w (w.observe key row now) := by
  simp only [observe]
  split
  · exact objectFor_collects.trans (sampleRow_collects.trans trackState_collects)
  · exact objectFor_collects.trans sampleRow_collects

theorem sampleMachine_collects {gauges : List (Gauge × Int)} {counters : List (Column × Int)} :
    Collects minutes histograms w (w.sampleMachine key now gauges counters) := by
  simp only [sampleMachine]
  exact objectFor_collects.trans setBucket_collects

theorem observeHost_collects {reading : MachineReading} :
    Collects minutes histograms w (w.observeHost reading now) := by
  simp only [observeHost]
  split
  · exact .refl
  · split
    · exact sampleMachine_collects.trans (Collects.foldl fun w _ c _ => sampleMachine_collects)
    · exact sampleMachine_collects

theorem observeRow_collects : Collects minutes histograms w (w.observeRow now row) := by
  unfold observeRow
  split
  · exact observe_collects
  · exact .refl

/-- The collector with a new minute begun. -/
def cleared (w : MetricsWorld) : MetricsWorld :=
  w.withCollector { w.collector with buckets := .empty }

theorem cleared_of_empty (h : w.collector.buckets.entries = []) : w.cleared = w := by
  obtain ⟨config, db, storage, collector⟩ := w
  obtain ⟨objectIds, baselines, ⟨entries, nodup⟩, bucketTs, lastStates, monitors⟩ := collector
  simp only at h
  subst h
  rfl

/-- A flush clears the buckets, and writes them with the baselines unless there is nothing
to write or no room for it. -/
theorem flushLocked_eq : w.flushLocked bucketTs =
    if w.pendingRows = [] ∨ w.storage.writesPaused = true then w.cleared
    else { w.cleared with
      db := (w.db.writeBuckets bucketTs w.pendingRows).storeBaselines w.collector.baselines } := by
  unfold flushLocked
  by_cases hempty : w.collector.buckets.entries = []
  · have hrows : w.pendingRows = [] := by simp [pendingRows, hempty]
    rw [if_pos hempty, if_pos (Or.inl hrows), cleared_of_empty hempty]
  · rw [if_neg hempty]
    by_cases hrows : w.pendingRows = []
    · rw [if_pos (Or.inl hrows)]
      exact if_pos hrows
    · by_cases hpaused : w.storage.writesPaused = true
      · rw [if_pos (Or.inr hpaused)]
        exact (if_neg hrows).trans (if_pos hpaused)
      · rw [if_neg (not_or.mpr ⟨hrows, hpaused⟩)]
        exact (if_neg hrows).trans (if_neg hpaused)

theorem flushLocked_collects (h : w.collector.bucketTs = some bucketTs)
    (hm : ∀ b ∈ w.flushedMinutes, b ∈ minutes) :
    Collects minutes histograms w (w.flushLocked bucketTs) := by
  rw [flushLocked_eq]
  split
  · exact .memory rfl
  · rename_i hwrites
    have hmem : bucketTs ∈ minutes := hm bucketTs (by
      rw [flushedMinutes, if_neg hwrites, h]
      exact List.mem_singleton_self _)
    have hpaused : w.storage.writesPaused = false := by simpa using (not_or.mp hwrites).2
    exact ⟨rfl, rfl, rfl, .step (.single (x := .metrics bucketTs w.pendingRows) ⟨hpaused, hmem⟩)
      (x := .baselines w.collector.baselines) hpaused⟩

theorem turnMinute_collects
    (hm : w.collector.bucketTs ≠ some (minuteOf now) → ∀ b ∈ w.flushedMinutes, b ∈ minutes) :
    Collects minutes histograms w (w.turnMinute now) := by
  unfold turnMinute
  split
  · exact .memory rfl
  · rename_i bucketTs h
    split
    · exact .refl
    · rename_i hne
      refine (flushLocked_collects h (hm ?_)).trans (.memory rfl)
      rw [h]
      exact fun he => hne (Option.some.inj he).symm

theorem poll_collects {rows : List StatRow} {machine : MachineReading} :
    Collects (w.metricMinutes (.poll now rows machine)) [] w (w.poll now rows machine) := by
  simp only [poll]
  split
  · exact .refl
  · rename_i hrows
    have hturned : Collects (w.metricMinutes (.poll now rows machine)) [] w (w.turnMinute now) := by
      apply turnMinute_collects
      intro hne b hb
      simpa [metricMinutes, hrows, hne] using hb
    have hrowed : Collects (w.metricMinutes (.poll now rows machine)) [] w
        (rows.foldl (fun w row => w.observeRow now row) (w.turnMinute now)) :=
      hturned.trans (Collects.foldl fun w _ row _ => observeRow_collects)
    split
    · exact hrowed.trans observeHost_collects
    · exact hrowed

theorem flush_collects {force : Bool} :
    Collects (w.metricMinutes (.flush now force)) [] w (w.flush now force) := by
  unfold flush
  split
  · exact .refl
  · rename_i bucketTs h
    split
    · exact .refl
    · rename_i hne
      refine (flushLocked_collects h fun b hb => ?_).trans (.memory rfl)
      have hflushes : ¬ (force = false ∧ w.collector.bucketTs = some (minuteOf now)) := by
        rw [h]
        intro hboth
        simp [hboth.1, ← Option.some.inj hboth.2] at hne
      rw [metricMinutes, if_neg hflushes]
      exact hb

theorem restart_collects : Collects (w.metricMinutes (.restart now)) [] w (w.restart now) := by
  have h : w.metricMinutes (.flush now true) = w.metricMinutes (.restart now) := by
    simp [metricMinutes]
  exact (h ▸ flush_collects).trans (.memory rfl)

/-! ## Digests -/

theorem digestBackend_collects {rows : Dict Nat Histogram} {entry : String × List Int} :
    Collects minutes histograms w (digestBackend now (rows, w) entry).2 := by
  simp only [digestBackend]
  split
  · exact .refl
  · exact objectFor_collects

theorem digestBackends_collects {backends : List (String × List Int)} {rows : Dict Nat Histogram} :
    Collects minutes histograms w (backends.foldl (digestBackend now) (rows, w)).2 := by
  induction backends generalizing rows w with
  | nil => exact .refl
  | cons entry backends ih => exact digestBackend_collects.trans ih

/-- A minute whose histograms are all refused brings none. -/
theorem digestBackends_none {backends : List (String × List Int)} {rows : Dict Nat Histogram}
    (h : ∀ entry ∈ backends, acceptedHistogram w.config entry = none) :
    backends.foldl (digestBackend now) (rows, w) = (rows, w) := by
  induction backends with
  | nil => rfl
  | cons entry backends ih =>
    have hskip : digestBackend now (rows, w) entry = (rows, w) := by
      simp [digestBackend, h entry List.mem_cons_self]
    rw [List.foldl_cons, hskip, ih fun e he => h e (List.mem_cons_of_mem _ he)]

theorem storeHistograms_collects {minute : DigestMinute} (hp : w.storage.writesPaused = false)
    (hm : w.collector.monitors.percentiles = true → bringsHistogram w.config (bucketTs, minute) = true →
      bucketTs ∈ histograms) :
    Collects minutes histograms w (w.storeHistograms now bucketTs minute) := by
  simp only [storeHistograms]
  split
  · rename_i hon
    have hread : Collects minutes histograms w
        (minute.backends.foldl (digestBackend now) (.empty, w)).2 := digestBackends_collects
    refine hread.trans ⟨rfl, rfl, rfl, .single (x := .latency bucketTs _) ⟨hread.storage ▸ hp, ?_⟩⟩
    by_cases hb : bringsHistogram w.config (bucketTs, minute) = true
    · exact Or.inr (hm hon hb)
    · left
      have hnone : ∀ entry ∈ minute.backends, acceptedHistogram w.config entry = none := by
        intro entry he
        rw [← Option.not_isSome_iff_eq_none]
        exact fun hs => hb (List.any_eq_true.mpr ⟨entry, he, hs⟩)
      rw [digestBackends_none hnone]
      rfl
  · exact .refl

theorem storeRefusals_collects {minute : DigestMinute} (hp : w.storage.writesPaused = false)
    (hm : w.collector.monitors.refusals = true → bucketTs ∈ minutes) :
    Collects minutes histograms w (w.storeRefusals now bucketTs minute) := by
  simp only [storeRefusals]
  split
  · rename_i hon
    have hread : Collects minutes histograms w (w.objectFor ⟨.edge, "", ""⟩ now).2 := objectFor_collects
    exact hread.trans ⟨rfl, rfl, rfl, .single (x := .metrics bucketTs _) ⟨hread.storage ▸ hp, hm hon⟩⟩
  · exact .refl

theorem pullDigests_collects {payload : DigestPayload} :
    Collects (w.metricMinutes (.pullDigests now payload)) (w.latencyMinutes (.pullDigests now payload)) w
      (w.pullDigests now payload) := by
  simp only [pullDigests]
  split
  · exact .refl
  · split
    · exact .refl
    · rename_i hpulls hbounds
      have hpaused : w.storage.writesPaused = false := by
        simp only [pulls, Bool.not_eq_false, Bool.and_eq_true, Bool.not_eq_true'] at hpulls
        exact hpulls.2
      have hstored : w.digestMinutes payload = freshMinutes w.db.digestCursor payload.minutes :=
        if_neg (not_or.mpr ⟨hpulls, hbounds⟩)
      rw [← hstored]
      have hminutes : Collects (w.metricMinutes (.pullDigests now payload))
          (w.latencyMinutes (.pullDigests now payload)) w
          ((w.digestMinutes payload).foldl (fun w minute => w.storeMinute now minute) w) := by
        refine Collects.foldl fun w' hw minute hmem => ?_
        have hp' : w'.storage.writesPaused = false := hw.storage ▸ hpaused
        have hhist : Collects (w.metricMinutes (.pullDigests now payload))
            (w.latencyMinutes (.pullDigests now payload)) w'
            (w'.storeHistograms now minute.1 minute.2) := by
          apply storeHistograms_collects hp'
          rw [hw.monitors, hw.config]
          intro hon hbrings
          rw [latencyMinutes, if_pos hon]
          exact List.mem_map_of_mem (List.mem_filter.mpr ⟨hmem, hbrings⟩)
        apply hhist.trans
        apply storeRefusals_collects (hhist.storage ▸ hp')
        rw [hhist.monitors, hw.monitors]
        intro hon
        rw [metricMinutes, if_pos hon]
        exact List.mem_map_of_mem hmem
      exact hminutes.trans ⟨rfl, rfl, rfl, .single (x := .cursor _) (hminutes.storage ▸ hpaused)⟩

/-- The operations that collect, as opposed to those that keep house. -/
def Collecting : MetricsOp → Prop
  | .poll .. | .failed | .flush .. | .restart _ | .pullDigests .. => True
  | .runMaintenance .. | .enforce .. | .boot .. | .setMonitors _ => False

theorem step_collects {op : MetricsOp} (h : Collecting op) :
    Collects (w.metricMinutes op) (w.latencyMinutes op) w (w.step op) := by
  cases op with
  | poll now rows machine => exact poll_collects
  | failed => exact .refl
  | flush now force => exact flush_collects
  | restart now => exact restart_collects
  | pullDigests now payload => exact pullDigests_collects
  | runMaintenance now m => exact h.elim
  | enforce now m => exact h.elim
  | boot now m => exact h.elim
  | setMonitors monitors => exact h.elim

end MetricsWorld

end EasyHaProxy.Metricsd
