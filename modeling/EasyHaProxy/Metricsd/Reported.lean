import Mathlib.Order.Lattice
import EasyHaProxy.Metricsd.Hours

/-! What the guard reports as the retention in force, beside what its passes applied to the tables. -/
namespace EasyHaProxy.Metricsd

namespace Retention

variable {a b : Retention}

def fields (r : Retention) : Nat × Nat × Nat := (r.minuteDays, r.minuteServerHours, r.hourDays)

theorem fields_injective : Function.Injective fields := by
  intro a b h
  cases a
  cases b
  simpa [fields] using h

/-- Shorter in each field. -/
instance : PartialOrder Retention := PartialOrder.lift fields fields_injective

theorem le_iff : a ≤ b ↔ a.minuteDays ≤ b.minuteDays ∧ a.minuteServerHours ≤ b.minuteServerHours ∧
    a.hourDays ≤ b.hourDays := Iff.rfl

instance : DecidableLE Retention := fun _ _ => decidable_of_iff' _ le_iff

end Retention

/-- What the status page is told about the guard. -/
structure StorageReport where
  status : StorageStatus
  writesPaused : Bool
  pressureLevel : Nat
  effectiveRetention : Retention
  configuredRetention : Retention
  walSoftLimitBytes : Nat
  autoReduceRetention : Bool
  lastPauseTs : Option Nat
  lastResumeTs : Option Nat

namespace MetricsConfig

variable {config : MetricsConfig} {guard : StorageGuard} {db : MetricsDatabase} {now level : Nat}
  {m : Measurements} {trimmed : Nat → Storage}

def report (config : MetricsConfig) (guard : StorageGuard) (s : Storage) : StorageReport where
  status := config.measure s
  writesPaused := guard.writesPaused
  pressureLevel := guard.pressureLevel
  effectiveRetention := config.retentionForLevel guard.pressureLevel
  configuredRetention := config.retentionForLevel 0
  walSoftLimitBytes := config.walSoftLimitBytes
  autoReduceRetention := config.autoReduceRetention
  lastPauseTs := guard.lastPauseTs
  lastResumeTs := guard.lastResumeTs

theorem retentionForLevel_succ (level : Nat) {floors : Retention} (h : retentionLadder[level]? = some floors) :
    config.retentionForLevel (level + 1) =
      ⟨min config.retentionOneMinuteDays floors.minuteDays,
        min config.retentionOneMinuteServerHours floors.minuteServerHours,
        min config.retentionOneHourDays floors.hourDays⟩ := by
  have hlt : level < retentionLadder.length := (List.getElem?_eq_some_iff.mp h).1
  have hmin : min (level + 1) retentionLadder.length = level + 1 := by omega
  unfold retentionForLevel
  rw [hmin]
  simp only [List.getD_eq_getElem?_getD, h, Option.getD_some]

theorem retentionForLevel_zero : config.retentionForLevel 0 =
    ⟨config.retentionOneMinuteDays, config.retentionOneMinuteServerHours, config.retentionOneHourDays⟩ := rfl

theorem first_le_configured : config.retentionForLevel 1 ≤ config.retentionForLevel 0 := by
  rw [retentionForLevel_zero, retentionForLevel_succ 0 rfl, Retention.le_iff]
  exact ⟨Nat.min_le_left _ _, Nat.min_le_left _ _, Nat.min_le_left _ _⟩

/-- A lower rung keeps as much as the first when what is configured is within it anyway. -/
theorem first_le_second : config.retentionForLevel 1 ≤ config.retentionForLevel 2 ↔
    config.retentionForLevel 0 ≤ ⟨1, 2, 90⟩ := by
  rw [retentionForLevel_zero, retentionForLevel_succ 0 rfl,
    retentionForLevel_succ 1 rfl, Retention.le_iff, Retention.le_iff]
  simp only
  omega

theorem first_le_third : config.retentionForLevel 1 ≤ config.retentionForLevel 3 ↔
    config.retentionForLevel 0 ≤ ⟨1, 1, 30⟩ := by
  rw [retentionForLevel_zero, retentionForLevel_succ 0 rfl,
    retentionForLevel_succ 2 rfl, Retention.le_iff, Retention.le_iff]
  simp only
  omega

/-- The first rung relieves a pass, or those below it keep nothing shorter. -/
def FirstRungEnough (config : MetricsConfig) (m : Measurements) : Prop :=
  relieved (config.manageWal m).1.state = true ∨ config.autoReduceRetention = false ∨
    relieved (config.measure (m.trimmed 1)).state = true ∨
    (config.retentionForLevel 0 ≤ ⟨1, 2, 90⟩ ∧
      (relieved (config.measure (m.trimmed 2)).state = true ∨
        config.retentionForLevel 0 ≤ ⟨1, 1, 30⟩))

theorem firstRungEnough_iff : config.FirstRungEnough m ↔
    ∀ level ∈ config.trimLevels m, config.retentionForLevel 1 ≤ config.retentionForLevel level := by
  unfold FirstRungEnough trimLevels
  by_cases hm : relieved (config.manageWal m).1.state = true
  · simp [hm]
  by_cases ha : config.autoReduceRetention = false
  · simp [ha]
  rw [if_neg (by simp_all)]
  simp only [rungs]
  by_cases h1 : relieved (config.measure (m.trimmed 1)).state = true
  · simp [h1]
  by_cases h2 : relieved (config.measure (m.trimmed 2)).state = true
  · simp [hm, ha, h1, h2, first_le_second]
  · simp [hm, ha, h1, h2, first_le_second, first_le_third]

/-- What a pass leaves of the level: it climbs one rung at most. -/
theorem enforce_pressureLevel : (config.enforce guard db now m).1.pressureLevel =
    if config.trimLevels m ≠ [] then min retentionLadder.length (max guard.pressureLevel 1)
    else if (config.manageWal m).1.state = .normal then 0 else guard.pressureLevel := by
  simp only [enforce]
  split
  · split <;> rfl
  · split <;> rfl

end MetricsConfig

/-! ## Passes -/

/-- The two ways a pass comes about: by itself, and after the housekeeping. -/
inductive Pass where
  | enforce (now : Nat) (m : Measurements)
  | runMaintenance (now : Nat) (m : Measurements)

namespace Pass

def op : Pass → MetricsOp
  | .enforce now m => .enforce now m
  | .runMaintenance now m => .runMaintenance now m

def measurements : Pass → Measurements
  | .enforce _ m | .runMaintenance _ m => m

end Pass

/-- NORMAL as a pass finds it before it cleans up, or as it leaves it. -/
inductive Reading where
  | found
  | left

def MetricsConfig.measuredNormal (config : MetricsConfig) : Reading → Measurements → Bool
  | .found, m => (config.manageWal m).1.state = .normal
  | .left, m => (config.finalStatus m).state = .normal

namespace MetricsWorld

variable {w : MetricsWorld} {pass : Pass} {now : Nat} {m : Measurements}

/-- The retentions a pass applies to the tables: that of the housekeeping, then one a rung. -/
def applies (w : MetricsWorld) : Pass → List Retention
  | .enforce _ m => (w.config.trimLevels m).map w.config.retentionForLevel
  | .runMaintenance _ m => w.config.retentionForLevel w.storage.pressureLevel ::
      (w.config.trimLevels m).map w.config.retentionForLevel

theorem step_config_pass : (w.step pass.op).config = w.config := by
  cases pass <;> rfl

theorem step_pressureLevel : (w.step pass.op).storage.pressureLevel =
    if w.config.trimLevels pass.measurements ≠ [] then
      min retentionLadder.length (max w.storage.pressureLevel 1)
    else if (w.config.manageWal pass.measurements).1.state = .normal then 0
    else w.storage.pressureLevel := by
  cases pass <;> exact MetricsConfig.enforce_pressureLevel

theorem mem_applies {r : Retention} (h : r ∈ w.applies pass) :
    r = w.config.retentionForLevel w.storage.pressureLevel ∨
      ∃ level ∈ w.config.trimLevels pass.measurements, r = w.config.retentionForLevel level := by
  have hrungs : r ∈ (w.config.trimLevels pass.measurements).map w.config.retentionForLevel →
      ∃ level ∈ w.config.trimLevels pass.measurements, r = w.config.retentionForLevel level := by
    intro hr
    obtain ⟨level, hlevel, rfl⟩ := List.mem_map.mp hr
    exact ⟨level, hlevel, rfl⟩
  cases pass with
  | enforce now m => exact Or.inr (hrungs h)
  | runMaintenance now m => exact (List.mem_cons.mp h).imp_right hrungs

theorem mem_applies_rung {level : Nat} (h : level ∈ w.config.trimLevels pass.measurements) :
    w.config.retentionForLevel level ∈ w.applies pass := by
  cases pass with
  | enforce now m => exact List.mem_map_of_mem h
  | runMaintenance now m => exact List.mem_cons_of_mem _ (List.mem_map_of_mem h)

end MetricsWorld

/-- A world, and what its passes applied to the tables since the last that measured NORMAL. -/
structure Cleaning where
  world : MetricsWorld
  applied : List Retention

namespace Cleaning

variable {reading : Reading} {c : Cleaning} {pass : Pass} {passes : List Pass}

/-- A process whose guard has made no pass yet. -/
def start (w : MetricsWorld) : Cleaning := ⟨{ w with storage := {} }, []⟩

def step (reading : Reading) (c : Cleaning) (pass : Pass) : Cleaning where
  world := c.world.step pass.op
  applied := if c.world.config.measuredNormal reading pass.measurements then []
    else c.applied ++ c.world.applies pass

/-- What is reported is in no field longer than anything that was applied. -/
def InForce (c : Cleaning) : Prop :=
  ∀ s, ∀ r ∈ c.applied, (c.world.config.report c.world.storage s).effectiveRetention ≤ r

theorem inForce_iff : c.InForce ↔
    ∀ r ∈ c.applied, c.world.config.retentionForLevel c.world.storage.pressureLevel ≤ r :=
  ⟨fun h => h ⟨0, 0, 0, 0, 0⟩, fun h _ => h⟩

/-- The level a guard remembers is at most the first rung, whichever it trimmed at. -/
theorem step_level_le (h : c.world.storage.pressureLevel ≤ 1) :
    (c.step reading pass).world.storage.pressureLevel ≤ 1 := by
  change (c.world.step pass.op).storage.pressureLevel ≤ 1
  rw [MetricsWorld.step_pressureLevel]
  split
  · omega
  · split <;> omega

theorem step_level_of_no_trim (hn : c.world.config.measuredNormal reading pass.measurements = false)
    (ht : c.world.config.trimLevels pass.measurements = []) :
    (c.world.step pass.op).storage.pressureLevel = c.world.storage.pressureLevel := by
  have hfound : (c.world.config.manageWal pass.measurements).1.state ≠ .normal := by
    cases reading with
    | found => simpa [MetricsConfig.measuredNormal] using hn
    | left => simpa [MetricsConfig.measuredNormal, MetricsConfig.finalStatus, ht] using hn
  rw [MetricsWorld.step_pressureLevel, if_neg (not_not_intro ht), if_neg hfound]

theorem first_le_of_level (config : MetricsConfig) {level : Nat} (h : level ≤ 1) :
    config.retentionForLevel 1 ≤ config.retentionForLevel level := by
  obtain rfl | rfl : level = 0 ∨ level = 1 := by omega
  · exact MetricsConfig.first_le_configured
  · exact le_rfl

theorem step_inForce_iff (hl : c.world.storage.pressureLevel ≤ 1) (hc : c.InForce) :
    (c.step reading pass).InForce ↔ c.world.config.measuredNormal reading pass.measurements = true ∨
      c.world.config.FirstRungEnough pass.measurements := by
  rw [inForce_iff] at hc
  rw [MetricsConfig.firstRungEnough_iff, inForce_iff]
  simp only [step, MetricsWorld.step_config_pass]
  cases hn : c.world.config.measuredNormal reading pass.measurements with
  | true => simp
  | false =>
    simp only [Bool.false_eq_true, if_false, false_or]
    by_cases ht : c.world.config.trimLevels pass.measurements = []
    · rw [step_level_of_no_trim hn ht, ht]
      refine iff_of_true (fun r hr => ?_) (by simp)
      obtain hold | hnew := List.mem_append.mp hr
      · exact hc r hold
      · obtain rfl | ⟨level, hlevel, -⟩ := MetricsWorld.mem_applies hnew
        · exact le_rfl
        · simp [ht] at hlevel
    · have hlevel : (c.world.step pass.op).storage.pressureLevel = 1 := by
        rw [MetricsWorld.step_pressureLevel, if_pos ht, Nat.max_eq_right hl]
        rfl
      have hfirst := first_le_of_level c.world.config hl
      rw [hlevel]
      constructor
      · intro h level hmem
        exact h _ (List.mem_append_right _ (MetricsWorld.mem_applies_rung hmem))
      · intro h r hr
        obtain hold | hnew := List.mem_append.mp hr
        · exact hfirst.trans (hc r hold)
        · obtain rfl | ⟨level, hmem, rfl⟩ := MetricsWorld.mem_applies hnew
          · exact hfirst
          · exact h level hmem

theorem along_inForce_iff (hl : c.world.storage.pressureLevel ≤ 1) (hc : c.InForce) :
    Machine.Along (step reading) (fun c pass => (c.step reading pass).InForce) c passes ↔
      ∀ pass ∈ passes, c.world.config.measuredNormal reading pass.measurements = true ∨
        c.world.config.FirstRungEnough pass.measurements := by
  induction passes generalizing c with
  | nil => simp [Machine.Along]
  | cons pass passes ih =>
    have hconfig : (c.step reading pass).world.config = c.world.config := MetricsWorld.step_config_pass
    simp only [Machine.Along, List.forall_mem_cons]
    rw [step_inForce_iff hl hc]
    refine and_congr_right fun hpass => ?_
    rw [ih (step_level_le hl) ((step_inForce_iff hl hc).mpr hpass), hconfig]

end Cleaning

/-- The reported retention stays the one in force exactly in the runs whose passes stop at the
first rung, keep nothing shorter below it, or measure NORMAL. -/
theorem reported_in_force_iff (reading : Reading) (w : MetricsWorld) (passes : List Pass) :
    Machine.Along (Cleaning.step reading) (fun c pass => (c.step reading pass).InForce)
        (.start w) passes ↔
      ∀ pass ∈ passes, w.config.measuredNormal reading pass.measurements = true ∨
        w.config.FirstRungEnough pass.measurements :=
  Cleaning.along_inForce_iff (c := .start w) (Nat.zero_le 1) (fun _ _ h => absurd h List.not_mem_nil)

/-- A database of 950 bytes with a limit of 1000, relieved only at the second rung. -/
def secondRung : Measurements where
  first := ⟨950, 0, 0, 0, 0⟩
  checkpointed := ⟨950, 0, 0, 0, 0⟩
  trimmed level := if level = 1 then ⟨920, 0, 0, 0, 0⟩ else ⟨850, 0, 0, 0, 0⟩

/-- Three days are reported where one was kept, in either reading. -/
theorem second_rung_not_reported : ¬ ∃ reading, ∀ (w : MetricsWorld) (passes : List Pass),
    Machine.Along (Cleaning.step reading) (fun c pass => (c.step reading pass).InForce)
      (.start w) passes := by
  rintro ⟨reading, h⟩
  have hrun := h (.initial { maxDatabaseBytes := some 1000, reservedFreeBytes := some 0 })
    [.enforce 0 secondRung]
  have happlied : ⟨1, 2, 90⟩ ∈ (Cleaning.step reading (.start (.initial
      { maxDatabaseBytes := some 1000, reservedFreeBytes := some 0 })) (.enforce 0 secondRung)).applied := by
    cases reading <;> decide +kernel
  have hshort := (Cleaning.inForce_iff.mp hrun.1) ⟨1, 2, 90⟩ happlied
  exact absurd hshort (by cases reading <;> decide +kernel)

end EasyHaProxy.Metricsd
