import EasyHaProxy.Metricsd.Spec

/-! When the guard stops writing, when it starts again, and for which filesystems the automatic limits leave
it a way to start again. -/
namespace EasyHaProxy.Metricsd

/-- The room a guard asks for before it resumes; a limit of zero is no limit. -/
structure Headroom (status : StorageStatus) : Prop where
  space : 0 < status.reservedFreeBytes →
    status.reservedFreeBytes + resumeMargin status < status.storage.filesystemFree
  budget : 0 < status.maxDatabaseBytes →
    (Double.scaled status.maxDatabaseBytes resumeDatabaseFraction).gtNat status.storage.totalBytes = true

theorem mayResume_iff {status : StorageStatus} : mayResume status = true ↔ Headroom status := by
  simp only [mayResume, Bool.and_eq_true, decide_eq_true_eq]
  constructor
  · rintro ⟨hs, hb⟩
    exact ⟨fun hr => hs.resolve_left (by omega), fun hm => hb.resolve_left (by omega)⟩
  · intro h
    refine ⟨?_, ?_⟩
    · by_cases hr : status.reservedFreeBytes = 0
      · exact Or.inl hr
      · exact Or.inr (h.space (by omega))
    · by_cases hm : status.maxDatabaseBytes = 0
      · exact Or.inl hm
      · exact Or.inr (h.budget (by omega))

namespace MetricsConfig

variable {config : MetricsConfig} {guard : StorageGuard} {db : MetricsDatabase} {now : Nat}
  {m : Measurements} {s : Storage}

theorem enforce_writesPaused : (config.enforce guard db now m).1.writesPaused =
    if (config.finalStatus m).state = .critical then true
    else guard.writesPaused && !mayResume (config.finalStatus m) := by
  simp only [enforce]
  split
  · split
    · rename_i hpaused
      exact hpaused
    · rfl
  · split
    · rename_i hresume
      simp only [Bool.and_eq_true] at hresume
      simp [hresume.1, hresume.2]
    · rename_i hstays
      cases hp : guard.writesPaused <;> simp_all

theorem finalStatus_steady : config.finalStatus (.steady s) = config.measure s := by
  have hwal : (config.manageWal (.steady s)).1 = config.measure s := by
    unfold manageWal
    by_cases hlimit : (config.measure s).storage.walBytes < config.walSoftLimitBytes
    · exact congrArg Prod.fst (if_pos hlimit)
    · exact congrArg Prod.fst (if_neg hlimit)
  unfold finalStatus
  split
  · rfl
  · exact hwal

end MetricsConfig

/-! ## Over whole runs -/

/-- What a pass measures, for the operations that make one. -/
def MetricsOp.pass? : MetricsOp → Option Measurements
  | .runMaintenance _ m | .enforce _ m | .boot _ m => some m
  | _ => none

/-- A new process has a guard of its own. -/
def MetricsOp.boots : MetricsOp → Bool
  | .boot .. => true
  | _ => false

/-- The tables that grow with time. -/
structure SameRows (db db' : MetricsDatabase) : Prop where
  metric1m : db'.metric1m = db.metric1m
  metric1h : db'.metric1h = db.metric1h
  latency1m : db'.latency1m = db.latency1m
  latency1h : db'.latency1h = db.latency1h
  stateEvents : db'.stateEvents = db.stateEvents

/-- What one operation may do to the pause, and a pause to the operation. -/
structure PauseSound (w : MetricsWorld) (op : MetricsOp) : Prop where
  stops : ∀ m, op.pass? = some m → (w.config.finalStatus m).state = .critical →
    (w.step op).storage.writesPaused = true
  resumes : op.boots = false → w.storage.writesPaused = true →
    (w.step op).storage.writesPaused = false →
      ∃ m, op.pass? = some m ∧ Headroom (w.config.finalStatus m)
  silent : MetricsWorld.Collecting op → w.storage.writesPaused = true → SameRows w.db (w.step op).db

namespace MetricsWorld

variable {w : MetricsWorld} {op : MetricsOp} {m : Measurements}

/-- A pass decides on its own last measurement, whatever housekeeping came before. -/
theorem step_pass (h : op.pass? = some m) :
    ∃ guard db now, (w.step op).storage = (w.config.enforce guard db now m).1 ∧
      (op.boots = false → guard.writesPaused = w.storage.writesPaused) := by
  cases op with
  | runMaintenance now m' =>
    obtain rfl : m' = m := Option.some.inj h
    exact ⟨_, _, _, rfl, fun _ => rfl⟩
  | enforce now m' =>
    obtain rfl : m' = m := Option.some.inj h
    exact ⟨_, _, _, rfl, fun _ => rfl⟩
  | boot now m' =>
    obtain rfl : m' = m := Option.some.inj h
    exact ⟨_, _, _, rfl, fun hb => absurd hb (by simp [MetricsOp.boots])⟩
  | _ => cases h

theorem step_storage_of_no_pass (h : op.pass? = none) : (w.step op).storage = w.storage := by
  cases op with
  | setMonitors monitors => rfl
  | runMaintenance now m => cases h
  | enforce now m => cases h
  | boot now m => cases h
  | poll now rows machine => exact poll_collects.storage
  | failed => rfl
  | flush now force => exact flush_collects.storage
  | restart now => exact restart_collects.storage
  | pullDigests now payload => exact pullDigests_collects.storage

/-- While paused only objects are registered. -/
theorem sameRows_of_paused (h : Collecting op) (hp : w.storage.writesPaused = true) :
    SameRows w.db (w.step op).db := by
  have hwrote := (step_collects (w := w) h).wrote
  rw [hp] at hwrote
  refine hwrote.keeps (I := fun db => SameRows w.db db) ⟨rfl, rfl, rfl, rfl, rfl⟩ fun db x hdb hx => ?_
  cases x with
  | object key now => exact ⟨hdb.metric1m, hdb.metric1h, hdb.latency1m, hdb.latency1h, hdb.stateEvents⟩
  | metrics bucketTs rows => cases hx.1
  | baselines values => cases hx
  | state objectId previous state now named => cases hx
  | latency bucketTs rows => cases hx.1
  | cursor newest => cases hx

theorem pauseSound : PauseSound w op where
  stops m hm hc := by
    obtain ⟨guard, db, now, hs, -⟩ := step_pass hm
    rw [hs, MetricsConfig.enforce_writesPaused, if_pos hc]
  resumes hb hp hr := by
    cases hm : op.pass? with
    | none =>
      rw [step_storage_of_no_pass hm, hp] at hr
      cases hr
    | some m =>
      obtain ⟨guard, db, now, hs, hg⟩ := step_pass hm
      refine ⟨m, rfl, mayResume_iff.mp ?_⟩
      rw [hs, MetricsConfig.enforce_writesPaused, hg hb, hp] at hr
      split at hr
      · cases hr
      · simpa using hr
  silent := sameRows_of_paused

end MetricsWorld

/-! ## Filesystems with a way back -/

/-- The settings with both limits on `auto`. -/
def MetricsConfig.auto (config : MetricsConfig) : MetricsConfig :=
  { config with maxDatabaseBytes := none, reservedFreeBytes := none }

/-- What must be free before a guard with automatic limits resumes. -/
def autoResume (filesystem : Nat) : Nat :=
  autoReserve filesystem +
    max (if filesystem > 0 then min resumeReserveMarginFloor (Double.scaled filesystem twentieth).toInt
      else resumeReserveMarginFloor) (Double.scaled (autoReserve filesystem) tenth).toInt

/-- The largest filesystem that the reserve and its margin fill. -/
def smallFilesystem : Nat := 2362232012

theorem tenth_le (n : Nat) : 9 * (Double.scaled n tenth).toInt ≤ n :=
  Double.toInt_scaled_le (by decide +kernel)

theorem twentieth_le (n : Nat) : 19 * (Double.scaled n twentieth).toInt ≤ n :=
  Double.toInt_scaled_le (by decide +kernel)

theorem tenth_reserveFloor : (Double.scaled autoReserveFloorBytes tenth).toInt = 214748364 := by
  decide +kernel

/-- The fixed floor of the reserve takes a small filesystem whole. -/
theorem autoResume_lt {filesystem : Nat} : autoResume filesystem < filesystem ↔ smallFilesystem < filesystem := by
  have h10 := tenth_le filesystem
  have h20 := twentieth_le filesystem
  have hr := tenth_le (autoReserve filesystem)
  have hres : autoReserve filesystem = max autoReserveFloorBytes
    (min (Double.scaled filesystem tenth).toInt autoReserveCeilingBytes) := rfl
  have hmargin : autoReserve filesystem = autoReserveFloorBytes →
      (Double.scaled (autoReserve filesystem) tenth).toInt = 214748364 := by
    intro hlow
    rw [hlow, tenth_reserveFloor]
  have hfloor : autoReserveFloorBytes = 2147483648 := by decide
  have hceiling : autoReserveCeilingBytes = 10737418240 := by decide
  have hadd : resumeReserveMarginFloor = 536870912 := by decide
  unfold autoResume smallFilesystem
  generalize (Double.scaled (autoReserve filesystem) tenth).toInt = margin at hr hmargin ⊢
  generalize (Double.scaled filesystem tenth).toInt = share at h10 hres
  generalize (Double.scaled filesystem twentieth).toInt = slice at h20 ⊢
  generalize autoReserve filesystem = reserve at hres hr hmargin ⊢
  rw [hfloor, hceiling] at hres
  rw [hfloor] at hmargin
  rw [hadd]
  by_cases hlow : reserve = 2147483648
  · have := hmargin hlow
    split <;> omega
  · split <;> omega

namespace MetricsConfig

variable {config : MetricsConfig} {guard : StorageGuard} {db : MetricsDatabase} {now filesystem : Nat}
  {s : Storage}

def ResumesAt (config : MetricsConfig) (guard : StorageGuard) (db : MetricsDatabase) (now : Nat)
    (s : Storage) : Prop :=
  (config.enforce { guard with writesPaused := true } db now (.steady s)).1.writesPaused = false

theorem resumesAt_iff : config.ResumesAt guard db now s ↔
    (config.measure s).state ≠ .critical ∧ Headroom (config.measure s) := by
  unfold ResumesAt
  rw [enforce_writesPaused, finalStatus_steady, ← mayResume_iff]
  split
  · rename_i hc
    simp [hc]
  · rename_i hc
    simp [hc]

theorem measure_storage : (config.measure s).storage = s := by
  simp only [measure]

section Auto

variable (hauto : config.reservedFreeBytes = none)
include hauto

theorem resolveLimits_auto (total : Nat) : (config.resolveLimits total).2 = autoReserve total := by
  unfold resolveLimits
  rw [hauto, Option.getD_none]

theorem measure_auto : (config.measure s).reservedFreeBytes = autoReserve s.filesystemTotal := by
  rw [← resolveLimits_auto hauto]
  simp only [measure]

theorem resume_auto : (config.measure s).reservedFreeBytes + resumeMargin (config.measure s) =
    autoResume s.filesystemTotal := by
  simp only [resumeMargin, measure_auto hauto, measure_storage, autoResume]

theorem reserved_auto_pos : 0 < (config.measure s).reservedFreeBytes := by
  rw [measure_auto hauto, autoReserve]
  exact lt_of_lt_of_le (by decide : 0 < autoReserveFloorBytes) (le_max_left _ _)

end Auto

def emptyStorage (filesystem : Nat) : Storage := ⟨0, 0, 0, filesystem, filesystem⟩

theorem classifyStorage_ne_critical {total free maximum reserve : Nat} (hsize : 0 < maximum → total < maximum)
    (hfree : reserve < free) : (classifyStorage total free maximum reserve).1 ≠ .critical := by
  have hnot : ¬ (maximum > 0 ∧ total ≥ maximum) := fun h => absurd (hsize h.1) (Nat.not_lt.mpr h.2)
  have hroom : ¬ (reserve > 0 ∧ free ≤ reserve) := fun h => absurd h.2 (Nat.not_le.mpr hfree)
  unfold classifyStorage
  rw [if_neg hnot, if_neg hroom]
  repeat' split
  all_goals simp

theorem emptyStorage_not_critical (hauto : config.reservedFreeBytes = none)
    (h : autoResume filesystem < filesystem) :
    (config.measure (emptyStorage filesystem)).state ≠ .critical := by
  have hreserve : autoReserve filesystem < filesystem := lt_of_le_of_lt (Nat.le_add_right _ _) h
  simp only [measure, emptyStorage]
  exact classifyStorage_ne_critical id (by rwa [resolveLimits_auto hauto])

theorem emptyStorage_headroom (hauto : config.reservedFreeBytes = none)
    (h : autoResume filesystem < filesystem) : Headroom (config.measure (emptyStorage filesystem)) where
  space _ := by
    rw [resume_auto hauto, measure_storage]
    exact h
  budget hpos := by
    rw [measure_storage]
    exact Double.gtNat_zero_scaled hpos (by decide)

/-- With automatic limits a filesystem has room to resume in exactly when it is larger than
the reserve's floor and its margin. -/
theorem exists_resumesAt_iff (hauto : config.reservedFreeBytes = none) :
    (∃ s : Storage, s.filesystemTotal = filesystem ∧ s.totalBytes + s.filesystemFree ≤ filesystem ∧
      config.ResumesAt guard db now s) ↔ smallFilesystem < filesystem := by
  rw [← autoResume_lt]
  constructor
  · rintro ⟨s, rfl, hfit, hresumes⟩
    have hspace := (resumesAt_iff.mp hresumes).2.space (reserved_auto_pos hauto)
    rw [resume_auto hauto, measure_storage] at hspace
    omega
  · intro h
    exact ⟨emptyStorage filesystem, rfl, by simp [emptyStorage, Storage.totalBytes],
      resumesAt_iff.mpr ⟨emptyStorage_not_critical hauto h, emptyStorage_headroom hauto h⟩⟩

end MetricsConfig

/-- In every run a critical pass leaves writing paused, a pause ends only in a pass that
measured headroom, and no row is written during it. With automatic limits it can end
exactly on filesystems larger than 2,362,232,012 bytes. -/
theorem pause_holds_and_ends (w : MetricsWorld) (ops : List MetricsOp) (config : MetricsConfig)
    (guard : StorageGuard) (db : MetricsDatabase) (now filesystem : Nat) :
    Machine.Along MetricsWorld.step PauseSound w ops ∧
      ((∃ s : Storage, s.filesystemTotal = filesystem ∧ s.totalBytes + s.filesystemFree ≤ filesystem ∧
        config.auto.ResumesAt guard db now s) ↔ smallFilesystem < filesystem) := by
  constructor
  · exact Machine.Along.of_invariant (I := fun _ => True) trivial (fun _ _ _ => trivial)
      (fun _ _ _ => MetricsWorld.pauseSound)
  · exact MetricsConfig.exists_resumesAt_iff rfl

/-- On a mount of 64 MiB nothing that is measured ends a pause. -/
theorem never_resumes_on_small_mount :
    ¬ ∀ (config : MetricsConfig) (guard : StorageGuard) (db : MetricsDatabase) (now filesystem : Nat),
      ∃ s : Storage, s.filesystemTotal = filesystem ∧ s.totalBytes + s.filesystemFree ≤ filesystem ∧
        config.auto.ResumesAt guard db now s := by
  intro h
  have hsmall := (MetricsConfig.exists_resumesAt_iff rfl).mp (h {} {} .empty 0 (64 * mib))
  exact absurd hsmall (by decide)

end EasyHaProxy.Metricsd
