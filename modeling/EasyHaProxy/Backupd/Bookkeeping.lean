import EasyHaProxy.Backupd.RefusedSaves
import EasyHaProxy.Lib.Fields
import EasyHaProxy.Lib.ReadWrite

/-! The schedule's record is replaced by `save_schedule` and at the end of every run; a destination's by
`save_destination`, by trusting a new key, and by what a test or a transfer finds out about the key. -/
namespace EasyHaProxy.Backupd.Bookkeeping

open EasyHaProxy.Yaml EasyHaProxy.Validate EasyHaProxy.Backupd.Settings EasyHaProxy.ReadWrite

/-- A record; nothing for a file that is not there. -/
abbrev Content := Option Fields

/-! ## The schedule -/

/-- The record that `save_schedule` writes. -/
def scheduleRecord (host : Host) (s : Store) (request : Fields) : Except Failure Fields := do
  let current ← loadSchedule host s
  let chosen ← chosenNames host s request current
  let written ← passphraseAfter s request
  let wanted ← wantedRecord host written request current chosen
  require (host.fits wanted.1 = true) (.refused "job state is too large" "too_large")
  return wanted.1

/-- An operation on the schedule's record. -/
inductive ScheduleJob
  /-- `save_schedule`, with the machine and the other files as it finds them. -/
  | save (host : Host) (others : Store) (request : Fields)
  /-- `record_schedule_outcome`. -/
  | record (now : String) (result : Chars)

/-- What an operation makes of the schedule it has read. -/
def makeSchedule : Make Content ScheduleJob
  | .save host others request, read =>
    match scheduleRecord host { others with schedule := read } request with
    | .ok record => some (some record)
    | .error _ => none
  | .record now result, read =>
    some (some (Fields.put "last_result" (text (result.take 500))
      (Fields.put "last_run" (.str now) (read.getD []))))

def outcomeKeys : List String := ["last_run", "last_result"]

inductive SchedulePart
  | settings
  | outcome
  deriving DecidableEq

/-- A missing outcome reads as an empty text. -/
def outcomeOf (record : Content) : Fields :=
  outcomeKeys.map fun key => (key, ((record.getD []).lookup key).getD (.str ""))

def scheduleParts : Parts Content ScheduleJob SchedulePart where
  τ := Fields
  part
    | .settings, record => (record.getD []).filter fun field => !outcomeKeys.contains field.1
    | .outcome, record => outcomeOf record
  sets
    | .save .., part => part = .settings
    | .record .., part => part = .outcome

def isRecording : ScheduleJob → Bool
  | .save .. => false
  | .record .. => true

/-- The outcome a save writes is the one it has read. -/
theorem outcomeOf_scheduleRecord {host : Host} {s : Store} {request record : Fields}
    (h : scheduleRecord host s request = .ok record) : outcomeOf (some record) = outcomeOf s.schedule := by
  simp only [scheduleRecord, bind_eq_ok, pure_eq_ok, require_eq_ok] at h
  obtain ⟨current, hload, chosen, -, written, -, wanted, hwanted, -, -, rfl⟩ := h
  simp only [loadSchedule, bind_eq_ok, pure_eq_ok] at hload
  obtain ⟨_, -, _, -, rfl⟩ := hload
  simp only [wantedRecord, bind_eq_ok, pure_eq_ok] at hwanted
  obtain ⟨_, _, _, _, _, _, _, _, rfl⟩ := hwanted
  rfl

theorem copies_schedule : Copies makeSchedule scheduleParts := by
  intro job read content hmake k hsets
  cases job with
  | save host others request =>
    cases k with
    | settings => exact absurd hsets (by simp [scheduleParts])
    | outcome =>
      unfold makeSchedule at hmake
      dsimp only at hmake
      split at hmake
      next record hrecord =>
        rw [← Option.some.inj hmake]
        exact outcomeOf_scheduleRecord hrecord
      · cases hmake
  | record now result =>
    cases k with
    | settings =>
      rw [← Option.some.inj hmake]
      have hput {key : String} (hkey : (!outcomeKeys.contains key) = false) (value : Value) (fields : Fields) :
          (Fields.put key value fields).filter (fun field => !outcomeKeys.contains field.1) =
            fields.filter fun field => !outcomeKeys.contains field.1 :=
        Fields.filter_put (p := fun key => !outcomeKeys.contains key) hkey value fields
      exact (hput (by decide) _ _).trans (hput (by decide) _ _)
    | outcome => exact absurd hsets (by simp [scheduleParts])

/-! ## A destination -/

/-- An operation on the record of one destination. -/
inductive DestinationJob
  /-- `save_destination`, with the machine and the other files as it finds them. -/
  | save (host : Host) (others : Store) (request : Fields)
  /-- `retrust_destination`. -/
  | retrust (host : Host)
  /-- `test_destination`, and whether the far end took the file. -/
  | test (works : Bool)
  /-- `note_host_key_change`, with the fingerprints the far end offers. -/
  | note (now : String) (offered : List String)

/-- The record a save of the destination `name` writes. -/
def savedRecord (name : Chars) (host : Host) (s : Store) (request : Fields) : Option Fields :=
  match destinationName host (some (text (lowered host (request.lookup "name")))) with
  | .ok requested =>
    if requested = name then
      match (saveDestination host s request).1 with
      | .ok record => some record
      | .error _ => none
    else none
  | .error _ => none

def isText (v : Option Value) (s : String) : Bool :=
  match v with
  | some (.str t) => t == s
  | _ => false

/-- `record["host"]` -/
def addressOf (record : Fields) : Except Failure Chars :=
  match record.lookup "host" with
  | some (.str address) => .ok address.toList
  | _ => .error .malformed

/-- The record with the key the far end offers. -/
def retrusted (host : Host) (record : Fields) : Except Failure Fields := do
  require (isText (record.lookup "type") "sftp" = true) (invalid "only an SFTP destination has a host key")
  let port ← portOf host (record.lookup "port")
  let address ← addressOf record
  let knownHosts ← scanHostKey host address port
  return Fields.put "updated_at" (.str host.now) (Fields.without "host_key_changed"
    (Fields.put "host_key_source" (.str "trusted-after-change") (Fields.put "host_key_pinned" (.bool true)
      (Fields.put "host_key_fingerprints" (.list ((host.fingerprints knownHosts).map .str)) record))))

/-- What an operation makes of the record it has read. -/
def makeDestination (name : Chars) : Make Content DestinationJob
  | .save host others request, read =>
    (savedRecord name host (others.update name { others.files name with record := read }) request).map some
  | .retrust host, read =>
    match read with
    | some record => if record = [] then none else ((retrusted host record).toOption).map some
    | none => none
  | .test works, read =>
    match read with
    | some record =>
      if isText (record.lookup "type") "s3" = false ∧ works = true ∧ flag record "host_key_changed" = true then
        some (some (Fields.without "host_key_changed" record))
      else none
    | none => none
  | .note now offered, read =>
    match read with
    | some record =>
      if record = [] then none
      else some (some (Fields.put "host_key_changed"
        (.map [("at", .str now), ("offered", .list (offered.map .str))]) record))
    | none => none

def pinKeys : List String := ["host_key_pinned", "host_key_fingerprints", "host_key_source"]

/-- What is no setting. -/
def bookkeepingKeys : List String := "updated_at" :: "host_key_changed" :: pinKeys

inductive DestinationPart
  | settings
  | pin
  deriving DecidableEq

/-- Whether a key belongs to a part of the record. -/
def DestinationPart.holds : DestinationPart → String → Bool
  | .settings, key => !bookkeepingKeys.contains key
  | .pin, key => pinKeys.contains key

def destinationParts : Parts Content DestinationJob DestinationPart where
  τ := Fields
  part k record := (record.getD []).filter fun field => k.holds field.1
  sets
    | .save .., _ => true
    | .retrust .., part => part = .pin
    | .test .., _ => false
    | .note .., _ => false

theorem filter_holds_put {k : DestinationPart} {key : String} (h : k.holds key = false) (value : Value)
    (fields : Fields) :
    (Fields.put key value fields).filter (fun field => k.holds field.1) =
      fields.filter fun field => k.holds field.1 :=
  Fields.filter_put h value fields

theorem filter_holds_without {k : DestinationPart} {key : String} (h : k.holds key = false) (fields : Fields) :
    (Fields.without key fields).filter (fun field => k.holds field.1) =
      fields.filter fun field => k.holds field.1 :=
  Fields.filter_without h fields

/-- Trusting a new key leaves the settings. -/
theorem filter_settings_retrusted {host : Host} {record saved : Fields} (h : retrusted host record = .ok saved) :
    saved.filter (fun field => DestinationPart.settings.holds field.1) =
      record.filter fun field => DestinationPart.settings.holds field.1 := by
  simp only [retrusted, bind_eq_ok, pure_eq_ok] at h
  obtain ⟨_, _, _, _, _, _, _, _, rfl⟩ := h
  rw [filter_holds_put (by decide), filter_holds_without (by decide), filter_holds_put (by decide),
    filter_holds_put (by decide), filter_holds_put (by decide)]

theorem copies_destination (name : Chars) : Copies (makeDestination name) destinationParts := by
  intro job read content hmake k hsets
  cases job with
  | save host others request => cases hsets
  | retrust host =>
    cases k with
    | settings =>
      cases read with
      | none => cases hmake
      | some record =>
        simp only [makeDestination] at hmake
        split at hmake
        · cases hmake
        · obtain ⟨saved, hsaved, rfl⟩ := Option.map_eq_some_iff.mp hmake
          cases hr : retrusted host record with
          | error e =>
            rw [hr] at hsaved
            cases hsaved
          | ok out =>
            rw [hr] at hsaved
            obtain rfl := Option.some.inj hsaved
            exact filter_settings_retrusted hr
    | pin => cases hsets
  | test works =>
    cases read with
    | none => cases hmake
    | some record =>
      simp only [makeDestination] at hmake
      split at hmake
      · rw [← Option.some.inj hmake]
        exact filter_holds_without (by cases k <;> decide) record
      · cases hmake
  | note now offered =>
    cases read with
    | none => cases hmake
    | some record =>
      simp only [makeDestination] at hmake
      split at hmake
      · cases hmake
      · rw [← Option.some.inj hmake]
        exact filter_holds_put (by cases k <;> decide) _ record

/-! ## Runs -/

/-- At every point of the run the schedule's settings are the last ones saved, and its outcome the last
one recorded, which is none older than another. -/
def ScheduleSurvives (initial : Content) (events : List (Event ScheduleJob)) : Prop :=
  ∀ pre, pre <+: events →
    Kept scheduleParts initial (Machine.run (step makeSchedule) (start initial) pre) ∧
      InOrder isRecording (Machine.run (step makeSchedule) (start initial) pre)

/-- At every point of the run the destination's settings are the last ones saved, and its pinned key
that of the last save or the last time a key was trusted. -/
def DestinationSurvives (name : Chars) (initial : Content) (events : List (Event DestinationJob)) : Prop :=
  ∀ pre, pre <+: events →
    Kept destinationParts initial (Machine.run (step (makeDestination name)) (start initial) pre)

/-- Backup settings survive the bookkeeping just where every write finds what it copies as it was read,
and no outcome is written over one that was determined later. -/
theorem survives_iff (name : Chars) (schedule destination : Content) (onSchedule : List (Event ScheduleJob))
    (onDestination : List (Event DestinationJob)) :
    ScheduleSurvives schedule onSchedule ∧ DestinationSurvives name destination onDestination ↔
      Machine.Along (step makeSchedule) (fun s event => Current scheduleParts s event ∧ OnTime isRecording s event)
          (start schedule) onSchedule ∧
        Machine.Along (step (makeDestination name)) (Current destinationParts) (start destination) onDestination :=
  and_congr (kept_inOrder_along_iff copies_schedule isRecording schedule onSchedule)
    (kept_along_iff (copies_destination name) destination onDestination)

/-! ## A save during a run's last lines -/

def switchedOff : Fields := [("enabled", .bool false)]

/-- The schedule is switched off after the end of a run has read it and before it writes its outcome. -/
def overlapping : List (Event ScheduleJob) :=
  [.read 0 (.record "2026-01-02T03:20:00Z" ['o', 'k']), .read 1 (.save offline armed switchedOff),
    .prepare 1, .write 1, .prepare 0, .write 0]

theorem save_undone :
    Finished (Machine.run (step makeSchedule) (start armed.schedule) overlapping) ∧
      ¬ Kept scheduleParts armed.schedule (Machine.run (step makeSchedule) (start armed.schedule) overlapping) := by
  constructor
  · intro session
    match session with
    | 0 => rfl
    | 1 => rfl
    | _ + 2 => rfl
  · intro h
    have henabled : some (Value.bool true) = some (Value.bool false) :=
      congrArg (List.lookup "enabled") (h .settings)
    cases henabled

end EasyHaProxy.Backupd.Bookkeeping
