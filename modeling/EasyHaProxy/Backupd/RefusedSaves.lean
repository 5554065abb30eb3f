import EasyHaProxy.Backupd.SavedSettings
import EasyHaProxy.Lib.Decimal

/-! A refused save leaves the records as they were, and the private files the request brings nothing for. -/
namespace EasyHaProxy.Backupd.Settings

open Yaml Validate

variable {host : Host} {s s' : Store} {request existing : Fields} {name : Chars} {checked : Sftp}
  {bucket : Bucket} {hostKey : Pin} {f f' : Files} {e : Failure} {record : Fields}

/-! ## What a request asks for -/

def AsksHostKey (host : Host) (request existing : Fields) : Prop :=
  Text.strip (textOr host (request.lookup "host_key")) ≠ [] ∨
    ¬ (flag existing "host_key_pinned" = true ∧
      existing.lookup "host" = some (text (Text.strip (textOr host (request.lookup "host")))) ∧
      portOf host (existing.lookup "port") = requestPort host (request.lookup "port"))

/-- The record stays, every file the request brings nothing for stays, and no credential is lost. -/
structure FilesKept (host : Host) (request : Fields) (f f' : Files) : Prop where
  record : f'.record = f.record
  key : textOr host (request.lookup "private_key") = [] → f'.key = f.key
  password : flag request "password" = false → f'.password = f.password
  secret : textOr host (request.lookup "secret_key") = [] → f'.secret = f.secret
  knownHosts : ¬ AsksHostKey host request (f.record.getD []) → f'.knownHosts = f.knownHosts
  keyStays : f.key.isSome = true → f'.key.isSome = true
  passwordStays : f.password.isSome = true → f'.password.isSome = true
  secretStays : f.secret.isSome = true → f'.secret.isSome = true
  knownHostsStay : f.knownHosts.isSome = true → f'.knownHosts.isSome = true

/-- The checks of `save_destination` before it writes anything. -/
def firstChecks (host : Host) (s : Store) (request : Fields) : Except Failure Unit := do
  let name ← destinationName host (some (text (lowered host (request.lookup "name"))))
  let kind := lowered host (request.lookup "type")
  if kind = ['s', '3'] then discard (checkBucket host request (existingOf s name))
  else if kind = ['s', 'f', 't', 'p'] then discard (checkSftp host request (existingOf s name))
  else .error (invalid "unsupported destination type")

/-- A refused save of a destination: one destination at most is touched, and it is kept so far. -/
structure DestinationKept (host : Host) (request : Fields) (s s' : Store) : Prop where
  others : ∀ name, destinationName host (some (text (lowered host (request.lookup "name")))) ≠ .ok name →
    s'.files name = s.files name
  files : ∀ name, FilesKept host request (s.files name) (s'.files name)
  schedule : s'.schedule = s.schedule
  passphrase : s'.passphrase = s.passphrase
  timer : s'.timer = s.timer
  early : (∃ e, firstChecks host s request = .error e) → s' = s

/-! ## A destination -/

theorem FilesKept.refl : FilesKept host request f f :=
  ⟨rfl, fun _ => rfl, fun _ => rfl, fun _ => rfl, fun _ => rfl, id, id, id, id⟩

def Credential.Brought (host : Host) (request : Fields) : Credential → Prop
  | .none => True
  | .key _ => textOr host (request.lookup "private_key") ≠ []
  | .password _ => flag request "password" = true
  | .secret _ => textOr host (request.lookup "secret_key") ≠ []

theorem brought_of_sftpCredential {auth : Chars} {c : Credential}
    (h : sftpCredential host request existing auth = .ok c) : c.Brought host request := by
  unfold sftpCredential at h
  simp only at h
  split at h
  · split at h
    next hkey =>
      split at h
      · cases h
        exact hkey
      · cases h
    · split at h
      · cases h
        trivial
      · cases h
  · split at h
    next hpassword =>
      split at h
      · split at h
        · cases h
        · cases h
          exact hpassword
      · cases h
    · split at h
      · cases h
        trivial
      · cases h

theorem brought_of_checkSftp (h : checkSftp host request existing = .ok checked) :
    checked.credential.Brought host request := by
  simp only [checkSftp, bind_eq_ok, pure_eq_ok] at h
  obtain ⟨_, _, _, _, _, _, _, _, _, _, credential, hc, rfl⟩ := h
  exact brought_of_sftpCredential hc

theorem brought_of_checkBucket (h : checkBucket host request existing = .ok bucket) :
    bucket.credential.Brought host request := by
  simp only [checkBucket, bind_eq_ok, pure_eq_ok] at h
  obtain ⟨_, _, _, _, _, _, _, _, _, _, _, _, _, _, rfl⟩ := h
  dsimp only
  split
  · trivial
  next hsecret => exact hsecret

theorem checkSftp_endpoint (h : checkSftp host request existing = .ok checked) :
    checked.host = Text.strip (textOr host (request.lookup "host")) ∧
      requestPort host (request.lookup "port") = .ok checked.port := by
  simp only [checkSftp, bind_eq_ok, pure_eq_ok] at h
  obtain ⟨_, _, _, _, _, hport, _, _, _, _, _, _, rfl⟩ := h
  exact ⟨rfl, hport⟩

theorem sameEndpoint_eq_true (hhost : existing.lookup "host" = some (text checked.host))
    (hport : portOf host (existing.lookup "port") = .ok checked.port) :
    sameEndpoint host existing checked = .ok true := by
  unfold sameEndpoint
  rw [hhost, text, hport]
  simp [Except.map]

theorem asksHostKey_of_pinOf (hchecked : checkSftp host request existing = .ok checked)
    (h : pinOf host request existing checked = .ok hostKey) {content : Chars}
    (hw : hostKey.written = some content) : AsksHostKey host request existing := by
  obtain ⟨hhost, hport⟩ := checkSftp_endpoint hchecked
  refine or_iff_not_imp_right.mpr fun hpinned => ?_
  obtain ⟨hflag, hsame, hsamePort⟩ := not_not.mp hpinned
  rw [← hhost] at hsame
  rw [hport] at hsamePort
  simp only [pinOf, bind_eq_ok] at h
  obtain ⟨same, hs, _, -, h⟩ := h
  obtain rfl : true = same := Except.ok.inj ((sameEndpoint_eq_true hsame hsamePort).symm.trans hs)
  intro hnone
  rw [if_neg (not_not.mpr hnone), if_pos ⟨hflag, rfl⟩] at h
  cases h
  cases hw

theorem FilesKept.write {c : Credential} (hc : c.Brought host request) :
    FilesKept host request f (f.write c) := by
  cases c with
  | none => exact FilesKept.refl
  | key content =>
    exact ⟨rfl, fun h => absurd h hc, fun _ => rfl, fun _ => rfl, fun _ => rfl, fun _ => rfl, id, id, id⟩
  | password content =>
    exact ⟨rfl, fun _ => rfl, fun h => absurd (h.symm.trans hc) Bool.false_ne_true, fun _ => rfl,
      fun _ => rfl, id, fun _ => rfl, id, id⟩
  | secret content =>
    exact ⟨rfl, fun _ => rfl, fun _ => rfl, fun h => absurd h hc, fun _ => rfl, id, id, fun _ => rfl, id⟩

theorem FilesKept.pin (h : FilesKept host request f f') {written : Option Chars}
    (hw : ∀ content, written = some content → AsksHostKey host request (f.record.getD [])) :
    FilesKept host request f (f'.pin written) := by
  cases written with
  | none => exact h
  | some content =>
    exact { h with
      knownHosts := fun hnot => absurd (hw content rfl) hnot
      knownHostsStay := fun _ => rfl }

/-! ## Where a save can end -/

theorem replaceRecord_error (h : s.replaceRecord host name record = (.error e, s')) : s' = s := by
  unfold Store.replaceRecord at h
  split at h
  · cases h
  · exact (Prod.mk.inj h).2.symm

/-- A refused save of an SFTP server ends before it writes, after the credential, or after the key it pins. -/
theorem saveSftp_error (h : saveSftp host s request name = (.error e, s')) :
    s' = s ∨ ∃ checked, checkSftp host request (existingOf s name) = .ok checked ∧
      ∃ written, (∀ content, written = some content → AsksHostKey host request (existingOf s name)) ∧
        s' = s.update name (((s.files name).write checked.credential).pin written) := by
  unfold saveSftp at h
  split at h
  · exact Or.inl (Prod.mk.inj h).2.symm
  next checked hchecked =>
    refine Or.inr ⟨checked, hchecked, ?_⟩
    simp only at h
    split at h
    · refine ⟨none, ?_, (Prod.mk.inj h).2.symm⟩
      intro _ hnone
      cases hnone
    next hostKey hpin =>
      refine ⟨hostKey.written, fun content => asksHostKey_of_pinOf hchecked hpin, ?_⟩
      have hstore : s' = (s.update name ((s.files name).write checked.credential)).update name
          (((s.update name ((s.files name).write checked.credential)).files name).pin hostKey.written) := by
        split at h
        · exact (Prod.mk.inj h).2.symm
        · exact replaceRecord_error h
      rw [hstore]
      simp [Store.update]

theorem saveS3Destination_error (h : saveS3Destination host s request name = (.error e, s')) :
    s' = s ∨ ∃ bucket, checkBucket host request (existingOf s name) = .ok bucket ∧
      s' = s.update name ((s.files name).write bucket.credential) := by
  unfold saveS3Destination at h
  split at h
  · exact Or.inl (Prod.mk.inj h).2.symm
  next bucket hbucket =>
    refine Or.inr ⟨bucket, hbucket, ?_⟩
    simp only at h
    split at h
    · exact (Prod.mk.inj h).2.symm
    · exact replaceRecord_error h

theorem DestinationKept.refl : DestinationKept host request s s :=
  ⟨fun _ _ => rfl, fun _ => FilesKept.refl, rfl, rfl, rfl, fun _ => rfl⟩

theorem update_files_of_ne {other : Chars} (h : other ≠ name) :
    (s.update name f).files other = s.files other := by
  simp [Store.update, h]

theorem FilesKept.update (h : FilesKept host request (s.files name) f) (other : Chars) :
    FilesKept host request (s.files other) ((s.update name f).files other) := by
  by_cases ho : other = name
  · subst ho
    simpa [Store.update] using h
  · rw [update_files_of_ne ho]
    exact FilesKept.refl

theorem DestinationKept.of_update
    (hname : destinationName host (some (text (lowered host (request.lookup "name")))) = .ok name)
    (hfirst : firstChecks host s request = .ok ()) (h : FilesKept host request (s.files name) f) :
    DestinationKept host request s (s.update name f) where
  others other hne := by
    exact update_files_of_ne fun heq => hne (heq ▸ hname)
  files := h.update
  schedule := rfl
  passphrase := rfl
  timer := rfl
  early := by
    rintro ⟨e, he⟩
    rw [hfirst] at he
    cases he

theorem discard_eq_ok {α : Type} {x : Except Failure α} {a : α} (h : x = .ok a) : discard x = .ok () := by
  rw [h]
  rfl

/-- A refused `save_destination` leaves every record, and all it was not asked to replace. -/
theorem destinationKept (h : saveDestination host s request = (.error e, s')) :
    DestinationKept host request s s' := by
  unfold saveDestination at h
  split at h
  · rw [(Prod.mk.inj h).2]
    exact DestinationKept.refl
  next name hname =>
    have hfirst : firstChecks host s request =
        (if lowered host (request.lookup "type") = ['s', '3'] then
          discard (checkBucket host request (existingOf s name))
        else if lowered host (request.lookup "type") = ['s', 'f', 't', 'p'] then
          discard (checkSftp host request (existingOf s name))
        else .error (invalid "unsupported destination type")) := by
      rw [firstChecks, hname]
      rfl
    simp only at h
    split at h
    next hkind =>
      rw [if_pos hkind] at hfirst
      rcases saveS3Destination_error h with rfl | ⟨bucket, hbucket, rfl⟩
      · exact DestinationKept.refl
      · refine DestinationKept.of_update hname (hfirst.trans (discard_eq_ok hbucket)) ?_
        exact FilesKept.write (brought_of_checkBucket hbucket)
    next hs3 =>
      rw [if_neg hs3] at hfirst
      split at h
      next hkind =>
        rw [if_pos hkind] at hfirst
        rcases saveSftp_error h with rfl | ⟨checked, hchecked, written, hw, rfl⟩
        · exact DestinationKept.refl
        · refine DestinationKept.of_update hname (hfirst.trans (discard_eq_ok hchecked)) ?_
          exact (FilesKept.write (brought_of_checkSftp hchecked)).pin hw
      · rw [(Prod.mk.inj h).2]
        exact DestinationKept.refl

/-! ## The schedule -/

/-- The checks of `save_schedule` before it writes anything. -/
def scheduleFirstChecks (host : Host) (s : Store) (request : Fields) : Except Failure Unit := do
  let current ← loadSchedule host s
  let _ ← chosenNames host s request current
  discard (passphraseAfter s request)

def SavedAsAsked (host : Host) (request : Fields) (s s' : Store) : Prop :=
  ∃ current chosen written record time, loadSchedule host s = .ok current ∧
    chosenNames host s request current = .ok chosen ∧ passphraseAfter s request = .ok written ∧
    wantedRecord host written request current chosen = .ok (record, time) ∧
    s' = { written with schedule := some record, timer := some time }

/-- A refused save of the schedule: the record stays unless the timer alone has failed, and the
passphrase stays unless the request brings another or takes it away. -/
structure ScheduleKept (host : Host) (request : Fields) (s s' : Store) (e : Failure) : Prop where
  files : s'.files = s.files
  record : s'.schedule = s.schedule ∧ s'.timer = s.timer ∨
    SavedAsAsked host request s s' ∧ ∃ detail, host.timerFails = some detail ∧
      e = invalid ("the schedule was saved but the timer could not be updated: " ++ detail)
  passphrase : (∀ p, request.lookup "passphrase" ≠ some (.str p)) → s'.passphrase = s.passphrase
  passphraseStays : request.lookup "passphrase" ≠ some (.str "") → s.passphrase.isSome = true →
    s'.passphrase.isSome = true
  early : (∃ e, scheduleFirstChecks host s request = .error e) → s' = s

section Schedule

variable {current : Schedule} {chosen : List Chars} {written : Store} {time default : Chars}

/-- A time that reads as itself. -/
def GoodTime (time : Chars) : Prop := isTime time = true ∧ Text.strip time = time

theorem goodTime_of_scheduleTime {v : Option Value} (hd : GoodTime default)
    (h : scheduleTime host v default = .ok time) : GoodTime time := by
  unfold scheduleTime at h
  simp only at h
  split at h
  · cases h
    exact hd
  · split at h
    next htime =>
      cases h
      exact ⟨htime, Text.strip_strip⟩
    · cases h

theorem textOr_text {l : Chars} (h : l ≠ []) : textOr host (some (text l)) = l := by
  have hne : String.ofList l ≠ "" := fun he => h (by simpa using congrArg String.toList he)
  simp [textOr, text, Value.truthy, Value.text, hne]

theorem scheduleTime_text (h : GoodTime time) : scheduleTime host (some (text time)) default = .ok time := by
  have hne : time ≠ [] := by
    rintro rfl
    exact absurd h.1 (by decide)
  unfold scheduleTime
  simp only [textOr_text hne, h.2, if_neg hne, if_pos h.1]

theorem goodTime_current (h : loadSchedule host s = .ok current) : GoodTime current.time := by
  simp only [loadSchedule, bind_eq_ok, pure_eq_ok] at h
  obtain ⟨_, _, time, htime, rfl⟩ := h
  exact goodTime_of_scheduleTime ⟨by decide, by decide⟩ htime

theorem lookup_wantedRecord {record : Fields} (hcurrent : GoodTime current.time)
    (h : wantedRecord host written request current chosen = .ok (record, time)) :
    record.lookup "destinations" = some (.list (chosen.map text)) ∧
      record.lookup "time" = some (text time) ∧ GoodTime time := by
  simp only [wantedRecord, bind_eq_ok, pure_eq_ok] at h
  obtain ⟨_, _, _, _, _, htime, _, _, h⟩ := h
  obtain ⟨rfl, rfl⟩ := Prod.mk.inj h
  exact ⟨rfl, rfl, goodTime_of_scheduleTime hcurrent htime⟩

theorem loadSchedule_saved {record : Fields} {saved : Store} (hcurrent : GoodTime current.time)
    (h : wantedRecord host written request current chosen = .ok (record, time))
    (hs : saved.schedule = some record) : ∃ schedule, loadSchedule host saved = .ok schedule := by
  obtain ⟨hnames, htime, hgood⟩ := lookup_wantedRecord hcurrent h
  unfold loadSchedule
  simp only [hs, Option.getD_some, hnames, htime, scheduleTime_text hgood]
  exact ⟨_, rfl⟩

theorem writeTimerTime_error {record : Fields} {saved : Store} (hcurrent : GoodTime current.time)
    (hwanted : wantedRecord host written request current chosen = .ok (record, time))
    (hs : saved.schedule = some record)
    (h : ((writeTimerTime host saved time).1 >>= fun _ => loadSchedule host (writeTimerTime host saved time).2) =
      .error e) :
    ∃ detail, host.timerFails = some detail ∧
      e = invalid ("the schedule was saved but the timer could not be updated: " ++ detail) := by
  unfold writeTimerTime at h
  cases hfails : host.timerFails with
  | some detail =>
    rw [hfails] at h
    exact ⟨detail, rfl, (Except.error.inj h).symm⟩
  | none =>
    rw [hfails] at h
    obtain ⟨_, hloaded⟩ : ∃ schedule, loadSchedule host { saved with timer := some time } = .ok schedule :=
      loadSchedule_saved hcurrent hwanted hs
    change loadSchedule host { saved with timer := some time } = .error e at h
    rw [hloaded] at h
    cases h

theorem passphraseAfter_kept (h : passphraseAfter s request = .ok written) :
    written.files = s.files ∧ written.schedule = s.schedule ∧ written.timer = s.timer ∧
      ((∀ p, request.lookup "passphrase" ≠ some (.str p)) → written.passphrase = s.passphrase) ∧
      (request.lookup "passphrase" ≠ some (.str "") → s.passphrase.isSome = true →
        written.passphrase.isSome = true) := by
  unfold passphraseAfter at h
  split at h
  next p hp =>
    split at h
    next hempty =>
      cases h
      exact ⟨rfl, rfl, rfl, fun hnot => absurd hp (hnot p), fun hnot => absurd (hempty ▸ hp) hnot⟩
    · cases hr : requirePassphrase (request.lookup "passphrase") with
      | error e =>
        rw [hr] at h
        cases h
      | ok content =>
        rw [hr] at h
        cases h
        exact ⟨rfl, rfl, rfl, fun hnot => absurd hp (hnot p), fun _ _ => rfl⟩
  · cases h
    exact ⟨rfl, rfl, rfl, fun _ => rfl, fun _ => id⟩

theorem scheduleFirstChecks_eq_ok (hload : loadSchedule host s = .ok current)
    (hchosen : chosenNames host s request current = .ok chosen)
    (hwritten : passphraseAfter s request = .ok written) : scheduleFirstChecks host s request = .ok () := by
  rw [scheduleFirstChecks, hload]
  change (chosenNames host s request current >>= _) = _
  rw [hchosen]
  exact discard_eq_ok hwritten

theorem ScheduleKept.refl : ScheduleKept host request s s e :=
  ⟨rfl, Or.inl ⟨rfl, rfl⟩, fun _ => rfl, fun _ => id, fun _ => rfl⟩

/-- A refused `save_schedule` leaves the schedule, and all it was not asked to replace, unless the
timer alone failed. -/
theorem scheduleKept (h : saveSchedule host s request = (.error e, s')) :
    ScheduleKept host request s s' e := by
  unfold saveSchedule at h
  split at h
  · rw [(Prod.mk.inj h).2]
    exact ScheduleKept.refl
  next current hload =>
    split at h
    · rw [(Prod.mk.inj h).2]
      exact ScheduleKept.refl
    next chosen hchosen =>
      split at h
      · rw [(Prod.mk.inj h).2]
        exact ScheduleKept.refl
      next written hwritten =>
        obtain ⟨hfiles, hrecord, htimer, hpass, hstays⟩ := passphraseAfter_kept hwritten
        have hfirst := scheduleFirstChecks_eq_ok hload hchosen hwritten
        have hearly (t : Store) : (∃ e, scheduleFirstChecks host s request = .error e) → t = s := by
          rintro ⟨_, he⟩
          rw [hfirst] at he
          cases he
        have hunsaved : ScheduleKept host request s written e :=
          ⟨hfiles, Or.inl ⟨hrecord, htimer⟩, hpass, hstays, hearly written⟩
        split at h
        · rw [← (Prod.mk.inj h).2]
          exact hunsaved
        next record time hwanted =>
          split at h
          · simp only at h
            have hgood := goodTime_current hload
            split at h
            · obtain ⟨_, hloaded⟩ : ∃ schedule, loadSchedule host { written with schedule := some record } =
                  .ok schedule := loadSchedule_saved hgood hwanted rfl
              rw [hloaded] at h
              cases (Prod.mk.inj h).1
            · obtain ⟨hresult, rfl⟩ := Prod.mk.inj h
              obtain ⟨detail, hfails, he⟩ := writeTimerTime_error hgood hwanted rfl hresult
              refine ⟨hfiles, Or.inr ⟨?_, detail, hfails, he⟩, hpass, hstays, hearly _⟩
              exact ⟨current, chosen, written, record, time, hload, hchosen, hwritten, hwanted, rfl⟩
          · rw [← (Prod.mk.inj h).2]
            exact hunsaved

end Schedule

/-- What a refused save leaves alone, whichever of the three saves it is. -/
theorem refused_saves_keep (host : Host) (s : Store) (request : Fields) (e : Failure) (s' : Store) :
    (saveDestination host s request = (.error e, s') → DestinationKept host request s s') ∧
      (saveSchedule host s request = (.error e, s') → ScheduleKept host request s s' e) :=
  ⟨destinationKept, scheduleKept⟩

/-! ## When nothing changes -/

/-- A request that is refused leaves the store as it was. -/
def Unchanged {α : Type} (s : Store) (outcome : Except Failure α × Store) : Prop :=
  ∀ e s', outcome = (.error e, s') → s' = s

section Settles

variable {α : Type} {t : Store} {current : Schedule} {chosen : List Chars} {written : Store} {time : Chars}

theorem update_eq_self : s.update name f = s ↔ f = s.files name := by
  constructor
  · intro h
    have hfiles := congrFun (congrArg Store.files h) name
    simpa [Store.update] using hfiles
  · rintro rfl
    simp [Store.update]

end Settles

/-- A host that knows the ASCII digits, has no network and takes every record. -/
def offline : Host where
  py := {
    digit := fun c => if c.isDigit then some (c.toNat - 48) else none
    digit_plain := Text.digit_plain_of_isDigit
    lower := Text.lower
    nfkc := id
    bracketed := fun _ => true }
  str := fun _ => ""
  whole := fun _ => .error .malformed
  isDigit := Char.isDigit
  listLimit := 50
  now := "2026-01-01T00:00:00Z"
  keyscan := fun _ _ => .ok ([], [])
  fingerprints := fun _ => []
  fits := fun _ => true
  timerFails := none

def armed : Store where
  files := fun name => ⟨if name = ['n', 'a', 's'] then some [("name", .str "nas")] else none, none, none, none, none⟩
  schedule := some [("enabled", .bool true), ("destinations", .list [.str "nas"])]
  passphrase := some (encode ['s', 'e', 'c', 'r', 'e', 't', '-', 's', 'e', 'c', 'r', 'e', 't'])
  timer := none

end EasyHaProxy.Backupd.Settings
