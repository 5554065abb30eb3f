import EasyHaProxy.Backupd.Schedule
import EasyHaProxy.Lib.Attempts

/-! Every call of an upload returns or raises. A `BackupdError` is a failure of its destination; any other
exception leaves the run. What the far end then holds is left to `Backupd.Destinations`. -/
namespace EasyHaProxy.Backupd.Outcomes

/-- What a call can raise: the exception of the daemon's own, or one it does not expect. -/
inductive Raised
  | backupd (text : Name)
  | timeoutExpired | osError | httpException | other
  deriving DecidableEq

/-- `subprocess.CompletedProcess`, its output decoded. -/
structure Completed where
  returncode : Int
  stdout : Name
  stderr : Name
  deriving DecidableEq

/-- What `upload_backup` reads of the archive. -/
structure Archived where
  expected : Name
  size : Nat
  remoteName : Name
  deriving DecidableEq

/-- A destination with its way of verifying: `verify: transfer`, or by its contents. -/
structure Record extends Destination where
  transferOnly : Bool
  deriving DecidableEq

/-- How the calls made for one destination end: the record and the archive that are read, the
requests to a bucket, and the sessions with an SFTP server. -/
structure Calls where
  record : Except Name Record
  archive : Except Raised Archived
  /-- The status and the body of the PUT of the archive, and the status of that of its checksum. -/
  put : Except Raised (Nat × Name)
  putChecksum : Except Raised Nat
  /-- The body of the listing; `none` for a status other than 200. -/
  body : Except Raised (Option Name)
  delete : Name → Except Raised Nat
  batch : Except Raised Completed
  probe : Except Raised Completed
  /-- Reading the copy back, with the digest of the file that came. -/
  download : Except Raised (Completed × Option Name)
  /-- The rows of `ls -1`; `none` when the command fails. -/
  rows : Except Raised (Option (List Name))
  prune : Except Raised Completed

structure Alert where
  rule : Name
  subject : Name
  summary : Name
  detail : Name
  deriving DecidableEq

inductive Event
  | tried (destination : Name)
  | alert (a : Alert)
  deriving DecidableEq

/-- The response of `upload_backup`; it is `ok` when there is no error. -/
structure Upload where
  destination : Name
  bytes : Nat
  verified : Bool
  verifiedBy : Name
  pruned : List Name
  error : Option Name
  deriving DecidableEq

def verifyDownloadMaxBytes : Nat := 2 * 1024 * 1024 * 1024

/-- `identifier`: 32 hexadecimal digits. -/
def isIdentifier (text : Name) : Bool :=
  text.length == 32 && text.all fun c => c.isDigit || ('a' ≤ c && c ≤ 'f')

/-- `_SHA256_RE.fullmatch`. -/
def isDigest (text : Name) : Bool :=
  text.length == 64 && text.all fun c => c.isDigit || ('a' ≤ c && c ≤ 'f')

/-! ## One upload -/

def firstWord (text : Name) : Name := (text.dropWhile Text.isSpace).takeWhile fun c => !Text.isSpace c

/-- The copy read back. -/
def verifyByDownload (calls : Calls) (a : Archived) : Except Raised (Bool × Name × Name) :=
  if verifyDownloadMaxBytes < a.size then
    .ok (false, "none".toList, "the far end cannot hash and the archive is too large to re-read".toList)
  else calls.download.map fun (done, digest) =>
    if done.returncode ≠ 0 ∨ digest = none then
      (false, "download".toList, "the copy could not be read back".toList)
    else if digest ≠ some a.expected then
      (false, "download".toList, "the copy read back does not match".toList)
    else (true, "download".toList, [])

/-- `verify_remote_copy`. -/
def verifyRemoteCopy (transferOnly : Bool) (calls : Calls) (a : Archived) : Except Raised (Bool × Name × Name) :=
  if transferOnly then .ok (true, "transfer".toList, [])
  else
    match calls.probe with
    | .error e => .error e
    | .ok done =>
      if done.returncode = 0 ∧ isDigest (firstWord done.stdout) = true then
        if firstWord done.stdout = a.expected then .ok (true, "remote-hash".toList, [])
        else .ok (false, "remote-hash".toList, "the far end reports different content".toList)
      else verifyByDownload calls a

/-- `s3_prune`: every victim with its checksum; the removals that succeeded are reported. -/
def s3Prune (calls : Calls) : List Name → Except Raised (List Name)
  | [] => .ok []
  | name :: rest =>
    match calls.delete name, calls.delete (checksumName name) with
    | .error e, _ => .error e
    | .ok _, .error e => .error e
    | .ok status, .ok _ =>
      (s3Prune calls rest).map fun removed =>
        if status = 200 ∨ status = 204 then name :: removed else removed

/-- The archives of a listing that fall outside the policy. -/
def s3Victims (record : Record) (body : Option Name) : List Name :=
  retentionVictims (match body with
    | none => []
    | some body => archiveNames (keysIn body.length body)) record.policy

def sftpVictims (record : Record) (rows : Option (List Name)) : List Name :=
  retentionVictims (match rows with
    | none => []
    | some rows => archiveNames (rows.map Text.strip)) record.policy

/-- `s3_upload` and the pruning after it. -/
def s3Upload (name : Name) (record : Record) (calls : Calls) (a : Archived) : Except Raised Upload :=
  match calls.put with
  | .error e => .error e
  | .ok (status, body) =>
    if status ≠ 200 ∧ status ≠ 201 then
      .error (.backupd ("the upload failed (".toList ++ (toString status).toList ++ "): ".toList ++
        (Text.strip body).take 400))
    else
      match calls.putChecksum, calls.body with
      | .error e, _ => .error e
      | .ok _, .error e => .error e
      | .ok _, .ok body =>
        (s3Prune calls (s3Victims record body)).map fun pruned =>
          ⟨name, a.size, true, "signed-put".toList, pruned, none⟩

def sftpPrune (record : Record) (calls : Calls) : Except Raised (List Name) :=
  match calls.rows with
  | .error e => .error e
  | .ok rows => if sftpVictims record rows = [] then .ok [] else calls.prune.map fun _ => sftpVictims record rows

/-- `f"{backup_id}@{record['name']}"`. -/
def subject (backupId name : Name) : Name := backupId ++ '@' :: name

def failedAlert (backupId name summary detail : Name) : Event :=
  .alert ⟨"backup.failed".toList, subject backupId name, summary, detail⟩

/-- The transfer by SFTP, its verification and the pruning after it. -/
def sftpUpload (backupId name : Name) (record : Record) (calls : Calls) (a : Archived) :
    Attempt Event Raised Upload :=
  match calls.batch with
  | .error e => ⟨[], .error e⟩
  | .ok done =>
    if done.returncode ≠ 0 then
      let detail := (Text.strip done.stderr).take 500
      ⟨[failedAlert backupId name "The off-host copy of the backup failed".toList detail],
        .error (.backupd ("the upload failed: ".toList ++ detail))⟩
    else
      match verifyRemoteCopy record.transferOnly calls a with
      | .error e => ⟨[], .error e⟩
      | .ok (false, method, detail) =>
        let error := if detail = [] then "the copy could not be verified".toList else detail
        ⟨[failedAlert backupId name "The off-host copy could not be verified".toList error],
          .ok ⟨name, a.size, false, method, [], some error⟩⟩
      | .ok (true, method, _) =>
        ⟨[], (sftpPrune record calls).map fun pruned => ⟨name, a.size, true, method, pruned, none⟩⟩

/-- `upload_backup`. -/
def uploadBackup (backupId name : Name) (calls : Calls) : Attempt Event Raised Upload :=
  if !isIdentifier backupId then ⟨[], .error (.backupd "invalid backup id".toList)⟩
  else
    match calls.record with
    | .error text => ⟨[], .error (.backupd text)⟩
    | .ok record =>
      match calls.archive with
      | .error e => ⟨[], .error e⟩
      | .ok a =>
        match record.place with
        | .s3 _ => ⟨[], s3Upload name record calls a⟩
        | .sftp _ => sftpUpload backupId name record calls a

/-! ## The run -/

/-- A scheduled destination, with what its calls do in this run. -/
abbrev Scheduled := Name × Calls

/-- What the loop keeps of an upload: the response, and the failure it notes. -/
structure Report where
  upload : Option Upload
  failure : Option Name

def failureText (name text : Name) : Name := name ++ ": ".toList ++ text

/-- The body of the loop: a `BackupdError` and a response that is not `ok` are failures. -/
def attempt (backupId : Name) (d : Scheduled) : Attempt Event Raised Report :=
  let upload := uploadBackup backupId d.1 d.2
  ⟨.tried d.1 :: upload.left,
    match upload.ended with
    | .ok response => .ok ⟨some response, response.error.map (failureText d.1)⟩
    | .error (.backupd text) => .ok ⟨none, some (failureText d.1 text)⟩
    | .error e => .error e⟩

/-- What a run did: the events, the text it recorded, the archives on this server, and how it ended. -/
structure Run where
  events : List Event
  recorded : Option Name
  spool : Spool
  ended : Except Raised Bool

/-- The archives `prune_local_backups` reports: those it took all three files of. -/
def prunedLocally (keep : Nat) (removals : Removals) (spool : Spool) : List Archive :=
  (localVictims keep removals spool).filter fun a => 3 ≤ removals.unlinks a.id

def separator : Name := "; ".toList

def outcomeText (failures : List Name) (copies removed : Nat) : Name :=
  (if failures ≠ [] then List.intercalate separator failures
    else "copied to ".toList ++ (toString copies).toList ++ " destination(s)".toList) ++
  (if removed ≠ 0 then "; removed ".toList ++ (toString removed).toList ++ " older local backup(s)".toList else [])

/-- The part of `run_scheduled_backup` that follows a finished backup, less the look at the free
space at its end. -/
def runScheduledBackup (backupId : Name) (destinations : List Scheduled) (keepLocal : Nat) (removals : Removals)
    (spool : Spool) : Run :=
  let all := Attempt.each (attempt backupId) destinations
  match all.ended with
  | .error e => ⟨all.left, none, spool, .error e⟩
  | .ok reports =>
    let uploads := reports.filterMap Report.upload
    let failures := reports.filterMap Report.failure
    if uploads ≠ [] ∧ failures = [] ∧ removals.lock = true then
      ⟨all.left, some ((outcomeText failures uploads.length (prunedLocally keepLocal removals spool).length).take 500),
        pruneLocalBackups keepLocal removals spool, .ok true⟩
    else ⟨all.left, some ((outcomeText failures uploads.length 0).take 500), spool, .ok failures.isEmpty⟩

/-! ## What a run owes -/

/-- The upload did not end in a response that is `ok`. -/
def failed (backupId : Name) (d : Scheduled) : Bool :=
  match (uploadBackup backupId d.1 d.2).ended with
  | .ok response => response.error.isSome
  | .error _ => true

/-- What is said of the failure. -/
def message (backupId : Name) (d : Scheduled) : Name :=
  match (uploadBackup backupId d.1 d.2).ended with
  | .ok response => response.error.getD []
  | .error (.backupd text) => text
  | .error _ => []

def triedName : Event → Option Name
  | .tried name => some name
  | .alert _ => none

def alertSubject : Event → Option Name
  | .tried _ => none
  | .alert a => if a.rule = "backup.failed".toList then some a.subject else none

def upTo (backupId : Name) (earlier : List Scheduled) (d : Scheduled) : Name :=
  (earlier.flatMap fun f => failureText f.1 (message backupId f) ++ separator) ++ d.1

/-- Every destination is tried; an outcome is recorded that has the name of every failed destination
in its place; archives go only when every destination returned a verified copy; and every failure
raises its alert. -/
structure Loud (backupId : Name) (destinations : List Scheduled) (spool : Spool) (run : Run) : Prop where
  tried : run.events.filterMap triedName = destinations.map Prod.fst
  recorded : ∃ text, run.recorded = some text ∧ ∀ earlier d later,
    destinations.filter (failed backupId) = earlier ++ d :: later → upTo backupId earlier d <+: text
  removed : run.spool ≠ spool → ∀ d ∈ destinations, ∃ response,
    (uploadBackup backupId d.1 d.2).ended = .ok response ∧ response.error = none ∧ response.verified = true
  alerts : run.events.filterMap alertSubject =
    (destinations.filter (failed backupId)).map fun d => subject backupId d.1

/-- No call to a bucket raises, and the bucket takes the archive. -/
def S3Runs (record : Record) (calls : Calls) : Prop :=
  (∃ status body, calls.put = .ok (status, body) ∧ (status = 200 ∨ status = 201)) ∧
    (∃ status, calls.putChecksum = .ok status) ∧
    ∃ body, calls.body = .ok body ∧ ∀ name ∈ s3Victims record body,
      (∃ status, calls.delete name = .ok status) ∧ ∃ status, calls.delete (checksumName name) = .ok status

/-- No session with an SFTP server raises: the transfer, and after one with exit code 0 the
verification, and after a verified copy the listing and the removals. -/
def SftpRuns (record : Record) (calls : Calls) (a : Archived) : Prop :=
  ∃ done, calls.batch = .ok done ∧
    (done.returncode = 0 → ∃ verdict, verifyRemoteCopy record.transferOnly calls a = .ok verdict ∧
      (verdict.1 = true → ∃ rows, calls.rows = .ok rows ∧
        (sftpVictims record rows ≠ [] → ∃ done, calls.prune = .ok done)))

/-- The destination and the archive can be read, and no call made for it raises. -/
def Runs (backupId : Name) (d : Scheduled) : Prop :=
  isIdentifier backupId = true ∧ ∃ record a, d.2.record = .ok record ∧ d.2.archive = .ok a ∧
    match record.place with
    | .s3 _ => S3Runs record d.2
    | .sftp _ => SftpRuns record d.2 a

/-- Up to the name of the last failure, what is said of the failures fits in 500 characters. -/
def Fits (backupId : Name) (destinations : List Scheduled) : Prop :=
  ∀ earlier d later, destinations.filter (failed backupId) = earlier ++ d :: later →
    (upTo backupId earlier d).length ≤ 500

/-! ## One upload -/

variable {backupId name : Name} {record : Record} {calls : Calls} {a : Archived} {d : Scheduled}
  {destinations : List Scheduled}

theorem s3Prune_returns_iff {victims : List Name} : (∃ removed, s3Prune calls victims = .ok removed) ↔
    ∀ name ∈ victims, (∃ status, calls.delete name = .ok status) ∧
      ∃ status, calls.delete (checksumName name) = .ok status := by
  induction victims with
  | nil => exact iff_of_true ⟨_, rfl⟩ (by simp)
  | cons name rest ih =>
    rw [List.forall_mem_cons, ← ih, s3Prune]
    cases calls.delete name with
    | error e => simp
    | ok status =>
      cases calls.delete (checksumName name) with
      | error e => simp
      | ok other => cases s3Prune calls rest <;> simp [Except.map]

theorem s3Upload_returns_iff (name : Name) (a : Archived) :
    (∃ response, s3Upload name record calls a = .ok response) ↔ S3Runs record calls := by
  unfold s3Upload S3Runs
  cases calls.put with
  | error e => simp
  | ok answer =>
    obtain ⟨status, body⟩ := answer
    dsimp only
    by_cases hstatus : status = 200 ∨ status = 201
    · rw [if_neg (by omega)]
      cases calls.putChecksum with
      | error e => simp
      | ok other =>
        cases calls.body with
        | error e => simp
        | ok listed =>
          dsimp only
          rw [Attempt.exists_map_ok, s3Prune_returns_iff]
          simp [hstatus]
    · rw [if_pos (by omega)]
      simp [hstatus]

theorem s3Upload_ok {response : Upload} (h : s3Upload name record calls a = .ok response) :
    response.error = none ∧ response.verified = true := by
  unfold s3Upload at h
  split at h
  · cases h
  split at h
  · cases h
  split at h
  · cases h
  · cases h
  · cases hprune : s3Prune calls (s3Victims record _) with
    | error e =>
      rw [hprune] at h
      cases h
    | ok removed =>
      rw [hprune] at h
      rw [← Except.ok.inj h]
      exact ⟨rfl, rfl⟩

theorem sftpPrune_returns_iff : (∃ pruned, sftpPrune record calls = .ok pruned) ↔
    ∃ rows, calls.rows = .ok rows ∧ (sftpVictims record rows ≠ [] → ∃ done, calls.prune = .ok done) := by
  unfold sftpPrune
  cases calls.rows with
  | error e => simp
  | ok rows =>
    dsimp only
    by_cases hnone : sftpVictims record rows = []
    · rw [if_pos hnone]
      exact iff_of_true ⟨_, rfl⟩ ⟨rows, rfl, fun h => absurd hnone h⟩
    · rw [if_neg hnone, Attempt.exists_map_ok]
      simp [hnone]

/-- The three ways an upload ends that say what happened: a verified copy, an unverified one with an
alert, a failed transfer with an alert. -/
inductive Told (backupId name : Name) : Attempt Event Raised Upload → Prop
  | verified {response : Upload} : response.error = none → response.verified = true →
      Told backupId name ⟨[], .ok response⟩
  | unverified {response : Upload} {summary detail text : Name} : response.error = some text →
      Told backupId name ⟨[failedAlert backupId name summary detail], .ok response⟩
  | refused {summary detail text : Name} :
      Told backupId name ⟨[failedAlert backupId name summary detail], .error (.backupd text)⟩

theorem sftpUpload_cases :
    (SftpRuns record calls a ∧ Told backupId name (sftpUpload backupId name record calls a)) ∨
      (¬ SftpRuns record calls a ∧ ∃ e, sftpUpload backupId name record calls a = ⟨[], .error e⟩) := by
  unfold sftpUpload SftpRuns
  cases calls.batch with
  | error e => exact Or.inr ⟨by simp, e, rfl⟩
  | ok done =>
    dsimp only
    by_cases hcode : done.returncode = 0
    swap
    · rw [if_pos hcode]
      exact Or.inl ⟨⟨done, rfl, fun h => absurd h hcode⟩, .refused⟩
    rw [if_neg (not_not.mpr hcode)]
    cases hverify : verifyRemoteCopy record.transferOnly calls a with
    | error e =>
      refine Or.inr ⟨?_, e, rfl⟩
      rintro ⟨done', hdone, hverdict⟩
      obtain rfl := Except.ok.inj hdone
      obtain ⟨verdict, hok, -⟩ := hverdict hcode
      cases hok
    | ok verdict =>
      obtain ⟨good, method, detail⟩ := verdict
      cases good with
      | false => exact Or.inl ⟨⟨done, rfl, fun _ => ⟨_, rfl, fun h => (by cases h)⟩⟩, .unverified rfl⟩
      | true =>
        dsimp only
        cases hprune : sftpPrune record calls with
        | ok pruned =>
          refine Or.inl ⟨⟨done, rfl, fun _ => ⟨_, rfl, fun _ => ?_⟩⟩, .verified rfl rfl⟩
          exact sftpPrune_returns_iff.mp ⟨pruned, hprune⟩
        | error e =>
          refine Or.inr ⟨?_, e, rfl⟩
          rintro ⟨done', hdone, hverdict⟩
          obtain rfl := Except.ok.inj hdone
          obtain ⟨verdict, hok, hrows⟩ := hverdict hcode
          obtain rfl := Except.ok.inj hok
          obtain ⟨pruned, hpruned⟩ := sftpPrune_returns_iff.mpr (hrows rfl)
          rw [hprune] at hpruned
          cases hpruned

/-- An upload whose calls all return says what happened; another one says nothing. -/
theorem upload_cases :
    (Runs backupId d ∧ Told backupId d.1 (uploadBackup backupId d.1 d.2)) ∨
      (¬ Runs backupId d ∧ ∃ e, uploadBackup backupId d.1 d.2 = ⟨[], .error e⟩) := by
  unfold uploadBackup Runs
  by_cases hid : isIdentifier backupId = true
  swap
  · rw [if_pos (by simpa using hid)]
    exact Or.inr ⟨fun h => hid h.1, _, rfl⟩
  rw [if_neg (by simpa using hid)]
  cases hrecord : d.2.record with
  | error text => exact Or.inr ⟨by simp, _, rfl⟩
  | ok record =>
    cases harchive : d.2.archive with
    | error e => exact Or.inr ⟨by simp, _, rfl⟩
    | ok a =>
      have hruns : (isIdentifier backupId = true ∧ ∃ r x, Except.ok record = (.ok r : Except Name Record) ∧
          Except.ok a = (.ok x : Except Raised Archived) ∧ (match r.place with
            | .s3 _ => S3Runs r d.2
            | .sftp _ => SftpRuns r d.2 x)) ↔
          (match record.place with
            | .s3 _ => S3Runs record d.2
            | .sftp _ => SftpRuns record d.2 a) := by
        simp [hid]
      rw [hruns]
      dsimp only
      cases record.place with
      | sftp path => exact sftpUpload_cases
      | s3 bucketPrefix =>
        dsimp only
        rw [← s3Upload_returns_iff d.1 a]
        cases hupload : s3Upload d.1 record d.2 a with
        | error e => exact Or.inr ⟨by simp, e, rfl⟩
        | ok response =>
          obtain ⟨herror, hverified⟩ := s3Upload_ok hupload
          exact Or.inl ⟨⟨response, rfl⟩, .verified herror hverified⟩

/-! ## The loop -/

def raised (backupId : Name) (d : Scheduled) : List Name :=
  (uploadBackup backupId d.1 d.2).left.filterMap alertSubject

theorem alertSubject_failedAlert (summary detail : Name) :
    alertSubject (failedAlert backupId name summary detail) = some (subject backupId name) := by
  unfold alertSubject failedAlert
  exact if_pos rfl

theorem raised_of_runs (h : Runs backupId d) :
    raised backupId d = if failed backupId d then [subject backupId d.1] else [] := by
  obtain ⟨-, htold⟩ := upload_cases.resolve_right fun hnot => hnot.1 h
  unfold raised failed
  generalize uploadBackup backupId d.1 d.2 = u at htold
  cases htold with
  | verified herror hverified => simp [herror]
  | unverified herror => simp [herror, alertSubject_failedAlert]
  | refused => simp [alertSubject_failedAlert]

theorem raised_of_not_runs (h : ¬ Runs backupId d) : failed backupId d = true ∧ raised backupId d = [] := by
  obtain ⟨-, e, he⟩ := upload_cases.resolve_left fun hruns => h hruns.1
  unfold raised failed
  rw [he]
  exact ⟨rfl, rfl⟩

theorem length_raised_le (backupId : Name) (destinations : List Scheduled) :
    (destinations.flatMap (raised backupId)).length ≤ (destinations.filter (failed backupId)).length := by
  induction destinations with
  | nil => exact le_rfl
  | cons d rest ih =>
    rw [List.flatMap_cons, List.length_append, List.filter_cons]
    by_cases hruns : Runs backupId d
    · rw [raised_of_runs hruns]
      split
      · rw [List.length_singleton, List.length_cons]
        omega
      · rw [List.length_nil]
        omega
    · obtain ⟨hfailed, hnone⟩ := raised_of_not_runs hruns
      rw [hfailed, hnone, if_pos rfl, List.length_nil, List.length_cons]
      omega

/-- As many alerts as failures: none of them was silent. -/
theorem runs_of_alerts {destinations : List Scheduled}
    (h : destinations.flatMap (raised backupId) =
      (destinations.filter (failed backupId)).map fun d => subject backupId d.1) :
    ∀ d ∈ destinations, Runs backupId d := by
  induction destinations with
  | nil => simp
  | cons d rest ih =>
    rw [List.flatMap_cons, List.filter_cons] at h
    by_cases hruns : Runs backupId d
    · rw [raised_of_runs hruns] at h
      rw [List.forall_mem_cons]
      refine ⟨hruns, ih ?_⟩
      split at h
      · simpa using h
      · exact h
    · obtain ⟨hfailed, hnone⟩ := raised_of_not_runs hruns
      rw [hfailed, hnone] at h
      have hlen := congrArg List.length h
      have hle := length_raised_le backupId rest
      rw [if_pos rfl, List.nil_append, List.length_map, List.length_cons] at hlen
      omega

theorem alerts_of_runs {destinations : List Scheduled} (h : ∀ d ∈ destinations, Runs backupId d) :
    destinations.flatMap (raised backupId) =
      (destinations.filter (failed backupId)).map fun d => subject backupId d.1 := by
  induction destinations with
  | nil => rfl
  | cons d rest ih =>
    obtain ⟨hd, hrest⟩ := List.forall_mem_cons.mp h
    rw [List.flatMap_cons, List.filter_cons, raised_of_runs hd, ih hrest]
    split <;> simp

theorem attempt_returns_of_runs (h : Runs backupId d) : (attempt backupId d).Returns := by
  obtain ⟨-, htold⟩ := upload_cases.resolve_right fun hnot => hnot.1 h
  unfold attempt Attempt.Returns
  dsimp only
  generalize uploadBackup backupId d.1 d.2 = u at htold
  cases htold <;> exact ⟨_, rfl⟩

/-- What an attempt that returns notes. -/
theorem attempt_failure {report : Report} (h : (attempt backupId d).ended = .ok report) :
    report.failure = if failed backupId d then some (failureText d.1 (message backupId d)) else none := by
  unfold attempt at h
  dsimp only at h
  unfold failed message
  split at h
  · rename_i response hresponse
    rw [← Except.ok.inj h, hresponse]
    obtain ⟨_, _, _, _, _, error⟩ := response
    cases error <;> rfl
  · rename_i text htext
    rw [← Except.ok.inj h, htext]
    rfl
  · cases h

theorem failures_eq {destinations : List Scheduled} {reports : List Report}
    (h : List.Forall₂ (fun d report => (attempt backupId d).ended = .ok report) destinations reports) :
    reports.filterMap Report.failure =
      (destinations.filter (failed backupId)).map fun d => failureText d.1 (message backupId d) := by
  induction h with
  | nil => rfl
  | cons hd _ ih =>
    rw [List.filterMap_cons, List.filter_cons, attempt_failure hd]
    split <;> simp_all

theorem triedName_upload : (uploadBackup backupId d.1 d.2).left.filterMap triedName = [] := by
  rcases upload_cases with ⟨-, htold⟩ | ⟨-, e, he⟩
  · generalize uploadBackup backupId d.1 d.2 = u at htold
    cases htold <;> rfl
  · rw [he]
    rfl

theorem events_eq (backupId : Name) (destinations : List Scheduled) :
    (destinations.flatMap fun d => (attempt backupId d).left).filterMap triedName = destinations.map Prod.fst ∧
      (destinations.flatMap fun d => (attempt backupId d).left).filterMap alertSubject =
        destinations.flatMap (raised backupId) := by
  induction destinations with
  | nil => exact ⟨rfl, rfl⟩
  | cons d rest ih =>
    rw [List.flatMap_cons, List.filterMap_append, List.filterMap_append, ih.1, ih.2]
    constructor
    · rw [List.map_cons]
      change (d.1 :: (uploadBackup backupId d.1 d.2).left.filterMap triedName) ++ _ = _
      rw [triedName_upload]
      rfl
    · rw [List.flatMap_cons]
      rfl

/-! ## The recorded text -/

theorem upTo_prefix {earlier later : List Scheduled} :
    upTo backupId earlier d <+: List.intercalate separator
      ((earlier ++ d :: later).map fun d => failureText d.1 (message backupId d)) := by
  induction earlier with
  | nil =>
    have hfirst : d.1 <+: failureText d.1 (message backupId d) := by
      rw [failureText, List.append_assoc]
      exact List.prefix_append _ _
    cases later with
    | nil => simpa [upTo] using hfirst
    | cons next later =>
      rw [List.nil_append, List.map_cons, List.map_cons, List.intercalate_cons_cons, List.append_assoc]
      exact hfirst.trans (List.prefix_append _ _)
  | cons f earlier ih =>
    have hne : (earlier ++ d :: later).map (fun d => failureText d.1 (message backupId d)) ≠ [] := by simp
    rw [List.cons_append, List.map_cons, List.intercalate_cons_of_ne_nil hne]
    unfold upTo at ih ⊢
    rw [List.flatMap_cons, List.append_assoc]
    exact (List.prefix_append_right_inj _).mpr ih

theorem upTo_prefix_take_iff {earlier later : List Scheduled} :
    upTo backupId earlier d <+: (List.intercalate separator
        ((earlier ++ d :: later).map fun d => failureText d.1 (message backupId d))).take 500 ↔
      (upTo backupId earlier d).length ≤ 500 := by
  rw [List.prefix_take_iff]
  exact and_iff_right upTo_prefix

theorem recorded_of_failures {failures : List Name} (h : failures ≠ []) (copies : Nat) :
    (outcomeText failures copies 0).take 500 = (List.intercalate separator failures).take 500 := by
  unfold outcomeText
  rw [if_pos h, if_neg (not_not.mpr rfl), List.append_nil]

variable (keepLocal : Nat) (removals : Removals) (spool : Spool)

/-- A run whose uploads all end in a response or a `BackupdError`. -/
theorem run_of_returns (h : ∀ d ∈ destinations, (attempt backupId d).Returns) :
    ∃ copies text, runScheduledBackup backupId destinations keepLocal removals spool =
      (if copies ≠ 0 ∧ destinations.filter (failed backupId) = [] ∧ removals.lock = true then
        ⟨destinations.flatMap fun d => (attempt backupId d).left, some text,
          pruneLocalBackups keepLocal removals spool, .ok true⟩
      else ⟨destinations.flatMap fun d => (attempt backupId d).left, some text, spool,
        .ok (destinations.filter (failed backupId)).isEmpty⟩) ∧
      (destinations.filter (failed backupId) ≠ [] → text = (List.intercalate separator
        ((destinations.filter (failed backupId)).map fun d => failureText d.1 (message backupId d))).take 500) := by
  obtain ⟨reports, hended, hreports, hleft⟩ := Attempt.each_of_returns h
  have hfailures := failures_eq hreports
  unfold runScheduledBackup
  dsimp only
  rw [hended, hleft]
  dsimp only
  rw [hfailures]
  have hiff : (reports.filterMap Report.upload ≠ [] ∧ (destinations.filter (failed backupId)).map
        (fun d => failureText d.1 (message backupId d)) = [] ∧ removals.lock = true) ↔
      ((reports.filterMap Report.upload).length ≠ 0 ∧ destinations.filter (failed backupId) = [] ∧
        removals.lock = true) := by
    rw [List.map_eq_nil_iff, ne_eq, ne_eq, List.length_eq_zero_iff]
  by_cases hprune : (reports.filterMap Report.upload).length ≠ 0 ∧ destinations.filter (failed backupId) = [] ∧
      removals.lock = true
  · rw [if_pos (hiff.mpr hprune)]
    exact ⟨_, _, (if_pos hprune).symm, fun hne => absurd hprune.2.1 hne⟩
  · rw [if_neg (mt hiff.mp hprune), List.isEmpty_map]
    refine ⟨_, _, (if_neg hprune).symm, fun hne => ?_⟩
    exact recorded_of_failures (by simpa using hne) _

variable {keepLocal removals spool}

theorem returns_of_recorded {text : Name}
    (h : (runScheduledBackup backupId destinations keepLocal removals spool).recorded = some text) :
    ∀ d ∈ destinations, (attempt backupId d).Returns := by
  apply Attempt.each_returns_iff.mp
  unfold runScheduledBackup at h
  dsimp only at h
  cases hended : (Attempt.each (attempt backupId) destinations).ended with
  | ok reports => exact ⟨reports, hended⟩
  | error e =>
    rw [hended] at h
    cases h

theorem returned_of_not_failed (hruns : Runs backupId d) (h : failed backupId d = false) :
    ∃ response, (uploadBackup backupId d.1 d.2).ended = .ok response ∧ response.error = none ∧
      response.verified = true := by
  obtain ⟨-, htold⟩ := upload_cases.resolve_right fun hnot => hnot.1 hruns
  unfold failed at h
  generalize uploadBackup backupId d.1 d.2 = u at htold h
  cases htold with
  | verified herror hverified => exact ⟨_, rfl, herror, hverified⟩
  | unverified herror => simp [herror] at h
  | refused => cases h

/-- A run is loud exactly when no call made for a destination raises and the names of the failures
fit in the recorded text. -/
theorem loud_iff (backupId : Name) (destinations : List Scheduled) (keepLocal : Nat) (removals : Removals)
    (spool : Spool) :
    Loud backupId destinations spool (runScheduledBackup backupId destinations keepLocal removals spool) ↔
      (∀ d ∈ destinations, Runs backupId d) ∧ Fits backupId destinations := by
  constructor
  · intro h
    obtain ⟨text, hrecorded, hnames⟩ := h.recorded
    obtain ⟨copies, said, hrun, hsaid⟩ :=
      run_of_returns keepLocal removals spool (returns_of_recorded hrecorded)
    rw [hrun] at h hrecorded
    refine ⟨runs_of_alerts ?_, ?_⟩
    · rw [← (events_eq backupId destinations).2, ← h.alerts]
      split <;> rfl
    · intro earlier d later hsplit
      have hne : destinations.filter (failed backupId) ≠ [] := by simp [hsplit]
      obtain rfl : said = text := by split at hrecorded <;> exact Option.some_inj.mp hrecorded
      have hprefix := hnames earlier d later hsplit
      rw [hsaid hne, hsplit] at hprefix
      exact upTo_prefix_take_iff.mp hprefix
  · rintro ⟨hruns, hfits⟩
    obtain ⟨copies, said, hrun, hsaid⟩ := run_of_returns keepLocal removals spool
      fun d hd => attempt_returns_of_runs (hruns d hd)
    obtain ⟨htried, halerts⟩ := events_eq backupId destinations
    rw [hrun]
    refine ⟨?_, ⟨said, ?_, ?_⟩, ?_, ?_⟩
    · rw [← htried]
      split <;> rfl
    · split <;> rfl
    · intro earlier d later hsplit
      have hne : destinations.filter (failed backupId) ≠ [] := by simp [hsplit]
      rw [hsaid hne, hsplit]
      exact upTo_prefix_take_iff.mpr (hfits earlier d later hsplit)
    · intro hchanged d hd
      have hnone : destinations.filter (failed backupId) = [] := by
        by_contra hsome
        rw [if_neg fun h => hsome h.2.1] at hchanged
        exact hchanged rfl
      have hnot : failed backupId d = false := by simpa using List.filter_eq_nil_iff.mp hnone d hd
      exact returned_of_not_failed (hruns d hd) hnot
    · rw [← alerts_of_runs hruns, ← halerts]
      split <;> rfl

/-! An SFTP server that stops answering in the middle of a transfer, before one that takes the copy. -/

def hanging : Calls where
  record := .ok ⟨oneDaily, true⟩
  archive := .ok ⟨[], 0, []⟩
  put := .error .other
  putChecksum := .error .other
  body := .error .other
  delete := fun _ => .error .other
  batch := .error .timeoutExpired
  probe := .error .other
  download := .error .other
  rows := .ok none
  prune := .error .other

def taking : Calls := { hanging with batch := .ok ⟨0, [], []⟩ }

/-- The timeout leaves the run: nothing is recorded, no alert is raised, and the second server is not
tried. -/
theorem timeout_ends_run_in_silence :
    ¬ ∀ (backupId : Name) (destinations : List Scheduled) (keepLocal : Nat) (removals : Removals) (spool : Spool),
      Loud backupId destinations spool (runScheduledBackup backupId destinations keepLocal removals spool) := by
  intro h
  obtain ⟨text, hrecorded, -⟩ := (h (idOf '1') [(['a'], hanging), (['b'], taking)] 1 freeHand aheadSpool).recorded
  have hid : isIdentifier (idOf '1') = true := by decide +kernel
  have hrun : (uploadBackup (idOf '1') ['a'] hanging).ended = .error .timeoutExpired := by
    rw [uploadBackup, if_neg (by simp [hid])]
    rfl
  obtain ⟨report, hreport⟩ := returns_of_recorded hrecorded (['a'], hanging) (by simp)
  unfold attempt at hreport
  dsimp only at hreport
  rw [hrun] at hreport
  cases hreport

end EasyHaProxy.Backupd.Outcomes
