import EasyHaProxy.Backupd.Destinations
import Mathlib

/-! A run sends its archive to every destination of the schedule. When all of them hold a copy, the newest
archives on this server stay and the rest goes. -/
namespace EasyHaProxy.Backupd

/-- An archive in the backup directory, by its metadata file. -/
structure Archive where
  id : Name
  /-- The text `created_at` is sorted by. -/
  created : Name
  /-- Whether it passes every check of `all_backups`. -/
  valid : Bool
  deriving DecidableEq, Repr

/-- The backup directory in the order it is read; an id is a file name. -/
structure Spool where
  archives : List Archive
  nodup : (archives.map Archive.id).Nodup

def allBackups (spool : Spool) : List Archive :=
  Retention.newestFirst Archive.created (spool.archives.filter Archive.valid)

/-- What stands in the way of local retention. -/
structure Removals where
  /-- `acquire_operation` succeeds. -/
  lock : Bool
  /-- The archives a restore has been staged from. -/
  staged : List Name
  /-- How many of its three files a removal takes away before it fails, the archive first. -/
  unlinks : Name → Nat

/-- The archives `prune_local_backups` takes the files of. -/
def localVictims (keep : Nat) (removals : Removals) (spool : Spool) : List Archive :=
  ((allBackups spool).drop (max keep 1)).filter fun a => !removals.staged.contains a.id && 0 < removals.unlinks a.id

def pruneLocalBackups (keep : Nat) (removals : Removals) (spool : Spool) : Spool where
  archives := spool.archives.filter fun a => a ∉ localVictims keep removals spool
  nodup := spool.nodup.sublist (List.filter_sublist.map _)

/-- One upload after the other; a destination that cannot be loaded is a failure of its own. -/
def uploads (records : Name → Option Destination) (far : Name → FarEnd) (name : Name) :
    List Name → (Name → Finset Name) → List (Except Unit Response) × (Name → Finset Name)
  | [], holds => ([], holds)
  | dest :: dests, holds =>
    match records dest with
    | none =>
      let rest := uploads records far name dests holds
      (.error () :: rest.1, rest.2)
    | some record =>
      let outcome := uploadBackup (far dest) record name (holds dest)
      let rest := uploads records far name dests (Function.update holds dest outcome.2)
      (outcome.1 :: rest.1, rest.2)

def succeeded : Except Unit Response → Bool
  | .ok response => response.ok
  | .error _ => false

/-- The part of `run_scheduled_backup` that follows a finished backup. -/
def runScheduledBackup (records : Name → Option Destination) (far : Name → FarEnd)
    (destinations : List Name) (keepLocal : Nat) (removals : Removals) (name : Name)
    (holds : Name → Finset Name) (spool : Spool) : List (Except Unit Response) × Spool :=
  let outcomes := (uploads records far name destinations holds).1
  if outcomes ≠ [] ∧ outcomes.all succeeded ∧ removals.lock then
    (outcomes, pruneLocalBackups keepLocal removals spool)
  else (outcomes, spool)

/-! ## Which archives stay -/

variable {far : FarEnd} {dest : Destination} {name : Name} {files : Finset Name}
  {removals : Removals} {spool : Spool} {keepLocal : Nat} {a : Archive} {pre post : List Archive}

/-- The archives that come before `a` when the newest is first: those made later, and those of the
same moment that the directory lists first. -/
def newer (pre : List Archive) (a : Archive) (post : List Archive) : Nat :=
  pre.countP (fun b => b.valid ∧ a.created ≤ b.created) +
    post.countP (fun b => b.valid ∧ a.created < b.created)

theorem mem_localVictims (hs : spool.archives = pre ++ a :: post) :
    a ∈ localVictims keepLocal removals spool ↔
      (a.valid = true ∧ max keepLocal 1 ≤ newer pre a post) ∧
        a.id ∉ removals.staged ∧ 0 < removals.unlinks a.id := by
  have hnodup : (pre ++ a :: post).Nodup := hs ▸ List.Nodup.of_map _ spool.nodup
  have hkept : (!removals.staged.contains a.id && decide (0 < removals.unlinks a.id)) = true ↔
      a.id ∉ removals.staged ∧ 0 < removals.unlinks a.id := by simp
  rw [localVictims, List.mem_filter, hkept]
  refine and_congr_left fun _ => ?_
  by_cases hv : a.valid = true
  · have hvalid : spool.archives.filter Archive.valid =
        pre.filter Archive.valid ++ a :: post.filter Archive.valid := by
      rw [hs, List.filter_append, List.filter_cons_of_pos hv]
    have hsub : (pre.filter Archive.valid ++ a :: post.filter Archive.valid).Nodup := by
      rw [← hvalid, hs]
      exact hnodup.filter _
    rw [allBackups, hvalid, Retention.mem_drop_newestFirst hsub, and_iff_right hv, newer,
      List.countP_filter, List.countP_filter]
    simp only [Bool.decide_and, Bool.decide_eq_true, Bool.and_comm]
    convert Iff.rfl
  · refine iff_of_false (fun hm => hv ?_) (fun hm => hv hm.1)
    have hm : a ∈ spool.archives.filter Archive.valid :=
      (List.mem_insertionSort _).mp (List.mem_of_mem_drop hm)
    exact List.of_mem_filter hm

/-- The far end keeps the copy: it is not listed, it carries no date, the policy keeps it among
what is listed, or its removal fails. -/
def RemoteSafe (far : FarEnd) (dest : Destination) (name : Name) (files : Finset Name) : Prop :=
  far.removes (dest.place.path name) = false ∨
    name ∉ dest.place.listing far (put far.storesChecksum dest.place name files) ∨
    ∀ day, dayOf name = some day → Retained dest.policy
      (dest.place.listing far (put far.storesChecksum dest.place name files)) day name

/-- This server keeps the archive: it is not one retention looks at, fewer than the count are newer,
a restore holds on to it, or its removal fails. -/
def LocalSafe (keepLocal : Nat) (removals : Removals) (pre : List Archive) (a : Archive)
    (post : List Archive) : Prop :=
  a.valid = false ∨ newer pre a post < max keepLocal 1 ∨ a.id ∈ removals.staged ∨
    removals.unlinks a.id = 0

theorem not_victim_iff (listed : List Name) (policy : Policy) :
    name ∉ retentionVictims listed policy ↔
      name ∉ listed ∨ ∀ day, dayOf name = some day → Retained policy listed day name := by
  cases hd : dayOf name with
  | none => simp [not_mem_retentionVictims hd]
  | some day =>
    rw [mem_retentionVictims hd, not_and_not_right, imp_iff_not_or]
    simp

theorem mem_archives_after_run {records : Name → Option Destination} {fars : Name → FarEnd}
    {destinations : List Name} {holds : Name → Finset Name}
    (hs : spool.archives = pre ++ a :: post)
    (hok : (uploads records fars name destinations holds).1.all succeeded = true) :
    a ∈ (runScheduledBackup records fars destinations keepLocal removals name holds spool).2.archives ↔
      destinations = [] ∨ removals.lock = false ∨ LocalSafe keepLocal removals pre a post := by
  have hm : a ∈ spool.archives := by simp [hs]
  have hempty : (uploads records fars name destinations holds).1 = [] ↔ destinations = [] := by
    cases destinations with
    | nil => simp [uploads]
    | cons dest dests =>
      rw [uploads]
      split <;> simp
  unfold runScheduledBackup
  by_cases hd : destinations = []
  · simp [hd, hm, uploads]
  · by_cases hl : removals.lock = true
    · simp only [ne_eq, hempty, hd, not_false_eq_true, hok, hl, and_self, if_true, false_or,
        Bool.true_eq_false, pruneLocalBackups, List.mem_filter, hm, true_and, decide_eq_true_iff,
        mem_localVictims hs, LocalSafe]
      rw [not_and_or, not_and_or, not_and_or, Bool.not_eq_true, not_le, not_not, not_lt, Nat.le_zero,
        or_assoc]
    · simp [hl, hm]

/-- The copy a successful upload sent is still on the destination exactly when the date in its name
keeps it there, and the archive of a successful run is still on this server exactly when it is
among the newest. -/
theorem new_backup_stays_iff (records : Name → Option Destination) (fars : Name → FarEnd)
    (destinations : List Name) (keepLocal : Nat) (removals : Removals) (stamp : Name)
    (holds : Name → Finset Name) (spool : Spool) (pre : List Archive) (a : Archive)
    (post : List Archive) (hs : spool.archives = pre ++ a :: post) :
    (∀ far dest files r after,
      uploadBackup far dest (remoteArchiveName stamp a.id) files = (.ok r, after) → r.ok = true →
        (dest.place.path (remoteArchiveName stamp a.id) ∈ after ↔
          RemoteSafe far dest (remoteArchiveName stamp a.id) files)) ∧
    ((uploads records fars (remoteArchiveName stamp a.id) destinations holds).1.all succeeded = true →
      (a ∈ (runScheduledBackup records fars destinations keepLocal removals
          (remoteArchiveName stamp a.id) holds spool).2.archives ↔
        destinations = [] ∨ removals.lock = false ∨ LocalSafe keepLocal removals pre a post)) := by
  refine ⟨fun far dest files r after h hok => ?_, mem_archives_after_run hs⟩
  rw [mem_after_upload (isArchive_remoteArchiveName stamp a.id) h hok, imp_iff_not_or,
    not_victim_iff, or_comm]
  rfl

/-! A clock that ran ahead for a while: the copy and the archive it dated stay newest. -/

def idOf (c : Char) : Name := List.replicate 31 '0' ++ [c]

def aheadName : Name := remoteArchiveName "20270101-000000".toList (idOf '1')

def aheadArchive : Archive := ⟨idOf '1', "2027-01-01T00:00:00.000001+00:00".toList, true⟩

def madeNow : Archive := ⟨idOf '2', "2026-08-12T12:00:00.000001+00:00".toList, true⟩

def madeNowName : Name := remoteArchiveName "20260812-120000".toList madeNow.id

/-- A directory that answers every question and holds the two copies once the new one is there. -/
def obliging : FarEnd where
  stores := true
  storesChecksum := true
  verified := true
  rows := fun _ => some [aheadName, checksumName aheadName, madeNowName, checksumName madeNowName]
  body := fun _ _ => none
  removes := fun _ => true

/-- Home directory, one daily copy. -/
def oneDaily : Destination := ⟨.sftp ['.'], ⟨1, 0, 0⟩⟩

def aheadSpool : Spool := ⟨[aheadArchive, madeNow], by decide⟩

def freeHand : Removals := ⟨true, [], fun _ => 3⟩

def offsite : Name := "offsite".toList

def aheadFiles : Finset Name := {aheadName, checksumName aheadName}

theorem ahead : uploadBackup obliging oneDaily madeNowName aheadFiles =
      (.ok ⟨true, [madeNowName]⟩, aheadFiles) ∧
    oneDaily.place.path madeNowName ∉ aheadFiles ∧
    madeNow ∉ (pruneLocalBackups 1 freeHand aheadSpool).archives := by
  decide +kernel

theorem uploads_ahead : (uploads (fun _ => some oneDaily) (fun _ => obliging) madeNowName [offsite]
    (fun _ => aheadFiles)).1 = [.ok ⟨true, [madeNowName]⟩] := by
  simp [uploads, ahead.1]

theorem run_ahead : madeNow ∉ (runScheduledBackup (fun _ => some oneDaily) (fun _ => obliging)
    [offsite] 1 freeHand madeNowName (fun _ => aheadFiles) aheadSpool).2.archives := by
  rw [runScheduledBackup, uploads_ahead]
  exact ahead.2.2

/-- The upload reports success and the run has no failure, and neither copy is left. -/
theorem new_backup_removed_at_once :
    uploadBackup obliging oneDaily madeNowName aheadFiles =
        (.ok ⟨true, [madeNowName]⟩, aheadFiles) ∧
      oneDaily.place.path madeNowName ∉ aheadFiles ∧
      (uploads (fun _ => some oneDaily) (fun _ => obliging) madeNowName [offsite]
        (fun _ => aheadFiles)).1.all succeeded = true ∧
      madeNow ∉ (runScheduledBackup (fun _ => some oneDaily) (fun _ => obliging) [offsite] 1 freeHand
        madeNowName (fun _ => aheadFiles) aheadSpool).2.archives := by
  refine ⟨ahead.1, ahead.2.1, ?_, run_ahead⟩
  rw [uploads_ahead]
  rfl

theorem new_backup_stays_iff_ahead :
    aheadSpool.archives = [aheadArchive] ++ madeNow :: [] ∧
      ¬ RemoteSafe obliging oneDaily madeNowName aheadFiles ∧
      ¬ LocalSafe 1 freeHand [aheadArchive] madeNow [] := by
  have h := new_backup_stays_iff (fun _ => some oneDaily) (fun _ => obliging) [offsite] 1 freeHand
    "20260812-120000".toList (fun _ => aheadFiles) aheadSpool [aheadArchive] madeNow [] rfl
  refine ⟨rfl, fun hsafe => ?_, fun hsafe => ?_⟩
  · exact ahead.2.1 ((h.1 _ _ _ _ _ ahead.1 rfl).mpr hsafe)
  · refine run_ahead ((h.2 ?_).mpr (Or.inr (Or.inr hsafe)))
    exact (congrArg (List.all · succeeded) uploads_ahead).trans rfl

end EasyHaProxy.Backupd
