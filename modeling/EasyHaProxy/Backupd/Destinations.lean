import EasyHaProxy.Backupd.Retention
import EasyHaProxy.Lib.Text
import Mathlib.Data.List.DropRight

/-! `upload_backup` sends one archive to an SFTP directory or to a bucket, checks the copy and prunes what
falls outside the keep policy. A far end is the set of paths it holds; what it answers is a parameter. -/
namespace EasyHaProxy.Backupd

inductive Place
  /-- The remote directory, as `normalize_remote_dir` stores it. -/
  | sftp (path : Name)
  /-- The prefix inside the bucket. -/
  | s3 (bucketPrefix : Name)
  deriving DecidableEq, Repr

structure Destination where
  place : Place
  policy : Policy
  deriving DecidableEq, Repr

/-- What a far end answers in the course of one upload. -/
structure FarEnd where
  /-- Whether it takes the copy: the exit code of the batch, or the status of the PUT. -/
  stores : Bool
  /-- Whether a bucket takes the checksum beside it; nobody looks at the status of that PUT. -/
  storesChecksum : Bool
  /-- What `verify_remote_copy` finds out. -/
  verified : Bool
  /-- The rows of `ls -1`; `none` when the command fails. -/
  rows : Finset Name → Option (List Name)
  /-- The body of a listing of the bucket below a prefix; `none` for a status other than 200. -/
  body : Finset Name → Name → Option Name
  /-- Whether a removal succeeds. -/
  removes : Name → Bool

/-! ## Names and paths -/

/-- `rsplit("/", 1)[-1]`. -/
def baseName (path : Name) : Name := path.rtakeWhile (· ≠ '/')

def isArchive (name : Name) : Bool :=
  remotePrefix.isPrefixOf name && archiveSuffix.isSuffixOf name

/-- The name a copy carries off the host; `stamp` is its date and time in UTC. -/
def remoteArchiveName (stamp backupId : Name) : Name :=
  remotePrefix ++ stamp ++ '-' :: backupId ++ archiveSuffix

def remoteJoin (directory name : Name) : Name :=
  if directory = [] ∨ directory = ['.'] then name else directory.rdropWhile (· = '/') ++ '/' :: name

def stripSlashes (bucketPrefix : Name) : Name := Text.trim (· = '/') bucketPrefix

/-- The key `s3_request` addresses: the segments that are not empty, joined. -/
def s3Key (bucketPrefix key : Name) : Name :=
  if stripSlashes bucketPrefix = [] then key else stripSlashes bucketPrefix ++ '/' :: key

/-- Where a destination holds a file of this name. -/
def Place.path : Place → Name → Name
  | .sftp directory, name => remoteJoin directory name
  | .s3 bucketPrefix, name => s3Key bucketPrefix name

/-! ## Listings -/

def openTag : List Char := ['<', 'K', 'e', 'y', '>']

def closeTag : List Char := ['<', '/', 'K', 'e', 'y', '>']

/-- `re.finditer("<Key>([^<]+)</Key>", text)`, one position at a time; `fuel` is at least the
length of the text. -/
def keysIn : Nat → List Char → List Name
  | 0, _ => []
  | _ + 1, [] => []
  | fuel + 1, c :: text =>
    let key := ((c :: text).drop 5).takeWhile (· ≠ '<')
    let rest := ((c :: text).drop 5).dropWhile (· ≠ '<')
    if openTag.isPrefixOf (c :: text) ∧ key ≠ [] ∧ closeTag.isPrefixOf rest then
      key :: keysIn fuel (rest.drop 6)
    else keysIn fuel text

/-- The archives among the paths of a listing, by their last segments, sorted. -/
def archiveNames (paths : List Name) : List Name :=
  ((paths.map baseName).filter isArchive).insertionSort (· ≤ ·)

def remoteListing (far : FarEnd) (files : Finset Name) : List Name :=
  match far.rows files with
  | none => []
  | some rows => archiveNames (rows.map Text.strip)

/-- The query carries the prefix with its slash, and nothing else narrows the listing. -/
def s3Query (bucketPrefix : Name) : Name :=
  if stripSlashes bucketPrefix = [] then [] else stripSlashes bucketPrefix ++ ['/']

def s3Listing (far : FarEnd) (bucketPrefix : Name) (files : Finset Name) : List Name :=
  match far.body files (s3Query bucketPrefix) with
  | none => []
  | some body => archiveNames (keysIn body.length body)

def Place.listing (far : FarEnd) : Place → Finset Name → List Name
  | .sftp _, files => remoteListing far files
  | .s3 bucketPrefix, files => s3Listing far bucketPrefix files

/-! ## The upload -/

structure Response where
  ok : Bool
  pruned : List Name
  deriving DecidableEq, Repr

def checksumSuffix : Name := ".sha256".toList

def checksumName (name : Name) : Name := name ++ checksumSuffix

def remove (far : FarEnd) (files : Finset Name) (path : Name) : Finset Name :=
  if far.removes path then files.erase path else files

/-- Every victim goes with its checksum. -/
def prune (far : FarEnd) (place : Place) (victims : List Name) (files : Finset Name) :
    Finset Name :=
  victims.foldl (fun files name =>
    remove far (remove far files (place.path name)) (place.path (checksumName name))) files

def partSuffix : Name := ".part".toList

/-- The copy and its checksum on the far end. An SFTP upload goes through a `.part` file. -/
def put (storesChecksum : Bool) (place : Place) (name : Name) (files : Finset Name) : Finset Name :=
  match place with
  | .sftp directory =>
    insert (remoteJoin directory (checksumName name))
      (insert (remoteJoin directory name) (files.erase (remoteJoin directory name ++ partSuffix)))
  | .s3 bucketPrefix =>
    if storesChecksum then
      insert (s3Key bucketPrefix (checksumName name)) (insert (s3Key bucketPrefix name) files)
    else insert (s3Key bucketPrefix name) files

/-- The signature of a PUT is its proof; a copy sent by SFTP is verified. -/
def Place.proven (far : FarEnd) : Place → Bool
  | .sftp _ => far.verified
  | .s3 _ => true

/-- What the response says was pruned: S3 reports the removals that succeeded, SFTP all victims. -/
def reported (far : FarEnd) (place : Place) (victims : List Name) : List Name :=
  match place with
  | .sftp _ => victims
  | .s3 bucketPrefix => victims.filter fun name => far.removes (s3Key bucketPrefix name)

/-- Copy one finished archive to one destination, then prune the far end. An `error` is the
exception of a transfer that failed; a failed check is a response that is not `ok`. -/
def uploadBackup (far : FarEnd) (dest : Destination) (name : Name) (files : Finset Name) :
    Except Unit Response × Finset Name :=
  if far.stores = false then (.error (), files)
  else
    let stored := put far.storesChecksum dest.place name files
    if dest.place.proven far = false then (.ok ⟨false, []⟩, stored)
    else
      let victims := retentionVictims (dest.place.listing far stored) dest.policy
      (.ok ⟨true, reported far dest.place victims⟩, prune far dest.place victims stored)

/-! ## What an upload leaves -/

variable {far : FarEnd} {place : Place} {dest : Destination} {name path : Name}
  {files : Finset Name} {victims : List Name}

theorem mem_remove {other : Name} :
    path ∈ remove far files other ↔ path ∈ files ∧ (path = other → far.removes path = false) := by
  unfold remove
  by_cases h : far.removes other = true
  · rw [if_pos h, Finset.mem_erase]
    constructor
    · rintro ⟨hne, hm⟩
      exact ⟨hm, fun he => absurd he hne⟩
    · rintro ⟨hm, hr⟩
      refine ⟨fun he => ?_, hm⟩
      rw [← he, hr he] at h
      cases h
  · rw [if_neg h]
    constructor
    · intro hm
      refine ⟨hm, fun he => ?_⟩
      rw [he]
      exact Bool.eq_false_iff.mpr h
    · exact And.left

theorem mem_prune : path ∈ prune far place victims files ↔ path ∈ files ∧
    ((∃ victim ∈ victims, path = place.path victim ∨ path = place.path (checksumName victim)) →
      far.removes path = false) := by
  induction victims generalizing files with
  | nil => simp [prune]
  | cons victim victims ih =>
    have hstep : prune far place (victim :: victims) files =
        prune far place victims (remove far (remove far files (place.path victim))
          (place.path (checksumName victim))) := rfl
    rw [hstep, ih, mem_remove, mem_remove]
    simp only [List.exists_mem_cons_iff, or_imp, and_assoc]

theorem stored_of_ok {r : Response} {after : Finset Name}
    (h : uploadBackup far dest name files = (.ok r, after)) (hok : r.ok = true) :
    after = prune far dest.place (retentionVictims
      (dest.place.listing far (put far.storesChecksum dest.place name files)) dest.policy)
      (put far.storesChecksum dest.place name files) := by
  unfold uploadBackup at h
  split at h
  · cases h
  · split at h
    · have hr : (Except.ok ⟨false, []⟩ : Except Unit Response) = .ok r := congrArg Prod.fst h
      cases hr
      cases hok
    · exact (Prod.ext_iff.mp h).2.symm

theorem path_injective {other : Name} (h : place.path name = place.path other) : name = other := by
  cases place with
  | sftp directory =>
    simp only [Place.path, remoteJoin] at h
    split at h
    · exact h
    · simpa using h
  | s3 bucketPrefix =>
    simp only [Place.path, s3Key] at h
    split at h
    · exact h
    · simpa using h

theorem suffixes : archiveSuffix = ".tar.gz.en".toList ++ ['c'] ∧
    checksumSuffix = ".sha25".toList ++ ['6'] ∧ '/' ∉ checksumSuffix ∧ '<' ∉ checksumSuffix := by
  decide +kernel

theorem ne_checksumName {other : Name} (h : isArchive name = true) :
    name ≠ checksumName other := by
  rintro rfl
  have hsuffix : archiveSuffix <:+ checksumName other :=
    List.isSuffixOf_iff_suffix.mp (Bool.and_eq_true_iff.mp h).2
  obtain ⟨front, he⟩ := hsuffix
  rw [checksumName, suffixes.1, suffixes.2.1, ← List.append_assoc, ← List.append_assoc] at he
  exact absurd (List.append_inj' he rfl).2 (by decide)

theorem isArchive_remoteArchiveName (stamp backupId : Name) :
    isArchive (remoteArchiveName stamp backupId) = true := by
  simp only [isArchive, Bool.and_eq_true, List.isSuffixOf_iff_suffix, List.isPrefixOf_iff_prefix,
    remoteArchiveName, List.append_assoc]
  refine ⟨List.prefix_append _ _, ?_⟩
  rw [← List.append_assoc, ← List.append_assoc]
  exact List.suffix_append _ _

theorem path_mem_put (storesChecksum : Bool) (place : Place) (name : Name) (files : Finset Name) :
    place.path name ∈ put storesChecksum place name files := by
  cases place with
  | sftp directory => simp [put, Place.path]
  | s3 bucketPrefix => cases storesChecksum <;> simp [put, Place.path]

/-- A copy is still there unless retention chose it and the far end let it go. -/
theorem mem_after_upload {r : Response} {after : Finset Name} (hname : isArchive name = true)
    (h : uploadBackup far dest name files = (.ok r, after)) (hok : r.ok = true) :
    dest.place.path name ∈ after ↔ (name ∈ retentionVictims (dest.place.listing far
      (put far.storesChecksum dest.place name files)) dest.policy →
        far.removes (dest.place.path name) = false) := by
  rw [stored_of_ok h hok, mem_prune, and_iff_right (path_mem_put _ _ _ _)]
  refine imp_congr_left ⟨?_, fun hv => ⟨name, hv, Or.inl rfl⟩⟩
  rintro ⟨victim, hv, he | he⟩
  · obtain rfl := path_injective he
    exact hv
  · exact absurd (path_injective he) (ne_checksumName hname)

end EasyHaProxy.Backupd
