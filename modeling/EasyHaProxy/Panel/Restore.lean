import EasyHaProxy.Controld.Basic
import EasyHaProxy.Lib.Swap

/-! The three sources of a version are put in place and applied as an ordinary save would be. Failures come
as exceptions, which put the sources back, and as results, which do not. -/
namespace EasyHaProxy.Panel.Restore

open Controld (SourceName)
open Swap (Dir Faults replaceAll)

abbrev Files := SourceName → Option ByteArray

/-- `CONFIG_SOURCE_ORDER`. -/
def sourceOrder : List SourceName := [.vars, .websites, .tcp]

/-- `bytes.decode("utf-8", "replace")`, with the text that stands for bytes that are no UTF-8. -/
def decodeReplace (replaced : ByteArray → String) (raw : ByteArray) : String :=
  if h : raw.IsValidUTF8 then String.fromUTF8 raw h else replaced raw

/-- How `begin_cfg_confirmation` ends. -/
inductive Begun
  /-- An exception; the marker may be what failed, with the transaction already pending. -/
  | raised (pending : Bool)
  /-- `haproxy -c`, the preparation or controld says no. -/
  | refused
  /-- The daemon began, undid it and left these sources. -/
  | rolledBack (sources : Files)
  /-- The transaction is pending, whether or not the answer arrived. -/
  | pending (reported : Bool)

/-- How the checks of `_apply_restored` end, in their order. -/
structure Answers where
  renders : Bool
  isMapping : Bool
  admitsClient : Bool
  preflightOk : Bool
  begun : Begun

/-- A check that fails raises. -/
def Answers.ending (a : Answers) : Begun :=
  if a.renders && a.isMapping && a.admitsClient && a.preflightOk then a.begun else .raised false

inductive Failure
  | historyUnavailable
  | versionIncomplete
  | currentUnreadable
  | setAsideFailed
  | restoreWriteFailed
  | restoreRefused
  | restoreDirty
  deriving DecidableEq

/-- What a restore meets. -/
structure Setting where
  replaced : ByteArray → String
  /-- What controld answers for the version: the files it holds. -/
  version : Option Files
  live : Files
  readable : SourceName → Bool
  /-- The texts of the applied snapshots, when there are any. -/
  applied : Option (SourceName → String)
  setAsideOk : Bool
  write : Faults SourceName ByteArray
  answers : Answers
  undo : Faults SourceName ByteArray

structure Outcome where
  /-- Whether the result says that the transaction is pending, or why there is none. -/
  ending : Except Failure Bool
  /-- Is a transaction pending? -/
  pending : Bool
  dir : Dir SourceName ByteArray

/-- `_write_sources`. -/
def writeSources (f : Faults SourceName ByteArray) (texts : SourceName → String)
    (d : Dir SourceName ByteArray) : Bool × Dir SourceName ByteArray :=
  replaceAll f (fun name => (texts name).toUTF8) sourceOrder d

def bundle {α : Type} (files : SourceName → Option α) : Option (SourceName → α) :=
  match files .vars, files .websites, files .tcp with
  | some vars, some websites, some tcp => some fun
    | .vars => vars
    | .websites => websites
    | .tcp => tcp
  | _, _, _ => none

def maxSourceBytes : Nat := 2 * 1024 * 1024

/-- One file of `_read_config_source_bundle`, as text. -/
def currentSource (s : Setting) (name : SourceName) : Option String :=
  match s.live name with
  | none => none
  | some raw =>
    if h : raw.IsValidUTF8 then
      if s.readable name ∧ raw.size ≤ maxSourceBytes ∧ 0 ∉ raw.data then some (String.fromUTF8 raw h) else none
    else none

def currentSources (s : Setting) : Option (SourceName → String) := bundle (currentSource s)

def sameTexts (a b : SourceName → String) : Bool := sourceOrder.all fun name => a name == b name

/-- Saved but never applied: set aside before it is replaced. -/
def unapplied (s : Setting) (original : SourceName → String) : Bool :=
  match s.applied with
  | some applied => !sameTexts original applied
  | none => true

/-- `_apply_restored`. -/
def applyRestored (s : Setting) (original : SourceName → String) (d : Dir SourceName ByteArray) : Outcome :=
  match s.answers.ending with
  | .raised pending =>
    match writeSources s.undo original d with
    | (true, d) => ⟨.error .restoreRefused, pending, d⟩
    | (false, d) => ⟨.error .restoreDirty, pending, d⟩
  | .refused => ⟨.ok false, false, d⟩
  | .rolledBack sources => ⟨.ok false, false, { d with target := sources }⟩
  | .pending reported => ⟨.ok reported, true, d⟩

/-- The managed files before a restore, with no other file beside them. -/
def Setting.dir (s : Setting) : Dir SourceName ByteArray := ⟨s.live, fun _ => none, fun _ => none⟩

def restore (s : Setting) : Outcome :=
  match s.version with
  | none => ⟨.error .historyUnavailable, false, s.dir⟩
  | some files =>
    match bundle files with
    | none => ⟨.error .versionIncomplete, false, s.dir⟩
    | some version =>
      match currentSources s with
      | none => ⟨.error .currentUnreadable, false, s.dir⟩
      | some original =>
        if unapplied s original && !s.setAsideOk then ⟨.error .setAsideFailed, false, s.dir⟩
        else
          match writeSources s.write (fun name => decodeReplace s.replaced (version name)) s.dir with
          | (false, d) => ⟨.error .restoreWriteFailed, false, d⟩
          | (true, d) => applyRestored s original d

/-- Without a pending transaction the managed files are what they were and nothing is left beside them;
a restore that succeeds leaves the recorded version. -/
structure Safe (s : Setting) : Prop where
  unchanged : (restore s).pending = false →
    (∀ name, (restore s).dir.target name = s.live name) ∧ ∀ name, (restore s).dir.temp name = none
  restored : (restore s).ending = .ok true →
    ∀ files, s.version = some files → ∀ name, (restore s).dir.target name = files name

/-- The version a restore gets as far as writing. -/
def attempted (s : Setting) : Option (SourceName → ByteArray) :=
  match s.version.bind bundle, currentSources s with
  | some version, some original => if unapplied s original && !s.setAsideOk then none else some version
  | _, _ => none

/-- The files hold what the restore writes. -/
def AlreadyThere (s : Setting) (version : SourceName → ByteArray) : Prop :=
  ∀ name, s.live name = some (decodeReplace s.replaced (version name)).toUTF8

/-- What the end of the apply needs, once the version is in place. -/
def Settles (s : Setting) (version : SourceName → ByteArray) : Begun → Prop
  | .raised true => True
  | .raised false => s.undo.Succeeds sourceOrder ∨ (s.undo.Tidy sourceOrder ∧ AlreadyThere s version)
  | .refused => AlreadyThere s version
  | .rolledBack sources => ∀ name, sources name = s.live name
  | .pending reported => reported = true → ∀ name, (version name).IsValidUTF8

/-- When the restore is safe: a writing that fails is undone without another failure, and one that
succeeds is followed by an end of the apply it can cope with. -/
structure Recoverable (s : Setting) (version : SourceName → ByteArray) : Prop where
  tidy : ¬ s.write.Succeeds sourceOrder → s.write.Tidy sourceOrder
  settles : s.write.Succeeds sourceOrder → Settles s version s.answers.ending

variable {s : Setting} {version : SourceName → ByteArray} {original : SourceName → String}

/-! ## Texts and bytes -/

theorem toUTF8_decodeReplace (replaced : ByteArray → String) (raw : ByteArray) :
    (decodeReplace replaced raw).toUTF8 = raw ↔ raw.IsValidUTF8 := by
  constructor
  · intro h
    rw [← h]
    exact String.isValidUTF8 _
  · intro h
    rw [decodeReplace, dif_pos h]
    rfl

theorem bundle_eq {α : Type} {files : SourceName → Option α} {b : SourceName → α}
    (h : bundle files = some b) (name : SourceName) : files name = some (b name) := by
  unfold bundle at h
  split at h
  · obtain rfl := Option.some.inj h
    cases name <;> assumption
  · cases h

/-- What is there is read without loss. -/
theorem currentSources_eq (h : currentSources s = some original) (name : SourceName) :
    s.live name = some (original name).toUTF8 := by
  have hsource := bundle_eq h name
  unfold currentSource at hsource
  split at hsource
  · cases hsource
  · rename_i raw hraw
    split at hsource
    · split at hsource
      · rw [hraw, ← Option.some.inj hsource]
        rfl
      · cases hsource
    · cases hsource

theorem nodup_sourceOrder : sourceOrder.Nodup := by decide

theorem mem_sourceOrder (name : SourceName) : name ∈ sourceOrder := by
  cases name <;> decide

/-! ## Up to the writing -/

theorem restore_of_not_attempted (h : attempted s = none) :
    ∃ failure, restore s = ⟨.error failure, false, s.dir⟩ := by
  unfold attempted at h
  unfold restore
  cases hv : s.version with
  | none => exact ⟨_, rfl⟩
  | some files =>
    dsimp only
    cases hb : bundle files with
    | none => exact ⟨_, rfl⟩
    | some version =>
      dsimp only
      cases hc : currentSources s with
      | none => exact ⟨_, rfl⟩
      | some original =>
        dsimp only
        simp only [hv, Option.bind_some, hb, hc] at h
        split at h
        · rename_i hunapplied
          exact ⟨_, if_pos hunapplied⟩
        · cases h

theorem restore_of_attempted (h : attempted s = some version) :
    ∃ files original, s.version = some files ∧ bundle files = some version ∧
      currentSources s = some original ∧
      restore s =
        match writeSources s.write (fun name => decodeReplace s.replaced (version name)) s.dir with
        | (false, d) => ⟨.error .restoreWriteFailed, false, d⟩
        | (true, d) => applyRestored s original d := by
  unfold attempted at h
  split at h
  · rename_i version' original hv hc
    split at h
    · cases h
    · rename_i hunapplied
      obtain rfl := Option.some.inj h
      obtain ⟨files, hfiles, hb⟩ := Option.bind_eq_some_iff.mp hv
      refine ⟨files, original, hfiles, hb, hc, ?_⟩
      unfold restore
      simp only [hfiles, hb, hc]
      rw [if_neg hunapplied]
  · cases h

/-! ## The writing and what follows it -/

theorem fresh_dir (s : Setting) : s.dir.Fresh := ⟨fun _ => rfl, fun _ => rfl⟩

/-- The state a restore ends in without a pending transaction, when it is to have changed nothing. -/
def Unchanged (s : Setting) (d : Dir SourceName ByteArray) : Prop :=
  (∀ name, d.target name = s.live name) ∧ ∀ name, d.temp name = none

theorem writeSources_fails {f : Faults SourceName ByteArray} (texts : SourceName → String)
    (d : Dir SourceName ByteArray) (h : ¬ f.Succeeds sourceOrder) :
    ∃ d', writeSources f texts d = (false, d') := by
  have hfst := Swap.replaceAll_fails (fun name => (texts name).toUTF8) d nodup_sourceOrder h
  exact ⟨(writeSources f texts d).2, Prod.ext hfst rfl⟩

/-- A writing that fails leaves no staged file exactly when it is undone without another failure, and
then it has changed nothing. -/
theorem write_fails_iff {f : Faults SourceName ByteArray} {texts : SourceName → String}
    {d d' : Dir SourceName ByteArray} (hd : d.Fresh) (hex : ∀ name, d.target name ≠ none)
    (hf : ¬ f.Succeeds sourceOrder) (hw : writeSources f texts d = (false, d')) :
    (f.Tidy sourceOrder ↔ ∀ name, d'.temp name = none) ∧ (f.Tidy sourceOrder → d' = d) := by
  have hsame : f.Tidy sourceOrder → d' = d := by
    intro ht
    have htidy : writeSources f texts d = (false, d) :=
      Swap.replaceAll_tidy nodup_sourceOrder hd (fun name _ => hex name) hf ht
    rw [hw] at htidy
    exact congrArg Prod.snd htidy
  refine ⟨⟨fun ht => ?_, fun htemp => ?_⟩, hsame⟩
  · rw [hsame ht]
    exact hd.temp
  · have hsnd : (writeSources f texts d).2 = d' := by rw [hw]
    refine Swap.tidy_of_no_temp (fun name => (texts name).toUTF8) nodup_sourceOrder hd
      (fun name _ => hex name) fun name => ?_
    change (writeSources f texts d).2.temp name = none
    rw [hsnd]
    exact htemp name

theorem writeSources_done {f : Faults SourceName ByteArray} (texts : SourceName → String)
    {d : Dir SourceName ByteArray} (hd : d.Fresh) (h : f.Succeeds sourceOrder) :
    ∃ d', writeSources f texts d = (true, d') ∧ d'.Fresh ∧
      ∀ name, d'.target name = some (texts name).toUTF8 := by
  obtain ⟨hfresh, htarget⟩ := Swap.replaced (fun name => (texts name).toUTF8) sourceOrder hd
  exact ⟨_, Swap.replaceAll_done nodup_sourceOrder h, hfresh, fun name => htarget name (mem_sourceOrder name)⟩

/-- Putting the sources back after an exception. -/
theorem undo_iff {d d' : Dir SourceName ByteArray} {ok : Bool} (hd : d.Fresh)
    (htarget : ∀ name, d.target name = some (decodeReplace s.replaced (version name)).toUTF8)
    (horiginal : ∀ name, s.live name = some (original name).toUTF8)
    (hw : writeSources s.undo original d = (ok, d')) :
    Unchanged s d' ↔ s.undo.Succeeds sourceOrder ∨ (s.undo.Tidy sourceOrder ∧ AlreadyThere s version) := by
  by_cases hs : s.undo.Succeeds sourceOrder
  · obtain ⟨e, he, hfresh, hback⟩ := writeSources_done original hd hs
    rw [he] at hw
    obtain ⟨-, rfl⟩ := Prod.mk.inj hw
    refine ⟨fun _ => Or.inl hs, fun _ => ⟨fun name => ?_, hfresh.temp⟩⟩
    rw [hback, horiginal]
  · have hex : ∀ name, d.target name ≠ none := fun name => by simp [htarget name]
    obtain ⟨e, he⟩ := writeSources_fails original d hs
    rw [he] at hw
    obtain ⟨-, rfl⟩ := Prod.mk.inj hw
    obtain ⟨hiff, hsame⟩ := write_fails_iff hd hex hs he
    constructor
    · rintro ⟨hfiles, htemp⟩
      have ht := hiff.mpr htemp
      refine Or.inr ⟨ht, fun name => ?_⟩
      rw [← hfiles name, hsame ht, htarget]
    · rintro (hdone | ⟨ht, hthere⟩)
      · exact absurd hdone hs
      · rw [hsame ht]
        refine ⟨fun name => ?_, hd.temp⟩
        rw [htarget, hthere]

/-- Safety of the second half, for a version that is in place. -/
theorem applyRestored_iff {d : Dir SourceName ByteArray} (hd : d.Fresh)
    (htarget : ∀ name, d.target name = some (decodeReplace s.replaced (version name)).toUTF8)
    (horiginal : ∀ name, s.live name = some (original name).toUTF8) :
    (((applyRestored s original d).pending = false → Unchanged s (applyRestored s original d).dir) ∧
      ((applyRestored s original d).ending = .ok true →
        ∀ name, (applyRestored s original d).dir.target name = some (version name))) ↔
      Settles s version s.answers.ending := by
  unfold applyRestored
  cases s.answers.ending with
  | raised pending =>
    dsimp only
    cases hw : writeSources s.undo original d with
    | mk ok d' =>
      have hundo := undo_iff hd htarget horiginal hw
      cases ok <;> cases pending <;> simp [Settles, hundo]
  | refused =>
    simp only [forall_const, Except.ok.injEq, Bool.false_eq_true, false_implies, and_true, Settles,
      AlreadyThere, Unchanged, htarget]
    constructor
    · rintro ⟨h, -⟩ name
      exact (h name).symm
    · exact fun h => ⟨fun name => (h name).symm, hd.temp⟩
  | rolledBack sources =>
    simp only [forall_const, Except.ok.injEq, Bool.false_eq_true, false_implies, and_true, Settles,
      Unchanged]
    exact ⟨fun h => h.1, fun h => ⟨h, hd.temp⟩⟩
  | pending reported =>
    simp only [Bool.true_eq_false, false_implies, true_and, Except.ok.injEq, Settles, htarget,
      Option.some.injEq, toUTF8_decodeReplace]

/-- A restore is safe exactly when it never comes to writing or can cope with how the writing and the
apply end. -/
theorem restore_safe_iff (s : Setting) :
    Safe s ↔ ∀ version, attempted s = some version → Recoverable s version := by
  cases ha : attempted s with
  | none =>
    obtain ⟨failure, hr⟩ := restore_of_not_attempted ha
    refine ⟨fun _ version hv => (by cases hv), fun _ => ⟨fun _ => ?_, fun hok => ?_⟩⟩
    · rw [hr]
      exact ⟨fun _ => rfl, fun _ => rfl⟩
    · rw [hr] at hok
      cases hok
  | some version =>
    obtain ⟨files, original, hfiles, hbundle, hcurrent, hr⟩ := restore_of_attempted ha
    have horiginal := currentSources_eq hcurrent
    have hex : ∀ name, s.dir.target name ≠ none := fun name => by
      change s.live name ≠ none
      simp [horiginal name]
    by_cases hs : s.write.Succeeds sourceOrder
    · obtain ⟨d, hw, hfresh, htarget⟩ :=
        writeSources_done (fun name => decodeReplace s.replaced (version name)) (fresh_dir s) hs
      rw [hw] at hr
      have happly := applyRestored_iff hfresh htarget horiginal
      constructor
      · rintro ⟨hunchanged, hrestored⟩ _ ⟨⟩
        refine ⟨fun hnot => absurd hs hnot, fun _ => happly.mp ?_⟩
        rw [hr] at hunchanged hrestored
        refine ⟨hunchanged, fun hok name => ?_⟩
        rw [hrestored hok files hfiles name, bundle_eq hbundle]
      · intro h
        obtain ⟨hunchanged, hrestored⟩ := happly.mpr ((h version rfl).settles hs)
        refine ⟨?_, ?_⟩
        · rw [hr]
          exact hunchanged
        · rw [hr]
          intro hok files' hfiles' name
          rw [hfiles] at hfiles'
          obtain rfl := Option.some.inj hfiles'
          rw [bundle_eq hbundle]
          exact hrestored hok name
    · obtain ⟨d, hw⟩ := writeSources_fails (fun name => decodeReplace s.replaced (version name)) s.dir hs
      obtain ⟨hiff, hsame⟩ := write_fails_iff (fresh_dir s) hex hs hw
      rw [hw] at hr
      constructor
      · rintro ⟨hunchanged, -⟩ _ ⟨⟩
        rw [hr] at hunchanged
        exact ⟨fun _ => hiff.mpr (hunchanged rfl).2, fun hdone => absurd hdone hs⟩
      · intro h
        have ht := (h version rfl).tidy hs
        refine ⟨fun _ => ?_, fun hok => ?_⟩
        · rw [hr, hsame ht]
          exact ⟨fun _ => rfl, fun _ => rfl⟩
        · rw [hr] at hok
          cases hok

/-! ## A version that `haproxy -c` refuses -/

def noFaults : Faults SourceName ByteArray where
  stage _ := .done
  read _ := true
  move _ := true
  unlink _ := true
  unlinkTarget _ := true
  back _ := .done
  moveBack _ := true

/-- The files hold one text, the version another; everything works but the last check. -/
def refusedSetting : Setting where
  replaced _ := ""
  version := some fun _ => some "b".toUTF8
  live _ := some "a".toUTF8
  readable _ := true
  applied := some fun _ => "a"
  setAsideOk := true
  write := noFaults
  answers := ⟨true, true, true, true, .refused⟩
  undo := noFaults

theorem currentSource_refusedSetting (name : SourceName) : currentSource refusedSetting name = some "a" := by
  have hv : "a".toUTF8.IsValidUTF8 := String.isValidUTF8 _
  simp only [currentSource, refusedSetting]
  rw [dif_pos hv, if_pos (by decide +kernel)]
  rfl

/-- The refusal comes as a result: the restore ends without a transaction and the version stays. -/
theorem refused_version_stays : ¬ Safe refusedSetting := by
  intro h
  have hcurrent : currentSources refusedSetting = some fun _ => "a" := by
    simp only [currentSources, bundle, currentSource_refusedSetting]
    congr 1
    funext name
    cases name <;> rfl
  have hb : (bundle fun _ => some "b".toUTF8) = some fun _ => "b".toUTF8 := by
    simp only [bundle]
    congr 1
    funext name
    cases name <;> rfl
  have hattempted : attempted refusedSetting = some fun _ => "b".toUTF8 := by
    simp only [attempted, hcurrent]
    simp only [refusedSetting, Option.bind_some, hb]
    rfl
  obtain ⟨files, original, -, -, -, hr⟩ := restore_of_attempted hattempted
  obtain ⟨d, hw, -, htarget⟩ := writeSources_done
    (fun _ => decodeReplace refusedSetting.replaced "b".toUTF8) (fresh_dir refusedSetting)
    (f := noFaults) ⟨fun _ _ => rfl, fun _ _ => rfl, fun _ _ => rfl⟩
  have hrestore : restore refusedSetting = ⟨.ok false, false, d⟩ := by
    rw [hr]
    change (match writeSources noFaults (fun _ => decodeReplace refusedSetting.replaced "b".toUTF8)
      refusedSetting.dir with
      | (false, d) => (⟨.error .restoreWriteFailed, false, d⟩ : Outcome)
      | (true, d) => applyRestored refusedSetting original d) = _
    rw [hw]
    rfl
  have hfile := (h.unchanged (by rw [hrestore])).1 .vars
  rw [hrestore, htarget] at hfile
  have hraw := (toUTF8_decodeReplace refusedSetting.replaced "b".toUTF8).mpr (String.isValidUTF8 _)
  rw [hraw] at hfile
  have htext : "b".toUTF8 = "a".toUTF8 := Option.some.inj hfile
  exact absurd (String.toByteArray_inj.mp htext) (by decide)

end EasyHaProxy.Panel.Restore
