import EasyHaProxy.Lib.Machine

/-! A confirmed apply keeps copies of the three source files beside a state file, one write after the other;
a revert copies them back, file by file. Writes fail and the process can stop between any two. -/
namespace EasyHaProxy.Panel.Applied

inductive Source
  | vars
  | websites
  | tcp
  deriving DecidableEq, Repr

abbrev Bytes := List UInt8

/-- The bytes of the three source files. -/
abbrev Bundle := Source → Bytes

/-- `CONFIG_SOURCE_ORDER`. -/
def sourceOrder : List Source := [.vars, .websites, .tcp]

structure Disk where
  /-- The managed files. -/
  sources : Source → Option Bytes
  /-- The `last_applied_*.yml` copies. -/
  snapshots : Source → Option Bytes
  /-- Whether the state file exists; a revert asks no more of it. -/
  state : Bool
  /-- The applies so far with the number of writes each got through, the latest first. -/
  applies : List (Bundle × Nat)

/-- The four writes of `_persist_applied_state_bundle`, of which `writes` happen. -/
def persist (bundle : Bundle) (writes : Nat) (disk : Disk) : Disk :=
  { disk with
    snapshots := fun source =>
      if source ∈ sourceOrder.take writes then some (bundle source) else disk.snapshots source
    state := disk.state || decide (4 ≤ writes) }

/-- A bundle the copies hold already: what `_reconcile_applied_state_for_candidate` writes again. -/
def savedBundle (disk : Disk) : Option Bundle :=
  match disk.snapshots .vars, disk.snapshots .websites, disk.snapshots .tcp with
  | some vars, some websites, some tcp => some fun
    | .vars => vars
    | .websites => websites
    | .tcp => tcp
  | _, _, _ => none

/-! ## The revert -/

structure Progress where
  sources : Source → Option Bytes
  anyRestored : Bool
  errors : List Source

/-- One file of the mapping: a copy that is missing is skipped, an error is noted. -/
def revertFile (snapshots : Source → Option Bytes) (fails : Source → Bool) (progress : Progress)
    (source : Source) : Progress :=
  match snapshots source with
  | none => progress
  | some raw =>
    if fails source then { progress with errors := progress.errors ++ [source] }
    else { progress with
      sources := Function.update progress.sources source (some raw)
      anyRestored := true }

/-- Whether it reports success, and the files it leaves. -/
def revertToLastAppliedState (pending : Bool) (fails : Source → Bool) (disk : Disk) :
    Bool × (Source → Option Bytes) :=
  if pending then (false, disk.sources)
  else if disk.state = false then (false, disk.sources)
  else
    let progress := [Source.websites, .tcp, .vars].foldl (revertFile disk.snapshots fails)
      ⟨disk.sources, false, []⟩
    (progress.errors.isEmpty && progress.anyRestored, progress.sources)

/-! ## Histories -/

inductive Op
  /-- Anything else that writes the source files: saves, rollbacks, restores. -/
  | edit (sources : Source → Option Bytes)
  /-- A confirmed apply or a first baseline of these sources. -/
  | apply (bundle : Bundle) (writes : Nat)
  /-- The copies are written again to repair the state file. -/
  | reconcile (writes : Nat)
  | revert (pending : Bool) (fails : Source → Bool)

def Disk.step (disk : Disk) : Op → Disk
  | .edit sources => { disk with sources := sources }
  | .apply bundle writes => { persist bundle writes disk with applies := (bundle, writes) :: disk.applies }
  | .reconcile writes =>
    match savedBundle disk with
    | some bundle => persist bundle writes disk
    | none => disk
  | .revert pending fails => { disk with sources := (revertToLastAppliedState pending fails disk).2 }

/-- A revert that reports success leaves the sources of one apply, one that fails changes nothing. -/
def Faithful (disk : Disk) : Op → Prop
  | .revert pending fails =>
    ((revertToLastAppliedState pending fails disk).1 = true →
      ∃ bundle writes, (bundle, writes) ∈ disk.applies ∧
        ∀ source, (revertToLastAppliedState pending fails disk).2 source = some (bundle source)) ∧
    ((revertToLastAppliedState pending fails disk).1 = false →
      (revertToLastAppliedState pending fails disk).2 = disk.sources)
  | _ => True

/-- The last apply that wrote anything wrote all three copies. -/
def Settled (disk : Disk) : Prop :=
  ∀ entry, disk.applies.find? (fun entry => 0 < entry.2) = some entry → 3 ≤ entry.2

/-- No file fails, or none is changed that does not. -/
def AllOrNone (fails : Source → Bool) (disk : Disk) : Prop :=
  (∀ source, fails source = false) ∨
    ∀ source raw, disk.snapshots source = some raw → fails source = true ∨ disk.sources source = some raw

/-- What a revert needs: copies of one apply, and files that all take the write or all refuse it. -/
def Undisturbed (disk : Disk) : Op → Prop
  | .revert _ fails => Settled disk ∧ AllOrNone fails disk
  | _ => True

/-! ## What the copies hold -/

variable {disk : Disk} {bundle : Bundle} {writes : Nat} {pending : Bool}

def lastWriting (disk : Disk) : Option (Bundle × Nat) := disk.applies.find? fun entry => 0 < entry.2

/-- The copies are those of the last apply that wrote all three, and there are none before the first
apply that wrote any. -/
structure Kept (disk : Disk) : Prop where
  copies : ∀ entry, lastWriting disk = some entry → 3 ≤ entry.2 →
    ∀ source, disk.snapshots source = some (entry.1 source)
  none_before : lastWriting disk = none → ∀ source, disk.snapshots source = none
  state : disk.state = true → lastWriting disk ≠ none

theorem mem_sourceOrder_take (source : Source) (h : 3 ≤ writes) : source ∈ sourceOrder.take writes := by
  rw [List.take_of_length_le (by simpa [sourceOrder] using h)]
  cases source <;> simp [sourceOrder]

theorem savedBundle_eq (h : savedBundle disk = some bundle) (source : Source) :
    disk.snapshots source = some (bundle source) := by
  unfold savedBundle at h
  split at h
  · obtain rfl := Option.some.inj h
    cases source <;> assumption
  · cases h

theorem persist_saved (h : savedBundle disk = some bundle) (writes : Nat) :
    (persist bundle writes disk).snapshots = disk.snapshots := by
  funext source
  simp only [persist]
  split
  · exact (savedBundle_eq h source).symm
  · rfl

theorem kept_apply (h : Kept disk) (bundle : Bundle) (writes : Nat) :
    Kept (disk.step (.apply bundle writes)) := by
  rcases Nat.eq_zero_or_pos writes with rfl | hpos
  · -- nothing was written, and the entry is not one that wrote
    have hlast : lastWriting (disk.step (.apply bundle 0)) = lastWriting disk := by
      simp [lastWriting, Disk.step]
    have hsnap : (disk.step (.apply bundle 0)).snapshots = disk.snapshots := by
      funext source
      simp [Disk.step, persist]
    have hstate : (disk.step (.apply bundle 0)).state = disk.state := by
      simp [Disk.step, persist]
    refine ⟨?_, ?_, ?_⟩
    · rw [hlast, hsnap]
      exact h.copies
    · rw [hlast, hsnap]
      exact h.none_before
    · rw [hlast, hstate]
      exact h.state
  · have hlast : lastWriting (disk.step (.apply bundle writes)) = some (bundle, writes) := by
      simp [lastWriting, Disk.step, hpos]
    refine ⟨?_, ?_, ?_⟩
    · intro entry he h3 source
      rw [hlast] at he
      obtain rfl := Option.some.inj he
      simp [Disk.step, persist, mem_sourceOrder_take source h3]
    · intro he
      rw [hlast] at he
      cases he
    · simp [hlast]

theorem kept_reconcile (h : Kept disk) (writes : Nat) : Kept (disk.step (.reconcile writes)) := by
  simp only [Disk.step]
  cases hs : savedBundle disk with
  | none => exact h
  | some bundle =>
    have hsnap := persist_saved hs writes
    refine ⟨?_, ?_, ?_⟩
    · rw [hsnap]
      exact h.copies
    · rw [hsnap]
      exact h.none_before
    · intro _ hnone
      have hbefore := h.none_before hnone .vars
      rw [savedBundle_eq hs .vars] at hbefore
      cases hbefore

theorem kept_step (h : Kept disk) (op : Op) : Kept (disk.step op) := by
  cases op with
  | edit sources => exact ⟨h.copies, h.none_before, h.state⟩
  | apply bundle writes => exact kept_apply h bundle writes
  | reconcile writes => exact kept_reconcile h writes
  | revert pending fails => exact ⟨h.copies, h.none_before, h.state⟩

/-! ## What a revert leaves -/

theorem forall_source {P : Source → Prop} : (∀ source, P source) ↔ P .websites ∧ P .tcp ∧ P .vars := by
  constructor
  · exact fun h => ⟨h _, h _, h _⟩
  · rintro ⟨hw, ht, hv⟩ source
    cases source <;> assumption

/-- With copies of all three files, those that do not fail are replaced. -/
theorem revert_eq (fails : Source → Bool) (hp : pending = false) (hs : disk.state = true)
    (hc : ∀ source, disk.snapshots source = some (bundle source)) :
    ((revertToLastAppliedState pending fails disk).1 = true ↔ ∀ source, fails source = false) ∧
      ∀ source, (revertToLastAppliedState pending fails disk).2 source =
        if fails source then disk.sources source else some (bundle source) := by
  subst hp
  simp only [revertToLastAppliedState, Bool.false_eq_true, if_false, hs, Bool.true_eq_false,
    List.foldl_cons, List.foldl_nil, revertFile, hc, forall_source]
  cases hw : fails .websites <;> cases ht : fails .tcp <;> cases hv : fails .vars <;> simp

theorem faithful_of_undisturbed_step {op : Op} (hk : Kept disk) (hu : Undisturbed disk op) :
    Faithful disk op := by
  cases op with
  | edit sources => trivial
  | apply bundle writes => trivial
  | reconcile writes => trivial
  | revert pending fails =>
    obtain ⟨hsettled, hall⟩ := hu
    by_cases hrun : pending = false ∧ disk.state = true
    · obtain ⟨entry, hlast⟩ := Option.ne_none_iff_exists'.mp (hk.state hrun.2)
      have hcopies := hk.copies entry hlast (hsettled entry hlast)
      obtain ⟨hok, hfiles⟩ := revert_eq fails hrun.1 hrun.2 hcopies
      refine ⟨fun h => ?_, fun h => ?_⟩
      · refine ⟨entry.1, entry.2, List.mem_of_find?_eq_some hlast, fun source => ?_⟩
        rw [hfiles, hok.mp h source, if_neg Bool.false_ne_true]
      · rcases hall with hnone | hsame
        · rw [hok.mpr hnone] at h
          cases h
        · funext source
          rw [hfiles]
          split
          · rfl
          · rename_i hf
            rcases hsame source _ (hcopies source) with hfail | heq
            · exact absurd hfail hf
            · exact heq.symm
    · have hout : revertToLastAppliedState pending fails disk = (false, disk.sources) := by
        unfold revertToLastAppliedState
        cases pending with
        | true => rfl
        | false =>
          have hs : disk.state = false := by
            rcases hb : disk.state with _ | _
            · rfl
            · exact absurd ⟨rfl, hb⟩ hrun
          rw [if_neg Bool.false_ne_true, if_pos hs]
      rw [Faithful, hout]
      exact ⟨fun h => (by cases h), fun _ => rfl⟩

def firstDisk (sources : Source → Option Bytes) : Disk := ⟨sources, fun _ => none, false, []⟩

theorem kept_firstDisk (sources : Source → Option Bytes) : Kept (firstDisk sources) :=
  ⟨fun _ he => (by cases he), fun _ _ => rfl, fun h => (by cases h)⟩

/-- In every history whose reverts find the copies of one apply, and files that all take the write or
all refuse it, every revert is faithful. -/
theorem revert_faithful (sources : Source → Option Bytes) (ops : List Op)
    (h : Machine.Along Disk.step Undisturbed (firstDisk sources) ops) :
    Machine.Along Disk.step Faithful (firstDisk sources) ops :=
  h.imp_of_invariant (kept_firstDisk sources) (fun _ op hk _ => kept_step hk op)
    fun _ _ hk hu => faithful_of_undisturbed_step hk hu

/-! An apply that stops after its first write, and a revert one of whose writes fails. -/

def bundleOf (byte : UInt8) : Bundle := fun _ => [byte]

def stopped : List Op := [.apply (bundleOf 1) 4, .apply (bundleOf 2) 1, .revert false fun _ => false]

def halfway : List Op :=
  [.apply (bundleOf 1) 4, .edit fun _ => some [2], .revert false (fun source => source = .tcp)]

/-- The revert after the stopped apply reports success and mixes two applies; the other reports a
failure and has replaced two of the three files. -/
theorem revert_mixes : ¬ Machine.Along Disk.step Faithful (firstDisk fun _ => none) stopped ∧
    ¬ Machine.Along Disk.step Faithful (firstDisk fun _ => none) halfway := by
  refine ⟨fun h => ?_, fun h => ?_⟩
  · obtain ⟨-, -, hrevert, -⟩ := h
    obtain ⟨bundle, writes, hm, hall⟩ := hrevert.1 (by decide)
    have hv := hall .vars
    have ht := hall .tcp
    simp [Disk.step, persist, firstDisk, bundleOf] at hm
    rcases hm with ⟨rfl, -⟩ | ⟨rfl, -⟩
    · exact absurd ht (by decide)
    · exact absurd hv (by decide)
  · obtain ⟨-, -, hrevert, -⟩ := h
    have hsame := congrFun (hrevert.2 (by decide)) .vars
    exact absurd hsame (by decide)

def complete : List Op :=
  [.apply (bundleOf 1) 4, .edit fun _ => some [2], .revert false fun _ => false]

theorem revert_faithful_complete :
    Machine.Along Disk.step Undisturbed (firstDisk fun _ => none) complete ∧
      Machine.Along Disk.step Faithful (firstDisk fun _ => none) complete := by
  have h : Machine.Along Disk.step Undisturbed (firstDisk fun _ => none) complete := by
    refine ⟨trivial, trivial, ⟨fun entry he => ?_, Or.inl fun _ => rfl⟩, trivial⟩
    have hentry : entry = (bundleOf 1, 4) := by simpa [Disk.step, persist, firstDisk, eq_comm] using he
    rw [hentry]
    decide
  exact ⟨h, revert_faithful _ _ h⟩

end EasyHaProxy.Panel.Applied
