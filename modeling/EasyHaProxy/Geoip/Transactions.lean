import EasyHaProxy.Lib.Machine
import EasyHaProxy.Controld.Basic

/-! Any number of `update_geoip.py` runs, each in its own process, and the one transaction of
haproxy-controld. -/
namespace EasyHaProxy.Geoip.Transactions

open Controld (TransactionState)

variable {β σ ρ : Type}

/-- `vars.yml`, the selection file and the release that `current` points to. -/
structure Files (β σ ρ : Type) where
  vars : β
  selection : σ
  current : ρ
  deriving DecidableEq

/-- The transaction of controld. `left` is what its own last step left in the files. -/
structure Transaction (β σ ρ : Type) where
  status : TransactionState
  candidateVars : β
  geoip : Option σ
  fingerprint : Option (σ × ρ)
  previous : Files β σ ρ
  left : Files β σ ρ

/-- Whose update it is: a plain one, the one `configure_selection` makes, or the one that undoes it. -/
inductive Plan (β σ : Type)
  | plain
  | chosen (old : β × σ)
  | undoing

/-- Where a run stands. -/
inductive Phase (β σ ρ : Type)
  | ended
  /-- At the entry of `update`, before `verify_config_transaction_access`. -/
  | checking
  /-- Past it, before the update lock. -/
  | locking
  /-- Both locks held, the files read, nothing written. -/
  | writingVars (old new : β × σ)
  | writingSelection (old new : β × σ)
  /-- At the entry of the `update` inside `configure_selection`. -/
  | rechecking (plan : Plan β σ)
  | building (plan : Plan β σ)
  | switched (plan : Plan β σ) (old : ρ)
  | restoringVars (old : β × σ)
  | restoringSelection (old : β × σ) (broken : Bool)

structure State (β σ ρ : Type) where
  files : Files β σ ρ
  transaction : Option (Transaction β σ ρ)
  runs : Nat → Phase β σ ρ
  varsLock : Option Nat
  updateLock : Option Nat

/-- The steps of a run. -/
inductive Act (β σ ρ : Type)
  | update
  | configure (new : β × σ)
  /-- The next step succeeds; a build that gives another release switches to it. -/
  | proceed (target : Option ρ)
  /-- The next step raises. -/
  | fail
  /-- The reload fails and the old release is put back. -/
  | putBack
  | crash

/-- The steps of controld. -/
inductive Control (β σ ρ : Type)
  | begin (previousVars : β) (geoip : Option σ)
  | applySelection
  | applyRelease (release : ρ)
  | recordFingerprint
  | pend
  | confirm (late : Bool)
  | rollback
  | restoreVars
  | restoreSelection
  | restoreRelease
  | settle (ok : Bool)

inductive Op (β σ ρ : Type)
  | run (id : Nat) (act : Act β σ ρ)
  | control (op : Control β σ ρ)
  /-- What others write while there is no transaction. -/
  | others (files : Files β σ ρ)

def State.active (s : State β σ ρ) : Bool := s.transaction.any fun t => t.status.active

def State.setRun (s : State β σ ρ) (id : Nat) (phase : Phase β σ ρ) : State β σ ρ :=
  { s with runs := Function.update s.runs id phase }

def State.leave (s : State β σ ρ) (id : Nat) : State β σ ρ :=
  { s.setRun id .ended with
    varsLock := if s.varsLock = some id then none else s.varsLock
    updateLock := if s.updateLock = some id then none else s.updateLock }

/-- An update that raises: `configure_selection` restores, the others are over. -/
def State.failTo (s : State β σ ρ) (id : Nat) : Plan β σ → State β σ ρ
  | .chosen old => s.setRun id (.restoringVars old)
  | .plain | .undoing => s.leave id

def State.setVars (s : State β σ ρ) (vars : β) : State β σ ρ := { s with files := { s.files with vars := vars } }

def State.setSelection (s : State β σ ρ) (selection : σ) : State β σ ρ :=
  { s with files := { s.files with selection := selection } }

def State.setCurrent (s : State β σ ρ) (current : ρ) : State β σ ρ :=
  { s with files := { s.files with current := current } }

def State.proceed (s : State β σ ρ) (id : Nat) (target : Option ρ) : State β σ ρ :=
  match s.runs id with
  | .ended => s
  | .checking => if s.active then s.leave id else s.setRun id .locking
  | .locking =>
    if s.updateLock = none then { s.setRun id (.building .plain) with updateLock := some id } else s.leave id
  | .writingVars old new => (s.setVars new.1).setRun id (.writingSelection old new)
  | .writingSelection old new => (s.setSelection new.2).setRun id (.rechecking (.chosen old))
  | .rechecking plan => if s.active then s.failTo id plan else s.setRun id (.building plan)
  | .building plan =>
    match target with
    | none => s.leave id
    | some release => (s.setCurrent release).setRun id (.switched plan s.files.current)
  | .switched _ _ => s.leave id
  | .restoringVars old => (s.setVars old.1).setRun id (.restoringSelection old false)
  | .restoringSelection old broken =>
    if broken then (s.setSelection old.2).leave id else (s.setSelection old.2).setRun id (.rechecking .undoing)

def State.fail (s : State β σ ρ) (id : Nat) : State β σ ρ :=
  match s.runs id with
  | .ended => s
  | .checking | .locking => s.leave id
  | .writingVars old _ | .writingSelection old _ => s.setRun id (.restoringVars old)
  | .rechecking plan | .building plan | .switched plan _ => s.failTo id plan
  | .restoringVars old => s.setRun id (.restoringSelection old true)
  | .restoringSelection _ _ => s.leave id

def State.startUpdate (s : State β σ ρ) (id : Nat) : State β σ ρ :=
  match s.runs id with
  | .ended => s.setRun id .checking
  | _ => s

/-- `configure_selection` up to its first write: both locks, and the files as they are. -/
def State.startConfigure (s : State β σ ρ) (id : Nat) (new : β × σ) : State β σ ρ :=
  match s.runs id with
  | .ended =>
    if s.varsLock = none ∧ s.updateLock = none then
      { s.setRun id (.writingVars (s.files.vars, s.files.selection) new) with
        varsLock := some id
        updateLock := some id }
    else s
  | _ => s

def State.putBack (s : State β σ ρ) (id : Nat) : State β σ ρ :=
  match s.runs id with
  | .switched plan old => (s.setCurrent old).failTo id plan
  | _ => s

def State.act (s : State β σ ρ) (id : Nat) : Act β σ ρ → State β σ ρ
  | .update => s.startUpdate id
  | .configure new => s.startConfigure id new
  | .proceed target => s.proceed id target
  | .fail => s.fail id
  | .putBack => s.putBack id
  | .crash => s.leave id

/-- `_verify_live_transaction_candidate`, of these files. -/
def Verifies [DecidableEq β] [DecidableEq σ] [DecidableEq ρ] (files : Files β σ ρ) (t : Transaction β σ ρ) : Bool :=
  files.vars = t.candidateVars && (t.geoip.isNone || t.fingerprint = some (files.selection, files.current))

/-- The transaction after a step of its own that leaves these files. -/
def Transaction.leaving (t : Transaction β σ ρ) (status : TransactionState) (files : Files β σ ρ) :
    Transaction β σ ρ :=
  { t with status := status, left := files }

/-- The transaction writes. -/
def State.own (s : State β σ ρ) (t : Transaction β σ ρ) (files : Files β σ ρ) : State β σ ρ :=
  { s with files := files, transaction := some (t.leaving t.status files) }

def State.mark (s : State β σ ρ) (t : Transaction β σ ρ) (status : TransactionState) : State β σ ρ :=
  { s with transaction := some { t with status := status } }

/-- A transaction as it is first stored. The candidate sources are those on disk. -/
def prepared (files : Files β σ ρ) (previousVars : β) (geoip : Option σ) : Transaction β σ ρ where
  status := .prepared
  candidateVars := files.vars
  geoip := geoip
  fingerprint := none
  previous := ⟨previousVars, files.selection, files.current⟩
  left := files

variable [DecidableEq β] [DecidableEq σ] [DecidableEq ρ]

def State.control (s : State β σ ρ) (op : Control β σ ρ) : State β σ ρ :=
  match s.transaction, op with
  | tx, .begin previousVars geoip =>
    if tx.any fun t => t.status.active then s
    else { s with transaction := some (prepared s.files previousVars geoip) }
  | none, _ => s
  | some t, .applySelection =>
    match t.status, t.geoip, t.fingerprint with
    | .prepared, some selection, none => s.own t { s.files with selection := selection }
    | _, _, _ => s
  | some t, .applyRelease release =>
    match t.status, t.geoip, t.fingerprint with
    | .prepared, some _, none => s.own t { s.files with current := release }
    | _, _, _ => s
  | some t, .recordFingerprint =>
    if t.status = .prepared then
      { s with transaction := some { t with fingerprint := some (s.files.selection, s.files.current) } }
    else s
  | some t, .pend =>
    if t.status = .prepared ∧ (t.geoip.isNone ∨ t.fingerprint.isSome) then s.mark t .pendingConfirmation else s
  | some t, .confirm late =>
    if t.status = .pendingConfirmation then
      s.mark t (if !late && Verifies s.files t then .confirmed else .rollingBack)
    else s
  | some t, .rollback => if t.status.active then s.mark t .rollingBack else s
  | some t, .restoreVars =>
    if t.status = .rollingBack then s.own t { s.files with vars := t.previous.vars } else s
  | some t, .restoreSelection =>
    if t.status = .rollingBack ∧ t.geoip.isSome then s.own t { s.files with selection := t.previous.selection } else s
  | some t, .restoreRelease =>
    if t.status = .rollingBack ∧ t.geoip.isSome then s.own t { s.files with current := t.previous.current } else s
  | some t, .settle ok =>
    if t.status = .rollingBack then s.mark t (if ok then .rolledBack else .rollbackFailed) else s

def step (s : State β σ ρ) : Op β σ ρ → State β σ ρ
  | .run id act => s.act id act
  | .control op => s.control op
  | .others files => if s.active then s else { s with files := files }

/-! ## What must hold -/

/-- A run leaves the files alone while a transaction is active; a confirmation in time finds the
candidate; and whatever the transaction does next, it finds the files as it left them. -/
structure Undisturbed (s : State β σ ρ) (op : Op β σ ρ) : Prop where
  quiet : ∀ id act, op = .run id act → s.active = true → (step s op).files = s.files
  confirms : ∀ t, op = .control (.confirm false) → s.transaction = some t → t.status = .pendingConfirmation →
    Verifies s.files t = true
  found : ∀ t c, op = .control c → s.transaction = some t → t.status.active = true → s.files = t.left

/-- Past its check, or past the first write of `configure_selection`. -/
def Phase.underWay : Phase β σ ρ → Bool
  | .ended | .checking | .writingVars _ _ => false
  | _ => true

/-- Between the locks and the first write. -/
def Phase.aboutToWrite : Phase β σ ρ → Bool
  | .writingVars _ _ => true
  | _ => false

/-- No transaction begins while a run is under way, and `configure_selection` does not begin to write
while one is active. -/
def Apart (s : State β σ ρ) : Op β σ ρ → Prop
  | .control (.begin _ _) => ∀ id, (s.runs id).underWay = false
  | .run id (.proceed _) | .run id .fail => (s.runs id).aboutToWrite = true → s.active = false
  | _ => True

/-! ## What every step keeps -/

/-- What the transaction expects to find is what it left. -/
structure Coherent (t : Transaction β σ ρ) : Prop where
  vars : t.status = .prepared ∨ t.status = .pendingConfirmation → t.left.vars = t.candidateVars
  marked : t.status = .prepared ∨ t.status = .pendingConfirmation → ∀ f, t.fingerprint = some f →
    f = (t.left.selection, t.left.current)
  pending : t.status = .pendingConfirmation → t.geoip.isNone ∨ t.fingerprint.isSome

def Inv (s : State β σ ρ) : Prop :=
  ∀ t, s.transaction = some t → t.status.active = true →
    Coherent t ∧ s.files = t.left ∧ ∀ id, (s.runs id).underWay = false

section

omit [DecidableEq β] [DecidableEq σ] [DecidableEq ρ]

variable {s : State β σ ρ} {t : Transaction β σ ρ} {id : Nat}

theorem active_iff : s.active = true ↔ ∃ t, s.transaction = some t ∧ t.status.active = true := by
  unfold State.active
  cases s.transaction <;> simp

theorem Inv.of_inactive (h : s.active = false) : Inv s := by
  intro t ht hactive
  have := active_iff.mpr ⟨t, ht, hactive⟩
  simp [h] at this

theorem Inv.setRun (h : Inv s) {phase : Phase β σ ρ} (hphase : phase.underWay = false) : Inv (s.setRun id phase) := by
  intro t ht hactive
  obtain ⟨hcoherent, hfiles, hruns⟩ := h t ht hactive
  refine ⟨hcoherent, hfiles, ?_⟩
  intro other
  by_cases hid : other = id
  · subst hid
    simpa [State.setRun] using hphase
  · simpa [State.setRun, hid] using hruns other

theorem Inv.setLocks (h : Inv s) (varsLock updateLock : Option Nat) :
    Inv { s with varsLock := varsLock, updateLock := updateLock } := h

theorem Inv.leave (h : Inv s) : Inv (s.leave id) := (h.setRun rfl).setLocks _ _

theorem active_failTo (plan : Plan β σ) : (s.failTo id plan).active = s.active := by
  cases plan <;> rfl

/-- No run touches the transaction. -/
theorem active_act (act : Act β σ ρ) : (s.act id act).active = s.active := by
  cases act with
  | update =>
    change (s.startUpdate id).active = s.active
    unfold State.startUpdate
    split <;> rfl
  | configure new =>
    change (s.startConfigure id new).active = s.active
    unfold State.startConfigure
    split
    · split <;> rfl
    · rfl
  | proceed target =>
    change (s.proceed id target).active = s.active
    unfold State.proceed
    split
    · rfl
    · split <;> rfl
    · split <;> rfl
    · rfl
    · rfl
    · split
      · exact active_failTo _
      · rfl
    · split <;> rfl
    · rfl
    · rfl
    · split <;> rfl
  | fail =>
    change (s.fail id).active = s.active
    unfold State.fail
    split
    all_goals first | rfl | exact active_failTo _
  | putBack =>
    change (s.putBack id).active = s.active
    unfold State.putBack
    split
    · exact active_failTo _
    · rfl
  | crash => rfl

/-- While a transaction is active a run that is neither under way nor about to write changes nothing,
and does not get under way. -/
theorem act_of_active (h : Inv s) (hactive : s.active = true) {act : Act β σ ρ}
    (hrun : (s.runs id).underWay = false)
    (hwrite : (act = .fail ∨ ∃ target, act = .proceed target) → (s.runs id).aboutToWrite = false) :
    Inv (s.act id act) ∧ (s.act id act).files = s.files := by
  cases act with
  | update =>
    change Inv (s.startUpdate id) ∧ (s.startUpdate id).files = s.files
    unfold State.startUpdate
    split
    · exact ⟨h.setRun rfl, rfl⟩
    · exact ⟨h, rfl⟩
  | configure new =>
    change Inv (s.startConfigure id new) ∧ (s.startConfigure id new).files = s.files
    unfold State.startConfigure
    split
    · split
      · exact ⟨(h.setRun rfl).setLocks _ _, rfl⟩
      · exact ⟨h, rfl⟩
    · exact ⟨h, rfl⟩
  | proceed target =>
    have hwrite := hwrite (Or.inr ⟨target, rfl⟩)
    change Inv (s.proceed id target) ∧ (s.proceed id target).files = s.files
    unfold State.proceed
    split
    · exact ⟨h, rfl⟩
    · rw [if_pos hactive]
      exact ⟨h.leave, rfl⟩
    all_goals
      rename_i hphase
      simp [hphase, Phase.underWay, Phase.aboutToWrite] at hrun hwrite
  | fail =>
    have hwrite := hwrite (Or.inl rfl)
    change Inv (s.fail id) ∧ (s.fail id).files = s.files
    unfold State.fail
    split
    · exact ⟨h, rfl⟩
    · exact ⟨h.leave, rfl⟩
    all_goals
      rename_i hphase
      simp [hphase, Phase.underWay, Phase.aboutToWrite] at hrun hwrite
  | putBack =>
    change Inv (s.putBack id) ∧ (s.putBack id).files = s.files
    unfold State.putBack
    split
    · rename_i hphase
      rw [hphase] at hrun
      cases hrun
    · exact ⟨h, rfl⟩
  | crash => exact ⟨h.leave, rfl⟩

/-- A step of a run keeps the invariant. -/
theorem act_inv (h : Inv s) {act : Act β σ ρ}
    (hwrite : s.active = true → (act = .fail ∨ ∃ target, act = .proceed target) →
      (s.runs id).aboutToWrite = false) : Inv (s.act id act) := by
  cases hactive : s.active with
  | false => exact Inv.of_inactive ((active_act act).trans hactive)
  | true =>
    obtain ⟨t, ht, hstatus⟩ := active_iff.mp hactive
    exact (act_of_active h hactive ((h t ht hstatus).2.2 id) (hwrite hactive)).1

/-- What the transaction writes it leaves. -/
theorem Inv.own (h : Inv s) (ht : s.transaction = some t) (hstatus : t.status.active = true)
    {files : Files β σ ρ}
    (hvars : t.status = .prepared ∨ t.status = .pendingConfirmation → files.vars = t.left.vars)
    (hmarked : t.status = .prepared ∨ t.status = .pendingConfirmation → t.fingerprint = none) :
    Inv (s.own t files) := by
  obtain ⟨hcoherent, -, hruns⟩ := h t ht hstatus
  intro t' ht' _
  obtain rfl := Option.some_inj.mp ht'
  refine ⟨⟨?_, ?_, hcoherent.pending⟩, rfl, hruns⟩
  · intro hearly
    exact (hvars hearly).trans (hcoherent.vars hearly)
  · intro hearly f hf
    have hnone : t.fingerprint = none := hmarked hearly
    exact absurd (hnone.symm.trans hf) (by simp)

theorem Inv.mark (h : Inv s) (ht : s.transaction = some t) (hstatus : t.status.active = true)
    {status : TransactionState}
    (hearly : status = .prepared ∨ status = .pendingConfirmation →
      t.status = .prepared ∨ t.status = .pendingConfirmation)
    (hpending : status = .pendingConfirmation → t.geoip.isNone ∨ t.fingerprint.isSome) : Inv (s.mark t status) := by
  obtain ⟨hcoherent, hfiles, hruns⟩ := h t ht hstatus
  intro t' ht' _
  obtain rfl := Option.some_inj.mp ht'
  exact ⟨⟨fun he => hcoherent.vars (hearly he), fun he => hcoherent.marked (hearly he), hpending⟩, hfiles, hruns⟩

end

variable {s : State β σ ρ} {op : Op β σ ρ}

theorem control_inv {op : Control β σ ρ} (h : Inv s) (hapart : Apart s (.control op)) : Inv (s.control op) := by
  unfold State.control
  split
  · -- a new transaction finds no run under way
    rename_i previousVars geoip
    split
    · exact h
    · intro t ht _
      obtain rfl := Option.some_inj.mp ht
      exact ⟨⟨fun _ => rfl, fun _ f hf => (by cases hf), fun hp => (by cases hp)⟩, rfl, hapart⟩
  · exact h
  · rename_i t ht
    split
    · rename_i hstatus hgeoip hnone
      have hactive : t.status.active = true := by rw [hstatus]; rfl
      exact h.own ht hactive (fun _ => by rw [(h t ht hactive).2.1]) fun _ => hnone
    · exact h
  · rename_i t release ht
    split
    · rename_i hstatus hgeoip hnone
      have hactive : t.status.active = true := by rw [hstatus]; rfl
      exact h.own ht hactive (fun _ => by rw [(h t ht hactive).2.1]) fun _ => hnone
    · exact h
  · rename_i t ht
    split
    · rename_i hstatus
      have hactive : t.status.active = true := by rw [hstatus]; rfl
      obtain ⟨hcoherent, hfiles, hruns⟩ := h t ht hactive
      intro t' ht' _
      obtain rfl := Option.some_inj.mp ht'
      refine ⟨⟨hcoherent.vars, ?_, fun _ => Or.inr rfl⟩, hfiles, hruns⟩
      intro _ f hf
      rw [← Option.some_inj.mp hf, hfiles]
    · exact h
  · rename_i t ht
    split
    · rename_i hpend
      have hactive : t.status.active = true := by rw [hpend.1]; rfl
      exact h.mark ht hactive (fun _ => Or.inl hpend.1) fun _ => hpend.2
    · exact h
  · rename_i t late ht
    split
    · rename_i hstatus
      have hactive : t.status.active = true := by rw [hstatus]; rfl
      apply h.mark ht hactive (fun _ => Or.inr hstatus)
      intro hpending
      split at hpending <;> cases hpending
    · exact h
  · rename_i t ht
    split
    · rename_i hactive
      exact h.mark ht hactive (fun he => by simp at he) fun he => (by cases he)
    · exact h
  · rename_i t ht
    split
    · rename_i hstatus
      have hactive : t.status.active = true := by rw [hstatus]; rfl
      exact h.own ht hactive (fun he => by simp [hstatus] at he) fun he => by simp [hstatus] at he
    · exact h
  · rename_i t ht
    split
    · rename_i hstatus
      have hactive : t.status.active = true := by rw [hstatus.1]; rfl
      exact h.own ht hactive (fun he => by simp [hstatus.1] at he) fun he => by simp [hstatus.1] at he
    · exact h
  · rename_i t ht
    split
    · rename_i hstatus
      have hactive : t.status.active = true := by rw [hstatus.1]; rfl
      exact h.own ht hactive (fun he => by simp [hstatus.1] at he) fun he => by simp [hstatus.1] at he
    · exact h
  · rename_i t ok ht
    split
    · rename_i hstatus
      have hactive : t.status.active = true := by rw [hstatus]; rfl
      apply h.mark ht hactive
      · intro he
        split at he <;> simp at he
      · intro he
        split at he <;> cases he
    · exact h

omit [DecidableEq β] [DecidableEq σ] [DecidableEq ρ] in
theorem aboutToWrite_of_apart {id : Nat} {act : Act β σ ρ} (hapart : Apart s (.run id act)) (hactive : s.active = true)
    (hkind : act = .fail ∨ ∃ target, act = .proceed target) : (s.runs id).aboutToWrite = false := by
  by_contra hwrite
  have hwrite : (s.runs id).aboutToWrite = true := by simpa using hwrite
  rcases hkind with rfl | ⟨target, rfl⟩
  · simp [hapart hwrite] at hactive
  · simp [hapart hwrite] at hactive

theorem step_inv (h : Inv s) (hapart : Apart s op) : Inv (step s op) := by
  cases op with
  | run id act =>
    apply act_inv h
    intro hactive hkind
    exact aboutToWrite_of_apart hapart hactive hkind
  | control op => exact control_inv h hapart
  | others files =>
    change Inv (if s.active then s else { s with files := files })
    cases hactive : s.active with
    | true => exact h
    | false => exact Inv.of_inactive hactive

theorem undisturbed_of_inv (h : Inv s) (hapart : Apart s op) : Undisturbed s op where
  quiet := by
    rintro id act rfl hactive
    obtain ⟨t, ht, hstatus⟩ := active_iff.mp hactive
    refine (act_of_active h hactive ((h t ht hstatus).2.2 id) ?_).2
    intro hkind
    exact aboutToWrite_of_apart hapart hactive hkind
  confirms := by
    rintro t rfl ht hstatus
    obtain ⟨hcoherent, hfiles, -⟩ := h t ht (by rw [hstatus]; rfl)
    unfold Verifies
    rw [hfiles]
    have hvars := hcoherent.vars (Or.inr hstatus)
    rcases hcoherent.pending hstatus with hnone | hsome
    · simp [hvars, hnone]
    · obtain ⟨f, hf⟩ := Option.isSome_iff_exists.mp hsome
      have := hcoherent.marked (Or.inr hstatus) f hf
      simp [hvars, hf, this]
  found := by
    rintro t c rfl ht hactive
    exact (h t ht hactive).2.1

/-- Where transactions and runs keep apart, no run changes a file while a transaction is active, every
confirmation in time finds its candidate, and the transaction always finds the files as it left them. -/
theorem runs_stand_aside {ops : List (Op β σ ρ)} (h : Inv s) (hapart : Machine.Along step Apart s ops) :
    Machine.Along step Undisturbed s ops :=
  hapart.imp_of_invariant h (fun _ _ hs hop => step_inv hs hop) fun _ _ hs hop => undisturbed_of_inv hs hop

/-- Nothing under way, no transaction. -/
def quiet : State Nat Nat Nat := ⟨⟨0, 0, 0⟩, none, fun _ => .ended, none, none⟩

/-- A timer run that finds the transaction, between its beginning and its confirmation, and one after it. -/
def inTurn : List (Op Nat Nat Nat) :=
  [.control (.begin 0 none), .run 0 .update, .control .pend, .run 0 (.proceed none),
    .control (.confirm false), .run 0 .update, .run 0 (.proceed none), .run 0 (.proceed none), .run 0 (.proceed (some 1))]

theorem runs_stand_aside_inTurn :
    Machine.Along step Apart quiet inTurn ∧ Machine.Along step Undisturbed quiet inTurn ∧
      (Machine.run step quiet inTurn).files.current = 1 := by
  have hinv : Inv quiet := Inv.of_inactive rfl
  have hapart : Machine.Along step Apart quiet inTurn := by
    refine ⟨fun id => rfl, trivial, trivial, ?_, trivial, trivial, ?_, ?_, ?_, trivial⟩
    all_goals exact fun h => (by cases h)
  exact ⟨hapart, runs_stand_aside hinv hapart, rfl⟩

/-- A selection made while a configuration waits: `vars.yml` is written before anyone asks. -/
theorem selection_writes_during_transaction :
    ¬ ∀ (s : State Nat Nat Nat) (ops : List (Op Nat Nat Nat)), s.active = false →
      Machine.Along step Undisturbed s ops := by
  intro h
  have halong := h quiet [.control (.begin 0 none), .control .pend, .run 0 (.configure (1, 1)), .run 0 (.proceed none)]
    rfl
  obtain ⟨-, -, -, hwrite, -⟩ := halong
  have hfiles := hwrite.quiet 0 (.proceed none) rfl rfl
  cases hfiles

end EasyHaProxy.Geoip.Transactions
