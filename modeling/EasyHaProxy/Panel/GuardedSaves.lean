import EasyHaProxy.Controld.Basic
import EasyHaProxy.Lib.Machine

/-! Any number of sessions save or revert source files while others apply them. -/
namespace EasyHaProxy.Panel.GuardedSaves

open Controld (Bytes SourceName TransactionState sourceNames)

abbrev Files := SourceName → Option Bytes

/-- Where `_reconcile_applied_state_for_candidate` takes the rollback sources from: the copies of the
last apply, or the sources as they are read. -/
inductive Baseline
  | kept
  | current
  deriving DecidableEq

/-- What the panel sends to begin a transaction. -/
structure Request where
  candidate : SourceName → Bytes
  previous : SourceName → Bytes
  baseline : Baseline

/-- How far the daemon is with a transaction. -/
inductive Slot
  | empty
  /-- The sources on disk are those of the request; nothing is persisted yet. -/
  | verified (request : Request)
  | prepared (request : Request)
  | pending (request : Request)
  /-- The files that are still to be put back. -/
  | rolling (request : Request) (left : List SourceName)
  | failed (request : Request)

/-- What `config-transaction-status` says; a transaction that is over is none. -/
def Slot.status : Slot → Option TransactionState
  | .empty | .verified _ => none
  | .prepared _ => some .prepared
  | .pending _ => some .pendingConfirmation
  | .rolling _ _ => some .rollingBack
  | .failed _ => some .rollbackFailed

def Slot.active (slot : Slot) : Bool := slot.status.any TransactionState.active

def Slot.request? : Slot → Option Request
  | .empty => none
  | .verified r | .prepared r | .pending r | .rolling r _ | .failed r => some r

/-- `config_transaction_is_pending`. Without an answer only the marker speaks. -/
def configTransactionIsPending (status : Option TransactionState) (answered marker : Bool) : Bool :=
  if answered then status.any TransactionState.active else marker

inductive Job
  /-- `update_yaml_file` and `_save_with_revision`. -/
  | save (name : SourceName) (content : Bytes)
  /-- `revert_to_last_applied_state`. -/
  | revert

def Job.locks : Job → List SourceName
  | .save name _ => [name]
  | .revert => [.websites, .tcp, .vars]

/-- The files with what is to be written; a revert takes the copy of the last apply. -/
def Job.writes : Job → List (SourceName × Option Bytes)
  | .save name content => [(name, some content)]
  | .revert => [(.websites, none), (.tcp, none), (.vars, none)]

/-- A session that was told nothing is pending. -/
structure Session where
  toLock : List SourceName
  toWrite : List (SourceName × Option Bytes)
  /-- The transactions prepared when it asked. -/
  asked : Nat
  /-- The daemon did not answer and there was no marker. -/
  blind : Bool

structure State where
  files : Files
  /-- The `last_applied_*.yml` copies. -/
  kept : Files
  locks : SourceName → Option Nat
  sessions : Nat → Option Session
  /-- The applies that have read the sources. -/
  requests : Nat → Option Request
  slot : Slot
  marker : Bool
  /-- The transactions prepared so far. -/
  count : Nat
  /-- What the last save of a file put there; a revert settles it. -/
  saved : Files
  /-- The files when the daemon verified them. -/
  before : Files
  /-- A session wrote the file since it was verified, and since it was put back. -/
  crossed : SourceName → Bool

inductive Op
  | ask (session : Nat) (job : Job) (answered : Bool)
  | lock (session : Nat)
  /-- The next file of the session; a write that fails is passed over. -/
  | write (session : Nat) (ok : Bool)
  /-- Done, or refused for another reason. -/
  | leave (session : Nat)
  | read (apply : Nat) (baseline : Baseline)
  | begin (apply : Nat)
  | prepare
  /-- A check after the verification refuses the candidate. -/
  | refuse
  | activate
  | confirm
  /-- On request, on expiry, after a failed reload or probe, or when the daemon starts again. -/
  | rollback
  | putBack (ok : Bool)
  | rolledBack (ok : Bool)
  /-- Copies are written after an apply, all of them or some. -/
  | keep (copies : Files)
  /-- The panel writes or clears its marker. -/
  | mark (present : Bool)

def whole (files : Files) : Option (SourceName → Bytes) :=
  match files .vars, files .websites, files .tcp with
  | some vars, some websites, some tcp => some fun
    | .vars => vars
    | .websites => websites
    | .tcp => tcp
  | _, _, _ => none

/-- `_config_source_payload`: the candidate, and what a rollback is to write. -/
def configSourcePayload (files kept : Files) (baseline : Baseline) : Option Request :=
  match whole files, baseline with
  | none, _ => none
  | some candidate, .current => some ⟨candidate, candidate, .current⟩
  | some candidate, .kept => (whole kept).map fun previous => ⟨candidate, previous, .kept⟩

/-- `_verify_candidate_config_sources`. -/
def verifies (files : Files) (request : Request) : Bool :=
  sourceNames.all fun name => files name == some (request.candidate name)

/-- The order of the mapping a rollback goes through. -/
def restoreOrder : List SourceName := [.vars, .websites, .tcp]

/-- A session's write of a file. -/
def State.put (s : State) (name : SourceName) (text : Option Bytes) (content : Bytes) : State :=
  { s with
    files := Function.update s.files name (some content)
    saved := Function.update s.saved name text
    crossed := Function.update s.crossed name (s.slot.request?.isSome) }

def State.setSession (s : State) (id : Nat) (session : Option Session) : State :=
  { s with sessions := Function.update s.sessions id session }

def State.ask (s : State) (id : Nat) (job : Job) (answered : Bool) : State :=
  if (s.sessions id).isSome || configTransactionIsPending s.slot.status answered s.marker then s
  else s.setSession id (some ⟨job.locks, job.writes, s.count, !answered⟩)

def State.lock (s : State) (id : Nat) : State :=
  match s.sessions id with
  | some ⟨name :: toLock, toWrite, asked, blind⟩ =>
    if s.locks name = none then
      { s.setSession id (some ⟨toLock, toWrite, asked, blind⟩) with
        locks := Function.update s.locks name (some id) }
    else s
  | _ => s

def State.write (s : State) (id : Nat) (ok : Bool) : State :=
  match s.sessions id with
  | some ⟨[], (name, text) :: toWrite, asked, blind⟩ =>
    let s' := s.setSession id (some ⟨[], toWrite, asked, blind⟩)
    match text.or (s.kept name), ok with
    | some content, true => s'.put name text content
    | _, _ => s'
  | _ => s

def State.leave (s : State) (id : Nat) : State :=
  { s.setSession id none with
    locks := fun name => if s.locks name = some id then none else s.locks name }

def State.begin (s : State) (apply : Nat) : State :=
  match s.requests apply, s.slot with
  | some request, .empty =>
    if verifies s.files request then
      { s with slot := .verified request, before := s.files, crossed := fun _ => false }
    else s
  | _, _ => s

def State.putBack (s : State) (ok : Bool) : State :=
  match s.slot with
  | .rolling request (name :: left) =>
    if ok then
      { s with
        files := Function.update s.files name (some (request.previous name))
        crossed := Function.update s.crossed name false
        slot := .rolling request left }
    else { s with slot := .failed request }
  | _ => s

/-- What the daemon's other steps make of its slot; a step it cannot take leaves it. -/
def Slot.next (files : Files) : Slot → Op → Slot
  | .verified _, .refuse => .empty
  | .prepared request, .activate => .pending request
  | .pending request, .confirm => if verifies files request then .empty else .rolling request restoreOrder
  | .prepared request, .rollback => .rolling request restoreOrder
  | .pending request, .rollback => .rolling request restoreOrder
  | .rolling request _, .rollback => .rolling request restoreOrder
  | .failed request, .rollback => .rolling request restoreOrder
  | .rolling _ [], .rolledBack true => .empty
  | .rolling request [], .rolledBack false => .failed request
  | slot, _ => slot

def State.step (s : State) : Op → State
  | .ask id job answered => s.ask id job answered
  | .lock id => s.lock id
  | .write id ok => s.write id ok
  | .leave id => s.leave id
  | .read apply baseline =>
    { s with requests := Function.update s.requests apply (configSourcePayload s.files s.kept baseline) }
  | .begin apply => s.begin apply
  | .prepare =>
    match s.slot with
    | .verified request => { s with slot := .prepared request, count := s.count + 1 }
    | _ => s
  | .putBack ok => s.putBack ok
  | .keep copies => { s with kept := copies }
  | .mark present => { s with marker := present }
  | op => { s with slot := s.slot.next s.files op }

def initial (files kept : Files) : State where
  files := files
  kept := kept
  locks := fun _ => none
  sessions := fun _ => none
  requests := fun _ => none
  slot := .empty
  marker := false
  count := 0
  saved := fun _ => none
  before := files
  crossed := fun _ => false

/-- The files a rollback's sources are read from. -/
def State.baseline (s : State) : Baseline → Files
  | .kept => s.kept
  | .current => s.files

/-- A session writes while a transaction is active only when it asked before that was prepared, or got
no answer at all. An apply freezes its baseline, and a rollback leaves that in every file no session
wrote since; where it was the sources themselves, that is what stood there before. -/
def StandsAside (s : State) : Op → Prop
  | .read apply baseline => ∀ request, (s.step (.read apply baseline)).requests apply = some request →
      request.baseline = baseline ∧ ∀ name, s.baseline baseline name = some (request.previous name)
  | .write id _ => ∀ session, s.sessions id = some session → s.slot.active = true →
      session.asked < s.count ∨ session.blind = true
  | .rolledBack true => ∀ request, s.slot = .rolling request [] → ∀ name, s.crossed name = false →
      s.files name = some (request.previous name) ∧
        (request.baseline = .current → s.files name = s.before name)
  | _ => True

variable {s : State} {files kept : Files} {slot : Slot} {request : Request} {left : List SourceName}

/-! ## The daemon's slot -/

theorem active_next {op : Op} (h : (slot.next files op).active = true) : slot.active = true := by
  unfold Slot.next at h
  split at h
  all_goals first
    | rfl
    | exact h

theorem request_next {op : Op} (h : (slot.next files op).request? = some request) :
    slot.request? = some request := by
  unfold Slot.next at h
  split at h
  case h_3 =>
    split at h
    · cases h
    · exact h
  all_goals first
    | exact h
    | cases h

theorem mem_restoreOrder (name : SourceName) : name ∈ restoreOrder := by
  cases name <;> decide

/-- A rollback starts with all files still to be put back. -/
theorem rolling_next {op : Op} (h : slot.next files op = .rolling request left) :
    left = restoreOrder ∨ slot = .rolling request left := by
  unfold Slot.next at h
  split at h
  case h_3 =>
    split at h
    · cases h
    · cases h
      exact Or.inl rfl
  all_goals first
    | exact Or.inr h
    | (cases h; try exact Or.inl rfl)

theorem verifies_eq (h : verifies files request = true) (name : SourceName) :
    files name = some (request.candidate name) := by
  have hall := List.all_eq_true.mp h name (by cases name <;> decide)
  exact beq_iff_eq.mp hall

theorem whole_eq {bundle : SourceName → Bytes} (h : whole files = some bundle) (name : SourceName) :
    files name = some (bundle name) := by
  unfold whole at h
  split at h
  · obtain rfl := Option.some.inj h
    cases name <;> assumption
  · cases h

/-- The baseline is frozen as it is read. -/
theorem payload_baseline {baseline : Baseline}
    (h : configSourcePayload s.files s.kept baseline = some request) :
    request.baseline = baseline ∧ ∀ name, s.baseline baseline name = some (request.previous name) := by
  unfold configSourcePayload at h
  split at h
  · cases h
  · rename_i candidate hw
    cases h
    exact ⟨rfl, whole_eq hw⟩
  · obtain ⟨previous, hw, rfl⟩ := Option.map_eq_some_iff.mp h
    exact ⟨rfl, whole_eq hw⟩

theorem previous_of_current {baseline : Baseline}
    (h : configSourcePayload files kept baseline = some request) (hb : request.baseline = .current) :
    request.previous = request.candidate := by
  unfold configSourcePayload at h
  split at h
  · cases h
  · cases h
    rfl
  · obtain ⟨previous, -, rfl⟩ := Option.map_eq_some_iff.mp h
    cases hb

/-! ## What every step keeps -/

/-- What the sessions were told, and what the transaction froze. -/
structure Inv (s : State) : Prop where
  asked : ∀ id session, s.sessions id = some session → session.asked ≤ s.count
  told : ∀ id session, s.sessions id = some session → session.asked = s.count →
    s.slot.active = true → session.blind = true
  requests : ∀ apply request, s.requests apply = some request → request.baseline = .current →
    request.previous = request.candidate
  before : ∀ request, s.slot.request? = some request → request.baseline = .current →
    ∀ name, s.before name = some (request.previous name)
  put : ∀ request left, s.slot = .rolling request left → ∀ name, name ∉ left →
    s.crossed name = false → s.files name = some (request.previous name)

theorem inv_initial (files kept : Files) : Inv (initial files kept) where
  asked _ _ h := by cases h
  told _ _ h := by cases h
  requests _ _ h := by cases h
  before _ h := by cases h
  put _ _ h := by cases h

/-- A session that moves on keeps what it was told. -/
theorem Inv.setSession (h : Inv s) {id : Nat} {session : Option Session}
    (hs : ∀ next, session = some next → next.asked ≤ s.count ∧
      (next.asked = s.count → s.slot.active = true → next.blind = true)) :
    Inv (s.setSession id session) where
  asked other next hn := by
    by_cases ho : other = id
    · subst ho
      exact (hs next (by simpa [State.setSession] using hn)).1
    · exact h.asked other next (by simpa [State.setSession, ho] using hn)
  told other next hn := by
    by_cases ho : other = id
    · subst ho
      exact (hs next (by simpa [State.setSession] using hn)).2
    · exact h.told other next (by simpa [State.setSession, ho] using hn)
  requests := h.requests
  before := h.before
  put := h.put

theorem Inv.setLocks (h : Inv s) (locks : SourceName → Option Nat) : Inv { s with locks := locks } :=
  ⟨h.asked, h.told, h.requests, h.before, h.put⟩

theorem inv_ask (h : Inv s) (id : Nat) (job : Job) (answered : Bool) : Inv (s.ask id job answered) := by
  unfold State.ask
  split
  · exact h
  · rename_i hfree
    refine h.setSession fun next hn => ?_
    obtain rfl := Option.some.inj hn
    refine ⟨le_rfl, fun _ hactive => ?_⟩
    -- with an answer an active transaction would have turned the session away
    cases answered with
    | false => rfl
    | true =>
      have hp : configTransactionIsPending s.slot.status true s.marker = true := hactive
      simp [hp] at hfree

theorem inv_lock (h : Inv s) (id : Nat) : Inv (s.lock id) := by
  unfold State.lock
  split
  · rename_i name toLock toWrite asked blind hs
    split
    · refine Inv.setLocks (h.setSession fun next hn => ?_) _
      obtain rfl := Option.some.inj hn
      have hasked := h.asked id _ hs
      have htold := h.told id _ hs
      exact ⟨hasked, htold⟩
    · exact h
  · exact h

/-- A session's write marks the file while the daemon has a transaction in hand. -/
theorem inv_put (h : Inv s) (name : SourceName) (text : Option Bytes) (content : Bytes) :
    Inv (s.put name text content) where
  asked := h.asked
  told := h.told
  requests := h.requests
  before := h.before
  put request left hslot other hother hcrossed := by
    have hslot' : s.slot = .rolling request left := hslot
    by_cases ho : other = name
    · subst ho
      simp [State.put, hslot', Slot.request?] at hcrossed
    · have hc : s.crossed other = false := by simpa [State.put, ho] using hcrossed
      simpa [State.put, ho] using h.put request left hslot' other hother hc

theorem inv_write (h : Inv s) (id : Nat) (ok : Bool) : Inv (s.write id ok) := by
  unfold State.write
  split
  · rename_i name text toWrite asked blind hs
    have hnext : Inv (s.setSession id (some ⟨[], toWrite, asked, blind⟩)) := by
      refine h.setSession fun next hn => ?_
      obtain rfl := Option.some.inj hn
      have hasked := h.asked id _ hs
      have htold := h.told id _ hs
      exact ⟨hasked, htold⟩
    dsimp only
    split
    · exact inv_put hnext name text _
    · exact hnext
  · exact h

theorem inv_leave (h : Inv s) (id : Nat) : Inv (s.leave id) :=
  Inv.setLocks (h.setSession fun _ hn => by cases hn) _

theorem inv_read (h : Inv s) (apply : Nat) (baseline : Baseline) : Inv (s.step (.read apply baseline)) where
  asked := h.asked
  told := h.told
  before := h.before
  put := h.put
  requests other request hr hb := by
    by_cases ho : other = apply
    · subst ho
      exact previous_of_current (by simpa [State.step] using hr) hb
    · exact h.requests other request (by simpa [State.step, ho] using hr) hb

theorem inv_begin (h : Inv s) (apply : Nat) : Inv (s.begin apply) := by
  unfold State.begin
  split
  · rename_i request hr hslot
    split
    · rename_i hv
      refine ⟨h.asked, fun _ _ _ _ hactive => (by cases hactive), h.requests, ?_, fun _ _ hslot => by cases hslot⟩
      intro other hother hb name
      obtain rfl := Option.some.inj hother
      rw [h.requests apply request hr hb]
      exact verifies_eq hv name
    · exact h
  · exact h

theorem inv_prepare (h : Inv s) : Inv (s.step .prepare) := by
  cases hslot : s.slot with
  | verified request =>
    simp only [State.step, hslot]
    refine ⟨fun id session hs => Nat.le_succ_of_le (h.asked id session hs), ?_, h.requests, ?_,
      fun _ _ hslot => by cases hslot⟩
    · intro id session hs heq
      have hle := h.asked id session hs
      have hcount : session.asked = s.count + 1 := heq
      omega
    · intro other hother
      exact h.before other (by rw [hslot]; exact hother)
  | _ =>
    simp only [State.step, hslot]
    exact h

theorem inv_putBack (h : Inv s) (ok : Bool) : Inv (s.putBack ok) := by
  unfold State.putBack
  split
  · rename_i request name left hslot
    have hactive : s.slot.active = true := by rw [hslot]; rfl
    have hrequest : s.slot.request? = some request := by rw [hslot]; rfl
    cases ok with
    | false =>
      refine ⟨h.asked, fun id session hs heq _ => h.told id session hs heq hactive, h.requests, ?_,
        fun _ _ hslot => by cases hslot⟩
      intro other hother
      exact h.before other (hrequest.trans hother)
    | true =>
      refine ⟨h.asked, fun id session hs heq _ => h.told id session hs heq hactive, h.requests, ?_, ?_⟩
      · intro other hother
        exact h.before other (hrequest.trans hother)
      · intro other rest hrest file hfile hcrossed
        cases hrest
        by_cases hf : file = name
        · subst hf
          exact Function.update_self ..
        · have hc : s.crossed file = false := by simpa [hf] using hcrossed
          have hput := h.put request (name :: left) hslot file (by simp [hf, hfile]) hc
          simpa [hf] using hput
  · exact h

theorem inv_next (h : Inv s) (op : Op) : Inv { s with slot := s.slot.next s.files op } where
  asked := h.asked
  told id session hs heq hactive := h.told id session hs heq (active_next hactive)
  requests := h.requests
  before request hr := h.before request (request_next hr)
  put request left hslot name hname hcrossed := by
    rcases rolling_next hslot with rfl | hold
    · exact absurd (mem_restoreOrder name) hname
    · exact h.put request left hold name hname hcrossed

theorem inv_step (h : Inv s) (op : Op) : Inv (s.step op) := by
  cases op with
  | ask id job answered => exact inv_ask h id job answered
  | lock id => exact inv_lock h id
  | write id ok => exact inv_write h id ok
  | leave id => exact inv_leave h id
  | read apply baseline => exact inv_read h apply baseline
  | begin apply => exact inv_begin h apply
  | prepare => exact inv_prepare h
  | putBack ok => exact inv_putBack h ok
  | keep copies => exact ⟨h.asked, h.told, h.requests, h.before, h.put⟩
  | mark present => exact ⟨h.asked, h.told, h.requests, h.before, h.put⟩
  | refuse => exact inv_next h .refuse
  | activate => exact inv_next h .activate
  | confirm => exact inv_next h .confirm
  | rollback => exact inv_next h .rollback
  | rolledBack ok => exact inv_next h (.rolledBack ok)

theorem standsAside_of_inv (h : Inv s) (op : Op) : StandsAside s op := by
  cases op with
  | read apply baseline =>
    intro request hr
    exact payload_baseline (by simpa [State.step] using hr)
  | write id ok =>
    intro session hs hactive
    rcases Nat.lt_or_ge session.asked s.count with hlt | hge
    · exact Or.inl hlt
    · exact Or.inr (h.told id session hs (Nat.le_antisymm (h.asked id session hs) hge) hactive)
  | rolledBack ok =>
    cases ok with
    | false => trivial
    | true =>
      intro request hslot name hcrossed
      have hput := h.put request [] hslot name (List.not_mem_nil) hcrossed
      refine ⟨hput, fun hb => ?_⟩
      rw [hput, h.before request (by rw [hslot]; rfl) hb name]
  | _ => trivial

/-- Over any interleaving saves and reverts stand aside for a transaction that was there when they
asked, and a rollback leaves what the transaction froze. -/
theorem saves_stand_aside (files kept : Files) (ops : List Op) :
    Machine.Along State.step StandsAside (initial files kept) ops :=
  Machine.Along.of_invariant (inv_initial files kept) (fun _ op h => inv_step h op)
    fun _ op h => standsAside_of_inv h op

/-! ## A save that is taken back -/

def LeavesSaves (s : State) : Op → Prop
  | .write id _ => ∀ session, s.sessions id = some session → session.toLock = [] →
      session.toWrite ≠ [] → s.slot.status ≠ some .prepared ∧ s.slot.status ≠ some .pendingConfirmation
  | .rolledBack true => ∀ request, s.slot = .rolling request [] →
      ∀ name content, s.saved name = some content → s.files name = some content
  | _ => True

/-- One session saves a site and reports it, another applies the sources and rolls them back. -/
def takenBack : List Op :=
  [.ask 0 (.save .websites [2]) true, .lock 0, .write 0 true, .leave 0, .read 1 .kept, .begin 1, .prepare,
    .activate, .rollback, .putBack true, .putBack true, .putBack true, .rolledBack true]

/-- The rollback goes back to the last apply: the save is part of the candidate it undoes. -/
theorem save_taken_back :
    ¬ Machine.Along State.step LeavesSaves (initial (fun _ => some [1]) fun _ => some [1]) takenBack := by
  intro h
  obtain ⟨-, -, -, -, -, -, -, -, -, -, -, -, hback, -⟩ := h
  have hfile := hback _ rfl .websites [2] rfl
  exact absurd hfile (by decide)

end EasyHaProxy.Panel.GuardedSaves
