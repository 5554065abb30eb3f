import EasyHaProxy.Controld.Operations
import EasyHaProxy.Lib.Machine

/-! Operations follow one another in any order, each with any script and each possibly cut short after any
of its writes; in between anybody may edit the files. -/
namespace EasyHaProxy.Controld

/-- One move: an operation, with the number of its writes that a crash lets through, or an
edit by somebody else. -/
inductive Move
  | run (op : Op) (script : Script) (cut : Option Nat := none)
  | edit (host : Host) (releases : String → Option Release)

/-- What a move wrote, the newest write first. -/
def Move.log (d : Daemon) (w : World) : Move → List (Write × World)
  | .run op script none => (op.program d script w).log
  | .run op script (some n) =>
    let log := (op.program d script w).log
    log.drop (log.length - n)
  | .edit .. => []

def step (d : Daemon) (w : World) : Move → World
  | .run op script cut => lastState w (Move.log d w (.run op script cut))
  | .edit host releases => { w with host, releases, edited := true }

/-- The gateway before its first change. -/
structure Fresh (w : World) : Prop where
  transaction : w.transaction = none
  history : w.history = []
  confirmed : w.confirmed = []
  edited : w.edited = false

/-- The move belongs to guarded changes alone. -/
def Move.guarded : Move → Bool
  | .run op _ _ => !op.foreign
  | .edit .. => false

variable {d : Daemon} {w : World}

theorem Fresh.inv (h : Fresh w) : Inv d w := by
  intro t ht
  rw [h.transaction] at ht
  cases ht

/-! ## Sets of scripts -/

theorem closed_true : Closed fun _ => True := by
  constructor <;> exact fun _ _ => trivial

/-- No replacement of `transaction.json` raises after it took effect. -/
def Script.Punctual (i : Script) : Prop := ∀ r ∈ i.persists, r ≠ .late

theorem closed_punctual : Closed Script.Punctual := by
  constructor <;> intro i hi <;> first | exact hi | exact fun r hr => hi r (List.mem_of_mem_tail hr)

theorem prompt_punctual : Prompt Script.Punctual := by
  intro i hi
  unfold Script.nextPersist
  cases hp : i.persists with
  | nil => exact Replacing.noConfusion
  | cons r rest => exact hi r (by simp [hp])

/-- Reads and the replacements of `transaction.json` succeed. -/
structure Script.Steady (i : Script) : Prop where
  reads : ∀ r ∈ i.reads, r = true
  persists : ∀ r ∈ i.persists, r = .done

theorem closed_steady : Closed Script.Steady where
  lock _ hi := ⟨hi.reads, hi.persists⟩
  read _ hi := ⟨fun r hr => hi.reads r (List.mem_of_mem_tail hr), hi.persists⟩
  persist _ hi := ⟨hi.reads, fun r hr => hi.persists r (List.mem_of_mem_tail hr)⟩
  write _ hi := ⟨hi.reads, hi.persists⟩
  check _ hi := ⟨hi.reads, hi.persists⟩
  reload _ hi := ⟨hi.reads, hi.persists⟩
  probe _ hi := ⟨hi.reads, hi.persists⟩
  update _ hi := ⟨hi.reads, hi.persists⟩
  time _ hi := ⟨hi.reads, hi.persists⟩
  token _ hi := ⟨hi.reads, hi.persists⟩

theorem steady_done : PersistsDone Script.Steady ∧ ReadsDone Script.Steady := by
  constructor
  · intro i hi
    unfold Script.nextPersist
    cases hp : i.persists with
    | nil => rfl
    | cons r rest => exact hi.persists r (by simp [hp])
  · intro i hi
    unfold Script.nextRead
    cases hr : i.reads with
    | nil => rfl
    | cons r rest => exact hi.reads r (by simp [hr])

/-! ## What every run keeps -/

theorem steps_guarded {op : Op} {script : Script} {cut : Option Nat} (h : Inv d w) :
    Steps (Guarded d True op) w (Move.log d w (.run op script cut)) := by
  have hall := (wp_program closed_true (fun _ => trivial) op h script trivial).2.1
  cases cut with
  | none => exact hall
  | some n => exact hall.suffix (List.drop_suffix _ _)

theorem step_inv {m : Move} (h : Inv d w) : Inv d (step d w m) := by
  cases m with
  | run op script cut => exact (steps_guarded h).keeps h fun _ _ _ _ hG => hG.inv
  | edit host releases => exact inv_edited h

theorem run_inv {moves : List Move} (h : Inv d w) : Inv d (Machine.run (step d) w moves) := by
  induction moves generalizing w with
  | nil => exact h
  | cons m moves ih => exact ih (step_inv h)

/-- Guarded changes alone leave no mark of somebody else. -/
theorem step_edited {m : Move} (h : Inv d w) (hm : m.guarded = true) (he : w.edited = false) :
    (step d w m).edited = false := by
  cases m with
  | edit host releases => cases hm
  | run op script cut =>
    refine (steps_guarded h).keeps (I := fun w => w.edited = false) he fun s l t hs hG => ?_
    rw [hG.applied]
    cases l with
    | config raw owner =>
      cases owner with
      | none =>
        have hforeign := hG.foreign rfl
        simp [Move.guarded, hforeign] at hm
      | some id => simpa [Write.apply] using hs
    | begin t req => rfl
    | _ => exact hs

theorem run_edited {moves : List Move} (h : Inv d w) (hm : ∀ m ∈ moves, m.guarded = true) (he : w.edited = false) :
    (Machine.run (step d) w moves).edited = false := by
  induction moves generalizing w with
  | nil => exact he
  | cons m moves ih =>
    have hedited := step_edited h (hm m List.mem_cons_self) he
    exact ih (step_inv h) (fun m' hm' => hm m' (List.mem_cons_of_mem m hm')) hedited

/-! ## All or nothing -/

/-- After any run of guarded changes, cut short anywhere, a transaction that is rolled back
has left the host as it was captured, a confirmed one has its candidate in place, and a
recovery that can read and persist leaves nothing half-way. -/
theorem guarded_change_all_or_nothing {moves : List Move} {t : Transaction} (hw : Fresh w)
    (hm : ∀ m ∈ moves, m.guarded = true) (ht : (Machine.run (step d) w moves).transaction = some t) :
    ∃ req cap, (Machine.run (step d) w moves).begun = some (req, cap) ∧
      (t.state = .rolledBack → (Machine.run (step d) w moves).host = cap) ∧
      (t.state = .confirmed → Candidate d (Machine.run (step d) w moves) req ∧
        Untouched (Machine.run (step d) w moves).host req cap) ∧
      ∀ script : Script, script.Steady →
        ∀ t', (d.recoverConfigTransaction.final script (Machine.run (step d) w moves)).transaction = some t' →
          t'.state ≠ .prepared ∧ t'.state ≠ .rollingBack := by
  have hinv : Inv d (Machine.run (step d) w moves) := run_inv hw.inv
  have hedited : (Machine.run (step d) w moves).edited = false := run_edited hw.inv hm hw.edited
  obtain ⟨req, cap, hb, -, hp⟩ := hinv t ht
  refine ⟨req, cap, hb, fun hstate => ?_, fun hstate => ?_, fun script hscript => ?_⟩
  · unfold Promises at hp
    rw [hstate] at hp
    exact hp hedited
  · unfold Promises at hp
    rw [hstate] at hp
    exact hp hedited
  · have hrecover : WP Script.Steady (Guarded d True .recover) d.recoverConfigTransaction _ _ _ :=
      wp_recover closed_steady (fun _ => trivial) hinv
    have hend := (hrecover script hscript).2.2
    unfold Ends at hend
    split at hend
    · exact hend.2
    · exact absurd steady_done hend.2

/-- A gateway with one managed file, whose checks accept everything. -/
def plainDaemon : Daemon where
  sha256 bytes := String.ofList (bytes.map fun b => Char.ofNat b.toNat)
  policy _ := true
  transition _ _ := true
  utf8 _ := true
  readSelection _ := none
  selectionRaw _ := []
  allowlistRaw _ := none

def plainWorld : World where
  host :=
    { config := [1]
      sources := fun name => if name = .vars then some [3] else none
      allowlist := none
      selection := none
      release := "" }
  releases _ := none

/-- The new `vars.yml` is in place already, as the panel leaves it. -/
def plainRequest : BeginRequest where
  config := [2]
  candidate := Dict.ofPairs [(.vars, [3])]
  previous := Dict.ofPairs [(.vars, [4])]
  timeoutSeconds := 60

theorem plainWorld_fresh : Fresh plainWorld := ⟨rfl, rfl, rfl, rfl⟩

def refusedMoves : List Move := [.run (.begin plainRequest) { reloads := [false], tokens := ["t"] } none]

/-- The refused candidate leaves the configuration of before. -/
theorem refused_change_undone : ∃ t cap,
    (Machine.run (step plainDaemon) plainWorld refusedMoves).transaction = some t ∧ t.state = .rolledBack ∧
      (Machine.run (step plainDaemon) plainWorld refusedMoves).host = cap ∧ cap.config = [1] ∧
        cap.sources .vars = some [4] := by
  have hrun : ((Machine.run (step plainDaemon) plainWorld refusedMoves).transaction.map Transaction.state) =
      some .rolledBack := by decide +kernel
  have hconfig : (Machine.run (step plainDaemon) plainWorld refusedMoves).host.config = [1] := by decide +kernel
  have hvars : (Machine.run (step plainDaemon) plainWorld refusedMoves).host.sources .vars = some [4] := by
    decide +kernel
  obtain ⟨t, ht, hstate⟩ := Option.map_eq_some_iff.mp hrun
  obtain ⟨req, cap, -, hrolled, -⟩ := guarded_change_all_or_nothing plainWorld_fresh (by decide) ht
  have hhost := hrolled hstate
  exact ⟨t, cap, ht, hstate, hhost, hhost ▸ hconfig, hhost ▸ hvars⟩

/-! ## One change at a time -/

/-- What one write may do: files are written only for the transaction that is active, and
no other is begun then; a confirmation is made by the right request, in time, of a
candidate that is live; a settled transaction stays as it is. -/
structure OneAtATime (d : Daemon) (op : Op) (s : World) (l : Write) (s' : World) : Prop where
  alone : ∀ t, s.transaction = some t → t.state.active = true →
    (∀ owner, l.owner = some owner → owner = some t.id) ∧ ∀ t' req, l ≠ .begin t' req
  confirmed : ∀ t, s'.transaction = some t → t.state = .confirmed → s.transaction = some t ∨
    Approves d op s t ∧ ∃ req cap, s.begun = some (req, cap) ∧ (Function.Injective d.sha256 → Candidate d s req)
  settled : ∀ t, s.transaction = some t → t.state.active = false →
    s'.transaction = some t ∨ ∃ t' req, l = .begin t' req

/-- The transaction changes by its own two writes only. -/
theorem apply_transaction (l : Write) (s : World) :
    (∃ t, l = .persist t) ∨ (∃ t req, l = .begin t req) ∨ (l.apply s).transaction = s.transaction := by
  cases l with
  | persist t => exact Or.inl ⟨t, rfl⟩
  | begin t req => exact Or.inr (Or.inl ⟨t, req, rfl⟩)
  | _ => exact Or.inr (Or.inr rfl)

theorem Approves.candidate {op : Op} {s : World} {t : Transaction} (h : Approves d op s t) (hs : Inv d s) :
    ∃ req cap, s.begun = some (req, cap) ∧ (Function.Injective d.sha256 → Candidate d s req) := by
  obtain ⟨id, sha, -, -, -, -, old, hold, -, -, hpending, -, hv⟩ := h
  obtain ⟨req, cap, hb, hr, hp⟩ := hs old hold
  unfold Promises at hp
  rw [hpending] at hp
  exact ⟨req, cap, hb, fun hsha => hv.candidate hsha hr hp.1.holds⟩

theorem Guarded.oneAtATime {op : Op} {s s' : World} {l : Write} (hs : Inv d s) (h : Guarded d False op s l s') :
    OneAtATime d op s l s' where
  alone t ht ha := by
    refine ⟨fun owner ho => h.owned owner ho t ht ha, fun t' req hb => ?_⟩
    rw [(h.begins t' req hb).2 t ht] at ha
    cases ha
  confirmed t ht hc := by
    rcases apply_transaction l s with ⟨t', rfl⟩ | ⟨t', req, rfl⟩ | hsame
    · rw [h.applied] at ht
      cases ht
      have happroves := h.confirms t rfl hc
      exact Or.inr ⟨happroves, happroves.candidate hs⟩
    · rw [h.applied] at ht
      cases ht
      rw [(h.begins t req rfl).1] at hc
      cases hc
    · rw [h.applied, hsame] at ht
      exact Or.inl ht
  settled t ht ha := by
    rcases apply_transaction l s with ⟨t', hp⟩ | hb | hsame
    · rw [(h.settled id t' hp t ht).1] at ha
      cases ha
    · exact Or.inr hb
    · rw [h.applied, hsame]
      exact Or.inl ht

/-- No persist of the move raises after it took effect. -/
def Move.Punctual : Move → Prop
  | .run _ script _ => script.Punctual
  | .edit .. => True

/-- Every write of a move does only what it may. -/
def Move.Careful (d : Daemon) (w : World) : Move → Prop
  | .run op script cut => Steps (OneAtATime d op) w (Move.log d w (.run op script cut))
  | .edit .. => True

theorem careful_of_punctual {m : Move} (h : Inv d w) (hm : m.Punctual) : m.Careful d w := by
  cases m with
  | edit host releases => trivial
  | run op script cut =>
    have hprogram : WP Script.Punctual (Guarded d False op) (op.program d) _ _ w :=
      wp_program closed_punctual (fun hn => hn prompt_punctual) op h
    have hall : Steps (Guarded d False op) w (op.program d script w).log := (hprogram script hm).2.1
    have hcut : Steps (Guarded d False op) w (Move.log d w (.run op script cut)) := by
      cases cut with
      | none => exact hall
      | some n => exact hall.suffix (List.drop_suffix _ _)
    exact (hcut.strengthen h fun _ _ _ _ hG => hG.inv).mono fun _ _ _ hG => hG.2.oneAtATime hG.1

/-- In every run whose persists never raise after taking effect, changes are made one at a
time, confirmed only in time and unchanged, and settled for good. -/
theorem one_change_at_a_time {moves : List Move} (hw : Fresh w)
    (hm : Machine.Along (step d) (fun _ m => m.Punctual) w moves) :
    Machine.Along (step d) (fun w m => m.Careful d w) w moves := by
  have hinv : Inv d w := hw.inv
  clear hw
  induction moves generalizing w with
  | nil => trivial
  | cons m moves ih => exact ⟨careful_of_punctual hinv hm.1, ih hm.2 (step_inv hinv)⟩

/-- The persist of `rolled_back` takes effect and raises all the same. -/
def lateScript : Script := { reloads := [false], tokens := ["t"], persists := [.done, .done, .late] }

@[irreducible] def lateLog : List (Write × World) :=
  Move.log plainDaemon plainWorld (.run (.begin plainRequest) lateScript none)

theorem lateLog_eq : Move.log plainDaemon plainWorld (.run (.begin plainRequest) lateScript none) = lateLog := by
  unfold lateLog
  rfl

/-- What a write was, as far as it concerns the transaction. -/
def Write.summary (e : Write × World) : Bool × Option TransactionState :=
  (match e.1 with
    | .begin .. => true
    | _ => false,
    e.2.transaction.map Transaction.state)

/-- Two writes that follow one another and show a settled transaction reopened. -/
theorem not_careful_of_reopened {op : Op} {script : Script} {log : List (Write × World)} {k : Nat}
    (hlog : Move.log d w (.run op script none) = log)
    (hbefore : log[k + 1]?.map Write.summary = some (false, some .rolledBack))
    (hafter : log[k]?.map Write.summary = some (false, some .rollingBack)) :
    ¬ Machine.Along (step d) (fun w m => m.Careful d w) w [.run op script none] := by
  rintro ⟨hrun, -⟩
  subst hlog
  obtain ⟨⟨l, s⟩, hs, hsum⟩ := Option.map_eq_some_iff.mp hbefore
  obtain ⟨⟨l', s'⟩, hs', hsum'⟩ := Option.map_eq_some_iff.mp hafter
  obtain ⟨t, ht, hstate⟩ := Option.map_eq_some_iff.mp (congrArg Prod.snd hsum)
  have hwrite : OneAtATime d op s l' s' := Steps.adjacent hrun hs' hs
  rcases hwrite.settled t ht (by rw [hstate]; rfl) with hsame | ⟨t', req, rfl⟩
  · have hleft : s'.transaction.map Transaction.state = some .rollingBack := congrArg Prod.snd hsum'
    rw [hsame, Option.map_some, hstate] at hleft
    cases hleft
  · cases congrArg Prod.fst hsum'

/-- The rollback of a refused candidate is persisted, raises, is caught and done once more
without its material: the transaction leaves `rolled_back` and ends as `rollback_failed`. -/
theorem settled_change_reopened : ¬ ∀ (d : Daemon) (w : World) (moves : List Move), Fresh w →
    Machine.Along (step d) (fun w m => m.Careful d w) w moves := by
  intro h
  have hbefore : lateLog[2]?.map Write.summary = some (false, some .rolledBack) := by decide +kernel
  have hafter : lateLog[1]?.map Write.summary = some (false, some .rollingBack) := by decide +kernel
  exact not_careful_of_reopened lateLog_eq hbefore hafter (h plainDaemon plainWorld _ plainWorld_fresh)

/-- A change that is begun and confirmed in time. -/
def confirmedMoves : List Move :=
  [.run (.begin plainRequest) { times := [1000, 2000], tokens := ["t"] } none,
    .run (.confirm "t" (plainDaemon.sha256 [2])) { times := [3000, 4000] } none]

/-- After it the files are edited by hand, and HAProxy does not reload the next candidate. -/
def busyMoves : List Move :=
  confirmedMoves ++
    [.edit { plainWorld.host with config := [9] } fun _ => none,
      .run (.begin plainRequest) { reloads := [false], tokens := ["u"] } none]

theorem busyMoves_punctual : Machine.Along (step d) (fun _ m => m.Punctual) w busyMoves :=
  have hnone : ∀ i : Script, i.persists = [] → i.Punctual := fun i h r hr => by simp [h] at hr
  ⟨hnone _ rfl, hnone _ rfl, trivial, hnone _ rfl, trivial⟩

/-- The one change is confirmed and the other undone, each step after another. -/
theorem refused_change_careful :
    ((Machine.run (step plainDaemon) plainWorld confirmedMoves).transaction.map Transaction.state = some .confirmed ∧
      (Machine.run (step plainDaemon) plainWorld busyMoves).transaction.map Transaction.state = some .rolledBack) ∧
    Machine.Along (step plainDaemon) (fun w m => m.Careful plainDaemon w) plainWorld busyMoves :=
  ⟨⟨by decide +kernel, by decide +kernel⟩, one_change_at_a_time plainWorld_fresh busyMoves_punctual⟩

end EasyHaProxy.Controld
