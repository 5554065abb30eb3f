import EasyHaProxy.Alertd.Engine

/-! One lemma for each operation of the engine, on the rows, the history and the log; the proofs about runs
cite these and unfold nothing. -/
namespace EasyHaProxy.Alertd

namespace AlertWorld

variable {w : AlertWorld} {key k : AlertKey} {row : AlertRow} {o : Observation} {delivery : Delivery}
  {now : Int}

section Database

variable {event : AlertEvent} {since ack muted : Int}

@[simp] theorem putState_events : (w.putState key row).events = w.events := rfl
@[simp] theorem putState_log : (w.putState key row).log = w.log := rfl
@[simp] theorem putState_clock : (w.putState key row).clock = w.clock := rfl
@[simp] theorem clearAcknowledgement_events : (w.clearAcknowledgement key).events = w.events := rfl
@[simp] theorem clearAcknowledgement_log : (w.clearAcknowledgement key).log = w.log := rfl
@[simp] theorem addEvent_rows : (w.addEvent event).rows = w.rows := rfl
@[simp] theorem addEvent_clock : (w.addEvent event).clock = w.clock := rfl
@[simp] theorem addEvent_sweepNow : (w.addEvent event).sweepNow = w.sweepNow := rfl
@[simp] theorem dropState_sweepNow : (w.dropState key).sweepNow = w.sweepNow := rfl
@[simp] theorem markStale_sweepNow : (w.markStale key since).sweepNow = w.sweepNow := rfl

/-- What the upsert keeps of the row that was there. -/
def kept (old : Option AlertRow) (row : AlertRow) : AlertRow :=
  match old with
  | none => row
  | some old =>
    { row with
      firstSeen := old.firstSeen
      acknowledgedTs := old.acknowledgedTs
      mutedUntil := old.mutedUntil
      staleSince := 0 }

theorem get?_putState :
    (w.putState key row).rows.get? k = if k = key then some (kept (w.rows.get? key) row) else w.rows.get? k := by
  rw [putState, Dict.get?_set]
  rfl

end Database

/-! ## A report -/

/-- The mute of a pair, 0 when there is none. -/
def mutedUntil (w : AlertWorld) (key : AlertKey) : Int := ((w.rows.get? key).map (·.mutedUntil)).getD 0

def acknowledgedTs (w : AlertWorld) (key : AlertKey) : Int :=
  ((w.rows.get? key).map (·.acknowledgedTs)).getD 0

def lastNotified (w : AlertWorld) (key : AlertKey) : Int :=
  ((w.rows.get? key).map (·.lastNotified)).getD 0

/-- The row a report leaves, its last message apart. -/
structure Reported (w : AlertWorld) (o : Observation) (row : AlertRow) : Prop where
  state : row.state = (w.advanceOf o).state
  since : row.since = (w.advanceOf o).since
  severity : row.severity = o.severity
  lastSeen : row.lastSeen = w.clock
  mutedUntil : row.mutedUntil = w.mutedUntil o.key
  acknowledged : row.acknowledgedTs = if row.state = .ok then 0 else w.acknowledgedTs o.key
  staleSince : row.staleSince = 0

theorem settle_other (h : k ≠ o.key) : (w.settle o).rows.get? k = w.rows.get? k := by
  simp only [settle]
  split <;> simp [clearAcknowledgement, get?_putState, h]

@[simp] theorem settle_events : (w.settle o).events = w.events := by
  simp only [settle]
  split <;> rfl

@[simp] theorem settle_log : (w.settle o).log = .report w.clock o.key o.active :: w.log := by
  simp only [settle]
  split <;> rfl

theorem settle_row : ∃ row, (w.settle o).rows.get? o.key = some row ∧ Reported w o row ∧
    row.lastNotified = w.lastNotified o.key := by
  simp only [settle]
  cases hold : w.rows.get? o.key with
  | none =>
    refine ⟨w.rowOf o, ?_, ⟨rfl, rfl, rfl, rfl, ?_, ?_, rfl⟩, ?_⟩
    · simp [get?_putState, hold, kept]
    · simp [mutedUntil, hold, rowOf]
    · simp [acknowledgedTs, hold, rowOf]
    · simp [lastNotified, hold, rowOf]
  | some old =>
    by_cases hok : (w.rowOf o).state = .ok ∧ old.acknowledgedTs ≠ 0
    · refine ⟨{ kept (some old) (w.rowOf o) with acknowledgedTs := 0 }, ?_,
        ⟨rfl, rfl, rfl, rfl, ?_, ?_, rfl⟩, ?_⟩
      · simp [get?_putState, hold, hok, clearAcknowledgement]
      · simp [mutedUntil, hold, kept]
      · simp [kept, hok.1]
      · simp [lastNotified, hold, kept, rowOf]
    · refine ⟨kept (some old) (w.rowOf o), ?_, ⟨rfl, rfl, rfl, rfl, ?_, ?_, rfl⟩, ?_⟩
      · rw [if_neg (by simpa using hok)]
        simp [get?_putState, hold]
      · simp [mutedUntil, hold, kept]
      · by_cases hs : (w.rowOf o).state = .ok
        · simpa [kept, hs] using hok
        · simp [acknowledgedTs, hold, kept, hs]
      · simp [lastNotified, hold, kept, rowOf]

def stateOf (row : Option AlertRow) : AlertState := (row.map (·.state)).getD .ok

def sinceOf (row : Option AlertRow) (now : Int) : Int := (row.map (·.since)).getD now

/-- Everything a report can make of a row: state, since and transition. -/
inductive Advances (row : Option AlertRow) (active : Bool) (severity : Severity)
    (delay repeatAfter now : Int) : AlertState → Int → Option Transition → Prop
  | fine (ha : active = false) (hs : stateOf row = .ok) :
      Advances row active severity delay repeatAfter now .ok (sinceOf row now) none
  | calm (ha : active = false) (hs : stateOf row = .pending) :
      Advances row active severity delay repeatAfter now .ok now none
  | recovered (ha : active = false) (hs : stateOf row = .firing) :
      Advances row active severity delay repeatAfter now .ok now (some .recovered)
  | begins (ha : active = true) (hs : stateOf row = .ok) (hd : ¬ delay ≤ 0) :
      Advances row active severity delay repeatAfter now .pending now none
  | waits (ha : active = true) (hs : stateOf row = .pending) (hd : ¬ delay ≤ now - sinceOf row now) :
      Advances row active severity delay repeatAfter now .pending (sinceOf row now) none
  | firedAtOnce (ha : active = true) (hs : stateOf row = .ok) (hd : delay ≤ 0) :
      Advances row active severity delay repeatAfter now .firing now (some .fired)
  | fired (ha : active = true) (hs : stateOf row = .pending) (hd : delay ≤ now - sinceOf row now) :
      Advances row active severity delay repeatAfter now .firing now (some .fired)
  | escalated (ha : active = true) (hs : stateOf row = .firing)
      (hworse : ((row.map (·.severity)).getD severity).rank < severity.rank) :
      Advances row active severity delay repeatAfter now .firing (sinceOf row now) (some .escalated)
  | repeated (ha : active = true) (hs : stateOf row = .firing)
      (hold : repeatAfter ≤ now - (row.map (·.lastNotified)).getD 0) :
      Advances row active severity delay repeatAfter now .firing (sinceOf row now) (some .repeated)
  | holds (ha : active = true) (hs : stateOf row = .firing) :
      Advances row active severity delay repeatAfter now .firing (sinceOf row now) none

theorem advances (row : Option AlertRow) (active : Bool) (severity : Severity)
    (delay repeatAfter now : Int) :
    let a := advance row active severity delay repeatAfter now
    Advances row active severity delay repeatAfter now a.state a.since a.transition := by
  simp only [advance, ← stateOf.eq_def, ← sinceOf.eq_def]
  cases active with
  | false =>
    cases hs : stateOf row with
    | ok => exact .fine rfl hs
    | pending => exact .calm rfl hs
    | firing => exact .recovered rfl hs
  | true =>
    cases hs : stateOf row with
    | ok =>
      simp only [not_true_eq_false, if_false, if_true, true_and, reduceCtorEq, false_and, Int.sub_self]
      split
      · rename_i hd
        exact .firedAtOnce rfl hs hd
      · rename_i hd
        exact .begins rfl hs hd
    | pending =>
      simp only [not_true_eq_false, if_false, true_and, reduceCtorEq, false_and]
      split
      · rename_i hd
        exact .fired rfl hs hd
      · rename_i hd
        exact .waits rfl hs hd
    | firing =>
      simp only [not_true_eq_false, if_false, true_and, reduceCtorEq, false_and]
      split
      · rename_i hworse
        exact .escalated rfl hs hworse
      · split
        · rename_i hold
          exact .repeated rfl hs hold
        · exact .holds rfl hs

theorem advances_of (w : AlertWorld) (o : Observation) :
    Advances (w.rows.get? o.key) o.active o.severity (w.delayOf o) (w.config.settingsFor o.rule).repeatAfter
      w.clock (w.advanceOf o).state (w.advanceOf o).since (w.advanceOf o).transition :=
  advances _ _ _ _ _ _

theorem transition_cases {t : Transition} (h : (w.advanceOf o).transition = some t) :
    t = .fired ∨ t = .escalated ∨ t = .repeated ∨ t = .recovered := by
  have hadv := advances_of w o
  rw [h] at hadv
  generalize (w.advanceOf o).state = state at hadv
  generalize (w.advanceOf o).since = since at hadv
  cases hadv <;> simp

/-- The history row of a report's transition. -/
def eventOf (w : AlertWorld) (o : Observation) (transition : Transition) (held : Option HeldBack)
    (delivery : Delivery) : AlertEvent :=
  { id := w.nextId, ts := w.clock, key := o.key, transition := transition, severity := o.severity,
    summary := o.summary, heldBack := held, delivery := delivery }

/-- Why the message of a report is held back. -/
def reason (w : AlertWorld) (o : Observation) (transition : Transition) : Option HeldBack :=
  (w.settle o).heldBack o.rule o.key transition o.severity w.clock

/-- What a report adds to the log and the history, and the time of the pair's last message
after it: nothing without a transition; a row and no message when it is held back or the
storm control takes it; else a row and a message. -/
inductive Told (w : AlertWorld) (o : Observation) (delivery : Delivery) :
    List Entry → List AlertEvent → Int → Prop
  | silent (h : (w.advanceOf o).transition = none) : Told w o delivery [] [] (w.lastNotified o.key)
  | held {t : Transition} {r : HeldBack} (h : (w.advanceOf o).transition = some t)
      (hr : w.reason o t = some r) :
      Told w o delivery [.record (w.eventOf o t (some r) {})] [w.eventOf o t (some r) {}]
        (w.lastNotified o.key)
  | storm {t : Transition} (h : (w.advanceOf o).transition = some t) (hr : w.reason o t = none)
      (hs : w.storm t w.clock) :
      Told w o delivery [.record (w.eventOf o .suppressed (some .storm) {})]
        [w.eventOf o .suppressed (some .storm) {}] (w.lastNotified o.key)
  | handed {t : Transition} (h : (w.advanceOf o).transition = some t) (hr : w.reason o t = none)
      (hs : ¬ w.storm t w.clock) :
      Told w o delivery
        [.hand w.clock o.key t (!delivery.delivered.isEmpty), .record (w.eventOf o t none delivery)]
        [w.eventOf o t none delivery]
        (if delivery.delivered.isEmpty then w.lastNotified o.key else w.clock)

theorem storm_settle {t : Transition} : (w.settle o).storm t now ↔ w.storm t now := by
  simp [storm, notificationsSince]

theorem apply_silent (h : (w.advanceOf o).transition = none) : w.apply o delivery = w.settle o := by
  simp only [apply, h]

theorem apply_held {t : Transition} {r : HeldBack} (h : (w.advanceOf o).transition = some t)
    (hr : w.reason o t = some r) :
    w.apply o delivery = (w.settle o).addEvent (w.eventOf o t (some r) {}) := by
  simp only [reason] at hr
  simp only [apply, h, notify, hr]
  rfl

theorem apply_storm {t : Transition} (h : (w.advanceOf o).transition = some t)
    (hr : w.reason o t = none) (hs : w.storm t w.clock) :
    w.apply o delivery = (w.settle o).addEvent (w.eventOf o .suppressed (some .storm) {}) := by
  simp only [reason] at hr
  simp only [apply, h, notify, hr, if_pos (storm_settle.mpr hs)]
  rfl

theorem apply_handed {t : Transition} (delivery : Delivery) (h : (w.advanceOf o).transition = some t)
    (hr : w.reason o t = none) (hs : ¬ w.storm t w.clock) :
    let told := (w.settle o).addEvent (w.eventOf o t none delivery)
    let handed := { told with log := .hand w.clock o.key t (!delivery.delivered.isEmpty) :: told.log }
    w.apply o delivery =
      if delivery.delivered.isEmpty then handed
      else handed.putState o.key
        { w.rowOf o with lastNotified := w.clock, notifyCount := (w.rowOf o).notifyCount + 1 } := by
  simp only [reason] at hr
  simp only [apply, h, notify, hr, if_neg (mt storm_settle.mp hs)]
  cases delivery.delivered.isEmpty <;> rfl

theorem nextId_settle : (w.settle o).nextId = w.nextId := by
  simp [nextId]

theorem addEvent_eventOf {t : Transition} {held : Option HeldBack} :
    (w.settle o).addEvent (w.eventOf o t held delivery) =
      { w.settle o with
        events := w.events ++ [w.eventOf o t held delivery]
        log := .record (w.eventOf o t held delivery) :: .report w.clock o.key o.active :: w.log } := by
  simp [addEvent, nextId_settle, eventOf]

theorem apply_told (w : AlertWorld) (o : Observation) (delivery : Delivery) :
    ∃ entries events last row, Told w o delivery entries events last ∧
    (w.apply o delivery).log = entries ++ Entry.report w.clock o.key o.active :: w.log ∧
    (w.apply o delivery).events = w.events ++ events ∧
    (w.apply o delivery).rows.get? o.key = some row ∧ Reported w o row ∧ row.lastNotified = last := by
  obtain ⟨row, hget, hrep, hlast⟩ := settle_row (w := w) (o := o)
  cases ht : (w.advanceOf o).transition with
  | none =>
    refine ⟨_, _, _, row, .silent ht, ?_⟩
    rw [apply_silent ht]
    exact ⟨settle_log, by simp, hget, hrep, hlast⟩
  | some t =>
    cases hr : w.reason o t with
    | some r =>
      refine ⟨_, _, _, row, .held ht hr, ?_⟩
      rw [apply_held ht hr, addEvent_eventOf]
      exact ⟨rfl, rfl, hget, hrep, hlast⟩
    | none =>
      by_cases hs : w.storm t w.clock
      · refine ⟨_, _, _, row, .storm ht hr hs, ?_⟩
        rw [apply_storm ht hr hs, addEvent_eventOf]
        exact ⟨rfl, rfl, hget, hrep, hlast⟩
      · have happly := apply_handed delivery ht hr hs
        simp only [addEvent_eventOf] at happly
        cases hd : delivery.delivered.isEmpty with
        | true =>
          refine ⟨_, _, _, row, .handed ht hr hs, ?_⟩
          rw [happly, hd, if_pos rfl, if_pos rfl]
          exact ⟨rfl, rfl, hget, hrep, hlast⟩
        | false =>
          -- The second write of the row changes only when it was last notified.
          refine ⟨_, _, _, kept (some row) { w.rowOf o with
              lastNotified := w.clock, notifyCount := (w.rowOf o).notifyCount + 1 }, .handed ht hr hs, ?_⟩
          rw [happly, hd, if_neg Bool.false_ne_true, if_neg Bool.false_ne_true]
          refine ⟨rfl, rfl, ?_, ⟨rfl, rfl, rfl, rfl, hrep.mutedUntil, ?_, rfl⟩, rfl⟩
          · rw [get?_putState, if_pos rfl, hget]
          · rw [show (kept _ _).acknowledgedTs = row.acknowledgedTs from rfl, hrep.acknowledged, hrep.state]
            rfl

theorem apply_other (h : k ≠ o.key) : (w.apply o delivery).rows.get? k = w.rows.get? k := by
  cases ht : (w.advanceOf o).transition with
  | none => rw [apply_silent ht, settle_other h]
  | some t =>
    cases hr : w.reason o t with
    | some r => rw [apply_held ht hr, addEvent_rows, settle_other h]
    | none =>
      by_cases hs : w.storm t w.clock
      · rw [apply_storm ht hr hs, addEvent_rows, settle_other h]
      · rw [apply_handed delivery ht hr hs]
        split
        · exact settle_other h
        · rw [get?_putState, if_neg h]
          exact settle_other h

theorem apply_eq (w : AlertWorld) (o : Observation) (delivery : Delivery) : ∃ rows events log,
    w.apply o delivery = { w with rows := rows, events := events, log := log } := by
  have hsettle : w.settle o = { w with rows := (w.settle o).rows, log := (w.settle o).log } := by
    simp only [settle]
    split <;> rfl
  cases ht : (w.advanceOf o).transition with
  | none => exact ⟨_, _, _, by rw [apply_silent ht, hsettle]⟩
  | some t =>
    cases hr : w.reason o t with
    | some r => exact ⟨_, _, _, by rw [apply_held ht hr, addEvent_eventOf, hsettle]⟩
    | none =>
      by_cases hs : w.storm t w.clock
      · exact ⟨_, _, _, by rw [apply_storm ht hr hs, addEvent_eventOf, hsettle]⟩
      · rw [apply_handed delivery ht hr hs, addEvent_eventOf, hsettle]
        split
        · exact ⟨_, _, _, rfl⟩
        · exact ⟨_, _, _, rfl⟩

theorem apply_clock : (w.apply o delivery).clock = w.clock := by
  obtain ⟨rows, events, log, heq⟩ := apply_eq w o delivery
  rw [heq]

/-! ## Everything but a report -/

end AlertWorld

/-- Transitions that are recorded without a message. -/
def Transition.silent : Transition → Bool
  | .dismissed | .stale | .expired | .retired => true
  | _ => false

/-- Neither a report nor a message, and no record of one. -/
def Entry.silent : Entry → Bool
  | .retire _ _ | .drop _ => true
  | .record e => e.transition.silent
  | .report _ _ _ | .hand _ _ _ _ => false

namespace AlertWorld

variable {w : AlertWorld} {key k : AlertKey} {row : AlertRow} {o : Observation} {delivery : Delivery}
  {now : Int}

/-- A step without a report: nothing is handed to the channels. -/
structure Silent (w w' : AlertWorld) : Prop where
  clock : w.clock ≤ w'.clock
  log : ∃ entries, w'.log = entries ++ w.log ∧ ∀ e ∈ entries, e.silent
  events : ∀ e ∈ w'.events, e ∈ w.events ∨ e.transition.silent
  count : ∀ p : AlertEvent → Bool, (∀ e, e.transition.silent → p e = false) →
    w'.events.countP p ≤ w.events.countP p

namespace Silent

variable {w w' w'' : AlertWorld}

theorem refl (w : AlertWorld) : Silent w w :=
  ⟨le_rfl, ⟨[], rfl, by simp⟩, fun _ h => Or.inl h, fun _ _ => le_rfl⟩

theorem trans (h : Silent w w') (h' : Silent w' w'') : Silent w w'' := by
  refine ⟨h.clock.trans h'.clock, ?_, fun e he => ?_, fun p hp => (h'.count p hp).trans (h.count p hp)⟩
  · obtain ⟨new, hlog, hnew⟩ := h.log
    obtain ⟨newer, hlog', hnewer⟩ := h'.log
    refine ⟨newer ++ new, by rw [hlog', hlog, List.append_assoc], fun e he => ?_⟩
    rcases List.mem_append.mp he with he | he
    · exact hnewer e he
    · exact hnew e he
  · rcases h'.events e he with he | he
    · exact h.events e he
    · exact Or.inr he

/-- Rows and clock may change, and history rows may go. -/
theorem of_sublist (hclock : w.clock ≤ w'.clock) (hlog : w'.log = w.log)
    (hevents : w'.events.Sublist w.events) : Silent w w' :=
  ⟨hclock, ⟨[], hlog, by simp⟩, fun _ h => Or.inl (hevents.subset h), fun _ _ => hevents.countP_le⟩

theorem dropState (key : AlertKey) : Silent w (w.dropState key) :=
  ⟨le_rfl, ⟨[.drop key], rfl, by simp [Entry.silent]⟩, fun _ h => Or.inl h, fun _ _ => le_rfl⟩

theorem addEvent {event : AlertEvent} (h : event.transition.silent) : Silent w (w.addEvent event) := by
  refine ⟨le_rfl, ⟨[_], rfl, by simpa [Entry.silent] using h⟩, fun e he => ?_, fun p hp => ?_⟩
  · rcases List.mem_append.mp he with he | he
    · exact Or.inl he
    · rw [List.mem_singleton.mp he]
      exact Or.inr h
  · have hno : p { event with id := w.nextId } = false := hp _ h
    simp [AlertWorld.addEvent, List.countP_append, hno]

end Silent

theorem silent_retire : Silent w (w.retire o) := by
  have htold : Silent w { w with log := .retire w.clock o.key :: w.log } :=
    ⟨le_rfl, ⟨[_], rfl, by simp [Entry.silent]⟩, fun _ h => Or.inl h, fun _ _ => le_rfl⟩
  unfold retire
  cases w.rows.get? o.key with
  | none => exact htold
  | some row =>
    simp only
    split
    · exact htold
    · exact (htold.trans (.dropState _)).trans (.addEvent rfl)

/-- A sweep at a time closes a row: an event past its timer, a level nobody reports that is not
firing or was unconfirmed for long. -/
def closes (now : Int) (key : AlertKey) (row : AlertRow) : Bool :=
  match rulesByName key.1 with
  | none => true
  | some rule =>
    match rule.kind with
    | .event => rule.autoClear ≤ now - row.lastSeen
    | .level =>
      rule.staleAfter ≤ now - row.lastSeen &&
        (row.state ≠ .firing || (row.staleSince ≠ 0 && staleCloseAfter ≤ now - row.staleSince))

def sweepEvent (now : Int) (key : AlertKey) (row : AlertRow) (transition : Transition) : AlertEvent :=
  { id := 0, ts := now, key := key, transition := transition, severity := row.severity,
    summary := row.summary }

/-- What the sweep does to one row. -/
inductive Swept (now : Int) (w : AlertWorld) (key : AlertKey) (row : AlertRow) : AlertWorld → Prop
  | kept : Swept now w key row w
  | dropped (h : closes now key row) : Swept now w key row (w.dropState key)
  | stale (h : row.staleSince = 0) :
      Swept now w key row ((w.markStale key now).addEvent (sweepEvent now key row .stale))
  | expired (hc : closes now key row) (h : row.staleSince ≠ 0) :
      Swept now w key row ((w.dropState key).addEvent (sweepEvent now key row .expired))

theorem swept : Swept now w key row (w.sweepRow now key row) := by
  have hcloses := closes.eq_def now key row
  unfold sweepRow
  cases hrule : rulesByName key.1 with
  | none => exact .dropped (by simp [hcloses, hrule])
  | some rule =>
    cases hkind : rule.kind with
    | event =>
      simp only [hrule, hkind] at hcloses ⊢
      split
      · rename_i h
        exact .dropped (by simp [hcloses, h])
      · exact .kept
    | level =>
      simp only [hrule, hkind] at hcloses ⊢
      split
      · exact .kept
      · rename_i hage
        split
        · rename_i hs
          exact .dropped (by simp [hcloses, hs, not_lt.mp hage])
        · split
          · rename_i h0
            exact .stale h0
          · rename_i h0
            split
            · rename_i hold
              exact .expired (by simp [hcloses, h0, hold, not_lt.mp hage]) h0
            · exact .kept

theorem get?_dropState : (w.dropState key).rows.get? k = if k = key then none else w.rows.get? k :=
  Dict.get?_erase

theorem get?_markStale {since : Int} : (w.markStale key since).rows.get? k =
    if k = key then (w.rows.get? k).map (fun row => { row with staleSince := since }) else w.rows.get? k :=
  Dict.get?_modify _

theorem sweepRow_other (h : k ≠ key) : (w.sweepRow now key row).rows.get? k = w.rows.get? k := by
  generalize hsweep : w.sweepRow now key row = w'
  have hs : Swept now w key row w' := hsweep ▸ swept
  cases hs with
  | kept => rfl
  | dropped => simp [get?_dropState, h]
  | stale => simp [get?_markStale, h]
  | expired => simp [get?_dropState, h]

theorem sweepRow_sweepNow : (w.sweepRow now key row).sweepNow = w.sweepNow := by
  generalize hsweep : w.sweepRow now key row = w'
  have hs : Swept now w key row w' := hsweep ▸ swept
  cases hs <;> rfl

/-- What each row of the sweep keeps, the rows of the sweep keep: each finds the row that was
read at its start. -/
theorem sweep_rows {P : AlertWorld → Prop}
    (hP : ∀ w key row, P w → w.rows.get? key = some row → row.state ≠ .ok →
      P (w.sweepRow w.sweepNow key row))
    (entries : List (AlertKey × AlertRow)) (hn : (entries.map Prod.fst).Nodup) (w : AlertWorld)
    (hw : P w) (hrows : ∀ e ∈ entries, w.rows.get? e.1 = some e.2 ∧ e.2.state ≠ .ok) :
    P (entries.foldl (fun w e => w.sweepRow w.sweepNow e.1 e.2) w) := by
  induction entries generalizing w with
  | nil => exact hw
  | cons e entries ih =>
    rw [List.map_cons, List.nodup_cons] at hn
    obtain ⟨hget, hopen⟩ := hrows e List.mem_cons_self
    refine ih hn.2 _ (hP w e.1 e.2 hw hget hopen) (fun e' he' => ?_)
    have hne : e'.1 ≠ e.1 := by
      intro heq
      exact hn.1 (heq ▸ List.mem_map_of_mem he')
    rw [sweepRow_other hne]
    exact hrows e' (List.mem_cons_of_mem _ he')

theorem openStates_nodup : (w.openStates.map Prod.fst).Nodup := by
  have hperm := (List.mergeSort_perm (w.rows.entries.filter (fun e => e.2.state ≠ .ok))
    (fun a b => b.2.since ≤ a.2.since)).map Prod.fst
  exact hperm.nodup_iff.mpr (w.rows.keys_filter_nodup _)

theorem get?_of_openStates {e : AlertKey × AlertRow} (h : e ∈ w.openStates) :
    w.rows.get? e.1 = some e.2 ∧ e.2.state ≠ .ok := by
  have hmem := List.mem_filter.mp ((List.mergeSort_perm _ _).mem_iff.mp h)
  exact ⟨Dict.mem_entries.mp hmem.1, by simpa using hmem.2⟩

theorem sweep_keeps {P : AlertWorld → Prop}
    (hP : ∀ w key row, P w → w.rows.get? key = some row → row.state ≠ .ok →
      P (w.sweepRow w.sweepNow key row))
    (hprune : pruneInterval ≤ w.sweepNow - w.lastPrune → ∀ w ts, P w → P { w.prune with lastPrune := ts })
    (hw : P w) : P w.sweep := by
  have hrows := sweep_rows hP w.openStates openStates_nodup w hw (fun e he => get?_of_openStates he)
  simp only [sweep]
  split
  · rename_i hdue
    exact hprune hdue _ _ hrows
  · exact hrows

theorem prunedRows_some (h : w.prunedRows.get? key = some row) : w.rows.get? key = some row := by
  simp only [prunedRows, Dict.get?_filter, Option.filter_eq_some_iff] at h
  exact h.1.1

theorem silent_sweepRow : Silent w (w.sweepRow now key row) := by
  generalize hsweep : w.sweepRow now key row = w'
  have h : Swept now w key row w' := hsweep ▸ swept
  cases h with
  | kept => exact .refl w
  | dropped => exact .dropState _
  | stale =>
    have hmark : Silent w (w.markStale key now) := .of_sublist le_rfl rfl (List.Sublist.refl _)
    exact hmark.trans (.addEvent rfl)
  | expired => exact (Silent.dropState _).trans (.addEvent rfl)

theorem prunedEvents_sublist : w.prunedEvents.Sublist w.events := by
  simp only [prunedEvents]
  exact (List.drop_sublist _ _).trans List.filter_sublist

theorem prune_events : w.prune.events = w.prunedEvents := rfl

theorem silent_prune : Silent w w.prune := by
  refine ⟨le_rfl, ⟨_, rfl, fun e he => ?_⟩, fun e he => ?_, fun p _ => ?_⟩
  · obtain ⟨key, -, rfl⟩ := List.mem_map.mp he
    rfl
  · rw [prune_events] at he
    exact Or.inl (prunedEvents_sublist.subset he)
  · rw [prune_events]
    exact prunedEvents_sublist.countP_le

theorem silent_sweep : Silent w w.sweep := by
  have hrows : ∀ (entries : List (AlertKey × AlertRow)) (w : AlertWorld),
      Silent w (entries.foldl (fun w e => w.sweepRow w.sweepNow e.1 e.2) w) := by
    intro entries
    induction entries with
    | nil => exact .refl
    | cons e entries ih => exact fun w => silent_sweepRow.trans (ih _)
  have hlast : ∀ (w : AlertWorld) (ts : Int), Silent w { w with lastPrune := ts } :=
    fun w ts => .of_sublist le_rfl rfl (List.Sublist.refl _)
  simp only [sweep]
  split
  · exact ((hrows _ w).trans silent_prune).trans (hlast _ _)
  · exact hrows _ w

theorem silent_quieten {mode : QuietMode} : Silent w (w.quieten key mode now) := by
  unfold quieten
  split
  · exact .refl w
  · cases mode <;> exact .of_sublist le_rfl rfl (List.Sublist.refl _)

theorem silent_dismiss : Silent w (w.dismiss key now) := by
  unfold dismiss
  split
  · split
    · exact .refl w
    · exact (Silent.dropState _).trans (.addEvent rfl)
  · exact .refl w

theorem silent_deleteHistory {choice : HistoryChoice} : Silent w (w.deleteHistory choice) := by
  cases choice with
  | everything => exact .of_sublist le_rfl rfl (List.nil_sublist _)
  | before ts => exact .of_sublist le_rfl rfl List.filter_sublist
  | ids ids => exact .of_sublist le_rfl rfl List.filter_sublist

/-- Rows may go; those that stay keep their state, their mute and when they were last seen. -/
def Shrinks (w w' : AlertWorld) : Prop :=
  ∀ key row, w'.rows.get? key = some row → ∃ old, w.rows.get? key = some old ∧ row.state = old.state ∧
    row.mutedUntil = old.mutedUntil ∧ row.lastSeen = old.lastSeen

theorem Shrinks.refl (w : AlertWorld) : Shrinks w w := fun _ row h => ⟨row, h, rfl, rfl, rfl⟩

theorem Shrinks.trans {w w' w'' : AlertWorld} (h : Shrinks w w') (h' : Shrinks w' w'') : Shrinks w w'' := by
  intro key row hget
  obtain ⟨mid, hmid, hs, hm, hl⟩ := h' key row hget
  obtain ⟨old, hold, hs', hm', hl'⟩ := h key mid hmid
  exact ⟨old, hold, hs.trans hs', hm.trans hm', hl.trans hl'⟩

theorem shrinks_dropState : Shrinks w (w.dropState key) := by
  intro k row hget
  rw [get?_dropState] at hget
  split at hget
  · cases hget
  · exact ⟨row, hget, rfl, rfl, rfl⟩

theorem shrinks_retire : Shrinks w (w.retire o) := by
  unfold retire
  split
  · exact .refl w
  · split
    · exact .refl w
    · exact shrinks_dropState

theorem shrinks_sweepRow : Shrinks w (w.sweepRow now key row) := by
  generalize hsweep : w.sweepRow now key row = w'
  have hs : Swept now w key row w' := hsweep ▸ swept
  cases hs with
  | kept => exact .refl w
  | dropped => exact shrinks_dropState
  | stale =>
    intro k row hget
    rw [addEvent_rows, get?_markStale] at hget
    split at hget
    · obtain ⟨old, hold, rfl⟩ := Option.map_eq_some_iff.mp hget
      exact ⟨old, hold, rfl, rfl, rfl⟩
    · exact ⟨row, hget, rfl, rfl, rfl⟩
  | expired => exact shrinks_dropState

theorem shrinks_sweep : Shrinks w w.sweep := by
  refine sweep_keeps (fun v key row hv _ _ => hv.trans shrinks_sweepRow) (fun _ v ts hv => hv.trans ?_) (.refl w)
  exact fun key row hget => ⟨row, prunedRows_some hget, rfl, rfl, rfl⟩

theorem shrinks_dismiss : Shrinks w (w.dismiss key now) := by
  unfold dismiss
  split
  · split
    · exact .refl w
    · exact shrinks_dropState
  · exact .refl w

theorem quieten_rows {mode : QuietMode} (h : (w.quieten key mode now).rows.get? k = some row) :
    ∃ old, w.rows.get? k = some old ∧ row.state = old.state ∧ (k ≠ key → row.mutedUntil = old.mutedUntil) := by
  have hset : ∀ ack muted, (w.setQuiet key ack muted).rows.get? k = some row →
      ∃ old, w.rows.get? k = some old ∧ row.state = old.state ∧ (k ≠ key → row.mutedUntil = old.mutedUntil) := by
    intro ack muted hget
    simp only [setQuiet, Dict.get?_modify] at hget
    split at hget
    · rename_i hk
      obtain ⟨old, hold, rfl⟩ := Option.map_eq_some_iff.mp hget
      exact ⟨old, hold, rfl, fun hne => absurd hk hne⟩
    · exact ⟨row, hget, rfl, fun _ => rfl⟩
  unfold quieten at h
  split at h
  · exact ⟨row, h, rfl, fun _ => rfl⟩
  · cases mode <;> exact hset _ _ h

/-- The step takes an observation as a report. -/
def Reports (op : AlertOp) (o : Observation) : Prop :=
  ∃ payload delivery, op = .observe payload delivery ∧ payload.read = .ok o ∧ o.retired = false

/-- A step that is no report leaves rows their state, and their mute unless the operator sets
it. -/
theorem rows_of_silent {op : AlertOp} (h : ∀ o, ¬ Reports op o) (hget : (w.step op).rows.get? k = some row) :
    ∃ old, w.rows.get? k = some old ∧ row.state = old.state ∧
      ((∀ mode waited, op ≠ .quieten k mode waited) → row.mutedUntil = old.mutedUntil) := by
  have hshrink : Shrinks w (w.step op) → ∃ old, w.rows.get? k = some old ∧ row.state = old.state ∧
      ((∀ mode waited, op ≠ .quieten k mode waited) → row.mutedUntil = old.mutedUntil) := by
    intro hs
    obtain ⟨old, hold, hstate, hmuted, -⟩ := hs k row hget
    exact ⟨old, hold, hstate, fun _ => hmuted⟩
  cases op with
  | observe payload delivery =>
    refine hshrink ?_
    simp only [step, observe]
    split
    · exact .refl w
    · rename_i o hread
      split
      · exact shrinks_retire
      · rename_i hr
        exact absurd ⟨payload, delivery, rfl, hread, by simpa using hr⟩ (h o)
  | sweep => exact hshrink shrinks_sweep
  | dismiss key waited => exact hshrink shrinks_dismiss
  | quieten key mode waited =>
    obtain ⟨old, hold, hstate, hmuted⟩ := quieten_rows hget
    refine ⟨old, hold, hstate, fun hno => hmuted ?_⟩
    rintro rfl
    exact hno mode waited rfl
  | deleteHistory choice =>
    refine hshrink ?_
    cases choice <;> exact .refl w
  | _ => exact hshrink (.refl w)

theorem step_cases (w : AlertWorld) (op : AlertOp) :
    (∃ delivery o, Reports op o ∧ w.step op = w.apply o delivery) ∨
      ((∀ o, ¬ Reports op o) ∧ Silent w (w.step op)) := by
  cases op with
  | observe payload delivery =>
    simp only [step, observe]
    cases hread : payload.read with
    | error e =>
      refine Or.inr ⟨?_, .refl w⟩
      rintro o ⟨_, _, hop, ho, -⟩
      cases hop
      rw [hread] at ho
      cases ho
    | ok o =>
      cases hr : o.retired with
      | true =>
        refine Or.inr ⟨?_, by simpa [hr] using silent_retire⟩
        rintro o' ⟨_, _, hop, ho, hno⟩
        cases hop
        rw [hread] at ho
        cases ho
        rw [hr] at hno
        cases hno
      | false => exact Or.inl ⟨delivery, o, ⟨payload, delivery, rfl, hread, hr⟩, by simp [hr]⟩
  | tick seconds =>
    exact Or.inr ⟨fun _ ⟨_, _, h, _⟩ => AlertOp.noConfusion h,
      .of_sublist (by simp only [step]; omega) rfl (List.Sublist.refl _)⟩
  | sweep => exact Or.inr ⟨fun _ ⟨_, _, h, _⟩ => AlertOp.noConfusion h, silent_sweep⟩
  | quieten key mode waited => exact Or.inr ⟨fun _ ⟨_, _, h, _⟩ => AlertOp.noConfusion h, silent_quieten⟩
  | dismiss key waited => exact Or.inr ⟨fun _ ⟨_, _, h, _⟩ => AlertOp.noConfusion h, silent_dismiss⟩
  | deleteHistory choice => exact Or.inr ⟨fun _ ⟨_, _, h, _⟩ => AlertOp.noConfusion h, silent_deleteHistory⟩
  | _ =>
    exact Or.inr ⟨fun _ ⟨_, _, h, _⟩ => AlertOp.noConfusion h, .of_sublist le_rfl rfl (List.Sublist.refl _)⟩

end AlertWorld

end EasyHaProxy.Alertd
