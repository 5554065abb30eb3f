import EasyHaProxy.Lib.Machine
import EasyHaProxy.Alertd.Basic

/-! Observations, the sweep and the operator's hand, each one step on the two tables under the engine's
lock. What the channels answer is part of the step. -/
namespace EasyHaProxy.Alertd

inductive Entry
  | report (ts : Int) (key : AlertKey) (active : Bool)
  | retire (ts : Int) (key : AlertKey)
  | drop (key : AlertKey)
  | record (event : AlertEvent)
  | hand (ts : Int) (key : AlertKey) (transition : Transition) (delivered : Bool)
  deriving DecidableEq

structure AlertWorld where
  clock : Int
  /-- What the sweep under way read before it took the lock. -/
  sweepNow : Int
  config : AlertConfig := {}
  rows : Dict AlertKey AlertRow := Dict.empty
  events : List AlertEvent := []
  lastPrune : Int := 0
  log : List Entry := []

namespace AlertWorld

def start (clock : Int) : AlertWorld := { clock := clock, sweepNow := clock }

/-! ## The database -/

/-- The upsert keeps when the subject was first seen and what the operator set. -/
def putState (w : AlertWorld) (key : AlertKey) (row : AlertRow) : AlertWorld :=
  { w with
    rows := w.rows.set key
      (match w.rows.get? key with
      | none => row
      | some old =>
        { row with
          firstSeen := old.firstSeen
          acknowledgedTs := old.acknowledgedTs
          mutedUntil := old.mutedUntil
          staleSince := 0 }) }

def setQuiet (w : AlertWorld) (key : AlertKey) (acknowledgedTs mutedUntil : Int) : AlertWorld :=
  { w with
    rows := w.rows.modify key
      (fun row => { row with acknowledgedTs := acknowledgedTs, mutedUntil := mutedUntil }) }

def clearAcknowledgement (w : AlertWorld) (key : AlertKey) : AlertWorld :=
  { w with rows := w.rows.modify key (fun row => { row with acknowledgedTs := 0 }) }

def dropState (w : AlertWorld) (key : AlertKey) : AlertWorld :=
  { w with rows := w.rows.erase key, log := .drop key :: w.log }

def markStale (w : AlertWorld) (key : AlertKey) (since : Int) : AlertWorld :=
  { w with rows := w.rows.modify key (fun row => { row with staleSince := since }) }

def nextId (w : AlertWorld) : Nat := (w.events.map (·.id + 1)).foldl max 1

/-- `add_event`: the row gets the next id. -/
def addEvent (w : AlertWorld) (event : AlertEvent) : AlertWorld :=
  { w with
    events := w.events ++ [{ event with id := w.nextId }]
    log := .record { event with id := w.nextId } :: w.log }

def notificationsSince (w : AlertWorld) (since : Int) : Nat :=
  w.events.countP (fun e => since ≤ e.ts && (e.transition = .fired || e.transition = .repeated))

/-- History older than the retention goes, and all but the newest rows of it. -/
def prunedEvents (w : AlertWorld) : List AlertEvent :=
  let events := w.events.filter (fun e => ¬ e.ts < w.clock - retentionDays * 86400)
  events.drop (events.length - maxEventRows)

/-- A resolved subject that nothing has mentioned for a retention period is history, not state. -/
def prunedRows (w : AlertWorld) : Dict AlertKey AlertRow :=
  let rows := w.rows.filter
    (fun _ row => ¬ (row.state = .ok ∧ row.lastSeen < w.clock - retentionDays * 86400))
  let newest := (rows.entries.mergeSort (fun a b => b.2.lastSeen ≤ a.2.lastSeen)).take maxStateRows
  rows.filter (fun key _ => key ∈ newest.map Prod.fst)

/-- `prune`, with the clock it reads. -/
def prune (w : AlertWorld) : AlertWorld :=
  { w with
    events := w.prunedEvents
    rows := w.prunedRows
    log := (w.rows.keys.filter (fun key => !w.prunedRows.contains key)).map Entry.drop ++ w.log }

/-! ## Notification -/

def shouldNotify (w : AlertWorld) (rule : Rule) (severity : Severity) : Option HeldBack :=
  if ¬ w.config.enabled then some .switchedOff
  else if ¬ (w.config.settingsFor rule).enabled then some .ruleOff
  else if severity.rank < w.config.minSeverity.rank then some .belowMinimum
  else none

/-- Why an operator's acknowledgement or mute holds this message back. -/
def quietReason (w : AlertWorld) (key : AlertKey) (transition : Transition) (now : Int) :
    Option HeldBack :=
  match w.rows.get? key with
  | none => none
  | some row =>
    if now < row.mutedUntil ∧ transition ≠ .recovered then some (.muted row.mutedUntil)
    else if row.acknowledgedTs ≠ 0 ∧ transition = .repeated then some .acknowledged
    else none

def heldBack (w : AlertWorld) (rule : Rule) (key : AlertKey) (transition : Transition)
    (severity : Severity) (now : Int) : Option HeldBack :=
  match w.shouldNotify rule severity with
  | some reason => some reason
  | none =>
    match w.quietReason key transition now with
    | some reason => some reason
    | none =>
      if transition = .recovered ∧ severity = .info then some .informationEnds else none

/-- Storm control: enough went out already. -/
def storm (w : AlertWorld) (transition : Transition) (now : Int) : Prop :=
  transition ≠ .recovered ∧ stormMaxNotifications ≤ w.notificationsSince (now - stormWindowSeconds)

instance (w : AlertWorld) (transition : Transition) (now : Int) : Decidable (w.storm transition now) :=
  inferInstanceAs (Decidable (_ ∧ _))

/-- `_notify`: the row of the history it writes, and whether a channel took the message. -/
def notify (w : AlertWorld) (o : Observation) (transition : Transition) (now : Int)
    (delivery : Delivery) : AlertWorld × Bool :=
  let event : AlertEvent :=
    { id := 0, ts := now, key := o.key, transition := transition, severity := o.severity,
      summary := o.summary }
  match w.heldBack o.rule o.key transition o.severity now with
  | some reason => (w.addEvent { event with heldBack := some reason }, false)
  | none =>
    if w.storm transition now then
      (w.addEvent { event with transition := .suppressed, heldBack := some .storm }, false)
    else
      let w := w.addEvent { event with delivery := delivery }
      let delivered := !delivery.delivered.isEmpty
      ({ w with log := .hand now o.key transition delivered :: w.log }, delivered)

/-! ## Intake -/

/-- What one report makes of a row. -/
structure Advance where
  state : AlertState
  since : Int
  firstSeen : Int
  notifyCount : Nat
  transition : Option Transition := none

def advance (row : Option AlertRow) (active : Bool) (severity : Severity)
    (delay repeatAfter now : Int) : Advance :=
  let state := (row.map (·.state)).getD .ok
  let since := (row.map (·.since)).getD now
  let firstSeen := (row.map (·.firstSeen)).getD now
  let lastNotified := (row.map (·.lastNotified)).getD 0
  let notifyCount := (row.map (·.notifyCount)).getD 0
  let before : Advance :=
    { state := state, since := since, firstSeen := firstSeen, notifyCount := notifyCount }
  if ¬ active then
    match state with
    | .firing => { before with state := .ok, since := now, transition := some .recovered }
    -- It never fired, so there is nothing to recover from.
    | .pending => { before with state := .ok, since := now }
    | .ok => before
  else
    let before :=
      if state = .ok then
        { before with state := .pending, since := now, firstSeen := now, notifyCount := 0 }
      else before
    if before.state = .pending ∧ delay ≤ now - before.since then
      { before with state := .firing, since := now, transition := some .fired }
    else if before.state = .firing ∧ ((row.map (·.severity)).getD severity).rank < severity.rank then
      { before with transition := some .escalated }
    else if before.state = .firing ∧ repeatAfter ≤ now - lastNotified then
      { before with transition := some .repeated }
    else before

def delayOf (w : AlertWorld) (o : Observation) : Int :=
  o.overrideDelay.getD (w.config.settingsFor o.rule).triggerDelay

def advanceOf (w : AlertWorld) (o : Observation) : Advance :=
  advance (w.rows.get? o.key) o.active o.severity (w.delayOf o)
    (w.config.settingsFor o.rule).repeatAfter w.clock

/-- The row `_apply` writes. -/
def rowOf (w : AlertWorld) (o : Observation) : AlertRow :=
  let next := w.advanceOf o
  { state := next.state, severity := o.severity, since := next.since, firstSeen := next.firstSeen,
    lastSeen := w.clock, lastNotified := ((w.rows.get? o.key).map (·.lastNotified)).getD 0,
    notifyCount := next.notifyCount, summary := o.summary, detail := o.detail }

/-- `_apply` up to the notification. -/
def settle (w : AlertWorld) (o : Observation) : AlertWorld :=
  let row := w.rowOf o
  let stored := { w.putState o.key row with log := .report w.clock o.key o.active :: w.log }
  if row.state = .ok ∧ ((w.rows.get? o.key).map (·.acknowledgedTs)).getD 0 ≠ 0 then
    stored.clearAcknowledgement o.key
  else stored

def apply (w : AlertWorld) (o : Observation) (delivery : Delivery) : AlertWorld :=
  let settled := w.settle o
  match (w.advanceOf o).transition with
  | none => settled
  | some transition =>
    let (told, notified) := settled.notify o transition w.clock delivery
    if notified then
      told.putState o.key
        { w.rowOf o with lastNotified := w.clock, notifyCount := (w.rowOf o).notifyCount + 1 }
    else told

/-- `_retire`: close what an object no longer checked still holds, quietly. -/
def retire (w : AlertWorld) (o : Observation) : AlertWorld :=
  let told := { w with log := .retire w.clock o.key :: w.log }
  match w.rows.get? o.key with
  | none => told
  | some row =>
    if row.state = .ok then told
    else
      (told.dropState o.key).addEvent
        { id := 0, ts := w.clock, key := o.key, transition := .retired, severity := row.severity,
          summary := row.summary }

/-- `observe`; a refused payload changes nothing. -/
def observe (w : AlertWorld) (payload : Payload) (delivery : Delivery) : AlertWorld :=
  match payload.read with
  | .error _ => w
  | .ok o => if o.retired then w.retire o else w.apply o delivery

/-! ## Periodic work -/

def sweepRow (now : Int) (w : AlertWorld) (key : AlertKey) (row : AlertRow) : AlertWorld :=
  match rulesByName key.1 with
  | none => w.dropState key
  | some rule =>
    let age := now - row.lastSeen
    let event : AlertEvent :=
      { id := 0, ts := now, key := key, transition := .stale, severity := row.severity,
        summary := row.summary }
    match rule.kind with
    | .event => if rule.autoClear ≤ age then w.dropState key else w
    | .level =>
      if age < rule.staleAfter then w
      -- Pending and never sent: nothing to say about it.
      else if row.state ≠ .firing then w.dropState key
      else if row.staleSince = 0 then (w.markStale key now).addEvent event
      else if staleCloseAfter ≤ now - row.staleSince then
        (w.dropState key).addEvent { event with transition := .expired }
      else w

def openStates (w : AlertWorld) : List (AlertKey × AlertRow) :=
  (w.rows.entries.filter (fun e => e.2.state ≠ .ok)).mergeSort (fun a b => b.2.since ≤ a.2.since)

def sweep (w : AlertWorld) : AlertWorld :=
  let swept := w.openStates.foldl (fun w e => w.sweepRow w.sweepNow e.1 e.2) w
  if pruneInterval ≤ w.sweepNow - w.lastPrune then
    { swept.prune with lastPrune := w.sweepNow }
  else swept

end AlertWorld

/-! ## The operator's hand -/

inductive QuietMode
  | acknowledge
  | mute (seconds : Option Int)
  | clear
  deriving DecidableEq

inductive HistoryChoice
  | everything
  | before (ts : Int)
  | ids (ids : List Nat)

namespace AlertWorld

/-- `quieten`, with the clock it read before it took the lock. -/
def quieten (w : AlertWorld) (key : AlertKey) (mode : QuietMode) (now : Int) : AlertWorld :=
  if (rulesByName key.1).isNone || !w.rows.contains key then w
  else
    match mode with
    | .acknowledge => w.setQuiet key now 0
    | .mute seconds => w.setQuiet key now (now + clampInt seconds 3600 300 maxMuteSeconds)
    | .clear => w.setQuiet key 0 0

def dismiss (w : AlertWorld) (key : AlertKey) (now : Int) : AlertWorld :=
  match rulesByName key.1, w.rows.get? key with
  | some rule, some row =>
    -- A condition that still holds cannot be dismissed.
    if rule.kind ≠ .event ∧ ¬ 0 < row.staleSince then w
    else
      (w.dropState key).addEvent
        { id := 0, ts := now, key := key, transition := .dismissed, severity := row.severity,
          summary := row.summary }
  | _, _ => w

def deleteHistory (w : AlertWorld) : HistoryChoice → AlertWorld
  | .everything => { w with events := [] }
  | .before ts => { w with events := w.events.filter (fun e => ¬ e.ts < ts) }
  | .ids ids => { w with events := w.events.filter (fun e => e.id ∉ ids.take 1000) }

end AlertWorld

inductive AlertOp
  | tick (seconds : Nat)
  | observe (payload : Payload) (delivery : Delivery)
  /-- The sweep reads the clock and then waits for the lock. -/
  | beginSweep
  | sweep
  | quieten (key : AlertKey) (mode : QuietMode) (waited : Nat)
  | dismiss (key : AlertKey) (waited : Nat)
  | configure (config : AlertConfig)
  | deleteHistory (choice : HistoryChoice)

def AlertWorld.step (w : AlertWorld) : AlertOp → AlertWorld
  | .tick seconds => { w with clock := w.clock + seconds }
  | .observe payload delivery => w.observe payload delivery
  | .beginSweep => { w with sweepNow := w.clock }
  | .sweep => w.sweep
  | .quieten key mode waited => w.quieten key mode (w.clock - waited)
  | .dismiss key waited => w.dismiss key (w.clock - waited)
  | .configure config => { w with config := config }
  | .deleteHistory choice => w.deleteHistory choice

end EasyHaProxy.Alertd
