import EasyHaProxy.Alertd.Spec

/-! The panel's header and the mailer ask the same row whether an alert is quiet. They agree but for one
kind of row: acknowledged by a mute that is over. -/
namespace EasyHaProxy.Alertd

open Machine

/-- What the panel shows of an alert. -/
structure PortalItem where
  rule : String
  title : String
  subject : String
  severity : Severity
  since : Int
  summary : String

structure Portal where
  items : List PortalItem
  total : Nat
  critical : Nat
  quiet : Nat
  minSeverity : Severity

namespace AlertRow

/-- A mute holds until its time; an acknowledgement counts where there is no mute. -/
def portalQuiet (row : AlertRow) (now : Int) : Bool :=
  now < row.mutedUntil || (row.acknowledgedTs ≠ 0 && row.mutedUntil = 0)

/-- `_quiet_reason` holds a reminder back. -/
def heldQuiet (row : AlertRow) (now : Int) : Bool := now < row.mutedUntil || row.acknowledgedTs ≠ 0

/-- Its mute is over and what was acknowledged with the mute still stands. -/
def lapsed (row : AlertRow) (now : Int) : Bool :=
  row.mutedUntil ≤ now && row.mutedUntil ≠ 0 && row.acknowledgedTs ≠ 0

variable {row : AlertRow} {now : Int}

theorem heldQuiet_eq : row.heldQuiet now = (row.portalQuiet now || row.lapsed now) := by
  by_cases hm : now < row.mutedUntil
  · simp [heldQuiet, portalQuiet, hm]
  · by_cases hz : row.mutedUntil = 0 <;> simp [heldQuiet, portalQuiet, lapsed, hm, hz, not_lt.mp hm]

theorem not_portalQuiet_of_lapsed (h : row.lapsed now = true) : row.portalQuiet now = false := by
  simp only [lapsed, Bool.and_eq_true, decide_eq_true_eq] at h
  obtain ⟨⟨hm, hz⟩, -⟩ := h
  simp [portalQuiet, not_lt.mpr hm, hz]

/-- The two tests differ on the lapsed rows and on no others. -/
theorem heldQuiet_iff_portalQuiet :
    (row.heldQuiet now = true ↔ row.portalQuiet now = true) ↔ row.lapsed now = false := by
  cases hl : row.lapsed now with
  | false => simp [heldQuiet_eq, hl]
  | true => simp [heldQuiet_eq, hl, not_portalQuiet_of_lapsed hl]

end AlertRow

namespace AlertWorld

variable {w : AlertWorld} {key : AlertKey} {row : AlertRow} {now : Int} {portalMin : Severity}
  {ops : List AlertOp}

def activeAlerts (w : AlertWorld) : List (AlertKey × AlertRow) :=
  (w.rows.entries.filter (fun e => e.2.state = .firing)).mergeSort (fun a b => b.2.since ≤ a.2.since)

/-- The alerts `portal` looks at: those below its severity it leaves out. -/
def portalRows (w : AlertWorld) (portalMin : Severity) : List (AlertKey × AlertRow) :=
  w.activeAlerts.filter (fun e => portalMin.rank ≤ e.2.severity.rank)

def portalItem (e : AlertKey × AlertRow) : PortalItem where
  rule := e.1.1
  title := ((rulesByName e.1.1).map (·.title)).getD e.1.1
  subject := e.1.2
  severity := e.2.severity
  since := e.2.since
  summary := e.2.summary

/-- The sort key of an item is its severity and then how lately it began. -/
def portalBefore (a b : PortalItem) : Bool :=
  b.severity.rank < a.severity.rank || (a.severity.rank = b.severity.rank && b.since ≤ a.since)

def portal (w : AlertWorld) (portalMin : Severity) (now : Int) : Portal :=
  let rows := w.portalRows portalMin
  let items := ((rows.filter (fun e => !e.2.portalQuiet now)).map portalItem).mergeSort portalBefore
  { items := items.take 20
    total := items.length
    critical := items.countP (fun item => item.severity = .critical)
    quiet := rows.countP (fun e => e.2.portalQuiet now)
    minSeverity := portalMin }

/-- The pair's row is one of those `portal` counts as quiet. -/
def countsQuiet (w : AlertWorld) (portalMin : Severity) (now : Int) (key : AlertKey) : Prop :=
  ∃ row, (key, row) ∈ w.portalRows portalMin ∧ row.portalQuiet now = true

theorem mem_portalRows : (key, row) ∈ w.portalRows portalMin ↔
    w.rows.get? key = some row ∧ row.state = .firing ∧ portalMin.rank ≤ row.severity.rank := by
  simp [portalRows, activeAlerts, Dict.mem_entries, and_assoc]

theorem countsQuiet_iff (hrow : w.rows.get? key = some row) (hfiring : row.state = .firing) :
    w.countsQuiet portalMin now key ↔ portalMin.rank ≤ row.severity.rank ∧ row.portalQuiet now = true := by
  constructor
  · rintro ⟨r, hmem, hquiet⟩
    obtain ⟨hr, -, hrank⟩ := mem_portalRows.mp hmem
    obtain rfl : row = r := by simpa [hrow] using hr
    exact ⟨hrank, hquiet⟩
  · rintro ⟨hrank, hquiet⟩
    exact ⟨row, mem_portalRows.mpr ⟨hrow, hfiring, hrank⟩, hquiet⟩

theorem quietReason_repeated (hrow : w.rows.get? key = some row) :
    (w.quietReason key .repeated now).isSome = row.heldQuiet now := by
  by_cases hm : now < row.mutedUntil
  · simp [quietReason, hrow, AlertRow.heldQuiet, hm]
  · by_cases ha : row.acknowledgedTs = 0 <;> simp [quietReason, hrow, AlertRow.heldQuiet, hm, ha]

/-- The panel's number of quiet alerts is the number whose reminders are held back exactly when
none of the alerts it looks at has lapsed. -/
theorem portal_quiet_iff :
    (w.portal portalMin now).quiet = (w.portalRows portalMin).countP (fun e => e.2.heldQuiet now) ↔
      ∀ e ∈ w.portalRows portalMin, e.2.lapsed now = false := by
  have hsplit : (w.portalRows portalMin).countP (fun e => e.2.heldQuiet now) =
      (w.portal portalMin now).quiet + (w.portalRows portalMin).countP (fun e => e.2.lapsed now) := by
    simp only [portal]
    induction w.portalRows portalMin with
    | nil => rfl
    | cons e rows ih =>
      rw [List.countP_cons, List.countP_cons, List.countP_cons, ih, AlertRow.heldQuiet_eq]
      cases hl : e.2.lapsed now with
      | false =>
        simp only [Bool.or_false, Bool.false_eq_true, if_false]
        omega
      | true => simp [AlertRow.not_portalQuiet_of_lapsed hl]; omega
  rw [hsplit, Nat.left_eq_add, List.countP_eq_zero]
  simp

/-- Of the alerts the panel looks at, the two agree on all but the lapsed; what is below its
severity it counts nowhere. -/
theorem quiet_agrees_iff (clock : Int) (ops : List AlertOp) (key : AlertKey) (row : AlertRow)
    (hrow : (run step (start clock) ops).rows.get? key = some row) (hfiring : row.state = .firing)
    (portalMin : Severity) (now : Int) :
    (((run step (start clock) ops).quietReason key .repeated now).isSome = true ↔
        (run step (start clock) ops).countsQuiet portalMin now key) ↔
      if portalMin.rank ≤ row.severity.rank then
        row.mutedUntil ≤ now → row.mutedUntil ≠ 0 → row.acknowledgedTs = 0
      else row.mutedUntil ≤ now ∧ row.acknowledgedTs = 0 := by
  rw [countsQuiet_iff hrow hfiring, quietReason_repeated hrow]
  by_cases hrank : portalMin.rank ≤ row.severity.rank
  · simp only [hrank, true_and, if_true]
    rw [AlertRow.heldQuiet_iff_portalQuiet]
    simp [AlertRow.lapsed]
  · simp [hrank, AlertRow.heldQuiet]

def backendDown (seconds : Nat) : List AlertOp :=
  [.observe { rule := "site.down", subject := "shop", active := some true, triggerDelay := some (some 0) } {},
    .quieten ("site.down", "shop") (.mute (some 300)) 0, .tick seconds]

def backendRow : AlertRow where
  state := .firing
  severity := .critical
  since := 1000
  firstSeen := 1000
  lastSeen := 1000
  lastNotified := 0
  notifyCount := 0
  summary := "Site is down"
  detail := ""
  acknowledgedTs := 1000
  mutedUntil := 1300

theorem backendDown_row : (run step (start 1000) (backendDown 200)).rows.get? ("site.down", "shop") = some backendRow := by
  decide +kernel

theorem quiet_agrees_muted :
    ((run step (start 1000) (backendDown 200)).quietReason ("site.down", "shop") .repeated 1200).isSome = true ↔
      (run step (start 1000) (backendDown 200)).countsQuiet .warning 1200 ("site.down", "shop") :=
  (quiet_agrees_iff 1000 (backendDown 200) ("site.down", "shop") backendRow backendDown_row rfl .warning 1200).mpr
    (by decide)

/-- When the mute is over the panel shows the alert and the mailer is still silent. -/
theorem lapsed_mute_disagrees :
    ¬ ∀ (clock : Int) (ops : List AlertOp) (key : AlertKey) (row : AlertRow),
      (run step (start clock) ops).rows.get? key = some row → row.state = .firing → ∀ portalMin now,
        (((run step (start clock) ops).quietReason key .repeated now).isSome = true ↔
          (run step (start clock) ops).countsQuiet portalMin now key) := by
  intro h
  have hagree := h 1000 (backendDown 301) ("site.down", "shop") backendRow (by decide +kernel) rfl .warning 1301
  have hrow : (run step (start 1000) (backendDown 301)).rows.get? ("site.down", "shop") = some backendRow := by
    decide +kernel
  rw [countsQuiet_iff hrow rfl, quietReason_repeated hrow] at hagree
  exact absurd hagree (by decide)

/-! ## Runs without a mute -/

/-- The operator acknowledges and clears, and mutes nothing. -/
def MutesNothing : AlertOp → Prop
  | .quieten _ (.mute _) _ => False
  | _ => True

/-- No row has ever had a mute. -/
def Unmuted (w : AlertWorld) : Prop := ∀ key row, w.rows.get? key = some row → row.mutedUntil = 0

theorem Unmuted.setQuiet (h : Unmuted w) (ack : Int) : Unmuted (w.setQuiet key ack 0) := by
  intro k row hget
  simp only [AlertWorld.setQuiet, Dict.get?_modify] at hget
  split at hget
  · obtain ⟨old, -, rfl⟩ := Option.map_eq_some_iff.mp hget
    rfl
  · exact h k row hget

theorem Unmuted.apply {o : Observation} {delivery : Delivery} (h : Unmuted w) : Unmuted (w.apply o delivery) := by
  intro k row hget
  by_cases hk : k = o.key
  · subst hk
    obtain ⟨_, _, _, r, -, -, -, hr, hrow, -⟩ := apply_told w o delivery
    obtain rfl : r = row := by simpa [hget] using hr.symm
    rw [hrow.mutedUntil, AlertWorld.mutedUntil]
    cases hold : w.rows.get? o.key with
    | none => rfl
    | some old => simpa using h o.key old hold
  · rw [apply_other hk] at hget
    exact h k row hget

theorem Unmuted.step {op : AlertOp} (h : Unmuted w) (hop : MutesNothing op) : Unmuted (w.step op) := by
  rcases step_cases w op with ⟨delivery, o, -, hstep⟩ | ⟨hsilent, -⟩
  · rw [hstep]
    exact h.apply
  · cases op with
    | quieten key mode waited =>
      simp only [AlertWorld.step, AlertWorld.quieten]
      split
      · exact h
      · cases mode with
        | acknowledge => exact h.setQuiet _
        | mute seconds => exact hop.elim
        | clear => exact h.setQuiet _
    | _ =>
      intro k row hget
      obtain ⟨old, hold, -, hmuted⟩ := rows_of_silent hsilent hget
      rw [hmuted (by simp)]
      exact h k old hold

theorem Unmuted.run (h : Unmuted w) (hops : ∀ op ∈ ops, MutesNothing op) : Unmuted (run AlertWorld.step w ops) := by
  induction ops generalizing w with
  | nil => exact h
  | cons op ops ih =>
    rw [List.forall_mem_cons] at hops
    exact ih (h.step hops.1) hops.2

/-- Where nothing is muted the two agree on every alert the panel looks at, at any time. -/
theorem quiet_agrees_unmuted (clock : Int) (h : ∀ op ∈ ops, MutesNothing op)
    (hrow : (run step (start clock) ops).rows.get? key = some row) (hfiring : row.state = .firing)
    (hrank : portalMin.rank ≤ row.severity.rank) :
    ((run step (start clock) ops).quietReason key .repeated now).isSome = true ↔
      (run step (start clock) ops).countsQuiet portalMin now key := by
  have hunmuted : Unmuted (run step (start clock) ops) := by
    refine Unmuted.run (fun k row hget => ?_) h
    simp [start] at hget
  rw [countsQuiet_iff hrow hfiring, quietReason_repeated hrow, AlertRow.heldQuiet_eq]
  simp [AlertRow.lapsed, hunmuted key row hrow, hrank]

end AlertWorld

end EasyHaProxy.Alertd
