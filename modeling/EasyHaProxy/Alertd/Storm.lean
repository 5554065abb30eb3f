import EasyHaProxy.Lib.History
import EasyHaProxy.Alertd.Spec

/-! Before a message goes out the engine counts the FIRED and REPEATED rows of the last five minutes. -/
namespace EasyHaProxy.Alertd

open Machine History

/-- A message handed to the channels in a window. -/
def Entry.handedIn (lo hi : Int) : Entry → Bool
  | .hand ts _ _ _ => lo ≤ ts && ts ≤ hi
  | _ => false

def Entry.handedSince (lo : Int) : Entry → Bool
  | .hand ts _ _ _ => lo ≤ ts
  | _ => false

/-- A message other than a recovery, in a window. -/
def Entry.sentIn (lo hi : Int) : Entry → Bool
  | .hand ts _ t _ => t ≠ .recovered && (lo ≤ ts && ts ≤ hi)
  | _ => false

def Entry.sentSince (lo : Int) : Entry → Bool
  | .hand ts _ t _ => t ≠ .recovered && lo ≤ ts
  | _ => false

/-- A message that storm control counts: FIRED or REPEATED. -/
def AlertEvent.notification (e : AlertEvent) : Bool :=
  e.transition = .fired || e.transition = .repeated

/-- SUPPRESSED is recorded only after enough messages in the window before it. -/
def SuppressedAfterStorm : Entry → List Entry → Prop
  | .record e, older => e.transition = .suppressed →
    stormMaxNotifications ≤ older.countP (Entry.handedIn (e.ts - stormWindowSeconds) e.ts)
  | _, _ => True

namespace AlertWorld

variable {w w' : AlertWorld} {o : Observation} {delivery : Delivery} {ops : List AlertOp}

/-- A message that reaches storm control finds no FIRED or REPEATED row of the window that was
held back. -/
def CountsMessages (w : AlertWorld) : AlertOp → Prop
  | .observe payload _ => ∀ o ∈ payload.read.toOption, o.retired = false →
    ∀ t ∈ (w.advanceOf o).transition, w.reason o t = none → t ≠ .recovered →
      ∀ e ∈ w.events, w.clock - stormWindowSeconds ≤ e.ts → e.notification → e.heldBack = none
  | _ => True

instance (w : AlertWorld) (op : AlertOp) : Decidable (CountsMessages w op) :=
  match op with
  | .observe payload _ =>
    inferInstanceAs (Decidable (∀ o ∈ payload.read.toOption, o.retired = false →
      ∀ t ∈ (w.advanceOf o).transition, w.reason o t = none → t ≠ .recovered →
        ∀ e ∈ w.events, w.clock - stormWindowSeconds ≤ e.ts → e.notification → e.heldBack = none))
  | .tick _ | .beginSweep | .sweep | .quieten _ _ _ | .dismiss _ _ | .configure _ | .deleteHistory _ =>
    inferInstanceAs (Decidable True)

/-- Rows that were not held back stand for messages, and no message is from the future. -/
structure Earned (w : AlertWorld) : Prop where
  always : Always SuppressedAfterStorm w.log
  past : ∀ ts key t d, Entry.hand ts key t d ∈ w.log → ts ≤ w.clock
  count : ∀ lo, w.events.countP (fun e => lo ≤ e.ts && e.notification && e.heldBack = none) ≤
    w.log.countP (Entry.handedSince lo)

theorem earned_start (clock : Int) : Earned (start clock) :=
  ⟨trivial, fun _ _ _ _ h => absurd h List.not_mem_nil, fun _ => le_rfl⟩

/-- Up to now, the messages since a time are those of the window that ends now. -/
theorem Earned.handedIn (h : Earned w) (lo : Int) :
    w.log.countP (Entry.handedIn lo w.clock) = w.log.countP (Entry.handedSince lo) := by
  apply List.countP_congr
  intro e he
  cases e with
  | hand ts key t d => simp [Entry.handedIn, Entry.handedSince, h.past ts key t d he]
  | _ => rfl

theorem Earned.silent (h : Earned w) (hs : Silent w w') : Earned w' := by
  obtain ⟨entries, hlog, hentries⟩ := hs.log
  refine ⟨?_, fun ts key t d hmem => ?_, fun lo => ?_⟩
  · rw [hlog]
    refine h.always.append (fun e he older => ?_)
    cases e with
    | record event =>
      intro hsup
      exact absurd (hentries _ he) (by simp [Entry.silent, hsup, Transition.silent])
    | _ => trivial
  · rw [hlog, List.mem_append] at hmem
    rcases hmem with hmem | hmem
    · exact absurd (hentries _ hmem) Bool.false_ne_true
    · exact (h.past ts key t d hmem).trans hs.clock
  · have hcount := hs.count (fun e => lo ≤ e.ts && e.notification && e.heldBack = none) (by
      intro e he
      cases ht : e.transition <;> simp_all [AlertEvent.notification, Transition.silent])
    rw [hlog, List.countP_append]
    exact (hcount.trans (h.count lo)).trans (Nat.le_add_left _ _)

theorem Earned.notifications_le (h : Earned w) {lo : Int}
    (hc : ∀ e ∈ w.events, lo ≤ e.ts → e.notification → e.heldBack = none) :
    w.notificationsSince lo ≤ w.log.countP (Entry.handedSince lo) := by
  refine le_trans (le_of_eq ?_) (h.count lo)
  apply List.countP_congr
  intro e he
  by_cases hlo : lo ≤ e.ts
  · cases hn : e.notification with
    | true =>
      have hnot : e.transition = .fired ∨ e.transition = .repeated := by simpa [AlertEvent.notification] using hn
      simp [hlo, hnot, hc e he hlo hn]
    | false =>
      have hnot : ¬ (e.transition = .fired ∨ e.transition = .repeated) := by
        simpa [AlertEvent.notification] using hn
      simp [hnot]
  · simp [hlo]

theorem Earned.apply (h : Earned w)
    (hc : ∀ t ∈ (w.advanceOf o).transition, w.reason o t = none → t ≠ .recovered →
      ∀ e ∈ w.events, w.clock - stormWindowSeconds ≤ e.ts → e.notification → e.heldBack = none) :
    Earned (w.apply o delivery) := by
  obtain ⟨entries, events, last, row, htold, hlog, hevents, -⟩ := apply_told w o delivery
  have hclock : (w.apply o delivery).clock = w.clock := apply_clock
  cases htold with
  | silent ht =>
    refine ⟨?_, fun ts key t d hmem => ?_, fun lo => ?_⟩
    · rw [hlog]
      exact ⟨trivial, h.always⟩
    · rw [hclock]
      exact h.past ts key t d (by simpa [hlog] using hmem)
    · simpa [hlog, hevents, Entry.handedSince] using h.count lo
  | @held t r ht hr =>
    refine ⟨?_, fun ts key t d hmem => ?_, fun lo => ?_⟩
    · rw [hlog]
      refine ⟨fun hsup => ?_, trivial, h.always⟩
      rcases transition_cases ht with rfl | rfl | rfl | rfl <;> cases hsup
    · rw [hclock]
      exact h.past ts key t d (by simpa [hlog] using hmem)
    · simpa [hlog, hevents, Entry.handedSince, eventOf, List.countP_append] using h.count lo
  | @storm t ht hr hs =>
    refine ⟨?_, fun ts key t d hmem => ?_, fun lo => ?_⟩
    · rw [hlog]
      refine ⟨fun _ => ?_, trivial, h.always⟩
      have hle := hs.2.trans (h.notifications_le (hc t ht hr hs.1))
      rw [← h.handedIn] at hle
      simpa [eventOf, Entry.handedIn] using hle
    · rw [hclock]
      exact h.past ts key t d (by simpa [hlog] using hmem)
    · simpa [hlog, hevents, Entry.handedSince, eventOf, List.countP_append] using h.count lo
  | @handed t ht hr hs =>
    refine ⟨?_, fun ts key t d hmem => ?_, fun lo => ?_⟩
    · rw [hlog]
      refine ⟨trivial, fun hsup => ?_, trivial, h.always⟩
      rcases transition_cases ht with rfl | rfl | rfl | rfl <;> cases hsup
    · rw [hclock]
      rw [hlog] at hmem
      simp only [List.cons_append, List.mem_cons, Entry.hand.injEq, List.nil_append] at hmem
      rcases hmem with ⟨rfl, -⟩ | hmem | hmem | hmem
      · exact le_rfl
      · cases hmem
      · cases hmem
      · exact h.past ts key t d hmem
    · have hcount := h.count lo
      simp only [hlog, hevents, Entry.handedSince, eventOf, List.countP_append, List.countP_cons,
        List.cons_append, List.nil_append, List.countP_nil]
      split
      · simp_all
      · simp_all
        omega

/-- Storm control only silences an alert after real messages. -/
structure SuppressesStorms (w : AlertWorld) : Prop where
  always : Always SuppressedAfterStorm w.log

/-- In every run in which storm control counts no row that was held back, an alert is
suppressed only after `STORM_MAX_NOTIFICATIONS` messages in the window before it. -/
theorem suppressed_after_storm (clock : Int) (ops : List AlertOp)
    (h : Along step CountsMessages (start clock) ops) :
    SuppressesStorms (run step (start clock) ops) := by
  have hearned : Earned (run step (start clock) ops) := by
    refine h.keeps (earned_start clock) (fun w op hw hc => ?_)
    rcases step_cases w op with ⟨_, o, ⟨payload, delivery, rfl, hread, hr⟩, hstep⟩ | ⟨-, hsilent⟩
    · rw [hstep]
      exact hw.apply (hc o (by simp [hread, Except.toOption]) hr)
    · exact hw.silent hsilent
  exact ⟨hearned.always⟩

/-- A storage warning about one of several volumes. -/
def storageWarning (subject : String) : AlertOp :=
  .observe { rule := "monitoring.storage", subject := subject, active := some true } { delivered := ["email"] }

def nineVolumes : List AlertOp :=
  ["v1", "v2", "v3", "v4", "v5", "v6", "v7", "v8", "v9"].map storageWarning

theorem suppressed_after_storm_nine_volumes :
    Along step CountsMessages (start 1000) nineVolumes ∧
      (∃ e ∈ (run step (start 1000) nineVolumes).events, e.transition = .suppressed) ∧
      SuppressesStorms (run step (start 1000) nineVolumes) :=
  have h : Along step CountsMessages (start 1000) nineVolumes := by decide +kernel
  ⟨h, by decide +kernel, suppressed_after_storm 1000 nineVolumes h⟩

/-- Eight addresses acted on, which is information and not sent, and then a site that is down. -/
def eightAddresses : List AlertOp :=
  (["a1", "a2", "a3", "a4", "a5", "a6", "a7", "a8"].map fun subject =>
    AlertOp.observe { rule := "security.hostile_ip", subject := subject } { delivered := ["email"] }) ++
  [AlertOp.observe { rule := "site.down", subject := "shop", active := some true, triggerDelay := some (some 0) }
    { delivered := ["email"] }]

instance (e : Entry) (older : List Entry) : Decidable (SuppressedAfterStorm e older) :=
  match e with
  | .record e => inferInstanceAs (Decidable (e.transition = .suppressed →
      stormMaxNotifications ≤ older.countP (Entry.handedIn (e.ts - stormWindowSeconds) e.ts)))
  | .report _ _ _ | .retire _ _ | .drop _ | .hand _ _ _ _ => inferInstanceAs (Decidable True)

instance (w : AlertWorld) : Decidable (SuppressesStorms w) :=
  decidable_of_iff (Always SuppressedAfterStorm w.log) ⟨.mk, (·.always)⟩

theorem suppressed_without_storm : ¬ ∀ clock ops, SuppressesStorms (run step (start clock) ops) := by
  intro h
  refine absurd (h 1000 eightAddresses) ?_
  decide +kernel

/-! ## The bound -/

/-- Steps that take no row from the history: nothing but the operator's own deletion and a sweep
that finds something to prune does. -/
def KeepsHistory (w : AlertWorld) : AlertOp → Prop
  | .sweep => pruneInterval ≤ w.sweepNow - w.lastPrune → w.events.Sublist w.sweep.events
  | .deleteHistory _ => False
  | _ => True

/-- No escalation goes out: whatever gets worse while it fires is held back or suppressed. -/
def SendsNoEscalation (w : AlertWorld) : AlertOp → Prop
  | .observe payload _ => ∀ o ∈ payload.read.toOption, o.retired = false →
    (w.advanceOf o).transition = some .escalated → w.reason o .escalated = none → w.storm .escalated w.clock
  | _ => True

/-- At most `STORM_MAX_NOTIFICATIONS` messages other than recoveries in any window. -/
structure StormBounded (w : AlertWorld) : Prop where
  bound : ∀ lo, w.log.countP (Entry.sentIn lo (lo + stormWindowSeconds)) ≤ stormMaxNotifications

/-- Messages stand for rows of the history. -/
structure Counted (w : AlertWorld) : Prop extends StormBounded w where
  past : ∀ ts key t d, Entry.hand ts key t d ∈ w.log → ts ≤ w.clock
  count : ∀ lo, w.log.countP (Entry.sentSince lo) ≤ w.notificationsSince lo

theorem counted_start (clock : Int) : Counted (start clock) where
  bound := fun _ => Nat.zero_le _
  past := fun _ _ _ _ h => absurd h List.not_mem_nil
  count := fun _ => le_rfl

theorem retire_events_sublist : w.events.Sublist (w.retire o).events := by
  unfold retire
  split
  · exact List.Sublist.refl _
  · split
    · exact List.Sublist.refl _
    · exact List.sublist_append_left _ _

theorem dismiss_events_sublist {key : AlertKey} {now : Int} :
    w.events.Sublist (w.dismiss key now).events := by
  unfold dismiss
  split
  · split
    · exact List.Sublist.refl _
    · exact List.sublist_append_left _ _
  · exact List.Sublist.refl _

theorem sweepRow_events_sublist {now : Int} {key : AlertKey} {row : AlertRow} :
    w.events.Sublist (w.sweepRow now key row).events := by
  generalize hsweep : w.sweepRow now key row = w'
  have h : Swept now w key row w' := hsweep ▸ swept
  cases h with
  | kept | dropped => exact List.Sublist.refl _
  | stale | expired => exact List.sublist_append_left _ _

theorem sweep_events_sublist (h : w.KeepsHistory .sweep) : w.events.Sublist w.sweep.events := by
  by_cases hdue : pruneInterval ≤ w.sweepNow - w.lastPrune
  · exact h hdue
  · exact sweep_keeps (P := fun v => w.events.Sublist v.events)
      (fun _ _ _ hv _ _ => hv.trans sweepRow_events_sublist) (fun hprune => absurd hprune hdue) (List.Sublist.refl _)

theorem events_sublist {op : AlertOp} (h : w.KeepsHistory op) : w.events.Sublist (w.step op).events := by
  cases op with
  | observe payload delivery =>
    simp only [step, observe]
    split
    · exact List.Sublist.refl _
    · split
      · exact retire_events_sublist
      · obtain ⟨_, events, _, _, -, -, hevents, -⟩ := apply_told w _ delivery
        rw [hevents]
        exact List.sublist_append_left _ _
  | quieten key mode waited =>
    simp only [step, quieten]
    split
    · exact List.Sublist.refl _
    · cases mode <;> exact List.Sublist.refl _
  | dismiss key waited => exact dismiss_events_sublist
  | sweep => exact sweep_events_sublist h
  | deleteHistory choice => exact h.elim
  | _ => exact List.Sublist.refl _

theorem Counted.silent (h : Counted w) (hs : Silent w w') (hevents : w.events.Sublist w'.events) :
    Counted w' := by
  obtain ⟨entries, hlog, hentries⟩ := hs.log
  have hnone : ∀ p : Entry → Bool, (∀ e, e.silent → p e = false) → entries.countP p = 0 := by
    intro p hp
    rw [List.countP_eq_zero]
    exact fun e he => by simp [hp e (hentries e he)]
  refine ⟨⟨fun lo => ?_⟩, fun ts key t d hmem => ?_, fun lo => ?_⟩
  · rw [hlog, List.countP_append, hnone _ (fun e he => by cases e <;> first | rfl | cases he), Nat.zero_add]
    exact h.bound lo
  · rw [hlog, List.mem_append] at hmem
    rcases hmem with hmem | hmem
    · exact absurd (hentries _ hmem) Bool.false_ne_true
    · exact (h.past ts key t d hmem).trans hs.clock
  · rw [hlog, List.countP_append, hnone _ (fun e he => by cases e <;> first | rfl | cases he), Nat.zero_add]
    exact (h.count lo).trans hevents.countP_le

/-- A message that passed storm control fits into every window it falls into. -/
theorem Counted.room (h : Counted w) {t : Transition} (ht : t ≠ .recovered) (hs : ¬ w.storm t w.clock)
    {lo : Int} (hhi : w.clock ≤ lo + stormWindowSeconds) :
    w.log.countP (Entry.sentIn lo (lo + stormWindowSeconds)) + 1 ≤ stormMaxNotifications := by
  have hfew : w.notificationsSince (w.clock - stormWindowSeconds) < stormMaxNotifications := by
    by_contra hmany
    exact hs ⟨ht, not_lt.mp hmany⟩
  have hwindow : w.log.countP (Entry.sentIn lo (lo + stormWindowSeconds)) ≤
      w.log.countP (Entry.sentSince (w.clock - stormWindowSeconds)) := by
    apply List.countP_mono_left
    intro e _ he
    cases e with
    | hand ts key t d =>
      simp only [Entry.sentIn, Entry.sentSince, Bool.and_eq_true, decide_eq_true_eq] at he ⊢
      exact ⟨he.1, by omega⟩
    | _ => cases he
  have hcount := h.count (w.clock - stormWindowSeconds)
  omega

theorem Counted.apply (h : Counted w)
    (hc : (w.advanceOf o).transition = some .escalated → w.reason o .escalated = none →
      w.storm .escalated w.clock) : Counted (w.apply o delivery) := by
  obtain ⟨entries, events, last, row, htold, hlog, hevents, -⟩ := apply_told w o delivery
  have hclock : (w.apply o delivery).clock = w.clock := apply_clock
  have hgrow : ∀ lo, w.notificationsSince lo ≤ (w.apply o delivery).notificationsSince lo := by
    intro lo
    rw [notificationsSince, notificationsSince, hevents]
    exact (List.sublist_append_left _ _).countP_le
  -- Without a message the log gains nothing that counts.
  have hquiet : (∀ lo, entries.countP (Entry.sentSince lo) = 0) → (∀ lo hi, entries.countP (Entry.sentIn lo hi) = 0) →
      (∀ ts key t d, Entry.hand ts key t d ∉ entries) → Counted (w.apply o delivery) := by
    intro hsince hin hno
    refine ⟨⟨fun lo => ?_⟩, fun ts key t d hmem => ?_, fun lo => ?_⟩
    · rw [hlog, List.countP_append, hin]
      simpa [Entry.sentIn] using h.bound lo
    · rw [hclock]
      rw [hlog, List.mem_append, List.mem_cons] at hmem
      rcases hmem with hmem | hmem | hmem
      · exact absurd hmem (hno ts key t d)
      · cases hmem
      · exact h.past ts key t d hmem
    · rw [hlog, List.countP_append, hsince]
      simpa [Entry.sentSince] using (h.count lo).trans (hgrow lo)
  cases htold with
  | silent ht => exact hquiet (by simp) (by simp) (by simp)
  | held ht hr => exact hquiet (by simp [Entry.sentSince]) (by simp [Entry.sentIn]) (by simp)
  | storm ht hr hs => exact hquiet (by simp [Entry.sentSince]) (by simp [Entry.sentIn]) (by simp)
  | @handed t ht hr hs =>
    have hcounted : t ≠ .recovered → t = .fired ∨ t = .repeated := by
      intro hne
      rcases transition_cases ht with rfl | rfl | rfl | rfl
      · exact Or.inl rfl
      · exact absurd (hc ht hr) hs
      · exact Or.inr rfl
      · exact absurd rfl hne
    refine ⟨⟨fun lo => ?_⟩, fun ts key t d hmem => ?_, fun lo => ?_⟩
    · have hbound := h.bound lo
      by_cases hin : t ≠ .recovered ∧ lo ≤ w.clock ∧ w.clock ≤ lo + stormWindowSeconds
      · simpa [hlog, Entry.sentIn, hin] using h.room hin.1 hs hin.2.2
      · simpa [hlog, Entry.sentIn, hin] using hbound
    · rw [hclock]
      rw [hlog] at hmem
      simp only [List.cons_append, List.mem_cons, Entry.hand.injEq, List.nil_append, reduceCtorEq,
        false_or] at hmem
      rcases hmem with ⟨rfl, -⟩ | hmem
      · exact le_rfl
      · exact h.past ts key t d hmem
    · by_cases hin : t ≠ .recovered ∧ lo ≤ w.clock
      · have hcount := h.count lo
        rw [notificationsSince] at hcount ⊢
        simpa [hlog, hevents, Entry.sentSince, eventOf, hin, hcounted hin.1] using hcount
      · have hsame : (w.apply o delivery).log.countP (Entry.sentSince lo) = w.log.countP (Entry.sentSince lo) := by
          simp [hlog, Entry.sentSince, hin]
        rw [hsame]
        exact (h.count lo).trans (hgrow lo)

/-- In every run in which no escalation goes out, no five minutes hold more than
`STORM_MAX_NOTIFICATIONS` messages. -/
theorem storm_bounded (clock : Int) (ops : List AlertOp)
    (h : Along step (fun w op => KeepsHistory w op ∧ SendsNoEscalation w op) (start clock) ops) :
    StormBounded (run step (start clock) ops) := by
  have hcounted : Counted (run step (start clock) ops) := by
    refine h.keeps (counted_start clock) (fun w op hw hc => ?_)
    rcases step_cases w op with ⟨_, o, ⟨payload, delivery, rfl, hread, hr⟩, hstep⟩ | ⟨-, hsilent⟩
    · rw [hstep]
      exact hw.apply (hc.2 o (by simp [hread, Except.toOption]) hr)
    · exact hw.silent hsilent (events_sublist hc.1)
  exact hcounted.toStormBounded

instance (w : AlertWorld) (op : AlertOp) : Decidable (KeepsHistory w op) :=
  match op with
  | .sweep => inferInstanceAs (Decidable (_ → _))
  | .deleteHistory _ => inferInstanceAs (Decidable False)
  | .observe _ _ | .tick _ | .beginSweep | .quieten _ _ _ | .dismiss _ _ | .configure _ =>
    inferInstanceAs (Decidable True)

instance (w : AlertWorld) (op : AlertOp) : Decidable (SendsNoEscalation w op) :=
  match op with
  | .observe payload _ =>
    inferInstanceAs (Decidable (∀ o ∈ payload.read.toOption, o.retired = false →
      (w.advanceOf o).transition = some .escalated → w.reason o .escalated = none →
        w.storm .escalated w.clock))
  | .tick _ | .beginSweep | .sweep | .quieten _ _ _ | .dismiss _ _ | .configure _ | .deleteHistory _ =>
    inferInstanceAs (Decidable True)

/-- After the first of them a sweep is due to prune and finds nothing old. -/
def sweptVolumes : List AlertOp :=
  [storageWarning "v1", .beginSweep, .sweep] ++
    ["v2", "v3", "v4", "v5", "v6", "v7", "v8", "v9"].map storageWarning

theorem storm_bounded_swept_volumes :
    Along step (fun w op => KeepsHistory w op ∧ SendsNoEscalation w op) (start 5000) sweptVolumes ∧
      (run step (start 5000) sweptVolumes).log.countP (Entry.sentIn 5000 5300) = 8 ∧
      StormBounded (run step (start 5000) sweptVolumes) :=
  have h : Along step (fun w op => KeepsHistory w op ∧ SendsNoEscalation w op) (start 5000) sweptVolumes := by
    decide +kernel
  ⟨h, by decide +kernel, storm_bounded 5000 sweptVolumes h⟩

/-- One site reported in turn as partly and as wholly down. -/
def flappingSite : List AlertOp :=
  (List.replicate 9 ["warning", "critical"]).flatten.map fun severity =>
    .observe
      { rule := "site.down", subject := "shop", active := some true, severity := severity,
        triggerDelay := some (some 0) }
      { delivered := ["email"] }

theorem storm_unbounded :
    ¬ ∀ clock ops, Along step KeepsHistory (start clock) ops → StormBounded (run step (start clock) ops) := by
  intro h
  refine absurd ((h 1000 flappingSite (by decide +kernel)).bound 1000) ?_
  decide +kernel

end AlertWorld

end EasyHaProxy.Alertd
