import EasyHaProxy.Lib.History
import EasyHaProxy.Alertd.Spec

/-! A level waits for its delay before it fires, recovers only when its producer says so, goes unconfirmed
once, and is repeated no sooner than its interval. -/
namespace EasyHaProxy.Alertd

open Machine History

/-! ## Reading the log -/

/-- Reported active at a time, and since then neither reported inactive nor retired nor
dropped. -/
def ActiveSince (key : AlertKey) (ts : Int) : List Entry → Prop
  | [] => False
  | .report t k active :: older =>
    if k = key then active = true ∧ (t = ts ∨ ActiveSince key ts older) else ActiveSince key ts older
  | .retire _ k :: older => k ≠ key ∧ ActiveSince key ts older
  | .drop k :: older => k ≠ key ∧ ActiveSince key ts older
  | .record _ :: older => ActiveSince key ts older
  | .hand _ _ _ _ :: older => ActiveSince key ts older

/-- STALE was recorded since the pair was last reported. -/
def staleUnreported (key : AlertKey) : List Entry → Bool
  | [] => false
  | .report _ k _ :: older => if k = key then false else staleUnreported key older
  | .record e :: older => (e.transition = .stale && e.key = key) || staleUnreported key older
  | .retire _ _ :: older => staleUnreported key older
  | .drop _ :: older => staleUnreported key older
  | .hand _ _ _ _ :: older => staleUnreported key older

/-- When messages of the pair were delivered since its row was last dropped. -/
def deliveredSinceDrop (key : AlertKey) : List Entry → List Int
  | [] => []
  | .drop k :: older => if k = key then [] else deliveredSinceDrop key older
  | .hand ts k _ delivered :: older =>
    if k = key ∧ delivered then ts :: deliveredSinceDrop key older else deliveredSinceDrop key older
  | .report _ _ _ :: older => deliveredSinceDrop key older
  | .retire _ _ :: older => deliveredSinceDrop key older
  | .record _ :: older => deliveredSinceDrop key older

/-- STALE comes at most once between two reports, EXPIRED only after it. -/
def StaleInOrder : Entry → List Entry → Prop
  | .record e, older =>
    (e.transition = .stale → staleUnreported e.key older = false) ∧
      (e.transition = .expired → staleUnreported e.key older = true)
  | _, _ => True

namespace AlertWorld

variable {w w' : AlertWorld} {key k : AlertKey} {row : AlertRow} {o : Observation} {delivery : Delivery}
  {now : Int}

section Told

variable {entries : List Entry} {events : List AlertEvent} {last : Int}

theorem Told.active (h : Told w o delivery entries events last) {ts : Int} {log : List Entry} :
    ActiveSince key ts (entries ++ log) ↔ ActiveSince key ts log := by
  cases h <;> simp [ActiveSince]

theorem Told.stale (h : Told w o delivery entries events last) {log : List Entry} :
    staleUnreported key (entries ++ log) = staleUnreported key log := by
  cases h with
  | silent ht => rfl
  | held ht hr => rcases transition_cases ht with rfl | rfl | rfl | rfl <;> simp [staleUnreported, eventOf]
  | storm ht hr hs => simp [staleUnreported, eventOf]
  | handed ht hr hs => rcases transition_cases ht with rfl | rfl | rfl | rfl <;> simp [staleUnreported, eventOf]

theorem Told.delivered_other (h : Told w o delivery entries events last) (hk : key ≠ o.key) {log : List Entry} :
    deliveredSinceDrop key (entries ++ log) = deliveredSinceDrop key log := by
  cases h <;> simp [deliveredSinceDrop, Ne.symm hk]

theorem Told.delivered (h : Told w o delivery entries events last) {log : List Entry}
    (hold : ∀ ts ∈ deliveredSinceDrop o.key log, ts ≤ w.lastNotified o.key)
    (hpast : w.lastNotified o.key ≤ w.clock) :
    ∀ ts ∈ deliveredSinceDrop o.key (entries ++ log), ts ≤ last := by
  cases h with
  | silent ht => exact hold
  | held ht hr => exact hold
  | storm ht hr hs => exact hold
  | handed ht hr hs =>
    intro ts hts
    cases hd : delivery.delivered.isEmpty with
    | true =>
      rw [hd] at hts
      exact hold ts (by simpa [deliveredSinceDrop] using hts)
    | false =>
      rw [hd] at hts
      simp only [deliveredSinceDrop, List.cons_append, List.nil_append, Bool.not_false, and_self, if_true,
        List.mem_cons] at hts
      rcases hts with rfl | hts
      · exact le_rfl
      · exact (hold ts hts).trans hpast

theorem Told.inOrder (h : Told w o delivery entries events last) {log : List Entry}
    (hlog : Always StaleInOrder log) : Always StaleInOrder (entries ++ log) := by
  refine hlog.append (fun e he older => ?_)
  have hno : ∀ event, e = .record event → event.transition ≠ .stale ∧ event.transition ≠ .expired := by
    rintro event rfl
    cases h with
    | silent ht => cases he
    | held ht hr =>
      obtain rfl : event = _ := by simpa using he
      rcases transition_cases ht with rfl | rfl | rfl | rfl <;> simp [eventOf]
    | storm ht hr hs =>
      obtain rfl : event = _ := by simpa using he
      simp [eventOf]
    | handed ht hr hs =>
      obtain rfl : event = _ := by simpa using he
      rcases transition_cases ht with rfl | rfl | rfl | rfl <;> simp [eventOf]
  cases e with
  | record event =>
    obtain ⟨hs, hx⟩ := hno event rfl
    exact ⟨fun h => absurd h hs, fun h => absurd h hx⟩
  | _ => trivial

end Told

/-! ## The invariant -/

/-- Two logs that say the same of a pair. -/
structure SameFor (key : AlertKey) (log log' : List Entry) : Prop where
  active : ∀ ts, ActiveSince key ts log → ActiveSince key ts log'
  stale : staleUnreported key log' = staleUnreported key log
  delivered : deliveredSinceDrop key log' = deliveredSinceDrop key log

namespace SameFor

variable {log log' log'' : List Entry} {event : AlertEvent}

theorem refl (key : AlertKey) (log : List Entry) : SameFor key log log := ⟨fun _ h => h, rfl, rfl⟩

theorem trans (h : SameFor key log log') (h' : SameFor key log' log'') : SameFor key log log'' :=
  ⟨fun ts hts => h'.active ts (h.active ts hts), h'.stale.trans h.stale, h'.delivered.trans h.delivered⟩

theorem drop (h : k ≠ key) : SameFor key log (.drop k :: log) :=
  ⟨fun _ hts => ⟨h, hts⟩, rfl, by simp [deliveredSinceDrop, h]⟩

theorem retire {ts : Int} (h : k ≠ key) : SameFor key log (.retire ts k :: log) :=
  ⟨fun _ hts => ⟨h, hts⟩, rfl, rfl⟩

theorem report {ts : Int} {active : Bool} (h : k ≠ key) : SameFor key log (.report ts k active :: log) :=
  ⟨fun _ hts => by simpa [ActiveSince, h] using hts, by simp [staleUnreported, h], rfl⟩

theorem record (h : event.transition = .stale → event.key ≠ key) : SameFor key log (.record event :: log) := by
  refine ⟨fun _ hts => hts, ?_, rfl⟩
  by_cases hs : event.transition = .stale <;> simp [staleUnreported, hs, h]

theorem told {entries : List Entry} {events : List AlertEvent} {last : Int}
    (h : Told w o delivery entries events last) (hk : key ≠ o.key) : SameFor key log (entries ++ log) :=
  ⟨fun _ hts => h.active.mpr hts, h.stale, h.delivered_other hk⟩

end SameFor

/-- What a row says is what the log says of its pair. -/
structure RowLawful (w : AlertWorld) (key : AlertKey) (row : AlertRow) : Prop where
  pending : row.state = .pending → ActiveSince key row.since w.log
  stale : row.staleSince ≠ 0 ↔ staleUnreported key w.log = true
  notified : ∀ ts ∈ deliveredSinceDrop key w.log, ts ≤ row.lastNotified
  past : row.lastNotified ≤ w.clock

structure Lawful (w : AlertWorld) : Prop where
  rows : ∀ key row, w.rows.get? key = some row → RowLawful w key row
  absent : ∀ key, w.rows.get? key = none → deliveredSinceDrop key w.log = []
  order : Always StaleInOrder w.log
  clock : 0 < w.clock
  sweepNow : 0 < w.sweepNow

theorem RowLawful.same (h : RowLawful w key row) (hs : SameFor key w.log w'.log) (hc : w.clock ≤ w'.clock) :
    RowLawful w' key row where
  pending := fun hp => hs.active _ (h.pending hp)
  stale := by rw [hs.stale]; exact h.stale
  notified := by rw [hs.delivered]; exact h.notified
  past := h.past.trans hc

/-- Rows that go, and entries that concern only the pairs they belonged to. -/
theorem Lawful.of_rows (h : Lawful w) (hclock : w.clock ≤ w'.clock) (hsweep : 0 < w'.sweepNow)
    (horder : Always StaleInOrder w'.log)
    (hrows : ∀ key row, w'.rows.get? key = some row → ∃ old, w.rows.get? key = some old ∧
      row.state = old.state ∧ row.since = old.since ∧ row.staleSince = old.staleSince ∧
      row.lastNotified = old.lastNotified ∧ SameFor key w.log w'.log)
    (habsent : ∀ key, w'.rows.get? key = none → deliveredSinceDrop key w'.log = []) : Lawful w' := by
  refine ⟨fun key row hget => ?_, habsent, horder, lt_of_lt_of_le h.clock hclock, hsweep⟩
  obtain ⟨old, hold, hstate, hsince, hstale, hlast, hsame⟩ := hrows key row hget
  have hl := (h.rows key old hold).same hsame hclock
  exact ⟨by rw [hstate, hsince]; exact hl.pending, by rw [hstale]; exact hl.stale,
    by rw [hlast]; exact hl.notified, by rw [hlast]; exact hl.past⟩

theorem Lawful.dropState (h : Lawful w) : Lawful (w.dropState key) := by
  refine h.of_rows le_rfl h.sweepNow ⟨trivial, h.order⟩ (fun k row hget => ?_) (fun k hget => ?_)
  · rw [get?_dropState] at hget
    split at hget
    · cases hget
    · rename_i hk
      exact ⟨row, hget, rfl, rfl, rfl, rfl, .drop (Ne.symm hk)⟩
  · rw [get?_dropState] at hget
    by_cases hk : k = key
    · simp [AlertWorld.dropState, deliveredSinceDrop, hk]
    · rw [if_neg hk] at hget
      simpa [AlertWorld.dropState, deliveredSinceDrop, Ne.symm hk] using h.absent k hget

theorem Lawful.addEvent {event : AlertEvent} (h : Lawful w) (hs : event.transition ≠ .stale)
    (hx : event.transition = .expired → staleUnreported event.key w.log = true) : Lawful (w.addEvent event) := by
  refine h.of_rows le_rfl h.sweepNow ⟨⟨fun he => absurd he hs, hx⟩, h.order⟩ (fun k row hget => ?_)
    (fun k hget => h.absent k hget)
  exact ⟨row, hget, rfl, rfl, rfl, rfl, .record (fun he => absurd he hs)⟩

/-- A row is marked as unconfirmed the first time nobody reports it. -/
theorem Lawful.markStale (h : Lawful w) (hget : w.rows.get? key = some row) (h0 : row.staleSince = 0) :
    Lawful ((w.markStale key w.sweepNow).addEvent (sweepEvent w.sweepNow key row .stale)) := by
  have hnone : staleUnreported key w.log = false := by
    have := (h.rows key row hget).stale
    simpa [h0] using this
  refine ⟨fun k r hr => ?_, fun k hk => ?_, ⟨⟨fun _ => hnone, by simp [sweepEvent]⟩, h.order⟩, h.clock, h.sweepNow⟩
  · rw [addEvent_rows, get?_markStale] at hr
    split at hr
    · rename_i hk
      subst hk
      obtain rfl : { row with staleSince := w.sweepNow } = r := by simpa [hget] using hr
      have hl := h.rows k row hget
      refine ⟨hl.pending, ?_, hl.notified, hl.past⟩
      have := h.sweepNow
      simp [AlertWorld.addEvent, staleUnreported, sweepEvent]
      omega
    · rename_i hk
      exact (h.rows k r hr).same (.record (fun _ => Ne.symm hk)) le_rfl
  · rw [addEvent_rows, get?_markStale] at hk
    split at hk
    · rename_i heq
      subst heq
      simp [hget] at hk
    · exact h.absent k hk

theorem Lawful.sweepRow (h : Lawful w) (hget : w.rows.get? key = some row) :
    Lawful (w.sweepRow w.sweepNow key row) := by
  generalize hsweep : w.sweepRow w.sweepNow key row = w'
  have hs : Swept w.sweepNow w key row w' := hsweep ▸ swept
  cases hs with
  | kept => exact h
  | dropped => exact h.dropState
  | stale h0 => exact h.markStale hget h0
  | expired _ h0 =>
    have htrue := (h.rows key row hget).stale.mp h0
    exact h.dropState.addEvent (by simp [sweepEvent]) (fun _ => htrue)

theorem sameFor_drops {keys : List AlertKey} {log : List Entry} (h : key ∉ keys) :
    SameFor key log (keys.map Entry.drop ++ log) := by
  induction keys with
  | nil => exact .refl key log
  | cons k keys ih =>
    rw [List.mem_cons, not_or] at h
    exact (ih h.2).trans (.drop (Ne.symm h.1))

theorem delivered_drops {keys : List AlertKey} {log : List Entry}
    (h : key ∈ keys ∨ deliveredSinceDrop key log = []) :
    deliveredSinceDrop key (keys.map Entry.drop ++ log) = [] := by
  induction keys with
  | nil => simpa using h
  | cons k keys ih =>
    rw [List.map_cons, List.cons_append, deliveredSinceDrop]
    split
    · rfl
    · rename_i hk
      refine ih (h.imp_left fun hmem => ?_)
      exact (List.mem_cons.mp hmem).resolve_left (Ne.symm hk)

theorem Lawful.prune (h : Lawful w) (ts : Int) : Lawful { w.prune with lastPrune := ts } := by
  refine h.of_rows le_rfl h.sweepNow (h.order.append fun e he older => ?_) (fun k row hget => ?_)
    (fun k hget => ?_)
  · obtain ⟨key, -, rfl⟩ := List.mem_map.mp he
    trivial
  · have hkept : w.prunedRows.get? k = some row := hget
    refine ⟨row, prunedRows_some hkept, rfl, rfl, rfl, rfl, sameFor_drops ?_⟩
    simp [List.mem_filter, Dict.contains, hkept]
  · have hgone : w.prunedRows.get? k = none := hget
    refine delivered_drops ?_
    cases hold : w.rows.get? k with
    | none => exact Or.inr (h.absent k hold)
    | some row =>
      refine Or.inl (List.mem_filter.mpr ⟨Dict.mem_keys.mpr (by simp [hold]), ?_⟩)
      simp [Dict.contains, hgone]

theorem Lawful.sweep (h : Lawful w) : Lawful w.sweep :=
  sweep_keeps (fun _ _ _ hw hget _ => hw.sweepRow hget) (fun _ _ ts hw => hw.prune ts) h

theorem Lawful.setQuiet {ack muted : Int} (h : Lawful w) : Lawful (w.setQuiet key ack muted) := by
  refine h.of_rows le_rfl h.sweepNow h.order (fun k row hget => ?_) (fun k hget => ?_)
  · simp only [AlertWorld.setQuiet, Dict.get?_modify] at hget
    split at hget
    · obtain ⟨old, hold, rfl⟩ := Option.map_eq_some_iff.mp hget
      exact ⟨old, hold, rfl, rfl, rfl, rfl, .refl _ _⟩
    · exact ⟨row, hget, rfl, rfl, rfl, rfl, .refl _ _⟩
  · simp only [AlertWorld.setQuiet, Dict.get?_modify] at hget
    split at hget
    · exact h.absent k (Option.map_eq_none_iff.mp hget)
    · exact h.absent k hget

theorem Lawful.quieten {mode : QuietMode} (h : Lawful w) : Lawful (w.quieten key mode now) := by
  unfold AlertWorld.quieten
  split
  · exact h
  · cases mode <;> exact h.setQuiet

theorem Lawful.dismiss (h : Lawful w) : Lawful (w.dismiss key now) := by
  unfold AlertWorld.dismiss
  split
  · split
    · exact h
    · exact h.dropState.addEvent (by simp) (by simp)
  · exact h

/-- Taken down as retired, a pair without an open row is as it was. -/
theorem Lawful.retireClosed (h : Lawful w) (hok : ∀ row, w.rows.get? key = some row → row.state = .ok) :
    Lawful { w with log := .retire now key :: w.log } := by
  refine ⟨fun k row hget => ?_, h.absent, ⟨trivial, h.order⟩, h.clock, h.sweepNow⟩
  have hl := h.rows k row hget
  by_cases hk : k = key
  · subst hk
    exact ⟨fun hp => absurd (hok row hget) (by simp [hp]), hl.stale, hl.notified, hl.past⟩
  · exact hl.same (.retire (Ne.symm hk)) le_rfl

theorem Lawful.retireOpen (h : Lawful w) :
    Lawful (AlertWorld.dropState { w with log := .retire now key :: w.log } key) := by
  refine h.of_rows le_rfl h.sweepNow ⟨trivial, trivial, h.order⟩ (fun k row hget => ?_) (fun k hget => ?_)
  · rw [get?_dropState] at hget
    split at hget
    · cases hget
    · rename_i hk
      have hlog : SameFor k w.log (.drop key :: .retire now key :: w.log) :=
        (SameFor.retire (Ne.symm hk)).trans (.drop (Ne.symm hk))
      exact ⟨row, hget, rfl, rfl, rfl, rfl, hlog⟩
  · rw [get?_dropState] at hget
    by_cases hk : k = key
    · simp [AlertWorld.dropState, deliveredSinceDrop, hk]
    · rw [if_neg hk] at hget
      simpa [AlertWorld.dropState, deliveredSinceDrop, Ne.symm hk] using h.absent k hget

theorem Lawful.retire (h : Lawful w) : Lawful (w.retire o) := by
  unfold AlertWorld.retire
  cases hget : w.rows.get? o.key with
  | none => exact h.retireClosed (fun row hrow => by rw [hget] at hrow; cases hrow)
  | some row =>
    simp only
    split
    · rename_i hok
      refine h.retireClosed (fun row' hrow => ?_)
      rw [hget] at hrow
      cases hrow
      exact hok
    · exact h.retireOpen.addEvent (by simp) (by simp)

theorem activeSince_of_pending (h : Lawful w) (hp : (w.advanceOf o).state = .pending) :
    ActiveSince o.key (w.advanceOf o).since (.report w.clock o.key o.active :: w.log) := by
  have hadv := advances_of w o
  rw [hp] at hadv
  generalize (w.advanceOf o).transition = t at hadv
  generalize (w.advanceOf o).since = since at hadv ⊢
  simp only [ActiveSince, if_true]
  cases hadv with
  | begins ha hs hd => exact ⟨ha, Or.inl rfl⟩
  | waits ha hs hd =>
    refine ⟨ha, Or.inr ?_⟩
    cases hget : w.rows.get? o.key with
    | none => simp [hget, stateOf] at hs
    | some row =>
      have hrow : row.state = .pending := by simpa [hget, stateOf] using hs
      simpa [sinceOf] using (h.rows o.key row hget).pending hrow

theorem Lawful.lastNotified (h : Lawful w) (key : AlertKey) :
    (∀ ts ∈ deliveredSinceDrop key w.log, ts ≤ w.lastNotified key) ∧ w.lastNotified key ≤ w.clock := by
  unfold AlertWorld.lastNotified
  cases hget : w.rows.get? key with
  | none => exact ⟨by simp [h.absent key hget], by simpa using le_of_lt h.clock⟩
  | some row => exact ⟨(h.rows key row hget).notified, (h.rows key row hget).past⟩

theorem Lawful.apply (h : Lawful w) : Lawful (w.apply o delivery) := by
  obtain ⟨entries, events, last, row, htold, hlog, hevents, hget, hrep, hlast⟩ :=
    apply_told w o delivery
  obtain ⟨rows', events', log', heq⟩ := apply_eq w o delivery
  have hclock : (w.apply o delivery).clock = w.clock := apply_clock
  have hsweep : (w.apply o delivery).sweepNow = w.sweepNow := by rw [heq]
  have hother : ∀ k, k ≠ o.key → SameFor k w.log (w.apply o delivery).log := by
    intro k hk
    rw [hlog]
    exact (SameFor.report (Ne.symm hk)).trans (.told htold hk)
  refine ⟨fun k r hr => ?_, fun k hk => ?_, ?_, hclock ▸ h.clock, hsweep ▸ h.sweepNow⟩
  · by_cases hk : k = o.key
    · subst hk
      obtain rfl : row = r := by
        rw [hget] at hr
        exact Option.some.inj hr
      refine ⟨fun hp => ?_, ?_, ?_, ?_⟩
      · rw [hlog, htold.active, hrep.since]
        exact activeSince_of_pending h (hrep.state ▸ hp)
      · rw [hlog, htold.stale]
        simp [staleUnreported, hrep.staleSince]
      · rw [hlog, hlast]
        exact htold.delivered (h.lastNotified _).1 (h.lastNotified _).2
      · rw [hclock, hlast]
        cases htold with
        | handed => split <;> [exact (h.lastNotified _).2; exact le_rfl]
        | _ => exact (h.lastNotified _).2
    · rw [apply_other hk] at hr
      exact (h.rows k r hr).same (hother k hk) (le_of_eq hclock.symm)
  · by_cases hkey : k = o.key
    · subst hkey
      rw [hget] at hk
      cases hk
    · rw [apply_other hkey] at hk
      rw [(hother k hkey).delivered]
      exact h.absent k hk
  · rw [hlog]
    exact htold.inOrder ⟨trivial, h.order⟩

theorem Lawful.step (h : Lawful w) (op : AlertOp) : Lawful (w.step op) := by
  have hsame : ∀ w' : AlertWorld, w'.rows = w.rows → w'.log = w.log → w.clock ≤ w'.clock → 0 < w'.sweepNow →
      Lawful w' := by
    intro w' hrows hlog hclock hsweep
    refine h.of_rows hclock hsweep (hlog ▸ h.order) (fun k row hget => ?_) (fun k hget => ?_)
    · exact ⟨row, hrows ▸ hget, rfl, rfl, rfl, rfl, hlog ▸ .refl _ _⟩
    · rw [hlog]
      exact h.absent k (hrows ▸ hget)
  cases op with
  | tick seconds => exact hsame _ rfl rfl (by simp only [AlertWorld.step]; omega) h.sweepNow
  | observe payload delivery =>
    simp only [AlertWorld.step, observe]
    split
    · exact h
    · split
      · exact h.retire
      · exact h.apply
  | beginSweep => exact hsame _ rfl rfl le_rfl h.clock
  | sweep => exact h.sweep
  | quieten key mode waited => exact h.quieten
  | dismiss key waited => exact h.dismiss
  | configure config => exact hsame _ rfl rfl le_rfl h.sweepNow
  | deleteHistory choice => cases choice <;> exact hsame _ rfl rfl le_rfl h.sweepNow

/-! ## What every step of a run does -/

/-- A level enters FIRING only on an active report, its delay after an active report that
nothing has ended since. -/
def FiresOnDelay (w : AlertWorld) (op : AlertOp) : Prop :=
  ∀ key rule, rulesByName key.1 = some rule → rule.kind = .level →
    stateOf (w.rows.get? key) ≠ .firing → stateOf ((w.step op).rows.get? key) = .firing →
    ∃ o, Reports op o ∧ o.key = key ∧ o.active = true ∧
      ∃ ts, ActiveSince key ts (w.step op).log ∧ w.delayOf o ≤ w.clock - ts

def RecoversOnReport (w : AlertWorld) (op : AlertOp) : Prop :=
  ∀ entries, (w.step op).log = entries ++ w.log → ∀ e, .record e ∈ entries → e.transition = .recovered →
    ∃ o, Reports op o ∧ o.key = e.key ∧ o.active = false ∧ o.rule.kind = .level ∧
      stateOf (w.rows.get? e.key) = .firing

/-- A REPEATED transition finds every message delivered since the row was last dropped at least
the repeat interval old. -/
def RepeatsOnInterval (w : AlertWorld) (op : AlertOp) : Prop :=
  ∀ o, Reports op o → (w.advanceOf o).transition = some .repeated →
    ∀ ts ∈ deliveredSinceDrop o.key w.log, (w.config.settingsFor o.rule).repeatAfter ≤ w.clock - ts

/-- A report that leaves the pair OK leaves no acknowledgement. -/
def ClearsAcknowledgement (w : AlertWorld) (op : AlertOp) : Prop :=
  ∀ o, Reports op o → stateOf ((w.step op).rows.get? o.key) = .ok → (w.step op).acknowledgedTs o.key = 0

theorem Reports.unique {op : AlertOp} {o o' : Observation} (h : Reports op o) (h' : Reports op o') : o = o' := by
  obtain ⟨payload, delivery, rfl, hread, -⟩ := h
  obtain ⟨_, _, hop, hread', -⟩ := h'
  cases hop
  rw [hread] at hread'
  exact Except.ok.inj hread'

theorem firesOnDelay (h : Lawful w) (op : AlertOp) : FiresOnDelay w op := by
  intro key rule _ _ hbefore hafter
  rcases step_cases w op with ⟨delivery, o, hrep, hstep⟩ | ⟨hno, -⟩
  · by_cases hk : key = o.key
    · subst hk
      obtain ⟨entries, events, last, row, htold, hlog, -, hget, hrow, -⟩ :=
        apply_told w o delivery
      have hstate : (w.advanceOf o).state = .firing := by
        rw [hstep, hget] at hafter
        rw [← hrow.state]
        simpa [stateOf] using hafter
      have hadv := advances_of w o
      rw [hstate] at hadv
      generalize (w.advanceOf o).since = since at hadv
      generalize (w.advanceOf o).transition = t at hadv
      refine ⟨o, hrep, rfl, ?_⟩
      rw [hstep, hlog]
      simp only [htold.active, ActiveSince, if_true]
      cases hadv with
      | firedAtOnce ha hs hd => exact ⟨ha, w.clock, ⟨ha, Or.inl rfl⟩, by omega⟩
      | fired ha hs hd =>
        cases hold : w.rows.get? o.key with
        | none => simp [hold, stateOf] at hs
        | some old =>
          have hpending : old.state = .pending := by simpa [hold, stateOf] using hs
          have hsince := (h.rows o.key old hold).pending hpending
          refine ⟨ha, old.since, ⟨ha, Or.inr hsince⟩, ?_⟩
          simpa [hold, sinceOf] using hd
      | escalated ha hs => exact absurd hs hbefore
      | repeated ha hs => exact absurd hs hbefore
      | holds ha hs => exact absurd hs hbefore
    · rw [hstep, apply_other hk] at hafter
      exact absurd hafter hbefore
  · cases hget : (w.step op).rows.get? key with
    | none => simp [hget, stateOf] at hafter
    | some row =>
      obtain ⟨old, hold, hstate, -⟩ := rows_of_silent hno hget
      have hfiring : row.state = .firing := by simpa [hget, stateOf] using hafter
      exact absurd (by simp [hold, stateOf, ← hstate, hfiring]) hbefore

theorem recoversOnReport (w : AlertWorld) (op : AlertOp) : RecoversOnReport w op := by
  intro entries hlog e he ht
  rcases step_cases w op with ⟨delivery, o, hrep, hstep⟩ | ⟨-, hsilent⟩
  · obtain ⟨told, events, last, row, htold, hlog', -⟩ := apply_told w o delivery
    have hentries : entries = told ++ [Entry.report w.clock o.key o.active] := by
      rw [hstep, hlog'] at hlog
      have hcancel : entries ++ w.log = (told ++ [Entry.report w.clock o.key o.active]) ++ w.log := by
        simpa using hlog.symm
      exact List.append_cancel_right hcancel
    have hrecovered : (w.advanceOf o).transition = some .recovered ∧ e.key = o.key := by
      rw [hentries] at he
      cases htold with
      | silent h => simp at he
      | held h =>
        obtain rfl : e = _ := by simpa using he
        exact ⟨h.trans (congrArg some ht), rfl⟩
      | storm h =>
        obtain rfl : e = _ := by simpa using he
        cases ht
      | handed h =>
        obtain rfl : e = _ := by simpa using he
        exact ⟨h.trans (congrArg some ht), rfl⟩
    obtain ⟨htrans, hkey⟩ := hrecovered
    have hadv := advances_of w o
    rw [htrans] at hadv
    generalize (w.advanceOf o).state = state at hadv
    generalize (w.advanceOf o).since = since at hadv
    cases hadv with
    | recovered ha hs =>
      obtain ⟨_, _, -, hread, -⟩ := id hrep
      exact ⟨o, hrep, hkey.symm, ha, (Payload.read_ok hread).2 ha, hkey ▸ hs⟩
  · obtain ⟨quiet, hquiet, hall⟩ := hsilent.log
    obtain rfl : entries = quiet := by
      rw [hquiet] at hlog
      simpa using hlog.symm
    exact absurd (hall _ he) (by simp [Entry.silent, ht, Transition.silent])

theorem repeatsOnInterval (h : Lawful w) (op : AlertOp) : RepeatsOnInterval w op := by
  intro o _ ht ts hts
  have hadv := advances_of w o
  rw [ht] at hadv
  generalize (w.advanceOf o).state = state at hadv
  generalize (w.advanceOf o).since = since at hadv
  cases hadv with
  | repeated ha hs hold =>
    have hle := (h.lastNotified o.key).1 ts hts
    rw [AlertWorld.lastNotified] at hle
    omega

theorem clearsAcknowledgement (w : AlertWorld) (op : AlertOp) : ClearsAcknowledgement w op := by
  intro o hrep hok
  rcases step_cases w op with ⟨delivery, o', hrep', hstep⟩ | ⟨hno, -⟩
  · obtain rfl := hrep.unique hrep'
    obtain ⟨entries, events, last, row, -, -, -, hget, hrow, -⟩ :=
      apply_told w o delivery
    rw [hstep] at hok ⊢
    have hstate : row.state = .ok := by simpa [hget, stateOf] using hok
    simp [AlertWorld.acknowledgedTs, hget, hrow.acknowledged, hstate]
  · exact absurd hrep (hno o)

structure Disciplined (w : AlertWorld) (op : AlertOp) : Prop where
  fires : FiresOnDelay w op
  recovers : RecoversOnReport w op
  repeats : RepeatsOnInterval w op
  clears : ClearsAcknowledgement w op

structure StaleOrdered (w : AlertWorld) : Prop where
  order : Always StaleInOrder w.log

theorem lawful_start {clock : Int} (h : 0 < clock) : Lawful (start clock) :=
  ⟨fun _ _ hget => (by cases hget), fun _ _ => rfl, trivial, h, h⟩

/-- The alert state machine, over every run with a clock past the epoch. -/
theorem alerts_live_in_order (clock : Int) (hclock : 0 < clock) (ops : List AlertOp) :
    Along step Disciplined (start clock) ops ∧ StaleOrdered (run step (start clock) ops) := by
  refine ⟨Along.of_invariant (I := Lawful) (lawful_start hclock) (fun _ op h => h.step op) (fun w op h => ?_), ?_⟩
  · exact ⟨firesOnDelay h op, recoversOnReport w op, repeatsOnInterval h op, clearsAcknowledgement w op⟩
  · have hall : Along step (fun _ _ => True) (start clock) ops :=
      Along.of_invariant (I := fun _ => True) trivial (fun _ _ _ => trivial) (fun _ _ _ => trivial)
    have hlawful : Lawful (run step (start clock) ops) :=
      hall.keeps (lawful_start hclock) (fun _ op h _ => h.step op)
    exact ⟨hlawful.order⟩

end AlertWorld

/-- When messages of the pair were delivered, drops or not. -/
def deliveredTo (key : AlertKey) (log : List Entry) : List Int :=
  log.filterMap fun e =>
    match e with
    | .hand ts k _ delivered => if k = key ∧ delivered then some ts else none
    | _ => none

namespace AlertWorld

/-- As `RepeatsOnInterval`, but of every message the pair ever had. -/
def RepeatsOnIntervalOfPair (w : AlertWorld) : AlertOp → Prop
  | .observe payload _ => ∀ o ∈ payload.read.toOption, o.retired = false →
    (w.advanceOf o).transition = some .repeated →
      ∀ ts ∈ deliveredTo o.key w.log, (w.config.settingsFor o.rule).repeatAfter ≤ w.clock - ts
  | _ => True

instance (w : AlertWorld) (op : AlertOp) : Decidable (RepeatsOnIntervalOfPair w op) :=
  match op with
  | .observe payload _ =>
    inferInstanceAs (Decidable (∀ o ∈ payload.read.toOption, o.retired = false →
      (w.advanceOf o).transition = some .repeated →
        ∀ ts ∈ deliveredTo o.key w.log, (w.config.settingsFor o.rule).repeatAfter ≤ w.clock - ts))
  | .tick _ | .beginSweep | .sweep | .quieten _ _ _ | .dismiss _ _ | .configure _ | .deleteHistory _ =>
    inferInstanceAs (Decidable True)

def burst (delivered : List String) : AlertOp :=
  .observe { rule := "security.burst", subject := "gateway" } { delivered := delivered }

/-- A burst is mailed and cleared after an hour; the mail about the next one fails, and a third
report repeats it. -/
def mailFails : List AlertOp :=
  [burst ["email"], .tick 3600, .beginSweep, .sweep, burst [], burst ["email"]]

theorem alerts_live_in_order_mail_fails :
    (0 : Int) < 100000 ∧ Along step Disciplined (start 100000) mailFails ∧
      StaleOrdered (run step (start 100000) mailFails) :=
  ⟨by decide, alerts_live_in_order 100000 (by decide) mailFails⟩

theorem repeated_too_soon :
    ¬ ∀ clock ops, 0 < clock → Along step RepeatsOnIntervalOfPair (start clock) ops := by
  refine not_forall.mpr ⟨100000, not_forall.mpr ⟨mailFails, ?_⟩⟩
  decide +kernel

end AlertWorld

end EasyHaProxy.Alertd
