import EasyHaProxy.Alertd.Spec
import Mathlib.Data.List.Perm.Subperm

/-! A mute is a column of the alert's own row. It outlives every report, recoveries included, and goes with
the row: when the sweep closes it, when it is pruned, when its object is retired. -/
namespace EasyHaProxy.Alertd

open Machine

/-- The newest `n` of a list hold whatever has at most `n` entries not older than it. -/
theorem mem_take_of_countP_le {α : Type} {f : α → Int} {l : List α} {x : α} {n : Nat}
    (hs : l.Pairwise (fun a b => f b ≤ f a)) (hx : x ∈ l) (hn : l.countP (fun a => f x ≤ f a) ≤ n) :
    x ∈ l.take n := by
  by_contra hout
  have hdrop : x ∈ l.drop n := by
    rw [← List.take_append_drop n l, List.mem_append] at hx
    exact hx.resolve_left hout
  have hlen : n < l.length := by
    by_contra hle
    rw [List.drop_eq_nil_of_le (not_lt.mp hle)] at hdrop
    cases hdrop
  have hbefore : ∀ a ∈ l.take n, f x ≤ f a := by
    rw [← List.take_append_drop n l, List.pairwise_append] at hs
    exact fun a ha => hs.2.2 a ha x hdrop
  have htake : (l.take n).countP (fun a => f x ≤ f a) = n := by
    rw [List.countP_eq_length.mpr (by simpa using hbefore), List.length_take, min_eq_left hlen.le]
  have hone : 0 < (l.drop n).countP (fun a => f x ≤ f a) :=
    List.countP_pos_iff.mpr ⟨x, hdrop, by simp⟩
  rw [← List.take_append_drop n l, List.countP_append, htake] at hn
  omega

namespace AlertWorld

variable {w v : AlertWorld} {key : AlertKey} {row : AlertRow} {m : Int} {o : Observation}
  {delivery : Delivery} {ops : List AlertOp}

/-- The operator neither sets the pair's mute again nor dismisses it. -/
def LeavesMute (key : AlertKey) : AlertOp → Prop
  | .quieten k _ _ => k ≠ key
  | .dismiss k _ => k ≠ key
  | _ => True

/-- Pruning now would keep a row: it is not resolved and old, and no more than
`MAX_STATE_ROWS` rows were seen as lately. -/
def OutlivesPrune (w : AlertWorld) (row : AlertRow) : Prop :=
  ¬ (row.state = .ok ∧ row.lastSeen < w.clock - retentionDays * 86400) ∧
    w.rows.entries.countP (fun e => row.lastSeen ≤ e.2.lastSeen) ≤ maxStateRows

/-- The step leaves the pair its row: a sweep does not close it, a pruning keeps it, and its
object is not retired while it is open. -/
def KeepsRow (key : AlertKey) (w : AlertWorld) : AlertOp → Prop
  | .sweep => ∀ row ∈ w.rows.get? key, (row.state ≠ .ok → closes w.sweepNow key row = false) ∧
    (pruneInterval ≤ w.sweepNow - w.lastPrune → w.OutlivesPrune row)
  | .observe payload _ => ∀ o ∈ payload.read.toOption, o.retired = true → o.key = key →
    ∀ row ∈ w.rows.get? key, row.state = .ok
  | _ => True

def Muted (key : AlertKey) (m : Int) (w : AlertWorld) : Prop :=
  ∃ row, w.rows.get? key = some row ∧ row.mutedUntil = m

/-- Rows of the later world are no more than those of the earlier. -/
theorem Shrinks.countP_le (h : Shrinks w v) (t : Int) :
    v.rows.entries.countP (fun e => t ≤ e.2.lastSeen) ≤ w.rows.entries.countP (fun e => t ≤ e.2.lastSeen) := by
  rw [List.countP_eq_length_filter, List.countP_eq_length_filter,
    ← List.length_map (f := Prod.fst), ← @List.length_map _ _ (w.rows.entries.filter _) Prod.fst]
  refine (List.Nodup.subperm (v.rows.keys_filter_nodup _) ?_).length_le
  intro k hk
  obtain ⟨⟨k', row⟩, hmem, rfl⟩ := List.mem_map.mp hk
  obtain ⟨hentry, hseen⟩ := List.mem_filter.mp hmem
  obtain ⟨old, hold, -, -, hlast⟩ := h k' row (Dict.mem_entries.mp hentry)
  refine List.mem_map.mpr ⟨(k', old), List.mem_filter.mpr ⟨Dict.mem_entries.mpr hold, ?_⟩, rfl⟩
  simpa [hlast] using hseen

theorem prunedRows_get? (hget : w.rows.get? key = some row) (h : w.OutlivesPrune row) :
    w.prunedRows.get? key = some row := by
  obtain ⟨hstays, hfew⟩ := h
  simp only [prunedRows]
  set rows := w.rows.filter
    (fun _ row => ¬ (row.state = .ok ∧ row.lastSeen < w.clock - retentionDays * 86400)) with hrows
  have hrow : rows.get? key = some row := by
    rw [hrows, Dict.get?_filter, hget, Option.filter_eq_some_iff]
    exact ⟨rfl, by simpa only [decide_eq_true_eq] using hstays⟩
  have hsorted : (rows.entries.mergeSort (fun a b => b.2.lastSeen ≤ a.2.lastSeen)).Pairwise
      (fun a b => b.2.lastSeen ≤ a.2.lastSeen) := by
    have hp := @List.pairwise_mergeSort _ (fun a b : AlertKey × AlertRow => b.2.lastSeen ≤ a.2.lastSeen)
      (by intro a b c; simp only [decide_eq_true_eq]; omega)
      (by intro a b; simp only [Bool.or_eq_true, decide_eq_true_eq]; omega) rows.entries
    simpa using hp
  have hcount : (rows.entries.mergeSort (fun a b => b.2.lastSeen ≤ a.2.lastSeen)).countP
      (fun e => row.lastSeen ≤ e.2.lastSeen) ≤ maxStateRows := by
    rw [(List.mergeSort_perm _ _).countP_eq]
    exact (List.filter_sublist.countP_le).trans hfew
  have hmem : (key, row) ∈ (rows.entries.mergeSort (fun a b => b.2.lastSeen ≤ a.2.lastSeen)).take maxStateRows :=
    mem_take_of_countP_le (f := fun e : AlertKey × AlertRow => e.2.lastSeen) hsorted
      ((List.mergeSort_perm _ _).mem_iff.mpr (Dict.mem_entries.mpr hrow)) hcount
  rw [Dict.get?_filter, hrow, Option.filter_eq_some_iff]
  exact ⟨rfl, by simpa using List.mem_map_of_mem (f := Prod.fst) hmem⟩

theorem closes_marked {now : Int} (h : closes now key row = false) :
    closes now key { row with staleSince := now } = false := by
  unfold closes at h ⊢
  cases hrule : rulesByName key.1 with
  | none => simp [hrule] at h
  | some rule =>
    simp only [hrule] at h ⊢
    cases hkind : rule.kind with
    | event => simpa [hkind] using h
    | level =>
      simp only [hkind, Bool.and_eq_false_iff, Bool.or_eq_false_iff] at h ⊢
      refine h.imp_right (fun h => ⟨h.1, Or.inr ?_⟩)
      simp [staleCloseAfter]

/-- What of the pair's row lasts through a sweep. -/
structure Sweeping (key : AlertKey) (row : AlertRow) (w v : AlertWorld) : Prop where
  shrinks : Shrinks w v
  clock : v.clock = w.clock
  sweepNow : v.sweepNow = w.sweepNow
  stays : ∃ r, v.rows.get? key = some r ∧ r.state = row.state ∧ r.mutedUntil = row.mutedUntil ∧
    r.lastSeen = row.lastSeen ∧ (r.state ≠ .ok → closes w.sweepNow key r = false)

theorem sweepRow_clock {now : Int} {k : AlertKey} {r : AlertRow} : (w.sweepRow now k r).clock = w.clock := by
  generalize hsweep : w.sweepRow now k r = w'
  have hs : Swept now w k r w' := hsweep ▸ swept
  cases hs <;> rfl

theorem Sweeping.sweepRow {k : AlertKey} {r : AlertRow} (h : Sweeping key row w v)
    (hget : v.rows.get? k = some r) (hopen : r.state ≠ .ok) : Sweeping key row w (v.sweepRow v.sweepNow k r) := by
  refine ⟨h.shrinks.trans shrinks_sweepRow, sweepRow_clock.trans h.clock, sweepRow_sweepNow.trans h.sweepNow, ?_⟩
  obtain ⟨r', hr', hstate, hmuted, hseen, hcloses⟩ := h.stays
  by_cases hk : k = key
  · subst hk
    obtain rfl : r = r' := by
      rw [hget] at hr'
      exact Option.some.inj hr'
    have hno := hcloses hopen
    rw [← h.sweepNow] at hno hcloses ⊢
    generalize hsweep : v.sweepRow v.sweepNow k r = v'
    have hs : Swept v.sweepNow v k r v' := hsweep ▸ swept
    cases hs with
    | kept => exact ⟨r, hr', hstate, hmuted, hseen, hcloses⟩
    | dropped hc => rw [hno] at hc; cases hc
    | stale h0 =>
      refine ⟨{ r with staleSince := v.sweepNow }, ?_, hstate, hmuted, hseen, fun _ => closes_marked hno⟩
      simp [get?_markStale, hget]
    | expired hc => rw [hno] at hc; cases hc
  · exact ⟨r', by rw [sweepRow_other (Ne.symm hk), hr'], hstate, hmuted, hseen, hcloses⟩

theorem Sweeping.prune (h : Sweeping key row w v) (hrow : w.OutlivesPrune row) (ts : Int) :
    Sweeping key row w { v.prune with lastPrune := ts } := by
  obtain ⟨r, hr, hstate, hmuted, hseen, hcloses⟩ := h.stays
  have houtlives : v.OutlivesPrune r := by
    refine ⟨?_, ?_⟩
    · rw [hstate, hseen, h.clock]
      exact hrow.1
    · rw [hseen]
      exact (h.shrinks.countP_le _).trans hrow.2
  refine ⟨h.shrinks.trans ?_, h.clock, h.sweepNow, r, prunedRows_get? hr houtlives, hstate, hmuted, hseen, hcloses⟩
  exact fun k r hget => ⟨r, prunedRows_some hget, rfl, rfl, rfl⟩

theorem Muted.sweep (h : Muted key m w) (hk : KeepsRow key w .sweep) : Muted key m w.sweep := by
  obtain ⟨row, hget, hm⟩ := h
  obtain ⟨hcloses, hprune⟩ := hk row hget
  have hs : Sweeping key row w w.sweep := by
    refine sweep_keeps (fun v k r hv hr hopen => hv.sweepRow hr hopen)
      (fun hdue v ts hv => hv.prune (hprune hdue) ts) ?_
    exact ⟨.refl w, rfl, rfl, row, hget, rfl, rfl, rfl, hcloses⟩
  obtain ⟨r, hr, -, hmuted, -⟩ := hs.stays
  exact ⟨r, hr, hmuted.trans hm⟩

theorem Muted.retire (h : Muted key m w) (hok : o.key = key → ∀ row ∈ w.rows.get? key, row.state = .ok) :
    Muted key m (w.retire o) := by
  obtain ⟨row, hget, hm⟩ := h
  unfold AlertWorld.retire
  split
  · exact ⟨row, hget, hm⟩
  · rename_i r hr
    split
    · exact ⟨row, hget, hm⟩
    · rename_i hopen
      have hne : key ≠ o.key := by
        rintro rfl
        exact hopen (hok rfl r hr)
      exact ⟨row, by simp [get?_dropState, hne, hget], hm⟩

theorem Muted.apply (h : Muted key m w) : Muted key m (w.apply o delivery) := by
  obtain ⟨row, hget, hm⟩ := h
  by_cases hk : key = o.key
  · subst hk
    obtain ⟨_, _, _, r, -, -, -, hr, hrow, -⟩ := apply_told w o delivery
    exact ⟨r, hr, by rw [hrow.mutedUntil, AlertWorld.mutedUntil, hget]; exact hm⟩
  · exact ⟨row, by rw [apply_other hk, hget], hm⟩

theorem Muted.step {op : AlertOp} (h : Muted key m w) (hl : LeavesMute key op) (hk : KeepsRow key w op) :
    Muted key m (w.step op) := by
  cases op with
  | observe payload delivery =>
    simp only [AlertWorld.step, observe]
    split
    · exact h
    · rename_i o hread
      split
      · rename_i hr
        exact h.retire (hk o (by simp [hread, Except.toOption]) hr)
      · exact h.apply
  | sweep => exact h.sweep hk
  | quieten k mode waited =>
    obtain ⟨row, hget, hm⟩ := h
    refine ⟨row, ?_, hm⟩
    simp only [AlertWorld.step, AlertWorld.quieten]
    split
    · exact hget
    · cases mode <;> simpa [setQuiet, Ne.symm hl] using hget
  | dismiss k waited =>
    obtain ⟨row, hget, hm⟩ := h
    refine ⟨row, ?_, hm⟩
    simp only [AlertWorld.step, AlertWorld.dismiss]
    split
    · split
      · exact hget
      · simpa [get?_dropState, Ne.symm hl] using hget
    · exact hget
  | deleteHistory choice => cases choice <;> exact h
  | _ => exact h

/-- While its time is not over a mute holds every message back but the recovery. -/
theorem reason_of_muted {t : Transition} (h : Muted o.key m w) (hc : w.clock < m) (ht : t ≠ .recovered) :
    w.reason o t ≠ none := by
  obtain ⟨row, hget, hm⟩ := h
  obtain ⟨r, hr, hrow, -⟩ := settle_row (w := w) (o := o)
  have hmuted : r.mutedUntil = m := by
    rw [hrow.mutedUntil, AlertWorld.mutedUntil, hget]
    exact hm
  have hquiet : (w.settle o).quietReason o.key t w.clock = some (.muted m) := by
    simp [quietReason, hr, hmuted, hc, ht]
  unfold reason heldBack
  split
  · simp
  · simp [hquiet]

/-- From one log to a later one, no message of the pair but a recovery before a time. -/
structure HeldUntil (key : AlertKey) (m : Int) (log log' : List Entry) : Prop where
  held : ∃ entries, log' = entries ++ log ∧
    ∀ ts t d, .hand ts key t d ∈ entries → t ≠ .recovered → m ≤ ts

theorem HeldUntil.refl (log : List Entry) : HeldUntil key m log log :=
  ⟨[], rfl, fun _ _ _ h => absurd h List.not_mem_nil⟩

theorem HeldUntil.trans {log log' log'' : List Entry} (h : HeldUntil key m log log')
    (h' : HeldUntil key m log' log'') : HeldUntil key m log log'' := by
  obtain ⟨new, rfl, hnew⟩ := h.held
  obtain ⟨newer, rfl, hnewer⟩ := h'.held
  refine ⟨newer ++ new, by rw [List.append_assoc], fun ts t d hmem => ?_⟩
  rcases List.mem_append.mp hmem with hmem | hmem
  · exact hnewer ts t d hmem
  · exact hnew ts t d hmem

theorem heldUntil_step (h : w.clock < m → Muted key m w) (op : AlertOp) :
    HeldUntil key m w.log (w.step op).log := by
  rcases step_cases w op with ⟨delivery, o, hrep, hstep⟩ | ⟨-, hsilent⟩
  · obtain ⟨entries, events, last, row, htold, hlog, -⟩ := apply_told w o delivery
    refine ⟨entries ++ [.report w.clock o.key o.active], by rw [hstep, hlog]; simp, fun ts t d hmem ht => ?_⟩
    cases htold with
    | silent h => simp at hmem
    | held h => simp at hmem
    | storm h => simp at hmem
    | @handed t' h' hr hs =>
      obtain ⟨rfl, hkey, rfl, -⟩ : ts = w.clock ∧ key = o.key ∧ t = t' ∧ d = !delivery.delivered.isEmpty := by
        simpa using hmem
      by_contra hearly
      exact reason_of_muted (hkey ▸ h (not_le.mp hearly)) (not_le.mp hearly) ht hr
  · obtain ⟨entries, hlog, hall⟩ := hsilent.log
    refine ⟨entries, hlog, fun ts t d hmem => ?_⟩
    exact absurd (hall _ hmem) Bool.false_ne_true

theorem heldUntil_run (h : w.clock < m → Muted key m w)
    (hops : Along step (fun v op => LeavesMute key op ∧ (v.clock < m → KeepsRow key v op)) w ops) :
    HeldUntil key m w.log (run step w ops).log := by
  induction ops generalizing w with
  | nil => exact .refl _
  | cons op ops ih =>
    refine (heldUntil_step h op).trans (ih (fun hc => ?_) hops.2)
    have hbefore : w.clock < m := by
      rcases step_cases w op with ⟨delivery, o, -, hstep⟩ | ⟨-, hsilent⟩
      · rwa [hstep, apply_clock] at hc
      · exact lt_of_le_of_lt hsilent.clock hc
    exact (h hbefore).step hops.1.1 (hops.1.2 hbefore)

/-- When a mute of so many seconds, asked for now, is over. -/
def muteEnd (w : AlertWorld) (seconds : Option Int) (waited : Nat) : Int :=
  w.clock - waited + clampInt seconds 3600 300 maxMuteSeconds

/-- A mute holds until its time through every run that leaves the pair its row until then. -/
theorem mute_holds (w : AlertWorld) (key : AlertKey) (seconds : Option Int) (waited : Nat) (ops : List AlertOp)
    (hknown : (rulesByName key.1).isSome) (hrow : w.rows.contains key)
    (h : Along step
      (fun v op => LeavesMute key op ∧ (v.clock < w.muteEnd seconds waited → KeepsRow key v op))
      (w.step (.quieten key (.mute seconds) waited)) ops) :
    HeldUntil key (w.muteEnd seconds waited) (w.step (.quieten key (.mute seconds) waited)).log
      (run step (w.step (.quieten key (.mute seconds) waited)) ops).log := by
  refine heldUntil_run (fun _ => ?_) h
  obtain ⟨row, hget⟩ := Dict.contains_iff.mp hrow
  refine ⟨{ row with acknowledgedTs := w.clock - waited, mutedUntil := w.muteEnd seconds waited }, ?_, rfl⟩
  have hno : ((rulesByName key.1).isNone || !w.rows.contains key) = false := by
    simp [hrow, hknown]
  simp [AlertWorld.step, AlertWorld.quieten, hno, setQuiet, hget, muteEnd]

instance (key : AlertKey) (op : AlertOp) : Decidable (LeavesMute key op) :=
  match op with
  | .quieten k _ _ => inferInstanceAs (Decidable (k ≠ key))
  | .dismiss k _ => inferInstanceAs (Decidable (k ≠ key))
  | .tick _ | .observe _ _ | .beginSweep | .sweep | .configure _ | .deleteHistory _ =>
    inferInstanceAs (Decidable True)

instance (w : AlertWorld) (row : AlertRow) : Decidable (w.OutlivesPrune row) :=
  inferInstanceAs (Decidable (_ ∧ _))

instance (key : AlertKey) (w : AlertWorld) (op : AlertOp) : Decidable (KeepsRow key w op) :=
  match op with
  | .sweep =>
    inferInstanceAs (Decidable (∀ row ∈ w.rows.get? key,
      (row.state ≠ .ok → closes w.sweepNow key row = false) ∧
        (pruneInterval ≤ w.sweepNow - w.lastPrune → w.OutlivesPrune row)))
  | .observe payload _ =>
    inferInstanceAs (Decidable (∀ o ∈ payload.read.toOption, o.retired = true → o.key = key →
      ∀ row ∈ w.rows.get? key, row.state = .ok))
  | .tick _ | .beginSweep | .quieten _ _ _ | .dismiss _ _ | .configure _ | .deleteHistory _ =>
    inferInstanceAs (Decidable True)

def shopDown (active : Bool) : AlertOp :=
  .observe { rule := "site.down", subject := "shop", active := some active, triggerDelay := some (some 0) }
    { delivered := ["email"] }

def shopFiring : AlertWorld := run step (start 100000) [shopDown true]

/-- Through a sweep, a recovery and the next outage. -/
def outageAgain : List AlertOp :=
  [.tick 60, .beginSweep, .sweep, shopDown false, shopDown true]

theorem mute_holds_outage_again :
    (run step (shopFiring.step (.quieten ("site.down", "shop") (.mute (some 86400)) 0)) outageAgain).events.length = 3 ∧
    HeldUntil ("site.down", "shop") (shopFiring.muteEnd (some 86400) 0)
      (shopFiring.step (.quieten ("site.down", "shop") (.mute (some 86400)) 0)).log
      (run step (shopFiring.step (.quieten ("site.down", "shop") (.mute (some 86400)) 0)) outageAgain).log :=
  ⟨by decide +kernel, mute_holds shopFiring ("site.down", "shop") (some 86400) 0 outageAgain
    (by decide +kernel) (by decide +kernel) (by decide +kernel)⟩

theorem HeldUntil.of_take {log log' : List Entry} (h : HeldUntil key m log log') {ts : Int} {t : Transition}
    {d : Bool} (hmem : .hand ts key t d ∈ log'.take (log'.length - log.length)) (ht : t ≠ .recovered) : m ≤ ts := by
  obtain ⟨entries, rfl, hall⟩ := h.held
  exact hall ts t d (by simpa using hmem) ht

def gatewayBurst : AlertOp :=
  .observe { rule := "security.burst", subject := "gateway" } { delivered := ["email"] }

def burstFiring : AlertWorld := run step (start 100000) [gatewayBurst]

def burstMuted : AlertWorld :=
  burstFiring.step (.quieten ("security.burst", "gateway") (.mute (some 86400)) 0)

/-- An hour after it was muted for a day the burst is cleared, and the next one is mailed. -/
def burstAgain : List AlertOp := [.tick 3600, .beginSweep, .sweep, gatewayBurst]

theorem mute_lost_with_row :
    ¬ ∀ (w : AlertWorld) (key : AlertKey) (seconds : Option Int) (waited : Nat) (ops : List AlertOp),
      (rulesByName key.1).isSome → w.rows.contains key → (∀ op ∈ ops, LeavesMute key op) →
      HeldUntil key (w.muteEnd seconds waited) (w.step (.quieten key (.mute seconds) waited)).log
        (run step (w.step (.quieten key (.mute seconds) waited)) ops).log := by
  intro h
  have hheld := h burstFiring ("security.burst", "gateway") (some 86400) 0 burstAgain
    (by decide +kernel) (by decide +kernel) (by decide +kernel)
  have hmem : Entry.hand 103600 ("security.burst", "gateway") .fired true ∈
      (run step burstMuted burstAgain).log.take
        ((run step burstMuted burstAgain).log.length - burstMuted.log.length) := by
    decide +kernel
  refine absurd (hheld.of_take hmem (by decide)) ?_
  decide +kernel

end AlertWorld

end EasyHaProxy.Alertd
