import EasyHaProxy.Metricsd.Counters

/-! The sum of a counter over the minutes stored is what the counter grew by, less what a flush replaced in
a minute that was stored before. -/
namespace EasyHaProxy.Metricsd

namespace MetricsWorld

variable {w : MetricsWorld} {c : Column} {i now bucketTs : Nat} {key : ObjectKey}

/-! ## Flushes -/

theorem get?_bucket (h : (w.bucket i).samples ≠ 0) : w.collector.buckets.get? i = some (w.bucket i) := by
  unfold bucket Dict.getD at h ⊢
  cases hb : w.collector.buckets.get? i with
  | none => simp [hb] at h
  | some b => rfl

theorem mem_pendingRows {r : Nat × MetricRow} :
    r ∈ w.pendingRows ↔ (w.bucket r.1).samples ≠ 0 ∧ r.2 = (w.bucket r.1).row := by
  unfold pendingRows
  constructor
  · intro h
    obtain ⟨⟨i, b⟩, hb, rfl⟩ := List.mem_map.mp h
    obtain ⟨hmem, hs⟩ := List.mem_filter.mp hb
    have hget : w.bucket i = b := Dict.getD_eq_of_get? (Dict.mem_entries.mp hmem) _
    rw [hget]
    exact ⟨by simpa using hs, rfl⟩
  · rintro ⟨hs, hrow⟩
    refine List.mem_map.mpr ⟨(r.1, w.bucket r.1), List.mem_filter.mpr ⟨?_, by simpa using hs⟩, ?_⟩
    · exact Dict.mem_entries.mpr (get?_bucket hs)
    · rw [← hrow]

/-- The rows of a flush, under the keys they are written with. -/
def flushRows (w : MetricsWorld) (bucketTs : Nat) : List ((Nat × Nat) × MetricRow) :=
  w.pendingRows.map fun r => ((bucketTs, r.1), r.2)

theorem flushRows_nodup : ((w.flushRows bucketTs).map Prod.fst).Nodup := by
  have hids : (w.pendingRows.map Prod.fst).Nodup := by
    unfold pendingRows
    rw [List.map_map]
    exact w.collector.buckets.nodup.sublist (List.filter_sublist.map _)
  rw [flushRows, List.map_map]
  have hpair : (Prod.fst ∘ fun r : Nat × MetricRow => (((bucketTs, r.1) : Nat × Nat), r.2)) =
      (fun i : Nat => ((bucketTs, i) : Nat × Nat)) ∘ Prod.fst := rfl
  rw [hpair, ← List.map_map]
  exact hids.map fun a b hab => (Prod.mk.inj hab).2

/-- What a flush for the minute takes from what is stored: the row of an object that was
sampled since the last one is replaced. -/
def overwrittenAt (w : MetricsWorld) (c : Column) (bucketTs i : Nat) : Int :=
  if (w.bucket i).samples ≠ 0 then w.cell c bucketTs i else 0

theorem share_eq_cell : Table.share (countOf c i) w.db.metric1m (bucketTs, i) = w.cell c bucketTs i := by
  unfold Table.share cell countOf
  simp

/-- A flush adds what is pending and loses what it replaces. -/
theorem total_flushRows (hc : c ∈ trafficCounters) (hs : (tally c i w).Sound) :
    Table.total (countOf c i) (Table.writeAll w.db.metric1m (w.flushRows bucketTs)) =
      (tally c i w).stored + (tally c i w).pending - w.overwrittenAt c bucketTs i := by
  by_cases hsampled : (w.bucket i).samples ≠ 0
  · have hmem : ((bucketTs, i), (w.bucket i).row) ∈ w.flushRows bucketTs :=
      List.mem_map.mpr ⟨(i, (w.bucket i).row), mem_pendingRows.mpr ⟨hsampled, rfl⟩, rfl⟩
    have hone := Table.total_writeAll_of_one (f := countOf c i) (d := w.db.metric1m) flushRows_nodup hmem (by
      intro r hr hne v
      obtain ⟨p, -, rfl⟩ := List.mem_map.mp hr
      have hid : p.1 ≠ i := fun he => hne (by rw [he])
      simp [countOf, hid])
    have hrow : countOf c i (bucketTs, i) (w.bucket i).row = (w.bucket i).count c := by
      rw [countOf, if_pos rfl, Bucket.row_counter (aggregation_of_traffic hc)]
    rw [share_eq_cell, hrow] at hone
    rw [overwrittenAt, if_pos hsampled]
    simp only [tally]
    omega
  · have hzero : Table.total (countOf c i) (Table.writeAll w.db.metric1m (w.flushRows bucketTs)) =
        Table.total (countOf c i) w.db.metric1m := by
      apply Table.total_writeAll_of_zero
      intro r hr v
      obtain ⟨p, hp, rfl⟩ := List.mem_map.mp hr
      have hid : p.1 ≠ i := fun he => hsampled (he ▸ (mem_pendingRows.mp hp).1)
      simp [countOf, hid]
    have hidle := hs.idle (by simpa [tally] using hsampled)
    rw [overwrittenAt, if_neg hsampled, hzero, hidle]
    simp [tally]

/-- The baselines in memory win over the saved ones. -/
theorem get?_storeBaselines (hs : (tally c i w).Sound) :
    (Table.writeAll w.db.baselines w.collector.baselines.entries).get? (i, c) =
      w.collector.baselines.get? (i, c) := by
  cases hb : w.collector.baselines.get? (i, c) with
  | some v => exact Table.get?_writeAll_of_mem w.collector.baselines.nodup (Dict.mem_entries.mpr hb)
  | none =>
    rw [Table.get?_writeAll_of_not_mem (Dict.not_mem_keys.mpr hb)]
    exact hs.saved_none hb

theorem bucket_of_cleared (h : w.collector.buckets = .empty) : w.bucket i = {} := by
  simp [bucket, Dict.getD, h]

theorem tally_flushLocked (hc : c ∈ trafficCounters) (h : Books c w) :
    tally c i (w.flushLocked bucketTs) = (tally c i w).flush (w.overwrittenAt c bucketTs i) := by
  rw [flushLocked_eq]
  split
  · rename_i hnothing
    have hrows : w.pendingRows = [] := hnothing.resolve_right (by simp [h.writing])
    have hidle : (w.bucket i).samples = 0 := by
      by_contra hs
      have hmem : (i, (w.bucket i).row) ∈ w.pendingRows := mem_pendingRows.mpr ⟨hs, rfl⟩
      rw [hrows] at hmem
      cases hmem
    have hsampled : (tally c i w).sampled = false := by simp [tally, hidle]
    have hpending := (h.sound i).idle hsampled
    have hsaved := (h.sound i).saved hsampled
    rw [overwrittenAt, if_neg (not_not.mpr hidle)]
    unfold Tally.flush
    rw [hpending, ← hsaved]
    unfold tally at hsaved ⊢
    rw [bucket_of_cleared rfl]
    simp only [Tally.mk.injEq]
    exact ⟨by simp [cleared], rfl, hsaved.symm, rfl, rfl⟩
  · have hstored : Table.total (countOf c i) (Table.writeAll w.db.metric1m (w.flushRows bucketTs)) =
        (tally c i w).stored + (tally c i w).pending - w.overwrittenAt c bucketTs i :=
      total_flushRows hc (h.sound i)
    have hsaved := get?_storeBaselines (h.sound i)
    unfold Tally.flush
    rw [← hstored]
    conv_lhs => unfold tally
    rw [bucket_of_cleared rfl]
    simp only [Tally.mk.injEq]
    exact ⟨rfl, rfl, rfl, hsaved, rfl⟩

theorem flushLocked_objects : (w.flushLocked bucketTs).db.objects = w.db.objects := by
  rw [flushLocked_eq]
  split <;> rfl

theorem flushLocked_objectIds : (w.flushLocked bucketTs).collector.objectIds = w.collector.objectIds := by
  rw [flushLocked_eq]
  split <;> rfl

theorem flushLocked_config : (w.flushLocked bucketTs).config = w.config := by
  rw [flushLocked_eq]
  split <;> rfl

theorem flushLocked_storage : (w.flushLocked bucketTs).storage = w.storage := by
  rw [flushLocked_eq]
  split <;> rfl

theorem flushLocked_buckets : (w.flushLocked bucketTs).collector.buckets = .empty := by
  rw [flushLocked_eq]
  split <;> rfl

/-- Rows written are the pending ones, whose counts are not negative. -/
theorem cell_flushLocked (hc : c ∈ trafficCounters) (h : Books c w) (minute i : Nat) :
    0 ≤ (w.flushLocked bucketTs).cell c minute i := by
  rw [flushLocked_eq]
  split
  · exact h.cells minute i
  · change 0 ≤ (((Table.writeAll w.db.metric1m (w.flushRows bucketTs)).get? (minute, i)).map
      fun row => row.value c).getD 0
    by_cases hwritten : (minute, i) ∈ (w.flushRows bucketTs).map Prod.fst
    · obtain ⟨r, hr, hkey⟩ := List.mem_map.mp hwritten
      obtain ⟨p, hp, rfl⟩ := List.mem_map.mp hr
      have hrow := (mem_pendingRows.mp hp).2
      have hpending : 0 ≤ (w.bucket p.1).count c := (h.sound p.1).nonneg
      rw [← hkey, Table.get?_writeAll_of_mem flushRows_nodup hr, hrow]
      simpa [Bucket.row_counter (aggregation_of_traffic hc)] using hpending
    · rw [Table.get?_writeAll_of_not_mem hwritten]
      exact h.cells minute i

theorem overwrittenAt_nonneg (h : Books c w) : 0 ≤ w.overwrittenAt c bucketTs i := by
  unfold overwrittenAt
  split
  · exact h.cells bucketTs i
  · exact le_rfl

theorem Books.flushLocked (hc : c ∈ trafficCounters) (h : Books c w) : Books c (w.flushLocked bucketTs) where
  writing := by
    rw [flushLocked_storage]
    exact h.writing
  cache := by
    rw [flushLocked_objects, flushLocked_objectIds]
    exact h.cache
  fresh i hi := by
    rw [flushLocked_objects] at hi
    have hblank := h.fresh i hi
    have hsampled : (w.bucket i).samples = 0 := by
      have := congrArg Tally.sampled hblank
      simpa [tally, Tally.blank] using this
    rw [tally_flushLocked hc h, overwrittenAt, if_neg (not_not.mpr hsampled), hblank]
    rfl
  sound i := by
    rw [tally_flushLocked hc h]
    exact Tally.sound_flush
  cells := cell_flushLocked hc h

/-! ## What one object gains and loses -/

/-- What a flush for the minute takes from the stored rows of an object. -/
def overwritten (w : MetricsWorld) (c : Column) (key : ObjectKey) (bucketTs : Nat) : Int :=
  match w.db.objects.idOf key with
  | some i => w.overwrittenAt c bucketTs i
  | none => 0

theorem overwritten_nonneg (h : Books c w) : 0 ≤ w.overwritten c key bucketTs := by
  unfold overwritten
  split
  · exact overwrittenAt_nonneg h
  · exact le_rfl

theorem account_flushLocked (hc : c ∈ trafficCounters) (h : Books c w) :
    account c key (w.flushLocked bucketTs) = (account c key w).flush (w.overwritten c key bucketTs) := by
  unfold account overwritten
  rw [flushLocked_objects]
  cases w.db.objects.idOf key with
  | some i => exact tally_flushLocked hc h
  | none => rfl

/-- No sample is held before a minute has begun. -/
def Begun (w : MetricsWorld) : Prop := w.collector.bucketTs = none → w.collector.buckets = .empty

/-- What readings are worth from a baseline on. -/
def credited (maxGap : Nat) : Option (Int × Nat) → List (Nat × Int) → Int
  | _, [] => 0
  | base, r :: rs => deltaOf maxGap base r.2 r.1 + credited maxGap (some (r.2, r.1)) rs

/-- The baseline readings leave behind. -/
def lastReading (base : Option (Int × Nat)) (readings : List (Nat × Int)) : Option (Int × Nat) :=
  readings.foldl (fun _ r => some (r.2, r.1)) base

theorem lastReading_append {base : Option (Int × Nat)} {rs rs' : List (Nat × Int)} :
    lastReading base (rs ++ rs') = lastReading (lastReading base rs) rs' := List.foldl_append

theorem credited_append {maxGap : Nat} {base : Option (Int × Nat)} {rs rs' : List (Nat × Int)} :
    credited maxGap base (rs ++ rs') =
      credited maxGap base rs + credited maxGap (lastReading base rs) rs' := by
  induction rs generalizing base with
  | nil => simp [credited, lastReading]
  | cons r rs ih =>
    rw [List.cons_append, credited, credited, ih, Int.add_assoc]
    rfl

theorem observe_foldl {maxGap : Nat} {t : Tally} {rs : List (Nat × Int)} :
    (rs.foldl (Tally.observe maxGap) t).total = t.total + credited maxGap t.base rs ∧
      (rs.foldl (Tally.observe maxGap) t).base = lastReading t.base rs := by
  induction rs generalizing t with
  | nil => simp [credited, lastReading]
  | cons r rs ih =>
    obtain ⟨htotal, hbase⟩ := ih (t := t.observe maxGap r)
    refine ⟨?_, hbase⟩
    rw [List.foldl_cons, htotal]
    simp only [Tally.total, Tally.observe, credited]
    omega

/-- The books of an object move by what it is credited less what was lost. -/
structure Counted (c : Column) (key : ObjectKey) (lost : Int) (readings : List (Nat × Int))
    (w w' : MetricsWorld) : Prop where
  books : Books c w'
  begun : Begun w'
  config : w'.config = w.config
  total : (account c key w').total =
    (account c key w).total - lost + credited w.config.maxGap (account c key w).base readings
  base : (account c key w').base = lastReading (account c key w).base readings

namespace Counted

variable {w' w'' : MetricsWorld} {lost lost' : Int} {rs rs' : List (Nat × Int)}

theorem refl (h : Books c w) (hb : Begun w) : Counted c key 0 [] w w :=
  ⟨h, hb, rfl, by simp [credited], rfl⟩

theorem trans (h : Counted c key lost rs w w') (h' : Counted c key lost' rs' w' w'') :
    Counted c key (lost + lost') (rs ++ rs') w w'' where
  books := h'.books
  begun := h'.begun
  config := h'.config.trans h.config
  total := by
    rw [h'.total, h.total, h.config, h.base, credited_append]
    omega
  base := by rw [h'.base, h.base, lastReading_append]

/-- Nothing was read, and nothing of the account changed but whether it is sampled. -/
theorem of_quiet (hb : Books c w') (hbegun : Begun w') (hconfig : w'.config = w.config)
    (h : account c key w' = account c key w ∨ account c key w' = (account c key w).touch) :
    Counted c key 0 [] w w' := by
  refine ⟨hb, hbegun, hconfig, ?_, ?_⟩
  · rcases h with h | h <;> simp [h, credited, Tally.touch, Tally.total]
  · rcases h with h | h <;> simp [h, lastReading, Tally.touch]

end Counted

/-! ## Operations -/

theorem Books.stamp (h : Books c w) {minute : Option Nat} :
    Books c (w.withCollector { w.collector with bucketTs := minute }) :=
  ⟨h.writing, h.cache, h.fresh, h.sound, h.cells⟩

theorem counted_stamp (h : Books c w) {minute : Nat} :
    Counted c key 0 [] w (w.withCollector { w.collector with bucketTs := some minute }) :=
  .of_quiet h.stamp (fun hn => nomatch hn) rfl (Or.inl rfl)

theorem counted_flushLocked (hc : c ∈ trafficCounters) (h : Books c w) :
    Counted c key (w.overwritten c key bucketTs) [] w (w.flushLocked bucketTs) := by
  refine ⟨h.flushLocked hc, fun _ => flushLocked_buckets, flushLocked_config, ?_, ?_⟩
  · rw [account_flushLocked hc h]
    simp [Tally.flush, Tally.total, credited]
  · rw [account_flushLocked hc h]
    rfl

/-- What the flushes of an operation take from the stored rows of an object. -/
def overwrittenBy (w : MetricsWorld) (c : Column) (key : ObjectKey) (op : MetricsOp) : Int :=
  ((w.metricMinutes op).map (w.overwritten c key)).sum

theorem overwritten_idle (h : w.pendingRows = []) : w.overwritten c key bucketTs = 0 := by
  unfold overwritten overwrittenAt
  split
  · rename_i i _
    split
    · rename_i hs
      have hmem : (i, (w.bucket i).row) ∈ w.pendingRows := mem_pendingRows.mpr ⟨hs, rfl⟩
      rw [h] at hmem
      cases hmem
    · rfl
  · rfl

theorem sum_flushedMinutes (h : Books c w) (hb : w.collector.bucketTs = some bucketTs) :
    (w.flushedMinutes.map (w.overwritten c key)).sum = w.overwritten c key bucketTs := by
  unfold flushedMinutes
  split
  · rename_i hnothing
    rw [overwritten_idle (hnothing.resolve_right (by simp [h.writing]))]
    rfl
  · simp [hb]

theorem counted_flushMinute (hc : c ∈ trafficCounters) (h : Books c w)
    (hb : w.collector.bucketTs = some bucketTs) {minute : Nat} :
    Counted c key (w.flushedMinutes.map (w.overwritten c key)).sum [] w
      ((w.flushLocked bucketTs).withCollector
        { (w.flushLocked bucketTs).collector with bucketTs := some minute }) := by
  rw [sum_flushedMinutes h hb]
  have hflushed : Counted c key (w.overwritten c key bucketTs) [] w (w.flushLocked bucketTs) :=
    counted_flushLocked hc h
  simpa using hflushed.trans (counted_stamp hflushed.books)

theorem flushedMinutes_none (h : w.collector.bucketTs = none) : w.flushedMinutes = [] := by
  unfold flushedMinutes
  split
  · rfl
  · rw [h]
    rfl

theorem counted_flush (hc : c ∈ trafficCounters) (h : Books c w) (hbegun : Begun w) {force : Bool} :
    Counted c key (w.overwrittenBy c key (.flush now force)) [] w (w.flush now force) := by
  unfold overwrittenBy flush
  split
  · rename_i hnone
    simp only [metricMinutes, hnone, flushedMinutes_none hnone]
    simpa using Counted.refl h hbegun
  · rename_i bucketTs hb
    by_cases hstays : force = false ∧ minuteOf now = bucketTs
    · rw [if_pos (by simp [hstays]), metricMinutes, if_pos ⟨hstays.1, by rw [hb, hstays.2]⟩]
      exact Counted.refl h hbegun
    · have hflushes : ¬ (force = false ∧ w.collector.bucketTs = some (minuteOf now)) := by
        rw [hb]
        exact fun hboth => hstays ⟨hboth.1, (Option.some.inj hboth.2).symm⟩
      rw [if_neg (by simpa using hstays), metricMinutes, if_neg hflushes]
      exact counted_flushMinute hc h hb

/-- A forced flush leaves no sample behind. -/
theorem flush_idle (hbegun : Begun w) : (w.flush now true).collector.buckets = .empty := by
  unfold flush
  split
  · rename_i hnone
    exact hbegun hnone
  · simp only [Bool.not_true, Bool.false_and, Bool.false_eq_true, if_false]
    exact flushLocked_buckets

theorem counted_turnMinute (hc : c ∈ trafficCounters) (h : Books c w) {rows : List StatRow}
    {machine : MachineReading} (hrows : rows ≠ []) :
    Counted c key (w.overwrittenBy c key (.poll now rows machine)) [] w (w.turnMinute now) ∧
      (w.turnMinute now).collector.bucketTs = some (minuteOf now) := by
  unfold overwrittenBy turnMinute
  split
  · rename_i hnone
    refine ⟨?_, rfl⟩
    simp only [metricMinutes, hrows, hnone, flushedMinutes_none hnone]
    simpa using counted_stamp h
  · rename_i bucketTs hb
    by_cases hsame : minuteOf now = bucketTs
    · have hquiet : rows = [] ∨ w.collector.bucketTs = some (minuteOf now) := Or.inr (by rw [hb, hsame])
      rw [if_pos hsame, metricMinutes, if_pos hquiet]
      refine ⟨Counted.refl h fun hn => ?_, by rw [hb, hsame]⟩
      rw [hb] at hn
      cases hn
    · have hturns : ¬ (rows = [] ∨ w.collector.bucketTs = some (minuteOf now)) := by
        rw [hb]
        exact not_or.mpr ⟨hrows, fun he => hsame (Option.some.inj he).symm⟩
      rw [if_neg hsame, metricMinutes, if_neg hturns]
      exact ⟨counted_flushMinute hc h hb, rfl⟩

theorem begun_of_minute (h : w.collector.bucketTs = some bucketTs) : Begun w := by
  intro hn
  rw [h] at hn
  cases hn

/-- The rows of an answer and then the machine's own, in a minute that has begun. -/
def readAnswer (w : MetricsWorld) (now : Nat) (rows : List StatRow) (machine : MachineReading) : MetricsWorld :=
  let w := rows.foldl (fun w row => w.observeRow now row) w
  if w.hostMonitored then w.observeHost machine now else w

theorem poll_eq {rows : List StatRow} {machine : MachineReading} (hrows : rows ≠ []) :
    w.poll now rows machine = (w.turnMinute now).readAnswer now rows machine := if_neg hrows

theorem counted_readAnswer (hc : c ∈ trafficCounters) (h : Books c w)
    (hb : w.collector.bucketTs = some bucketTs) {rows : List StatRow} {machine : MachineReading} :
    Counted c key 0 (readingsIn w.config key c now rows) w (w.readAnswer now rows machine) := by
  have hrows : Observed c key (readingsIn w.config key c now rows) w
      (rows.foldl (fun w row => w.observeRow now row) w) := observed_rows hc h
  have hbegun := hrows.bucketTs.trans hb
  have hread : Counted c key 0 (readingsIn w.config key c now rows) w
      (rows.foldl (fun w row => w.observeRow now row) w) := by
    refine ⟨hrows.books, begun_of_minute hbegun, hrows.config, ?_, ?_⟩
    · rw [hrows.account, observe_foldl.1, Int.sub_zero]
    · rw [hrows.account, observe_foldl.2]
  simp only [readAnswer]
  generalize rows.foldl (fun w row => w.observeRow now row) w = w' at hread hbegun
  split
  · have hhost : Unread c key w' (w'.observeHost machine now) := unread_observeHost hc hread.books
    have hmachine : Counted c key 0 [] w' (w'.observeHost machine now) :=
      .of_quiet hhost.books (begun_of_minute (hhost.bucketTs.trans hbegun)) hhost.config hhost.account
    simpa using hread.trans hmachine
  · exact hread

theorem counted_poll (hc : c ∈ trafficCounters) (h : Books c w) (hbegun : Begun w) {rows : List StatRow}
    {machine : MachineReading} :
    Counted c key (w.overwrittenBy c key (.poll now rows machine)) (readingsIn w.config key c now rows) w
      (w.poll now rows machine) := by
  by_cases hrows : rows = []
  · rw [poll, if_pos hrows, overwrittenBy, metricMinutes, if_pos (Or.inl hrows), hrows]
    exact Counted.refl h hbegun
  · obtain ⟨hturned, hminute⟩ : Counted c key (w.overwrittenBy c key (.poll now rows machine)) [] w
        (w.turnMinute now) ∧ (w.turnMinute now).collector.bucketTs = some (minuteOf now) :=
      counted_turnMinute hc h hrows
    have hread : Counted c key 0 (readingsIn (w.turnMinute now).config key c now rows) (w.turnMinute now)
        ((w.turnMinute now).readAnswer now rows machine) := counted_readAnswer hc hturned.books hminute
    rw [hturned.config] at hread
    rw [poll_eq hrows]
    simpa using hturned.trans hread

/-- What a new process starts with when nothing was held back. -/
theorem counted_start (h : Books c w) (hidle : w.collector.buckets = .empty) {monitors : Monitors} :
    Counted c key 0 [] w (w.withCollector (Collector.start w.db monitors)) := by
  have hsame : ∀ i, tally c i (w.withCollector (Collector.start w.db monitors)) = tally c i w := by
    intro i
    have hbucket : w.bucket i = {} := bucket_of_cleared hidle
    have hsaved : w.db.baselines.get? (i, c) = w.collector.baselines.get? (i, c) :=
      (h.sound i).saved (by simp [tally, hbucket])
    unfold tally
    rw [hbucket, ← hsaved]
    rfl
  refine .of_quiet ⟨h.writing, fun k i hk => ?_, fun i hi => ?_, fun i => ?_, h.cells⟩ (fun _ => rfl) rfl
    (Or.inl ?_)
  · simp [Collector.start] at hk
  · rw [hsame]
    exact h.fresh i hi
  · rw [hsame]
    exact h.sound i
  · unfold account
    simp only [hsame, withCollector_db]

theorem counted_restart (hc : c ∈ trafficCounters) (h : Books c w) (hbegun : Begun w) :
    Counted c key (w.overwrittenBy c key (.restart now)) [] w (w.restart now) := by
  have hflushed : Counted c key (w.overwrittenBy c key (.flush now true)) [] w (w.flush now true) :=
    counted_flush hc h hbegun
  have hsame : w.overwrittenBy c key (.flush now true) = w.overwrittenBy c key (.restart now) := by
    simp [overwrittenBy, metricMinutes]
  have hstarted : Counted c key 0 [] (w.flush now true) (w.restart now) :=
    counted_start hflushed.books (flush_idle hbegun)
  have hall := hflushed.trans hstarted
  rw [hsame, Int.add_zero, List.append_nil] at hall
  exact hall

/-- The operations of a collector that is let run: polls, answered or not, flushes and
clean stops. -/
def Polling : MetricsOp → Prop
  | .poll .. | .failed | .flush .. | .restart _ => True
  | .pullDigests .. | .runMaintenance .. | .enforce .. | .boot .. | .setMonitors _ => False

instance {op : MetricsOp} : Decidable (Polling op) := by
  cases op <;> unfold Polling <;> infer_instance

/-- The readings of a counter that an operation takes. -/
def readingsOf (config : MetricsConfig) (key : ObjectKey) (c : Column) : MetricsOp → List (Nat × Int)
  | .poll now rows _ => readingsIn config key c now rows
  | _ => []

theorem counted_step (hc : c ∈ trafficCounters) {op : MetricsOp} (hop : Polling op) (h : Books c w)
    (hbegun : Begun w) :
    Counted c key (w.overwrittenBy c key op) (readingsOf w.config key c op) w (w.step op) := by
  cases op with
  | poll now rows machine => exact counted_poll hc h hbegun
  | failed => exact Counted.refl h hbegun
  | flush now force => exact counted_flush hc h hbegun
  | restart now => exact counted_restart hc h hbegun
  | pullDigests now payload => exact hop.elim
  | runMaintenance now m => exact hop.elim
  | enforce now m => exact hop.elim
  | boot now m => exact hop.elim
  | setMonitors monitors => exact hop.elim

/-! ## Runs -/

variable {ops : List MetricsOp} {config : MetricsConfig}

/-- What the flushes of a run take from the stored rows of an object. -/
def lostBy (c : Column) (key : ObjectKey) : MetricsWorld → List MetricsOp → Int
  | _, [] => 0
  | w, op :: ops => w.overwrittenBy c key op + lostBy c key (w.step op) ops

theorem lostBy_append {newer : List MetricsOp} :
    lostBy c key w (ops ++ newer) = lostBy c key w ops + lostBy c key (Machine.run step w ops) newer := by
  induction ops generalizing w with
  | nil => simp [lostBy]
  | cons op ops ih => simp [lostBy, ih, Int.add_assoc]

/-- The readings of a counter in a run, in order. -/
def readingsAlong (config : MetricsConfig) (key : ObjectKey) (c : Column) (ops : List MetricsOp) :
    List (Nat × Int) :=
  ops.flatMap (readingsOf config key c)

theorem counted_run (hc : c ∈ trafficCounters) (hops : ∀ op ∈ ops, Polling op) (h : Books c w)
    (hbegun : Begun w) :
    Counted c key (lostBy c key w ops) (readingsAlong w.config key c ops) w (Machine.run step w ops) := by
  induction ops generalizing w with
  | nil => exact Counted.refl h hbegun
  | cons op ops ih =>
    have hstep : Counted c key (w.overwrittenBy c key op) (readingsOf w.config key c op) w (w.step op) :=
      counted_step hc (hops op List.mem_cons_self) h hbegun
    have hrest := ih (fun op h => hops op (List.mem_cons_of_mem _ h)) hstep.books hstep.begun
    rw [hstep.config] at hrest
    exact hstep.trans hrest

/-- No minute is written over a row that already counts something for the object. -/
def Fresh (c : Column) (key : ObjectKey) (w : MetricsWorld) (op : MetricsOp) : Prop :=
  ∀ bucketTs ∈ w.metricMinutes op, w.overwritten c key bucketTs = 0

instance {op : MetricsOp} : Decidable (Fresh c key w op) :=
  inferInstanceAs (Decidable (∀ bucketTs ∈ w.metricMinutes op, w.overwritten c key bucketTs = 0))

theorem overwrittenBy_nonneg (h : Books c w) {op : MetricsOp} : 0 ≤ w.overwrittenBy c key op := by
  apply List.sum_nonneg
  intro x hx
  obtain ⟨bucketTs, -, rfl⟩ := List.mem_map.mp hx
  exact overwritten_nonneg h

theorem overwrittenBy_eq_zero (h : Books c w) {op : MetricsOp} :
    w.overwrittenBy c key op = 0 ↔ Fresh c key w op := by
  unfold overwrittenBy Fresh
  induction w.metricMinutes op with
  | nil => simp
  | cons bucketTs minutes ih =>
    have hfirst : 0 ≤ w.overwritten c key bucketTs := overwritten_nonneg h
    have hrest : 0 ≤ (minutes.map (w.overwritten c key)).sum := by
      apply List.sum_nonneg
      intro x hx
      obtain ⟨b, -, rfl⟩ := List.mem_map.mp hx
      exact overwritten_nonneg h
    rw [List.map_cons, List.sum_cons, List.forall_mem_cons, ← ih]
    omega

/-- A run loses nothing exactly when no flush of it replaces a count. -/
theorem lostBy_eq_zero (hc : c ∈ trafficCounters) (hops : ∀ op ∈ ops, Polling op) (h : Books c w)
    (hbegun : Begun w) :
    0 ≤ lostBy c key w ops ∧ (lostBy c key w ops = 0 ↔ Machine.Along step (Fresh c key) w ops) := by
  induction ops generalizing w with
  | nil => simp [lostBy, Machine.Along]
  | cons op ops ih =>
    have hstep : Counted c key (w.overwrittenBy c key op) (readingsOf w.config key c op) w (w.step op) :=
      counted_step hc (hops op List.mem_cons_self) h hbegun
    obtain ⟨hnonneg, hrest⟩ := ih (fun op h => hops op (List.mem_cons_of_mem _ h)) hstep.books hstep.begun
    have hfirst : 0 ≤ w.overwrittenBy c key op := overwrittenBy_nonneg h
    rw [lostBy, Machine.Along, ← hrest, ← overwrittenBy_eq_zero h]
    omega

/-! ## The counter that never goes backwards -/

/-- Values and seconds do not go back, and no reading is farther than the gap from the one
before. -/
def Steady (maxGap : Nat) (readings : List (Nat × Int)) : Prop :=
  readings.IsChain fun a b => a.2 ≤ b.2 ∧ a.1 ≤ b.1 ∧ b.1 ≤ a.1 + maxGap

instance {maxGap : Nat} {readings : List (Nat × Int)} : Decidable (Steady maxGap readings) :=
  inferInstanceAs (Decidable (readings.IsChain _))

/-- The last value less the first. -/
def growth (readings : List (Nat × Int)) : Int :=
  (readings.getLast?.map Prod.snd).getD 0 - (readings.head?.map Prod.snd).getD 0

theorem credited_steady {maxGap : Nat} {r : Nat × Int} {rs : List (Nat × Int)}
    (h : Steady maxGap (r :: rs)) : credited maxGap (some (r.2, r.1)) rs = growth (r :: rs) := by
  induction rs generalizing r with
  | nil => simp [credited, growth]
  | cons r' rs ih =>
    obtain ⟨⟨hvalue, -, hgap⟩, hrest⟩ := List.isChain_cons_cons.mp h
    have hdelta : deltaOf maxGap (some (r.2, r.1)) r'.2 r'.1 = r'.2 - r.2 := by
      simp only [deltaOf]
      rw [if_neg (by omega), if_neg (by omega)]
    rw [credited, ih hrest, hdelta]
    simp only [growth, List.getLast?_cons_cons, List.head?_cons, Option.map_some, Option.getD_some]
    omega

theorem credited_none_steady {maxGap : Nat} {rs : List (Nat × Int)} (h : Steady maxGap rs) :
    credited maxGap none rs = growth rs := by
  cases rs with
  | nil => rfl
  | cons r rs =>
    rw [credited, credited_steady h]
    simp [deltaOf]

theorem books_initial : Books c (initial config) where
  writing := rfl
  cache k i hk := by simp [initial] at hk
  fresh i _ := rfl
  sound i := Tally.sound_blank
  cells bucketTs i := le_rfl

end MetricsWorld

namespace MetricsDatabase

def storedTraffic (db : MetricsDatabase) (key : ObjectKey) (c : Column) : Int :=
  match db.objects.idOf key with
  | some i => Table.total (countOf c i) db.metric1m
  | none => 0

end MetricsDatabase

namespace MetricsWorld

variable {w : MetricsWorld} {c : Column} {key : ObjectKey} {config : MetricsConfig} {ops : List MetricsOp}
  {now : Nat}

theorem account_stored : (account c key w).stored = w.db.storedTraffic key c := by
  unfold account MetricsDatabase.storedTraffic
  cases w.db.objects.idOf key <;> rfl

theorem account_idle (h : w.collector.buckets = .empty) : (account c key w).pending = 0 := by
  unfold account
  split
  · rw [tally, bucket_of_cleared h]
    rfl
  · rfl

/-- With a counter that never goes backwards, what is stored after a final flush is what it
grew by, less what flushes replaced. -/
theorem storedTraffic_eq (hc : c ∈ trafficCounters) (hops : ∀ op ∈ ops, Polling op)
    (hsteady : Steady config.maxGap (readingsAlong config key c ops)) :
    (Machine.run step (initial config) (ops ++ [MetricsOp.flush now true])).db.storedTraffic key c =
      growth (readingsAlong config key c ops) -
        lostBy c key (initial config) (ops ++ [MetricsOp.flush now true]) := by
  have hbefore : Counted c key (lostBy c key (initial config) ops) (readingsAlong config key c ops)
      (initial config) (Machine.run step (initial config) ops) :=
    counted_run hc hops books_initial fun _ => rfl
  have hflushed : Counted c key _ [] (Machine.run step (initial config) ops)
      ((Machine.run step (initial config) ops).flush now true) :=
    counted_flush hc hbefore.books hbefore.begun
  have hpending : (account c key ((Machine.run step (initial config) ops).flush now true)).pending = 0 :=
    account_idle (flush_idle hbefore.begun)
  have hblank : account c key (initial config) = .blank := rfl
  have htotal := (hbefore.trans hflushed).total
  rw [hblank, List.append_nil, Tally.total, hpending, account_stored] at htotal
  have hcredited : credited (initial config).config.maxGap Tally.blank.base (readingsAlong config key c ops) =
      growth (readingsAlong config key c ops) := credited_none_steady hsteady
  rw [hcredited] at htotal
  rw [Machine.run_append, lostBy_append]
  simp only [Tally.blank, Tally.total] at htotal
  simp only [Machine.run_cons, Machine.run_nil, step, lostBy]
  omega

theorem traffic_counted_once (config : MetricsConfig) (key : ObjectKey) (c : Column) (ops : List MetricsOp)
    (now : Nat) (hc : c ∈ trafficCounters) (hops : ∀ op ∈ ops, Polling op)
    (hsteady : Steady config.maxGap (readingsAlong config key c ops)) :
    (Machine.run step (initial config) (ops ++ [MetricsOp.flush now true])).db.storedTraffic key c =
        growth (readingsAlong config key c ops) ↔
      Machine.Along step (Fresh c key) (initial config) (ops ++ [MetricsOp.flush now true]) := by
  have hall : ∀ op ∈ ops ++ [MetricsOp.flush now true], Polling op := by
    intro op hop
    rcases List.mem_append.mp hop with hop | hop
    · exact hops op hop
    · rw [List.mem_singleton.mp hop]
      trivial
  rw [storedTraffic_eq hc hops hsteady, ← (lostBy_eq_zero hc hall books_initial fun _ => rfl).2]
  omega

/-- The frontend of `requestsRow`. -/
def webFrontend : ObjectKey := ⟨.frontend, "web", ""⟩

def laterMinuteOps : List MetricsOp :=
  [.poll 46750 [requestsRow 10] {}, .poll 46760 [requestsRow 14] {}, .restart 46795,
    .poll 46805 [requestsRow 15] {}]

theorem traffic_counted_once_later_minute :
    Machine.Along step (Fresh .requests webFrontend) (initial {}) (laterMinuteOps ++ [MetricsOp.flush 46810 true]) ∧
      (Machine.run step (initial {}) (laterMinuteOps ++ [MetricsOp.flush 46810 true])).db.storedTraffic
        webFrontend .requests = 5 := by
  have hfresh : Machine.Along step (Fresh .requests webFrontend) (initial {})
      (laterMinuteOps ++ [MetricsOp.flush 46810 true]) := by decide +kernel
  have hgrowth : growth (readingsAlong {} webFrontend .requests laterMinuteOps) = 5 := by decide +kernel
  exact ⟨hfresh, hgrowth ▸ (traffic_counted_once {} webFrontend .requests laterMinuteOps 46810 (by decide)
    (by decide) (by decide +kernel)).mpr hfresh⟩

/-- A restart within a minute: the second process replaces the row of the first. -/
def sameMinuteOps : List MetricsOp :=
  [.poll 46750 [requestsRow 10] {}, .poll 46760 [requestsRow 14] {}, .restart 46765,
    .poll 46770 [requestsRow 15] {}]

theorem restart_replaces_minute : ¬ ∀ (config : MetricsConfig) (key : ObjectKey) (c : Column)
    (ops : List MetricsOp) (now : Nat), c ∈ trafficCounters → (∀ op ∈ ops, Polling op) →
      Steady config.maxGap (readingsAlong config key c ops) →
      (Machine.run step (initial config) (ops ++ [MetricsOp.flush now true])).db.storedTraffic key c =
        growth (readingsAlong config key c ops) := by
  intro h
  have hstored := h {} webFrontend .requests sameMinuteOps 46780 (by decide) (by decide) (by decide +kernel)
  exact absurd hstored (by decide +kernel)

end MetricsWorld

end EasyHaProxy.Metricsd
