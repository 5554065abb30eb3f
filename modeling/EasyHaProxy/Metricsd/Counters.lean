import EasyHaProxy.Metricsd.Spec

/-! What is known of one counter of one object: what is stored, what is pending in the bucket, the baseline
in memory and the one in the database. Polls and flushes are followed in these terms. -/
namespace EasyHaProxy.Metricsd

/-- The counters a `show stat` row reports. -/
def trafficCounters : List Column := counterColumns.map Prod.fst ++ [Column.respOther]

theorem StatRow.counters_fst {row : StatRow} : row.counters.map Prod.fst = trafficCounters := by
  simp [StatRow.counters, trafficCounters, Function.comp_def]

theorem trafficCounters_nodup : trafficCounters.Nodup := by decide

theorem aggregation_of_traffic {c : Column} (h : c ∈ trafficCounters) : aggregation c = .sum := by
  revert c
  decide

def StatRow.reading (row : StatRow) (c : Column) : Int := (row.counters.lookup c).getD 0

theorem StatRow.lookup_counters {row : StatRow} {c : Column} (h : c ∈ trafficCounters) :
    row.counters.lookup c = some (row.reading c) := by
  have hmem : c ∈ row.counters.map Prod.fst := by rwa [StatRow.counters_fst]
  obtain ⟨⟨_, v⟩, hv, rfl⟩ := List.mem_map.mp hmem
  have hl := Dict.lookup_of_mem (by rw [StatRow.counters_fst]; exact trafficCounters_nodup) hv
  rw [StatRow.reading, hl]
  rfl

structure Tally where
  stored : Int
  pending : Int
  base : Option (Int × Nat)
  saved : Option (Int × Nat)
  sampled : Bool

namespace Tally

variable {t : Tally} {maxGap now : Nat} {v : Int}

/-- Of an object that was never seen. -/
def blank : Tally := ⟨0, 0, none, none, false⟩

def total (t : Tally) : Int := t.stored + t.pending

/-- One reading of the counter. -/
def observe (maxGap : Nat) (t : Tally) (r : Nat × Int) : Tally :=
  { t with pending := t.pending + deltaOf maxGap t.base r.2 r.1, base := some (r.2, r.1), sampled := true }

/-- A flush over a row that counted `overwritten` already. -/
def flush (t : Tally) (overwritten : Int) : Tally :=
  ⟨t.stored + t.pending - overwritten, 0, t.base, t.base, false⟩

/-- What is not sampled since the last flush is saved, and nothing of it is pending. -/
structure Sound (t : Tally) : Prop where
  saved_none : t.base = none → t.saved = none
  saved : t.sampled = false → t.saved = t.base
  idle : t.sampled = false → t.pending = 0
  nonneg : 0 ≤ t.pending

theorem sound_blank : Sound blank := ⟨fun _ => rfl, fun _ => rfl, fun _ => rfl, le_rfl⟩

theorem deltaOf_nonneg {previous : Option (Int × Nat)} : 0 ≤ deltaOf maxGap previous v now := by
  unfold deltaOf
  split
  · exact le_rfl
  · split
    · exact le_rfl
    · split <;> omega

/-- A sample that brings no reading of the counter. -/
def touch (t : Tally) : Tally := { t with sampled := true }

theorem Sound.touch (h : Sound t) : Sound t.touch where
  saved_none := h.saved_none
  saved hs := by cases hs
  idle hs := by cases hs
  nonneg := h.nonneg

theorem Sound.observe (h : Sound t) {r : Nat × Int} : Sound (t.observe maxGap r) where
  saved_none hn := by cases hn
  saved hs := by cases hs
  idle hs := by cases hs
  nonneg := Int.add_nonneg h.nonneg deltaOf_nonneg

theorem sound_flush {overwritten : Int} : Sound (t.flush overwritten) :=
  ⟨id, fun _ => rfl, fun _ => rfl, le_rfl⟩

end Tally

def countOf (c : Column) (i : Nat) (key : Nat × Nat) (row : MetricRow) : Int :=
  if key.2 = i then row.value c else 0

namespace MetricsWorld

variable {w : MetricsWorld} {c : Column} {i j now bucketTs : Nat} {key k : ObjectKey} {row : StatRow}

def tally (c : Column) (i : Nat) (w : MetricsWorld) : Tally where
  stored := Table.total (countOf c i) w.db.metric1m
  pending := (w.bucket i).count c
  base := w.collector.baselines.get? (i, c)
  saved := w.db.baselines.get? (i, c)
  sampled := (w.bucket i).samples ≠ 0

/-- What is known of the counter of an object by its name. -/
def account (c : Column) (key : ObjectKey) (w : MetricsWorld) : Tally :=
  match w.db.objects.idOf key with
  | some i => tally c i w
  | none => .blank

/-- The stored row of a minute, as far as the counter goes. -/
def cell (c : Column) (w : MetricsWorld) (bucketTs i : Nat) : Int :=
  ((w.db.metric1m.get? (bucketTs, i)).map fun row => row.value c).getD 0

/-- What holds of the books in every run that only polls and restarts. -/
structure Books (c : Column) (w : MetricsWorld) : Prop where
  writing : w.storage.writesPaused = false
  cache : ∀ k i, w.collector.objectIds.get? k = some i → w.db.objects.idOf k = some i
  fresh : ∀ i, ¬ w.db.objects.Registered i → tally c i w = .blank
  sound : ∀ i, (tally c i w).Sound
  cells : ∀ bucketTs i, 0 ≤ w.cell c bucketTs i

/-! ## Registering an object -/

theorem tally_objectFor : tally c i (w.objectFor key now).2 = tally c i w := by
  unfold objectFor
  split <;> rfl

theorem cell_objectFor : cell c (w.objectFor key now).2 = cell c w := by
  unfold objectFor
  split <;> rfl

theorem objectFor_config : (w.objectFor key now).2.config = w.config := by
  unfold objectFor
  split <;> rfl

theorem objectFor_bucketTs : (w.objectFor key now).2.collector.bucketTs = w.collector.bucketTs := by
  unfold objectFor
  split <;> rfl

theorem objectFor_storage : (w.objectFor key now).2.storage = w.storage := by
  unfold objectFor
  split <;> rfl

theorem idOf_objectFor_ne (h : k ≠ key) :
    (w.objectFor key now).2.db.objects.idOf k = w.db.objects.idOf k := by
  unfold objectFor
  split
  · rfl
  · exact Objects.idOf_upsert_ne h

/-- An object keeps the id it has, and gets one that nothing uses otherwise. -/
theorem idOf_objectFor_self (h : Books c w) (key : ObjectKey) (now : Nat) :
    (w.objectFor key now).2.db.objects.idOf key = some (w.objectFor key now).1 ∧
      (w.db.objects.idOf key = some (w.objectFor key now).1 ∨
        w.db.objects.idOf key = none ∧ ¬ w.db.objects.Registered (w.objectFor key now).1) := by
  cases hcache : w.collector.objectIds.get? key with
  | some i =>
    have hfor : w.objectFor key now = (i, w) := by simp [objectFor, hcache]
    rw [hfor]
    exact ⟨h.cache key i hcache, Or.inl (h.cache key i hcache)⟩
  | none =>
    have hid : (w.objectFor key now).1 = (w.db.objects.idOf key).getD w.db.objects.nextId := by
      simp [objectFor, hcache, MetricsDatabase.objectId, Objects.idOf_upsert_self]
    have hobjects : (w.objectFor key now).2.db.objects = w.db.objects.upsert key now := by
      simp [objectFor, hcache, MetricsDatabase.objectId]
    rw [hid, hobjects, Objects.idOf_upsert_self]
    refine ⟨rfl, ?_⟩
    cases hknown : w.db.objects.idOf key with
    | some i => exact Or.inl rfl
    | none => exact Or.inr ⟨rfl, Objects.not_registered_nextId⟩

theorem registered_objectFor (h : w.db.objects.Registered i) :
    (w.objectFor key now).2.db.objects.Registered i := by
  unfold objectFor
  split
  · exact h
  · exact Objects.registered_upsert h

theorem account_objectFor (h : Books c w) : account c k (w.objectFor key now).2 = account c k w := by
  unfold account
  by_cases hk : k = key
  · subst hk
    obtain ⟨hself, hbefore⟩ := idOf_objectFor_self h k now
    rw [hself]
    rcases hbefore with hknown | ⟨hnone, hfresh⟩
    · rw [hknown]
      exact tally_objectFor
    · rw [hnone]
      exact tally_objectFor.trans (h.fresh _ hfresh)
  · rw [idOf_objectFor_ne hk]
    split
    · exact tally_objectFor
    · rfl

theorem Books.objectFor (h : Books c w) : Books c (w.objectFor key now).2 where
  writing := by
    rw [objectFor_storage]
    exact h.writing
  cache k i hk := by
    by_cases hkey : k = key
    · subst hkey
      have hself := (idOf_objectFor_self h k now).1
      suffices hid : (w.objectFor k now).1 = i by rw [hself, hid]
      revert hk
      unfold MetricsWorld.objectFor
      split
      · rename_i i' hi'
        intro hk
        exact Option.some.inj (hi'.symm.trans hk)
      · intro hk
        simpa using hk
    · rw [idOf_objectFor_ne hkey]
      apply h.cache
      revert hk
      unfold MetricsWorld.objectFor
      split
      · exact id
      · simp [hkey]
  fresh i hi := by
    rw [tally_objectFor]
    exact h.fresh i fun hr => hi (registered_objectFor hr)
  sound i := by
    rw [tally_objectFor]
    exact h.sound i
  cells := by
    rw [cell_objectFor]
    exact h.cells

/-! ## Sampling a row -/

theorem bucket_setBucket {b : Bucket} : (w.setBucket j b).bucket i = if i = j then b else w.bucket i := by
  simp only [setBucket, bucket, withCollector_collector, Dict.getD, Dict.get?_set]
  split <;> rfl

theorem tally_setBucket {b : Bucket} (hcount : b.count c = (w.bucket j).count c)
    (hsamples : b.samples = (w.bucket j).samples) : tally c i (w.setBucket j b) = tally c i w := by
  unfold tally
  rw [bucket_setBucket]
  split
  · rename_i hi
    subst hi
    rw [hcount, hsamples]
    rfl
  · rfl

theorem tally_countCounter_ne {reading : Column × Int} (h : i ≠ j ∨ c ≠ reading.1) :
    tally c i (w.countCounter j now reading) = tally c i w := by
  have hbase : ((i, c) : Nat × Column) ≠ (j, reading.1) := by
    intro he
    rw [Prod.mk.injEq] at he
    exact h.elim (fun hi => hi he.1) (fun hc => hc he.2)
  have hbucket : ((w.countCounter j now reading).bucket i).count c = (w.bucket i).count c ∧
      ((w.countCounter j now reading).bucket i).samples = (w.bucket i).samples := by
    rw [countCounter, bucket_setBucket]
    split
    · rename_i hi
      subst hi
      simp [h.resolve_left (not_not.mpr rfl)]
    · exact ⟨rfl, rfl⟩
  unfold tally
  rw [hbucket.1, hbucket.2]
  simp [countCounter, setBucket, hbase]

theorem tally_countCounter_self {v : Int} (hs : (w.bucket i).samples ≠ 0) :
    tally c i (w.countCounter i now (c, v)) = (tally c i w).observe w.config.maxGap (now, v) := by
  unfold tally
  rw [countCounter, bucket_setBucket]
  simp [Tally.observe, setBucket, hs]

theorem tally_countCounters {l : List (Column × Int)} (hn : (l.map Prod.fst).Nodup) {v : Int}
    (hl : l.lookup c = some v) (hs : (w.bucket i).samples ≠ 0) :
    tally c i (l.foldl (fun w reading => w.countCounter i now reading) w) =
      (tally c i w).observe w.config.maxGap (now, v) := by
  induction l generalizing w with
  | nil => simp at hl
  | cons reading l ih =>
    simp only [List.map_cons, List.nodup_cons] at hn
    rw [List.foldl_cons]
    by_cases hc : c = reading.1
    · -- later columns are other ones
      obtain ⟨_, u⟩ := reading
      subst hc
      obtain rfl : u = v := by simpa using hl
      have hrest : ∀ w' : MetricsWorld, tally c i (l.foldl (fun w reading => w.countCounter i now reading) w') =
          tally c i w' := by
        clear ih hl
        induction l with
        | nil => exact fun _ => rfl
        | cons other l ih =>
          intro w'
          simp only [List.map_cons, List.nodup_cons, List.mem_cons, not_or] at hn
          rw [List.foldl_cons, ih ⟨hn.1.2, hn.2.2⟩, tally_countCounter_ne (Or.inr hn.1.1)]
      rw [hrest, tally_countCounter_self hs]
    · have hlook : l.lookup c = some v := by
        rwa [List.lookup_cons, beq_eq_false_iff_ne.mpr hc] at hl
      have hsame : tally c i (w.countCounter i now reading) = tally c i w := tally_countCounter_ne (Or.inr hc)
      have hsampled : ((w.countCounter i now reading).bucket i).samples ≠ 0 := by
        have := congrArg Tally.sampled hsame
        simpa [tally, hs] using this
      rw [ih hn.2 hlook hsampled, hsame]
      rfl

theorem tally_foldl {α : Type} {f : MetricsWorld → α → MetricsWorld} {l : List α}
    (h : ∀ w, ∀ a ∈ l, tally c i (f w a) = tally c i w) : tally c i (l.foldl f w) = tally c i w := by
  induction l generalizing w with
  | nil => rfl
  | cons a l ih =>
    rw [List.foldl_cons, ih fun w a ha => h w a (List.mem_cons_of_mem _ ha), h w a List.mem_cons_self]

theorem tally_setBucket_ne {b : Bucket} (h : i ≠ j) : tally c i (w.setBucket j b) = tally c i w := by
  unfold tally
  rw [bucket_setBucket, if_neg h]
  rfl

theorem tally_sampleRow_ne (h : i ≠ j) : tally c i (w.sampleRow j row now) = tally c i w := by
  simp only [sampleRow]
  rw [tally_foldl fun w g _ => tally_setBucket_ne h,
    tally_foldl fun w reading _ => tally_countCounter_ne (Or.inl h), tally_setBucket_ne h]

theorem tally_sample : tally c i (w.setBucket i (w.bucket i).sample) = { tally c i w with sampled := true } := by
  unfold tally
  rw [bucket_setBucket]
  simp [setBucket]

theorem tally_sampleRow_self (hc : c ∈ trafficCounters) :
    tally c i (w.sampleRow i row now) = (tally c i w).observe w.config.maxGap (now, row.reading c) := by
  have hgauge : ∀ (w : MetricsWorld) (g : Gauge × StatColumn),
      tally c i (w.setBucket i ((w.bucket i).addGauge g.1 (row.cell g.2))) = tally c i w :=
    fun w g => tally_setBucket Bucket.count_addGauge Bucket.samples_addGauge
  have hsampled : ((w.setBucket i (w.bucket i).sample).bucket i).samples ≠ 0 := by
    simp [bucket_setBucket]
  simp only [sampleRow]
  rw [tally_foldl fun w g _ => hgauge w g, tally_countCounters
    (by rw [StatRow.counters_fst]; exact trafficCounters_nodup) (StatRow.lookup_counters hc) hsampled, tally_sample]
  rfl

/-! ## The state of an object -/

theorem tally_trackState {status : String} : tally c i (w.trackState j status now) = tally c i w := by
  simp only [trackState]
  split
  · rfl
  · split
    · rfl
    · split <;> rfl

/-- Neither objects nor stored rows changed. -/
structure Frame (c : Column) (w w' : MetricsWorld) : Prop where
  config : w'.config = w.config
  storage : w'.storage = w.storage
  objects : w'.db.objects = w.db.objects
  objectIds : w'.collector.objectIds = w.collector.objectIds
  bucketTs : w'.collector.bucketTs = w.collector.bucketTs
  cells : cell c w' = cell c w

theorem Frame.refl : Frame c w w := ⟨rfl, rfl, rfl, rfl, rfl, rfl⟩

theorem Frame.trans {w' w'' : MetricsWorld} (h : Frame c w w') (h' : Frame c w' w'') : Frame c w w'' where
  config := h'.config.trans h.config
  storage := h'.storage.trans h.storage
  objects := h'.objects.trans h.objects
  objectIds := h'.objectIds.trans h.objectIds
  bucketTs := h'.bucketTs.trans h.bucketTs
  cells := h'.cells.trans h.cells

theorem Frame.foldl {α : Type} {f : MetricsWorld → α → MetricsWorld} {l : List α}
    (h : ∀ w a, Frame c w (f w a)) : Frame c w (l.foldl f w) := by
  induction l generalizing w with
  | nil => exact .refl
  | cons a l ih => exact (h w a).trans ih

theorem frame_setBucket {b : Bucket} : Frame c w (w.setBucket j b) := ⟨rfl, rfl, rfl, rfl, rfl, rfl⟩

theorem frame_sampleRow : Frame c w (w.sampleRow j row now) := by
  simp only [sampleRow]
  refine frame_setBucket.trans (Frame.trans (Frame.foldl fun w reading => ?_) (Frame.foldl fun w g => ?_))
  · exact ⟨rfl, rfl, rfl, rfl, rfl, rfl⟩
  · exact frame_setBucket

theorem frame_trackState {status : String} : Frame c w (w.trackState j status now) := by
  simp only [trackState]
  split
  · exact .refl
  · split
    · exact .refl
    · split
      · exact .refl
      · exact ⟨rfl, rfl, rfl, rfl, rfl, rfl⟩

theorem Books.frame {w' : MetricsWorld} (h : Books c w) (hf : Frame c w w')
    (hfresh : ∀ i, ¬ w.db.objects.Registered i → tally c i w' = tally c i w)
    (hsound : ∀ i, (tally c i w').Sound) : Books c w' where
  writing := hf.storage ▸ h.writing
  cache := by
    rw [hf.objectIds, hf.objects]
    exact h.cache
  fresh i hi := by
    rw [hf.objects] at hi
    exact (hfresh i hi).trans (h.fresh i hi)
  sound := hsound
  cells := hf.cells ▸ h.cells

/-! ## Polls -/

/-- The object of one name is registered if need be, and its tally alone changes. -/
structure Touches (c : Column) (key : ObjectKey) (now : Nat) (f : Tally → Tally) (w w' : MetricsWorld) :
    Prop where
  frame : Frame c (w.objectFor key now).2 w'
  tally : ∀ i, tally c i w' =
    if i = (w.objectFor key now).1 then f (MetricsWorld.tally c i w) else MetricsWorld.tally c i w

theorem Touches.config {f : Tally → Tally} {w' : MetricsWorld} (ht : Touches c key now f w w') :
    w'.config = w.config := ht.frame.config.trans objectFor_config

theorem Touches.sameMinute {f : Tally → Tally} {w' : MetricsWorld} (ht : Touches c key now f w w') :
    w'.collector.bucketTs = w.collector.bucketTs := ht.frame.bucketTs.trans objectFor_bucketTs

theorem Touches.books {f : Tally → Tally} {w' : MetricsWorld} (ht : Touches c key now f w w')
    (h : Books c w) (hf : ∀ t, Tally.Sound t → Tally.Sound (f t)) : Books c w' := by
  refine h.objectFor.frame ht.frame (fun i hi => ?_) (fun i => ?_)
  · have hne : i ≠ (w.objectFor key now).1 := by
      rintro rfl
      exact hi (Objects.registered_of_idOf (idOf_objectFor_self h key now).1)
    rw [ht.tally, if_neg hne, tally_objectFor]
  · rw [ht.tally]
    split
    · exact hf _ (h.sound i)
    · exact h.sound i

theorem Touches.account {f : Tally → Tally} {w' : MetricsWorld} (ht : Touches c key now f w w')
    (h : Books c w) : account c k w' = if k = key then f (account c k w) else account c k w := by
  obtain ⟨hself, -⟩ := idOf_objectFor_self h key now
  have hsame : MetricsWorld.account c k (w.objectFor key now).2 = MetricsWorld.account c k w :=
    account_objectFor h
  rw [← hsame]
  unfold MetricsWorld.account
  rw [ht.frame.objects]
  split
  · rename_i i hi
    rw [ht.tally, tally_objectFor]
    by_cases hk : k = key
    · subst hk
      rw [if_pos rfl, if_pos (Option.some.inj (hi.symm.trans hself))]
    · have hne : i ≠ (w.objectFor key now).1 := by
        rintro rfl
        exact hk (Objects.idOf_injective hi hself)
      rw [if_neg hk, if_neg hne]
  · rename_i hnone
    have hk : k ≠ key := by
      rintro rfl
      rw [hself] at hnone
      cases hnone
    rw [if_neg hk]

theorem observe_touches (hc : c ∈ trafficCounters) :
    Touches c key now (fun t => t.observe w.config.maxGap (now, row.reading c)) w (w.observe key row now) := by
  have hsampled : ∀ i, tally c i ((w.objectFor key now).2.sampleRow (w.objectFor key now).1 row now) =
      if i = (w.objectFor key now).1 then (tally c i w).observe w.config.maxGap (now, row.reading c)
      else tally c i w := by
    intro i
    split
    · rename_i hi
      rw [← hi, tally_sampleRow_self hc, tally_objectFor, objectFor_config]
    · rename_i hi
      rw [tally_sampleRow_ne hi, tally_objectFor]
  simp only [observe]
  split
  · exact ⟨frame_sampleRow.trans frame_trackState, fun i => tally_trackState.trans (hsampled i)⟩
  · exact ⟨frame_sampleRow, hsampled⟩

/-- The readings of a counter in one answer, in order. -/
def readingsIn (config : MetricsConfig) (key : ObjectKey) (c : Column) (now : Nat) (rows : List StatRow) :
    List (Nat × Int) :=
  (rows.filter fun row => collected config row = some key).map fun row => (now, row.reading c)

/-- Reading the rows of an answer one after another. -/
structure Observed (c : Column) (key : ObjectKey) (readings : List (Nat × Int)) (w w' : MetricsWorld) :
    Prop where
  books : Books c w'
  config : w'.config = w.config
  bucketTs : w'.collector.bucketTs = w.collector.bucketTs
  account : account c key w' = readings.foldl (Tally.observe w.config.maxGap) (account c key w)

theorem observed_rows (hc : c ∈ trafficCounters) {rows : List StatRow} (h : Books c w) :
    Observed c k (readingsIn w.config k c now rows) w (rows.foldl (fun w row => w.observeRow now row) w) := by
  induction rows generalizing w with
  | nil => exact ⟨h, rfl, rfl, rfl⟩
  | cons row rows ih =>
    rw [List.foldl_cons]
    cases hrow : collected w.config row with
    | none =>
      have hskip : w.observeRow now row = w := by simp [observeRow, hrow]
      have hreadings : readingsIn w.config k c now (row :: rows) = readingsIn w.config k c now rows := by
        simp [readingsIn, hrow]
      rw [hskip, hreadings]
      exact ih h
    | some key =>
      have htake : w.observeRow now row = w.observe key row now := by simp [observeRow, hrow]
      have htouches : Touches c key now (fun t => t.observe w.config.maxGap (now, row.reading c)) w
        (w.observe key row now) := observe_touches hc
      have hreadings : readingsIn w.config k c now (row :: rows) =
          (if k = key then [(now, row.reading c)] else []) ++ readingsIn w.config k c now rows := by
        by_cases hk : k = key
        · simp [readingsIn, hrow, hk]
        · simp [readingsIn, hrow, hk, Ne.symm hk]
      have hrest := ih (htouches.books h fun t ht => ht.observe)
      rw [htake, hreadings]
      refine ⟨hrest.books, hrest.config.trans htouches.config, hrest.bucketTs.trans htouches.sameMinute, ?_⟩
      rw [List.foldl_append, ← htouches.config, hrest.account, htouches.account h]
      split <;> simp [htouches.config]

/-! ## The machine's own rows -/

theorem HostReading.counters_not_traffic {reading : HostReading} {x : Column × Int}
    (h : x ∈ reading.counters) : x.1 ∉ trafficCounters := by
  unfold HostReading.counters at h
  rcases reading with ⟨_, _, _, _, diskIo, network, _⟩
  rcases diskIo with _ | ⟨a, b⟩ <;> rcases network with _ | ⟨e, f⟩ <;> simp at h
  · rcases h with rfl | rfl <;> simp [trafficCounters, counterColumns]
  · rcases h with rfl | rfl <;> simp [trafficCounters, counterColumns]
  · rcases h with rfl | rfl | rfl | rfl <;> simp [trafficCounters, counterColumns]

theorem count_addGauges {gauges : List (Gauge × Int)} {b : Bucket} :
    (gauges.foldl (fun b g => b.addGauge g.1 g.2) b).count c = b.count c ∧
      (gauges.foldl (fun b g => b.addGauge g.1 g.2) b).samples = b.samples := by
  induction gauges generalizing b with
  | nil => exact ⟨rfl, rfl⟩
  | cons g gauges ih => simpa using ih (b := b.addGauge g.1 g.2)

theorem count_addCounters {counters : List (Column × Int)} {b : Bucket}
    (h : ∀ x ∈ counters, c ≠ x.1) :
    (counters.foldl (fun b x => b.addCounter x.1 x.2) b).count c = b.count c ∧
      (counters.foldl (fun b x => b.addCounter x.1 x.2) b).samples = b.samples := by
  induction counters generalizing b with
  | nil => exact ⟨rfl, rfl⟩
  | cons x counters ih =>
    have hx := h x List.mem_cons_self
    simpa [hx] using ih (b := b.addCounter x.1 x.2) fun y hy => h y (List.mem_cons_of_mem _ hy)

theorem sampleMachine_touches {gauges : List (Gauge × Int)} {counters : List (Column × Int)}
    (h : ∀ x ∈ counters, c ≠ x.1) :
    Touches c key now Tally.touch w (w.sampleMachine key now gauges counters) := by
  simp only [sampleMachine]
  refine ⟨frame_setBucket, fun i => ?_⟩
  split
  · rename_i hi
    subst hi
    unfold MetricsWorld.tally
    rw [bucket_setBucket, if_pos rfl, (count_addCounters h).1, (count_addCounters h).2, count_addGauges.1,
      (count_addGauges (c := c)).2]
    have hsame : tally c (w.objectFor key now).1 (w.objectFor key now).2 =
      tally c (w.objectFor key now).1 w := tally_objectFor
    simp only [MetricsWorld.tally, Tally.mk.injEq] at hsame
    simp [Tally.touch, setBucket, hsame]
  · rename_i hi
    rw [tally_setBucket_ne hi, tally_objectFor]

/-- The machine's rows leave the readings of a counter as they are. -/
structure Unread (c : Column) (key : ObjectKey) (w w' : MetricsWorld) : Prop where
  books : Books c w'
  config : w'.config = w.config
  bucketTs : w'.collector.bucketTs = w.collector.bucketTs
  account : account c key w' = account c key w ∨ account c key w' = (account c key w).touch

theorem Unread.trans {w' w'' : MetricsWorld} (h : Unread c k w w') (h' : Unread c k w' w'') :
    Unread c k w w'' where
  books := h'.books
  config := h'.config.trans h.config
  bucketTs := h'.bucketTs.trans h.bucketTs
  account := by
    rcases h.account with he | he <;> rcases h'.account with he' | he' <;> simp [he, he', Tally.touch]

theorem unread_sampleMachine {gauges : List (Gauge × Int)} {counters : List (Column × Int)}
    (hn : ∀ x ∈ counters, c ≠ x.1) (h : Books c w) :
    Unread c k w (w.sampleMachine key now gauges counters) := by
  have ht : Touches c key now Tally.touch w (w.sampleMachine key now gauges counters) :=
    sampleMachine_touches hn
  refine ⟨ht.books h fun t hs => hs.touch, ht.config, ht.sameMinute, ?_⟩
  rw [ht.account h]
  split
  · exact Or.inr rfl
  · exact Or.inl rfl

theorem unread_observeHost (hc : c ∈ trafficCounters) {reading : MachineReading} (h : Books c w) :
    Unread c k w (w.observeHost reading now) := by
  have hrefl : ∀ w, Books c w → Unread c k w w := fun w h => ⟨h, rfl, rfl, Or.inl rfl⟩
  have hcomponents : ∀ (l : List ComponentReading) (w : MetricsWorld), Books c w →
      Unread c k w (l.foldl (fun w r => w.sampleMachine ⟨.component, r.name, r.group⟩ now r.gauges []) w) := by
    intro l
    induction l with
    | nil => exact hrefl
    | cons r l ih =>
      intro w h
      have hr : Unread c k w (w.sampleMachine ⟨.component, r.name, r.group⟩ now r.gauges []) :=
        unread_sampleMachine (by simp) h
      exact hr.trans (ih _ hr.books)
  simp only [observeHost]
  split
  · exact hrefl w h
  · have hhost : Unread c k w (w.sampleMachine ⟨.host, "", ""⟩ now
        (reading.host.asked w.collector.monitors).gauges (reading.host.asked w.collector.monitors).counters) :=
      unread_sampleMachine (fun x hx he => HostReading.counters_not_traffic hx (he ▸ hc)) h
    split
    · exact hhost.trans (hcomponents _ _ hhost.books)
    · exact hhost

end MetricsWorld

end EasyHaProxy.Metricsd
