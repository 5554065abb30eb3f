import EasyHaProxy.Guardd.Observations
import EasyHaProxy.Guardd.HostileLines
import Mathlib.Data.Int.Interval
import Mathlib.Data.Finset.Card

/-! A new context takes a saved row only where its host names, its times and its rule pass the checks of the
settings; the rows themselves are kept under whatever host the requests carried. -/
namespace EasyHaProxy.Guardd

open Text Python Validate

/-! ## Rows as they are kept -/

section Sound

variable {request : ParsedRequest} {now : Int} {action : DetectionAction} {rule : String}

structure StatsRow.Sound (row : StatsRow) : Prop where
  nodup : row.ips.Nodup
  few : row.ips.length ≤ 64
  words : ∀ ip ∈ row.ips, isWord ip = true
  fewHosts : row.hosts.entries.length ≤ 8
  shortHosts : ∀ e ∈ row.hosts.entries, truncate 253 e.1 = e.1
  counted : ∀ e ∈ row.hosts.entries, 0 ≤ e.2
  parts : 0 ≤ row.trusted ∧ 0 ≤ row.excepted ∧ 0 ≤ row.observe ∧ 0 ≤ row.enforce
  total : row.trusted + row.excepted + row.observe + row.enforce = row.hits

structure Bucket.Sound (bucket : Bucket) : Prop where
  missing : 0 ≤ bucket.missing
  good : 0 ≤ bucket.good
  total : bucket.missing + bucket.good ≤ bucket.total
  few : bucket.paths.length ≤ 32
  words : ∀ path ∈ bucket.paths, isWord path = true

structure SlowEntry.Sound (entry : SlowEntry) : Prop where
  some : entry.buckets.entries ≠ []
  window : ∀ e ∈ entry.buckets.entries, slotOf entry.last - 11 ≤ e.1 ∧ e.1 ≤ slotOf entry.last
  buckets : ∀ e ∈ entry.buckets.entries, e.2.Sound

structure Observations.Sound (o : Observations) : Prop where
  fewStats : o.stats.entries.length ≤ detectionMaxStats
  rows : ∀ e ∈ o.stats.entries, e.2.Sound
  fewSlow : o.slow.entries.length ≤ detectionMaxTracked
  entries : ∀ e ∈ o.slow.entries, e.2.Sound

theorem isWord_addressKey (text : String) : isWord (addressKey text) = true := by
  unfold addressKey
  generalize text.toUTF8.toList.foldl crcByte 0xffffffff ^^^ 0xffffffff = crc
  have hlt : crc.toNat < 2 ^ 32 := crc.toNat_lt
  simp only [isWord, Bool.and_eq_true, decide_eq_true_eq]
  omega

theorem truncate_truncate (n : Nat) (text : String) : truncate n (truncate n text) = truncate n text := by
  simp [truncate, List.take_take]

theorem StatsRow.sound_new : StatsRow.Sound { first := now, last := now } where
  nodup := List.nodup_nil
  few := Nat.zero_le 64
  words := nofun
  fewHosts := Nat.zero_le 8
  shortHosts := nofun
  counted := nofun
  parts := ⟨Int.le_refl 0, Int.le_refl 0, Int.le_refl 0, Int.le_refl 0⟩
  total := rfl

theorem length_addHost_le {hosts : Dict String Int} {host : String} (hfew : hosts.entries.length ≤ 8)
    (hshort : ∀ e ∈ hosts.entries, truncate 253 e.1 = e.1) : (addHost hosts host).entries.length ≤ 8 := by
  unfold addHost
  split
  · rename_i hroom
    rcases Nat.lt_or_ge hosts.entries.length 8 with hlt | hge
    · exact Dict.length_set_le.trans hlt
    · -- A host that is there is short, so its own count goes up.
      obtain ⟨v, hv⟩ := Dict.contains_iff.mp (hroom.resolve_right (not_lt.mpr hge))
      have hmem := Dict.mem_entries.mpr hv
      have hkey : host ∈ hosts.keys := List.mem_map.mpr ⟨_, hmem, rfl⟩
      have hsame := hshort (host, v) hmem
      dsimp only at hsame
      rw [hsame, Dict.set, dif_pos hkey]
      simpa using hfew
  · exact hfew

theorem StatsRow.Sound.count {row : StatsRow} (h : row.Sound) (now : Int) (action : DetectionAction) :
    ({ row with last := now, hits := row.hits + 1 }.count action).Sound := by
  obtain ⟨hnodup, hfew, hwords, hfewHosts, hshort, hcounted, ⟨h1, h2, h3, h4⟩, htotal⟩ := h
  cases action <;>
    exact ⟨hnodup, hfew, hwords, hfewHosts, hshort, hcounted,
      by simp only [StatsRow.count]; omega, by simp only [StatsRow.count]; omega⟩

theorem StatsRow.Sound.note {row : StatsRow} (h : row.Sound) (request : ParsedRequest) (now : Int)
    (action : DetectionAction) : (row.note request now action).Sound := by
  have hcount := h.count now action
  unfold StatsRow.note
  dsimp only
  generalize ({ row with last := now, hits := row.hits + 1 } : StatsRow).count action = counted at hcount
  refine ⟨?_, ?_, ?_, length_addHost_le hcount.fewHosts hcount.shortHosts, ?_, ?_, hcount.parts, hcount.total⟩
  · change (addIp _ _).Nodup
    unfold addIp
    split
    · exact hcount.nodup.insert
    · exact hcount.nodup
  · change (addIp _ _).length ≤ 64
    unfold addIp
    split
    · rename_i hroom
      by_cases hmem : addressKey request.clientIp ∈ counted.ips
      · rw [List.length_insert_of_mem hmem]
        exact hcount.few
      · rw [List.length_insert_of_not_mem hmem]
        exact hroom
    · exact hcount.few
  · change ∀ ip ∈ addIp _ _, _
    unfold addIp
    split
    · intro ip hip
      rcases List.mem_insert_iff.mp hip with rfl | hold
      · exact isWord_addressKey _
      · exact hcount.words ip hold
    · exact hcount.words
  · change ∀ e ∈ (addHost _ _).entries, _
    unfold addHost
    split
    · rintro ⟨host, n⟩ he
      rcases Dict.mem_entries_set.mp he with ⟨rfl, -⟩ | ⟨-, hold⟩
      · exact truncate_truncate _ _
      · exact hcount.shortHosts _ hold
    · exact hcount.shortHosts
  · change ∀ e ∈ (addHost _ _).entries, _
    unfold addHost
    split
    · rintro ⟨host, n⟩ he
      rcases Dict.mem_entries_set.mp he with ⟨-, rfl⟩ | ⟨-, hold⟩
      · have hbefore : 0 ≤ counted.hosts.getD (truncate 253 request.host) 0 := by
          unfold Dict.getD
          cases hget : counted.hosts.get? (truncate 253 request.host) with
          | none => exact Int.le_refl 0
          | some n => exact hcount.counted _ (Dict.mem_entries.mpr hget)
        exact Int.le_add_one hbefore
      · exact hcount.counted _ hold
    · exact hcount.counted

theorem Observations.Sound.rowFor {o : Observations} (h : o.Sound) (rule : String) (now : Int) :
    (o.rowFor rule now).Sound := by
  unfold Observations.rowFor
  cases hget : o.stats.get? rule with
  | none => exact StatsRow.sound_new
  | some row =>
    change (if detectionTtl ≤ now - row.first then _ else row : StatsRow).Sound
    split
    · exact StatsRow.sound_new
    · exact h.rows _ (Dict.mem_entries.mpr hget)

theorem Observations.Sound.note {o : Observations} (h : o.Sound) (rule : String) (request : ParsedRequest)
    (now : Int) (action : DetectionAction) : (o.note rule request now action).Sound where
  fewStats := length_putLast_le
  rows e he := by
    rcases mem_putLast he with rfl | hold
    · exact (h.rowFor rule now).note request now action
    · exact h.rows e hold
  fewSlow := h.fewSlow
  entries := h.entries

theorem Bucket.sound_new : Bucket.Sound {} :=
  ⟨Int.le_refl 0, Int.le_refl 0, Int.le_refl 0, Nat.zero_le 32, nofun⟩

theorem Bucket.Sound.add {bucket : Bucket} (h : bucket.Sound) (request : ParsedRequest) :
    (bucket.add request).Sound := by
  obtain ⟨hmissing, hgood, htotal, hfew, hwords⟩ := h
  unfold Bucket.add
  dsimp only
  split
  · refine ⟨?_, hgood, ?_, ?_, ?_⟩
    · change 0 ≤ bucket.missing + 1
      omega
    · change bucket.missing + 1 + bucket.good ≤ bucket.total + 1
      omega
    · change (addPath _ _).length ≤ 32
      unfold addPath
      split
      · rename_i hroom
        rw [List.length_append, List.length_singleton]
        exact hroom.1
      · exact hfew
    · change ∀ path ∈ addPath _ _, _
      unfold addPath
      split
      · intro path hpath
        rcases List.mem_append.mp hpath with hold | hnew
        · exact hwords path hold
        · rw [List.mem_singleton.mp hnew]
          exact isWord_addressKey _
      · exact hwords
  split
  · refine ⟨hmissing, ?_, ?_, hfew, hwords⟩
    · change 0 ≤ bucket.good + 1
      omega
    · change bucket.missing + (bucket.good + 1) ≤ bucket.total + 1
      omega
  · refine ⟨hmissing, hgood, ?_, hfew, hwords⟩
    change bucket.missing + bucket.good ≤ bucket.total + 1
    omega

theorem slotOf_mono {a b : Int} (h : a ≤ b) : slotOf a ≤ slotOf b := Int.ediv_le_ediv (by decide) h

/-- An entry before a request: no window is after its last request. -/
theorem Observations.Sound.entryFor {o : Observations} (h : o.Sound) (key : String × String) (now : Int) :
    now ≤ (o.entryFor key now).last ∧
      ∀ e ∈ (o.entryFor key now).buckets.entries, e.1 ≤ slotOf (o.entryFor key now).last ∧ e.2.Sound := by
  unfold Observations.entryFor
  refine ⟨Int.le_max_right _ _, fun e he => ?_⟩
  change e ∈ ((o.slow.get? key).getD { last := now }).buckets.entries at he
  change e.1 ≤ slotOf (max ((o.slow.get? key).getD { last := now }).last now) ∧ _
  cases hget : o.slow.get? key with
  | none =>
    rw [hget] at he
    cases he
  | some entry =>
    rw [hget] at he
    have hsound := h.entries _ (Dict.mem_entries.mpr hget)
    exact ⟨(hsound.window e he).2.trans (slotOf_mono (Int.le_max_left _ _)), hsound.buckets e he⟩

theorem SlowEntry.sound_add {entry : SlowEntry} (hnow : now ≤ entry.last)
    (hwindow : slotOf entry.last - 11 ≤ slotOf now)
    (h : ∀ e ∈ entry.buckets.entries, e.1 ≤ slotOf entry.last ∧ e.2.Sound) (request : ParsedRequest) :
    (entry.add request now).Sound := by
  obtain ⟨kept, hkept⟩ : ∃ kept, kept = entry.buckets.filter fun slot _ => slotOf entry.last - 11 ≤ slot := ⟨_, rfl⟩
  have hold : ∀ e ∈ kept.entries, slotOf entry.last - 11 ≤ e.1 ∧ e.1 ≤ slotOf entry.last ∧ e.2.Sound := by
    rw [hkept]
    intro e he
    obtain ⟨hmem, hin⟩ := List.mem_filter.mp he
    exact ⟨by simpa using hin, h e hmem⟩
  have hbucket : ((kept.get? (slotOf now)).getD {}).Sound := by
    cases hget : kept.get? (slotOf now) with
    | none => exact Bucket.sound_new
    | some bucket => exact (hold _ (Dict.mem_entries.mpr hget)).2.2
  unfold SlowEntry.add
  dsimp only
  rw [← hkept]
  refine ⟨fun hnil => ?_, ?_, ?_⟩
  · have hmem : (slotOf now, ((kept.get? (slotOf now)).getD {}).add request) ∈
        (kept.set (slotOf now) (((kept.get? (slotOf now)).getD {}).add request)).entries :=
      Dict.mem_entries_set.mpr (Or.inl ⟨rfl, rfl⟩)
    rw [hnil] at hmem
    cases hmem
  · rintro ⟨slot, bucket⟩ he
    rcases Dict.mem_entries_set.mp he with ⟨rfl, -⟩ | ⟨-, he⟩
    · exact ⟨hwindow, slotOf_mono hnow⟩
    · exact ⟨(hold _ he).1, (hold _ he).2.1⟩
  · rintro ⟨slot, bucket⟩ he
    rcases Dict.mem_entries_set.mp he with ⟨-, rfl⟩ | ⟨-, he⟩
    · exact hbucket.add request
    · exact (hold _ he).2.2

/-- A request before the windows leaves its entry as it was. -/
theorem Observations.entryFor_of_late {o : Observations} {key : String × String}
    (h : slotOf now < slotOf (o.entryFor key now).last - 11) : o.slow.get? key = some (o.entryFor key now) := by
  unfold Observations.entryFor at h ⊢
  dsimp only at h ⊢
  cases hget : o.slow.get? key with
  | none =>
    rw [hget, Option.getD_none, Int.max_self] at h
    change slotOf now < slotOf now - 11 at h
    omega
  | some entry =>
    rw [hget, Option.getD_some] at h
    rw [Option.getD_some]
    by_cases hle : now ≤ entry.last
    · rw [Int.max_eq_left hle]
    · rw [Int.max_eq_right (by omega)] at h
      omega

variable {py : Interpreter} {patterns : Patterns}

theorem Observations.Sound.observeSlow {o : Observations} (h : o.Sound) (config : DetectionSettings)
    (request : ParsedRequest) (now : Int) (handled : Bool) :
    (o.observeSlow py patterns config request now handled).Sound := by
  unfold Observations.observeSlow
  split
  · exact h
  dsimp only
  generalize (request.clientIp, truncate 253 request.host) = key
  obtain ⟨hnow, hentry⟩ := h.entryFor key now
  split
  · rename_i hlate
    have hget := Observations.entryFor_of_late hlate
    have hsound := h.entries _ (Dict.mem_entries.mpr hget)
    refine ⟨h.fewStats, h.rows, ?_, ?_⟩
    · have hkey : key ∈ o.slow.keys := Dict.mem_keys.mpr (by rw [hget]; rfl)
      change (o.slow.set key _).entries.length ≤ _
      rw [Dict.set, dif_pos hkey]
      simpa using h.fewSlow
    · rintro ⟨k, entry⟩ he
      rcases Dict.mem_entries_set.mp he with ⟨-, rfl⟩ | ⟨-, hold⟩
      · exact hsound
      · exact h.entries _ hold
  · rename_i hin
    have hadded := SlowEntry.sound_add hnow (by omega) hentry request
    generalize (o.entryFor key now).add request now = entry at hadded
    have hnext : Observations.Sound { o with
        slow := putLast detectionMaxTracked o.slow key entry
        evictions := o.evictions + droppedBy detectionMaxTracked o.slow key } := by
      refine ⟨h.fewStats, h.rows, length_putLast_le, fun e he => ?_⟩
      rcases mem_putLast he with rfl | hold
      · exact hadded
      · exact h.entries e hold
    split
    · exact hnext.note _ request now _
    · exact hnext

theorem Observations.Sound.prune {o : Observations} (h : o.Sound) (now : Int) : (o.prune now).Sound where
  fewStats := (List.length_filter_le _ _).trans h.fewStats
  rows e he := h.rows e (List.mem_filter.mp he).1
  fewSlow := (List.length_filter_le _ _).trans h.fewSlow
  entries e he := h.entries e (List.mem_filter.mp he).1

/-! ## Any run of a context -/

inductive ObservationOp
  | note (rule : String) (request : ParsedRequest) (now : Int) (action : DetectionAction)
  | slow (config : DetectionSettings) (request : ParsedRequest) (now : Int) (handled : Bool)
  | persist (now : Int) (force : Bool)

def Observations.step (py : Interpreter) (patterns : Patterns) (o : Observations) : ObservationOp → Observations
  | .note rule request now action => o.note rule request now action
  | .slow config request now handled => o.observeSlow py patterns config request now handled
  | .persist now force => (o.persist now force).1

theorem Observations.sound_new : Observations.Sound {} :=
  ⟨Nat.zero_le _, nofun, Nat.zero_le _, nofun⟩

theorem Observations.Sound.step {o : Observations} (h : o.Sound) (op : ObservationOp) :
    (o.step py patterns op).Sound := by
  cases op with
  | note rule request now action => exact h.note rule request now action
  | slow config request now handled => exact h.observeSlow config request now handled
  | persist now force =>
    change (o.persist now force).1.Sound
    unfold Observations.persist
    split
    · exact h
    · exact h.prune now

theorem Observations.sound_run (ops : List ObservationOp) :
    (Machine.run (Observations.step py patterns) {} ops).Sound := by
  induction ops using List.reverseRecOn with
  | nil => exact Observations.sound_new
  | append_singleton ops op ih =>
    rw [Machine.run_append]
    exact ih.step op

end Sound

/-! ## What comes back -/

section Restored

variable {known : List String} {now : Int} {rule host : String} {key : String × String}

/-- The same row; a set of addresses has no order. -/
def StatsRow.Same (row row' : StatsRow) : Prop := ∃ ips, ips.Perm row.ips ∧ row' = { row with ips := ips }

/-- The same window; its paths are looked at as a set. -/
def Bucket.Same (bucket bucket' : Bucket) : Prop :=
  ∃ paths, paths.Perm bucket.paths ∧ bucket' = { bucket with paths := paths }

structure SlowEntry.Same (entry entry' : SlowEntry) : Prop where
  last : entry'.last = entry.last
  buckets : ∀ slot, Option.Rel Bucket.Same (entry.buckets.get? slot) (entry'.buckets.get? slot)

/-- A host name as a new context reads it. -/
def Canonical (host : String) : Prop := detectionHost (.str host) = .ok host

instance : Decidable (Canonical host) := inferInstanceAs (Decidable (detectionHost (.str host) = .ok host))

/-- A row a new context takes as it is. -/
structure StatsRow.Fits (known : List String) (now : Int) (rule : String) (row : StatsRow) : Prop where
  known : known.contains rule = true
  ordered : row.first ≤ row.last
  past : row.last ≤ now + 60
  count : row.hits ≤ 10 ^ 12
  hosts : ∀ e ∈ row.hosts.entries, Canonical e.1

/-- An entry a new context takes as it is. -/
structure SlowEntry.Fits (now : Int) (key : String × String) (entry : SlowEntry) : Prop where
  ip : (ipVersion key.1).isSome = true
  host : Canonical key.2
  past : entry.last ≤ now + 60
  window : ∀ e ∈ entry.buckets.entries, slotOf now - 11 ≤ e.1 ∧ e.1 ≤ slotOf now
  count : ∀ e ∈ entry.buckets.entries, e.2.total ≤ 10 ^ 12

theorem canonical_of_detectionHost {value : Json} (h : detectionHost value = .ok host) : Canonical host :=
  detectionHost_again h

/-- What a new context takes fits. -/
theorem fits_of_restoreStats {saved : SavedStats} {row : StatsRow}
    (h : restoreStats known now saved = .ok (some (rule, row))) : row.Fits known now rule := by
  unfold restoreStats at h
  split at h
  · rename_i hpassed
    simp only [bind_eq_ok, require_eq_ok, pure_eq_ok, exists_const] at h
    obtain ⟨hcounts, hosts, hhosts, -, hrow⟩ := h
    obtain ⟨rfl, rfl⟩ := Prod.mk.inj (Option.some.inj hrow)
    refine ⟨hpassed.1, hpassed.2.2, hpassed.2.1.2, ?_, ?_⟩
    · have hhits := hcounts _ List.mem_cons_self
      simp only [isCount, Bool.and_eq_true, decide_eq_true_eq] at hhits
      exact hhits.2
    · intro e he
      obtain ⟨e', -, hread⟩ := mem_of_mapM_ok hhosts (Dict.mem_of_mem_ofPairs he)
      cases hhost : detectionHost (.str e'.1) with
      | error err =>
        rw [hhost] at hread
        cases hread
      | ok host =>
        rw [hhost] at hread
        obtain rfl := Except.ok.inj hread
        exact canonical_of_detectionHost hhost
  · cases h

theorem of_restoreBucket {saved : SavedBucket} {slot : Int} {bucket : Bucket}
    (h : restoreBucket now saved = .ok (some (slot, bucket))) :
    (slotOf now - 11 ≤ slot ∧ slot ≤ slotOf now) ∧ bucket.total ≤ 10 ^ 12 := by
  unfold restoreBucket at h
  split at h
  · rename_i hwindow
    simp only [bind_eq_ok, require_eq_ok, pure_eq_ok, exists_const] at h
    obtain ⟨hcounts, -, hrow⟩ := h
    obtain ⟨rfl, rfl⟩ := Prod.mk.inj (Option.some.inj hrow)
    have htotal := hcounts.1 saved.total (by simp)
    simp only [isCount, Bool.and_eq_true, decide_eq_true_eq] at htotal
    exact ⟨hwindow, htotal.2⟩
  · cases h

theorem fits_of_restoreSlow {saved : SavedSlow} {entry : SlowEntry}
    (h : restoreSlow now saved = .ok (some (key, entry))) : entry.Fits now key := by
  unfold restoreSlow at h
  simp only [bind_eq_ok, require_eq_ok, exists_const] at h
  obtain ⟨hip, host, hhost, buckets, hbuckets, h⟩ := h
  have hread : ∀ e ∈ (Dict.ofPairs (buckets.filterMap id)).entries,
      (slotOf now - 11 ≤ e.1 ∧ e.1 ≤ slotOf now) ∧ e.2.total ≤ 10 ^ 12 := by
    intro e he
    obtain ⟨o, ho, hsome⟩ := List.mem_filterMap.mp (Dict.mem_of_mem_ofPairs he)
    obtain rfl : o = some e := hsome
    obtain ⟨saved, -, hsaved⟩ := mem_of_mapM_ok hbuckets ho
    exact of_restoreBucket hsaved
  split at h
  · rename_i hlast
    obtain ⟨rfl, rfl⟩ := Prod.mk.inj (Option.some.inj (pure_eq_ok.mp h))
    exact ⟨hip, canonical_of_detectionHost hhost, hlast.2.2, fun e he => (hread e he).1, fun e he => (hread e he).2⟩
  · cases pure_eq_ok.mp h

/-! ## What fits comes back -/

theorem sorted_perm (l : List Int) : (sorted l).Perm l := List.perm_insertionSort _ l

/-- A row as it comes back. -/
def StatsRow.reread (row : StatsRow) : StatsRow := { row with ips := sorted row.ips }

def Bucket.reread (bucket : Bucket) : Bucket := { bucket with paths := sorted bucket.paths }

def SlowEntry.reread (entry : SlowEntry) : SlowEntry :=
  { entry with buckets := entry.buckets.mapValues fun _ bucket => bucket.reread }

theorem StatsRow.same_reread (row : StatsRow) : row.Same row.reread := ⟨_, sorted_perm row.ips, rfl⟩

theorem SlowEntry.same_reread (entry : SlowEntry) : entry.Same entry.reread where
  last := rfl
  buckets slot := by
    change Option.Rel _ _ ((entry.buckets.mapValues fun _ bucket => bucket.reread).get? slot)
    rw [Dict.get?_mapValues]
    cases entry.buckets.get? slot with
    | none => exact .none
    | some bucket => exact .some ⟨_, sorted_perm bucket.paths, rfl⟩

theorem restoreStats_save {row : StatsRow} (hs : row.Sound) (hf : row.Fits known now rule)
    (hlast : now - detectionTtl ≤ row.last) :
    restoreStats known now (row.save rule) = .ok (some (rule, row.reread)) := by
  obtain ⟨h1, h2, h3, h4⟩ := hs.parts
  have htotal := hs.total
  have hcount := hf.count
  have hips : ∀ ip ∈ sorted row.ips, isWord ip = true := fun ip hip => hs.words ip ((sorted_perm _).mem_iff.mp hip)
  have htake : (sorted row.ips).take 64 = sorted row.ips :=
    List.take_of_length_le ((sorted_perm _).length_eq.trans_le hs.few)
  have hdedup : (sorted row.ips).dedup = sorted row.ips := ((sorted_perm _).nodup_iff.mpr hs.nodup).dedup
  unfold restoreStats
  rw [if_pos ⟨hf.known, ⟨hlast, hf.past⟩, hf.ordered⟩]
  simp only [bind_eq_ok, require_eq_ok, pure_eq_ok, exists_const]
  refine ⟨?_, row.hosts.entries, ?_, ⟨?_, hs.counted⟩, ?_⟩
  · intro n hn
    simp only [StatsRow.save, List.mem_cons, List.not_mem_nil, or_false] at hn
    simp only [isCount, Bool.and_eq_true, decide_eq_true_eq]
    rcases hn with rfl | rfl | rfl | rfl | rfl <;> omega
  · change (row.hosts.entries.take 8).mapM _ = _
    rw [List.take_of_length_le hs.fewHosts]
    conv_lhs => rw [← List.map_id row.hosts.entries]
    apply mapM_map_eq_ok
    intro e he
    have hhost : detectionHost (.str e.1) = .ok e.1 := hf.hosts e he
    rw [id, hhost]
    rfl
  · change ∀ ip ∈ (sorted row.ips).take 64, _
    rwa [htake]
  · change some (rule, StatsRow.mk _ _ _ _ _ _ _ ((sorted row.ips).take 64).dedup _) = _
    rw [htake, hdedup, Dict.ofPairs_entries]
    rfl

theorem restoreBucket_save {slot : Int} {bucket : Bucket} (hs : bucket.Sound)
    (hwindow : slotOf now - 11 ≤ slot ∧ slot ≤ slotOf now) (hcount : bucket.total ≤ 10 ^ 12) :
    restoreBucket now (bucket.save slot) = .ok (some (slot, bucket.reread)) := by
  obtain ⟨hmissing, hgood, htotal, hfew, hwords⟩ := hs
  have htake : (sorted bucket.paths).take 32 = sorted bucket.paths :=
    List.take_of_length_le ((sorted_perm _).length_eq.trans_le hfew)
  have hin : slotOf now - 11 ≤ (bucket.save slot).slot ∧ (bucket.save slot).slot ≤ slotOf now := hwindow
  unfold restoreBucket
  rw [if_pos hin]
  simp only [bind_eq_ok, require_eq_ok, pure_eq_ok, exists_const]
  refine ⟨⟨?_, htotal⟩, ?_, ?_⟩
  · intro n hn
    simp only [Bucket.save, List.mem_cons, List.not_mem_nil, or_false] at hn
    simp only [isCount, Bool.and_eq_true, decide_eq_true_eq]
    rcases hn with rfl | rfl | rfl <;> omega
  · change ∀ path ∈ (sorted bucket.paths).take 32, _
    rw [htake]
    exact fun path hpath => hwords path ((sorted_perm _).mem_iff.mp hpath)
  · change some (slot, Bucket.mk _ _ _ ((sorted bucket.paths).take 32)) = _
    rw [htake]
    rfl

/-- No more than twelve windows fit. -/
theorem SlowEntry.Sound.length_le {entry : SlowEntry} (h : entry.Sound) : entry.buckets.entries.length ≤ 12 := by
  have hsubset : entry.buckets.keys.toFinset ⊆ Finset.Icc (slotOf entry.last - 11) (slotOf entry.last) := by
    intro slot hslot
    obtain ⟨e, he, rfl⟩ := List.mem_map.mp (List.mem_toFinset.mp hslot)
    exact Finset.mem_Icc.mpr (h.window e he)
  have hcard := Finset.card_le_card hsubset
  have hnodup : entry.buckets.keys.Nodup := entry.buckets.nodup
  rw [List.toFinset_card_of_nodup hnodup, Int.card_Icc] at hcard
  have hlen : entry.buckets.keys.length = entry.buckets.entries.length := List.length_map _
  omega

theorem restoreSlow_save {entry : SlowEntry} (hs : entry.Sound) (hf : entry.Fits now key)
    (hlast : now - slowTtl ≤ entry.last) :
    restoreSlow now (entry.save key) = .ok (some (key, entry.reread)) := by
  have hread : ((entry.save key).buckets.take 12).mapM (restoreBucket now) =
      .ok (entry.reread.buckets.entries.map some) := by
    change ((entry.buckets.entries.map fun e => e.2.save e.1).take 12).mapM _ = _
    rw [List.take_of_length_le (by rw [List.length_map]; exact hs.length_le)]
    change _ = Except.ok ((entry.buckets.entries.map fun e => (e.1, e.2.reread)).map some)
    have hall : ∀ l : List (Int × Bucket), (∀ e ∈ l, e ∈ entry.buckets.entries) →
        (l.map fun e => e.2.save e.1).mapM (restoreBucket now) =
          .ok ((l.map fun e => (e.1, e.2.reread)).map some) := by
      intro l hl
      induction l with
      | nil => rfl
      | cons e l ih =>
        have he := hl e List.mem_cons_self
        rw [List.map_cons, mapM_cons_eq_ok]
        exact ⟨_, _, restoreBucket_save (hs.buckets e he) (hf.window e he) (hf.count e he),
          ih fun e' he' => hl e' (List.mem_cons_of_mem _ he'), rfl⟩
    exact hall _ fun e he => he
  have hsome : (entry.reread.buckets.entries.map some).filterMap id = entry.reread.buckets.entries := by
    simp
  unfold restoreSlow
  simp only [bind_eq_ok, require_eq_ok, exists_const]
  refine ⟨hf.ip, key.2, hf.host, _, hread, ?_⟩
  rw [hsome, Dict.ofPairs_entries, if_pos]
  · rfl
  · refine ⟨?_, hlast, hf.past⟩
    intro hnil
    exact hs.some (List.map_eq_nil_iff.mp hnil)

/-! ## A restart -/

variable {py : Interpreter} {patterns : Patterns} {o : Observations}

/-- Every rule of the last day and every entry of the last six hours is there as it was. -/
structure Observations.Survive (now : Int) (o o' : Observations) : Prop where
  stats : ∀ rule row, o.stats.get? rule = some row → now - detectionTtl ≤ row.last →
    ∃ row', o'.stats.get? rule = some row' ∧ row.Same row'
  slow : ∀ key entry, o.slow.get? key = some entry → now - slowTtl ≤ entry.last →
    ∃ entry', o'.slow.get? key = some entry' ∧ entry.Same entry'

/-- All that is to come back is what a new context takes. -/
structure Observations.Fit (known : List String) (now : Int) (o : Observations) : Prop where
  stats : ∀ rule row, o.stats.get? rule = some row → now - detectionTtl ≤ row.last → row.Fits known now rule
  slow : ∀ key entry, o.slow.get? key = some entry → now - slowTtl ≤ entry.last → entry.Fits now key

theorem restored?_eq_some {α β : Type} {x : Except α (Option β)} {b : β} :
    restored? x = some b ↔ x = .ok (some b) := by
  cases x with
  | error e => simp [restored?, Except.toOption]
  | ok o => cases o <;> simp [restored?, Except.toOption]

theorem mem_restore_stats {saved : Saved} {row : StatsRow}
    (h : (Observations.restore known now saved).stats.get? rule = some row) : row.Fits known now rule := by
  obtain ⟨x, hx, hsome⟩ := List.mem_filterMap.mp (Dict.mem_of_mem_ofPairs (Dict.mem_entries.mpr h))
  obtain ⟨row, -, rfl⟩ := List.mem_map.mp hx
  exact fits_of_restoreStats (restored?_eq_some.mp hsome)

theorem mem_restore_slow {saved : Saved} {entry : SlowEntry}
    (h : (Observations.restore known now saved).slow.get? key = some entry) : entry.Fits now key := by
  obtain ⟨x, hx, hsome⟩ := List.mem_filterMap.mp (Dict.mem_of_mem_ofPairs (Dict.mem_entries.mpr h))
  obtain ⟨row, -, rfl⟩ := List.mem_map.mp hx
  exact fits_of_restoreSlow (restored?_eq_some.mp hsome)

theorem StatsRow.Same.fits {row row' : StatsRow} (h : row.Same row') (hf : row'.Fits known now rule) :
    row.Fits known now rule := by
  obtain ⟨ips, -, rfl⟩ := h
  exact ⟨hf.known, hf.ordered, hf.past, hf.count, hf.hosts⟩

theorem SlowEntry.Same.fits {entry entry' : SlowEntry} (h : entry.Same entry') (hf : entry'.Fits now key) :
    entry.Fits now key := by
  -- Every window of the entry is one of the other, with the same counts.
  have hwindow : ∀ e ∈ entry.buckets.entries, ∃ bucket, (e.1, bucket) ∈ entry'.buckets.entries ∧
      bucket.total = e.2.total := by
    intro e he
    have hrel := h.buckets e.1
    rw [Dict.mem_entries.mp he] at hrel
    cases hget : entry'.buckets.get? e.1 with
    | none =>
      rw [hget] at hrel
      cases hrel
    | some bucket =>
      rw [hget] at hrel
      cases hrel with
      | some hsame =>
        obtain ⟨paths, -, rfl⟩ := hsame
        exact ⟨_, Dict.mem_entries.mpr hget, rfl⟩
  refine ⟨hf.ip, hf.host, h.last ▸ hf.past, ?_, ?_⟩
  · intro e he
    obtain ⟨bucket, hmem, -⟩ := hwindow e he
    exact hf.window (e.1, bucket) hmem
  · intro e he
    obtain ⟨bucket, hmem, htotal⟩ := hwindow e he
    exact htotal ▸ hf.count _ hmem

/-- Rows that are all taken come back as one dictionary. -/
theorem ofPairs_restored {κ α ν α' : Type} [DecidableEq κ] {d : Dict κ ν} (save : κ × ν → α)
    (again : κ → ν → ν) {limit : Nat} {read : α → Except α' (Option (κ × ν))} (hlen : d.entries.length ≤ limit)
    (h : ∀ e ∈ d.entries, read (save e) = .ok (some (e.1, again e.1 e.2))) :
    Dict.ofPairs ((((d.entries.map save).take limit).map read).filterMap restored?) = d.mapValues again := by
  rw [List.take_of_length_le (by rwa [List.length_map]), List.map_map, List.filterMap_map]
  have hpairs : d.entries.filterMap (restored? ∘ read ∘ save) = (d.mapValues again).entries := by
    change _ = d.entries.map fun e => (e.1, again e.1 e.2)
    rw [← List.filterMap_eq_map]
    apply List.filterMap_congr
    intro e he
    exact restored?_eq_some.mpr (h e he)
  rw [hpairs, Dict.ofPairs_entries]

theorem survive_of_fit (hs : o.Sound) (hf : o.Fit known now) :
    Observations.Survive now o (.restore known now (o.prune now).save) := by
  have hpruned := hs.prune now
  have hstats : (Observations.restore known now (o.prune now).save).stats =
      (o.prune now).stats.mapValues fun _ row => row.reread := by
    refine ofPairs_restored (fun e => e.2.save e.1) (fun _ row => row.reread) hpruned.fewStats ?_
    rintro ⟨rule, row⟩ he
    obtain ⟨hmem, hlast⟩ := List.mem_filter.mp he
    rw [decide_eq_true_eq] at hlast
    exact restoreStats_save (hpruned.rows _ he) (hf.stats rule row (Dict.mem_entries.mp hmem) hlast) hlast
  have hslow : (Observations.restore known now (o.prune now).save).slow =
      (o.prune now).slow.mapValues fun _ entry => entry.reread := by
    refine ofPairs_restored (fun e => e.2.save e.1) (fun _ entry => entry.reread) hpruned.fewSlow ?_
    rintro ⟨key, entry⟩ he
    obtain ⟨hmem, hlast⟩ := List.mem_filter.mp he
    rw [decide_eq_true_eq] at hlast
    exact restoreSlow_save (hpruned.entries _ he) (hf.slow key entry (Dict.mem_entries.mp hmem) hlast) hlast
  constructor
  · intro rule row hget hlast
    refine ⟨row.reread, ?_, row.same_reread⟩
    rw [hstats, Dict.get?_mapValues]
    change ((o.stats.filter _).get? rule).map _ = _
    rw [Dict.get?_filter, hget, Option.filter_some, if_pos (decide_eq_true hlast)]
    rfl
  · intro key entry hget hlast
    refine ⟨entry.reread, ?_, entry.same_reread⟩
    rw [hslow, Dict.get?_mapValues]
    change ((o.slow.filter _).get? key).map _ = _
    rw [Dict.get?_filter, hget, Option.filter_some, if_pos (decide_eq_true hlast)]
    rfl

/-- The observations of any run survive a save and a restart at one time exactly when a new context
takes every row of them. -/
theorem observations_survive_iff (py : Interpreter) (patterns : Patterns) (known : List String)
    (ops : List ObservationOp) (now : Int) :
    let o := Machine.run (Observations.step py patterns) {} ops
    ∀ force saved, (o.persist now force).2 = some saved →
      (Observations.Survive now o (.restore known now saved) ↔ o.Fit known now) := by
  intro o force saved hsaved
  have hs : o.Sound := Observations.sound_run ops
  obtain rfl : saved = (o.prune now).save := by
    unfold Observations.persist at hsaved
    split at hsaved
    · cases hsaved
    · exact (Option.some.inj hsaved).symm
  constructor
  · intro h
    constructor
    · intro rule row hget hlast
      obtain ⟨row', hget', hsame⟩ := h.stats rule row hget hlast
      exact hsame.fits (mem_restore_stats hget')
    · intro key entry hget hlast
      obtain ⟨entry', hget', hsame⟩ := h.slow key entry hget hlast
      exact hsame.fits (mem_restore_slow hget')
  · exact survive_of_fit hs

end Restored

def probeOf (host : String) : ParsedRequest where
  clientIp := "10.0.0.1"
  status := 404
  backend := "web"
  path := "/dump.sql"
  host := host

/-- The probe is noted and looked at as part of a slow enumeration. -/
def probed (host : String) : List ObservationOp :=
  [.note "path:backup" (probeOf host) 100 .observe, .slow {} (probeOf host) 100 false]

theorem observations_survive_named_host :
    Observations.Survive 120 (Machine.run (Observations.step asciiPython noPatterns) {} (probed "a.example"))
      (.restore ["path:backup"] 120
        ((Machine.run (Observations.step asciiPython noPatterns) {} (probed "a.example")).prune 120).save) := by
  have hhost : Canonical "a.example" := by decide +kernel
  refine (observations_survive_iff asciiPython noPatterns ["path:backup"] (probed "a.example") 120 true _
    rfl).mpr ⟨?_, ?_⟩
  · intro rule row hget _
    have hmem : (rule, row) ∈ [("path:backup",
        StatsRow.note { first := 100, last := 100 } (probeOf "a.example") 100 .observe)] :=
      Dict.mem_entries.mpr hget
    obtain ⟨rfl, rfl⟩ := Prod.mk.inj (List.mem_singleton.mp hmem)
    refine ⟨by decide, by decide, by decide, by decide, fun e he => ?_⟩
    obtain rfl : e = ("a.example", 1) := List.mem_singleton.mp he
    exact hhost
  · intro key entry hget _
    have hmem : (key, entry) ∈ [(("10.0.0.1", "a.example"),
        SlowEntry.add { last := 100 } (probeOf "a.example") 100)] :=
      Dict.mem_entries.mpr hget
    obtain ⟨rfl, rfl⟩ := Prod.mk.inj (List.mem_singleton.mp hmem)
    refine ⟨by decide +kernel, hhost, by decide, fun e he => ?_, fun e he => ?_⟩
    · obtain rfl := List.mem_singleton.mp he
      decide
    · obtain rfl := List.mem_singleton.mp he
      decide

/-- A probe that names no host is noted, and its whole row is gone after a restart. -/
theorem restart_loses_row_without_host :
    ¬ ∀ (py : Interpreter) (patterns : Patterns) (known : List String) (ops : List ObservationOp) (now : Int)
        (force : Bool) (saved : Saved),
      ((Machine.run (Observations.step py patterns) {} ops).persist now force).2 = some saved →
      Observations.Survive now (Machine.run (Observations.step py patterns) {} ops) (.restore known now saved) := by
  intro h
  have hsurvive := h asciiPython noPatterns ["path:backup"] (probed "") 120 true _ rfl
  obtain ⟨row', hget, hsame⟩ := hsurvive.stats "path:backup"
    (StatsRow.note { first := 100, last := 100 } (probeOf "") 100 .observe) rfl (by decide)
  have hhost : Canonical "" := (hsame.fits (mem_restore_stats hget)).hosts ("", 1) List.mem_cons_self
  exact absurd hhost (by decide +kernel)

end EasyHaProxy.Guardd
