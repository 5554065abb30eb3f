import Mathlib.Data.List.GetD
import Mathlib.Algebra.Order.Ring.Int
import EasyHaProxy.Lib.Chain
import EasyHaProxy.Lib.Json
import EasyHaProxy.Lib.Validate
import EasyHaProxy.Guardd.Database

/-! How many bans of an address still count, what the next one lasts, and what the maintenance pass may
sweep without changing either. -/
namespace EasyHaProxy.Guardd

open Chain Validate

def minBanSeconds : Int := 60
def maxBanSeconds : Int := 365 * 86400
def maxBanSteps : Nat := 6
def strikeRetentionBaseMultiplier : Int := 1

/-- One step of an operator's ladder; JSON's true and false are not numbers. -/
def checkBanStep : Json → Except String Int
  | .int entry =>
    if entry < minBanSeconds ∨ maxBanSeconds < entry then
      .error "each step must be between 60 seconds and 365 days"
    else .ok entry
  | _ => .error "each step must be a whole number of seconds"

/-- `validate_ban_durations`: rejected rather than repaired. -/
def validateBanDurations : Json → Except String (List Int)
  | .arr data =>
    if data.isEmpty then .error "ban durations must be a non-empty list"
    else if maxBanSteps < data.length then .error "at most 6 steps"
    else do
      let steps ← data.mapM checkBanStep
      if steps.Pairwise (· ≤ ·) then .ok steps
      else .error "each step must be at least as long as the one before"
  | _ => .error "ban durations must be a non-empty list"

section Ladder

variable (ladder : List Int)

/-- How long a strike earned at this level stays on the record. -/
def strikeRetention (level : Nat) : Int :=
  ladder.getD (min (level - 1) (ladder.length - 1)) 0 * (level + strikeRetentionBaseMultiplier)

/-- The most any strike could be worth keeping, for the sweeper. -/
def longestStrikeRetention : Int :=
  ((List.range ladder.length).map (fun i => strikeRetention ladder (i + 1))).max?.getD 0

/-- One ban of the record: it lapses the chain before it or adds to it. -/
def countStrike (acc : Nat × Int) (ts : Int) : Nat × Int :=
  let level := if acc.1 ≠ 0 ∧ strikeRetention ladder acc.1 < ts - acc.2 then 0 else acc.1
  (level + 1, ts)

/-- The bans that count against this ladder: none from before it was set. -/
def countedStamps (changedAt : Int) (ip : Ip) (db : Database) : List Int :=
  (db.banTimestamps ip 100).filter (changedAt ≤ ·)

/-- `strike_level`: how many bans this address has earned that still count. -/
def strikeLevel (changedAt : Int) (ip : Ip) (now : Int) (db : Database) : Nat :=
  let stamps := countedStamps changedAt ip db
  if stamps.isEmpty then 0
  else
    let (level, previous) := stamps.foldl (countStrike ladder) (0, 0)
    let aliveFrom := max previous (db.newestFindingTs ip)
    if strikeRetention ladder level < now - aliveFrom then 0 else level

def banDuration (changedAt : Int) (ip : Ip) (now : Int) (db : Database) : Int :=
  ladder.getD (min (strikeLevel ladder changedAt ip now db) (ladder.length - 1)) 0

/-- `run_maintenance`: ban records outlive findings by as long as the ladder can count them. -/
def runMaintenance (eventRetentionDays now : Int) (db : Database) : Database :=
  let cutoff := now - eventRetentionDays * 86400
  let banCutoff := min cutoff (now - longestStrikeRetention ladder)
  (db.applyRetention cutoff banCutoff).pruneDecisions banCutoff decisionsKeepRows now

end Ladder

/-! ## The ladder -/

theorem checkBanStep_ok {j : Json} {n : Int} (h : checkBanStep j = .ok n) : minBanSeconds ≤ n := by
  cases j with
  | int m =>
    simp only [checkBanStep] at h
    split at h
    · cases h
    · cases h
      omega
  | _ => simp [checkBanStep] at h

/-- What an accepted ladder is: its steps are positive and never get shorter. -/
theorem validateBanDurations_ok {data : Json} {ladder : List Int}
    (h : validateBanDurations data = .ok ladder) :
    (∀ n ∈ ladder, 0 < n) ∧ ladder.Pairwise (· ≤ ·) := by
  cases data with
  | arr items =>
    simp only [validateBanDurations] at h
    split at h
    · cases h
    split at h
    · cases h
    cases hm : items.mapM checkBanStep with
    | error e => simp [hm, bind, Except.bind] at h
    | ok steps =>
      simp only [hm, bind, Except.bind] at h
      split at h
      · rename_i hs
        cases h
        refine ⟨?_, hs⟩
        intro n hn
        obtain ⟨j, _, hj⟩ := mem_of_mapM_ok hm hn
        have := checkBanStep_ok hj
        simp only [minBanSeconds] at this
        omega
      · cases h
  | _ => simp [validateBanDurations] at h

theorem getD_le_getD {ladder : List Int} (hpos : ∀ n ∈ ladder, 0 < n)
    (hs : ladder.Pairwise (· ≤ ·)) {i j : Nat} (hij : i ≤ j) (hj : j ≤ ladder.length - 1) :
    0 ≤ ladder.getD i 0 ∧ ladder.getD i 0 ≤ ladder.getD j 0 := by
  by_cases hne : ladder = []
  · simp [hne]
  have hlen : 0 < ladder.length := List.length_pos_iff.mpr hne
  have hi : i < ladder.length := by omega
  have hj' : j < ladder.length := by omega
  rw [List.getD_eq_getElem _ _ hi, List.getD_eq_getElem _ _ hj']
  refine ⟨le_of_lt (hpos _ (List.getElem_mem hi)), ?_⟩
  rcases Nat.eq_or_lt_of_le hij with rfl | hlt
  · exact le_refl _
  · exact List.pairwise_iff_getElem.mp hs i j hi hj' hlt

/-- A higher strike is never kept for less long. -/
theorem strikeRetention_mono {ladder : List Int} (hpos : ∀ n ∈ ladder, 0 < n)
    (hs : ladder.Pairwise (· ≤ ·)) ⦃a b : Nat⦄ (hab : a ≤ b) :
    strikeRetention ladder a ≤ strikeRetention ladder b := by
  obtain ⟨h0, hle⟩ := getD_le_getD hpos hs
    (i := min (a - 1) (ladder.length - 1)) (j := min (b - 1) (ladder.length - 1)) (by omega) (by omega)
  unfold strikeRetention strikeRetentionBaseMultiplier
  exact mul_le_mul hle (by omega) (by omega) (le_trans h0 hle)

/-! ## The level is the length of the newest chain of bans -/

section Level

variable {ladder : List Int} {changedAt now : Int} {ip : Ip} {db : Database}

theorem foldl_countStrike (stamps : List Int) :
    stamps.foldl (countStrike ladder) (0, 0) =
      ((chain (strikeRetention ladder) stamps).length, stamps.getLastD 0) := by
  induction stamps using List.reverseRecOn with
  | nil => rfl
  | append_singleton l t ih =>
    rw [List.foldl_append, ih, chain_concat]
    have hl : (chain (strikeRetention ladder) l).getLast? = l.getLast? := getLast?_chain
    simp only [List.foldl_cons, List.foldl_nil, countStrike, extend, hl]
    cases hg : l.getLast? with
    | none => simp [List.getLast?_eq_none_iff.mp hg, chain]
    | some last =>
      have hne : chain (strikeRetention ladder) l ≠ [] := by
        rw [Ne, chain_eq_nil]
        rintro rfl
        simp at hg
      have hlast : l.getLastD 0 = last := by rw [List.getLastD_eq_getLast?, hg]; rfl
      simp only [hlast, List.getLastD_concat, ne_eq, List.length_eq_zero_iff, hne, not_false_eq_true,
        true_and]
      split <;> simp

/-- The chain of bans `strike_level` counts. -/
def banChain (ladder : List Int) (changedAt : Int) (ip : Ip) (db : Database) : List Int :=
  chain (strikeRetention ladder) (countedStamps changedAt ip db)

theorem strikeLevel_eq : strikeLevel ladder changedAt ip now db =
    if strikeRetention ladder (banChain ladder changedAt ip db).length <
        now - max ((countedStamps changedAt ip db).getLastD 0) (db.newestFindingTs ip)
    then 0 else (banChain ladder changedAt ip db).length := by
  unfold strikeLevel
  simp only [foldl_countStrike]
  by_cases hne : countedStamps changedAt ip db = []
  · simp [hne, banChain, chain]
  · simp [hne, banChain]

end Level

/-! ## What the maintenance pass leaves of the record -/

section Retention

variable {ladder : List Int} {changedAt now days : Int} {ip : Ip} {db : Database}

theorem filter_isBan_retention (eb bb : Int) :
    ((db.applyRetention eb bb).events.filter (Database.isBan ip)).map (·.ts) =
      ((db.events.filter (Database.isBan ip)).map (·.ts)).filter (bb ≤ ·) := by
  rw [List.filter_map]
  congr 1
  simp only [Database.applyRetention, List.filter_filter]
  apply List.filter_congr
  intro e _
  by_cases h : Database.isBan ip e
  · have hr : Database.isBanRecord e = true := by
      simp only [Database.isBan, Bool.decide_and, Bool.and_eq_true, decide_eq_true_eq] at h
      simp [Database.isBanRecord, h.2]
    simp [h, hr]
  · simp [h]

theorem banTimestamps_retention (eb bb : Int) (limit : Nat) :
    (db.applyRetention eb bb).banTimestamps ip limit = (db.banTimestamps ip limit).filter (bb ≤ ·) := by
  unfold Database.banTimestamps
  rw [filter_isBan_retention, insertionSort_filter,
    take_filter_le (List.pairwise_insertionSort (· ≥ ·) _), insertionSort_filter]

theorem countedStamps_retention (eb bb : Int) :
    countedStamps changedAt ip (db.applyRetention eb bb) =
      (countedStamps changedAt ip db).filter (bb ≤ ·) := by
  unfold countedStamps
  rw [banTimestamps_retention, List.filter_filter, List.filter_filter]
  simp only [Bool.and_comm]

variable (changedAt ip db) in
theorem countedStamps_sorted : (countedStamps changedAt ip db).Pairwise (· ≤ ·) :=
  (List.pairwise_insertionSort _ _).filter _

theorem newestFindingTs_retention (eb bb : Int) :
    (db.applyRetention eb bb).newestFindingTs ip =
      if eb ≤ db.newestFindingTs ip then db.newestFindingTs ip else 0 := by
  have hf : ((db.applyRetention eb bb).events.filter (Database.isFinding ip)).map (·.ts) =
      ((db.events.filter (Database.isFinding ip)).map (·.ts)).filter (eb ≤ ·) := by
    rw [List.filter_map]
    congr 1
    simp only [Database.applyRetention, List.filter_filter]
    apply List.filter_congr
    intro e _
    by_cases h : Database.isFinding ip e
    · have hr : Database.isBanRecord e = false := by
        simp only [Database.isFinding, Bool.decide_and, Bool.and_eq_true, decide_eq_true_eq] at h
        simp [Database.isBanRecord, h.2.1, h.2.2.1]
      simp [h, hr]
    · simp [h]
  unfold Database.newestFindingTs Database.maxTs
  rw [hf]
  generalize (db.events.filter (Database.isFinding ip)).map (·.ts) = l
  cases hm : l.max? with
  | none => simp [List.max?_eq_none_iff.mp hm]
  | some m =>
    obtain ⟨hmem, hmax⟩ := (List.max?_eq_some_iff).mp hm
    simp only [Option.getD_some]
    split
    · rename_i hle
      have : (l.filter (eb ≤ ·)).max? = some m := by
        rw [List.max?_eq_some_iff]
        refine ⟨by simp [hmem, hle], ?_⟩
        intro b hb
        exact hmax b (List.mem_filter.mp hb).1
      simp [this]
    · rename_i hlt
      have : l.filter (eb ≤ ·) = [] := by
        simp only [List.filter_eq_nil_iff, decide_eq_true_eq]
        intro b hb hle
        have := hmax b hb
        omega
      simp [this]

/-- The record of an address after the sweep at `now` is worth what it was before:
its chain has run out anyway, or every ban of the chain is recent enough to stay and
what is left of the findings still keeps the chain alive. -/
def RecordKept (ladder : List Int) (changedAt days now : Int) (ip : Ip) (db : Database) : Prop :=
  let cutoff := now - days * 86400
  let banCutoff := min cutoff (now - longestStrikeRetention ladder)
  let stamps := countedStamps changedAt ip db
  let bans := banChain ladder changedAt ip db
  let finding := db.newestFindingTs ip
  stamps = [] ∨
  strikeRetention ladder bans.length < now - max (stamps.getLastD 0) finding ∨
  (∀ ts ∈ bans, banCutoff ≤ ts) ∧
    now - max (stamps.getLastD 0) (if cutoff ≤ finding then finding else 0) ≤
      strikeRetention ladder bans.length

instance : Decidable (RecordKept ladder changedAt days now ip db) := by
  unfold RecordKept
  infer_instance

variable (changedAt ip db) in
theorem chain_subset_kept_iff
    (hw : ∀ ⦃a b⦄, a ≤ b → strikeRetention ladder a ≤ strikeRetention ladder b) (bb : Int) :
    (chain (strikeRetention ladder) ((countedStamps changedAt ip db).filter (bb ≤ ·))).length =
      (banChain ladder changedAt ip db).length ↔ ∀ ts ∈ banChain ladder changedAt ip db, bb ≤ ts := by
  have hsuf := filter_le_suffix (c := bb) (countedStamps_sorted changedAt ip db)
  constructor
  · intro hlen ts hts
    -- Both chains end the list, so equally long they are the same stamps, all of them kept.
    have hk : chain (strikeRetention ladder) ((countedStamps changedAt ip db).filter (bb ≤ ·)) =
        banChain ladder changedAt ip db :=
      (List.suffix_of_suffix_length_le (chain_suffix.trans hsuf) chain_suffix hlen.le).eq_of_length hlen
    rw [← hk] at hts
    simpa using (List.mem_filter.mp (chain_suffix.subset hts)).2
  · intro hall
    rw [chain_eq_of_suffix hw hsuf]
    · rfl
    · have hchain : chain (strikeRetention ladder) (countedStamps changedAt ip db) <:+
          countedStamps changedAt ip db := chain_suffix
      have hf := hchain.filter (fun ts => decide (bb ≤ ts))
      rwa [List.filter_eq_self.mpr (by simpa [banChain] using hall)] at hf

theorem strikeLevel_maintenance :
    strikeLevel ladder changedAt ip now (runMaintenance ladder days now db) =
      let cutoff := now - days * 86400
      let banCutoff := min cutoff (now - longestStrikeRetention ladder)
      let stamps := (countedStamps changedAt ip db).filter (banCutoff ≤ ·)
      let bans := chain (strikeRetention ladder) stamps
      let finding := db.newestFindingTs ip
      if strikeRetention ladder bans.length <
          now - max (stamps.getLastD 0) (if cutoff ≤ finding then finding else 0)
      then 0 else bans.length := by
  -- Pruning the decisions touches no event.
  have hc : countedStamps changedAt ip (runMaintenance ladder days now db) = _ :=
    countedStamps_retention (now - days * 86400) _
  have hf : (runMaintenance ladder days now db).newestFindingTs ip = _ :=
    newestFindingTs_retention (now - days * 86400) _
  rw [strikeLevel_eq, banChain, hc, hf]

theorem getLastD_kept (bb : Int)
    (hne : (countedStamps changedAt ip db).filter (bb ≤ ·) ≠ []) :
    ((countedStamps changedAt ip db).filter (bb ≤ ·)).getLastD 0 =
      (countedStamps changedAt ip db).getLastD 0 := by
  rw [List.getLastD_eq_getLast?, List.getLastD_eq_getLast?,
    getLast?_of_suffix (filter_le_suffix (countedStamps_sorted _ _ _)) hne]

theorem newestFindingTs_nonneg (hts : ∀ e ∈ db.events, 0 ≤ e.ts) : 0 ≤ db.newestFindingTs ip := by
  unfold Database.newestFindingTs Database.maxTs
  cases hm : ((db.events.filter (Database.isFinding ip)).map (·.ts)).max? with
  | none => exact le_refl 0
  | some m =>
    obtain ⟨e, he, rfl⟩ := List.mem_map.mp (List.max?_eq_some_iff.mp hm).1
    exact hts e (List.mem_filter.mp he).1

/-- A chain that has run out stays run out on any older part of the record. -/
theorem strikeLevel_maintenance_of_lapsed
    (hw : ∀ ⦃a b⦄, a ≤ b → strikeRetention ladder a ≤ strikeRetention ladder b)
    (hts : ∀ e ∈ db.events, 0 ≤ e.ts)
    (h : strikeRetention ladder (banChain ladder changedAt ip db).length <
      now - max ((countedStamps changedAt ip db).getLastD 0) (db.newestFindingTs ip)) :
    strikeLevel ladder changedAt ip now (runMaintenance ladder days now db) = 0 := by
  rw [strikeLevel_maintenance]
  have hf : 0 ≤ db.newestFindingTs ip := newestFindingTs_nonneg hts
  dsimp only
  generalize min (now - days * 86400) (now - longestStrikeRetention ladder) = bb
  have hlen := hw (length_chain_le hw (filter_le_suffix (c := bb)
    (countedStamps_sorted changedAt ip db)))
  by_cases hne : (countedStamps changedAt ip db).filter (bb ≤ ·) = []
  · rw [hne]
    exact ite_self 0
  · rw [getLastD_kept bb hne]
    unfold banChain at h
    rw [if_pos]
    split <;> omega

theorem strikeLevel_maintenance_eq_iff
    (hw : ∀ ⦃a b⦄, a ≤ b → strikeRetention ladder a ≤ strikeRetention ladder b)
    (hts : ∀ e ∈ db.events, 0 ≤ e.ts) :
    strikeLevel ladder changedAt ip now (runMaintenance ladder days now db) =
      strikeLevel ladder changedAt ip now db ↔ RecordKept ladder changedAt days now ip db := by
  unfold RecordKept
  by_cases hnil : countedStamps changedAt ip db = []
  · rw [strikeLevel_maintenance, strikeLevel_eq, banChain, hnil]
    exact iff_of_true ((ite_self 0).trans (ite_self 0).symm) (Or.inl rfl)
  by_cases hdead : strikeRetention ladder (banChain ladder changedAt ip db).length <
      now - max ((countedStamps changedAt ip db).getLastD 0) (db.newestFindingTs ip)
  · rw [strikeLevel_maintenance_of_lapsed hw hts hdead, strikeLevel_eq, if_pos hdead]
    exact iff_of_true rfl (Or.inr (Or.inl hdead))
  have hpos : (banChain ladder changedAt ip db).length ≠ 0 := by
    rwa [Ne, List.length_eq_zero_iff, banChain, chain_eq_nil]
  rw [strikeLevel_maintenance, strikeLevel_eq, if_neg hdead]
  dsimp only
  generalize min (now - days * 86400) (now - longestStrikeRetention ladder) = bb
  generalize (if now - days * 86400 ≤ db.newestFindingTs ip then db.newestFindingTs ip else 0) = left
  have hkept := chain_subset_kept_iff changedAt ip db hw bb
  have hne (hlen : (chain (strikeRetention ladder)
      ((countedStamps changedAt ip db).filter (bb ≤ ·))).length =
        (banChain ladder changedAt ip db).length) :
      (countedStamps changedAt ip db).filter (bb ≤ ·) ≠ [] := by
    intro he
    rw [he] at hlen
    exact hpos hlen.symm
  constructor
  · intro h
    split at h
    · exact absurd h.symm hpos
    · rename_i halive
      rw [getLastD_kept _ (hne h), h] at halive
      exact Or.inr (Or.inr ⟨hkept.mp h, not_lt.mp halive⟩)
  · rintro (h | h | ⟨hall, halive⟩)
    · exact absurd h hnil
    · exact absurd h hdead
    · have hlen := hkept.mpr hall
      rw [getLastD_kept _ (hne hlen), hlen, if_neg (not_lt.mpr halive)]

/-- The sweep leaves what a record is worth alone exactly when `RecordKept` holds. -/
theorem maintenance_keeps_strikes_iff {data : Json} (h : validateBanDurations data = .ok ladder)
    (changedAt days now : Int) (ip : Ip) (hts : ∀ e ∈ db.events, 0 ≤ e.ts) :
    (strikeLevel ladder changedAt ip now (runMaintenance ladder days now db) =
        strikeLevel ladder changedAt ip now db ∧
      banDuration ladder changedAt ip now (runMaintenance ladder days now db) =
        banDuration ladder changedAt ip now db) ↔
      RecordKept ladder changedAt days now ip db := by
  obtain ⟨hpos, hs⟩ := validateBanDurations_ok h
  rw [← strikeLevel_maintenance_eq_iff (strikeRetention_mono hpos hs) hts]
  constructor
  · exact fun hk => hk.1
  · intro hk
    exact ⟨hk, by simp only [banDuration, hk]⟩

/-- A ladder of a minute and a day, and two bans a hundred seconds apart. -/
def twoBans : Database :=
  { events := [{ id := 1, ts := 1000000, ip := "10.0.0.1", eventType := .banApplied },
               { id := 2, ts := 1000100, ip := "10.0.0.1", eventType := .banApplied }] }

theorem maintenance_keeps_strikes_iff_twoBans :
    validateBanDurations (.arr [.int 60, .int 86400]) = .ok [60, 86400] ∧
    (strikeLevel [60, 86400] 0 "10.0.0.1" 1000200 (runMaintenance [60, 86400] 1 1000200 twoBans) =
        strikeLevel [60, 86400] 0 "10.0.0.1" 1000200 twoBans ∧
      banDuration [60, 86400] 0 "10.0.0.1" 1000200 (runMaintenance [60, 86400] 1 1000200 twoBans) =
        banDuration [60, 86400] 0 "10.0.0.1" 1000200 twoBans) :=
  ⟨by decide, (maintenance_keeps_strikes_iff
    (by decide : validateBanDurations (.arr [.int 60, .int 86400]) = .ok [60, 86400])
    0 1 1000200 "10.0.0.1" (by decide)).mpr (by decide)⟩

/-- Three days after the second ban the sweep takes the first one, and with it both
strikes: the next ban lasts a minute instead of a day. -/
theorem maintenance_loses_strikes :
    ¬ ∀ (data : Json) (ladder : List Int) (changedAt days now : Int) (ip : Ip) (db : Database),
      validateBanDurations data = .ok ladder → 1 ≤ days → days ≤ 365 →
      strikeLevel ladder changedAt ip now (runMaintenance ladder days now db) =
          strikeLevel ladder changedAt ip now db ∧
        banDuration ladder changedAt ip now (runMaintenance ladder days now db) =
          banDuration ladder changedAt ip now db := by
  intro h
  have hk := (h (.arr [.int 60, .int 86400]) [60, 86400] 0 1 1259300 "10.0.0.1" twoBans
    (by decide) (by decide) (by decide)).1
  revert hk
  decide

end Retention

end EasyHaProxy.Guardd
