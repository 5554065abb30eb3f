import EasyHaProxy.Guardd.Strikes

/-! `ban_timestamps` hands out the newest hundred bans and says that older ones cannot change the answer. -/
namespace EasyHaProxy.Guardd

open Chain

section Record

variable (ladder : List Int)

/-- The loop of `strike_level` and its last check, over any stamps. -/
def levelOf (stamps : List Int) (finding now : Int) : Nat :=
  if stamps.isEmpty then 0
  else
    let (level, previous) := stamps.foldl (countStrike ladder) (0, 0)
    let aliveFrom := max previous finding
    if strikeRetention ladder level < now - aliveFrom then 0 else level

/-- Every ban that counts against this ladder, however many there are. -/
def allStamps (changedAt : Int) (ip : Ip) (db : Database) : List Int :=
  (((db.events.filter (Database.isBan ip)).map (·.ts)).insertionSort (· ≤ ·)).filter (changedAt ≤ ·)

/-- The record ends in a row of `k` bans, and a row that long is alive at `now`. -/
def RowCounts (stamps : List Int) (finding now : Int) (k : Nat) : Prop :=
  ∃ row, row <:+ stamps ∧ row.length = k ∧ Unbroken (strikeRetention ladder) row ∧
    now - max (stamps.getLastD 0) finding ≤ strikeRetention ladder k

/-- The hundred newest bans are enough: the ladder has one step, or a live row that
reaches back past them comes with one among them that is at the top already. -/
def NewestSuffice (stamps : List Int) (finding now : Int) : Prop :=
  ladder.length = 1 ∨
    ((∃ k > 100, RowCounts ladder stamps finding now k) →
      ∃ k ≤ 100, ladder.length - 1 ≤ k ∧ RowCounts ladder stamps finding now k)

end Record

theorem validateBanDurations_length {data : Json} {ladder : List Int}
    (h : validateBanDurations data = .ok ladder) : 0 < ladder.length ∧ ladder.length ≤ maxBanSteps := by
  cases data with
  | arr items =>
    simp only [validateBanDurations] at h
    split at h
    · cases h
    split at h
    · cases h
    rename_i hne hlen
    cases hm : items.mapM checkBanStep with
    | error e => simp [hm, bind, Except.bind] at h
    | ok steps =>
      simp only [hm, bind, Except.bind] at h
      split at h
      · cases h
        have hl : ladder.length = items.length := Validate.length_of_mapM_ok hm
        have : 0 < items.length := by simpa [List.length_pos_iff] using hne
        omega
      · cases h
  | _ => simp [validateBanDurations] at h

section Level

variable {ladder : List Int} {stamps kept : List Int} {finding now : Int}

theorem levelOf_eq : levelOf ladder stamps finding now =
    if strikeRetention ladder (chain (strikeRetention ladder) stamps).length <
        now - max (stamps.getLastD 0) finding
    then 0 else (chain (strikeRetention ladder) stamps).length := by
  unfold levelOf
  simp only [foldl_countStrike]
  by_cases hne : stamps = []
  · simp [hne, chain]
  · simp [hne]

variable (hw : ∀ ⦃a b⦄, a ≤ b → strikeRetention ladder a ≤ strikeRetention ladder b)

include hw in
/-- The level is at least `k > 0` exactly when the record ends in a live row at least as long. -/
theorem le_levelOf_iff {k : Nat} (hk : 0 < k) :
    k ≤ levelOf ladder stamps finding now ↔ ∃ n ≥ k, RowCounts ladder stamps finding now n := by
  rw [levelOf_eq]
  constructor
  · intro h
    split at h
    · omega
    · rename_i halive
      exact ⟨_, h, _, chain_suffix, rfl, unbroken_chain, not_lt.mp halive⟩
  · rintro ⟨n, hn, row, hrow, rfl, hunbroken, halive⟩
    have hlen := length_le_chain hw hrow hunbroken
    have hret := hw hlen
    rw [if_neg (by omega)]
    omega

/-- What the newest `m` stamps say of rows is what all say of rows of at most `m`. -/
theorem rowCounts_newest_iff {m : Nat} (hk : kept <:+ stamps) (hlen : kept.length = min m stamps.length)
    (hm : 0 < m) {k : Nat} :
    RowCounts ladder kept finding now k ↔ k ≤ m ∧ RowCounts ladder stamps finding now k := by
  have hlast : kept.getLastD 0 = stamps.getLastD 0 := by
    by_cases hne : kept = []
    · have hs : stamps = [] := by
        rw [hne, List.length_nil] at hlen
        exact List.length_eq_zero_iff.mp (by omega)
      rw [hne, hs]
    · rw [List.getLastD_eq_getLast?, List.getLastD_eq_getLast?, getLast?_of_suffix hk hne]
  unfold RowCounts
  rw [hlast]
  constructor
  · rintro ⟨row, hrow, rfl, hunbroken, halive⟩
    have := hrow.length_le
    exact ⟨by omega, row, hrow.trans hk, rfl, hunbroken, halive⟩
  · rintro ⟨hkm, row, hrow, rfl, hunbroken, halive⟩
    have := hrow.length_le
    exact ⟨row, List.suffix_of_suffix_length_le hrow hk (by omega), rfl, hunbroken, halive⟩

include hw in
theorem min_levelOf_newest_iff (hk : kept <:+ stamps) (hlen : kept.length = min 100 stamps.length)
    (hpos : 0 < ladder.length) (hsteps : ladder.length ≤ maxBanSteps) :
    min (levelOf ladder kept finding now) (ladder.length - 1) =
      min (levelOf ladder stamps finding now) (ladder.length - 1) ↔
    NewestSuffice ladder stamps finding now := by
  have hrows {k : Nat} : RowCounts ladder kept finding now k ↔
      k ≤ 100 ∧ RowCounts ladder stamps finding now k := rowCounts_newest_iff hk hlen (by decide)
  unfold maxBanSteps at hsteps
  by_cases hone : ladder.length = 1
  · simp [NewestSuffice, hone]
  have hkept {k : Nat} (hk : 0 < k) : k ≤ levelOf ladder kept finding now ↔
      ∃ n ≥ k, n ≤ 100 ∧ RowCounts ladder stamps finding now n := by
    rw [le_levelOf_iff hw hk]
    simp only [hrows]
  have hall {k : Nat} (hk : 0 < k) : k ≤ levelOf ladder stamps finding now ↔
      ∃ n ≥ k, RowCounts ladder stamps finding now n := le_levelOf_iff hw hk
  by_cases hlong : ∃ k > 100, RowCounts ladder stamps finding now k
  · -- All bans together are at the top; the newest are where a row of theirs is.
    have htop : ladder.length - 1 ≤ levelOf ladder stamps finding now := by
      obtain ⟨k, hk, hrow⟩ := hlong
      exact (hall (by omega)).mpr ⟨k, by omega, hrow⟩
    rw [min_eq_right htop, min_eq_right_iff, hkept (by omega)]
    constructor
    · rintro ⟨n, hn, hle, hrow⟩
      exact Or.inr fun _ => ⟨n, hle, hn, hrow⟩
    · rintro (h | h)
      · exact absurd h hone
      · obtain ⟨n, hle, hn, hrow⟩ := h hlong
        exact ⟨n, hn, hle, hrow⟩
  · -- No live row reaches past the newest: both levels are the same.
    have hsame : levelOf ladder kept finding now = levelOf ladder stamps finding now := by
      apply Nat.le_antisymm
      · rcases Nat.eq_zero_or_pos (levelOf ladder kept finding now) with h0 | h0
        · omega
        · obtain ⟨n, hn, _, hrow⟩ := (hkept h0).mp le_rfl
          exact (hall h0).mpr ⟨n, hn, hrow⟩
      · rcases Nat.eq_zero_or_pos (levelOf ladder stamps finding now) with h0 | h0
        · omega
        · obtain ⟨n, hn, hrow⟩ := (hall h0).mp le_rfl
          exact (hkept h0).mpr ⟨n, hn, not_lt.mp fun hlt => hlong ⟨n, hlt, hrow⟩, hrow⟩
    rw [hsame]
    exact iff_of_true rfl (Or.inr fun h => absurd h hlong)

end Level

section Limit

variable {changedAt : Int} {ip : Ip} {db : Database}

theorem allStamps_eq : allStamps changedAt ip db =
    (((db.events.filter (Database.isBan ip)).map (·.ts)).filter (changedAt ≤ ·)).insertionSort (· ≤ ·) := by
  rw [insertionSort_filter]
  rfl

theorem countedStamps_eq : countedStamps changedAt ip db =
    (((((db.events.filter (Database.isBan ip)).map (·.ts)).filter (changedAt ≤ ·)).insertionSort
      (· ≥ ·)).take 100).insertionSort (· ≤ ·) := by
  unfold countedStamps Database.banTimestamps
  rw [insertionSort_filter, take_filter_le (List.pairwise_insertionSort (· ≥ ·) _), insertionSort_filter]

theorem countedStamps_suffix : countedStamps changedAt ip db <:+ allStamps changedAt ip db := by
  rw [countedStamps_eq, allStamps_eq]
  exact insertionSort_take_suffix _ 100

theorem length_countedStamps :
    (countedStamps changedAt ip db).length = min 100 (allStamps changedAt ip db).length := by
  rw [countedStamps_eq, allStamps_eq]
  simp [List.length_insertionSort]

/-- The rung chosen from the newest hundred bans is the one chosen from all of them
exactly when the newest suffice. -/
theorem limited_rung_iff {data : Json} {ladder : List Int} (h : validateBanDurations data = .ok ladder)
    (changedAt now : Int) (ip : Ip) (db : Database) :
    min (strikeLevel ladder changedAt ip now db) (ladder.length - 1) =
      min (levelOf ladder (allStamps changedAt ip db) (db.newestFindingTs ip) now) (ladder.length - 1) ↔
    NewestSuffice ladder (allStamps changedAt ip db) (db.newestFindingTs ip) now := by
  obtain ⟨hpos, hs⟩ := validateBanDurations_ok h
  obtain ⟨hlen, hsteps⟩ := validateBanDurations_length h
  exact min_levelOf_newest_iff (strikeRetention_mono hpos hs) countedStamps_suffix
    length_countedStamps hlen hsteps

/-- Bans of one address at the given times. -/
def bansAt (stamps : List Int) : Database :=
  { events := stamps.mapIdx fun i ts => { id := i, ts := ts, ip := "10.0.0.1", eventType := .banApplied } }

/-- A ban a second for 101 seconds. -/
def manyBans : Database := bansAt ((List.range 101).map fun i => (i : Int) + 1)

/-- Of 101 bans the newest hundred are counted, and soon after the last they suffice. -/
theorem limited_rung_iff_manyBans :
    ((allStamps 0 "10.0.0.1" manyBans).length, (countedStamps 0 "10.0.0.1" manyBans).length) = (101, 100) ∧
      NewestSuffice [60, 60, 60] (allStamps 0 "10.0.0.1" manyBans) (manyBans.newestFindingTs "10.0.0.1") 110 :=
  ⟨by decide +kernel, (limited_rung_iff
    (by decide : validateBanDurations (.arr [.int 60, .int 60, .int 60]) = .ok [60, 60, 60])
    0 110 "10.0.0.1" manyBans).mp (by decide +kernel)⟩

/-- After 6100 seconds of nothing a row of 101 is kept, for 102 minutes, and a row of 100 is not. -/
theorem newest_bans_drop_rung :
    ¬ ∀ (data : Json) (ladder : List Int) (changedAt now : Int) (ip : Ip) (db : Database),
      validateBanDurations data = .ok ladder →
      min (strikeLevel ladder changedAt ip now db) (ladder.length - 1) =
        min (levelOf ladder (allStamps changedAt ip db) (db.newestFindingTs ip) now)
          (ladder.length - 1) := by
  intro h
  have hrung := h (.arr [.int 60, .int 60, .int 60]) [60, 60, 60] 0 6201 "10.0.0.1" manyBans (by decide)
  revert hrung
  decide +kernel

end Limit

end EasyHaProxy.Guardd
