import Mathlib.Data.Rat.Floor
import EasyHaProxy.Lib.Descending
import EasyHaProxy.Guardd.LiveBuffer

/-! The store answers a search through an index, or by scanning its ids downwards in steps. -/
namespace EasyHaProxy.Guardd.RequestSearch

open Descending

/-- A stored request: `id` in the order of insertion, `ts` as the line carried it. -/
structure Row (ρ : Type) where
  id : Int
  ts : Int
  columns : ρ

/-- The table of requests, in the order of its ids. -/
structure Table (ρ : Type) where
  rows : List (Row ρ)
  sorted : rows.Pairwise fun a b => a.id < b.id
  positive : ∀ row ∈ rows, 1 ≤ row.id

/-- `RequestQuery`: the period and the clauses on the other columns. -/
structure Query (ρ : Type) where
  since : ℚ
  upTo : ℚ
  others : ρ → Bool

/-- `int` of a float. -/
def truncate (q : ℚ) : Int := if 0 ≤ q then q.floor else q.ceil

def requestScanStep : Int := 20000

variable {ρ : Type}

def Query.holds (q : Query ρ) (row : Row ρ) : Bool :=
  (q.since = 0 || truncate q.since ≤ row.ts) && (q.upTo = 0 || row.ts ≤ truncate q.upTo) &&
    q.others row.columns

/-- The rows that satisfy the clauses, `ORDER BY id DESC`. -/
def Table.matching (t : Table ρ) (q : Query ρ) : List (Row ρ) := (t.rows.filter q.holds).reverse

/-! ## Through an index -/

def cut (limit : Nat) (rows : List (Row ρ)) : List (Row ρ) × Int :=
  (rows.take limit, if limit < rows.length then ((rows.take limit).getLast?.map Row.id).getD 0 else 0)

/-- `_search_indexed`. -/
def searchIndexed (t : Table ρ) (q : Query ρ) (limit : Int) (before : Int) : List (Row ρ) × Int :=
  let limit := LiveBuffer.pageSize limit
  cut limit ((below Row.id (t.matching q) before).take (limit + 1))

/-! ## By scanning -/

/-- `ORDER BY ts DESC LIMIT 1` through the time index, which keeps equal times in the order of ids. -/
def latest : List (Row ρ) → Option (Row ρ)
  | [] => none
  | row :: rest =>
    match latest rest with
    | none => some row
    | some best => if best.ts < row.ts then some row else some best

/-- `ORDER BY ts LIMIT 1` through the time index. -/
def earliest : List (Row ρ) → Option (Row ρ)
  | [] => none
  | row :: rest =>
    match earliest rest with
    | none => some row
    | some best => if best.ts < row.ts then some best else some row

/-- `_id_bounds`. -/
def idBounds (t : Table ρ) (since upTo : Int) : Int × Int :=
  let top := if upTo ≠ 0 then latest (t.rows.filter fun row => row.ts ≤ upTo) else t.rows.getLast?
  let bottom := if since ≠ 0 then earliest (t.rows.filter fun row => since ≤ row.ts) else t.rows.head?
  ((bottom.map Row.id).getD 1, (top.map Row.id).getD 0)

/-- What the deadline does to a step: it is interrupted, or the time is up when it is done. -/
structure Clock where
  interrupts : Nat → Bool
  late : Nat → Bool

/-- `SELECT … WHERE id BETWEEN floor AND position … ORDER BY id DESC LIMIT need`. -/
def selectStep (t : Table ρ) (q : Query ρ) (floor position : Int) (need : Nat) : List (Row ρ) :=
  ((t.matching q).filter fun row => decide (floor ≤ row.id ∧ row.id ≤ position)).take need

/-- The loop of `_search_scan`: the rows, the next id to look at, and whether the time was up. The
first step is never interrupted. -/
def scanLoop (t : Table ρ) (q : Query ρ) (low : Int) (limit : Nat) (clock : Clock) :
    Nat → Nat → List (Row ρ) → Int → List (Row ρ) × Int × Bool
  | 0, _, rows, position => (rows, position, false)
  | fuel + 1, i, rows, position =>
    if position < low ∨ limit < rows.length then (rows, position, false)
    else if i ≠ 0 ∧ clock.interrupts i then (rows, position, true)
    else
      let floor := max low (position - requestScanStep + 1)
      let need := limit + 1 - rows.length
      let found := selectStep t q floor position need
      if found.length < need then
        if clock.late i then (rows ++ found, floor - 1, decide (low ≤ floor - 1))
        else scanLoop t q low limit clock fuel (i + 1) (rows ++ found) (floor - 1)
      else (rows ++ found, floor - 1, false)

/-- `_search_scan` between two ids: the rows of the page, and `next`. -/
def scanBetween (t : Table ρ) (q : Query ρ) (limit : Nat) (clock : Clock) (low high : Int) :
    List (Row ρ) × Int :=
  let (rows, position, timedOut) := scanLoop t q low limit clock (high - low + 1).toNat 0 [] high
  if limit < rows.length then cut limit rows
  else (rows, if timedOut then position + 1 else 0)

/-- `_search_scan`. -/
def searchScan (t : Table ρ) (q : Query ρ) (limit : Int) (clock : Clock) (before : Int) :
    List (Row ρ) × Int :=
  let (low, high) := idBounds t (truncate q.since) (truncate q.upTo)
  let high := if before ≠ 0 then min high (before - 1) else high
  scanBetween t q (LiveBuffer.pageSize limit) clock low high

/-! ## A page of the scan -/

variable {t : Table ρ} {q : Query ρ} {low high : Int} {limit : Nat} {clock : Clock}

theorem matching_sorted : Sorted Row.id (t.matching q) := by
  unfold Sorted Table.matching
  rw [List.pairwise_reverse]
  exact t.sorted.filter _

theorem mem_matching {row : Row ρ} : row ∈ t.matching q ↔ row ∈ t.rows ∧ q.holds row = true := by
  simp [Table.matching]

def between (t : Table ρ) (q : Query ρ) (low high : Int) : List (Row ρ) :=
  (t.matching q).filter fun row => decide (low ≤ row.id ∧ row.id ≤ high)

theorem between_sorted : Sorted Row.id (between t q low high) := matching_sorted.filter _

/-- What the loop has when it stops: a page and one row more, or everything, or, out of time,
everything above where it stopped. -/
structure Stopped (t : Table ρ) (q : Query ρ) (low high : Int) (limit : Nat)
    (out : List (Row ρ) × Int × Bool) : Prop where
  whole : out.2.2 = false → out.1 = (between t q low high).take (limit + 1)
  part : out.2.2 = true → out.1 = (between t q low high).filter (fun row => decide (out.2.1 < row.id)) ∧
    out.1.length ≤ limit ∧ low ≤ out.2.1 ∧ out.2.1 < high

/-- A step reads what lies between its ends. -/
theorem selectStep_eq {floor position : Int} {need : Nat} (hlow : low ≤ floor) (hle : position ≤ high) :
    selectStep t q floor position need =
      ((between t q low high).filter fun row => decide (floor - 1 < row.id ∧ row.id ≤ position)).take need := by
  rw [selectStep, between, List.filter_filter]
  congr 1
  apply List.filter_congr
  intro row _
  rw [← Bool.decide_and]
  apply decide_eq_decide.mpr
  omega

/-- Below the last id there is nothing. -/
theorem above_eq_between (position : Int) (h : position < low) :
    (between t q low high).filter (fun row => decide (position < row.id)) = between t q low high := by
  rw [List.filter_eq_self]
  intro row hrow
  have := (List.mem_filter.mp hrow).2
  simp only [decide_eq_true_eq] at this ⊢
  omega

theorem stopped_of_done {rows : List (Row ρ)} {position : Int}
    (hrows : rows = (between t q low high).filter fun row => decide (position < row.id))
    (hlen : rows.length ≤ limit) (hlow : position < low) :
    Stopped t q low high limit (rows, position, false) := by
  refine ⟨fun _ => ?_, fun h => (by cases h)⟩
  rw [above_eq_between position hlow] at hrows
  rw [← hrows, List.take_of_length_le (by omega)]

theorem scanLoop_stopped {fuel i : Nat} {rows : List (Row ρ)} {position : Int}
    (hrows : rows = (between t q low high).filter fun row => decide (position < row.id))
    (hlen : rows.length ≤ limit) (hle : position ≤ high) (hfirst : i ≠ 0 → position < high)
    (hfuel : (position - low + 1).toNat ≤ fuel) :
    Stopped t q low high limit (scanLoop t q low limit clock fuel i rows position) := by
  induction fuel generalizing i rows position with
  | zero => exact stopped_of_done hrows hlen (by omega)
  | succ fuel ih =>
    rw [scanLoop]
    split
    · exact stopped_of_done hrows hlen (by omega)
    rename_i hgo
    have hlow : low ≤ position := by omega
    split
    · rename_i hinterrupt
      exact ⟨fun h => (by cases h), fun _ => ⟨hrows, hlen, hlow, hfirst hinterrupt.1⟩⟩
    dsimp only
    rw [selectStep_eq (le_max_left _ _) hle]
    have hfloor : max low (position - requestScanStep + 1) ≤ position := by
      unfold requestScanStep
      omega
    have hfloorLow : low ≤ max low (position - requestScanStep + 1) := le_max_left _ _
    generalize max low (position - requestScanStep + 1) = floor at hfloor hfloorLow
    -- What is above the floor is what there was and what this step can see.
    have habove : rows ++ (between t q low high).filter
          (fun row => decide (floor - 1 < row.id ∧ row.id ≤ position)) =
        (between t q low high).filter fun row => decide (floor - 1 < row.id) := by
      rw [hrows]
      exact between_sorted.above_split (by omega)
    generalize (between t q low high).filter
      (fun row => decide (floor - 1 < row.id ∧ row.id ≤ position)) = found at habove ⊢
    split
    · rename_i hshort
      have hfound : found.take (limit + 1 - rows.length) = found := by
        apply List.take_of_length_le
        rw [List.length_take] at hshort
        omega
      rw [hfound] at hshort ⊢
      have hnext : (rows ++ found).length ≤ limit := by
        rw [List.length_append]
        omega
      split
      · refine ⟨?_, ?_⟩
        · intro hover
          have hover : ¬ low ≤ floor - 1 := by simpa using hover
          dsimp only
          rw [above_eq_between (floor - 1) (by omega)] at habove
          rw [← habove, List.take_of_length_le (by omega)]
        · intro hover
          have hover : low ≤ floor - 1 := by simpa using hover
          exact ⟨habove, hnext, hover, by dsimp only; omega⟩
      · exact ih habove hnext (by omega) (fun _ => by omega) (by omega)
    · rename_i hfull
      refine ⟨fun _ => ?_, fun h => (by cases h)⟩
      have hsorted : Sorted Row.id (between t q low high) := between_sorted
      have hwhole : rows.take (limit + 1) = rows := List.take_of_length_le (by omega)
      rw [List.length_take] at hfull
      rw [← hsorted.split (floor - 1), ← habove,
        List.take_append_of_le_length (by rw [List.length_append]; omega), List.take_append, hwhole]

/-! ## Following the pages -/

theorem pageSpec_cut {l : List (Row ρ)} (h : Sorted Row.id l) (hpos : ∀ row ∈ l, 1 ≤ row.id)
    {top before : Int} (htop : ∀ row ∈ l, row.id ≤ top) (hlimit : 1 ≤ limit) :
    PageSpec Row.id l top before (cut limit ((below Row.id l before).take (limit + 1))) := by
  have hsub := h.filter fun row => decide (before = 0 ∨ row.id < before)
  unfold cut
  rw [List.take_take, min_eq_left (Nat.le_succ limit), List.length_take]
  by_cases hmore : limit < (below Row.id l before).length
  · obtain ⟨last, hlast, hmem, htake⟩ := Sorted.take_last hsub hlimit hmore
    have hmem' : last ∈ l ∧ (before = 0 ∨ last.id < before) := by simpa using hmem
    have hid := hpos last hmem'.1
    unfold below at hmore ⊢
    rw [if_pos (by omega), hlast]
    refine ⟨?_, ?_⟩
    · intro h0
      dsimp only [Option.map_some, Option.getD_some] at h0
      omega
    · intro _
      exact ⟨htake, hid, htop last hmem'.1, hmem'.2⟩
  · rw [if_neg (by omega)]
    exact ⟨fun _ => List.take_of_length_le (by omega), fun h => absurd rfl h⟩

theorem pageSpec_scan (hlow : 1 ≤ low) (hlimit : 1 ≤ limit) (clock : Clock) (before : Int) :
    PageSpec Row.id (between t q low high) high before
      (scanBetween t q limit clock low (if before ≠ 0 then min high (before - 1) else high)) := by
  have hbelow : below Row.id (between t q low high) before =
      between t q low (if before ≠ 0 then min high (before - 1) else high) := by
    unfold below between
    rw [List.filter_filter]
    apply List.filter_congr
    intro row _
    rw [← Bool.decide_and]
    apply decide_eq_decide.mpr
    split <;> omega
  have hceil : (if before ≠ 0 then min high (before - 1) else high) ≤ high ∧
      (before = 0 ∨ (if before ≠ 0 then min high (before - 1) else high) < before) := by
    split <;> omega
  generalize (if before ≠ 0 then min high (before - 1) else high) = ceil at hbelow hceil ⊢
  have hstop : Stopped t q low ceil limit (scanLoop t q low limit clock (ceil - low + 1).toNat 0 [] ceil) := by
    apply scanLoop_stopped _ (Nat.zero_le _) le_rfl (fun h => absurd rfl h) le_rfl
    rw [eq_comm, List.filter_eq_nil_iff]
    intro row hrow
    have := (List.mem_filter.mp hrow).2
    simp only [decide_eq_true_eq] at this ⊢
    omega
  unfold scanBetween
  generalize scanLoop t q low limit clock (ceil - low + 1).toNat 0 [] ceil = out at hstop
  obtain ⟨rows, position, timedOut⟩ := out
  dsimp only
  cases timedOut with
  | false =>
    obtain hrows : rows = (between t q low ceil).take (limit + 1) := hstop.whole rfl
    split
    · rw [hrows, ← hbelow]
      apply pageSpec_cut between_sorted _ _ hlimit
      · intro row hrow
        have := (List.mem_filter.mp hrow).2
        simp only [decide_eq_true_eq] at this
        omega
      · intro row hrow
        have := (List.mem_filter.mp hrow).2
        simp only [decide_eq_true_eq] at this
        omega
    · rename_i hfits
      refine ⟨fun _ => ?_, fun h => absurd rfl h⟩
      dsimp only
      rw [hrows, hbelow, List.take_of_length_le]
      rw [hrows, List.length_take] at hfits
      omega
  | true =>
    obtain ⟨hrows, hlen, hpos, hlt⟩ : rows = (between t q low ceil).filter (fun row => decide (position < row.id)) ∧
      rows.length ≤ limit ∧ low ≤ position ∧ position < ceil := hstop.part rfl
    rw [if_neg (by omega)]
    refine ⟨fun h => ?_, fun _ => ⟨?_, ?_, ?_, ?_⟩⟩
    · simp only [if_true] at h
      omega
    · dsimp only
      rw [hrows, hbelow]
      apply List.filter_congr
      intro row _
      apply decide_eq_decide.mpr
      simp only [if_true]
      omega
    all_goals
      simp only [if_true]
      omega

/-! ## The bounds of a period -/

/-- The row of the latest time up to `upTo`, of the largest id among equals. -/
def IsLatest (t : Table ρ) (upTo : Int) (top : Row ρ) : Prop :=
  (top ∈ t.rows ∧ top.ts ≤ upTo) ∧
    ∀ row ∈ t.rows, row.ts ≤ upTo → row.ts < top.ts ∨ row.ts = top.ts ∧ row.id ≤ top.id

/-- The row of the earliest time from `since` on, of the smallest id among equals. -/
def IsEarliest (t : Table ρ) (since : Int) (bottom : Row ρ) : Prop :=
  (bottom ∈ t.rows ∧ since ≤ bottom.ts) ∧
    ∀ row ∈ t.rows, since ≤ row.ts → bottom.ts < row.ts ∨ row.ts = bottom.ts ∧ bottom.id ≤ row.id

/-- No matching row was inserted after the latest row of the period, or before the earliest. -/
def InTimeOrder (t : Table ρ) (q : Query ρ) : Prop :=
  ∀ row ∈ t.rows, q.holds row = true →
    (truncate q.upTo ≠ 0 → ∀ top, IsLatest t (truncate q.upTo) top → row.id ≤ top.id) ∧
      (truncate q.since ≠ 0 → ∀ bottom, IsEarliest t (truncate q.since) bottom → bottom.id ≤ row.id)

theorem latest_spec {l : List (Row ρ)} (h : l.Pairwise fun a b => a.id < b.id) (hne : l ≠ []) :
    ∃ top, latest l = some top ∧ top ∈ l ∧
      ∀ row ∈ l, row.ts < top.ts ∨ row.ts = top.ts ∧ row.id ≤ top.id := by
  induction l with
  | nil => exact absurd rfl hne
  | cons row rest ih =>
    obtain ⟨hfirst, hrest⟩ := List.pairwise_cons.mp h
    by_cases hnil : rest = []
    · subst hnil
      exact ⟨row, rfl, by simp, by simp⟩
    · obtain ⟨best, hbest, hmem, hmax⟩ := ih hrest hnil
      rw [latest, hbest]
      dsimp only
      split
      · rename_i hlt
        refine ⟨row, rfl, by simp, ?_⟩
        intro r hr
        rcases List.mem_cons.mp hr with rfl | hr
        · exact Or.inr ⟨rfl, le_rfl⟩
        · have := hmax r hr
          omega
      · rename_i hge
        refine ⟨best, rfl, List.mem_cons_of_mem _ hmem, ?_⟩
        intro r hr
        rcases List.mem_cons.mp hr with rfl | hr
        · have := hfirst best hmem
          omega
        · exact hmax r hr

theorem earliest_spec {l : List (Row ρ)} (h : l.Pairwise fun a b => a.id < b.id) (hne : l ≠ []) :
    ∃ bottom, earliest l = some bottom ∧ bottom ∈ l ∧
      ∀ row ∈ l, bottom.ts < row.ts ∨ row.ts = bottom.ts ∧ bottom.id ≤ row.id := by
  induction l with
  | nil => exact absurd rfl hne
  | cons row rest ih =>
    obtain ⟨hfirst, hrest⟩ := List.pairwise_cons.mp h
    by_cases hnil : rest = []
    · subst hnil
      exact ⟨row, rfl, by simp, by simp⟩
    · obtain ⟨best, hbest, hmem, hmin⟩ := ih hrest hnil
      rw [earliest, hbest]
      dsimp only
      split
      · rename_i hlt
        refine ⟨best, rfl, List.mem_cons_of_mem _ hmem, ?_⟩
        intro r hr
        rcases List.mem_cons.mp hr with rfl | hr
        · exact Or.inl hlt
        · exact hmin r hr
      · rename_i hge
        refine ⟨row, rfl, by simp, ?_⟩
        intro r hr
        rcases List.mem_cons.mp hr with rfl | hr
        · exact Or.inr ⟨rfl, le_rfl⟩
        · have := hmin r hr
          have := hfirst r hr
          omega

/-- What the scan takes for the last id of a period: the one of its latest row. -/
theorem le_high_iff {upTo : Int} {row : Row ρ} (hrow : row ∈ t.rows) (hts : upTo ≠ 0 → row.ts ≤ upTo)
    (since : Int) :
    row.id ≤ (idBounds t since upTo).2 ↔ (upTo ≠ 0 → ∀ top, IsLatest t upTo top → row.id ≤ top.id) := by
  unfold idBounds
  dsimp only
  by_cases h0 : upTo = 0
  · have hne : t.rows ≠ [] := List.ne_nil_of_mem hrow
    rw [if_neg (not_not.mpr h0), List.getLast?_eq_some_getLast hne]
    refine iff_of_true ?_ (fun h => absurd h0 h)
    have hlast := List.dropLast_concat_getLast hne
    have hsorted := hlast.symm ▸ t.sorted
    rcases List.mem_append.mp (hlast.symm ▸ hrow) with hr | hr
    · exact le_of_lt ((List.pairwise_append.mp hsorted).2.2 row hr _ (by simp))
    · rw [List.mem_singleton.mp hr]
      exact le_rfl
  · have hmem : row ∈ t.rows.filter fun row => decide (row.ts ≤ upTo) := by simpa [hrow] using hts h0
    obtain ⟨top, htop, hin, hmax⟩ := latest_spec (t.sorted.filter _) (List.ne_nil_of_mem hmem)
    have hlatest : IsLatest t upTo top := by
      refine ⟨by simpa using hin, ?_⟩
      intro r hr hle
      exact hmax r (by simpa [hr] using hle)
    rw [if_pos h0, htop]
    constructor
    · intro hid _ top' htop'
      have := htop'.2 top hlatest.1.1 hlatest.1.2
      have := hlatest.2 top' htop'.1.1 htop'.1.2
      dsimp only [Option.map_some, Option.getD_some] at hid
      omega
    · intro h
      exact h h0 top hlatest

theorem low_le_iff {since : Int} {row : Row ρ} (hrow : row ∈ t.rows) (hts : since ≠ 0 → since ≤ row.ts)
    (upTo : Int) :
    (idBounds t since upTo).1 ≤ row.id ↔
      (since ≠ 0 → ∀ bottom, IsEarliest t since bottom → bottom.id ≤ row.id) := by
  unfold idBounds
  dsimp only
  by_cases h0 : since = 0
  · rw [if_neg (not_not.mpr h0)]
    refine iff_of_true ?_ (fun h => absurd h0 h)
    cases hrows : t.rows with
    | nil => rw [hrows] at hrow; cases hrow
    | cons first rest =>
      have hsorted := hrows ▸ t.sorted
      rcases List.mem_cons.mp (hrows ▸ hrow) with rfl | hr
      · exact le_rfl
      · exact le_of_lt ((List.pairwise_cons.mp hsorted).1 row hr)
  · have hmem : row ∈ t.rows.filter fun row => decide (since ≤ row.ts) := by simpa [hrow] using hts h0
    obtain ⟨bottom, hbottom, hin, hmin⟩ := earliest_spec (t.sorted.filter _) (List.ne_nil_of_mem hmem)
    have hearliest : IsEarliest t since bottom := by
      refine ⟨by simpa using hin, ?_⟩
      intro r hr hle
      exact hmin r (by simpa [hr] using hle)
    rw [if_pos h0, hbottom]
    constructor
    · intro hid _ bottom' hbottom'
      have := hbottom'.2 bottom hearliest.1.1 hearliest.1.2
      have := hearliest.2 bottom' hbottom'.1.1 hbottom'.1.2
      dsimp only [Option.map_some, Option.getD_some] at hid
      omega
    · intro h
      exact h h0 bottom hearliest

/-- Ids begin at 1. -/
theorem one_le_low (since upTo : Int) : 1 ≤ (idBounds t since upTo).1 := by
  unfold idBounds
  dsimp only
  have hid {l : List (Row ρ)} (hl : ∀ row ∈ l, row ∈ t.rows) (hsorted : l.Pairwise fun a b => a.id < b.id) :
      1 ≤ ((earliest l).map Row.id).getD 1 := by
    by_cases hne : l = []
    · subst hne
      exact le_rfl
    · obtain ⟨bottom, hbottom, hin, -⟩ := earliest_spec hsorted hne
      rw [hbottom]
      exact t.positive bottom (hl bottom hin)
  split
  · exact hid (fun row hrow => (List.mem_filter.mp hrow).1) (t.sorted.filter _)
  · cases hrows : t.rows with
    | nil => exact le_rfl
    | cons first rest => exact t.positive first (by simp [hrows])

theorem truncate_zero : truncate 0 = 0 := by decide

/-- A matching row lies between the bounds exactly where the times are in the order of the ids. -/
theorem inTimeOrder_iff : InTimeOrder t q ↔ ∀ row ∈ t.matching q,
    (idBounds t (truncate q.since) (truncate q.upTo)).1 ≤ row.id ∧
      row.id ≤ (idBounds t (truncate q.since) (truncate q.upTo)).2 := by
  have hclauses {row : Row ρ} (h : q.holds row = true) :
      (truncate q.upTo ≠ 0 → row.ts ≤ truncate q.upTo) ∧ (truncate q.since ≠ 0 → truncate q.since ≤ row.ts) := by
    have hnot {x : ℚ} (hx : truncate x ≠ 0) : x ≠ 0 := by
      rintro rfl
      exact hx truncate_zero
    simp only [Query.holds, Bool.and_eq_true, Bool.or_eq_true, decide_eq_true_eq] at h
    exact ⟨fun hne => h.1.2.resolve_left (hnot hne), fun hne => h.1.1.resolve_left (hnot hne)⟩
  constructor
  · intro h row hrow
    obtain ⟨hin, hholds⟩ := mem_matching.mp hrow
    obtain ⟨hup, hsince⟩ := hclauses hholds
    obtain ⟨hhigh, hlow⟩ := h row hin hholds
    exact ⟨(low_le_iff hin hsince _).mpr hlow, (le_high_iff hin hup _).mpr hhigh⟩
  · intro h row hin hholds
    obtain ⟨hup, hsince⟩ := hclauses hholds
    obtain ⟨hlow, hhigh⟩ := h row (mem_matching.mpr ⟨hin, hholds⟩)
    exact ⟨(le_high_iff hin hup _).mp hhigh, (low_le_iff hin hsince _).mp hlow⟩

/-! ## The search -/

/-- The rows of a search by index, page after page. -/
def readIndexed (t : Table ρ) (q : Query ρ) (limit : Int) (fuel : Nat) : Option (List (Row ρ)) :=
  follow (fun _ before => searchIndexed t q limit before) fuel 0 0

/-- The rows of a search by scanning, page after page, each with its own deadline. -/
def readScan (t : Table ρ) (q : Query ρ) (limit : Int) (clocks : Nat → Clock) (fuel : Nat) :
    Option (List (Row ρ)) :=
  follow (fun i before => searchScan t q limit (clocks i) before) fuel 0 0

theorem readScan_eq (limit : Int) (clocks : Nat → Clock) {fuel : Nat}
    (hfuel : (idBounds t (truncate q.since) (truncate q.upTo)).2.toNat + 1 < fuel) :
    readScan t q limit clocks fuel =
      some (between t q (idBounds t (truncate q.since) (truncate q.upTo)).1
        (idBounds t (truncate q.since) (truncate q.upTo)).2) := by
  obtain ⟨hone, -⟩ := LiveBuffer.pageSize_bounds limit
  rw [readScan, follow_eq between_sorted (fun i before _ => ?_) (Or.inl rfl) (by simpa using hfuel), below_zero]
  exact pageSpec_scan (one_le_low _ _) hone (clocks i) before

theorem readIndexed_eq (limit : Int) {top : Int} (htop : ∀ row ∈ t.rows, row.id ≤ top) {fuel : Nat}
    (hfuel : top.toNat + 1 < fuel) : readIndexed t q limit fuel = some (t.matching q) := by
  obtain ⟨hone, -⟩ := LiveBuffer.pageSize_bounds limit
  rw [readIndexed, follow_eq matching_sorted (fun i before _ => ?_) (Or.inl rfl)
    (by simpa using hfuel), below_zero]
  exact pageSpec_cut matching_sorted (fun row hrow => t.positive row (mem_matching.mp hrow).1)
    (fun row hrow => htop row (mem_matching.mp hrow).1) hone

/-- Followed to the end, the pages of the scan show exactly the matching rows, newest first, as
those of an index do; and so they do however often a scan runs out of time and is continued. -/
def FindsAll (t : Table ρ) (q : Query ρ) (limit : Int) : Prop :=
  ∃ enough, ∀ (clocks : Nat → Clock) (fuel : Nat), enough ≤ fuel →
    readScan t q limit clocks fuel = some (t.matching q) ∧ readIndexed t q limit fuel = some (t.matching q)

theorem exists_top (l : List (Row ρ)) : ∃ top, ∀ row ∈ l, row.id ≤ top := by
  induction l with
  | nil => exact ⟨0, by simp⟩
  | cons row rest ih =>
    obtain ⟨top, htop⟩ := ih
    refine ⟨max row.id top, ?_⟩
    intro r hr
    rcases List.mem_cons.mp hr with rfl | hr
    · exact le_max_left _ _
    · exact le_max_of_le_right (htop r hr)

variable (t q) in
/-- The scan finds every matching row exactly where no matching row stands outside the ids of the
latest and the earliest row of the period. -/
theorem scan_finds_all_iff (limit : Int) : FindsAll t q limit ↔ InTimeOrder t q := by
  have hscan {clocks : Nat → Clock} {fuel : Nat}
      (hfuel : (idBounds t (truncate q.since) (truncate q.upTo)).2.toNat + 1 < fuel) :
      readScan t q limit clocks fuel = some (t.matching q) ↔ InTimeOrder t q := by
    rw [readScan_eq limit clocks hfuel, inTimeOrder_iff, Option.some_inj, between, List.filter_eq_self]
    simp only [decide_eq_true_eq]
  constructor
  · rintro ⟨enough, h⟩
    have hfuel : (idBounds t (truncate q.since) (truncate q.upTo)).2.toNat + 1 <
        max enough ((idBounds t (truncate q.since) (truncate q.upTo)).2.toNat + 2) := by omega
    exact (hscan hfuel).mp (h (fun _ => ⟨fun _ => false, fun _ => false⟩) _ (le_max_left _ _)).1
  · intro h
    obtain ⟨top, htop⟩ := exists_top t.rows
    refine ⟨max (top.toNat + 2) ((idBounds t (truncate q.since) (truncate q.upTo)).2.toNat + 2), ?_⟩
    intro clocks fuel hfuel
    exact ⟨(hscan (by omega)).mpr h, readIndexed_eq limit htop (by omega)⟩

/-- Two requests of which the later line carried the earlier time. -/
def outOfOrder : Table Unit where
  rows := [⟨1, 50, ()⟩, ⟨2, 40, ()⟩]
  sorted := by decide
  positive := by decide

/-- The period ends at the row of the latest time, and the one stored after it is not found. -/
theorem scan_misses_late_line :
    ¬ ∀ (t : Table Unit) (q : Query Unit) (limit : Int), FindsAll t q limit := by
  intro h
  obtain ⟨enough, hall⟩ := h outOfOrder ⟨0, 60, fun _ => true⟩ 100
  have hfound := (hall (fun _ => ⟨fun _ => false, fun _ => false⟩) (max enough 3) (le_max_left _ _)).1
  have hbounds : idBounds outOfOrder (truncate 0) (truncate 60) = (1, 1) := by decide
  rw [readScan_eq, hbounds] at hfound
  · have hlen := congrArg (Option.map List.length) hfound
    revert hlen
    decide
  · rw [hbounds]
    omega

end EasyHaProxy.Guardd.RequestSearch
