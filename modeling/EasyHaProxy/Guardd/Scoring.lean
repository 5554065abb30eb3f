import EasyHaProxy.Lib.Nearest
import EasyHaProxy.Guardd.Basic

/-! # guardd: from stored events to a score -/
namespace EasyHaProxy.Guardd

def categoryCap : Int := 25
def scoreWindowSeconds : Int := 24 * 3600
def decaySeconds : Int := 6 * 3600

/-- `DEFAULT_WEIGHTS`; `none` for an event type that is not in it. -/
def EventType.defaultWeight : EventType → Option Int
  | .scannerPath => some 35
  | .scannerDecisive => some 60
  | .queryInjection => some 60
  | .scannerMulti => some 20
  | .lowAndSlow => some 30
  | .notFoundEnum => some 15
  | .wideEnum => some 30
  | .massEnum => some 60
  | .recurring => some 30
  | .invalidHost => some 10
  | .nosniProbing => some 10
  | .rateExceeded => some 15
  | .errorRateExceeded => some 15
  | .legacyBan => some 30
  | .hardFloor => some 0
  | .hardFloorTrusted => none
  | .banApplied => none
  | .banLifted => none
  | .legacyBanLifted => none

/-- `TELEMETRY_EVENTS`: the ordinary excess and what HAProxy did about it. -/
def EventType.telemetry (t : EventType) : Bool :=
  t = .rateExceeded ∨ t = .errorRateExceeded ∨ t = .legacyBan

/-- The weight of an event type under the policy in force (`scoring_policy().weight`). -/
def EventType.weight (policy : BanPolicy) (t : EventType) : Int :=
  let base := t.defaultWeight.getD 0
  match policy with
  | .legacy => base
  | .u02 => if t.telemetry then 0 else if t = .hardFloor ∧ base = 0 then 60 else base

/-- `REFUSAL_DOES_NOT_EXCUSE`. -/
def EventType.notExcused (t : EventType) : Bool := t = .scannerDecisive

/-- The gateway's own ban, seen in the table and written down as a finding. -/
def ownBanObservation (e : SecurityEvent) : Bool :=
  e.eventType = .legacyBan ∧ ownBanDetail e.detail

/-- What HAProxy refused is not held against an address, decisive requests aside. -/
def excused (e : SecurityEvent) : Bool := e.handled ∧ ¬ e.eventType.notExcused

/-- An event `score_events` gives points to while it is recent enough. -/
def counts (policy : BanPolicy) (e : SecurityEvent) : Bool :=
  0 < e.eventType.weight policy ∧ ¬ ownBanObservation e ∧ ¬ excused e

structure Points where
  total : ℚ := 0
  perCategory : Dict String ℚ := .empty

section Arithmetic

-- What an operation makes of its exact result: `nearest` for the doubles of the source.
variable (fl : ℚ → ℚ)

/-- `max(0.0, 1.0 - age / decay_seconds)` -/
def fade (age decaySeconds : Int) : ℚ := max 0 (fl (1 - fl (age / decaySeconds)))

namespace Points

/-- `min(points, max(0.0, ceiling - used))`: the cap holds repetition back, but never a single event
below its own weight. -/
def granted (acc : Points) (category : String) (ceiling : Int) (points : ℚ) : ℚ :=
  min points (max 0 (fl (fl ceiling - acc.perCategory.getD category 0)))

def grant (acc : Points) (category : String) (granted : ℚ) : Points where
  total := fl (acc.total + granted)
  perCategory := acc.perCategory.set category (fl (acc.perCategory.getD category 0 + granted))

end Points

end Arithmetic

/-- One event of `score_events`. -/
def scoreEvent (policy : BanPolicy) (now : Int) (acc : Points) (e : SecurityEvent) : Points :=
  let age := max 0 (now - e.ts)
  let base := e.eventType.weight policy
  if scoreWindowSeconds < age ∨ base ≤ 0 ∨ ownBanObservation e ∨ excused e then acc
  else
    let points := nearest (nearest base * fade nearest age decaySeconds)
    if points ≤ 0 then acc
    else
      let category := if e.category = "" then e.eventType.text else e.category
      acc.grant nearest category (acc.granted nearest category (max categoryCap base) points)

def scoreEvents (policy : BanPolicy) (now : Int) (events : List SecurityEvent) : Int :=
  min 100 (roundHalfEven (events.foldl (scoreEvent policy now) {}).total)

variable {policy : BanPolicy} {now : Int} {events : List SecurityEvent}

theorem scoreEvent_of_not_counts {e : SecurityEvent} (h : counts policy e = false) (acc : Points) :
    scoreEvent policy now acc e = acc := by
  unfold scoreEvent
  dsimp only
  rw [if_pos]
  simp only [counts, decide_eq_false_iff_not, not_and_or, not_not] at h
  rcases h with h | h | h
  · exact Or.inr (Or.inl (not_lt.mp h))
  · exact Or.inr (Or.inr (Or.inl h))
  · exact Or.inr (Or.inr (Or.inr h))

theorem scoreEvents_eq_zero (h : ∀ e ∈ events, counts policy e = false) :
    scoreEvents policy now events = 0 := by
  have hfold : events.foldl (scoreEvent policy now) {} = {} := by
    induction events with
    | nil => rfl
    | cons e events ih =>
      rw [List.foldl_cons, scoreEvent_of_not_counts (h e List.mem_cons_self)]
      exact ih (fun f hf => h f (List.mem_cons_of_mem e hf))
  rw [scoreEvents, hfold]
  decide +kernel

/-- The points an event could be worth at most. -/
def countedWeight (policy : BanPolicy) (e : SecurityEvent) : Int :=
  if counts policy e then e.eventType.weight policy else 0

theorem countedWeight_nonneg (e : SecurityEvent) : 0 ≤ countedWeight policy e := by
  unfold countedWeight
  split
  · rename_i h
    simp only [counts, decide_eq_true_eq] at h
    omega
  · exact le_refl 0

variable {fl : ℚ → ℚ}

theorem fade_le_one (h : Rounding fl) {age seconds : Int} (hage : 0 ≤ age) (hseconds : 0 ≤ seconds) :
    fade fl age seconds ≤ 1 := by
  have hquot : (0 : ℚ) ≤ age / seconds := by positivity
  have hnonneg := h.nonneg hquot
  refine max_le (by norm_num) ?_
  rcases le_total (1 - fl (age / seconds)) 0 with hneg | hpos
  · exact (h.nonpos hneg).trans (by norm_num)
  · exact_mod_cast h.le_nat_of_le (n := 1) (by norm_num) hpos (by push_cast; linarith)

theorem weight_le (t : EventType) : t.weight policy ≤ 60 := by
  cases policy <;> cases t <;> decide

/-- An event earns no more than it weighs. -/
theorem points_le (h : Rounding fl) {base age seconds : Int} (hbase : 0 ≤ base) (hbase' : base ≤ 256)
    (hage : 0 ≤ age) (hseconds : 0 ≤ seconds) : fl (fl base * fade fl age seconds) ≤ base := by
  have hfade : 0 ≤ fade fl age seconds := le_max_left _ _
  have hbaseq : (0 : ℚ) ≤ base := by exact_mod_cast hbase
  have hle := h.le_int_of_le hbase' hbaseq (le_refl _)
  refine h.le_int_of_le hbase' (mul_nonneg (h.nonneg hbaseq) hfade) ?_
  exact (mul_le_of_le_one_right (h.nonneg hbaseq) (fade_le_one h hage hseconds)).trans hle

/-- The points stay below the weights, as long as these come to numbers doubles hold. -/
theorem total_scoreEvent_le {acc : Points} {bound : Int} (hacc : 0 ≤ acc.total) (hbound : acc.total ≤ bound)
    (e : SecurityEvent) (hsum : bound + countedWeight policy e ≤ 256) :
    0 ≤ (scoreEvent policy now acc e).total ∧
      (scoreEvent policy now acc e).total ≤ (bound + countedWeight policy e : Int) := by
  have hw : 0 ≤ countedWeight policy e := countedWeight_nonneg e
  have hkept : acc.total ≤ (bound + countedWeight policy e : Int) :=
    hbound.trans (by exact_mod_cast Int.le_add_of_nonneg_right hw)
  cases hc : counts policy e with
  | false =>
    rw [scoreEvent_of_not_counts hc]
    exact ⟨hacc, hkept⟩
  | true =>
    have hweight : countedWeight policy e = e.eventType.weight policy := if_pos hc
    unfold scoreEvent
    dsimp only
    split
    · exact ⟨hacc, hkept⟩
    · rename_i hin
      split
      · exact ⟨hacc, hkept⟩
      · rename_i hpos
        have hbase : 0 ≤ e.eventType.weight policy := by omega
        have hpoints := points_le rounding_nearest hbase ((weight_le e.eventType).trans (by norm_num))
          (le_max_left 0 (now - e.ts)) (by decide : 0 ≤ decaySeconds)
        have hgranted (category : String) (ceiling : Int) (points : ℚ) (hp : 0 ≤ points) :
            0 ≤ acc.granted nearest category ceiling points ∧ acc.granted nearest category ceiling points ≤ points :=
          ⟨le_min hp (le_max_left _ _), min_le_left _ _⟩
        have hg := hgranted (if e.category = "" then e.eventType.text else e.category)
          (max categoryCap (e.eventType.weight policy)) _ (not_le.mp hpos).le
        refine ⟨rounding_nearest.nonneg (add_nonneg hacc hg.1), rounding_nearest.le_int_of_le hsum
          (add_nonneg hacc hg.1) ?_⟩
        push_cast
        rw [hweight]
        exact add_le_add hbound (hg.2.trans hpoints)

theorem scoreEvents_le : scoreEvents policy now events ≤ (events.map (countedWeight policy)).sum := by
  by_cases hlarge : 100 ≤ (events.map (countedWeight policy)).sum
  · exact (min_le_left _ _).trans hlarge
  have hfold : ∀ (acc : Points) (bound : Int), 0 ≤ acc.total → acc.total ≤ bound →
      bound + (events.map (countedWeight policy)).sum ≤ 256 →
      (events.foldl (scoreEvent policy now) acc).total ≤ (bound + (events.map (countedWeight policy)).sum : Int) := by
    clear hlarge
    induction events with
    | nil => exact fun acc bound _ hbound _ => by simpa using hbound
    | cons e events ih =>
      intro acc bound hacc hbound hsum
      rw [List.map_cons, List.sum_cons, ← add_assoc] at hsum
      have hrest : 0 ≤ (events.map (countedWeight policy)).sum := by
        apply List.sum_nonneg
        intro w hw
        obtain ⟨f, -, rfl⟩ := List.mem_map.mp hw
        exact countedWeight_nonneg f
      obtain ⟨hnonneg, hle⟩ := @total_scoreEvent_le policy now acc bound hacc hbound e (by omega)
      rw [List.foldl_cons, List.map_cons, List.sum_cons, ← add_assoc]
      exact ih _ _ hnonneg hle hsum
  have htotal := hfold {} 0 (le_refl 0) (by norm_num) (by omega)
  rw [zero_add] at htotal
  have hround := roundHalfEven_mono htotal
  rw [roundHalfEven_intCast] at hround
  exact (min_le_right _ _).trans hround

end EasyHaProxy.Guardd
