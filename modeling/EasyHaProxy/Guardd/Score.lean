import EasyHaProxy.Guardd.Scoring
import EasyHaProxy.Lib.Rounded

/-! # guardd: scores under any policy -/
namespace EasyHaProxy.Guardd

open Capped

/-- Everything that turns stored events into a number. -/
structure ScoringPolicy where
  weights : Dict String Int
  categoryCap : Int
  windowSeconds : Int
  decaySeconds : Int

/-- An event as `events_for` returns it. -/
structure EventRow where
  ts : Int := 0
  eventType : String := ""
  source : String := ""
  site : String := ""
  category : String := ""
  detail : String := ""
  handled : Int := 0
  deriving DecidableEq

structure Contribution where
  ts : Int
  eventType : String
  category : String
  points : ℚ
  reason : String
  site : String
  detail : String

structure ScoreResult where
  score : Int
  state : String
  recommendedAction : String
  eventsCounted : Nat
  categories : Dict String ℚ
  contributions : List Contribution

/-- `DEFAULT_THRESHOLDS` -/
def defaultThresholds : List (Int × String) :=
  [(80, "HOSTILE"), (60, "HIGH_RISK"), (40, "SUSPICIOUS"), (20, "WATCH"), (0, "NORMAL")]

def stateFor (score : Int) : String :=
  ((defaultThresholds.find? fun t => t.1 ≤ score).map Prod.snd).getD "NORMAL"

/-- `RECOMMENDED_ACTIONS` -/
def recommendedActions : Dict String String := .ofPairs
  [("NORMAL", "none"), ("WATCH", "observe"), ("SUSPICIOUS", "throttle"), ("HIGH_RISK", "temporary_ban"),
    ("HOSTILE", "long_ban")]

/-- `round(value, 2)` -/
def roundCents (fl : ℚ → ℚ) (q : ℚ) : ℚ := fl (roundHalfEven (q * 100) / 100)

/-- `REFUSAL_DOES_NOT_EXCUSE`, by the text of the column. -/
def refusalDoesNotExcuse : List String := [EventType.scannerDecisive.text]

/-- A row of `security_events` as `score_events` reads it. -/
def SecurityEvent.row (e : SecurityEvent) : EventRow where
  ts := e.ts
  eventType := e.eventType.text
  source := e.source
  site := e.site
  category := e.category
  detail := e.detail
  handled := if e.handled then 1 else 0

namespace EventRow

/-- `_own_ban_observation`, asked for `EVENT_LEGACY_BAN`. -/
def ownBan (e : EventRow) : Bool := e.eventType == EventType.legacyBan.text && ownBanDetail e.detail

def refused (e : EventRow) : Bool := e.handled != 0 && !refusalDoesNotExcuse.contains e.eventType

def counted (e : EventRow) : String := if e.category = "" then e.eventType else e.category

def contribution (e : EventRow) (points : ℚ) (reason : String) : Contribution where
  ts := e.ts
  eventType := e.eventType
  category := e.category
  points := points
  reason := reason
  site := e.site
  detail := e.detail

end EventRow

/-- What `score_events` has after the events so far. -/
structure Weighing extends Points where
  contributions : List Contribution := []
  counted : Nat := 0

namespace ScoringPolicy

def weight (policy : ScoringPolicy) (eventType : String) : Int := policy.weights.getD eventType 0

section Arithmetic

variable (fl : ℚ → ℚ) (policy : ScoringPolicy) (now : Int)

def decay (age : Int) : ℚ := if 0 < policy.decaySeconds then fade fl age policy.decaySeconds else 1

/-- One event of `score_events`. -/
def weighEventBy (acc : Weighing) (e : EventRow) : Weighing :=
  let age := max 0 (now - e.ts)
  let base := policy.weight e.eventType
  if policy.windowSeconds < age ∨ base ≤ 0 ∨ e.ownBan then acc
  else if e.refused then
    { acc with contributions := acc.contributions ++ [e.contribution 0 "already refused by the gateway"] }
  else
    let points := fl (fl base * policy.decay fl age)
    if points ≤ 0 then acc
    else
      let granted := acc.granted fl e.counted (max policy.categoryCap base) points
      { toPoints := acc.grant fl e.counted granted
        contributions := acc.contributions ++ [e.contribution (roundCents fl granted)
          (if granted < points then "category cap reached" else "counted")]
        counted := acc.counted + 1 }

def weighBy (events : List EventRow) : Weighing := events.foldl (policy.weighEventBy fl now) {}

def scoreEventsBy (events : List EventRow) : ScoreResult :=
  let w := policy.weighBy fl now events
  let score := min 100 (roundHalfEven w.total)
  { score
    state := stateFor score
    recommendedAction := recommendedActions.getD (stateFor score) "none"
    eventsCounted := w.counted
    categories := w.perCategory.mapValues fun _ points => roundCents fl points
    contributions := w.contributions }

/-- What an event is worth before its category's ceiling, 0 when it is left out. -/
def points (e : EventRow) : ℚ :=
  let age := max 0 (now - e.ts)
  if policy.windowSeconds < age ∨ policy.weight e.eventType ≤ 0 ∨ e.ownBan ∨ e.refused then 0
  else fl (fl (policy.weight e.eventType) * policy.decay fl age)

def ceiling (eventType : String) : ℚ := (max policy.categoryCap (policy.weight eventType) : Int)

def charge (e : EventRow) : Charge String ℚ where
  key := e.counted
  points := policy.points fl now e
  ceiling := policy.ceiling e.eventType

end Arithmetic

/-- `score_events`, which computes with doubles. -/
def scoreEvents (policy : ScoringPolicy) (now : Int) (events : List EventRow) : ScoreResult :=
  policy.scoreEventsBy nearest now events

variable {fl : ℚ → ℚ} {policy : ScoringPolicy} {now now₁ now₂ : Int} {events events' : List EventRow} {e : EventRow}

/-! ## An event's points -/

theorem decay_nonneg (age : Int) : 0 ≤ policy.decay fl age := by
  unfold decay
  split
  · exact le_max_left _ _
  · norm_num

theorem points_nonneg (h : Rounding fl) (e : EventRow) : 0 ≤ policy.points fl now e := by
  unfold points
  dsimp only
  split
  · exact le_refl 0
  · rename_i hin
    have hbase : (0 : ℚ) ≤ policy.weight e.eventType := by
      have : 0 ≤ policy.weight e.eventType := by omega
      exact_mod_cast this
    exact h.nonneg (mul_nonneg (h.nonneg hbase) (decay_nonneg _))

theorem weight_pos_of_points (h : 0 < policy.points fl now e) : 0 < policy.weight e.eventType := by
  by_contra hw
  rw [points, if_pos (.inr (.inl (not_lt.mp hw)))] at h
  exact lt_irrefl 0 h

theorem ceiling_nonneg (hp : 0 < policy.points fl now e) : 0 ≤ policy.ceiling e.eventType := by
  have hw := weight_pos_of_points hp
  have hmax : 0 ≤ max policy.categoryCap (policy.weight e.eventType) := le_max_of_le_right hw.le
  exact Int.cast_nonneg hmax

theorem decay_anti {a b : Int} (h : a ≤ b) : policy.decay id b ≤ policy.decay id a := by
  unfold decay fade
  split
  · rename_i hpos
    have hpos : (0 : ℚ) < policy.decaySeconds := by exact_mod_cast hpos
    have hle : (a : ℚ) ≤ b := by exact_mod_cast h
    simp only [id]
    gcongr
  · exact le_refl 1

/-- As time goes by an event loses points. -/
theorem points_anti (h : now₁ ≤ now₂) (e : EventRow) : policy.points id now₂ e ≤ policy.points id now₁ e := by
  have hage : max 0 (now₁ - e.ts) ≤ max 0 (now₂ - e.ts) := by omega
  by_cases hout : policy.windowSeconds < max 0 (now₁ - e.ts) ∨ policy.weight e.eventType ≤ 0 ∨ e.ownBan ∨ e.refused
  · have hout' : policy.windowSeconds < max 0 (now₂ - e.ts) ∨ policy.weight e.eventType ≤ 0 ∨ e.ownBan ∨ e.refused :=
      hout.imp (fun hw => hw.trans_le hage) id
    rw [points, if_pos hout']
    exact points_nonneg rounding_id e
  · unfold points
    dsimp only
    rw [if_neg hout]
    have hbase : (0 : ℚ) ≤ policy.weight e.eventType := by
      have : 0 ≤ policy.weight e.eventType := by omega
      exact_mod_cast this
    split
    · exact mul_nonneg hbase (decay_nonneg _)
    · exact mul_le_mul_of_nonneg_left (decay_anti hage) hbase

/-! ## The weighing as charges -/

/-- The weighing has granted what the ledger has. -/
structure Follows (acc : Points) (l : Ledger String ℚ) : Prop where
  total : acc.total = l.total
  used : ∀ category, acc.perCategory.getD category 0 = l.used category

theorem follows_of_points_eq_zero {acc : Points} {l : Ledger String ℚ} (h : Follows acc l)
    (he : policy.points fl now e = 0) : Follows acc (l.chargeBy fl (policy.charge fl now e)) := by
  rw [Ledger.chargeBy_of_points_le_zero (c := policy.charge fl now e) he.le]
  exact h

theorem follows_weighEvent (hfl : Rounding fl) {acc : Weighing} {l : Ledger String ℚ} (h : Follows acc.toPoints l)
    (e : EventRow) : Follows (policy.weighEventBy fl now acc e).toPoints (l.chargeBy fl (policy.charge fl now e)) := by
  unfold weighEventBy
  dsimp only
  split
  · rename_i hout
    have hzero : policy.points fl now e = 0 := by
      rw [points, if_pos (by tauto)]
    exact follows_of_points_eq_zero h hzero
  · rename_i hin
    split
    · rename_i hrefused
      have hzero : policy.points fl now e = 0 := by
        rw [points, if_pos (by tauto)]
      exact follows_of_points_eq_zero h hzero
    · rename_i hrefused
      have hpoints : policy.points fl now e =
          fl (fl (policy.weight e.eventType) * policy.decay fl (max 0 (now - e.ts))) := by
        rw [points, if_neg (by tauto)]
      rw [← hpoints]
      split
      · rename_i hle
        exact follows_of_points_eq_zero h (le_antisymm hle (points_nonneg hfl e))
      · rename_i hpos
        have hgrant : acc.granted fl e.counted (max policy.categoryCap (policy.weight e.eventType))
            (policy.points fl now e) = (policy.charge fl now e).grantBy fl (l.used e.counted) := by
          rw [Points.granted, h.used]
          rfl
        have hcharge : ¬ (policy.charge fl now e).points ≤ 0 := hpos
        rw [Ledger.chargeBy, if_neg hcharge, hgrant]
        refine ⟨?_, fun category => ?_⟩
        · exact congrArg (fun total => fl (total + _)) h.total
        · by_cases hcat : category = e.counted
          · subst hcat
            simp [Points.grant, Dict.getD, charge, ← h.used]
          · simp [Points.grant, Dict.getD, charge, hcat, ← h.used]

theorem follows_weigh (hfl : Rounding fl) : Follows (policy.weighBy fl now events).toPoints
    ((events.map (policy.charge fl now)).foldl (Ledger.chargeBy fl) .empty) := by
  have key : ∀ (acc : Weighing) (l : Ledger String ℚ), Follows acc.toPoints l →
      Follows (events.foldl (policy.weighEventBy fl now) acc).toPoints
        ((events.map (policy.charge fl now)).foldl (Ledger.chargeBy fl) l) := by
    induction events with
    | nil => exact fun _ _ h => h
    | cons e events ih => exact fun acc l h => ih _ _ (follows_weighEvent hfl h e)
  exact key {} .empty ⟨rfl, fun _ => rfl⟩

theorem proper_charges (hfl : Rounding fl) : Proper (events.map (policy.charge fl now)) := by
  intro c hc
  obtain ⟨e, _, rfl⟩ := List.mem_map.mp hc
  exact ⟨points_nonneg hfl e, ceiling_nonneg⟩

theorem total_eq (hfl : Rounding fl) : (policy.weighBy fl now events).total =
    ((events.map (policy.charge fl now)).foldl (Ledger.chargeBy fl) .empty).total := (follows_weigh hfl).total

/-- The exact sum of what is granted, for events that are worth these points. -/
def exactTotal (fl : ℚ → ℚ) (policy : ScoringPolicy) (now : Int) (events : List EventRow) : ℚ :=
  ((events.map (policy.charge fl now)).foldl Ledger.charge .empty).total

theorem total_id : (policy.weighBy id now events).total = policy.exactTotal id now events := by
  rw [total_eq rounding_id, charges_id (proper_charges rounding_id).sound]
  rfl

theorem total_near (hfl : Rounding fl) (hlen : drift events.length ≤ 1 / 2) :
    Near (drift events.length) (policy.weighBy fl now events).total (policy.exactTotal fl now events) := by
  have hproper : Proper (events.map (policy.charge fl now)) := proper_charges hfl
  have hnear := near_charges hfl hproper
  rw [List.length_map] at hnear
  rw [total_eq hfl]
  exact hnear hlen

theorem exactTotal_le_of_sublist (hfl : Rounding fl) (h : events.Sublist events') :
    policy.exactTotal fl now events ≤ policy.exactTotal fl now events' :=
  total_le fun _ => spent_le_of_sublist (h.map _) (proper_charges hfl).sound (le_refl 0)

theorem score_bounds (hfl : Rounding fl) :
    0 ≤ (policy.scoreEventsBy fl now events).score ∧ (policy.scoreEventsBy fl now events).score ≤ 100 := by
  refine ⟨le_min (by norm_num) (roundHalfEven_nonneg ?_), min_le_left _ _⟩
  rw [total_eq hfl]
  exact (held_charges hfl (proper_charges hfl).sound).1

/-! ## What totals round to -/

/-- A score is lower than another only where a half lies between the totals. -/
theorem score_drop {T T' δ : ℚ} (h : T ≤ T' + δ) (hδ : δ < 1) :
    min 100 (roundHalfEven T) ≤ min 100 (roundHalfEven T') ∨
      min 100 (roundHalfEven T) = min 100 (roundHalfEven T') + 1 ∧ ∃ k : Int, T' ≤ k + 1 / 2 ∧ k + 1 / 2 ≤ T := by
  rcases le_or_gt (roundHalfEven T) (roundHalfEven T') with hle | hlt
  · exact Or.inl (min_le_min (le_refl _) hle)
  obtain ⟨k, hlow, hhigh⟩ := half_between hlt
  have hone : roundHalfEven T ≤ roundHalfEven T' + 1 := by
    by_contra htwo
    have htwo : (roundHalfEven T' : ℚ) + 2 ≤ roundHalfEven T := by
      have : roundHalfEven T' + 2 ≤ roundHalfEven T := by omega
      exact_mod_cast this
    have hT := abs_le.mp (abs_roundHalfEven_sub T)
    have hT' := abs_le.mp (abs_roundHalfEven_sub T')
    linarith
  by_cases hcap : 100 ≤ roundHalfEven T'
  · left
    rw [min_eq_left hcap]
    exact min_le_left _ _
  · right
    exact ⟨by omega, k, hlow, hhigh⟩

/-- Totals near exact sums of which one is no less than the other round to scores in that order, or
the totals are near each other. -/
theorem score_near {ε T E T' E' : ℚ} (hε : ε ≤ 1 / 4) (hT : Near ε T E) (hT' : Near ε T' E') (h : E ≤ E') :
    min 100 (roundHalfEven T) ≤ min 100 (roundHalfEven T') ∨ T ≤ T' + 2 * ε := by
  have hfull : 100 ≤ T' → min 100 (roundHalfEven T) ≤ min 100 (roundHalfEven T') := by
    intro hlarge
    have hround := roundHalfEven_mono (q := ((100 : Int) : ℚ)) (by exact_mod_cast hlarge)
    rw [roundHalfEven_intCast] at hround
    rw [min_eq_left hround]
    exact min_le_left _ _
  rcases hT' with ⟨hover, -⟩ | hnear'
  · exact Or.inl (hfull (by linarith))
  rw [abs_le] at hnear'
  rcases hT with ⟨-, hover⟩ | hnear
  · exact Or.inl (hfull (by linarith))
  · rw [abs_le] at hnear
    exact Or.inr (by linarith)

/-- Scores of totals near each other differ by one at most, and only by a half near them. -/
theorem score_same {T T' δ : ℚ} (hdown : min 100 (roundHalfEven T) ≤ min 100 (roundHalfEven T') ∨ T ≤ T' + δ)
    (hup : min 100 (roundHalfEven T') ≤ min 100 (roundHalfEven T) ∨ T' ≤ T + δ) (hδ : δ < 1) :
    (min 100 (roundHalfEven T') = min 100 (roundHalfEven T) ∨ ∃ k : Int, |T - (k + 1 / 2)| ≤ δ) ∧
      |min 100 (roundHalfEven T') - min 100 (roundHalfEven T)| ≤ 1 := by
  have hdown' := hdown.elim Or.inl fun hle => score_drop hle hδ
  have hup' := hup.elim Or.inl fun hle => score_drop hle hδ
  refine ⟨?_, abs_le.mpr (by omega)⟩
  rcases lt_trichotomy (min 100 (roundHalfEven T')) (min 100 (roundHalfEven T)) with hlt | heq | hlt
  · obtain ⟨k, hlow, hhigh⟩ := half_between (by omega : roundHalfEven T' < roundHalfEven T)
    have hclose := hdown.resolve_left (not_le.mpr hlt)
    exact Or.inr ⟨k, abs_le.mpr (by constructor <;> linarith)⟩
  · exact Or.inl heq
  · obtain ⟨k, hlow, hhigh⟩ := half_between (by omega : roundHalfEven T < roundHalfEven T')
    have hclose := hup.resolve_left (not_le.mpr hlt)
    exact Or.inr ⟨k, abs_le.mpr (by constructor <;> linarith)⟩

theorem drift_le {k n : Nat} {bound : ℚ} (h : k ≤ n) (hn : drift n ≤ bound) : drift k ≤ bound := (drift_mono h).trans hn

/-- A score is no lower than before, or lower by one with its total less than 2⁻²⁴ below a half. -/
def KeptButRounded (score score' : Int) (total' : ℚ) : Prop :=
  score ≤ score' ∨ score = score' + 1 ∧ ∃ k : Int, total' ≤ k + 1 / 2 ∧ k + 1 / 2 ≤ total' + 1 / 2 ^ 24

theorem score_le_of_sublist (h : events.Sublist events') (hlen : events'.length ≤ 500) :
    KeptButRounded (policy.scoreEvents now events).score (policy.scoreEvents now events').score
      (policy.weighBy nearest now events').total := by
  have hdrift : drift 500 ≤ 1 / 2 ^ 25 := by norm_num [drift]
  have hnear (l : List EventRow) (hl : l.length ≤ 500) :
      Near (1 / 2 ^ 25) (policy.weighBy nearest now l).total (policy.exactTotal nearest now l) :=
    (total_near rounding_nearest (drift_le hl (hdrift.trans (by norm_num)))).imp_right
      fun hle => hle.trans (drift_le hl hdrift)
  rcases score_near (by norm_num) (hnear events (h.length_le.trans hlen)) (hnear events' hlen)
    (exactTotal_le_of_sublist rounding_nearest h) with hle | hclose
  · exact Or.inl hle
  · rcases score_drop hclose (by norm_num) with hle | ⟨hone, k, hlow, hhigh⟩
    · exact Or.inl hle
    · exact Or.inr ⟨hone, k, hlow, hhigh.trans (hclose.trans_eq (by ring))⟩

/-- What comes last takes nothing away. -/
theorem score_le_append (more : List EventRow) :
    (policy.scoreEvents now events).score ≤ (policy.scoreEvents now (events ++ more)).score := by
  refine min_le_min (le_refl _) (roundHalfEven_mono ?_)
  rw [total_eq rounding_nearest, total_eq rounding_nearest, List.map_append]
  refine total_le_append rounding_nearest ?_
  rw [← List.map_append]
  exact (proper_charges rounding_nearest).sound

/-- An event that earns nothing makes no difference where it stands. -/
theorem score_skip {before after : List EventRow} {e : EventRow} (h : policy.points nearest now e = 0) :
    (policy.scoreEvents now (before ++ e :: after)).score = (policy.scoreEvents now (before ++ after)).score := by
  have htotal : (policy.weighBy nearest now (before ++ e :: after)).total =
      (policy.weighBy nearest now (before ++ after)).total := by
    rw [total_eq rounding_nearest, total_eq rounding_nearest]
    simp only [List.map_append, List.map_cons, List.foldl_append, List.foldl_cons]
    rw [Ledger.chargeBy_of_points_le_zero (c := policy.charge nearest now e) h.le]
  exact congrArg (fun total => min 100 (roundHalfEven total)) htotal

/-! ## The two policies in force -/

/-- `ScoringPolicy()`, with `DEFAULT_WEIGHTS`. -/
def byDefault : ScoringPolicy where
  weights := ⟨[("SCANNER_PATH", 35), ("SCANNER_PATH_DECISIVE", 60), ("QUERY_INJECTION", 60),
    ("SCANNER_MULTI_CATEGORY", 20), ("LOW_AND_SLOW_SCANNER", 30), ("NOT_FOUND_ENUMERATION", 15),
    ("WIDE_ENUMERATION", 30), ("MASS_ENUMERATION", 60), ("RECURRING_SCANNER", 30),
    ("INVALID_HOST_ACTIVITY", 10), ("NOSNI_PROBING", 10), ("RATE_EXCEEDED", 15),
    ("ERROR_RATE_EXCEEDED", 15), ("LEGACY_HAPROXY_BAN", 30), ("HARD_FLOOR_EPISODE", 0)], by decide +kernel⟩
  categoryCap := Guardd.categoryCap
  windowSeconds := scoreWindowSeconds
  decaySeconds := Guardd.decaySeconds

/-- `TELEMETRY_EVENTS` -/
def telemetryEvents : List String := ["RATE_EXCEEDED", "ERROR_RATE_EXCEEDED", "LEGACY_HAPROXY_BAN"]

/-- `U02_EVIDENCE_WEIGHTS` -/
def u02EvidenceWeights : List (String × Int) := [("HARD_FLOOR_EPISODE", 60)]

def silence (weights : Dict String Int) (eventType : String) : Dict String Int := weights.set eventType 0

def fillWeight (weights : Dict String Int) (e : String × Int) : Dict String Int :=
  if weights.getD e.1 0 = 0 then weights.set e.1 e.2 else weights

/-- `u02_policy` -/
def u02Policy (base : ScoringPolicy) : ScoringPolicy :=
  { base with weights := u02EvidenceWeights.foldl fillWeight (telemetryEvents.foldl silence base.weights) }

/-- `scoring_policy()` -/
def inForce : BanPolicy → ScoringPolicy
  | .legacy => byDefault
  | .u02 => u02Policy byDefault

/-! ## The results -/

/-- Whatever the policy, a list of events is scored lower later on, and always between 0 and 100, in
exact arithmetic. -/
theorem score_fades (policy : ScoringPolicy) (events : List EventRow) (h : now₁ ≤ now₂) :
    (policy.scoreEventsBy id now₂ events).score ≤ (policy.scoreEventsBy id now₁ events).score ∧
      ∀ now, 0 ≤ (policy.scoreEventsBy id now events).score ∧ (policy.scoreEventsBy id now events).score ≤ 100 := by
  refine ⟨min_le_min (le_refl _) (roundHalfEven_mono ?_), fun _ => score_bounds rounding_id⟩
  rw [total_id, total_id]
  have hweaker : List.Forall₂ Weaker (events.map (policy.charge id now₂)) (events.map (policy.charge id now₁)) := by
    rw [List.forall₂_map_left_iff, List.forall₂_map_right_iff, List.forall₂_same]
    exact fun e _ => ⟨rfl, rfl, points_anti h e⟩
  exact total_le fun _ => spent_le_of_weaker hweaker (proper_charges rounding_id).sound (le_refl 0)

/-- Signatures at 35 points, no more than 25 a category beyond one event's own, a fade of six hours. -/
def signaturesOnly : ScoringPolicy where
  weights := .ofPairs [("SCANNER_PATH", 35)]
  categoryCap := 25
  windowSeconds := 86400
  decaySeconds := 21600

/-- One probe, then and three hours later. -/
theorem score_fades_signaturesOnly :
    let probes : List EventRow := [{ ts := 1000, eventType := "SCANNER_PATH", category := "wordpress" }]
    (signaturesOnly.scoreEventsBy id 11800 probes).score ≤ (signaturesOnly.scoreEventsBy id 1000 probes).score ∧
      ∀ now, 0 ≤ (signaturesOnly.scoreEventsBy id now probes).score ∧
        (signaturesOnly.scoreEventsBy id now probes).score ≤ 100 :=
  score_fades signaturesOnly _ (by decide)

/-- The weighed events of a category are all of one type. -/
def OneType (policy : ScoringPolicy) (now : Int) (events : List EventRow) : Prop :=
  ∀ e ∈ events, ∀ f ∈ events, 0 < policy.points nearest now e → 0 < policy.points nearest now f →
    e.counted = f.counted → e.eventType = f.eventType

def sumOf (policy : ScoringPolicy) (now : Int) (events : List EventRow) (category : String) : ℚ :=
  ((events.filter fun e => e.counted = category).map (policy.points nearest now)).sum

theorem sumOf_eq (category : String) : policy.sumOf now events category =
    (((events.map (policy.charge nearest now)).filter (·.key = category)).map (·.points)).sum := by
  unfold sumOf
  rw [List.filter_map, List.map_map]
  rfl

theorem OneType.ceiling (h : OneType policy now events) {e : EventRow} (he : e ∈ events)
    (hp : 0 < policy.points nearest now e) :
    ∀ c ∈ events.map (policy.charge nearest now), c.key = e.counted → 0 < c.points → c.ceiling = policy.ceiling e.eventType := by
  intro c hc hkey hpoints
  obtain ⟨f, hf, rfl⟩ := List.mem_map.mp hc
  have htype : f.eventType = e.eventType := h f hf e he hpoints hp hkey
  exact congrArg policy.ceiling htype

/-- A category is granted what its points come to, as far as the ceiling they share, by a rounding. -/
theorem OneType.granted_near (h : OneType policy now events) {e : EventRow} (he : e ∈ events)
    (hp : 0 < policy.points nearest now e) :
    |(policy.weighBy nearest now events).perCategory.getD e.counted 0 -
        min (policy.sumOf now events e.counted) (policy.ceiling e.eventType)| ≤
      events.length * (policy.ceiling e.eventType / 2 ^ 50) := by
  have hnear := used_near rounding_nearest (proper_charges rounding_nearest) (h.ceiling he hp) (ceiling_nonneg hp)
  rwa [← (follows_weigh rounding_nearest).used, ← sumOf_eq, List.length_map] at hnear

/-- In any order the exact sums are the same. -/
theorem OneType.exactTotal_perm (h : OneType policy now events) (hperm : events.Perm events') :
    policy.exactTotal nearest now events = policy.exactTotal nearest now events' := by
  have hspent : ∀ category, spent category 0 (events.map (policy.charge nearest now)) =
      spent category 0 (events'.map (policy.charge nearest now)) := by
    intro category
    have hproper (l : List EventRow) : Proper (l.map (policy.charge nearest now)) := proper_charges rounding_nearest
    have hsound := (hproper events).sound
    have hsound' := (hproper events').sound
    obtain ⟨ceiling, hc, hone⟩ : ∃ ceiling, 0 ≤ ceiling ∧ ∀ c ∈ events.map (policy.charge nearest now),
        c.key = category → c.points ≠ 0 → c.ceiling = ceiling := by
      by_cases hex : ∃ e ∈ events, e.counted = category ∧ 0 < policy.points nearest now e
      · obtain ⟨e, he, rfl, hp⟩ := hex
        exact ⟨_, ceiling_nonneg hp, fun c hc hkey hne => h.ceiling he hp c hc hkey ((hsound c hc).lt_of_ne' hne)⟩
      · refine ⟨0, le_refl 0, fun c hc hkey hne => (hex ?_).elim⟩
        obtain ⟨e, he, rfl⟩ := List.mem_map.mp hc
        exact ⟨e, he, hkey, (points_nonneg rounding_nearest e).lt_of_ne' hne⟩
    rw [spent_eq_min hsound hone hc, spent_eq_min hsound' (fun c hc => hone c ((hperm.map _).mem_iff.mpr hc)) hc]
    rw [(((hperm.map (policy.charge nearest now)).filter _).map _).sum_eq]
  exact le_antisymm (total_le fun c => (hspent c).le) (total_le fun c => (hspent c).ge)

/-- How far a total may be from a half that another order of the events takes it over. -/
def slack (n : Nat) : ℚ := n ^ 2 / 2 ^ 42

/-- Where each category has events of one type only, it is granted the sum of their points up to its
ceiling, but for the rounding of the sums; and the order of the events has no influence on the score,
unless the total lies this near a half. -/
theorem category_is_one_finding (policy : ScoringPolicy) (now : Int) (events : List EventRow)
    (h : OneType policy now events) :
    (∀ e ∈ events, 0 < policy.points nearest now e →
      |(policy.weighBy nearest now events).perCategory.getD e.counted 0 -
          min (policy.sumOf now events e.counted) (policy.ceiling e.eventType)| ≤
        events.length * (policy.ceiling e.eventType / 2 ^ 50)) ∧
    ∀ events', events.Perm events' →
      ((policy.scoreEvents now events').score = (policy.scoreEvents now events).score ∨
        ∃ k : Int, |(policy.weighBy nearest now events).total - (k + 1 / 2)| ≤ slack events.length) ∧
      (events.length ≤ 2 ^ 20 →
        |(policy.scoreEvents now events').score - (policy.scoreEvents now events).score| ≤ 1) := by
  refine ⟨fun e he hp => h.granted_near he hp, fun events' hperm => ?_⟩
  have hslack : slack events.length = 2 * drift events.length := by
    unfold slack drift
    ring
  by_cases hlong : 1 / 4 < drift events.length
  · -- So many events that every total lies near a half.
    refine ⟨Or.inr ⟨(policy.weighBy nearest now events).total.floor, ?_⟩, fun hlen => ?_⟩
    · have hlow : ((policy.weighBy nearest now events).total.floor : ℚ) ≤ _ := Int.floor_le _
      have hhigh : _ < ((policy.weighBy nearest now events).total.floor : ℚ) + 1 := Int.lt_floor_add_one _
      rw [hslack, abs_le]
      constructor <;> linarith
    · exact absurd ((drift_mono hlen).trans (by norm_num [drift])) (not_le.mpr hlong)
  · have hdrift := not_lt.mp hlong
    have hnear : Near _ (policy.weighBy nearest now events).total _ :=
      total_near rounding_nearest (hdrift.trans (by norm_num))
    have hnear' : Near _ (policy.weighBy nearest now events').total _ :=
      total_near rounding_nearest (hperm.length_eq ▸ hdrift.trans (by norm_num))
    rw [← hperm.length_eq] at hnear'
    have hsum := h.exactTotal_perm hperm
    have hsame := score_same (score_near hdrift hnear hnear' hsum.le) (score_near hdrift hnear' hnear hsum.ge)
      (by linarith)
    rw [hslack]
    exact ⟨hsame.1, fun _ => hsame.2⟩

/-- Two probes of one category and one of another, in both orders. -/
theorem category_is_one_finding_signaturesOnly :
    let first : EventRow := { ts := 1000, eventType := "SCANNER_PATH", category := "wordpress" }
    let later : EventRow := { ts := 4600, eventType := "SCANNER_PATH", category := "wordpress" }
    let other : EventRow := { ts := 2000, eventType := "SCANNER_PATH", category := "vcs" }
    |(signaturesOnly.weighBy nearest 4600 [first, other, later]).perCategory.getD "wordpress" 0 -
        min (signaturesOnly.sumOf 4600 [first, other, later] "wordpress") (signaturesOnly.ceiling "SCANNER_PATH")| ≤
      3 * (signaturesOnly.ceiling "SCANNER_PATH" / 2 ^ 50) ∧
    |(signaturesOnly.scoreEvents 4600 [other, later, first]).score -
        (signaturesOnly.scoreEvents 4600 [first, other, later]).score| ≤ 1 := by
  intro first later other
  have hone : signaturesOnly.OneType 4600 [first, other, later] := by
    have htype : ∀ e ∈ [first, other, later], e.eventType = "SCANNER_PATH" := by simp [first, other, later]
    exact fun e he f hf _ _ _ => (htype e he).trans (htype f hf).symm
  obtain ⟨hgranted, hperm⟩ := category_is_one_finding signaturesOnly 4600 _ hone
  refine ⟨hgranted first List.mem_cons_self (by decide +kernel), (hperm _ ?_).2 (by decide)⟩
  exact (List.Perm.swap other first [later]).trans ((List.Perm.swap later first []).cons other)

/-- Three findings of three categories, which sum up to 41.5 or to a little less. -/
def tipping : List EventRow :=
  [{ ts := 89620, eventType := "QUERY_INJECTION", category := "a" },
    { ts := 82900, eventType := "SCANNER_MULTI_CATEGORY", category := "b" },
    { ts := 87280, eventType := "NOT_FOUND_ENUMERATION", category := "c" }]

/-- The order of three findings decides between 41 and 42. -/
theorem order_tips_the_score : ¬ ∀ (policy : ScoringPolicy) (now : Int) (events : List EventRow),
    policy.OneType now events →
      (∀ e ∈ events, 0 < policy.points nearest now e →
        (policy.weighBy nearest now events).perCategory.getD e.counted 0 =
          min (policy.sumOf now events e.counted) (policy.ceiling e.eventType)) ∧
      ∀ events', events.Perm events' →
        (policy.scoreEvents now events').score = (policy.scoreEvents now events).score := by
  intro h
  have hone : byDefault.OneType 100000 tipping := by
    unfold OneType
    decide +kernel
  have hperm : tipping.Perm (tipping.rotate 1) := (List.rotate_perm tipping 1).symm
  exact absurd ((h byDefault 100000 tipping hone).2 _ hperm) (by decide +kernel)

end ScoringPolicy

end EasyHaProxy.Guardd
