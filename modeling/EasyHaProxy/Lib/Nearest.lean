import Mathlib.Algebra.Order.Field.Power
import Mathlib.Algebra.Order.Ring.Rat
import Mathlib.Data.Rat.Floor
import Mathlib.Tactic.FieldSimp
import Mathlib.Tactic.GCongr
import Mathlib.Tactic.Linarith
import Mathlib.Tactic.NormNum
import Mathlib.Tactic.Positivity
import Mathlib.Tactic.Ring

/-! # Rounding to the nearest double -/
namespace EasyHaProxy

/-- To the nearest integer, halves to the even one. -/
def roundHalfEven (q : ℚ) : Int :=
  let low := q.floor
  let rest := q - low
  if rest < 1 / 2 then low
  else if 1 / 2 < rest then low + 1
  else if low % 2 = 0 then low
  else low + 1

theorem floor_le_roundHalfEven (q : ℚ) : q.floor ≤ roundHalfEven q := by
  unfold roundHalfEven
  dsimp only
  split <;> [skip; split <;> [skip; split]] <;> omega

theorem roundHalfEven_le_floor_succ (q : ℚ) : roundHalfEven q ≤ q.floor + 1 := by
  unfold roundHalfEven
  dsimp only
  split <;> [skip; split <;> [skip; split]] <;> omega

theorem roundHalfEven_mono {q r : ℚ} (h : q ≤ r) : roundHalfEven q ≤ roundHalfEven r := by
  have hfloor : q.floor ≤ r.floor := Int.floor_le_floor h
  obtain hlt | heq := lt_or_eq_of_le hfloor
  · have hq := roundHalfEven_le_floor_succ q
    have hr := floor_le_roundHalfEven r
    omega
  · -- With one floor between them it is the rest that decides.
    have hrest : q - (r.floor : ℚ) ≤ r - (r.floor : ℚ) := by linarith
    unfold roundHalfEven
    dsimp only
    rw [heq]
    split
    · exact floor_le_roundHalfEven r
    · rename_i hq
      have hr : ¬ r - (r.floor : ℚ) < 1 / 2 := fun hr => hq (hrest.trans_lt hr)
      rw [if_neg hr]
      split
      · rename_i hq'
        rw [if_pos (hq'.trans_le hrest)]
      · split <;> split <;> omega

theorem roundHalfEven_intCast (n : Int) : roundHalfEven n = n := by
  have hfloor : (n : ℚ).floor = n := Rat.floor_intCast n
  unfold roundHalfEven
  dsimp only
  rw [hfloor, sub_self, if_pos (by norm_num)]

theorem roundHalfEven_nonneg {q : ℚ} (h : 0 ≤ q) : 0 ≤ roundHalfEven q :=
  (Int.floor_nonneg.mpr h).trans (floor_le_roundHalfEven q)

theorem abs_roundHalfEven_sub (q : ℚ) : |roundHalfEven q - q| ≤ 1 / 2 := by
  have hlow : (q.floor : ℚ) ≤ q := Int.floor_le q
  have hhigh : q < q.floor + 1 := Int.lt_floor_add_one q
  rw [abs_le]
  unfold roundHalfEven
  dsimp only
  split
  · constructor <;> linarith
  · rename_i hrest
    split
    · push_cast
      constructor <;> linarith
    · split
      · constructor <;> linarith
      · push_cast
        constructor <;> linarith

theorem half_between {q r : ℚ} (h : roundHalfEven q < roundHalfEven r) : ∃ k : Int, q ≤ k + 1 / 2 ∧ k + 1 / 2 ≤ r := by
  have hq := abs_le.mp (abs_roundHalfEven_sub q)
  have hr := abs_le.mp (abs_roundHalfEven_sub r)
  have hlt : (roundHalfEven q : ℚ) + 1 ≤ roundHalfEven r := by exact_mod_cast h
  refine ⟨roundHalfEven r - 1, ?_, ?_⟩ <;> push_cast <;> linarith

/-- The exponent of the first bit of a number other than 0. -/
def exponent (q : ℚ) : Int :=
  let e : Int := q.num.natAbs.log2 - q.den.log2
  if (2 : ℚ) ^ e ≤ |q| then e else e - 1

/-- To 53 significant bits, half to even: what an operation on doubles makes of its exact result, as
far as that is in the range of normal doubles. -/
def nearest (q : ℚ) : ℚ :=
  let unit : ℚ := 2 ^ (exponent q - 52)
  roundHalfEven (q / unit) * unit

variable {q r : ℚ}

theorem exponent_spec (h : q ≠ 0) : (2 : ℚ) ^ exponent q ≤ |q| ∧ |q| < 2 ^ (exponent q + 1) := by
  have habs : |q| = (q.num.natAbs : ℚ) / (q.den : ℚ) := by
    conv_lhs => rw [← Rat.num_div_den q]
    rw [abs_div, Nat.abs_cast, Nat.cast_natAbs, Int.cast_abs]
  have hnum : q.num.natAbs ≠ 0 := by simpa using h
  have hden : q.den ≠ 0 := q.den_ne_zero
  have hdenpos : (0 : ℚ) < q.den := by exact_mod_cast q.den_pos
  have hn : ((2 : ℚ) ^ q.num.natAbs.log2 ≤ q.num.natAbs) ∧ (q.num.natAbs : ℚ) < 2 ^ (q.num.natAbs.log2 + 1) := by
    exact_mod_cast (⟨Nat.log2_self_le hnum, Nat.lt_log2_self⟩ : _ ∧ _)
  have hd : ((2 : ℚ) ^ q.den.log2 ≤ q.den) ∧ (q.den : ℚ) < 2 ^ (q.den.log2 + 1) := by
    exact_mod_cast (⟨Nat.log2_self_le hden, Nat.lt_log2_self⟩ : _ ∧ _)
  have hsplit : (2 : ℚ) ^ ((q.num.natAbs.log2 : Int) - q.den.log2) * 2 ^ q.den.log2 = 2 ^ q.num.natAbs.log2 := by
    rw [← zpow_natCast, ← zpow_natCast, ← zpow_add₀ (by norm_num)]
    congr 1
    omega
  have hupper : |q| < 2 ^ ((q.num.natAbs.log2 : Int) - q.den.log2 + 1) := by
    rw [habs, div_lt_iff₀ hdenpos, zpow_add_one₀ (by norm_num)]
    calc (q.num.natAbs : ℚ) < 2 ^ (q.num.natAbs.log2 + 1) := hn.2
      _ = 2 ^ ((q.num.natAbs.log2 : Int) - q.den.log2) * 2 * 2 ^ q.den.log2 := by rw [pow_succ, ← hsplit]; ring
      _ ≤ 2 ^ ((q.num.natAbs.log2 : Int) - q.den.log2) * 2 * q.den := by gcongr; exact hd.1
  have hlower : (2 : ℚ) ^ ((q.num.natAbs.log2 : Int) - q.den.log2 - 1) ≤ |q| := by
    rw [habs, le_div_iff₀ hdenpos, zpow_sub_one₀ (by norm_num)]
    calc (2 : ℚ) ^ ((q.num.natAbs.log2 : Int) - q.den.log2) * 2⁻¹ * q.den
        ≤ 2 ^ ((q.num.natAbs.log2 : Int) - q.den.log2) * 2⁻¹ * 2 ^ (q.den.log2 + 1) := by gcongr; exact hd.2.le
      _ = 2 ^ q.num.natAbs.log2 := by rw [pow_succ, ← hsplit]; ring
      _ ≤ q.num.natAbs := hn.1
  unfold exponent
  dsimp only
  split
  · exact ⟨‹_›, hupper⟩
  · refine ⟨hlower, ?_⟩
    rw [sub_add_cancel]
    exact not_le.mp ‹_›

/-- A number has 53 bits before the point when its unit is 1. -/
theorem scaled_bounds (h : q ≠ 0) :
    ((2 ^ 52 : Int) : ℚ) ≤ |q / 2 ^ (exponent q - 52)| ∧ |q / 2 ^ (exponent q - 52)| ≤ ((2 ^ 53 : Int) : ℚ) := by
  have hunit : (0 : ℚ) < 2 ^ (exponent q - 52) := by positivity
  have hpow : (2 : ℚ) ^ exponent q = ((2 ^ 52 : Int) : ℚ) * 2 ^ (exponent q - 52) := by
    rw [zpow_sub₀ (by norm_num)]
    norm_num
    ring
  obtain ⟨hlow, hhigh⟩ := exponent_spec h
  rw [zpow_add_one₀ (by norm_num)] at hhigh
  rw [abs_div, abs_of_pos hunit, le_div_iff₀ hunit, div_le_iff₀ hunit, ← hpow]
  refine ⟨hlow, hhigh.le.trans_eq ?_⟩
  rw [hpow]
  push_cast
  ring

theorem nearest_eq (q : ℚ) :
    nearest q = roundHalfEven (q / 2 ^ (exponent q - 52)) * 2 ^ (exponent q - 52) := rfl

@[simp] theorem nearest_zero : nearest 0 = 0 := by
  rw [nearest_eq, zero_div]
  have hzero : roundHalfEven 0 = 0 := by simpa using roundHalfEven_intCast 0
  rw [hzero, Int.cast_zero, zero_mul]

/-- Rounding moves a number by at most half a unit in its last place. -/
theorem abs_nearest_sub (q : ℚ) : |nearest q - q| ≤ |q| / 2 ^ 53 := by
  by_cases h : q = 0
  · simp [h]
  have hunit : (0 : ℚ) < 2 ^ (exponent q - 52) := by positivity
  have hround := abs_roundHalfEven_sub (q / 2 ^ (exponent q - 52))
  have hsplit : nearest q - q =
      (roundHalfEven (q / 2 ^ (exponent q - 52)) - q / 2 ^ (exponent q - 52)) * 2 ^ (exponent q - 52) := by
    rw [nearest_eq]
    field_simp
  have hexp : (2 : ℚ) ^ (exponent q - 52) = 2 ^ exponent q * (2 / 2 ^ 53) := by
    rw [zpow_sub₀ (by norm_num)]
    norm_num
    ring
  rw [hsplit, abs_mul, abs_of_pos hunit]
  calc _ ≤ 1 / 2 * (2 : ℚ) ^ (exponent q - 52) := by gcongr
    _ = 2 ^ exponent q / 2 ^ 53 := by rw [hexp]; ring
    _ ≤ |q| / 2 ^ 53 := by gcongr; exact (exponent_spec h).1

/-- What 53 bits hold is not rounded. -/
theorem nearest_of_bits {m k : Int} (hm : |m| ≤ 2 ^ 53) : nearest (m * 2 ^ k) = m * 2 ^ k := by
  by_cases h : (m : ℚ) * 2 ^ k = 0
  · rw [h, nearest_zero]
  have hspec := (exponent_spec h).1
  set e := exponent ((m : ℚ) * 2 ^ k) with he
  -- The number is a whole number of its units.
  obtain ⟨n, hn⟩ : ∃ n : Int, (m : ℚ) * 2 ^ k / 2 ^ (e - 52) = n := by
    by_cases hk : e - 52 ≤ k
    · refine ⟨m * 2 ^ (k - (e - 52)).toNat, ?_⟩
      push_cast
      rw [mul_div_assoc, ← zpow_sub₀ (by norm_num), ← zpow_natCast, Int.toNat_of_nonneg (by omega)]
    · have hmq : (|m| : ℚ) ≤ 2 ^ 53 := by exact_mod_cast hm
      have hkpos : (0 : ℚ) < 2 ^ k := by positivity
      have hsmall : (2 : ℚ) ^ (k + 53) ≤ 2 ^ e := zpow_le_zpow_right₀ (by norm_num) (by omega)
      have hpow : (2 : ℚ) ^ (k + 53) = 2 ^ k * 2 ^ 53 := by
        rw [zpow_add₀ (by norm_num)]
        norm_cast
      rw [abs_mul, abs_of_pos hkpos] at hspec
      have hfull : (|m| : ℚ) = 2 ^ 53 := by
        refine le_antisymm hmq ?_
        refine le_of_mul_le_mul_right ?_ hkpos
        calc (2 : ℚ) ^ 53 * 2 ^ k = 2 ^ (k + 53) := by rw [hpow]; ring
          _ ≤ |(m : ℚ)| * 2 ^ k := hsmall.trans hspec
      have heq : (2 : ℚ) ^ e = 2 ^ (k + 53) := by
        refine le_antisymm ?_ hsmall
        rw [hpow, mul_comm, ← hfull]
        exact hspec
      have hexp : e = k + 53 := zpow_right_injective₀ (by norm_num) (by norm_num) heq
      have hm' : |m| = 2 ^ 53 := by exact_mod_cast hfull
      have hquot : (2 : ℚ) ^ k / 2 ^ (e - 52) = 2⁻¹ := by
        rw [hexp, ← zpow_sub₀ (by norm_num), show k - (k + 53 - 52) = -1 by ring, zpow_neg_one]
      rcases abs_choice m with hs | hs
      · refine ⟨2 ^ 52, ?_⟩
        rw [mul_div_assoc, hquot, ← hs, hm']
        norm_num
      · refine ⟨-2 ^ 52, ?_⟩
        have hneg : m = -2 ^ 53 := by rw [← hm', hs, neg_neg]
        rw [mul_div_assoc, hquot, hneg]
        norm_num
  have hunit : (2 : ℚ) ^ (e - 52) ≠ 0 := by positivity
  rw [nearest_eq, ← he, hn, roundHalfEven_intCast, ← hn, div_mul_cancel₀ _ hunit]

/-- A rounded number is held by 53 bits. -/
theorem exists_bits (q : ℚ) : ∃ m k : Int, |m| ≤ 2 ^ 53 ∧ nearest q = m * 2 ^ k := by
  by_cases h : q = 0
  · exact ⟨0, 0, by norm_num, by simp [h]⟩
  refine ⟨_, _, ?_, nearest_eq q⟩
  have hsize := (scaled_bounds h).2
  have hsize' := abs_le.mp hsize
  have hup := roundHalfEven_mono hsize'.2
  have hdown := roundHalfEven_mono hsize'.1
  rw [← Int.cast_neg, roundHalfEven_intCast] at hdown
  rw [roundHalfEven_intCast] at hup
  exact abs_le.mpr ⟨hdown, hup⟩

theorem nearest_nearest (q : ℚ) : nearest (nearest q) = nearest q := by
  obtain ⟨m, k, hm, heq⟩ := exists_bits q
  rw [heq, nearest_of_bits hm]

theorem nearest_nonneg (h : 0 ≤ q) : 0 ≤ nearest q := by
  rw [nearest_eq]
  have hunit : (0 : ℚ) < 2 ^ (exponent q - 52) := by positivity
  exact mul_nonneg (by exact_mod_cast roundHalfEven_nonneg (by positivity)) hunit.le

theorem nearest_nonpos (h : q ≤ 0) : nearest q ≤ 0 := by
  have hunit : (0 : ℚ) < 2 ^ (exponent q - 52) := by positivity
  have hle : q / 2 ^ (exponent q - 52) ≤ ((0 : Int) : ℚ) := by
    rw [Int.cast_zero]
    exact div_nonpos_of_nonpos_of_nonneg h hunit.le
  have hround := roundHalfEven_mono hle
  rw [roundHalfEven_intCast] at hround
  rw [nearest_eq]
  exact mul_nonpos_of_nonpos_of_nonneg (by exact_mod_cast hround) hunit.le

theorem exponent_mono (hq : 0 < q) (h : q ≤ r) : exponent q ≤ exponent r := by
  have hlow := (exponent_spec hq.ne').1
  have hhigh := (exponent_spec (hq.trans_le h).ne').2
  rw [abs_of_pos hq] at hlow
  rw [abs_of_pos (hq.trans_le h)] at hhigh
  have hlt := (zpow_lt_zpow_iff_right₀ (by norm_num : (1 : ℚ) < 2)).mp ((hlow.trans h).trans_lt hhigh)
  omega

/-- A power of two lies on the grid of every number of its size or below. -/
theorem nearest_mono_of_pos (hq : 0 < q) (h : q ≤ r) : nearest q ≤ nearest r := by
  rw [nearest_eq, nearest_eq]
  have hr : 0 < r := hq.trans_le h
  have hqunit : (0 : ℚ) < 2 ^ (exponent q - 52) := by positivity
  have hrunit : (0 : ℚ) < 2 ^ (exponent r - 52) := by positivity
  rcases (exponent_mono hq h).lt_or_eq with hlt | heq
  · -- Between the two lies the power of two at which the longer one's binade starts.
    have hbelow : q / 2 ^ (exponent q - 52) ≤ ((2 ^ 53 : Int) : ℚ) := (abs_le.mp (scaled_bounds hq.ne').2).2
    have habove : ((2 ^ 52 : Int) : ℚ) ≤ r / 2 ^ (exponent r - 52) := by
      have hlow := (scaled_bounds hr.ne').1
      rwa [abs_of_pos (by positivity)] at hlow
    have hq53 : (roundHalfEven (q / 2 ^ (exponent q - 52)) : ℚ) ≤ 2 ^ 53 := by
      have hround := roundHalfEven_mono hbelow
      rw [roundHalfEven_intCast] at hround
      exact_mod_cast hround
    have hr52 : (2 ^ 52 : ℚ) ≤ roundHalfEven (r / 2 ^ (exponent r - 52)) := by
      have hround := roundHalfEven_mono habove
      rw [roundHalfEven_intCast] at hround
      exact_mod_cast hround
    calc _ ≤ 2 ^ 53 * (2 : ℚ) ^ (exponent q - 52) := by gcongr
      _ = 2 ^ 52 * 2 ^ (exponent q + 1 - 52) := by
          rw [show exponent q + 1 - 52 = exponent q - 52 + 1 by ring, zpow_add_one₀ (by norm_num)]
          ring
      _ ≤ 2 ^ 52 * 2 ^ (exponent r - 52) := by
          have hpow := zpow_le_zpow_right₀ (by norm_num : (1 : ℚ) ≤ 2) (show exponent q + 1 - 52 ≤ exponent r - 52 by omega)
          gcongr
      _ ≤ _ := by gcongr
  · rw [heq]
    have hround := roundHalfEven_mono (q := q / 2 ^ (exponent r - 52)) (r := r / 2 ^ (exponent r - 52)) (by gcongr)
    gcongr

theorem nearest_mono (hq : 0 ≤ q) (h : q ≤ r) : nearest q ≤ nearest r := by
  rcases hq.lt_or_eq with hpos | rfl
  · exact nearest_mono_of_pos hpos h
  · rw [nearest_zero]
    exact nearest_nonneg h

theorem nearest_intCast {n : Int} (h : |n| ≤ 2 ^ 53) : nearest n = n := by
  simpa using nearest_of_bits (k := 0) h

/-- What is used of rounding to 53 bits. -/
structure Rounding (fl : ℚ → ℚ) : Prop where
  mono : ∀ {x y}, 0 ≤ x → x ≤ y → fl x ≤ fl y
  nonpos : ∀ {x}, x ≤ 0 → fl x ≤ 0
  near : ∀ x, |fl x - x| ≤ |x| / 2 ^ 53
  again : ∀ x, fl (fl x) = fl x
  small : ∀ n : Nat, n ≤ 256 → fl n = n

theorem rounding_id : Rounding id where
  mono _ h := h
  nonpos h := h
  near x := by simp; positivity
  again _ := rfl
  small _ _ := rfl

theorem rounding_nearest : Rounding nearest where
  mono := nearest_mono
  nonpos := nearest_nonpos
  near := abs_nearest_sub
  again := nearest_nearest
  small n hn := by
    have h : |(n : Int)| ≤ 2 ^ 53 := by
      rw [abs_of_nonneg (Int.natCast_nonneg n)]
      omega
    simpa using nearest_intCast h

variable {fl : ℚ → ℚ}

namespace Rounding

variable (h : Rounding fl)
include h

theorem zero : fl 0 = 0 := by simpa using h.small 0 (by norm_num)

theorem nonneg {x : ℚ} (hx : 0 ≤ x) : 0 ≤ fl x := h.zero ▸ h.mono (le_refl 0) hx

theorem le_of_nat_le {x : ℚ} {n : Nat} (hn : n ≤ 256) (hx : (n : ℚ) ≤ x) : (n : ℚ) ≤ fl x :=
  h.small n hn ▸ h.mono (Nat.cast_nonneg n) hx

theorem le_nat_of_le {x : ℚ} {n : Nat} (hn : n ≤ 256) (hx : 0 ≤ x) (hle : x ≤ n) : fl x ≤ n :=
  h.small n hn ▸ h.mono hx hle

theorem le_int_of_le {x : ℚ} {n : Int} (hn : n ≤ 256) (hx : 0 ≤ x) (hle : x ≤ n) : fl x ≤ n := by
  obtain ⟨k, rfl⟩ := Int.eq_ofNat_of_zero_le (by exact_mod_cast hx.trans hle : 0 ≤ n)
  exact_mod_cast h.le_nat_of_le (n := k) (by omega) hx (by exact_mod_cast hle)

theorem error {x bound : ℚ} (hx : |x| ≤ bound) : |fl x - x| ≤ bound / 2 ^ 53 :=
  (h.near x).trans (by gcongr)

end Rounding

end EasyHaProxy
