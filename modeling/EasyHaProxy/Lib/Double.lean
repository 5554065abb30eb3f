import Mathlib.Tactic.GCongr
import Mathlib.Tactic.Positivity
import Mathlib.Tactic.Ring

/-! A nonnegative double as a natural number over a power of two. A product is rounded to 53 significant
bits, to the nearest and half to even; overflow and subnormals are out of the range of sizes in bytes. -/
namespace EasyHaProxy

/-- To 53 significant bits, half to even. -/
def round53 (n : Nat) : Nat :=
  let unit := 2 ^ (n.log2 + 1 - 53)
  let q := n / unit
  let r := n % unit
  if unit < 2 * r ∨ unit = 2 * r ∧ q % 2 = 1 then (q + 1) * unit else q * unit

/-- The value `num / 2 ^ scale`. -/
structure Double where
  num : Nat
  scale : Nat

namespace Double

variable {d : Double} {n : Nat}

/-- An integer times a double: the integer becomes a double first. -/
def scaled (n : Nat) (d : Double) : Double := ⟨round53 (round53 n * d.num), d.scale⟩

/-- `int(x)`. -/
def toInt (d : Double) : Nat := d.num / 2 ^ d.scale

/-- `x <= n`, exact as Python compares a float with an integer. -/
def leNat (d : Double) (n : Nat) : Bool := d.num ≤ n * 2 ^ d.scale

/-- `n < x`. -/
def gtNat (d : Double) (n : Nat) : Bool := n * 2 ^ d.scale < d.num

theorem unit_mul_le (hn : n ≠ 0) (hs : 53 ≤ n.log2) : 2 ^ (n.log2 + 1 - 53) * 2 ^ 52 ≤ n := by
  rw [← Nat.pow_add, show n.log2 + 1 - 53 + 52 = n.log2 by omega]
  exact Nat.log2_self_le hn

/-- Rounding moves a number by at most half a unit in its last place. -/
theorem round53_le (n : Nat) : 2 ^ 53 * round53 n ≤ (2 ^ 53 + 1) * n := by
  by_cases hs : 53 ≤ n.log2
  · have hn : n ≠ 0 := by
      rintro rfl
      simp at hs
    have hunit := unit_mul_le hn hs
    simp only [round53]
    generalize 2 ^ (n.log2 + 1 - 53) = unit at hunit ⊢
    have hdiv := Nat.div_add_mod n unit
    rw [Nat.mul_comm] at hdiv
    split
    · have hup : (n / unit + 1) * unit = n / unit * unit + unit := by ring
      omega
    · omega
  · simp only [round53, show n.log2 + 1 - 53 = 0 by omega, pow_zero, Nat.div_one, Nat.mod_one,
      Nat.mul_one]
    split <;> omega

theorem round53_pos (h : 0 < n) : 0 < round53 n := by
  have hunit : 2 ^ (n.log2 + 1 - 53) ≤ n :=
    (Nat.pow_le_pow_right (by decide) (by omega)).trans (Nat.log2_self_le (Nat.ne_of_gt h))
  simp only [round53]
  have hpos : 0 < 2 ^ (n.log2 + 1 - 53) := by positivity
  have hq : 0 < n / 2 ^ (n.log2 + 1 - 53) := Nat.div_pos hunit hpos
  split <;> positivity

theorem gtNat_zero_scaled (hn : 0 < n) (hd : 0 < d.num) : (scaled n d).gtNat 0 = true := by
  have := round53_pos (Nat.mul_pos (round53_pos hn) hd)
  simpa [gtNat, scaled] using this

/-- A part of `n` that is less than `1/k` by the error of two roundings comes to at most
`n/k`. -/
theorem toInt_scaled_le {k : Nat} (hk : k * d.num * (2 ^ 53 + 1) ^ 2 ≤ 2 ^ 106 * 2 ^ d.scale) :
    k * (scaled n d).toInt ≤ n := by
  have hinner := round53_le n
  have houter := round53_le (round53 n * d.num)
  have hfloor : (scaled n d).toInt * 2 ^ d.scale ≤ round53 (round53 n * d.num) := Nat.div_mul_le_self _ _
  have hpos : 0 < 2 ^ 106 * 2 ^ d.scale := by positivity
  refine Nat.le_of_mul_le_mul_right ?_ hpos
  calc k * (scaled n d).toInt * (2 ^ 106 * 2 ^ d.scale)
      = k * 2 ^ 53 * (2 ^ 53 * ((scaled n d).toInt * 2 ^ d.scale)) := by ring
    _ ≤ k * 2 ^ 53 * (2 ^ 53 * round53 (round53 n * d.num)) := by gcongr
    _ ≤ k * 2 ^ 53 * ((2 ^ 53 + 1) * (round53 n * d.num)) := by gcongr
    _ = k * d.num * (2 ^ 53 + 1) * (2 ^ 53 * round53 n) := by ring
    _ ≤ k * d.num * (2 ^ 53 + 1) * ((2 ^ 53 + 1) * n) := by gcongr
    _ = k * d.num * (2 ^ 53 + 1) ^ 2 * n := by ring
    _ ≤ 2 ^ 106 * 2 ^ d.scale * n := by gcongr
    _ = n * (2 ^ 106 * 2 ^ d.scale) := by ring

end Double

end EasyHaProxy
