import Mathlib.Data.List.Perm.Subperm
import EasyHaProxy.Lib.Validate

/-! Numbers sorted into slots of a fixed step, as `GROUP BY t / step` does, and how many different slots the
multiples of a unit in a window can fall into. -/
namespace EasyHaProxy.Slots

variable {step unit k n a t since till : Nat} {times : List Nat}

def slot (step t : Nat) : Nat := t / step * step

/-- The slots of some numbers, each once and in order. -/
def slots (step : Nat) (times : List Nat) : List Nat := Validate.sortedSet (times.map (slot step))

/-- The first multiple of a unit that is not below a number, in units. -/
def ceilDiv (t unit : Nat) : Nat := (t + (unit - 1)) / unit

theorem mem_slots : a ∈ slots step times ↔ ∃ t ∈ times, slot step t = a := by
  rw [slots, Validate.mem_sortedSet, List.mem_map]

theorem nodup_slots : (slots step times).Nodup :=
  (List.perm_insertionSort (· ≤ ·) _).nodup_iff.mpr (List.nodup_dedup _)

/-- Numbers within `n` steps fall into `n` slots at most. -/
theorem length_slots_le (h : ∀ t ∈ times, a ≤ t / step ∧ t / step < a + n) :
    (slots step times).length ≤ n := by
  have hsub : slots step times ⊆ (List.range' a n).map (· * step) := by
    intro s hs
    obtain ⟨t, ht, rfl⟩ := mem_slots.mp hs
    exact List.mem_map.mpr ⟨t / step, List.mem_range'_1.mpr (h t ht), rfl⟩
  have hlength := (List.subperm_of_subset nodup_slots hsub).length_le
  simpa using hlength

/-- With a number in each of `n` steps there are `n` slots at least. -/
theorem le_length_slots (hstep : 0 < step) (h : ∀ i < n, ∃ t ∈ times, t / step = a + i) :
    n ≤ (slots step times).length := by
  have hnodup : ((List.range' a n).map (· * step)).Nodup :=
    (List.nodup_range').map fun x y hxy => Nat.eq_of_mul_eq_mul_right hstep hxy
  have hsub : (List.range' a n).map (· * step) ⊆ slots step times := by
    intro s hs
    obtain ⟨j, hj, rfl⟩ := List.mem_map.mp hs
    obtain ⟨hlow, hhigh⟩ := List.mem_range'_1.mp hj
    obtain ⟨t, ht, he⟩ := h (j - a) (by omega)
    refine mem_slots.mpr ⟨t, ht, ?_⟩
    rw [slot, he, Nat.add_sub_cancel' hlow]
  have hlength := (List.subperm_of_subset hnodup hsub).length_le
  simpa using hlength

theorem ceilDiv_le (hunit : 0 < unit) {m : Nat} : ceilDiv t unit ≤ m ↔ t ≤ unit * m := by
  unfold ceilDiv
  rw [Nat.div_le_iff_le_mul_add_pred hunit]
  omega

theorem lt_ceilDiv (hunit : 0 < unit) {m : Nat} : m < ceilDiv t unit ↔ unit * m < t := by
  rw [← Nat.not_le, ceilDiv_le hunit, Nat.not_le]

/-- The multiples of a unit from the first in the window on, with those that come before it in
its step, are to fit into the steps. -/
theorem aligned_slots_iff (since till : Nat) (hunit : 0 < unit) (hk : 0 < k) (hn : 0 < n) :
    (∀ times : List Nat, (∀ t ∈ times, unit ∣ t ∧ since ≤ t ∧ t < till) →
        (slots (unit * k) times).length ≤ n) ↔
      ceilDiv since unit % k + (ceilDiv till unit - ceilDiv since unit) ≤ n * k := by
  have hdiv (m : Nat) : unit * m / (unit * k) = m / k := Nat.mul_div_mul_left m k hunit
  have hsplit := Nat.div_add_mod (ceilDiv since unit) k
  have hmod := Nat.mod_lt (ceilDiv since unit) hk
  have hroom : k ≤ n * k := Nat.le_mul_of_pos_left k hn
  constructor
  · intro h
    by_contra hmany
    -- a multiple in each of the steps from that of the first one on
    have hlength := h ((List.range' (ceilDiv since unit) (ceilDiv till unit - ceilDiv since unit)).map (unit * ·))
      (by
        intro t ht
        obtain ⟨m, hm, rfl⟩ := List.mem_map.mp ht
        obtain ⟨hlow, hhigh⟩ := List.mem_range'_1.mp hm
        exact ⟨Nat.dvd_mul_right _ _, (ceilDiv_le hunit).mp hlow, (lt_ceilDiv hunit).mp (by omega)⟩)
    have hmore : n + 1 ≤ (slots (unit * k) ((List.range' (ceilDiv since unit)
        (ceilDiv till unit - ceilDiv since unit)).map (unit * ·))).length := by
      refine le_length_slots (Nat.mul_pos hunit hk) (a := ceilDiv since unit / k) fun i hi => ?_
      have hspan : k * i ≤ n * k := by
        rw [Nat.mul_comm]
        exact Nat.mul_le_mul_right k (Nat.le_of_lt_succ hi)
      have hpast : k * (ceilDiv since unit / k + i) = k * (ceilDiv since unit / k) + k * i := Nat.mul_add ..
      refine ⟨unit * max (ceilDiv since unit) (k * (ceilDiv since unit / k + i)),
        List.mem_map_of_mem (List.mem_range'_1.mpr ⟨le_max_left _ _, by omega⟩), ?_⟩
      rw [hdiv]
      obtain hfirst | hlater : i = 0 ∨ 1 ≤ i := by omega
      · subst hfirst
        rw [Nat.add_zero, max_eq_left (by omega)]
      · have hstep : k ≤ k * i := Nat.le_mul_of_pos_right k hlater
        rw [max_eq_right (by omega), Nat.mul_div_cancel_left _ hk]
    omega
  · intro hfit times htimes
    refine length_slots_le (a := ceilDiv since unit / k) fun t ht => ?_
    obtain ⟨⟨m, rfl⟩, hlow, hhigh⟩ := htimes t ht
    rw [hdiv]
    have hfirst : ceilDiv since unit ≤ m := (ceilDiv_le hunit).mpr hlow
    have hlast : m < ceilDiv till unit := (lt_ceilDiv hunit).mpr hhigh
    refine ⟨Nat.div_le_div_right hfirst, Nat.div_lt_of_lt_mul ?_⟩
    rw [Nat.mul_add, Nat.mul_comm k n]
    omega

end EasyHaProxy.Slots
