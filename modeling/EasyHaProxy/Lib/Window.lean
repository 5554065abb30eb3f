import Mathlib.Data.List.Induction
import Mathlib.Data.List.Infix
import Mathlib.Data.List.Pairwise
import Mathlib.Tactic.Common
import Mathlib.Tactic.Linarith

/-! Items stand on consecutive integers from `base` on. They come in at both ends and go at the front; none
of that moves an item that stays. Read newest first, a window is a list of positions that go down. -/
namespace EasyHaProxy

structure Window (α : Type) where
  base : Int
  items : List α

namespace Window

variable {α : Type} {w : Window α} {x y : Int} {a b : α} {n : Nat}

/-- The position after the last item. -/
def top (w : Window α) : Int := w.base + w.items.length

/-- The item at a position. -/
def at? (w : Window α) (x : Int) : Option α :=
  if w.base ≤ x then w.items[(x - w.base).toNat]? else none

def append (newer : List α) (w : Window α) : Window α := { w with items := w.items ++ newer }

def prepend (older : List α) (w : Window α) : Window α where
  base := w.base - older.length
  items := older ++ w.items

def dropFront (n : Nat) (w : Window α) : Window α where
  base := w.base + n
  items := w.items.drop n

theorem at?_eq_some : w.at? x = some a ↔ ∃ i : Nat, w.items[i]? = some a ∧ x = w.base + i := by
  unfold at?
  split
  · rename_i hle
    constructor
    · intro h
      exact ⟨_, h, by omega⟩
    · rintro ⟨i, hi, rfl⟩
      rwa [show (w.base + i - w.base).toNat = i by omega]
  · rename_i hlt
    constructor
    · intro h
      cases h
    · rintro ⟨i, -, rfl⟩
      omega

theorem at?_bounds (h : w.at? x = some a) : w.base ≤ x ∧ x < w.top := by
  obtain ⟨i, hi, rfl⟩ := at?_eq_some.mp h
  obtain ⟨hlt, -⟩ := List.getElem?_eq_some_iff.mp hi
  unfold top
  omega

theorem mem_items_iff : a ∈ w.items ↔ ∃ x, w.at? x = some a := by
  rw [List.mem_iff_getElem?]
  constructor
  · rintro ⟨i, hi⟩
    exact ⟨w.base + i, at?_eq_some.mpr ⟨i, hi, rfl⟩⟩
  · rintro ⟨x, hx⟩
    obtain ⟨i, hi, -⟩ := at?_eq_some.mp hx
    exact ⟨i, hi⟩

/-! ## Changes at the ends -/

variable {newer older : List α}

theorem at?_append (h : (w.append newer).at? x = some a) :
    w.at? x = some a ∨ ∃ i : Nat, newer[i]? = some a ∧ x = w.top + i := by
  obtain ⟨i, hi, rfl⟩ := at?_eq_some.mp h
  rcases Nat.lt_or_ge i w.items.length with hlt | hge
  · left
    exact at?_eq_some.mpr ⟨i, by rwa [append, List.getElem?_append_left hlt] at hi, rfl⟩
  · right
    rw [append, List.getElem?_append_right hge] at hi
    refine ⟨i - w.items.length, hi, ?_⟩
    simp only [append, top]
    omega

theorem at?_prepend (h : (w.prepend older).at? x = some a) :
    w.at? x = some a ∨ ∃ i : Nat, older[i]? = some a ∧ x = w.base - older.length + i := by
  obtain ⟨i, hi, hx⟩ := at?_eq_some.mp h
  simp only [prepend] at hi hx
  rcases Nat.lt_or_ge i older.length with hlt | hge
  · right
    rw [List.getElem?_append_left hlt] at hi
    exact ⟨i, hi, hx⟩
  · left
    rw [List.getElem?_append_right hge] at hi
    exact at?_eq_some.mpr ⟨i - older.length, hi, by omega⟩

theorem at?_dropFront (h : (w.dropFront n).at? x = some a) : w.at? x = some a := by
  obtain ⟨i, hi, hx⟩ := at?_eq_some.mp h
  simp only [dropFront, List.getElem?_drop] at hi hx
  exact at?_eq_some.mpr ⟨n + i, hi, by push_cast; omega⟩

theorem append_nil : w.append [] = w := by simp [append]

theorem prepend_nil : w.prepend [] = w := by simp [prepend]

theorem dropFront_zero : w.dropFront 0 = w := by simp [dropFront]

@[simp] theorem top_append : (w.append newer).top = w.top + newer.length := by
  simp only [append, top, List.length_append]
  omega

@[simp] theorem top_prepend : (w.prepend older).top = w.top := by
  simp only [prepend, top, List.length_append]
  omega

theorem top_dropFront (h : n ≤ w.items.length) : (w.dropFront n).top = w.top := by
  simp only [dropFront, top, List.length_drop]
  omega

theorem dropFront_dropFront {k : Nat} : (w.dropFront n).dropFront k = w.dropFront (n + k) := by
  simp only [dropFront, List.drop_drop, Window.mk.injEq, and_true]
  push_cast
  omega

/-! ## Newest first -/

/-- The items with their positions, the last one first. -/
def entries (w : Window α) : List (Int × α) := (w.items.mapIdx fun i a => (w.base + i, a)).reverse

theorem mem_entries {e : Int × α} : e ∈ w.entries ↔ w.at? e.1 = some e.2 := by
  simp only [entries, List.mem_reverse, List.mem_mapIdx, at?_eq_some]
  constructor
  · rintro ⟨i, hi, rfl⟩
    exact ⟨i, List.getElem?_eq_getElem hi, rfl⟩
  · rintro ⟨i, hi, hx⟩
    obtain ⟨hlt, hget⟩ := List.getElem?_eq_some_iff.mp hi
    exact ⟨i, hlt, Prod.ext hx.symm hget⟩

theorem entries_concat (base : Int) (items : List α) (a : α) :
    entries ⟨base, items ++ [a]⟩ = (base + items.length, a) :: entries ⟨base, items⟩ := by
  simp [entries, List.mapIdx_concat]

theorem entries_decreasing : w.entries.Pairwise (fun e e' => e'.1 < e.1) := by
  obtain ⟨base, items⟩ := w
  induction items using List.reverseRecOn with
  | nil => simp [entries]
  | append_singleton items a ih =>
    rw [entries_concat, List.pairwise_cons]
    refine ⟨?_, ih⟩
    intro e he
    exact (at?_bounds (mem_entries.mp he)).2

@[simp] theorem length_entries : w.entries.length = w.items.length := by simp [entries]

/-- Leaving out the newest leaves what is below them. -/
theorem entries_drop (n : Nat) :
    w.entries.drop n = w.entries.filter fun e => decide (e.1 < w.top - n) := by
  obtain ⟨base, items⟩ := w
  induction items using List.reverseRecOn generalizing n with
  | nil => simp [entries]
  | append_singleton items a ih =>
    have htop : top ⟨base, items ++ [a]⟩ = top ⟨base, items⟩ + 1 := by
      simp only [top, List.length_append, List.length_singleton]
      omega
    rw [entries_concat, htop]
    cases n with
    | zero =>
      rw [List.drop_zero, List.filter_eq_self.mpr]
      intro e he
      have hle : e.1 ≤ base + items.length := by
        rcases List.mem_cons.mp he with rfl | he
        · exact le_refl _
        · exact le_of_lt (at?_bounds (mem_entries.mp he)).2
      apply decide_eq_true
      simp only [top]
      omega
    | succ n =>
      rw [List.drop_succ_cons, ih, List.filter_cons_of_neg]
      · apply List.filter_congr
        intro e _
        apply decide_eq_decide.mpr
        push_cast
        omega
      · rw [decide_eq_true_eq]
        simp only [top]
        push_cast
        omega

end Window

end EasyHaProxy
