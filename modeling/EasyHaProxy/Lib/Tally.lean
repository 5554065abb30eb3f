import Mathlib.Algebra.BigOperators.Group.List.Basic
import EasyHaProxy.Lib.Table

/-! Rows with a slot and a value are added up over a list of points, one sum a point. Two ways of doing it:
a line for each key first and the lines together then, or a sum for each slot. -/
namespace EasyHaProxy.Tally

variable {ρ κ σ ε : Type} [DecidableEq κ] [DecidableEq σ] {rows more : List ρ} {p q : ρ → Bool}
  {value : ρ → Int} {slot : ρ → σ} {points : List σ} {i : Nat} {x : σ}

/-- What the rows of a kind add up to. -/
def sumOf (rows : List ρ) (p : ρ → Bool) (value : ρ → Int) : Int := ((rows.filter p).map value).sum

@[simp] theorem sumOf_nil : sumOf [] p value = 0 := rfl

theorem sumOf_cons {r : ρ} : sumOf (r :: rows) p value = (if p r then value r else 0) + sumOf rows p value := by
  unfold sumOf
  by_cases h : p r = true
  · simp [h]
  · simp [h]

/-- The order of the rows does not matter. -/
theorem sumOf_perm (h : rows.Perm more) : sumOf rows p value = sumOf more p value :=
  ((h.filter p).map value).sum_eq

theorem sumOf_congr (h : ∀ r ∈ rows, p r = q r) : sumOf rows p value = sumOf rows q value := by
  unfold sumOf
  rw [List.filter_congr h]

theorem sumOf_map {τ : Type} {f : τ → ρ} {l : List τ} :
    sumOf (l.map f) p value = sumOf l (fun t => p (f t)) (fun t => value (f t)) := by
  unfold sumOf
  rw [List.filter_map, List.map_map]
  rfl

theorem sumOf_eq_zero (h : ∀ r ∈ rows, p r = false) : sumOf rows p value = 0 := by
  have hnone : rows.filter p = [] := List.filter_eq_nil_iff.mpr fun r hr => by simp [h r hr]
  unfold sumOf
  rw [hnone]
  rfl

theorem sumOf_groups {s : Option σ} : sumOf (rows.map slot).dedup (fun x => s = some x)
      (fun x => sumOf (rows.filter fun r => slot r = x) p value) =
    sumOf rows (fun r => s = some (slot r) && p r) value := by
  cases s with
  | none =>
    rw [sumOf_eq_zero fun _ _ => by simp, sumOf_eq_zero fun _ _ => by simp]
  | some x =>
    have hgroup : sumOf (rows.filter fun r => slot r = x) p value =
        sumOf rows (fun r => some x = some (slot r) && p r) value := by
      unfold sumOf
      rw [List.filter_filter]
      refine congrArg (fun l => (l.map value).sum) (List.filter_congr fun r _ => ?_)
      rw [Bool.and_comm]
      simp [eq_comm]
    by_cases hx : x ∈ rows.map slot
    · have hone : (rows.map slot).dedup.filter (fun y => some x = some y) = [x] := by
        have hcount := List.count_eq_one_of_mem (List.nodup_dedup _) (List.mem_dedup.mpr hx)
        have hsame : (fun y => decide (some x = some y)) = fun y => decide (y = x) := by
          funext y
          simp [eq_comm]
        rw [hsame, List.filter_eq, hcount]
        rfl
      rw [← hgroup, sumOf, hone]
      simp
    · have hnone : sumOf rows (fun r => some x = some (slot r) && p r) value = 0 := by
        refine sumOf_eq_zero fun r hr => ?_
        have : x ≠ slot r := fun he => hx (he ▸ List.mem_map_of_mem hr)
        simp [this]
      rw [hnone]
      refine sumOf_eq_zero fun y hy => ?_
      have : x ≠ y := fun he => hx (he ▸ List.mem_dedup.mp hy)
      simp [this]

/-! ## Positions -/

/-- `position.get(slot)` of points that are all different. -/
theorem idxOf?_iff (hn : points.Nodup) : points.idxOf? x = some i ↔ points[i]? = some x := by
  rw [List.idxOf?_eq_some_iff]
  constructor
  · rintro ⟨h, he, -⟩
    rw [List.getElem?_eq_getElem h]
    exact congrArg some he
  · intro h
    obtain ⟨hi, he⟩ := List.getElem?_eq_some_iff.mp h
    refine ⟨hi, he, fun j hj hx => ?_⟩
    have := (List.Nodup.getElem_inj_iff hn).mp (hx.trans he.symm)
    omega

/-! ## Lines that are added -/

/-- `total[index] += value` over the values of a line. -/
def addLine (total line : List Int) : List Int := List.zipWith (· + ·) total line

omit [DecidableEq κ] in
theorem foldl_addLine {n : Nat} (line : ε → List Int) {kind : κ → Bool} {lines : List (κ × ε)}
    {total : List Int} (ht : total.length = n) (hl : ∀ e ∈ lines, (line e.2).length = n) :
    lines.foldl (fun total e => if kind e.1 then addLine total (line e.2) else total) total =
      (List.range n).map fun i =>
        total.getD i 0 + (lines.map fun e => if kind e.1 then (line e.2).getD i 0 else 0).sum := by
  induction lines generalizing total with
  | nil =>
    apply List.ext_getElem
    · simp [ht]
    · intro i h₁ h₂
      simp [List.getD_eq_getElem?_getD, List.getElem?_eq_getElem (show i < total.length from h₁)]
  | cons e lines ih =>
    have he := hl e List.mem_cons_self
    have hrest := fun e he => hl e (List.mem_cons_of_mem _ he)
    rw [List.foldl_cons]
    by_cases hk : kind e.1 = true
    · rw [if_pos hk, ih (by simp [addLine, ht, he]) hrest]
      refine List.map_congr_left fun i hi => ?_
      have hi : i < n := List.mem_range.mp hi
      have hcell : (addLine total (line e.2)).getD i 0 = total.getD i 0 + (line e.2).getD i 0 := by
        simp [addLine, List.getD_eq_getElem?_getD, List.getElem?_zipWith,
          List.getElem?_eq_getElem (show i < total.length by omega),
          List.getElem?_eq_getElem (show i < (line e.2).length by omega)]
      rw [hcell, List.map_cons, List.sum_cons, if_pos hk, add_assoc]
    · rw [if_neg hk, ih ht hrest]
      refine List.map_congr_left fun i _ => ?_
      rw [List.map_cons, List.sum_cons, if_neg hk, zero_add]

/-! ## Cells that are set -/

/-- `total[position[slot]] = value`, where the slot has a position. -/
def setCell (points : List σ) (total : List Int) (x : σ) (v : Int) : List Int :=
  match points.idxOf? x with
  | none => total
  | some i => total.set i v

@[simp] theorem length_setCell {total : List Int} {v : Int} : (setCell points total x v).length = total.length := by
  unfold setCell
  split <;> simp

theorem getD_setCell (hn : points.Nodup) {total : List Int} (ht : total.length = points.length)
    (hi : i < points.length) {v : Int} : (setCell points total x v).getD i 0 =
      if points[i] = x then v else total.getD i 0 := by
  unfold setCell
  have hpos : points.idxOf? x = some i ↔ points[i] = x := by
    rw [idxOf?_iff hn, List.getElem?_eq_getElem hi]
    exact Option.some_inj
  cases hx : points.idxOf? x with
  | none =>
    rw [hx] at hpos
    rw [if_neg fun h => by cases hpos.mpr h]
  | some j =>
    rw [hx, Option.some_inj] at hpos
    by_cases hj : j = i
    · subst hj
      rw [if_pos (hpos.mp rfl)]
      simp [List.getD_eq_getElem?_getD, ht, hi]
    · rw [if_neg fun h => hj (hpos.mpr h)]
      simp [List.getD_eq_getElem?_getD, List.getElem?_set_ne hj]

theorem foldl_setCell (hn : points.Nodup) (hs : (rows.map slot).Nodup) {total : List Int}
    (ht : total.length = points.length)
    (hzero : ∀ i (hi : i < points.length), points[i] ∈ rows.map slot → total.getD i 0 = 0) :
    rows.foldl (fun total r => setCell points total (slot r) (value r)) total =
      (List.range points.length).map fun i =>
        total.getD i 0 + sumOf rows (fun r => points[i]? = some (slot r)) value := by
  induction rows generalizing total with
  | nil =>
    apply List.ext_getElem
    · simp [ht]
    · intro i h₁ h₂
      simp [List.getD_eq_getElem?_getD, List.getElem?_eq_getElem (show i < total.length from h₁)]
  | cons r rows ih =>
    obtain ⟨hr, hs⟩ := List.nodup_cons.mp hs
    rw [List.foldl_cons, ih hs (by rw [length_setCell, ht])]
    · refine List.map_congr_left fun i hi => ?_
      have hi : i < points.length := List.mem_range.mp hi
      rw [getD_setCell hn ht hi, sumOf_cons, List.getElem?_eq_getElem hi]
      by_cases hx : points[i] = slot r
      · have := hzero i hi (hx ▸ List.mem_cons_self)
        simp only [hx, if_true, decide_true]
        omega
      · simp [hx]
    · intro i hi hmem
      rw [getD_setCell hn ht hi]
      by_cases hx : points[i] = slot r
      · exact absurd (hx ▸ hmem) hr
      · rw [if_neg hx]
        exact hzero i hi (List.mem_cons_of_mem _ hmem)

end EasyHaProxy.Tally
