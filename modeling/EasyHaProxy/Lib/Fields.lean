import Mathlib.Data.List.Basic

/-! A record that is edited in place: a key keeps its place when it is set again. -/
namespace EasyHaProxy.Fields

variable {κ ν : Type} [DecidableEq κ] {key : κ} {p : κ → Bool}

/-- `fields[key] = value` -/
def put (key : κ) (value : ν) : List (κ × ν) → List (κ × ν)
  | [] => [(key, value)]
  | field :: rest => if field.1 = key then (key, value) :: rest else field :: put key value rest

/-- `fields.pop(key, None)` -/
def without (key : κ) (fields : List (κ × ν)) : List (κ × ν) := fields.filter (·.1 ≠ key)

/-- Setting a key leaves a selection without it. -/
theorem filter_put (h : p key = false) (value : ν) (fields : List (κ × ν)) :
    (put key value fields).filter (fun e => p e.1) = fields.filter (fun e => p e.1) := by
  induction fields with
  | nil => simp [put, h]
  | cons field fields ih =>
    rw [put]
    split
    next heq => simp [h, heq]
    next => rw [List.filter_cons, List.filter_cons, ih]

theorem filter_without (h : p key = false) (fields : List (κ × ν)) :
    (without key fields).filter (fun e => p e.1) = fields.filter (fun e => p e.1) := by
  rw [without, List.filter_filter]
  refine List.filter_congr fun e _ => ?_
  by_cases he : e.1 = key
  · simp [he, h]
  · simp [he]

end EasyHaProxy.Fields
