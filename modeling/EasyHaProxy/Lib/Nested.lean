import Mathlib.Data.List.Basic

/-! Lists and dictionaries in each other. Two values are the same up to secrets when they differ only in
what is stored under a secret key, and there is something there in both. -/
namespace EasyHaProxy

variable {κ α : Type}

inductive Nested (κ α : Type)
  | leaf (a : α)
  | list (items : List (Nested κ α))
  | tuple (items : List (Nested κ α))
  | dict (fields : List (κ × Nested κ α))

namespace Nested

/-- The fields of a dictionary, in their order. -/
abbrev Fields (κ α : Type) := List (κ × Nested κ α)

mutual

inductive Same (secret : κ → Bool) (filled : Nested κ α → Bool) : Nested κ α → Nested κ α → Prop
  | leaf (a) : Same secret filled (.leaf a) (.leaf a)
  | list {xs ys} : SameItems secret filled xs ys → Same secret filled (.list xs) (.list ys)
  | tuple {xs ys} : SameItems secret filled xs ys → Same secret filled (.tuple xs) (.tuple ys)
  | dict {xs ys} : SameFields secret filled xs ys → Same secret filled (.dict xs) (.dict ys)

inductive SameItems (secret : κ → Bool) (filled : Nested κ α → Bool) :
    List (Nested κ α) → List (Nested κ α) → Prop
  | nil : SameItems secret filled [] []
  | cons {x y xs ys} : Same secret filled x y → SameItems secret filled xs ys →
      SameItems secret filled (x :: xs) (y :: ys)

inductive SameFields (secret : κ → Bool) (filled : Nested κ α → Bool) : Fields κ α → Fields κ α → Prop
  | nil : SameFields secret filled [] []
  | same {key x y xs ys} : Same secret filled x y → SameFields secret filled xs ys →
      SameFields secret filled ((key, x) :: xs) ((key, y) :: ys)
  | secret {key x y xs ys} : secret key = true → filled x = true → filled y = true →
      SameFields secret filled xs ys → SameFields secret filled ((key, x) :: xs) ((key, y) :: ys)

end

variable {secret : κ → Bool} {filled : Nested κ α → Bool} {xs ys : Fields κ α}

theorem SameFields.keys_eq (h : SameFields secret filled xs ys) : xs.map Prod.fst = ys.map Prod.fst := by
  induction xs generalizing ys with
  | nil =>
    cases h
    rfl
  | cons field xs ih =>
    cases h with
    | same _ hrest => rw [List.map_cons, List.map_cons, ih hrest]
    | secret _ _ _ hrest => rw [List.map_cons, List.map_cons, ih hrest]

end Nested

end EasyHaProxy
