import Mathlib.Tactic.Common

/-! A loop that makes an attempt for every item of a list. What an attempt leaves behind stays, however it
ends; an exception that it lets out ends the loop. -/
namespace EasyHaProxy

/-- What an attempt leaves behind, and how it ends. -/
structure Attempt (γ ε β : Type) where
  left : List γ
  ended : Except ε β

namespace Attempt

variable {α β γ ε : Type} {attempt : α → Attempt γ ε β} {x : α} {xs : List α}

def Returns (a : Attempt γ ε β) : Prop := ∃ b, a.ended = .ok b

/-- Changing the result does not change how a call ends. -/
theorem exists_map_ok {f : α → β} {x : Except ε α} : (∃ b, x.map f = .ok b) ↔ ∃ a, x = .ok a := by
  cases x with
  | error e => simp [Except.map]
  | ok a => simp [Except.map]

/-- The loop. -/
def each (attempt : α → Attempt γ ε β) : List α → Attempt γ ε (List β)
  | [] => ⟨[], .ok []⟩
  | x :: xs =>
    match (attempt x).ended with
    | .error e => ⟨(attempt x).left, .error e⟩
    | .ok b => ⟨(attempt x).left ++ (each attempt xs).left, (each attempt xs).ended.map (b :: ·)⟩

/-- The loop comes to its end exactly when every attempt does. -/
theorem each_returns_iff : (each attempt xs).Returns ↔ ∀ x ∈ xs, (attempt x).Returns := by
  induction xs with
  | nil => exact iff_of_true ⟨[], rfl⟩ (by simp)
  | cons x xs ih =>
    rw [List.forall_mem_cons, ← ih, each]
    unfold Returns
    cases (attempt x).ended with
    | error e => simp
    | ok b => cases (each attempt xs).ended <;> simp [Except.map]

/-- It then has one result for every item, and what each of them left. -/
theorem each_of_returns (h : ∀ x ∈ xs, (attempt x).Returns) :
    ∃ results, (each attempt xs).ended = .ok results ∧
      List.Forall₂ (fun x b => (attempt x).ended = .ok b) xs results ∧
      (each attempt xs).left = xs.flatMap fun x => (attempt x).left := by
  induction xs with
  | nil => exact ⟨[], rfl, .nil, rfl⟩
  | cons x xs ih =>
    obtain ⟨⟨b, hb⟩, hxs⟩ := List.forall_mem_cons.mp h
    obtain ⟨results, hended, hresults, hleft⟩ := ih hxs
    rw [each, hb]
    refine ⟨b :: results, ?_, .cons hb hresults, ?_⟩
    · dsimp only
      rw [hended]
      rfl
    · dsimp only
      rw [hleft, List.flatMap_cons]

end Attempt

end EasyHaProxy
