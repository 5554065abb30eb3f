import Mathlib.Tactic.Common

/-! A history is a list, newest first. `Always P` says `P` of each entry and of what came before it. -/
namespace EasyHaProxy.History

variable {α : Type} {P : α → List α → Prop} {new old : List α}

def Always (P : α → List α → Prop) : List α → Prop
  | [] => True
  | e :: older => P e older ∧ Always P older

instance Always.instDecidable [∀ e older, Decidable (P e older)] (l : List α) : Decidable (Always P l) :=
  match l with
  | [] => inferInstanceAs (Decidable True)
  | e :: older =>
    have := instDecidable older
    inferInstanceAs (Decidable (P e older ∧ Always P older))

theorem Always.append (h : Always P old) (hnew : ∀ e ∈ new, ∀ older, P e older) : Always P (new ++ old) := by
  induction new with
  | nil => exact h
  | cons e new ih =>
    exact ⟨hnew e List.mem_cons_self _, ih (fun e he => hnew e (List.mem_cons_of_mem _ he))⟩

end EasyHaProxy.History
