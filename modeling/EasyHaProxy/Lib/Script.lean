import Mathlib.Tactic.Common

/-! A script is a list of writes, each under the name of the step that makes it. A run that stops at a step
has made the writes before it. -/
namespace EasyHaProxy.Script

variable {ι ω σ : Type} {apply : σ → ω → σ} {s : σ} {script newer : List (ι × ω)}

def play (apply : σ → ω → σ) (s : σ) (script : List (ι × ω)) : σ := script.foldl (fun s e => apply s e.2) s

@[simp] theorem play_nil : play apply s ([] : List (ι × ω)) = s := rfl

@[simp] theorem play_cons {e : ι × ω} : play apply s (e :: script) = play apply (apply s e.2) script := rfl

theorem play_append : play apply s (script ++ newer) = play apply (play apply s script) newer :=
  List.foldl_append

/-- What every write of a script preserves, the script preserves. -/
theorem play_keeps {I : σ → Prop} (hs : I s) (hstep : ∀ e ∈ script, ∀ s, I s → I (apply s e.2)) :
    I (play apply s script) := by
  induction script generalizing s with
  | nil => exact hs
  | cons e script ih =>
    refine ih (hstep e List.mem_cons_self s hs) ?_
    intro e' he'
    exact hstep e' (List.mem_cons_of_mem _ he')

variable [DecidableEq ι] {stop : Option ι}

/-- The writes before the step a run stops at. -/
def upTo (stop : Option ι) (script : List (ι × ω)) : List (ι × ω) := script.takeWhile fun e => stop ≠ some e.1

@[simp] theorem upTo_nil : upTo stop ([] : List (ι × ω)) = [] := rfl

theorem upTo_cons_of_ne {e : ι × ω} (h : stop ≠ some e.1) : upTo stop (e :: script) = e :: upTo stop script := by
  simp [upTo, h]

theorem upTo_none : upTo none script = script := by
  induction script with
  | nil => rfl
  | cons e script ih => rw [upTo_cons_of_ne (Option.some_ne_none e.1).symm, ih]

theorem upTo_cons_self {e : ι × ω} (h : stop = some e.1) : upTo stop (e :: script) = [] := by
  simp [upTo, h]

theorem upTo_append (h : ∀ e ∈ script, stop ≠ some e.1) : upTo stop (script ++ newer) = script ++ upTo stop newer := by
  induction script with
  | nil => rfl
  | cons e script ih =>
    rw [List.cons_append, upTo_cons_of_ne (h e List.mem_cons_self),
      ih fun e' he' => h e' (List.mem_cons_of_mem _ he'), List.cons_append]

variable (stop script newer) in
/-- A run of two parts stops in the first, or has made it whole. -/
theorem upTo_append_cases : upTo stop (script ++ newer) = upTo stop script ∨
    upTo stop script = script ∧ upTo stop (script ++ newer) = script ++ upTo stop newer := by
  induction script with
  | nil => exact .inr ⟨rfl, rfl⟩
  | cons e script ih =>
    by_cases he : stop = some e.1
    · left
      rw [List.cons_append, upTo_cons_self he, upTo_cons_self he]
    · rw [List.cons_append, upTo_cons_of_ne he, upTo_cons_of_ne he]
      obtain ih | ⟨hall, ih⟩ := ih
      · left
        rw [ih]
      · right
        rw [hall, ih]
        exact ⟨rfl, rfl⟩

theorem mem_of_mem_upTo {e : ι × ω} (h : e ∈ upTo stop script) : e ∈ script := (List.takeWhile_sublist _).subset h

end EasyHaProxy.Script
