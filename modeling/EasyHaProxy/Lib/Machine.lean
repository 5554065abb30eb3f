import Mathlib.Tactic.Common

/-! A machine takes one operation after another. A run meets a condition when each operation does, in the
state it is taken in. -/
namespace EasyHaProxy.Machine

variable {σ ι : Type} {step : σ → ι → σ} {C D : σ → ι → Prop} {I : σ → Prop} {s : σ}
  {op : ι} {ops newer : List ι}

def run (step : σ → ι → σ) (s : σ) (ops : List ι) : σ := ops.foldl step s

/-- Every operation meets `C` in the state it is taken in. -/
def Along (step : σ → ι → σ) (C : σ → ι → Prop) : σ → List ι → Prop
  | _, [] => True
  | s, op :: ops => C s op ∧ Along step C (step s op) ops

instance Along.instDecidable [∀ s op, Decidable (C s op)] (s : σ) (ops : List ι) :
    Decidable (Along step C s ops) :=
  match ops with
  | [] => inferInstanceAs (Decidable True)
  | op :: ops =>
    have := instDecidable (step s op) ops
    inferInstanceAs (Decidable (C s op ∧ Along step C (step s op) ops))

@[simp] theorem run_nil : run step s [] = s := rfl

@[simp] theorem run_cons : run step s (op :: ops) = run step (step s op) ops := rfl

theorem run_append : run step s (ops ++ newer) = run step (run step s ops) newer :=
  List.foldl_append

theorem along_append :
    Along step C s (ops ++ newer) ↔ Along step C s ops ∧ Along step C (run step s ops) newer := by
  induction ops generalizing s with
  | nil => simp [Along]
  | cons op ops ih => simp [Along, ih, and_assoc]

/-- What every operation that meets the condition preserves, the run preserves. -/
theorem Along.keeps (h : Along step C s ops) (hs : I s)
    (hstep : ∀ s op, I s → C s op → I (step s op)) : I (run step s ops) := by
  induction ops generalizing s with
  | nil => exact hs
  | cons op ops ih => exact ih h.2 (hstep s op hs h.1)

/-- Where an invariant is kept, each operation meets what follows from it. -/
theorem Along.of_invariant (hs : I s) (hstep : ∀ s op, I s → I (step s op))
    (hD : ∀ s op, I s → D s op) : Along step D s ops := by
  induction ops generalizing s with
  | nil => trivial
  | cons op ops ih => exact ⟨hD s op hs, ih (hstep s op hs)⟩

/-- Where the condition keeps an invariant, each operation meets what follows from both. -/
theorem Along.imp_of_invariant (h : Along step C s ops) (hs : I s)
    (hstep : ∀ s op, I s → C s op → I (step s op)) (hD : ∀ s op, I s → C s op → D s op) :
    Along step D s ops := by
  induction ops generalizing s with
  | nil => trivial
  | cons op ops ih => exact ⟨hD s op hs h.1, ih h.2 (hstep s op hs h.1)⟩

/-- A property that follows from an invariant holds along a run just where every step meets what the
invariant needs and the property shows. -/
theorem forall_prefix_iff_along_of_invariant {P : σ → Prop} (hs : I s) (hP : ∀ s, I s → P s)
    (hkeep : ∀ s op, I s → C s op → I (step s op)) (hshow : ∀ s op, I s → P (step s op) → C s op) :
    (∀ pre, pre <+: ops → P (run step s pre)) ↔ Along step C s ops := by
  induction ops generalizing s with
  | nil => exact iff_of_true (fun pre hpre => by rw [List.prefix_nil.mp hpre]; exact hP s hs) trivial
  | cons op ops ih =>
    constructor
    · intro h
      have hC : C s op := hshow s op hs (h [op] (by simp))
      refine ⟨hC, (ih (hkeep s op hs hC)).mp fun pre hpre => ?_⟩
      exact h (op :: pre) (by rwa [List.cons_prefix_cons, eq_self_iff_true, true_and])
    · rintro ⟨hC, hrest⟩ pre hpre
      cases pre with
      | nil => exact hP s hs
      | cons op' pre =>
        obtain ⟨rfl, htail⟩ := List.cons_prefix_cons.mp hpre
        exact (ih (hkeep s op' hs hC)).mpr hrest pre htail

/-- An invariant that a step of some kind keeps just where the condition is met holds along a run of such steps
just where every step meets the condition. -/
theorem forall_prefix_iff_along_of_mem {J : σ → Prop} {Q : ι → Prop} (hQ : ∀ op ∈ ops, Q op) (hs : I s) (hJ : J s)
    (hkeep : ∀ s op, Q op → J s → J (step s op))
    (hstep : ∀ s op, Q op → J s → I s → (I (step s op) ↔ C s op)) :
    (∀ pre, pre <+: ops → I (run step s pre)) ↔ Along step C s ops := by
  induction ops generalizing s with
  | nil => exact iff_of_true (fun pre hpre => by rw [List.prefix_nil.mp hpre]; exact hs) trivial
  | cons op ops ih =>
    rw [List.forall_mem_cons] at hQ
    have hnext := hstep s op hQ.1 hJ hs
    constructor
    · intro h
      have hkept : I (step s op) := h [op] (by simp)
      refine ⟨hnext.mp hkept, (ih hQ.2 hkept (hkeep s op hQ.1 hJ)).mp fun pre hpre => ?_⟩
      exact h (op :: pre) (by rwa [List.cons_prefix_cons, eq_self_iff_true, true_and])
    · rintro ⟨hC, hrest⟩ pre hpre
      cases pre with
      | nil => exact hs
      | cons op' pre =>
        obtain ⟨rfl, htail⟩ := List.cons_prefix_cons.mp hpre
        exact (ih hQ.2 (hnext.mpr hC) (hkeep s op' hQ.1 hJ)).mpr hrest pre htail

/-- An invariant that a step keeps just where the condition is met holds along a run just where every
step meets the condition. -/
theorem forall_prefix_iff_along {J : σ → Prop} (hs : I s) (hJ : J s) (hkeep : ∀ s op, J s → J (step s op))
    (hstep : ∀ s op, J s → I s → (I (step s op) ↔ C s op)) :
    (∀ pre, pre <+: ops → I (run step s pre)) ↔ Along step C s ops :=
  forall_prefix_iff_along_of_mem (Q := fun _ => True) (fun _ _ => trivial) hs hJ (fun s op _ => hkeep s op)
    fun s op _ => hstep s op

end EasyHaProxy.Machine
