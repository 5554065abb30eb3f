import Mathlib.Tactic.Common

/-! A program reads a state, asks an oracle for what it cannot know (the answers of the outside world),
writes labelled steps and returns or raises. Writes made before an exception stay made. -/
namespace EasyHaProxy

/-- How a program ended, with the writes it made, newest first. -/
structure Outcome (ι σ ω ε α : Type) where
  result : Except ε α
  oracle : ι
  log : List (ω × σ)

/-- The state after the writes of a log made from `s`. -/
def lastState {σ ω : Type} (s : σ) : List (ω × σ) → σ
  | [] => s
  | (_, t) :: _ => t

/-- Every write of a log made from `s` is a step of `G`. -/
def Steps {σ ω : Type} (G : σ → ω → σ → Prop) (s : σ) : List (ω × σ) → Prop
  | [] => True
  | (l, t) :: log => G (lastState s log) l t ∧ Steps G s log

section Logs

variable {σ ω : Type} {G H : σ → ω → σ → Prop} {s : σ} {log newer : List (ω × σ)}

@[simp] theorem lastState_nil : lastState s ([] : List (ω × σ)) = s := rfl

@[simp] theorem lastState_cons (w : ω × σ) : lastState s (w :: log) = w.2 := rfl

theorem lastState_append : lastState s (newer ++ log) = lastState (lastState s log) newer := by
  cases newer <;> rfl

theorem steps_append : Steps G s (newer ++ log) ↔ Steps G (lastState s log) newer ∧ Steps G s log := by
  induction newer with
  | nil => simp [Steps]
  | cons w newer ih => simp [Steps, ih, lastState_append, and_assoc]

theorem Steps.mono (h : Steps G s log) (hGH : ∀ s l t, G s l t → H s l t) : Steps H s log := by
  induction log with
  | nil => trivial
  | cons w log ih => exact ⟨hGH _ _ _ h.1, ih h.2⟩

/-- A predicate every step of `G` keeps holds after the whole log. -/
theorem Steps.keeps {I : σ → Prop} (h : Steps G s log) (hs : I s)
    (hG : ∀ s l t, I s → G s l t → I t) : I (lastState s log) := by
  induction log with
  | nil => exact hs
  | cons w log ih => exact hG _ _ _ (ih h.2) h.1

/-- A kept predicate may be used at every step of the log. -/
theorem Steps.strengthen {I : σ → Prop} (h : Steps G s log) (hs : I s)
    (hG : ∀ s l t, I s → G s l t → I t) : Steps (fun s l t => I s ∧ G s l t) s log := by
  induction log with
  | nil => trivial
  | cons w log ih => exact ⟨⟨h.2.keeps hs hG, h.1⟩, ih h.2⟩

theorem Steps.suffix (h : Steps G s log) (hsuf : newer <:+ log) : Steps G s newer := by
  obtain ⟨rest, rfl⟩ := hsuf
  exact (steps_append.mp h).2

instance Steps.instDecidable [∀ s l t, Decidable (G s l t)] (s : σ) :
    ∀ log : List (ω × σ), Decidable (Steps G s log)
  | [] => inferInstanceAs (Decidable True)
  | (l, t) :: log =>
    have := Steps.instDecidable s log
    inferInstanceAs (Decidable (G (lastState s log) l t ∧ Steps G s log))

theorem Steps.mem {e : ω × σ} (h : Steps G s log) (he : e ∈ log) : ∃ t, G t e.1 e.2 := by
  induction log with
  | nil => exact absurd he List.not_mem_nil
  | cons w log ih =>
    rcases List.mem_cons.mp he with rfl | he
    · exact ⟨_, h.1⟩
    · exact ih h.2 he

/-- Two writes that follow one another. -/
theorem Steps.adjacent {k : Nat} {e e' : ω × σ} (h : Steps G s log) (he : log[k]? = some e)
    (he' : log[k + 1]? = some e') : G e'.2 e.1 e.2 := by
  induction log generalizing k with
  | nil => cases he
  | cons w log ih =>
    cases k with
    | zero =>
      cases he
      cases log with
      | nil => cases he'
      | cons w' log =>
        cases he'
        exact h.1
    | succ k => exact ih h.2 he he'

/-- The same log under other labels. -/
theorem lastState_map {τ : Type} (f : ω → τ) : lastState s (log.map (fun e => (f e.1, e.2))) = lastState s log := by
  cases log <;> rfl

theorem Steps.map {τ : Type} {F : σ → τ → σ → Prop} {f : ω → τ}
    (h : Steps (fun s l t => F s (f l) t) s log) : Steps F s (log.map (fun e => (f e.1, e.2))) := by
  induction log with
  | nil => trivial
  | cons w log ih =>
    refine ⟨?_, ih h.2⟩
    rw [lastState_map]
    exact h.1

end Logs

def Prog (ι σ ω ε α : Type) : Type := ι → σ → Outcome ι σ ω ε α

namespace Prog

variable {ι σ ω ε α β : Type}

def pure (a : α) : Prog ι σ ω ε α := fun i _ => ⟨.ok a, i, []⟩

def bind (m : Prog ι σ ω ε α) (f : α → Prog ι σ ω ε β) : Prog ι σ ω ε β := fun i s =>
  match m i s with
  | ⟨.error e, j, log⟩ => ⟨.error e, j, log⟩
  | ⟨.ok a, j, log⟩ =>
    let rest := f a j (lastState s log)
    ⟨rest.result, rest.oracle, rest.log ++ log⟩

instance : Monad (Prog ι σ ω ε) where
  pure := Prog.pure
  bind := Prog.bind

def get : Prog ι σ ω ε σ := fun i s => ⟨.ok s, i, []⟩

/-- Ask the oracle. -/
def ask (g : ι → α × ι) : Prog ι σ ω ε α := fun i _ => ⟨.ok (g i).1, (g i).2, []⟩

/-- Make one write. -/
def write (l : ω) (f : σ → σ) : Prog ι σ ω ε Unit := fun i s => ⟨.ok (), i, [(l, f s)]⟩

def throw (e : ε) : Prog ι σ ω ε α := fun i _ => ⟨.error e, i, []⟩

def tryCatch (m : Prog ι σ ω ε α) (h : ε → Prog ι σ ω ε α) : Prog ι σ ω ε α := fun i s =>
  match m i s with
  | ⟨.ok a, j, log⟩ => ⟨.ok a, j, log⟩
  | ⟨.error e, j, log⟩ =>
    let rest := h e j (lastState s log)
    ⟨rest.result, rest.oracle, rest.log ++ log⟩

instance : MonadExceptOf ε (Prog ι σ ω ε) where
  throw := Prog.throw
  tryCatch := Prog.tryCatch

/-- Run a program only where a condition holds. -/
def when (c : Prop) [Decidable c] (m : Prog ι σ ω ε Unit) : Prog ι σ ω ε Unit :=
  if c then m else Pure.pure ()

/-- The state a program leaves behind. -/
def final (m : Prog ι σ ω ε α) (i : ι) (s : σ) : σ := lastState s (m i s).log

theorem final_bind {m : Prog ι σ ω ε α} {f : α → Prog ι σ ω ε β} {i : ι} {s : σ} {a : α}
    (h : (m i s).result = .ok a) :
    (m >>= f).final i s = (f a).final (m i s).oracle (m.final i s) := by
  change lastState s (Prog.bind m f i s).log = _
  unfold Prog.bind Prog.final
  rcases hm : m i s with ⟨r, j, log⟩
  rw [hm] at h
  cases h
  exact lastState_append

/-- What the first of two programs wrote stays written. -/
theorem mem_log_bind_left {m : Prog ι σ ω ε α} {f : α → Prog ι σ ω ε β} {i : ι} {s : σ} {e : ω × σ}
    (h : e ∈ (m i s).log) : e ∈ ((m >>= f) i s).log := by
  change e ∈ (Prog.bind m f i s).log
  unfold Prog.bind
  rcases hm : m i s with ⟨r, j, log⟩
  rw [hm] at h
  cases r with
  | error x => exact h
  | ok a => exact List.mem_append_right _ h

theorem mem_log_bind {m : Prog ι σ ω ε α} {f : α → Prog ι σ ω ε β} {i : ι} {s : σ} {e : ω × σ} {a : α}
    (h : (m i s).result = .ok a) (he : e ∈ (f a (m i s).oracle (m.final i s)).log) :
    e ∈ ((m >>= f) i s).log := by
  change e ∈ (Prog.bind m f i s).log
  unfold Prog.bind
  unfold Prog.final at he
  rcases hm : m i s with ⟨r, j, log⟩
  rw [hm] at h he
  cases h
  exact List.mem_append_left _ he

end Prog

def Ends {σ ε α : Type} (Q : α → σ → Prop) (E : ε → σ → Prop) (r : Except ε α) (s : σ) : Prop :=
  match r with
  | .ok a => Q a s
  | .error e => E e s

/-- Started in `s` and answered by an oracle in `I`, `m` makes only `G` writes, ends
where `Q` holds if it returns and `E` if it raises, and leaves an oracle in `I`. -/
def WP {ι σ ω ε α : Type} (I : ι → Prop) (G : σ → ω → σ → Prop) (m : Prog ι σ ω ε α)
    (Q : α → σ → Prop) (E : ε → σ → Prop) (s : σ) : Prop :=
  ∀ i, I i → I (m i s).oracle ∧ Steps G s (m i s).log ∧ Ends Q E (m i s).result (m.final i s)

namespace WP

variable {ι σ ω ε α β : Type} {I : ι → Prop} {G G' : σ → ω → σ → Prop} {Q Q' : α → σ → Prop}
  {R : β → σ → Prop} {E E' : ε → σ → Prop} {m : Prog ι σ ω ε α} {s : σ}

theorem pure {a : α} (h : Q a s) : WP I G (Pure.pure a : Prog ι σ ω ε α) Q E s :=
  fun _ hi => ⟨hi, trivial, h⟩

theorem bind {f : α → Prog ι σ ω ε β} (h : WP I G m (fun a => WP I G (f a) R E) E s) :
    WP I G (m >>= f) R E s := by
  intro i hi
  obtain ⟨ho, hl, he⟩ := h i hi
  change I (Prog.bind m f i s).oracle ∧ Steps G s (Prog.bind m f i s).log ∧
    Ends R E (Prog.bind m f i s).result (lastState s (Prog.bind m f i s).log)
  unfold Prog.bind
  unfold Prog.final at he
  rcases hr : m i s with ⟨r, j, log⟩
  rw [hr] at ho hl he
  cases r with
  | error e => exact ⟨ho, hl, he⟩
  | ok a =>
    obtain ⟨ho', hl', he'⟩ := he j ho
    refine ⟨ho', steps_append.mpr ⟨hl', hl⟩, ?_⟩
    rw [lastState_append]
    exact he'

theorem get {Q : σ → σ → Prop} (h : Q s s) : WP I G (Prog.get : Prog ι σ ω ε σ) Q E s :=
  fun _ hi => ⟨hi, trivial, h⟩

theorem ask {g : ι → α × ι} (hI : ∀ i, I i → I (g i).2) (h : ∀ i, I i → Q (g i).1 s) :
    WP I G (Prog.ask g : Prog ι σ ω ε α) Q E s :=
  fun i hi => ⟨hI i hi, trivial, h i hi⟩

theorem write {l : ω} {f : σ → σ} {Q : Unit → σ → Prop} (hG : G s l (f s)) (h : Q () (f s)) :
    WP I G (Prog.write l f : Prog ι σ ω ε Unit) Q E s :=
  fun _ hi => ⟨hi, ⟨hG, trivial⟩, h⟩

theorem throw {e : ε} (h : E e s) : WP I G (Prog.throw e : Prog ι σ ω ε α) Q E s :=
  fun _ hi => ⟨hi, trivial, h⟩

theorem tryCatch {h : ε → Prog ι σ ω ε α} (hm : WP I G m Q (fun e => WP I G (h e) Q E) s) :
    WP I G (m.tryCatch h) Q E s := by
  intro i hi
  obtain ⟨ho, hl, he⟩ := hm i hi
  change I (Prog.tryCatch m h i s).oracle ∧ Steps G s (Prog.tryCatch m h i s).log ∧
    Ends Q E (Prog.tryCatch m h i s).result (lastState s (Prog.tryCatch m h i s).log)
  unfold Prog.tryCatch
  unfold Prog.final at he
  rcases hr : m i s with ⟨r, j, log⟩
  rw [hr] at ho hl he
  cases r with
  | ok a => exact ⟨ho, hl, he⟩
  | error e =>
    obtain ⟨ho', hl', he'⟩ := he j ho
    refine ⟨ho', steps_append.mpr ⟨hl', hl⟩, ?_⟩
    rw [lastState_append]
    exact he'

theorem ends_mono {r : Except ε α} {s : σ} (h : Ends Q E r s) (hQ : ∀ a s, Q a s → Q' a s)
    (hE : ∀ e s, E e s → E' e s) : Ends Q' E' r s := by
  cases r with
  | ok a => exact hQ a s h
  | error e => exact hE e s h

theorem mono (h : WP I G m Q E s) (hQ : ∀ a t, Q a t → Q' a t) (hE : ∀ e t, E e t → E' e t) :
    WP I G m Q' E' s := by
  intro i hi
  obtain ⟨ho, hl, he⟩ := h i hi
  exact ⟨ho, hl, ends_mono he hQ hE⟩

/-- A fact every write keeps holds at the end, whatever else does. -/
theorem keep {K : σ → Prop} (h : WP I G m Q E s) (hs : K s) (hG : ∀ s l t, K s → G s l t → K t) :
    WP I G m (fun a t => Q a t ∧ K t) (fun e t => E e t ∧ K t) s := by
  intro i hi
  obtain ⟨ho, hl, he⟩ := h i hi
  refine ⟨ho, hl, ?_⟩
  have hk := hl.keeps hs hG
  unfold Ends at he ⊢
  cases hr : (m i s).result with
  | ok a => rw [hr] at he; exact ⟨he, hk⟩
  | error e => rw [hr] at he; exact ⟨he, hk⟩

/-- A fact every write keeps holds after each. -/
theorem keeping {K : σ → Prop} (h : WP I G m Q E s) (hs : K s) (hG : ∀ s l t, K s → G s l t → K t) :
    WP I (fun _ _ t => K t) m (fun a t => Q a t ∧ K t) (fun e t => E e t ∧ K t) s := by
  intro i hi
  obtain ⟨ho, hl, he⟩ := h.keep hs hG i hi
  exact ⟨ho, (hl.strengthen hs hG).mono fun s l t hK => hG s l t hK.1 hK.2, he⟩

theorem guarantee (h : WP I G m Q E s) (hG : ∀ s l t, G s l t → G' s l t) : WP I G' m Q E s :=
  fun i hi => let ⟨ho, hl, he⟩ := h i hi; ⟨ho, hl.mono hG, he⟩

theorem ite {c : Prop} [Decidable c] {m₁ m₂ : Prog ι σ ω ε α} (h₁ : c → WP I G m₁ Q E s)
    (h₂ : ¬ c → WP I G m₂ Q E s) : WP I G (if c then m₁ else m₂) Q E s := by
  split
  · rename_i h; exact h₁ h
  · rename_i h; exact h₂ h

theorem when {c : Prop} [Decidable c] {m : Prog ι σ ω ε Unit} {Q : Unit → σ → Prop}
    (h₁ : c → WP I G m Q E s) (h₂ : ¬ c → Q () s) : WP I G (Prog.when c m) Q E s :=
  ite h₁ (fun h => pure (h₂ h))

/-- A loop over a list: `J rest` holds before each of the remaining rounds. -/
theorem forM {f : β → Prog ι σ ω ε Unit} {J : List β → σ → Prop} {xs : List β}
    (hs : J xs s) (h : ∀ x rest s, (x :: rest) <:+ xs → J (x :: rest) s →
      WP I G (f x) (fun _ => J rest) E s) :
    WP I G (xs.forM f) (fun _ => J []) E s := by
  induction xs generalizing s with
  | nil => exact WP.pure hs
  | cons x xs ih =>
    rw [List.forM_eq_forM, List.forM_cons]
    apply WP.bind
    refine (h x xs s (List.suffix_refl _) hs).mono ?_ (fun _ _ he => he)
    intro _ t ht
    rw [← List.forM_eq_forM]
    exact ih ht (fun y rest t hsuf => h y rest t (hsuf.trans (List.suffix_cons x xs)))

theorem foldlM {f : α → β → Prog ι σ ω ε α} {J : List β → α → σ → Prop} {xs : List β} {a : α}
    (hs : J xs a s) (h : ∀ x rest a s, (x :: rest) <:+ xs → J (x :: rest) a s →
      WP I G (f a x) (J rest) E s) :
    WP I G (xs.foldlM f a) (J []) E s := by
  induction xs generalizing a s with
  | nil => exact WP.pure hs
  | cons x xs ih =>
    rw [List.foldlM_cons]
    apply WP.bind
    refine (h x xs a s (List.suffix_refl _) hs).mono ?_ (fun _ _ he => he)
    intro b t ht
    exact ih ht (fun y rest b t hsuf => h y rest b t (hsuf.trans (List.suffix_cons x xs)))

/-- A loop whose rounds all keep one invariant. -/
theorem forM_inv {f : β → Prog ι σ ω ε Unit} {J : σ → Prop} {xs : List β} (hs : J s)
    (h : ∀ x ∈ xs, ∀ s, J s → WP I G (f x) (fun _ => J) E s) :
    WP I G (xs.forM f) (fun _ => J) E s :=
  WP.forM (J := fun _ => J) hs
    (fun x _ t hsuf ht => h x (hsuf.subset List.mem_cons_self) t ht)

end WP

end EasyHaProxy
