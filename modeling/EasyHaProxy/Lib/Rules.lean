import Mathlib.Data.List.Basic
import Mathlib.Tactic.Common

/-! A section of a proxy's configuration is a list of lines: named tests, rules that act when a condition
holds, and destinations taken when one does. Rules run in order until one refuses. -/
namespace EasyHaProxy.Rules

/-- One term of a condition: a test by its name or written in place, as it is or negated. -/
inductive Operand (N T : Type) where
  | acl (name : N)
  | notAcl (name : N)
  | test (test : T)
  | notTest (test : T)

inductive Line (N T A B : Type) where
  | acl (name : N) (test : T)
  | rule (act : A) (cond : List (Operand N T))
  | use (dest : B) (cond : List (Operand N T))

/-- How the lines are read: the text of a name, what a test says of a state, and what an
action does to one (an action that refuses ends the run). -/
structure Reading (N T A S V : Type) where
  text : N → String
  test : S → T → Bool
  perform : A → S → Except V S

section Lines

variable {N T A B : Type}

def acls (lines : List (Line N T A B)) : List (N × T) :=
  lines.filterMap fun | .acl n t => some (n, t) | _ => none

def rules (lines : List (Line N T A B)) : List (A × List (Operand N T)) :=
  lines.filterMap fun | .rule a c => some (a, c) | _ => none

def uses (lines : List (Line N T A B)) : List (B × List (Operand N T)) :=
  lines.filterMap fun | .use b c => some (b, c) | _ => none

variable {l m : List (Line N T A B)}

@[simp] theorem acls_append : acls (l ++ m) = acls l ++ acls m := List.filterMap_append

@[simp] theorem rules_append : rules (l ++ m) = rules l ++ rules m := List.filterMap_append

@[simp] theorem uses_append : uses (l ++ m) = uses l ++ uses m := List.filterMap_append

@[simp] theorem rules_nil : rules ([] : List (Line N T A B)) = [] := rfl

@[simp] theorem rules_rule {a : A} {c : List (Operand N T)} : rules (.rule a c :: l) = (a, c) :: rules l := rfl

@[simp] theorem mem_acls {n : N} {t : T} : (n, t) ∈ acls l ↔ .acl n t ∈ l := by
  simp only [acls, List.mem_filterMap]
  constructor
  · rintro ⟨line, hline, h⟩
    cases line <;> simp_all
  · exact fun h => ⟨_, h, rfl⟩

@[simp] theorem mem_rules {a : A} {c : List (Operand N T)} : (a, c) ∈ rules l ↔ .rule a c ∈ l := by
  simp only [rules, List.mem_filterMap]
  constructor
  · rintro ⟨line, hline, h⟩
    cases line <;> simp_all
  · exact fun h => ⟨_, h, rfl⟩

@[simp] theorem mem_uses {b : B} {c : List (Operand N T)} : (b, c) ∈ uses l ↔ .use b c ∈ l := by
  simp only [uses, List.mem_filterMap]
  constructor
  · rintro ⟨line, hline, h⟩
    cases line <;> simp_all
  · exact fun h => ⟨_, h, rfl⟩

end Lines

namespace Reading

variable {N T A B S V : Type} (R : Reading N T A S V) (tests : List (N × T))

/-- What a name says of a state: some line of that text holds. -/
def named (s : S) (n : N) : Bool := tests.any fun a => R.text a.1 = R.text n && R.test s a.2

def operand (s : S) : Operand N T → Bool
  | .acl n => R.named tests s n
  | .notAcl n => !R.named tests s n
  | .test t => R.test s t
  | .notTest t => !R.test s t

def holds (s : S) (cond : List (Operand N T)) : Bool := cond.all (R.operand tests s)

def run : List (A × List (Operand N T)) → S → Except V S
  | [], s => .ok s
  | (act, cond) :: rest, s =>
    if R.holds tests s cond then
      match R.perform act s with
      | .ok t => run rest t
      | .error v => .error v
    else run rest s

/-- The place of the rule that refuses a run. -/
def refusedAt : List (A × List (Operand N T)) → S → Option Nat
  | [], _ => none
  | (act, cond) :: rest, s =>
    if R.holds tests s cond then
      match R.perform act s with
      | .ok t => (refusedAt rest t).map (· + 1)
      | .error _ => some 0
    else (refusedAt rest s).map (· + 1)

/-- The first destination whose condition holds. -/
def route (dests : List (B × List (Operand N T))) (s : S) : Option B :=
  (dests.find? fun d => R.holds tests s d.2).map (·.1)

variable {R tests} {s t : S} {v : V} {rs rs' : List (A × List (Operand N T))}

theorem named_iff {n : N} :
    R.named tests s n = true ↔ ∃ m q, (m, q) ∈ tests ∧ R.text m = R.text n ∧ R.test s q = true := by
  simp [named, List.any_eq_true]

/-- A name no other line shares says what its own lines say. -/
theorem named_iff_of_own {n : N} (h : ∀ m q, (m, q) ∈ tests → R.text m = R.text n → m = n) :
    R.named tests s n = true ↔ ∃ q, (n, q) ∈ tests ∧ R.test s q = true := by
  rw [named_iff]
  constructor
  · rintro ⟨m, q, hmem, htext, hq⟩
    obtain rfl := h m q hmem htext
    exact ⟨q, hmem, hq⟩
  · rintro ⟨q, hmem, hq⟩
    exact ⟨n, q, hmem, rfl, hq⟩

@[simp] theorem holds_nil : R.holds tests s [] = true := rfl

@[simp] theorem holds_cons {o : Operand N T} {c : List (Operand N T)} :
    R.holds tests s (o :: c) = (R.operand tests s o && R.holds tests s c) := rfl

@[simp] theorem holds_append {c d : List (Operand N T)} :
    R.holds tests s (c ++ d) = (R.holds tests s c && R.holds tests s d) := List.all_append

@[simp] theorem operand_acl {n : N} : R.operand tests s (.acl n) = R.named tests s n := rfl

@[simp] theorem operand_notAcl {n : N} : R.operand tests s (.notAcl n) = !R.named tests s n := rfl

@[simp] theorem operand_test {q : T} : R.operand tests s (.test q) = R.test s q := rfl

@[simp] theorem operand_notTest {q : T} : R.operand tests s (.notTest q) = !R.test s q := rfl

/-- A condition asks nothing of the state but its tests. -/
theorem holds_congr {c : List (Operand N T)} (h : ∀ q, R.test s q = R.test t q) :
    R.holds tests s c = R.holds tests t c := by
  have hnamed (n : N) : R.named tests s n = R.named tests t n := by
    simp only [named, h]
  have hoperand : R.operand tests s = R.operand tests t := by
    funext o
    cases o <;> simp only [operand, hnamed, h]
  rw [holds, holds, hoperand]

/-! ## Runs -/

@[simp] theorem run_nil : R.run tests [] s = .ok s := rfl

theorem run_skip {r : A × List (Operand N T)} (h : R.holds tests s r.2 = false) :
    R.run tests (r :: rs) s = R.run tests rs s := by
  rw [run, if_neg (by simp [h])]

theorem run_step {r : A × List (Operand N T)} (h : R.holds tests s r.2 = true)
    (hp : R.perform r.1 s = .ok t) : R.run tests (r :: rs) s = R.run tests rs t := by
  rw [run, if_pos h, hp]

theorem run_refuse {r : A × List (Operand N T)} (h : R.holds tests s r.2 = true)
    (hp : R.perform r.1 s = .error v) : R.run tests (r :: rs) s = .error v := by
  rw [run, if_pos h, hp]

theorem refusedAt_skip {r : A × List (Operand N T)} (h : R.holds tests s r.2 = false) :
    R.refusedAt tests (r :: rs) s = (R.refusedAt tests rs s).map (· + 1) := by
  rw [refusedAt, if_neg (by simp [h])]

theorem refusedAt_step {r : A × List (Operand N T)} (h : R.holds tests s r.2 = true)
    (hp : R.perform r.1 s = .ok t) :
    R.refusedAt tests (r :: rs) s = (R.refusedAt tests rs t).map (· + 1) := by
  rw [refusedAt, if_pos h, hp]

theorem refusedAt_refuse {r : A × List (Operand N T)} (h : R.holds tests s r.2 = true)
    (hp : R.perform r.1 s = .error v) : R.refusedAt tests (r :: rs) s = some 0 := by
  rw [refusedAt, if_pos h, hp]

theorem refusedAt_eq_none : R.refusedAt tests rs s = none ↔ ∃ t, R.run tests rs s = .ok t := by
  induction rs generalizing s with
  | nil => exact iff_of_true rfl ⟨s, rfl⟩
  | cons r rs ih =>
    cases hc : R.holds tests s r.2 with
    | false => rw [refusedAt_skip hc, run_skip hc, Option.map_eq_none_iff, ih]
    | true =>
      cases hp : R.perform r.1 s with
      | error v =>
        rw [refusedAt_refuse hc hp, run_refuse hc hp]
        simp
      | ok t => rw [refusedAt_step hc hp, run_step hc hp, Option.map_eq_none_iff, ih]

theorem run_append_of_ok (h : R.run tests rs s = .ok t) :
    R.run tests (rs ++ rs') s = R.run tests rs' t := by
  induction rs generalizing s with
  | nil =>
    cases h
    rfl
  | cons r rs ih =>
    rw [List.cons_append]
    cases hc : R.holds tests s r.2 with
    | false =>
      rw [run_skip hc] at h ⊢
      exact ih h
    | true =>
      cases hp : R.perform r.1 s with
      | error v =>
        rw [run_refuse hc hp] at h
        cases h
      | ok u =>
        rw [run_step hc hp] at h ⊢
        exact ih h

theorem run_append_of_error (h : R.run tests rs s = .error v) :
    R.run tests (rs ++ rs') s = .error v := by
  induction rs generalizing s with
  | nil => cases h
  | cons r rs ih =>
    rw [List.cons_append]
    cases hc : R.holds tests s r.2 with
    | false =>
      rw [run_skip hc] at h ⊢
      exact ih h
    | true =>
      cases hp : R.perform r.1 s with
      | error w =>
        rw [run_refuse hc hp] at h ⊢
        exact h
      | ok u =>
        rw [run_step hc hp] at h ⊢
        exact ih h

theorem run_append_ok (h : R.run tests (rs ++ rs') s = .ok t) :
    ∃ u, R.run tests rs s = .ok u ∧ R.run tests rs' u = .ok t := by
  cases hu : R.run tests rs s with
  | error v =>
    rw [run_append_of_error hu] at h
    cases h
  | ok u =>
    rw [run_append_of_ok hu] at h
    exact ⟨u, rfl, h⟩

theorem run_keeps {I : S → Prop} (hs : I s) (h : R.run tests rs s = .ok t)
    (hstep : ∀ r ∈ rs, ∀ s t, I s → R.holds tests s r.2 = true → R.perform r.1 s = .ok t → I t) :
    I t := by
  induction rs generalizing s with
  | nil =>
    cases h
    exact hs
  | cons r rs ih =>
    have hrest := fun r hr => hstep r (List.mem_cons_of_mem _ hr)
    cases hc : R.holds tests s r.2 with
    | false =>
      rw [run_skip hc] at h
      exact ih hs h hrest
    | true =>
      cases hp : R.perform r.1 s with
      | error v =>
        rw [run_refuse hc hp] at h
        cases h
      | ok u =>
        rw [run_step hc hp] at h
        exact ih (hstep r List.mem_cons_self s u hs hc hp) h hrest

/-- A part of the state no action of the rules writes is the same after a run. -/
theorem run_frame {X : Type} {f : S → X} (h : R.run tests rs s = .ok t)
    (hstep : ∀ r ∈ rs, ∀ s t, R.perform r.1 s = .ok t → f t = f s) : f t = f s :=
  run_keeps (I := fun u => f u = f s) rfl h fun r hr u w hu _ hw => (hstep r hr u w hw).trans hu

/-- A refused run refused at one rule, after running the rules before it. -/
theorem run_error (h : R.run tests rs s = .error v) :
    ∃ pre r post u, rs = pre ++ r :: post ∧ R.run tests pre s = .ok u ∧
      R.holds tests u r.2 = true ∧ R.perform r.1 u = .error v := by
  induction rs generalizing s with
  | nil => cases h
  | cons r rs ih =>
    cases hc : R.holds tests s r.2 with
    | false =>
      rw [run_skip hc] at h
      obtain ⟨pre, r', post, w, rfl, hpre, hrest⟩ := ih h
      exact ⟨r :: pre, r', post, w, rfl, by rw [run_skip hc, hpre], hrest⟩
    | true =>
      cases hp : R.perform r.1 s with
      | error w =>
        rw [run_refuse hc hp] at h
        cases h
        exact ⟨[], r, rs, s, rfl, rfl, hc, hp⟩
      | ok u =>
        rw [run_step hc hp] at h
        obtain ⟨pre, r', post, w, rfl, hpre, hrest⟩ := ih h
        exact ⟨r :: pre, r', post, w, rfl, by rw [run_step hc hp, hpre], hrest⟩

/-- A run that was not refused met the condition of no refusing rule, where the condition is
read from a part of the state the rules do not write. -/
theorem not_holds_of_run {X : Type} {f : S → X} {a : A} {c : List (Operand N T)}
    (h : R.run tests rs s = .ok t) (hmem : (a, c) ∈ rs) (href : ∀ u w, R.perform a u ≠ .ok w)
    (hstep : ∀ r ∈ rs, ∀ s t, R.perform r.1 s = .ok t → f t = f s)
    (hread : ∀ u, f u = f s → R.holds tests u c = R.holds tests s c) : R.holds tests s c = false := by
  obtain ⟨pre, post, rfl⟩ := List.append_of_mem hmem
  obtain ⟨u, hpre, hrest⟩ := run_append_ok h
  have hu : f u = f s := run_frame hpre fun r hr => hstep r (List.mem_append_left _ hr)
  rw [← hread u hu]
  by_contra hc
  have hc' : R.holds tests u c = true := by simpa using hc
  cases hp : R.perform a u with
  | error w =>
    rw [run_refuse hc' hp] at hrest
    cases hrest
  | ok w => exact href u w hp

/-- How a run ends: let through with `I` of its state, or refused with `P` of the refusal. -/
def Ends (I : S → Prop) (P : V → Prop) : Except V S → Prop
  | .ok t => I t
  | .error v => P v

theorem Ends.mono {I J : S → Prop} {P Q : V → Prop} {x : Except V S} (h : Ends I P x)
    (hI : ∀ s, I s → J s) (hP : ∀ v, P v → Q v) : Ends J Q x := by
  cases x with
  | ok s => exact hI s h
  | error v => exact hP v h

theorem run_ends {I : S → Prop} {P : V → Prop} (hs : I s)
    (hstep : ∀ r ∈ rs, ∀ s, I s → R.holds tests s r.2 = true → Ends I P (R.perform r.1 s)) :
    Ends I P (R.run tests rs s) := by
  cases h : R.run tests rs s with
  | ok t =>
    have ht : I t := run_keeps hs h fun r hr s t hs hc hp => by
      have hends := hstep r hr s hs hc
      rwa [hp] at hends
    exact ht
  | error v =>
    obtain ⟨pre, r, post, u, rfl, hpre, hc, hp⟩ := run_error h
    have hu : I u := run_keeps hs hpre fun r hr s t hs hc hp => by
      have hends := hstep r (List.mem_append_left _ hr) s hs hc
      rwa [hp] at hends
    have hends := hstep r (by simp) u hu hc
    rwa [hp] at hends

theorem run_append_ends {I J : S → Prop} {P : V → Prop} (h : Ends I P (R.run tests rs s))
    (hrest : ∀ t, I t → Ends J P (R.run tests rs' t)) : Ends J P (R.run tests (rs ++ rs') s) := by
  cases hr : R.run tests rs s with
  | ok t =>
    rw [hr] at h
    rw [run_append_of_ok hr]
    exact hrest t h
  | error v =>
    rw [hr] at h
    rw [run_append_of_error hr]
    exact h

theorem run_flatMap_ends {X : Type} {l : List X} {f : X → List (Line N T A B)} {I : S → Prop}
    {P : V → Prop} (hs : I s) (h : ∀ x ∈ l, ∀ s, I s → Ends I P (R.run tests (rules (f x)) s)) :
    Ends I P (R.run tests (rules (l.flatMap f)) s) := by
  induction l generalizing s with
  | nil => exact hs
  | cons x l ih =>
    rw [List.flatMap_cons, rules_append]
    exact run_append_ends (h x List.mem_cons_self s hs) fun t ht =>
      ih ht fun y hy => h y (List.mem_cons_of_mem _ hy)

/-! ## Two runs of the same rules -/

/-- Both let through, in states that are alike, or both refused. -/
inductive Alike (I : S → S → Prop) : Except V S → Except V S → Prop where
  | ok {s t : S} (h : I s t) : Alike I (.ok s) (.ok t)
  | error {v w : V} : Alike I (.error v) (.error w)

variable (R tests) in
structure Together (I : S → S → Prop) (rs : List (A × List (Operand N T))) (s t : S) : Prop where
  ends : Alike I (R.run tests rs s) (R.run tests rs t)
  place : R.refusedAt tests rs s = R.refusedAt tests rs t

namespace Together

variable {I J : S → S → Prop} {r : A × List (Operand N T)} {s' t' : S}

theorem nil (h : I s t) : R.Together tests I [] s t := ⟨.ok h, rfl⟩

theorem refl (s : S) : R.Together tests Eq rs s s where
  ends := by cases R.run tests rs s with
    | ok t => exact .ok rfl
    | error v => exact .error
  place := rfl

theorem mono (h : R.Together tests I rs s t) (hij : ∀ s t, I s t → J s t) :
    R.Together tests J rs s t where
  ends := by
    have hends := h.ends
    generalize R.run tests rs s = x, R.run tests rs t = y at hends
    cases hends with
    | ok h => exact .ok (hij _ _ h)
    | error => exact .error
  place := h.place

/-- A rule that acts on both leaves runs that go together if what it leaves does. -/
theorem step (hs : R.holds tests s r.2 = true) (ht : R.holds tests t r.2 = true)
    (hps : R.perform r.1 s = .ok s') (hpt : R.perform r.1 t = .ok t')
    (h : R.Together tests I rs s' t') : R.Together tests I (r :: rs) s t where
  ends := by
    rw [run_step hs hps, run_step ht hpt]
    exact h.ends
  place := by rw [refusedAt_step hs hps, refusedAt_step ht hpt, h.place]

theorem skip (hs : R.holds tests s r.2 = false) (ht : R.holds tests t r.2 = false)
    (h : R.Together tests I rs s t) : R.Together tests I (r :: rs) s t where
  ends := by
    rw [run_skip hs, run_skip ht]
    exact h.ends
  place := by rw [refusedAt_skip hs, refusedAt_skip ht, h.place]

theorem refuse (hs : R.holds tests s r.2 = true) (ht : R.holds tests t r.2 = true) {v w : V}
    (hps : R.perform r.1 s = .error v) (hpt : R.perform r.1 t = .error w) :
    R.Together tests I (r :: rs) s t where
  ends := by
    rw [run_refuse hs hps, run_refuse ht hpt]
    exact .error
  place := by rw [refusedAt_refuse hs hps, refusedAt_refuse ht hpt]

end Together

variable {I J : S → S → Prop}

theorem run_together (h : I s t) (hread : ∀ s t, I s t → ∀ q, R.test t q = R.test s q)
    (hstep : ∀ r ∈ rs, ∀ s t, I s t → Alike I (R.perform r.1 s) (R.perform r.1 t)) :
    R.Together tests I rs s t := by
  induction rs generalizing s t with
  | nil => exact .nil h
  | cons r rs ih =>
    have hrest := fun r hr => hstep r (List.mem_cons_of_mem _ hr)
    have hnamed : ∀ n, R.named tests t n = R.named tests s n := by
      intro n
      simp only [named, hread s t h]
    have hholds : R.holds tests t r.2 = R.holds tests s r.2 := by
      refine List.all_congr rfl fun o => ?_
      cases o <;> simp only [operand, hnamed, hread s t h]
    cases hc : R.holds tests s r.2 with
    | false => exact .skip hc (hholds.trans hc) (ih h hrest)
    | true =>
      have hacts := hstep r List.mem_cons_self s t h
      cases hp : R.perform r.1 s <;> cases hq : R.perform r.1 t <;> rw [hp, hq] at hacts
      · exact .refuse hc (hholds.trans hc) hp hq
      · cases hacts
      · cases hacts
      · cases hacts with
        | ok hu => exact .step hc (hholds.trans hc) hp hq (ih hu hrest)

theorem refusedAt_append_of_ok (h : R.run tests rs s = .ok t) :
    R.refusedAt tests (rs ++ rs') s = (R.refusedAt tests rs' t).map (· + rs.length) := by
  induction rs generalizing s with
  | nil =>
    cases h
    simp
  | cons r rs ih =>
    have hadd : ∀ n : Option Nat, (n.map (· + rs.length)).map (· + 1) = n.map (· + (r :: rs).length) :=
      fun n => Option.map_map ..
    rw [List.cons_append]
    cases hc : R.holds tests s r.2 with
    | false =>
      rw [run_skip hc] at h
      rw [refusedAt_skip hc, ih h, hadd]
    | true =>
      cases hp : R.perform r.1 s with
      | error v =>
        rw [run_refuse hc hp] at h
        cases h
      | ok u =>
        rw [run_step hc hp] at h
        rw [refusedAt_step hc hp, ih h, hadd]

theorem refusedAt_append_of_error (h : R.run tests rs s = .error v) :
    R.refusedAt tests (rs ++ rs') s = R.refusedAt tests rs s := by
  induction rs generalizing s with
  | nil => cases h
  | cons r rs ih =>
    rw [List.cons_append]
    cases hc : R.holds tests s r.2 with
    | false =>
      rw [run_skip hc] at h
      rw [refusedAt_skip hc, refusedAt_skip hc, ih h]
    | true =>
      cases hp : R.perform r.1 s with
      | error w => rw [refusedAt_refuse hc hp, refusedAt_refuse hc hp]
      | ok u =>
        rw [run_step hc hp] at h
        rw [refusedAt_step hc hp, refusedAt_step hc hp, ih h]

/-- Runs that go together so far, and from there on. -/
theorem Together.append (h : R.Together tests I rs s t)
    (hrest : ∀ s t, I s t → R.Together tests J rs' s t) : R.Together tests J (rs ++ rs') s t := by
  have hends := h.ends
  cases hs : R.run tests rs s <;> cases ht : R.run tests rs t <;> rw [hs, ht] at hends
  · refine ⟨?_, ?_⟩
    · rw [run_append_of_error hs, run_append_of_error ht]
      exact .error
    · rw [refusedAt_append_of_error hs, refusedAt_append_of_error ht, h.place]
  · cases hends
  · cases hends
  · cases hends with
    | ok hu =>
      have hgo := hrest _ _ hu
      refine ⟨?_, ?_⟩
      · rw [run_append_of_ok hs, run_append_of_ok ht]
        exact hgo.ends
      · rw [refusedAt_append_of_ok hs, refusedAt_append_of_ok ht, hgo.place]

/-! ## Routes -/

variable {b : B} {dests : List (B × List (Operand N T))}

theorem exists_of_route (h : R.route tests dests s = some b) :
    ∃ c, (b, c) ∈ dests ∧ R.holds tests s c = true := by
  obtain ⟨d, hd, rfl⟩ := Option.map_eq_some_iff.mp h
  exact ⟨d.2, List.mem_of_find?_eq_some hd, by simpa using List.find?_some hd⟩

end Reading

end EasyHaProxy.Rules
