import Mathlib.Data.List.Nodup
import Mathlib.Data.List.Infix
import Mathlib.Tactic.Common

/-! Sections may hold sections. The names under one section, of keys and of sections, are all different. -/
namespace EasyHaProxy.Ini

variable {α : Type}

/-- What a line is: a header `[name]`, with as many brackets as its section is deep, or `key = value`. -/
inductive Line (α : Type)
  | blank
  | header (depth : Nat) (name : α)
  | entry (key value : α)
  | wrong
  deriving DecidableEq

/-- A section or a key, with the names of the sections around it, and what a key is set to. -/
abbrev Declaration (α : Type) := List α × Option α

/-- What lines declare after those that left off in the section `path`. -/
def declared (path : List α) : List (Line α) → Option (List (Declaration α))
  | [] => some []
  | .blank :: rest => declared path rest
  | .header depth name :: rest =>
    if 0 < depth ∧ depth ≤ path.length + 1 then
      (declared (path.take (depth - 1) ++ [name]) rest).map
        ((path.take (depth - 1) ++ [name], none) :: ·)
    else none
  | .entry key value :: rest => (declared path rest).map ((path ++ [key], some value) :: ·)
  | .wrong :: _ => none

/-- Every line is understood, and no name is declared twice. -/
def Accepted (lines : List (Line α)) : Prop :=
  ∃ d, declared [] lines = some d ∧ (d.map Prod.fst).Nodup

/-- The lines have a section or a key of this path. -/
def Declares (lines : List (Line α)) (path : List α) : Prop :=
  ∃ d, declared [] lines = some d ∧ path ∈ d.map Prod.fst

def Sets (lines : List (Line α)) (path : List α) (value : α) : Prop :=
  ∃ d, declared [] lines = some d ∧ (path, some value) ∈ d

variable {path : List α} {pre post lines : List (Line α)} {name key value : α} {line : Line α}
  {d : List (Declaration α)}

/-! ## Lines in the middle -/

theorem declared_append (path : List α) (pre : List (Line α)) :
    declared path pre = none ∧ (∀ post, declared path (pre ++ post) = none) ∨
      ∃ d after, ∀ post, declared path (pre ++ post) = (declared after post).map (d ++ ·) := by
  induction pre generalizing path with
  | nil => exact Or.inr ⟨[], path, fun post => by simp⟩
  | cons line pre ih =>
    have hstep {path' : List α} {x : Declaration α} {f : List (Line α) → Option (List (Declaration α))}
        (h : ∀ rest, f rest = (declared path' rest).map (x :: ·)) :
        f pre = none ∧ (∀ post, f (pre ++ post) = none) ∨
          ∃ d after, ∀ post, f (pre ++ post) = (declared after post).map (d ++ ·) := by
      rcases ih path' with ⟨hpre, hnone⟩ | ⟨d, after, hsome⟩
      · exact Or.inl ⟨by rw [h, hpre]; rfl, fun post => by rw [h, hnone]; rfl⟩
      · refine Or.inr ⟨x :: d, after, fun post => ?_⟩
        rw [h, hsome, Option.map_map]
        rfl
    cases line with
    | blank => exact ih path
    | header depth name =>
      by_cases hd : 0 < depth ∧ depth ≤ path.length + 1
      · exact hstep (f := fun rest => declared path (.header depth name :: rest)) fun rest => if_pos hd
      · exact Or.inl ⟨if_neg hd, fun post => if_neg hd⟩
    | entry key value =>
      exact hstep (f := fun rest => declared path (.entry key value :: rest)) fun rest => rfl
    | wrong => exact Or.inl ⟨rfl, fun post => rfl⟩

theorem declared_insert_blank (path : List α) (pre post : List (Line α)) :
    declared path (pre ++ Line.blank :: post) = declared path (pre ++ post) := by
  rcases declared_append path pre with ⟨-, hnone⟩ | ⟨d, after, hsome⟩
  · rw [hnone, hnone]
  · rw [hsome, hsome]
    rfl

/-- What is before an outermost header, and what is in its section and after it. -/
theorem declared_at_header (h : declared path (pre ++ Line.header 1 name :: post) = some d) :
    ∃ front back, (∀ lines, declared path (pre ++ Line.header 1 name :: lines) =
      (declared [name] lines).map fun e => front ++ ([name], none) :: e) ∧
      declared [name] post = some back ∧ d = front ++ ([name], none) :: back := by
  rcases declared_append path pre with ⟨-, hnone⟩ | ⟨front, after, hsome⟩
  · rw [hnone] at h
    cases h
  · have hheader (lines : List (Line α)) : declared path (pre ++ Line.header 1 name :: lines) =
        (declared [name] lines).map fun e => front ++ ([name], none) :: e := by
      rw [hsome, declared, if_pos ⟨Nat.one_pos, Nat.le_add_left 1 _⟩, Nat.sub_self, List.take_zero,
        List.nil_append, Option.map_map]
      rfl
    rw [hheader] at h
    obtain ⟨back, hback, rfl⟩ := Option.map_eq_some_iff.mp h
    exact ⟨front, back, hheader, hback, rfl⟩

theorem accepted_insert (h : Accepted (pre ++ Line.header 1 name :: post)) :
    Accepted (pre ++ Line.header 1 name :: Line.entry key value :: post) ↔
      ¬ Declares (pre ++ Line.header 1 name :: post) [name, key] := by
  obtain ⟨d, hd, hnodup⟩ := h
  obtain ⟨front, back, hheader, hback, rfl⟩ := declared_at_header hd
  have hnew : declared [] (pre ++ Line.header 1 name :: Line.entry key value :: post) =
      some ((front ++ [([name], none)]) ++ ([name, key], some value) :: back) := by
    rw [hheader, declared, hback]
    simp
  have hold : front ++ ([name], none) :: back = (front ++ [([name], none)]) ++ back := by simp
  rw [hold] at hd hnodup
  unfold Accepted Declares
  rw [hd, hnew]
  simp only [Option.some.injEq, exists_eq_left']
  rw [List.map_append, List.map_cons, List.nodup_middle, List.nodup_cons, ← List.map_append]
  exact and_iff_left hnodup

theorem sets_insert (h : Accepted (pre ++ Line.header 1 name :: Line.entry key value :: post)) :
    Sets (pre ++ Line.header 1 name :: Line.entry key value :: post) [name, key] value := by
  obtain ⟨d, hd, -⟩ := h
  obtain ⟨front, back, -, hback, rfl⟩ := declared_at_header hd
  obtain ⟨inner, -, rfl⟩ := Option.map_eq_some_iff.mp hback
  exact ⟨_, hd, by simp⟩

/-- A section opened after everything else. -/
theorem declared_append_header (h : declared [] lines = some d) :
    declared [] (lines ++ [Line.header 1 name]) = some (d ++ [([name], none)]) := by
  rcases declared_append [] lines with ⟨hnone, -⟩ | ⟨front, after, hsome⟩
  · rw [hnone] at h
    cases h
  · have hlines := hsome []
    rw [List.append_nil, h] at hlines
    rw [hsome, declared, if_pos ⟨Nat.one_pos, Nat.le_add_left 1 _⟩]
    obtain rfl : d = front := by simpa [declared] using hlines
    rfl

theorem accepted_append_header (h : Accepted lines) :
    Accepted (lines ++ [Line.header 1 name]) ↔ ¬ Declares lines [name] := by
  obtain ⟨d, hd, hnodup⟩ := h
  unfold Accepted Declares
  rw [declared_append_header hd, hd]
  simp only [Option.some.injEq, exists_eq_left']
  rw [List.map_append, List.map_singleton, List.nodup_append_comm, List.singleton_append, List.nodup_cons]
  exact and_iff_left hnodup

theorem declares_append_header (h : Accepted lines) (p : List α) :
    Declares (lines ++ [Line.header 1 name]) p ↔ Declares lines p ∨ p = [name] := by
  obtain ⟨d, hd, -⟩ := h
  unfold Declares
  rw [declared_append_header hd, hd]
  simp only [Option.some.injEq, exists_eq_left', List.map_append, List.map_cons, List.map_nil,
    List.mem_append, List.mem_singleton]

/-! ## Lines left out -/

/-- The first are the others without some blank lines and keys. -/
inductive Without : List (Line α) → List (Line α) → Prop
  | nil : Without [] []
  | keep {kept lines} (line) : Without kept lines → Without (line :: kept) (line :: lines)
  | blank {kept lines} : Without kept lines → Without kept (.blank :: lines)
  | entry {kept lines} (key value) : Without kept lines → Without kept (.entry key value :: lines)

theorem Without.refl : ∀ lines : List (Line α), Without lines lines
  | [] => .nil
  | line :: lines => .keep line (Without.refl lines)

theorem Without.declared {kept : List (Line α)} (h : Without kept lines) (hd : declared path lines = some d) :
    ∃ e, Ini.declared path kept = some e ∧ e.Sublist d := by
  induction h generalizing path d with
  | nil => exact ⟨d, hd, List.Sublist.refl d⟩
  | @keep kept lines line _ ih =>
    cases line with
    | blank => exact ih hd
    | header depth name =>
      rw [Ini.declared] at hd ⊢
      split at hd
      next hdepth =>
        obtain ⟨inner, hinner, rfl⟩ := Option.map_eq_some_iff.mp hd
        obtain ⟨e, he, hsub⟩ := ih hinner
        rw [if_pos hdepth, he]
        exact ⟨_, rfl, hsub.cons_cons _⟩
      · cases hd
    | entry key value =>
      obtain ⟨inner, hinner, rfl⟩ := Option.map_eq_some_iff.mp hd
      obtain ⟨e, he, hsub⟩ := ih hinner
      rw [Ini.declared, he]
      exact ⟨_, rfl, hsub.cons_cons _⟩
    | wrong => cases hd
  | blank _ ih => exact ih hd
  | entry key value _ ih =>
    obtain ⟨inner, hinner, rfl⟩ := Option.map_eq_some_iff.mp hd
    obtain ⟨e, he, hsub⟩ := ih hinner
    exact ⟨e, he, hsub.cons _⟩

theorem Without.accepted {kept : List (Line α)} (h : Without kept lines) (ha : Accepted lines) : Accepted kept := by
  obtain ⟨d, hd, hnodup⟩ := ha
  obtain ⟨e, he, hsub⟩ := h.declared hd
  exact ⟨e, he, (hsub.map Prod.fst).nodup hnodup⟩

end EasyHaProxy.Ini
