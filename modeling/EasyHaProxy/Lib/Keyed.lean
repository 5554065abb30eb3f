import Mathlib.Data.Finmap
import Mathlib.Data.Finset.Sort
import Mathlib.Data.List.Perm.Basic
import Mathlib.Data.List.ReduceOption
import Mathlib.Data.String.Basic

/-! A list of entries under keys, where a later entry takes the place of an earlier one, and lists that are
the same up to their order, group by group. -/
namespace EasyHaProxy.Keyed

instance instIsTransString : IsTrans String (· ≤ ·) := inferInstance

instance instAntisymmString : Std.Antisymm fun a b : String => a ≤ b := inferInstance

instance instTotalString : Std.Total fun a b : String => a ≤ b := inferInstance

variable {α ν β : Type} [DecidableEq ν]

def collect (l : List (ν × β)) : Finmap fun _ : ν => β := l.foldl (fun d e => d.insert e.1 e.2) ∅

/-- The entries under one key, in order. -/
def under (n : ν) (l : List (ν × β)) : List β := (l.filter (·.1 = n)).map (·.2)

section Collect

variable {n : ν} {l : List (ν × β)}

theorem lookup_foldl_insert (d : Finmap fun _ : ν => β) :
    (l.foldl (fun d e => d.insert e.1 e.2) d).lookup n = (under n l).getLast?.or (d.lookup n) := by
  induction l generalizing d with
  | nil => simp [under]
  | cons e l ih =>
    rw [List.foldl_cons, ih]
    by_cases h : e.1 = n
    · subst h
      have hunder : under e.1 (e :: l) = e.2 :: under e.1 l := by simp [under]
      rw [Finmap.lookup_insert, hunder, List.getLast?_cons]
      cases (under e.1 l).getLast? <;> rfl
    · rw [Finmap.lookup_insert_of_ne _ (Ne.symm h)]
      simp [under, h]

theorem lookup_collect : (collect l).lookup n = (under n l).getLast? := by
  rw [collect, lookup_foldl_insert]
  simp

theorem mem_under {b : β} : b ∈ under n l ↔ (n, b) ∈ l := by
  simp [under]

theorem under_filterMap (f : α → Option (ν × β)) (items : List α) : under n (items.filterMap f) =
    (items.filter fun a => (f a).map (·.1) = some n).filterMap fun a => (f a).map (·.2) := by
  induction items with
  | nil => rfl
  | cons a items ih =>
    cases ha : f a with
    | none => simpa [under, ha] using ih
    | some e =>
      by_cases he : e.1 = n
      · simpa [under, ha, he] using ih
      · simpa [under, ha, he] using ih

end Collect

theorem eq_singleton_of_mem {a : α} {l : List α} (h : a ∈ l) (hlength : l.length ≤ 1) : l = [a] := by
  obtain ⟨b, rfl⟩ := List.length_eq_one_iff.mp (Nat.le_antisymm hlength (List.length_pos_of_mem h))
  rw [List.mem_singleton.mp h]

/-! ## Groups -/

section Groups

/-- Two lists are the same up to order just when each group of them is. -/
theorem perm_iff_groups (f : α → ν) {l m : List α} :
    l.Perm m ↔ ∀ n, (l.filter (f · = n)).Perm (m.filter (f · = n)) := by
  classical
  constructor
  · exact fun h n => h.filter _
  · intro h
    rw [List.perm_iff_count]
    intro a
    have hcount := (h (f a)).count_eq a
    rwa [List.count_filter (by simp), List.count_filter (by simp)] at hcount

end Groups

/-! ## A step that may fail, over a list -/

section Traverse

variable {f : α → Option β} {l : List α} {out : List β} {b : β}

theorem mapM_isSome : (l.mapM f).isSome = true ↔ ∀ a ∈ l, (f a).isSome = true := by
  induction l with
  | nil => simp
  | cons a l ih =>
    rw [List.mapM_cons]
    cases hfa : f a with
    | none => simp [hfa]
    | some b =>
      cases hl : l.mapM f <;> simp_all

theorem mem_of_mapM (h : l.mapM f = some out) : b ∈ out ↔ ∃ a ∈ l, f a = some b := by
  induction l generalizing out with
  | nil =>
    obtain rfl : [] = out := Option.some.inj h
    simp
  | cons a l ih =>
    rw [List.mapM_cons] at h
    cases hfa : f a with
    | none => simp [hfa] at h
    | some c =>
      cases hl : l.mapM f with
      | none => simp [hfa, hl] at h
      | some rest =>
        obtain rfl : c :: rest = out := by simpa [hfa, hl] using h
        rw [List.mem_cons, ih hl]
        simp [hfa, eq_comm]

/-- The notes of all steps together are none just when each step notes nothing. -/
theorem reduceOption_mapM_eq_nil {note : α → Option (Option β)}
    (h : (l.mapM note).map List.reduceOption = some out) : out = [] ↔ ∀ a ∈ l, note a = some none := by
  obtain ⟨notes, hnotes, rfl⟩ := Option.map_eq_some_iff.mp h
  rw [List.eq_nil_iff_forall_not_mem]
  constructor
  · intro hno a ha
    have hsome : (l.mapM note).isSome = true := by
      rw [hnotes]
      rfl
    obtain ⟨d, hd⟩ := Option.isSome_iff_exists.mp (mapM_isSome.mp hsome a ha)
    cases d with
    | none => exact hd
    | some b => exact absurd (List.reduceOption_mem_iff.mpr ((mem_of_mapM hnotes).mpr ⟨a, ha, hd⟩)) (hno b)
  · intro hall b hb
    obtain ⟨a, ha, hab⟩ := (mem_of_mapM hnotes).mp (List.reduceOption_mem_iff.mp hb)
    rw [hall a ha] at hab
    cases hab

end Traverse

end EasyHaProxy.Keyed
