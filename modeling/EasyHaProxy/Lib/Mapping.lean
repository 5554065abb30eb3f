import EasyHaProxy.Lib.Keyed
import EasyHaProxy.Lib.Yaml

/-! Values of any kind with what Python makes of them, mappings of such values, and what a comparison of two
mappings by `get` sees. -/
namespace EasyHaProxy.Mapping

open Keyed

/-- A mapping, whatever the order of its keys. -/
abbrev PyDict (κ α : Type) := Finmap fun _ : κ => α

/-- How Python sees the values of a type. -/
structure Values (κ α : Type) where
  null : α
  /-- `is None`. -/
  isNone : α → Bool
  /-- `==`. -/
  eq : α → α → Bool
  truthy : α → Bool
  str : α → String
  list? : α → Option (List α)
  map? : α → Option (PyDict κ α)
  /-- The key that is this text. -/
  key : String → κ
  /-- `sorted` of a set of keys, which fails where two of them cannot be compared. -/
  sorted : Finset κ → Option (List κ)
  mem_sorted : ∀ s l, sorted s = some l → ∀ k, k ∈ l ↔ k ∈ s

variable {κ α : Type} [DecidableEq κ] (py : Values κ α)

namespace Values

/-- `mapping.get(key)`. -/
def get (m : PyDict κ α) (k : κ) : α := (m.lookup k).getD py.null

/-- `{k for k in set(before) | set(after) if before.get(k) != after.get(k)}`. -/
def changedKeys (before after : PyDict κ α) : Finset κ :=
  (before.keys ∪ after.keys).filter fun k => py.eq (py.get before k) (py.get after k) = false

/-- No key shows a difference. -/
def Alike (before after : PyDict κ α) : Prop := py.changedKeys before after = ∅

instance (before after : PyDict κ α) : Decidable (py.Alike before after) := inferInstanceAs (Decidable (_ = _))

/-- `before == after`. -/
def dictEq (before after : PyDict κ α) : Bool :=
  decide (before.keys = after.keys) && decide (py.changedKeys before after = ∅)

variable {py} {before after : PyDict κ α}

theorem alike_iff : py.Alike before after ↔
    ∀ k, k ∈ before.keys ∨ k ∈ after.keys → py.eq (py.get before k) (py.get after k) = true := by
  simp [Alike, changedKeys, Finset.filter_eq_empty_iff]

theorem changedKeys_of_dictEq (h : py.dictEq before after = true) : py.changedKeys before after = ∅ := by
  simp only [dictEq, Bool.and_eq_true, decide_eq_true_eq] at h
  exact h.2

omit [DecidableEq κ] in
/-- What a list of changed keys says when it is empty. -/
theorem sorted_eq_nil {s : Finset κ} {l : List κ} (h : py.sorted s = some l) : l = [] ↔ s = ∅ := by
  rw [List.eq_nil_iff_forall_not_mem, Finset.eq_empty_iff_forall_notMem]
  exact forall_congr' fun k => not_congr (py.mem_sorted s l h k)

end Values

/-! ## Two lists of named mappings -/

section Named

variable {ν : Type} [DecidableEq ν]

/-- Two entries show no difference: both are missing, or all their keys give the same. -/
def EntryAlike : Option (PyDict κ α) → Option (PyDict κ α) → Prop
  | some before, some after => py.Alike before after
  | none, none => True
  | _, _ => False

/-- The last entries of each name show no difference. -/
def ListAlike (curr old : List (ν × PyDict κ α)) : Prop :=
  ∀ n, EntryAlike py ((collect old).lookup n) ((collect curr).lookup n)

variable {py} {curr old : List (ν × PyDict κ α)}

theorem EntryAlike.both {before after : Option (PyDict κ α)} (h : EntryAlike py before after) :
    before = none ↔ after = none := by
  cases before <;> cases after <;> simp_all [EntryAlike]

/-- No name is on one side only, and no name on both shows a difference. -/
theorem listAlike_iff : ListAlike py curr old ↔
    (collect curr).keys \ (collect old).keys = ∅ ∧ (collect old).keys \ (collect curr).keys = ∅ ∧
      ∀ n before after, (collect old).lookup n = some before → (collect curr).lookup n = some after →
        py.Alike before after := by
  have hmem (l : List (ν × PyDict κ α)) (n : ν) : n ∈ (collect l).keys ↔ (collect l).lookup n ≠ none := by
    rw [Finmap.mem_keys, ← Finmap.lookup_isSome, Option.isSome_iff_ne_none]
  simp only [Finset.sdiff_eq_empty_iff_subset, Finset.subset_iff, hmem]
  constructor
  · intro h
    refine ⟨fun n hn hold => hn ((h n).both.mp hold), fun n hn hcurr => hn ((h n).both.mpr hcurr), ?_⟩
    intro n before after hbefore hafter
    simpa [EntryAlike, hbefore, hafter] using h n
  · rintro ⟨hcurr, hold, halike⟩ n
    cases hbefore : (collect old).lookup n with
    | none =>
      have hafter : (collect curr).lookup n = none := by
        by_contra hn
        exact hcurr hn hbefore
      rw [hafter]
      trivial
    | some before =>
      cases hafter : (collect curr).lookup n with
      | none => exact absurd hafter (hold (by simp [hbefore]))
      | some after => exact halike n before after hbefore hafter

theorem listAlike_nil_right : ListAlike py curr [] ↔ curr = [] := by
  constructor
  · intro h
    rw [List.eq_nil_iff_forall_not_mem]
    rintro ⟨n, fields⟩ hmem
    have hnone : (collect curr).lookup n = none := (h n).both.mp (by rw [lookup_collect]; rfl)
    rw [lookup_collect, List.getLast?_eq_none_iff] at hnone
    exact List.not_mem_nil (hnone ▸ mem_under.mpr hmem)
  · rintro rfl n
    rw [show (collect ([] : List (ν × PyDict κ α))).lookup n = none from lookup_collect]
    trivial

theorem listAlike_nil_left : ListAlike py [] old ↔ old = [] := by
  constructor
  · intro h
    rw [List.eq_nil_iff_forall_not_mem]
    rintro ⟨n, fields⟩ hmem
    have hnone : (collect old).lookup n = none := (h n).both.mpr (by rw [lookup_collect]; rfl)
    rw [lookup_collect, List.getLast?_eq_none_iff] at hnone
    exact List.not_mem_nil (hnone ▸ mem_under.mpr hmem)
  · rintro rfl
    exact listAlike_nil_right.mpr rfl

end Named

end EasyHaProxy.Mapping

/-! ## YAML values -/

namespace EasyHaProxy.Yaml

namespace Value

mutual

/-- Python's `==`. -/
def equal : Value → Value → Bool
  | .null, .null => true
  | .bool a, .bool b => a == b
  | .bool a, .int n => n == if a then 1 else 0
  | .int n, .bool b => n == if b then 1 else 0
  | .int n, .int m => n == m
  | .str s, .str t => s == t
  | .list items, .list others => equalItems items others
  | .map fields, .map others => fields.length == others.length && equalFields fields others
  | .other text _, .other text' _ => text == text'
  | _, _ => false

def equalItems : List Value → List Value → Bool
  | [], [] => true
  | v :: items, w :: others => equal v w && equalItems items others
  | _, _ => false

def equalFields : Fields → Fields → Bool
  | [], _ => true
  | (k, v) :: fields, others =>
    (match others.lookup k with
      | some w => equal v w
      | none => false) && equalFields fields others

end

def isNull : Value → Bool
  | .null => true
  | _ => false

def list? : Value → Option (List Value)
  | .list items => some items
  | _ => none

def map? : Value → Option (Mapping.PyDict String Value)
  | .map fields => some (Keyed.collect fields)
  | _ => none

end Value

/-- Documents whose keys are texts; the text of a list or a mapping is passed in. -/
def values (str : Value → String) : Mapping.Values String Value where
  null := .null
  isNone := Value.isNull
  eq := Value.equal
  truthy := Value.truthy
  str := Value.text str
  list? := Value.list?
  map? := Value.map?
  key := id
  sorted s := some (s.sort (· ≤ ·))
  mem_sorted s l h k := by
    rw [← Option.some.inj h, Finset.mem_sort]

end EasyHaProxy.Yaml
