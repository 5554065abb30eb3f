import EasyHaProxy.Lib.Dict
import EasyHaProxy.Lib.Yaml

/-! # Documents that are written and read back -/
namespace EasyHaProxy.Yaml

abbrev Mapping := Dict String Value

def Mapping.value (m : Mapping) : Value := .map m.entries

/-- `isinstance(value, dict)`, with the mapping. -/
def mapping? : Value → Option Mapping
  | .map fields => some (Dict.ofPairs fields)
  | _ => none

@[simp] theorem mapping?_value {m : Mapping} : mapping? m.value = some m := congrArg some m.ofPairs_entries

/-- A character that a dumper neither escapes nor takes for a line end. -/
def isPlainChar (c : Char) : Bool := ' ' ≤ c && c ≤ '~' || '\xa0' ≤ c && c ∉ ['\u2028', '\u2029', '\ufeff']

def isPlainText (s : String) : Bool := s.toList.all isPlainChar

namespace Value

def isPlainScalar : Value → Bool
  | null | bool _ | int _ => true
  | str s => isPlainText s
  | _ => false

def isPlainField : Value → Bool
  | list items => items.all isPlainScalar
  | v => v.isPlainScalar

/-- Mappings at most so deep, with plain keys, of plain fields. -/
def Plain : Nat → Value → Prop
  | 0, v => v.isPlainField = true
  | n + 1, v => v.isPlainField = true ∨
    ∃ m, mapping? v = some m ∧ ∀ key w, m.get? key = some w → isPlainText key = true ∧ w.Plain n

/-- The same, whatever the order of the keys, as far as mappings are this deep. -/
def Same : Nat → Value → Value → Prop
  | 0, v, w => v = w
  | n + 1, v, w => v = w ∨
    ∃ m m', mapping? v = some m ∧ mapping? w = some m' ∧ ∀ key, Option.Rel (Same n) (m.get? key) (m'.get? key)

end Value

def SameUnder (n : Nat) (m m' : Mapping) : Prop := ∀ key, Option.Rel (Value.Same n) (m.get? key) (m'.get? key)

variable {n : Nat} {v w : Value} {m m' : Mapping} {key : String}

theorem not_isPlainField_of_mapping (h : mapping? v = some m) : v.isPlainField = false := by
  cases v with
  | map fields => rfl
  | _ => cases h

theorem plain_of_mapping (h : mapping? v = some m) :
    v.Plain (n + 1) ↔ ∀ key w, m.get? key = some w → isPlainText key = true ∧ w.Plain n := by
  constructor
  · rintro (hfield | ⟨m', hm', hplain⟩)
    · rw [not_isPlainField_of_mapping h] at hfield
      cases hfield
    · cases Option.some.inj (h.symm.trans hm')
      exact hplain
  · exact fun hplain => Or.inr ⟨m, h, hplain⟩

theorem plain_value : m.value.Plain (n + 1) ↔ ∀ key w, m.get? key = some w → isPlainText key = true ∧ w.Plain n :=
  plain_of_mapping mapping?_value

theorem plain_succ (h : v.Plain n) : v.Plain (n + 1) := by
  induction n generalizing v with
  | zero => exact Or.inl h
  | succ n ih =>
    rcases h with hfield | ⟨m, hm, hplain⟩
    · exact Or.inl hfield
    · exact Or.inr ⟨m, hm, fun key w hw => ⟨(hplain key w hw).1, ih (hplain key w hw).2⟩⟩

theorem plain_set (hm : m.value.Plain (n + 1)) (hkey : isPlainText key = true) (hv : v.Plain n) :
    (Mapping.value (m.set key v)).Plain (n + 1) := by
  rw [plain_value] at hm ⊢
  intro other w hw
  rw [Dict.get?_set] at hw
  split at hw
  next hsame =>
    cases hw
    exact ⟨hsame ▸ hkey, hv⟩
  next => exact hm other w hw

theorem plain_erase (hm : m.value.Plain (n + 1)) : (Mapping.value (m.erase key)).Plain (n + 1) := by
  rw [plain_value] at hm ⊢
  intro other w hw
  rw [Dict.get?_erase] at hw
  split at hw
  · cases hw
  · exact hm other w hw

theorem same_refl (n : Nat) (v : Value) : v.Same n v := by
  cases n with
  | zero => rfl
  | succ n => exact Or.inl rfl

theorem rel_refl (n : Nat) (v : Option Value) : Option.Rel (Value.Same n) v v := by
  cases v with
  | none => exact .none
  | some v => exact .some (same_refl n v)

theorem sameUnder_refl (n : Nat) (m : Mapping) : SameUnder n m m := fun key => rel_refl n (m.get? key)

theorem same_of_mapping (h : v.Same (n + 1) w) (hw : mapping? w = some m') :
    ∃ m, mapping? v = some m ∧ SameUnder n m m' := by
  rcases h with rfl | ⟨m, m'', hv, hw', hrel⟩
  · exact ⟨m', hw, sameUnder_refl n m'⟩
  · cases Option.some.inj (hw.symm.trans hw')
    exact ⟨m, hv, hrel⟩

theorem mapping?_eq_none_of_same (h : v.Same (n + 1) w) (hw : mapping? w = none) : mapping? v = none := by
  rcases h with rfl | ⟨m, m', -, hw', -⟩
  · exact hw
  · rw [hw] at hw'
    cases hw'

theorem plain_of_same (h : v.Same n w) (hw : w.Plain n) : v.Plain n := by
  induction n generalizing v w with
  | zero => exact h ▸ hw
  | succ n ih =>
    rcases h with rfl | ⟨m, m', hm, hm', hrel⟩
    · exact hw
    · rw [plain_of_mapping hm'] at hw
      refine (plain_of_mapping hm).mpr fun key u hu => ?_
      have hrelkey := hrel key
      rw [hu] at hrelkey
      cases hm'key : m'.get? key with
      | none =>
        rw [hm'key] at hrelkey
        cases hrelkey
      | some u' =>
        rw [hm'key] at hrelkey
        cases hrelkey with
        | some hsame => exact ⟨(hw key u' hm'key).1, ih hsame (hw key u' hm'key).2⟩

theorem sameUnder_bind (h : SameUnder (n + 1) m m') (key : String) :
    (m.get? key).bind mapping? = none ∧ (m'.get? key).bind mapping? = none ∨
      ∃ u u', (m.get? key).bind mapping? = some u ∧ (m'.get? key).bind mapping? = some u' ∧ SameUnder n u u' := by
  have hrel := h key
  cases hv : m.get? key with
  | none =>
    cases hw : m'.get? key with
    | none => exact Or.inl ⟨rfl, rfl⟩
    | some w =>
      rw [hv, hw] at hrel
      cases hrel
  | some v =>
    cases hw : m'.get? key with
    | none =>
      rw [hv, hw] at hrel
      cases hrel
    | some w =>
      rw [hv, hw] at hrel
      cases hrel with
      | some hsame =>
        cases hmap : mapping? w with
        | none => exact Or.inl ⟨mapping?_eq_none_of_same hsame hmap, hmap⟩
        | some u' =>
          obtain ⟨u, hu, hunder⟩ := same_of_mapping hsame hmap
          exact Or.inr ⟨u, u', hu, hmap, hunder⟩

/-- At the depth of fields nothing but the same is the same. -/
theorem get?_eq_of_sameUnder (h : SameUnder 0 m m') (key : String) : m.get? key = m'.get? key := by
  have hrel := h key
  generalize m.get? key = v at hrel ⊢
  generalize m'.get? key = w at hrel ⊢
  cases hrel with
  | none => rfl
  | some hsame => exact congrArg some hsame

end EasyHaProxy.Yaml
