import EasyHaProxy.Lib.Dict

/-! `OrderedDict` as a cache keeps it: an entry used again goes to the end, the one at the front goes first.
What is said of the entries as a whole, whatever their order, goes through permutations. -/
namespace EasyHaProxy.Dict

variable {κ ν : Type} [DecidableEq κ] {d : Dict κ ν} {j k : κ} {v w : ν}

/-- `d.move_to_end(k)` -/
def moveToEnd (d : Dict κ ν) (k : κ) : Dict κ ν :=
  match d.get? k with
  | none => d
  | some v => (d.erase k).set k v

/-- `d.popitem(last=False)` -/
def popOldest (d : Dict κ ν) : Option ((κ × ν) × Dict κ ν) :=
  d.entries.head?.map fun e => (e, d.erase e.1)

omit [DecidableEq κ] in
theorem nodup_entries (d : Dict κ ν) : d.entries.Nodup := List.Nodup.of_map _ d.nodup

theorem mem_entries_erase {u : ν} : (j, u) ∈ (d.erase k).entries ↔ j ≠ k ∧ (j, u) ∈ d.entries := by
  simp [erase, and_comm]

theorem nodup_cons_erase (d : Dict κ ν) (k : κ) (v : ν) : ((k, v) :: (d.erase k).entries).Nodup :=
  List.nodup_cons.mpr ⟨fun hmem => (mem_entries_erase.mp hmem).1 rfl, nodup_entries _⟩

/-- Setting a key: the new entry and the others. -/
theorem perm_set (d : Dict κ ν) (k : κ) (v : ν) : (d.set k v).entries.Perm ((k, v) :: (d.erase k).entries) := by
  refine (List.perm_ext_iff_of_nodup (nodup_entries _) (nodup_cons_erase d k v)).mpr ?_
  rintro ⟨j, u⟩
  rw [List.mem_cons, mem_entries_erase, mem_entries_set, Prod.mk.injEq]

/-- A dictionary is one of its entries and the others. -/
theorem perm_of_get? (h : d.get? k = some v) : d.entries.Perm ((k, v) :: (d.erase k).entries) := by
  refine (List.perm_ext_iff_of_nodup (nodup_entries d) (nodup_cons_erase d k v)).mpr ?_
  rintro ⟨j, u⟩
  rw [List.mem_cons, mem_entries_erase, Prod.mk.injEq]
  by_cases hj : j = k
  · subst hj
    simp [mem_entries, h, eq_comm]
  · simp [hj]

theorem perm_modify (h : d.get? k = some v) (f : ν → ν) :
    (d.modify k f).entries.Perm ((k, f v) :: (d.erase k).entries) := by
  refine (List.perm_ext_iff_of_nodup (nodup_entries _) (nodup_cons_erase d k (f v))).mpr ?_
  rintro ⟨j, u⟩
  rw [List.mem_cons, mem_entries_erase, mem_entries, mem_entries, get?_modify, Prod.mk.injEq]
  by_cases hj : j = k
  · subst hj
    simp [h, eq_comm]
  · simp [hj]

theorem entries_erase_of_get?_none (h : d.get? k = none) : (d.erase k).entries = d.entries := by
  refine List.filter_eq_self.mpr fun e he => decide_eq_true ?_
  rintro rfl
  rw [mem_entries.mp (show (e.1, e.2) ∈ d.entries from he)] at h
  cases h

theorem perm_moveToEnd (d : Dict κ ν) (k : κ) : (d.moveToEnd k).entries.Perm d.entries := by
  unfold moveToEnd
  cases h : d.get? k with
  | none => exact List.Perm.refl _
  | some v =>
    have hagain : ((d.erase k).erase k).entries = (d.erase k).entries :=
      entries_erase_of_get?_none (by rw [get?_erase, if_pos rfl])
    have hset := perm_set (d.erase k) k v
    rw [hagain] at hset
    exact hset.trans (perm_of_get? h).symm

@[simp] theorem get?_moveToEnd : (d.moveToEnd k).get? j = d.get? j := by
  unfold moveToEnd
  cases h : d.get? k with
  | none => rfl
  | some v =>
    by_cases hj : j = k
    · subst hj
      simp [h]
    · simp [hj]

theorem length_erase_le (d : Dict κ ν) (k : κ) : (d.erase k).entries.length ≤ d.entries.length :=
  List.length_filter_le _ _

/-- With another entry before it, the one put at the end is not the oldest. -/
theorem get?_popOldest_set {e : κ × ν} {rest : Dict κ ν} (hnew : d.get? k = none)
    (hmore : d.entries ≠ []) (h : (d.set k v).popOldest = some (e, rest)) :
    rest.get? k = some v ∧ d.get? e.1 = some e.2 := by
  obtain ⟨first, others, hfirst⟩ := List.exists_cons_of_ne_nil hmore
  have hmem : (first.1, first.2) ∈ d.entries := by
    rw [hfirst]
    exact List.mem_cons_self
  have hold := mem_entries.mp hmem
  have hne : k ≠ first.1 := by
    rintro rfl
    rw [hold] at hnew
    cases hnew
  rw [popOldest, entries_set_of_not_mem (not_mem_keys.mpr hnew), hfirst] at h
  obtain ⟨rfl, rfl⟩ := Prod.mk.inj (Option.some.inj h)
  exact ⟨by simp [hne], hold⟩

theorem popOldest_eq_some {e : κ × ν} {rest : Dict κ ν} (h : d.popOldest = some (e, rest)) :
    d.get? e.1 = some e.2 ∧ rest = d.erase e.1 := by
  obtain ⟨first, hfirst, heq⟩ := Option.map_eq_some_iff.mp h
  obtain ⟨rfl, rfl⟩ := Prod.mk.inj heq
  exact ⟨mem_entries.mp (List.mem_of_mem_head? hfirst), rfl⟩

end EasyHaProxy.Dict
