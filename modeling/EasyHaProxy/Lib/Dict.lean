import Mathlib.Data.List.Induction
import Mathlib.Data.List.Nodup
import Mathlib.Data.List.Sort
import Mathlib.Tactic.Common

/-! A finite map that keeps the order its keys were first inserted in, as a list of entries with distinct
keys. Facts about a dictionary go through `get?`. -/
namespace EasyHaProxy

structure Dict (κ ν : Type) where
  entries : List (κ × ν)
  nodup : (entries.map Prod.fst).Nodup
  deriving DecidableEq

namespace Dict

variable {κ ν μ : Type} [DecidableEq κ] {d : Dict κ ν} {j k : κ} {v : ν}

def empty : Dict κ ν := ⟨[], List.nodup_nil⟩

def keys (d : Dict κ ν) : List κ := d.entries.map Prod.fst

def get? (d : Dict κ ν) (k : κ) : Option ν := d.entries.lookup k

def getD (d : Dict κ ν) (k : κ) (v : ν) : ν := (d.get? k).getD v

def contains (d : Dict κ ν) (k : κ) : Bool := (d.get? k).isSome

def replaceEntry (k : κ) (v : ν) (e : κ × ν) : κ × ν := if e.1 = k then (k, v) else e

omit [DecidableEq κ] in
theorem keys_filter_nodup (d : Dict κ ν) (p : κ × ν → Bool) :
    ((d.entries.filter p).map Prod.fst).Nodup :=
  d.nodup.sublist (List.filter_sublist.map _)

theorem replaceEntry_fst (k : κ) (v : ν) (e : κ × ν) : (replaceEntry k v e).1 = e.1 := by
  unfold replaceEntry
  split <;> simp_all

theorem keys_replace (d : Dict κ ν) (k : κ) (v : ν) :
    (d.entries.map (replaceEntry k v)).map Prod.fst = d.entries.map Prod.fst := by
  simp [replaceEntry_fst]

theorem mem_of_lookup {l : List (κ × ν)} (h : l.lookup k = some v) : (k, v) ∈ l := by
  induction l with
  | nil => simp at h
  | cons e l ih =>
    obtain ⟨a, b⟩ := e
    by_cases ha : k = a
    · subst ha
      have hb : b = v := by simpa using h
      simp [hb]
    · have hl : l.lookup k = some v := by simpa [List.lookup_cons, beq_eq_false_iff_ne.mpr ha] using h
      exact List.mem_cons_of_mem _ (ih hl)

theorem lookup_of_mem {l : List (κ × ν)} (hn : (l.map Prod.fst).Nodup) (h : (k, v) ∈ l) :
    l.lookup k = some v := by
  induction l with
  | nil => simp at h
  | cons e l ih =>
    obtain ⟨a, b⟩ := e
    simp only [List.map_cons, List.nodup_cons] at hn
    rcases List.mem_cons.mp h with he | ht
    · obtain ⟨rfl, rfl⟩ := Prod.mk.inj he
      simp
    · have hne : k ≠ a := by
        rintro rfl
        exact hn.1 (List.mem_map.mpr ⟨(k, v), ht, rfl⟩)
      simpa [List.lookup_cons, beq_eq_false_iff_ne.mpr hne] using ih hn.2 ht

/-- The entries of a dictionary are what `get?` finds. -/
theorem mem_entries : (k, v) ∈ d.entries ↔ d.get? k = some v :=
  ⟨lookup_of_mem d.nodup, mem_of_lookup⟩

theorem mem_keys : k ∈ d.keys ↔ (d.get? k).isSome := by
  constructor
  · intro h
    obtain ⟨⟨_, v⟩, he, rfl⟩ := List.mem_map.mp h
    simp [mem_entries.mp he]
  · intro h
    obtain ⟨v, hv⟩ := Option.isSome_iff_exists.mp h
    exact List.mem_map.mpr ⟨(k, v), mem_entries.mpr hv, rfl⟩

theorem not_mem_keys : k ∉ d.keys ↔ d.get? k = none := by
  simp [mem_keys]

/-- `d[k] = v`: in place when the key is there, at the end when it is not. -/
def set (d : Dict κ ν) (k : κ) (v : ν) : Dict κ ν :=
  if h : k ∈ d.keys then ⟨d.entries.map (replaceEntry k v), by rw [keys_replace]; exact d.nodup⟩
  else ⟨d.entries ++ [(k, v)], by
    rw [List.map_append]
    exact List.Nodup.append d.nodup (List.nodup_singleton k) (List.disjoint_singleton.mpr h)⟩

/-- `d.pop(k, None)`. -/
def erase (d : Dict κ ν) (k : κ) : Dict κ ν :=
  ⟨d.entries.filter (fun e => e.1 ≠ k), d.keys_filter_nodup _⟩

def filter (d : Dict κ ν) (p : κ → ν → Bool) : Dict κ ν :=
  ⟨d.entries.filter (fun e => p e.1 e.2), d.keys_filter_nodup _⟩

/-- The same keys with other values. -/
def mapValues (d : Dict κ ν) (f : κ → ν → μ) : Dict κ μ :=
  ⟨d.entries.map (fun e => (e.1, f e.1 e.2)), by simpa [Function.comp_def] using d.nodup⟩

/-- Change the value under a key, if there is one. -/
def modify (d : Dict κ ν) (k : κ) (f : ν → ν) : Dict κ ν :=
  d.mapValues (fun j v => if j = k then f v else v)

@[simp] theorem get?_empty : (empty : Dict κ ν).get? k = none := rfl

theorem mem_entries_set {u : ν} :
    (j, u) ∈ (d.set k v).entries ↔ (j = k ∧ u = v) ∨ (j ≠ k ∧ (j, u) ∈ d.entries) := by
  unfold set
  split
  · rename_i hk
    simp only [List.mem_map, Prod.exists]
    constructor
    · rintro ⟨a, b, he, hr⟩
      unfold replaceEntry at hr
      split at hr
      · simp_all
      · rename_i hne
        obtain ⟨rfl, rfl⟩ := Prod.mk.inj hr
        exact Or.inr ⟨hne, he⟩
    · rintro (⟨rfl, rfl⟩ | ⟨hne, he⟩)
      · obtain ⟨b, hb⟩ := Option.isSome_iff_exists.mp (mem_keys.mp hk)
        exact ⟨j, b, mem_entries.mpr hb, by simp [replaceEntry]⟩
      · exact ⟨j, u, he, by simp [replaceEntry, hne]⟩
  · rename_i hk
    simp only [List.mem_append, List.mem_singleton, Prod.mk.injEq]
    constructor
    · rintro (he | he)
      · refine Or.inr ⟨?_, he⟩
        rintro rfl
        exact hk (List.mem_map.mpr ⟨_, he, rfl⟩)
      · exact Or.inl he
    · rintro (he | he)
      · exact Or.inr he
      · exact Or.inl he.2

@[simp] theorem get?_set : (d.set k v).get? j = if j = k then some v else d.get? j := by
  apply Option.ext
  intro u
  rw [← mem_entries, mem_entries_set]
  by_cases h : j = k <;> simp [h, mem_entries, eq_comm]

@[simp] theorem get?_erase : (d.erase k).get? j = if j = k then none else d.get? j := by
  apply Option.ext
  intro u
  rw [← mem_entries]
  by_cases h : j = k <;> simp [erase, h, mem_entries]

@[simp] theorem get?_filter (p : κ → ν → Bool) :
    (d.filter p).get? k = (d.get? k).filter (p k) := by
  apply Option.ext
  intro u
  rw [← mem_entries]
  simp [filter, mem_entries, Option.filter_eq_some_iff]

@[simp] theorem get?_mapValues (f : κ → ν → μ) :
    (d.mapValues f).get? k = (d.get? k).map (f k) := by
  apply Option.ext
  intro u
  rw [← mem_entries]
  constructor
  · intro h
    obtain ⟨⟨a, b⟩, he, hr⟩ := List.mem_map.mp h
    obtain ⟨rfl, rfl⟩ := Prod.mk.inj hr
    simp [mem_entries.mp he]
  · intro h
    obtain ⟨b, hb, rfl⟩ := Option.map_eq_some_iff.mp h
    exact List.mem_map.mpr ⟨(k, b), mem_entries.mpr hb, rfl⟩

@[simp] theorem get?_modify (f : ν → ν) :
    (d.modify k f).get? j = if j = k then (d.get? j).map f else d.get? j := by
  unfold modify
  rw [get?_mapValues]
  by_cases h : j = k <;> simp [h]

theorem getD_eq_of_get? (h : d.get? k = some v) (u : ν) : d.getD k u = v := by
  simp [getD, h]

theorem contains_iff : d.contains k = true ↔ ∃ v, d.get? k = some v := by
  simp [contains, Option.isSome_iff_exists]

theorem contains_eq_false : d.contains k = false ↔ d.get? k = none := by
  simp [contains]

/-! ## Dictionaries built pair by pair -/

/-- `{k: v for k, v in pairs}`. -/
def ofPairs (pairs : List (κ × ν)) : Dict κ ν := pairs.foldl (fun d e => d.set e.1 e.2) empty

theorem length_set_le : (d.set k v).entries.length ≤ d.entries.length + 1 := by
  unfold set
  split <;> simp

theorem mem_foldl_set {pairs : List (κ × ν)} {e : κ × ν}
    (h : e ∈ (pairs.foldl (fun d e => d.set e.1 e.2) d).entries) : e ∈ d.entries ∨ e ∈ pairs := by
  induction pairs generalizing d with
  | nil => exact Or.inl h
  | cons a pairs ih =>
    rcases ih h with h | h
    · rcases mem_entries_set.mp h with ⟨h1, h2⟩ | h
      · exact Or.inr (List.mem_cons.mpr (Or.inl (Prod.ext h1 h2)))
      · exact Or.inl h.2
    · exact Or.inr (List.mem_cons_of_mem a h)

theorem mem_of_mem_ofPairs {pairs : List (κ × ν)} {e : κ × ν} (h : e ∈ (ofPairs pairs).entries) :
    e ∈ pairs := by
  rcases mem_foldl_set h with h | h
  · simp [empty] at h
  · exact h

theorem mem_keys_ofPairs {pairs : List (κ × ν)} : k ∈ (ofPairs pairs).keys ↔ k ∈ pairs.map Prod.fst := by
  induction pairs using List.reverseRecOn with
  | nil => simp [ofPairs, empty, keys]
  | append_singleton pairs last ih =>
    have hset : ofPairs (pairs ++ [last]) = (ofPairs pairs).set last.1 last.2 := by
      simp [ofPairs]
    rw [mem_keys] at ih
    rw [hset, mem_keys, get?_set, List.map_append, List.mem_append, ← ih]
    by_cases hk : k = last.1 <;> simp [hk]

theorem length_foldl_set_le (pairs : List (κ × ν)) :
    (pairs.foldl (fun d e => d.set e.1 e.2) d).entries.length ≤ d.entries.length + pairs.length := by
  induction pairs generalizing d with
  | nil => rfl
  | cons a pairs ih =>
    have h1 := ih (d := d.set a.1 a.2)
    have h2 := length_set_le (d := d) (k := a.1) (v := a.2)
    simp only [List.foldl_cons, List.length_cons]
    omega

theorem length_ofPairs_le (pairs : List (κ × ν)) : (ofPairs pairs).entries.length ≤ pairs.length := by
  simpa [ofPairs, empty] using length_foldl_set_le (d := empty) pairs

theorem entries_set_of_not_mem (h : k ∉ d.keys) : (d.set k v).entries = d.entries ++ [(k, v)] := by
  unfold set
  rw [dif_neg h]

theorem entries_foldl_set {pairs : List (κ × ν)}
    (hn : ((d.entries ++ pairs).map Prod.fst).Nodup) :
    (pairs.foldl (fun d e => d.set e.1 e.2) d).entries = d.entries ++ pairs := by
  induction pairs generalizing d with
  | nil => simp
  | cons a pairs ih =>
    have hnew : a.1 ∉ d.keys := by
      intro ha
      rw [List.map_append, List.map_cons] at hn
      exact List.disjoint_of_nodup_append hn ha List.mem_cons_self
    have hset : (d.set a.1 a.2).entries = d.entries ++ [a] := entries_set_of_not_mem hnew
    rw [List.foldl_cons, ih (by rwa [hset, List.append_assoc]), hset, List.append_assoc]
    rfl

theorem ofPairs_entries (d : Dict κ ν) : ofPairs d.entries = d := by
  cases d with
  | mk entries nodup =>
    have he : (ofPairs entries).entries = entries := by
      rw [ofPairs, entries_foldl_set (by simpa [empty] using nodup)]
      rfl
    cases ho : ofPairs entries
    rw [ho] at he
    subst he
    rfl

end Dict

end EasyHaProxy
