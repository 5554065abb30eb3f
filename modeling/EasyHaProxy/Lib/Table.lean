import EasyHaProxy.Lib.Dict
import Mathlib.Algebra.BigOperators.Group.List.Basic
import Mathlib.Data.List.Dedup
import Mathlib.Algebra.Ring.Int.Defs

/-! A table with a primary key is a dictionary of its rows. A dictionary written row by row is `INSERT OR
REPLACE`; what a write does to a total, and to a grouped summary of the rows. -/
namespace EasyHaProxy.Table

variable {κ μ ν : Type} [DecidableEq κ] [DecidableEq μ] {d e : Dict κ ν} {k j : κ} {v : ν}

/-- `INSERT OR REPLACE` of several rows, one after another. -/
def writeAll (d : Dict κ ν) (rows : List (κ × ν)) : Dict κ ν :=
  rows.foldl (fun d r => d.set r.1 r.2) d

@[simp] theorem writeAll_nil : writeAll d [] = d := rfl

@[simp] theorem writeAll_cons {r : κ × ν} {rows : List (κ × ν)} :
    writeAll d (r :: rows) = writeAll (d.set r.1 r.2) rows := rfl

theorem writeAll_append {rows more : List (κ × ν)} :
    writeAll d (rows ++ more) = writeAll (writeAll d rows) more := List.foldl_append

theorem get?_writeAll_of_not_mem {rows : List (κ × ν)} (h : j ∉ rows.map Prod.fst) :
    (writeAll d rows).get? j = d.get? j := by
  induction rows generalizing d with
  | nil => rfl
  | cons r rows ih =>
    simp only [List.map_cons, List.mem_cons, not_or] at h
    rw [writeAll_cons, ih h.2, Dict.get?_set, if_neg h.1]

/-- Of rows with distinct keys each is found where it was written. -/
theorem get?_writeAll_of_mem {rows : List (κ × ν)} (hn : (rows.map Prod.fst).Nodup)
    (h : (k, v) ∈ rows) : (writeAll d rows).get? k = some v := by
  induction rows generalizing d with
  | nil => simp at h
  | cons r rows ih =>
    simp only [List.map_cons, List.nodup_cons] at hn
    rw [writeAll_cons]
    rcases List.mem_cons.mp h with rfl | ht
    · rw [get?_writeAll_of_not_mem hn.1, Dict.get?_set, if_pos rfl]
    · exact ih hn.2 ht

/-! ## Totals -/

def total (f : κ → ν → Int) (d : Dict κ ν) : Int := (d.entries.map fun e => f e.1 e.2).sum

/-- What the row of a key adds to a total. -/
def share (f : κ → ν → Int) (d : Dict κ ν) (k : κ) : Int := ((d.get? k).map (f k)).getD 0

variable {f : κ → ν → Int}

theorem sum_replaceEntry {l : List (κ × ν)} (hn : (l.map Prod.fst).Nodup) (hk : k ∈ l.map Prod.fst) :
    ((l.map (Dict.replaceEntry k v)).map fun e => f e.1 e.2).sum +
      ((l.lookup k).map (f k)).getD 0 = (l.map fun e => f e.1 e.2).sum + f k v := by
  induction l with
  | nil => simp at hk
  | cons a l ih =>
    obtain ⟨a, b⟩ := a
    simp only [List.map_cons, List.nodup_cons, List.mem_cons] at hn hk ⊢
    by_cases ha : k = a
    · subst ha
      -- the other rows have other keys
      have hrest : l.map (Dict.replaceEntry k v) = l := by
        rw [List.map_congr_left, List.map_id]
        intro e he
        have hne : e.1 ≠ k := fun h => hn.1 (List.mem_map.mpr ⟨e, he, h⟩)
        simp [Dict.replaceEntry, hne]
      simp only [hrest, Dict.replaceEntry, if_true, List.sum_cons, List.lookup_cons_self,
        Option.map_some, Option.getD_some]
      omega
    · have hl := ih hn.2 (hk.resolve_left ha)
      have hlookup : List.lookup k ((a, b) :: l) = l.lookup k := by
        simp [List.lookup_cons, beq_eq_false_iff_ne.mpr ha]
      rw [hlookup]
      simp only [List.map_map] at hl
      simp only [Dict.replaceEntry, Ne.symm ha, if_false, List.sum_cons, List.map_map]
      omega

/-- A write changes a total by the row it writes less the row it replaces. -/
theorem total_set : total f (d.set k v) + share f d k = total f d + f k v := by
  unfold total share
  by_cases hk : k ∈ d.keys
  · rw [Dict.set, dif_pos hk]
    exact sum_replaceEntry d.nodup hk
  · rw [Dict.set, dif_neg hk, Dict.not_mem_keys.mp hk]
    simp

/-- Rows that do not count leave a total alone. -/
theorem total_writeAll_of_zero {rows : List (κ × ν)} (h : ∀ r ∈ rows, ∀ v, f r.1 v = 0) :
    total f (writeAll d rows) = total f d := by
  induction rows generalizing d with
  | nil => rfl
  | cons r rows ih =>
    have hzero := h r List.mem_cons_self
    have hset := total_set (f := f) (d := d) (k := r.1) (v := r.2)
    have hshare : share f d r.1 = 0 := by
      unfold share
      cases d.get? r.1 <;> simp [hzero]
    rw [writeAll_cons, ih fun r hr => h r (List.mem_cons_of_mem _ hr)]
    have := hzero r.2
    omega

/-- Among rows of which one counts, the total changes by that one. -/
theorem total_writeAll_of_one {rows : List (κ × ν)} (hn : (rows.map Prod.fst).Nodup)
    (hmem : (k, v) ∈ rows) (h : ∀ r ∈ rows, r.1 ≠ k → ∀ v, f r.1 v = 0) :
    total f (writeAll d rows) + share f d k = total f d + f k v := by
  obtain ⟨before, after, rfl⟩ := List.append_of_mem hmem
  simp only [List.map_append, List.map_cons, List.nodup_append, List.nodup_cons] at hn
  have hbefore : k ∉ before.map Prod.fst := fun hk => hn.2.2 k hk k List.mem_cons_self rfl
  have hafter : k ∉ after.map Prod.fst := hn.2.1.1
  have hzero : ∀ rest : List (κ × ν), k ∉ rest.map Prod.fst →
      (∀ r ∈ rest, r ∈ before ++ (k, v) :: after) → ∀ r ∈ rest, ∀ v, f r.1 v = 0 := by
    intro rest hk hsub r hr
    refine h r (hsub r hr) fun he => hk ?_
    exact he ▸ List.mem_map_of_mem hr
  have hzeroBefore := hzero before hbefore fun r hr => List.mem_append_left _ hr
  have hzeroAfter := hzero after hafter fun r hr => List.mem_append_right _ (List.mem_cons_of_mem _ hr)
  rw [writeAll_append, writeAll_cons, total_writeAll_of_zero hzeroAfter,
    ← total_writeAll_of_zero (d := d) hzeroBefore, ← total_set]
  unfold share
  rw [get?_writeAll_of_not_mem hbefore]

/-! ## The part of a table from some key on -/

theorem filter_set_of_neg {p : κ → Bool} (hk : p k = false) :
    (d.set k v).entries.filter (fun e => p e.1) = d.entries.filter (fun e => p e.1) := by
  unfold Dict.set
  split
  · simp only
    rw [List.filter_map]
    have hp : (fun e => p e.1) ∘ Dict.replaceEntry k v = fun e : κ × ν => p e.1 := by
      funext e
      simp [Dict.replaceEntry_fst]
    rw [hp, List.map_congr_left, List.map_id]
    intro e he
    have hne : e.1 ≠ k := by
      rintro rfl
      simp [hk] at he
    simp [Dict.replaceEntry, hne]
  · simp [hk]

omit [DecidableEq κ] in
theorem keys_filter {p : κ → Bool} :
    (d.entries.filter (fun e => p e.1)).map Prod.fst = d.keys.filter p := by
  rw [Dict.keys, List.filter_map]
  rfl

/-- Two tables that agree on a part agree on it after the same write. -/
theorem filter_set_congr {p : κ → Bool}
    (h : d.entries.filter (fun r => p r.1) = e.entries.filter (fun r => p r.1)) :
    (d.set k v).entries.filter (fun r => p r.1) = (e.set k v).entries.filter (fun r => p r.1) := by
  cases hk : p k with
  | false => rw [filter_set_of_neg hk, filter_set_of_neg hk, h]
  | true =>
    have hmem : k ∈ d.keys ↔ k ∈ e.keys := by
      have hd : k ∈ d.keys ↔ k ∈ d.keys.filter p := by simp [hk]
      have he : k ∈ e.keys ↔ k ∈ e.keys.filter p := by simp [hk]
      rw [hd, he, ← keys_filter, ← keys_filter, h]
    have hp : (fun r => p r.1) ∘ Dict.replaceEntry k v = fun r : κ × ν => p r.1 := by
      funext r
      simp [Dict.replaceEntry_fst]
    unfold Dict.set
    by_cases hd : k ∈ d.keys
    · rw [dif_pos hd, dif_pos (hmem.mp hd)]
      simp only [List.filter_map, hp, h]
    · rw [dif_neg hd, dif_neg (mt hmem.mpr hd)]
      simp [hk, h]

/-! ## Summaries by group -/

def groupRows (g : κ → μ) (rows : List (κ × ν)) (m : μ) : List ν :=
  (rows.filter (fun r => g r.1 = m)).map Prod.snd

/-- `INSERT OR REPLACE … SELECT … GROUP BY`: one summary for every group there is. -/
def replaceGroups (g : κ → μ) (summary : List ν → ν) (rows : List (κ × ν)) (d : Dict μ ν) :
    Dict μ ν :=
  writeAll d ((rows.map (fun r => g r.1)).dedup.map (fun m => (m, summary (groupRows g rows m))))

variable {g : κ → μ} {summary : List ν → ν} {rows : List (κ × ν)} {t : Dict μ ν} {m : μ}

omit [DecidableEq κ] in
theorem groupRows_eq_nil : groupRows g rows m = [] ↔ m ∉ rows.map (fun r => g r.1) := by
  simp only [groupRows, List.map_eq_nil_iff, List.filter_eq_nil_iff, List.mem_map, not_exists, not_and,
    decide_eq_true_eq]

omit [DecidableEq κ] in
theorem get?_replaceGroups : (replaceGroups g summary rows t).get? m =
    if groupRows g rows m = [] then t.get? m else some (summary (groupRows g rows m)) := by
  unfold replaceGroups
  split
  · rename_i h
    apply get?_writeAll_of_not_mem
    rw [groupRows_eq_nil] at h
    simpa [Function.comp_def] using h
  · rename_i h
    apply get?_writeAll_of_mem
    · simpa [Function.comp_def] using List.nodup_dedup _
    · rw [groupRows_eq_nil, not_not] at h
      exact List.mem_map.mpr ⟨m, List.mem_dedup.mpr h, rfl⟩

end EasyHaProxy.Table
