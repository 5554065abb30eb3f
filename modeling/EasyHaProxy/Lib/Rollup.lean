import EasyHaProxy.Lib.Table

/-! Fine rows are keyed by a time and an object and summarised into coarse rows, one for each object and
slot of a fixed length, in passes that move a watermark forward. -/
namespace EasyHaProxy.Rollup

variable {ν ω : Type} [DecidableEq ω] {period : Nat} {summary : List ν → ν}
  {fine coarse ever : Dict (Nat × ω) ν} {watermark before slot time : Nat} {dropped cutoff : Int}
  {key : Nat × ω} {o : ω} {v : ν}

def slotOf (period time : Nat) : Nat := time - time % period

def slotKey (period : Nat) (key : Nat × ω) : Nat × ω := (slotOf period key.1, key.2)

/-- The fine rows with `since ≤ time < before`. -/
def between (t : Dict (Nat × ω) ν) (since before : Nat) : List ((Nat × ω) × ν) :=
  t.entries.filter (fun r => since ≤ r.1.1 && r.1.1 < before)

/-- What the coarse row of an object and slot is when the fine rows are these. -/
def summarised (period : Nat) (summary : List ν → ν) (t : Dict (Nat × ω) ν) (key : Nat × ω) : Option ν :=
  match Table.groupRows (slotKey period) t.entries key with
  | [] => none
  | rows => some (summary rows)

structure Exact (period : Nat) (summary : List ν → ν) (fine coarse ever : Dict (Nat × ω) ν)
    (watermark : Nat) (dropped : Int) : Prop where
  aligned : watermark % period = 0
  /-- What is not rolled up yet is all there. -/
  pending : fine.entries.filter (fun r => decide (watermark ≤ r.1.1)) =
    ever.entries.filter (fun r => decide (watermark ≤ r.1.1))
  dropped_le : dropped ≤ watermark
  rolled : ∀ slot o, slot < watermark → coarse.get? (slot, o) =
    if (slot : Int) < dropped then none else summarised period summary ever (slot, o)
  ahead : ∀ slot o, watermark ≤ slot → coarse.get? (slot, o) = none

theorem slotOf_le (period time : Nat) : slotOf period time ≤ time := Nat.sub_le _ _

theorem le_slotOf (ha : watermark % period = 0) (h : watermark ≤ time) : watermark ≤ slotOf period time := by
  unfold slotOf
  have hmono : watermark / period ≤ time / period := Nat.div_le_div_right h
  have hw := Nat.div_add_mod watermark period
  have ht := Nat.div_add_mod time period
  have hmul : period * (watermark / period) ≤ period * (time / period) := Nat.mul_le_mul_left _ hmono
  omega

theorem lt_of_slotOf_lt (ha : before % period = 0) (h : slotOf period time < before) : time < before := by
  by_contra hb
  exact absurd (le_slotOf ha (Nat.le_of_not_lt hb)) (Nat.not_le.mpr h)

theorem slotOf_mod : slotOf period time % period = 0 := by
  unfold slotOf
  have h := Nat.div_add_mod time period
  rw [show time - time % period = period * (time / period) by omega]
  exact Nat.mul_mod_right _ _

theorem empty (hp : watermark % period = 0) :
    Exact period summary (.empty : Dict (Nat × ω) ν) .empty .empty watermark 0 where
  aligned := hp
  pending := rfl
  dropped_le := Int.natCast_nonneg _
  rolled _ _ _ := by
    split <;> rfl
  ahead _ _ _ := rfl

namespace Exact

variable (h : Exact period summary fine coarse ever watermark dropped)
include h

theorem write (hk : watermark ≤ key.1) :
    Exact period summary (fine.set key v) coarse (ever.set key v) watermark dropped where
  aligned := h.aligned
  pending := Table.filter_set_congr (p := fun k : Nat × ω => decide (watermark ≤ k.1)) h.pending
  dropped_le := h.dropped_le
  rolled slot o hs := by
    rw [h.rolled slot o hs]
    -- the slot the row falls into is ahead of the watermark too
    have hslot : decide (slotKey period key = (slot, o)) = false := by
      rw [decide_eq_false_iff_not]
      intro he
      have := le_slotOf h.aligned hk
      have : slotOf period key.1 = slot := congrArg Prod.fst he
      omega
    have hrows : Table.groupRows (slotKey period) (ever.set key v).entries (slot, o) =
        Table.groupRows (slotKey period) ever.entries (slot, o) :=
      congrArg (List.map Prod.snd)
        (Table.filter_set_of_neg (p := fun k => decide (slotKey period k = (slot, o))) hslot)
    simp only [summarised, hrows]
  ahead := h.ahead

theorem writeAll {rows : List ((Nat × ω) × ν)} (hk : ∀ r ∈ rows, watermark ≤ r.1.1) :
    Exact period summary (Table.writeAll fine rows) coarse (Table.writeAll ever rows) watermark dropped := by
  induction rows generalizing fine ever with
  | nil => exact h
  | cons r rows ih =>
    exact ih (h.write (hk r List.mem_cons_self)) (fun r hr => hk r (List.mem_cons_of_mem _ hr))

/-- Behind the watermark a pass finds nothing to summarise. -/
theorem groupRows_behind (hs : slot < watermark) :
    Table.groupRows (slotKey period) (between fine watermark before) (slot, o) = [] := by
  rw [Table.groupRows_eq_nil, List.mem_map]
  rintro ⟨r, hr, he⟩
  have hb := (List.mem_filter.mp hr).2
  simp only [Bool.and_eq_true, decide_eq_true_eq] at hb
  have := le_slotOf h.aligned hb.1
  have : slotOf period r.1.1 = slot := congrArg Prod.fst he
  omega

theorem groupRows_ahead (hb : before % period = 0) (hs : watermark ≤ slot) (hslot : slot < before) :
    Table.groupRows (slotKey period) (between fine watermark before) (slot, o) =
      Table.groupRows (slotKey period) ever.entries (slot, o) := by
  have hin : ∀ r : (Nat × ω) × ν, slotKey period r.1 = (slot, o) → watermark ≤ r.1.1 ∧ r.1.1 < before := by
    intro r he
    have he : slotOf period r.1.1 = slot := congrArg Prod.fst he
    have := slotOf_le period r.1.1
    exact ⟨by omega, lt_of_slotOf_lt hb (by omega)⟩
  have hwindow : ∀ t : Dict (Nat × ω) ν,
      t.entries.filter (fun r => decide (slotKey period r.1 = (slot, o))) =
        (t.entries.filter (fun r => decide (watermark ≤ r.1.1))).filter
          (fun r => decide (slotKey period r.1 = (slot, o))) := by
    intro t
    rw [List.filter_filter]
    apply List.filter_congr
    intro r _
    rw [Bool.eq_iff_iff]
    simp only [Bool.and_eq_true, decide_eq_true_eq]
    exact ⟨fun he => ⟨he, (hin r he).1⟩, fun he => he.1⟩
  unfold Table.groupRows between
  congr 1
  rw [hwindow ever, ← h.pending, ← hwindow fine, List.filter_filter]
  apply List.filter_congr
  intro r _
  rw [Bool.eq_iff_iff]
  simp only [Bool.and_eq_true, decide_eq_true_eq]
  exact ⟨fun he => he.1, fun he => ⟨he, hin r he⟩⟩

/-- A pass that moves the watermark to `before`. -/
theorem roll (hb : before % period = 0) (hle : watermark ≤ before) :
    Exact period summary fine
      (Table.replaceGroups (slotKey period) summary (between fine watermark before) coarse) ever before
      dropped where
  aligned := hb
  pending := by
    have hlater : ∀ t : Dict (Nat × ω) ν, t.entries.filter (fun r => decide (before ≤ r.1.1)) =
        (t.entries.filter (fun r => decide (watermark ≤ r.1.1))).filter
          (fun r => decide (before ≤ r.1.1)) := by
      intro t
      rw [List.filter_filter]
      apply List.filter_congr
      intro r _
      rw [Bool.eq_iff_iff]
      simp only [Bool.and_eq_true, decide_eq_true_eq]
      exact ⟨fun hr => ⟨hr, by omega⟩, fun hr => hr.1⟩
    rw [hlater fine, h.pending, ← hlater ever]
  dropped_le := by
    have := h.dropped_le
    omega
  rolled slot o hs := by
    rw [Table.get?_replaceGroups]
    by_cases hslot : slot < watermark
    · rw [if_pos (h.groupRows_behind hslot), h.rolled slot o hslot]
    · have hd := h.dropped_le
      rw [h.groupRows_ahead hb (Nat.le_of_not_lt hslot) hs, if_neg (show ¬ (slot : Int) < dropped by omega)]
      unfold summarised
      split
      · rename_i hrows
        rw [hrows, h.ahead slot o (Nat.le_of_not_lt hslot)]
      · rename_i hrows
        cases hg : Table.groupRows (slotKey period) ever.entries (slot, o) with
        | nil => exact absurd hg hrows
        | cons a rows => rfl
  ahead slot o hs := by
    have hnone : Table.groupRows (slotKey period) (between fine watermark before) (slot, o) = [] := by
      rw [Table.groupRows_eq_nil, List.mem_map]
      rintro ⟨r, hr, he⟩
      have hw := (List.mem_filter.mp hr).2
      simp only [Bool.and_eq_true, decide_eq_true_eq] at hw
      have := slotOf_le period r.1.1
      have : slotOf period r.1.1 = slot := congrArg Prod.fst he
      omega
    rw [Table.get?_replaceGroups, if_pos hnone, h.ahead slot o (by omega)]

/-- Fine rows behind the watermark may go. -/
theorem trimFine {p : Nat × ω → ν → Bool}
    (hp : ∀ k v, fine.get? k = some v → watermark ≤ k.1 → p k v = true) :
    Exact period summary (fine.filter p) coarse ever watermark dropped where
  aligned := h.aligned
  pending := by
    rw [← h.pending, Dict.filter, List.filter_filter]
    apply List.filter_congr
    intro r hr
    rw [Bool.eq_iff_iff]
    simp only [Bool.and_eq_true, decide_eq_true_eq]
    exact ⟨fun hw => hw.1, fun hw => ⟨hw, hp _ _ (Dict.mem_entries.mp hr) hw⟩⟩
  dropped_le := h.dropped_le
  rolled := h.rolled
  ahead := h.ahead

/-- Coarse rows age out as a whole. -/
theorem trimCoarse (cutoff : Int) : Exact period summary fine
    (coarse.filter fun k _ => !((k.1 : Int) < cutoff)) ever watermark (max dropped (min cutoff watermark)) where
  aligned := h.aligned
  pending := h.pending
  dropped_le := max_le h.dropped_le (min_le_right _ _)
  rolled slot o hs := by
    have hcut : (slot : Int) < max dropped (min cutoff watermark) ↔ (slot : Int) < dropped ∨ (slot : Int) < cutoff := by
      omega
    simp only [Dict.get?_filter, h.rolled slot o hs, hcut]
    by_cases hd : (slot : Int) < dropped
    · simp [hd]
    · by_cases hc : (slot : Int) < cutoff
      · cases summarised period summary ever (slot, o) <;> simp [hd, hc]
      · cases summarised period summary ever (slot, o) <;> simp [hd, hc]
  ahead slot o hs := by
    rw [Dict.get?_filter, h.ahead slot o hs, Option.filter_none]

end Exact

end EasyHaProxy.Rollup
