import Mathlib.Algebra.Order.Group.MinMax
import Mathlib.Algebra.BigOperators.Group.Finset.Basic
import Mathlib.Algebra.BigOperators.Group.List.Basic
import Mathlib.Algebra.Order.BigOperators.Group.Finset
import Mathlib.Algebra.Order.BigOperators.Group.List
import Mathlib.Data.List.Forall2
import Mathlib.Tactic.Abel

/-! Charges arrive one by one, each for a key, and each gets what its ceiling leaves above what its key has
got so far. The ceilings of one key need not agree. -/
namespace EasyHaProxy.Capped

structure Charge (κ α : Type) where
  key : κ
  points : α
  ceiling : α

variable {κ α : Type}

/-- No charge is negative. -/
def Sound [Zero α] [LE α] (cs : List (Charge κ α)) : Prop := ∀ c ∈ cs, 0 ≤ c.points

def Weaker [LE α] (a b : Charge κ α) : Prop := a.key = b.key ∧ a.ceiling = b.ceiling ∧ a.points ≤ b.points

theorem Weaker.rfl [Preorder α] {c : Charge κ α} : Weaker c c := ⟨Eq.refl _, Eq.refl _, le_refl _⟩

theorem sound_cons [Zero α] [LE α] {c : Charge κ α} {cs : List (Charge κ α)} :
    Sound (c :: cs) ↔ 0 ≤ c.points ∧ Sound cs := List.forall_mem_cons

variable [AddCommGroup α] [LinearOrder α]

/-- What a charge gets when its key has got `used`. -/
def Charge.grant (c : Charge κ α) (used : α) : α := min c.points (max 0 (c.ceiling - used))

theorem grant_nonneg {c : Charge κ α} (used : α) (hc : 0 ≤ c.points) : 0 ≤ c.grant used :=
  le_min hc (le_max_left _ _)

/-- A charge fills up to its ceiling and takes nothing away. -/
theorem add_grant [IsOrderedAddMonoid α] {c : Charge κ α} (used : α) (hc : 0 ≤ c.points) :
    used + c.grant used = max used (min (used + c.points) c.ceiling) := by
  unfold Charge.grant
  rw [← min_add_add_left, ← max_add_add_left, add_zero, add_sub_cancel]
  obtain h | h := le_total used c.ceiling
  · rw [max_eq_right h, max_eq_right]
    exact le_min (le_add_of_nonneg_right hc) h
  · rw [max_eq_left h, min_eq_right (le_add_of_nonneg_right hc)]
    exact (max_eq_left ((min_le_right _ _).trans h)).symm

variable [DecidableEq κ]

/-- What the key `k` has got after one more charge. -/
def spend (k : κ) (used : α) (c : Charge κ α) : α := if c.key = k then used + c.grant used else used

def spent (k : κ) (used : α) (cs : List (Charge κ α)) : α := cs.foldl (spend k) used

/-- All that was granted, and what each key has got of it. -/
structure Ledger (κ α : Type) where
  total : α
  used : κ → α

def Ledger.charge (l : Ledger κ α) (c : Charge κ α) : Ledger κ α where
  total := l.total + c.grant (l.used c.key)
  used := Function.update l.used c.key (l.used c.key + c.grant (l.used c.key))

def Ledger.empty : Ledger κ α := ⟨0, fun _ => 0⟩

variable {k : κ} {c d : Charge κ α} {cs ds : List (Charge κ α)} {used used' ceiling : α} {l : Ledger κ α}

theorem spent_cons : spent k used (c :: cs) = spent k (spend k used c) cs := rfl

/-! ## One key -/

theorem used_charge : (l.charge c).used k = spend k (l.used k) c := by
  by_cases h : c.key = k
  · subst h
    simp [Ledger.charge, spend]
  · simp [Ledger.charge, spend, h, Ne.symm h]

theorem used_charges : (cs.foldl Ledger.charge l).used k = spent k (l.used k) cs := by
  induction cs generalizing l with
  | nil => rfl
  | cons c cs ih => rw [List.foldl_cons, ih, used_charge, spent_cons]

variable [IsOrderedAddMonoid α]

theorem le_spend (hc : 0 ≤ c.points) : used ≤ spend k used c := by
  unfold spend
  split
  · exact le_add_of_nonneg_right (grant_nonneg used hc)
  · exact le_refl used

theorem spend_mono (hc : 0 ≤ c.points) (hw : Weaker c d) (hu : used ≤ used') :
    spend k used c ≤ spend k used' d := by
  obtain ⟨hkey, hceiling, hpoints⟩ := hw
  unfold spend
  rw [hkey]
  split
  · rw [add_grant _ hc, add_grant _ (hc.trans hpoints), hceiling]
    exact max_le_max hu (min_le_min (add_le_add hu hpoints) (le_refl _))
  · exact hu

/-- Fewer points for each charge, no more for the key. -/
theorem spent_le_of_weaker (h : List.Forall₂ Weaker cs ds) (hs : Sound cs) (hu : used ≤ used') :
    spent k used cs ≤ spent k used' ds := by
  induction h generalizing used used' with
  | nil => exact hu
  | cons hw _ ih =>
    obtain ⟨hc, hs⟩ := sound_cons.mp hs
    exact ih hs (spend_mono hc hw hu)

/-- Fewer charges, no more for the key. -/
theorem spent_le_of_sublist (h : cs.Sublist ds) (hs : Sound ds) (hu : used ≤ used') :
    spent k used cs ≤ spent k used' ds := by
  induction h generalizing used used' with
  | slnil => exact hu
  | cons d _ ih =>
    obtain ⟨hd, hs⟩ := sound_cons.mp hs
    exact ih hs (hu.trans (le_spend hd))
  | cons_cons d _ ih =>
    obtain ⟨hd, hs⟩ := sound_cons.mp hs
    exact ih hs (spend_mono hd Weaker.rfl hu)

omit [IsOrderedAddMonoid α] in
theorem spend_of_points_eq_zero (hc : c.points = 0) : spend k used c = used := by
  unfold spend
  split
  · rw [Charge.grant, hc, min_eq_left (le_max_left _ _), add_zero]
  · rfl

/-- The charges of a key that agree on the ceiling fill up to it. -/
theorem spent_eq_min (hs : Sound cs) (hone : ∀ c ∈ cs, c.key = k → c.points ≠ 0 → c.ceiling = ceiling)
    (hu : used ≤ ceiling) :
    spent k used cs = min (used + ((cs.filter (·.key = k)).map (·.points)).sum) ceiling := by
  induction cs generalizing used with
  | nil => simp [spent, hu]
  | cons c cs ih =>
    obtain ⟨hc, hs⟩ := sound_cons.mp hs
    have hone' : ∀ d ∈ cs, d.key = k → d.points ≠ 0 → d.ceiling = ceiling :=
      fun d hd => hone d (List.mem_cons_of_mem c hd)
    rw [spent_cons]
    by_cases hk : c.key = k
    · rw [List.filter_cons_of_pos (by simpa using hk), List.map_cons, List.sum_cons]
      by_cases hz : c.points = 0
      · rw [spend_of_points_eq_zero hz, ih hs hone' hu, hz, zero_add]
      · have hspend : spend k used c = min (used + c.points) ceiling := by
          rw [spend, if_pos hk, add_grant _ hc, hone c List.mem_cons_self hk hz]
          exact max_eq_right (le_min (le_add_of_nonneg_right hc) hu)
        have hsum : 0 ≤ ((cs.filter (·.key = k)).map (·.points)).sum := by
          apply List.sum_nonneg
          intro p hp
          obtain ⟨d, hd, rfl⟩ := List.mem_map.mp hp
          exact hs d (List.mem_filter.mp hd).1
        rw [ih hs hone' (hspend ▸ min_le_right _ _), hspend, ← add_assoc, ← min_add_add_right, min_assoc,
          min_eq_right (le_add_of_nonneg_right hsum)]
    · rw [spend, if_neg hk, List.filter_cons_of_neg (by simpa using hk)]
      exact ih hs hone' hu

/-! ## All keys -/

omit [IsOrderedAddMonoid α] in
theorem total_charge (s : Finset κ) (hc : c.key ∈ s) :
    (l.charge c).total - ∑ k ∈ s, (l.charge c).used k = l.total - ∑ k ∈ s, l.used k := by
  have hsum : ∑ k ∈ s, (l.charge c).used k = ∑ k ∈ s, l.used k + c.grant (l.used c.key) := by
    have hrest : ∑ k ∈ s.erase c.key, (l.charge c).used k = ∑ k ∈ s.erase c.key, l.used k :=
      Finset.sum_congr (Eq.refl _) fun k hk => Function.update_of_ne (Finset.ne_of_mem_erase hk) _ _
    rw [← Finset.add_sum_erase s _ hc, ← Finset.add_sum_erase s l.used hc, hrest]
    simp only [Ledger.charge, Function.update_self]
    abel
  rw [hsum]
  simp only [Ledger.charge]
  abel

omit [IsOrderedAddMonoid α] in
/-- What was granted in all is what the keys have got. -/
theorem total_charges (s : Finset κ) (hs : ∀ c ∈ cs, c.key ∈ s) :
    (cs.foldl Ledger.charge .empty).total = ∑ k ∈ s, spent k 0 cs := by
  have key : ∀ l : Ledger κ α, (cs.foldl Ledger.charge l).total - ∑ k ∈ s, (cs.foldl Ledger.charge l).used k =
      l.total - ∑ k ∈ s, l.used k := by
    induction cs with
    | nil => exact fun _ => rfl
    | cons c cs ih =>
      intro l
      obtain ⟨hc, hs⟩ := List.forall_mem_cons.mp hs
      rw [List.foldl_cons, ih hs, total_charge s hc]
  have h := key .empty
  rw [Finset.sum_congr (Eq.refl _) fun k _ => used_charges] at h
  simpa [Ledger.empty, sub_eq_zero] using h

theorem total_le (h : ∀ k, spent k 0 cs ≤ spent k 0 ds) :
    (cs.foldl Ledger.charge .empty).total ≤ (ds.foldl Ledger.charge .empty).total := by
  have hmem : ∀ c ∈ cs ++ ds, c.key ∈ ((cs ++ ds).map (·.key)).toFinset := by
    intro c hc
    exact List.mem_toFinset.mpr (List.mem_map_of_mem hc)
  rw [total_charges _ fun c hc => hmem c (List.mem_append_left ds hc),
    total_charges _ fun c hc => hmem c (List.mem_append_right cs hc)]
  exact Finset.sum_le_sum fun k _ => h k

end EasyHaProxy.Capped
