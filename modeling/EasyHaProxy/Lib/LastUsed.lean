import Mathlib.Data.Finset.Card
import Mathlib.Data.List.Dedup
import Mathlib.Tactic.Common

/-! Keys in order of use, of which the last few are kept. A key that is not kept is fresh. -/
namespace EasyHaProxy.LastUsed

variable {α : Type} [DecidableEq α] {limit fresh : ℕ} {kept used : List α} {j k : α}

/-- `k` is used: it goes to the end, and the front gives way. -/
def touch (limit : ℕ) (kept : List α) (k : α) : List α :=
  (kept.filter (· ≠ k) ++ [k]).drop ((kept.filter (· ≠ k)).length + 1 - limit)

/-- What was used in a stretch stands at the end, and no more of it was fresh; or more was used
than is kept. -/
def Accounted (limit : ℕ) (kept used : List α) (fresh : ℕ) : Prop :=
  limit < used.toFinset.card ∨
    ∃ older recent, kept = older ++ recent ∧ (∀ j, j ∈ recent ↔ j ∈ used) ∧ fresh ≤ recent.length

theorem mem_touch (h : j ∈ touch limit kept k) : j = k ∨ j ∈ kept := by
  rcases List.mem_append.mp (List.mem_of_mem_drop h) with hold | hnew
  · exact Or.inr (List.mem_of_mem_filter hold)
  · exact Or.inl (List.mem_singleton.mp hnew)

theorem card_of_nodup {recent : List α} (hnodup : recent.Nodup) (h : ∀ j, j ∈ recent ↔ j ∈ used) :
    recent.length = used.toFinset.card := by
  have hset : recent.toFinset = used.toFinset := by
    ext j
    simp [h j]
  rw [← hset, List.toFinset_card_of_nodup hnodup]

/-- The fresh uses of a stretch are of as many keys, up to one more than are kept. -/
theorem Accounted.le_card (h : Accounted limit kept used fresh) (hkept : kept.Nodup) :
    min fresh (limit + 1) ≤ used.toFinset.card := by
  rcases h with h | ⟨older, recent, rfl, hmem, hfresh⟩
  · omega
  · have hlen := card_of_nodup (List.nodup_append.mp hkept).2.1 hmem
    omega

theorem accounted_start (hlimit : 0 < limit) (kept : List α) (k : α) :
    Accounted limit (touch limit kept k) [k] 1 := by
  right
  refine ⟨(kept.filter (· ≠ k)).drop ((kept.filter (· ≠ k)).length + 1 - limit), [k], ?_,
    fun _ => Iff.rfl, Nat.le_refl 1⟩
  rw [touch, List.drop_append_of_le_length (by omega)]

theorem Accounted.touch (h : Accounted limit kept used fresh) (hkept : kept.Nodup) (k : α) :
    Accounted limit (touch limit kept k) (used ++ [k]) (if k ∈ kept then fresh else fresh + 1) := by
  rcases h with h | ⟨older, recent, rfl, hmem, hfresh⟩
  · left
    refine Nat.lt_of_lt_of_le h (Finset.card_le_card fun j hj => ?_)
    rw [List.mem_toFinset] at hj ⊢
    exact List.mem_append_left _ hj
  · have hrecent : recent.Nodup := (List.nodup_append.mp hkept).2.1
    have hmem' : ∀ j, j ∈ recent.filter (· ≠ k) ++ [k] ↔ j ∈ used ++ [k] := by
      intro j
      simp only [List.mem_append, List.mem_filter, List.mem_singleton, decide_eq_true_eq, hmem j]
      tauto
    have hnodup : (recent.filter (· ≠ k) ++ [k]).Nodup := by
      refine List.Nodup.append (hrecent.filter _) (List.nodup_singleton k) ?_
      simp [List.disjoint_singleton]
    have hlen : (if k ∈ older ++ recent then fresh else fresh + 1) ≤ (recent.filter (· ≠ k) ++ [k]).length := by
      rw [List.length_append, List.length_singleton]
      by_cases hk : k ∈ recent
      · have herase : recent.erase k = recent.filter (· ≠ k) := by
          rw [hrecent.erase_eq_filter]
          exact List.filter_congr fun j _ => by by_cases hj : j = k <;> simp [hj]
        have hpos := List.length_pos_of_mem hk
        rw [if_pos (List.mem_append_right _ hk), ← herase, List.length_erase_of_mem hk]
        omega
      · have hself : recent.filter (· ≠ k) = recent :=
          List.filter_eq_self.mpr fun j hj => decide_eq_true fun he => hk (he ▸ hj)
        rw [hself]
        split <;> omega
    by_cases hfit : (recent.filter (· ≠ k) ++ [k]).length ≤ limit
    · right
      refine ⟨(older.filter (· ≠ k)).drop (((older ++ recent).filter (· ≠ k)).length + 1 - limit), _,
        ?_, hmem', hlen⟩
      rw [LastUsed.touch, List.filter_append, List.append_assoc, List.drop_append_of_le_length]
      rw [List.length_append, List.length_singleton] at hfit
      rw [List.length_append]
      omega
    · left
      rw [← card_of_nodup hnodup hmem']
      omega

end EasyHaProxy.LastUsed
