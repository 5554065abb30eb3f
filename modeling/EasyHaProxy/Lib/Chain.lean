import Mathlib.Order.Monotone.Basic
import Mathlib.Data.List.Induction
import Mathlib.Data.List.Sort
import Mathlib.Tactic.Common

/-! Stamps read oldest first form chains: a stamp continues the chain before it unless the gap to its last
stamp is larger than the window of a chain that long. `chain` is the newest one. -/
namespace EasyHaProxy.Chain

section Sorted

variable {α : Type} [LinearOrder α] {l : List α} {c : α}

omit [LinearOrder α] in
theorem insertionSort_filter (r : α → α → Prop) [DecidableRel r] [Std.Antisymm r] [Std.Total r]
    [IsTrans α r] (p : α → Bool) (l : List α) :
    (l.filter p).insertionSort r = (l.insertionSort r).filter p := by
  apply List.Perm.eq_of_pairwise' (r := r)
  · exact List.pairwise_insertionSort r _
  · exact (List.pairwise_insertionSort r l).filter _
  · exact (List.perm_insertionSort r _).trans ((List.perm_insertionSort r l).filter p).symm

/-- Of stamps newest first, the newest `n` kept are the kept ones of the newest `n`. -/
theorem take_filter_le (h : l.Pairwise (· ≥ ·)) (n : ℕ) :
    (l.filter (c ≤ ·)).take n = (l.take n).filter (c ≤ ·) := by
  induction l generalizing n with
  | nil => simp
  | cons x l ih =>
    rw [List.pairwise_cons] at h
    cases n with
    | zero => simp
    | succ n =>
      by_cases hx : c ≤ x
      · simp [hx, ih h.2]
      · have hnone : ∀ y ∈ l, ¬ c ≤ y := fun y hy hc => hx (le_trans hc (h.1 y hy))
        have hl : l.filter (c ≤ ·) = [] := by simpa using hnone
        have ht : (l.take n).filter (c ≤ ·) = [] := by
          simpa using fun y hy => hnone y (List.mem_of_mem_take hy)
        simp [hx, hl, ht]

/-- Stamps oldest first that are not older than a cutoff are the end of the list. -/
theorem filter_le_suffix (h : l.Pairwise (· ≤ ·)) : l.filter (c ≤ ·) <:+ l := by
  induction l with
  | nil => exact List.suffix_refl _
  | cons x l ih =>
    rw [List.pairwise_cons] at h
    by_cases hx : c ≤ x
    · have hall : l.filter (c ≤ ·) = l := by
        simpa using fun y hy => le_trans hx (h.1 y hy)
      simp [hx, hall]
    · simpa [hx] using (ih h.2).trans (List.suffix_cons x l)

/-- The newest `n` stamps, oldest first, are the end of all of them. -/
theorem insertionSort_take_suffix (l : List α) (n : ℕ) :
    ((l.insertionSort (· ≥ ·)).take n).insertionSort (· ≤ ·) <:+ l.insertionSort (· ≤ ·) := by
  have hall : (l.insertionSort (· ≥ ·)).reverse = l.insertionSort (· ≤ ·) := by
    apply List.Perm.eq_of_pairwise' (r := (· ≤ ·))
    · rw [List.pairwise_reverse]
      exact List.pairwise_insertionSort (· ≥ ·) l
    · exact List.pairwise_insertionSort _ _
    · exact (List.reverse_perm _).trans
        ((List.perm_insertionSort _ l).trans (List.perm_insertionSort _ l).symm)
  have hnewest : ((l.insertionSort (· ≥ ·)).take n).insertionSort (· ≤ ·) =
      ((l.insertionSort (· ≥ ·)).take n).reverse := by
    apply List.Perm.eq_of_pairwise' (r := (· ≤ ·))
    · exact List.pairwise_insertionSort _ _
    · rw [List.pairwise_reverse]
      exact (List.pairwise_insertionSort (· ≥ ·) l).sublist (List.take_sublist _ _)
    · exact (List.perm_insertionSort _ _).trans (List.reverse_perm _).symm
  rw [hnewest, ← hall, List.reverse_suffix]
  exact List.take_prefix n _

end Sorted

variable {α : Type} [LinearOrder α] [Sub α] (window : ℕ → α)

/-- One more stamp: it continues the chain, or starts a new one. -/
def extend (c : List α) (t : α) : List α :=
  match c.getLast? with
  | none => [t]
  | some last => if window c.length < t - last then [t] else c ++ [t]

def chain (stamps : List α) : List α := stamps.foldl (extend window) []

variable {window} {stamps kept : List α} {t : α}

theorem chain_concat : chain window (stamps ++ [t]) = extend window (chain window stamps) t := by
  simp [chain, List.foldl_append]

variable (window) in
theorem extend_eq (c : List α) (t : α) : extend window c t = [t] ∨ extend window c t = c ++ [t] := by
  unfold extend
  split
  · exact Or.inl rfl
  · split
    · exact Or.inl rfl
    · exact Or.inr rfl

theorem getLast?_extend (c : List α) : (extend window c t).getLast? = some t := by
  rcases extend_eq window c t with h | h <;> simp [h]

theorem getLast?_chain : (chain window stamps).getLast? = stamps.getLast? := by
  cases stamps using List.reverseRecOn with
  | nil => rfl
  | append_singleton l t => rw [chain_concat, getLast?_extend, List.getLast?_concat]

theorem chain_suffix : chain window stamps <:+ stamps := by
  induction stamps using List.reverseRecOn with
  | nil => exact List.suffix_refl _
  | append_singleton l t ih =>
    rw [chain_concat]
    rcases extend_eq window (chain window l) t with h | h
    · rw [h]
      exact ⟨l, rfl⟩
    · rw [h]
      exact List.suffix_concat_iff.mpr (Or.inr ⟨_, rfl, ih⟩)

theorem chain_eq_nil : chain window stamps = [] ↔ stamps = [] := by
  rw [← List.getLast?_eq_none_iff, getLast?_chain, List.getLast?_eq_none_iff]

/-- Where the longer chain lapses, a shorter one with the same last stamp does too. -/
theorem extend_lapsed (hw : Monotone window) {c c' : List α} (hl : c'.getLast? = c.getLast?)
    (hlen : c'.length ≤ c.length) (h : extend window c t = [t]) : extend window c' t = [t] := by
  unfold extend at h ⊢
  rw [hl]
  cases hlast : c.getLast? with
  | none => rfl
  | some last =>
    simp only [hlast] at h ⊢
    split at h
    · rename_i hgap
      rw [if_pos (lt_of_le_of_lt (hw hlen) hgap)]
    · have hc : c = [] := by simpa using h
      simp [hc] at hlast

omit [LinearOrder α] [Sub α] in
theorem getLast?_of_suffix (hk : kept <:+ stamps) (hne : kept ≠ []) :
    kept.getLast? = stamps.getLast? := by
  obtain ⟨old, rfl⟩ := hk
  rw [List.getLast?_append, List.getLast?_eq_some_getLast hne, Option.some_or]

/-- A stamp that starts a new chain after all stamps starts one after the kept ones. -/
theorem extend_chain_lapsed (hw : Monotone window) (hk : kept <:+ stamps)
    (hlen : (chain window kept).length ≤ (chain window stamps).length)
    (h : extend window (chain window stamps) t = [t]) : extend window (chain window kept) t = [t] := by
  by_cases hne : kept = []
  · subst hne
    rfl
  · apply extend_lapsed hw ?_ hlen h
    rw [getLast?_chain, getLast?_chain, getLast?_of_suffix hk hne]

/-- Dropping old stamps never makes the chain longer. -/
theorem length_chain_le (hw : Monotone window) (hk : kept <:+ stamps) :
    (chain window kept).length ≤ (chain window stamps).length := by
  induction stamps using List.reverseRecOn generalizing kept with
  | nil => simp [List.suffix_nil.mp hk]
  | append_singleton l t ih =>
    rcases List.suffix_concat_iff.mp hk with rfl | ⟨k, rfl, hkl⟩
    · simp [chain]
    · rw [chain_concat, chain_concat]
      rcases extend_eq window (chain window l) t with h | h
      · rw [extend_chain_lapsed hw hkl (ih hkl) h, h]
      · rw [h]
        rcases extend_eq window (chain window k) t with h' | h'
        · simp [h']
        · simpa [h'] using ih hkl

theorem chain_eq_of_suffix (hw : Monotone window) (hk : kept <:+ stamps)
    (hc : chain window stamps <:+ kept) : chain window kept = chain window stamps := by
  induction stamps using List.reverseRecOn generalizing kept with
  | nil => rw [List.suffix_nil.mp hk]
  | append_singleton l t ih =>
    rcases List.suffix_concat_iff.mp hk with rfl | ⟨k, rfl, hkl⟩
    · have := chain_eq_nil.mp (List.suffix_nil.mp hc)
      simp at this
    · rw [chain_concat] at hc ⊢
      rw [chain_concat]
      rcases extend_eq window (chain window l) t with h | h
      · rw [extend_chain_lapsed hw hkl (length_chain_le hw hkl) h, h]
      · rw [h] at hc
        rcases List.suffix_concat_iff.mp hc with hnil | ⟨c, heq, hck⟩
        · simp at hnil
        · obtain rfl : chain window l = c := by simpa using heq
          rw [ih hkl hck]

/-! ## Rows -/

variable (window) in
/-- A row: no gap in it is larger than the window of the stamps before it. -/
def Unbroken (row : List α) : Prop :=
  ∀ (i : ℕ) (h : i + 1 < row.length), row[i + 1] - row[i] ≤ window (i + 1)

theorem unbroken_concat {row : List α} :
    Unbroken window (row ++ [t]) ↔
      Unbroken window row ∧ ∀ last ∈ row.getLast?, t - last ≤ window row.length := by
  constructor
  · intro h
    constructor
    · intro i hi
      have hrow := h i (by simp; omega)
      rwa [List.getElem_append_left hi, List.getElem_append_left (by omega)] at hrow
    · intro last hlast
      obtain ⟨n, hn⟩ : ∃ n, row.length = n + 1 := by
        cases row with
        | nil => simp at hlast
        | cons x l => exact ⟨l.length, rfl⟩
      have hrow := h n (by simp; omega)
      have hget : row[n] = last := by
        rw [List.getLast?_eq_getElem?, hn] at hlast
        obtain ⟨_, hget⟩ : ∃ h, row[n] = last := by
          simpa [List.getElem?_eq_some_iff] using hlast
        exact hget
      have hn' : n < row.length := by omega
      rw [List.getElem_append_left hn', hget] at hrow
      simpa [hn] using hrow
  · rintro ⟨hrow, hlast⟩ i hi
    rw [List.length_append, List.length_singleton] at hi
    rcases Nat.lt_or_ge (i + 1) row.length with hlt | hge
    · rw [List.getElem_append_left hlt, List.getElem_append_left (by omega)]
      exact hrow i hlt
    · have hn : row.length = i + 1 := by omega
      have hget : row[i]? = row.getLast? := by rw [List.getLast?_eq_getElem?, hn]; rfl
      have hi' : i < row.length := by omega
      have hgap := hlast row[i] (by rw [← hget]; simp)
      rw [List.getElem_append_left hi', List.getElem_append_right hge]
      simpa [hn] using hgap

theorem unbroken_chain : Unbroken window (chain window stamps) := by
  induction stamps using List.reverseRecOn with
  | nil =>
    intro i hi
    simp [chain] at hi
  | append_singleton l t ih =>
    rw [chain_concat, extend]
    split
    · intro i hi
      simp at hi
    · rename_i last hlast
      split
      · intro i hi
        simp at hi
      · rename_i hgap
        refine unbroken_concat.mpr ⟨ih, ?_⟩
        intro last' hlast'
        obtain rfl : last = last' := by simpa [hlast] using hlast'
        exact not_lt.mp hgap

theorem chain_of_unbroken {row : List α} (h : Unbroken window row) : chain window row = row := by
  induction row using List.reverseRecOn with
  | nil => rfl
  | append_singleton l t ih =>
    obtain ⟨hl, hlast⟩ := unbroken_concat.mp h
    rw [chain_concat, ih hl, extend]
    split
    · rename_i hnone
      simp [List.getLast?_eq_none_iff.mp hnone]
    · rename_i last hsome
      rw [if_neg (not_lt.mpr (hlast last hsome))]

theorem length_le_chain (hw : Monotone window) {row : List α} (hr : row <:+ stamps)
    (h : Unbroken window row) : row.length ≤ (chain window stamps).length := by
  have hlen := length_chain_le hw hr
  rwa [chain_of_unbroken h] at hlen

end EasyHaProxy.Chain
