import Mathlib.Data.List.Infix
import Mathlib.Data.List.Pairwise
import Mathlib.Tactic.Common

/-! Rows with an integer key, largest first. A page shows the first rows below where the last one left off
and says where to go on, 0 for nowhere; followed to the end, pages show all rows. -/
namespace EasyHaProxy.Descending

variable {α : Type} (key : α → Int)

/-- Keys go down. -/
def Sorted (l : List α) : Prop := l.Pairwise fun a b => key b < key a

def below (l : List α) (before : Int) : List α := l.filter fun a => decide (before = 0 ∨ key a < before)

/-- Page after page until one says that there is nothing further; `none` if the fuel runs out. -/
def follow (page : Nat → Int → List α × Int) : Nat → Nat → Int → Option (List α)
  | 0, _, _ => none
  | fuel + 1, i, before =>
    if (page i before).2 = 0 then some (page i before).1
    else (follow page fuel (i + 1) (page i before).2).map ((page i before).1 ++ ·)

/-- A page below `before`: all there is, or what is not below where it says to go on. -/
structure PageSpec (l : List α) (top before : Int) (page : List α × Int) : Prop where
  last : page.2 = 0 → page.1 = below key l before
  more : page.2 ≠ 0 → page.1 = (below key l before).filter (fun a => decide (page.2 ≤ key a)) ∧
    1 ≤ page.2 ∧ page.2 ≤ top ∧ (before = 0 ∨ page.2 < before)

variable {key} {l : List α} {a : α} {p top before : Int}

theorem Sorted.filter (h : Sorted key l) (q : α → Bool) : Sorted key (l.filter q) := List.Pairwise.filter q h

/-- The rows above a key come before the others. -/
theorem Sorted.split (h : Sorted key l) (p : Int) :
    l.filter (fun a => decide (p < key a)) ++ l.filter (fun a => decide (key a ≤ p)) = l := by
  induction l with
  | nil => rfl
  | cons a l ih =>
    obtain ⟨ha, hl⟩ := List.pairwise_cons.mp h
    by_cases hp : p < key a
    · rw [List.filter_cons_of_pos (by simpa using hp), List.filter_cons_of_neg (by simpa using hp),
        List.cons_append, ih hl]
    · have hall : ∀ b ∈ a :: l, key b ≤ p := by
        intro b hb
        rcases List.mem_cons.mp hb with rfl | hb
        · omega
        · have := ha b hb
          omega
      rw [List.filter_eq_nil_iff.mpr, List.nil_append, List.filter_eq_self.mpr]
      · intro b hb
        simpa using hall b hb
      · intro b hb
        simpa using hall b hb

theorem Sorted.above_split (h : Sorted key l) {p' : Int} (hle : p' ≤ p) :
    l.filter (fun a => decide (p < key a)) ++ l.filter (fun a => decide (p' < key a ∧ key a ≤ p)) =
      l.filter fun a => decide (p' < key a) := by
  have hsplit := (h.filter fun a => decide (p' < key a)).split p
  rw [List.filter_filter, List.filter_filter] at hsplit
  conv_rhs => rw [← hsplit]
  congr 1
  · apply List.filter_congr
    intro a _
    rw [← Bool.decide_and]
    apply decide_eq_decide.mpr
    omega
  · apply List.filter_congr
    intro a _
    rw [← Bool.decide_and]
    apply decide_eq_decide.mpr
    omega

/-- A page that leaves rows behind ends in the smallest key it shows. -/
theorem Sorted.take_last (h : Sorted key l) {k : Nat} (hk : 1 ≤ k) (hmore : k < l.length) :
    ∃ last, (l.take k).getLast? = some last ∧ last ∈ l ∧
      l.take k = l.filter fun a => decide (key last ≤ key a) := by
  have hne : l.take k ≠ [] := by
    intro hnil
    have := congrArg List.length hnil
    simp only [List.length_take, List.length_nil] at this
    omega
  obtain ⟨last, hlast⟩ : ∃ last, (l.take k).getLast? = some last := ⟨_, List.getLast?_eq_some_getLast hne⟩
  obtain ⟨init, hinit⟩ := List.getLast?_eq_some_iff.mp hlast
  have hmem : last ∈ l.take k := by simp [hinit]
  obtain ⟨hfront, -, hcross⟩ : Sorted key (l.take k) ∧ _ ∧ _ :=
    List.pairwise_append.mp ((List.take_append_drop k l).symm ▸ h)
  refine ⟨last, hlast, List.mem_of_mem_take hmem, ?_⟩
  have hkept : (l.take k).filter (fun a => decide (key last ≤ key a)) = l.take k := by
    rw [List.filter_eq_self]
    intro a ha
    rw [decide_eq_true_eq]
    rw [hinit] at ha hfront
    rcases List.mem_append.mp ha with ha | ha
    · exact Int.le_of_lt ((List.pairwise_append.mp hfront).2.2 a ha last (by simp))
    · exact Int.le_of_eq (congrArg key (List.mem_singleton.mp ha).symm)
  have hleft : (l.drop k).filter (fun a => decide (key last ≤ key a)) = [] := by
    rw [List.filter_eq_nil_iff]
    intro a ha
    have := hcross last hmem a ha
    rw [decide_eq_true_eq]
    omega
  conv_rhs => rw [← List.take_append_drop k l, List.filter_append, hkept, hleft, List.append_nil]

theorem below_zero : below key l 0 = l := by
  rw [below, List.filter_eq_self]
  intro a _
  simp

/-- What is below a page is what it left. -/
theorem below_next (h : Sorted key l) (hp : p ≠ 0) (hle : before = 0 ∨ p < before) :
    (below key l before).filter (fun a => decide (p ≤ key a)) ++ below key l p = below key l before := by
  have hsplit := (h.filter fun a => decide (before = 0 ∨ key a < before)).split (p - 1)
  have habove : (l.filter fun a => decide (before = 0 ∨ key a < before)).filter (fun a => decide (p - 1 < key a)) =
      (below key l before).filter fun a => decide (p ≤ key a) := by
    apply List.filter_congr
    intro a _
    apply decide_eq_decide.mpr
    omega
  have hunder : (l.filter fun a => decide (before = 0 ∨ key a < before)).filter (fun a => decide (key a ≤ p - 1)) =
      below key l p := by
    rw [List.filter_filter, below]
    apply List.filter_congr
    intro a _
    rw [← Bool.decide_and]
    apply decide_eq_decide.mpr
    omega
  rw [← habove, ← hunder]
  exact hsplit

/-- Followed to the end, pages show every row below where they began, once and in order. -/
theorem follow_eq (h : Sorted key l) {page : Nat → Int → List α × Int}
    (hpage : ∀ i before, (before = 0 ∨ 1 ≤ before) → PageSpec key l top before (page i before))
    {fuel i : Nat} (hbefore : before = 0 ∨ 1 ≤ before)
    (hfuel : (if before = 0 then top.toNat + 1 else before.toNat) < fuel) :
    follow page fuel i before = some (below key l before) := by
  induction fuel generalizing i before with
  | zero => omega
  | succ fuel ih =>
    obtain ⟨hlast, hmore⟩ := hpage i before hbefore
    rw [follow]
    split
    · rename_i h0
      rw [hlast h0]
    · rename_i hne
      obtain ⟨hrows, hone, htop, hless⟩ := hmore hne
      rw [ih (Or.inr hone) ?_, Option.map_some, hrows, below_next h hne hless]
      rw [if_neg hne]
      split at hfuel
      · omega
      · rename_i h0
        have := hless.resolve_left h0
        omega

end EasyHaProxy.Descending
