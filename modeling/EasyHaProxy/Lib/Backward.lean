import EasyHaProxy.Lib.Pieces
import Mathlib.Data.List.DropRight

/-! A text is taken in blocks from its end. -/
namespace EasyHaProxy.Backward

variable {α β : Type} {sep : α → Bool} {want : List α → Option β} {limit : Nat}

/-- What is carried to the next block, and what was found, the last part first. -/
structure State (α β : Type) where
  carried : List α
  found : List β

/-- The parts one after the other, until enough are found. -/
def gather (want : List α → Option β) (limit : Nat) : List (List α) → List β → List β
  | [], found => found
  | part :: parts, found =>
    if limit ≤ found.length then found else gather want limit parts (found ++ (want part).toList)

/-- One block before what was read. -/
def take (sep : α → Bool) (want : List α → Option β) (limit : Nat) (block : List α) (s : State α β) : State α β :=
  match (block ++ s.carried).splitOnP sep with
  | [] => s
  | carried :: parts => ⟨carried, gather want limit parts.reverse s.found⟩

/-- The part at the start of the text has no separator before it. -/
def finish (want : List α → Option β) (limit : Nat) (s : State α β) : List β :=
  if s.carried ≠ [] ∧ s.found.length < limit then s.found ++ (want s.carried).toList else s.found

/-! ## The parts of a text -/

/-- More text in front reaches as far as the first separator. -/
theorem splitOnP_append {text first : List α} {others : List (List α)} (block : List α)
    (h : text.splitOnP sep = first :: others) :
    (block ++ text).splitOnP sep = (block ++ first).splitOnP sep ++ others := by
  induction block with
  | nil =>
    have hfirst : ∀ a ∈ first, sep a = false := fun a ha =>
      (Text.mem_of_mem_splitOnP (h ▸ List.mem_cons_self) a ha).1
    rw [List.nil_append, List.nil_append, h, List.splitOnP_eq_singleton hfirst, List.singleton_append]
  | cons a block ih =>
    rw [List.cons_append, List.cons_append, List.splitOnP_cons_eq_if_modifyHead,
      List.splitOnP_cons_eq_if_modifyHead, ih]
    split
    · rfl
    · obtain ⟨part, parts, hparts⟩ := List.exists_cons_of_ne_nil (List.splitOnP_ne_nil sep (block ++ first))
      rw [hparts]
      rfl

theorem take_append_take (l m : List β) : (l.take limit ++ m).take limit = (l ++ m).take limit := by
  rw [List.take_append, List.take_append, List.take_take, min_self, List.length_take]
  congr 2
  omega

theorem gather_eq {found : List β} (hfound : found.length ≤ limit) (parts : List (List α)) :
    gather want limit parts found = (found ++ parts.filterMap want).take limit := by
  induction parts generalizing found with
  | nil => rw [gather, List.filterMap_nil, List.append_nil, List.take_of_length_le hfound]
  | cons part parts ih =>
    rw [gather]
    split
    next hfull =>
      have heq : found.length = limit := le_antisymm hfound hfull
      rw [List.take_append_of_le_length hfull, List.take_of_length_le hfound]
    next hroom =>
      have hnext : (found ++ (want part).toList).length ≤ limit := by
        cases want part <;> simp <;> omega
      rw [ih hnext, List.append_assoc]
      cases hpart : want part with
      | none => rw [List.filterMap_cons_none hpart]; rfl
      | some b => rw [List.filterMap_cons_some hpart]; rfl

/-! ## What is known of the text that was read -/

variable (sep want limit) in
/-- What was read begins with the carried part, and of the parts after it the last ones wanted are found. -/
def Reads (text : List α) (s : State α β) : Prop :=
  ∃ others, text.splitOnP sep = s.carried :: others ∧
    s.found = (others.reverse.filterMap want).take limit

theorem reads_nil : Reads sep want limit [] ⟨[], []⟩ := ⟨[], rfl, by simp⟩

theorem Reads.take {text : List α} {s : State α β} (h : Reads sep want limit text s) (block : List α) :
    Reads sep want limit (block ++ text) (take sep want limit block s) := by
  obtain ⟨others, hsplit, hfound⟩ := h
  obtain ⟨carried, parts, hparts⟩ := List.exists_cons_of_ne_nil (List.splitOnP_ne_nil sep (block ++ s.carried))
  have hle : s.found.length ≤ limit := by
    rw [hfound, List.length_take]
    exact min_le_left _ _
  refine ⟨parts ++ others, ?_, ?_⟩
  · rw [splitOnP_append block hsplit, Backward.take, hparts]
    rfl
  · rw [Backward.take, hparts, List.reverse_append, List.filterMap_append]
    dsimp only
    rw [gather_eq hle, hfound]
    exact take_append_take _ _

/-- Once there are enough, more text in front changes nothing. -/
theorem Reads.full {text : List α} {s : State α β} (h : Reads sep want limit text s)
    (hfull : limit ≤ s.found.length) (before : List α) :
    s.found.reverse = (((before ++ text).splitOnP sep).filterMap want).rtake limit := by
  obtain ⟨others, hsplit, hfound⟩ := h
  have hlen : limit ≤ (others.reverse.filterMap want).length := by
    rw [hfound, List.length_take] at hfull
    omega
  rw [splitOnP_append before hsplit, List.rtake_eq_reverse_take_reverse, ← List.filterMap_reverse,
    List.reverse_append, List.filterMap_append, List.take_append_of_le_length hlen, hfound]

theorem Reads.finish {text : List α} {s : State α β} (h : Reads sep want limit text s) (hnil : want [] = none) :
    (finish want limit s).reverse = ((text.splitOnP sep).filterMap want).rtake limit := by
  have hall : Backward.finish want limit s = (s.found ++ (want s.carried).toList).take limit := by
    have hle : s.found.length ≤ limit := by
      obtain ⟨others, -, hfound⟩ := h
      rw [hfound, List.length_take]
      exact min_le_left _ _
    unfold Backward.finish
    split
    next hmore =>
      have hroom : (s.found ++ (want s.carried).toList).length ≤ limit := by
        cases want s.carried <;> simp <;> omega
      rw [List.take_of_length_le hroom]
    next hstop =>
      by_cases hcarried : s.carried = []
      · rw [hcarried, hnil, Option.toList_none, List.append_nil, List.take_of_length_le hle]
      · have hfull : limit ≤ s.found.length := not_lt.mp fun hroom => hstop ⟨hcarried, hroom⟩
        rw [List.take_append_of_le_length hfull, List.take_of_length_le hle]
  obtain ⟨others, hsplit, hfound⟩ := h
  have hparts : ((s.carried :: others).reverse.filterMap want) =
      others.reverse.filterMap want ++ (want s.carried).toList := by
    rw [List.reverse_cons, List.filterMap_append]
    cases hcarried : want s.carried with
    | none => rw [List.filterMap_cons_none hcarried]; rfl
    | some b => rw [List.filterMap_cons_some hcarried]; rfl
  rw [hall, hsplit, List.rtake_eq_reverse_take_reverse, ← List.filterMap_reverse, hparts, hfound, take_append_take]

end EasyHaProxy.Backward
