import Mathlib.Data.List.Infix
import Mathlib.Tactic.Common
import EasyHaProxy.Lib.Python

/-! A line ends with a line feed. `bytes.splitlines` also ends one at a carriage return, and takes the two
in a row for one end. -/
namespace EasyHaProxy.Lines

open Python

/-- The lines ended by a line feed, without it, after one begun with `line`. -/
def complete (line : List Nat) : List Nat → List (List Nat)
  | [] => []
  | b :: rest => if b = 10 then line :: complete [] rest else complete (line ++ [b]) rest

/-- `bytes.splitlines`, after a line begun with `line`. -/
def splitlines (line : List Nat) : List Nat → List (List Nat)
  | [] => if line = [] then [] else [line]
  | [b] => if b = 10 ∨ b = 13 then [line] else [line ++ [b]]
  | b :: c :: rest =>
    if b = 13 ∧ c = 10 then line :: splitlines [] rest
    else if b = 10 ∨ b = 13 then line :: splitlines [] (c :: rest)
    else splitlines (line ++ [b]) (c :: rest)

/-- What `splitlines` makes of one line. -/
def pieces (line : List Nat) : List Nat → List (List Nat)
  | [] => [line]
  | b :: rest => if b = 13 then (if rest = [] then [line] else line :: pieces [] rest) else pieces (line ++ [b]) rest

/-- Lines written out. -/
def join (lines : List (List Nat)) : List Nat := lines.flatMap (· ++ [10])

/-- `data.rfind(b"\n") + 1` -/
def upToLast (data : List Nat) : Nat := (data.reverse.dropWhile (· != 10)).length

variable {lines : List (List Nat)} {line tail rest : List Nat}

theorem join_append (as bs : List (List Nat)) : join (as ++ bs) = join as ++ join bs := List.flatMap_append

theorem exists_lines (data : List Nat) :
    ∃ lines tail, (∀ l ∈ lines, 10 ∉ l) ∧ 10 ∉ tail ∧ data = join lines ++ tail := by
  induction data with
  | nil => exact ⟨[], [], nofun, nofun, rfl⟩
  | cons b data ih =>
    obtain ⟨lines, tail, hlines, htail, rfl⟩ := ih
    by_cases hb : b = 10
    · refine ⟨[] :: lines, tail, ?_, htail, by rw [hb]; rfl⟩
      intro l hl
      obtain rfl | hl := List.mem_cons.mp hl
      · exact nofun
      · exact hlines l hl
    · cases lines with
      | nil =>
        refine ⟨[], b :: tail, nofun, ?_, rfl⟩
        intro h
        obtain h | h := List.mem_cons.mp h
        · exact hb h.symm
        · exact htail h
      | cons l lines =>
        obtain ⟨hl, hlines⟩ := List.forall_mem_cons.mp hlines
        refine ⟨(b :: l) :: lines, tail, List.forall_mem_cons.mpr ⟨?_, hlines⟩, htail, rfl⟩
        intro h
        obtain h | h := List.mem_cons.mp h
        · exact hb h.symm
        · exact hl h

theorem complete_begun (h : 10 ∉ line) (begun rest : List Nat) :
    complete begun (line ++ rest) = complete (begun ++ line) rest := by
  induction line generalizing begun with
  | nil => rw [List.append_nil, List.nil_append]
  | cons b line ih =>
    obtain ⟨hb, hline⟩ := not_or.mp (List.mem_cons.not.mp h)
    rw [List.cons_append, complete, if_neg (Ne.symm hb), ih hline, List.append_assoc, List.singleton_append]

/-- Lines written out are read back. -/
theorem complete_join (h : ∀ l ∈ lines, 10 ∉ l) (htail : 10 ∉ tail) : complete [] (join lines ++ tail) = lines := by
  induction lines with
  | nil =>
    have := complete_begun htail [] []
    rw [List.append_nil] at this
    exact this
  | cons l lines ih =>
    obtain ⟨hl, hlines⟩ := List.forall_mem_cons.mp h
    change complete [] ((l ++ [10] ++ join lines) ++ tail) = _
    rw [List.append_assoc, List.append_assoc, complete_begun hl, List.singleton_append, complete, if_pos rfl, ih hlines,
      List.nil_append]

theorem complete_lines (h : ∀ l ∈ lines, 10 ∉ l) : complete [] (join lines) = lines := by
  have hnil : 10 ∉ ([] : List Nat) := nofun
  rw [← List.append_nil (join lines), complete_join h hnil]

theorem complete_join_append (h : ∀ l ∈ lines, 10 ∉ l) (rest : List Nat) :
    complete [] (join lines ++ rest) = lines ++ complete [] rest := by
  obtain ⟨lines', tail, hlines', htail, rfl⟩ := exists_lines rest
  have hall : ∀ l ∈ lines ++ lines', 10 ∉ l := fun l hl => (List.mem_append.mp hl).elim (h l) (hlines' l)
  rw [← List.append_assoc, ← join_append, complete_join hall htail, complete_join hlines' htail]

/-- What is appended takes no complete line away. -/
theorem complete_extend (data more : List Nat) : complete [] data <+: complete [] (data ++ more) := by
  obtain ⟨lines, tail, hlines, htail, rfl⟩ := exists_lines data
  rw [complete_join hlines htail, List.append_assoc, complete_join_append hlines]
  exact List.prefix_append _ _

theorem splitlines_line (h : 10 ∉ line) (begun rest : List Nat) :
    splitlines begun (line ++ 10 :: rest) = pieces begun line ++ splitlines [] rest := by
  induction line generalizing begun with
  | nil =>
    cases rest with
    | nil => rfl
    | cons c rest => rw [List.nil_append, splitlines, if_neg (by simp), if_pos (.inl rfl), pieces, List.singleton_append]
  | cons b line ih =>
    obtain ⟨hb, hline⟩ := not_or.mp (List.mem_cons.not.mp h)
    have hb : b ≠ 10 := Ne.symm hb
    cases line with
    | nil =>
      rw [List.cons_append, List.nil_append, splitlines, pieces, if_pos rfl]
      by_cases hcr : b = 13
      · rw [if_pos ⟨hcr, rfl⟩, if_pos hcr, List.singleton_append]
      · rw [if_neg (fun h => hcr h.1), if_neg (fun h => h.elim hb hcr), if_neg hcr]
        exact ih hline (begun ++ [b])
    | cons c line =>
      have hc : c ≠ 10 := fun h => hline (List.mem_cons.mpr (.inl h.symm))
      rw [List.cons_append, List.cons_append, splitlines, if_neg (fun h => hc h.2), pieces, if_neg (List.cons_ne_nil _ _)]
      by_cases hcr : b = 13
      · rw [if_pos (.inr hcr), if_pos hcr, List.cons_append]
        exact congrArg (begun :: ·) (ih hline [])
      · rw [if_neg (fun h => h.elim hb hcr), if_neg hcr]
        exact ih hline (begun ++ [b])

theorem splitlines_join (h : ∀ l ∈ lines, 10 ∉ l) : splitlines [] (join lines) = lines.flatMap (pieces []) := by
  induction lines with
  | nil => rfl
  | cons l lines ih =>
    obtain ⟨hl, hlines⟩ := List.forall_mem_cons.mp h
    change splitlines [] (l ++ [10] ++ join lines) = _
    rw [List.append_assoc, List.singleton_append, splitlines_line hl, ih hlines, List.flatMap_cons]

theorem upToLast_join (htail : 10 ∉ tail) : upToLast (join lines ++ tail) = (join lines).length := by
  have hdrop : ∀ xs : List Nat, (tail.reverse ++ xs).dropWhile (· != 10) = xs.dropWhile (· != 10) := by
    intro xs
    refine List.dropWhile_append_of_pos fun b hb => ?_
    have : b ≠ 10 := fun h => htail (h ▸ List.mem_reverse.mp hb)
    simpa using this
  unfold upToLast
  rw [List.reverse_append, hdrop]
  cases hlast : lines.reverse with
  | nil =>
    rw [List.reverse_eq_nil_iff.mp hlast]
    rfl
  | cons l front =>
    have hlines : lines = front.reverse ++ [l] := by
      rw [← List.reverse_reverse lines, hlast, List.reverse_cons]
    have hjoin : join lines = join front.reverse ++ l ++ [10] := by
      rw [hlines, join_append, List.append_assoc]
      simp [join]
    rw [hjoin, List.reverse_append]
    simp
    omega

/-! ## Carriage returns -/

theorem pieces_of_not_mem (h : 13 ∉ line) (begun : List Nat) : pieces begun line = [begun ++ line] := by
  induction line generalizing begun with
  | nil => rw [pieces, List.append_nil]
  | cons b line ih =>
    obtain ⟨hb, hline⟩ := not_or.mp (List.mem_cons.not.mp h)
    rw [pieces, if_neg (Ne.symm hb), ih hline, List.append_assoc, List.singleton_append]

theorem pieces_ne_nil (begun line : List Nat) : pieces begun line ≠ [] := by
  induction line generalizing begun with
  | nil => exact List.cons_ne_nil _ _
  | cons b line ih =>
    unfold pieces
    split
    · split <;> exact List.cons_ne_nil _ _
    · exact ih _

/-- A line stays in one piece where there is no carriage return in it but at its end. -/
theorem pieces_eq_singleton {begun piece : List Nat} (h : pieces begun line = [piece]) :
    13 ∉ line ∧ piece = begun ++ line ∨ ∃ x, line = x ++ [13] ∧ 13 ∉ x ∧ piece = begun ++ x := by
  induction line generalizing begun with
  | nil =>
    rw [pieces, List.singleton_inj] at h
    exact .inl ⟨nofun, by rw [List.append_nil, h]⟩
  | cons b line ih =>
    rw [pieces] at h
    split at h
    · rename_i hb
      split at h
      · rename_i hline
        obtain rfl := List.singleton_inj.mp h
        exact .inr ⟨[], by rw [hb, hline]; rfl, nofun, (List.append_nil _).symm⟩
      · exact (pieces_ne_nil _ _ (List.cons_eq_cons.mp h).2).elim
    · rename_i hb
      obtain ⟨hline, rfl⟩ | ⟨x, rfl, hx, rfl⟩ := ih h
      · refine .inl ⟨fun hmem => ?_, by simp⟩
        obtain hmem | hmem := List.mem_cons.mp hmem
        · exact hb hmem.symm
        · exact hline hmem
      · refine .inr ⟨b :: x, rfl, fun hmem => ?_, by simp⟩
        obtain hmem | hmem := List.mem_cons.mp hmem
        · exact hb hmem.symm
        · exact hx hmem

theorem pieces_of_trailing (h : 13 ∉ line) (begun : List Nat) : pieces begun (line ++ [13]) = [begun ++ line] := by
  induction line generalizing begun with
  | nil => rw [List.nil_append, pieces, if_pos rfl, if_pos rfl, List.append_nil]
  | cons b line ih =>
    obtain ⟨hb, hline⟩ := not_or.mp (List.mem_cons.not.mp h)
    rw [List.cons_append, pieces, if_neg (Ne.symm hb), ih hline, List.append_assoc, List.singleton_append]

/-- A list of lists, none of them empty, is as long as all of them together only where each is a single
element. -/
theorem length_le_flatMap {α β : Type} {f : α → List β} (hf : ∀ a, f a ≠ []) (l : List α) :
    l.length ≤ (l.flatMap f).length ∧
      ((l.flatMap f).length = l.length → ∀ a ∈ l, ∃ b, f a = [b]) := by
  induction l with
  | nil => exact ⟨le_refl _, fun _ => nofun⟩
  | cons a l ih =>
    have hpos := List.length_pos_of_ne_nil (hf a)
    rw [List.flatMap_cons, List.length_append, List.length_cons]
    refine ⟨by omega, fun h => List.forall_mem_cons.mpr ⟨?_, ih.2 (by omega)⟩⟩
    exact List.length_eq_one_iff.mp (by omega)

/-- What follows in a character is no ASCII. -/
def Continues (pending : Option Pending) : Prop := ∀ p ∈ pending, 0x80 ≤ p.low

theorem continues_beginOctet (b : Nat) : Continues (beginOctet b).2 := by
  intro p hp
  unfold beginOctet firstOctet at hp
  split_ifs at hp <;> simp at hp <;> subst hp <;> simp

theorem continues_takeOctet (pending : Option Pending) (b : Nat) : Continues (takeOctet pending b).2 := by
  unfold takeOctet
  split
  · exact continues_beginOctet b
  · split
    · dsimp only
      split
      · exact nofun
      · intro p hp
        obtain rfl := Option.mem_some.mp hp
        exact le_refl _
    · exact continues_beginOctet b

theorem decodeUtf8_cons (pending : Option Pending) (b : Nat) (rest : List Nat) :
    decodeUtf8 pending (b :: rest) = (takeOctet pending b).1 ++ decodeUtf8 (takeOctet pending b).2 rest := rfl

/-- A carriage return after other octets is a character of its own. -/
theorem decodeUtf8_append_cr (x : List Nat) {pending : Option Pending} (h : Continues pending) :
    decodeUtf8 pending (x ++ [13]) = decodeUtf8 pending x ++ ['\r'] := by
  induction x generalizing pending with
  | nil =>
    cases pending with
    | none => rfl
    | some p =>
      have hlow := h p rfl
      have htake : takeOctet (some p) 13 = ([replacement, '\r'], none) := by
        rw [takeOctet, if_neg (by omega)]
        rfl
      rw [List.nil_append, decodeUtf8_cons, htake]
      rfl
  | cons b x ih =>
    rw [List.cons_append, decodeUtf8_cons, decodeUtf8_cons, ih (continues_takeOctet pending b), List.append_assoc]

end EasyHaProxy.Lines
