import EasyHaProxy.Lib.Pieces

/-! A text as the words between its blanks, and reading one given word off its front. -/
namespace EasyHaProxy.Text

variable {c : Char} {l w x : List Char}

/-- `text.split()`. -/
def words (l : List Char) : List (List Char) := pieces isSpace l

def blanks (l : List Char) : List Char := l.dropWhile isSpace

/-- At least one blank, and all that follow. -/
def someBlanks : List Char → Option (List Char)
  | [] => none
  | c :: l => if isSpace c then some (blanks l) else none

/-- A text read off the front, and the blanks after it. -/
def word (x l : List Char) : Option (List Char) := (l.dropPrefix? x).bind someBlanks

structure IsWord (w : List Char) : Prop where
  ne_nil : w ≠ []
  noBlank : ∀ c ∈ w, isSpace c = false

/-- A word that stands before it ends here. -/
def AtEnd (l : List Char) : Prop := ∀ c, l.head? = some c → isSpace c = true

instance : Decidable (IsWord w) :=
  decidable_of_iff (w ≠ [] ∧ w.all (!isSpace ·) = true)
    ⟨fun h => ⟨h.1, fun c hc => by simpa using List.all_eq_true.mp h.2 c hc⟩,
      fun h => ⟨h.1, List.all_eq_true.mpr fun c hc => by simp [h.noBlank c hc]⟩⟩

theorem atEnd_cons (h : isSpace c = true) : AtEnd (c :: l) := by
  rintro _ ⟨⟩
  exact h

theorem AtEnd.append {tail : List Char} (h : AtEnd l) (ht : AtEnd tail) : AtEnd (l ++ tail) := by
  cases l with
  | nil => exact ht
  | cons c l => exact atEnd_cons (h c rfl)

theorem IsWord.clean (h : IsWord w) : Clean isSpace w where
  ne_nil := h.ne_nil
  strip_eq := strip_eq_self (fun _ hc => h.noBlank _ (List.mem_of_mem_head? hc))
    (fun _ hc => h.noBlank _ (List.mem_of_mem_getLast? hc))
  noSeparator := h.noBlank

@[simp] theorem words_nil : words [] = [] := by
  simp [words, pieces, strip, trim]

theorem words_append_cons (h : isSpace c = true) : words (w ++ c :: l) = words w ++ words l :=
  pieces_append_cons h

theorem words_cons (h : isSpace c = true) : words (c :: l) = words l := by
  rw [← List.nil_append (c :: l), words_append_cons h, words_nil, List.nil_append]

@[simp] theorem words_blanks : words (blanks l) = words l := by
  induction l with
  | nil => rfl
  | cons c l ih =>
    unfold blanks
    rw [List.dropWhile_cons]
    split
    · rename_i h
      rw [words_cons h]
      exact ih
    · rfl

theorem words_word (hw : IsWord w) (hl : AtEnd l) : words (w ++ l) = w :: words l := by
  have hone : words w = [w] := pieces_clean hw.clean
  cases l with
  | nil => rw [List.append_nil, hone, words_nil]
  | cons c l =>
    have hc := hl c rfl
    rw [words_append_cons hc, hone, words_cons hc, List.singleton_append]

/-- Blanks at the end are in no word. -/
theorem words_rdropWhile : words (l.rdropWhile isSpace) = words l := by
  induction l using List.reverseRecOn with
  | nil => rfl
  | append_singleton l c ih =>
    by_cases h : isSpace c = true
    · rw [List.rdropWhile_concat_pos _ _ _ h, ih, words_append_cons h, words_nil, List.append_nil]
    · rw [List.rdropWhile_concat_neg _ _ _ h]

theorem exists_word (h : blanks l ≠ []) : ∃ w rest, IsWord w ∧ AtEnd rest ∧ blanks l = w ++ rest := by
  refine ⟨(blanks l).takeWhile (!isSpace ·), (blanks l).dropWhile (!isSpace ·), ⟨?_, ?_⟩, ?_,
    List.takeWhile_append_dropWhile.symm⟩
  · intro hw
    cases hb : blanks l with
    | nil => exact h hb
    | cons c rest =>
      have hc := List.head?_dropWhile_not isSpace l
      unfold blanks at hb
      rw [hb] at hc
      simp [blanks, hb, show isSpace c = false by simpa using hc] at hw
  · intro c hc
    simpa using List.mem_takeWhile_imp hc
  · intro c hc
    have := List.head?_dropWhile_not (!isSpace ·) (blanks l)
    rw [hc] at this
    simpa using this

theorem words_eq_nil : words l = [] ↔ blanks l = [] := by
  constructor
  · intro h
    by_contra hne
    obtain ⟨w, rest, hw, hrest, heq⟩ := exists_word hne
    rw [← words_blanks, heq, words_word hw hrest] at h
    cases h
  · intro h
    rw [← words_blanks, h, words_nil]

/-- Only the word itself is read, and only where a blank follows it. -/
theorem word_append (hx : IsWord x) (hw : IsWord w) (hl : AtEnd l) :
    word x (w ++ l) = if x = w ∧ l ≠ [] then some (blanks l) else none := by
  unfold word
  by_cases hxw : x = w
  · subst hxw
    have hdrop : (x ++ l).dropPrefix? x = some l :=
      List.dropPrefix?_eq_some_iff.mpr ⟨x, rfl, by simp⟩
    rw [hdrop, Option.bind_some]
    cases l with
    | nil => simp [someBlanks]
    | cons c l =>
      have hc := hl c rfl
      simp [someBlanks, hc, blanks]
  · rw [if_neg (fun h => hxw h.1)]
    cases hd : (w ++ l).dropPrefix? x with
    | none => rfl
    | some rest =>
      obtain ⟨x', heq, hx'⟩ := List.dropPrefix?_eq_some_iff.mp hd
      obtain rfl : x' = x := by simpa using hx'
      rw [Option.bind_some]
      rcases List.append_eq_append_iff.mp heq with ⟨m, rfl, rfl⟩ | ⟨m, rfl, rfl⟩
      · -- the text goes on beyond the word, which ends at a blank
        cases m with
        | nil => simp at hxw
        | cons c m =>
          have hc := hl c rfl
          rw [hx.noBlank c (by simp)] at hc
          cases hc
      · cases m with
        | nil => simp at hxw
        | cons c m => simp [someBlanks, hw.noBlank c (by simp)]

end EasyHaProxy.Text
