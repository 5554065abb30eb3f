import EasyHaProxy.Lib.Text
import Mathlib.Data.List.Basic

/-! A list of names is joined to one text and the text is split, stripped and cleared of empty pieces to get
the list back. -/
namespace EasyHaProxy.Text

variable {p : Char → Bool} {c : Char} {l n : List Char} {blanks : List Char} {names : List (List Char)}

/-- `[piece.strip() for piece in text.split(...) if piece.strip()]`. -/
def pieces (p : Char → Bool) (l : List Char) : List (List Char) :=
  ((l.splitOnP p).map strip).filter (· ≠ [])

/-- A name that a text field can hold: not empty, without blanks around it and without a separator. -/
structure Clean (p : Char → Bool) (n : List Char) : Prop where
  ne_nil : n ≠ []
  strip_eq : strip n = n
  noSeparator : ∀ c ∈ n, p c = false

theorem pieces_append_cons (hc : p c = true) : pieces p (n ++ c :: l) = pieces p n ++ pieces p l := by
  unfold pieces
  rw [List.splitOnP_append_cons _ _ hc, List.map_append, List.filter_append]

theorem pieces_clean (h : Clean p n) : pieces p n = [n] := by
  unfold pieces
  rw [List.splitOnP_eq_singleton h.noSeparator, List.map_cons, List.map_nil, h.strip_eq]
  simp [h.ne_nil]

theorem strip_cons (hc : isSpace c = true) : strip (c :: l) = strip l := by
  rw [strip, strip, trim, trim, List.dropWhile_cons_of_pos hc]

/-- A blank at the front goes with the stripping. -/
theorem pieces_cons (hs : isSpace c = true) (hc : p c = false) : pieces p (c :: l) = pieces p l := by
  unfold pieces
  rw [List.splitOnP_cons_eq_if_modifyHead, if_neg (by simp [hc])]
  cases h : l.splitOnP p with
  | nil => exact absurd h (List.splitOnP_ne_nil p l)
  | cons head rest => rw [List.modifyHead_cons, List.map_cons, List.map_cons, strip_cons hs]

theorem pieces_append (h : ∀ b ∈ blanks, isSpace b = true ∧ p b = false) :
    pieces p (blanks ++ l) = pieces p l := by
  induction blanks with
  | nil => rfl
  | cons b blanks ih =>
    have hb := h b List.mem_cons_self
    rw [List.cons_append, pieces_cons hb.1 hb.2, ih fun c hc => h c (List.mem_cons_of_mem b hc)]

theorem pieces_intercalate (hc : p c = true) (hb : ∀ b ∈ blanks, isSpace b = true ∧ p b = false)
    (h : ∀ n ∈ names, Clean p n) : pieces p ((c :: blanks).intercalate names) = names := by
  induction names with
  | nil => simp [pieces, strip, trim]
  | cons n names ih =>
    have hn := h n List.mem_cons_self
    have hrest := ih fun m hm => h m (List.mem_cons_of_mem n hm)
    cases names with
    | nil => simpa using pieces_clean hn
    | cons m names =>
      have hjoin : (c :: blanks).intercalate (n :: m :: names) =
          n ++ c :: (blanks ++ (c :: blanks).intercalate (m :: names)) := by
        simp [List.intercalate]
      rw [hjoin, pieces_append_cons hc, pieces_clean hn, pieces_append hb, hrest]
      rfl

/-- A piece of a text that is split has none of its separators. -/
theorem mem_of_mem_splitOnP {α : Type} {p : α → Bool} {l n : List α} (h : n ∈ l.splitOnP p) :
    ∀ c ∈ n, p c = false ∧ c ∈ l := by
  induction l generalizing n with
  | nil =>
    obtain rfl : n = [] := by simpa using h
    simp
  | cons a l ih =>
    rw [List.splitOnP_cons_eq_if_modifyHead] at h
    split at h
    · rcases List.mem_cons.mp h with rfl | h
      · simp
      · exact fun c hc => ⟨(ih h c hc).1, List.mem_cons_of_mem a (ih h c hc).2⟩
    · rename_i ha
      cases hs : l.splitOnP p with
      | nil => exact absurd hs (List.splitOnP_ne_nil p l)
      | cons m rest =>
        rw [hs, List.modifyHead_cons, List.mem_cons] at h
        rcases h with rfl | h
        · intro c hc
          rcases List.mem_cons.mp hc with rfl | hc
          · exact ⟨by simpa using ha, List.mem_cons_self⟩
          · have hm := ih (hs ▸ List.mem_cons_self) c hc
            exact ⟨hm.1, List.mem_cons_of_mem a hm.2⟩
        · have hn := ih (hs ▸ List.mem_cons_of_mem m h)
          exact fun c hc => ⟨(hn c hc).1, List.mem_cons_of_mem a (hn c hc).2⟩

/-- A character of a text that is split is a separator, or in a piece. -/
theorem mem_splitOnP_or {α : Type} {p : α → Bool} {l : List α} {c : α} (h : c ∈ l) :
    p c = true ∨ ∃ n ∈ l.splitOnP p, c ∈ n := by
  induction l with
  | nil => cases h
  | cons a l ih =>
    rw [List.splitOnP_cons_eq_if_modifyHead]
    split
    next ha =>
      rcases List.mem_cons.mp h with rfl | h
      · exact Or.inl ha
      · exact (ih h).imp id fun ⟨n, hn, hc⟩ => ⟨n, List.mem_cons_of_mem _ hn, hc⟩
    next =>
      cases hs : l.splitOnP p with
      | nil => exact absurd hs (List.splitOnP_ne_nil p l)
      | cons m rest =>
        rw [List.modifyHead_cons]
        rcases List.mem_cons.mp h with rfl | h
        · exact Or.inr ⟨_, List.mem_cons_self, List.mem_cons_self⟩
        · rcases ih h with hsep | ⟨n, hn, hc⟩
          · exact Or.inl hsep
          · rw [hs] at hn
            rcases List.mem_cons.mp hn with rfl | hn
            · exact Or.inr ⟨_, List.mem_cons_self, List.mem_cons_of_mem a hc⟩
            · exact Or.inr ⟨n, List.mem_cons_of_mem _ hn, hc⟩

theorem mem_of_mem_strip (h : c ∈ strip l) : c ∈ l :=
  (List.dropWhile_suffix isSpace).mem ((List.rdropWhile_prefix isSpace _).mem h)

theorem clean_of_mem_pieces (h : n ∈ pieces p l) : Clean p n ∧ ∀ c ∈ n, c ∈ l := by
  obtain ⟨hmap, hne⟩ := List.mem_filter.mp h
  obtain ⟨part, hpart, rfl⟩ := List.mem_map.mp hmap
  have hsub := mem_of_mem_splitOnP hpart
  exact ⟨⟨by simpa using hne, strip_strip, fun c hc => (hsub c (mem_of_mem_strip hc)).1⟩,
    fun c hc => (hsub c (mem_of_mem_strip hc)).2⟩

/-! ## The joined text has no blanks around it -/

theorem strip_eq_self (h : ∀ c, l.head? = some c → isSpace c = false)
    (hlast : ∀ c, l.getLast? = some c → isSpace c = false) : strip l = l := by
  have hd : l.dropWhile isSpace = l := by
    cases l with
    | nil => rfl
    | cons c l => exact List.dropWhile_cons_of_neg (by simp [h c rfl])
  rw [strip, trim, hd, List.rdropWhile_eq_self_iff]
  intro hne hs
  rw [hlast _ (List.getLast?_eq_some_getLast hne)] at hs
  cases hs

theorem head_of_strip_eq (h : strip n = n) (hc : n.head? = some c) : isSpace c = false := by
  cases n with
  | nil => cases hc
  | cons a n =>
    obtain rfl : a = c := Option.some.inj hc
    by_contra hs
    rw [Bool.not_eq_false] at hs
    have hlen : (strip n).length = n.length + 1 := by
      rw [← strip_cons hs, h, List.length_cons]
    have := length_trim_le (p := isSpace) (l := n)
    unfold strip at hlen
    omega

theorem last_of_strip_eq (h : strip n = n) (hc : n.getLast? = some c) : isSpace c = false := by
  have hne : strip n ≠ [] := by
    rintro he
    rw [← h, he] at hc
    cases hc
  have hlast := List.rdropWhile_last_not isSpace (n.dropWhile isSpace) hne
  rw [← h, List.getLast?_eq_some_getLast hne, Option.some.injEq] at hc
  rw [← hc]
  exact Bool.eq_false_iff.mpr hlast

theorem mem_intercalate (h : c ∈ l.intercalate names) : c ∈ l ∨ ∃ n ∈ names, c ∈ n := by
  induction names with
  | nil => simp at h
  | cons n names ih =>
    cases names with
    | nil => exact Or.inr ⟨n, List.mem_cons_self, by simpa using h⟩
    | cons m names =>
      have hjoin : l.intercalate (n :: m :: names) = n ++ (l ++ l.intercalate (m :: names)) := by
        simp [List.intercalate]
      rw [hjoin, List.mem_append, List.mem_append] at h
      rcases h with h | h | h
      · exact Or.inr ⟨n, List.mem_cons_self, h⟩
      · exact Or.inl h
      · rcases ih h with h | ⟨k, hk, hc⟩
        · exact Or.inl h
        · exact Or.inr ⟨k, List.mem_cons_of_mem n hk, hc⟩

theorem head?_intercalate (h : n ≠ []) : (l.intercalate (n :: names)).head? = n.head? := by
  cases names with
  | nil => simp
  | cons m names =>
    simp [List.intercalate, List.head?_append_of_ne_nil _ h]

theorem getLast?_intercalate (h : ∀ n ∈ names, n ≠ []) (hne : names ≠ []) :
    (l.intercalate names).getLast? = (names.getLast hne).getLast? := by
  induction names with
  | nil => exact absurd rfl hne
  | cons n names ih =>
    cases names with
    | nil => simp
    | cons m names =>
      have hrest := ih (fun k hk => h k (List.mem_cons_of_mem n hk)) (by simp)
      have hjoin : l.intercalate (n :: m :: names) = (n ++ l) ++ l.intercalate (m :: names) := by
        simp [List.intercalate]
      have hlast : (m :: names).getLast (by simp) ≠ [] :=
        h _ (List.mem_cons_of_mem n (List.getLast_mem _))
      rw [hjoin, List.getLast_cons (by simp), ← hrest, List.getLast?_append_of_ne_nil]
      intro he
      rw [he] at hrest
      exact hlast (List.getLast?_eq_none_iff.mp hrest.symm)

theorem strip_intercalate (h : ∀ n ∈ names, Clean p n) : strip (l.intercalate names) = l.intercalate names := by
  cases names with
  | nil => simp [strip, trim]
  | cons n names =>
    have hn := h n List.mem_cons_self
    have hlast := h _ (List.getLast_mem (l := n :: names) (by simp))
    refine strip_eq_self (fun c hc => ?_) (fun c hc => ?_)
    · rw [head?_intercalate hn.ne_nil] at hc
      exact head_of_strip_eq hn.strip_eq hc
    · rw [getLast?_intercalate (fun m hm => (h m hm).ne_nil) (by simp)] at hc
      exact last_of_strip_eq hlast.strip_eq hc

/-! ## Lines -/

/-- The characters `str.splitlines` ends a line at. -/
def isLineEnd (c : Char) : Bool :=
  c ∈ ['\n', '\r', '\x0b', '\x0c', '\x1c', '\x1d', '\x1e', '\x85', '\u2028', '\u2029']

/-- A carriage return and a line feed are one line end. -/
def joinCrLf : List Char → List Char
  | '\r' :: '\n' :: l => '\n' :: joinCrLf l
  | c :: l => c :: joinCrLf l
  | [] => []

/-- `text.splitlines()`: a line end at the end of the text starts no other line. -/
def splitLines (l : List Char) : List (List Char) :=
  let lines := (joinCrLf l).splitOnP isLineEnd
  if lines.getLast? = some [] then lines.dropLast else lines

theorem joinCrLf_eq (h : '\r' ∉ l) : joinCrLf l = l := by
  induction l with
  | nil => rfl
  | cons c l ih =>
    rw [List.mem_cons, not_or] at h
    rw [joinCrLf.eq_2 _ _ (by rintro l' rfl; exact absurd rfl h.1), ih h.2]

/-- `replace("\r\n", "\n").replace("\r", "\n")`, which is how a text file is read. -/
def newlines (l : List Char) : List Char := (joinCrLf l).map fun c => if c = '\r' then '\n' else c

theorem newlines_eq_self : newlines l = l ↔ '\r' ∉ l := by
  constructor
  · intro h hmem
    rw [← h] at hmem
    obtain ⟨c, -, hc⟩ := List.mem_map.mp hmem
    split at hc
    · cases hc
    · contradiction
  · intro h
    rw [newlines, joinCrLf_eq h, List.map_congr_left, List.map_id]
    intro c hc
    exact if_neg fun he : c = '\r' => h (he ▸ hc)

theorem newlines_eq_nil : newlines l = [] ↔ l = [] := by
  unfold newlines
  rw [List.map_eq_nil_iff]
  constructor
  · intro h
    unfold joinCrLf at h
    split at h
    · cases h
    · cases h
    · rfl
  · rintro rfl
    rfl

theorem mem_splitLines (h : n ∈ splitLines l) (hc : c ∈ n) : isLineEnd c = false := by
  have hmem : n ∈ (joinCrLf l).splitOnP isLineEnd := by
    unfold splitLines at h
    simp only at h
    split at h
    · exact (List.dropLast_prefix _).mem h
    · exact h
  exact (mem_of_mem_splitOnP hmem c hc).1

theorem filter_strip_splitLines (l : List Char) :
    ((splitLines l).map strip).filter (· ≠ []) = pieces isLineEnd (joinCrLf l) := by
  unfold splitLines pieces
  dsimp only
  split
  · rename_i hlast
    obtain ⟨front, hf⟩ := List.getLast?_eq_some_iff.mp hlast
    rw [hf]
    simp [strip, trim]
  · rfl

def writeLines (lines : List (List Char)) : List Char := ['\n'].intercalate lines ++ ['\n']

/-- A text without its final newline. -/
def dropNewline (l : List Char) : List Char := if l.getLast? = some '\n' then l.dropLast else l

@[simp] theorem dropNewline_append (l : List Char) : dropNewline (l ++ ['\n']) = l := by
  simp [dropNewline]

theorem writeLines_eq_flatMap (h : names ≠ []) : writeLines names = names.flatMap (· ++ ['\n']) := by
  induction names with
  | nil => exact absurd rfl h
  | cons n names ih =>
    cases names with
    | nil => simp [writeLines]
    | cons m names =>
      rw [List.flatMap_cons, ← ih (by simp), writeLines, writeLines]
      simp [List.intercalate]

/-- With an empty line at the end every line has its newline. -/
theorem intercalate_append_nil (names : List (List Char)) :
    ['\n'].intercalate (names ++ [[]]) = names.flatMap (· ++ ['\n']) := by
  induction names with
  | nil => rfl
  | cons n names ih =>
    rw [List.flatMap_cons, ← ih]
    cases names <;> simp [List.intercalate]

theorem splitOnP_flatMap (h : ∀ n ∈ names, ∀ c ∈ n, isLineEnd c = false) :
    (names.flatMap (· ++ ['\n'])).splitOnP isLineEnd = names ++ [[]] := by
  induction names with
  | nil => rfl
  | cons n names ih =>
    rw [List.flatMap_cons, List.append_assoc, List.singleton_append,
      List.splitOnP_append_cons _ _ (by decide), List.splitOnP_eq_singleton (h n List.mem_cons_self),
      ih fun m hm => h m (List.mem_cons_of_mem n hm)]
    rfl

theorem splitLines_writeLines (hne : names ≠ []) (h : ∀ n ∈ names, ∀ c ∈ n, isLineEnd c = false) :
    splitLines (writeLines names) = names := by
  have hreturn : '\r' ∉ names.flatMap (· ++ ['\n']) := by
    intro hmem
    obtain ⟨n, hn, hc⟩ := List.mem_flatMap.mp hmem
    rcases List.mem_append.mp hc with hc | hc
    · exact absurd (h n hn _ hc) (by decide)
    · exact absurd hc (by decide)
  unfold splitLines
  rw [writeLines_eq_flatMap hne, joinCrLf_eq hreturn, splitOnP_flatMap h]
  simp

theorem isLineEnd_writeLines (h : ∀ n ∈ names, ∀ c ∈ n, isLineEnd c = false) (hc : c ∈ writeLines names)
    (hend : isLineEnd c = true) : c = '\n' := by
  rcases List.mem_append.mp hc with hc | hc
  · rcases mem_intercalate hc with hc | ⟨n, hn, hc⟩
    · simpa using hc
    · rw [h n hn c hc] at hend
      cases hend
  · simpa using hc

/-- The lines of a text that ends them with newlines only are the text. -/
theorem intercalate_splitOnP (h : ∀ c ∈ l, isLineEnd c = true → c = '\n') :
    ['\n'].intercalate (l.splitOnP isLineEnd) = l := by
  induction l with
  | nil => rfl
  | cons c l ih =>
    have hrest := ih fun d hd => h d (List.mem_cons_of_mem c hd)
    obtain ⟨n, rest, hsplit⟩ := List.exists_cons_of_ne_nil (List.splitOnP_ne_nil isLineEnd l)
    rw [hsplit] at hrest
    rw [List.splitOnP_cons_eq_if_modifyHead, hsplit]
    split
    next hc =>
      rw [h c List.mem_cons_self hc, ← hrest]
      simp [List.intercalate]
    next =>
      rw [List.modifyHead_cons, ← hrest]
      cases rest <;> simp [List.intercalate]

/-- Written again, the lines are the text up to its final newline. -/
theorem dropNewline_flatMap_splitLines (h : ∀ c ∈ l, isLineEnd c = true → c = '\n') :
    dropNewline ((splitLines l).flatMap (· ++ ['\n'])) = dropNewline l := by
  have hreturn : '\r' ∉ l := fun hc => absurd (h _ hc (by decide)) (by decide)
  have hjoin := intercalate_splitOnP h
  unfold splitLines
  rw [joinCrLf_eq hreturn]
  dsimp only
  by_cases hlast : (l.splitOnP isLineEnd).getLast? = some []
  · obtain ⟨front, hfront⟩ := List.getLast?_eq_some_iff.mp hlast
    rw [hfront, intercalate_append_nil] at hjoin
    rw [if_pos hlast, hfront, List.dropLast_concat, hjoin]
  · have hwrite := writeLines_eq_flatMap (List.splitOnP_ne_nil isLineEnd l)
    rw [if_neg hlast, ← hwrite, writeLines, dropNewline_append, hjoin, dropNewline, if_neg]
    intro hend
    obtain ⟨front, rfl⟩ := List.getLast?_eq_some_iff.mp hend
    apply hlast
    rw [List.splitOnP_append_cons _ _ (by decide)]
    simp

theorem mem_dropNewline (hc : c ∈ l) : c ∈ dropNewline l ∨ c = '\n' := by
  unfold dropNewline
  split
  next hlast =>
    obtain ⟨front, rfl⟩ := List.getLast?_eq_some_iff.mp hlast
    simpa using hc
  · exact Or.inl hc

theorem mem_of_mem_dropNewline (hc : c ∈ dropNewline l) : c ∈ l := by
  unfold dropNewline at hc
  split at hc
  · exact (List.dropLast_prefix l).mem hc
  · exact hc

theorem length_dropNewline_le (l : List Char) : (dropNewline l).length ≤ l.length := by
  unfold dropNewline
  split
  · exact (List.dropLast_prefix l).length_le
  · exact le_refl _

end EasyHaProxy.Text
