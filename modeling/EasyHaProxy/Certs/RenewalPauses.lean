import EasyHaProxy.Lib.Ini
import EasyHaProxy.Lib.Lowered
import EasyHaProxy.Lib.Pieces

/-! `_renewal_text_with_pause` edits a lineage's renewal file line by line; certbot reads the file as an INI
document. -/
namespace EasyHaProxy.Certs.Pauses

open EasyHaProxy.Text EasyHaProxy.Python

/-! ## The edit -/

/-- `RENEWAL_PAUSE_MARKER`. -/
def renewalPauseMarker : List Char :=
  ['#', ' ', 'e', 'a', 's', 'y', '-', 'h', 'a', '-', 'p', 'r', 'o', 'x', 'y', ':', ' ', 'r', 'e',
   'n', 'e', 'w', 'a', 'l', ' ', 'p', 'a', 'u', 's', 'e', 'd', ' ', 'f', 'r', 'o', 'm', ' ', 't',
   'h', 'e', ' ', 'p', 'a', 'n', 'e', 'l']

def renewalparams : List Char := ['r', 'e', 'n', 'e', 'w', 'a', 'l', 'p', 'a', 'r', 'a', 'm', 's']

/-- `[renewalparams]` -/
def sectionLine : List Char := '[' :: (renewalparams ++ [']'])

/-- `autorenew = False` -/
def pauseLine : List Char :=
  ['a', 'u', 't', 'o', 'r', 'e', 'n', 'e', 'w', ' ', '=', ' ', 'F', 'a', 'l', 's', 'e']

def isMarker (line : List Char) : Bool := Text.strip line == renewalPauseMarker

def isSection (line : List Char) : Bool := Text.strip line == sectionLine

/-- `line.strip().replace(" ", "").lower() == "autorenew=false"` -/
def isOff (line : List Char) : Bool :=
  lower ((Text.strip line).filter (· != ' ')) ==
    ['a', 'u', 't', 'o', 'r', 'e', 'n', 'e', 'w', '=', 'f', 'a', 'l', 's', 'e']

/-- The loop of `_renewal_text_with_pause`; `skipNext` is set after a marker. -/
def keptLines (skipNext : Bool) : List (List Char) → List (List Char)
  | [] => []
  | line :: rest =>
    if skipNext && isOff line then keptLines false rest
    else if isMarker line then keptLines true rest
    else line :: keptLines false rest

/-- The pause behind the first line that opens the section, which is put at the end if there is none. -/
def pausedLines (kept : List (List Char)) : List (List Char) :=
  match kept.findIdx? isSection with
  | none => kept ++ [sectionLine, renewalPauseMarker, pauseLine]
  | some i => kept.take (i + 1) ++ [renewalPauseMarker, pauseLine] ++ kept.drop (i + 1)

/-- `_renewal_text_with_pause`. -/
def renewalTextWithPause (text : List Char) (paused : Bool) : List Char :=
  let kept := keptLines false (splitLines text)
  writeLines (if paused then pausedLines kept else kept)

/-! ## What certbot reads -/

/-- certbot's reading of a line, as far as it is documented: a line that begins with `#` is a comment,
`[name]` opens a section, and `key = value` sets a key. -/
structure Reader where
  read : List Char → Ini.Line (List Char)
  comment : ∀ line, (Text.strip line).head? = some '#' → read line = .blank
  header : ∀ line name, Text.strip line = '[' :: (name ++ [']']) → name ≠ [] →
    (∀ c ∈ name, isAlpha c = true) → read line = .header 1 name
  entry : ∀ line key value, Text.strip line = key ++ '=' :: value → key ≠ [] →
    (∀ c ∈ key, isAlpha c = true ∨ c = ' ') → (∀ c ∈ value, isAlpha c = true ∨ c = ' ') →
    read line = .entry (Text.strip key) (Text.strip value)

variable (r : Reader)

def Reader.lines (text : List Char) : List (Ini.Line (List Char)) := (splitLines text).map r.read

/-- certbot takes the text. -/
def Reader.Accepts (text : List Char) : Prop := Ini.Accepted (r.lines text)

def autorenew : List Char := ['a', 'u', 't', 'o', 'r', 'e', 'n', 'e', 'w']

/-- The lines that are not the panel's: it wrote the markers, and the pause behind each. -/
def operatorLines (text : List Char) : List (List Char) := keptLines false (splitLines text)

/-- A renewal can be paused, and the pause taken back. -/
structure PausesWell (text : List Char) : Prop where
  accepted : r.Accepts (renewalTextWithPause text true)
  off : Ini.Sets (r.lines (renewalTextWithPause text true)) [renewalparams, autorenew]
    ['F', 'a', 'l', 's', 'e']
  kept : (operatorLines text).Sublist (splitLines (renewalTextWithPause text true))
  again : renewalTextWithPause (renewalTextWithPause text true) true = renewalTextWithPause text true
  undone : (∀ line ∈ splitLines text, isMarker line = false) →
    dropNewline (renewalTextWithPause (renewalTextWithPause text true) false) = dropNewline text

/-- The operator has no `autorenew` in the section and opens it by the plain line, or, where a pause is
in the text already, not at all; a text without one has that line, and newlines only. -/
structure Pausable (text : List Char) : Prop where
  unset : ¬ Ini.Declares ((operatorLines text).map r.read) [renewalparams, autorenew]
  unopened : (∀ line ∈ operatorLines text, isSection line = false) →
    ¬ Ini.Declares ((operatorLines text).map r.read) [renewalparams]
  plain : (∀ line ∈ splitLines text, isMarker line = false) →
    (∃ line ∈ splitLines text, isSection line = true) ∧ ∀ c ∈ text, isLineEnd c = true → c = '\n'

variable {r} {lines kept pre post : List (List Char)} {line text : List Char} {skip : Bool}

/-! ## The lines that are kept -/

theorem keptLines_cons_of_off (h : isOff line = true) : keptLines true (line :: lines) = keptLines false lines := by
  rw [keptLines, h]
  rfl

theorem keptLines_cons_of_marker (hoff : (skip && isOff line) = false) (h : isMarker line = true) :
    keptLines skip (line :: lines) = keptLines true lines := by
  rw [keptLines, if_neg (by simp [hoff]), if_pos h]

theorem keptLines_unmarked (h : ∀ line ∈ lines, isMarker line = false) : keptLines false lines = lines := by
  induction lines with
  | nil => rfl
  | cons line lines ih =>
    have hline := h line List.mem_cons_self
    rw [keptLines, if_neg (by simp), if_neg (by simp [hline]),
      ih fun l hl => h l (List.mem_cons_of_mem line hl)]

theorem unmarked_keptLines : ∀ line ∈ keptLines skip lines, isMarker line = false := by
  induction lines generalizing skip with
  | nil => simp [keptLines]
  | cons line lines ih =>
    rw [keptLines]
    split
    · exact ih
    · split
      · exact ih
      next hline =>
        intro l hl
        rcases List.mem_cons.mp hl with rfl | hl
        · simpa using hline
        · exact ih l hl

theorem keptLines_sublist : (keptLines skip lines).Sublist lines := by
  induction lines generalizing skip with
  | nil => exact List.Sublist.refl _
  | cons line lines ih =>
    rw [keptLines]
    split
    · exact ih.cons line
    · split
      · exact ih.cons line
      · exact ih.cons_cons line

/-- Before a marker nothing is skipped. -/
theorem keptLines_append (h : ∀ line ∈ pre, isMarker line = false) :
    keptLines false (pre ++ lines) = pre ++ keptLines false lines := by
  induction pre with
  | nil => rfl
  | cons line pre ih =>
    have hline := h line List.mem_cons_self
    rw [List.cons_append, keptLines, if_neg (by simp), if_neg (by simp [hline]),
      ih fun l hl => h l (List.mem_cons_of_mem line hl), List.cons_append]

theorem isMarker_renewalPauseMarker : isMarker renewalPauseMarker = true := by decide

theorem isOff_pauseLine : isOff pauseLine = true := by decide

theorem not_isMarker_sectionLine : isMarker sectionLine = false := by decide

/-- The pause is taken out where it was put in. -/
theorem keptLines_paused (hpre : ∀ line ∈ pre, isMarker line = false)
    (hpost : ∀ line ∈ post, isMarker line = false) :
    keptLines false (pre ++ renewalPauseMarker :: pauseLine :: post) = pre ++ post := by
  rw [keptLines_append hpre, keptLines_cons_of_marker rfl isMarker_renewalPauseMarker,
    keptLines_cons_of_off isOff_pauseLine, keptLines_unmarked hpost]

/-! ## Where the pause goes -/

/-- The lines with the section's, which is put at the end if there is none. -/
def sectioned (kept : List (List Char)) : List (List Char) :=
  if kept.any isSection then kept else kept ++ [sectionLine]

theorem pausedLines_at (hpre : ∀ line ∈ pre, isSection line = false) (h : isSection line = true) :
    pausedLines (pre ++ line :: post) = pre ++ line :: renewalPauseMarker :: pauseLine :: post := by
  have hfind : (pre ++ line :: post).findIdx? isSection = some pre.length := by
    rw [List.findIdx?_append, List.findIdx?_eq_none_iff.mpr hpre, List.findIdx?_cons, if_pos h]
    simp
  unfold pausedLines
  rw [hfind]
  simp [List.take_append, List.drop_append, List.take_of_length_le, List.drop_of_length_le]

theorem pausedLines_none (h : ∀ line ∈ kept, isSection line = false) :
    pausedLines kept = kept ++ [sectionLine, renewalPauseMarker, pauseLine] := by
  unfold pausedLines
  rw [List.findIdx?_eq_none_iff.mpr h]

theorem isSection_sectionLine : isSection sectionLine = true := by decide

/-- The pause stands behind the first line that opens the section. -/
theorem pausedLines_eq (kept : List (List Char)) : ∃ pre line post, sectioned kept = pre ++ line :: post ∧
    (∀ l ∈ pre, isSection l = false) ∧ isSection line = true ∧
      pausedLines kept = pre ++ line :: renewalPauseMarker :: pauseLine :: post := by
  unfold sectioned
  cases hfind : kept.find? isSection with
  | none =>
    have hnone : ∀ l ∈ kept, isSection l = false := by simpa using hfind
    refine ⟨kept, sectionLine, [], ?_, hnone, isSection_sectionLine, pausedLines_none hnone⟩
    rw [if_neg]
    simpa using hnone
  | some line =>
    obtain ⟨h, pre, post, rfl, hpre⟩ := List.find?_eq_some_iff_append.mp hfind
    have hpre : ∀ l ∈ pre, isSection l = false := by simpa using hpre
    exact ⟨pre, line, post, if_pos (by simp [h]), hpre, h, pausedLines_at hpre h⟩

theorem unmarked_sectioned (h : ∀ line ∈ kept, isMarker line = false) :
    ∀ line ∈ sectioned kept, isMarker line = false := by
  unfold sectioned
  split
  · exact h
  · intro line hline
    rcases List.mem_append.mp hline with hline | hline
    · exact h line hline
    · rw [List.mem_singleton.mp hline]
      exact not_isMarker_sectionLine

theorem keptLines_pausedLines (h : ∀ line ∈ kept, isMarker line = false) :
    keptLines false (pausedLines kept) = sectioned kept := by
  obtain ⟨pre, line, post, hsplit, -, -, heq⟩ := pausedLines_eq kept
  have hunmarked := unmarked_sectioned h
  rw [hsplit] at hunmarked ⊢
  have hparts : pre ++ line :: post = (pre ++ [line]) ++ post := by simp
  have hpaused : pausedLines kept = (pre ++ [line]) ++ renewalPauseMarker :: pauseLine :: post := by simp [heq]
  rw [hparts] at hunmarked ⊢
  rw [hpaused, keptLines_paused (fun l hl => hunmarked l (List.mem_append_left _ hl))
    fun l hl => hunmarked l (List.mem_append_right _ hl)]

theorem pausedLines_sectioned (kept : List (List Char)) : pausedLines (sectioned kept) = pausedLines kept := by
  obtain ⟨pre, line, post, hsplit, hpre, hline, heq⟩ := pausedLines_eq kept
  rw [hsplit, heq, pausedLines_at hpre hline]

/-! ## What certbot makes of the panel's lines -/

theorem read_marker (h : isMarker line = true) : r.read line = .blank := by
  refine r.comment line ?_
  rw [eq_of_beq h]
  rfl

theorem read_section (h : isSection line = true) : r.read line = .header 1 renewalparams :=
  r.header line renewalparams (eq_of_beq h) (by decide) (List.all_eq_true.mp (by decide))

theorem letters_of_all {l : List Char} (h : l.all (fun c => isAlpha c || c == ' ') = true) :
    ∀ c ∈ l, isAlpha c = true ∨ c = ' ' := by
  intro c hc
  simpa using List.all_eq_true.mp h c hc

theorem read_pauseLine : r.read pauseLine = .entry autorenew ['F', 'a', 'l', 's', 'e'] :=
  r.entry pauseLine (autorenew ++ [' ']) [' ', 'F', 'a', 'l', 's', 'e'] (by decide) (by decide)
    (letters_of_all (by decide)) (letters_of_all (by decide))

theorem isAlpha_of_lowerChar {c : Char} (h : isAlpha (lowerChar c) = true) (hk : lowerChar c ≠ 'k') :
    isAlpha c = true := by
  rcases lowerChar_cases c with hc | ⟨hc | rfl, -⟩
  · rwa [hc] at h
  · exact hc
  · exact absurd (by decide) hk

theorem eq_of_lowerChar_eq {c d : Char} (h : lowerChar c = d) (hd : isAlpha d = false) : c = d := by
  rcases lowerChar_cases c with hc | ⟨-, hl⟩
  · rw [← h, hc]
  · rw [h, hd] at hl
    cases hl

theorem letters_of_word {l word : List Char} (h : (l.filter (· != ' ')).map lowerChar = word)
    (hword : word.all (fun c => isAlpha c && c != 'k') = true) : ∀ c ∈ l, isAlpha c = true ∨ c = ' ' := by
  intro c hc
  by_cases hblank : c = ' '
  · exact Or.inr hblank
  · left
    have hmem : lowerChar c ∈ word := by
      rw [← h]
      exact List.mem_map_of_mem (List.mem_filter.mpr ⟨hc, by simpa using hblank⟩)
    have hletter := List.all_eq_true.mp hword _ hmem
    rw [Bool.and_eq_true, bne_iff_ne] at hletter
    exact isAlpha_of_lowerChar hletter.1 hletter.2

/-- What is taken for the pause behind a marker sets a key. -/
theorem read_off (h : isOff line = true) : ∃ key value, r.read line = .entry key value := by
  have heq : ((Text.strip line).filter (· != ' ')).map lowerChar = autorenew ++ ['=', 'f', 'a', 'l', 's', 'e'] :=
    eq_of_beq h
  obtain ⟨left, right, hfilter, hleft, hright⟩ := List.map_eq_append_iff.mp heq
  obtain ⟨mark, value, rfl, hmark, hvalue⟩ := List.map_eq_cons_iff.mp hright
  obtain rfl : mark = '=' := eq_of_lowerChar_eq hmark (by decide)
  obtain ⟨a, b, hsplit, rfl, hb⟩ := List.filter_eq_append_iff.mp hfilter
  obtain ⟨blanks, c, rfl, hblanks, -, rfl⟩ := List.filter_eq_cons_iff.mp hb
  have hkey : ∀ x ∈ a ++ blanks, isAlpha x = true ∨ x = ' ' := by
    intro x hx
    rcases List.mem_append.mp hx with hx | hx
    · exact letters_of_word hleft (by decide) x hx
    · exact Or.inr (by simpa using hblanks x hx)
  have hne : a ++ blanks ≠ [] := by
    intro hnil
    rw [(List.append_eq_nil_iff.mp hnil).1] at hleft
    cases hleft
  exact ⟨_, _, r.entry line (a ++ blanks) c (by simp [hsplit]) hne hkey
    (letters_of_word hvalue (by decide))⟩

theorem without_keptLines : Ini.Without ((keptLines skip lines).map r.read) (lines.map r.read) := by
  induction lines generalizing skip with
  | nil => exact .nil
  | cons line lines ih =>
    rw [keptLines, List.map_cons]
    split
    next hskip =>
      rw [Bool.and_eq_true] at hskip
      obtain ⟨key, value, hread⟩ := read_off hskip.2 (r := r)
      rw [hread]
      exact .entry key value ih
    · split
      next hmarker =>
        rw [read_marker hmarker]
        exact .blank ih
      · exact .keep _ ih

/-! ## Acceptance -/

variable (r) in
theorem map_read_pausedLines (kept : List (List Char)) : ∃ front back,
    (sectioned kept).map r.read = front ++ Ini.Line.header 1 renewalparams :: back ∧
    (pausedLines kept).map r.read = (front ++ [Ini.Line.header 1 renewalparams]) ++
      Ini.Line.blank :: Ini.Line.entry autorenew ['F', 'a', 'l', 's', 'e'] :: back := by
  obtain ⟨pre, line, post, hsplit, -, hline, heq⟩ := pausedLines_eq kept
  refine ⟨pre.map r.read, post.map r.read, ?_, ?_⟩
  · rw [hsplit, List.map_append, List.map_cons, read_section hline]
  · rw [heq, List.map_append, List.map_cons, List.map_cons, List.map_cons, read_section hline,
      read_marker isMarker_renewalPauseMarker, read_pauseLine]
    simp

theorem accepted_blank_iff {front back : List (Ini.Line (List Char))} :
    Ini.Accepted (front ++ Ini.Line.blank :: back) ↔ Ini.Accepted (front ++ back) := by
  unfold Ini.Accepted
  rw [Ini.declared_insert_blank]

theorem accepted_pausedLines_iff : Ini.Accepted ((pausedLines kept).map r.read) ↔
    Ini.Accepted ((sectioned kept).map r.read) ∧
      ¬ Ini.Declares ((sectioned kept).map r.read) [renewalparams, autorenew] := by
  obtain ⟨front, back, hsectioned, hpaused⟩ := map_read_pausedLines r kept
  rw [hsectioned, hpaused, accepted_blank_iff, List.append_assoc, List.singleton_append]
  constructor
  · intro h
    have hwithout (front : List (Ini.Line (List Char))) :
        Ini.Without (front ++ Ini.Line.header 1 renewalparams :: back)
          (front ++ Ini.Line.header 1 renewalparams :: Ini.Line.entry autorenew ['F', 'a', 'l', 's', 'e'] :: back) := by
      induction front with
      | nil => exact .keep _ (.entry _ _ (Ini.Without.refl back))
      | cons line front ih => exact .keep line ih
    have haccepted := (hwithout front).accepted h
    exact ⟨haccepted, (Ini.accepted_insert haccepted).mp h⟩
  · rintro ⟨haccepted, hunset⟩
    exact (Ini.accepted_insert haccepted).mpr hunset

theorem sets_pausedLines (h : Ini.Accepted ((pausedLines kept).map r.read)) :
    Ini.Sets ((pausedLines kept).map r.read) [renewalparams, autorenew] ['F', 'a', 'l', 's', 'e'] := by
  obtain ⟨front, back, -, hpaused⟩ := map_read_pausedLines r kept
  rw [hpaused, accepted_blank_iff, List.append_assoc, List.singleton_append] at h
  obtain ⟨d, hd, hmem⟩ := Ini.sets_insert h
  refine ⟨d, ?_, hmem⟩
  rw [hpaused, Ini.declared_insert_blank, List.append_assoc, List.singleton_append, hd]

theorem sectioned_cases (kept : List (List Char)) :
    (∃ line ∈ kept, isSection line = true) ∧ sectioned kept = kept ∨
      (∀ line ∈ kept, isSection line = false) ∧ sectioned kept = kept ++ [sectionLine] := by
  unfold sectioned
  by_cases h : kept.any isSection = true
  · exact Or.inl ⟨List.any_eq_true.mp h, if_pos h⟩
  · exact Or.inr ⟨by simpa using h, if_neg h⟩

theorem map_read_sectionLine (kept : List (List Char)) :
    (kept ++ [sectionLine]).map r.read = kept.map r.read ++ [Ini.Line.header 1 renewalparams] := by
  rw [List.map_append, List.map_singleton, read_section isSection_sectionLine]

theorem accepted_sectioned_iff (h : Ini.Accepted (kept.map r.read)) :
    Ini.Accepted ((sectioned kept).map r.read) ↔
      ((∀ line ∈ kept, isSection line = false) → ¬ Ini.Declares (kept.map r.read) [renewalparams]) := by
  rcases sectioned_cases kept with ⟨⟨line, hmem, hline⟩, heq⟩ | ⟨hnone, heq⟩
  · refine iff_of_true (by rwa [heq]) fun hnone => ?_
    rw [hnone line hmem] at hline
    cases hline
  · rw [heq, map_read_sectionLine, Ini.accepted_append_header h]
    exact ⟨fun hnot _ => hnot, fun himp => himp hnone⟩

theorem declares_sectioned_iff (h : Ini.Accepted (kept.map r.read)) :
    Ini.Declares ((sectioned kept).map r.read) [renewalparams, autorenew] ↔
      Ini.Declares (kept.map r.read) [renewalparams, autorenew] := by
  rcases sectioned_cases kept with ⟨-, heq⟩ | ⟨-, heq⟩
  · rw [heq]
  · rw [heq, map_read_sectionLine, Ini.declares_append_header h]
    exact or_iff_left (by simp)

/-! ## Taking the pause back -/

theorem lineEnd_of_all {l : List Char} (h : l.all (fun c => !isLineEnd c) = true) :
    ∀ c ∈ l, isLineEnd c = false := by
  intro c hc
  simpa using List.all_eq_true.mp h c hc

theorem lineEnd_sectioned (h : ∀ line ∈ kept, ∀ c ∈ line, isLineEnd c = false) :
    ∀ line ∈ sectioned kept, ∀ c ∈ line, isLineEnd c = false := by
  intro line hline
  rcases sectioned_cases kept with ⟨-, heq⟩ | ⟨-, heq⟩
  · exact h line (heq ▸ hline)
  · rcases List.mem_append.mp (heq ▸ hline) with hline | hline
    · exact h line hline
    · rw [List.mem_singleton.mp hline]
      exact lineEnd_of_all (by decide)

theorem lineEnd_pausedLines (h : ∀ line ∈ kept, ∀ c ∈ line, isLineEnd c = false) :
    ∀ line ∈ pausedLines kept, ∀ c ∈ line, isLineEnd c = false := by
  obtain ⟨pre, opening, post, hsplit, -, -, heq⟩ := pausedLines_eq kept
  have hsectioned := lineEnd_sectioned h
  have hmarker : ∀ c ∈ renewalPauseMarker, isLineEnd c = false := lineEnd_of_all (by decide)
  have hpause : ∀ c ∈ pauseLine, isLineEnd c = false := lineEnd_of_all (by decide)
  rw [hsplit] at hsectioned
  rw [heq]
  intro line hline
  simp only [List.mem_append, List.mem_cons] at hline hsectioned
  rcases hline with hline | rfl | rfl | rfl | hline
  · exact hsectioned line (Or.inl hline)
  · exact hsectioned _ (Or.inr (Or.inl rfl))
  · exact hmarker
  · exact hpause
  · exact hsectioned line (Or.inr (Or.inr hline))

theorem lineEnd_operatorLines (text : List Char) :
    ∀ line ∈ operatorLines text, ∀ c ∈ line, isLineEnd c = false :=
  fun _ hline _ hc => mem_splitLines (keptLines_sublist.mem hline) hc

theorem pausedLines_ne_nil (kept : List (List Char)) : pausedLines kept ≠ [] := by
  obtain ⟨pre, line, post, -, -, -, heq⟩ := pausedLines_eq kept
  rw [heq]
  simp

theorem splitLines_pause (text : List Char) :
    splitLines (renewalTextWithPause text true) = pausedLines (operatorLines text) :=
  splitLines_writeLines (pausedLines_ne_nil _) (lineEnd_pausedLines (lineEnd_operatorLines text))

theorem operatorLines_pause (text : List Char) :
    operatorLines (renewalTextWithPause text true) = sectioned (operatorLines text) := by
  rw [operatorLines, splitLines_pause]
  exact keptLines_pausedLines unmarked_keptLines

theorem unpause_pause (text : List Char) :
    renewalTextWithPause (renewalTextWithPause text true) false = writeLines (sectioned (operatorLines text)) := by
  rw [← operatorLines_pause]
  rfl

/-- Without a pause of the panel's in it, a text comes back where the section was there and only
newlines end its lines. -/
theorem undone_iff (hplain : ∀ line ∈ splitLines text, isMarker line = false) :
    dropNewline (renewalTextWithPause (renewalTextWithPause text true) false) = dropNewline text ↔
      (∃ line ∈ splitLines text, isSection line = true) ∧ ∀ c ∈ text, isLineEnd c = true → c = '\n' := by
  have hall : operatorLines text = splitLines text := keptLines_unmarked hplain
  have hclean := lineEnd_sectioned (lineEnd_operatorLines text)
  rw [unpause_pause]
  rw [hall] at hclean ⊢
  constructor
  · intro heq
    have hends : ∀ c ∈ text, isLineEnd c = true → c = '\n' := by
      intro c hc hend
      rcases mem_dropNewline hc with hc | hc
      · rw [← heq] at hc
        exact isLineEnd_writeLines hclean (mem_of_mem_dropNewline hc) hend
      · exact hc
    refine ⟨?_, hends⟩
    rcases sectioned_cases (splitLines text) with ⟨hsection, -⟩ | ⟨-, hnew⟩
    · exact hsection
    · -- the section's line is one more than the text has
      have hlength := congrArg List.length heq
      have hle := length_dropNewline_le ((splitLines text).flatMap (· ++ ['\n']))
      rw [hnew, writeLines_eq_flatMap (by simp), List.flatMap_append, List.flatMap_singleton, ← List.append_assoc,
        dropNewline_append, ← dropNewline_flatMap_splitLines hends, List.length_append] at hlength
      have hpos : 0 < sectionLine.length := by decide
      omega
  · rintro ⟨⟨line, hmem, hline⟩, hends⟩
    rcases sectioned_cases (splitLines text) with ⟨-, heq⟩ | ⟨hnone, -⟩
    · rw [heq, writeLines_eq_flatMap (List.ne_nil_of_mem hmem), dropNewline_flatMap_splitLines hends]
    · rw [hnone line hmem] at hline
      cases hline

theorem pause_eq (text : List Char) : renewalTextWithPause text true = writeLines (pausedLines (operatorLines text)) :=
  rfl

theorem pause_pause (text : List Char) :
    renewalTextWithPause (renewalTextWithPause text true) true = renewalTextWithPause text true := by
  rw [pause_eq (renewalTextWithPause text true), operatorLines_pause, pausedLines_sectioned, pause_eq]

theorem operatorLines_sublist (text : List Char) :
    (operatorLines text).Sublist (splitLines (renewalTextWithPause text true)) := by
  rw [splitLines_pause]
  obtain ⟨pre, line, post, hsplit, -, -, heq⟩ := pausedLines_eq (operatorLines text)
  have hsub : (sectioned (operatorLines text)).Sublist (pausedLines (operatorLines text)) := by
    rw [hsplit, heq]
    exact (List.Sublist.refl pre).append ((((List.Sublist.refl post).cons _).cons _).cons_cons line)
  rcases sectioned_cases (operatorLines text) with ⟨-, hsame⟩ | ⟨-, hnew⟩
  · rwa [hsame] at hsub
  · rw [hnew] at hsub
    exact (List.sublist_append_left _ _).trans hsub

/-- Of the texts certbot takes, exactly these can be paused and have the pause taken back. -/
theorem pausesWell_iff (r : Reader) (text : List Char) (h : r.Accepts text) :
    PausesWell r text ↔ Pausable r text := by
  have hkept : Ini.Accepted ((operatorLines text).map r.read) := without_keptLines.accepted h
  have haccepted : r.Accepts (renewalTextWithPause text true) ↔
      ((∀ line ∈ operatorLines text, isSection line = false) →
        ¬ Ini.Declares ((operatorLines text).map r.read) [renewalparams]) ∧
      ¬ Ini.Declares ((operatorLines text).map r.read) [renewalparams, autorenew] := by
    rw [Reader.Accepts, Reader.lines, splitLines_pause, accepted_pausedLines_iff, accepted_sectioned_iff hkept,
      declares_sectioned_iff hkept]
  constructor
  · rintro ⟨hacc, -, -, -, hundone⟩
    obtain ⟨hunopened, hunset⟩ := haccepted.mp hacc
    exact ⟨hunset, hunopened, fun hplain => (undone_iff hplain).mp (hundone hplain)⟩
  · rintro ⟨hunset, hunopened, hplain⟩
    have hacc := haccepted.mpr ⟨hunopened, hunset⟩
    refine ⟨hacc, ?_, operatorLines_sublist text, pause_pause text, fun hp => (undone_iff hp).mpr (hplain hp)⟩
    rw [Reader.Accepts, Reader.lines, splitLines_pause] at hacc
    rw [Reader.lines, splitLines_pause]
    exact sets_pausedLines hacc

/-! ## A file of certbot's -/

/-- Sections of the first level, comments and keys. -/
def readPlain (line : List Char) : Ini.Line (List Char) :=
  match Text.strip line with
  | [] => .blank
  | c :: rest =>
    if c = '#' then .blank
    else if c = '[' then (if rest.getLast? = some ']' then .header 1 rest.dropLast else .wrong)
    else if '=' ∈ c :: rest then
      .entry (Text.strip ((c :: rest).takeWhile (· != '=')))
        (Text.strip (((c :: rest).dropWhile (· != '=')).drop 1))
    else .wrong

theorem takeWhile_key {key value : List Char} (h : ∀ c ∈ key, isAlpha c = true ∨ c = ' ') :
    (key ++ '=' :: value).takeWhile (· != '=') = key ∧
      (key ++ '=' :: value).dropWhile (· != '=') = '=' :: value := by
  have hkey : ∀ c ∈ key, (c != '=') = true := by
    intro c hc
    rw [bne_iff_ne]
    rintro rfl
    exact absurd (h _ hc) (by decide)
  rw [List.takeWhile_append_of_pos hkey, List.dropWhile_append_of_pos hkey]
  simp

def plainReader : Reader where
  read := readPlain
  comment line h := by
    obtain ⟨rest, hstrip⟩ := List.head?_eq_some_iff.mp h
    rw [readPlain, hstrip]
    rfl
  header line name h _ _ := by
    rw [readPlain, h]
    dsimp only
    rw [if_neg (by decide), if_pos rfl, if_pos (by simp), List.dropLast_concat]
  entry line key value h hne hkey _ := by
    obtain ⟨c, key, rfl⟩ := List.exists_cons_of_ne_nil hne
    have hc : isAlpha c = true := by
      refine (hkey c List.mem_cons_self).resolve_right ?_
      rintro rfl
      have hspace := head_of_strip_eq (n := Text.strip line) strip_strip (by rw [h]; rfl)
      exact absurd hspace (by decide)
    obtain ⟨htake, hdrop⟩ := @takeWhile_key _ value hkey
    rw [List.cons_append] at h htake hdrop
    rw [readPlain, h]
    dsimp only
    rw [if_neg, if_neg, if_pos (by simp), htake, hdrop, List.drop_one, List.tail_cons]
    all_goals
      rintro rfl
      exact absurd hc (by decide)

/-- `autorenew = True`, set by the operator. -/
def operated : List Char := sectionLine ++
  ['\n', 'a', 'u', 't', 'o', 'r', 'e', 'n', 'e', 'w', ' ', '=', ' ', 'T', 'r', 'u', 'e', '\n']

/-- The text is taken, and with the pause in it there are two keys `autorenew`. -/
theorem operated_not_paused : ¬ (plainReader.Accepts operated → PausesWell plainReader operated) := by
  intro h
  have haccepts : plainReader.Accepts operated := ⟨_, rfl, by decide⟩
  obtain ⟨d, hd, hnodup⟩ := (h haccepts).accepted
  have hpaused : Ini.declared [] (plainReader.lines (renewalTextWithPause operated true)) =
      some [([renewalparams], none), ([renewalparams, autorenew], some ['F', 'a', 'l', 's', 'e']),
        ([renewalparams, autorenew], some ['T', 'r', 'u', 'e'])] := by decide
  rw [hpaused] at hd
  rw [← Option.some.inj hd] at hnodup
  revert hnodup
  decide

def issued : List Char := sectionLine ++
  ['\n', 's', 'e', 'r', 'v', 'e', 'r', ' ', '=', ' ', 'a', 'c', 'm', 'e', '\n']

theorem issued_pausesWell : PausesWell plainReader issued := by
  refine (pausesWell_iff plainReader issued ⟨_, rfl, by decide⟩).mpr ⟨?_, ?_, ?_⟩
  · rintro ⟨d, hd, hmem⟩
    rw [← Option.some.inj hd] at hmem
    revert hmem
    decide
  · intro hnone
    exact absurd (hnone sectionLine (by decide)) (by decide)
  · intro _
    have hends : issued.all (fun c => !isLineEnd c || c == '\n') = true := by decide
    refine ⟨⟨sectionLine, by decide, by decide⟩, fun c hc hend => ?_⟩
    simpa [hend] using List.all_eq_true.mp hends c hc

end EasyHaProxy.Certs.Pauses
