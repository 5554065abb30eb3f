import EasyHaProxy.Lib.Decimal
import EasyHaProxy.Lib.Lowered
import EasyHaProxy.Lib.RegexSearch
import Mathlib.Data.List.Forall2

/-! The running configuration is compared with the rendered one less the value of the generation marker,
which differs without being drift. -/
namespace EasyHaProxy.Panel.Drift

open Regex Text

/-- `[ \t]` -/
def isBlank (c : Char) : Bool := c == ' ' || c == '\t'

/-- `[0-9a-f]`, in either case. -/
def isHex (c : Char) : Bool := (Python.hexValue c).isSome

/-- A letter of a pattern in either case; four letters beyond ASCII have an ASCII letter as their other case. -/
def sameLetter (p c : Char) : Bool :=
  c.toLower == p.toLower || p.toLower == 'i' && (c == 'İ' || c == 'ı') || p.toLower == 's' && c == 'ſ' ||
    p.toLower == 'k' && c == '\u212a'

def letters (text : List Char) : Expr := .all (text.map fun p => .chars (sameLetter p))

def httpRequest : List Char := ['h', 't', 't', 'p', '-', 'r', 'e', 'q', 'u', 'e', 's', 't']

def setHeader : List Char := ['s', 'e', 't', '-', 'h', 'e', 'a', 'd', 'e', 'r']

/-- `CONFIG_GENERATION_HEADER` -/
def generationHeader : List Char :=
  ['X', '-', 'E', 'a', 's', 'y', '-', 'H', 'A', 'P', 'r', 'o', 'x', 'y', '-', 'C', 'o', 'n', 'f', 'i', 'g', '-',
    'G', 'e', 'n', 'e', 'r', 'a', 't', 'i', 'o', 'n']

def hostAdmin : List Char := ['h', 'o', 's', 't', '_', 'a', 'd', 'm', 'i', 'n']

/-- The first group of the directive. -/
def front : Expr :=
  .all [.star (.chars isBlank), letters httpRequest, .plus (.chars isBlank), letters setHeader,
    .plus (.chars isBlank), letters generationHeader, .plus (.chars isBlank)]

/-- The second. -/
def back : Expr :=
  .all [.plus (.chars isBlank), letters ['i', 'f'], .plus (.chars isBlank), letters hostAdmin,
    .star (.chars isBlank)]

/-- The third. -/
def carriageReturn : Expr := .upTo (.chars (· == '\r')) 1

def generation : Expr := .exactly (.chars isHex) 64

/-- `CONFIG_GENERATION_DIRECTIVE_RE`, from the start of a line. -/
def directive : Expr :=
  .seq (.group "1" front) (.seq generation (.seq (.group "2" back) (.seq (.group "3" carriageReturn) .finish)))

def mask : List Char :=
  ['<', 'c', 'o', 'n', 'f', 'i', 'g', '-', 'g', 'e', 'n', 'e', 'r', 'a', 't', 'i', 'o', 'n', '>']

/-- The substitution in a line. -/
def maskLine (line : List Char) : List Char :=
  match matchStart directive line with
  | none => line
  | some m => m.group "1" ++ mask ++ m.group "2" ++ m.group "3"

def lines (text : List Char) : List (List Char) := text.splitOn '\n'

/-- `_config_for_operational_comparison`: no character of the directive is a newline, so each match is a line. -/
def configForOperationalComparison (text : List Char) : List Char := ['\n'].intercalate ((lines text).map maskLine)

/-- `configs_operationally_equal` -/
def configsOperationallyEqual (serverCfg renderedCfg : List Char) : Bool :=
  configForOperationalComparison serverCfg == configForOperationalComparison renderedCfg

variable {line a b f f' h h' k k' text s s' : List Char} {m : Match}

/-- The text is the word, in whatever case. -/
def Spells (word text : List Char) : Prop := List.Forall₂ (fun p c => sameLetter p c = true) word text

def Blanks (text : List Char) : Prop := ∀ c ∈ text, isBlank c = true

/-- The words of a text, each with blanks after it. -/
def Spaced : List (List Char) → List Char → Prop
  | [], text => text = []
  | word :: rest, text => ∃ spelled gap more, text = spelled ++ (gap ++ more) ∧ Spells word spelled ∧
    (gap ≠ [] ∧ Blanks gap) ∧ Spaced rest more

/-- `http-request set-header X-Easy-HAProxy-Config-Generation` and blanks. -/
def Front (f : List Char) : Prop :=
  ∃ margin text, f = margin ++ text ∧ Blanks margin ∧ Spaced [httpRequest, setHeader, generationHeader] text

/-- Blanks, `if host_admin` and the end of the line. -/
def Back (k : List Char) : Prop :=
  ∃ gap text word margin ending, k = gap ++ (text ++ (word ++ (margin ++ ending))) ∧ (gap ≠ [] ∧ Blanks gap) ∧
    Spaced [['i', 'f']] text ∧ Spells hostAdmin word ∧ Blanks margin ∧ (ending = [] ∨ ending = ['\r'])

/-- A line of the directive: what is before its value, the 64 digits, and what is after them. -/
structure Directive (f h k : List Char) : Prop where
  front : Front f
  value : h.length = 64 ∧ ∀ c ∈ h, isHex c = true
  back : Back k

/-! ## What the pattern reads -/

theorem reads_letters {word : List Char} : (letters word).Reads text ↔ Spells word text := by
  induction word generalizing text with
  | nil => exact List.forall₂_nil_left_iff.symm
  | cons p word ih =>
    constructor
    · rintro ⟨_, rest, rfl, ⟨c, rfl, hc⟩, hrest⟩
      exact .cons hc (ih.mp hrest)
    · rintro (_ | ⟨hc, hrest⟩)
      exact ⟨[_], _, rfl, ⟨_, rfl, hc⟩, ih.mpr hrest⟩

theorem reads_spaced {ws : List (List Char)} :
    (Expr.all (ws.flatMap fun word => [letters word, .plus (.chars isBlank)])).Reads text ↔ Spaced ws text := by
  induction ws generalizing text with
  | nil => exact Iff.rfl
  | cons word ws ih =>
    constructor
    · rintro ⟨spelled, _, rfl, hword, gap, more, rfl, hgap, hmore⟩
      exact ⟨spelled, gap, more, rfl, reads_letters.mp hword, reads_plus_chars.mp hgap, ih.mp hmore⟩
    · rintro ⟨spelled, gap, more, rfl, hword, hgap, hmore⟩
      exact ⟨spelled, _, rfl, reads_letters.mpr hword, gap, more, rfl, reads_plus_chars.mpr hgap, ih.mpr hmore⟩

theorem reads_front : front.Reads f ↔ Front f := by
  constructor
  · rintro ⟨margin, text, rfl, hmargin, htext⟩
    exact ⟨margin, text, rfl, reads_star_chars.mp hmargin, reads_spaced.mp htext⟩
  · rintro ⟨margin, text, rfl, hmargin, htext⟩
    exact ⟨margin, text, rfl, reads_star_chars.mpr hmargin, reads_spaced.mpr htext⟩

theorem reads_back : (∃ g r, k = g ++ r ∧ back.Reads g ∧ carriageReturn.Reads r) ↔ Back k := by
  constructor
  · rintro ⟨_, r, rfl, ⟨gap, _, rfl, hgap, spelled, _, rfl, hif, gap', _, rfl, hgap', word, _, rfl, hword, margin, _,
      rfl, hmargin, rfl⟩, hr⟩
    refine ⟨gap, spelled ++ (gap' ++ []), word, margin, r, by simp, reads_plus_chars.mp hgap,
      ⟨spelled, gap', [], rfl, reads_letters.mp hif, reads_plus_chars.mp hgap', rfl⟩, reads_letters.mp hword,
      reads_star_chars.mp hmargin, ?_⟩
    rcases hr with ⟨_, _, rfl, ⟨c, rfl, hc⟩, rfl⟩ | rfl
    · exact Or.inr (by rw [beq_iff_eq.mp hc, List.append_nil])
    · exact Or.inl rfl
  · rintro ⟨gap, _, word, margin, r, rfl, hgap, ⟨spelled, gap', _, rfl, hif, hgap', rfl⟩, hword, hmargin, hr⟩
    refine ⟨gap ++ (spelled ++ (gap' ++ (word ++ (margin ++ [])))), r, by simp,
      ⟨gap, _, rfl, reads_plus_chars.mpr hgap, spelled, _, rfl, reads_letters.mpr hif, gap', _, rfl,
        reads_plus_chars.mpr hgap', word, _, rfl, reads_letters.mpr hword, margin, _, rfl,
        reads_star_chars.mpr hmargin, rfl⟩, ?_⟩
    rcases hr with rfl | rfl
    · exact Or.inr rfl
    · exact Or.inl ⟨['\r'], [], rfl, ⟨'\r', rfl, rfl⟩, rfl⟩

/-! ## What the pattern finds -/

theorem directive_of_match (hm : matchStart directive line = some m) (hline : '\n' ∉ line) :
    ∃ f h k, Directive f h k ∧ line = f ++ h ++ k ∧
      m.group "1" ++ mask ++ m.group "2" ++ m.group "3" = f ++ mask ++ k := by
  obtain ⟨m₁, h₁, hm₁⟩ := (matchStart_sound hm).of_seq
  obtain ⟨m₂, h₂, hm₂⟩ := hm₁.of_seq
  obtain ⟨m₃, h₃, hm₃⟩ := hm₂.of_seq
  obtain ⟨m₄, h₄, h₅⟩ := hm₃.of_seq
  obtain ⟨f, hf, htext₁, hgroups₁⟩ := h₁.reads_group rfl
  obtain ⟨h, hh, rfl⟩ := h₂.reads_groups rfl
  obtain ⟨g, hg, htext₃, hgroups₃⟩ := h₃.reads_group rfl
  obtain ⟨r, hr, htext₄, hgroups₄⟩ := h₄.reads_group rfl
  dsimp only at htext₁ hgroups₁
  obtain ⟨hm, hend⟩ : m₄ = m ∧ (m.rest = [] ∨ m.rest = ['\n']) := by
    cases h₅ with
    | finish hend => exact ⟨rfl, hend⟩
  subst hm
  have hempty : m₄.rest = [] := by
    rcases hend with hend | hend
    · exact hend
    · -- a line has no newline
      refine absurd ?_ hline
      rw [htext₁, htext₃, htext₄, hend]
      simp
  refine ⟨f, h, g ++ r, ⟨reads_front.mp hf, reads_exactly_chars.mp hh, reads_back.mp ⟨g, r, rfl, hg, hr⟩⟩, ?_, ?_⟩
  · rw [htext₁, htext₃, htext₄, hempty, List.append_nil, List.append_assoc]
  · have hgroups : m₄.groups = [("3", r), ("2", g), ("1", f)] := by rw [hgroups₄, hgroups₃, hgroups₁]
    simp [Match.group, hgroups, List.lookup_cons]

theorem matches_directive (hd : Directive f h k) (total : Nat) :
    ∃ groups, Matches total directive ⟨f ++ (h ++ k), []⟩ ⟨[], groups⟩ := by
  obtain ⟨g, r, rfl, hback, hreturn⟩ := reads_back.mpr hd.back
  have hgroup (name : String) {e : Expr} (he : e.anchorless = true) {text : List Char} (hread : e.Reads text)
      (rest : List Char) (groups : Groups) :
      ∃ groups', Matches total (.group name e) ⟨text ++ rest, groups⟩ ⟨rest, groups'⟩ :=
    matches_of_reads (e := .group name e) he hread rest groups
  obtain ⟨groups₁, h₁⟩ := hgroup "1" rfl (reads_front.mpr hd.front) (h ++ (g ++ r)) []
  obtain ⟨groups₂, h₂⟩ : ∃ groups', Matches total generation ⟨h ++ (g ++ r), groups₁⟩ ⟨g ++ r, groups'⟩ :=
    matches_of_reads rfl (reads_exactly_chars.mpr hd.value) (g ++ r) groups₁
  obtain ⟨groups₃, h₃⟩ := hgroup "2" rfl hback r groups₂
  obtain ⟨groups₄, h₄⟩ := hgroup "3" rfl hreturn [] groups₃
  rw [List.append_nil] at h₄
  exact ⟨groups₄, .seq h₁ (.seq h₂ (.seq h₃ (.seq h₄ (.finish (Or.inl rfl)))))⟩

theorem matchStart_directive (hd : Directive f h k) : (matchStart directive (f ++ (h ++ k))).isSome := by
  obtain ⟨groups, hmatch⟩ := matches_directive hd (f ++ (h ++ k)).length
  exact run_complete rfl hmatch rfl

/-! ## Where the value begins -/

theorem isSpace_of_isBlank {c : Char} (h : isBlank c = true) : isSpace c = true := by
  rw [isBlank, Bool.or_eq_true, beq_iff_eq, beq_iff_eq] at h
  rcases h with rfl | rfl <;> decide

/-- No blank is taken for a letter. -/
theorem not_isSpace_of_sameLetter {p c : Char} (hp : isSpace p.toLower = false) (h : sameLetter p c = true) :
    isSpace c = false := by
  simp only [sameLetter, Bool.or_eq_true, Bool.and_eq_true, beq_iff_eq] at h
  rcases h with ((h | ⟨-, rfl | rfl⟩) | ⟨-, rfl⟩) | ⟨-, rfl⟩
  · by_cases hc : 'A' ≤ c ∧ c ≤ 'Z'
    · exact (Python.plain_of_isAlpha (by simp [Python.isAlpha, hc])).1
    · have hsame : c.toLower = c := by
        unfold Char.toLower
        exact dif_neg hc
      rwa [← h, hsame] at hp
  · decide
  · decide
  · decide
  · decide

theorem Spells.not_isSpace {word : List Char} (h : Spells word text) (hp : ∀ p ∈ word, isSpace p.toLower = false) :
    ∀ c ∈ text, isSpace c = false := by
  induction h with
  | nil => exact fun c hc => absurd hc List.not_mem_nil
  | cons hc _ ih =>
    rw [List.forall_mem_cons] at hp ⊢
    exact ⟨not_isSpace_of_sameLetter hp.1 hc, ih hp.2⟩

/-- A pattern's word: it has letters, and no blank among them. -/
def lettered (word : List Char) : Bool := !word.isEmpty && word.all (!isSpace ·.toLower)

theorem Spells.isWord {word : List Char} (h : Spells word text) (hword : lettered word = true) : IsWord text := by
  rw [lettered, Bool.and_eq_true, Bool.not_eq_true', List.isEmpty_eq_false_iff] at hword
  refine ⟨?_, h.not_isSpace (by simpa using hword.2)⟩
  rintro rfl
  exact hword.1 (List.forall₂_nil_right_iff.mp h)

theorem words_gap {gap l : List Char} (hgap : Blanks gap) : words (gap ++ l) = words l := by
  induction gap with
  | nil => rfl
  | cons c gap ih =>
    rw [List.cons_append, words_cons (isSpace_of_isBlank (hgap c List.mem_cons_self))]
    exact ih fun d hd => hgap d (List.mem_cons_of_mem c hd)

theorem words_word_gap {w gap l : List Char} (hw : IsWord w) (hgap : gap ≠ [] ∧ Blanks gap) :
    words (w ++ (gap ++ l)) = w :: words l := by
  obtain ⟨hne, hblank⟩ := hgap
  rw [words_word hw ?_, words_gap hblank]
  cases gap with
  | nil => exact absurd rfl hne
  | cons c gap => exact atEnd_cons (isSpace_of_isBlank (hblank c List.mem_cons_self))

theorem Spaced.length_words {ws : List (List Char)} (h : Spaced ws text) (hws : ∀ word ∈ ws, lettered word = true) :
    (words text).length = ws.length := by
  induction ws generalizing text with
  | nil => rw [show text = [] from h, words_nil]
  | cons word ws ih =>
    obtain ⟨spelled, gap, more, rfl, hword, hgap, hmore⟩ := h
    rw [List.forall_mem_cons] at hws
    rw [words_word_gap (hword.isWord hws.1) hgap, List.length_cons, List.length_cons, ih hmore hws.2]

/-- A blank is last. -/
theorem Spaced.ends {ws : List (List Char)} (h : Spaced ws text) (hne : ws ≠ []) :
    ∃ t c, text = t ++ [c] ∧ isSpace c = true := by
  induction ws generalizing text with
  | nil => exact absurd rfl hne
  | cons word ws ih =>
    obtain ⟨spelled, gap, more, rfl, -, ⟨hgap, hblanks⟩, hmore⟩ := h
    cases ws with
    | nil =>
      obtain rfl : more = [] := hmore
      rcases List.eq_nil_or_concat gap with rfl | ⟨g, c, rfl⟩
      · exact absurd rfl hgap
      · exact ⟨spelled ++ g, c, by simp, isSpace_of_isBlank (hblanks c (by simp))⟩
    | cons next ws =>
      obtain ⟨t, c, rfl, hc⟩ := ih hmore (List.cons_ne_nil _ _)
      exact ⟨spelled ++ (gap ++ t), c, by simp, hc⟩

/-- The part before the value is three words, each with blanks after it. -/
theorem front_words (h : Front f) : (words f).length = 3 ∧ ∃ f₀ c, f = f₀ ++ [c] ∧ isSpace c = true := by
  obtain ⟨margin, text, rfl, hmargin, htext⟩ := h
  obtain ⟨t, c, rfl, hc⟩ := htext.ends (List.cons_ne_nil _ _)
  exact ⟨by rw [words_gap hmargin, htext.length_words (by decide)]; rfl, margin ++ t, c, by simp, hc⟩

/-- No more can be before one value than before another. -/
theorem front_le (hf : Front f) (hf' : Front f') (h : f' = f ++ text)
    (hs : ∀ c, text.head? = some c → isSpace c = false) : text = [] := by
  obtain ⟨hthree, f₀, c, rfl, hc⟩ := front_words hf
  obtain ⟨hthree', -⟩ := front_words hf'
  rw [words_append_cons hc, words_nil, List.append_nil] at hthree
  rw [h, List.append_assoc, List.singleton_append, words_append_cons hc, List.length_append, hthree] at hthree'
  have hnone : words text = [] := List.length_eq_zero_iff.mp (by omega)
  cases text with
  | nil => rfl
  | cons d text =>
    have hd := hs d rfl
    rw [words_eq_nil, blanks, List.dropWhile_cons_of_neg (by simp [hd])] at hnone
    cases hnone

theorem front_unique (hf : Front f) (hf' : Front f') (h : f ++ s = f' ++ s')
    (hs : ∀ c, s.head? = some c → isSpace c = false) (hs' : ∀ c, s'.head? = some c → isSpace c = false) :
    f = f' ∧ s = s' := by
  rcases List.append_eq_append_iff.mp h with ⟨t, ht, hst⟩ | ⟨t, ht, hst⟩
  · have hnil : t = [] := front_le hf hf' ht fun c hc => hs c (by rw [hst, List.head?_append, hc]; rfl)
    subst hnil
    exact ⟨by simpa using ht.symm, by simpa using hst⟩
  · have hnil : t = [] := front_le hf' hf ht fun c hc => hs' c (by rw [hst, List.head?_append, hc]; rfl)
    subst hnil
    exact ⟨by simpa using ht, by simpa using hst.symm⟩

/-! ## One line -/

theorem head_mask (k : List Char) : ∀ c, (mask ++ k).head? = some c → isSpace c = false := by
  rintro c ⟨⟩
  decide

theorem not_isSpace_of_isHex {c : Char} (h : isHex c = true) : isSpace c = false := by
  have hrange : 48 ≤ c.toNat ∧ c.toNat ≤ 102 := by
    simp only [isHex, Python.hexValue, Char.le_def, UInt32.le_iff_toNat_le] at h
    split_ifs at h with hdigit hlower hupper
    · exact ⟨hdigit.1, le_trans hdigit.2 (by decide)⟩
    · exact ⟨le_trans (by decide) hlower.1, hlower.2⟩
    · exact ⟨le_trans (by decide) hupper.1, le_trans hupper.2 (by decide)⟩
    · cases h
  exact isSpace_of_shown (by omega) (by omega)

theorem head_value (hd : Directive f h k) : ∀ c, (h ++ k).head? = some c → isSpace c = false := by
  intro c hc
  obtain ⟨hlength, hhex⟩ := hd.value
  cases h with
  | nil => cases hlength
  | cons d h =>
    obtain rfl : d = c := Option.some_inj.mp hc
    exact not_isSpace_of_isHex (hhex d List.mem_cons_self)

theorem not_directive_mask (hf : Front f) (hd : Directive f' h k') : f ++ (mask ++ k) ≠ f' ++ (h ++ k') := by
  intro heq
  obtain ⟨-, hrest⟩ := front_unique hf hd.front heq (head_mask k) (head_value hd)
  obtain ⟨hlength, hhex⟩ := hd.value
  cases h with
  | nil => cases hlength
  | cons d h =>
    obtain rfl : '<' = d := List.head_eq_of_cons_eq hrest
    exact absurd (hhex '<' List.mem_cons_self) (by decide)

theorem directive_unique (hd : Directive f h k) (hd' : Directive f' h' k') (heq : f ++ (h ++ k) = f' ++ (h' ++ k')) :
    f = f' ∧ h = h' ∧ k = k' := by
  obtain ⟨hfront, hrest⟩ := front_unique hd.front hd'.front heq (head_value hd) (head_value hd')
  have hlength : h.length = h'.length := hd.value.1.trans hd'.value.1.symm
  obtain ⟨hvalue, hback⟩ := List.append_inj hrest hlength
  exact ⟨hfront, hvalue, hback⟩

theorem maskLine_directive (hd : Directive f h k) (hline : '\n' ∉ f ++ (h ++ k)) :
    maskLine (f ++ (h ++ k)) = f ++ (mask ++ k) := by
  obtain ⟨m, hm⟩ := Option.isSome_iff_exists.mp (matchStart_directive hd)
  obtain ⟨f', h', k', hd', heq, hgroups⟩ := directive_of_match hm hline
  rw [List.append_assoc] at heq
  obtain ⟨rfl, -, rfl⟩ := directive_unique hd hd' heq
  simp only [maskLine, hm]
  rw [hgroups, List.append_assoc]

theorem maskLine_cases (hline : '\n' ∉ line) :
    (∃ f h k, Directive f h k ∧ line = f ++ (h ++ k) ∧ maskLine line = f ++ (mask ++ k)) ∨
      (∀ f h k, Directive f h k → line ≠ f ++ (h ++ k)) ∧ maskLine line = line := by
  cases hm : matchStart directive line with
  | none =>
    refine Or.inr ⟨?_, by simp only [maskLine, hm]⟩
    rintro f h k hd rfl
    have hsome := matchStart_directive hd
    rw [hm] at hsome
    cases hsome
  | some m =>
    obtain ⟨f, h, k, hd, heq, -⟩ := directive_of_match hm hline
    rw [List.append_assoc] at heq
    subst heq
    exact Or.inl ⟨f, h, k, hd, rfl, maskLine_directive hd hline⟩

/-- The second line is the first, or is the directive with another generation. -/
def LineRegenerated (a b : List Char) : Prop :=
  a = b ∨ ∃ f h h' k, Directive f h k ∧ Directive f h' k ∧ a = f ++ (h ++ k) ∧ b = f ++ (h' ++ k)

/-- One of the lines has the mask itself where the other has a generation. -/
def MaskAgainst (a b : List Char) : Prop :=
  ∃ f h k, Directive f h k ∧
    (a = f ++ (h ++ k) ∧ b = f ++ (mask ++ k) ∨ a = f ++ (mask ++ k) ∧ b = f ++ (h ++ k))

theorem maskLine_mask (hf : Front f) (hline : '\n' ∉ f ++ (mask ++ k)) :
    maskLine (f ++ (mask ++ k)) = f ++ (mask ++ k) := by
  rcases maskLine_cases hline with ⟨f', h', k', hd, heq, -⟩ | ⟨-, hsame⟩
  · exact absurd heq (not_directive_mask hf hd)
  · exact hsame

theorem maskLine_eq_iff (ha : '\n' ∉ a) (hb : '\n' ∉ b) :
    maskLine a = maskLine b ↔ LineRegenerated a b ∨ MaskAgainst a b := by
  constructor
  · intro heq
    rcases maskLine_cases ha with ⟨f, h, k, hd, rfl, hmask⟩ | ⟨-, hsame⟩ <;>
      rcases maskLine_cases hb with ⟨f', h', k', hd', rfl, hmask'⟩ | ⟨-, hsame'⟩
    · rw [hmask, hmask'] at heq
      obtain ⟨rfl, hrest⟩ := front_unique hd.front hd'.front heq (head_mask k) (head_mask k')
      obtain rfl := List.append_cancel_left hrest
      exact Or.inl (Or.inr ⟨f, h, h', k, hd, ⟨hd.front, hd'.value, hd.back⟩, rfl, rfl⟩)
    · rw [hmask, hsame'] at heq
      exact Or.inr ⟨f, h, k, hd, Or.inl ⟨rfl, heq.symm⟩⟩
    · rw [hsame, hmask'] at heq
      exact Or.inr ⟨f', h', k', hd', Or.inr ⟨heq, rfl⟩⟩
    · rw [hsame, hsame'] at heq
      exact Or.inl (Or.inl heq)
  · rintro ((rfl | ⟨f, h, h', k, hd, hd', rfl, rfl⟩) | ⟨f, h, k, hd, ⟨rfl, rfl⟩ | ⟨rfl, rfl⟩⟩)
    · rfl
    · rw [maskLine_directive hd ha, maskLine_directive hd' hb]
    · rw [maskLine_directive hd ha, maskLine_mask hd.front hb]
    · rw [maskLine_mask hd.front ha, maskLine_directive hd hb]

theorem MaskAgainst.not_regenerated (h : MaskAgainst a b) : ¬ LineRegenerated a b := by
  obtain ⟨f, h, k, hd, hlines⟩ := h
  rintro (rfl | ⟨f', h₁, h₂, k', hd₁, hd₂, rfl, rfl⟩)
  · rcases hlines with ⟨hvalue, hmask⟩ | ⟨hmask, hvalue⟩ <;>
      exact not_directive_mask hd.front hd (hmask.symm.trans hvalue)
  · rcases hlines with ⟨-, hmask⟩ | ⟨hmask, -⟩
    · exact not_directive_mask hd.front hd₂ hmask.symm
    · exact not_directive_mask hd.front hd₁ hmask.symm

/-! ## The texts -/

theorem not_mem_maskLine (hline : '\n' ∉ line) : '\n' ∉ maskLine line := by
  rcases maskLine_cases hline with ⟨f, h, k, -, rfl, hmask⟩ | ⟨-, hsame⟩
  · rw [hmask]
    have hnone : '\n' ∉ mask := by decide
    simp only [List.mem_append, not_or] at hline ⊢
    exact ⟨hline.1, hnone, hline.2.2⟩
  · rwa [hsame]

theorem map_maskLine_eq_iff {la lb : List (List Char)} (ha : ∀ a ∈ la, '\n' ∉ a) (hb : ∀ b ∈ lb, '\n' ∉ b) :
    la.map maskLine = lb.map maskLine ↔ List.Forall₂ (fun a b => LineRegenerated a b ∨ MaskAgainst a b) la lb := by
  induction la generalizing lb with
  | nil => cases lb <;> simp
  | cons a la ih =>
    cases lb with
    | nil => simp
    | cons b lb =>
      rw [List.map_cons, List.map_cons, List.cons.injEq, List.forall₂_cons,
        maskLine_eq_iff (ha a List.mem_cons_self) (hb b List.mem_cons_self),
        ih (fun l hl => ha l (List.mem_cons_of_mem a hl)) (fun l hl => hb l (List.mem_cons_of_mem b hl))]

theorem not_mem_of_mem_lines (h : line ∈ lines text) : '\n' ∉ line := by
  intro hmem
  have hnone := (mem_of_mem_splitOnP (p := (· == '\n')) h '\n' hmem).1
  cases hnone

theorem lines_configForOperationalComparison :
    lines (configForOperationalComparison text) = (lines text).map maskLine := by
  refine List.splitOn_intercalate '\n' ?_ ?_
  · intro masked hmasked
    obtain ⟨line, hline, rfl⟩ := List.mem_map.mp hmasked
    exact not_mem_maskLine (not_mem_of_mem_lines hline)
  · rw [Ne, List.map_eq_nil_iff]
    exact List.splitOn_ne_nil '\n' text

theorem configsOperationallyEqual_iff : configsOperationallyEqual a b = true ↔
    List.Forall₂ (fun l l' => LineRegenerated l l' ∨ MaskAgainst l l') (lines a) (lines b) := by
  rw [← map_maskLine_eq_iff (fun _ => not_mem_of_mem_lines) (fun _ => not_mem_of_mem_lines),
    configsOperationallyEqual, beq_iff_eq]
  constructor
  · intro heq
    rw [← lines_configForOperationalComparison, heq, lines_configForOperationalComparison]
  · intro heq
    rw [configForOperationalComparison, heq, configForOperationalComparison]

/-- The second text is the first with other generations in lines of the directive. -/
def Regenerated (a b : List Char) : Prop := List.Forall₂ LineRegenerated (lines a) (lines b)

/-- The mask stands against a generation somewhere, and nothing else tells the texts apart. -/
def Confused (a b : List Char) : Prop :=
  (∃ pair ∈ (lines a).zip (lines b), MaskAgainst pair.1 pair.2) ∧
    List.Forall₂ (fun l l' => LineRegenerated l l' ∨ MaskAgainst l l') (lines a) (lines b)

/-- The comparison takes exactly the texts with other generations for the same unless the mask itself
stands for a generation. -/
theorem equal_iff_regenerated_iff (a b : List Char) :
    (configsOperationallyEqual a b = true ↔ Regenerated a b) ↔ ¬ Confused a b := by
  rw [configsOperationallyEqual_iff]
  constructor
  · rintro hiff ⟨⟨⟨l, l'⟩, hpair, hmask⟩, hall⟩
    exact hmask.not_regenerated (List.forall₂_zip (hiff.mp hall) hpair)
  · intro hclear
    constructor
    · intro hall
      refine List.forall₂_iff_zip.mpr ⟨hall.length_eq, fun {l l'} hpair => ?_⟩
      rcases List.forall₂_zip hall hpair with hsame | hmask
      · exact hsame
      · exact absurd ⟨⟨(l, l'), hpair, hmask⟩, hall⟩ hclear
    · exact fun hall => hall.imp fun _ _ => Or.inl

/-- The directive as it is rendered, with a text for its value. -/
def rendered (value : List Char) : List Char :=
  httpRequest ++ ' ' :: setHeader ++ ' ' :: generationHeader ++ ' ' :: value ++ ' ' :: 'i' :: 'f' :: ' ' :: hostAdmin

/-- The malformed value that is the mask itself is not told from a generation. -/
theorem mask_taken_for_generation : ¬ ∀ a b, configsOperationallyEqual a b = true ↔ Regenerated a b := by
  intro hiff
  have hsame : maskLine (rendered mask) = rendered mask := by decide +kernel
  have hregenerated : Regenerated (rendered mask) (rendered (List.replicate 64 '0')) :=
    (hiff _ _).mp (by decide +kernel)
  rw [Regenerated, lines, lines, splitOn_of_not_mem (by decide), splitOn_of_not_mem (by decide),
    List.forall₂_cons] at hregenerated
  rcases hregenerated.1 with heq | ⟨f, h, h', k, hd, -, heq, -⟩
  · have hlength : (rendered mask).length = (rendered (List.replicate 64 '0')).length := by rw [heq]
    exact absurd hlength (by decide)
  · rw [heq, maskLine_directive hd (by rw [← heq]; decide)] at hsame
    have hvalue : h = mask := List.append_cancel_right (List.append_cancel_left hsame).symm
    have hlength := hd.value.1
    rw [hvalue] at hlength
    cases hlength

end EasyHaProxy.Panel.Drift
