import EasyHaProxy.Backupd.SavedSettings
import EasyHaProxy.Lib.Replace
import EasyHaProxy.Lib.Utf8
import Mathlib.Data.List.Chain

/-! `sanitize_output` takes the passphrase out first and the control characters afterwards, and keeps the
end of a long text. -/
namespace EasyHaProxy.Backupd.JobLogs

open Python Text

/-- `"EASY_HA_PROXY_BACKUP_MANIFEST_JSON="`. -/
def manifestMarker : List Char :=
  ['E', 'A', 'S', 'Y', '_', 'H', 'A', '_', 'P', 'R', 'O', 'X', 'Y', '_', 'B', 'A', 'C', 'K', 'U', 'P', '_', 'M', 'A',
    'N', 'I', 'F', 'E', 'S', 'T', '_', 'J', 'S', 'O', 'N', '=']

/-- `"EASY_HA_PROXY_FULL_BACKUP_FILE="`. -/
def backupFileMarker : List Char :=
  ['E', 'A', 'S', 'Y', '_', 'H', 'A', '_', 'P', 'R', 'O', 'X', 'Y', '_', 'F', 'U', 'L', 'L', '_', 'B', 'A', 'C', 'K',
    'U', 'P', '_', 'F', 'I', 'L', 'E', '=']

def redacted : List Char := ['[', 'R', 'E', 'D', 'A', 'C', 'T', 'E', 'D', ']']

def omittedLine : List Char := manifestMarker ++ ['<', 'o', 'm', 'i', 't', 't', 'e', 'd', '>']

def storedLine : List Char := backupFileMarker ++ ['<', 's', 't', 'o', 'r', 'e', 'd', '>']

def truncatedLine : List Char :=
  ['[', 'o', 'u', 't', 'p', 'u', 't', ' ', 't', 'r', 'u', 'n', 'c', 'a', 't', 'e', 'd', ']']

/-- What stays in a line: a tab and whatever is no control character. -/
def isShown (c : Char) : Bool := c == '\t' || 32 ≤ c.toNat

/-- A line as it is shown. -/
def cleaned (line : List Char) : List Char :=
  (if manifestMarker.isPrefixOf line then omittedLine
    else if backupFileMarker.isPrefixOf line then storedLine
    else line).filter isShown

/-- `value.replace(old, new)` of a text that is not empty. -/
def replaceAll (old new value : List Char) : List Char := Replace.sub (fun _ => false) old new none 0 value

/-- The lines of an output as they are shown, one below the other. -/
def shownText (value passphrase : List Char) : List Char :=
  ['\n'].intercalate ((splitLines (if passphrase = [] then value else replaceAll passphrase redacted value)).map cleaned)

/-- `sanitize_output`; `limit` is `MAX_CAPTURE_BYTES`, which is at least 1. -/
def sanitizeOutput (limit : Nat) (value passphrase : List Char) : List Char :=
  let result := shownText value passphrase
  let encoded := encodeUtf8 result
  if limit < encoded.length then
    truncatedLine ++ '\n' :: decodeUtf8 none (encoded.drop (encoded.length - limit))
  else result

/-- The texts `sanitize_output` puts in. -/
def fixedTexts : List (List Char) := [redacted, omittedLine, storedLine, truncatedLine ++ ['\n']]

def isHidden (c : Char) : Bool := !isShown c || isLineEnd c

/-- How many replacement characters a text begins with. -/
def replacements (text : List Char) : Nat := (text.takeWhile (· = replacement)).length

variable {p q l value : List Char} {c : Char} {limit : Nat}

/-! ## What a result consists of -/

theorem not_hidden_of_mem_cleaned {line : List Char} (h : line ∈ splitLines l) (hc : c ∈ cleaned line) :
    isHidden c = false := by
  obtain ⟨hraw, hshown⟩ := List.mem_filter.mp hc
  rw [isHidden, hshown, Bool.not_true, Bool.false_or]
  have homitted : omittedLine.all (fun c => !isLineEnd c) = true := by decide
  have hstored : storedLine.all (fun c => !isLineEnd c) = true := by decide
  split at hraw
  · simpa using List.all_eq_true.mp homitted c hraw
  · split at hraw
    · simpa using List.all_eq_true.mp hstored c hraw
    · exact mem_splitLines h hraw

theorem mem_intercalate_newline {lines : List (List Char)} (h : c ∈ ['\n'].intercalate lines) :
    c = '\n' ∨ ∃ line ∈ lines, c ∈ line := by
  induction lines with
  | nil => exact absurd h List.not_mem_nil
  | cons line lines ih =>
    cases lines with
    | nil =>
      rw [List.intercalate_singleton] at h
      exact Or.inr ⟨line, List.mem_cons_self, h⟩
    | cons line' lines =>
      rw [List.intercalate_cons_cons, List.mem_append, List.mem_append, List.mem_singleton] at h
      rcases h with (h | h) | h
      · exact Or.inr ⟨line, List.mem_cons_self, h⟩
      · exact Or.inl h
      · rcases ih h with rfl | ⟨other, ho, hc⟩
        · exact Or.inl rfl
        · exact Or.inr ⟨other, List.mem_cons_of_mem _ ho, hc⟩

theorem mem_shownText (h : c ∈ shownText value p) : c = '\n' ∨ isHidden c = false := by
  refine (mem_intercalate_newline h).imp_right ?_
  rintro ⟨line, hline, hc⟩
  obtain ⟨raw, hraw, rfl⟩ := List.mem_map.mp hline
  exact not_hidden_of_mem_cleaned hraw hc

/-- The end of a text that was cut. -/
theorem sanitizeOutput_cases (limit : Nat) (value p : List Char) :
    sanitizeOutput limit value p = shownText value p ∧ octetCount (shownText value p) ≤ limit ∨
      ∃ stray tail, stray ≤ 3 ∧ tail <:+ shownText value p ∧ stray + octetCount tail = limit ∧
        sanitizeOutput limit value p = truncatedLine ++ '\n' :: (List.replicate stray replacement ++ tail) := by
  unfold sanitizeOutput
  simp only
  by_cases hlimit : limit < (encodeUtf8 (shownText value p)).length
  · obtain ⟨stray, tail, hs, htail, hcount, hdecode⟩ :=
      decodeUtf8_drop (shownText value p) (Nat.sub_le (octetCount (shownText value p)) limit)
    refine Or.inr ⟨stray, tail, hs, htail, ?_, ?_⟩
    · have hle : limit < octetCount (shownText value p) := hlimit
      omega
    · rw [if_pos hlimit, ← hdecode]
      rfl
  · exact Or.inl ⟨if_neg hlimit, not_lt.mp hlimit⟩

theorem mem_sanitizeOutput (h : c ∈ sanitizeOutput limit value p) : c = '\n' ∨ isHidden c = false := by
  rcases sanitizeOutput_cases limit value p with ⟨hs, -⟩ | ⟨stray, tail, -, htail, -, hs⟩
  · exact mem_shownText (hs ▸ h)
  · rw [hs, List.mem_append, List.mem_cons, List.mem_append] at h
    have hheader : truncatedLine.all (fun c => !isHidden c) = true := by decide
    rcases h with h | rfl | h | h
    · exact Or.inr (by simpa using List.all_eq_true.mp hheader c h)
    · exact Or.inl rfl
    · rw [List.eq_of_mem_replicate h]
      exact Or.inr (by decide)
    · exact mem_shownText (htail.subset h)

/-! ## A text inside the end of a log -/

/-- A text without a separator lies on one side of it. -/
theorem infix_of_not_mem {a b : List Char} (hc : c ∉ p) (h : p <:+: a ++ c :: b) : p <:+: a ∨ p <:+: b := by
  obtain ⟨w, x, hsplit⟩ := h
  rcases List.append_eq_append_iff.mp hsplit with ⟨u, hu, hx⟩ | ⟨u, hu, hx⟩
  · exact Or.inl ⟨w, u, hu.symm⟩
  · cases u with
    | nil =>
      rw [List.append_nil] at hu
      exact Or.inl ⟨w, [], by rw [List.append_nil, hu]⟩
    | cons d u =>
      obtain ⟨rfl, hb⟩ := List.cons.inj hx
      rcases List.append_eq_append_iff.mp hu with ⟨v, hv, hp⟩ | ⟨v, hv, hp⟩
      · exact absurd (hp ▸ List.mem_append_right v List.mem_cons_self) hc
      · cases v with
        | nil =>
          rw [List.nil_append] at hp
          exact absurd (hp ▸ List.mem_cons_self) hc
        | cons d' v =>
          obtain ⟨rfl, hrest⟩ := List.cons.inj hp
          exact Or.inr ⟨v, x, by rw [hb, hrest]; rfl⟩

/-- What lies inside a text after replacement characters takes some of them and goes on in the text. -/
theorem infix_after_replacements {stray : Nat} {tail : List Char}
    (h : p <:+: List.replicate stray replacement ++ tail) :
    ∃ i q, i ≤ stray ∧ p = List.replicate i replacement ++ q ∧ q <:+: tail := by
  have hprefix : ∀ stray p, p <+: List.replicate stray replacement ++ tail →
      ∃ i q, i ≤ stray ∧ p = List.replicate i replacement ++ q ∧ q <+: tail := by
    intro stray
    induction stray with
    | zero => exact fun p h => ⟨0, p, le_rfl, rfl, h⟩
    | succ stray ih =>
      intro p h
      cases p with
      | nil => exact ⟨0, [], Nat.zero_le _, rfl, List.nil_prefix⟩
      | cons d p =>
        rw [List.replicate_succ, List.cons_append, List.cons_prefix_cons] at h
        obtain ⟨rfl, h⟩ := h
        obtain ⟨i, q, hi, rfl, hq⟩ := ih p h
        exact ⟨i + 1, q, by omega, by rw [List.replicate_succ, List.cons_append], hq⟩
  induction stray with
  | zero => exact ⟨0, p, le_rfl, rfl, h⟩
  | succ stray ih =>
    rw [List.replicate_succ, List.cons_append, List.infix_cons_iff] at h
    rcases h with h | h
    · rw [← List.cons_append, ← List.replicate_succ] at h
      obtain ⟨i, q, hi, hp, hq⟩ := hprefix (stray + 1) p h
      exact ⟨i, q, hi, hp, hq.isInfix⟩
    · obtain ⟨i, q, hi, hp, hq⟩ := ih h
      exact ⟨i, q, by omega, hp, hq⟩

theorem octetCount_replicate (i : Nat) : octetCount (List.replicate i replacement) = 3 * i := by
  induction i with
  | zero => rfl
  | succ i ih =>
    have hthree : (octets replacement).length = 3 := by decide
    rw [List.replicate_succ, octetCount_cons, ih, hthree]
    omega

theorem le_replacements {i : Nat} (h : p = List.replicate i replacement ++ q) : i ≤ replacements p := by
  induction i generalizing p with
  | zero => exact Nat.zero_le _
  | succ i ih =>
    rw [List.replicate_succ, List.cons_append] at h
    rw [h, replacements, List.takeWhile_cons_of_pos (by simp), List.length_cons]
    exact Nat.succ_le_succ (ih rfl)

/-- A passphrase that is shown has nothing hidden and is short enough. -/
theorem shown_bound (hp : '\n' ∉ p) (hfixed : ∀ fixed ∈ fixedTexts, ¬ p <:+: fixed)
    (h : p <:+: sanitizeOutput limit value p) :
    (∀ c ∈ p, isHidden c = false) ∧ octetCount p ≤ limit + 2 * min 3 (replacements p) := by
  refine ⟨fun c hc => ?_, ?_⟩
  · rcases mem_sanitizeOutput (h.subset hc) with rfl | hshown
    · exact absurd hc hp
    · exact hshown
  · rcases sanitizeOutput_cases limit value p with ⟨hs, hle⟩ | ⟨stray, tail, hthree, -, hcount, hs⟩
    · have hin := octetCount_le_of_infix (hs ▸ h)
      omega
    · rw [hs] at h
      have hheader : ¬ p <:+: truncatedLine := fun hin =>
        hfixed (truncatedLine ++ ['\n']) (by simp [fixedTexts]) (hin.trans (List.prefix_append _ _).isInfix)
      obtain ⟨i, q, hi, hsplit, hq⟩ :=
        infix_after_replacements ((infix_of_not_mem hp h).resolve_left hheader)
      have hle := octetCount_le_of_infix hq
      have hlead := le_replacements hsplit
      rw [hsplit, octetCount_append, octetCount_replicate, ← hsplit]
      omega

/-! ## An output that shows it -/

/-- The control character put between the characters of a text. -/
def mark : Char := '\x01'

/-- Two neighbours in a marked text are never both characters of the text. -/
theorem isChain_intersperse (l : List Char) :
    (l.intersperse mark).IsChain fun a b => a = mark ∨ b = mark := by
  induction l with
  | nil => exact List.IsChain.nil
  | cons a l ih =>
    cases l with
    | nil => exact List.IsChain.singleton a
    | cons b l =>
      rw [List.intersperse_cons_cons]
      refine List.isChain_cons_cons.mpr ⟨Or.inr rfl, ?_⟩
      cases l with
      | nil => exact List.isChain_cons_cons.mpr ⟨Or.inl rfl, ih⟩
      | cons b' l => exact List.isChain_cons_cons.mpr ⟨Or.inl rfl, ih⟩

theorem not_infix_intersperse (hlen : 2 ≤ p.length) (hp : mark ∉ p) (l : List Char) :
    ¬ p <:+: l.intersperse mark := by
  rintro ⟨before, after, h⟩
  have hchain := isChain_intersperse l
  rw [← h] at hchain
  replace hchain := hchain.left_of_append.right_of_append
  match p, hlen with
  | a :: b :: p, _ =>
    rcases (List.isChain_cons_cons.mp hchain).1 with rfl | rfl
    · exact hp List.mem_cons_self
    · exact hp (List.mem_cons_of_mem _ List.mem_cons_self)

theorem replaceAll_intersperse (hlen : 2 ≤ p.length) (hp : mark ∉ p) (l : List Char) :
    replaceAll p redacted (l.intersperse mark) = l.intersperse mark := by
  refine Replace.sub_of_none fun w x h _ => not_infix_intersperse hlen hp l ⟨w, x, h.symm⟩

theorem filter_intersperse (h : ∀ c ∈ l, isShown c = true) : (l.intersperse mark).filter isShown = l := by
  induction l with
  | nil => rfl
  | cons a l ih =>
    have ha := h a List.mem_cons_self
    cases l with
    | nil => simp [ha]
    | cons b l =>
      have hmark : isShown mark = false := by decide
      rw [List.intersperse_cons_cons, List.filter_cons_of_pos ha, List.filter_cons_of_neg (by simp [hmark]),
        ih fun c hc => h c (List.mem_cons_of_mem a hc)]

theorem mem_intersperse (h : c ∈ l.intersperse mark) : c = mark ∨ c ∈ l := by
  induction l with
  | nil => exact Or.inr h
  | cons a l ih =>
    cases l with
    | nil => exact Or.inr h
    | cons b l =>
      rw [List.intersperse_cons_cons, List.mem_cons, List.mem_cons] at h
      rcases h with rfl | rfl | h
      · exact Or.inr List.mem_cons_self
      · exact Or.inl rfl
      · exact (ih h).imp_right (List.mem_cons_of_mem a)

theorem splitLines_singleton (hne : l ≠ []) (h : ∀ c ∈ l, isLineEnd c = false) : splitLines l = [l] := by
  have hreturn : '\r' ∉ l := fun hc => absurd (h _ hc) (by decide)
  unfold splitLines
  rw [joinCrLf_eq hreturn, List.splitOnP_eq_singleton h]
  simp [hne]

theorem shownText_intersperse (hlen : 2 ≤ p.length) (hp : mark ∉ p) (hl : 2 ≤ l.length)
    (h : ∀ c ∈ l, isHidden c = false) : shownText (l.intersperse mark) p = l := by
  have hparts : ∀ c ∈ l, isShown c = true ∧ isLineEnd c = false := by
    intro c hc
    simpa [isHidden] using h c hc
  have hne : p ≠ [] := by
    rintro rfl
    simp at hlen
  match l, hl with
  | a :: b :: l, _ =>
    have hline : ∀ c ∈ (a :: b :: l).intersperse mark, isLineEnd c = false := by
      intro c hc
      rcases mem_intersperse hc with rfl | hc
      · decide
      · exact (hparts c hc).2
    have hclean : cleaned ((a :: b :: l).intersperse mark) = a :: b :: l := by
      have hmanifest : manifestMarker.isPrefixOf ((a :: b :: l).intersperse mark) = false := by
        simp [manifestMarker, mark, List.isPrefixOf]
      have hfile : backupFileMarker.isPrefixOf ((a :: b :: l).intersperse mark) = false := by
        simp [backupFileMarker, mark, List.isPrefixOf]
      rw [cleaned, hmanifest, hfile]
      exact filter_intersperse fun c hc => (hparts c hc).1
    rw [shownText, if_neg hne, replaceAll_intersperse hlen hp, splitLines_singleton (by simp) hline, List.map_singleton,
      hclean, List.intercalate_singleton]

/-- The characters whose first octet can be cut off, leaving one to three octets. -/
def cutChar : Nat → Char
  | 1 => 'é'
  | 2 => '€'
  | _ => '😀'

theorem octets_cutChar {m : Nat} (h1 : 1 ≤ m) (h3 : m ≤ 3) : (octets (cutChar m)).length = m + 1 := by
  obtain rfl | rfl | rfl : m = 1 ∨ m = 2 ∨ m = 3 := by omega
  all_goals decide

theorem not_hidden_cutChar (m : Nat) : isHidden (cutChar m) = false := by
  unfold cutChar
  split <;> decide

/-- Where the passphrase begins with replacement characters, a cut can make these. -/
theorem sanitizeOutput_cut {m : Nat} (h1 : 1 ≤ m) (h3 : m ≤ 3) (hcount : m + octetCount q ≤ limit)
    (hlen : 2 ≤ p.length) (hp : mark ∉ p) (hq : ∀ c ∈ q, isHidden c = false) (hne : q ≠ []) :
    ∃ value, List.replicate m replacement ++ q <:+: sanitizeOutput limit value p := by
  set pad := List.replicate (limit - m - octetCount q) 'x' with hpad
  have hpadCount : octetCount pad = limit - m - octetCount q := by
    have hone (k : Nat) : octetCount (List.replicate k 'x') = k := by
      induction k with
      | zero => rfl
      | succ k ih =>
        have hx : (octets 'x').length = 1 := by decide
        rw [List.replicate_succ, octetCount_cons, ih, hx, Nat.add_comm]
    exact hone _
  have hshown : shownText ((cutChar m :: (q ++ pad)).intersperse mark) p = cutChar m :: (q ++ pad) := by
    refine shownText_intersperse hlen hp ?_ ?_
    · have hpos : 0 < q.length := List.length_pos_of_ne_nil hne
      simp only [List.length_cons, List.length_append]
      omega
    · intro c hc
      rcases List.mem_cons.mp hc with rfl | hc
      · exact not_hidden_cutChar m
      · rcases List.mem_append.mp hc with hc | hc
        · exact hq c hc
        · rw [List.eq_of_mem_replicate hc]
          decide
  have htotal : octetCount (cutChar m :: (q ++ pad)) = limit + 1 := by
    rw [octetCount_cons, octetCount_append, octets_cutChar h1 h3, hpadCount]
    omega
  have htail : decodeUtf8 none ((encodeUtf8 (cutChar m :: (q ++ pad))).drop 1) =
      List.replicate m replacement ++ (q ++ pad) := by
    have hm := octets_cutChar h1 h3
    rw [encodeUtf8, List.flatMap_cons, ← encodeUtf8, List.drop_append_of_le_length (by omega), List.drop_one,
      decodeUtf8_stray fun b => octets_tail, decodeUtf8_encodeUtf8, List.length_tail, hm, Nat.add_sub_cancel]
  have hcut : sanitizeOutput limit ((cutChar m :: (q ++ pad)).intersperse mark) p =
      truncatedLine ++ '\n' :: (List.replicate m replacement ++ (q ++ pad)) := by
    unfold sanitizeOutput
    simp only
    have hlength : (encodeUtf8 (cutChar m :: (q ++ pad))).length = limit + 1 := htotal
    rw [hshown, hlength, if_pos (Nat.lt_succ_self limit), Nat.add_sub_cancel_left, htail]
  refine ⟨(cutChar m :: (q ++ pad)).intersperse mark, truncatedLine ++ ['\n'], pad, ?_⟩
  rw [hcut]
  simp

theorem replicate_append_drop {i : Nat} (h : i ≤ replacements p) :
    List.replicate i replacement ++ p.drop i = p := by
  induction i generalizing p with
  | zero => rfl
  | succ i ih =>
    cases p with
    | nil => exact absurd h (by simp [replacements])
    | cons c p =>
      by_cases hc : c = replacement
      · subst hc
        rw [replacements, List.takeWhile_cons_of_pos (by simp), List.length_cons] at h
        rw [List.replicate_succ, List.cons_append, List.drop_succ_cons, ih (Nat.le_of_succ_le_succ h)]
      · rw [replacements, List.takeWhile_cons_of_neg (by simp [hc])] at h
        exact absurd h (Nat.not_succ_le_zero i)

/-- A passphrase with nothing hidden that is short enough is shown by some output. -/
theorem exists_shown (hlen : 12 ≤ p.length) (hshown : ∀ c ∈ p, isHidden c = false)
    (hcount : octetCount p ≤ limit + 2 * min 3 (replacements p)) :
    ∃ value, p <:+: sanitizeOutput limit value p := by
  have hmark : mark ∉ p := fun hc => absurd (hshown _ hc) (by decide)
  by_cases hfits : octetCount p ≤ limit
  · refine ⟨p.intersperse mark, ?_⟩
    have hclean := shownText_intersperse (by omega) hmark (by omega) hshown
    have hwhole : sanitizeOutput limit (p.intersperse mark) p = p := by
      unfold sanitizeOutput
      simp only
      rw [hclean]
      exact if_neg (not_lt.mpr hfits)
    rw [hwhole]
  · obtain ⟨m, hthree, hm, hlong⟩ : ∃ m, m ≤ 3 ∧ m ≤ replacements p ∧ octetCount p ≤ limit + 2 * m :=
      ⟨min 3 (replacements p), min_le_left _ _, min_le_right _ _, hcount⟩
    have hsplit := replicate_append_drop hm
    have hsum : octetCount p = 3 * m + octetCount (p.drop m) := by
      rw [← octetCount_replicate, ← octetCount_append, hsplit]
    have hne : p.drop m ≠ [] := by
      rw [ne_eq, List.drop_eq_nil_iff]
      omega
    have hq : ∀ c ∈ p.drop m, isHidden c = false := fun c hc => hshown c (List.mem_of_mem_drop hc)
    obtain ⟨value, hvalue⟩ :=
      sanitizeOutput_cut (by omega) hthree (by omega : m + octetCount (p.drop m) ≤ limit) (by omega) hmark hq hne
    rw [hsplit] at hvalue
    exact ⟨value, hvalue⟩

theorem length_of_accepted {v : Option Yaml.Value} (h : Settings.requirePassphrase v = .ok p) :
    12 ≤ p.length ∧ '\n' ∉ p := by
  unfold Settings.requirePassphrase at h
  split at h
  · split at h
    · cases h
    next hlen =>
      split at h
      · cases h
      next hplain =>
        cases h
        simp only [not_or] at hplain
        exact ⟨not_lt.mp hlen, hplain.2.2.1⟩
  · cases h

/-- No output shows an accepted passphrase exactly when a character of it is never shown, or when it
is too long for what is captured. -/
theorem never_shown_iff {v : Option Yaml.Value} (haccepted : Settings.requirePassphrase v = .ok p)
    (hfixed : ∀ fixed ∈ fixedTexts, ¬ p <:+: fixed) :
    (∀ value, ¬ p <:+: sanitizeOutput limit value p) ↔
      (∃ c ∈ p, isHidden c = true) ∨ limit + 2 * min 3 (replacements p) < octetCount p := by
  obtain ⟨hlen, hline⟩ := length_of_accepted haccepted
  constructor
  · intro hnever
    by_contra hshown
    rw [not_or, not_exists, not_lt] at hshown
    obtain ⟨value, hvalue⟩ := exists_shown hlen (fun c hc => by simpa [hc] using hshown.1 c) hshown.2
    exact hnever value hvalue
  · intro hcond value hvalue
    obtain ⟨hclean, hcount⟩ := shown_bound hline hfixed hvalue
    rcases hcond with ⟨c, hc, hhidden⟩ | hlong
    · exact absurd ((hclean c hc).symm.trans hhidden) Bool.false_ne_true
    · exact absurd hcount (not_le.mpr hlong)

/-- A passphrase as people choose them, and a limit of 64 KiB. -/
def ordinary : List Char := ['c', 'o', 'r', 'r', 'e', 'c', 't', ' ', 'h', 'o', 'r', 's', 'e']

def interrupted : List Char := ['c', 'o', 'r', 'r', 'e', 'c', 't', '\x01', ' ', 'h', 'o', 'r', 's', 'e']

/-- The control character hides the passphrase from the replacement and is then taken out. -/
theorem interrupted_shown : Settings.requirePassphrase (some (.str "correct horse")) = .ok ordinary ∧
    (∀ fixed ∈ fixedTexts, ¬ ordinary <:+: fixed) ∧ ordinary <:+: sanitizeOutput 65536 interrupted ordinary := by
  have hresult : sanitizeOutput 65536 interrupted ordinary = ordinary := by decide +kernel
  refine ⟨rfl, by decide, ?_⟩
  rw [hresult]

/-- A passphrase with an escape character is accepted and never shown. -/
theorem escaped_never_shown : Settings.requirePassphrase (some (.str "\x1bcorrect horse")) = .ok ('\x1b' :: ordinary) ∧
    ∀ value, ¬ '\x1b' :: ordinary <:+: sanitizeOutput 65536 value ('\x1b' :: ordinary) := by
  have haccepted : Settings.requirePassphrase (some (.str "\x1bcorrect horse")) = .ok ('\x1b' :: ordinary) := rfl
  exact ⟨haccepted, (never_shown_iff haccepted (by decide)).mpr (Or.inl ⟨'\x1b', List.mem_cons_self, by decide⟩)⟩

end EasyHaProxy.Backupd.JobLogs
