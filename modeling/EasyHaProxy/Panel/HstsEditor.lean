import EasyHaProxy.Lib.Decimal
import EasyHaProxy.Lib.Lowered
import EasyHaProxy.Lib.Pieces

/-! `_hsts_editor_value` and the template read `site_defaults.hsts` by different rules. -/
namespace EasyHaProxy.Panel.Hsts

open EasyHaProxy.Python EasyHaProxy.Text

/-- What `vars.yml` holds. -/
inductive Setting
  | absent
  | null
  | bool (b : Bool)
  | int (n : Int)
  | str (s : List Char)

/-- `HSTS_LEGACY_UNIT_SECONDS`. -/
def unitSeconds : Char → Option Nat
  | 's' => some 1
  | 'm' => some 60
  | 'h' => some 3600
  | 'd' => some 86400
  | _ => none

/-- How texts are read as numbers. -/
structure Reading where
  py : Interpreter
  /-- The ASCII digits are digits, the letters are none. -/
  ascii : ∀ c, c.isDigit = true → py.digit c = some (c.toNat - 48)
  letter : ∀ c, isAlpha c = true ∨ c = '\u212a' → py.digit c = none
  /-- `int(float(text))`; nothing for what is not a number, or not a finite one. -/
  float : List Char → Option Int
  /-- No float ends in the letter of a unit. -/
  float_unit : ∀ text c, (Text.strip text).getLast? = some c → (unitSeconds (lowerChar c)).isSome →
    float text = none

variable (r : Reading)

/-! ## The editor -/

def hstsDefaultSeconds : Int := 15552000

/-- `HSTS_LEGACY_INTERVAL_RE.fullmatch`: the digits, and the seconds of the unit. -/
def legacyInterval (text : List Char) : Option (List Char × Nat) :=
  if text.dropLast ≠ [] ∧ text.dropLast.all Char.isDigit then
    (text.getLast?.bind unitSeconds).map fun seconds => (text.dropLast, seconds)
  else none

/-- `_hsts_editor_value`. -/
def hstsEditorValue : Setting → Except Raised Int
  | .absent | .null => .ok hstsDefaultSeconds
  | .bool true => .ok 31536000
  | .bool false => .ok 0
  | .int n => .ok n
  | .str s =>
    match r.py.int (lower (Text.strip s)) with
    | .ok n => .ok n
    | .error _ =>
      match legacyInterval (lower (Text.strip s)) with
      | some (digits, seconds) => (r.py.int digits).map (· * seconds)
      | none => .ok hstsDefaultSeconds

/-- The field of `get_vars_editor_model`, with its default where nothing is stored. -/
def shown : Setting → Except Raised Int
  | .absent | .null => hstsEditorValue r (.int hstsDefaultSeconds)
  | stored => hstsEditorValue r stored

/-! ## The template -/

/-- Jinja's `int` filter of a text. -/
def intFilter (text : List Char) : Int :=
  match r.py.int text with
  | .ok n => n
  | .error _ => (r.float text).getD 0

/-- `_hsts_seconds` of a site with no setting of its own. -/
def hstsSeconds : Setting → Int
  | .absent => 15552000
  | .null => 0
  | .bool true => 31536000
  | .bool false => 0
  | .int n => n
  | .str s => if s.getLast? = some 'd' then intFilter r s.dropLast * 86400 else intFilter r s

/-- The `max-age` of the header; there is none unless it is above zero. -/
def served (stored : Setting) : Int := max 0 (hstsSeconds r stored)

/-! ## Where they agree -/

/-- A text reads the same for both: a number that is not negative; digits with a `d` at the very end of
the text, or a legacy interval of nothing; or, for what the editor cannot read, 180 days in numbers
only the template reads. -/
def TextAgrees (s : List Char) : Prop :=
  match r.py.int s with
  | .ok n => 0 ≤ n
  | .error _ =>
    match legacyInterval (lower (Text.strip s)) with
    | some (digits, _) => ∃ n, r.py.int digits = .ok n ∧ (s.getLast? = some 'd' ∨ n = 0)
    | none => if s.getLast? = some 'd' then intFilter r s.dropLast = 180 else intFilter r s = 15552000

def Agrees : Setting → Prop
  | .absent => True
  | .null => False
  | .bool _ => True
  | .int n => 0 ≤ n
  | .str s => TextAgrees r s

variable {r} {s l digits : List Char} {c d : Char} {n : Int} {seconds : Nat}

/-! ## Lower case -/

theorem isSpace_lowerChar (c : Char) : isSpace (lowerChar c) = isSpace c := by
  rcases lowerChar_cases c with h | ⟨hc, hl⟩
  · rw [h]
  · rw [(plain_of_letter hc).1, (plain_of_isAlpha hl).1]

theorem digit_lowerChar (c : Char) : r.py.digit (lowerChar c) = r.py.digit c := by
  rcases lowerChar_cases c with h | ⟨hc, hl⟩
  · rw [h]
  · rw [r.letter c hc, r.letter _ (Or.inl hl)]

/-- A sign is in the lowered text where it is in the text. -/
theorem lowerChar_eq_iff (hc : c = '-' ∨ c = '+' ∨ c = '_') (d : Char) : lowerChar d = c ↔ d = c := by
  rcases lowerChar_cases d with h | ⟨hd, hl⟩
  · rw [h]
  · have h1 := plain_of_letter hd
    have h2 := plain_of_isAlpha hl
    rcases hc with rfl | rfl | rfl
    · exact iff_of_false h2.2.1 h1.2.1
    · exact iff_of_false h2.2.2.1 h1.2.2.1
    · exact iff_of_false h2.2.2.2.1 h1.2.2.2.1

theorem lowerChar_of_isDigit (h : (lowerChar c).isDigit = true) : lowerChar c = c := by
  rcases lowerChar_cases c with hc | ⟨-, hl⟩
  · exact hc
  · rw [(plain_of_isAlpha hl).2.2.2.2] at h
    cases h

theorem strip_lower (l : List Char) : Text.strip (lower l) = lower (Text.strip l) := by
  have hspace : isSpace ∘ lowerChar = isSpace := funext isSpace_lowerChar
  rw [lower_eq_map, lower_eq_map, Text.strip, Text.strip, trim, trim, List.dropWhile_map, hspace, List.rdropWhile,
    List.rdropWhile, ← List.map_reverse, List.dropWhile_map, hspace, List.map_reverse]

/-! ## Numbers -/

theorem digits_lower (l : List Char) : r.py.digits (lower l) = r.py.digits l := by
  rw [lower_eq_map]
  induction l using Interpreter.digits.induct with
  | case1 => rfl
  | case2 c => simp [Interpreter.digits, digit_lowerChar]
  | case3 c rest ih =>
    have hmark : lowerChar '_' = '_' := by decide
    rw [List.map_cons, List.map_cons, hmark, Interpreter.digits, Interpreter.digits, ih, digit_lowerChar]
  | case4 c rest hone hmark ih =>
    obtain ⟨b, rest, rfl⟩ := List.exists_cons_of_ne_nil hone
    have hb : lowerChar b ≠ '_' := fun h => hmark rest (by rw [(lowerChar_eq_iff (by simp) b).mp h])
    have hstep (d e : Char) (tail : List Char) (he : e ≠ '_') : r.py.digits (d :: e :: tail) =
        (r.py.digit d).bind fun x => (r.py.digits (e :: tail)).bind fun xs => some (x :: xs) := by
      rw [Interpreter.digits]
      · rfl
      · simp
      · intro rest' heq
        exact he (List.cons.inj heq).1
    rw [List.map_cons] at ih
    rw [List.map_cons, List.map_cons, hstep _ _ _ hb, ih, digit_lowerChar,
      hstep c b rest fun h => hmark rest (by rw [h])]

/-- The number of some digits, unless there are too many. -/
def numberOf (sign : Int) : Option (List Nat) → Except Raised Int
  | none => .error .valueError
  | some ds => if maxStrDigits < ds.length then .error .valueError
    else .ok (sign * (ds.foldl (fun n d => 10 * n + d) 0 : Nat))

theorem int_minus (h : Text.strip l = '-' :: s) : r.py.int l = numberOf (-1) (r.py.digits s) := by
  unfold Interpreter.int
  rw [h]
  rfl

theorem int_plus (h : Text.strip l = '+' :: s) : r.py.int l = numberOf 1 (r.py.digits s) := by
  unfold Interpreter.int
  rw [h]
  rfl

theorem int_plain (hminus : ∀ rest, Text.strip l ≠ '-' :: rest) (hplus : ∀ rest, Text.strip l ≠ '+' :: rest) :
    r.py.int l = numberOf 1 (r.py.digits (Text.strip l)) := by
  unfold Interpreter.int
  split
  next sign number heq =>
    split at heq
    next rest h => exact absurd h (hminus rest)
    next rest h => exact absurd h (hplus rest)
    · cases heq
      rfl

theorem int_strip (l : List Char) : r.py.int (Text.strip l) = r.py.int l := by
  unfold Interpreter.int
  rw [strip_strip]

theorem lower_eq_cons (hc : c = '-' ∨ c = '+') (h : lower l = c :: s) :
    ∃ rest, l = c :: rest ∧ lower rest = s := by
  cases l with
  | nil => cases h
  | cons d rest =>
    obtain ⟨hd, hs⟩ := List.cons.inj h
    exact ⟨rest, by rw [(lowerChar_eq_iff (by tauto) d).mp hd], hs⟩

/-- `int` reads a lowered text as it reads the text. -/
theorem int_lower (l : List Char) : r.py.int (lower l) = r.py.int l := by
  by_cases hminus : ∃ rest, Text.strip l = '-' :: rest
  · obtain ⟨rest, h⟩ := hminus
    have hl : Text.strip (lower l) = '-' :: lower rest := by
      rw [strip_lower, h]
      rfl
    rw [int_minus hl, int_minus h, digits_lower]
  by_cases hplus : ∃ rest, Text.strip l = '+' :: rest
  · obtain ⟨rest, h⟩ := hplus
    have hl : Text.strip (lower l) = '+' :: lower rest := by
      rw [strip_lower, h]
      rfl
    rw [int_plus hl, int_plus h, digits_lower]
  · rw [not_exists] at hminus hplus
    rw [int_plain hminus hplus, int_plain, strip_lower, digits_lower]
    · intro rest h
      rw [strip_lower] at h
      obtain ⟨rest', h', -⟩ := lower_eq_cons (Or.inl rfl) h
      exact hminus rest' h'
    · intro rest h
      rw [strip_lower] at h
      obtain ⟨rest', h', -⟩ := lower_eq_cons (Or.inr rfl) h
      exact hplus rest' h'

theorem digits_none_of_last (h : l.getLast? = some c) (hc : r.py.digit c = none) : r.py.digits l = none := by
  induction l using Interpreter.digits.induct with
  | case1 => rfl
  | case2 d =>
    obtain rfl : d = c := by simpa using h
    simp [Interpreter.digits, hc]
  | case3 d rest ih =>
    have hrest : r.py.digits rest = none := by
      cases rest with
      | nil => rfl
      | cons e rest => exact ih (by simpa [List.getLast?_cons_cons] using h)
    rw [Interpreter.digits, hrest]
    cases r.py.digit d <;> rfl
  | case4 d rest hone hmark ih =>
    obtain ⟨e, rest, rfl⟩ := List.exists_cons_of_ne_nil hone
    have hrest := ih (by simpa [List.getLast?_cons_cons] using h)
    rw [Interpreter.digits, hrest]
    · cases r.py.digit d <;> rfl
    · simp
    · intro rest' heq
      exact hmark rest' heq

theorem digits_none_after (h : (c :: l).getLast? = some d) (hd : r.py.digit d = none) :
    r.py.digits l = none := by
  cases l with
  | nil => rfl
  | cons e l => exact digits_none_of_last (by simpa [List.getLast?_cons_cons] using h) hd

theorem int_error_of_last (h : (Text.strip l).getLast? = some c) (hc : isAlpha c = true ∨ c = '\u212a') :
    r.py.int l = .error .valueError := by
  have hdigit := r.letter c hc
  by_cases h1 : ∃ rest, Text.strip l = '-' :: rest
  · obtain ⟨rest, h1⟩ := h1
    rw [int_minus h1, digits_none_after (h1 ▸ h) hdigit]
    rfl
  by_cases h2 : ∃ rest, Text.strip l = '+' :: rest
  · obtain ⟨rest, h2⟩ := h2
    rw [int_plus h2, digits_none_after (h2 ▸ h) hdigit]
    rfl
  · rw [not_exists] at h1 h2
    rw [int_plain h1 h2, digits_none_of_last h hdigit]
    rfl

theorem strip_of_digits (hall : digits.all Char.isDigit = true) : Text.strip digits = digits := by
  exact strip_of_all fun c hc => isSpace_of_isDigit (List.all_eq_true.mp hall c hc)

/-- ASCII digits are a number that is not negative, or too many. -/
theorem int_digits_nonneg (hall : digits.all Char.isDigit = true) (h : r.py.int digits = .ok n) : 0 ≤ n := by
  have hhead {c : Char} {rest : List Char} (hs : Text.strip digits = c :: rest) : c.isDigit = true := by
    rw [strip_of_digits hall] at hs
    rw [hs, List.all_cons, Bool.and_eq_true] at hall
    exact hall.1
  rw [int_plain (fun rest hs => absurd (hhead hs) (by decide)) (fun rest hs => absurd (hhead hs) (by decide))] at h
  unfold numberOf at h
  split at h
  · cases h
  · split at h
    · cases h
    · rw [← Except.ok.inj h]
      omega

/-! ## Legacy intervals -/

theorem isAlpha_of_unit (h : (unitSeconds c).isSome = true) : isAlpha c = true := by
  unfold unitSeconds at h
  split at h
  · decide
  · decide
  · decide
  · decide
  · cases h

theorem legacyInterval_eq_some (h : legacyInterval l = some (digits, seconds)) :
    digits.all Char.isDigit = true ∧ digits ≠ [] ∧
      ∃ unit, l = digits ++ [unit] ∧ unitSeconds unit = some seconds := by
  unfold legacyInterval at h
  split at h
  next hd =>
    obtain ⟨seconds', hbind, heq⟩ := Option.map_eq_some_iff.mp h
    obtain ⟨unit, hlast, hunit⟩ := Option.bind_eq_some_iff.mp hbind
    obtain ⟨rfl, rfl⟩ := Prod.mk.inj heq
    refine ⟨hd.2, hd.1, unit, ?_, hunit⟩
    exact (List.dropLast_append_getLast? unit hlast).symm
  · cases h

theorem not_number_of_legacy (h : legacyInterval (lower (Text.strip s)) = some (digits, seconds)) :
    (∃ c, (Text.strip s).getLast? = some c ∧ unitSeconds (lowerChar c) = some seconds) ∧
      r.py.int s = .error .valueError ∧ r.float s = none := by
  obtain ⟨-, -, unit, hsplit, hunit⟩ := legacyInterval_eq_some h
  have hlast : (lower (Text.strip s)).getLast? = some unit := by
    rw [hsplit, List.getLast?_append, List.getLast?_singleton]
    rfl
  rw [lower_eq_map, List.getLast?_map] at hlast
  obtain ⟨c, hc, rfl⟩ := Option.map_eq_some_iff.mp hlast
  have hsome : (unitSeconds (lowerChar c)).isSome = true := by rw [hunit]; rfl
  refine ⟨⟨c, hc, hunit⟩, ?_, r.float_unit s c hc hsome⟩
  rcases lowerChar_cases c with hsame | ⟨hletter, -⟩
  · exact int_error_of_last hc (Or.inl (hsame ▸ isAlpha_of_unit hsome))
  · exact int_error_of_last hc hletter

/-- Before a last letter only blanks come off. -/
theorem strip_append_letter (hc : isSpace c = false) (l : List Char) :
    Text.strip (l ++ [c]) = l.dropWhile isSpace ++ [c] := by
  have hleft : (l ++ [c]).dropWhile isSpace = l.dropWhile isSpace ++ [c] := by
    induction l with
    | nil => exact List.dropWhile_cons_of_neg (by simp [hc])
    | cons d l ih =>
      rw [List.cons_append]
      by_cases hd : isSpace d = true
      · rw [List.dropWhile_cons_of_pos hd, List.dropWhile_cons_of_pos hd, ih]
      · rw [List.dropWhile_cons_of_neg hd, List.dropWhile_cons_of_neg hd, List.cons_append]
  rw [Text.strip, trim, hleft, List.rdropWhile_concat_neg _ _ _ (by simp [hc])]

/-- With the `d` at its very end the template reads the digits of the interval. -/
theorem int_dropLast_of_legacy (h : legacyInterval (lower (Text.strip s)) = some (digits, seconds))
    (hd : s.getLast? = some 'd') : r.py.int s.dropLast = r.py.int digits ∧ seconds = 86400 := by
  obtain ⟨hall, -, unit, hsplit, hunit⟩ := legacyInterval_eq_some h
  have hs : s = s.dropLast ++ ['d'] := (List.dropLast_append_getLast? 'd' hd).symm
  have hstrip : Text.strip s = s.dropLast.dropWhile isSpace ++ ['d'] := by
    rw [hs, strip_append_letter (by decide), List.dropLast_concat]
  set body := s.dropLast.dropWhile isSpace with hbody
  have hparts : lower body ++ ['d'] = digits ++ [unit] := by
    rw [← hsplit, hstrip, lower_eq_map, lower_eq_map, List.map_append]
    rfl
  obtain ⟨hdigits, hlast⟩ := List.append_inj' hparts rfl
  have hself : lower body = body := by
    refine (List.map_congr_left fun c hc => ?_).trans (List.map_id body)
    refine lowerChar_of_isDigit (List.all_eq_true.mp hall (lowerChar c) ?_)
    rw [← hdigits]
    exact List.mem_map_of_mem hc
  have hsame : body = digits := hself.symm.trans hdigits
  refine ⟨?_, ?_⟩
  · have hinner : Text.strip s.dropLast = Text.strip digits := by
      rw [Text.strip, Text.strip, trim, trim, ← hsame, hbody, List.dropWhile_idempotent]
    rw [← int_strip, hinner, int_strip]
  · rw [← (List.cons.inj hlast).1] at hunit
    exact (Option.some.inj hunit).symm

/-! ## The editor and the template -/

theorem not_number_of_d (hd : s.getLast? = some 'd') : r.py.int s = .error .valueError := by
  have hs : s = s.dropLast ++ ['d'] := (List.dropLast_append_getLast? 'd' hd).symm
  refine int_error_of_last ?_ (Or.inl (by decide : isAlpha 'd' = true))
  rw [hs, strip_append_letter (by decide), List.getLast?_append, List.getLast?_singleton]
  rfl

theorem served_str (s : List Char) : served r (.str s) =
    max 0 (if s.getLast? = some 'd' then intFilter r s.dropLast * 86400 else intFilter r s) := rfl

/-- A legacy interval: the editor multiplies, the template does so for a `d` at the very end. -/
theorem legacy_agrees_iff (h : legacyInterval (lower (Text.strip s)) = some (digits, seconds)) :
    (r.py.int digits).map (· * (seconds : Int)) = .ok (served r (.str s)) ↔
      ∃ n, r.py.int digits = .ok n ∧ (s.getLast? = some 'd' ∨ n = 0) := by
  obtain ⟨hall, -, unit, -, hunit⟩ := legacyInterval_eq_some h
  obtain ⟨-, hint, hfloat⟩ := not_number_of_legacy h (r := r)
  have hpos : 0 < (seconds : Int) := by
    unfold unitSeconds at hunit
    split at hunit
    all_goals first | cases hunit; decide | cases hunit
  cases hn : r.py.int digits with
  | error e => simp [Except.map]
  | ok n =>
    have hnonneg := int_digits_nonneg hall hn
    simp only [Except.map, Except.ok.injEq, exists_eq_left']
    rw [served_str]
    by_cases hd : s.getLast? = some 'd'
    · obtain ⟨hsame, rfl⟩ := int_dropLast_of_legacy h hd (r := r)
      rw [if_pos hd, intFilter, hsame, hn]
      refine iff_of_true ?_ (Or.inl hd)
      dsimp only
      omega
    · rw [if_neg hd, intFilter, hint, hfloat]
      simp only [Option.getD_none, hd, false_or]
      constructor
      · intro hzero
        exact (Int.mul_eq_zero.mp hzero).resolve_right (Int.ne_of_gt hpos)
      · rintro rfl
        exact Int.zero_mul _

theorem text_agrees_iff : shown r (.str s) = .ok (served r (.str s)) ↔ TextAgrees r s := by
  unfold shown hstsEditorValue TextAgrees
  simp only [int_lower, int_strip]
  cases hint : r.py.int s with
  | ok n =>
    have hd : s.getLast? ≠ some 'd' := by
      intro hd
      rw [not_number_of_d hd] at hint
      cases hint
    rw [served_str, if_neg hd, intFilter, hint, Except.ok.injEq]
    dsimp only
    omega
  | error e =>
    cases hlegacy : legacyInterval (lower (Text.strip s)) with
    | some interval => exact legacy_agrees_iff hlegacy
    | none =>
      rw [served_str, hstsDefaultSeconds, Except.ok.injEq]
      dsimp only
      split
      · omega
      · omega

/-- The editor shows the age that is served exactly for the settings both read alike. -/
theorem shown_eq_served_iff (r : Reading) (stored : Setting) :
    shown r stored = .ok (served r stored) ↔ Agrees r stored := by
  cases stored with
  | absent => exact iff_of_true rfl trivial
  | null => exact iff_of_false (by simp [shown, hstsEditorValue, served, hstsSeconds, hstsDefaultSeconds]) id
  | bool b => cases b <;> exact iff_of_true rfl trivial
  | int n =>
    simp only [shown, hstsEditorValue, served, hstsSeconds, Agrees, Except.ok.injEq]
    omega
  | str s => exact text_agrees_iff

/-- Numbers in ASCII only, none of them a float. -/
def plain : Reading where
  py := {
    digit := fun c => if c.isDigit then some (c.toNat - 48) else none
    digit_plain := digit_plain_of_isDigit
    lower := lower
    nfkc := id
    bracketed := fun _ => true }
  ascii _ hc := if_pos hc
  letter c hc := if_neg fun hdigit => by
    rw [(plain_of_letter hc).2.2.2.2] at hdigit
    cases hdigit
  float _ := none
  float_unit _ _ _ _ := rfl

/-- `hsts:` with nothing behind it: the editor shows half a year, and no header is sent. -/
theorem null_not_served : ¬ ∀ stored, shown plain stored = .ok (served plain stored) := by
  intro h
  have hnull := Except.ok.inj (h .null)
  revert hnull
  decide

end EasyHaProxy.Panel.Hsts
