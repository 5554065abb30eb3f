import Mathlib.Data.List.DropRight
import Mathlib.Tactic.Common

/-! What Python's `str` methods do, on the characters of a string. -/
namespace EasyHaProxy.Text

instance instLawfulBEqChars : LawfulBEq (List Char) := inferInstance

variable {p : Char → Bool} {l : List Char}

/-- What `str.isspace` holds of, the characters `str.strip` takes off. -/
def isSpace (c : Char) : Bool :=
  c ∈ ['\t', '\n', '\x0b', '\x0c', '\r', '\x1c', '\x1d', '\x1e', '\x1f', ' ', '\x85', '\xa0',
    '\u1680', '\u2028', '\u2029', '\u202f', '\u205f', '\u3000'] ||
  '\u2000' ≤ c && c ≤ '\u200a'

/-- Both ends without the characters of a kind. -/
def trim (p : Char → Bool) (l : List Char) : List Char := (l.dropWhile p).rdropWhile p

def strip (l : List Char) : List Char := trim isSpace l

theorem trim_trim : trim p (trim p l) = trim p l := by
  unfold trim
  set m := l.dropWhile p with hm
  have hd : m.dropWhile p = m := by rw [hm, List.dropWhile_idempotent]
  have hhead : (m.rdropWhile p).dropWhile p = m.rdropWhile p := by
    rw [List.dropWhile_eq_self_iff] at hd ⊢
    intro hl
    have hpre := List.rdropWhile_prefix p m
    rw [hpre.getElem hl]
    exact hd (hl.trans_le hpre.length_le)
  rw [hhead, List.rdropWhile_idempotent]

theorem length_trim_le : (trim p l).length ≤ l.length :=
  le_trans (List.rdropWhile_prefix p _).length_le (List.dropWhile_suffix p).length_le

theorem strip_strip : strip (strip l) = strip l := trim_trim

/-- `text.lower()` where only the ASCII letters of the result matter: the Kelvin sign is
the one other character whose lower case is ASCII. -/
def lower (l : List Char) : List Char := l.map fun c => if c = '\u212a' then 'k' else c.toLower

/-- `text.upper()` where only the ASCII letters of the result matter. -/
def upper (l : List Char) : List Char :=
  l.flatMap fun c =>
    if c = 'ß' then ['S', 'S']
    else if c = '\ufb00' then ['F', 'F']
    else if c = '\ufb01' then ['F', 'I']
    else if c = '\ufb02' then ['F', 'L']
    else if c = '\ufb05' ∨ c = '\ufb06' then ['S', 'T']
    else if c = 'ı' then ['I']
    else if c = 'ſ' then ['S']
    else [c.toUpper]

end EasyHaProxy.Text
