import Mathlib

/-! A document as a YAML reader gives it, and the text `json.dumps` makes of it with sorted keys, no spaces
and `default=str`. -/
namespace EasyHaProxy.Document

/-- The characters of `null`, `true`, `false` and the numbers. -/
def wordChar (c : Char) : Bool := c.isAlphanum || c == '+' || c == '-' || c == '.'

/-- A scalar that JSON writes without quotes, as it writes it. -/
structure Word where
  text : List Char
  nonempty : text ≠ []
  chars : text.all wordChar = true
  deriving DecidableEq

inductive Value
  | word (w : Word)
  | str (s : List Char)
  /-- A value of another type, a date say, with its text. -/
  | other (s : List Char)
  | arr (items : List Value)
  | obj (fields : List (List Char × Value))

/-! ## Texts in quotes -/

def hexDigit (n : Nat) : Char := if n < 10 then Char.ofNat (48 + n) else Char.ofNat (87 + n)

/-- One character as `json` writes it with `ensure_ascii=False`. -/
def escapeChar (c : Char) : List Char :=
  if c = '"' then ['\\', '"']
  else if c = '\\' then ['\\', '\\']
  else if c = '\n' then ['\\', 'n']
  else if c = '\r' then ['\\', 'r']
  else if c = '\t' then ['\\', 't']
  else if c = '\x0c' then ['\\', 'f']
  else if c = '\x08' then ['\\', 'b']
  else if c.toNat < 32 then ['\\', 'u', '0', '0', hexDigit (c.toNat / 16), hexDigit (c.toNat % 16)]
  else [c]

def quote (s : List Char) : List Char := '"' :: (s.flatMap escapeChar ++ ['"'])

def hexValue (c : Char) : Nat := if c.toNat < 58 then c.toNat - 48 else c.toNat - 87

/-- The first character a quoted text stands for, and what follows it. -/
def unescape : List Char → Option (Char × List Char)
  | '\\' :: 'u' :: '0' :: '0' :: h :: l :: rest => some (Char.ofNat (16 * hexValue h + hexValue l), rest)
  | '\\' :: 'n' :: rest => some ('\n', rest)
  | '\\' :: 'r' :: rest => some ('\r', rest)
  | '\\' :: 't' :: rest => some ('\t', rest)
  | '\\' :: 'f' :: rest => some ('\x0c', rest)
  | '\\' :: 'b' :: rest => some ('\x08', rest)
  | '\\' :: c :: rest => some (c, rest)
  | c :: rest => some (c, rest)
  | [] => none

theorem hexValue_hexDigit {n : Nat} (h : n < 16) : hexValue (hexDigit n) = n := by
  revert n
  decide

theorem unescape_escapeChar (c : Char) (r : List Char) : unescape (escapeChar c ++ r) = some (c, r) := by
  unfold escapeChar
  split_ifs with hq hb hn hr ht hf hc hlow
  iterate 7
    · subst c
      rfl
  · have hdigits : 16 * hexValue (hexDigit (c.toNat / 16)) + hexValue (hexDigit (c.toNat % 16)) = c.toNat := by
      rw [hexValue_hexDigit (by omega), hexValue_hexDigit (by omega)]
      omega
    simp only [List.cons_append, List.nil_append, unescape, hdigits, Char.ofNat_toNat]
  · simp only [List.cons_append, List.nil_append]
    unfold unescape
    split <;> simp_all

theorem escapeChar_ne_quote (c : Char) (r l : List Char) : escapeChar c ++ r ≠ '"' :: l := by
  unfold escapeChar
  intro h
  split at h
  · cases h
  repeat
    split at h
    · cases h
  rename_i hquote _ _ _ _ _ _ _
  exact hquote (List.head_eq_of_cons_eq h)

/-- The end of a quoted text can be told from what is in it. -/
theorem escaped_inj {s t r r' : List Char}
    (h : s.flatMap escapeChar ++ '"' :: r = t.flatMap escapeChar ++ '"' :: r') : s = t ∧ r = r' := by
  induction s generalizing t with
  | nil =>
    cases t with
    | nil => exact ⟨rfl, by simpa using h⟩
    | cons c t =>
      rw [List.flatMap_cons, List.append_assoc] at h
      exact absurd h.symm (escapeChar_ne_quote c _ _)
  | cons c s ih =>
    cases t with
    | nil =>
      rw [List.flatMap_cons, List.append_assoc] at h
      exact absurd h (escapeChar_ne_quote c _ _)
    | cons d t =>
      rw [List.flatMap_cons, List.flatMap_cons, List.append_assoc, List.append_assoc] at h
      have hfirst := congrArg unescape h
      rw [unescape_escapeChar, unescape_escapeChar] at hfirst
      obtain ⟨rfl, hrest⟩ := Prod.mk.inj (Option.some.inj hfirst)
      obtain ⟨rfl, hr⟩ := ih hrest
      exact ⟨rfl, hr⟩

theorem quote_append (s r : List Char) : quote s ++ r = '"' :: (s.flatMap escapeChar ++ '"' :: r) := by
  simp [quote]

theorem quote_inj {s t r r' : List Char} (h : quote s ++ r = quote t ++ r') : s = t ∧ r = r' := by
  rw [quote_append, quote_append] at h
  exact escaped_inj (List.cons.inj h).2

/-! ## The text of a document -/

mutual

def print : Value → List Char
  | .word w => w.text
  | .str s => quote s
  | .other s => quote s
  | .arr items => '[' :: printItems true items
  | .obj fields => '{' :: printFields true fields

def printItems : Bool → List Value → List Char
  | _, [] => [']']
  | first, v :: items => (if first then [] else [',']) ++ (print v ++ printItems false items)

def printFields : Bool → List (List Char × Value) → List Char
  | _, [] => ['}']
  | first, (k, v) :: fields =>
    (if first then [] else [',']) ++ (quote k ++ ':' :: (print v ++ printFields false fields))

end

mutual

/-- Values JSON has no form of, as the texts they are written as. -/
def erase : Value → Value
  | .word w => .word w
  | .str s => .str s
  | .other s => .str s
  | .arr items => .arr (eraseItems items)
  | .obj fields => .obj (eraseFields fields)

def eraseItems : List Value → List Value
  | [] => []
  | v :: items => erase v :: eraseItems items

def eraseFields : List (List Char × Value) → List (List Char × Value)
  | [] => []
  | (k, v) :: fields => (k, erase v) :: eraseFields fields

end

/-- What follows a value: nothing, or a character no word has. -/
def Ends (r : List Char) : Prop := ∀ c ∈ r.head?, wordChar c = false

theorem word_inj {w w' : Word} {r r' : List Char} (hr : Ends r) (hr' : Ends r')
    (h : w.text ++ r = w'.text ++ r') : w = w' ∧ r = r' := by
  have htake : ∀ (l r : List Char), l.all wordChar = true → Ends r → (l ++ r).takeWhile wordChar = l := by
    intro l r hl hr
    rw [List.takeWhile_append_of_pos (by simpa using hl)]
    cases r with
    | nil => simp
    | cons c r => simp [hr c rfl]
  have htext : w.text = w'.text := by
    rw [← htake w.text r w.chars hr, ← htake w'.text r' w'.chars hr', h]
  cases w
  cases w'
  cases htext
  exact ⟨rfl, List.append_cancel_left h⟩

/-- The kind of a value by the first character of its text. -/
def kind (c : Char) : Nat :=
  if c = '"' then 1 else if c = '[' then 2 else if c = '{' then 3 else 0

def kindOf : Value → Nat
  | .word _ => 0
  | .str _ | .other _ => 1
  | .arr _ => 2
  | .obj _ => 3

theorem kind_wordChar {c : Char} (h : wordChar c = true) : kind c = 0 := by
  unfold kind
  split_ifs with hq ha ho
  iterate 3
    · subst c
      cases h
  · rfl

theorem kind_head (v : Value) (r : List Char) : ∃ c l, print v ++ r = c :: l ∧ kind c = kindOf v := by
  cases v with
  | word w =>
    obtain ⟨text, hne, hchars⟩ := w
    obtain ⟨c, l, rfl⟩ := List.exists_cons_of_ne_nil hne
    exact ⟨c, l ++ r, by simp [print], kind_wordChar (List.all_eq_true.mp hchars _ List.mem_cons_self)⟩
  | str s => exact ⟨_, _, quote_append s r, rfl⟩
  | other s => exact ⟨_, _, quote_append s r, rfl⟩
  | arr items => exact ⟨'[', printItems true items ++ r, by simp [print], rfl⟩
  | obj fields => exact ⟨'{', printFields true fields ++ r, by simp [print], rfl⟩

theorem kindOf_eq {a b : Value} {r r' : List Char} (h : print a ++ r = print b ++ r') :
    kindOf a = kindOf b := by
  obtain ⟨c, l, hc, hk⟩ := kind_head a r
  obtain ⟨c', l', hc', hk'⟩ := kind_head b r'
  rw [hc, hc'] at h
  obtain ⟨rfl, -⟩ := List.cons.inj h
  exact hk.symm.trans hk'

theorem ends_items (items : List Value) (r : List Char) : Ends (printItems false items ++ r) := by
  cases items with
  | nil =>
    intro c hc
    simp only [printItems, List.cons_append, List.head?_cons, Option.mem_some] at hc
    subst hc
    decide
  | cons v items =>
    intro c hc
    simp only [printItems, Bool.false_eq_true, if_false, List.cons_append, List.nil_append,
      List.head?_cons, Option.mem_some] at hc
    subst hc
    decide

theorem ends_fields (fields : List (List Char × Value)) (r : List Char) :
    Ends (printFields false fields ++ r) := by
  cases fields with
  | nil =>
    intro c hc
    simp only [printFields, List.cons_append, List.head?_cons, Option.mem_some] at hc
    subst hc
    decide
  | cons f fields =>
    intro c hc
    obtain ⟨k, v⟩ := f
    simp only [printFields, Bool.false_eq_true, if_false, List.cons_append, List.nil_append,
      List.head?_cons, Option.mem_some] at hc
    subst hc
    decide

theorem print_ne_bracket (v : Value) (r l : List Char) : print v ++ r ≠ ']' :: l := by
  intro h
  cases v with
  | word w =>
    obtain ⟨text, hne, hchars⟩ := w
    obtain ⟨c, t, rfl⟩ := List.exists_cons_of_ne_nil hne
    simp only [print, List.cons_append] at h
    obtain ⟨rfl, -⟩ := List.cons.inj h
    exact absurd (List.all_eq_true.mp hchars _ List.mem_cons_self) (by decide)
  | str s =>
    rw [print, quote_append] at h
    cases h
  | other s =>
    rw [print, quote_append] at h
    cases h
  | arr items =>
    simp only [print, List.cons_append] at h
    cases h
  | obj fields =>
    simp only [print, List.cons_append] at h
    cases h

mutual

/-- A text stands for one value, and says where that ends. -/
theorem print_inj (a b : Value) (r r' : List Char) (hr : Ends r) (hr' : Ends r')
    (h : print a ++ r = print b ++ r') : erase a = erase b ∧ r = r' := by
  have hkind := kindOf_eq h
  match a, b, hkind with
  | .word w, .word w', _ =>
    obtain ⟨rfl, hr⟩ := word_inj hr hr' h
    exact ⟨rfl, hr⟩
  | .str s, .str t, _ =>
    obtain ⟨rfl, hr⟩ := quote_inj h
    exact ⟨rfl, hr⟩
  | .str s, .other t, _ =>
    obtain ⟨rfl, hr⟩ := quote_inj h
    exact ⟨rfl, hr⟩
  | .other s, .str t, _ =>
    obtain ⟨rfl, hr⟩ := quote_inj h
    exact ⟨rfl, hr⟩
  | .other s, .other t, _ =>
    obtain ⟨rfl, hr⟩ := quote_inj h
    exact ⟨rfl, hr⟩
  | .arr items, .arr items', _ =>
    obtain ⟨hitems, hr⟩ := printItems_inj true items items' r r' (List.cons.inj h).2
    rw [erase, erase, hitems]
    exact ⟨rfl, hr⟩
  | .obj fields, .obj fields', _ =>
    obtain ⟨hfields, hr⟩ := printFields_inj true fields fields' r r' (List.cons.inj h).2
    rw [erase, erase, hfields]
    exact ⟨rfl, hr⟩

theorem printItems_inj (first : Bool) (items items' : List Value) (r r' : List Char)
    (h : printItems first items ++ r = printItems first items' ++ r') :
    eraseItems items = eraseItems items' ∧ r = r' := by
  match items, items' with
  | [], [] => exact ⟨rfl, (List.cons.inj h).2⟩
  | [], w :: items' =>
    cases first with
    | true =>
      simp only [printItems, if_true, List.nil_append, List.append_assoc] at h
      exact absurd h.symm (print_ne_bracket w _ _)
    | false =>
      simp only [printItems, Bool.false_eq_true, if_false, List.cons_append, List.nil_append] at h
      cases h
  | v :: items, [] =>
    cases first with
    | true =>
      simp only [printItems, if_true, List.nil_append, List.append_assoc] at h
      exact absurd h (print_ne_bracket v _ _)
    | false =>
      simp only [printItems, Bool.false_eq_true, if_false, List.cons_append, List.nil_append] at h
      cases h
  | v :: items, w :: items' =>
    simp only [printItems, List.append_assoc, List.append_cancel_left_eq] at h
    obtain ⟨hv, hrest⟩ := print_inj v w _ _ (ends_items items r) (ends_items items' r') h
    obtain ⟨hitems, hr⟩ := printItems_inj false items items' r r' hrest
    rw [eraseItems, eraseItems, hv, hitems]
    exact ⟨rfl, hr⟩

theorem printFields_inj (first : Bool) (fields fields' : List (List Char × Value)) (r r' : List Char)
    (h : printFields first fields ++ r = printFields first fields' ++ r') :
    eraseFields fields = eraseFields fields' ∧ r = r' := by
  match fields, fields' with
  | [], [] => exact ⟨rfl, (List.cons.inj h).2⟩
  | [], (k, w) :: fields' =>
    cases first <;>
      simp [printFields, quote] at h
  | (k, v) :: fields, [] =>
    cases first <;>
      simp [printFields, quote] at h
  | (k, v) :: fields, (k', w) :: fields' =>
    simp only [printFields, List.append_assoc, List.append_cancel_left_eq] at h
    obtain ⟨rfl, hcolon⟩ := quote_inj h
    obtain ⟨hv, hrest⟩ :=
      print_inj v w _ _ (ends_fields fields r) (ends_fields fields' r') (by simpa using hcolon)
    obtain ⟨hfields, hr⟩ := printFields_inj false fields fields' r r' hrest
    rw [eraseFields, eraseFields, hv, hfields]
    exact ⟨rfl, hr⟩

end

/-! ## Sorted keys -/

/-- Texts in the order of their code points. -/
def keyLe : List Char → List Char → Bool
  | [], _ => true
  | _ :: _, [] => false
  | a :: l, b :: m => decide (a.toNat < b.toNat) || (decide (a.toNat = b.toNat) && keyLe l m)

def insertField (field : List Char × Value) : List (List Char × Value) → List (List Char × Value)
  | [] => [field]
  | other :: fields => if keyLe field.1 other.1 then field :: other :: fields
    else other :: insertField field fields

mutual

def sortKeys : Value → Value
  | .word w => .word w
  | .str s => .str s
  | .other s => .other s
  | .arr items => .arr (sortItems items)
  | .obj fields => .obj (sortFields fields)

def sortItems : List Value → List Value
  | [] => []
  | v :: items => sortKeys v :: sortItems items

def sortFields : List (List Char × Value) → List (List Char × Value)
  | [] => []
  | (k, v) :: fields => insertField (k, sortKeys v) (sortFields fields)

end

/-- `json.dumps(value, sort_keys=True, ensure_ascii=False, separators=(",", ":"), default=str)`. -/
def canonical (v : Value) : List Char := print (sortKeys v)

/-- What the canonical text shows of a document: its keys in order, other values as texts. -/
def shown (v : Value) : Value := erase (sortKeys v)

mutual

theorem print_erase (v : Value) : print (erase v) = print v := by
  match v with
  | .word w => rfl
  | .str s => rfl
  | .other s => rfl
  | .arr items => rw [erase, print, print, printItems_erase true items]
  | .obj fields => rw [erase, print, print, printFields_erase true fields]

theorem printItems_erase (first : Bool) (items : List Value) :
    printItems first (eraseItems items) = printItems first items := by
  match items with
  | [] => rfl
  | v :: items => rw [eraseItems, printItems, printItems, print_erase v, printItems_erase false items]

theorem printFields_erase (first : Bool) (fields : List (List Char × Value)) :
    printFields first (eraseFields fields) = printFields first fields := by
  match fields with
  | [] => rfl
  | (k, v) :: fields =>
    rw [eraseFields, printFields, printFields, print_erase v, printFields_erase false fields]

end

theorem canonical_eq_iff (a b : Value) : canonical a = canonical b ↔ shown a = shown b := by
  constructor
  · intro h
    have hnil : Ends [] := fun c hc => by cases hc
    have hprint : print (sortKeys a) ++ [] = print (sortKeys b) ++ [] := by
      rw [List.append_nil, List.append_nil]
      exact h
    exact (print_inj _ _ [] [] hnil hnil hprint).1
  · intro h
    have hprint := congrArg print h
    unfold shown at hprint
    rw [print_erase, print_erase] at hprint
    exact hprint

/-! ## Key paths -/

/-- `data.get(key)` of a mapping; anything else has no keys. -/
def get? : Value → List Char → Option Value
  | .obj fields, key => fields.lookup key
  | _, _ => none

/-- `_get_path`, with `none` for a path that leads nowhere. -/
def getPath : Value → List (List Char) → Option Value
  | v, [] => some v
  | v, key :: path => (get? v key).bind fun nested => getPath nested path

/-- `data[key] = value`: in place, or at the end. -/
def setField (key : List Char) (value : Value) : List (List Char × Value) → List (List Char × Value)
  | [] => [(key, value)]
  | field :: fields => if field.1 = key then (key, value) :: fields else field :: setField key value fields

def fieldsOf : Value → List (List Char × Value)
  | .obj fields => fields
  | _ => []

/-- `_set_path`: what is no mapping on the way is replaced by an empty one. -/
def setPath (value : Value) : List (List Char) → Value → Value
  | [], _ => value
  | key :: path, v =>
    .obj (setField key (setPath value path ((get? v key).getD (.obj []))) (fieldsOf v))

theorem lookup_setField (key other : List Char) (value : Value) (fields : List (List Char × Value)) :
    (setField key value fields).lookup other = if other = key then some value else fields.lookup other := by
  induction fields with
  | nil =>
    by_cases ho : other = key
    · simp [setField, ho]
    · have hb : (other == key) = false := by simpa using ho
      simp [setField, List.lookup, ho, hb]
  | cons field fields ih =>
    obtain ⟨k, w⟩ := field
    by_cases hk : k = key
    · subst hk
      by_cases ho : other = k
      · simp [setField, ho]
      · have hb : (other == k) = false := by simpa using ho
        simp [setField, List.lookup, ho, hb]
    · rw [setField, if_neg hk]
      by_cases ho : other = k
      · subst ho
        simp [List.lookup, hk]
      · have hb : (other == k) = false := by simpa using ho
        simp only [List.lookup, hb]
        exact ih

theorem get?_eq_lookup (v : Value) (key : List Char) : get? v key = (fieldsOf v).lookup key := by
  cases v <;> rfl

/-- Two key paths part: neither leads on from the other. -/
def Apart (p q : List (List Char)) : Prop := ¬ p <+: q ∧ ¬ q <+: p

/-- Setting one path changes nothing on the paths that part from it. -/
theorem getPath_setPath (value v : Value) {p q : List (List Char)} (h : Apart p q) :
    getPath (setPath value p v) q = getPath v q := by
  induction p generalizing q v with
  | nil => exact absurd (List.nil_prefix) h.1
  | cons key p ih =>
    cases q with
    | nil => exact absurd (List.nil_prefix) h.2
    | cons other q =>
      rw [setPath, getPath, getPath, get?_eq_lookup, fieldsOf, lookup_setField, get?_eq_lookup v other]
      by_cases ho : other = key
      · subst ho
        have hapart : Apart p q := by
          refine ⟨fun hp => h.1 ?_, fun hp => h.2 ?_⟩
          · simpa using hp
          · simpa using hp
        rw [if_pos rfl, Option.bind_some, ih _ hapart, get?_eq_lookup]
        cases hl : (fieldsOf v).lookup other with
        | none =>
          -- a mapping made on the way has nothing on a path that parts from the one set
          cases q with
          | nil => exact absurd (List.nil_prefix) hapart.2
          | cons k q => rfl
        | some nested => rfl
      · rw [if_neg ho]

end EasyHaProxy.Document
