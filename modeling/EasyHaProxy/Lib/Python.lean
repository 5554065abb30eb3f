import Mathlib.Data.List.Infix
import EasyHaProxy.Lib.Text

/-! `int`, `urllib.parse.unquote` and `urllib.parse.urlparse` on the characters of a string, with the
exceptions they raise. Unicode's tables, and what changed between releases, are fields of an interpreter. -/
namespace EasyHaProxy.Python

open Text

/-- The exceptions a call can end in. -/
inductive Raised
  | valueError
  | indexError
  deriving DecidableEq, Repr

/-- The call ends in an exception. -/
def Raises {α : Type} (x : Except Raised α) : Prop := ∃ e, x = .error e

section Raises

variable {α β : Type} {x : Except Raised α} {f : α → Except Raised β}

@[simp] theorem raises_ok (a : α) : ¬ Raises (.ok a : Except Raised α) := by
  rintro ⟨e, he⟩
  cases he

@[simp] theorem raises_error (e : Raised) : Raises (.error e : Except Raised α) := ⟨e, rfl⟩

theorem raises_bind : Raises (x >>= f) ↔ Raises x ∨ ∃ a, x = .ok a ∧ Raises (f a) := by
  cases x with
  | error e => simp [bind, Except.bind]
  | ok a => simp [bind, Except.bind]

@[simp] theorem raises_map {g : α → β} : Raises (x.map g) ↔ Raises x := by
  cases x with
  | error e => simp [Except.map]
  | ok a => simp [Except.map]

theorem raises_or_ok (x : Except Raised α) : Raises x ∨ ∃ a, x = .ok a := by
  cases x with
  | error e => exact Or.inl ⟨e, rfl⟩
  | ok a => exact Or.inr ⟨a, rfl⟩

theorem not_raises_iff : ¬ Raises x ↔ ∃ a, x = .ok a := by
  cases x with
  | error e => simp
  | ok a => simp

/-- A call made whatever the first one returned. -/
theorem raises_bind_const {γ : Type} {y : Except Raised γ} (h : ∀ a, Raises (f a) ↔ Raises y) :
    Raises (x >>= f) ↔ Raises x ∨ Raises y := by
  rw [raises_bind]
  constructor
  · rintro (hx | ⟨a, -, hf⟩)
    · exact Or.inl hx
    · exact Or.inr ((h a).mp hf)
  · rintro (hx | hy)
    · exact Or.inl hx
    · rcases raises_or_ok x with hx | ⟨a, ha⟩
      · exact Or.inl hx
      · exact Or.inr ⟨a, ha, (h a).mpr hy⟩

end Raises

structure Interpreter where
  /-- The value of a decimal digit, of any script. -/
  digit : Char → Option Nat
  /-- No digit is a blank or one of the other characters a number may have. -/
  digit_plain : ∀ c, (digit c).isSome → isSpace c = false ∧ c ≠ '+' ∧ c ≠ '-' ∧ c ≠ '_'
  /-- `str.lower`. -/
  lower : List Char → List Char
  /-- `unicodedata.normalize("NFKC", …)`. -/
  nfkc : List Char → List Char
  /-- Whether `urlsplit` takes an authority with both brackets in it; all of them before 3.11.4. -/
  bracketed : List Char → Bool

/-! ## Numbers -/

/-- `sys.int_info.default_max_str_digits`. -/
def maxStrDigits : Nat := 4300

/-- The digits of a number, an underscore allowed between two of them. -/
def Interpreter.digits (py : Interpreter) : List Char → Option (List Nat)
  | [] => none
  | [c] => (py.digit c).map fun d => [d]
  | c :: '_' :: rest => do
    let d ← py.digit c
    let ds ← py.digits rest
    some (d :: ds)
  | c :: rest => do
    let d ← py.digit c
    let ds ← py.digits rest
    some (d :: ds)

/-- `int(text)`. -/
def Interpreter.int (py : Interpreter) (text : List Char) : Except Raised Int :=
  let (sign, number) : Int × List Char := match strip text with
    | '-' :: rest => (-1, rest)
    | '+' :: rest => (1, rest)
    | rest => (1, rest)
  match py.digits number with
  | none => .error .valueError
  | some ds =>
    if maxStrDigits < ds.length then .error .valueError
    else .ok (sign * (ds.foldl (fun n d => 10 * n + d) 0 : Nat))

/-! ## Escapes -/

def hexValue (c : Char) : Option Nat :=
  if '0' ≤ c ∧ c ≤ '9' then some (c.toNat - 48)
  else if 'a' ≤ c ∧ c ≤ 'f' then some (c.toNat - 87)
  else if 'A' ≤ c ∧ c ≤ 'F' then some (c.toNat - 55)
  else none

/-- `unquote_to_bytes` on ASCII text. -/
def unquoteToBytes : List Char → List Nat
  | [] => []
  | '%' :: a :: b :: rest =>
    match hexValue a, hexValue b with
    | some x, some y => (16 * x + y) :: unquoteToBytes rest
    | _, _ => '%'.toNat :: unquoteToBytes (a :: b :: rest)
  | c :: rest => c.toNat :: unquoteToBytes rest

/-- A character begun: how many octets are to come, what there is of it, and the range of the
next octet. -/
structure Pending where
  need : Nat
  code : Nat
  low : Nat
  high : Nat

/-- The first octet of a character: the character, or what has to follow; `none` where no
character begins with it. -/
def firstOctet (b : Nat) : Option (Char ⊕ Pending) :=
  if b < 0x80 then some (.inl (Char.ofNat b))
  else if 0xc2 ≤ b ∧ b ≤ 0xdf then some (.inr ⟨1, b - 0xc0, 0x80, 0xbf⟩)
  else if 0xe0 ≤ b ∧ b ≤ 0xef then
    some (.inr ⟨2, b - 0xe0, if b = 0xe0 then 0xa0 else 0x80, if b = 0xed then 0x9f else 0xbf⟩)
  else if 0xf0 ≤ b ∧ b ≤ 0xf4 then
    some (.inr ⟨3, b - 0xf0, if b = 0xf0 then 0x90 else 0x80, if b = 0xf4 then 0x8f else 0xbf⟩)
  else none

def replacement : Char := '\ufffd'

def beginOctet (b : Nat) : List Char × Option Pending :=
  match firstOctet b with
  | none => ([replacement], none)
  | some (.inl c) => ([c], none)
  | some (.inr p) => ([], some p)

/-- One octet: the characters it completes, and the one it leaves begun. -/
def takeOctet (pending : Option Pending) (b : Nat) : List Char × Option Pending :=
  match pending with
  | none => beginOctet b
  | some p =>
    if p.low ≤ b ∧ b ≤ p.high then
      let code := 64 * p.code + (b - 0x80)
      if p.need = 1 then ([Char.ofNat code], none) else ([], some ⟨p.need - 1, code, 0x80, 0xbf⟩)
    else
      let (out, next) := beginOctet b
      (replacement :: out, next)

/-- `decode("utf-8", "replace")`. -/
def decodeUtf8 (pending : Option Pending) : List Nat → List Char
  | [] => if pending.isSome then [replacement] else []
  | b :: rest =>
    let (out, next) := takeOctet pending b
    out ++ decodeUtf8 next rest

def isAscii (c : Char) : Bool := c.toNat < 128

/-- `unquote`: the runs of ASCII are decoded one by one. -/
def unquote (text : List Char) : List Char :=
  (text.splitBy fun a b => isAscii a == isAscii b).flatMap fun part =>
    if part.all isAscii then decodeUtf8 none (unquoteToBytes part) else part

/-- `unquote_plus`. -/
def unquotePlus (text : List Char) : List Char := unquote (text.map fun c => if c = '+' then ' ' else c)

/-! ## URLs -/

structure SplitResult where
  scheme : List Char
  netloc : List Char
  path : List Char

def isAlpha (c : Char) : Bool := 'a' ≤ c && c ≤ 'z' || 'A' ≤ c && c ≤ 'Z'

def isSchemeChar (c : Char) : Bool := isAlpha c || '0' ≤ c && c ≤ '9' || c == '+' || c == '-' || c == '.'

/-- The scheme in front of the first colon, if that is one. -/
def splitScheme (url : List Char) : List Char × List Char :=
  match url.span (· != ':') with
  | (c :: scheme, ':' :: rest) =>
    if isAlpha c && scheme.all isSchemeChar then ((c :: scheme).map Char.toLower, rest) else ([], url)
  | _ => ([], url)

/-- `_splitnetloc` after two slashes. -/
def splitNetloc : List Char → List Char × List Char
  | '/' :: '/' :: rest => rest.span fun c => c != '/' && c != '?' && c != '#'
  | url => ([], url)

/-- `_checknetloc`: no character that NFKC turns into one with a meaning here. -/
def Interpreter.checkNetloc (py : Interpreter) (netloc : List Char) : Bool :=
  let plain := netloc.filter fun c => c != '@' && c != ':' && c != '#' && c != '?'
  netloc.all isAscii || py.nfkc plain == plain ||
    (py.nfkc plain).all fun c => c != '/' && c != '?' && c != '#' && c != '@' && c != ':'

/-- What `urlsplit` raises no exception for. -/
def Interpreter.netlocOk (py : Interpreter) (netloc : List Char) : Bool :=
  netloc.contains '[' == netloc.contains ']' &&
    (!netloc.contains '[' || py.bracketed netloc) && py.checkNetloc netloc

/-- Tabs and line ends are taken out of a URL before anything else. -/
def cleanUrl (url : List Char) : List Char := url.filter fun c => c != '\t' && c != '\r' && c != '\n'

/-- The authority of a URL. -/
def netlocOf (url : List Char) : List Char := (splitNetloc (splitScheme (cleanUrl url)).2).1

def Interpreter.urlsplit (py : Interpreter) (url : List Char) : Except Raised SplitResult :=
  let (scheme, rest) := splitScheme (cleanUrl url)
  let (netloc, rest) := splitNetloc rest
  if py.netlocOk netloc then
    .ok ⟨scheme, netloc, (rest.takeWhile (· != '#')).takeWhile (· != '?')⟩
  else .error .valueError

/-- `uses_params`, of the schemes met here. -/
def usesParams : List (List Char) := [[], ['h', 't', 't', 'p'], ['h', 't', 't', 'p', 's']]

/-- `_splitparams`: the last segment without its parameters. -/
def dropParams (path : List Char) : List Char :=
  path.rdropWhile (· != '/') ++ (path.rtakeWhile (· != '/')).takeWhile (· != ';')

/-- `urlparse`, less the parts nothing reads. -/
def Interpreter.urlparse (py : Interpreter) (url : List Char) : Except Raised SplitResult :=
  (py.urlsplit url).map fun r =>
    if usesParams.contains r.scheme then { r with path := dropParams r.path } else r

/-- The host in an authority, before its port. -/
def hostOf (netloc : List Char) : List Char :=
  let hostinfo := netloc.rtakeWhile (· != '@')
  match hostinfo.span (· != '[') with
  | (_, _ :: bracketed) => bracketed.takeWhile (· != ']')
  | _ => hostinfo.takeWhile (· != ':')

/-- The `hostname` property, empty for none; it raises nothing. -/
def Interpreter.hostname (py : Interpreter) (r : SplitResult) : List Char :=
  let (name, zone) := (hostOf r.netloc).span (· != '%')
  py.lower name ++ zone

/-! ## What raises -/

variable {py : Interpreter} {url text : List Char}

theorem digits_of_all (h : ∀ c ∈ text, (py.digit c).isSome) (hne : text ≠ []) :
    ∃ ds, py.digits text = some ds ∧ ds.length = text.length := by
  induction text with
  | nil => exact absurd rfl hne
  | cons c rest ih =>
    obtain ⟨d, hd⟩ := Option.isSome_iff_exists.mp (h c List.mem_cons_self)
    cases rest with
    | nil => exact ⟨[d], by simp [Interpreter.digits, hd], rfl⟩
    | cons b rest =>
      have hrest : ∀ c ∈ b :: rest, (py.digit c).isSome := fun c hc => h c (List.mem_cons_of_mem _ hc)
      have hb : b ≠ '_' := (py.digit_plain b (hrest b List.mem_cons_self)).2.2.2
      obtain ⟨ds, hds, hlen⟩ := ih hrest (by simp)
      refine ⟨d :: ds, ?_, by simp [hlen]⟩
      rw [Interpreter.digits]
      · simp [hd, hds]
      · simp
      · intro rest' heq
        exact hb (List.cons.inj heq).1

theorem strip_of_all {text : List Char} (h : ∀ c ∈ text, isSpace c = false) : strip text = text := by
  unfold strip trim
  have hd : text.dropWhile isSpace = text := by
    rw [List.dropWhile_eq_self_iff]
    intro hl
    simp [h _ (List.getElem_mem hl)]
  rw [hd, List.rdropWhile_eq_self_iff]
  intro hl
  simp [h _ (List.getLast_mem hl)]

/-- A number written in digits alone is refused only for its length. -/
theorem raises_int (h : ∀ c ∈ text, (py.digit c).isSome) (hne : text ≠ []) :
    Raises (py.int text) ↔ maxStrDigits < text.length := by
  have hstrip : strip text = text := strip_of_all fun c hc => (py.digit_plain c (h c hc)).1
  obtain ⟨ds, hds, hlen⟩ := digits_of_all h hne
  obtain ⟨c, rest, rfl⟩ := List.exists_cons_of_ne_nil hne
  obtain ⟨-, hplus, hminus, -⟩ := py.digit_plain c (h c List.mem_cons_self)
  have hint : py.int (c :: rest) = if maxStrDigits < ds.length then .error .valueError
      else .ok (1 * (ds.foldl (fun n d => 10 * n + d) 0 : Nat)) := by
    unfold Interpreter.int
    rw [hstrip]
    split
    rename_i sign number heq
    split at heq
    · rename_i hc
      exact absurd (List.cons.inj hc).1 hminus
    · rename_i hc
      exact absurd (List.cons.inj hc).1 hplus
    · cases heq
      simp only [hds]
  rw [hint, hlen]
  split
  · rename_i hlong
    exact iff_of_true (raises_error _) hlong
  · rename_i hshort
    exact iff_of_false (raises_ok _) hshort

theorem raises_urlparse : Raises (py.urlparse url) ↔ py.netlocOk (netlocOf url) = false := by
  unfold Interpreter.urlparse Interpreter.urlsplit netlocOf
  rw [raises_map]
  dsimp only
  split
  · rename_i hok
    simp [hok]
  · rename_i hbad
    simpa using hbad

end EasyHaProxy.Python
