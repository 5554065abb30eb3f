import Mathlib.Data.List.Basic
import Mathlib.Tactic.Common

/-! The standard alphabet with padding, on lists of bytes: what is encoded decodes to itself, so no two byte
strings have one encoding, and separators outside the alphabet stay separators. -/
namespace EasyHaProxy

abbrev Byte := Fin 256

namespace Base64

/-- The digit of a value below 64. -/
def digit (n : Nat) : Char :=
  if n < 26 then Char.ofNat (n + 65)
  else if n < 52 then Char.ofNat (n + 71)
  else if n < 62 then Char.ofNat (n - 4)
  else if n = 62 then '+'
  else '/'

def value? (c : Char) : Option Nat :=
  if 'A' ≤ c ∧ c ≤ 'Z' then some (c.toNat - 65)
  else if 'a' ≤ c ∧ c ≤ 'z' then some (c.toNat - 71)
  else if '0' ≤ c ∧ c ≤ '9' then some (c.toNat + 4)
  else if c = '+' then some 62
  else if c = '/' then some 63
  else none

def encode : List Byte → List Char
  | [] => []
  | [a] => [digit (a / 4), digit (a % 4 * 16), '=', '=']
  | [a, b] => [digit (a / 4), digit (a % 4 * 16 + b / 16), digit (b % 16 * 4), '=']
  | a :: b :: c :: rest =>
    digit (a / 4) :: digit (a % 4 * 16 + b / 16) :: digit (b % 16 * 4 + c / 64) ::
      digit (c % 64) :: encode rest

def byte (n : Nat) : Byte := ⟨n % 256, Nat.mod_lt _ (by decide)⟩

def decode : List Char → Option (List Byte)
  | [] => some []
  | w :: x :: y :: z :: rest => do
    let w ← value? w
    let x ← value? x
    -- Padding stands at the end only.
    if z = '=' ∧ rest = [] then
      if y = '=' then pure [byte (w * 4 + x / 16)]
      else
        let y ← value? y
        pure [byte (w * 4 + x / 16), byte (x % 16 * 16 + y / 4)]
    else
      let y ← value? y
      let z ← value? z
      let tail ← decode rest
      pure (byte (w * 4 + x / 16) :: byte (x % 16 * 16 + y / 4) :: byte (y % 4 * 64 + z) :: tail)
  | _ => none

theorem value_digit {n : Nat} (h : n < 64) : value? (digit n) = some n := by
  revert n
  decide

/-- No digit is padding or punctuation. -/
theorem digit_ne {n : Nat} (h : n < 64) : digit n ≠ '=' ∧ digit n ≠ '|' := by
  revert n
  decide

theorem byte_eq {b : Byte} {n : Nat} (h : n = b.val) : byte n = b := by
  subst h
  exact Fin.ext (Nat.mod_eq_of_lt b.isLt)

theorem decode_encode (l : List Byte) : decode (encode l) = some l := by
  induction l using encode.induct with
  | case1 => rfl
  | case2 a =>
    have ha := a.isLt
    rw [encode, decode, value_digit (n := a.val / 4) (by omega),
      value_digit (n := a.val % 4 * 16) (by omega)]
    simp only [Option.bind_eq_bind, Option.bind_some, and_self, if_true, Option.pure_def,
      Option.some.injEq, List.cons.injEq, and_true]
    exact byte_eq (by omega)
  | case3 a b =>
    have ha := a.isLt
    have hb := b.isLt
    have hpad := (digit_ne (n := b.val % 16 * 4) (by omega)).1
    rw [encode, decode, value_digit (n := a.val / 4) (by omega),
      value_digit (n := a.val % 4 * 16 + b.val / 16) (by omega),
      value_digit (n := b.val % 16 * 4) (by omega)]
    simp only [Option.bind_eq_bind, Option.bind_some, and_self, if_true, hpad, if_false,
      Option.pure_def, Option.some.injEq, List.cons.injEq, and_true]
    exact ⟨byte_eq (by omega), byte_eq (by omega)⟩
  | case4 a b c rest ih =>
    have ha := a.isLt
    have hb := b.isLt
    have hc := c.isLt
    have hlast := (digit_ne (n := c.val % 64) (by omega)).1
    rw [encode, decode, value_digit (n := a.val / 4) (by omega),
      value_digit (n := a.val % 4 * 16 + b.val / 16) (by omega),
      value_digit (n := b.val % 16 * 4 + c.val / 64) (by omega),
      value_digit (n := c.val % 64) (by omega), ih]
    simp only [Option.bind_eq_bind, Option.bind_some, hlast, false_and, if_false,
      Option.pure_def, Option.some.injEq, List.cons.injEq, and_true]
    exact ⟨byte_eq (by omega), byte_eq (by omega), byte_eq (by omega)⟩

theorem encode_injective : Function.Injective encode := by
  intro l m h
  have := congrArg decode h
  rw [decode_encode, decode_encode] at this
  exact Option.some.inj this

theorem bar_not_mem_encode (l : List Byte) : '|' ∉ encode l := by
  induction l using encode.induct with
  | case1 => simp [encode]
  | case2 a =>
    have ha := a.isLt
    have h1 := (digit_ne (n := a.val / 4) (by omega)).2
    have h2 := (digit_ne (n := a.val % 4 * 16) (by omega)).2
    simp [encode, h1.symm, h2.symm]
  | case3 a b =>
    have ha := a.isLt
    have hb := b.isLt
    have h1 := (digit_ne (n := a.val / 4) (by omega)).2
    have h2 := (digit_ne (n := a.val % 4 * 16 + b.val / 16) (by omega)).2
    have h3 := (digit_ne (n := b.val % 16 * 4) (by omega)).2
    simp [encode, h1.symm, h2.symm, h3.symm]
  | case4 a b c rest ih =>
    have ha := a.isLt
    have hb := b.isLt
    have hc := c.isLt
    have h1 := (digit_ne (n := a.val / 4) (by omega)).2
    have h2 := (digit_ne (n := a.val % 4 * 16 + b.val / 16) (by omega)).2
    have h3 := (digit_ne (n := b.val % 16 * 4 + c.val / 64) (by omega)).2
    have h4 := (digit_ne (n := c.val % 64) (by omega)).2
    simp [encode, h1.symm, h2.symm, h3.symm, h4.symm, ih]

end Base64

end EasyHaProxy
