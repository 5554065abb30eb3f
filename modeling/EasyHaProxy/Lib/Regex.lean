import Mathlib.Data.List.Infix
import Mathlib.Tactic.Common

/-! The backtracking search of Python's `re` over the characters of a text: greedy repetition, the first
alternative that lets the rest succeed, groups by name. -/
namespace EasyHaProxy.Regex

/-- An expression; a class of characters is its membership test. -/
inductive Expr
  | empty
  | chars (p : Char → Bool)
  | seq (a b : Expr)
  | alt (a b : Expr)
  | star (a : Expr)
  | group (name : String) (a : Expr)
  /-- `^`: the start of the text. -/
  | start
  /-- `$`: the end of the text, or just before a newline there. -/
  | finish

namespace Expr

def lit (text : List Char) : Expr := text.foldr (fun c rest => seq (chars (· == c)) rest) empty

/-- `a+`. -/
def plus (a : Expr) : Expr := seq a (star a)

/-- `a{n}`. -/
def exactly (a : Expr) : Nat → Expr
  | 0 => empty
  | n + 1 => seq a (exactly a n)

/-- `a{0,n}`. -/
def upTo (a : Expr) : Nat → Expr
  | 0 => empty
  | n + 1 => alt (seq a (upTo a n)) empty

/-- One expression after the other. -/
def all (parts : List Expr) : Expr := parts.foldr seq empty

end Expr

abbrev Groups := List (String × List Char)

/-- What is left of the text after a match, and the groups it set, the latest first. -/
structure Match where
  rest : List Char
  groups : Groups

/-- `group(name)`. -/
def Match.group (m : Match) (name : String) : List Char := (m.groups.lookup name).getD []

/-- As many rounds as can be had, and one less each time the rest fails. -/
def rounds {ρ : Type} (once : Match → (Match → Option ρ) → Option ρ) :
    Nat → Match → (Match → Option ρ) → Option ρ
  | 0, m, k => k m
  | n + 1, m, k =>
    (once m fun m' => if m'.rest.length < m.rest.length then rounds once n m' k else none) <|> k m

/-- All ways through an expression in the order they are tried, until the rest `k` succeeds.
`total` is the length of the whole text. -/
def run {ρ : Type} (total : Nat) : Expr → Match → (Match → Option ρ) → Option ρ
  | .empty, m, k => k m
  | .chars p, m, k =>
    match m.rest with
    | c :: rest => if p c then k { m with rest := rest } else none
    | [] => none
  | .seq a b, m, k => run total a m fun m' => run total b m' k
  | .alt a b, m, k => run total a m k <|> run total b m k
  | .star a, m, k => rounds (run total a) m.rest.length m k
  | .group name a, m, k => run total a m fun m' =>
    k { m' with groups := (name, m.rest.take (m.rest.length - m'.rest.length)) :: m'.groups }
  | .start, m, k => if m.rest.length = total then k m else none
  | .finish, m, k => if m.rest = [] ∨ m.rest = ['\n'] then k m else none

/-- `match`: at the start of the text. -/
def matchStart (e : Expr) (text : List Char) : Option Match := run text.length e ⟨text, []⟩ some

/-- The first place from which the expression matches, with what stands before it. -/
def searchFrom (e : Expr) (total : Nat) (before : List Char) :
    List Char → Option (List Char × Match)
  | [] => (run total e ⟨[], []⟩ some).map fun m => (before.reverse, m)
  | c :: rest =>
    match run total e ⟨c :: rest, []⟩ some with
    | some m => some (before.reverse, m)
    | none => searchFrom e total (c :: before) rest

def search (e : Expr) (text : List Char) : Option (List Char × Match) :=
  searchFrom e text.length [] text

/-! ## Ways through an expression -/

/-- A way through an expression from one match to the next. -/
inductive Matches (total : Nat) : Expr → Match → Match → Prop
  | empty {m} : Matches total .empty m m
  | chars {p c rest groups} (h : p c = true) :
    Matches total (.chars p) ⟨c :: rest, groups⟩ ⟨rest, groups⟩
  | seq {a b m m' m''} (ha : Matches total a m m') (hb : Matches total b m' m'') :
    Matches total (.seq a b) m m''
  | left {a b m m'} (h : Matches total a m m') : Matches total (.alt a b) m m'
  | right {a b m m'} (h : Matches total b m m') : Matches total (.alt a b) m m'
  | stop {a m} : Matches total (.star a) m m
  | more {a m m' m''} (ha : Matches total a m m') (hs : Matches total (.star a) m' m'') :
    Matches total (.star a) m m''
  | group {name a m m'} (h : Matches total a m m') :
    Matches total (.group name a) m
      { m' with groups := (name, m.rest.take (m.rest.length - m'.rest.length)) :: m'.groups }
  | start {m} (h : m.rest.length = total) : Matches total .start m m
  | finish {m} (h : m.rest = [] ∨ m.rest = ['\n']) : Matches total .finish m m

variable {ρ : Type} {total : Nat} {e a b : Expr} {m m' : Match} {k : Match → Option ρ} {x : ρ}

theorem rounds_sound {once : Match → (Match → Option ρ) → Option ρ}
    (ih : ∀ {m k}, once m k = some x → ∃ m', Matches total a m m' ∧ k m' = some x) (n : Nat)
    (h : rounds once n m k = some x) : ∃ m', Matches total (.star a) m m' ∧ k m' = some x := by
  induction n generalizing m with
  | zero => exact ⟨m, .stop, h⟩
  | succ n ihn =>
    rw [rounds, Option.orElse_eq_orElse, Option.orElse_eq_or, Option.or_eq_some_iff] at h
    rcases h with h | ⟨-, h⟩
    · obtain ⟨m₁, hone, h⟩ := ih h
      split at h
      · obtain ⟨m₂, hmore, h⟩ := ihn h
        exact ⟨m₂, .more hone hmore, h⟩
      · cases h
    · exact ⟨m, .stop, h⟩

/-- What the search finds is a way through the expression that lets the rest succeed. -/
theorem run_sound (h : run total e m k = some x) : ∃ m', Matches total e m m' ∧ k m' = some x := by
  induction e generalizing m k with
  | empty => exact ⟨m, .empty, h⟩
  | chars p =>
    obtain ⟨rest, groups⟩ := m
    cases rest with
    | nil => cases h
    | cons c rest =>
      simp only [run] at h
      split at h
      · rename_i hp
        exact ⟨_, .chars hp, h⟩
      · cases h
  | seq a b iha ihb =>
    obtain ⟨m₁, ha, h⟩ := iha h
    obtain ⟨m₂, hb, h⟩ := ihb h
    exact ⟨m₂, .seq ha hb, h⟩
  | alt a b iha ihb =>
    rw [run, Option.orElse_eq_orElse, Option.orElse_eq_or, Option.or_eq_some_iff] at h
    rcases h with h | ⟨-, h⟩
    · obtain ⟨m₁, ha, h⟩ := iha h
      exact ⟨m₁, .left ha, h⟩
    · obtain ⟨m₁, hb, h⟩ := ihb h
      exact ⟨m₁, .right hb, h⟩
  | star a ih => exact rounds_sound ih _ h
  | group name a ih =>
    obtain ⟨m₁, ha, h⟩ := ih h
    exact ⟨_, .group ha, h⟩
  | start =>
    rw [run] at h
    split at h
    · rename_i hs
      exact ⟨m, .start hs, h⟩
    · cases h
  | finish =>
    rw [run] at h
    split at h
    · rename_i hs
      exact ⟨m, .finish hs, h⟩
    · cases h

theorem matchStart_sound {text : List Char} (h : matchStart e text = some m) :
    Matches text.length e ⟨text, []⟩ m := by
  obtain ⟨m', hm, heq⟩ := run_sound h
  cases heq
  exact hm

theorem searchFrom_sound {before rest pre : List Char} (h : searchFrom e total before rest = some (pre, m)) :
    ∃ here, Matches total e ⟨here, []⟩ m ∧ pre ++ here = before.reverse ++ rest := by
  induction rest generalizing before with
  | nil =>
    obtain ⟨m₁, hr, heq⟩ := Option.map_eq_some_iff.mp h
    obtain ⟨m₂, hm, heq₂⟩ := run_sound hr
    cases heq
    cases heq₂
    exact ⟨[], hm, rfl⟩
  | cons c rest ih =>
    rw [searchFrom] at h
    split at h
    · rename_i m₁ hr
      obtain ⟨m₂, hm, heq⟩ := run_sound hr
      cases h
      cases heq
      exact ⟨c :: rest, hm, rfl⟩
    · obtain ⟨here, hm, heq⟩ := ih h
      exact ⟨here, hm, by simpa using heq⟩

/-- A match found anywhere leaves an end of the text. -/
theorem search_sound {text pre : List Char} (h : search e text = some (pre, m)) :
    ∃ here, Matches text.length e ⟨here, []⟩ m ∧ pre ++ here = text := searchFrom_sound h

/-! ## What a match reads -/

def Expr.Reads : Expr → List Char → Prop
  | .empty, text | .start, text | .finish, text => text = []
  | .chars p, text => ∃ c, text = [c] ∧ p c = true
  | .seq a b, text => ∃ l r, text = l ++ r ∧ a.Reads l ∧ b.Reads r
  | .alt a b, text => a.Reads text ∨ b.Reads text
  | .star a, text => ∃ parts : List (List Char), text = parts.flatten ∧ ∀ part ∈ parts, a.Reads part
  | .group _ a, text => a.Reads text

theorem Matches.reads (h : Matches total e m m') : ∃ text, m.rest = text ++ m'.rest ∧ e.Reads text := by
  induction h with
  | empty | start _ | finish _ => exact ⟨[], rfl, rfl⟩
  | stop => exact ⟨[], rfl, [], rfl, by simp⟩
  | chars h => exact ⟨[_], rfl, _, rfl, h⟩
  | seq _ _ iha ihb =>
    obtain ⟨l, hl, hreadl⟩ := iha
    obtain ⟨r, hr, hreadr⟩ := ihb
    exact ⟨l ++ r, by rw [hl, hr, List.append_assoc], l, r, rfl, hreadl, hreadr⟩
  | more _ _ iha ihb =>
    obtain ⟨l, hl, hreadl⟩ := iha
    obtain ⟨r, hr, parts, rfl, hparts⟩ := ihb
    refine ⟨l ++ parts.flatten, by rw [hl, hr, List.append_assoc], l :: parts, rfl, ?_⟩
    exact List.forall_mem_cons.mpr ⟨hreadl, hparts⟩
  | left _ ih =>
    obtain ⟨text, htext, hread⟩ := ih
    exact ⟨text, htext, Or.inl hread⟩
  | right _ ih =>
    obtain ⟨text, htext, hread⟩ := ih
    exact ⟨text, htext, Or.inr hread⟩
  | group _ ih => exact ih

theorem reads_lit {text read : List Char} (h : (Expr.lit text).Reads read) : read = text := by
  induction text generalizing read with
  | nil => exact h
  | cons c text ih =>
    obtain ⟨l, r, rfl, ⟨d, rfl, hd⟩, hr⟩ := h
    rw [ih hr, eq_of_beq hd]
    rfl

theorem reads_star_chars {p : Char → Bool} {read : List Char} :
    (Expr.star (.chars p)).Reads read ↔ ∀ c ∈ read, p c = true := by
  constructor
  · rintro ⟨parts, rfl, hparts⟩ c hc
    obtain ⟨part, hpart, hc⟩ := List.mem_flatten.mp hc
    obtain ⟨d, rfl, hd⟩ := hparts part hpart
    rwa [List.mem_singleton.mp hc]
  · intro h
    refine ⟨read.map fun c => [c], by rw [← List.flatMap_def, List.flatMap_singleton'], fun part hpart => ?_⟩
    obtain ⟨c, hc, rfl⟩ := List.mem_map.mp hpart
    exact ⟨c, rfl, h c hc⟩

theorem reads_plus_chars {p : Char → Bool} {read : List Char} :
    (Expr.plus (.chars p)).Reads read ↔ read ≠ [] ∧ ∀ c ∈ read, p c = true := by
  constructor
  · rintro ⟨l, r, rfl, ⟨d, rfl, hd⟩, hr⟩
    refine ⟨by simp, ?_⟩
    simpa [hd] using reads_star_chars.mp hr
  · rintro ⟨hne, hall⟩
    obtain ⟨d, r, rfl⟩ := List.exists_cons_of_ne_nil hne
    rw [List.forall_mem_cons] at hall
    exact ⟨[d], r, rfl, ⟨d, rfl, hall.1⟩, reads_star_chars.mpr hall.2⟩

theorem reads_exactly_chars {p : Char → Bool} {n : Nat} {read : List Char} :
    (Expr.exactly (.chars p) n).Reads read ↔ read.length = n ∧ ∀ c ∈ read, p c = true := by
  induction n generalizing read with
  | zero =>
    refine ⟨fun h => ?_, fun h => List.length_eq_zero_iff.mp h.1⟩
    simp [show read = [] from h]
  | succ n ih =>
    constructor
    · rintro ⟨l, r, rfl, ⟨d, rfl, hd⟩, hr⟩
      obtain ⟨hlen, hall⟩ := ih.mp hr
      exact ⟨by simp [hlen], by simpa [hd] using hall⟩
    · rintro ⟨hlen, hall⟩
      obtain ⟨d, r, rfl⟩ := List.exists_cons_of_length_eq_add_one hlen
      rw [List.forall_mem_cons] at hall
      exact ⟨[d], r, rfl, ⟨d, rfl, hall.1⟩, ih.mpr ⟨by simpa using hlen, hall.2⟩⟩

/-! ## What a group holds -/

def Expr.free (name : String) : Expr → Bool
  | .empty | .start | .finish | .chars _ => true
  | .seq a b | .alt a b => a.free name && b.free name
  | .star a => a.free name
  | .group n a => n != name && a.free name

/-- Every way through the expression sets the group, to a text of a kind. -/
def Expr.Sets (name : String) (P : List Char → Prop) : Expr → Prop
  | .seq a b => b.Sets name P ∨ a.Sets name P ∧ b.free name = true
  | .alt a b => a.Sets name P ∧ b.Sets name P
  | .group n a => n = name ∧ ∀ text, a.Reads text → P text
  | _ => False

theorem free_all {name : String} {parts : List Expr} (h : parts.all (Expr.free name) = true) :
    (Expr.all parts).free name = true := by
  induction parts with
  | nil => rfl
  | cons part parts ih =>
    rw [List.all_cons, Bool.and_eq_true] at h
    exact Bool.and_eq_true_iff.mpr ⟨h.1, ih h.2⟩

theorem sets_all {name : String} {P : List Char → Prop} {parts : List Expr} {part : Expr} (i : Nat)
    (hpart : parts[i]? = some part) (hs : part.Sets name P)
    (hf : (parts.drop (i + 1)).all (Expr.free name) = true) : (Expr.all parts).Sets name P := by
  induction parts generalizing i with
  | nil => simp at hpart
  | cons first rest ih =>
    cases i with
    | zero =>
      obtain rfl : first = part := by simpa using hpart
      exact Or.inr ⟨hs, free_all hf⟩
    | succ i => exact Or.inl (ih i hpart hf)

theorem Matches.lookup_of_free {name : String} (h : Matches total e m m') (hf : e.free name = true) :
    m'.groups.lookup name = m.groups.lookup name := by
  induction h with
  | empty | stop | start _ | finish _ | chars _ => rfl
  | seq _ _ iha ihb =>
    rw [Expr.free, Bool.and_eq_true] at hf
    exact (ihb hf.2).trans (iha hf.1)
  | more _ _ iha ihb => exact (ihb hf).trans (iha hf)
  | left _ ih =>
    rw [Expr.free, Bool.and_eq_true] at hf
    exact ih hf.1
  | right _ ih =>
    rw [Expr.free, Bool.and_eq_true] at hf
    exact ih hf.2
  | @group n a m m' h ih =>
    rw [Expr.free, Bool.and_eq_true, bne_iff_ne] at hf
    rw [List.lookup_cons, beq_eq_false_iff_ne.mpr (Ne.symm hf.1)]
    exact ih hf.2

theorem Matches.group_of_sets {name : String} {P : List Char → Prop} (h : Matches total e m m')
    (hs : e.Sets name P) : P (m'.group name) := by
  induction h with
  | empty | stop | start _ | finish _ | chars _ | more _ _ _ _ => exact hs.elim
  | seq _ hb iha ihb =>
    rcases hs with hs | ⟨hs, hf⟩
    · exact ihb hs
    · rw [Match.group, hb.lookup_of_free hf]
      exact iha hs
  | left _ ih => exact ih hs.1
  | right _ ih => exact ih hs.2
  | @group n a m m' h ih =>
    obtain ⟨rfl, hP⟩ := hs
    obtain ⟨text, htext, hread⟩ := h.reads
    rw [Match.group, List.lookup_cons_self, Option.getD_some]
    simpa [htext] using hP text hread

end EasyHaProxy.Regex
