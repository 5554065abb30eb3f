import EasyHaProxy.Lib.Dict
import EasyHaProxy.Lib.Retention
import Mathlib

/-! `retention_victims` groups the copies of a destination by the date in their names: one copy a day, then
one an ISO week, then one a month. -/
namespace EasyHaProxy.Backupd

open Retention (keepFirst Kept)

/-- The name or the path of a file. -/
abbrev Name := List Char

def remotePrefix : Name := "easy-ha-proxy-".toList

def archiveSuffix : Name := ".tar.gz.enc".toList

/-- The counts `keep_count` lets a destination be saved with. -/
structure Policy where
  keepDaily : Nat
  keepWeekly : Nat
  keepMonthly : Nat
  deriving DecidableEq, Repr

/-- An absent count takes the default, any other number is cut to `0 .. cap`. -/
def keepCount (value : Option Int) (default cap : Nat) : Nat :=
  match value with
  | none => default
  | some number => (max 0 (min (cap : Int) number)).toNat

/-! ## Dates in names -/

/-- The characters `\d` matches come in runs of ten; these are the zeros of the runs. -/
def zeros : List Nat :=
  [0x30, 0x660, 0x6f0, 0x7c0, 0x966, 0x9e6, 0xa66, 0xae6, 0xb66, 0xbe6, 0xc66, 0xce6, 0xd66, 0xde6,
    0xe50, 0xed0, 0xf20, 0x1040, 0x1090, 0x17e0, 0x1810, 0x1946, 0x19d0, 0x1a80, 0x1a90, 0x1b50,
    0x1bb0, 0x1c40, 0x1c50, 0xa620, 0xa8d0, 0xa900, 0xa9d0, 0xa9f0, 0xaa50, 0xabf0, 0xff10, 0x104a0,
    0x10d30, 0x11066, 0x110f0, 0x11136, 0x111d0, 0x112f0, 0x11450, 0x114d0, 0x11650, 0x116c0,
    0x11730, 0x118e0, 0x11950, 0x11c50, 0x11d50, 0x11da0, 0x11f50, 0x16a60, 0x16ac0, 0x16b50,
    0x1d7ce, 0x1d7d8, 0x1d7e2, 0x1d7ec, 0x1d7f6, 0x1e140, 0x1e2f0, 0x1e4f0, 0x1e950, 0x1fbf0]

def decimal? (c : Char) : Option Nat :=
  (zeros.find? fun first => first ≤ c.toNat ∧ c.toNat < first + 10).map fun first => c.toNat - first

/-- `int` of a text of digits. -/
def number (digits : List Char) : Nat :=
  digits.foldl (fun n c => 10 * n + (decimal? c).getD 0) 0

def isLeap (year : Nat) : Bool := year % 4 = 0 ∧ (year % 100 ≠ 0 ∨ year % 400 = 0)

def daysInMonth (year month : Nat) : Nat :=
  match month with
  | 2 => if isLeap year then 29 else 28
  | 4 | 6 | 9 | 11 => 30
  | _ => 31

/-- Whether `dt.date(year, month, number)` is a date. -/
def isDate (year month day : Nat) : Bool :=
  1 ≤ year ∧ year ≤ 9999 ∧ 1 ≤ month ∧ month ≤ 12 ∧ 1 ≤ day ∧ day ≤ daysInMonth year month

/-- `date.toordinal()`: days since the first of January of year 1, which is day 1. -/
def ordinal (year month day : Nat) : Int :=
  let before : Int := year - 1
  before * 365 + before / 4 - before / 100 + before / 400 +
    (((List.range' 1 (month - 1)).map (daysInMonth year)).sum : Nat) + day

def isoWeek1Monday (year : Nat) : Int :=
  let first := ordinal year 1 1
  let weekday := (first + 6) % 7
  if weekday > 3 then first - weekday + 7 else first - weekday

/-- `date.isocalendar()[:2]`. -/
def isoWeek (year month day : Nat) : Int × Int :=
  let today := ordinal year month day
  let week := (today - isoWeek1Monday year) / 7
  if week < 0 then ((year : Int) - 1, (today - isoWeek1Monday (year - 1)) / 7 + 1)
  else if 52 ≤ week ∧ isoWeek1Monday (year + 1) ≤ today then ((year : Int) + 1, 1)
  else ((year : Int), week + 1)

/-- The date directly after the prefix, as the text of its digits; `none` for a name without one. -/
def dayOf (name : Name) : Option Name :=
  let digits := (name.drop remotePrefix.length).take 8
  let year := digits.take 4
  let month := (digits.drop 4).take 2
  let day := digits.drop 6
  if remotePrefix.isPrefixOf name ∧ digits.length = 8 ∧
      digits.all (fun c => (decimal? c).isSome) ∧ isDate (number year) (number month) (number day) then
    some (year ++ '-' :: month ++ '-' :: day)
  else none

/-- The ISO year and week of a day; the source joins the two numbers to one text. -/
def weekToken (day : Name) : Option (Int × Int) :=
  match (day.splitOn '-').map number with
  | [year, month, number] => some (isoWeek year month number)
  | _ => none

def monthToken (day : Name) : Name := day.take 7

example : weekToken "2027-01-01".toList = some (2026, 53) := by decide +kernel

/-! ## Victims -/

/-- The last archive of a day represents that day. -/
def byDay (names : List Name) : Dict Name Name :=
  Dict.ofPairs ((names.insertionSort (· ≤ ·)).filterMap fun name =>
    (dayOf name).map fun day => (day, name))

def days (names : List Name) : List Name := (byDay names).keys.insertionSort (· ≥ ·)

def keptDays (policy : Policy) (names : List Name) : List Name :=
  (days names).take policy.keepDaily ++ keepFirst weekToken policy.keepWeekly [] (days names) ++
    keepFirst monthToken policy.keepMonthly [] (days names)

def keep (policy : Policy) (names : List Name) : List Name :=
  (keptDays policy names).filterMap (byDay names).get?

/-- Only dated copies can be victims. -/
def retentionVictims (names : List Name) (policy : Policy) : List Name :=
  names.filter fun name => (dayOf name).isSome ∧ name ∉ keep policy names

/-! ## What the policy means -/

/-- The dates present. -/
def dates (names : List Name) : Finset Name := (names.filterMap dayOf).toFinset

/-- A copy of `day` the policy keeps among `names`: the last one of its day, in a day that is
among the latest, or the latest of its week or month while these are among the latest. -/
structure Retained (policy : Policy) (names : List Name) (day name : Name) : Prop where
  last : ∀ other ∈ names, dayOf other = some day → other ≤ name
  kept : Kept id policy.keepDaily (dates names) day ∨
    Kept weekToken policy.keepWeekly (dates names) day ∨
    Kept monthToken policy.keepMonthly (dates names) day

variable {names : List Name} {policy : Policy} {day name : Name}

theorem get?_ofPairs_sorted {pairs : List (Name × Name)}
    (h : pairs.Pairwise fun a b => a.2 ≤ b.2) :
    (Dict.ofPairs pairs).get? day = some name ↔
      (day, name) ∈ pairs ∧ ∀ other, (day, other) ∈ pairs → other ≤ name := by
  induction pairs using List.reverseRecOn with
  | nil => simp [Dict.ofPairs]
  | append_singleton pairs last ih =>
    rw [List.pairwise_append] at h
    have hlast : ∀ e ∈ pairs, e.2 ≤ last.2 := fun e he => h.2.2 e he last List.mem_cons_self
    have hset : Dict.ofPairs (pairs ++ [last]) = (Dict.ofPairs pairs).set last.1 last.2 := by
      simp [Dict.ofPairs]
    rw [hset, Dict.get?_set]
    obtain ⟨k, v⟩ := last
    by_cases hk : day = k
    · subst hk
      rw [if_pos rfl, Option.some.injEq]
      simp only [List.mem_append, List.mem_singleton, Prod.mk.injEq, true_and]
      constructor
      · rintro rfl
        refine ⟨Or.inr rfl, fun other ho => ?_⟩
        rcases ho with ho | rfl
        · exact hlast _ ho
        · exact le_refl _
      · rintro ⟨hm | rfl, ho⟩
        · exact le_antisymm (ho v (Or.inr rfl)) (hlast _ hm)
        · rfl
    · rw [if_neg hk, ih h.1]
      simp [hk]

theorem pairs_sorted (names : List Name) :
    ((names.insertionSort (· ≤ ·)).filterMap fun name =>
      (dayOf name).map fun day => (day, name)).Pairwise fun a b => a.2 ≤ b.2 := by
  rw [List.pairwise_filterMap]
  refine (List.pairwise_insertionSort (· ≤ ·) names).imp ?_
  intro a b hab p hp q hq
  obtain ⟨_, -, rfl⟩ := Option.map_eq_some_iff.mp hp
  obtain ⟨_, -, rfl⟩ := Option.map_eq_some_iff.mp hq
  exact hab

theorem mem_pairs :
    (day, name) ∈ ((names.insertionSort (· ≤ ·)).filterMap fun name =>
      (dayOf name).map fun day => (day, name)) ↔ name ∈ names ∧ dayOf name = some day := by
  simp only [List.mem_filterMap, List.mem_insertionSort, Option.map_eq_some_iff, Prod.mk.injEq]
  constructor
  · rintro ⟨_, hm, _, hd, rfl, rfl⟩
    exact ⟨hm, hd⟩
  · rintro ⟨hm, hd⟩
    exact ⟨name, hm, day, hd, rfl, rfl⟩

/-- The archive that stands for a day. -/
theorem get?_byDay : (byDay names).get? day = some name ↔
    (name ∈ names ∧ dayOf name = some day) ∧ ∀ other ∈ names, dayOf other = some day → other ≤ name := by
  rw [byDay, get?_ofPairs_sorted (pairs_sorted names), mem_pairs]
  refine and_congr_right fun _ => ?_
  constructor
  · intro h other hm hd
    exact h other (mem_pairs.mpr ⟨hm, hd⟩)
  · intro h other ho
    obtain ⟨hm, hd⟩ := mem_pairs.mp ho
    exact h other hm hd

theorem mem_byDay_keys : day ∈ (byDay names).keys ↔ day ∈ dates names := by
  rw [byDay, Dict.mem_keys_ofPairs, dates, List.mem_toFinset, List.mem_map, List.mem_filterMap]
  constructor
  · rintro ⟨⟨_, name⟩, hm, rfl⟩
    exact ⟨name, mem_pairs.mp hm⟩
  · rintro ⟨name, hname⟩
    exact ⟨(day, name), mem_pairs.mpr hname, rfl⟩

theorem days_toFinset : (days names).toFinset = dates names := by
  ext day
  rw [List.mem_toFinset, days, List.mem_insertionSort, mem_byDay_keys]

theorem days_descending (names : List Name) : (days names).Pairwise (· > ·) := by
  have hnodup : (days names).Nodup :=
    (List.perm_insertionSort _ _).nodup_iff.mpr (byDay names).nodup
  have hsorted : (days names).Pairwise (· ≥ ·) := List.pairwise_insertionSort _ _
  exact (hsorted.and hnodup).imp fun h => lt_of_le_of_ne h.1 (Ne.symm h.2)

theorem mem_keptDays (hd : day ∈ dates names) :
    day ∈ keptDays policy names ↔ Kept id policy.keepDaily (dates names) day ∨
      Kept weekToken policy.keepWeekly (dates names) day ∨
      Kept monthToken policy.keepMonthly (dates names) day := by
  have hsorted := days_descending names
  have hmem : day ∈ days names := by
    rwa [← List.mem_toFinset, days_toFinset]
  rw [keptDays, List.mem_append, List.mem_append, Retention.mem_take_iff hsorted hmem,
    Retention.mem_keepFirst_iff hsorted hmem, Retention.mem_keepFirst_iff hsorted hmem,
    days_toFinset, or_assoc]

theorem mem_keep (hm : name ∈ names) (hd : dayOf name = some day) :
    name ∈ keep policy names ↔ Retained policy names day name := by
  have hdate : day ∈ dates names := List.mem_toFinset.mpr (List.mem_filterMap.mpr ⟨name, hm, hd⟩)
  rw [keep, List.mem_filterMap]
  constructor
  · rintro ⟨other, hkept, hget⟩
    obtain ⟨⟨-, hother⟩, hlast⟩ := get?_byDay.mp hget
    obtain rfl : day = other := Option.some.inj (hd.symm.trans hother)
    exact ⟨hlast, (mem_keptDays hdate).mp hkept⟩
  · intro h
    exact ⟨day, (mem_keptDays hdate).mpr h.kept, get?_byDay.mpr ⟨⟨hm, hd⟩, h.last⟩⟩

/-- A dated copy is a victim exactly when the policy does not keep it. -/
theorem mem_retentionVictims (hd : dayOf name = some day) :
    name ∈ retentionVictims names policy ↔ name ∈ names ∧ ¬ Retained policy names day name := by
  rw [retentionVictims, List.mem_filter, decide_eq_true_iff, hd]
  refine and_congr_right fun hm => ?_
  rw [mem_keep hm hd]
  simp

theorem not_mem_retentionVictims (hd : dayOf name = none) : name ∉ retentionVictims names policy := by
  simp [retentionVictims, hd]

/-- The copy with the greatest name stays as soon as the policy keeps anything. -/
theorem retained_of_last (hlast : ∀ other ∈ names, other ≤ name)
    (hdays : ∀ other ∈ dates names, other ≤ day)
    (hp : 0 < policy.keepDaily + policy.keepWeekly + policy.keepMonthly) :
    Retained policy names day name := by
  refine ⟨fun other hm _ => hlast other hm, ?_⟩
  by_cases h1 : 0 < policy.keepDaily
  · exact Or.inl (Retention.kept_of_newest hdays h1)
  · by_cases h2 : 0 < policy.keepWeekly
    · exact Or.inr (Or.inl (Retention.kept_of_newest hdays h2))
    · exact Or.inr (Or.inr (Retention.kept_of_newest hdays (by omega)))

end EasyHaProxy.Backupd
