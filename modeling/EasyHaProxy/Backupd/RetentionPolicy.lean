import EasyHaProxy.Backupd.Retention
import EasyHaProxy.Lib.Text
import Mathlib.Data.Prod.Lex

/-! The code compares days as the texts they were read from. The policy speaks of days of the calendar, and
the two agree while the texts are in step with the dates they mean. -/
namespace EasyHaProxy.Backupd

open Retention

/-- A day of the calendar: the year, the month and the day, compared in this order. -/
abbrev CalendarDay := ℕ ×ₗ ℕ ×ₗ ℕ

namespace CalendarDay

/-- The date a text of a day means. -/
def ofText (day : Name) : CalendarDay :=
  toLex (number (day.take 4), toLex (number ((day.drop 5).take 2), number (day.drop 8)))

def week (date : CalendarDay) : Int × Int :=
  isoWeek (ofLex date).1 (ofLex (ofLex date).2).1 (ofLex (ofLex date).2).2

def month (date : CalendarDay) : ℕ × ℕ := ((ofLex date).1, (ofLex (ofLex date).2).1)

end CalendarDay

def dateOf (name : Name) : Option CalendarDay := (dayOf name).map CalendarDay.ofText

/-- The days copies were made on. -/
def calendar (names : List Name) : Finset CalendarDay := (names.filterMap dateOf).toFinset

/-- What the policy keeps among `names`: the last archive of one of the newest days, or of the newest
day of one of the newest weeks or months. -/
structure Spared (policy : Policy) (names : List Name) (date : CalendarDay) (name : Name) : Prop where
  last : ∀ other ∈ names, dateOf other = some date → other ≤ name
  kept : Kept id policy.keepDaily (calendar names) date ∨
    Kept CalendarDay.week policy.keepWeekly (calendar names) date ∨
    Kept CalendarDay.month policy.keepMonthly (calendar names) date

/-- Pruning keeps the policy exactly, leaves alone what has no date, takes nothing from part of a
listing that the whole listing would keep, and has nothing left to do when it is done. -/
structure KeepsPolicy (policy : Policy) (names : List Name) : Prop where
  spared : ∀ name ∈ names, ∀ date, dateOf name = some date →
    (name ∉ retentionVictims names policy ↔ Spared policy names date name)
  undated : ∀ name, dateOf name = none → name ∉ retentionVictims names policy
  partialListing : ∀ part, part ⊆ names →
    retentionVictims part policy ⊆ retentionVictims names policy
  settled : retentionVictims (names.filter (· ∉ retentionVictims names policy)) policy = []

/-- The texts of the days order as the days do, and the days of one month are written with the same
year and month. -/
structure InStep (names : List Name) : Prop where
  order : ∀ a ∈ dates names, ∀ b ∈ dates names, a < b ↔ CalendarDay.ofText a < CalendarDay.ofText b
  month : ∀ a ∈ dates names, ∀ b ∈ dates names,
    (CalendarDay.ofText a).month = (CalendarDay.ofText b).month → monthToken a = monthToken b

variable {names part : List Name} {policy : Policy} {day name a b : Name} {date : CalendarDay}

/-! ## Texts of days -/

theorem mem_dates : day ∈ dates names ↔ ∃ name ∈ names, dayOf name = some day := by
  rw [dates, List.mem_toFinset, List.mem_filterMap]

theorem dates_mono (hsub : part ⊆ names) : dates part ⊆ dates names := by
  intro day hd
  obtain ⟨name, hm, hn⟩ := mem_dates.mp hd
  exact mem_dates.mpr ⟨name, hsub hm, hn⟩

theorem calendar_eq (names : List Name) : calendar names = (dates names).image CalendarDay.ofText := by
  ext date
  rw [calendar, List.mem_toFinset, List.mem_filterMap, Finset.mem_image]
  constructor
  · rintro ⟨name, hm, hn⟩
    obtain ⟨day, hd, rfl⟩ := Option.map_eq_some_iff.mp hn
    exact ⟨day, mem_dates.mpr ⟨name, hm, hd⟩, rfl⟩
  · rintro ⟨day, hd, rfl⟩
    obtain ⟨name, hm, hn⟩ := mem_dates.mp hd
    exact ⟨name, hm, by rw [dateOf, hn, Option.map_some]⟩

theorem exists_last (hd : day ∈ dates names) :
    ∃ name ∈ names, dayOf name = some day ∧ ∀ other ∈ names, dayOf other = some day → other ≤ name := by
  obtain ⟨name, hget⟩ := Option.isSome_iff_exists.mp (Dict.mem_keys.mp (mem_byDay_keys.mpr hd))
  obtain ⟨⟨hm, hn⟩, hlast⟩ := get?_byDay.mp hget
  exact ⟨name, hm, hn, hlast⟩

theorem number_dash : decimal? '-' = none := by decide +kernel

theorem dayOf_digits (h : dayOf name = some day) :
    ∃ digits : List Char, digits.length = 8 ∧ (∀ c ∈ digits, c ≠ '-') ∧
      day = digits.take 4 ++ '-' :: (digits.drop 4).take 2 ++ '-' :: digits.drop 6 := by
  unfold dayOf at h
  simp only at h
  split at h
  next hc =>
    refine ⟨(name.drop remotePrefix.length).take 8, hc.2.1, ?_, (Option.some.inj h).symm⟩
    rintro c hmem rfl
    have hdigit := List.all_eq_true.mp hc.2.2.1 '-' hmem
    rw [number_dash] at hdigit
    cases hdigit
  · cases h

theorem weekToken_eq (hd : day ∈ dates names) :
    weekToken day = some (CalendarDay.ofText day).week := by
  obtain ⟨name, -, hn⟩ := mem_dates.mp hd
  obtain ⟨digits, hlen, hdash, rfl⟩ := dayOf_digits hn
  match digits, hlen with
  | [y1, y2, y3, y4, m1, m2, d1, d2], _ =>
    have hsplit : (['-'].intercalate [[y1, y2, y3, y4], [m1, m2], [d1, d2]]).splitOn '-' =
        [[y1, y2, y3, y4], [m1, m2], [d1, d2]] := by
      refine List.splitOn_intercalate '-' ?_ (List.cons_ne_nil _ _)
      intro part hpart hmem
      refine hdash '-' ?_ rfl
      simp only [List.mem_cons, List.not_mem_nil, or_false] at hpart
      obtain rfl | rfl | rfl := hpart
      · exact List.mem_append_left [m1, m2, d1, d2] hmem
      · exact List.mem_append_right [y1, y2, y3, y4] (List.mem_append_left [d1, d2] hmem)
      · exact List.mem_append_right [y1, y2, y3, y4, m1, m2] hmem
    unfold weekToken
    rw [show List.take 4 [y1, y2, y3, y4, m1, m2, d1, d2] ++
        '-' :: ([y1, y2, y3, y4, m1, m2, d1, d2].drop 4).take 2 ++
        '-' :: [y1, y2, y3, y4, m1, m2, d1, d2].drop 6 =
          ['-'].intercalate [[y1, y2, y3, y4], [m1, m2], [d1, d2]] from rfl, hsplit]
    rfl

theorem month_eq_of_monthToken_eq (h : monthToken a = monthToken b) :
    (CalendarDay.ofText a).month = (CalendarDay.ofText b).month := by
  have hyear (day : Name) : day.take 4 = (monthToken day).take 4 := by
    rw [monthToken, List.take_take]
    rfl
  have hmonth (day : Name) : (day.drop 5).take 2 = (monthToken day).drop 5 := by
    rw [monthToken, List.drop_take]
  simp only [CalendarDay.month, CalendarDay.ofText, ofLex_toLex, hyear a, hyear b, hmonth a, hmonth b, h]

/-! ## What holds of every listing -/

theorem Retained.mono (hsub : part ⊆ names) (h : Retained policy names day name) :
    Retained policy part day name := by
  refine ⟨fun other hm => h.last other (hsub hm), ?_⟩
  have hdates := dates_mono hsub
  exact h.kept.imp (Kept.mono hdates) (Or.imp (Kept.mono hdates) (Kept.mono hdates))

/-- A copy that part of a listing gives up is given up by the whole listing. -/
theorem retentionVictims_mono (hsub : part ⊆ names) :
    retentionVictims part policy ⊆ retentionVictims names policy := by
  intro name hv
  cases hd : dayOf name with
  | none => exact absurd hv (not_mem_retentionVictims hd)
  | some day =>
    obtain ⟨hm, hnot⟩ := (mem_retentionVictims hd).mp hv
    exact (mem_retentionVictims hd).mpr ⟨hsub hm, fun h => hnot (h.mono hsub)⟩

/-- Pruning twice prunes no more than pruning once. -/
theorem retentionVictims_settled :
    retentionVictims (names.filter (· ∉ retentionVictims names policy)) policy = [] := by
  rw [List.eq_nil_iff_forall_not_mem]
  intro name hv
  have hmem : name ∈ names.filter (· ∉ retentionVictims names policy) := by
    rw [retentionVictims] at hv
    exact List.mem_of_mem_filter hv
  have hleft : name ∉ retentionVictims names policy := by
    simpa using (List.mem_filter.mp hmem).2
  exact hleft (retentionVictims_mono (fun _ h => List.mem_of_mem_filter h) hv)

theorem undated_not_victim (h : dateOf name = none) : name ∉ retentionVictims names policy :=
  not_mem_retentionVictims (Option.map_eq_none_iff.mp h)

/-! ## Texts in step with dates -/

namespace InStep

theorem eq_iff (h : InStep names) (ha : a ∈ dates names) (hb : b ∈ dates names) :
    a = b ↔ CalendarDay.ofText a = CalendarDay.ofText b := by
  refine ⟨congrArg _, fun heq => ?_⟩
  rcases lt_trichotomy a b with hlt | rfl | hlt
  · exact absurd ((h.order a ha b hb).mp hlt) (heq ▸ lt_irrefl _)
  · rfl
  · exact absurd ((h.order b hb a ha).mp hlt) (heq ▸ lt_irrefl _)

theorem kept_iff (h : InStep names) (hd : day ∈ dates names) :
    (Kept id policy.keepDaily (dates names) day ∨ Kept weekToken policy.keepWeekly (dates names) day ∨
      Kept monthToken policy.keepMonthly (dates names) day) ↔
    Kept id policy.keepDaily (calendar names) (CalendarDay.ofText day) ∨
      Kept CalendarDay.week policy.keepWeekly (calendar names) (CalendarDay.ofText day) ∨
      Kept CalendarDay.month policy.keepMonthly (calendar names) (CalendarDay.ofText day) := by
  rw [calendar_eq]
  refine or_congr ?_ (or_congr ?_ ?_)
  · exact kept_image h.order (fun a ha b hb => h.eq_iff ha hb) hd
  · refine kept_image h.order (fun a ha b hb => ?_) hd
    rw [weekToken_eq ha, weekToken_eq hb, Option.some.injEq]
  · exact kept_image h.order (fun a ha b hb => ⟨month_eq_of_monthToken_eq, h.month a ha b hb⟩) hd

theorem retained_iff (h : InStep names) (hd : day ∈ dates names) :
    Retained policy names day name ↔ Spared policy names (CalendarDay.ofText day) name := by
  have hsame : ∀ other ∈ names,
      dayOf other = some day ↔ dateOf other = some (CalendarDay.ofText day) := by
    intro other hm
    rw [dateOf, Option.map_eq_some_iff]
    refine ⟨fun ho => ⟨day, ho, rfl⟩, ?_⟩
    rintro ⟨text, ho, heq⟩
    rw [ho, (h.eq_iff (mem_dates.mpr ⟨other, hm, ho⟩) hd).mpr heq]
  constructor
  · intro hr
    exact ⟨fun other hm ho => hr.last other hm ((hsame other hm).mpr ho), h.kept_iff hd |>.mp hr.kept⟩
  · intro hs
    exact ⟨fun other hm ho => hs.last other hm ((hsame other hm).mp ho), h.kept_iff hd |>.mpr hs.kept⟩

theorem keepsPolicy (h : InStep names) (policy : Policy) : KeepsPolicy policy names := by
  refine ⟨?_, fun name => undated_not_victim, fun part => retentionVictims_mono,
    retentionVictims_settled⟩
  intro name hm date hn
  obtain ⟨day, hd, rfl⟩ := Option.map_eq_some_iff.mp hn
  rw [mem_retentionVictims hd, ← h.retained_iff (mem_dates.mpr ⟨name, hm, hd⟩)]
  simp [hm]

end InStep

/-! ## What the daily and the monthly counts show -/

theorem lt_of_take_lt {α : Type} [LinearOrder α] {l m : List α} {n : ℕ}
    (h : l.take n < m.take n) : l < m := by
  induction n generalizing l m with
  | zero =>
    rw [List.take_zero, List.take_zero] at h
    exact absurd h (lt_irrefl _)
  | succ n ih =>
    cases m with
    | nil =>
      rw [List.take_nil] at h
      exact absurd h (List.not_lt_nil _)
    | cons b m =>
      cases l with
      | nil => exact List.nil_lt_cons b m
      | cons a l =>
        rw [List.take_succ_cons, List.take_succ_cons, List.cons_lt_cons_iff] at h
        rw [List.cons_lt_cons_iff]
        exact h.imp_right fun h => ⟨h.1, ih h.2⟩

theorem take_le_take {α : Type} [LinearOrder α] {l m : List α} (h : l ≤ m) (n : ℕ) :
    l.take n ≤ m.take n := not_lt.mp fun hlt => absurd (lt_of_take_lt hlt) (not_lt.mpr h)

theorem not_kept_zero {α β : Type} [LinearOrder α] [DecidableEq β] {bucket : α → β}
    {days : Finset α} {d : α} : ¬ Kept bucket 0 days d := fun h => absurd h.2 (Nat.not_lt_zero _)

section Conversely

variable (h : ∀ policy, KeepsPolicy policy names)
include h

theorem retained_iff_spared (hm : name ∈ names) (hd : dayOf name = some day) :
    Retained policy names day name ↔ Spared policy names (CalendarDay.ofText day) name := by
  have hn : dateOf name = some (CalendarDay.ofText day) := by
    rw [dateOf, hd, Option.map_some]
  rw [← (h policy).spared name hm _ hn, mem_retentionVictims hd]
  simp [hm]

theorem laterCount_eq (ha : a ∈ dates names) :
    laterCount (dates names) a =
      laterCount (calendar names) (CalendarDay.ofText a) := by
  obtain ⟨name, hm, hd, hlast⟩ := exists_last ha
  have hdaily (k : ℕ) : Retained ⟨k, 0, 0⟩ names a name ↔
      laterCount (dates names) a < k := by
    rw [← kept_id]
    refine ⟨fun hr => ?_, fun hk => ⟨hlast, Or.inl hk⟩⟩
    exact hr.kept.resolve_right (not_or.mpr ⟨not_kept_zero, not_kept_zero⟩)
  have hcalendar (k : ℕ) (hs : Spared ⟨k, 0, 0⟩ names (CalendarDay.ofText a) name) :
      laterCount (calendar names) (CalendarDay.ofText a) < k := by
    rw [← kept_id]
    exact hs.kept.resolve_right (not_or.mpr ⟨not_kept_zero, not_kept_zero⟩)
  have hname (k : ℕ) : Retained ⟨k, 0, 0⟩ names a name ↔
      Spared ⟨k, 0, 0⟩ names (CalendarDay.ofText a) name := retained_iff_spared h hm hd
  have hlastDate := ((hname _).mp ((hdaily _).mpr (Nat.lt_succ_self _))).last
  apply le_antisymm
  · have hs : Spared ⟨laterCount (calendar names) (CalendarDay.ofText a) + 1, 0, 0⟩ names
        (CalendarDay.ofText a) name := ⟨hlastDate, Or.inl (kept_id.mpr (Nat.lt_succ_self _))⟩
    exact Nat.le_of_lt_succ ((hdaily _).mp ((hname _).mpr hs))
  · exact Nat.le_of_lt_succ (hcalendar _ ((hname _).mp ((hdaily _).mpr (Nat.lt_succ_self _))))

theorem order_of_keepsPolicy (ha : a ∈ dates names) (hb : b ∈ dates names) :
    a < b ↔ CalendarDay.ofText a < CalendarDay.ofText b := by
  have hcal {day : Name} (hd : day ∈ dates names) : CalendarDay.ofText day ∈ calendar names := by
    rw [calendar_eq]
    exact Finset.mem_image_of_mem _ hd
  rw [← laterCount_lt hb, laterCount_eq h ha, laterCount_eq h hb, laterCount_lt (hcal hb)]

theorem newest_of_month (ha : a ∈ dates names)
    (hnewest : ∀ e ∈ dates names, a < e → monthToken e ≠ monthToken a) (hb : b ∈ dates names)
    (hlt : a < b) : (CalendarDay.ofText b).month ≠ (CalendarDay.ofText a).month := by
  obtain ⟨name, hm, hd, hlast⟩ := exists_last ha
  have hr : Retained ⟨0, 0, (dates names).card + 1⟩ names a name :=
    ⟨hlast, Or.inr (Or.inr (kept_card.mpr hnewest))⟩
  rcases ((retained_iff_spared h hm hd).mp hr).kept with hk | hk | hk
  · exact absurd hk not_kept_zero
  · exact absurd hk not_kept_zero
  · refine hk.1 _ ?_ ((order_of_keepsPolicy h ha hb).mp hlt)
    rw [calendar_eq]
    exact Finset.mem_image_of_mem _ hb

theorem monthToken_of_keepsPolicy (ha : a ∈ dates names) (hb : b ∈ dates names) (hle : a ≤ b)
    (heq : (CalendarDay.ofText a).month = (CalendarDay.ofText b).month) :
    monthToken a = monthToken b := by
  obtain ⟨last, hmem, hmax⟩ := Finset.exists_max_image
    ((dates names).filter (monthToken · = monthToken a)) id ⟨a, Finset.mem_filter.mpr ⟨ha, rfl⟩⟩
  rw [Finset.mem_filter] at hmem
  have hnewest : ∀ e ∈ dates names, last < e → monthToken e ≠ monthToken last := by
    intro e he hlt htoken
    exact absurd (hmax e (Finset.mem_filter.mpr ⟨he, htoken.trans hmem.2⟩)) (not_le.mpr hlt)
  have hblast : b ≤ last := by
    by_contra hgt
    refine newest_of_month h hmem.1 hnewest hb (not_le.mp hgt) ?_
    rw [← heq, month_eq_of_monthToken_eq hmem.2]
  -- all three texts start alike, as the first and the last do
  exact le_antisymm (take_le_take hle 7) ((take_le_take hblast 7).trans_eq hmem.2)

theorem inStep_of_keepsPolicy : InStep names := by
  refine ⟨fun a ha b hb => order_of_keepsPolicy h ha hb, fun a ha b hb heq => ?_⟩
  rcases le_total a b with hle | hle
  · exact monthToken_of_keepsPolicy h ha hb hle heq
  · exact (monthToken_of_keepsPolicy h hb ha hle heq.symm).symm

end Conversely

/-- Every policy is kept on a listing exactly when the texts of its days are in step with the calendar. -/
theorem keepsPolicy_iff : (∀ policy, KeepsPolicy policy names) ↔ InStep names :=
  ⟨inStep_of_keepsPolicy, fun h policy => h.keepsPolicy policy⟩

/-- A copy of 2026, and one of the last day of 2025 dated in other digits, which stand later in the
order of texts. -/
def mixedDigits : List Name :=
  ["easy-ha-proxy-20260101-000000-a.tar.gz.enc".toList,
    "easy-ha-proxy-٢٠٢٥١٢٣١-000000-b.tar.gz.enc".toList]

/-- The newest day is given up for an older one. -/
theorem mixedDigits_not_kept : ¬ ∀ policy, KeepsPolicy policy mixedDigits := by
  intro h
  have horder := (inStep_of_keepsPolicy h).order
    "2026-01-01".toList (mem_dates.mpr ⟨_, List.mem_cons_self, by decide +kernel⟩)
    "٢٠٢٥-١٢-٣١".toList
    (mem_dates.mpr ⟨_, List.mem_cons_of_mem _ List.mem_cons_self, by decide +kernel⟩)
  exact absurd (horder.mp (by decide +kernel)) (by decide +kernel)

end EasyHaProxy.Backupd
