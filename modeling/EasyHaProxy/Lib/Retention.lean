import Mathlib.Data.Finset.Card
import Mathlib.Data.Finset.Image
import Mathlib.Data.Finset.Dedup
import Mathlib.Data.List.Sort
import Mathlib.Tactic.Common

/-! Items are walked from the newest to the oldest and sorted into buckets; the first item of each of the
first `n` buckets is kept. `Kept` says which items these are without the walk. -/
namespace EasyHaProxy.Retention

variable {α β κ : Type} [DecidableEq β] {bucket : α → β} {n : Nat} {seen : List β} {d e : α}
  {pre post days : List α}

/-- The walk: `seen` are the buckets met so far, each of them once. -/
def keepFirst (bucket : α → β) (n : Nat) : List β → List α → List α
  | _, [] => []
  | seen, d :: days =>
    if bucket d ∈ seen then keepFirst bucket n seen days
    else if seen.length + 1 ≤ n then d :: keepFirst bucket n (bucket d :: seen) days
    else keepFirst bucket n (bucket d :: seen) days

theorem mem_of_mem_keepFirst (h : d ∈ keepFirst bucket n seen days) : d ∈ days := by
  induction days generalizing seen with
  | nil => exact h
  | cons e days ih =>
    rw [keepFirst] at h
    split at h
    · exact List.mem_cons_of_mem e (ih h)
    · split at h
      · rcases List.mem_cons.mp h with rfl | h
        · exact List.mem_cons_self
        · exact List.mem_cons_of_mem e (ih h)
      · exact List.mem_cons_of_mem e (ih h)

theorem mem_keepFirst_cons (hne : d ≠ e) :
    d ∈ keepFirst bucket n seen (e :: days) ↔
      d ∈ keepFirst bucket n (if bucket e ∈ seen then seen else bucket e :: seen) days := by
  rw [keepFirst]
  by_cases hs : bucket e ∈ seen
  · rw [if_pos hs, if_pos hs]
  · rw [if_neg hs, if_neg hs]
    split
    · simp [hne]
    · rfl

/-- An item is kept when its bucket is new to the walk and fewer than `n` came before it. -/
theorem mem_keepFirst_append (hs : seen.Nodup) (hpre : d ∉ pre) (hpost : d ∉ post) :
    d ∈ keepFirst bucket n seen (pre ++ d :: post) ↔
      bucket d ∉ seen ∧ bucket d ∉ pre.map bucket ∧
        (seen.toFinset ∪ (pre.map bucket).toFinset).card < n := by
  induction pre generalizing seen with
  | nil =>
    rw [List.nil_append, keepFirst]
    have hlater {s : List β} : d ∉ keepFirst bucket n s post := fun h => hpost (mem_of_mem_keepFirst h)
    have hcard : seen.toFinset.card = seen.length := List.toFinset_card_of_nodup hs
    by_cases hd : bucket d ∈ seen
    · simp [hd, hlater]
    · by_cases hn : seen.length + 1 ≤ n
      · have hlt : seen.toFinset.card < n := by omega
        simp [hd, hn, hlt]
      · have hge : n ≤ seen.toFinset.card := by omega
        simp [hd, hn, hge, hlater]
  | cons e pre ih =>
    rw [List.mem_cons, not_or] at hpre
    rw [List.cons_append, mem_keepFirst_cons hpre.1, List.map_cons, List.mem_cons, not_or,
      List.toFinset_cons, Finset.union_insert]
    by_cases he : bucket e ∈ seen
    · rw [if_pos he, ih hs hpre.2,
        Finset.insert_eq_of_mem (Finset.mem_union_left _ (List.mem_toFinset.mpr he))]
      constructor
      · rintro ⟨h1, h2, h3⟩
        exact ⟨h1, ⟨fun h => h1 (h ▸ he), h2⟩, h3⟩
      · rintro ⟨h1, h2, h3⟩
        exact ⟨h1, h2.2, h3⟩
    · rw [if_neg he, ih (List.nodup_cons.mpr ⟨he, hs⟩) hpre.2, List.toFinset_cons,
        Finset.insert_union, List.mem_cons, not_or]
      tauto

theorem keepFirst_id {α : Type} [DecidableEq α] {seen days : List α} (hs : ∀ d ∈ days, d ∉ seen)
    (hn : days.Nodup) : keepFirst id n seen days = days.take (n - seen.length) := by
  induction days generalizing seen with
  | nil => simp [keepFirst]
  | cons d days ih =>
    rw [List.nodup_cons] at hn
    have htail : ∀ e ∈ days, e ∉ d :: seen := by
      intro e he
      rw [List.mem_cons, not_or]
      exact ⟨fun h => hn.1 (h ▸ he), hs e (List.mem_cons_of_mem d he)⟩
    rw [keepFirst, id_eq, if_neg (hs d List.mem_cons_self)]
    have hrest := @ih (d :: seen) htail hn.2
    rw [List.length_cons] at hrest
    by_cases hl : seen.length + 1 ≤ n
    · have hk : n - seen.length = (n - (seen.length + 1)) + 1 := by omega
      rw [if_pos hl, hrest, hk, List.take_succ_cons]
    · have hk : n - seen.length = 0 := by omega
      have hk' : n - (seen.length + 1) = 0 := by omega
      rw [if_neg hl, hrest, hk, hk', List.take_zero, List.take_zero]

/-! ## Newest first -/

section Order

variable [LinearOrder α]

/-- No later item shares the bucket, and fewer than `n` buckets hold the later items. -/
def Kept (bucket : α → β) (n : Nat) (days : Finset α) (d : α) : Prop :=
  (∀ e ∈ days, d < e → bucket e ≠ bucket d) ∧ ((days.filter (d < ·)).image bucket).card < n

instance (bucket : α → β) (n : Nat) (days : Finset α) (d : α) : Decidable (Kept bucket n days d) :=
  inferInstanceAs (Decidable (_ ∧ _))

theorem split_of_descending (h : days.Pairwise (· > ·)) (hd : d ∈ days) :
    ∃ pre post, days = pre ++ d :: post ∧ (∀ e ∈ pre, d < e) ∧ ∀ e ∈ post, e < d := by
  obtain ⟨pre, post, rfl⟩ := List.append_of_mem hd
  rw [List.pairwise_append] at h
  refine ⟨pre, post, rfl, fun e he => h.2.2 e he d List.mem_cons_self, fun e he => ?_⟩
  exact List.rel_of_pairwise_cons h.2.1 he

/-- The walk from the newest to the oldest keeps what `Kept` says. -/
theorem mem_keepFirst_iff [DecidableEq α] (h : days.Pairwise (· > ·)) (hd : d ∈ days) :
    d ∈ keepFirst bucket n [] days ↔ Kept bucket n days.toFinset d := by
  obtain ⟨pre, post, rfl, hpre, hpost⟩ := split_of_descending h hd
  have hlater : (pre ++ d :: post).toFinset.filter (d < ·) = pre.toFinset := by
    ext e
    simp only [Finset.mem_filter, List.mem_toFinset, List.mem_append, List.mem_cons]
    constructor
    · rintro ⟨he | rfl | he, hlt⟩
      · exact he
      · exact absurd hlt (lt_irrefl _)
      · exact absurd hlt (lt_asymm (hpost e he))
    · exact fun he => ⟨Or.inl he, hpre e he⟩
  have himage : pre.toFinset.image bucket = (pre.map bucket).toFinset := by
    ext b
    simp
  rw [mem_keepFirst_append List.nodup_nil (fun h => lt_irrefl d (hpre d h))
    (fun h => lt_irrefl d (hpost d h)), Kept, hlater, himage]
  simp only [List.not_mem_nil, not_false_eq_true, true_and, List.toFinset_nil, Finset.empty_union]
  refine and_congr_left fun _ => ?_
  constructor
  · intro hb e he hlt hbe
    have hmem : e ∈ (pre ++ d :: post).toFinset.filter (d < ·) := Finset.mem_filter.mpr ⟨he, hlt⟩
    rw [hlater, List.mem_toFinset] at hmem
    exact hb (List.mem_map.mpr ⟨e, hmem, hbe⟩)
  · intro hb hmem
    obtain ⟨e, he, hbe⟩ := List.mem_map.mp hmem
    exact hb e (List.mem_toFinset.mpr (List.mem_append_left _ he)) (hpre e he) hbe

theorem mem_take_iff [DecidableEq α] (h : days.Pairwise (· > ·)) (hd : d ∈ days) :
    d ∈ days.take n ↔ Kept id n days.toFinset d := by
  rw [← mem_keepFirst_iff h hd, keepFirst_id (by simp) (h.imp fun h => (ne_of_lt h).symm)]
  rfl

/-- The newest item is kept as soon as anything is. -/
theorem kept_of_newest {days : Finset α} (h : ∀ e ∈ days, e ≤ d) (hn : 0 < n) :
    Kept bucket n days d := by
  have hnone : days.filter (d < ·) = ∅ :=
    Finset.filter_eq_empty_iff.mpr fun e he => not_lt.mpr (h e he)
  refine ⟨fun e he hlt => absurd hlt (not_lt.mpr (h e he)), ?_⟩
  rw [hnone, Finset.image_empty, Finset.card_empty]
  exact hn

/-- Fewer items stand in the way of one among fewer items. -/
theorem Kept.mono {few many : Finset α} (hsub : few ⊆ many) (h : Kept bucket n many d) :
    Kept bucket n few d := by
  refine ⟨fun e he => h.1 e (hsub he), lt_of_le_of_lt (Finset.card_le_card ?_) h.2⟩
  exact Finset.image_subset_image (Finset.filter_subset_filter _ hsub)

/-- How many items are later than `d`. -/
def laterCount (days : Finset α) (d : α) : ℕ := (days.filter (d < ·)).card

/-- Where every item is a bucket of its own only the number of later items counts. -/
theorem kept_id [DecidableEq α] {days : Finset α} : Kept id n days d ↔ laterCount days d < n := by
  rw [Kept, Finset.image_id]
  exact and_iff_right fun e _ hlt => ne_of_gt hlt

/-- With room for every bucket the newest item of each is kept. -/
theorem kept_card {days : Finset α} :
    Kept bucket (days.card + 1) days d ↔ ∀ e ∈ days, d < e → bucket e ≠ bucket d := by
  refine and_iff_left ?_
  exact Nat.lt_succ_of_le (Finset.card_image_le.trans (Finset.card_filter_le _ _))

/-- The later an item stands, the fewer items are later. -/
theorem laterCount_lt {days : Finset α} (he : e ∈ days) :
    laterCount days e < laterCount days d ↔ d < e := by
  have hlater {a b : α} (hab : a ≤ b) : days.filter (b < ·) ⊆ days.filter (a < ·) := by
    intro c hc
    rw [Finset.mem_filter] at hc ⊢
    exact ⟨hc.1, lt_of_le_of_lt hab hc.2⟩
  constructor
  · intro h
    by_contra hle
    exact absurd (Finset.card_le_card (hlater (not_lt.mp hle))) (not_le.mpr h)
  · intro h
    refine Finset.card_lt_card ⟨hlater h.le, fun hsub => ?_⟩
    have hmem := hsub (Finset.mem_filter.mpr ⟨he, h⟩)
    exact lt_irrefl e (Finset.mem_filter.mp hmem).2

/-- Two groupings of a set into the same classes have equally many of them. -/
theorem card_image_congr {α δ : Type} [DecidableEq α] [DecidableEq δ] {bucket : α → β}
    {group : α → δ} {days : Finset α}
    (h : ∀ a ∈ days, ∀ b ∈ days, bucket a = bucket b ↔ group a = group b) :
    (days.image bucket).card = (days.image group).card := by
  induction days using Finset.induction_on with
  | empty => simp
  | insert a days ha ih =>
    have hrest := ih fun b hb c hc =>
      h b (Finset.mem_insert_of_mem hb) c (Finset.mem_insert_of_mem hc)
    have hmem : bucket a ∈ days.image bucket ↔ group a ∈ days.image group := by
      rw [Finset.mem_image, Finset.mem_image]
      refine exists_congr fun b => and_congr_right fun hb => ?_
      exact h b (Finset.mem_insert_of_mem hb) a (Finset.mem_insert_self a days)
    rw [Finset.image_insert, Finset.image_insert, Finset.card_insert_eq_ite,
      Finset.card_insert_eq_ite, hrest]
    exact if_congr hmem rfl rfl

/-- Renaming the items by a map that keeps their order and their classes. -/
theorem kept_image {γ δ : Type} [LinearOrder γ] [DecidableEq δ] {f : α → γ} {group : γ → δ}
    {days : Finset α} (hf : ∀ a ∈ days, ∀ b ∈ days, a < b ↔ f a < f b)
    (hg : ∀ a ∈ days, ∀ b ∈ days, bucket a = bucket b ↔ group (f a) = group (f b))
    (hd : d ∈ days) : Kept bucket n days d ↔ Kept group n (days.image f) (f d) := by
  have hlater : (days.image f).filter (f d < ·) = (days.filter (d < ·)).image f := by
    rw [Finset.filter_image]
    exact congrArg _ (Finset.filter_congr fun e he => (hf d hd e he).symm)
  have hcard : ((days.filter (d < ·)).image bucket).card =
      (((days.filter (d < ·)).image f).image group).card := by
    rw [Finset.image_image]
    refine card_image_congr fun a ha b hb => ?_
    exact hg a (Finset.mem_filter.mp ha).1 b (Finset.mem_filter.mp hb).1
  rw [Kept, Kept, hlater, hcard]
  refine and_congr_left fun _ => ?_
  constructor
  · intro h e he hlt
    obtain ⟨a, ha, rfl⟩ := Finset.mem_image.mp he
    exact fun heq => h a ha ((hf d hd a ha).mpr hlt) ((hg a ha d hd).mpr heq)
  · intro h a ha hlt
    have hne := h (f a) (Finset.mem_image_of_mem f ha) ((hf d hd a ha).mp hlt)
    exact fun heq => hne ((hg a ha d hd).mp heq)

end Order

/-! ## The place of an item in a stable sort -/

section Stable

variable [LinearOrder κ] (key : α → κ)

/-- `sort(key=..., reverse=True)`: greatest key first, equal keys in the order they came. -/
def newestFirst (l : List α) : List α := l.insertionSort fun a b => key b ≤ key a

variable {key}

theorem orderedInsert_rank {a : α} {l : List α} (h : l.Pairwise fun b c => key c ≤ key b) :
    ∃ before after, l.orderedInsert (fun b c => key c ≤ key b) a = before ++ a :: after ∧
      before.length = l.countP (fun b => key a < key b) := by
  induction l with
  | nil => exact ⟨[], [], rfl, rfl⟩
  | cons b l ih =>
    rw [List.pairwise_cons] at h
    by_cases hb : key b ≤ key a
    · refine ⟨[], b :: l, List.orderedInsert_cons_of_le _ l hb, ?_⟩
      rw [List.length_nil, eq_comm, List.countP_eq_zero]
      intro c hc
      rcases List.mem_cons.mp hc with rfl | hc
      · simpa using hb
      · simpa using (h.1 c hc).trans hb
    · obtain ⟨before, after, he, hl⟩ := ih h.2
      refine ⟨b :: before, after, ?_, ?_⟩
      · rw [List.orderedInsert_of_not_le _ l hb, he, List.cons_append]
      · rw [List.length_cons, hl, List.countP_cons_of_pos]
        simpa using not_le.mp hb

theorem orderedInsert_before {p a : α} {before after : List α} (h : key a ≤ key p) :
    (before ++ a :: after).orderedInsert (fun b c => key c ≤ key b) p =
      before.orderedInsert (fun b c => key c ≤ key b) p ++ a :: after := by
  induction before with
  | nil => simp [h]
  | cons b before ih =>
    by_cases hb : key b ≤ key p
    · simp [hb]
    · simp [hb, ih]

theorem orderedInsert_after {p a : α} {before after : List α} (h : key p < key a)
    (hb : ∀ b ∈ before, key a ≤ key b) :
    (before ++ a :: after).orderedInsert (fun b c => key c ≤ key b) p =
      before ++ a :: after.orderedInsert (fun b c => key c ≤ key b) p := by
  induction before with
  | nil => simp [not_le.mpr h]
  | cons b before ih =>
    have hlt : key p < key b := lt_of_lt_of_le h (hb b List.mem_cons_self)
    simp [not_le.mpr hlt, ih fun b hmem => hb b (List.mem_cons_of_mem _ hmem)]

variable (key) in
theorem pairwise_newestFirst (l : List α) :
    (newestFirst key l).Pairwise fun b c => key c ≤ key b := by
  have : Std.Total fun b c : α => key c ≤ key b := ⟨fun b c => le_total (key c) (key b)⟩
  have : IsTrans α fun b c => key c ≤ key b := ⟨fun _ _ _ h1 h2 => h2.trans h1⟩
  exact List.pairwise_insertionSort _ l

variable (key) in
/-- Before an item stand those with a greater key, and those with its key that came earlier. -/
theorem newestFirst_rank (pre : List α) (a : α) (post : List α) :
    ∃ before after, newestFirst key (pre ++ a :: post) = before ++ a :: after ∧
      before.length = pre.countP (fun b => key a ≤ key b) + post.countP (fun b => key a < key b) := by
  induction pre with
  | nil =>
    obtain ⟨before, after, he, hl⟩ := orderedInsert_rank (a := a) (pairwise_newestFirst key post)
    refine ⟨before, after, he, ?_⟩
    rw [hl, List.countP_nil, Nat.zero_add]
    exact (List.perm_insertionSort _ post).countP_eq _
  | cons p pre ih =>
    obtain ⟨before, after, he, hl⟩ := ih
    have hsorted := pairwise_newestFirst key (pre ++ a :: post)
    rw [he, List.pairwise_append] at hsorted
    have hstep : newestFirst key (p :: pre ++ a :: post) =
        (before ++ a :: after).orderedInsert (fun b c => key c ≤ key b) p := by
      rw [← he]
      rfl
    by_cases hp : key a ≤ key p
    · refine ⟨before.orderedInsert (fun b c => key c ≤ key b) p, after, ?_, ?_⟩
      · rw [hstep, orderedInsert_before hp]
      · rw [List.orderedInsert_length, hl, List.countP_cons_of_pos (by simpa using hp)]
        omega
    · refine ⟨before, after.orderedInsert (fun b c => key c ≤ key b) p, ?_, ?_⟩
      · rw [hstep, orderedInsert_after (not_le.mp hp) fun b hb => hsorted.2.2 b hb a List.mem_cons_self]
      · rw [hl, List.countP_cons_of_neg (by simpa using hp)]

theorem mem_drop_append {a : α} {before after : List α} (hn : (before ++ a :: after).Nodup) :
    a ∈ (before ++ a :: after).drop n ↔ n ≤ before.length := by
  rw [List.nodup_append, List.nodup_cons] at hn
  constructor
  · intro h
    by_contra hlt
    obtain ⟨k, rfl⟩ : ∃ k, n = before.length + (k + 1) := ⟨n - before.length - 1, by omega⟩
    rw [List.drop_length_add_append, List.drop_succ_cons] at h
    exact hn.2.1.1 (List.mem_of_mem_drop h)
  · intro h
    rw [List.drop_append_of_le_length h]
    exact List.mem_append_right _ List.mem_cons_self

/-- What a cut after `n` items leaves out. -/
theorem mem_drop_newestFirst {pre post : List α} {a : α} (hn : (pre ++ a :: post).Nodup) :
    a ∈ (newestFirst key (pre ++ a :: post)).drop n ↔
      n ≤ pre.countP (fun b => key a ≤ key b) + post.countP (fun b => key a < key b) := by
  obtain ⟨before, after, he, hl⟩ := newestFirst_rank key pre a post
  have hnodup : (before ++ a :: after).Nodup :=
    he ▸ (List.perm_insertionSort _ (pre ++ a :: post)).nodup_iff.mpr hn
  rw [he, ← hl, mem_drop_append hnodup]

end Stable

end EasyHaProxy.Retention
