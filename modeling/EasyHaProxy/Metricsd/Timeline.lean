import EasyHaProxy.Metricsd.Availability
import Mathlib.Order.MinMax

/-! The bars of an object are contiguous over the window, neighbours differ in state, and each second lies
in a bar of the state it was in. The loop that draws them keeps this for the changes it reads. -/
namespace EasyHaProxy.Metricsd

/-- The state of each second. -/
abbrev StateOf := Int → String

variable {f g : StateOf} {a b c stop : Int} {spans : List Span} {s : Span} {state first : String}
  {changes events : List (Nat × String)} {since till : Int}

/-! ## Tilings -/

/-- Contiguous bars from one second to another, each of the state of its seconds and of another state
than the next. -/
def Tiles (f : StateOf) : Int → List Span → Int → Prop
  | a, [], b => a = b
  | a, s :: rest, b =>
    s.start = a ∧ a < s.stop ∧ (∀ t, a ≤ t → t < s.stop → f t = s.state) ∧
      (∀ next ∈ rest.head?, next.state ≠ s.state) ∧ Tiles f s.stop rest b

theorem Tiles.le (h : Tiles f a spans b) : a ≤ b := by
  induction spans generalizing a with
  | nil => exact le_of_eq h
  | cons s rest ih =>
    obtain ⟨-, hlt, -, -, hrest⟩ := h
    exact hlt.le.trans (ih hrest)

theorem tiles_concat : Tiles f a (spans ++ [s]) b ↔
    Tiles f a spans s.start ∧ s.start < s.stop ∧ s.stop = b ∧ (∀ t, s.start ≤ t → t < s.stop → f t = s.state) ∧
      ∀ last ∈ spans.getLast?, last.state ≠ s.state := by
  induction spans generalizing a with
  | nil =>
    simp only [List.nil_append, Tiles, List.head?_nil, List.getLast?_nil, Option.mem_def, reduceCtorEq,
      false_imp_iff, implies_true, true_and, and_true]
    constructor
    · rintro ⟨rfl, hlt, hf, hb⟩
      exact ⟨rfl, hlt, hb, hf⟩
    · rintro ⟨rfl, hlt, hb, hf⟩
      exact ⟨rfl, hlt, hf, hb⟩
  | cons first rest ih =>
    rw [List.cons_append, Tiles, Tiles, ih]
    cases rest with
    | nil =>
      simp only [List.nil_append, List.head?_cons, List.head?_nil, List.getLast?_nil, List.getLast?_singleton,
        Option.mem_def, Option.some.injEq, forall_eq', reduceCtorEq, false_imp_iff, implies_true, and_true, true_and]
      constructor
      · rintro ⟨h1, h2, h3, h4, h5, h6, h7, h8⟩
        exact ⟨⟨h1, h2, h3, h5⟩, h6, h7, h8, Ne.symm h4⟩
      · rintro ⟨⟨h1, h2, h3, h5⟩, h6, h7, h8, h4⟩
        exact ⟨h1, h2, h3, Ne.symm h4, h5, h6, h7, h8⟩
    | cons next rest =>
      simp only [List.cons_append, List.head?_cons, List.getLast?_cons_cons]
      constructor
      · rintro ⟨h1, h2, h3, h4, h5, h6⟩
        exact ⟨⟨h1, h2, h3, h4, h5⟩, h6⟩
      · rintro ⟨⟨h1, h2, h3, h4, h5⟩, h6⟩
        exact ⟨h1, h2, h3, h4, h5, h6⟩

/-- `_close_span` carries a tiling on to where the bar ends. -/
theorem tiles_closeSpan (stop : Int) (h : Tiles f a spans c) (hf : ∀ t, c ≤ t → t < stop → f t = state) :
    Tiles f a (closeSpan spans c stop state) (max c stop) := by
  unfold closeSpan
  split
  · rename_i hle
    rwa [max_eq_left hle]
  · rename_i hle
    rw [not_le] at hle
    rw [max_eq_right hle.le]
    rcases List.eq_nil_or_concat' spans with rfl | ⟨older, last, rfl⟩
    · obtain rfl : a = c := h
      exact ⟨rfl, hle, hf, fun _ hnext => (by cases hnext), rfl⟩
    · rw [List.getLast?_concat]
      obtain ⟨htiles, hlt, hstop, hlast, hne⟩ := tiles_concat.mp h
      dsimp only
      split
      · rename_i hstate
        rw [List.dropLast_concat, tiles_concat]
        refine ⟨htiles, by dsimp only; omega, rfl, fun t hstart hend => ?_, hne⟩
        rcases lt_or_ge t c with htc | htc
        · exact hlast t hstart (by omega)
        · exact (hf t htc hend).trans hstate.symm
      · rename_i hstate
        rw [tiles_concat]
        exact ⟨h, hle, rfl, hf, fun l hl => by
          rw [List.getLast?_concat] at hl
          obtain rfl := Option.some.inj hl
          exact hstate⟩

/-- Only the seconds of the window matter to a tiling. -/
theorem Tiles.congr (h : Tiles f a spans b) (hfg : ∀ t, a ≤ t → t < b → f t = g t) : Tiles g a spans b := by
  induction spans generalizing a with
  | nil => exact h
  | cons s rest ih =>
    obtain ⟨hstart, hlt, hf, hnext, hrest⟩ := h
    refine ⟨hstart, hlt, fun t hat hts => ?_, hnext, ih hrest fun t hst htb => hfg t (hlt.le.trans hst) htb⟩
    rw [← hfg t hat (hts.trans_le hrest.le)]
    exact hf t hat hts

/-- Bars are of one state at each second. -/
theorem Tiles.unique (hf : Tiles f a spans b) (hg : Tiles g a spans b) {t : Int} (hat : a ≤ t) (htb : t < b) :
    f t = g t := by
  induction spans generalizing a with
  | nil =>
    obtain rfl : a = b := hf
    omega
  | cons s rest ih =>
    obtain ⟨-, -, hfs, -, hfrest⟩ := hf
    obtain ⟨-, -, hgs, -, hgrest⟩ := hg
    rcases lt_or_ge t s.stop with hts | hts
    · rw [hfs t hat hts, hgs t hat hts]
    · exact ih hfrest hgrest hts

/-- The seconds of a window that are not up. -/
def downSeconds (f : StateOf) (a b : Int) : Nat :=
  (List.range (b - a).toNat).countP fun k : Nat => f (a + k) ≠ "UP"

theorem downSeconds_append (hac : a ≤ c) (hcb : c ≤ b) :
    downSeconds f a b = downSeconds f a c + downSeconds f c b := by
  have hlen : (b - a).toNat = (c - a).toNat + (b - c).toNat := by omega
  have hat : ∀ k : Nat, a + ((c - a).toNat + k : Nat) = c + k := fun k => by omega
  simp only [downSeconds, hlen, List.range_add, List.countP_append, List.countP_map, Function.comp_def, hat]

theorem downSeconds_of_state (hf : ∀ t, a ≤ t → t < b → f t = state) :
    downSeconds f a b = if state = "UP" then 0 else (b - a).toNat := by
  have hk : ∀ k ∈ List.range (b - a).toNat, f (a + k) = state := by
    intro k hk
    rw [List.mem_range] at hk
    exact hf _ (by omega) (by omega)
  rw [downSeconds]
  split
  · rename_i hup
    rw [List.countP_eq_zero]
    intro k hmem
    simp [hk k hmem, hup]
  · rename_i hup
    rw [List.countP_eq_length.mpr, List.length_range]
    intro k hmem
    simp [hk k hmem, hup]

/-- The bars that are not up are as long as the seconds that were not. -/
theorem Tiles.downtime (h : Tiles f a spans b) :
    ((spans.filter fun s => s.state ≠ "UP").map fun s => s.stop - s.start).sum = downSeconds f a b := by
  induction spans generalizing a with
  | nil =>
    obtain rfl : a = b := h
    simp [downSeconds]
  | cons s rest ih =>
    obtain ⟨hstart, hlt, hf, -, hrest⟩ := h
    rw [downSeconds_append hlt.le hrest.le, downSeconds_of_state hf, Nat.cast_add, ← ih hrest]
    by_cases hup : s.state = "UP"
    · simp [hup]
    · rw [List.filter_cons_of_pos (by simpa using hup), List.map_cons, List.sum_cons, if_neg hup, hstart,
        Int.toNat_of_nonneg (by omega)]

/-! ## The state of a second -/

/-- The state of the last change at or before a second, and the one to start with before any. -/
def stateFrom (first : String) (changes : List (Nat × String)) (t : Int) : String :=
  ((changes.filter (fun e => (e.1 : Int) ≤ t)).getLast?.map Prod.snd).getD first

/-- The state of the last event at or before a second, or of the first event before any. -/
def stateAt (events : List (Nat × String)) (t : Int) : String :=
  stateFrom ((events.head?.map Prod.snd).getD "") events t

/-- Their times do not decrease. -/
abbrev InOrder (events : List (Nat × String)) : Prop := events.Pairwise (fun x y => x.1 ≤ y.1)

theorem stateFrom_cons {e : Nat × String} {t : Int} :
    stateFrom first (e :: changes) t = stateFrom (if (e.1 : Int) ≤ t then e.2 else first) changes t := by
  unfold stateFrom
  by_cases he : (e.1 : Int) ≤ t
  · rw [List.filter_cons_of_pos (by simpa using he), List.getLast?_cons, if_pos he]
    cases (changes.filter fun e => (e.1 : Int) ≤ t).getLast? <;> rfl
  · rw [List.filter_cons_of_neg (by simpa using he), if_neg he]

theorem stateFrom_of_early {t : Int} (h : ∀ e ∈ changes, t < e.1) : stateFrom first changes t = first := by
  have hnone : changes.filter (fun e => (e.1 : Int) ≤ t) = [] := by
    rw [List.filter_eq_nil_iff]
    intro e he
    have := h e he
    simp only [decide_eq_true_eq]
    omega
  simp [stateFrom, hnone]

/-- What the loop keeps: the bars tile the window up to the cursor, and from there on the state is the
current one. -/
structure Drawn (f : StateOf) (a : Int) (drawn : List Span × Int × String) : Prop where
  tiles : Tiles f a drawn.1 drawn.2.1
  current : ∀ t, drawn.2.1 ≤ t → f t = drawn.2.2

theorem drawn_foldl {drawn : List Span × Int × String} (htiles : Tiles f a drawn.1 drawn.2.1) (horder : InOrder changes)
    (hf : ∀ t, drawn.2.1 ≤ t → f t = stateFrom drawn.2.2 changes t) : Drawn f a (changes.foldl drawChange drawn) := by
  induction changes generalizing drawn with
  | nil => exact ⟨htiles, hf⟩
  | cons e rest ih =>
    rw [InOrder, List.pairwise_cons] at horder
    rw [List.foldl_cons]
    refine ih ?_ horder.2 (fun t ht => ?_)
    · refine tiles_closeSpan _ htiles fun t hct hte => ?_
      rw [hf t hct]
      refine stateFrom_of_early fun x hx => ?_
      rcases List.mem_cons.mp hx with rfl | hx
      · exact hte
      · have := horder.1 x hx
        omega
    · have hmax : drawn.2.1 ≤ t ∧ (e.1 : Int) ≤ t := max_le_iff.mp ht
      rw [hf t hmax.1, stateFrom_cons, if_pos hmax.2]
      rfl

theorem cursor_le {drawn : List Span × Int × String} (hc : drawn.2.1 ≤ till) (h : ∀ e ∈ changes, (e.1 : Int) ≤ till) :
    (changes.foldl drawChange drawn).2.1 ≤ till := by
  induction changes generalizing drawn with
  | nil => exact hc
  | cons e rest ih =>
    rw [List.forall_mem_cons] at h
    exact ih (max_le hc h.1) h.2

/-! ## What is shown of an object -/

structure Faithful (f : StateOf) (since till : Int) (x : TimelineObject) : Prop where
  tiles : Tiles f since x.spans till
  current : x.currentState = f till
  downtime : x.downtimeSeconds = downSeconds f since till

theorem Faithful.congr {x : TimelineObject} (h : Faithful f since till x)
    (hfg : ∀ t, since ≤ t → t ≤ till → f t = g t) : Faithful g since till x := by
  have htiles := h.tiles.congr fun t hs ht => hfg t hs ht.le
  refine ⟨htiles, ?_, ?_⟩
  · rw [h.current, hfg till h.tiles.le le_rfl]
  · rw [h.downtime, ← h.tiles.downtime, htiles.downtime]

/-- What is shown is faithful to one account of the states at most. -/
theorem Faithful.iff {x : TimelineObject} (h : Faithful f since till x) :
    Faithful g since till x ↔ ∀ t, since ≤ t → t ≤ till → g t = f t := by
  constructor
  · intro hg t hs ht
    rcases lt_or_eq_of_le ht with ht | rfl
    · exact hg.tiles.unique h.tiles hs ht
    · rw [← hg.current, h.current]
  · exact fun hgf => h.congr fun t hs ht => (hgf t hs ht).symm

theorem faithful_of_shown {key : ObjectKey} {initial : Option String} {x : TimelineObject} (hwindow : since ≤ till)
    (horder : InOrder changes) (htill : ∀ e ∈ changes, (e.1 : Int) ≤ till)
    (hx : timelineObject since till key initial changes = some x) :
    Faithful (stateFrom (initial.getD ((changes.head?.map Prod.snd).getD "")) (changes.take maxTimelineSpans))
      since till x := by
  unfold timelineObject at hx
  split at hx
  · cases hx
  · set first := initial.getD ((changes.head?.map Prod.snd).getD "")
    set f := stateFrom first (changes.take maxTimelineSpans)
    have hdrawn : Drawn f since ((changes.take maxTimelineSpans).foldl drawChange ([], since, first)) := by
      refine drawn_foldl ?_ (horder.sublist (List.take_sublist _ _)) (fun t _ => rfl)
      rfl
    have hcursor : ((changes.take maxTimelineSpans).foldl drawChange ([], since, first)).2.1 ≤ till :=
      cursor_le hwindow fun e he => htill e (List.mem_of_mem_take he)
    have hspans := tiles_closeSpan till hdrawn.tiles fun t ht _ => hdrawn.current t ht
    rw [max_eq_right hcursor] at hspans
    obtain rfl := Option.some.inj hx
    exact ⟨hspans, (hdrawn.current till hcursor).symm, hspans.downtime⟩

/-! ## Changes beyond the limit -/

/-- Whichever change beyond the limit is the last at a second repeats the last one that is read. -/
def RestRepeats (changes : List (Nat × String)) : Prop :=
  ∀ (t : Int) (e : Nat × String),
    ((changes.drop maxTimelineSpans).filter (fun e => (e.1 : Int) ≤ t)).getLast? = some e →
      (changes.take maxTimelineSpans).getLast?.map Prod.snd = some e.2

theorem restRepeats_of_short (h : changes.length ≤ maxTimelineSpans) : RestRepeats changes := by
  intro t e he
  rw [List.drop_eq_nil_of_le h] at he
  cases he

/-- At a second of the rest all that was read lies before. -/
theorem filter_take_of_rest (horder : InOrder changes) {t : Int} {e : Nat × String} {n : Nat} (he : e ∈ changes.drop n)
    (ht : (e.1 : Int) ≤ t) : (changes.take n).filter (fun e => (e.1 : Int) ≤ t) = changes.take n := by
  rw [List.filter_eq_self]
  intro x hx
  rw [← List.take_append_drop n changes, InOrder, List.pairwise_append] at horder
  have := horder.2.2 x hx e he
  simp only [decide_eq_true_eq]
  omega

theorem stateFrom_split (n : Nat) (t : Int) : stateFrom first changes t =
    ((((changes.drop n).filter (fun e => (e.1 : Int) ≤ t)).getLast?.or
      ((changes.take n).filter (fun e => (e.1 : Int) ≤ t)).getLast?).map Prod.snd).getD first := by
  rw [stateFrom]
  conv_lhs => rw [← List.take_append_drop n changes, List.filter_append, List.getLast?_append]

theorem take_ne_nil_of_rest {e : Nat × String} (he : e ∈ changes.drop maxTimelineSpans) :
    changes.take maxTimelineSpans ≠ [] := by
  intro hnil
  rcases List.take_eq_nil_iff.mp hnil with hzero | hempty
  · exact absurd hzero (by decide)
  · rw [hempty, List.drop_nil] at he
    cases he

/-- The changes that are read tell the state of every second of the window exactly when the rest
repeats the last of them. -/
theorem take_tells_iff (horder : InOrder changes) (hsince : ∀ e ∈ changes, since < e.1)
    (htill : ∀ e ∈ changes, (e.1 : Int) ≤ till) :
    (∀ t, since ≤ t → t ≤ till →
      stateFrom first changes t = stateFrom first (changes.take maxTimelineSpans) t) ↔ RestRepeats changes := by
  constructor
  · intro h t e he
    have hmem := List.mem_filter.mp (List.mem_of_getLast? he)
    have hin := List.mem_of_mem_drop hmem.1
    have hte : (e.1 : Int) ≤ t := by simpa using hmem.2
    have hlow := hsince e hin
    have hhigh := htill e hin
    -- the window ends where its last change does not matter any more
    have hclip : (changes.drop maxTimelineSpans).filter (fun e => (e.1 : Int) ≤ min t till) =
        (changes.drop maxTimelineSpans).filter (fun e => (e.1 : Int) ≤ t) := by
      refine List.filter_congr fun x hx => ?_
      have := htill x (List.mem_of_mem_drop hx)
      simp only [decide_eq_decide]
      omega
    have hsame := h (min t till) (by omega) (by omega)
    have hread := filter_take_of_rest (t := min t till) horder hmem.1 (by omega)
    rw [stateFrom_split maxTimelineSpans, hclip, he, stateFrom, hread] at hsame
    obtain ⟨last, hlast⟩ : ∃ last, (changes.take maxTimelineSpans).getLast? = some last :=
      ⟨_, List.getLast?_eq_some_getLast (take_ne_nil_of_rest hmem.1)⟩
    rw [hlast] at hsame ⊢
    simpa using hsame.symm
  · intro h t _ _
    rw [stateFrom_split maxTimelineSpans, stateFrom]
    cases he : ((changes.drop maxTimelineSpans).filter (fun e => (e.1 : Int) ≤ t)).getLast? with
    | none => rfl
    | some e =>
      have hmem := List.mem_filter.mp (List.mem_of_getLast? he)
      have hread := filter_take_of_rest (t := t) horder hmem.1 (by simpa using hmem.2)
      have hlast := h t e he
      rw [hread, hlast]
      rfl

/-! ## Events of an object -/

theorem filter_upTo_split {t : Int} (horder : InOrder events) (hst : since ≤ t) :
    events.filter (fun e => (e.1 : Int) ≤ t) = events.filter (fun e => (e.1 : Int) ≤ since) ++
      events.filter (fun e => since < (e.1 : Int) && (e.1 : Int) ≤ t) := by
  induction events with
  | nil => rfl
  | cons e rest ih =>
    rw [InOrder, List.pairwise_cons] at horder
    by_cases hes : (e.1 : Int) ≤ since
    · have het : (e.1 : Int) ≤ t := hes.trans hst
      have hne : ¬ since < (e.1 : Int) := by omega
      simp [hes, het, hne, ih horder.2]
    · -- nothing later lies before the window
      have hnone : rest.filter (fun e => (e.1 : Int) ≤ since) = [] := by
        rw [List.filter_eq_nil_iff]
        intro x hx
        have := horder.1 x hx
        simp only [decide_eq_true_eq]
        omega
      have hrest := ih horder.2
      rw [hnone, List.nil_append] at hrest
      have hlt : since < (e.1 : Int) := by omega
      have hnone' : (e :: rest).filter (fun e => (e.1 : Int) ≤ since) = [] := by
        rw [List.filter_cons_of_neg (by simpa using hes), hnone]
      rw [hnone', List.nil_append, List.filter_cons, List.filter_cons, hrest]
      simp [hlt]

/-- Where nothing came before the window, its first change is the first event. -/
theorem head_of_window (horder : InOrder events) (hnone : events.filter (fun e => (e.1 : Int) ≤ since) = [])
    (hsome : events.filter (fun e => since < (e.1 : Int) && (e.1 : Int) ≤ till) ≠ []) :
    (events.filter (fun e => since < (e.1 : Int) && (e.1 : Int) ≤ till)).head? = events.head? := by
  cases events with
  | nil => rfl
  | cons e rest =>
    obtain ⟨x, hx⟩ := List.exists_mem_of_ne_nil _ hsome
    obtain ⟨hmem, hwindow⟩ := List.mem_filter.mp hx
    simp only [Bool.and_eq_true, decide_eq_true_eq] at hwindow
    have hlate : since < (e.1 : Int) := by
      have := List.filter_eq_nil_iff.mp hnone e List.mem_cons_self
      simpa using this
    have hfirst : e.1 ≤ x.1 := by
      rcases List.mem_cons.mp hmem with rfl | hmem
      · exact le_rfl
      · exact (List.pairwise_cons.mp horder).1 x hmem
    have hearly : (e.1 : Int) ≤ till := by omega
    simp [hlate, hearly]

/-- The changes in a window are the last word on a second of it that has one, and else what came before. -/
theorem stateAt_window {t : Int} (horder : InOrder events) (hst : since ≤ t) (htt : t ≤ till)
    (hseen : (events.filter (fun e => (e.1 : Int) ≤ since)).getLast?.map Prod.snd ≠ none ∨
      events.filter (fun e => since < (e.1 : Int) && (e.1 : Int) ≤ till) ≠ []) :
    stateAt events t = stateFrom
      (((events.filter (fun e => (e.1 : Int) ≤ since)).getLast?.map Prod.snd).getD
        (((events.filter (fun e => since < (e.1 : Int) && (e.1 : Int) ≤ till)).head?.map Prod.snd).getD ""))
      (events.filter (fun e => since < (e.1 : Int) && (e.1 : Int) ≤ till)) t := by
  have hclip : (events.filter (fun e => since < (e.1 : Int) && (e.1 : Int) ≤ till)).filter
      (fun e => (e.1 : Int) ≤ t) = events.filter (fun e => since < (e.1 : Int) && (e.1 : Int) ≤ t) := by
    rw [List.filter_filter]
    refine List.filter_congr fun x _ => ?_
    rw [Bool.eq_iff_iff]
    simp only [Bool.and_eq_true, decide_eq_true_eq]
    omega
  rw [stateAt, stateFrom, stateFrom, hclip, filter_upTo_split horder hst, List.getLast?_append]
  cases (events.filter (fun e => since < (e.1 : Int) && (e.1 : Int) ≤ t)).getLast? with
  | some e => rfl
  | none =>
    rw [Option.none_or]
    cases hbefore : (events.filter (fun e => (e.1 : Int) ≤ since)).getLast? with
    | some e => rfl
    | none =>
      rw [hbefore] at hseen
      have hsome := hseen.resolve_left (by simp)
      rw [head_of_window horder (List.getLast?_eq_none_iff.mp hbefore) hsome]
      rfl

namespace MetricsDatabase

variable {db : MetricsDatabase} {site : String} {o : Nat}

def eventsOf (db : MetricsDatabase) (o : Nat) : List (Nat × String) :=
  (db.stateEvents.rows.filter fun e => e.objectId = o).map fun e => (e.ts, e.state)

theorem changesOf_eq : db.changesOf since till o =
    (db.eventsOf o).filter (fun e => since < (e.1 : Int) && (e.1 : Int) ≤ till) := by
  rw [changesOf, eventsOf, List.filter_map, List.filter_filter]
  congr 1
  refine List.filter_congr fun e _ => ?_
  rw [Bool.eq_iff_iff]
  simp only [Function.comp_apply, Bool.and_eq_true, decide_eq_true_eq]
  tauto

theorem initial_eq (h : o ∈ (db.timelineRows site).map ObjectRow.id) : (db.initialStates site since).get? o =
    ((db.eventsOf o).filter (fun e => (e.1 : Int) ≤ since)).getLast?.map Prod.snd := by
  rw [initialStates_get? h, StateEvents.latest?, eventsOf, List.filter_map, List.filter_filter, List.getLast?_map,
    Option.map_map]
  rfl

theorem inOrder_changesOf (horder : InOrder (db.eventsOf o)) : InOrder (db.changesOf since till o) := by
  rw [changesOf_eq]
  exact horder.filter _

theorem mem_changesOf {e : Nat × String} (h : e ∈ db.changesOf since till o) : since < (e.1 : Int) ∧ (e.1 : Int) ≤ till := by
  rw [changesOf_eq] at h
  simpa using (List.mem_filter.mp h).2

theorem shown_of_key {r : ObjectRow} {x : TimelineObject} (hr : r ∈ db.timelineRows site)
    (hx : x ∈ (db.stateTimeline site since till).objects) (hkey : x.key = r.key) :
    timelineObject since till r.key ((db.initialStates site since).get? r.id) (db.changesOf since till r.id) =
      some x := by
  obtain ⟨r', hr', hshown⟩ := List.mem_filterMap.mp hx
  have hkey' : x.key = r'.key := by
    unfold timelineObject at hshown
    split at hshown
    · cases hshown
    · rw [← Option.some.inj hshown]
  obtain rfl := eq_of_key (mem_timelineRows.mp hr).1 (mem_timelineRows.mp hr').1 (hkey.symm.trans hkey')
  exact hshown

theorem exists_shown (since till : Int) {r : ObjectRow} (hr : r ∈ db.timelineRows site) (hchanges : db.changesOf since till r.id ≠ []) :
    ∃ x ∈ (db.stateTimeline site since till).objects, x.key = r.key := by
  cases hx : timelineObject since till r.key ((db.initialStates site since).get? r.id) (db.changesOf since till r.id) with
  | none => simp [timelineObject, hchanges] at hx
  | some x =>
    refine ⟨x, List.mem_filterMap.mpr ⟨r, hr, hx⟩, ?_⟩
    simp only [timelineObject, hchanges, and_false, if_false, Option.some.injEq] at hx
    rw [← hx]

theorem stateAt_shown {r : ObjectRow} {x : TimelineObject} {t : Int} (hr : r ∈ db.timelineRows site)
    (horder : InOrder (db.eventsOf r.id))
    (hshown : timelineObject since till r.key ((db.initialStates site since).get? r.id) (db.changesOf since till r.id) =
      some x) (hst : since ≤ t) (htt : t ≤ till) :
    stateAt (db.eventsOf r.id) t = stateFrom (((db.initialStates site since).get? r.id).getD
      (((db.changesOf since till r.id).head?.map Prod.snd).getD "")) (db.changesOf since till r.id) t := by
  have hseen : ((db.eventsOf r.id).filter (fun e => (e.1 : Int) ≤ since)).getLast?.map Prod.snd ≠ none ∨
      (db.eventsOf r.id).filter (fun e => since < (e.1 : Int) && (e.1 : Int) ≤ till) ≠ [] := by
    rw [← initial_eq (List.mem_map_of_mem hr), ← changesOf_eq, ← not_and_or]
    intro hno
    unfold timelineObject at hshown
    rw [if_pos hno] at hshown
    cases hshown
  rw [stateAt_window horder hst htt hseen, initial_eq (List.mem_map_of_mem hr), changesOf_eq]

/-- The timeline of an object whose events are in order is a faithful tiling of the window exactly when
the changes beyond the limit repeat the last one that is read. -/
theorem timeline_faithful_iff (db : MetricsDatabase) (site : String) (since till : Int) (hwindow : since < till)
    (r : ObjectRow) (hr : r ∈ db.timelineRows site) (horder : InOrder (db.eventsOf r.id)) (x : TimelineObject)
    (hx : x ∈ (db.stateTimeline site since till).objects) (hkey : x.key = r.key) :
    Faithful (stateAt (db.eventsOf r.id)) since till x ↔ RestRepeats (db.changesOf since till r.id) := by
  have hshown := shown_of_key hr hx hkey
  have hread := faithful_of_shown hwindow.le (inOrder_changesOf horder) (fun e he => (mem_changesOf he).2) hshown
  rw [hread.iff, ← take_tells_iff (inOrder_changesOf horder) (fun e he => (mem_changesOf he).1)
    (fun e he => (mem_changesOf he).2)]
  refine forall_congr' fun t => forall_congr' fun hst => forall_congr' fun htt => ?_
  rw [stateAt_shown hr horder hshown hst htt]

/-- No change beyond the limit has come yet. -/
def BeforeCut (changes : List (Nat × String)) (t : Int) : Prop := ∀ e ∈ changes.drop maxTimelineSpans, t < e.1

theorem stateFrom_of_beforeCut {t : Int} (h : BeforeCut changes t) :
    stateFrom first changes t = stateFrom first (changes.take maxTimelineSpans) t := by
  have hnone : (changes.drop maxTimelineSpans).filter (fun e => (e.1 : Int) ≤ t) = [] := by
    rw [List.filter_eq_nil_iff]
    intro e he
    have := h e he
    simp only [decide_eq_true_eq]
    omega
  rw [stateFrom_split maxTimelineSpans, hnone]
  rfl

/-- Whatever lies beyond the limit, the bars tile the window, and up to there they show the states. -/
theorem tiling_of_shown (hwindow : since < till) {r : ObjectRow} {x : TimelineObject} (hr : r ∈ db.timelineRows site)
    (horder : InOrder (db.eventsOf r.id)) (hx : x ∈ (db.stateTimeline site since till).objects) (hkey : x.key = r.key) :
    ∃ f : StateOf, Faithful f since till x ∧ ∀ t, since ≤ t → t ≤ till → BeforeCut (db.changesOf since till r.id) t →
      f t = stateAt (db.eventsOf r.id) t := by
  have hshown := shown_of_key hr hx hkey
  refine ⟨_, faithful_of_shown hwindow.le (inOrder_changesOf horder) (fun e he => (mem_changesOf he).2) hshown,
    fun t hst htt hcut => ?_⟩
  rw [stateAt_shown hr horder hshown hst htt, stateFrom_of_beforeCut hcut]

theorem truncated_iff : (db.stateTimeline site since till).truncated = true ↔
    ∃ r ∈ db.timelineRows site, maxTimelineSpans < (db.changesOf since till r.id).length := by
  simp [stateTimeline]

/-- The bars of an object tile the window and show its states up to the limit; they show them to the end
unless changes beyond the limit say otherwise than the last one that is read, and a timeline with changes
beyond the limit says so. -/
theorem timeline_faithful (db : MetricsDatabase) (site : String) (since till : Int) (hwindow : since < till) :
    (∀ r ∈ db.timelineRows site, InOrder (db.eventsOf r.id) →
      ∀ x ∈ (db.stateTimeline site since till).objects, x.key = r.key →
        (∃ f : StateOf, Faithful f since till x ∧ ∀ t, since ≤ t → t ≤ till →
          BeforeCut (db.changesOf since till r.id) t → f t = stateAt (db.eventsOf r.id) t) ∧
        ((db.changesOf since till r.id).length ≤ maxTimelineSpans ∨ RestRepeats (db.changesOf since till r.id) →
          Faithful (stateAt (db.eventsOf r.id)) since till x)) ∧
    ((db.stateTimeline site since till).truncated = true ↔
      ∃ r ∈ db.timelineRows site, maxTimelineSpans < (db.changesOf since till r.id).length) := by
  refine ⟨fun r hr horder x hx hkey => ⟨tiling_of_shown hwindow hr horder hx hkey, fun hrest => ?_⟩, truncated_iff⟩
  exact (timeline_faithful_iff db site since till hwindow r hr horder x hx hkey).mpr
    (hrest.elim restRepeats_of_short id)

theorem timeline_faithful_quiet_server :
    ∃ x ∈ (quietServer.stateTimeline "" 900 1100).objects, Faithful (stateAt (quietServer.eventsOf 1)) 900 1100 x := by
  have hr : (⟨1, ⟨.server, "be_app", "srv1"⟩, 1000, 1000⟩ : ObjectRow) ∈ quietServer.timelineRows "" :=
    mem_timelineRows.mpr ⟨List.mem_singleton_self _, rfl⟩
  obtain ⟨x, hx, hkey⟩ := exists_shown 900 1100 hr (by decide +kernel)
  exact ⟨x, hx, ((timeline_faithful quietServer "" 900 1100 (by decide)).1 _ hr (by decide +kernel) x hx hkey).2
    (Or.inl (by decide +kernel))⟩

/-- A server that changes its state every second, 201 times. -/
def flappingServer : MetricsDatabase :=
  { empty with
    objects := quietServer.objects
    stateEvents := {
      rows := (List.range 201).map fun i =>
        ⟨i + 1, 1000 + i, 1, "", if i % 2 = 0 then "UP" else "DOWN", by split <;> decide⟩
      ordered := by
        rw [List.pairwise_map]
        exact List.pairwise_lt_range.imp fun h => Nat.succ_lt_succ h } }

/-- Its last change is up, and the timeline leaves it down. -/
theorem flapping_not_faithful :
    ¬ ∀ (db : MetricsDatabase) (site : String) (since till : Int), since < till → ∀ r ∈ db.timelineRows site,
      InOrder (db.eventsOf r.id) → ∀ x ∈ (db.stateTimeline site since till).objects, x.key = r.key →
        Faithful (stateAt (db.eventsOf r.id)) since till x := by
  intro h
  have hr : (⟨1, ⟨.server, "be_app", "srv1"⟩, 1000, 1000⟩ : ObjectRow) ∈ flappingServer.timelineRows "" :=
    mem_timelineRows.mpr ⟨List.mem_singleton_self _, rfl⟩
  have horder : InOrder (flappingServer.eventsOf 1) := by
    refine (List.pairwise_map.mpr (List.Pairwise.filter _ (List.pairwise_map.mpr ?_)))
    exact List.pairwise_lt_range.imp fun h => by simpa using Nat.le_of_lt h
  obtain ⟨x, hx, hkey⟩ := exists_shown 900 1300 hr (by decide +kernel)
  have hclaimed := (h flappingServer "" 900 1300 (by decide) _ hr horder x hx hkey).current
  have hread := (faithful_of_shown (by decide) (inOrder_changesOf horder) (fun e he => (mem_changesOf he).2)
    (shown_of_key hr hx hkey)).current
  rw [hclaimed, initial_eq (List.mem_map_of_mem hr)] at hread
  exact absurd hread (by decide +kernel)

end MetricsDatabase

end EasyHaProxy.Metricsd
