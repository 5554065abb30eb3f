import Mathlib.Data.List.Sort
import EasyHaProxy.Guardd.Engine
import EasyHaProxy.Guardd.Score

/-! `reputation` scores what `events_for` returns, the newest 500 events of the window. One event more
leaves each of them in its place or takes the last one's. -/
namespace EasyHaProxy.Guardd

/-! ## A row more in a sorted list -/

section Sorted

variable {α : Type} {r : α → α → Prop} [DecidableRel r]

/-- A list with one element more is the other with it put in somewhere. -/
theorem split_of_sublist_of_perm {l l' : List α} {x : α} (hsub : l.Sublist l') (hperm : l'.Perm (x :: l)) :
    ∃ before after, l = before ++ after ∧ l' = before ++ x :: after := by
  induction hsub with
  | slnil => exact absurd hperm.length_eq (by simp)
  | @cons l l' y hsub _ =>
    have hlen : l.length = l'.length := by simpa using hperm.length_eq.symm
    obtain rfl := hsub.eq_of_length hlen
    have hone : [y].Perm [x] := (List.perm_append_right_iff l).mp hperm
    obtain rfl : y = x := List.singleton_perm_singleton.mp hone
    exact ⟨[], l, rfl, rfl⟩
  | @cons_cons l l' y hsub ih =>
    obtain ⟨before, after, rfl, rfl⟩ := ih (hperm.trans (List.Perm.swap y x l)).cons_inv
    exact ⟨y :: before, after, rfl, rfl⟩

theorem insertionSort_sublist_append [Std.Total r] [IsTrans α r] (l : List α) (x : α) :
    (l.insertionSort r).Sublist ((l ++ [x]).insertionSort r) := by
  induction l with
  | nil => exact List.nil_sublist _
  | cons y l ih => exact List.Sublist.orderedInsert_sublist y ih (List.pairwise_insertionSort r _)

theorem insertionSort_append [Std.Total r] [IsTrans α r] (l : List α) (x : α) :
    ∃ before after, l.insertionSort r = before ++ after ∧ (l ++ [x]).insertionSort r = before ++ x :: after := by
  apply split_of_sublist_of_perm (insertionSort_sublist_append l x)
  have hperm := (List.perm_insertionSort r (l ++ [x])).trans (List.perm_append_singleton x l)
  exact hperm.trans ((List.perm_insertionSort r l).symm.cons x)

end Sorted

/-! ## Reputation -/

def watchScore : Int := 20

structure Reputation extends ScoreResult where
  ip : Ip
  enforceable : Bool
  excluded : Bool
  exclusionReason : String
  authenticatedAt : Int
  firstSeen : Int
  lastSeen : Int
  eventCount : Nat
  blockers : List String
  wouldBan : Bool
  bannedUntil : Int
  likelyFalsePositive : Bool

section Reputation

variable (w : World) (ip : Ip) (now : Int) (policy : ScoringPolicy)

/-- `now or _utc_now()` -/
def World.orNow : Int := if now = 0 then w.now else now

/-- The rows `reputation` scores. -/
def evidence : List EventRow := ((w.db.eventsFor ip (w.orNow now - policy.windowSeconds) 500).map SecurityEvent.row)

/-- `GuardEngine.reputation` under a policy. -/
def reputation : Reputation :=
  let events := evidence w ip now policy
  let result := policy.scoreEvents (w.orNow now) events
  let verdict := w.verdict ip
  let facts := w.db.ipState.get? ip
  let authenticatedAt := w.db.authenticatedAt ip
  let blockers := banBlockers w (w.orNow now) ip
  -- An exempt address is shown with its evidence, but without a standing.
  let score := if verdict.excluded then 0 else result.score
  { score
    state := if verdict.excluded then "NORMAL" else result.state
    recommendedAction := if verdict.excluded then "none" else result.recommendedAction
    eventsCounted := result.eventsCounted
    categories := result.categories
    contributions := result.contributions
    ip
    enforceable := enforceable ip
    excluded := verdict.excluded
    exclusionReason := verdict.reason
    authenticatedAt
    firstSeen := (facts.map (·.firstSeen)).getD 0
    lastSeen := (facts.map (·.lastSeen)).getD 0
    eventCount := events.length
    blockers
    wouldBan := wouldBanScore ≤ score ∧ blockers = []
    bannedUntil := w.db.scheduledBans.getD ip 0
    likelyFalsePositive := authenticatedAt ≠ 0 ∧ watchScore ≤ score }

end Reputation

/-- `record_events` with one event. -/
def World.record (w : World) (e : SecurityEvent) : World := { w with db := w.db.recordEvents [e] }

def MoreNeverLowers (w : World) (ip : Ip) (now : Int) (policy : ScoringPolicy) : Prop :=
  ∀ e : SecurityEvent, e.ip = ip → e.ts ≤ w.orNow now →
    (reputation w ip now policy).score ≤ (reputation (w.record e) ip now policy).score

/-- The last of 500 rows can be given up: none newer can be recorded up to now, or the score is the
same without it. -/
def LastToSpare (policy : ScoringPolicy) (now : Int) (rows : List EventRow) : Prop :=
  ∀ last, rows[499]? = some last → last.ts ≤ now →
    (policy.scoreEvents now (rows.take 499)).score = (policy.scoreEvents now rows).score

/-! ## The rows after one more event -/

/-- The order of `events_for`: newest first. -/
def Newer (a b : SecurityEvent) : Prop := b.ts < a.ts ∨ a.ts = b.ts ∧ b.id ≤ a.id

instance : DecidableRel Newer := fun a b => inferInstanceAs (Decidable (b.ts < a.ts ∨ a.ts = b.ts ∧ b.id ≤ a.id))

instance : Std.Total Newer := ⟨fun a b => by unfold Newer; omega⟩

instance : IsTrans SecurityEvent Newer := ⟨fun a b c => by unfold Newer; omega⟩

variable {w : World} {ip : Ip} {now since : Int} {policy : ScoringPolicy} {e : SecurityEvent} {db : Database}

def Database.ordered (db : Database) (ip : Ip) (since : Int) : List SecurityEvent :=
  (db.events.filter fun e => e.ip = ip ∧ since ≤ e.ts).insertionSort Newer

/-- The row `record_events` writes. -/
def Database.written (db : Database) (e : SecurityEvent) : SecurityEvent :=
  { e with id := nextId (db.events.map (·.id)), detail := truncate maxPathLength e.detail }

theorem Database.events_record (db : Database) (e : SecurityEvent) :
    (db.recordEvents [e]).events = db.events ++ [db.written e] := rfl

theorem Database.ordered_record (db : Database) (hip : e.ip = ip) (hsince : since ≤ e.ts) :
    ∃ before after, db.ordered ip since = before ++ after ∧
      (db.recordEvents [e]).ordered ip since = before ++ db.written e :: after := by
  have hkept : [db.written e].filter (fun e => e.ip = ip ∧ since ≤ e.ts) = [db.written e] :=
    List.filter_eq_self.mpr fun f hf => by
      obtain rfl := List.mem_singleton.mp hf
      exact decide_eq_true ⟨hip, hsince⟩
  unfold Database.ordered
  rw [events_record, List.filter_append, hkept]
  exact insertionSort_append _ _

theorem Database.ordered_record_of_old (hsince : e.ts < since) :
    (db.recordEvents [e]).ordered ip since = db.ordered ip since := by
  have hgone : [db.written e].filter (fun e => e.ip = ip ∧ since ≤ e.ts) = [] :=
    List.filter_eq_nil_iff.mpr fun f hf => by
      obtain rfl := List.mem_singleton.mp hf
      simp only [decide_eq_true_eq, not_and, not_le]
      exact fun _ => hsince
  unfold Database.ordered
  rw [events_record, List.filter_append, hgone, List.append_nil]

theorem Database.ordered_pairwise (db : Database) (ip : Ip) (since : Int) : (db.ordered ip since).Pairwise Newer := List.pairwise_insertionSort Newer _

theorem score_reputation : (reputation w ip now policy).score =
    if (w.verdict ip).excluded then 0 else (policy.scoreEvents (w.orNow now) (evidence w ip now policy)).score := rfl

theorem evidence_eq : evidence w ip now policy =
    ((w.db.ordered ip (w.orNow now - policy.windowSeconds)).take 500).map SecurityEvent.row := rfl

/-- The clock and the lists are as before. -/
theorem score_record : (reputation (w.record e) ip now policy).score =
    if (w.verdict ip).excluded then 0 else (policy.scoreEvents (w.orNow now)
      ((((w.db.recordEvents [e]).ordered ip (w.orNow now - policy.windowSeconds)).take 500).map SecurityEvent.row)).score :=
  rfl

section Rows

variable {before after rows : List SecurityEvent} {x last : SecurityEvent}

theorem take_succ_insert {k : Nat} (h : before.length ≤ k) :
    (before ++ x :: after).take (k + 1) = before ++ x :: after.take (k - before.length) := by
  rw [List.take_append, List.take_of_length_le (Nat.le_succ_of_le h), Nat.succ_sub h, List.take_succ_cons]

theorem take_insert {k : Nat} (h : before.length ≤ k) :
    (before ++ after).take k = before ++ after.take (k - before.length) := by
  rw [List.take_append, List.take_of_length_le h]

theorem take_insert_of_lt {k : Nat} (h : k ≤ before.length) :
    (before ++ x :: after).take k = (before ++ after).take k := by
  rw [List.take_append_of_le_length h, List.take_append_of_le_length h]

theorem last_row : ((rows.take 500).map SecurityEvent.row)[499]? = rows[499]?.map SecurityEvent.row := by
  rw [List.getElem?_map, List.getElem?_take_of_lt (by decide)]

theorem first_rows : ((rows.take 500).map SecurityEvent.row).take 499 = (rows.take 499).map SecurityEvent.row := by
  rw [← List.map_take, List.take_take, min_eq_left (by decide)]

/-- The rows that are read with one event more are worth as much as the rows before, but for a
rounding, where the last of these can be given up. -/
theorem score_le_insert {n : Int} (hx : x.ts ≤ n) (hsorted : (before ++ x :: after).Pairwise Newer)
    (hspare : LastToSpare policy n (((before ++ after).take 500).map SecurityEvent.row)) :
    ScoringPolicy.KeptButRounded
      (policy.scoreEvents n (((before ++ after).take 500).map SecurityEvent.row)).score
      (policy.scoreEvents n (((before ++ x :: after).take 500).map SecurityEvent.row)).score
      (policy.weighBy nearest n (((before ++ x :: after).take 500).map SecurityEvent.row)).total := by
  have hmost : (((before ++ x :: after).take 500).map SecurityEvent.row).length ≤ 500 := by
    rw [List.length_map]
    exact List.length_take_le _ _
  by_cases hlen : 500 ≤ before.length
  · rw [take_insert_of_lt hlen]
    exact .inl (le_refl _)
  · have hlen : before.length ≤ 499 := by omega
    have hsub : ((before ++ after).take 499).Sublist ((before ++ x :: after).take 500) := by
      rw [take_insert hlen, take_succ_insert hlen]
      exact (List.sublist_cons_self _ _).append_left _
    have hle : ScoringPolicy.KeptButRounded _ (policy.scoreEvents n _).score _ :=
      ScoringPolicy.score_le_of_sublist (hsub.map SecurityEvent.row) hmost
    cases hlast : (before ++ after)[499]? with
    | none =>
      have hshort := List.getElem?_eq_none_iff.mp hlast
      rw [List.take_of_length_le hshort] at hle
      rwa [List.take_of_length_le (hshort.trans (by decide))]
    | some last =>
      have hafter : last ∈ after := by
        rw [List.getElem?_append_right hlen] at hlast
        exact List.mem_of_getElem? hlast
      have hnewer : Newer x last := (List.pairwise_cons.mp (List.pairwise_append.mp hsorted).2.1).1 last hafter
      have hts : last.ts ≤ n := by
        unfold Newer at hnewer
        omega
      have hsame := hspare last.row (by rw [last_row, hlast, Option.map_some]) hts
      rw [first_rows] at hsame
      rw [hsame] at hle
      exact hle

/-- Of 500 rows a newer one takes the last one's place. -/
theorem length_before_le (hsorted : (before ++ x :: after).Pairwise Newer) (hlast : (before ++ after)[499]? = some last)
    (hts : last.ts ≤ x.ts) (hid : last.id < x.id) : before.length ≤ 499 := by
  by_contra hlen
  rw [List.getElem?_append_left (not_le.mp hlen)] at hlast
  have hnewer : Newer last x :=
    (List.pairwise_append.mp hsorted).2.2 last (List.mem_of_getElem? hlast) x List.mem_cons_self
  unfold Newer at hnewer
  omega

end Rows

def refusedProbe (ip : Ip) (ts : Int) : SecurityEvent where
  ts := ts
  ip := ip
  eventType := .scannerPath
  handled := true

theorem points_refusedProbe (ts : Int) : policy.points nearest now (db.written (refusedProbe ip ts)).row = 0 := by
  have hrefused : (db.written (refusedProbe ip ts)).row.refused = true := rfl
  rw [ScoringPolicy.points, if_pos (.inr (.inr (.inr hrefused)))]

theorem evidence_take (w : World) : (evidence w ip now policy).take 499 =
    ((w.db.ordered ip (w.orNow now - policy.windowSeconds)).take 499).map SecurityEvent.row := first_rows

/-- The address is exempt, or the last of 500 events can be given up. -/
def Spared (w : World) (ip : Ip) (now : Int) (policy : ScoringPolicy) : Prop :=
  (w.verdict ip).excluded ∨ LastToSpare policy (w.orNow now) (evidence w ip now policy)

/-- A refused probe of this second is read in the place of the last row. -/
theorem spared_of_more_never_lowers (h : MoreNeverLowers w ip now policy) : Spared w ip now policy := by
  by_cases hexcluded : (w.verdict ip).excluded
  · exact .inl hexcluded
  refine .inr fun last hlast hts => ?_
  rw [evidence_eq, last_row] at hlast
  obtain ⟨last, hrow, rfl⟩ := Option.map_eq_some_iff.mp hlast
  have hprobe := h (refusedProbe ip (w.orNow now)) rfl (le_refl _)
  rw [score_reputation, score_record, if_neg hexcluded, if_neg hexcluded] at hprobe
  have hmem := List.mem_of_getElem? hrow
  obtain ⟨hevents, hkept⟩ := List.mem_filter.mp ((List.mem_insertionSort _).mp hmem)
  have hsince : w.orNow now - policy.windowSeconds ≤ (refusedProbe ip (w.orNow now)).ts :=
    (of_decide_eq_true hkept).2.trans hts
  have hip : (refusedProbe ip (w.orNow now)).ip = ip := rfl
  obtain ⟨before, after, hold, hnew⟩ := w.db.ordered_record hip hsince
  have hsorted := (w.db.recordEvents [refusedProbe ip (w.orNow now)]).ordered_pairwise ip
    (w.orNow now - policy.windowSeconds)
  rw [hold] at hrow
  have hts : last.ts ≤ (w.db.written (refusedProbe ip (w.orNow now))).ts := hts
  have hlen := length_before_le (hnew ▸ hsorted) hrow hts (lt_nextId (List.mem_map_of_mem hevents))
  rw [hnew, take_succ_insert hlen, List.map_append, List.map_cons,
    ScoringPolicy.score_skip (points_refusedProbe _), ← List.map_append, ← take_insert hlen, ← hold,
    ← evidence_take] at hprobe
  refine le_antisymm ?_ hprobe
  have happend : (policy.scoreEvents (w.orNow now) ((evidence w ip now policy).take 499)).score ≤ _ :=
    ScoringPolicy.score_le_append ((evidence w ip now policy).drop 499)
  rwa [List.take_append_drop] at happend

/-- One more event never lowers the score of an address unless the last of 500 events counts, but for
the rounding of the sum. -/
theorem more_lowers_by_rounding_only (w : World) (ip : Ip) (now : Int) (policy : ScoringPolicy) :
    (MoreNeverLowers w ip now policy → Spared w ip now policy) ∧
    (Spared w ip now policy → ∀ e : SecurityEvent, e.ip = ip → e.ts ≤ w.orNow now →
      ScoringPolicy.KeptButRounded (reputation w ip now policy).score (reputation (w.record e) ip now policy).score
        (policy.weighBy nearest (w.orNow now) (evidence (w.record e) ip now policy)).total) := by
  refine ⟨spared_of_more_never_lowers, fun h e hip hts => ?_⟩
  rw [score_reputation, score_record]
  by_cases hexcluded : (w.verdict ip).excluded
  · rw [if_pos hexcluded, if_pos hexcluded]
    exact .inl (le_refl 0)
  have hspare := h.resolve_left hexcluded
  have hrecord : evidence (w.record e) ip now policy =
      (((w.db.recordEvents [e]).ordered ip (w.orNow now - policy.windowSeconds)).take 500).map SecurityEvent.row := rfl
  rw [if_neg hexcluded, if_neg hexcluded, hrecord]
  rw [evidence_eq] at hspare ⊢
  by_cases hsince : w.orNow now - policy.windowSeconds ≤ e.ts
  · obtain ⟨before, after, hold, hnew⟩ := w.db.ordered_record hip hsince
    have hsorted := (w.db.recordEvents [e]).ordered_pairwise ip (w.orNow now - policy.windowSeconds)
    rw [hold] at hspare ⊢
    rw [hnew] at hsorted ⊢
    exact score_le_insert hts hsorted hspare
  · rw [Database.ordered_record_of_old (not_le.mp hsince)]
    exact .inl (le_refl _)

/-- 499 probes HAProxy refused and, the oldest of all, a request for a secret. -/
def drowned : World where
  clock := 5000000
  db := { events :=
    ((List.range 499).map fun (n : Nat) => { refusedProbe "10.0.0.1" (4500 - (n : Int)) with id := n + 1 }) ++
      [{ id := 500, ts := 4000, ip := "10.0.0.1", eventType := .scannerDecisive, category := "secrets" }] }
  mem := { mode := .enforce, banDurations := defaultBanDurations }

/-- The default policy, with the one weight that matters here. -/
def decisiveOnly : ScoringPolicy where
  weights := .ofPairs [("SCANNER_PATH_DECISIVE", 60)]
  categoryCap := 25
  windowSeconds := 86400
  decaySeconds := 21600

/-- Six findings that come to 75.5 points. -/
def tipped : World where
  clock := 5000000
  db := { events := [
    { id := 1, ts := 79780, ip := "10.0.0.1", eventType := .scannerDecisive, category := "b" },
    { id := 2, ts := 83380, ip := "10.0.0.1", eventType := .queryInjection, category := "b" },
    { id := 3, ts := 84100, ip := "10.0.0.1", eventType := .scannerPath, category := "b" },
    { id := 4, ts := 86620, ip := "10.0.0.1", eventType := .scannerDecisive, category := "a" },
    { id := 5, ts := 91540, ip := "10.0.0.1", eventType := .scannerMulti, category := "b" },
    { id := 6, ts := 98320, ip := "10.0.0.1", eventType := .scannerPath, category := "b" }] }
  mem := { mode := .enforce, banDurations := defaultBanDurations }

/-- One more refused probe and the request for the secret is no longer looked at; one more finding
and the points are added up in another order. -/
theorem one_more_lowers : ¬ MoreNeverLowers drowned "10.0.0.1" 5000 decisiveOnly ∧
    ¬ MoreNeverLowers tipped "10.0.0.1" 100000 .byDefault := by
  refine ⟨fun h => ?_, fun h => ?_⟩
  · exact absurd (h (refusedProbe "10.0.0.1" 5000) rfl (by decide)) (by decide +kernel)
  · have hone := h { ts := 100000, ip := "10.0.0.1", eventType := .lowAndSlow, category := "b" } rfl (by decide)
    exact absurd hone (by decide +kernel)

end EasyHaProxy.Guardd
