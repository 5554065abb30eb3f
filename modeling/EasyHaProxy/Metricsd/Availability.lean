import EasyHaProxy.Metricsd.Database

/-! What the database tells of servers and backends: the timeline over a window, the health at present and
the states a restart starts from. -/
namespace EasyHaProxy.Metricsd

/-- A flapping server is cut off after this many transitions. -/
def maxTimelineSpans : Nat := 200

structure Span where
  state : String
  start : Int
  stop : Int
  deriving DecidableEq

/-- End the bar that began at `start`, in `state`, at `stop`. -/
def closeSpan (spans : List Span) (start stop : Int) (state : String) : List Span :=
  if stop ≤ start then spans
  else match spans.getLast? with
    | some last =>
      if last.state = state then spans.dropLast ++ [{ last with stop }] else spans ++ [⟨state, start, stop⟩]
    | none => spans ++ [⟨state, start, stop⟩]

structure TimelineObject where
  key : ObjectKey
  currentState : String
  transitions : Nat
  downtimeSeconds : Int
  /-- Before it is rounded to five decimals. -/
  availability : Rat
  spans : List Span
  deriving DecidableEq

structure Timeline where
  objects : List TimelineObject
  truncated : Bool
  deriving DecidableEq

/-- State history exists for backends and servers, never for frontends. -/
def stateScope (site : String) (key : ObjectKey) : Bool :=
  (key.kind = .backend || key.kind = .server) && (site = "" || key.proxy = site)

/-- `ORDER BY o.proxy, o.kind DESC, o.server`, where a server sorts before a backend. -/
def timelineOrder (a b : ObjectRow) : Bool :=
  if a.key.proxy ≠ b.key.proxy then a.key.proxy < b.key.proxy
  else if a.key.kind ≠ b.key.kind then a.key.kind = .server
  else a.key.server ≤ b.key.server

/-- The part of the loop that draws the bars: what was drawn, up to where, and the state
from there on. -/
def drawChange (drawn : List Span × Int × String) (change : Nat × String) : List Span × Int × String :=
  (closeSpan drawn.1 drawn.2.1 change.1 drawn.2.2, max drawn.2.1 change.1, change.2)

/-- One object over a window, from its state at the start and its changes inside. The
state of an event is never empty, so `state or changes[0][1]` takes the state there is. -/
def timelineObject (since till : Int) (key : ObjectKey) (state : Option String)
    (changes : List (Nat × String)) : Option TimelineObject :=
  if state = none ∧ changes = [] then none
  else
    let first := state.getD ((changes.head?.map Prod.snd).getD "")
    let drawn := (changes.take maxTimelineSpans).foldl drawChange ([], since, first)
    let spans := closeSpan drawn.1 drawn.2.1 till drawn.2.2
    let downtime := ((spans.filter fun s => s.state ≠ "UP").map fun s => s.stop - s.start).sum
    let window := max 1 (till - since)
    some
      { key
        currentState := drawn.2.2
        transitions := changes.length
        downtimeSeconds := downtime
        availability := if window < downtime then 0 else (window - downtime : Int) / (window : Rat)
        spans }

structure HealthEntry where
  proxy : String
  server : String
  state : String
  since : Nat
  deriving DecidableEq

structure BackendHealth where
  backends : List HealthEntry
  servers : List HealthEntry
  backendsUp : Nat
  backendsTotal : Nat
  serversUp : Nat
  serversTotal : Nat
  deriving DecidableEq

def BackendHealth.of (backends servers : List HealthEntry) : BackendHealth where
  backends
  servers
  backendsUp := (backends.filter fun entry => entry.state = "UP").length
  backendsTotal := backends.length
  serversUp := (servers.filter fun entry => entry.state = "UP").length
  serversTotal := servers.length

/-- `ORDER BY o.proxy, o.server`. -/
def healthOrder (a b : StateEvent × ObjectRow) : Bool :=
  if a.2.key.proxy ≠ b.2.key.proxy then a.2.key.proxy < b.2.key.proxy
  else a.2.key.server ≤ b.2.key.server

def healthEntry (row : StateEvent × ObjectRow) : HealthEntry :=
  ⟨row.2.key.proxy, row.2.key.server, row.1.state, row.1.ts⟩

namespace MetricsDatabase

variable {db : MetricsDatabase} {since till : Int} {site : String} {r : ObjectRow}

def findObject? (db : MetricsDatabase) (id : Nat) : Option ObjectRow :=
  db.objects.rows.find? (fun r => r.id = id)

/-- The objects a timeline is asked about, in the order it shows them. -/
def timelineRows (db : MetricsDatabase) (site : String) : List ObjectRow :=
  (db.objects.rows.filter fun r => stateScope site r.key).mergeSort timelineOrder

/-- The state of each object at the start of the window: the last event before it. -/
def initialStates (db : MetricsDatabase) (site : String) (since : Int) : Dict Nat String :=
  let identifiers := (db.timelineRows site).map ObjectRow.id
  Dict.ofPairs ((db.stateEvents.newest fun e => (e.ts : Int) ≤ since && e.objectId ∈ identifiers).map
    fun e => (e.objectId, e.state))

/-- The events inside the window of one object, in the order of their ids. -/
def changesOf (db : MetricsDatabase) (since till : Int) (objectId : Nat) : List (Nat × String) :=
  (db.stateEvents.rows.filter fun e => e.objectId = objectId && since < (e.ts : Int) && (e.ts : Int) ≤ till).map
    fun e => (e.ts, e.state)

def stateTimeline (db : MetricsDatabase) (site : String) (since till : Int) : Timeline where
  objects := (db.timelineRows site).filterMap fun r =>
    timelineObject since till r.key ((db.initialStates site since).get? r.id) (db.changesOf since till r.id)
  truncated := (db.timelineRows site).any fun r =>
    maxTimelineSpans < (db.changesOf since till r.id).length

/-- Latest recorded state per backend and per server. -/
def backendHealth (db : MetricsDatabase) : BackendHealth :=
  let joined := (db.stateEvents.newest fun _ => true).filterMap fun e =>
    (db.findObject? e.objectId).map fun r => (e, r)
  let rows := joined.mergeSort healthOrder
  BackendHealth.of ((rows.filter fun row => row.2.key.kind = .backend).map healthEntry)
    ((rows.filter fun row => row.2.key.kind ≠ .backend).map healthEntry)

end MetricsDatabase

/-! ## The newest event of an object -/

namespace StateEvents

variable {t : StateEvents} {p q : StateEvent → Bool} {e k : StateEvent} {o : Nat}

def latest? (t : StateEvents) (p : StateEvent → Bool) (o : Nat) : Option StateEvent :=
  (t.rows.filter fun e => p e && e.objectId = o).getLast?

theorem getLast?_eq_some {rows : List StateEvent} (h : rows.Pairwise (fun a b => a.id < b.id)) :
    rows.getLast? = some e ↔ e ∈ rows ∧ ∀ x ∈ rows, x.id ≤ e.id := by
  constructor
  · intro he
    obtain ⟨older, rfl⟩ := List.getLast?_eq_some_iff.mp he
    refine ⟨by simp, fun x hx => ?_⟩
    rcases List.mem_append.mp hx with hx | hx
    · exact Nat.le_of_lt ((List.pairwise_append.mp h).2.2 x hx e (by simp))
    · rw [List.mem_singleton.mp hx]
  · rintro ⟨hmem, hmax⟩
    obtain ⟨z, hz⟩ := Option.ne_none_iff_exists'.mp
      (mt List.getLast?_eq_none_iff.mp (List.ne_nil_of_mem hmem))
    obtain ⟨older, rfl⟩ := List.getLast?_eq_some_iff.mp hz
    rcases List.mem_append.mp hmem with he | he
    · have h1 := (List.pairwise_append.mp h).2.2 e he z (by simp)
      have h2 := hmax z (by simp)
      omega
    · rw [List.mem_singleton.mp he, hz]

theorem latest?_eq_some : t.latest? p o = some e ↔
    (e ∈ t.rows ∧ p e = true ∧ e.objectId = o) ∧
      ∀ x ∈ t.rows, p x = true → x.objectId = o → x.id ≤ e.id := by
  rw [latest?, getLast?_eq_some (t.ordered.filter _)]
  simp only [List.mem_filter, Bool.and_eq_true, decide_eq_true_eq, and_imp]

theorem latest?_eq_none : t.latest? p o = none ↔ ∀ x ∈ t.rows, p x = true → x.objectId ≠ o := by
  rw [latest?, List.getLast?_eq_none_iff, List.filter_eq_nil_iff]
  simp only [Bool.and_eq_true, decide_eq_true_eq, not_and]

/-- An event of an object is no newer than the newest one. -/
theorem exists_latest? (he : e ∈ t.rows) (hp : p e = true) :
    ∃ k, t.latest? p e.objectId = some k ∧ e.id ≤ k.id := by
  cases hk : t.latest? p e.objectId with
  | none => exact absurd rfl (latest?_eq_none.mp hk e he hp)
  | some k => exact ⟨k, rfl, (latest?_eq_some.mp hk).2 e he hp rfl⟩

theorem mem_newest : e ∈ t.newest p ↔ t.latest? p e.objectId = some e := by
  rw [latest?_eq_some, newest, List.mem_filter]
  simp only [Bool.and_eq_true, List.all_eq_true, decide_eq_true_eq, and_true, and_assoc]

theorem newest_nodup : ((t.newest p).map StateEvent.objectId).Nodup := by
  refine List.Nodup.map_on (fun a ha b hb hab => ?_) ((t.ordered.filter _).imp fun h => ?_)
  · rw [mem_newest] at ha hb
    rw [hab, hb] at ha
    exact (Option.some.inj ha).symm
  · exact fun he => Nat.lt_irrefl _ (he ▸ h)

theorem newest_congr (h : ∀ e ∈ t.rows, e ∈ t.newest p ↔ e ∈ t.newest q) : t.newest p = t.newest q := by
  unfold newest at h ⊢
  apply List.filter_congr
  intro e he
  rw [Bool.eq_iff_iff]
  simpa only [List.mem_filter, he, true_and] using h e he

theorem get?_states : (Dict.ofPairs ((t.newest p).map fun e => (e.objectId, e.state))).get? o =
    (t.latest? p o).map StateEvent.state := by
  have hn : (((t.newest p).map fun e => (e.objectId, e.state)).map Prod.fst).Nodup := by
    simpa [Function.comp_def] using newest_nodup (t := t) (p := p)
  cases hl : t.latest? p o with
  | none =>
    refine Table.get?_writeAll_of_not_mem (d := .empty) (fun hmem => ?_)
    rw [List.map_map] at hmem
    obtain ⟨e, he, rfl⟩ := List.mem_map.mp hmem
    rw [mem_newest] at he
    simp [he] at hl
  | some e =>
    refine Table.get?_writeAll_of_mem (d := .empty) hn (List.mem_map.mpr ⟨e, ?_, ?_⟩)
    · rw [mem_newest, (latest?_eq_some.mp hl).1.2.2, hl]
    · rw [(latest?_eq_some.mp hl).1.2.2]

/-- Looking for the newest among the events kept. -/
theorem newest_filter : (t.filter q).newest p = t.newest (fun e => q e && p e) := by
  unfold newest filter
  rw [List.filter_filter]
  apply List.filter_congr
  intro e _
  rw [Bool.eq_iff_iff]
  simp only [Bool.and_eq_true, List.all_eq_true, decide_eq_true_eq, List.mem_filter, and_imp]
  tauto

theorem latest?_filter : (t.filter q).latest? p o = t.latest? (fun e => q e && p e) o := by
  unfold latest? filter
  rw [List.filter_filter]
  congr 1
  apply List.filter_congr
  intro e _
  rw [Bool.eq_iff_iff]
  simp only [Bool.and_eq_true]
  tauto

end StateEvents

/-! ## What retention leaves of the present -/

namespace MetricsDatabase

variable {db : MetricsDatabase} {cutoffs : Cutoffs} {since till : Int} {site : String} {o : Nat}

def keptFrom (cutoff : Int) (e : StateEvent) : Bool := !((e.ts : Int) < cutoff)

/-- At or before a second. -/
def upTo (second : Int) (e : StateEvent) : Bool := (e.ts : Int) ≤ second

/-- Only the states of backends and servers are tracked, and a foreign key keeps the row
of the object an event is about. -/
def Tracked (db : MetricsDatabase) : Prop :=
  ∀ e ∈ db.stateEvents.rows, ∃ r ∈ db.objects.rows, r.id = e.objectId ∧ stateScope "" r.key = true

/-- What the readers tell of the present, and of every window that starts at the cutoff or
later, is the same in two databases. -/
structure SamePresent (before after : MetricsDatabase) (cutoff : Int) : Prop where
  timeline : ∀ site since till, cutoff ≤ since →
    after.stateTimeline site since till = before.stateTimeline site since till
  health : after.backendHealth = before.backendHealth
  lastStates : after.loadLastStates = before.loadLastStates

/-- No event older than the cutoff is still needed: each object's newest event is kept, and
where the event in force at a second from the cutoff on is older, one that is kept says the
same state. -/
structure Settled (db : MetricsDatabase) (cutoff : Int) : Prop where
  newest : ∀ e ∈ db.stateEvents.newest (fun _ => true), cutoff ≤ e.ts
  inForce : ∀ o e since, cutoff ≤ since → db.stateEvents.latest? (upTo since) o = some e →
    (e.ts : Int) < cutoff → ∃ k,
      db.stateEvents.latest? (fun k => keptFrom cutoff k && upTo since k) o = some k ∧ k.state = e.state

theorem keptFrom_iff {cutoff : Int} {e : StateEvent} : keptFrom cutoff e = true ↔ cutoff ≤ e.ts := by
  simp [keptFrom]

theorem applyRetention_stateEvents : (db.applyRetention cutoffs).stateEvents =
    db.stateEvents.filter (keptFrom cutoffs.hour) := rfl

theorem applyRetention_objects : (db.applyRetention cutoffs).objects = db.objects := rfl

theorem timelineRows_applyRetention :
    (db.applyRetention cutoffs).timelineRows site = db.timelineRows site := rfl

/-- An object that is shown has the state of its last event before the window. -/
theorem initialStates_get? (h : o ∈ (db.timelineRows site).map ObjectRow.id) :
    (db.initialStates site since).get? o =
      (db.stateEvents.latest? (upTo since) o).map StateEvent.state := by
  have hlatest : db.stateEvents.latest? (fun e => (e.ts : Int) ≤ since &&
      e.objectId ∈ (db.timelineRows site).map ObjectRow.id) o = db.stateEvents.latest? (upTo since) o := by
    unfold StateEvents.latest? upTo
    congr 1
    apply List.filter_congr
    intro e _
    by_cases he : e.objectId = o
    · simp only [he, h, decide_true, Bool.and_true]
    · simp [he]
  rw [initialStates, StateEvents.get?_states, hlatest]

/-- Every change inside a window that starts at the cutoff or later is kept. -/
theorem changesOf_applyRetention (h : cutoffs.hour ≤ since) :
    (db.applyRetention cutoffs).changesOf since till o = db.changesOf since till o := by
  unfold changesOf
  rw [applyRetention_stateEvents, StateEvents.filter, List.filter_filter]
  congr 1
  apply List.filter_congr
  intro e _
  rw [Bool.eq_iff_iff]
  simp only [Bool.and_eq_true, decide_eq_true_eq, keptFrom_iff]
  constructor
  · exact fun hw => hw.1
  · intro hw
    exact ⟨hw, by omega⟩

theorem Settled.newest_kept (h : db.Settled cutoffs.hour) :
    (db.applyRetention cutoffs).stateEvents.newest (fun _ => true) =
      db.stateEvents.newest (fun _ => true) := by
  rw [applyRetention_stateEvents, StateEvents.newest_filter]
  apply StateEvents.newest_congr
  intro e he
  constructor
  · intro hn
    -- the newest of the object is kept, so it is no newer than the newest kept
    obtain ⟨k, hk, hle⟩ := StateEvents.exists_latest? (p := fun _ => true) he rfl
    have hkept := h.newest k (StateEvents.mem_newest.mpr ((StateEvents.latest?_eq_some.mp hk).1.2.2 ▸ hk))
    rw [StateEvents.mem_newest] at hn
    have hmax := (StateEvents.latest?_eq_some.mp hn).2 k (StateEvents.latest?_eq_some.mp hk).1.1
      (by simpa using keptFrom_iff.mpr hkept) (StateEvents.latest?_eq_some.mp hk).1.2.2
    rw [StateEvents.mem_newest, StateEvents.latest?_eq_some]
    exact ⟨⟨he, rfl, rfl⟩, fun x hx _ ho => ((StateEvents.latest?_eq_some.mp hk).2 x hx rfl ho).trans hmax⟩
  · intro hn
    have hkept := h.newest e hn
    rw [StateEvents.mem_newest, StateEvents.latest?_eq_some] at hn ⊢
    exact ⟨⟨he, by simpa using keptFrom_iff.mpr hkept, rfl⟩, fun x hx _ ho => hn.2 x hx rfl ho⟩

theorem Settled.latest?_state (h : db.Settled cutoffs.hour) (hs : cutoffs.hour ≤ since) :
    ((db.applyRetention cutoffs).stateEvents.latest? (upTo since) o).map StateEvent.state =
      (db.stateEvents.latest? (upTo since) o).map StateEvent.state := by
  rw [applyRetention_stateEvents, StateEvents.latest?_filter]
  cases he : db.stateEvents.latest? (upTo since) o with
  | none =>
    rw [StateEvents.latest?_eq_none] at he
    rw [StateEvents.latest?_eq_none.mpr fun x hx hp => he x hx (Bool.and_eq_true_iff.mp hp).2]
  | some e =>
    by_cases hk : (e.ts : Int) < cutoffs.hour
    · obtain ⟨k, hl, hstate⟩ := h.inForce o e since hs he hk
      rw [hl, Option.map_some, Option.map_some, hstate]
    · obtain ⟨⟨hmem, hp, ho⟩, hmax⟩ := StateEvents.latest?_eq_some.mp he
      have hkept : keptFrom cutoffs.hour e = true := keptFrom_iff.mpr (by omega)
      rw [StateEvents.latest?_eq_some.mpr ⟨⟨hmem, by simp [hkept, hp], ho⟩, fun x hx hxp hxo =>
        hmax x hx (Bool.and_eq_true_iff.mp hxp).2 hxo⟩]

theorem Settled.stateTimeline_eq (h : db.Settled cutoffs.hour) (hs : cutoffs.hour ≤ since) :
    (db.applyRetention cutoffs).stateTimeline site since till = db.stateTimeline site since till := by
  have hinitial : ∀ r ∈ db.timelineRows site,
      ((db.applyRetention cutoffs).initialStates site since).get? r.id =
        (db.initialStates site since).get? r.id := by
    intro r hr
    have hid : r.id ∈ (db.timelineRows site).map ObjectRow.id := List.mem_map_of_mem hr
    rw [initialStates_get? hid, initialStates_get? (by rwa [timelineRows_applyRetention]),
      h.latest?_state hs]
  unfold stateTimeline
  simp only [timelineRows_applyRetention, changesOf_applyRetention hs, Timeline.mk.injEq, and_true]
  apply List.filterMap_congr
  intro r hr
  rw [hinitial r hr]

theorem Settled.samePresent (h : db.Settled cutoffs.hour) :
    SamePresent db (db.applyRetention cutoffs) cutoffs.hour where
  timeline _ _ _ hs := h.stateTimeline_eq hs
  health := by
    unfold backendHealth findObject?
    rw [h.newest_kept, applyRetention_objects]
  lastStates := by
    unfold loadLastStates
    rw [h.newest_kept]

/-! ## What the readers show of an event -/

/-- An object with no change inside the window is shown in the state it starts in. -/
theorem timelineObject_no_changes {key : ObjectKey} {state : Option String} {x : TimelineObject} :
    timelineObject since till key state [] = some x → x.key = key ∧ state = some x.currentState := by
  unfold timelineObject
  cases state with
  | none => simp
  | some s =>
    simp only [reduceCtorEq, false_and, if_false, Option.some.injEq]
    rintro rfl
    exact ⟨rfl, rfl⟩

theorem mem_timelineRows {r : ObjectRow} :
    r ∈ db.timelineRows site ↔ r ∈ db.objects.rows ∧ stateScope site r.key = true := by
  rw [timelineRows, List.mem_mergeSort, List.mem_filter]

theorem changesOf_empty_window : db.changesOf since since o = [] := by
  unfold changesOf
  rw [List.map_eq_nil_iff, List.filter_eq_nil_iff]
  intro e _
  simp only [Bool.and_eq_true, decide_eq_true_eq]
  omega

theorem eq_of_key {r r' : ObjectRow} (hr : r ∈ db.objects.rows) (hr' : r' ∈ db.objects.rows)
    (h : r.key = r'.key) : r = r' :=
  List.inj_on_of_nodup_map db.objects.keys hr hr' h

/-- In a timeline of no length an object is shown exactly in the state in force. -/
theorem mem_empty_timeline {r : ObjectRow} (hr : r ∈ db.timelineRows site) {s : String} :
    (∃ x ∈ (db.stateTimeline site since since).objects, x.key = r.key ∧ x.currentState = s) ↔
      (db.stateEvents.latest? (upTo since) r.id).map StateEvent.state = some s := by
  rw [← initialStates_get? (List.mem_map_of_mem hr)]
  simp only [stateTimeline, changesOf_empty_window, List.mem_filterMap]
  constructor
  · rintro ⟨x, ⟨r', hr', hx⟩, hkey, rfl⟩
    obtain ⟨hk, hstate⟩ := timelineObject_no_changes hx
    rw [← eq_of_key (mem_timelineRows.mp hr').1 (mem_timelineRows.mp hr).1 (hk.symm.trans hkey)]
    exact hstate
  · intro hs
    cases hx : timelineObject since since r.key (some s) [] with
    | none => simp [timelineObject] at hx
    | some x =>
      obtain ⟨hk, hstate⟩ := timelineObject_no_changes hx
      exact ⟨x, ⟨r, hr, hs ▸ hx⟩, hk, (Option.some.inj hstate).symm⟩

/-- Both lists of the health report. -/
theorem mem_backendHealth {x : HealthEntry} :
    x ∈ db.backendHealth.backends ++ db.backendHealth.servers ↔
      ∃ e ∈ db.stateEvents.newest (fun _ => true), ∃ r, db.findObject? e.objectId = some r ∧
        healthEntry (e, r) = x := by
  simp only [backendHealth, BackendHealth.of, List.mem_append, List.mem_map, List.mem_filter,
    List.mem_mergeSort, List.mem_filterMap, Option.map_eq_some_iff, decide_eq_true_eq, ne_eq]
  constructor
  · rintro (⟨_, ⟨⟨e, he, r, hr, rfl⟩, _⟩, rfl⟩ | ⟨_, ⟨⟨e, he, r, hr, rfl⟩, _⟩, rfl⟩)
    · exact ⟨e, he, r, hr, rfl⟩
    · exact ⟨e, he, r, hr, rfl⟩
  · rintro ⟨e, he, r, hr, rfl⟩
    by_cases hk : r.key.kind = .backend
    · exact Or.inl ⟨_, ⟨⟨e, he, r, hr, rfl⟩, hk⟩, rfl⟩
    · exact Or.inr ⟨_, ⟨⟨e, he, r, hr, rfl⟩, hk⟩, rfl⟩

theorem SamePresent.newest (h : SamePresent db (db.applyRetention cutoffs) cutoffs.hour)
    (ht : db.Tracked) : ∀ e ∈ db.stateEvents.newest (fun _ => true), cutoffs.hour ≤ e.ts := by
  intro e he
  obtain ⟨r, hr⟩ : ∃ r, db.findObject? e.objectId = some r := by
    obtain ⟨r, hr, hid, _⟩ := ht e (List.mem_of_mem_filter he)
    rw [← Option.isSome_iff_exists, findObject?, List.find?_isSome]
    exact ⟨r, hr, by simpa using hid⟩
  -- the report shows when the state began, and after the pass only seconds that are kept
  have hshown := mem_backendHealth.mpr ⟨e, he, r, hr, rfl⟩
  rw [← h.health] at hshown
  obtain ⟨e', he', r', -, hx⟩ := mem_backendHealth.mp hshown
  have hts : e'.ts = e.ts := congrArg HealthEntry.since hx
  have hkept : keptFrom cutoffs.hour e' = true := by
    rw [applyRetention_stateEvents] at he'
    exact (List.mem_filter.mp (List.mem_of_mem_filter he')).2
  rw [← hts]
  exact keptFrom_iff.mp hkept

theorem SamePresent.inForce (h : SamePresent db (db.applyRetention cutoffs) cutoffs.hour)
    (ht : db.Tracked) {e : StateEvent} (hs : cutoffs.hour ≤ since)
    (he : db.stateEvents.latest? (upTo since) o = some e) :
    ∃ k, db.stateEvents.latest? (fun k => keptFrom cutoffs.hour k && upTo since k) o = some k ∧
      k.state = e.state := by
  obtain ⟨⟨hmem, -, ho⟩, -⟩ := StateEvents.latest?_eq_some.mp he
  obtain ⟨r, hr, hid, hscope⟩ := ht e hmem
  have hrow : r ∈ db.timelineRows "" := mem_timelineRows.mpr ⟨hr, hscope⟩
  obtain rfl : r.id = o := hid.trans ho
  have hshown := (mem_empty_timeline hrow).mpr (by rw [he, Option.map_some])
  rw [← h.timeline "" since since hs] at hshown
  have hrow' : r ∈ (db.applyRetention cutoffs).timelineRows "" := hrow
  have hlatest := (mem_empty_timeline hrow').mp hshown
  rw [applyRetention_stateEvents, StateEvents.latest?_filter] at hlatest
  exact Option.map_eq_some_iff.mp hlatest

theorem SamePresent.settled (h : SamePresent db (db.applyRetention cutoffs) cutoffs.hour)
    (ht : db.Tracked) : db.Settled cutoffs.hour where
  newest := h.newest ht
  inForce _ _ _ hs he _ := h.inForce ht hs he

/-- A retention pass leaves what is known about the present exactly when no event older
than its cutoff is still needed. -/
theorem retention_keeps_present (db : MetricsDatabase) (cutoffs : Cutoffs) (ht : db.Tracked) :
    SamePresent db (db.applyRetention cutoffs) cutoffs.hour ↔ db.Settled cutoffs.hour :=
  ⟨fun h => h.settled ht, Settled.samePresent⟩

/-- Where the clock never goes back, an object with an event older than the cutoff has to
have one at exactly the cutoff. -/
theorem settled_iff_of_clock_order {cutoff : Int}
    (h : db.stateEvents.rows.Pairwise (fun a b => a.ts ≤ b.ts)) :
    db.Settled cutoff ↔ ∀ e ∈ db.stateEvents.rows, (e.ts : Int) < cutoff →
      ∃ k ∈ db.stateEvents.rows, k.objectId = e.objectId ∧ (k.ts : Int) = cutoff := by
  have hclock : ∀ a ∈ db.stateEvents.rows, ∀ b ∈ db.stateEvents.rows, a.id ≤ b.id → a.ts ≤ b.ts := by
    intro a ha b hb
    refine List.Pairwise.forall_of_forall_of_flip (R := fun a b => a.id ≤ b.id → a.ts ≤ b.ts)
      (fun _ _ _ => le_rfl) ?_ ?_ ha hb
    · exact List.Pairwise.imp (by intro a b hab _; exact hab) h
    · exact List.Pairwise.imp (by intro a b hab hba; omega) db.stateEvents.ordered
  constructor
  · intro hs e he hold
    obtain ⟨m, hm, -⟩ := StateEvents.exists_latest? (p := upTo cutoff) he (by simp [upTo]; omega)
    obtain ⟨⟨hmem, hup, ho⟩, -⟩ := StateEvents.latest?_eq_some.mp hm
    have hup : (m.ts : Int) ≤ cutoff := by simpa [upTo] using hup
    by_cases hmold : (m.ts : Int) < cutoff
    · obtain ⟨k, hk, -⟩ := hs.inForce _ m cutoff le_rfl hm hmold
      obtain ⟨⟨hkmem, hkp, hko⟩, -⟩ := StateEvents.latest?_eq_some.mp hk
      have hkp := Bool.and_eq_true_iff.mp hkp
      have hkept := keptFrom_iff.mp hkp.1
      have hkup : (k.ts : Int) ≤ cutoff := by simpa [upTo] using hkp.2
      exact ⟨k, hkmem, hko, by omega⟩
    · exact ⟨m, hmem, ho, by omega⟩
  · intro hat
    refine ⟨fun e he => ?_, fun o e since hs he hold => ?_⟩
    · by_contra hold
      rw [StateEvents.mem_newest, StateEvents.latest?_eq_some] at he
      obtain ⟨k, hk, hko, hkts⟩ := hat e he.1.1 (by omega)
      have := hclock k hk e he.1.1 (he.2 k hk rfl hko)
      omega
    · -- the event at the cutoff is newer and no later than the second asked about
      obtain ⟨⟨hmem, -, ho⟩, hmax⟩ := StateEvents.latest?_eq_some.mp he
      obtain ⟨k, hk, hko, hkts⟩ := hat e hmem hold
      have := hclock k hk e hmem (hmax k hk (by simp [upTo]; omega) (hko.trans ho))
      omega

/-- A server that has been up since second 1000. -/
def quietServer : MetricsDatabase :=
  { empty with
    objects := ⟨[⟨1, ⟨.server, "be_app", "srv1"⟩, 1000, 1000⟩], by decide, by decide⟩
    stateEvents := ⟨[⟨1, 1000, 1, "", "UP", by decide⟩], by decide⟩ }

theorem quietServer_tracked : quietServer.Tracked := by
  intro e he
  rw [List.mem_singleton.mp he]
  exact ⟨_, List.mem_singleton_self _, rfl, rfl⟩

/-- A server that was restarted: what came before the second it is up since is not needed. -/
def restartedServer : MetricsDatabase :=
  { empty with
    objects := ⟨[⟨1, ⟨.server, "be_app", "srv1"⟩, 500, 1000⟩], by decide, by decide⟩
    stateEvents := ⟨[⟨1, 500, 1, "", "UP", by decide⟩, ⟨2, 700, 1, "UP", "DOWN", by decide⟩,
      ⟨3, 900, 1, "DOWN", "UP", by decide⟩], by decide⟩ }

theorem retention_keeps_present_restarted :
    (restartedServer.applyRetention ⟨900, 900, 900⟩).stateEvents.rows.map (·.id) = [3] ∧
      SamePresent restartedServer (restartedServer.applyRetention ⟨900, 900, 900⟩) 900 := by
  have htracked : restartedServer.Tracked := by
    intro e he
    exact ⟨_, List.mem_singleton_self _, by
      rcases List.mem_cons.mp he with rfl | he
      · exact ⟨rfl, rfl⟩
      rcases List.mem_cons.mp he with rfl | he
      · exact ⟨rfl, rfl⟩
      rw [List.mem_singleton.mp he]
      exact ⟨rfl, rfl⟩⟩
  have hclock : restartedServer.stateEvents.rows.Pairwise (fun a b => a.ts ≤ b.ts) := by decide
  refine ⟨by decide +kernel, (retention_keeps_present restartedServer ⟨900, 900, 900⟩ htracked).mpr ?_⟩
  exact (settled_iff_of_clock_order hclock).mpr (by decide +kernel)

/-- A second past its only event the pass forgets that the server is up. -/
theorem retention_forgets_present : ¬ ∀ (db : MetricsDatabase) (cutoffs : Cutoffs), db.Tracked →
    SamePresent db (db.applyRetention cutoffs) cutoffs.hour := by
  intro h
  have hlast := (h quietServer ⟨1001, 1001, 1001⟩ quietServer_tracked).lastStates
  exact absurd (congrArg (fun d => d.get? 1) hlast) (by decide)

end MetricsDatabase

end EasyHaProxy.Metricsd
