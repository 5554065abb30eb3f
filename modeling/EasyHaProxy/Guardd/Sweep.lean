import EasyHaProxy.Lib.Machine
import EasyHaProxy.Guardd.Engine
import EasyHaProxy.Guardd.QueueRuns

/-! `_enforcement_rows` as a generator: which addresses it gives out for scoring, and where it leaves the
cursor. -/
namespace EasyHaProxy.Guardd.EnforcementSweep

/-! ## Pages of `ip_state` -/

abbrev Place := Int × Ip

/-- `a < b` as SQLite compares rows. -/
def Place.Before (a b : Place) : Prop := a.1 < b.1 ∨ a.1 = b.1 ∧ a.2 < b.2

def Place.UpTo (a b : Place) : Prop := a.1 < b.1 ∨ a.1 = b.1 ∧ a.2 ≤ b.2

instance : DecidableRel Place.UpTo := fun a b => inferInstanceAs (Decidable (a.1 < b.1 ∨ a.1 = b.1 ∧ a.2 ≤ b.2))

instance : Std.Total Place.UpTo := ⟨fun a b => by
  obtain h | h | h := lt_trichotomy a.1 b.1
  · exact .inl (.inl h)
  · exact (String.le_total a.2 b.2).imp (fun hle => .inr ⟨h, hle⟩) fun hle => .inr ⟨h.symm, hle⟩
  · exact .inr (.inl h)⟩

instance : IsTrans Place Place.UpTo := ⟨fun a b c hab hbc => by
  obtain hab | ⟨hab, hab'⟩ := hab
  · obtain hbc | ⟨hbc, -⟩ := hbc
    · exact .inl (hab.trans hbc)
    · exact .inl (hbc ▸ hab)
  · obtain hbc | ⟨hbc, hbc'⟩ := hbc
    · exact .inl (hab ▸ hbc)
    · exact .inr ⟨hab.trans hbc, String.le_trans hab' hbc'⟩⟩

/-- All places taken. -/
def places (db : Database) : List Place := db.ipState.entries.map fun e => (e.2.firstSeen, e.1)

variable {db : Database} {after last place : Place} {before : Int} {limit : Nat}

theorem Place.UpTo.antisymm {a b : Place} (h : a.UpTo b) (h' : b.UpTo a) : a = b := by
  obtain h | ⟨h, hle⟩ := h
  · obtain h' | ⟨h', -⟩ := h' <;> omega
  · obtain h' | ⟨-, hle'⟩ := h'
    · omega
    · exact Prod.ext h (String.le_antisymm hle hle')

theorem Place.upTo_of_not_before {a b : Place} (h : ¬ a.Before b) : b.UpTo a := by
  unfold Place.Before at h
  obtain hlt | heq | hgt := lt_trichotomy a.1 b.1
  · exact (h (.inl hlt)).elim
  · exact .inr ⟨heq.symm, String.not_lt.mp fun hlt => h (.inr ⟨heq, hlt⟩)⟩
  · exact .inl hgt

/-- What is left of the index beyond a place. -/
def rest (db : Database) (after : Place) (before : Int) : List Place :=
  ((places db).filter fun p => (after.1 < p.1 ∨ after.1 = p.1 ∧ after.2 < p.2) ∧ p.1 ≤ before).insertionSort Place.UpTo

theorem enforcementAddresses_eq : db.enforcementAddresses after before limit = (rest db after before).take limit := rfl

theorem mem_rest : place ∈ rest db after before ↔ place ∈ places db ∧ after.Before place ∧ place.1 ≤ before := by
  unfold rest
  rw [List.mem_insertionSort, List.mem_filter, decide_eq_true_eq]
  rfl

/-- A page that is not full holds all that was left. -/
theorem mem_page_of_short (h : (db.enforcementAddresses after before limit).length < limit)
    (hplace : place ∈ places db) (hafter : after.Before place) (hbefore : place.1 ≤ before) :
    place ∈ db.enforcementAddresses after before limit := by
  rw [enforcementAddresses_eq] at h ⊢
  rw [List.length_take] at h
  rw [List.take_of_length_le (by omega)]
  exact mem_rest.mpr ⟨hplace, hafter, hbefore⟩

/-- A page holds everything up to its last row. -/
theorem mem_page_of_upTo_last (hlast : (db.enforcementAddresses after before limit).getLast? = some last)
    (hplace : place ∈ places db) (hafter : after.Before place) (hbefore : place.1 ≤ before) (hle : place.UpTo last) :
    place ∈ db.enforcementAddresses after before limit := by
  rw [enforcementAddresses_eq] at hlast ⊢
  have hmem : place ∈ rest db after before := mem_rest.mpr ⟨hplace, hafter, hbefore⟩
  have hsorted : (rest db after before).Pairwise Place.UpTo := List.pairwise_insertionSort _ _
  rw [← List.take_append_drop limit (rest db after before)] at hmem hsorted
  obtain hmem | hmem := List.mem_append.mp hmem
  · exact hmem
  · have hlastmem := List.mem_of_getLast? hlast
    have hge := (List.pairwise_append.mp hsorted).2.2 last hlastmem place hmem
    rw [hle.antisymm hge]
    exact hlastmem

/-! ## One run of the generator -/

/-- `_enforcement_scan_after` and `_enforcement_scan_before` -/
structure Cursor where
  after : Place := (0, "")
  before : Int := 0
  deriving DecidableEq

/-- The addresses given out, the queue's and then the page's, and what became of the cursor. -/
structure Swept where
  pending : List Ip
  paged : List Ip
  /-- The page came from the start again, with a new boundary. -/
  wrapped : Bool
  /-- The page was the last one. -/
  finished : Bool
  cursor : Cursor

def Swept.rows (s : Swept) : List Ip := s.pending ++ s.paged

/-- The boundary, set by the first page. -/
def Cursor.opened (cursor : Cursor) (now : Int) : Cursor :=
  if cursor.before = 0 then { cursor with before := now } else cursor

/-- `enforcement_addresses` at a cursor. -/
def Cursor.page (cursor : Cursor) (db : Database) (allowance : Nat) : List Place :=
  db.enforcementAddresses cursor.after cursor.before allowance

/-- Nothing is left, and not because the table is empty. -/
def Cursor.exhausted (cursor : Cursor) (db : Database) (allowance : Nat) : Bool :=
  cursor.page db allowance = [] ∧ cursor.after ≠ (0, "")

/-- Back to the start, with a new boundary, where nothing is left. -/
def Cursor.turn (cursor : Cursor) (db : Database) (now : Int) (allowance : Nat) : Cursor :=
  if cursor.exhausted db allowance then ⟨(0, ""), now⟩ else cursor

/-- `enforcement_queue.batch(ENFORCEMENT_BATCH - ENFORCEMENT_SWEEP_RESERVE)`, the addresses. -/
@[irreducible] def pendingOf (queue : EnforcementQueue) : List Ip :=
  (queue.batch (enforcementBatch - enforcementSweepReserve)).map Prod.fst

/-- How much of a batch is left for the page. -/
@[irreducible] def allowanceOf (queue : EnforcementQueue) : Nat := enforcementBatch - (pendingOf queue).length

/-- `_enforcement_rows` -/
def enforcementRows (queue : EnforcementQueue) (db : Database) (now : Int) (cursor : Cursor) : Swept :=
  let start := (cursor.opened now).turn db now (allowanceOf queue)
  let addresses := start.page db (allowanceOf queue)
  { pending := pendingOf queue
    paged := (addresses.map Prod.snd).filter fun ip => !(pendingOf queue).contains ip
    wrapped := (cursor.opened now).exhausted db (allowanceOf queue)
    finished := addresses.length < allowanceOf queue
    cursor := if addresses.length < allowanceOf queue then {}
      else { start with after := addresses.getLast?.getD start.after } }

/-! ## The daemon from cycle to cycle -/

abbrev Stamp := { t : Int // 0 < t }

/-- A table of addresses; `first_seen` is a reading of the clock. -/
structure IpTable where
  rows : Dict Ip IpState := .empty
  stamped : ∀ e ∈ rows.entries, 0 < e.2.firstSeen := by exact nofun

/-- `observe_ip` writes a table of addresses. -/
def IpTable.observe (table : IpTable) (ip : Ip) (ts : Stamp) (verdict : Verdict) : IpTable where
  rows := (({ ipState := table.rows } : Database).observeIp ip ts verdict).ipState
  stamped := by
    intro e he
    unfold Database.observeIp at he
    split at he
    · exact table.stamped e he
    · dsimp only at he
      rw [show e = (e.1, e.2) from rfl, Dict.mem_entries, Dict.get?_set] at he
      split at he
      · rw [← Option.some.inj he]
        cases hrow : table.rows.get? ip with
        | none => exact ts.2
        | some row => exact table.stamped (ip, row) (Dict.mem_entries.mpr hrow)
      · exact table.stamped (e.1, e.2) (Dict.mem_entries.mpr he)

/-- The daemon's cursor, in memory and in `guard_state`. -/
structure Daemon where
  table : IpTable
  cursor : Cursor := {}
  saved : Cursor := {}

def Daemon.database (d : Daemon) : Database where
  ipState := d.table.rows
  state := { scanAfter := d.saved.after, scanBefore := d.saved.before }

/-- What a started daemon reads back. -/
def Daemon.restart (d : Daemon) : Daemon :=
  { d with cursor := ⟨d.database.state.scanAfter, d.database.state.scanBefore⟩ }

def Daemon.sweep (d : Daemon) (queue : EnforcementQueue) (now : Stamp) : Swept :=
  enforcementRows queue d.database now d.cursor

/-- A cycle keeps the cursor it ends with. -/
def Daemon.cycle (d : Daemon) (queue : EnforcementQueue) (now : Stamp) : Daemon :=
  { d with cursor := (d.sweep queue now).cursor, saved := (d.sweep queue now).cursor }

/-- A round of the sweep: what was in the table all the time and who has been given out. -/
structure Round where
  boundary : Int
  present : List Place
  checked : List Ip

/-- Nobody was left out. -/
def Round.Complete (r : Round) : Prop := ∀ p ∈ r.present, p.1 ≤ r.boundary → p.2 ∈ r.checked

def Round.begin (d : Daemon) (now : Int) : Round := ⟨now, places d.database, []⟩

def Round.check (r : Round) (ips : List Ip) : Round := { r with checked := r.checked ++ ips }

def Round.stay (r : Round) (table : IpTable) : Round :=
  { r with present := r.present.filter fun p => (places { ipState := table.rows }).contains p }

structure Watched where
  daemon : Daemon
  round : Round

inductive Op
  /-- A cycle that finds any queue. -/
  | cycle (queue : EnforcementQueue) (now : Stamp)
  /-- Addresses come and go. -/
  | change (table : IpTable)
  | restart

namespace Watched

def init (table : IpTable) : Watched := ⟨{ table }, ⟨0, [], []⟩⟩

/-- The round a cycle works in, begun with it where no boundary is set. -/
def opened (w : Watched) (now : Stamp) : Round :=
  if w.daemon.cursor.before = 0 then .begin w.daemon now else w.round

/-- The round after a cycle's page has been read. -/
def turned (w : Watched) (queue : EnforcementQueue) (now : Stamp) : Round :=
  if (w.daemon.sweep queue now).wrapped then .begin w.daemon now else w.opened now

/-- The rounds that end with a cycle: one whose cursor went back to the start before the page, and one
whose cursor went back after it. -/
def ended (w : Watched) (queue : EnforcementQueue) (now : Stamp) : List Round :=
  let swept := w.daemon.sweep queue now
  (if swept.wrapped then [(w.opened now).check swept.pending] else []) ++
    if swept.finished then [(w.turned queue now).check swept.rows] else []

def step (w : Watched) : Op → Watched
  | .cycle queue now =>
    ⟨w.daemon.cycle queue now, (w.turned queue now).check (w.daemon.sweep queue now).rows⟩
  | .change table => ⟨{ w.daemon with table }, w.round.stay table⟩
  | .restart => ⟨w.daemon.restart, w.round⟩

end Watched

/-! ## One run -/

section Run

variable {queue : EnforcementQueue} {now : Int} {cursor : Cursor} {allowance : Nat} {r : Round} {ips : List Ip}

/-- The round goes with the table and the cursor: whoever stayed and is not beyond the cursor has been
given out. -/
structure Round.Follows (r : Round) (db : Database) (cursor : Cursor) : Prop where
  boundary : r.boundary = cursor.before
  present : ∀ p ∈ r.present, p ∈ places db
  checked : ∀ p ∈ r.present, p.1 ≤ r.boundary → ¬ cursor.after.Before p → p.2 ∈ r.checked

theorem Round.Follows.check (h : r.Follows db cursor) (ips : List Ip) : (r.check ips).Follows db cursor :=
  ⟨h.boundary, h.present, fun p hp hb ha => List.mem_append_left ips (h.checked p hp hb ha)⟩

theorem Round.Follows.complete_of_empty (h : r.Follows db cursor) (hpos : 0 < allowance)
    (hempty : cursor.page db allowance = []) : r.Complete := by
  intro p hp hb
  refine h.checked p hp hb fun hafter => ?_
  unfold Cursor.page at hempty
  have hmem := mem_page_of_short (by rw [hempty]; exact hpos) (h.present p hp) hafter (h.boundary ▸ hb)
  rw [hempty] at hmem
  exact nomatch hmem

theorem Round.Follows.complete_of_short (h : r.Follows db cursor)
    (hshort : (cursor.page db allowance).length < allowance)
    (hips : ∀ p ∈ cursor.page db allowance, p.2 ∈ ips) :
    (r.check ips).Complete := by
  intro p hp hb
  by_cases hafter : cursor.after.Before p
  · exact List.mem_append_right _ (hips p (mem_page_of_short hshort (h.present p hp) hafter (h.boundary ▸ hb)))
  · exact List.mem_append_left _ (h.checked p hp hb hafter)

theorem Round.Follows.next (h : r.Follows db cursor)
    (hlast : (cursor.page db allowance).getLast? = some last)
    (hips : ∀ p ∈ cursor.page db allowance, p.2 ∈ ips) :
    (r.check ips).Follows db { cursor with after := last } := by
  refine ⟨h.boundary, h.present, fun p hp hb hnot => ?_⟩
  by_cases hafter : cursor.after.Before p
  · have hle := Place.upTo_of_not_before hnot
    exact List.mem_append_right _
      (hips p (mem_page_of_upTo_last hlast (h.present p hp) hafter (h.boundary ▸ hb) hle))
  · exact List.mem_append_left _ (h.checked p hp hb hafter)

theorem length_pendingOf_le (queue : EnforcementQueue) :
    (pendingOf queue).length ≤ enforcementBatch - enforcementSweepReserve := by
  unfold pendingOf
  rw [List.length_map]
  exact EnforcementQueue.length_batch_le _ _

theorem allowanceOf_pos (queue : EnforcementQueue) : 0 < allowanceOf queue := by
  unfold allowanceOf
  exact Nat.sub_pos_of_lt ((length_pendingOf_le queue).trans_lt (by decide))

theorem length_page_le (cursor : Cursor) (db : Database) (allowance : Nat) :
    (cursor.page db allowance).length ≤ allowance := List.length_take_le _ _

/-- No run gives out more than a batch. -/
theorem length_rows_le (queue : EnforcementQueue) (db : Database) (now : Int) (cursor : Cursor) :
    (enforcementRows queue db now cursor).rows.length ≤ enforcementBatch := by
  have hpaged : (enforcementRows queue db now cursor).paged.length ≤ allowanceOf queue := by
    refine (List.length_filter_le _ _).trans ?_
    rw [List.length_map]
    exact length_page_le _ _ _
  have hpending : (pendingOf queue).length ≤ enforcementBatch :=
    (length_pendingOf_le queue).trans (Nat.sub_le _ _)
  rw [Swept.rows, List.length_append]
  unfold allowanceOf at hpaged
  exact (Nat.add_le_add_left hpaged _).trans (Nat.add_sub_cancel' hpending).le

end Run

/-! ## Runs -/

/-- The round is that of the cursor, which is at the start when none is under way. -/
structure Watched.Sound (w : Watched) : Prop where
  saved : w.daemon.saved = w.daemon.cursor
  idle : w.daemon.cursor.before = 0 → w.daemon.cursor.after = (0, "")
  follows : w.daemon.cursor.before ≠ 0 → w.round.Follows w.daemon.database w.daemon.cursor

def Watched.Sweeps (w : Watched) : Op → Prop
  | .cycle queue now => (w.daemon.sweep queue now).rows.length ≤ enforcementBatch ∧
      ∀ r ∈ w.ended queue now, r.Complete
  | _ => True

section Runs

variable {w : Watched} {d : Daemon} {queue : EnforcementQueue} {now : Stamp}

/-- A round begins at the start: every row comes after it. -/
theorem begin_follows (d : Daemon) (now : Int) : (Round.begin d now).Follows d.database ⟨(0, ""), now⟩ := by
  refine ⟨rfl, fun p hp => hp, fun p hp _ hnot => ?_⟩
  obtain ⟨e, he, rfl⟩ := List.mem_map.mp hp
  exact (hnot (.inl (d.table.stamped e he))).elim

theorem Watched.Sound.opened (h : w.Sound) (now : Stamp) :
    (w.opened now).Follows w.daemon.database (w.daemon.cursor.opened now) := by
  unfold Watched.opened Cursor.opened
  split
  · rename_i hzero
    rw [h.idle hzero]
    exact begin_follows w.daemon now
  · rename_i hset
    exact h.follows hset

/-- The cursor the page is read at. -/
def Daemon.start (d : Daemon) (queue : EnforcementQueue) (now : Stamp) : Cursor :=
  (d.cursor.opened now).turn d.database now (allowanceOf queue)

theorem sweep_wrapped : (d.sweep queue now).wrapped =
    (d.cursor.opened now).exhausted d.database (allowanceOf queue) := rfl

theorem sweep_finished : (d.sweep queue now).finished =
    decide (((d.start queue now).page d.database (allowanceOf queue)).length < allowanceOf queue) := rfl

theorem sweep_cursor : (d.sweep queue now).cursor =
    if ((d.start queue now).page d.database (allowanceOf queue)).length < allowanceOf queue then {}
    else { d.start queue now with
      after := ((d.start queue now).page d.database (allowanceOf queue)).getLast?.getD (d.start queue now).after } := rfl

theorem exhausted_iff {db : Database} {cursor : Cursor} {allowance : Nat} : cursor.exhausted db allowance ↔
    cursor.page db allowance = [] ∧ cursor.after ≠ (0, "") := by
  unfold Cursor.exhausted
  exact decide_eq_true_iff

theorem Watched.Sound.turned (h : w.Sound) (queue : EnforcementQueue) (now : Stamp) :
    (w.turned queue now).Follows w.daemon.database (w.daemon.start queue now) := by
  unfold Watched.turned Daemon.start Cursor.turn
  rw [sweep_wrapped]
  split
  · exact begin_follows w.daemon now
  · exact h.opened now

theorem mem_rows (d : Daemon) (queue : EnforcementQueue) (now : Stamp) :
    ∀ p ∈ (d.start queue now).page d.database (allowanceOf queue), p.2 ∈ (d.sweep queue now).rows := by
  intro p hp
  by_cases hpending : p.2 ∈ pendingOf queue
  · exact List.mem_append_left _ hpending
  · exact List.mem_append_right _ (List.mem_filter.mpr ⟨List.mem_map_of_mem hp, by simpa using hpending⟩)

theorem start_before_ne_zero (d : Daemon) (queue : EnforcementQueue) (now : Stamp) :
    (d.start queue now).before ≠ 0 := by
  have hnow : (now : Int) ≠ 0 := now.2.ne'
  have hopened : (d.cursor.opened now).before ≠ 0 := by
    unfold Cursor.opened
    split
    · exact hnow
    · assumption
  unfold Daemon.start Cursor.turn
  split
  · exact hnow
  · exact hopened

theorem Watched.Sound.complete_of_ended (h : w.Sound) {r : Round} (hr : r ∈ w.ended queue now) : r.Complete := by
  unfold Watched.ended at hr
  dsimp only at hr
  rw [sweep_wrapped, sweep_finished] at hr
  obtain hr | hr := List.mem_append.mp hr
  · split at hr
    · rename_i hwrapped
      obtain rfl := List.mem_singleton.mp hr
      exact ((h.opened now).check _).complete_of_empty (allowanceOf_pos queue) (exhausted_iff.mp hwrapped).1
    · exact nomatch hr
  · split at hr
    · rename_i hfinished
      obtain rfl := List.mem_singleton.mp hr
      exact (h.turned queue now).complete_of_short (decide_eq_true_iff.mp hfinished) (mem_rows _ _ _)
    · exact nomatch hr

theorem Watched.Sound.sweeps (h : w.Sound) (op : Op) : w.Sweeps op := by
  cases op with
  | cycle queue now => exact ⟨length_rows_le queue _ now _, fun r hr => h.complete_of_ended hr⟩
  | change table => trivial
  | restart => trivial

theorem Watched.Sound.cycle (h : w.Sound) (queue : EnforcementQueue) (now : Stamp) :
    (w.step (.cycle queue now)).Sound := by
  by_cases hshort : ((w.daemon.start queue now).page w.daemon.database (allowanceOf queue)).length < allowanceOf queue
  · have hcursor : (w.step (.cycle queue now)).daemon.cursor = {} := sweep_cursor.trans (if_pos hshort)
    exact ⟨rfl, fun _ => congrArg Cursor.after hcursor, fun hset => (hset (congrArg Cursor.before hcursor)).elim⟩
  · have hcursor : (w.step (.cycle queue now)).daemon.cursor = _ := sweep_cursor.trans (if_neg hshort)
    have hset : (w.step (.cycle queue now)).daemon.cursor.before ≠ 0 := by
      rw [hcursor]
      exact start_before_ne_zero _ _ _
    refine ⟨rfl, fun hzero => (hset hzero).elim, fun _ => ?_⟩
    rw [hcursor]
    cases hlast : ((w.daemon.start queue now).page w.daemon.database (allowanceOf queue)).getLast? with
    | none =>
      rw [List.getLast?_eq_none_iff.mp hlast] at hshort
      exact (hshort (allowanceOf_pos queue)).elim
    | some last =>
      obtain ⟨hboundary, hpresent, hchecked⟩ := (h.turned queue now).next hlast (mem_rows _ _ _)
      exact ⟨hboundary, hpresent, hchecked⟩

/-- What changes in the table changes nothing for those who stay. -/
theorem Round.Follows.stay {r : Round} {cursor : Cursor} (h : r.Follows db cursor) (table : IpTable) :
    (r.stay table).Follows (Daemon.database { d with table }) cursor := by
  have hmem : ∀ p, p ∈ (r.stay table).present → p ∈ r.present ∧ p ∈ places { ipState := table.rows } := by
    intro p hp
    obtain ⟨hp, hstay⟩ := List.mem_filter.mp hp
    exact ⟨hp, List.contains_iff_mem.mp hstay⟩
  exact ⟨h.boundary, fun p hp => (hmem p hp).2, fun p hp => h.checked p (hmem p hp).1⟩

theorem restart_eq (h : d.saved = d.cursor) : d.restart = d := by
  obtain ⟨table, cursor, saved⟩ := d
  obtain rfl : saved = cursor := h
  rfl

theorem Watched.Sound.step (h : w.Sound) (op : Op) : (w.step op).Sound := by
  cases op with
  | cycle queue now => exact h.cycle queue now
  | change table => exact ⟨h.saved, h.idle, fun hset => (h.follows hset).stay table⟩
  | restart =>
    have hsame : w.step .restart = w := congrArg (Watched.mk · w.round) (restart_eq h.saved)
    rw [hsame]
    exact h

/-- Whatever the queue holds in each cycle, whoever comes and goes between cycles, and wherever the
daemon is started anew: nobody who was there all through a round is left out, and no cycle gives out
more than a batch. -/
theorem sweep_skips_nobody (table : IpTable) (ops : List Op) :
    Machine.Along Watched.step Watched.Sweeps (Watched.init table) ops := by
  have hinit : (Watched.init table).Sound := ⟨rfl, fun _ => rfl, fun h => (h rfl).elim⟩
  exact Machine.Along.of_invariant hinit (fun _ op h => h.step op) fun _ op h => h.sweeps op

end Runs

end EasyHaProxy.Guardd.EnforcementSweep
