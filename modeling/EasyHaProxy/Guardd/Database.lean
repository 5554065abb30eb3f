import EasyHaProxy.Guardd.Basic

/-! `SecurityDatabase`, one definition for each SQL statement the engine issues. A table with a text key is
a dictionary; `security_events` and `ban_decisions` are lists in row order. -/
namespace EasyHaProxy.Guardd

/-- The keys of `guard_state` the engine reads back. -/
structure GuardState where
  modeOverride : Option Mode := none
  banDurations : Option (List Int) := none
  banDurationsChangedAt : Int := 0
  knownBans : List Ip := []
  legacyObserved : Dict Ip Int := .empty
  banPolicy : BanPolicy := .legacy
  scanAfter : Int × Ip := (0, "")
  scanBefore : Int := 0
  deriving DecidableEq

theorem nil_decisionIds : (([] : List Decision).map Decision.id).Nodup := List.nodup_nil

structure Database where
  ipState : Dict Ip IpState := .empty
  events : List SecurityEvent := []
  decisions : List Decision := []
  /-- `id INTEGER PRIMARY KEY`. -/
  decisionIds : (decisions.map Decision.id).Nodup := by first | exact nil_decisionIds | decide
  manualBans : Dict Ip ManualBan := .empty
  cooldowns : Dict String Int := .empty
  state : GuardState := {}

/-- The next INTEGER PRIMARY KEY. -/
def nextId (ids : List Nat) : Nat := ids.foldl max 0 + 1

theorem le_foldl_max (ids : List Nat) (a : Nat) : a ≤ ids.foldl max a := by
  induction ids generalizing a with
  | nil => exact Nat.le_refl a
  | cons b ids ih => exact Nat.le_trans (Nat.le_max_left a b) (ih (max a b))

theorem lt_nextId {ids : List Nat} {n : Nat} (h : n ∈ ids) : n < nextId ids := by
  have key : ∀ (l : List Nat) (a : Nat), n ∈ l → n ≤ l.foldl max a := by
    intro l
    induction l with
    | nil => simp
    | cons b l ih =>
      intro a hn
      rcases List.mem_cons.mp hn with rfl | hn
      · exact Nat.le_trans (Nat.le_max_right a n) (le_foldl_max l (max a n))
      · exact ih (max a b) hn
  exact Nat.lt_succ_of_le (key ids 0 h)

namespace Database

/-- `observe_ip`: a row for every address that parses, its flags as last seen. -/
def observeIp (ip : Ip) (ts : Int) (verdict : Verdict) (db : Database) : Database :=
  match ipVersion ip with
  | none => db
  | some family =>
    let row : IpState := match db.ipState.get? ip with
      | none => { family, enforceable := enforceable ip, firstSeen := ts, lastSeen := ts,
                  excluded := verdict.excluded, exclusionReason := verdict.reason }
      | some row => { row with lastSeen := ts, excluded := verdict.excluded,
                               exclusionReason := verdict.reason }
    { db with ipState := db.ipState.set ip row }

/-- `record_events`: the rows of one transaction. -/
def recordEvents (es : List SecurityEvent) (db : Database) : Database :=
  let first := nextId (db.events.map (·.id))
  let rows := es.mapIdx (fun i e => { e with id := first + i, detail := truncate maxPathLength e.detail })
  { db with events := db.events ++ rows }

/-- `record_authenticated`: only addresses that already have a row are updated. -/
def recordAuthenticated (ips : List Ip) (ts : Int) (db : Database) : Database :=
  let mark (ip : Ip) (row : IpState) := if ip ∈ ips then { row with authenticatedAt := ts } else row
  { db with ipState := db.ipState.mapValues mark }

def clearBan (ip : Ip) (db : Database) : Database :=
  { db with ipState := db.ipState.modify ip (fun row => { row with bannedUntil := 0, banCode := 0 }) }

def nextDecisionId (db : Database) : Nat := nextId (db.decisions.map (·.id))

theorem decisionIds_append (db : Database) (d : Decision) :
    ((db.decisions ++ [{ d with id := db.nextDecisionId }]).map Decision.id).Nodup := by
  rw [List.map_append, List.nodup_append]
  refine ⟨db.decisionIds, List.nodup_singleton _, ?_⟩
  intro n hn m hm
  obtain rfl : m = db.nextDecisionId := by simpa using hm
  exact Nat.ne_of_lt (lt_nextId hn)

def recordDecision (d : Decision) (db : Database) : Database :=
  { db with
    decisions := db.decisions ++ [{ d with id := db.nextDecisionId }]
    decisionIds := db.decisionIds_append d }

/-- `UPDATE ban_decisions SET outcome = ? WHERE id = ? AND outcome = 'pending'` on one row. -/
def settleRow (id : Nat) (outcome : DecisionOutcome) (d : Decision) : Decision :=
  if d.id = id ∧ d.outcome = .pending then { d with outcome } else d

@[simp] theorem settleRow_id (id : Nat) (outcome : DecisionOutcome) (d : Decision) :
    (settleRow id outcome d).id = d.id := by
  unfold settleRow
  split <;> rfl

theorem decisionIds_settle (db : Database) (id : Nat) (outcome : DecisionOutcome) :
    ((db.decisions.map (settleRow id outcome)).map Decision.id).Nodup := by
  simpa [Function.comp_def] using db.decisionIds

def settleDecision (id : Nat) (outcome : DecisionOutcome) (db : Database) : Database :=
  { db with
    decisions := db.decisions.map (settleRow id outcome)
    decisionIds := db.decisionIds_settle id outcome }

def setBanRow (till code now : Int) (row : IpState) : IpState :=
  { row with bannedUntil := till, banCode := code, lastSeen := now }

/-- `commit_ban`: the schedule, the strike and the decision's outcome in one transaction. -/
def commitBan (id : Nat) (ip : Ip) (till code now : Int) (detail : String) (db : Database) :
    Database :=
  let scheduled := { db with ipState := db.ipState.modify ip (setBanRow till code now) }
  let struck := scheduled.recordEvents [{ ts := now, ip, eventType := .banApplied, source := "guardd", detail }]
  struck.settleDecision id .applied

def pendingDecisions (before : Int) (db : Database) : List Decision :=
  (db.decisions.filter (fun d => d.outcome = .pending ∧ d.ts < before)).insertionSort
    (fun a b => a.ts ≤ b.ts)

/-- `prune_decisions`: the old ones, then the oldest beyond `keep`, never one in force. -/
def pruneDecisions (before : Int) (keep : Nat) (now : Int) (db : Database) : Database :=
  let rest := db.decisions.filter (fun d => ¬ (d.ts < before ∧ d.until_ ≤ now))
  let newest := (rest.insertionSort (fun a b => b.ts < a.ts ∨ a.ts = b.ts ∧ b.id ≤ a.id)).take keep
  { db with
    decisions := rest.filter (fun d => now < d.until_ ∨ d.id ∈ newest.map (·.id))
    decisionIds := db.decisionIds.sublist ((List.filter_sublist.trans List.filter_sublist).map _) }

/-- `note_manual_ban`: a ban seen in the table; its end only ever moves later, and only
when the operator placed it again. -/
def noteManualBan (ip : Ip) (now expiresAt : Int) (db : Database) : Database :=
  let row : ManualBan := match db.manualBans.get? ip with
    | none => { placedAt := now, expiresAt, seenAt := now }
    | some old =>
      { old with
        seenAt := now
        expiresAt := if old.reasserted = false ∧ old.expiresAt + manualBanReplacedMargin < expiresAt
          then expiresAt else old.expiresAt }
  { db with manualBans := db.manualBans.set ip row }

def writeManualBan (ip : Ip) (row : ManualBan) (db : Database) : Database :=
  { db with manualBans := db.manualBans.set ip row }

def markManualReasserted (ip : Ip) (db : Database) : Database :=
  { db with manualBans := db.manualBans.modify ip (fun row => { row with reasserted := true }) }

def forgetManualBan (ip : Ip) (db : Database) : Database :=
  { db with manualBans := db.manualBans.erase ip }

/-- `scheduled_bans`: who this daemon believes it has banned, and until when. -/
def scheduledBans (db : Database) : Dict Ip Int :=
  (db.ipState.filter (fun _ row => 0 < row.bannedUntil)).mapValues (fun _ row => row.bannedUntil)

/-- `MAX(ts)` over the events a predicate picks, 0 when there are none. -/
def maxTs (p : SecurityEvent → Bool) (events : List SecurityEvent) : Int :=
  (((events.filter p).map (·.ts)).max?).getD 0

def isBan (ip : Ip) (e : SecurityEvent) : Bool := e.ip = ip ∧ e.eventType = .banApplied

def lastBanTs (ip : Ip) (db : Database) : Int := maxTs (isBan ip) db.events

/-- What `newest_finding_ts` takes for a finding: every event but the daemon's own
bans and lifts and its own bans seen in the table. -/
def isFinding (ip : Ip) (e : SecurityEvent) : Bool :=
  e.ip = ip ∧ e.eventType ≠ .banApplied ∧ e.eventType ≠ .banLifted ∧
    ¬ (e.eventType = .legacyBan ∧ ownBanDetail e.detail)

def newestFindingTs (ip : Ip) (db : Database) : Int := maxTs (isFinding ip) db.events

/-- `ban_timestamps`: the newest `limit` bans of an address, oldest first. -/
def banTimestamps (ip : Ip) (limit : Nat) (db : Database) : List Int :=
  ((((db.events.filter (isBan ip)).map (·.ts)).insertionSort (· ≥ ·)).take limit).insertionSort (· ≤ ·)

/-- `recent_findings`, oldest first. -/
def recentFindings (limit : Nat) (db : Database) : List SecurityEvent :=
  ((db.events.insertionSort (fun a b => b.id ≤ a.id)).take limit).reverse

def eventsFor (ip : Ip) (since : Int) (limit : Nat) (db : Database) : List SecurityEvent :=
  ((db.events.filter (fun e => e.ip = ip ∧ since ≤ e.ts)).insertionSort
    (fun a b => b.ts < a.ts ∨ a.ts = b.ts ∧ b.id ≤ a.id)).take limit

/-- `enforcement_addresses`: one page of `ip_state` after a cursor, in index order. -/
def enforcementAddresses (after : Int × Ip) (before : Int) (limit : Nat) (db : Database) :
    List (Int × Ip) :=
  let rows := db.ipState.entries.map (fun e => (e.2.firstSeen, e.1))
  let page := rows.filter (fun r => (after.1 < r.1 ∨ after.1 = r.1 ∧ after.2 < r.2) ∧ r.1 ≤ before)
  (page.insertionSort (fun a b => a.1 < b.1 ∨ a.1 = b.1 ∧ a.2 ≤ b.2)).take limit

/-- The test of `cooldown_passed`; the write that follows it is `noteCooldown`. -/
def cooldownPassed (fingerprint : String) (ts window : Int) (db : Database) : Bool :=
  match db.cooldowns.get? fingerprint with
  | none => true
  | some last => ¬ (ts - last < window)

def noteCooldown (fingerprint : String) (ts : Int) (db : Database) : Database :=
  { db with cooldowns := db.cooldowns.set fingerprint ts }

def isBanRecord (e : SecurityEvent) : Bool :=
  e.eventType = .banApplied ∨ e.eventType = .banLifted

/-- `apply_retention`: findings, ban records and addresses past their cutoffs. -/
def applyRetention (eventsBefore bansBefore : Int) (db : Database) : Database :=
  { db with
    events := db.events.filter (fun e => if isBanRecord e then bansBefore ≤ e.ts else eventsBefore ≤ e.ts)
    cooldowns := db.cooldowns.filter (fun _ last => eventsBefore ≤ last)
    ipState := db.ipState.filter (fun _ row => ¬ (row.lastSeen < eventsBefore ∧ row.bannedUntil = 0)) }

/-- `banned_until` of an address, 0 when it has no row. -/
def bannedUntil (db : Database) (ip : Ip) : Int := ((db.ipState.get? ip).map (·.bannedUntil)).getD 0

def authenticatedAt (db : Database) (ip : Ip) : Int :=
  ((db.ipState.get? ip).map (·.authenticatedAt)).getD 0

/-- An address has a row of `ip_state`. -/
def hasRow (db : Database) (ip : Ip) : Bool := db.ipState.contains ip

/-! ## What each statement changes -/

variable {db : Database} {ip j : Ip}

section IpState

theorem get?_scheduledBans : db.scheduledBans.get? j = if 0 < db.bannedUntil j then some (db.bannedUntil j) else none := by
  unfold scheduledBans bannedUntil
  rw [Dict.get?_mapValues, Dict.get?_filter]
  cases db.ipState.get? j with
  | none => rfl
  | some row => by_cases h : 0 < row.bannedUntil <;> simp [Option.filter, h]

@[simp] theorem bannedUntil_observeIp (ts : Int) (v : Verdict) :
    (db.observeIp ip ts v).bannedUntil j = db.bannedUntil j := by
  unfold observeIp bannedUntil
  cases ipVersion ip with
  | none => rfl
  | some family =>
    by_cases h : j = ip
    · subst h
      cases db.ipState.get? j <;> simp
    · simp [h]

@[simp] theorem authenticatedAt_observeIp (ts : Int) (v : Verdict) :
    (db.observeIp ip ts v).authenticatedAt j = db.authenticatedAt j := by
  unfold observeIp authenticatedAt
  cases ipVersion ip with
  | none => rfl
  | some family =>
    by_cases h : j = ip
    · subst h
      cases db.ipState.get? j <;> simp
    · simp [h]

theorem hasRow_observeIp (ts : Int) (v : Verdict) :
    (db.observeIp ip ts v).hasRow j = (db.hasRow j || (j == ip && (ipVersion ip).isSome)) := by
  unfold observeIp hasRow Dict.contains
  cases ipVersion ip with
  | none => simp
  | some family => by_cases h : j = ip <;> simp [h]

@[simp] theorem bannedUntil_recordAuthenticated (ips : List Ip) (ts : Int) :
    (db.recordAuthenticated ips ts).bannedUntil j = db.bannedUntil j := by
  unfold recordAuthenticated bannedUntil
  simp only [Dict.get?_mapValues]
  cases db.ipState.get? j with
  | none => rfl
  | some row => by_cases h : j ∈ ips <;> simp [h]

theorem authenticatedAt_recordAuthenticated (ips : List Ip) (ts : Int) :
    (db.recordAuthenticated ips ts).authenticatedAt j =
      if j ∈ ips ∧ db.hasRow j then ts else db.authenticatedAt j := by
  unfold recordAuthenticated authenticatedAt hasRow Dict.contains
  simp only [Dict.get?_mapValues]
  cases db.ipState.get? j with
  | none => simp
  | some row => by_cases h : j ∈ ips <;> simp [h]

@[simp] theorem hasRow_recordAuthenticated (ips : List Ip) (ts : Int) :
    (db.recordAuthenticated ips ts).hasRow j = db.hasRow j := by
  simp [recordAuthenticated, hasRow, Dict.contains]

theorem bannedUntil_clearBan :
    (db.clearBan ip).bannedUntil j = if j = ip then 0 else db.bannedUntil j := by
  unfold clearBan bannedUntil
  rw [Dict.get?_modify]
  by_cases h : j = ip
  · cases hr : db.ipState.get? ip <;> simp [h, hr]
  · simp [h]

@[simp] theorem authenticatedAt_clearBan : (db.clearBan ip).authenticatedAt j = db.authenticatedAt j := by
  unfold clearBan authenticatedAt
  rw [Dict.get?_modify]
  by_cases h : j = ip
  · cases hr : db.ipState.get? ip <;> simp [h, hr]
  · simp [h]

@[simp] theorem hasRow_clearBan : (db.clearBan ip).hasRow j = db.hasRow j := by
  unfold clearBan hasRow Dict.contains
  rw [Dict.get?_modify]
  by_cases h : j = ip <;> simp [h]

theorem bannedUntil_commitBan (id : Nat) (till code now : Int) (detail : String) :
    (db.commitBan id ip till code now detail).bannedUntil j =
      if j = ip ∧ db.hasRow ip then till else db.bannedUntil j := by
  unfold commitBan bannedUntil settleDecision recordEvents hasRow Dict.contains
  simp only [Dict.get?_modify]
  by_cases h : j = ip
  · cases hr : db.ipState.get? ip <;> simp [h, hr, setBanRow]
  · simp [h]

@[simp] theorem authenticatedAt_commitBan (id : Nat) (till code now : Int) (detail : String) :
    (db.commitBan id ip till code now detail).authenticatedAt j = db.authenticatedAt j := by
  unfold commitBan authenticatedAt settleDecision recordEvents
  simp only [Dict.get?_modify]
  by_cases h : j = ip
  · cases hr : db.ipState.get? ip <;> simp [h, hr, setBanRow]
  · simp [h]

@[simp] theorem hasRow_commitBan (id : Nat) (till code now : Int) (detail : String) :
    (db.commitBan id ip till code now detail).hasRow j = db.hasRow j := by
  unfold commitBan hasRow settleDecision recordEvents Dict.contains
  simp only [Dict.get?_modify]
  by_cases h : j = ip <;> simp [h]

@[simp] theorem bannedUntil_applyRetention (eb bb : Int) :
    (db.applyRetention eb bb).bannedUntil j = db.bannedUntil j := by
  unfold applyRetention bannedUntil
  simp only [Dict.get?_filter]
  cases db.ipState.get? j with
  | none => rfl
  | some row => by_cases h : row.lastSeen < eb ∧ row.bannedUntil = 0 <;> simp_all [Option.filter]

end IpState

/-! ## Events and decisions -/

theorem le_maxTs {events : List SecurityEvent} {p : SecurityEvent → Bool} {e : SecurityEvent} (he : e ∈ events) (hp : p e) :
    e.ts ≤ maxTs p events := by
  unfold maxTs
  have hmem : e.ts ∈ (events.filter p).map (·.ts) := List.mem_map.mpr ⟨e, List.mem_filter.mpr ⟨he, hp⟩, rfl⟩
  cases hm : ((events.filter p).map (·.ts)).max? with
  | none =>
    rw [List.max?_eq_none_iff] at hm
    rw [hm] at hmem
    exact absurd hmem List.not_mem_nil
  | some n => exact (List.max?_eq_some_iff.mp hm).2 _ hmem

theorem maxTs_mem {events : List SecurityEvent} {p : SecurityEvent → Bool} {e : SecurityEvent} (he : e ∈ events) (hp : p e) :
    ∃ f ∈ events, p f ∧ maxTs p events = f.ts := by
  unfold maxTs
  have hmem : e.ts ∈ (events.filter p).map (·.ts) := List.mem_map.mpr ⟨e, List.mem_filter.mpr ⟨he, hp⟩, rfl⟩
  cases hm : ((events.filter p).map (·.ts)).max? with
  | none =>
    rw [List.max?_eq_none_iff] at hm
    rw [hm] at hmem
    exact absurd hmem List.not_mem_nil
  | some n =>
    obtain ⟨f, hf, hn⟩ := List.mem_map.mp (List.max?_mem hm)
    exact ⟨f, (List.mem_filter.mp hf).1, (List.mem_filter.mp hf).2, hn.symm⟩

theorem events_recordEvents_singleton (e : SecurityEvent) :
    (db.recordEvents [e]).events = db.events ++
      [{ e with id := nextId (db.events.map (·.id)), detail := truncate maxPathLength e.detail }] := by
  simp [recordEvents]

@[simp] theorem events_commitBan (id : Nat) (till code now : Int) (detail : String) :
    (db.commitBan id ip till code now detail).events =
      (db.recordEvents [{ ts := now, ip, eventType := .banApplied, source := "guardd", detail }]).events := rfl

@[simp] theorem decisions_commitBan (id : Nat) (till code now : Int) (detail : String) :
    (db.commitBan id ip till code now detail).decisions = db.decisions.map (settleRow id .applied) := rfl

@[simp] theorem manualBans_commitBan (id : Nat) (till code now : Int) (detail : String) :
    (db.commitBan id ip till code now detail).manualBans = db.manualBans := rfl

theorem manualBans_observeIp (ts : Int) (v : Verdict) : (db.observeIp ip ts v).manualBans = db.manualBans := by
  unfold observeIp
  cases ipVersion ip <;> rfl

theorem events_observeIp (ts : Int) (v : Verdict) : (db.observeIp ip ts v).events = db.events := by
  unfold observeIp
  cases ipVersion ip <;> rfl

theorem decisions_observeIp (ts : Int) (v : Verdict) : (db.observeIp ip ts v).decisions = db.decisions := by
  unfold observeIp
  cases ipVersion ip <;> rfl

theorem state_observeIp (ts : Int) (v : Verdict) : (db.observeIp ip ts v).state = db.state := by
  unfold observeIp
  cases ipVersion ip <;> rfl

section Decisions

variable {d c : Decision} {id : Nat} {outcome : DecisionOutcome}

theorem mem_pendingDecisions {before : Int} :
    d ∈ db.pendingDecisions before ↔ d ∈ db.decisions ∧ d.outcome = .pending ∧ d.ts < before := by
  simp [pendingDecisions]

theorem nodup_pendingDecisions (before : Int) : ((db.pendingDecisions before).map Decision.id).Nodup :=
  ((List.perm_insertionSort _ _).map Decision.id).nodup_iff.mpr
    (db.decisionIds.sublist (List.filter_sublist.map _))

theorem mem_settleDecision (ho : outcome ≠ .pending) (hd : d.outcome = .pending) :
    d ∈ (db.settleDecision id outcome).decisions ↔ d ∈ db.decisions ∧ d.id ≠ id := by
  constructor
  · intro h
    obtain ⟨c, hc, rfl⟩ := List.mem_map.mp h
    unfold settleRow at hd ⊢
    split
    · rename_i hs
      rw [if_pos hs] at hd
      exact absurd hd ho
    · rename_i hs
      rw [if_neg hs] at hd
      exact ⟨hc, fun hid => hs ⟨hid, hd⟩⟩
  · rintro ⟨h, hne⟩
    refine List.mem_map.mpr ⟨d, h, ?_⟩
    rw [settleRow, if_neg (fun hs => hne hs.1)]

theorem mem_recordDecision : d ∈ (db.recordDecision c).decisions ↔
    d ∈ db.decisions ∨ d = { c with id := db.nextDecisionId } := by
  simp [recordDecision]

end Decisions

end Database

end EasyHaProxy.Guardd
