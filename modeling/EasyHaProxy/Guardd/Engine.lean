import EasyHaProxy.Guardd.Enforcer
import EasyHaProxy.Guardd.Scoring
import EasyHaProxy.Guardd.Strikes

/-! `GuardEngine`: what a poll does with the tables it read, what enforcement does with the schedule and the
findings, and the operator's requests. -/
namespace EasyHaProxy.Guardd

open Enforcer

/-- An exception of a kind is swallowed, its result `none`; any other goes on. -/
def attempt {α : Type} (kind : Exc → Bool) (m : M α) : M (Option α) :=
  Prog.tryCatch (do let a ← m; pure (some a)) (fun e => if kind e then pure none else Prog.throw e)

/-! ## Findings -/

/-- `_queue_enforcement_check`. -/
def queueEnforcementCheck (ip : Ip) (eventType : EventType) (handled : Bool) : M Unit :=
  if eventType.defaultWeight = none ∨ handled ∧ ¬ eventType.notExcused then pure ()
  else remember fun mem =>
    { mem with queue := mem.queue.mark ip (wouldBanScore ≤ eventType.weight mem.banPolicy) }

/-- What `_emit` is given: a ban is committed, never emitted. -/
structure Finding where
  ip : Ip
  eventType : EventType
  emitted : eventType ≠ .banApplied := by decide
  source : String
  category : String := ""
  site : String := ""
  detail : String := ""
  handled : Bool := false
  fingerprint : Option String := none

/-- `_emit`: an event, unless one like it was written a moment ago. -/
def emit (f : Finding) (now : Int) : M Bool := do
  let w ← Prog.get
  let key := f.fingerprint.getD (f.ip ++ "|" ++ f.eventType.text)
  if !w.db.cooldownPassed key now f.eventType.cooldown then pure false
  else do
    sql (.noteCooldown key now)
    sql (.observeIp f.ip now (w.verdict f.ip))
    sql (.recordEvents [{ ts := now, ip := f.ip, eventType := f.eventType, source := f.source
                          category := f.category, site := f.site, detail := f.detail
                          handled := f.handled }])
    queueEnforcementCheck f.ip f.eventType f.handled
    pure true

/-- The findings of the log, the rate tables and the hard floor. -/
def ingestFindings (findings : List Finding) (now : Int) : M Unit :=
  findings.forM fun f => do
    let _ ← emit f now
    pure ()

/-! ## HAProxy's own bans, as seen -/

def saveLegacyObserved (observed : Dict Ip Int) : M Unit := do
  -- The oldest go first when there are too many to follow.
  let kept := observed.entries.drop (observed.entries.length - knownBansMax)
  let observed := observed.filter (fun ip code => kept.contains (ip, code))
  remember fun mem => { mem with legacyObserved := observed }
  setState fun state => { state with legacyObserved := observed }

/-- `_settle_legacy_observed`: stop following a ban whose end is written another way. -/
def settleLegacyObserved (ip : Ip) : M Int := do
  let w ← Prog.get
  let code := w.mem.legacyObserved.getD ip 0
  remember fun mem => { mem with legacyObserved := mem.legacyObserved.erase ip }
  Prog.when (code ≠ 0) (saveLegacyObserved (w.mem.legacyObserved.erase ip))
  pure code

/-- A ban of HAProxy's first seen in this read. -/
def observeNew (bans : Dict Ip Row) (now : Int) (ip : Ip) : M Unit :=
  match bans.get? ip with
  | none => pure ()
  | some row =>
    Prog.when (row.gpt0 ∈ legacyBanCodes) do
      let w ← Prog.get
      let _ ← recordDecision
        { ts := now, ip, action := .observed, source := .haproxy, outcome := .observed
          code := row.gpt0, until_ := now + max 0 (row.exp / 1000), policy := w.mem.banPolicy }
      remember fun mem => { mem with legacyObserved := mem.legacyObserved.set ip row.gpt0 }

/-- A ban of HAProxy's that is gone from the table, or another one now. -/
def observeEnded (bans : Dict Ip Row) (now : Int) (followed : Ip × Int) : M Unit :=
  Prog.when (¬ (bans.get? followed.1).any (fun row => row.flagged ∧ row.gpt0 = followed.2)) do
    remember fun mem => { mem with legacyObserved := mem.legacyObserved.erase followed.1 }
    let w ← Prog.get
    let _ ← recordDecision
      { ts := now, ip := followed.1, action := .ended, source := .haproxy, outcome := .observed
        code := followed.2, policy := w.mem.banPolicy }
    pure ()

def observeLegacyBans (bans : Dict Ip Row) (newly : List Ip) (now : Int) : M Unit := do
  let before ← Prog.get
  (newly.insertionSort (· ≤ ·)).forM (observeNew bans now)
  let w ← Prog.get
  w.mem.legacyObserved.entries.forM (observeEnded bans now)
  let w ← Prog.get
  Prog.when (w.mem.legacyObserved ≠ before.mem.legacyObserved) (saveLegacyObserved w.mem.legacyObserved)

/-- A ban HAProxy placed on its own rules: an observation, not a decision. -/
def observeBan (now : Int) (ip : Ip) : M Unit := do
  let w ← Prog.get
  sql (.observeIp ip now (w.verdict ip))

/-- `ingest_tables` up to the ban table: who is signed in. -/
def ingestSignedIn (signedIn : Option (Dict Ip Int)) (now : Int) : M Unit :=
  match signedIn with
  | none => pure ()
  | some rows => do
    let authenticated := (rows.filter (fun _ gpc0 => 0 < gpc0)).keys
    remember fun mem => { mem with authenticated }
    Prog.when (authenticated ≠ []) (sql (.recordAuthenticated authenticated now))

def activeIn (bans : Dict Ip Row) : List Ip := (bans.filter (fun _ row => row.flagged)).keys

/-- `ingest_tables` up to its lock: the bans not seen before. -/
def observeBans (bans : Dict Ip Row) (now : Int) : M Unit := do
  let w ← Prog.get
  let active := activeIn bans
  let newly := active.filter (fun ip => ip ∉ w.mem.knownBans)
  let _ ← attempt (· = .sqlite) (observeLegacyBans bans newly now)
  let foreign := (newly.insertionSort (· ≤ ·)).filter
    (fun ip => (bans.get? ip).any (fun row => row.gpt0 ∉ ownBanCodes))
  foreign.forM (observeBan now)
  Prog.when (¬ (∀ ip ∈ active, ip ∈ w.mem.knownBans) ∨ ¬ (∀ ip ∈ w.mem.knownBans, ip ∈ active))
    (setState fun state => { state with knownBans := (active.insertionSort (· ≤ ·)).take knownBansMax })
  remember fun mem => { mem with knownBans := active }
  Prog.when (foreign ≠ []) (sql (.recordEvents (foreign.map fun ip =>
    { ts := now, ip, eventType := .legacyBan, source := "stick-table", category := "ban"
      detail := "code=" ++ toString (((bans.get? ip).map (·.gpt0)).getD 0) })))

/-- `ingest_tables` up to its lock. -/
def observeTables (tables : Tables) (now : Int) : M Unit := do
  ingestSignedIn tables.signedIn now
  match tables.ban with
  | none => pure ()
  | some bans => observeBans bans now

/-! ## The ban table, under the lock -/

/-- `reconcile_legacy_bans`, address by address until a command fails. -/
def reconcileEach (now : Int) : List Ip → M Unit
  | [] => pure ()
  | ip :: rest => do
    match ← attempt Exc.isOSError (liftLegacy ip) with
    | none => pure ()
    | some code => do
      Prog.when (code ≠ 0) do
        let _ ← emit { ip, eventType := .legacyBanLifted, source := "guardd"
                       detail := "code=" ++ toString code ++ " policy=u02"
                       fingerprint := some (ip ++ "|LEGACY_BAN_LIFTED|" ++ toString now) } now
        let _ ← recordDecision
          { ts := now, ip, action := .lifted, source := .policy, outcome := .applied, code
            policy := .u02 }
        let _ ← settleLegacyObserved ip
        pure ()
      reconcileEach now rest

def legacyIn (bans : Dict Ip Row) : List Ip :=
  (bans.filter (fun _ row => row.flagged ∧ row.gpt0 ∈ legacyBanCodes)).keys.insertionSort (· ≤ ·)

/-- Remember an operator's ban seen in the table. -/
def noteManual (known : Dict Ip ManualBan) (now : Int) (seen : Ip × Row) : M Unit :=
  Prog.when (seen.2.flagged ∧ seen.2.gpt0 = manualBanCode) do
    let remaining := max 0 (seen.2.exp / 1000)
    sql (.noteManualBan seen.1 now (now + remaining))
    Prog.when (known.get? seen.1 = none) do
      let w ← Prog.get
      let _ ← recordDecision
        { ts := now, ip := seen.1, action := .applied, source := .operator, outcome := .applied
          code := manualBanCode, until_ := now + remaining, policy := w.mem.banPolicy }
      pure ()

/-- One remembered ban of `keep_manual_bans`; the start of HAProxy is asked for once. -/
def keepManual (bans : Dict Ip Row) (now : Int) (started : Option Int) (record : Ip × ManualBan) :
    M (Option Int) := do
  let ip := record.1
  let held := (bans.get? ip).any Row.flagged
  let code := ((bans.get? ip).map (·.gpt0)).getD 0
  if record.2.expiresAt ≤ now then do
    Prog.when (record.2.reasserted ∧ held ∧ code = manualBanCode) do
      let _ ← liftCode ip manualBanCode .copy
      pure ()
    sql (.forgetManualBan ip)
    pure started
  else if held then pure started
  else if now ≤ record.2.seenAt then pure started
  else do
    let at_ ← match started with
      | some at_ => pure at_
      | none => startedAt
    if at_ = 0 then pure (some at_)
    else if record.2.seenAt < at_ then do
      if ← restore ip .restore then do
        sql (.markManualReasserted ip)
        let w ← Prog.get
        let _ ← recordDecision
          { ts := now, ip, action := .restored, source := .restart, outcome := .applied
            code := manualBanCode, until_ := record.2.expiresAt, policy := w.mem.banPolicy }
        pure (some at_)
      else pure (some at_)
    else do
      sql (.forgetManualBan ip)
      pure (some at_)

/-- The records in the order of their addresses. -/
def sortedRecords (records : Dict Ip ManualBan) : List (Ip × ManualBan) :=
  records.entries.insertionSort (fun a b => a.1 ≤ b.1)

def keepManualBans (bans : Dict Ip Row) (now : Int) : M Unit := do
  let w ← Prog.get
  bans.entries.forM (noteManual w.db.manualBans now)
  let w ← Prog.get
  let _ ← (sortedRecords w.db.manualBans).foldlM (keepManual bans now) none
  pure ()

/-- The locked part of `ingest_tables`. -/
def ingestBans (bans : Dict Ip Row) (now : Int) : M Unit := do
  let w ← Prog.get
  let legacy := legacyIn bans
  Prog.when (legacy ≠ [] ∧ w.mem.banPolicy = .u02 ∧ w.db.state.banPolicy = .u02)
    (reconcileEach now (legacy.take legacyLiftsPerCycle))
  let _ ← attempt Exc.isOSError (keepManualBans bans now)
  pure ()

def ingestTables (tables : Tables) (now : Int) : M Unit :=
  match tables.ban with
  | none => pure ()
  | some bans => ingestBans bans now

/-! ## Enforcement -/

/-- One pending decision of `settle_pending_decisions`; `standing` and `scheduled` are as
they were when the pass began. -/
def settleOne (standing scheduled : Dict Ip Int) (now : Int) (d : Decision) : M Unit :=
  if standing.get? d.ip = some adaptiveBanCode ∧ scheduled.get? d.ip = none then
    if now < d.until_ then
      sql (.commitBan d.id d.ip d.until_ d.ts
        ("score=" ++ toString d.score ++ " seconds=" ++ toString (d.until_ - d.ts) ++ " [settled]"))
    else do
      -- Its term is over, or it was never ours to keep; left pending when that cannot be told.
      match ← attempt Exc.unsure (lift d.ip .settled) with
      | none => pure ()
      | some _ => sql (.settleDecision d.id .abandoned)
  else sql (.settleDecision d.id .abandoned)

def settlePendingDecisions (now : Int) : M Unit := do
  let w ← Prog.get
  let pending := w.db.pendingDecisions (now - decisionPendingGrace)
  if pending = [] then pure ()
  else do
    match ← attempt Exc.isOSError activeBans with
    | none => pure ()
    | some standing => pending.forM (settleOne standing w.db.scheduledBans now)

/-- One address of the schedule: its time is served, or enforcement is off. -/
def expireOne (enforcing : Bool) (now : Int) (ban : Ip × Int) : M Unit := do
  let served := decide (ban.2 ≤ now)
  Prog.when (enforcing = false ∨ served) do
    match ← attempt Exc.unsure (lift ban.1 (if served then .expiry else .pause)) with
    | none => pure ()
    | some takenOff => do
      Prog.when takenOff do
        let _ ← emit { ip := ban.1, eventType := .banLifted, source := "guardd"
                       detail := if enforcing then "expired" else "enforcement disabled"
                       fingerprint := some (ban.1 ++ "|BAN_LIFTED|" ++ toString ban.2) } now
        let w ← Prog.get
        let _ ← recordDecision
          { ts := now, ip := ban.1, action := .lifted, source := if served then .expiry else .mode
            outcome := .applied, code := adaptiveBanCode, until_ := ban.2, policy := w.mem.banPolicy }
        pure ()
      Prog.when served (sql (.clearBan ban.1))

/-- What is left of this daemon's bans while enforcement is off. -/
def sweepOne (scheduled : Dict Ip Int) (ip : Ip) : M Unit :=
  Prog.when (scheduled.get? ip = none) do
    let _ ← attempt Exc.unsure (lift ip .leftover)
    pure ()

def reassertOne (standing : Dict Ip Int) (now : Int) (ban : Ip × Int) : M Unit :=
  Prog.when (now < ban.2 ∧ standing.get? ban.1 = none) do
    let _ ← Enforcer.ban ban.1 .reassert
    pure ()

section Reputation

variable (w : World) (now : Int) (ip : Ip)

/-- The events `reputation` scores. -/
def scoredEvents : List SecurityEvent := w.db.eventsFor ip (now - scoreWindowSeconds) 500

/-- `reputation(ip)["score"]`: an exempt address has no standing. -/
def reputationScore : Int :=
  if (w.verdict ip).excluded then 0 else scoreEvents w.mem.banPolicy now (scoredEvents w now ip)

/-- `", ".join(sorted(row["categories"]))`. -/
def reputationCategories : String :=
  let points := (scoredEvents w now ip).foldl (scoreEvent w.mem.banPolicy now) {}
  ", ".intercalate (points.perCategory.keys.insertionSort (· ≤ ·))

/-- Why this address must not be banned, whatever its score. -/
def banBlockers : List String :=
  let exempt := if (w.verdict ip).excluded then ["exempt (" ++ (w.verdict ip).reason ++ ")"] else []
  let authenticatedAt := w.db.authenticatedAt ip
  let signedIn :=
    if authenticatedAt = 0 then []
    else if w.mem.banPolicy ≠ .u02 then ["has authenticated before"]
    else if now - trustAfterSignInSeconds ≤ authenticatedAt then ["signed in within the last 7 days"]
    else []
  let path := if !enforceable ip then ["IPv4-only ban path"] else []
  exempt ++ signedIn ++ path

/-- Nothing has happened since the last ban that `newest_finding_ts` would take for a finding. -/
def staleEvidence : Bool :=
  w.db.lastBanTs ip ≠ 0 ∧ w.db.newestFindingTs ip ≤ w.db.lastBanTs ip

/-- The tests of the ban loop, in its order, on the schedule and the table it read. -/
def qualifies (scheduled standing : Dict Ip Int) : Bool :=
  wouldBanScore ≤ reputationScore w now ip ∧ scheduled.getD ip 0 ≤ now ∧
    standing.getD ip adaptiveBanCode = adaptiveBanCode ∧ banBlockers w now ip = [] ∧
    ¬ staleEvidence w ip

end Reputation

/-- One row of the ban loop. -/
def considerRow (scheduled standing : Dict Ip Int) (now : Int) (ip : Ip) : M Unit := do
  let w ← Prog.get
  Prog.when (qualifies w now ip scheduled standing) do
    let duration := banDuration w.mem.banDurations w.mem.banDurationsChangedAt ip now w.db
    let strike := strikeLevel w.mem.banDurations w.mem.banDurationsChangedAt ip now w.db + 1
    let score := reputationScore w now ip
    let id ← recordDecision
      { ts := now, ip, action := .applied, source := .adaptive, outcome := .pending
        code := adaptiveBanCode, until_ := now + duration, strike := strike, score
        policy := w.mem.banPolicy }
    if ← Enforcer.ban ip (.decision id) then
      sql (.commitBan id ip (now + duration) now
        ("score=" ++ toString score ++ " seconds=" ++ toString duration ++ " [" ++
          reputationCategories w now ip ++ "]"))
    else do
      sql (.settleDecision id .failed)
      remember fun mem => { mem with queue := mem.queue.mark ip true }

/-- The sweep's page, from the start again when the last one was the end. -/
def sweepPage (now : Int) (allowance : Nat) : M (List (Int × Ip)) := do
  let w ← Prog.get
  Prog.when (w.mem.scanBefore = 0) (remember fun mem => { mem with scanBefore := now })
  let w ← Prog.get
  let page := w.db.enforcementAddresses w.mem.scanAfter w.mem.scanBefore allowance
  if page = [] ∧ w.mem.scanAfter ≠ (0, "") then do
    remember fun mem => { mem with scanAfter := (0, ""), scanBefore := now }
    pure (w.db.enforcementAddresses (0, "") now allowance)
  else pure page

/-- `_enforcement_rows` and the ban loop over them: fresh findings first, then a page of
every other address. -/
def enforcementRows (scheduled standing : Dict Ip Int) (now : Int) : M Unit := do
  let w ← Prog.get
  let pending := w.mem.queue.batch (enforcementBatch - enforcementSweepReserve)
  pending.forM fun (ip, generation) => do
    considerRow scheduled standing now ip
    remember fun mem => { mem with queue := mem.queue.acknowledge ip generation }
  let allowance := enforcementBatch - pending.length
  let page ← sweepPage now allowance
  page.forM fun (firstSeen, ip) => do
    Prog.when (ip ∉ pending.map Prod.fst) (considerRow scheduled standing now ip)
    remember fun mem => { mem with scanAfter := (firstSeen, ip) }
  Prog.when (page.length < allowance)
    (remember fun mem => { mem with scanAfter := (0, ""), scanBefore := 0 })
  let w ← Prog.get
  setState fun state => { state with scanAfter := w.mem.scanAfter, scanBefore := w.mem.scanBefore }

/-- `_apply_enforcement`: ban what qualifies, lift what has served its time. -/
def applyEnforcement (now : Int) : M Unit := do
  settlePendingDecisions now
  let w ← Prog.get
  let scheduled := w.db.scheduledBans
  let enforcing := decide (w.mem.mode = .enforce)
  scheduled.entries.forM (expireOne enforcing now)
  if !enforcing then do
    let left ← adaptiveBans
    left.forM (sweepOne scheduled)
  else do
    let standing ← activeBans
    scheduled.entries.forM (reassertOne standing now)
    enforcementRows scheduled standing now

/-! ## The poll -/

/-- `refresh_ban_policy`: follow the policy in the configuration and mark a switch. -/
def refreshBanPolicy : M Unit := do
  let w ← Prog.get
  remember fun mem => { mem with banPolicy := w.policy }
  Prog.when (w.db.state.banPolicy ≠ w.policy) do
    -- Every entry is written to a file before a switch to u02 is marked.
    let snapshot ← if w.policy = .u02 then attempt Exc.isOSError readTable else pure (some .empty)
    Prog.when snapshot.isSome (setState fun state => { state with banPolicy := w.policy })

def readOrLeaveOut {α : Type} (m : M α) : M (Option α) :=
  attempt (fun e => e = .tableUnreadable ∨ e = .answerTooLarge) m

def readTables : M Tables := do
  if ← listTables then do
    let ban ← readOrLeaveOut readTable
    let signedIn ← readOrLeaveOut readSignedIn
    pure { ban, signedIn }
  else pure { ban := some .empty, signedIn := some .empty }

/-- `poll`, nothing else happening meanwhile. -/
def poll (findings : List Finding) (now : Int) : M Unit := do
  refreshBanPolicy
  let tables ← readTables
  observeTables tables now
  ingestTables tables now
  ingestFindings findings now
  applyEnforcement now

/-! ## Requests -/

structure Forgotten where
  refused : Bool
  wasScheduled : Bool
  lifted : Bool
  cleared : Bool
  deriving DecidableEq

/-- `forget_ban` of an address, blanks around it gone: drop this daemon's hold on it,
because a person said so. -/
def forgetBan (ip : Ip) (now : Int) : M Forgotten :=
  if ip = "" then Prog.throw (.valueError "an address is required")
  else do
    let w ← Prog.get
    let held := w.db.scheduledBans.getD ip 0
    let manual := w.db.manualBans.contains ip
    sql (.clearBan ip)
    sql (.forgetManualBan ip)
    let lifted ← attempt Exc.unsure (lift ip .operator)
    let released ← if lifted.isSome then attempt Exc.unsure (release ip) else pure none
    let refused := released.isNone
    let gone := lifted.getD false
    Prog.when (held ≠ 0 ∨ gone) do
      let _ ← emit { ip, eventType := .banLifted, source := "operator", detail := "cleared by hand"
                     fingerprint := some (ip ++ "|BAN_LIFTED|" ++ toString now) } now
      pure ()
    let legacy ← settleLegacyObserved ip
    Prog.when (held ≠ 0 ∨ gone ∨ manual ∨ legacy ≠ 0) do
      let w ← Prog.get
      let _ ← recordDecision
        { ts := now, ip, action := .lifted, source := .operator
          outcome := if refused then .failed else .applied
          code := if held ≠ 0 ∨ gone then adaptiveBanCode else if manual then manualBanCode else legacy
          until_ := held, policy := w.mem.banPolicy }
      pure ()
    pure { refused, wasScheduled := held ≠ 0, lifted := gone || released.getD false, cleared := !refused }

/-- What was remembered before a ban that HAProxy did not take is put back. -/
def putBack (ip : Ip) (remembered : Bool) (previous : Option ManualBan) : M Unit :=
  Prog.when remembered do
    let _ ← attempt (· = .sqlite) (match previous with
      | some row => sql (.writeManualBan ip row)
      | none => sql (.forgetManualBan ip))
    pure ()

/-- `place_manual_ban` of an address, blanks around it gone. -/
def placeManualBan (ip : Ip) (now : Int) : M (Int × Bool) :=
  if !enforceable ip then Prog.throw (.valueError "only an IPv4 address can be banned")
  else do
    let w ← Prog.get
    let previous := w.db.manualBans.get? ip
    let row (till : Int) : ManualBan := { placedAt := now, expiresAt := till, seenAt := now }
    let first ← attempt (· = .sqlite) (sql (.writeManualBan ip (row (now + manualBanDefaultSeconds))))
    let remembered := first.isSome
    let placed ← Prog.tryCatch (restore ip .byHand) (fun e => do
      -- The answer is lost: the next poll sees what HAProxy holds.
      Prog.when (Exc.isOSError e) (putBack ip remembered previous)
      Prog.throw e)
    if !placed then do
      putBack ip remembered previous
      Prog.throw .manualBanRefused
    else do
      let rows ← attempt Exc.isOSError readTable
      let left := ((rows.bind (fun rows => rows.get? ip)).map (·.exp)).getD 0
      let till := if 0 < left then now + left / 1000 else now + manualBanDefaultSeconds
      let second ← attempt (· = .sqlite) (do
        sql (.writeManualBan ip (row till))
        let w ← Prog.get
        recordDecision
          { ts := now, ip, action := .applied, source := .operator, outcome := .applied
            code := manualBanCode, until_ := till, policy := w.mem.banPolicy })
      pure (till, remembered && second.isSome)

/-- `set_mode`: switch, and reconcile at once. -/
def setMode (mode : Mode) (now : Int) : M Unit := do
  setState fun state => { state with modeOverride := some mode }
  remember fun mem => { mem with mode }
  applyEnforcement now

def setBanDurations (data : Json) (now : Int) : M Unit :=
  match validateBanDurations data with
  | .error text => Prog.throw (.valueError text)
  | .ok ladder => do
    setState fun state => { state with banDurations := some ladder }
    setState fun state => { state with banDurationsChangedAt := now }
    remember fun mem => { mem with banDurations := ladder, banDurationsChangedAt := now }

/-- `run_maintenance`: ban records outlive findings by as long as the ladder counts them. -/
def maintain (eventRetentionDays now : Int) : M Unit := do
  let w ← Prog.get
  let cutoff := now - eventRetentionDays * 86400
  let banCutoff := min cutoff (now - longestStrikeRetention w.mem.banDurations)
  sql (.applyRetention cutoff banCutoff)
  sql (.pruneDecisions banCutoff decisionsKeepRows now)

/-- `_recover_enforcement_checks`: the findings a stopped daemon had not come to. -/
def recoverQueue (policy : BanPolicy) (now : Int) (queue : EnforcementQueue) (db : Database) :
    EnforcementQueue :=
  (db.recentFindings 1000).foldl
    (fun queue e =>
      if e.ts < now - scoreWindowSeconds ∨ e.eventType.defaultWeight = none ∨ excused e then queue
      else queue.mark e.ip (wouldBanScore ≤ e.eventType.weight policy))
    queue

def defaultBanDurations : List Int := [3600, 7 * 86400, 30 * 86400, 90 * 86400]

/-- `GuardEngine.__init__`: what a started daemon remembers. -/
def Memory.load (mode : Mode) (limit : Nat) (now : Int) (db : Database) : Memory :=
  { mode := db.state.modeOverride.getD mode
    banDurations := db.state.banDurations.getD defaultBanDurations
    banDurationsChangedAt := db.state.banDurationsChangedAt
    knownBans := db.state.knownBans
    legacyObserved := db.state.legacyObserved
    queue := recoverQueue .legacy now { limit := max 1 limit } db
    scanAfter := db.state.scanAfter
    scanBefore := db.state.scanBefore }

end EasyHaProxy.Guardd
