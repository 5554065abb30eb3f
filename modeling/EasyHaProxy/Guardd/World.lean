import EasyHaProxy.Lib.Program
import EasyHaProxy.Guardd.Database
import EasyHaProxy.Guardd.Queue

/-! The state guardd works on and the writes it makes to it, one label for each: a runtime command, an SQL
statement, a change of its own memory. -/
namespace EasyHaProxy.Guardd

/-! ## HAProxy -/

/-- A row of `tbl_ban` as `show table` prints it; `exp` is what is left of it, in milliseconds. -/
structure Row where
  gpc0 : Int
  gpt0 : Int
  exp : Int
  deriving DecidableEq

def Row.flagged (row : Row) : Bool := 0 < row.gpc0

/-- Why `set table` writes a flagged entry. -/
inductive Placing
  | reassert
  | decision (id : Nat)
  | restore
  | byHand
  deriving DecidableEq

def Placing.code : Placing → Int
  | .reassert => adaptiveBanCode
  | .decision _ => adaptiveBanCode
  | .restore => manualBanCode
  | .byHand => manualBanCode

/-- Why `clear table` takes an entry off. -/
inductive Lifting
  | expiry
  | pause
  | leftover
  | settled
  | legacy
  | copy
  | operator
  deriving DecidableEq

/-- Which list makes an address trusted, in the order the lists are looked through. -/
inductive TrustSource
  | loopback
  | whitelist
  | admin
  | geoWhitelist
  | trustedNetwork
  deriving DecidableEq

/-! ## The daemon -/

/-- What the engine keeps between cycles. -/
structure Memory where
  mode : Mode
  banPolicy : BanPolicy := .legacy
  banDurations : List Int
  banDurationsChangedAt : Int := 0
  knownBans : List Ip := []
  legacyObserved : Dict Ip Int := .empty
  authenticated : List Ip := []
  queue : EnforcementQueue := {}
  scanAfter : Int × Ip := (0, "")
  scanBefore : Int := 0

/-- The tables of one read; `none` for one left out because it could not be read. -/
structure Tables where
  ban : Option (Dict Ip Row)
  signedIn : Option (Dict Ip Int)

/-- How far the poll in progress has come. -/
inductive Cycle
  | idle
  | tablesRead (now : Int) (tables : Tables)
  | observed (now : Int) (tables : Tables)
  | ingested (now : Int)
  | recorded (now : Int)

structure World where
  table : Dict Ip BanEntry := .empty
  signedIn : Dict Ip Int := .empty
  startedAt : Int := 0
  /-- Milliseconds; the daemons read whole seconds of it. -/
  clock : Int
  /-- How long `tbl_ban` keeps an entry, in milliseconds. -/
  tableExpire : Int := 7 * 86400 * 1000
  nextStanding : Nat := 1
  lists : Ip → List TrustSource := fun _ => []
  policy : BanPolicy := .legacy
  db : Database := {}
  mem : Memory
  cycle : Cycle := .idle
  /-- The standing ban each decision was carried out as; none for one just written down. -/
  placed : Dict Nat Nat := .empty

namespace World

/-- `_utc_now()`. -/
def now (w : World) : Int := w.clock / 1000

def flagged (w : World) (ip : Ip) : Bool := (w.table.get? ip).any BanEntry.flagged

/-- A flagged entry with this reason code. -/
def holds (w : World) (ip : Ip) (code : Int) : Bool :=
  (w.table.get? ip).any (fun e => e.flagged && e.gpt0 == code)

/-- `show table tbl_ban`. -/
def rows (w : World) : Dict Ip Row :=
  w.table.mapValues (fun _ e => { gpc0 := e.gpc0, gpt0 := e.gpt0, exp := e.expires - w.clock })

/-- The number of the ban standing on an address, a new one when none stands. -/
def standingFor (w : World) (ip : Ip) : Nat :=
  match w.table.get? ip with
  | some e => if e.flagged then e.standing else w.nextStanding
  | none => w.nextStanding

/-- `set table tbl_ban key <ip> data.gpc0 1 data.gpt0 <code>`. -/
def setTable (w : World) (ip : Ip) (placing : Placing) : World :=
  let entry : BanEntry := { gpc0 := 1, gpt0 := placing.code, expires := w.clock + w.tableExpire, standing := w.standingFor ip }
  { w with
    table := w.table.set ip entry
    nextStanding := if w.flagged ip then w.nextStanding else w.nextStanding + 1
    placed := match placing with
      | .decision id => w.placed.set id (w.standingFor ip)
      | _ => w.placed }

/-- `set table tbl_ban key <ip> data.gpc0 0`: the code stays, the flag goes. -/
def unflag (w : World) (ip : Ip) : World :=
  { w with table := w.table.modify ip (fun e => { e with gpc0 := 0, expires := w.clock + w.tableExpire }) }

/-- `ExclusionModel.verdict`. -/
def verdict (w : World) (ip : Ip) : Verdict :=
  if ip ∈ w.mem.authenticated then { excluded := true, reason := "authenticated" }
  else if ipVersion ip = none then { excluded := true, reason := "unparsable" }
  else
    match (w.lists ip).find? (fun l => l ≠ .geoWhitelist ∨ w.mem.banPolicy ≠ .u02) with
    | none => { excluded := false, reason := "" }
    | some .loopback => { excluded := true, reason := "local" }
    | some .whitelist => { excluded := true, reason := "whitelisted", source := "whitelist" }
    | some .admin => { excluded := true, reason := "whitelisted", source := "admin" }
    | some .geoWhitelist => { excluded := true, reason := "whitelisted", source := "geo-whitelist" }
    | some .trustedNetwork => { excluded := true, reason := "whitelisted", source := "trusted-network" }

end World

/-! ## Writes -/

/-- One committed statement of the database. -/
inductive DbWrite
  | observeIp (ip : Ip) (ts : Int) (verdict : Verdict)
  | recordEvents (es : List SecurityEvent)
  | recordAuthenticated (ips : List Ip) (ts : Int)
  | clearBan (ip : Ip)
  | recordDecision (d : Decision)
  | settleDecision (id : Nat) (outcome : DecisionOutcome)
  | commitBan (id : Nat) (ip : Ip) (till now : Int) (detail : String)
  | noteManualBan (ip : Ip) (now expiresAt : Int)
  | writeManualBan (ip : Ip) (row : ManualBan)
  | markManualReasserted (ip : Ip)
  | forgetManualBan (ip : Ip)
  | noteCooldown (fingerprint : String) (ts : Int)
  | setState (state : GuardState)
  | applyRetention (eventsBefore bansBefore : Int)
  | pruneDecisions (before : Int) (keep : Nat) (now : Int)

def DbWrite.apply (db : Database) : DbWrite → Database
  | .observeIp ip ts verdict => db.observeIp ip ts verdict
  | .recordEvents es => db.recordEvents es
  | .recordAuthenticated ips ts => db.recordAuthenticated ips ts
  | .clearBan ip => db.clearBan ip
  | .recordDecision d => db.recordDecision d
  | .settleDecision id outcome => db.settleDecision id outcome
  | .commitBan id ip till now detail => db.commitBan id ip till adaptiveBanCode now detail
  | .noteManualBan ip now expiresAt => db.noteManualBan ip now expiresAt
  | .writeManualBan ip row => db.writeManualBan ip row
  | .markManualReasserted ip => db.markManualReasserted ip
  | .forgetManualBan ip => db.forgetManualBan ip
  | .noteCooldown fingerprint ts => db.noteCooldown fingerprint ts
  | .setState state => { db with state }
  | .applyRetention eventsBefore bansBefore => db.applyRetention eventsBefore bansBefore
  | .pruneDecisions before keep now => db.pruneDecisions before keep now

inductive Write
  | setTable (ip : Ip) (placing : Placing)
  | unflag (ip : Ip)
  | clearTable (ip : Ip) (lifting : Lifting)
  | sql (op : DbWrite)
  | memory (mem : Memory)

def Write.apply (w : World) : Write → World
  | .setTable ip placing => w.setTable ip placing
  | .unflag ip => w.unflag ip
  | .clearTable ip _ => { w with table := w.table.erase ip }
  | .sql (.recordDecision d) =>
    { w with db := w.db.recordDecision d, placed := w.placed.erase w.db.nextDecisionId }
  | .sql op => { w with db := op.apply w.db }
  | .memory mem => { w with mem }

/-! ## Programs -/

/-- How HAProxy takes a command: as asked, with a refusal, with an answer past the limit,
or not at all as far as the daemon can tell. -/
inductive Answer
  | done
  | refused
  | tooLarge
  | lost (performed : Bool)
  deriving DecidableEq

inductive Exc
  | liftRefused
  | tableUnreadable
  | answerTooLarge
  | osError
  | sqlite
  | valueError (text : String)
  | manualBanRefused
  deriving DecidableEq

/-- `BAN_TABLE_UNSURE`. -/
def Exc.unsure : Exc → Bool
  | .liftRefused | .tableUnreadable | .answerTooLarge => true
  | _ => false

/-- The subclasses of `OSError`. -/
def Exc.isOSError : Exc → Bool
  | .liftRefused | .tableUnreadable | .answerTooLarge | .osError => true
  | _ => false

/-- The answers to come, command by command, and whether each statement commits. -/
structure Script where
  lists : List Answer := []
  shows : List Answer := []
  sets : List Answer := []
  clears : List Answer := []
  infos : List Answer := []
  sql : List Bool := []
  deriving DecidableEq

namespace Script

def nextList (s : Script) : Answer × Script := (s.lists.headD .done, { s with lists := s.lists.tail })
def nextShow (s : Script) : Answer × Script := (s.shows.headD .done, { s with shows := s.shows.tail })
def nextSet (s : Script) : Answer × Script := (s.sets.headD .done, { s with sets := s.sets.tail })
def nextClear (s : Script) : Answer × Script := (s.clears.headD .done, { s with clears := s.clears.tail })
def nextInfo (s : Script) : Answer × Script := (s.infos.headD .done, { s with infos := s.infos.tail })
def nextSql (s : Script) : Bool × Script := (s.sql.headD true, { s with sql := s.sql.tail })

end Script

abbrev M := Prog Script World Write Exc

def perform (l : Write) : M Unit := Prog.write l (fun w => l.apply w)

/-- A command that changes the table; false when HAProxy answers with a text. -/
def command (next : Script → Answer × Script) (l : Write) : M Bool := do
  match ← Prog.ask next with
  | .done => do
    perform l
    pure true
  | .refused => pure false
  | .tooLarge => Prog.throw .answerTooLarge
  | .lost false => Prog.throw .osError
  | .lost true => do
    perform l
    Prog.throw .osError

/-- A command that only reads: its answer, a refusal, or no answer to speak of. -/
def asking {α : Type} (next : Script → Answer × Script) (done refused : M α) : M α := do
  match ← Prog.ask next with
  | .done => done
  | .refused => refused
  | .tooLarge => Prog.throw .answerTooLarge
  | .lost _ => Prog.throw .osError

/-- `list_tables(runtime_command(socket, "show table"))`: whether the answer lists the tables.
One that is a refusal, or nothing, lists none. -/
def listTables : M Bool := asking Script.nextList (pure true) (pure false)

/-- `read_table(socket, "tbl_ban")`. -/
def readTable : M (Dict Ip Row) :=
  asking Script.nextShow (do let w ← Prog.get; pure w.rows) (Prog.throw .tableUnreadable)

/-- `read_table(socket, "tbl_ip_auth")`. -/
def readSignedIn : M (Dict Ip Int) :=
  asking Script.nextShow (do let w ← Prog.get; pure w.signedIn) (Prog.throw .tableUnreadable)

/-- One statement, committed or failed. -/
def sql (op : DbWrite) : M Unit := do
  if ← Prog.ask Script.nextSql then perform (.sql op) else Prog.throw .sqlite

def remember (f : Memory → Memory) : M Unit := do
  let w ← Prog.get
  perform (.memory (f w.mem))

/-- `database.set_state` of one of the keys. -/
def setState (f : GuardState → GuardState) : M Unit := do
  let w ← Prog.get
  sql (.setState (f w.db.state))

/-- `record_decision`, which returns the new row's id. -/
def recordDecision (d : Decision) : M Nat := do
  let w ← Prog.get
  sql (.recordDecision d)
  pure w.db.nextDecisionId

end EasyHaProxy.Guardd
