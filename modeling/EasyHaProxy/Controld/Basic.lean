import EasyHaProxy.Lib.Dict
import EasyHaProxy.Lib.Program

/-! The files a guarded configuration change touches, the transaction that is persisted beside them, and the
writes the daemon makes, one label for each. -/
namespace EasyHaProxy.Controld

abbrev Bytes := List UInt8

/-- `CONFIG_SOURCE_FILENAMES`. -/
inductive SourceName
  | tcp
  | vars
  | websites
  deriving DecidableEq

def SourceName.filename : SourceName → String
  | .tcp => "tcp.yml"
  | .vars => "vars.yml"
  | .websites => "websites.yml"

/-- The files in the order of their names. -/
def sourceNames : List SourceName := [.tcp, .vars, .websites]

/-- The countries of `selection.json`. -/
structure Selection where
  countries : List String
  accessFilterEnabled : Bool
  deriving DecidableEq

/-- What `state.json` of a GeoIP release says, and whether its files are as it says. -/
structure Release where
  countries : List String
  accessFilterEnabled : Bool
  databaseSha256 : String
  allowedSha256 : String
  intact : Bool
  allowedEmpty : Bool
  deriving DecidableEq

/-- Is the release built for the selection, with all its files? -/
def Release.serves (release : Release) (selection : Selection) : Prop :=
  release.countries = selection.countries ∧
    release.accessFilterEnabled = selection.accessFilterEnabled ∧ release.intact = true

instance {release : Release} {selection : Selection} : Decidable (release.serves selection) :=
  inferInstanceAs (Decidable (_ ∧ _ ∧ _))

structure Fingerprint where
  selectionSha256 : String
  release : String
  databaseSha256 : String
  allowedSha256 : String
  deriving DecidableEq

/-- What a guarded change may touch; `release` is empty when no release is active. -/
@[ext]
structure Host where
  config : Bytes
  sources : SourceName → Option Bytes
  allowlist : Option Bytes
  selection : Option Bytes
  release : String

/-! ## The transaction -/

inductive TransactionState
  | prepared
  | pendingConfirmation
  | rollingBack
  | rollbackFailed
  | rolledBack
  | confirmed
  deriving DecidableEq

/-- `CONFIG_TRANSACTION_ACTIVE_STATES`. -/
def TransactionState.active : TransactionState → Bool
  | .prepared | .pendingConfirmation | .rollingBack | .rollbackFailed => true
  | .rolledBack | .confirmed => false

structure AllowlistState where
  candidateSha256 : String
  previousPresent : Bool
  previous : Bytes
  deriving DecidableEq

/-- The file as it was, absent or with its content. -/
def AllowlistState.before (a : AllowlistState) : Option Bytes :=
  if a.previousPresent then some a.previous else none

structure GeoipState where
  candidateSelection : Selection
  candidateFingerprint : Option Fingerprint
  previousPresent : Bool
  previousSelection : Bytes
  previousRelease : String
  deriving DecidableEq

def GeoipState.before (g : GeoipState) : Option Bytes :=
  if g.previousPresent then some g.previousSelection else none

/-- `transaction.json`. The four fields that hold rollback material are dropped at the end. -/
structure Transaction where
  id : String
  state : TransactionState
  candidateSha256 : String
  candidateSourceSha256 : Dict SourceName String
  deadline : Nat := 0
  rollbackReason : String := ""
  historyVersion : String := ""
  previousConfig : Option Bytes
  previousSources : Option (Dict SourceName Bytes)
  allowlist : Option AllowlistState
  geoip : Option GeoipState

def Transaction.dropMaterial (t : Transaction) : Transaction :=
  { t with previousConfig := none, previousSources := none, allowlist := none, geoip := none }

/-- What `begin-config-transaction` asks for. -/
structure BeginRequest where
  config : Bytes
  candidate : Dict SourceName Bytes
  previous : Dict SourceName Bytes
  geoipSelection : Option Selection := none
  adminAllowlist : Option (List String) := none
  timeoutSeconds : Int

/-! ## The configuration history -/

/-- The name of a version's directory: a timestamp, then the start of its generation. -/
structure VersionId where
  timestamp : Nat
  generation : String
  deriving DecidableEq

/-- Directory names compare as texts; the timestamp has a fixed width. -/
def VersionId.le (a b : VersionId) : Bool :=
  a.timestamp < b.timestamp || (a.timestamp == b.timestamp && a.generation ≤ b.generation)

def VersionId.text (v : VersionId) : String := toString v.timestamp ++ "." ++ v.generation

structure Version where
  id : VersionId
  generation : String
  parent : Option VersionId
  transactionId : String
  cfgSha256 : String
  files : List (SourceName × Bytes)
  deriving DecidableEq

/-! ## The world -/

/-- What the daemon computes with, and this model takes as given. -/
structure Daemon where
  sha256 : Bytes → String
  /-- `_enforce_config_policy`. -/
  policy : Bytes → Bool
  /-- `_validate_guarded_control_plane_transition`, for the checks of a request. -/
  transition : Bytes → Bytes → Bool
  utf8 : Bytes → Bool
  /-- The countries of a selection file, `none` when it is malformed. -/
  readSelection : Bytes → Option Selection
  /-- `_canonical_config_geoip_selection`. -/
  selectionRaw : Selection → Bytes
  /-- `_canonical_admin_allowlist_raw`, `none` for an entry that is no address. -/
  allowlistRaw : List String → Option Bytes

structure World where
  host : Host
  releases : String → Option Release
  transaction : Option Transaction := none
  history : List Version := []
  /-- What `time.time()` said last. -/
  clock : Nat := 0
  /-- What the transaction was asked for, and the host it is to restore. -/
  begun : Option (BeginRequest × Host) := none
  /-- Did anybody else write the host's files since? -/
  edited : Bool := false
  /-- The transactions confirmed so far with the sources then on disk, newest first. -/
  confirmed : List (String × List (SourceName × Bytes)) := []

/-- The managed files that exist, in the order of their names. -/
def Host.managed (h : Host) : List (SourceName × Bytes) :=
  sourceNames.filterMap fun name => (h.sources name).map fun content => (name, content)

def Host.setSource (h : Host) (name : SourceName) (content : Bytes) : Host :=
  { h with sources := Function.update h.sources name (some content) }

/-- The sources of a mapping, put in place. -/
def Host.setSources (h : Host) (files : Dict SourceName Bytes) : Host :=
  { h with sources := fun name => (files.get? name).or (h.sources name) }

/-- One persisted write. Those of the host's files name the transaction they belong to. -/
inductive Write
  | clock (now : Nat)
  | persist (t : Transaction)
  | begin (t : Transaction) (request : BeginRequest)
  | config (raw : Bytes) (owner : Option String)
  | source (name : SourceName) (content : Bytes) (owner : Option String)
  | allowlist (raw : Option Bytes) (owner : Option String)
  | selection (raw : Option Bytes) (owner : Option String)
  | release (name : String) (owner : Option String)
  | geoipUpdate (name : String) (built : Release) (owner : Option String)
  | addVersion (v : Version)
  | dropVersion (id : VersionId)

def Write.apply (w : World) : Write → World
  | .clock now => { w with clock := now }
  | .persist t =>
    { w with
      transaction := some t
      confirmed := if t.state = .confirmed then (t.id, w.host.managed) :: w.confirmed else w.confirmed }
  | .begin t request =>
    { w with
      transaction := some t
      begun := some (request, w.host.setSources request.previous)
      edited := false }
  | .config raw owner =>
    { w with host := { w.host with config := raw }, edited := w.edited || owner.isNone }
  | .source name content _ => { w with host := w.host.setSource name content }
  | .allowlist raw _ => { w with host := { w.host with allowlist := raw } }
  | .selection raw _ => { w with host := { w.host with selection := raw } }
  | .release name _ => { w with host := { w.host with release := name } }
  | .geoipUpdate name built _ =>
    { w with
      host := { w.host with release := name }
      releases := Function.update w.releases name (some built) }
  | .addVersion v => { w with history := v :: w.history }
  | .dropVersion id => { w with history := w.history.filter fun v => v.id ≠ id }

/-- Which transaction a write of the host's files belongs to; `none` for other writes. -/
def Write.owner : Write → Option (Option String)
  | .config _ owner | .source _ _ owner | .allowlist _ owner | .selection _ owner | .release _ owner
  | .geoipUpdate _ _ owner => some owner
  | .clock _ | .persist _ | .begin .. | .addVersion _ | .dropVersion _ => none

/-! ## Programs -/

/-- How an atomic replacement goes: as asked, not at all, or so that the error comes after
the file was replaced. -/
inductive Replacing
  | done
  | failed
  | late
  deriving DecidableEq

/-- A run of the GeoIP updater: whether it succeeds, and the release it leaves active. -/
structure UpdaterRun where
  ok : Bool := true
  release : Option (String × Release) := none

inductive Exc
  | valueError (text : String)
  | runtimeError (text : String)
  | osError
  deriving DecidableEq

/-- The answers to come. -/
structure Script where
  /-- Is the lock free, for the requests that do not wait for it? -/
  lock : List Bool := []
  reads : List Bool := []
  /-- The replacements of `transaction.json`. -/
  persists : List Replacing := []
  /-- Those of all other files. -/
  writes : List Replacing := []
  /-- `haproxy -c`. -/
  checks : List Bool := []
  reloads : List Bool := []
  /-- Do all control-plane checks pass? -/
  probes : List Bool := []
  updates : List UpdaterRun := []
  times : List Nat := []
  /-- What the clock says when these are used up. -/
  restTime : Nat := 0
  tokens : List String := []

namespace Script

def nextLock (s : Script) : Bool × Script := (s.lock.headD true, { s with lock := s.lock.tail })
def nextRead (s : Script) : Bool × Script := (s.reads.headD true, { s with reads := s.reads.tail })
def nextPersist (s : Script) : Replacing × Script :=
  (s.persists.headD .done, { s with persists := s.persists.tail })
def nextWrite (s : Script) : Replacing × Script := (s.writes.headD .done, { s with writes := s.writes.tail })
def nextCheck (s : Script) : Bool × Script := (s.checks.headD true, { s with checks := s.checks.tail })
def nextReload (s : Script) : Bool × Script := (s.reloads.headD true, { s with reloads := s.reloads.tail })
def nextProbe (s : Script) : Bool × Script := (s.probes.headD true, { s with probes := s.probes.tail })
def nextUpdate (s : Script) : UpdaterRun × Script := (s.updates.headD {}, { s with updates := s.updates.tail })
def nextTime (s : Script) : Nat × Script := (s.times.headD s.restTime, { s with times := s.times.tail })
def nextToken (s : Script) : String × Script := (s.tokens.headD "", { s with tokens := s.tokens.tail })

end Script

abbrev M := Prog Script World Write Exc

def perform (l : Write) : M Unit := Prog.write l (fun w => l.apply w)

/-- One atomic replacement of a file. -/
def replacing (next : Script → Replacing × Script) (l : Write) : M Unit := do
  match ← Prog.ask next with
  | .done => perform l
  | .failed => Prog.throw .osError
  | .late => do
    perform l
    Prog.throw .osError

def replace (l : Write) : M Unit := replacing Script.nextWrite l

/-- `time.time()`, in milliseconds. -/
def readClock : M Nat := do
  let now ← Prog.ask Script.nextTime
  perform (.clock now)
  pure now

/-- A read of the host, which may fail. -/
def readHost : M Host := do
  if ← Prog.ask Script.nextRead then
    let w ← Prog.get
    pure w.host
  else Prog.throw .osError

def require (condition : Prop) [Decidable condition] (e : Exc) : M Unit :=
  Prog.when (¬ condition) (Prog.throw e)

def attempt {α : Type} (m : M α) : M (Except Exc α) :=
  Prog.tryCatch (do let a ← m; pure (.ok a)) (fun e => pure (.error e))

/-- Did a program end without an exception? -/
def succeeds (m : M Unit) : M Bool := do
  match ← attempt m with
  | .ok _ => pure true
  | .error _ => pure false

end EasyHaProxy.Controld
