import EasyHaProxy.Controld.Basic
import EasyHaProxy.Lib.Text

/-! `begin` applies a candidate and leaves it pending, `confirm` keeps it, and a rollback puts back what was
there: the YAML, the admin allow list, the GeoIP state and then the HAProxy configuration. -/
namespace EasyHaProxy.Controld

def maxConfigBytes : Nat := 4 * 1024 * 1024
def maxTransactionSourceFileBytes : Nat := 2 * 1024 * 1024
def configTransactionMinTimeout : Int := 1
def configTransactionMaxTimeout : Int := 900
def configHistoryKeep : Nat := 50
def adminAllowlistMaxBytes : Nat := 64 * 1024
def geoipMaxSelectionBytes : Nat := 16 * 1024

namespace Daemon

variable (d : Daemon)

/-! ## The HAProxy configuration -/

/-- `haproxy_write_config_from_b64`. -/
def haproxyWriteConfig (raw : Bytes) (owner : Option String) : M Unit := do
  require (raw ≠ [] ∧ raw.length ≤ maxConfigBytes) (.valueError "invalid HAProxy configuration size")
  require (d.policy raw = true) (.valueError "HAProxy directive is not allowed")
  if ← Prog.ask Script.nextCheck then replace (.config raw owner)
  else Prog.throw (.valueError "HAProxy rejected the configuration")

def cmdReload : M Bool := Prog.ask Script.nextReload

def runControlPlaneChecks : M Bool := Prog.ask Script.nextProbe

/-- `_restore_guarded_config`, up to the texts of its result. -/
def restoreGuardedConfig (previous : Bytes) (owner : Option String) : M Bool := do
  match ← attempt (d.haproxyWriteConfig previous owner) with
  | .error _ => pure false
  | .ok _ =>
    if ← cmdReload then runControlPlaneChecks else pure false

/-! ## The other files -/

/-- `_restore_config_sources`. -/
def restoreConfigSources (previous : Dict SourceName Bytes) (owner : Option String) : M Unit := do
  let _ ← readHost
  previous.entries.forM fun e => replace (.source e.1 e.2 owner)

/-- `_write_admin_allowlist_raw`. -/
def writeAdminAllowlistRaw (raw : Bytes) (owner : Option String) : M Unit := do
  require (raw.length ≤ adminAllowlistMaxBytes ∧ 0 ∉ raw ∧ d.utf8 raw = true)
    (.valueError "invalid admin allow list snapshot")
  replace (.allowlist (some raw) owner)

/-- `_write_geoip_selection_raw`. -/
def writeGeoipSelectionRaw (raw : Bytes) (owner : Option String) : M Unit := do
  require (raw ≠ [] ∧ raw.length ≤ geoipMaxSelectionBytes ∧ 0 ∉ raw ∧ d.utf8 raw = true)
    (.valueError "invalid GeoIP selection snapshot")
  replace (.selection (some raw) owner)

/-- `_restore_transaction_admin_allowlist`. -/
def restoreTransactionAdminAllowlist (t : Transaction) : M Unit :=
  match t.allowlist with
  | none => pure ()
  | some admin => do
    if admin.previousPresent then d.writeAdminAllowlistRaw admin.previous (some t.id)
    else
      let host ← readHost
      Prog.when (host.allowlist ≠ none) (replace (.allowlist none (some t.id)))
    let host ← readHost
    require (host.allowlist = admin.before)
      (.runtimeError "admin allow list rollback could not be verified")

/-- `_geoip_selection`, an absent file being no selection. -/
def geoipSelection : M (Selection × Option Bytes) := do
  let host ← readHost
  match host.selection with
  | none => pure (⟨[], false⟩, none)
  | some raw =>
    match d.readSelection raw with
    | none => Prog.throw (.runtimeError "GeoIP selection is invalid")
    | some selection => pure (selection, some raw)

/-- `_switch_geoip_release`. -/
def switchGeoipRelease (name : String) (owner : Option String) : M Unit := do
  let w ← Prog.get
  require (name = "" ∨ (w.releases name).isSome) (.runtimeError "persisted GeoIP release is unavailable")
  let host ← readHost
  Prog.when (name ≠ "" ∨ host.release ≠ "") (replace (.release name owner))

/-- `_restore_transaction_geoip`. -/
def restoreTransactionGeoip (t : Transaction) : M Unit :=
  match t.geoip with
  | none => pure ()
  | some geoip => do
    if geoip.previousPresent then d.writeGeoipSelectionRaw geoip.previousSelection (some t.id)
    else
      let host ← readHost
      Prog.when (host.selection ≠ none) (replace (.selection none (some t.id)))
    switchGeoipRelease geoip.previousRelease (some t.id)
    let now ← d.geoipSelection
    require (now.2 = geoip.before)
      (.runtimeError "GeoIP selection rollback could not be verified")
    let host ← readHost
    require (host.release = geoip.previousRelease)
      (.runtimeError "GeoIP release rollback could not be verified")

/-- `_geoip_runtime_fingerprint`. -/
def geoipRuntimeFingerprint (expected : Selection) : M Fingerprint := do
  let now ← d.geoipSelection
  require (now.1 = expected) (.runtimeError "GeoIP runtime selection does not match the candidate")
  let host ← readHost
  let w ← Prog.get
  match if host.release = "" then none else w.releases host.release with
  | none => Prog.throw (.runtimeError "GeoIP runtime has no active release")
  | some release => do
    require (release.serves expected)
      (.runtimeError "GeoIP active release does not match the candidate")
    require (expected.accessFilterEnabled = true → release.allowedEmpty = false)
      (.runtimeError "GeoIP candidate ACL is empty")
    pure ⟨d.sha256 (now.2.getD []), host.release, release.databaseSha256, release.allowedSha256⟩

/-! ## Rolling back -/

/-- `_load_config_transaction`. -/
def loadConfigTransaction : M (Option Transaction) := do
  let _ ← readHost
  let w ← Prog.get
  pure w.transaction

def persistConfigTransaction (t : Transaction) : M Unit := replacing Script.nextPersist (.persist t)

def restoreSources (t : Transaction) : M Unit :=
  match t.previousSources with
  | none => Prog.throw (.runtimeError "persisted previous config sources are missing")
  | some previous => restoreConfigSources previous (some t.id)

def restoreConfig (t : Transaction) : M Bool :=
  match t.previousConfig with
  | none => pure false
  | some previous => d.restoreGuardedConfig previous (some t.id)

/-- All four restores, one after another whatever the others did. -/
def restoreTransaction (t : Transaction) : M Bool := do
  let sourcesOk ← succeeds (restoreSources t)
  let allowlistOk ← succeeds (d.restoreTransactionAdminAllowlist t)
  let geoipOk ← succeeds (d.restoreTransactionGeoip t)
  let configOk ← d.restoreConfig t
  pure (configOk && sourcesOk && allowlistOk && geoipOk)

def outcomeOf (t : Transaction) (restored : Bool) : Transaction :=
  if restored then { t with state := .rolledBack }.dropMaterial else { t with state := .rollbackFailed }

/-- `_rollback_config_transaction_locked`. The caller's transaction is changed in place, so
it is returned along with the exception, if there was one. -/
def rollbackConfigTransactionLocked (t : Transaction) (reason : String) :
    M (Transaction × Except Exc Unit) := do
  let t := { t with state := .rollingBack, rollbackReason := reason }
  match ← attempt (persistConfigTransaction t) with
  | .error e => pure (t, .error e)
  | .ok _ => do
    let restored ← d.restoreTransaction t
    let t := outcomeOf t restored
    let persisted ← attempt (persistConfigTransaction t)
    pure (t, persisted)

/-- A rollback whose exception goes on to the caller. -/
def rollBack (t : Transaction) (reason : String) : M Transaction := do
  let (t, raised) ← d.rollbackConfigTransactionLocked t reason
  match raised with
  | .error e => Prog.throw e
  | .ok _ => pure t

/-- Is the transaction waiting for a confirmation that is too late now? -/
def expired (t : Transaction) (now : Nat) : Bool :=
  t.state = .pendingConfirmation && t.deadline ≠ 0 && t.deadline ≤ now

/-- `_ensure_no_active_config_transaction_locked`: an expired transaction is rolled back, an
active one refused. `begin` does the same, with a reason of its own. -/
def ensureNoActiveConfigTransactionLocked (reason : String) : M Unit := do
  let loaded ← loadConfigTransaction
  let now ← readClock
  let state ←
    match loaded with
    | none => pure none
    | some t =>
      if expired t now then do
        let _ ← d.rollBack t reason
        loadConfigTransaction
      else pure (some t)
  require (∀ t ∈ state, t.state.active = false)
    (.runtimeError "another HAProxy config transaction is still active")

/-! ## The configuration history -/

/-- `_config_history_entries`, newest name first. -/
def configHistoryEntries (history : List Version) : List Version :=
  history.mergeSort fun a b => VersionId.le b.id a.id

/-- The digest of a set of sources. -/
def generationOf (files : List (SourceName × Bytes)) : String :=
  d.sha256 (files.flatMap fun e => e.1.filename.toUTF8.toList ++ 0 :: e.2)

/-- `_read_current_config_sources`; a file that cannot be read is left out. -/
def readCurrentConfigSources : M (List (SourceName × Bytes)) := do
  let _ ← readHost
  sourceNames.foldlM (fun files name => do
    match ← attempt readHost with
    | .error _ => pure files
    | .ok host => pure (files ++ ((host.sources name).map fun content => (name, content)).toList)) []

/-- The body of `record_config_version`. The transaction is looked up as `id`, a field it
does not have. -/
def recordVersion (t : Transaction) : M String := do
  let files ← readCurrentConfigSources
  if files = [] then pure ""
  else do
    let w ← Prog.get
    let generation := d.generationOf files
    let existing := configHistoryEntries w.history
    if existing.head?.map Version.generation = some generation then
      pure ((existing.head?.map fun v => v.id.text).getD "")
    else do
      let timestamp ← Prog.ask Script.nextTime
      let version : Version :=
        { id := ⟨timestamp, String.ofList (generation.toList.take 12)⟩
          generation
          parent := existing.head?.map Version.id
          transactionId := ""
          cfgSha256 := t.candidateSha256
          files }
      require (∀ v ∈ w.history, v.id ≠ version.id) .osError
      replace (.addVersion version)
      let w ← Prog.get
      ((configHistoryEntries w.history).drop (max 1 configHistoryKeep)).forM fun stale => do
        let _ ← succeeds (replace (.dropVersion stale.id))
      pure version.id.text

/-- `record_config_version`: a failure is logged and nothing else. -/
def recordConfigVersion (t : Transaction) : M String := do
  match ← attempt (d.recordVersion t) with
  | .ok version => pure version
  | .error _ => pure ""

/-- `get_config_version`: the sources of a version that is kept. -/
def getConfigVersion (history : List Version) (versionId : String) : Option (List (SourceName × Bytes)) :=
  let name := String.ofList (Text.strip versionId.toList)
  ((configHistoryEntries history).find? fun v => name ≠ "" && v.id.text = name).map fun v =>
    sourceNames.filterMap fun source => (v.files.lookup source).map fun content => (source, content)

/-! ## Beginning -/

/-- The checks of `_decode_config_transaction_sources` on the files. -/
def sourcesAccepted (files : Dict SourceName Bytes) : Bool :=
  files.entries ≠ [] &&
    files.entries.all fun e => e.2.length ≤ maxTransactionSourceFileBytes && !e.2.contains 0 && d.utf8 e.2

/-- `_verify_candidate_config_sources`. -/
def verifyCandidateConfigSources (candidate : Dict SourceName Bytes) : M Unit :=
  candidate.entries.forM fun e => do
    let host ← readHost
    require (host.sources e.1 = some e.2) (.valueError "live config source changed before the transaction")

def captureAllowlist (request : BeginRequest) : M (Option (AllowlistState × Bytes)) :=
  match request.adminAllowlist with
  | none => pure none
  | some entries =>
    match d.allowlistRaw entries with
    | none => Prog.throw (.valueError "invalid admin allow list entry")
    | some raw => do
      let host ← readHost
      pure (some (⟨d.sha256 raw, host.allowlist.isSome, host.allowlist.getD []⟩, raw))

/-- What is captured of the GeoIP state. Another GeoIP operation is waited for by nobody. -/
def captureGeoip (request : BeginRequest) : M (Option GeoipState) :=
  match request.geoipSelection with
  | none => pure none
  | some selection => do
    if ← Prog.ask Script.nextLock then
      let previous ← d.geoipSelection
      let host ← readHost
      pure (some ⟨selection, none, previous.2.isSome, previous.2.getD [], host.release⟩)
    else Prog.throw (.runtimeError "another GeoIP operation is already running")

def prepareGeoip (selection : Selection) (owner : Option String) : M Fingerprint := do
  d.writeGeoipSelectionRaw (d.selectionRaw selection) owner
  let run ← Prog.ask Script.nextUpdate
  match run.release with
  | some (name, built) => perform (.geoipUpdate name built owner)
  | none => pure ()
  require (run.ok = true) (.runtimeError "GeoIP candidate preparation failed")
  d.geoipRuntimeFingerprint selection

/-- The GeoIP part of applying a candidate; the fingerprint is persisted with it. -/
def applyGeoip (t : Transaction) : M (Transaction × Except Exc Unit) :=
  match t.geoip with
  | none => pure (t, .ok ())
  | some geoip => do
    match ← attempt (d.prepareGeoip geoip.candidateSelection (some t.id)) with
    | .error e => pure (t, .error e)
    | .ok fingerprint => do
      let t := { t with geoip := some { geoip with candidateFingerprint := some fingerprint } }
      let persisted ← attempt (persistConfigTransaction t)
      pure (t, persisted)

/-- The rest of it: the allow list, the configuration, the reload and the checks. The
result says why the candidate has to go. -/
def applyFiles (t : Transaction) (allowlist : Option Bytes) (config : Bytes) : M (Option String) := do
  match allowlist with
  | some raw => d.writeAdminAllowlistRaw raw (some t.id)
  | none => pure ()
  d.haproxyWriteConfig config (some t.id)
  if ← cmdReload then
    if ← runControlPlaneChecks then pure none else pure (some "candidate health check failed")
  else pure (some "candidate reload failed")

/-- Applying the candidate, up to the decision to keep it: a candidate that has to go is
rolled back, and a rollback that raises is caught and rolled back once more. -/
def applyCandidate (t : Transaction) (allowlist : Option Bytes) (config : Bytes) :
    M (Transaction × Bool) := do
  let (t, prepared) ← d.applyGeoip t
  match prepared with
  | .error _ => do
    let t ← d.rollBack t "candidate apply failed"
    pure (t, false)
  | .ok _ => do
    match ← attempt (d.applyFiles t allowlist config) with
    | .error _ => do
      let t ← d.rollBack t "candidate apply failed"
      pure (t, false)
    | .ok none => pure (t, true)
    | .ok (some reason) => do
      let (t, raised) ← d.rollbackConfigTransactionLocked t reason
      match raised with
      | .ok _ => pure (t, false)
      | .error _ => do
        let t ← d.rollBack t "candidate apply failed"
        pure (t, false)

/-- `begin_config_transaction`. -/
def beginConfigTransaction (request : BeginRequest) : M Transaction := do
  require (configTransactionMinTimeout ≤ request.timeoutSeconds ∧
      request.timeoutSeconds ≤ configTransactionMaxTimeout)
    (.valueError "config transaction timeout is outside the allowed range")
  let free ← Prog.ask Script.nextLock
  require (free = true) (.runtimeError "another guarded HAProxy configuration operation is running")
  d.ensureNoActiveConfigTransactionLocked "confirmation timeout expired"
  require (request.config ≠ [] ∧ request.config.length ≤ maxConfigBytes)
    (.valueError "invalid HAProxy configuration size")
  require (d.sourcesAccepted request.candidate = true ∧ d.sourcesAccepted request.previous = true)
    (.valueError "config sources are not accepted")
  require (∀ name ∈ sourceNames, name ∈ request.candidate.keys ↔ name ∈ request.previous.keys)
    (.valueError "candidate and previous config source filenames differ")
  verifyCandidateConfigSources request.candidate
  let allowlist ← d.captureAllowlist request
  let geoip ← d.captureGeoip request
  let host ← readHost
  require (host.config ≠ [] ∧ host.config.length ≤ maxConfigBytes)
    (.valueError "a valid current HAProxy configuration is required for rollback")
  require (d.transition host.config request.config = true)
    (.valueError "control-plane checks do not match the protected domains")
  let id ← Prog.ask Script.nextToken
  -- the backup of the current configuration
  let _ ← readHost
  let t : Transaction :=
    { id
      state := .prepared
      candidateSha256 := d.sha256 request.config
      candidateSourceSha256 := request.candidate.mapValues fun _ content => d.sha256 content
      previousConfig := some host.config
      previousSources := some request.previous
      allowlist := allowlist.map Prod.fst
      geoip }
  replacing Script.nextPersist (.begin t request)
  let (t, kept) ← d.applyCandidate t (allowlist.map Prod.snd) request.config
  if kept then do
    let now ← readClock
    let t := { t with state := .pendingConfirmation, deadline := now + 1000 * request.timeoutSeconds.toNat }
    persistConfigTransaction t
    pure t
  else pure t

/-! ## Settling -/

/-- Do the live GeoIP files still have the fingerprint of the candidate? -/
def verifyTransactionGeoipCandidate (t : Transaction) : M Unit :=
  match t.geoip with
  | none => pure ()
  | some geoip => do
    match geoip.candidateFingerprint with
    | none => Prog.throw (.runtimeError "persisted GeoIP candidate data is incomplete")
    | some expected => do
      let current ← d.geoipRuntimeFingerprint geoip.candidateSelection
      require (current = expected) (.runtimeError "GeoIP runtime changed before confirmation")

def verifyTransactionAdminAllowlistCandidate (t : Transaction) : M Unit :=
  match t.allowlist with
  | none => pure ()
  | some admin => do
    let host ← readHost
    require (host.allowlist.map d.sha256 = some admin.candidateSha256)
      (.runtimeError "admin allow list changed before confirmation")

/-- `_verify_live_transaction_candidate`. -/
def verifyLiveTransactionCandidate (t : Transaction) : M Unit := do
  let host ← readHost
  require (host.config ≠ [] ∧ host.config.length ≤ maxConfigBytes)
    (.runtimeError "live HAProxy configuration has an invalid size")
  require (d.sha256 host.config = t.candidateSha256)
    (.runtimeError "live HAProxy configuration changed before confirmation")
  require (t.candidateSourceSha256.entries ≠ [])
    (.runtimeError "persisted candidate config source hashes are invalid")
  t.candidateSourceSha256.entries.forM fun e => do
    let host ← readHost
    require ((host.sources e.1).map d.sha256 = some e.2)
      (.runtimeError "live config source changed before confirmation")
  d.verifyTransactionAdminAllowlistCandidate t
  d.verifyTransactionGeoipCandidate t

/-- The transaction a request is about. -/
def matchingTransaction (id : String) : M Transaction := do
  match ← loadConfigTransaction with
  | none => Prog.throw (.valueError "HAProxy config transaction id does not match")
  | some t => do
    require (t.id ≠ "" ∧ id ≠ "" ∧ t.id = id) (.valueError "HAProxy config transaction id does not match")
    pure t

/-- The part of `confirm_config_transaction` after the checks. -/
def commit (t : Transaction) : M Transaction := do
  let t := { t with state := .confirmed }
  let version ← d.recordConfigVersion t
  let t := { t with historyVersion := version }.dropMaterial
  persistConfigTransaction t
  pure t

/-- `confirm_config_transaction`. A request that finds the lock taken reads and leaves. -/
def confirmConfigTransaction (id sha256 : String) : M Transaction := do
  let free ← Prog.ask Script.nextLock
  let t ← matchingTransaction id
  require (t.candidateSha256 = sha256)
    (.valueError "HAProxy config transaction candidate hash does not match")
  if free = false ∨ t.state = .confirmed then pure t
  else do
    require (t.state = .pendingConfirmation)
      (.runtimeError "HAProxy config transaction is not awaiting confirmation")
    let now ← readClock
    if t.deadline = 0 ∨ t.deadline ≤ now then do
      let _ ← d.rollBack t "confirmation timeout expired"
      Prog.throw (.runtimeError "HAProxy config transaction confirmation arrived too late")
    else do
      match ← attempt (d.verifyLiveTransactionCandidate t) with
      | .error _ => do
        let _ ← d.rollBack t "pending candidate changed before confirmation"
        Prog.throw (.runtimeError "HAProxy config transaction candidate changed")
      | .ok _ => d.commit t

/-- `rollback_config_transaction`. -/
def rollbackConfigTransaction (id : String) : M Transaction := do
  let free ← Prog.ask Script.nextLock
  let t ← matchingTransaction id
  if free = false ∨ t.state = .rolledBack then pure t
  else do
    require (t.state ≠ .confirmed) (.runtimeError "HAProxy config transaction cannot be rolled back")
    d.rollBack t "manual rollback requested"

/-- `_expire_config_transaction_locked`, for a status poll that gets the lock. -/
def configTransactionStatus : M (Option Transaction) := do
  let free ← Prog.ask Script.nextLock
  let state ← loadConfigTransaction
  match state with
  | none => pure none
  | some t => do
    let now ← readClock
    if free = true ∧ expired t now then do
      let t ← d.rollBack t "confirmation timeout expired"
      pure (some t)
    else pure (some t)

/-- `_config_transaction_watchdog` once the deadline has passed. -/
def configTransactionWatchdog (id : String) : M Unit := do
  let rolled ← attempt do
    let state ← loadConfigTransaction
    let now ← readClock
    match state with
    | none => pure ()
    | some t =>
      Prog.when (t.id = id ∧ t.state = .pendingConfirmation ∧ t.deadline ≤ now) do
        let _ ← d.rollBack t "confirmation timeout expired"
  match rolled with
  | .ok _ => pure ()
  | .error _ => pure ()

/-- `recover_config_transaction`, before clients are served. -/
def recoverConfigTransaction : M Unit := do
  match ← loadConfigTransaction with
  | none => pure ()
  | some t =>
    match t.state with
    | .prepared | .rollingBack | .rollbackFailed => do
      let _ ← d.rollBack t "controld restart recovery"
    | .pendingConfirmation => do
      let now ← readClock
      Prog.when (t.deadline = 0 ∨ t.deadline ≤ now) do
        let _ ← d.rollBack t "confirmation timeout expired during restart"
    | .rolledBack | .confirmed => pure ()

/-! ## Writes outside a transaction -/

/-- `haproxy_write_config_serialized`. -/
def haproxyWriteConfigSerialized (raw : Bytes) : M Unit := do
  let free ← Prog.ask Script.nextLock
  require (free = true) (.runtimeError "another guarded HAProxy configuration operation is running")
  d.ensureNoActiveConfigTransactionLocked "confirmation timeout expired before another config write"
  d.haproxyWriteConfig raw none

/-- `haproxy_apply_config_guarded`: whether the candidate was kept. -/
def haproxyApplyConfigGuarded (candidate : Bytes) : M Bool := do
  let free ← Prog.ask Script.nextLock
  require (free = true) (.runtimeError "another guarded HAProxy configuration apply is running")
  d.ensureNoActiveConfigTransactionLocked "confirmation timeout expired before another config write"
  require (candidate ≠ [] ∧ candidate.length ≤ maxConfigBytes)
    (.valueError "invalid HAProxy configuration size")
  let host ← readHost
  require (host.config ≠ [] ∧ host.config.length ≤ maxConfigBytes)
    (.valueError "a valid current HAProxy configuration is required for rollback")
  require (d.transition host.config candidate = true)
    (.valueError "control-plane checks do not match the protected domains")
  let applied ← attempt do
    d.haproxyWriteConfig candidate none
    if ← cmdReload then runControlPlaneChecks else pure false
  match applied with
  | .ok true => pure true
  | _ => do
    let _ ← d.restoreGuardedConfig host.config none
    pure false

end Daemon

/-- The requests and the daemon's own moves. -/
inductive Op
  | begin (request : BeginRequest)
  | confirm (id sha256 : String)
  | rollback (id : String)
  | status
  | watchdog (id : String)
  | recover
  | writeConfig (raw : Bytes)
  | applyConfig (candidate : Bytes)

def Op.confirms : Op → Bool
  | .confirm _ _ => true
  | _ => false

def Op.foreign : Op → Bool
  | .writeConfig _ | .applyConfig _ => true
  | _ => false

def Op.program (d : Daemon) : Op → M Unit
  | .begin request => do let _ ← d.beginConfigTransaction request
  | .confirm id sha256 => do let _ ← d.confirmConfigTransaction id sha256
  | .rollback id => do let _ ← d.rollbackConfigTransaction id
  | .status => do let _ ← d.configTransactionStatus
  | .watchdog id => d.configTransactionWatchdog id
  | .recover => d.recoverConfigTransaction
  | .writeConfig raw => d.haproxyWriteConfigSerialized raw
  | .applyConfig candidate => do let _ ← d.haproxyApplyConfigGuarded candidate

end EasyHaProxy.Controld
