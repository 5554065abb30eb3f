import EasyHaProxy.Installer.Images

/-! The source and the services and daemons made from it, the packages of the system, and HAProxy. -/
namespace EasyHaProxy.Installer.Checks

open Yaml Mapping Keyed

/-! ## The source -/

/-- A Git checkout; an error is the text that says why a command failed. -/
structure Checkout where
  /-- The revision in what `git rev-parse HEAD` prints. -/
  head : Except String (Option (List Char))
  /-- How many paths `git status` lists. -/
  status : Except String Nat
  /-- The URL of `origin`, when it can be read. -/
  origin : Option (List Char)

/-- The marker of a source that came without Git. -/
structure RevisionMarker where
  revision : Option (List Char)
  dirty : Bool

inductive SourceDir
  | missing
  | checkout (c : Checkout)
  | recorded (marker : Option (Except String RevisionMarker))

/-- `_git_checkout_revision`. -/
def gitCheckoutRevision (branch : String) (c : Checkout) : Except Component (List Char) :=
  let stop := component .all
  match c.head, c.status with
  | .error e, _ => .error (stop .unknown "git-revision-failed" .null .null [("error", .str e)])
  | .ok none, _ => .error (stop .unknown "invalid-local-revision" .null .null [])
  | .ok (some revision), .error e =>
    .error (stop .unknown "git-status-failed" (text revision) .null [("error", .str e)])
  | .ok (some revision), .ok 0 => .ok revision
  | .ok (some revision), .ok (n + 1) => .error (stop .blocked "local-source-changes" (text revision) .null
      [("branch", .str branch), ("changed_paths", .int (n + 1)), ("network_checked", .bool false)])

/-- `_recorded_source_revision`. -/
def recordedSourceRevision (branch : String) (marker : Option (Except String RevisionMarker)) :
    Except Component (List Char) :=
  let stop := component .all
  match marker with
  | none => .error (stop .unknown "not-a-git-checkout" .null .null [])
  | some (.error e) => .error (stop .unknown "revision-marker-unreadable" .null .null [("error", .str e)])
  | some (.ok m) =>
    match m.revision with
    | none => .error (stop .unknown "invalid-recorded-revision" .null .null [])
    | some revision =>
      if m.dirty then .error (stop .blocked "recorded-source-dirty" (text revision) .null
        [("branch", .str branch), ("network_checked", .bool false)])
      else .ok revision

def SourceDir.revision (branch : String) : SourceDir → Except Component (List Char)
  | .missing => .error (component .all .blocked "source-directory-missing" .null .null [])
  | .checkout c => gitCheckoutRevision branch c
  | .recorded marker => recordedSourceRevision branch marker

/-- `_source_origin`: where the source comes from; none when that is not usable. -/
def SourceDir.origin (repository : List Char) (dir : SourceDir) : Option (List Char) :=
  let origin := match dir with
    | .checkout c => c.origin.getD repository
    | _ => repository
  if origin = [] || origin.any fun c => c = '\r' || c = '\n' || c = '\x00' then none else some origin

/-- The managed source with the branch it follows, and the branch's revision as the remote gives it. -/
structure Source where
  localChannel : Bool
  branch : String
  repository : List Char
  dir : SourceDir
  remote : Except String (List Char)

/-- `_probe_source`. -/
def Source.probe (s : Source) : Component :=
  let result := component .all
  if s.localChannel then result .blocked "local-source-channel" .null .null [("network_checked", .bool false)]
  else
    match s.dir.revision s.branch with
    | .error stopped => stopped
    | .ok revision =>
      if s.dir.origin s.repository = none then result .unknown "repository-missing" (text revision) .null []
      else
        match s.remote with
        | .error e => result .unknown "remote-revision-unavailable" (text revision) .null
            [("branch", .str s.branch), ("error", .str e)]
        | .ok remote => result (if revision = remote then .current else .available) "" (text revision) (text remote)
            [("branch", .str s.branch)]

/-! ## The files of a source -/

/-- The scope of a changes-only update as `plan_scope` gives it, and the rest of its fields. -/
structure PlannedScope where
  ready : Bool
  reason : String
  rest : Fields

/-- What a check reads of a source tree. -/
structure Tree where
  /-- `_service_fingerprint`. -/
  services : Option String
  /-- The digest of a daemon's file, if the file is there. -/
  daemon : String → Option (Except String String)
  /-- `_web_tree`. -/
  webTree : Option String
  /-- The pinned versions among the defaults of the Authelia role. -/
  pins : Option (String → Option (List Char))
  /-- `plan_scope`, and why it could not be made. -/
  scope : Except String PlannedScope

/-- Why the candidate could not be read, as it is and without secrets. -/
structure CandidateError where
  text : String
  redacted : String

/-- The versions of the source, as another component repeats them. -/
def likeSource (source : Component) (id : ComponentId) (state : ComponentState) (reason : String)
    (details : List (String × Value)) : Component :=
  component id state reason source.installed source.available details

/-- `_probe_services`. -/
def probeServices (source : Component) (localChannel : Bool) (installed : Tree)
    (candidate : Except CandidateError Tree) : Component :=
  let id := ComponentId.services
  let depends := [("depends_on", Value.str "all")]
  if localChannel then
    component id .blocked "local-source-channel" .null .null [("network_checked", .bool false)]
  else
    match source.entry.state with
    | .available =>
      match candidate with
      | .error e => likeSource source id .unknown "source-diff-unclassified"
          (("candidate_error", .str e.text) :: depends)
      | .ok tree =>
        match installed.services, tree.services with
        | some old, some new =>
          if old = new then component id .current "" (.str old) (.str new) depends
          else component id .available "source-update" (.str old) (.str new) depends
        | old, new => component id .unknown "service-fingerprint-unavailable" (optional .str old)
            (optional .str new) depends
    | .current => likeSource source id .current "" depends
    | .blocked => likeSource source id .blocked "source-blocked" depends
    | .unknown => likeSource source id .unknown "source-unknown" depends

/-! ## The daemons -/

/-- `DAEMON_ARTIFACTS`, by id and label. -/
def daemonArtifacts : List (String × String) :=
  [("haproxy-certd", "HAProxy certificate daemon"), ("haproxy-controld", "HAProxy control daemon"),
    ("haproxy-healthd", "HAProxy health daemon"), ("easy-ha-proxy-backupd", "Encrypted backup and restore broker"),
    ("easy-ha-proxy-updated", "Software update broker"), ("authelia-configd", "Authelia configuration daemon"),
    ("authelia-usersd", "Authelia users daemon"), ("authelia-bansd", "Authelia bans daemon")]

/-- A daemon's file against the installed one. -/
structure Artifact where
  state : ComponentState
  /-- Were both files read? -/
  checked : Bool
  fields : Fields

/-- One round of the loop of `_probe_daemons`. -/
def probeArtifact (id label : String) (file : Option (Except String String))
    (installed : Except String (Option String)) : Artifact :=
  let item := [("id", Value.str id), ("label", .str label)]
  let unread := fun reason more => Artifact.mk .unknown false
    (item ++ [("state", Value.str "unknown"), ("reason", .str reason)] ++ more)
  match file, installed with
  | none, _ => unread "source-file-missing" []
  | some (.error e), _ => unread "read-failed" [("error", .str e)]
  | some (.ok _), .error e => unread "read-failed" [("error", .str e)]
  | some (.ok digest), .ok current =>
    let digests := item ++ [("current_digest", optional .str current), ("available_digest", .str digest)]
    if current = some digest then ⟨.current, true, digests ++ [("state", .str "current")]⟩
    else ⟨.available, true, digests ++ [("state", .str "available"),
      ("reason", .str (if current = none then "installed-file-missing" else "digest-mismatch"))]⟩

/-- `_probe_daemons`; `missing` is set when the source moves and its candidate could not be read. -/
def probeDaemons (tree : Tree) (installed : String → Except String (Option String))
    (missing : Option CandidateError) : Component :=
  let id := ComponentId.daemons
  let artifacts := daemonArtifacts.map fun a => probeArtifact a.1 a.2 (tree.daemon a.1) (installed a.1)
  let checked := (artifacts.filter (·.checked)).length
  let counted := fun state => (artifacts.filter fun a => a.state = state).length
  let of := fun n word => Value.str (toString n ++ "/" ++ toString artifacts.length ++ word)
  let details := [("comparison", .str "installed-files-to-managed-source"),
    ("artifacts", .list (artifacts.map fun a => .map a.fields))]
  match missing with
  | some e => component id .unknown "remote-candidate-unavailable" (of checked " checked locally") .null
      (details ++ [("candidate_error", .str e.text)])
  | none =>
    if counted .available ≠ 0 then
      component id .available "" (of (counted .current) "")
        (.str (toString (counted .available) ++ " updates")) details
    else if checked = 0 then component id .blocked "daemon-sources-missing" .null .null details
    else if counted .unknown ≠ 0 then component id .unknown "" (of checked " checked") .null details
    else component id .current "" (of checked " current") (of checked " current") details

/-! ## The package metadata -/

/-- The record `refresh` leaves. -/
structure AptRecord where
  format : Int
  success : Bool
  lastAttempt : Int
  lastSuccess : Option Int
  sources : String
  error : Option String

def maxAge : Int := 24 * 3600

/-- `assess`; the fingerprint of the package sources is missing where it could not be made. -/
def assess (fingerprint : Option String) (record : Option AptRecord) (now : Int) : Fields :=
  let unverified := [("fresh", Value.bool false), ("success", .bool false), ("last_success", .null),
    ("error", .str "APT metadata has not been verified")]
  match record with
  | none => unverified
  | some r =>
    let judged := fun valid => [("format", .int r.format), ("success", .bool r.success),
      ("last_attempt", .int r.lastAttempt), ("last_success", optional .int r.lastSuccess), ("sources", .str r.sources),
      ("error", optional .str r.error), ("fresh", .bool valid)]
    if r.format ≠ 1 then unverified
    else if r.success && r.lastSuccess.any fun t => decide (0 ≤ now - t) && decide (now - t ≤ maxAge) then
      -- only now are the sources read
      match fingerprint with
      | none => unverified
      | some sources => judged (r.sources = sources)
    else judged false

def isFresh (apt : Fields) : Bool := (getField apt "fresh").truthy

/-! ## The system's packages -/

/-- A package of the simulation with its version; or the text of a line that could not be parsed. -/
abbrev InstLine := Except String (List Char × String)

/-- The packages of `_probe_os`, each once. -/
def osCandidates (excluded seen : List (List Char)) : List InstLine → Except String (List (List Char × String))
  | [] => .ok []
  | .error line :: _ => .error line
  | .ok (name, version) :: lines =>
    if name.takeWhile (· != ':') ∈ excluded ∨ name ∈ seen then osCandidates excluded seen lines
    else (osCandidates excluded (name :: seen) lines).map fun found => (name, version) :: found

/-- `_probe_os`; a failure says whether APT is missing at all. -/
def probeOs (simulation : Except (Bool × String) (List InstLine)) (freshness : Option Fields)
    (excluded : List (List Char)) : Component :=
  let id := ComponentId.os
  match simulation with
  | .error failure => component id (if failure.1 then .blocked else .unknown) "apt-simulation-failed" .null .null
      [("error", .str failure.2)]
  | .ok lines =>
    match osCandidates excluded [] lines with
    | .error line => component id .unknown "apt-candidate-unparseable" .null .null [("line", .str line)]
    | .ok found =>
      let packages := Value.list (found.map fun p => text p.1)
      let candidates := Value.list (found.map fun p => .map [("name", text p.1), ("version", .str p.2)])
      match freshness.filter fun apt => !isFresh apt with
      | some apt => component id .unknown "" .null .null
          [("packages", packages), ("candidates", candidates), ("apt", .map apt)]
      | none =>
        let details := [("package_count", .int found.length), ("packages", packages), ("candidates", candidates)]
        if found ≠ [] then component id .available "" .null (.int found.length) details
        else component id .current "" (.int 0) (.int 0) details

/-! ## HAProxy -/

/-- What `runtime_state` reads of the running process. -/
structure Runtime where
  runningVersion : String
  binaryMatches : Bool
  replacedLibraries : List String

/-- What `probe` reads of the host; the libraries and the comparison are those of the installed package. -/
structure HaproxyHost where
  qualified : Bool
  isFile : Bool
  /-- The installed version of a package. -/
  installed : String → Option (List Char)
  /-- The candidate of a package, and whether a repository offers it. -/
  candidate : String → Option (List Char)
  offered : String → Bool
  /-- The packages on hold, when they could be listed. -/
  held : Option (List String)
  guardedRestart : Bool
  runtime : Option Runtime
  /-- What `dpkg --compare-versions` returns for the candidate and the installed version. -/
  compareVersions : List Char → List Char → Int

/-- The installed package and its version, when there is just one. -/
def HaproxyHost.found (h : HaproxyHost) : Option (String × List Char) :=
  match h.installed "haproxy", h.installed "haproxy-awslc" with
  | some version, none => some ("haproxy", version)
  | none, some version => some ("haproxy-awslc", version)
  | _, _ => none

def branchOf (package : String) : List Char := if package = "haproxy-awslc" then ['3', '.', '4'] else ['2', '.', '8']

def HaproxyHost.protected (h : HaproxyHost) (package : String) : Bool :=
  h.held.any fun held => package ∈ held && (package ≠ "haproxy-awslc" || "libssl-awslc" ∈ held) && h.guardedRestart

/-- The candidate `probe` goes by. -/
def HaproxyHost.eligible (h : HaproxyHost) (package : String) : Option (List Char) :=
  if h.offered package then h.candidate package else none

/-- The verdict of `probe` on an installed package, once the running process has been read. -/
def HaproxyHost.verdict (h : HaproxyHost) (fresh : Bool) (package : String) (version : List Char) (runtime : Runtime) :
    ComponentState :=
  let prefixed := fun v => (branchOf package ++ ['.']).isPrefixOf v
  if !runtime.binaryMatches then .blocked
  else if !h.qualified then .blocked
  else if !fresh then .unknown
  else
    match h.eligible package with
    | none => .unknown
    | some candidate =>
      if !prefixed version || !prefixed candidate then .blocked
      else if !h.protected package then .blocked
      else if h.compareVersions candidate version = 0 then .available
      else if h.compareVersions candidate version ≠ 1 then .unknown
      else if candidate ≠ version then .blocked
      else if runtime.replacedLibraries ≠ [] then .available
      else .current

/-- The details `probe` fills in for an installed package. -/
def HaproxyHost.packageDetails (h : HaproxyHost) (package : String) (version : List Char) : List (String × Value) :=
  let awslc : Bool := package = "haproxy-awslc"
  [("package", .str package), ("installed_version", text version), ("branch", text (branchOf package)),
    ("provider", .str (if awslc then "HAProxy Technologies" else "Ubuntu")),
    ("source", .str (if awslc then "ha34 / Ubuntu noble" else "Ubuntu noble")),
    ("candidate_version", optional text (h.eligible package)), ("protected", .bool (h.protected package))]

/-- The state of `probe` with the details it has filled in by then. -/
def HaproxyHost.check (h : HaproxyHost) (fresh : Bool) : ComponentState × Details :=
  let start := [("installed_version", Value.null), ("running_version", .null), ("candidate_version", .null),
    ("branch", .null), ("provider", .null), ("protected", .bool false), ("needs_reload", .bool false),
    ("qualified", .bool h.qualified)]
  if !h.isFile then (.blocked, collect start)
  else
    match h.found with
    | none => (.unknown, collect start)
    | some (package, version) =>
      let installed := start ++ h.packageDetails package version
      match h.runtime with
      | none => (.unknown, collect installed)
      | some runtime =>
        (h.verdict fresh package version runtime, collect (installed ++
          [("running_version", .str runtime.runningVersion), ("binary_matches", .bool runtime.binaryMatches),
            ("replaced_libraries", .list (runtime.replacedLibraries.map .str))] ++
          if runtime.binaryMatches then [("needs_reload", .bool (runtime.replacedLibraries ≠ []))] else []))

/-- `probe`, with the package metadata and the last operation on the package. -/
def HaproxyHost.probe (h : HaproxyHost) (apt : Fields) (lastOperation : Option Fields) : Component :=
  let checked := h.check (isFresh apt)
  let withApt := checked.2.insert "apt" (.map apt)
  let version := fun key => (checked.2.lookup key).getD .null
  ⟨.haproxy, { state := checked.1 }, version "installed_version", version "candidate_version", .null,
    (lastOperation.map fun last => withApt.insert "last_operation" (.map last)).getD withApt⟩

/-- `PACKAGES`, left out of the system's updates while HAProxy is protected. -/
def packages : List (List Char) :=
  [['h', 'a', 'p', 'r', 'o', 'x', 'y'], ['h', 'a', 'p', 'r', 'o', 'x', 'y', '-', 'a', 'w', 's', 'l', 'c'],
    ['l', 'i', 'b', 's', 's', 'l', '-', 'a', 'w', 's', 'l', 'c']]

/-- Does a controlled update own the packages? -/
def shielded (haproxy : Option Component) : Bool :=
  haproxy.any fun c => ((c.details.lookup "qualified").getD .null).truthy &&
    ((c.details.lookup "protected").getD .null).truthy

end EasyHaProxy.Installer.Checks
