import EasyHaProxy.Lib.Attempts
import EasyHaProxy.Lib.Json
import EasyHaProxy.Lib.Text

/-! Every target that wants one of the renewed names is sent its files, one after another. What openssl, the
OpenSSH programs and the local files do for a target is an input. -/
namespace EasyHaProxy.Certs

/-- What a call of `subprocess.run` can raise. -/
inductive Fault
  | timeoutExpired | osError | valueError
  deriving DecidableEq

inductive Raised
  /-- `DeliveryError`. -/
  | delivery (text : String)
  | typeError
  | call (fault : Fault)
  deriving DecidableEq

/-- How a program that is run ends. -/
inductive Ran
  | exited (code : Int) (stdout stderr : String)
  | raised (fault : Fault) (text : String)

abbrev Bytes := List UInt8

/-- The interpreter's Unicode tables, and its texts of values that are not strings. -/
structure Interpreter where
  lower : String → String
  textOf : Json → String
  floatTruthy : String → Bool

/-- A record of the directory, under the name of its file. -/
structure Record where
  name : String
  fields : List (String × Json)

/-- A lineage of certbot; `none` for a file that is not there. -/
structure Lineage where
  path : String
  name : String
  fullchain : Option Bytes
  privkey : Option Bytes

/-- A command line, with what it is given on its input. -/
structure Call where
  argv : List String
  input : String

/-- What a target's delivery meets: its saved keys, the work directory, whether the files can be
written there, the PKCS#12 file openssl makes, and the programs it runs. -/
structure Behaviour where
  keySaved : Bool
  hostKeySaved : Bool
  workdir : Option String
  writes : Bool
  pfx : Bytes
  run : Call → Ran

def destinationsDir : String := "/etc/easy-ha-proxy/cert-destinations"
def sshTimeoutSeconds : Nat := 120

def strip (text : String) : String := String.ofList (Text.strip text.toList)

def rstrip (c : Char) (text : String) : String := String.ofList (text.toList.rdropWhile (· == c))

variable (py : Interpreter)

/-- `str(value)`. -/
def str : Json → String
  | .str s => s
  | .null => "None"
  | .bool true => "True"
  | .bool false => "False"
  | .int n => toString n
  | v => py.textOf v

def truthy : Json → Bool
  | .null => false
  | .bool b => b
  | .int n => n != 0
  | .float text => py.floatTruthy text
  | .str s => s != ""
  | .arr items => !items.isEmpty
  | .obj fields => !fields.isEmpty

/-- `str(record.get(key) or default)`. -/
def field (record : Record) (key default : String) : String :=
  match Json.get? record.fields key with
  | some v => if truthy py v then str py v else default
  | none => default

/-! ## The records -/

/-- `list_destinations`: a file that cannot be read is skipped; what is not an object takes no name. -/
def listDestinations : List (String × Option Json) → Except Raised (List Record)
  | [] => .ok []
  | (_, none) :: rest => listDestinations rest
  | (stem, some (.obj fields)) :: rest => (listDestinations rest).map (⟨stem, fields⟩ :: ·)
  | (_, some _) :: _ => .error .typeError

/-- The items of `record.get("domains") or []`, as a loop over them gets them. -/
def domainItems (record : Record) : Except Raised (List String) :=
  match Json.get? record.fields "domains" with
  | none => .ok []
  | some v =>
    if truthy py v then
      match v with
      | .arr items => .ok (items.map (str py))
      | .str s => .ok (s.toList.map fun c => String.ofList [c])
      | .obj fields => .ok (fields.map Prod.fst)
      | _ => .error .typeError
    else .ok []

/-- A name as it is compared. -/
def normal (name : String) : String := py.lower (strip name)

/-- `wants_domain`. -/
def wantsDomain (record : Record) (domains : List String) : Except Raised Bool :=
  (domainItems py record).map fun items =>
    items.any fun d => normal py d != "" && (domains.map (normal py)).contains (normal py d)

/-! ## The names of the certificate -/

/-- `re.findall(r"DNS:([^\s,]+)", text)`, from at most so many positions on. -/
def dnsNames : Nat → List Char → List (List Char)
  | 0, _ => []
  | _, [] => []
  | fuel + 1, c :: rest =>
    let name := (rest.drop 3).takeWhile fun c => !(Text.isSpace c || c == ',')
    if ['D', 'N', 'S', ':'].isPrefixOf (c :: rest) && !name.isEmpty then
      name :: dnsNames fuel ((rest.drop 3).drop name.length)
    else dnsNames fuel rest

def x509Call (lineage : Lineage) : Call :=
  ⟨["openssl", "x509", "-in", lineage.path ++ "/fullchain.pem", "-noout", "-text"], ""⟩

/-- `certificate_names`, less the order. -/
def certificateNames (lineage : Lineage) (b : Behaviour) : Except Raised (List String) :=
  let chain := lineage.path ++ "/fullchain.pem"
  match b.run (x509Call lineage) with
  | .raised .valueError _ => .error (.call .valueError)
  | .raised _ text => .error (.delivery ("openssl could not read " ++ chain ++ ": " ++ text))
  | .exited code stdout stderr =>
    if code ≠ 0 then .error (.delivery ("openssl could not read " ++ chain ++ ": " ++ strip stderr))
    else .ok ((dnsNames (stdout.length + 1) stdout.toList).map fun name => py.lower (String.ofList name))

/-- `name_covered`: a wildcard stands for exactly one label. -/
def nameCovered (name : String) (held : List String) : Bool :=
  let name := rstrip '.' (normal py name)
  held.any fun entry =>
    entry == name ||
      (['*', '.'].isPrefixOf entry.toList && name.toList.contains '.' &&
        (name.toList.dropWhile (· ≠ '.')).drop 1 == entry.toList.drop 2)

/-- `uncovered_names`. -/
def uncoveredNames (record : Record) (lineage : Lineage) (b : Behaviour) : Except Raised (List String) := do
  let held ← certificateNames py lineage b
  let items ← domainItems py record
  let names := (items.filter fun d => strip d != "").map (normal py)
  return names.filter fun name => !nameCovered py name held

/-! ## The artefact -/

structure Artefact where
  file : String
  remote : String
  content : Bytes

def formats : List String := ["pfx", "pem-pair", "pem-combined"]
def transports : List String := ["sftp", "scp"]

def formatOf (record : Record) : String := py.lower (strip (field py record "format" "pfx"))

def remoteOf (record : Record) : String := strip (field py record "remote_path" "")

def transportOf (record : Record) : String := py.lower (strip (field py record "transport" "sftp"))

/-- The files of a format, each with the name it is given remotely. -/
def artefactNames (record : Record) : List (String × String) :=
  let remote := remoteOf py record
  if formatOf py record = "pfx" then [("certificate.pfx", remote)]
  else if formatOf py record = "pem-combined" then [("certificate.pem", remote)]
  else [("fullchain.pem", rstrip '/' remote ++ "/fullchain.pem"), ("privkey.pem", rstrip '/' remote ++ "/privkey.pem")]

def pkcs12Call (record : Record) (lineage : Lineage) (workdir : String) : Call where
  argv := ["openssl", "pkcs12", "-export", "-inkey", lineage.path ++ "/privkey.pem",
    "-in", lineage.path ++ "/fullchain.pem", "-out", workdir ++ "/certificate.pfx",
    "-passout", "pass:" ++ field py record "pfx_password" ""]
  input := ""

/-- What the files of a format hold. -/
def contents (record : Record) (b : Behaviour) (chain key : Bytes) : List Bytes :=
  if formatOf py record = "pfx" then [b.pfx]
  else if formatOf py record = "pem-combined" then [chain ++ key]
  else [chain, key]

/-- The files written, where they can be. -/
def writeArtefacts (record : Record) (b : Behaviour) (chain key : Bytes) : Except Raised (List Artefact) :=
  if b.writes then
    .ok (((artefactNames py record).zip (contents py record b chain key)).map fun x => ⟨x.1.1, x.1.2, x.2⟩)
  else .error (.call .osError)

/-- `build_artefacts`. -/
def buildArtefacts (record : Record) (lineage : Lineage) (b : Behaviour) (workdir : String) :
    Except Raised (List Artefact) :=
  match lineage.fullchain, lineage.privkey with
  | none, _ => .error (.delivery (lineage.path ++ "/fullchain.pem is missing"))
  | _, none => .error (.delivery (lineage.path ++ "/privkey.pem is missing"))
  | some chain, some key =>
    if !formats.contains (formatOf py record) then
      .error (.delivery "format must be one of pfx, pem-pair, pem-combined")
    else if remoteOf py record = "" then .error (.delivery "remote_path is required")
    else if formatOf py record = "pfx" then
      match b.run (pkcs12Call py record lineage workdir) with
      | .raised fault _ => .error (.call fault)
      | .exited code _ stderr =>
        if code ≠ 0 then .error (.delivery ("openssl could not build the PKCS#12 file: " ++ strip stderr))
        else writeArtefacts py record b chain key
    else writeArtefacts py record b chain key

/-! ## The transport -/

/-- `ssh_base_command`. -/
def sshBaseCommand (record : Record) (binary : String) : List String :=
  [binary, "-o", "BatchMode=yes", "-o", "StrictHostKeyChecking=yes",
    "-o", "UserKnownHostsFile=" ++ destinationsDir ++ "/" ++ record.name ++ ".known_hosts", "-o", "IdentitiesOnly=yes",
    "-o", "ConnectTimeout=20", "-i", destinationsDir ++ "/" ++ record.name ++ ".key",
    if binary = "/usr/bin/ssh" then "-p" else "-P", field py record "port" "22"]

/-- `remote_quote`. -/
def remoteQuote (value : String) : String :=
  "\"" ++ String.ofList (value.toList.flatMap fun c =>
    if c = '\\' then ['\\', '\\'] else if c = '"' then ['\\', '"'] else [c]) ++ "\""

/-- `f"{record['user']}@{record['host']}"`. -/
def targetOf (record : Record) : String := field py record "user" "" ++ "@" ++ field py record "host" ""

def scpDirectory (record : Record) : String := rstrip '/' (field py record "remote_path" "") ++ "/"

/-- The command that sends the files. -/
def transferCall (record : Record) (workdir : String) (names : List (String × String)) : Call :=
  if transportOf py record = "sftp" then
    { argv := sshBaseCommand py record "/usr/bin/sftp" ++ ["-b", "-", targetOf py record]
      input := String.join (names.map fun x =>
        "put " ++ remoteQuote (workdir ++ "/" ++ x.1) ++ " " ++ remoteQuote x.2 ++ "\n") ++ "quit\n" }
  else
    let destination := match names with
      | [x] => x.2
      | _ => scpDirectory py record
    { argv := sshBaseCommand py record "/usr/bin/scp" ++ names.map (fun x => workdir ++ "/" ++ x.1) ++
        [targetOf py record ++ ":" ++ destination]
      input := "" }

def landing (record : Record) (artefacts : List Artefact) (a : Artefact) : String :=
  if transportOf py record = "sftp" ∨ artefacts.length = 1 then a.remote else scpDirectory py record ++ a.file

/-- `send`, with what the far side then holds. -/
def send (record : Record) (b : Behaviour) (workdir : String) (artefacts : List Artefact) :
    Except Raised (List (String × Bytes)) :=
  if !transports.contains (transportOf py record) then
    .error (.delivery "transport must be one of sftp, scp")
  else
    match b.run (transferCall py record workdir (artefacts.map fun a => (a.file, a.remote))) with
    | .raised fault _ => .error (.call fault)
    | .exited code _ stderr =>
      if code ≠ 0 then
        .error (.delivery (transportOf py record ++ " failed: " ++
          (if strip stderr = "" then "exit " ++ toString code else strip stderr)))
      else .ok (artefacts.map fun a => (landing py record artefacts a, a.content))

def postCommandOf (record : Record) : String := strip (field py record "post_command" "")

def postCall (record : Record) : Call where
  argv := sshBaseCommand py record "/usr/bin/ssh" ++ [targetOf py record, "--", postCommandOf py record]
  input := ""

/-- `run_post_command`. -/
def runPostCommand (record : Record) (b : Behaviour) : Except Raised (Option String) :=
  if postCommandOf py record = "" then .ok none
  else
    match b.run (postCall py record) with
    | .raised fault _ => .error (.call fault)
    | .exited code _ stderr =>
      if code ≠ 0 then
        .ok (some ("the file was delivered but the command afterwards failed: " ++
          (if strip stderr = "" then "exit " ++ toString code else strip stderr)))
      else .ok none

/-! ## One target -/

inductive Result
  | skipped
  | failed (error : String)
  | sent (files : List String) (warning : Option String)

structure Outcome where
  name : String
  result : Result

/-- A target's delivery: the files the far side has received, and the outcome or the exception. -/
abbrev Delivery := Attempt (String × Bytes) Raised Outcome

def enabled (record : Record) : Bool := ((Json.get? record.fields "enabled").map (truthy py)).getD true

def lacks (record : Record) (b : Behaviour) : Option String :=
  if strip (field py record "host" "") = "" then some "host is not set"
  else if strip (field py record "user" "") = "" then some "user is not set"
  else if !b.keySaved then some "no private key saved for this target"
  else if !b.hostKeySaved then some "no host key saved for this target"
  else none

def failedWith (record : Record) (error : String) : Delivery := ⟨[], .ok ⟨record.name, .failed error⟩⟩

/-- The `except` clauses around the artefacts and the transfer. -/
def recover {α : Type} (record : Record) (x : Except Raised α) (next : α → Delivery) : Delivery :=
  match x with
  | .error (.delivery text) => failedWith record text
  | .error (.call .timeoutExpired) => failedWith record s!"timed out after {sshTimeoutSeconds}s"
  | .error e => ⟨[], .error e⟩
  | .ok a => next a

/-- The work directory, the artefacts, the transfer and the command after it. -/
def deliverFiles (record : Record) (lineage : Lineage) (b : Behaviour) : Delivery :=
  match b.workdir with
  | none => ⟨[], .error (.call .osError)⟩
  | some workdir =>
    recover record (buildArtefacts py record lineage b workdir) fun artefacts =>
      recover record (send py record b workdir artefacts) fun landed =>
        ⟨landed, (runPostCommand py record b).map fun warning =>
          ⟨record.name, .sent (artefacts.map Artefact.remote) warning⟩⟩

/-- `deliver`. -/
def deliver (record : Record) (lineage : Lineage) (b : Behaviour) : Delivery :=
  if !enabled py record then ⟨[], .ok ⟨record.name, .skipped⟩⟩
  else
    match lacks py record b with
    | some error => failedWith record error
    | none =>
      match uncoveredNames py record lineage b with
      | .error (.delivery text) => failedWith record text
      | .error e => ⟨[], .error e⟩
      | .ok [] => deliverFiles py record lineage b
      | .ok missing =>
        failedWith record (s!"the certificate in {lineage.name} does not cover " ++ ", ".intercalate missing ++
          "; a target receives one certificate, so give each certificate a target of its own")

/-! ## All targets -/

/-- What the loop of `deliver_all` does with a record: the outcome, or nothing for one that does not
want the domains. What is received is kept with the name of the target. -/
def attempt (lineage : Lineage) (domains : List String) (behave : String → Behaviour) (record : Record) :
    Attempt (String × String × Bytes) Raised (Option Outcome) :=
  match wantsDomain py record domains with
  | .error e => ⟨[], .error e⟩
  | .ok false => ⟨[], .ok none⟩
  | .ok true =>
    let delivery := deliver py record lineage (behave record.name)
    ⟨delivery.left.map fun file => (record.name, file), delivery.ended.map some⟩

/-- `deliver_all`, over the files of the directory in the order of their names. -/
def deliverAll (files : List (String × Option Json)) (lineage : Lineage) (domains : List String)
    (behave : String → Behaviour) : Attempt (String × String × Bytes) Raised (List Outcome) :=
  match listDestinations files with
  | .error e => ⟨[], .error e⟩
  | .ok records =>
    let all := Attempt.each (attempt py lineage domains behave) records
    ⟨all.left, all.ended.map fun outcomes => outcomes.filterMap id⟩

/-- The targets: the files that hold an object. -/
def targets (files : List (String × Option Json)) : List Record :=
  files.filterMap fun file =>
    match file.2 with
    | some (.obj fields) => some ⟨file.1, fields⟩
    | _ => none

def wants (domains : List String) (record : Record) : Bool :=
  match wantsDomain py record domains with
  | .ok wanted => wanted
  | .error _ => false

/-- One outcome for every target that wants one of the domains, and every such target has received
what its own delivery, made alone, sends it. -/
def Served (files : List (String × Option Json)) (lineage : Lineage) (domains : List String)
    (behave : String → Behaviour) : Prop :=
  ∃ outcomes, (deliverAll py files lineage domains behave).ended = .ok outcomes ∧
    outcomes.map Outcome.name = ((targets files).filter (wants py domains)).map Record.name ∧
    ∀ record ∈ targets files, wants py domains record = true →
      ∀ file ∈ (deliver py record lineage (behave record.name)).left,
        (record.name, file) ∈ (deliverAll py files lineage domains behave).left

/-! ## What a target must not do -/

/-- An exception other than a timeout. -/
def Ran.Fatal : Ran → Prop
  | .raised .timeoutExpired _ => False
  | .raised _ _ => True
  | .exited _ _ _ => False

def Ran.ExitsZero : Ran → Prop
  | .exited code _ _ => code = 0
  | .raised _ _ => False

/-- The program ends by itself. -/
def Ran.Ends : Ran → Prop
  | .exited _ _ _ => True
  | .raised _ _ => False

def HoldsObject : Option Json → Prop
  | none => True
  | some (.obj _) => True
  | some _ => False

/-- `domains` is missing or falsy, or can be looped over. -/
def Iterable (record : Record) : Prop :=
  match Json.get? record.fields "domains" with
  | none => True
  | some (.arr _) => True
  | some (.str _) => True
  | some (.obj _) => True
  | some v => truthy py v = false

/-- Nothing is wrong with the lineage or the record. -/
def Buildable (record : Record) (lineage : Lineage) : Prop :=
  lineage.fullchain.isSome ∧ lineage.privkey.isSome ∧ formats.contains (formatOf py record) = true ∧
    remoteOf py record ≠ ""

/-- What openssl does for the format that needs it, and what the transfer does. -/
def pkcs12 (record : Record) (lineage : Lineage) (b : Behaviour) (workdir : String) : Ran :=
  b.run (pkcs12Call py record lineage workdir)

def transfer (record : Record) (b : Behaviour) (workdir : String) : Ran :=
  b.run (transferCall py record workdir (artefactNames py record))

/-- openssl makes the file, for the format that needs it. -/
def Converts (record : Record) (lineage : Lineage) (b : Behaviour) (workdir : String) : Prop :=
  formatOf py record = "pfx" → (pkcs12 py record lineage b workdir).ExitsZero

/-- Where openssl is needed it can be started, or times out. -/
def OpensslRuns (record : Record) (lineage : Lineage) (b : Behaviour) (workdir : String) : Prop :=
  formatOf py record = "pfx" → ¬ (pkcs12 py record lineage b workdir).Fatal

/-- The transfer can be started, or times out; the command after it ends. -/
def TransferRuns (record : Record) (b : Behaviour) (workdir : String) : Prop :=
  transports.contains (transportOf py record) = true →
    ¬ (transfer py record b workdir).Fatal ∧
      ((transfer py record b workdir).ExitsZero → postCommandOf py record ≠ "" → (b.run (postCall py record)).Ends)

/-- The steps of a target whose record is in order and whose certificate covers its names. -/
def StepsSurvive (record : Record) (lineage : Lineage) (b : Behaviour) (workdir : String) : Prop :=
  OpensslRuns py record lineage b workdir ∧
    (Converts py record lineage b workdir → b.writes = true ∧ TransferRuns py record b workdir)

/-- A target that does not end the loop. -/
def Survives (record : Record) (lineage : Lineage) (b : Behaviour) : Prop :=
  enabled py record = true → lacks py record b = none →
    (∀ text, b.run (x509Call lineage) ≠ .raised .valueError text) ∧
      (uncoveredNames py record lineage b = .ok [] →
        ∃ workdir, b.workdir = some workdir ∧
          (Buildable py record lineage → StepsSurvive py record lineage b workdir))

variable {py} {record : Record} {lineage : Lineage} {b : Behaviour} {workdir : String}

theorem writeArtefacts_cases (chain key : Bytes) :
    (b.writes = false ∧ writeArtefacts py record b chain key = .error (.call .osError)) ∨
      (b.writes = true ∧ ∃ artefacts, writeArtefacts py record b chain key = .ok artefacts ∧
        artefacts.map (fun a => (a.file, a.remote)) = artefactNames py record) := by
  unfold writeArtefacts
  cases b.writes with
  | false => exact Or.inl ⟨rfl, rfl⟩
  | true =>
    refine Or.inr ⟨rfl, _, rfl, ?_⟩
    unfold artefactNames contents
    dsimp only
    split
    · rfl
    split <;> rfl

/-- An exception that `deliver` turns into an outcome. -/
def Caught : Raised → Prop
  | .delivery _ => True
  | .call .timeoutExpired => True
  | _ => False

theorem recover_returns_iff {α : Type} {x : Except Raised α} {e : Raised} (h : x = .error e)
    (next : α → Delivery) : (recover record x next).Returns ↔ Caught e := by
  subst h
  have hout {e : Raised} : ¬ (⟨[], .error e⟩ : Delivery).Returns := by
    rintro ⟨outcome, houtcome⟩
    cases houtcome
  cases e with
  | delivery text => exact iff_of_true ⟨_, rfl⟩ trivial
  | typeError => exact iff_of_false hout id
  | call fault =>
    cases fault with
    | timeoutExpired => exact iff_of_true ⟨_, rfl⟩ trivial
    | osError => exact iff_of_false hout id
    | valueError => exact iff_of_false hout id

theorem not_fatal_iff {fault : Fault} {text : String} :
    ¬ (Ran.raised fault text).Fatal ↔ Caught (.call fault) := by
  cases fault <;> simp [Ran.Fatal, Caught]

/-- How the artefacts come about: an error of the record or the lineage, an error of openssl or of the
files, or the files of the format. -/
theorem buildArtefacts_cases :
    (¬ Buildable py record lineage ∧ ∃ text, buildArtefacts py record lineage b workdir = .error (.delivery text)) ∨
    (Buildable py record lineage ∧ ¬ Converts py record lineage b workdir ∧
      ∃ e, buildArtefacts py record lineage b workdir = .error e ∧
        (Caught e ↔ OpensslRuns py record lineage b workdir)) ∨
    (Buildable py record lineage ∧ Converts py record lineage b workdir ∧ OpensslRuns py record lineage b workdir ∧
      ((b.writes = false ∧ buildArtefacts py record lineage b workdir = .error (.call .osError)) ∨
        (b.writes = true ∧ ∃ artefacts, buildArtefacts py record lineage b workdir = .ok artefacts ∧
          artefacts.map (fun a => (a.file, a.remote)) = artefactNames py record))) := by
  unfold buildArtefacts
  cases hchain : lineage.fullchain with
  | none => exact Or.inl ⟨by simp [Buildable, hchain], _, rfl⟩
  | some chain =>
    cases hkey : lineage.privkey with
    | none => exact Or.inl ⟨by simp [Buildable, hkey], _, rfl⟩
    | some key =>
      dsimp only
      by_cases hformat : formats.contains (formatOf py record) = true
      swap
      · rw [if_pos (by simpa using hformat)]
        exact Or.inl ⟨fun h => hformat h.2.2.1, _, rfl⟩
      by_cases hremote : remoteOf py record = ""
      · rw [if_neg (by simpa using hformat), if_pos hremote]
        exact Or.inl ⟨fun h => h.2.2.2 hremote, _, rfl⟩
      rw [if_neg (by simpa using hformat), if_neg hremote]
      have hbuildable : Buildable py record lineage := ⟨by simp [hchain], by simp [hkey], hformat, hremote⟩
      refine Or.inr ?_
      by_cases hpfx : formatOf py record = "pfx"
      swap
      · rw [if_neg hpfx]
        exact Or.inr ⟨hbuildable, fun h => absurd h hpfx, fun h => absurd h hpfx, writeArtefacts_cases chain key⟩
      rw [if_pos hpfx]
      unfold Converts OpensslRuns pkcs12
      cases hran : b.run (pkcs12Call py record lineage workdir) with
      | raised fault text =>
        refine Or.inl ⟨hbuildable, fun h => h hpfx, _, rfl, ?_⟩
        rw [← not_fatal_iff]
        exact ⟨fun h _ => h, fun h => h hpfx⟩
      | exited code stdout stderr =>
        dsimp only
        by_cases hcode : code = 0
        · rw [if_neg (not_not.mpr hcode)]
          exact Or.inr ⟨hbuildable, fun _ => hcode, fun _ => id, writeArtefacts_cases chain key⟩
        · rw [if_pos hcode]
          exact Or.inl ⟨hbuildable, fun h => hcode (h hpfx), _, rfl, iff_of_true trivial fun _ => id⟩

/-- How the transfer ends. -/
theorem send_cases {artefacts : List Artefact}
    (hnames : artefacts.map (fun a => (a.file, a.remote)) = artefactNames py record) :
    (transports.contains (transportOf py record) = false ∧
      ∃ text, send py record b workdir artefacts = .error (.delivery text)) ∨
    (transports.contains (transportOf py record) = true ∧ ¬ (transfer py record b workdir).ExitsZero ∧
      ∃ e, send py record b workdir artefacts = .error e ∧ (Caught e ↔ ¬ (transfer py record b workdir).Fatal)) ∨
    (transports.contains (transportOf py record) = true ∧ (transfer py record b workdir).ExitsZero ∧
      ¬ (transfer py record b workdir).Fatal ∧ ∃ landed, send py record b workdir artefacts = .ok landed) := by
  unfold send transfer
  rw [hnames]
  cases transports.contains (transportOf py record) with
  | false => exact Or.inl ⟨rfl, _, rfl⟩
  | true =>
    refine Or.inr ?_
    cases hran : b.run (transferCall py record workdir (artefactNames py record)) with
    | raised fault text => exact Or.inl ⟨rfl, id, _, rfl, not_fatal_iff.symm⟩
    | exited code stdout stderr =>
      by_cases hcode : code = 0
      · subst hcode
        exact Or.inr ⟨rfl, rfl, id, _, rfl⟩
      · dsimp only
        rw [if_neg (by simp), if_pos hcode]
        exact Or.inl ⟨rfl, hcode, _, rfl, iff_of_true trivial id⟩

theorem runPostCommand_returns_iff :
    (∃ warning, runPostCommand py record b = .ok warning) ↔
      (postCommandOf py record ≠ "" → (b.run (postCall py record)).Ends) := by
  unfold runPostCommand
  by_cases hnone : postCommandOf py record = ""
  · rw [if_pos hnone]
    exact iff_of_true ⟨_, rfl⟩ fun h => absurd hnone h
  · rw [if_neg hnone]
    cases b.run (postCall py record) with
    | raised fault text => simp [hnone, Ran.Ends]
    | exited code stdout stderr =>
      refine iff_of_true ?_ fun _ => trivial
      dsimp only
      split
      · exact ⟨_, rfl⟩
      · exact ⟨_, rfl⟩


/-- Where the record and the certificate are in order, the delivery returns exactly when its steps
raise nothing that is not caught. -/
theorem deliverFiles_returns_iff (hworkdir : b.workdir = some workdir) :
    (deliverFiles py record lineage b).Returns ↔
      (Buildable py record lineage → StepsSurvive py record lineage b workdir) := by
  unfold deliverFiles StepsSurvive
  rw [hworkdir]
  dsimp only
  rcases buildArtefacts_cases with ⟨hnot, text, hbuild⟩ | ⟨hbuildable, hnot, e, hbuild, hcaught⟩ |
    ⟨hbuildable, hconverts, hopenssl, ⟨hwrites, hbuild⟩ | ⟨hwrites, artefacts, hbuild, hnames⟩⟩
  · rw [recover_returns_iff hbuild]
    exact iff_of_true trivial fun h => absurd h hnot
  · rw [recover_returns_iff hbuild, hcaught]
    exact ⟨fun h _ => ⟨h, fun hconverts => absurd hconverts hnot⟩, fun h => (h hbuildable).1⟩
  · rw [recover_returns_iff hbuild]
    refine iff_of_false id fun h => ?_
    have := ((h hbuildable).2 hconverts).1
    simp [hwrites] at this
  have hleft : (Buildable py record lineage → OpensslRuns py record lineage b workdir ∧
      (Converts py record lineage b workdir → b.writes = true ∧ TransferRuns py record b workdir)) ↔
      TransferRuns py record b workdir :=
    ⟨fun h => ((h hbuildable).2 hconverts).2, fun h _ => ⟨hopenssl, fun _ => ⟨hwrites, h⟩⟩⟩
  rw [hleft, hbuild]
  unfold TransferRuns
  change (recover record (send py record b workdir artefacts) _).Returns ↔ _
  rcases send_cases hnames with ⟨hnot, text, hsend⟩ | ⟨hknown, hnot, e, hsend, hcaught⟩ |
    ⟨hknown, hzero, hfatal, landed, hsend⟩
  · rw [recover_returns_iff hsend]
    exact iff_of_true trivial fun h => absurd (hnot.symm.trans h) Bool.false_ne_true
  · rw [recover_returns_iff hsend, hcaught]
    exact ⟨fun h _ => ⟨h, fun hzero => absurd hzero hnot⟩, fun h => (h hknown).1⟩
  · have hpost : (transports.contains (transportOf py record) = true → ¬ (transfer py record b workdir).Fatal ∧
        ((transfer py record b workdir).ExitsZero → postCommandOf py record ≠ "" →
          (b.run (postCall py record)).Ends)) ↔
        (postCommandOf py record ≠ "" → (b.run (postCall py record)).Ends) :=
      ⟨fun h => (h hknown).2 hzero, fun h _ => ⟨hfatal, fun _ => h⟩⟩
    rw [hpost, ← runPostCommand_returns_iff, hsend]
    unfold recover Attempt.Returns
    dsimp only
    cases runPostCommand py record b with
    | error e => simp [Except.map]
    | ok warning => simp [Except.map]

theorem domainItems_returns_iff : (∃ items, domainItems py record = .ok items) ↔ Iterable py record := by
  unfold domainItems Iterable
  cases hdomains : Json.get? record.fields "domains" with
  | none => exact iff_of_true ⟨_, rfl⟩ trivial
  | some v =>
    dsimp only
    by_cases htruthy : truthy py v = true
    · rw [if_pos htruthy]
      cases v <;> simp [htruthy]
    · rw [if_neg htruthy]
      cases v <;> simp_all

theorem certificateNames_cases :
    (∃ text, b.run (x509Call lineage) = .raised .valueError text ∧
      certificateNames py lineage b = .error (.call .valueError)) ∨
    ((∀ text, b.run (x509Call lineage) ≠ .raised .valueError text) ∧
      ((∃ text, certificateNames py lineage b = .error (.delivery text)) ∨
        ∃ held, certificateNames py lineage b = .ok held)) := by
  unfold certificateNames
  cases hran : b.run (x509Call lineage) with
  | raised fault text =>
    cases fault with
    | valueError => exact Or.inl ⟨text, rfl, rfl⟩
    | timeoutExpired => exact Or.inr ⟨fun text h => (by cases h), Or.inl ⟨_, rfl⟩⟩
    | osError => exact Or.inr ⟨fun text h => (by cases h), Or.inl ⟨_, rfl⟩⟩
  | exited code stdout stderr =>
    refine Or.inr ⟨fun text h => (by cases h), ?_⟩
    dsimp only
    split
    · exact Or.inl ⟨_, rfl⟩
    · exact Or.inr ⟨_, rfl⟩

theorem deliver_returns_iff (hitems : Iterable py record) :
    (deliver py record lineage b).Returns ↔ Survives py record lineage b := by
  obtain ⟨items, hitems⟩ := domainItems_returns_iff.mpr hitems
  have hout {e : Raised} : ¬ (⟨[], .error e⟩ : Delivery).Returns := by
    rintro ⟨outcome, houtcome⟩
    cases houtcome
  unfold deliver Survives
  by_cases henabled : enabled py record = true
  swap
  · rw [if_pos (by simpa using henabled)]
    exact iff_of_true ⟨_, rfl⟩ fun h => absurd h henabled
  rw [if_neg (by simpa using henabled)]
  cases hlacks : lacks py record b with
  | some error => exact iff_of_true ⟨_, rfl⟩ fun _ h => (by cases h)
  | none =>
    dsimp only
    rcases certificateNames_cases with ⟨text, hran, hnames⟩ | ⟨hran, ⟨text, hnames⟩ | ⟨held, hnames⟩⟩
    · have huncovered : uncoveredNames py record lineage b = .error (.call .valueError) := by
        rw [uncoveredNames, hnames]
        rfl
      rw [huncovered]
      exact iff_of_false hout fun h => (h henabled rfl).1 text hran
    · have huncovered : uncoveredNames py record lineage b = .error (.delivery text) := by
        rw [uncoveredNames, hnames]
        rfl
      rw [huncovered]
      exact iff_of_true ⟨_, rfl⟩ fun _ _ => ⟨hran, fun h => (by cases h)⟩
    · obtain ⟨missing, hmissing⟩ : ∃ missing, uncoveredNames py record lineage b = .ok missing := by
        rw [uncoveredNames, hnames, hitems]
        exact ⟨_, rfl⟩
      rw [hmissing]
      cases missing with
      | cons name rest => exact iff_of_true ⟨_, rfl⟩ fun _ _ => ⟨hran, fun h => (by cases h)⟩
      | nil =>
        dsimp only
        cases hworkdir : b.workdir with
        | none =>
          refine iff_of_false ?_ fun h => ?_
          · rw [deliverFiles, hworkdir]
            exact hout
          · obtain ⟨workdir, hsome, -⟩ := (h henabled rfl).2 rfl
            cases hsome
        | some workdir =>
          rw [deliverFiles_returns_iff hworkdir]
          constructor
          · intro h _ _
            exact ⟨hran, fun _ => ⟨workdir, rfl, h⟩⟩
          · intro h
            obtain ⟨dir, hdir, hsteps⟩ := (h henabled rfl).2 rfl
            obtain rfl := Option.some_inj.mp hdir
            exact hsteps

/-! ## All targets, whatever happens to any -/

variable {files : List (String × Option Json)} {domains : List String} {behave : String → Behaviour}

theorem listDestinations_eq (h : ∀ file ∈ files, HoldsObject file.2) :
    listDestinations files = .ok (targets files) := by
  induction files with
  | nil => rfl
  | cons file files ih =>
    obtain ⟨hfile, hfiles⟩ := List.forall_mem_cons.mp h
    have hrest := ih hfiles
    obtain ⟨stem, content⟩ := file
    unfold targets at hrest ⊢
    match content, hfile with
    | none, _ => rw [listDestinations, hrest, List.filterMap_cons]
    | some (.obj fields), _ => rw [listDestinations, hrest, List.filterMap_cons, Except.map]

theorem listDestinations_error (h : ¬ ∀ file ∈ files, HoldsObject file.2) :
    listDestinations files = .error .typeError := by
  induction files with
  | nil => simp at h
  | cons file files ih =>
    obtain ⟨stem, content⟩ := file
    rw [List.forall_mem_cons, not_and_or] at h
    match content, h with
    | none, h => exact ih (h.resolve_left (not_not.mpr trivial))
    | some (.obj fields), h =>
      rw [listDestinations, ih (h.resolve_left (not_not.mpr trivial))]
      rfl
    | some .null, _ => rfl
    | some (.bool _), _ => rfl
    | some (.int _), _ => rfl
    | some (.float _), _ => rfl
    | some (.str _), _ => rfl
    | some (.arr _), _ => rfl

theorem wantsDomain_eq (h : Iterable py record) : wantsDomain py record domains = .ok (wants py domains record) := by
  obtain ⟨items, hitems⟩ := domainItems_returns_iff.mpr h
  unfold wants wantsDomain
  rw [hitems]
  rfl

theorem attempt_returns_iff :
    (attempt py lineage domains behave record).Returns ↔
      Iterable py record ∧ (wants py domains record = true → Survives py record lineage (behave record.name)) := by
  by_cases hitems : Iterable py record
  · rw [and_iff_right hitems, ← deliver_returns_iff hitems]
    unfold attempt
    rw [wantsDomain_eq hitems]
    cases wants py domains record with
    | false => exact iff_of_true ⟨_, rfl⟩ fun h => (by cases h)
    | true =>
      unfold Attempt.Returns
      dsimp only
      cases (deliver py record lineage (behave record.name)).ended <;> simp [Except.map]
  · refine iff_of_false ?_ fun h => hitems h.1
    rintro ⟨outcome, h⟩
    unfold attempt wantsDomain at h
    cases hdomains : domainItems py record with
    | ok items => exact hitems (domainItems_returns_iff.mp ⟨items, hdomains⟩)
    | error e =>
      rw [hdomains] at h
      cases h

/-- An outcome carries the name of its target. -/
def Named (record : Record) (d : Delivery) : Prop := ∀ outcome, d.ended = .ok outcome → outcome.name = record.name

theorem named_of_eq {left : List (String × Bytes)} {result : Result} :
    Named record ⟨left, .ok ⟨record.name, result⟩⟩ := by
  intro outcome h
  rw [← Except.ok.inj h]

theorem named_error {left : List (String × Bytes)} {e : Raised} : Named record ⟨left, .error e⟩ := by
  intro outcome h
  cases h

theorem named_recover {α : Type} {x : Except Raised α} {next : α → Delivery}
    (h : ∀ a, x = .ok a → Named record (next a)) : Named record (recover record x next) := by
  unfold recover
  split
  · exact named_of_eq
  · exact named_of_eq
  · exact named_error
  · exact h _ rfl

theorem named_deliver : Named record (deliver py record lineage b) := by
  unfold deliver
  split
  · exact named_of_eq
  split
  · exact named_of_eq
  split
  · exact named_of_eq
  · exact named_error
  · unfold deliverFiles
    split
    · exact named_error
    · apply named_recover
      intro artefacts _
      apply named_recover
      intro landed _
      cases runPostCommand py record b with
      | error e => exact named_error
      | ok warning => exact named_of_eq
  · exact named_of_eq

theorem attempt_left (hitems : Iterable py record) (hwants : wants py domains record = true) :
    (attempt py lineage domains behave record).left =
      (deliver py record lineage (behave record.name)).left.map fun file => (record.name, file) := by
  unfold attempt
  rw [wantsDomain_eq hitems, hwants]

theorem attempt_outcome {outcome : Option Outcome} (hitems : Iterable py record)
    (h : (attempt py lineage domains behave record).ended = .ok outcome) :
    outcome.map Outcome.name = if wants py domains record then some record.name else none := by
  unfold attempt at h
  rw [wantsDomain_eq hitems] at h
  cases hwants : wants py domains record with
  | false =>
    rw [hwants] at h
    rw [← Except.ok.inj h]
    rfl
  | true =>
    rw [hwants] at h
    dsimp only at h
    cases hended : (deliver py record lineage (behave record.name)).ended with
    | error e =>
      rw [hended] at h
      cases h
    | ok result =>
      rw [hended] at h
      rw [← Except.ok.inj h, Option.map_some, named_deliver result hended]
      rfl

theorem outcomes_names {records : List Record} {outcomes : List (Option Outcome)}
    (hitems : ∀ record ∈ records, Iterable py record)
    (h : List.Forall₂ (fun record outcome => (attempt py lineage domains behave record).ended = .ok outcome)
      records outcomes) :
    (outcomes.filterMap id).map Outcome.name = (records.filter (wants py domains)).map Record.name := by
  induction h with
  | nil => rfl
  | @cons record outcome records outcomes hrecord hrest ih =>
    obtain ⟨hitem, hrestItems⟩ := List.forall_mem_cons.mp hitems
    have hname := attempt_outcome hitem hrecord
    have ih := ih hrestItems
    cases hwants : wants py domains record with
    | false =>
      rw [hwants] at hname
      obtain rfl : outcome = none := by simpa using hname
      rw [List.filterMap_cons, List.filter_cons, hwants]
      exact ih
    | true =>
      rw [hwants] at hname
      obtain ⟨result, rfl, hresult⟩ : ∃ result, outcome = some result ∧ result.name = record.name := by
        simpa using hname
      rw [List.filterMap_cons, List.filter_cons, hwants]
      exact congrArg₂ List.cons hresult ih

/-- No file, no record and no target ends the loop. -/
def Unharmed (py : Interpreter) (files : List (String × Option Json)) (lineage : Lineage) (domains : List String)
    (behave : String → Behaviour) : Prop :=
  (∀ file ∈ files, HoldsObject file.2) ∧
    ∀ record ∈ targets files, Iterable py record ∧
      (wants py domains record = true → Survives py record lineage (behave record.name))

variable (py files lineage domains behave) in
/-- Every target is served exactly when nothing ends the loop: a file that is not an object does, a
`domains` that is no list, a program that cannot be started and a command afterwards that hangs. -/
theorem served_iff : Served py files lineage domains behave ↔ Unharmed py files lineage domains behave := by
  constructor
  · rintro ⟨outcomes, hended, -, -⟩
    unfold deliverAll at hended
    by_cases hfiles : ∀ file ∈ files, HoldsObject file.2
    · rw [listDestinations_eq hfiles] at hended
      refine ⟨hfiles, ?_⟩
      have hreturns : (Attempt.each (attempt py lineage domains behave) (targets files)).Returns := by
        dsimp only at hended
        cases heach : (Attempt.each (attempt py lineage domains behave) (targets files)).ended with
        | ok results => exact ⟨results, heach⟩
        | error e =>
          rw [heach] at hended
          cases hended
      intro record hrecord
      exact attempt_returns_iff.mp (Attempt.each_returns_iff.mp hreturns record hrecord)
    · rw [listDestinations_error hfiles] at hended
      cases hended
  · rintro ⟨hfiles, hrecords⟩
    obtain ⟨results, hended, hresults, hleft⟩ := Attempt.each_of_returns
      fun record hrecord => attempt_returns_iff.mpr (hrecords record hrecord)
    unfold Served deliverAll
    rw [listDestinations_eq hfiles]
    dsimp only
    rw [hended, hleft]
    refine ⟨results.filterMap id, rfl, ?_, ?_⟩
    · exact outcomes_names (fun record hrecord => (hrecords record hrecord).1) hresults
    · intro record hrecord hwants file hfile
      rw [List.mem_flatMap]
      refine ⟨record, hrecord, ?_⟩
      rw [attempt_left (hrecords record hrecord).1 hwants]
      exact List.mem_map.mpr ⟨file, hfile, rfl⟩

/-- A file that holds `[]` ends the loop before any target. -/
theorem list_file_ends_loop :
    ¬ ∀ (py : Interpreter) (files : List (String × Option Json)) (lineage : Lineage) (domains : List String)
      (behave : String → Behaviour), Served py files lineage domains behave := by
  intro h
  obtain ⟨outcomes, hended, -⟩ := h ⟨id, fun _ => "", fun _ => true⟩
    [("bad", some (.arr [])), ("web", some (.obj [("domains", .arr [.str "example.com"])]))]
    ⟨"/etc/letsencrypt/live/example.com", "example.com", some [], some []⟩ ["example.com"]
    fun _ => ⟨true, true, some "/tmp/w", true, [], fun _ => .exited 0 "" ""⟩
  cases hended

end EasyHaProxy.Certs
