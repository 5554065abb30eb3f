import Mathlib.Data.Char
import Mathlib.Data.List.Lex
import Mathlib.Data.Set.Finite.Basic
import EasyHaProxy.Lib.Script
import EasyHaProxy.Geoip.Networks

/-! What `update` of `update_geoip.py` reads, decides and writes. A run is the script of its writes, in the
order in which it makes them. A release directory is never written to again once it is published. -/
namespace EasyHaProxy.Geoip

/-- `"%Y-%m"`. -/
structure Month where
  year : Nat
  month : Nat
  deriving DecidableEq

def Month.before (m : Month) : Month := if m.month ≤ 1 then ⟨m.year - 1, 12⟩ else ⟨m.year, m.month - 1⟩

/-- `month_candidates`. -/
def monthCandidates (now : Month) : List Month := [now, now.before, now.before.before]

/-- `normalize_countries`, in its loop over the values and the codes of each. -/
def normalizeCountries (values : List (List Char)) : Option (List Country) :=
  let codes := (values.flatMap fun raw => (raw.splitOn ',').map fun value => Text.upper (Text.strip value)).filter
    fun code => !code.isEmpty
  let isCode : List Char → Bool
    | [a, b] => ('A' ≤ a && a ≤ 'Z') && ('A' ≤ b && b ≤ 'Z')
    | _ => false
  if codes.all isCode then some (codes.dedup.insertionSort fun a b => a ≤ b) else none

/-- SHA-256 of what is hashed, and the digits of it that stand in a release's name. -/
structure Sha (δ : Type) where
  database : Database → δ
  list : List Network → δ
  config : List Country → Bool → δ → δ
  short : δ → δ

variable {δ β : Type}

/-- `{period}-{database}-{config}`. -/
structure Name (δ : Type) where
  period : Month
  database : δ
  config : δ
  deriving DecidableEq

/-- The name of a directory in `releases/`. -/
inductive Id (δ : Type)
  | release (name : Name δ)
  | repair (name : Name δ) (stamp suffix : Nat)
  deriving DecidableEq

/-- What later runs read of `state.json`. -/
structure ReleaseState (δ : Type) where
  version : Nat
  period : Month
  countries : List Country
  enabled : Bool
  database : δ
  allowed : δ
  deriving DecidableEq

/-- `RELEASE_FORMAT_VERSION`. -/
def releaseFormatVersion : Nat := 1

/-- A release directory. -/
structure Release (δ : Type) where
  database : Option Database
  allowed : Option (List Network)
  cidr : List (Country × List Network)
  state : Option (ReleaseState δ)
  deriving DecidableEq

/-- What HAProxy finds there. -/
def Release.lists (r : Release δ) : Option Lists := r.allowed.map fun allowed => ⟨allowed, r.cidr⟩

structure Entry (δ : Type) where
  id : Id δ
  mtime : Nat
  release : Release δ
  deriving DecidableEq

/-- A `.build-` directory. -/
structure Build where
  number : Nat
  mtime : Nat
  deriving DecidableEq

/-- A compatibility file: `link` is the one to `current/`. -/
inductive Compat (α : Type)
  | missing
  | link
  | elsewhere (target : List Char) (content : Option α)
  | file (content : α)
  deriving DecidableEq

inductive Stored (β : Type)
  | missing
  /-- A symbolic link, or no file. -/
  | irregular
  | file (content : β)
  deriving DecidableEq

/-- The directory, the selection file, and the lists of the running HAProxy. -/
structure World (δ β : Type) where
  releases : List (Entry δ)
  builds : List Build
  current : Option (Id δ)
  previous : Option (Id δ)
  compatDatabase : Compat Database
  compatAllowed : Compat (List Network)
  selection : Stored β
  /-- What it found when it last read its configuration; nothing while it does not run. -/
  loaded : Option Lists
  deriving DecidableEq

/-- The arguments. Without a selection file the countries and the switch are given. -/
structure Args where
  force : Bool
  skipReload : Bool
  direct : Option (List (List Char) × Bool)

/-- `validate_reload_and_probe`: how the check, the reload and the probe end. -/
structure Guard where
  check : Bool
  reload : Bool
  /-- A reload that is given up, and takes place. -/
  late : Bool
  probe : Bool

def Guard.loads (g : Guard) : Bool := g.check && (g.reload || g.late)

def Guard.ok (g : Guard) : Bool := g.check && g.reload && g.probe

/-- What a run meets. -/
structure Env where
  /-- `verify_config_transaction_access` raises. -/
  deferred : Bool
  now : Month
  stamp : Nat
  mtime : Nat
  /-- The decompressed file, where the download ends well. -/
  download : Month → Option Database
  first : Guard
  second : Guard

/-- `load_selection` of the bytes of a file, before the codes are normalised. -/
abbrev Format (β : Type) := β → Option (List (List Char) × Bool)

section

variable [DecidableEq δ]

def World.lookup (w : World δ β) (id : Id δ) : Option (Release δ) :=
  (w.releases.find? fun e => e.id = id).map (·.release)

/-- `active_release`. -/
def World.active (w : World δ β) : Option (Release δ) := w.current.bind w.lookup

/-- The lists that `current` leads to. -/
def World.installed (w : World δ β) : Option Lists := w.active.bind (·.lists)

/-- A regular file of the layout before there were releases. -/
def Compat.legacy {α : Type} : Compat α → Option α
  | .file content => some content
  | _ => none

/-- The bytes read through the path, with `current/` leading nowhere. -/
def Compat.read {α : Type} : Compat α → Option α
  | .file content => some content
  | .elsewhere _ content => content
  | _ => none

/-- `current_database`, where it is a file. -/
def World.database (w : World δ β) : Option Database :=
  (w.active.bind (·.database)).or w.compatDatabase.legacy

/-- `previous_allowed_content`. -/
def World.previousAllowed (w : World δ β) : Option (List Network) :=
  match w.active with
  | some release => release.allowed
  | none => w.compatAllowed.read

def World.state (w : World δ β) : Option (ReleaseState δ) := w.active.bind (·.state)

variable (sha : Sha δ) (format : Format β)

/-- `database_hash_matches`. -/
def World.databaseMatches (w : World δ β) : Bool :=
  w.database.any fun database => w.state.any fun state => sha.database database = state.database

/-- `allowed_hash_matches`. -/
def World.allowedMatches (w : World δ β) : Bool :=
  (w.active.bind (·.allowed)).any fun allowed => w.state.any fun state => sha.list allowed = state.allowed

/-- The countries and the switch. -/
def World.chosen (w : World δ β) (args : Args) : Option (List Country × Bool) :=
  let values :=
    match args.direct, w.selection with
    | some direct, _ => some direct
    | none, .file content => format content
    | none, _ => none
  values.bind fun v => (normalizeCountries v.1).map fun countries => (countries, v.2)

/-- `state_matches`. -/
def World.stateMatches (w : World δ β) (args : Args) (env : Env) (countries : List Country) (enabled : Bool) : Bool :=
  !args.force && w.databaseMatches sha && w.allowedMatches sha &&
    (w.state.any fun state => state.version = releaseFormatVersion && state.period = env.now &&
      state.countries = countries && state.enabled = enabled) &&
    (!enabled || (w.active.bind (·.allowed)).any fun allowed => !allowed.isEmpty)

/-- `download_database`. -/
def Env.downloadDatabase (env : Env) (periods : List Month) : Option (Month × Database) :=
  periods.findSome? fun period => ((env.download period).filter validateDatabase).map fun db => (period, db)

/-- The installed database again. -/
def World.reuse (w : World δ β) : Option (Month × Database) :=
  w.state.bind fun state => (w.database.filter validateDatabase).map fun db => (state.period, db)

def World.source (w : World δ β) (args : Args) (env : Env) : Option (Month × Database) :=
  if !args.force && w.databaseMatches sha && w.state.any fun state => state.period = env.now then w.reuse
  else
    let periods := if w.active.isNone && w.compatDatabase.legacy.isNone then monthCandidates env.now else [env.now]
    match env.downloadDatabase periods with
    | some found => some found
    | none => if w.databaseMatches sha then w.reuse else none

/-- The release that is built. Where filtering is off and no country is selected, a list that is there
stays. -/
def World.build (w : World δ β) (period : Month) (db : Database) (countries : List Country) (enabled : Bool) :
    Option (Release δ) :=
  (deriveAcl db countries).map fun lists =>
    let kept := w.previousAllowed.filter fun list => !enabled && countries.isEmpty && !list.isEmpty
    let allowed := kept.getD lists.allowed
    { database := some db
      allowed := some allowed
      cidr := lists.cidr
      state := some ⟨releaseFormatVersion, period, countries, enabled, sha.database db, sha.list allowed⟩ }

/-- `release_id`. -/
def nameOf (period : Month) (db : Database) (countries : List Country) (enabled : Bool) (allowed : List Network) :
    Name δ :=
  ⟨period, sha.short (sha.database db), sha.short (sha.config countries enabled (sha.list allowed))⟩

/-- `release_payload_matches`. -/
def payloadMatches (release : Release δ) (database allowed : δ) : Bool :=
  (release.state.any fun state => state.version = releaseFormatVersion && state.database = database &&
    state.allowed = allowed) &&
  (release.database.any fun db => sha.database db = database) &&
  (release.allowed.any fun list => sha.list list = allowed)

theorem exists_unused (w : World δ β) (name : Name δ) (stamp : Nat) :
    ∃ suffix, w.lookup (.repair name stamp suffix) = none := by
  have hinj : Function.Injective (Id.repair name stamp) := fun a b h => by
    cases h
    rfl
  obtain ⟨id, ⟨suffix, rfl⟩, hid⟩ :=
    (Set.infinite_range_of_injective hinj).exists_notMem_finite (w.releases.map (·.id)).finite_toSet
  refine ⟨suffix, ?_⟩
  simp only [World.lookup, Option.map_eq_none_iff, List.find?_eq_none, decide_eq_true_eq]
  intro e he heq
  exact hid (List.mem_map.mpr ⟨e, he, heq⟩)

/-- The name of a repaired release, after the loop over the suffixes. -/
def World.repairId (w : World δ β) (name : Name δ) (stamp : Nat) : Id δ :=
  .repair name stamp (Nat.find (exists_unused w name stamp))

/-- Where a built release goes, and whether the directory is new. -/
def World.place (w : World δ β) (name : Name δ) (database allowed : δ) (stamp : Nat) : Id δ × Bool :=
  match w.lookup (.release name) with
  | none => (.release name, true)
  | some release =>
    if payloadMatches sha release database allowed then (.release name, false) else (w.repairId name stamp, true)

/-- What is published: the build, under this name, or the release that has it already. -/
structure Product (δ : Type) where
  release : Release δ
  id : Id δ
  fresh : Bool
  /-- `acl_changed`. -/
  changed : Bool
  enabled : Bool

/-- What a run decides. -/
inductive Plan (δ : Type)
  /-- It raises before it builds. -/
  | refused
  /-- `state_matches`. -/
  | unchanged
  /-- The build raises. -/
  | failed
  | built (product : Product δ)

def World.produce (w : World δ β) (args : Args) (env : Env) (countries : List Country) (enabled : Bool) :
    Option (Product δ) :=
  (w.source sha args env).bind fun found =>
    (w.build sha found.1 found.2 countries enabled).bind fun release => release.allowed.map fun allowed =>
      let name := nameOf sha found.1 found.2 countries enabled allowed
      let place := w.place sha name (sha.database found.2) (sha.list allowed) env.stamp
      ⟨release, place.1, place.2, w.previousAllowed ≠ some allowed, enabled⟩

def World.plan (w : World δ β) (args : Args) (env : Env) : Plan δ :=
  if env.deferred then .refused
  else
    match w.chosen format args with
    | none => .refused
    | some (countries, enabled) =>
      if enabled && countries.isEmpty then .refused
      else if w.stateMatches sha args env countries enabled then
        if w.database.any validateDatabase then .unchanged else .refused
      else
        match w.produce sha args env countries enabled with
        | none => .failed
        | some product => .built product

end

/-! ## The writes -/

inductive Step
  | openBuild
  | closeBuild
  | publish
  | switch
  | linkDatabase
  | linkAllowed
  | reload
  | switchBack
  | relinkDatabase
  | relinkAllowed
  | reloadAgain
  | linkPrevious
  | prune (n : Nat)
  deriving DecidableEq

inductive Victim (δ : Type)
  | release (id : Id δ)
  | build (number : Nat)

inductive Write (δ : Type)
  | openBuild (build : Build)
  | dropBuild (number : Nat)
  | publish (number : Nat) (entry : Entry δ)
  | setCurrent (target : Option (Id δ))
  | setPrevious (target : Id δ)
  | setDatabase (entry : Compat Database)
  | setAllowed (entry : Compat (List Network))
  | load
  | remove (victim : Victim δ)

section

variable [DecidableEq δ]

def World.dropBuild (w : World δ β) (number : Nat) : World δ β :=
  { w with builds := w.builds.filter fun b => b.number ≠ number }

/-- HAProxy reads the lists again; where there are none it stays with those it has. -/
def World.load (w : World δ β) : World δ β := { w with loaded := w.installed.or w.loaded }

def World.apply (w : World δ β) : Write δ → World δ β
  | .openBuild build => { w with builds := build :: w.builds }
  | .dropBuild number => w.dropBuild number
  | .publish number entry => { w.dropBuild number with releases := w.releases ++ [entry] }
  | .setCurrent target => { w with current := target }
  | .setPrevious target => { w with previous := some target }
  | .setDatabase entry => { w with compatDatabase := entry }
  | .setAllowed entry => { w with compatAllowed := entry }
  | .load => w.load
  | .remove (.release id) => { w with releases := w.releases.filter fun e => e.id ≠ id }
  | .remove (.build number) => w.dropBuild number

abbrev World.play (w : World δ β) (script : List (Step × Write δ)) : World δ β := Script.play World.apply w script

/-- `protected` of `prune_releases`: where `current` and `previous` lead. -/
def World.isProtected (w : World δ β) : Victim δ → Bool
  | .release id => (w.current = some id || w.previous = some id) && (w.lookup id).isSome
  | .build _ => false

/-- The loop of `prune_releases`, over the directories from the newest on. -/
def prunedFrom (isProtected : Victim δ → Bool) (keep : Nat) : Nat → List (Victim δ) → List (Victim δ)
  | _, [] => []
  | retained, v :: rest =>
    if isProtected v || retained < keep then prunedFrom isProtected keep (retained + 1) rest
    else v :: prunedFrom isProtected keep retained rest

/-- The directories of `releases/`, newest first. -/
def World.candidates (w : World δ β) : List (Victim δ) :=
  let directories : List (Nat × Victim δ) :=
    (w.releases.map fun e => (e.mtime, .release e.id)) ++ w.builds.map fun b => (b.mtime, .build b.number)
  (directories.insertionSort fun a b => b.1 ≤ a.1).map Prod.snd

/-- `prune_releases`. -/
def World.prune (w : World δ β) : List (Step × Write δ) :=
  (prunedFrom w.isProtected 3 0 w.candidates).mapIdx fun n v => (.prune n, .remove v)

/-- A name that `mkdtemp` finds unused. -/
def World.buildNumber (w : World δ β) : Nat := (w.builds.map (·.number)).foldr max 0 + 1

def installLinks : List (Step × Write δ) := [(.linkDatabase, .setDatabase .link), (.linkAllowed, .setAllowed .link)]

variable (sha : Sha δ) (format : Format β)

/-- The build, up to the directory under its name. -/
def World.publishing (w : World δ β) (env : Env) (product : Product δ) : List (Step × Write δ) :=
  [(.openBuild, .openBuild ⟨w.buildNumber, env.mtime⟩),
    (.publish, if product.fresh then .publish w.buildNumber ⟨product.id, env.mtime, product.release⟩
      else .dropBuild w.buildNumber)]

/-- Back to what `current` was. Without an old release the files are as the snapshot has them. -/
def World.goBack (w : World δ β) : List (Step × Write δ) :=
  match w.current with
  | some old =>
    [(.switchBack, .setCurrent (some old)), (.relinkDatabase, .setDatabase .link), (.relinkAllowed, .setAllowed .link)]
  | none =>
    [(.switchBack, .setCurrent none), (.relinkDatabase, .setDatabase w.compatDatabase),
      (.relinkAllowed, .setAllowed w.compatAllowed)]

/-- `active`, before the reload. -/
def World.guarded (w : World δ β) (args : Args) (product : Product δ) : Bool :=
  product.changed && product.enabled && !args.skipReload && w.loaded.isSome

def reloading (step : Step) (guard : Guard) : List (Step × Write δ) := if guard.loads then [(step, .load)] else []

/-- The end of a run whose new release is in force. -/
def World.finish (w : World δ β) : List (Step × Write δ) :=
  match w.current with
  | some old => if w.databaseMatches sha && w.allowedMatches sha then [(.linkPrevious, .setPrevious old)] else []
  | none => []

def switching (id : Id δ) : List (Step × Write δ) := (.switch, .setCurrent (some id)) :: installLinks

/-- The writes of a run before `prune_releases`, and whether it comes to that. -/
def World.body (w : World δ β) (args : Args) (env : Env) : List (Step × Write δ) × Bool :=
  match w.plan sha format args env with
  | .refused => ([], false)
  | .unchanged => (installLinks, true)
  | .failed =>
    ([(.openBuild, .openBuild ⟨w.buildNumber, env.mtime⟩), (.closeBuild, .dropBuild w.buildNumber)], false)
  | .built product =>
    if w.current = some product.id then (w.publishing env product ++ installLinks, true)
    else
      let switched := w.publishing env product ++ switching product.id
      if w.guarded args product then
        if env.first.ok then (switched ++ (reloading .reload env.first ++ w.finish sha), true)
        else (switched ++ (reloading .reload env.first ++ w.goBack ++ reloading .reloadAgain env.second), false)
      else (switched ++ w.finish sha, true)

/-- The writes of a run and whether it returns. -/
def World.script (w : World δ β) (args : Args) (env : Env) : List (Step × Write δ) × Bool :=
  let body := w.body sha format args env
  (body.1 ++ if body.2 then (w.play body.1).prune else [], body.2)

/-- How a run ends: by itself, with the process, or with an exception that a step raises. -/
inductive Ending
  | complete
  | crash (step : Step)
  | raise (step : Step)

def Ending.stop : Ending → Option Step
  | .complete => none
  | .crash step | .raise step => some step

/-- What a run leaves. An exception takes the build directory with it. -/
def World.update (w : World δ β) (args : Args) (env : Env) (ending : Ending) : World δ β :=
  let played := w.play (Script.upTo ending.stop (w.script sha format args env).1)
  match ending with
  | .raise _ => played.dropBuild w.buildNumber
  | _ => played

/-- The run returns: no step it stops at is one of its own. -/
def World.returns (w : World δ β) (args : Args) (env : Env) (ending : Ending) : Bool :=
  (w.script sha format args env).2 && (w.script sha format args env).1.all fun e => ending.stop ≠ some e.1

/-! ## What a write leaves alone -/

variable {w : World δ β} {id : Id δ} {r : Release δ}

omit sha format in
theorem lookup_publish_of_some {number : Nat} {entry : Entry δ} (h : w.lookup id = some r) :
    (w.apply (.publish number entry)).lookup id = some r := by
  simp only [World.lookup, Option.map_eq_some_iff] at h ⊢
  obtain ⟨e, he, hr⟩ := h
  refine ⟨e, ?_, hr⟩
  change (w.releases ++ [entry]).find? _ = some e
  rw [List.find?_append, he, Option.some_or]

omit sha format in
theorem lookup_publish_self {number : Nat} {entry : Entry δ} (h : w.lookup entry.id = none) :
    (w.apply (.publish number entry)).lookup entry.id = some entry.release := by
  simp only [World.lookup, Option.map_eq_none_iff] at h
  change ((w.releases ++ [entry]).find? _).map _ = _
  rw [List.find?_append, h]
  simp

omit sha format in
theorem lookup_remove_of_ne {other : Id δ} (h : other ≠ id) :
    (w.apply (.remove (.release other))).lookup id = w.lookup id := by
  change ((w.releases.filter fun e => e.id ≠ other).find? _).map _ = _
  rw [List.find?_filter]
  unfold World.lookup
  congr 2
  funext e
  by_cases he : e.id = id
  · simp [he, h.symm]
  · simp [he]

omit [DecidableEq δ] sha format in
theorem isProtected_of_mem_prunedFrom {p : Victim δ → Bool} {keep retained : Nat} {l : List (Victim δ)} {v : Victim δ}
    (h : v ∈ prunedFrom p keep retained l) : v ∈ l ∧ p v = false := by
  induction l generalizing retained with
  | nil => simp [prunedFrom] at h
  | cons a rest ih =>
    simp only [prunedFrom] at h
    split at h
    case isTrue =>
      obtain ⟨hmem, hp⟩ := ih h
      exact ⟨List.mem_cons_of_mem _ hmem, hp⟩
    case isFalse hcond =>
      obtain rfl | h := List.mem_cons.mp h
      · exact ⟨List.mem_cons_self, by simp_all⟩
      · obtain ⟨hmem, hp⟩ := ih h
        exact ⟨List.mem_cons_of_mem _ hmem, hp⟩

omit sha format in
theorem lookup_isSome_of_candidate (h : .release id ∈ w.candidates) : (w.lookup id).isSome := by
  simp only [World.candidates, List.mem_map, List.mem_insertionSort, List.mem_append] at h
  obtain ⟨p, hp, hid⟩ := h
  obtain ⟨e, he, rfl⟩ | ⟨b, _, rfl⟩ := hp
  · simp only [Victim.release.injEq] at hid
    simp only [World.lookup, Option.isSome_map, List.find?_isSome]
    exact ⟨e, he, by simpa using hid⟩
  · simp at hid

omit sha format in
theorem mem_prune {e : Step × Write δ} (h : e ∈ w.prune) :
    ∃ n v, e = (.prune n, .remove v) ∧ ∀ id, v = .release id → w.current ≠ some id ∧ w.previous ≠ some id := by
  obtain ⟨n, hn, rfl⟩ := List.mem_mapIdx.mp h
  obtain ⟨hmem, hp⟩ := isProtected_of_mem_prunedFrom (List.getElem_mem hn)
  refine ⟨n, _, rfl, ?_⟩
  intro id hv
  rw [hv] at hmem hp
  simpa [World.isProtected, lookup_isSome_of_candidate hmem] using hp

section

variable {sha format} {args : Args} {env : Env} {product : Product δ} {countries : List Country} {enabled : Bool}

omit sha format in
theorem lookup_publishing_self (hf : product.fresh = true) (h : w.lookup product.id = none) :
    (w.play (w.publishing env product)).lookup product.id = some product.release := by
  simp only [World.publishing, hf, if_true]
  exact lookup_publish_self h

omit sha format in
theorem lookup_publishing_of_some (h : w.lookup id = some r) :
    (w.play (w.publishing env product)).lookup id = some r := by
  unfold World.publishing
  by_cases hf : product.fresh = true
  · simp only [hf, if_true]
    exact lookup_publish_of_some h
  · simp only [hf]
    exact h

omit format in
theorem lookup_place {name : Name δ} {database allowed : δ} {stamp : Nat} :
    ((w.place sha name database allowed stamp).2 = true → w.lookup (w.place sha name database allowed stamp).1 = none) ∧
    ((w.place sha name database allowed stamp).2 = false →
      ∃ r, w.lookup (w.place sha name database allowed stamp).1 = some r ∧ r.allowed.isSome = true) := by
  unfold World.place
  cases hl : w.lookup (.release name) with
  | none => exact ⟨fun _ => hl, nofun⟩
  | some r =>
    by_cases hp : payloadMatches sha r database allowed = true
    · simp only [hp, if_true]
      exact ⟨nofun, fun _ => ⟨r, hl, Option.isSome_of_any (Bool.and_eq_true_iff.mp hp).2⟩⟩
    · simp only [hp]
      exact ⟨fun _ => Nat.find_spec (exists_unused w name stamp), nofun⟩

omit format in
/-- A new directory has a name of its own; one that is there already has a list. -/
theorem produce_placed (h : w.produce sha args env countries enabled = some product) :
    product.release.allowed.isSome = true ∧ (product.fresh = true → w.lookup product.id = none) ∧
    (product.fresh = false → ∃ r, w.lookup product.id = some r ∧ r.allowed.isSome = true) := by
  simp only [World.produce, Option.bind_eq_some_iff, Option.map_eq_some_iff] at h
  obtain ⟨found, -, release, -, allowed, hallowed, rfl⟩ := h
  exact ⟨by simp [hallowed], lookup_place⟩

theorem plan_built (h : w.plan sha format args env = .built product) :
    ∃ countries enabled, w.chosen format args = some (countries, enabled) ∧
      w.stateMatches sha args env countries enabled = false ∧
      w.produce sha args env countries enabled = some product := by
  unfold World.plan at h
  split at h
  case isTrue => cases h
  case isFalse =>
    split at h
    case h_1 => cases h
    case h_2 countries enabled hchosen =>
      split at h
      case isTrue => cases h
      case isFalse =>
        split at h
        case isTrue => split at h <;> cases h
        case isFalse hmatches =>
          split at h
          case h_1 => cases h
          case h_2 p hp =>
            cases h
            exact ⟨countries, enabled, hchosen, Bool.eq_false_iff.mpr hmatches, hp⟩

end

end

end EasyHaProxy.Geoip
