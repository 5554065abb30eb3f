import EasyHaProxy.Lib.Dict
import EasyHaProxy.Lib.Machine
import Mathlib.Data.List.Dedup

/-! The rules that map source files to the stages of the playbook, the comparison of a source with the one
recorded last, and the update command on top of both. What is deployed is kept per file and stage. -/
namespace EasyHaProxy.Installer

/-! ## The rules -/

/-- `*` of a pattern: whatever it takes, the rest of the pattern matches what is left. -/
def matchStar (rest : List Char → Bool) : List Char → Bool
  | [] => rest []
  | c :: text => rest (c :: text) || matchStar rest text

/-- `fnmatchcase` for patterns whose only special character is `*`, which also takes `/`. -/
def fnmatch : List Char → List Char → Bool
  | [], text => text.isEmpty
  | '*' :: pattern, text => matchStar (fnmatch pattern) text
  | _ :: _, [] => false
  | c :: pattern, c' :: text => c = c' && fnmatch pattern text

def fullTag : String := "full"
def statusTag : String := "status"

/-- `RULES`: the first pattern that matches decides; no stage means nothing to deploy. -/
def rules : List (String × List String) :=
  [
    (".tests/*", []),
    (".github/*", []),
    ("LICENSES/*", []),
    ("LICENSE", []),
    ("*.md", []),
    (".gitignore", []),
    (".gitattributes", []),
    (".dockerignore", []),
    ("Dockerfile", []),
    ("docker/*", []),
    ("install.sh", []),
    ("install-local.sh", []),
    ("install-remote.sh", []),
    ("easy-ha-proxy-helper.sh", []),
    ("installer/requirements.txt", ["full"]),
    ("installer/*", []),
    ("ansible/callback_plugins/*", []),
    ("ansible/roles/healthcheck/*", []),
    ("ansible/roles/update_packages/*", []),
    ("ansible/roles/haproxy-admin/files/easy-ha-proxy-guardd.py", ["ha-adm-guardd"]),
    ("ansible/roles/haproxy-admin/files/scanner-signatures.json", ["ha-adm-guardd"]),
    ("ansible/roles/haproxy-admin/templates/guardd.json.j2", ["ha-adm-guardd"]),
    ("ansible/roles/haproxy-admin/templates/easy-ha-proxy-guardd.service.j2", ["ha-adm-guardd"]),
    ("ansible/roles/haproxy-admin/tasks/guardd.yml", ["ha-adm-guardd"]),
    ("ansible/roles/haproxy-admin/files/easy-ha-proxy-metricsd.py", ["ha-adm-metricsd"]),
    ("ansible/roles/haproxy-admin/templates/metricsd.json.j2", ["ha-adm-metricsd"]),
    ("ansible/roles/haproxy-admin/templates/easy-ha-proxy-metricsd.service.j2", ["ha-adm-metricsd"]),
    ("ansible/roles/haproxy-admin/tasks/metricsd.yml", ["ha-adm-metricsd"]),
    ("ansible/roles/haproxy-admin/files/easy-ha-proxy-alertd.py", ["ha-adm-alertd"]),
    ("ansible/roles/haproxy-admin/files/easy_ha_proxy_alert_client.py", ["ha-adm-alertd"]),
    ("ansible/roles/haproxy-admin/templates/alertd.json.j2", ["ha-adm-alertd"]),
    ("ansible/roles/haproxy-admin/templates/easy-ha-proxy-alertd.service.j2", ["ha-adm-alertd"]),
    ("ansible/roles/haproxy-admin/tasks/alertd.yml", ["ha-adm-alertd"]),
    ("ansible/roles/haproxy-admin/files/haproxy-healthd.py", ["ha-adm-healthd"]),
    ("ansible/roles/haproxy-admin/templates/healthd.json.j2", ["ha-adm-healthd"]),
    ("ansible/roles/haproxy-admin/templates/haproxy-healthd.service.j2", ["ha-adm-healthd"]),
    ("ansible/roles/haproxy-admin/tasks/healthd.yml", ["ha-adm-healthd"]),
    ("ansible/roles/haproxy-admin/files/haproxy-controld.py", ["ha-adm-controld"]),
    ("ansible/roles/haproxy-admin/templates/haproxy-controld.service.j2", ["ha-adm-controld"]),
    ("ansible/roles/haproxy-admin/tasks/controld.yml", ["ha-adm-controld"]),
    ("ansible/roles/haproxy-admin/files/easy-ha-proxy-backupd.py", ["ha-adm-backupd"]),
    ("ansible/roles/haproxy-admin/files/easy-ha-proxy-backup-run.py", ["ha-adm-backupd"]),
    ("ansible/roles/haproxy-admin/files/easy-ha-proxy-unit-failed.py", ["ha-adm-backupd"]),
    ("ansible/roles/haproxy-admin/templates/easy-ha-proxy-backup.service.j2", ["ha-adm-backupd"]),
    ("ansible/roles/haproxy-admin/templates/easy-ha-proxy-backup.timer.j2", ["ha-adm-backupd"]),
    ("ansible/roles/haproxy-admin/templates/easy-ha-proxy-backupd.service.j2", ["ha-adm-backupd"]),
    ("ansible/roles/haproxy-admin/templates/easy-ha-proxy-unit-failed@.service.j2", ["ha-adm-backupd"]),
    ("ansible/roles/haproxy-admin/tasks/backupd.yml", ["ha-adm-backupd"]),
    ("ansible/roles/haproxy-admin/files/easy-ha-proxy-updated.py", ["ha-adm-updated"]),
    ("ansible/roles/haproxy-admin/templates/easy-ha-proxy-updated.service.j2", ["ha-adm-updated"]),
    ("ansible/roles/haproxy-admin/tasks/updated.yml", ["ha-adm-updated"]),
    ("ansible/roles/haproxy-admin/files/haproxy-certd.py", ["ha-adm-daemons"]),
    ("ansible/roles/haproxy-admin/files/easy-ha-proxy-cert-deliver.py", ["ha-adm-daemons"]),
    ("ansible/roles/haproxy-admin/templates/haproxy-certd.service.j2", ["ha-adm-daemons"]),
    ("ansible/roles/haproxy-admin/tasks/certd.yml", ["ha-adm-daemons"]),
    ("ansible/roles/haproxy-admin/tasks/dns-plugins.yml", ["ha-adm-daemons"]),
    ("ansible/roles/haproxy-admin/tasks/daemons.yml", ["ha-adm-daemons"]),
    ("ansible/roles/haproxy-admin/templates/journal-vacuum.service.j2", ["ha-adm-journald"]),
    ("ansible/roles/haproxy-admin/templates/journal-vacuum.timer.j2", ["ha-adm-journald"]),
    ("ansible/roles/haproxy-admin/tasks/journald-retention.yml", ["ha-adm-journald"]),
    ("ansible/roles/haproxy-admin/files/haproxy_ban.rules", ["ha-adm-install"]),
    ("ansible/roles/haproxy-admin/files/haproxy-udp-forward.py", ["ha-adm-install"]),
    ("ansible/roles/haproxy-admin/templates/iptables-haproxy-ban.service.j2", ["ha-adm-install"]),
    ("ansible/roles/haproxy-admin/templates/iptables-haproxy-udp.service.j2", ["ha-adm-install"]),
    ("ansible/roles/haproxy-admin/tasks/iptables-ban.yml", ["ha-adm-install"]),
    ("ansible/roles/haproxy-admin/tasks/iptables-udp.yml", ["ha-adm-install"]),
    ("ansible/roles/haproxy-admin/tasks/install.yml", ["ha-adm-install"]),
    ("ansible/roles/haproxy-admin/tasks/fs.yml", ["ha-adm-install"]),
    ("ansible/roles/haproxy-admin/tasks/update_haproxy_admin.yml", []),
    ("ansible/roles/haproxy/templates/haproxy.cfg.j2", ["ha-cfg", "ha-adm-cfg"]),
    ("ansible/roles/haproxy/templates/haproxy-state-dump.*", ["ha-cfg"]),
    ("ansible/roles/haproxy/tasks/config.yml", ["ha-cfg"]),
    ("ansible/roles/haproxy/files/default-favicon.ico", ["ha-install"]),
    ("ansible/roles/haproxy/templates/access_granted.http.j2", ["ha-install"]),
    ("ansible/roles/haproxy/templates/maintenance.http.j2", ["ha-install"]),
    ("ansible/roles/haproxy/templates/update-admin-rt.*", ["ha-install"]),
    ("ansible/roles/haproxy/tasks/install.yml", ["ha-install"]),
    ("ansible/roles/haproxy/tasks/package.yml", ["ha-install"]),
    ("ansible/roles/haproxy/tasks/fs.yml", ["ha-install"]),
    ("ansible/roles/haproxy/tasks/apparmor.yml", ["apparmor"]),
    ("ansible/roles/haproxy/defaults/*", ["ha-install", "ha-cfg"]),
    ("ansible/roles/haproxy/handlers/*", ["ha-install", "ha-cfg"]),
    ("ansible/roles/haproxy/tasks/addadmin.yml", []),
    ("ansible/roles/geoip_acl/*", ["geo"]),
    ("ansible/roles/docker/*", ["docker"]),
    ("ansible/roles/cert/templates/905-haproxy-pems-reload.sh.j2", ["crt-hooks"]),
    ("ansible/roles/cert/templates/906-deliver-certificates.sh.j2", ["crt-hooks"]),
    ("ansible/roles/cert/tasks/hooks.yml", ["crt-hooks"]),
    ("ansible/roles/cert/templates/910-mail-notify.sh.j2", ["crt-notify"]),
    ("ansible/roles/cert/templates/mail-notify.json.j2", ["crt-notify"]),
    ("ansible/roles/cert/tasks/notify.yml", ["crt-notify"]),
    ("ansible/roles/cert/tasks/install.yml", ["crt-install"]),
    ("ansible/roles/cert/tasks/renew*.yml", []),
    ("ansible/roles/cert/templates/_san_flags.j2", []),
    ("ansible/roles/cert/tasks/rdg.yml", []),
    ("ansible/roles/cert/tasks/test.yml", []),
    ("ansible/roles/cert/tasks/remove_orphans.yml", []),
    ("ansible/roles/authelia/files/authelia-bansd.py", ["aut-daemons"]),
    ("ansible/roles/authelia/files/authelia-configd.py", ["aut-daemons"]),
    ("ansible/roles/authelia/files/authelia-usersd.py", ["aut-daemons"]),
    ("ansible/roles/authelia/templates/authelia-bans.sh.j2", ["aut-daemons"]),
    ("ansible/roles/authelia/templates/authelia-bansd.service.j2", ["aut-daemons"]),
    ("ansible/roles/authelia/templates/authelia-configd.service.j2", ["aut-daemons"]),
    ("ansible/roles/authelia/templates/authelia-usersd.service.j2", ["aut-daemons"]),
    ("ansible/roles/authelia/tasks/bansd.yml", ["aut-daemons"]),
    ("ansible/roles/authelia/tasks/configd.yml", ["aut-daemons"]),
    ("ansible/roles/authelia/tasks/usersd.yml", ["aut-daemons"]),
    ("ansible/roles/authelia/tasks/daemons.yml", ["aut-daemons"])
  ]

/-- `tags_for_path`. -/
def tagsForPath (relative : String) : Option (List String) :=
  (rules.find? fun rule => fnmatch rule.1.toList relative.toList).map Prod.snd

/-! ## The scope of an update -/

/-- `source_manifest`: the digest of every shipped file. -/
abbrev Manifest := Dict String String

/-- `changed_paths`. -/
def changedPaths (applied candidate : Manifest) : List String :=
  (candidate.entries.filter fun e => applied.get? e.1 ≠ some e.2).map Prod.fst

structure Scope where
  full : Bool
  tags : List String

/-- `scope_for`; the status check comes along when anything runs at all. -/
def scopeFor (paths : List String) : Scope :=
  let found := paths.map tagsForPath
  let full := found.any fun tags => tags = none || (tags.getD []).contains fullTag
  let tags := ((found.flatMap fun tags => tags.getD []).dedup).mergeSort fun a b => decide (a ≤ b)
  if full then ⟨true, []⟩
  else ⟨false, if tags = [] then [] else tags ++ [statusTag]⟩

/-- `plan_scope`. -/
def planScope (applied : Option Manifest) (candidate : Manifest) : Scope :=
  match applied with
  | none => ⟨true, []⟩
  | some files => scopeFor (changedPaths files candidate)

/-! ## The update command -/

def updateTags : List String :=
  ["crt-install", "crt-hooks", "crt-notify", "ha-install", "apparmor", "geo", "ha-cfg", "docker",
    "aut-install", "aut-update", "ha-adm-install", "ha-adm-healthd", "ha-adm-cfg",
    "ha-adm-controld", "ha-adm-backupd", "ha-adm-updated", "ha-adm-metricsd", "ha-adm-guardd",
    "ha-adm-alertd", "ha-adm-journald", "ha-adm-update", "ha-adm-start", "status"]

def hostServiceTags : List String :=
  ["crt-install", "crt-hooks", "crt-notify", "ha-install", "apparmor", "geo", "ha-cfg",
    "ha-adm-install", "ha-adm-healthd", "ha-adm-backupd", "ha-adm-updated", "ha-adm-metricsd",
    "ha-adm-guardd", "ha-adm-alertd", "ha-adm-journald", "aut-install", "status"]

def daemonTags : List String := ["aut-daemons", "ha-adm-daemons", "status"]

/-- The components that refresh the source. -/
inductive Component
  | all
  | changes
  | services
  | daemons
  deriving DecidableEq

/-- The host: what `applied-source.json` says and which version of each file each stage
deployed last. -/
structure Gateway where
  record : Option Manifest := none
  deployed : String → String → Option String := fun _ _ => none

/-- `read_applied`: a record without files is none. -/
def Gateway.readApplied (g : Gateway) : Option Manifest := g.record.filter fun files => files.entries ≠ []

/-- One `update`, with the source it finds. `stop` names the stages that ran before it
stopped; `recorded` says whether the record could be written. -/
structure UpdateRun where
  component : Component
  source : Manifest
  managedPending : Bool := false
  noFullFallback : Bool := false
  stop : Option (List String) := none
  recorded : Bool := true

/-- What the command decides to run. -/
inductive Plan
  | refused
  | full
  | stages (tags : List String)
  deriving DecidableEq

def UpdateRun.plan (r : UpdateRun) (g : Gateway) : Plan :=
  match r.component with
  | .all => .full
  | .services => .stages hostServiceTags
  | .daemons => .stages daemonTags
  | .changes =>
    let scope := planScope g.readApplied r.source
    if r.managedPending || scope.full then if r.noFullFallback then .refused else .full
    else .stages (if scope.tags = [] then [statusTag] else scope.tags)

def deploys (tag path : String) : Bool := ((tagsForPath path).getD []).contains tag

/-- The stages deploy the source's version of the files that are theirs. -/
def Gateway.deploy (g : Gateway) (source : Manifest) (stages : List String) : Gateway :=
  { g with
    deployed := fun path tag =>
      if tag ∈ stages ∧ deploys tag path = true then (source.get? path).or (g.deployed path tag)
      else g.deployed path tag }

/-- The full stack deploys everything. -/
def Gateway.deployAll (g : Gateway) (source : Manifest) : Gateway :=
  { g with deployed := fun path tag => (source.get? path).or (g.deployed path tag) }

/-- `record_applied_source`. -/
def Gateway.recordApplied (g : Gateway) (r : UpdateRun) : Gateway :=
  if r.recorded then { g with record := some r.source } else g

/-- `command_update`. Only a full update and a changes update are recorded. -/
def commandUpdate (g : Gateway) (r : UpdateRun) : Gateway :=
  match r.plan g, r.stop with
  | .refused, _ => g
  | .full, some ran => g.deploy r.source (ran.filter fun tag => tag ∈ updateTags)
  | .full, none => (g.deployAll r.source).recordApplied r
  | .stages tags, some ran => g.deploy r.source (ran.filter fun tag => tag ∈ tags)
  | .stages tags, none =>
    if r.component = .changes then (g.deploy r.source tags).recordApplied r else g.deploy r.source tags

/-- A changes update that ends well. -/
def UpdateRun.Completes (r : UpdateRun) (g : Gateway) : Prop :=
  r.component = .changes ∧ r.stop = none ∧ r.plan g ≠ .refused

/-! ## What is left behind -/

/-- Every stage has deployed the source's version of its files. -/
def Gateway.UpToDate (g : Gateway) (source : Manifest) : Prop :=
  ∀ path digest, source.get? path = some digest → ∀ tag, deploys tag path = true → g.deployed path tag = some digest

def NothingLeft (g : Gateway) (r : UpdateRun) : Prop :=
  r.Completes g → (commandUpdate g r).UpToDate r.source

/-- The files that the source has in their recorded version, and whose stages do not run,
are deployed in that version already. -/
def RecordedDeployed (g : Gateway) (r : UpdateRun) : Prop :=
  r.Completes g → ∀ tags, r.plan g = .stages tags → ∀ files, g.readApplied = some files →
    ∀ path digest, r.source.get? path = some digest → files.get? path = some digest →
      ∀ tag, deploys tag path = true → tag ∉ tags → g.deployed path tag = some digest

section Scope

variable {applied candidate : Manifest} {paths : List String} {path tag digest : String}

theorem mem_changedPaths (hc : candidate.get? path = some digest) (ha : applied.get? path ≠ some digest) :
    path ∈ changedPaths applied candidate := by
  have hmem : (path, digest) ∈ candidate.entries := Dict.mem_entries.mpr hc
  refine List.mem_map.mpr ⟨(path, digest), List.mem_filter.mpr ⟨hmem, ?_⟩, rfl⟩
  exact decide_eq_true ha

/-- Where the full stack is not needed, the stages of every path are among the tags. -/
theorem scopeFor_tags (hfull : (scopeFor paths).full = false) (hp : path ∈ paths) (ht : deploys tag path = true) :
    tag ∈ (scopeFor paths).tags := by
  have htag : tag ∈ (paths.map tagsForPath).flatMap fun tags => tags.getD [] := by
    refine List.mem_flatMap.mpr ⟨tagsForPath path, List.mem_map.mpr ⟨path, hp, rfl⟩, ?_⟩
    exact List.contains_iff_mem.mp ht
  unfold scopeFor at hfull ⊢
  dsimp only at hfull ⊢
  split at hfull
  · cases hfull
  · rename_i hnot
    rw [if_neg hnot]
    have hsorted : tag ∈ (((paths.map tagsForPath).flatMap fun tags => tags.getD []).dedup).mergeSort
        fun a b => decide (a ≤ b) := List.mem_mergeSort.mpr (List.mem_dedup.mpr htag)
    rw [if_neg (List.ne_nil_of_mem hsorted)]
    exact List.mem_append_left _ hsorted

end Scope

variable {g : Gateway} {r : UpdateRun} {tags : List String}

/-- A changes update runs stages only where it knows what was applied, and then all stages
of the files that differ from it. -/
theorem plan_stages (hc : r.component = .changes) (hp : r.plan g = .stages tags) :
    ∃ files, g.readApplied = some files ∧ ∀ path digest, r.source.get? path = some digest →
      files.get? path ≠ some digest → ∀ tag, deploys tag path = true → tag ∈ tags := by
  unfold UpdateRun.plan at hp
  rw [hc] at hp
  dsimp only at hp
  by_cases hfull : (r.managedPending || (planScope g.readApplied r.source).full) = true
  · rw [if_pos hfull] at hp
    split at hp <;> cases hp
  · rw [if_neg hfull] at hp
    injection hp with htags
    have hscope : (planScope g.readApplied r.source).full = false := by
      simp only [Bool.or_eq_true, not_or, Bool.not_eq_true] at hfull
      exact hfull.2
    cases happlied : g.readApplied with
    | none =>
      rw [happlied] at hscope
      cases hscope
    | some files =>
      rw [happlied] at hscope htags
      refine ⟨files, rfl, fun path digest hs hf tag ht => ?_⟩
      have hmem : tag ∈ (planScope (some files) r.source).tags := scopeFor_tags hscope (mem_changedPaths hs hf) ht
      rw [← htags, if_neg (List.ne_nil_of_mem hmem)]
      exact hmem

@[simp] theorem recordApplied_deployed : (g.recordApplied r).deployed = g.deployed := by
  unfold Gateway.recordApplied
  split <;> rfl

theorem deploy_of_mem {source : Manifest} {path tag digest : String} (hs : source.get? path = some digest)
    (ht : deploys tag path = true) (hin : tag ∈ tags) : (g.deploy source tags).deployed path tag = some digest := by
  simp [Gateway.deploy, hs, ht, hin]

theorem deploy_of_not_mem {source : Manifest} {path tag : String} (hout : tag ∉ tags) :
    (g.deploy source tags).deployed path tag = g.deployed path tag := by
  simp [Gateway.deploy, hout]

theorem deployAll_upToDate {source : Manifest} : (g.deployAll source).UpToDate source := by
  intro path digest hs tag _
  simp [Gateway.deployAll, hs]

/-- One update: the property and the condition come to the same. -/
theorem nothingLeft_iff : NothingLeft g r ↔ RecordedDeployed g r := by
  unfold NothingLeft RecordedDeployed
  refine forall_congr' fun hcompletes => ?_
  obtain ⟨hchanges, hstop, hplan⟩ := hcompletes
  unfold commandUpdate
  rw [hstop]
  cases hp : r.plan g with
  | refused => exact absurd hp hplan
  | full =>
    refine iff_of_true ?_ fun tags htags => by cases htags
    intro path digest hs tag ht
    rw [recordApplied_deployed]
    exact deployAll_upToDate path digest hs tag ht
  | stages tags =>
    obtain ⟨files, hfiles, hchanged⟩ := plan_stages hchanges hp
    dsimp only
    rw [if_pos hchanges]
    constructor
    · intro hdone tags' htags' files' hfiles' path digest hs _ tag ht hnot
      injection htags' with htags'
      subst htags'
      have hafter := hdone path digest hs tag ht
      rwa [recordApplied_deployed, deploy_of_not_mem hnot] at hafter
    · intro hkept path digest hs tag ht
      rw [recordApplied_deployed]
      by_cases hin : tag ∈ tags
      · exact deploy_of_mem hs ht hin
      · rw [deploy_of_not_mem hin]
        by_cases hf : files.get? path = some digest
        · exact hkept tags rfl files hfiles path digest hs hf tag ht hin
        · exact absurd (hchanged path digest hs hf tag ht) hin

/-- In every sequence of updates: nothing is left behind by the changes updates that
complete, exactly if each of them finds the files it leaves alone deployed as recorded. -/
theorem changes_update_leaves_nothing_iff {runs : List UpdateRun} :
    Machine.Along commandUpdate NothingLeft g runs ↔ Machine.Along commandUpdate RecordedDeployed g runs := by
  induction runs generalizing g with
  | nil => exact Iff.rfl
  | cons r runs ih => exact and_congr nothingLeft_iff ih

/-- The guard daemon's program. -/
def guarddPath : String := "ansible/roles/haproxy-admin/files/easy-ha-proxy-guardd.py"

def releaseOf (digest : String) : Manifest := Dict.ofPairs [(guarddPath, digest)]

/-- A complete update, an update of the services with a newer source, and then a changes
update with the first source again. -/
def revertedRuns : List UpdateRun :=
  [{ component := .all, source := releaseOf "v1" }, { component := .services, source := releaseOf "v2" },
    { component := .changes, source := releaseOf "v1" }]

/-- The reverted file has its recorded version, so no stage runs, and the newer version
stays deployed. -/
theorem reverted_file_left : ¬ ∀ (g : Gateway) (runs : List UpdateRun),
    g.record = none → (∀ path tag, g.deployed path tag = none) → Machine.Along commandUpdate NothingLeft g runs := by
  intro h
  have hrun := (h {} revertedRuns rfl fun _ _ => rfl).2.2.1
  have hplan : UpdateRun.plan { component := .changes, source := releaseOf "v1" }
      (Machine.run commandUpdate {} (revertedRuns.take 2)) ≠ .refused := by decide +kernel
  have hdeploys : deploys "ha-adm-guardd" guarddPath = true := by decide +kernel
  have hleft : (Machine.run commandUpdate {} revertedRuns).deployed guarddPath "ha-adm-guardd" = some "v2" := by
    decide +kernel
  have hclaimed : (Machine.run commandUpdate {} revertedRuns).deployed guarddPath "ha-adm-guardd" = some "v1" :=
    hrun ⟨rfl, rfl, hplan⟩ guarddPath "v1" (by decide +kernel) "ha-adm-guardd" hdeploys
  rw [hleft] at hclaimed
  exact absurd hclaimed (by decide)

end EasyHaProxy.Installer
