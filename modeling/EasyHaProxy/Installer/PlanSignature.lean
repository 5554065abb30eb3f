import EasyHaProxy.Installer.Probes

/-! Before an installation the host is checked once more, and every component has to carry the signature it
was reviewed with. Two checks of an unchanged host should agree on it. -/
namespace EasyHaProxy.Installer.Signature

open Yaml Mapping Keyed Checks

/-! ## The history of a source -/

/-- What Git gives of the branch: was it cloned, and its log as revisions and subjects. -/
structure History where
  cloned : Bool
  log : Option (List (List Char × String))

/-- `_REVISION_RE.fullmatch`. -/
def isRevision (l : List Char) : Bool := decide (40 ≤ l.length) && decide (l.length ≤ 64) && l.all isHex

def changelogLimit : Nat := 40

/-- The loop of `_changelog`: the commits down to the installed revision, and whether it was met. -/
def commitsSince (installed : List Char) : List (List Char × String) → List (List Char × String) × Bool
  | [] => ([], false)
  | (revision, subject) :: log =>
    if !isRevision revision then commitsSince installed log
    else if revision = installed then ([], true)
    else ((revision, subject) :: (commitsSince installed log).1, (commitsSince installed log).2)

/-- `_changelog`: the commits an update brings; best effort, so every failure leaves it out. -/
def changelog (origin : Option (List Char)) (installed candidate : List Char) (history : History) : Option Value :=
  if isRevision installed && isRevision candidate && origin.isSome && history.cloned then
    history.log.bind fun log =>
      let found := commitsSince installed log
      if found.1 = [] then none
      else some (.map [("count", .int found.1.length), ("complete", .bool found.2),
        ("commits", .list ((found.1.take changelogLimit).map fun commit =>
          .map [("revision", text (commit.1.take 12)), ("subject", .str commit.2)]))])
  else none

/-! ## The check -/

/-- What a check looks at: the installed source and the candidate's, the images and what they hold, the packages
and the daemons' files. -/
structure World where
  source : Source
  installed : Tree
  candidate : Except CandidateError Tree
  /-- Does the operator's configuration set a variable of the Authelia role? -/
  overridden : String → Bool
  daemonFile : String → Except String (Option String)
  simulation : Except (Bool × String) (List InstLine)
  docker : Docker
  authelia : Stack
  admin : Stack
  adminConfig : AdminConfig
  includeHaproxy : Bool
  haproxy : HaproxyHost
  /-- `source_fingerprint` of the package sources. -/
  sourceFingerprint : Option String

namespace World

/-- The candidate, read only when the source moves. -/
def candidateSource (w : World) : Option Tree :=
  if w.source.probe.entry.state = .available then w.candidate.toOption else none

/-- Why a source that moves has no candidate. -/
def candidateError (w : World) : Option CandidateError :=
  if w.source.probe.entry.state = .available then
    match w.candidate with
    | .error e => some e
    | .ok _ => none
  else none

/-- `_AUTHELIA_IMAGE_VARIABLES`: the variable, and what stands before its value in the reference. -/
def autheliaImageVariables : List (String × Reference) :=
  [("authelia_version", ['a', 'u', 't', 'h', 'e', 'l', 'i', 'a', '/', 'a', 'u', 't', 'h', 'e', 'l', 'i', 'a', ':']),
    ("authelia_redis_image", []), ("mail_relay_image", [])]

/-- `_source_image_changes`. -/
def sourceImageChanges (w : World) : PyDict Reference Reference :=
  match w.installed.pins, w.candidateSource.bind (·.pins) with
  | some installed, some candidate => collect (autheliaImageVariables.filterMap fun pin =>
      if w.overridden pin.1 then none
      else
        match installed pin.1, candidate pin.1 with
        | some old, some new =>
          if old ≠ [] ∧ new ≠ [] ∧ old ≠ new then some (pin.2 ++ old, pin.2 ++ new) else none
        | _, _ => none)
  | _, _ => ∅

end World

/-- One check of a world, with what the next check may see differently: the order Docker lists in, the history
Git could fetch, the package metadata and the time, the last package operation, upstream's releases. -/
structure Run (w : World) where
  authelia : Stack
  sameAuthelia : w.authelia.Reordered authelia
  admin : Stack
  sameAdmin : w.admin.Reordered admin
  history : History
  record : Option AptRecord
  now : Int
  lastOperation : Option Fields
  upstream : List Value
  generatedAt : String

/-- `details.scope`; without it a changes-only update is not ready. -/
def scopeOf : Except String PlannedScope → PlannedScope
  | .ok scope => scope
  | .error e => ⟨false, String.ofList (("scope-unavailable: " ++ e).toList.take 200), [("full", .bool true),
      ("tags", .list []), ("steps", .list []), ("changed", .int 0), ("unmapped", .list []), ("paths", .list [])]⟩

def versionText : Value → List Char
  | .str s => s.toList
  | _ => []

namespace Run

variable {w : World} (r : Run w)

/-- The assessed package metadata. -/
def apt : Fields := assess w.sourceFingerprint r.record r.now

/-- The changelog of this run. -/
def changelog : Option Value :=
  Signature.changelog (w.source.dir.origin w.source.repository) (versionText w.source.probe.installed)
    (versionText w.source.probe.available) r.history

def source : Checks.Component :=
  let c := w.source.probe
  match w.candidateSource with
  | none => c
  | some tree =>
    let scope := scopeOf tree.scope
    let details := c.details.insert "scope" (.map scope.rest)
    { c with
      entry := { c.entry with scope := some { ready := scope.ready, reason := scope.reason } }
      details := (r.changelog.map fun log => details.insert "changelog" log).getD details }

def haproxy : Option Checks.Component := if w.includeHaproxy then some (w.haproxy.probe r.apt r.lastOperation) else none

def probed : ComponentId → Option Checks.Component
  | .all => some r.source
  | .changes => none
  | .services => some (probeServices w.source.probe w.source.localChannel w.installed w.candidate)
  | .daemons => some (probeDaemons (w.candidateSource.getD w.installed) w.daemonFile w.candidateError)
  | .os => some (probeOs w.simulation (if w.includeHaproxy then some r.apt else none)
      (if shielded r.haproxy then packages else []))
  | .autheliaContainer => some (probeCompose w.docker r.authelia w.sourceImageChanges)
  | .adminContainer => some (probeAdminCompose w.docker r.admin w.adminConfig)
  | .haproxy => r.haproxy

/-- The images of Authelia's stack that the source update re-pins. -/
def retargeted : List (Reference × Reference) :=
  if (r.authelia.unreadable .autheliaContainer).isSome then []
  else (sortedImages r.authelia).filterMap fun image =>
    (w.sourceImageChanges.lookup image).bind fun target =>
      (probeRetargetedImage w.docker image target).target.map fun target => (image, target)

/-- What the link and the rules after it go by. -/
def probe : Probe where
  components id := (r.probed id).map (·.entry)
  github := !w.source.localChannel
  candidateTree := w.candidateSource.bind (·.webTree)
  candidateRead := w.candidateSource.isSome
  installedTree := w.installed.webTree
  retargeted := r.retargeted ≠ []

/-- The entries before a candidate is asked for. -/
def linked : Components :=
  holdAuthelia r.probe.retargeted
    (resolveDaemons r.probe.github (linkWebApplication r.probe.components r.probe.targetTree))

/-- What the rules after the link add to the source's details. -/
def sourceDetails (details : Details) : Details :=
  let changed := if r.retargeted = [] then details
    else details.insert "image_changes" (.map (r.retargeted.map fun i => (String.ofList i.1, text i.2)))
  let read := if r.linked.offers .all && !r.probe.candidateRead then
      changed.insert "candidate_error" (.str ((w.candidateError.map (·.redacted)).getD ""))
    else changed
  let checked := requireCandidate r.probe.candidateRead r.linked
  let unavailable := [(ComponentId.autheliaContainer, "authelia-container"), (.adminContainer, "admin-container")].filter
    fun id => unverified checked id.1
  if (checked .all).any (·.actionable) && unavailable ≠ [] then
    read.insert "blocked_components" (.list (unavailable.map fun id => .str id.2))
  else read

def settle (id : ComponentId) (c : Checks.Component) (e : PlanEntry) : Checks.Component :=
  match id with
  | .all => { c with entry := e, details := r.sourceDetails c.details }
  | .daemons =>
    let source := (linkWebApplication r.probe.components r.probe.targetTree .all).map (·.state)
    if !w.source.localChannel && (source = some .blocked || source = some .unknown) then
      { likeSource r.source .daemons e.state "" [("depends_on", .str "all")] with
        entry := { e with reason := if source = some .blocked then "source-blocked" else "source-unknown" } }
    else { c with entry := e }
  | .autheliaContainer => { c with
      entry := e
      details := if r.retargeted = [] then c.details else c.details.insert "depends_on" (.str "all") }
  | _ => { c with entry := e }

end Run

structure CheckedPlan where
  components : ComponentId → Option Checks.Component
  generatedAt : String
  upstream : List Value

/-- `build_update_plan`. -/
def buildUpdatePlan {w : World} (r : Run w) : CheckedPlan where
  components id := (r.probe.plan id).bind fun e => (r.probed id).map fun c => r.settle id c e
  generatedAt := r.generatedAt
  upstream := r.upstream

/-! ## The broker -/

/-- Of the package metadata only what it says now is signed. -/
def signedApt : Value → Value
  | .map apt => .map [("fresh", getField apt "fresh"), ("sources", getField apt "sources")]
  | v => v

def signedDetails (details : Details) : Details :=
  ((details.lookup "apt").elim details fun apt => details.insert "apt" (signedApt apt)).erase "last_operation"

/-- What `component_signature` signs of a component; no component has a count. -/
def material (c : Checks.Component) : Checks.Component := { c with details := signedDetails c.details }

/-- `component_signature`, for a digest of the material. -/
def componentSignature (digest : Checks.Component → String) (c : Checks.Component) : String := digest (material c)

namespace CheckedPlan

def entries (plan : CheckedPlan) : Components := fun id => (plan.components id).map (·.entry)

/-- `plan_source_component`, with the details. -/
def sourceComponent (plan : CheckedPlan) (id : ComponentId) : Option Checks.Component :=
  if id = .changes then
    (plan.components .all).filter fun c => c.entry.scope.any fun s => s.ready && s.tagsListed
  else plan.components id

end CheckedPlan

/-- `validate_fresh_candidates`; `false` where it raises. -/
def validateFreshCandidates (digest : Checks.Component → String) (stored fresh : CheckedPlan)
    (selected : List ComponentId) : Bool :=
  selected.all fun id =>
    match stored.sourceComponent id, fresh.sourceComponent id with
    | some old, some new => new.entry.state = .available && new.entry.actionable &&
        decide (componentSignature digest old = componentSignature digest new)
    | _, _ => false

/-- A recheck accepts what was reviewed, whatever the digest: every component has the signature it had, and a
selection that was valid still is. -/
def Accepts (reviewed rechecked : CheckedPlan) : Prop :=
  ∀ digest : Checks.Component → String,
    (∀ id, (reviewed.components id).map (componentSignature digest) =
      (rechecked.components id).map (componentSignature digest)) ∧
    ∀ selected permitted, validateSelection reviewed.entries selected permitted = true →
      validateFreshCandidates digest reviewed rechecked selected = true

/-! ## What the planner keeps -/

section Kept

variable {c c' c'' : Components} {id : ComponentId}

def SameIds (c c' : Components) : Prop := ∀ id, (c' id).isSome = (c id).isSome

theorem SameIds.trans (h : SameIds c c') (h' : SameIds c' c'') : SameIds c c'' := fun id => (h' id).trans (h id)

theorem sameIds_modify {f : PlanEntry → PlanEntry} : SameIds c (c.modify id f) := by
  intro j
  unfold Components.modify
  split <;> simp

theorem sameIds_block {reason : String} : SameIds c (c.block id reason) := sameIds_modify

theorem sameIds_require {clause : List ComponentId} : SameIds c (c.require id clause) := by
  rw [require_eq]
  exact sameIds_modify

theorem sameIds_foldl {step : Components → ComponentId → Components} (h : ∀ c id, SameIds c (step c id))
    (ids : List ComponentId) : SameIds c (ids.foldl step c) := by
  induction ids generalizing c with
  | nil => exact fun _ => rfl
  | cons id ids ih => exact (h c id).trans ih

theorem sameIds_linkHost {target : Option String} : SameIds c (linkHost c target) := by
  unfold linkHost
  dsimp only
  split
  · split
    · exact sameIds_foldl (fun _ _ => sameIds_require) _
    · split
      · exact (sameIds_foldl (fun _ _ => sameIds_block) _).trans sameIds_modify
      · exact sameIds_foldl (fun _ _ => sameIds_block) _
  · exact fun _ => rfl

theorem sameIds_link {target : Option String} : SameIds c (linkWebApplication c target) := by
  unfold linkWebApplication
  dsimp only
  split
  · split
    · split
      · exact sameIds_linkHost.trans sameIds_require
      · split
        · exact sameIds_linkHost
        · exact sameIds_linkHost.trans sameIds_modify
    · exact sameIds_linkHost
  · split
    · exact (sameIds_foldl (fun _ _ => sameIds_require) _).trans sameIds_require
    · exact fun _ => rfl

theorem sameIds_holdAuthelia {retargeted : Bool} : SameIds c (holdAuthelia retargeted c) := by
  unfold holdAuthelia
  split
  · exact sameIds_modify
  · exact fun _ => rfl

theorem sameIds_requireCandidate {read : Bool} : SameIds c (requireCandidate read c) := by
  unfold requireCandidate
  split
  · exact sameIds_block
  · exact fun _ => rfl

theorem sameIds_requireContainers : SameIds c (requireContainers c) := by
  unfold requireContainers
  split
  · exact sameIds_block
  · exact fun _ => rfl

theorem resolveDaemons_isSome {github : Bool} (hid : id ≠ .daemons) :
    (resolveDaemons github c id).isSome = (c id).isSome := by
  unfold resolveDaemons
  split
  · exact congrArg Option.isSome (if_neg hid)
  · rfl

theorem plan_isSome {p : Probe} (hid : id ≠ .daemons) : (p.plan id).isSome = (p.components id).isSome :=
  calc (p.plan id).isSome
    _ = (resolveDaemons p.github (linkWebApplication p.components p.targetTree) id).isSome :=
      ((sameIds_holdAuthelia.trans sameIds_requireCandidate).trans sameIds_requireContainers) id
    _ = (linkWebApplication p.components p.targetTree id).isSome := resolveDaemons_isSome hid
    _ = (p.components id).isSome := sameIds_link id

end Kept

/-! ## What is signed -/

section Signed

variable {d d' : Details} {k : String}

theorem lookup_signedDetails : (signedDetails d).lookup k =
    if k = "last_operation" then none
    else if k = "apt" then (d.lookup "apt").map signedApt
    else d.lookup k := by
  unfold signedDetails
  by_cases hlast : k = "last_operation"
  · subst hlast
    simp
  · rw [if_neg hlast, Finmap.lookup_erase_ne hlast]
    cases happ : d.lookup "apt" with
    | none =>
      by_cases hk : k = "apt"
      · subst hk
        simp [happ]
      · simp [hk]
    | some apt =>
      by_cases hk : k = "apt"
      · subst hk
        simp
      · simp [hk, Finmap.lookup_insert_of_ne]

/-- Details that differ only in what is left out are signed alike. -/
theorem signedDetails_congr (h : ∀ k, k ≠ "apt" → k ≠ "last_operation" → d.lookup k = d'.lookup k)
    (ha : (d.lookup "apt").map signedApt = (d'.lookup "apt").map signedApt) : signedDetails d = signedDetails d' := by
  refine Finmap.ext_lookup fun k => ?_
  rw [lookup_signedDetails, lookup_signedDetails]
  split
  · rfl
  · rename_i hlast
    split
    · exact ha
    · rename_i hk
      exact h k hk hlast

end Signed

/-! ## Two runs -/

section Runs

variable {w : World} {r r' : Run w}

/-- The runs have the same changelog to show, and judge the package metadata alike. -/
def Agree (r r' : Run w) : Prop :=
  (w.candidateSource.isSome = true → r.changelog = r'.changelog) ∧
    (w.includeHaproxy = true → signedApt (.map r.apt) = signedApt (.map r'.apt))

theorem source_eq (h : w.candidateSource.isSome = true → r.changelog = r'.changelog) : r.source = r'.source := by
  unfold Run.source
  cases hc : w.candidateSource with
  | none => rfl
  | some tree =>
    rw [hc] at h
    simp only [h rfl]

theorem isFresh_eq {apt apt' : Fields} (h : signedApt (.map apt) = signedApt (.map apt')) :
    isFresh apt = isFresh apt' := by
  simp only [signedApt, Value.map.injEq, List.cons.injEq, Prod.mk.injEq, true_and, and_true] at h
  unfold isFresh
  rw [h.1]

theorem lookup_haproxy {host : HaproxyHost} {apt : Fields} {last : Option Fields} {k : String} (ha : k ≠ "apt")
    (hl : k ≠ "last_operation") :
    (host.probe apt last).details.lookup k = (host.check (isFresh apt)).2.lookup k := by
  unfold HaproxyHost.probe
  cases last with
  | none => exact Finmap.lookup_insert_of_ne _ ha
  | some last => exact (Finmap.lookup_insert_of_ne _ hl).trans (Finmap.lookup_insert_of_ne _ ha)

theorem lookup_apt {host : HaproxyHost} {apt : Fields} {last : Option Fields} :
    (host.probe apt last).details.lookup "apt" = some (.map apt) := by
  unfold HaproxyHost.probe
  cases last with
  | none => exact Finmap.lookup_insert _
  | some last => exact (Finmap.lookup_insert_of_ne _ (by decide)).trans (Finmap.lookup_insert _)

theorem material_haproxy {host : HaproxyHost} {apt apt' : Fields} {last last' : Option Fields}
    (h : signedApt (.map apt) = signedApt (.map apt')) :
    material (host.probe apt last) = material (host.probe apt' last') := by
  have hdetails : signedDetails (host.probe apt last).details = signedDetails (host.probe apt' last').details := by
    refine signedDetails_congr (fun k ha hl => ?_) ?_
    · rw [lookup_haproxy ha hl, lookup_haproxy ha hl, isFresh_eq h]
    · rw [lookup_apt, lookup_apt]
      exact congrArg some h
  unfold material
  rw [hdetails]
  simp only [HaproxyHost.probe, isFresh_eq h]

theorem shielded_eq {host : HaproxyHost} {apt apt' : Fields} {last last' : Option Fields}
    (h : signedApt (.map apt) = signedApt (.map apt')) :
    shielded (some (host.probe apt last)) = shielded (some (host.probe apt' last')) := by
  simp only [shielded, Option.any_some]
  rw [lookup_haproxy (by decide) (by decide), lookup_haproxy (by decide) (by decide),
    lookup_haproxy (by decide) (by decide), lookup_haproxy (by decide) (by decide), isFresh_eq h]

theorem material_os {simulation : Except (Bool × String) (List InstLine)} {apt apt' : Fields}
    {excluded : List (List Char)} (h : signedApt (.map apt) = signedApt (.map apt')) :
    material (probeOs simulation (some apt) excluded) = material (probeOs simulation (some apt') excluded) := by
  unfold probeOs
  cases simulation with
  | error failure => rfl
  | ok lines =>
    cases hfound : osCandidates excluded [] lines with
    | error line => simp only [hfound]
    | ok found =>
      cases hfresh : isFresh apt' with
      | true => simp only [hfound, Option.filter_some, isFresh_eq h, hfresh, Bool.not_true, Bool.false_eq_true, if_false]
      | false =>
        simp only [hfound, Option.filter_some, isFresh_eq h, hfresh, Bool.not_false, if_true, component, material]
        congr 1
        refine signedDetails_congr (fun k ha hl => ?_) ?_
        · rw [lookup_collect, lookup_collect]
          simp [under, Ne.symm ha]
        · rw [lookup_collect, lookup_collect]
          simpa [under] using h

/-! Whatever order Docker lists in, the two stacks are probed the same -/

theorem Stack.Reordered.symm {s s' : Stack} (h : s.Reordered s') : s'.Reordered s where
  composeFile := h.composeFile.symm
  isFile := h.isFile.symm
  failure := h.failure.symm
  images := h.images.symm
  containers := by
    have hc := h.containers
    generalize s.containers = l, s'.containers = l' at hc ⊢
    cases hc with
    | some hp => exact .some hp.symm
    | none => exact .none

theorem authelia_eq (retarget : PyDict Reference Reference) :
    probeCompose w.docker r.authelia retarget = probeCompose w.docker r'.authelia retarget :=
  (probeCompose_eq r.sameAuthelia).symm.trans (probeCompose_eq r'.sameAuthelia)

theorem admin_eq : probeAdminCompose w.docker r.admin w.adminConfig = probeAdminCompose w.docker r'.admin w.adminConfig :=
  (probeAdminCompose_eq r.sameAdmin).symm.trans (probeAdminCompose_eq r'.sameAdmin)

theorem retargeted_eq (r r' : Run w) : r.retargeted = r'.retargeted := by
  have hworld : ∀ r : Run w, r.retargeted = if (w.authelia.unreadable .autheliaContainer).isSome then []
      else (sortedImages w.authelia).filterMap fun image => (w.sourceImageChanges.lookup image).bind fun target =>
        (probeRetargetedImage w.docker image target).target.map fun target => (image, target) := by
    intro r
    unfold Run.retargeted
    rw [unreadable_eq r.sameAuthelia, sortedImages_eq r.sameAuthelia]
  rw [hworld r, hworld r']

/-- Only the package metadata and the last operation tell the probed components of the runs apart. -/
theorem probed_eq (h : Agree r r') {id : ComponentId} (ho : id ≠ .os) (hh : id ≠ .haproxy) :
    r.probed id = r'.probed id := by
  cases id with
  | all => exact congrArg some (source_eq h.1)
  | changes => rfl
  | services => rfl
  | daemons => rfl
  | autheliaContainer => exact congrArg some (authelia_eq _)
  | adminContainer => exact congrArg some admin_eq
  | os => exact absurd rfl ho
  | haproxy => exact absurd rfl hh

theorem material_probed (h : Agree r r') (id : ComponentId) :
    (r.probed id).map material = (r'.probed id).map material := by
  by_cases ho : id = .os
  · subst ho
    refine congrArg some ?_
    unfold Run.haproxy
    cases hi : w.includeHaproxy with
    | false => rfl
    | true =>
      have hsigned := h.2 hi
      have hshielded : shielded (some (w.haproxy.probe r.apt r.lastOperation)) =
          shielded (some (w.haproxy.probe r'.apt r'.lastOperation)) := shielded_eq hsigned
      simp only [if_true]
      rw [hshielded]
      exact material_os hsigned
  · by_cases hh : id = .haproxy
    · subst hh
      change (Run.haproxy r).map material = (Run.haproxy r').map material
      unfold Run.haproxy
      cases hi : w.includeHaproxy with
      | false => rfl
      | true => exact congrArg some (material_haproxy (h.2 hi))
    · rw [probed_eq h ho hh]

theorem probe_eq (h : Agree r r') : r.probe = r'.probe := by
  have hentries : (fun id => (r.probed id).map (·.entry)) = fun id => (r'.probed id).map (·.entry) := by
    funext id
    have hm := congrArg (Option.map (·.entry)) (material_probed h id)
    rw [Option.map_map, Option.map_map] at hm
    exact hm
  unfold Run.probe
  rw [hentries, retargeted_eq r r']

theorem settle_eq (h : Agree r r') (id : ComponentId) (c : Checks.Component) (e : PlanEntry) :
    r.settle id c e = r'.settle id c e := by
  unfold Run.settle Run.sourceDetails Run.linked
  rw [probe_eq h, source_eq h.1, retargeted_eq r r']

theorem material_settle {id : ComponentId} (hid : id = .os ∨ id = .haproxy) (c : Checks.Component) (e : PlanEntry) :
    material (r.settle id c e) = { material c with entry := e } := by
  obtain rfl | rfl := hid
  · rfl
  · rfl

theorem material_plan (h : Agree r r') (id : ComponentId) :
    ((buildUpdatePlan r).components id).map material = ((buildUpdatePlan r').components id).map material := by
  simp only [buildUpdatePlan]
  rw [probe_eq h]
  cases r'.probe.plan id with
  | none => rfl
  | some e =>
    simp only [Option.bind_some, Option.map_map]
    by_cases hid : id = .os ∨ id = .haproxy
    · have hsettled : ∀ s : Run w, material ∘ (fun c => s.settle id c e) =
          (fun c : Checks.Component => { c with entry := e }) ∘ material :=
        fun s => funext fun c => material_settle hid c e
      rw [hsettled, hsettled, ← Option.map_map, ← Option.map_map, material_probed h id]
    · rw [not_or] at hid
      rw [probed_eq h hid.1 hid.2]
      have hsettled : (fun c => r.settle id c e) = fun c => r'.settle id c e := funext fun c => settle_eq h id c e
      rw [hsettled]

/-! What a recheck with the same material accepts -/

section Recheck

variable {plan plan' : CheckedPlan} {id : ComponentId}

theorem planSourceComponent_entries :
    planSourceComponent plan.entries id = (plan.sourceComponent id).map (·.entry) := by
  unfold planSourceComponent CheckedPlan.entries CheckedPlan.sourceComponent
  split
  · cases plan.components .all with
    | none => rfl
    | some c => simp [Option.filter, apply_ite]
  · rfl

theorem material_sourceComponent (h : ∀ id, (plan.components id).map material = (plan'.components id).map material) :
    (plan.sourceComponent id).map material = (plan'.sourceComponent id).map material := by
  unfold CheckedPlan.sourceComponent
  split
  · have hfilter : ∀ o : Option Checks.Component,
        (o.filter fun c => c.entry.scope.any fun s => s.ready && s.tagsListed).map material =
          (o.map material).filter fun c => c.entry.scope.any fun s => s.ready && s.tagsListed := by
      intro o
      cases o with
      | none => rfl
      | some c => simp [Option.filter, apply_ite, material]
    rw [hfilter, hfilter, h]
  · exact h id

theorem accepts_of_material (h : ∀ id, (plan.components id).map material = (plan'.components id).map material) :
    Accepts plan plan' := by
  intro digest
  refine ⟨fun id => ?_, fun selected permitted hvalid => List.all_eq_true.mpr fun id hid => ?_⟩
  · have hd := congrArg (Option.map digest) (h id)
    rwa [Option.map_map, Option.map_map] at hd
  · obtain ⟨e, he, hstate, hactionable, -⟩ := validateSelection_entry hvalid hid
    rw [planSourceComponent_entries] at he
    obtain ⟨old, hold, rfl⟩ := Option.map_eq_some_iff.mp he
    have hsame : (plan.sourceComponent id).map material = (plan'.sourceComponent id).map material :=
      material_sourceComponent h
    rw [hold, Option.map_some] at hsame
    obtain ⟨new, hnew, hmaterial⟩ := Option.map_eq_some_iff.mp hsame.symm
    have hentry : (material new).entry = (material old).entry := by rw [hmaterial]
    have hentry : new.entry = old.entry := hentry
    simp [hold, hnew, hentry, hstate, hactionable, componentSignature, hmaterial]

/-- Plans that no digest tells apart have the same material. -/
theorem material_of_accepts (h : Accepts plan plan') (id : ComponentId) :
    (plan.components id).map material = (plan'.components id).map material := by
  classical
  have hdigest := fun digest => (h digest).1 id
  cases hp : plan.components id with
  | none =>
    have hnone := hdigest fun _ => ""
    rw [hp] at hnone
    rw [Option.map_eq_none_iff.mp hnone.symm]
  | some c =>
    have hc := hdigest fun c' => if c' = material c then "same" else "other"
    rw [hp, Option.map_some] at hc
    obtain ⟨c', hc', hsame⟩ := Option.map_eq_some_iff.mp hc.symm
    rw [hc', Option.map_some, Option.map_some]
    by_cases he : material c' = material c
    · rw [he]
    · simp [componentSignature, he] at hsame

end Recheck

/-! What the material shows -/

theorem lookup_probe_changelog {s : Source} : s.probe.details.lookup "changelog" = none := by
  have hstopped : ∀ {dir : SourceDir} {c : Checks.Component}, dir.revision s.branch = .error c →
      c.details.lookup "changelog" = none := by
    intro dir c h
    unfold SourceDir.revision gitCheckoutRevision recordedSourceRevision at h
    dsimp only at h
    repeat' split at h
    all_goals cases h
    all_goals simp [component, lookup_collect, under]
  unfold Source.probe
  dsimp only
  split
  · simp [component, lookup_collect, under]
  · split
    · rename_i hstop
      exact hstopped hstop
    · repeat' split
      all_goals simp [component, lookup_collect, under]

theorem lookup_source_changelog (h : w.candidateSource.isSome = true) :
    r.source.details.lookup "changelog" = r.changelog := by
  obtain ⟨tree, htree⟩ := Option.isSome_iff_exists.mp h
  have hscope : ((w.source.probe.details.insert "scope" (.map (scopeOf tree.scope).rest)).lookup "changelog") = none := by
    rw [Finmap.lookup_insert_of_ne _ (by decide), lookup_probe_changelog]
  unfold Run.source
  rw [htree]
  cases hlog : r.changelog with
  | none => exact hscope
  | some log => exact Finmap.lookup_insert _

/-- No rule after the link touches the changelog. -/
theorem lookup_sourceDetails_changelog {d : Details} :
    (r.sourceDetails d).lookup "changelog" = d.lookup "changelog" := by
  unfold Run.sourceDetails
  dsimp only
  repeat' split
  all_goals simp [Finmap.lookup_insert_of_ne]

theorem components_eq {id : ComponentId} {c : Checks.Component} (hid : id ≠ .daemons) (hc : r.probed id = some c) :
    ∃ e, (buildUpdatePlan r).components id = some (r.settle id c e) := by
  have hsome : (r.probe.plan id).isSome = true := by
    rw [plan_isSome hid]
    simp [Run.probe, hc]
  obtain ⟨e, he⟩ := Option.isSome_iff_exists.mp hsome
  exact ⟨e, by simp [buildUpdatePlan, he, hc]⟩

theorem lookup_plan_changelog (r : Run w) (h : w.candidateSource.isSome = true) :
    (((buildUpdatePlan r).components .all).map material).bind (·.details.lookup "changelog") = r.changelog := by
  have hprobed : r.probed .all = some r.source := rfl
  obtain ⟨e, he⟩ := components_eq (by decide) hprobed
  rw [he, Option.map_some, Option.bind_some]
  change (signedDetails (r.sourceDetails r.source.details)).lookup "changelog" = r.changelog
  rw [lookup_signedDetails, if_neg (by decide), if_neg (by decide), lookup_sourceDetails_changelog,
    lookup_source_changelog h]

theorem lookup_plan_apt (r : Run w) (h : w.includeHaproxy = true) :
    (((buildUpdatePlan r).components .haproxy).map material).bind (·.details.lookup "apt") =
      some (signedApt (.map r.apt)) := by
  have hprobed : r.probed .haproxy = some (w.haproxy.probe r.apt r.lastOperation) := by
    change Run.haproxy r = _
    unfold Run.haproxy
    rw [if_pos h]
  obtain ⟨e, he⟩ := components_eq (by decide) hprobed
  rw [he, Option.map_some, Option.bind_some]
  change (signedDetails (w.haproxy.probe r.apt r.lastOperation).details).lookup "apt" = _
  rw [lookup_signedDetails, if_neg (by decide), if_pos rfl, lookup_apt]
  rfl

end Runs

/-! ## Rechecking an unchanged host -/

/-- A recheck accepts what was reviewed just when both runs have the same changelog to show and judge the package
metadata alike; the order Docker lists in, the times, the last operation and upstream's releases do not matter. -/
theorem accepts_iff_agree {w : World} (r r' : Run w) :
    Accepts (buildUpdatePlan r) (buildUpdatePlan r') ↔
      (w.candidateSource.isSome = true → r.changelog = r'.changelog) ∧
        (w.includeHaproxy = true → signedApt (.map r.apt) = signedApt (.map r'.apt)) := by
  constructor
  · intro h
    have hm := material_of_accepts h
    constructor
    · intro hc
      rw [← lookup_plan_changelog r hc, ← lookup_plan_changelog r' hc, hm .all]
    · intro hi
      have happ : some (signedApt (.map r.apt)) = some (signedApt (.map r'.apt)) := by
        rw [← lookup_plan_apt r hi, ← lookup_plan_apt r' hi, hm .haproxy]
      exact Option.some.inj happ
  · exact fun h => accepts_of_material (material_plan h)

/-! A changelog that could not be fetched once -/

def installedRevision : List Char := List.replicate 40 'a'
def candidateRevision : List Char := List.replicate 40 'b'

def stack (image : Reference) : Stack := ⟨"docker-compose.yml", true, none, [image], some []⟩

theorem reordered_stack (image : Reference) : (stack image).Reordered (stack image) :=
  ⟨rfl, rfl, rfl, .refl _, .some (.refl _)⟩

def sourceTree : Tree := ⟨some "services", fun _ => some (.ok "daemon"), some "web", none, .ok ⟨false, "unmapped-paths", []⟩⟩

/-- A host with a new source revision and everything else current. -/
def movingHost : World where
  source := ⟨false, "main", ['o'], .recorded (some (.ok ⟨some installedRevision, false⟩)), .ok candidateRevision⟩
  installed := sourceTree
  candidate := .ok sourceTree
  overridden _ := false
  daemonFile _ := .ok (some "daemon")
  simulation := .ok []
  docker := { localDigest := fun _ => some ['d'], localError := fun _ => "", remoteDigest := fun _ => some ['d'],
              remoteError := fun _ => "", present := fun _ => true, imageContent := fun _ => none,
              localWebTree := fun _ => some "web", remoteWebTree := fun _ => some "web", inspect := fun _ => some [] }
  authelia := stack ['a', ':', '4']
  admin := stack ['w', ':', 'l', 'a', 't', 'e', 's', 't']
  adminConfig := ⟨none, ['l', 'a', 't', 'e', 's', 't'], ['l', 'a', 't', 'e', 's', 't']⟩
  includeHaproxy := false
  haproxy := ⟨false, false, fun _ => none, fun _ => none, fun _ => false, none, false, none, fun _ _ => 1⟩
  sourceFingerprint := none

/-- The check that is reviewed has a changelog of one commit. -/
def reviewed : Run movingHost where
  authelia := stack ['a', ':', '4']
  sameAuthelia := reordered_stack _
  admin := stack ['w', ':', 'l', 'a', 't', 'e', 's', 't']
  sameAdmin := reordered_stack _
  history := ⟨true, some [(candidateRevision, "Add a page"), (installedRevision, "Older")]⟩
  record := none
  now := 0
  lastOperation := none
  upstream := []
  generatedAt := ""

/-- The recheck sees the same, but its clone of the history fails. -/
def rechecked : Run movingHost := { reviewed with history := ⟨false, none⟩ }

theorem reviewed_valid : validateSelection (buildUpdatePlan reviewed).entries [.all] true = true := by
  decide +kernel

theorem versionText_text (l : List Char) : versionText (text l) = l := String.toList_ofList

theorem reviewed_changelog : reviewed.changelog =
    changelog (some ['o']) installedRevision candidateRevision reviewed.history := by
  have hinstalled : movingHost.source.probe.installed = text installedRevision := rfl
  have havailable : movingHost.source.probe.available = text candidateRevision := rfl
  unfold Run.changelog
  rw [hinstalled, havailable, versionText_text, versionText_text]
  rfl

/-- The complete update is refused although only the changelog is missing. -/
theorem changelog_lost : validateSelection (buildUpdatePlan reviewed).entries [.all] true = true ∧
    ¬ Accepts (buildUpdatePlan reviewed) (buildUpdatePlan rechecked) := by
  refine ⟨reviewed_valid, fun h => ?_⟩
  have hm := congrArg (·.bind (·.details.lookup "changelog")) (material_of_accepts h .all)
  have hc : movingHost.candidateSource.isSome = true := by decide
  have hlog : reviewed.changelog = rechecked.changelog :=
    (lookup_plan_changelog reviewed hc).symm.trans (hm.trans (lookup_plan_changelog rechecked hc))
  have hlost : rechecked.changelog = none := by
    simp [Run.changelog, changelog, rechecked]
  rw [hlost] at hlog
  exact absurd (congrArg Option.isSome hlog) (by rw [reviewed_changelog]; decide)

end EasyHaProxy.Installer.Signature
