import Mathlib.Data.List.Sort
import Mathlib.Tactic.Common

/-! What a check offers, how the planner ties the host's source to the web application's image, and how the
update broker checks a selection against the plan. -/
namespace EasyHaProxy.Installer

/-- `ALLOWED_COMPONENTS`. -/
inductive ComponentId
  | all
  | changes
  | services
  | daemons
  | autheliaContainer
  | adminContainer
  | os
  | haproxy
  deriving DecidableEq

/-- `VALID_STATES`. -/
inductive ComponentState
  | available
  | current
  | unknown
  | blocked
  deriving DecidableEq

/-- `details.scope` of the source: whether a changes-only update is offered. -/
structure ChangesScope where
  ready : Bool
  /-- Are its tags a list of texts? -/
  tagsListed : Bool := true
  reason : String := ""
  requires : List (List ComponentId) := []
  deriving DecidableEq

/-- One entry of `details.images`: the web trees of the running and the offered image. -/
structure ImageTrees where
  currentSourceTree : Option String := none
  availableSourceTree : Option String := none
  deriving DecidableEq

structure PlanEntry where
  state : ComponentState
  actionable : Bool := state = .available
  reason : String := ""
  requires : List (List ComponentId) := []
  scope : Option ChangesScope := none
  images : List ImageTrees := []
  deriving DecidableEq

abbrev Components := ComponentId → Option PlanEntry

namespace Components

def modify (c : Components) (id : ComponentId) (f : PlanEntry → PlanEntry) : Components :=
  fun j => if j = id then (c j).map f else c j

def offers (c : Components) (id : ComponentId) : Bool := (c id).any fun e => e.state = .available

/-- `_block`. -/
def block (c : Components) (id : ComponentId) (reason : String) : Components :=
  c.modify id fun e => { e with state := .blocked, actionable := false, reason }

def require (c : Components) (id : ComponentId) (clause : List ComponentId) : Components :=
  if id = .changes then
    c.modify .all fun e => { e with scope := e.scope.map fun s => { s with requires := s.requires ++ [clause] } }
  else c.modify id fun e => { e with requires := e.requires ++ [clause] }

end Components

/-! ## Linking -/

/-- `HOST_SOURCE_COMPONENTS`. -/
def hostSourceComponents : List ComponentId := [.all, .services, .daemons]

/-- Is a fingerprint known? -/
def known (tree : Option String) : Bool := tree.getD "" ≠ ""

/-- What `link_web_application` reads of the components. -/
structure Offer where
  hostIds : List ComponentId
  changesOffered : Bool
  adminOffered : Bool
  running : Option String
  offered : Option String
  sourceMoves : Bool

def Components.offer (c : Components) : Offer where
  hostIds := hostSourceComponents.filter c.offers
  changesOffered := ((c .all).bind (·.scope)).any (·.ready)
  adminOffered := c.offers .adminContainer
  running := ((c .adminContainer).bind (·.images.head?)).bind (·.currentSourceTree)
  offered := ((c .adminContainer).bind (·.images.head?)).bind (·.availableSourceTree)
  sourceMoves := c.offers .all

namespace Offer

def hostChoices (o : Offer) : List ComponentId := (if o.changesOffered then [.changes] else []) ++ o.hostIds

/-- Are all the fingerprints known that matter? -/
def exact (o : Offer) (target : Option String) : Bool :=
  known target && known o.running && (known o.offered || !o.adminOffered)

def hostNeedsWeb (o : Offer) (target : Option String) : Bool :=
  o.hostChoices ≠ [] && o.sourceMoves && target ≠ o.running

/-- Is the image of the target's web files published? -/
def published (o : Offer) (target : Option String) : Bool := o.adminOffered && o.offered = target

end Offer

/-- The host's part of the link: with the image, or not until it is published. -/
def linkHost (c : Components) (target : Option String) : Components :=
  let o := c.offer
  if o.hostNeedsWeb target then
    if o.published target then
      (o.hostChoices.filter (· ≠ .all)).foldl (fun c id => c.require id [.adminContainer]) c
    else
      let blocked := o.hostIds.foldl (fun c id => c.block id "web-application-not-published") c
      if o.changesOffered then
        blocked.modify .all fun e =>
          { e with scope := e.scope.map fun s => { s with ready := false, reason := "web-application-not-published" } }
      else blocked
  else c

/-- What a web application update can be tied to. -/
def linkChoices (o : Offer) (target : Option String) : List ComponentId :=
  if o.hostNeedsWeb target && !o.published target then [] else o.hostChoices

/-- `link_web_application`. -/
def linkWebApplication (c : Components) (target : Option String) : Components :=
  let o := c.offer
  if o.exact target then
    let linked := linkHost c target
    if o.adminOffered && o.offered ≠ o.running then
      if linkChoices o target ≠ [] && o.sourceMoves && o.offered = target then
        linked.require .adminContainer (linkChoices o target)
      else if !o.sourceMoves && o.offered = target then linked
      else linked.block .adminContainer "web-application-without-source"
    else linked
  else if o.hostChoices ≠ [] && o.adminOffered then
    -- without fingerprints the two are paired whenever both move
    ((o.hostChoices.filter (· ≠ .all)).foldl (fun c id => c.require id [.adminContainer]) c).require
      .adminContainer o.hostChoices
  else c

/-- What a check found. -/
structure Probe where
  components : Components
  github : Bool := true
  /-- The web tree of the candidate source, and whether the candidate could be read. -/
  candidateTree : Option String := none
  candidateRead : Bool := true
  installedTree : Option String := none
  /-- Does the candidate re-pin Authelia's images? -/
  retargeted : Bool := false

namespace Probe

/-- The web tree the host is judged by: the candidate's when the source moves, else that of
the installed source, read only when an image update needs it. -/
def targetTree (p : Probe) : Option String :=
  if p.components.offer.sourceMoves then (if p.candidateRead then p.candidateTree else none)
  else if p.components.offer.adminOffered then p.installedTree
  else none

end Probe

/-- Helper daemons are not trusted while the state of a GitHub source is open. -/
def resolveDaemons (github : Bool) (c : Components) : Components :=
  let sourceState := (c .all).map (·.state)
  if github && (sourceState = some .blocked || sourceState = some .unknown) then
    fun j => if j = .daemons then sourceState.map fun state => { state, actionable := false } else c j
  else c

/-- Images that only the new source re-pins are not applied on their own. -/
def holdAuthelia (retargeted : Bool) (c : Components) : Components :=
  if retargeted then c.modify .autheliaContainer fun e => { e with actionable := false } else c

def requireCandidate (read : Bool) (c : Components) : Components :=
  if c.offers .all && !read then c.block .all "candidate-unavailable" else c

def unverified (c : Components) (id : ComponentId) : Bool :=
  (c id).any fun e => e.state ≠ .current && e.state ≠ .available

/-- The complete update waits until every managed image can be verified. -/
def requireContainers (c : Components) : Components :=
  if (c .all).any (·.actionable) && (unverified c .autheliaContainer || unverified c .adminContainer) then
    c.block .all "container-candidate-unavailable"
  else c

/-- `build_update_plan`, from the linking on. -/
def Probe.plan (p : Probe) : Components :=
  requireContainers (requireCandidate p.candidateRead (holdAuthelia p.retargeted
    (resolveDaemons p.github (linkWebApplication p.components p.targetTree))))

/-! ## Selecting -/

def ComponentId.fromSource : ComponentId → Bool
  | .all | .services | .daemons | .changes => true
  | _ => false

def ComponentId.container : ComponentId → Bool
  | .autheliaContainer | .adminContainer => true
  | _ => false

def ComponentId.order : ComponentId → Nat
  | .all => 0
  | .changes | .services => 1
  | .daemons => 2
  | .autheliaContainer => 3
  | .adminContainer => 4
  | .os => 5
  | .haproxy => 6

/-- `selected_components`; `none` where it raises. -/
def selectedComponents (value : List ComponentId) : Option (List ComponentId) :=
  if value = [] ∨ 8 < value.length ∨ ¬ value.Nodup then none
  else
    let result :=
      if .all ∈ value then
        (value.filter fun id => !id.fromSource || id = .all).filter fun id => !id.container
      else if .changes ∈ value then value.filter fun id => id ≠ .services && id ≠ .daemons
      else value
    some (result.insertionSort fun a b => a.order ≤ b.order)

/-- `plan_source_component`. -/
def planSourceComponent (plan : Components) (id : ComponentId) : Option PlanEntry :=
  if id = .changes then (plan .all).filter fun e => e.scope.any fun s => s.ready && s.tagsListed else plan id

/-- `component_requirements`. -/
def componentRequirements (e : PlanEntry) (id : ComponentId) : List (List ComponentId) :=
  if id = .changes then (e.scope.map (·.requires)).getD [] else e.requires

/-- Is one of the clause's components in the selection? The full stack pulls the web
application image itself. -/
def satisfied (selected clause : List ComponentId) : Bool :=
  clause = [] || clause.any fun id => id ∈ selected || (id = .adminContainer && ComponentId.all ∈ selected)

/-- `validate_selection`; `permitted` stands for its checks of the channel and of pending
configuration. -/
def validateSelection (plan : Components) (selected : List ComponentId) (permitted : Bool) : Bool :=
  permitted && selected.all fun id =>
    (planSourceComponent plan id).any fun e =>
      e.state = .available && e.actionable && (componentRequirements e id).all (satisfied selected)

/-! ## Afterwards -/

namespace Probe

/-- The selection as the broker takes it, when it accepts it. -/
def accept (p : Probe) (value : List ComponentId) (permitted : Bool) : Option (List ComponentId) :=
  (selectedComponents value).filter fun selected => validateSelection p.plan selected permitted

def movesHost (p : Probe) (selected : List ComponentId) : Bool :=
  p.components.offer.sourceMoves && selected.any (·.fromSource)

/-- Does the selection replace the web application's image? -/
def movesImage (p : Probe) (selected : List ComponentId) : Bool :=
  p.components.offer.adminOffered && (ComponentId.adminContainer ∈ selected || ComponentId.all ∈ selected)

def hostAfter (p : Probe) (selected : List ComponentId) : Option String :=
  if p.movesHost selected then p.candidateTree else p.installedTree

def imageAfter (p : Probe) (selected : List ComponentId) : Option String :=
  if p.movesImage selected then p.components.offer.offered else p.components.offer.running

end Probe

/-! ## What the link leaves selectable -/

section Link

variable {c c' c'' : Components} {id id' : ComponentId} {clause : List ComponentId} {ids : List ComponentId}
  {e e' : PlanEntry} {target : Option String} {reason : String}

/-- The entries of `c'` are those of `c`, with more requirements. -/
def MoreRequired (c c' : Components) : Prop :=
  ∀ id e', planSourceComponent c' id = some e' → ∃ e, planSourceComponent c id = some e ∧ e.state = e'.state ∧
    componentRequirements e id ⊆ componentRequirements e' id

theorem MoreRequired.refl : MoreRequired c c := fun _ e' h => ⟨e', h, rfl, fun _ hx => hx⟩

theorem MoreRequired.trans (h : MoreRequired c c') (h' : MoreRequired c' c'') : MoreRequired c c'' := by
  intro id e'' he''
  obtain ⟨e', he', hstate', hreq'⟩ := h' id e'' he''
  obtain ⟨e, he, hstate, hreq⟩ := h id e' he'
  exact ⟨e, he, hstate.trans hstate', fun _ hx => hreq' (hreq hx)⟩

def entryId (id : ComponentId) : ComponentId := if id = .changes then .all else id

def described (id : ComponentId) (e : PlanEntry) : Bool :=
  id ≠ .changes || e.scope.any fun s => s.ready && s.tagsListed

theorem planSourceComponent_eq : planSourceComponent c id = (c (entryId id)).filter (described id) := by
  unfold planSourceComponent entryId described
  by_cases hid : id = .changes
  · simp [hid]
  · simp only [hid, if_false, ne_eq, not_false_eq_true, decide_true, Bool.true_or]
    cases c id <;> rfl

def addClause (id : ComponentId) (clause : List ComponentId) (e : PlanEntry) : PlanEntry :=
  if id = .changes then { e with scope := e.scope.map fun s => { s with requires := s.requires ++ [clause] } }
  else { e with requires := e.requires ++ [clause] }

theorem require_eq : c.require id clause = c.modify (entryId id) (addClause id clause) := by
  unfold Components.require entryId addClause
  by_cases hid : id = .changes
  · simp [hid]
  · simp [hid]

theorem described_addClause : described id' (addClause id clause e) = described id' e := by
  unfold described addClause
  by_cases hid : id = .changes
  · cases e.scope <;> simp [hid]
  · simp [hid]

theorem state_addClause : (addClause id clause e).state = e.state := by
  unfold addClause
  split <;> rfl

theorem requirements_addClause : componentRequirements e id' ⊆ componentRequirements (addClause id clause e) id' := by
  unfold componentRequirements addClause
  by_cases hid : id = .changes <;> by_cases hid' : id' = .changes <;> cases e.scope <;> simp [hid, hid']

theorem mem_requirements_addClause (h : described id e = true) :
    clause ∈ componentRequirements (addClause id clause e) id := by
  unfold componentRequirements addClause
  by_cases hid : id = .changes
  · obtain ⟨s, hs⟩ : ∃ s, e.scope = some s := by
      cases hs : e.scope with
      | none => simp [described, hid, hs] at h
      | some s => exact ⟨s, rfl⟩
    simp [hid, hs]
  · simp [hid]

theorem moreRequired_require : MoreRequired c (c.require id clause) := by
  intro id' e' he'
  rw [require_eq, planSourceComponent_eq, Components.modify] at he'
  rw [planSourceComponent_eq]
  split at he'
  · obtain ⟨hmap, hd⟩ := Option.filter_eq_some_iff.mp he'
    obtain ⟨e, he, rfl⟩ := Option.map_eq_some_iff.mp hmap
    rw [described_addClause] at hd
    exact ⟨e, Option.filter_eq_some_iff.mpr ⟨he, hd⟩, state_addClause.symm, requirements_addClause⟩
  · exact ⟨e', he', rfl, fun _ hx => hx⟩

theorem mem_requirements_require (he : planSourceComponent (c.require id clause) id = some e) :
    clause ∈ componentRequirements e id := by
  rw [require_eq, planSourceComponent_eq, Components.modify, if_pos rfl] at he
  obtain ⟨hmap, hd⟩ := Option.filter_eq_some_iff.mp he
  obtain ⟨e₀, he₀, rfl⟩ := Option.map_eq_some_iff.mp hmap
  rw [described_addClause] at hd
  exact mem_requirements_addClause hd

/-- Every component of a list gets the clause, and nothing else changes. -/
theorem moreRequired_requireEach : MoreRequired c (ids.foldl (fun c id => c.require id clause) c) := by
  induction ids generalizing c with
  | nil => exact MoreRequired.refl
  | cons id ids ih => exact moreRequired_require.trans ih

theorem mem_requirements_requireEach (hid : id ∈ ids)
    (he : planSourceComponent (ids.foldl (fun c id => c.require id clause) c) id = some e) :
    clause ∈ componentRequirements e id := by
  induction ids generalizing c with
  | nil => cases hid
  | cons id' ids ih =>
    by_cases hin : id ∈ ids
    · exact ih hin he
    · obtain rfl : id = id' := (List.mem_cons.mp hid).resolve_right hin
      obtain ⟨e₀, he₀, -, hreq⟩ := moreRequired_requireEach (c := c.require id clause) id e he
      exact hreq (mem_requirements_require he₀)

theorem requireEach_of_not_mem (hid : id ∉ ids.map entryId) :
    ids.foldl (fun c id => c.require id clause) c id = c id := by
  induction ids generalizing c with
  | nil => rfl
  | cons id' ids ih =>
    rw [List.map_cons, List.mem_cons, not_or] at hid
    rw [List.foldl_cons, ih hid.2, require_eq, Components.modify, if_neg hid.1]

/-! Blocked components -/

theorem blockEach_of_not_mem (hid : id ∉ ids) : ids.foldl (fun c id => c.block id reason) c id = c id := by
  induction ids generalizing c with
  | nil => rfl
  | cons id' ids ih =>
    rw [List.mem_cons, not_or] at hid
    rw [List.foldl_cons, ih hid.2, Components.block, Components.modify, if_neg hid.1]

theorem state_blockEach (hid : id ∈ ids) (he : ids.foldl (fun c id => c.block id reason) c id = some e) :
    e.state = .blocked := by
  induction ids generalizing c with
  | nil => cases hid
  | cons id' ids ih =>
    by_cases hin : id ∈ ids
    · exact ih hin he
    · obtain rfl : id = id' := (List.mem_cons.mp hid).resolve_right hin
      rw [List.foldl_cons, blockEach_of_not_mem hin, Components.block, Components.modify, if_pos rfl] at he
      obtain ⟨e₀, -, rfl⟩ := Option.map_eq_some_iff.mp he
      rfl

/-! The host's part -/

theorem mem_hostIds : id ∈ c.offer.hostIds ↔ id ∈ hostSourceComponents ∧ c.offers id = true := List.mem_filter

theorem offers_of_state (he : c id = some e) (hs : e.state = .available) : c.offers id = true := by
  simp [Components.offers, he, hs]

/-- What can be selected to bring a source is among the choices. -/
theorem mem_hostChoices (hid : id.fromSource = true) (he : planSourceComponent c id = some e)
    (hs : e.state = .available) : id ∈ c.offer.hostChoices := by
  rw [planSourceComponent_eq] at he
  obtain ⟨he, hd⟩ := Option.filter_eq_some_iff.mp he
  by_cases hc : id = .changes
  · subst hc
    have hoffered : c.offer.changesOffered = true := by
      have hall : c .all = some e := he
      obtain ⟨s, hscope, hready⟩ : ∃ s, e.scope = some s ∧ s.ready = true := by
        cases hscope : e.scope with
        | none => simp [described, hscope] at hd
        | some s =>
          simp only [described, hscope, Option.any_some, Bool.or_eq_true, Bool.and_eq_true] at hd
          exact ⟨s, rfl, (hd.resolve_left (by simp)).1⟩
      simp [Components.offer, hall, hscope, hready]
    simp [Offer.hostChoices, hoffered]
  · have hentry : c id = some e := by rwa [entryId, if_neg hc] at he
    refine List.mem_append_right _ (mem_hostIds.mpr ⟨?_, offers_of_state hentry hs⟩)
    cases id <;> simp_all [hostSourceComponents, ComponentId.fromSource]

theorem fromSource_of_mem_hostChoices (h : id ∈ c.offer.hostChoices) : id.fromSource = true := by
  rcases List.mem_append.mp h with h | h
  · split at h
    · rw [List.mem_singleton.mp h]
      rfl
    · cases h
  · have hid := (mem_hostIds.mp h).1
    simp only [hostSourceComponents, List.mem_cons, List.not_mem_nil, or_false] at hid
    rcases hid with rfl | rfl | rfl <;> rfl

theorem entryId_ne_admin (h : id ∈ c.offer.hostChoices) : entryId id ≠ .adminContainer := by
  have hsource := fromSource_of_mem_hostChoices h
  cases id <;> simp_all [entryId, ComponentId.fromSource]

theorem linkHost_admin : linkHost c target .adminContainer = c .adminContainer := by
  unfold linkHost
  dsimp only
  split
  · split
    · refine requireEach_of_not_mem fun hin => ?_
      obtain ⟨id, hid, hadmin⟩ := List.mem_map.mp hin
      exact entryId_ne_admin (List.mem_of_mem_filter hid) hadmin
    · have hout : ComponentId.adminContainer ∉ c.offer.hostIds := by
        intro hin
        simpa [hostSourceComponents] using (mem_hostIds.mp hin).1
      split
      · rw [Components.modify, if_neg (by decide)]
        exact blockEach_of_not_mem hout
      · exact blockEach_of_not_mem hout
  · rfl

/-- Until the image is published no source can be selected. -/
theorem linkHost_unpublished (hn : c.offer.hostNeedsWeb target = true) (hp : c.offer.published target = false)
    (hid : id.fromSource = true) (he : planSourceComponent (linkHost c target) id = some e) :
    e.state ≠ .available := by
  have hmem : entryId id ∈ hostSourceComponents := by
    cases id <;> simp_all [entryId, ComponentId.fromSource, hostSourceComponents]
  rw [planSourceComponent_eq] at he
  obtain ⟨he, -⟩ := Option.filter_eq_some_iff.mp he
  -- the entry before the scope is closed, which keeps its state
  obtain ⟨e₀, he₀, hstate⟩ : ∃ e₀, c.offer.hostIds.foldl
      (fun c id => c.block id "web-application-not-published") c (entryId id) = some e₀ ∧ e₀.state = e.state := by
    unfold linkHost at he
    rw [if_pos hn, if_neg (by simp [hp])] at he
    split at he
    · unfold Components.modify at he
      split at he
      · obtain ⟨e₀, he₀, rfl⟩ := Option.map_eq_some_iff.mp he
        exact ⟨e₀, he₀, rfl⟩
      · exact ⟨e, he, rfl⟩
    · exact ⟨e, he, rfl⟩
  rw [← hstate]
  by_cases hin : entryId id ∈ c.offer.hostIds
  · rw [state_blockEach hin he₀]
    decide
  · rw [blockEach_of_not_mem hin] at he₀
    exact fun hs => hin (mem_hostIds.mpr ⟨hmem, offers_of_state he₀ hs⟩)

/-- Otherwise the states are as they were. -/
theorem linkHost_more (h : c.offer.hostNeedsWeb target = true → c.offer.published target = true) :
    MoreRequired c (linkHost c target) := by
  unfold linkHost
  dsimp only
  split
  · rename_i hn
    rw [if_pos (h hn)]
    exact moreRequired_requireEach
  · exact MoreRequired.refl

theorem linkHost_published (hn : c.offer.hostNeedsWeb target = true) (hp : c.offer.published target = true)
    (hid : id.fromSource = true) (hall : id ≠ .all) (he : planSourceComponent (linkHost c target) id = some e)
    (hs : e.state = .available) : [.adminContainer] ∈ componentRequirements e id := by
  obtain ⟨e₀, he₀, hstate, -⟩ := linkHost_more (fun _ => hp) id e he
  have hchoice : id ∈ c.offer.hostChoices := mem_hostChoices hid he₀ (hstate.trans hs)
  unfold linkHost at he
  rw [if_pos hn, if_pos hp] at he
  refine mem_requirements_requireEach (List.mem_filter.mpr ⟨hchoice, ?_⟩) he
  simpa using hall

/-! The web application's part -/

theorem link_of_ne_admin (hx : c.offer.exact target = true) (hid : entryId id ≠ .adminContainer) :
    planSourceComponent (linkWebApplication c target) id = planSourceComponent (linkHost c target) id := by
  rw [planSourceComponent_eq, planSourceComponent_eq]
  unfold linkWebApplication
  rw [if_pos hx]
  split
  · split
    · have hentry : entryId id ≠ entryId .adminContainer := hid
      rw [require_eq, Components.modify, if_neg hentry]
    · split
      · rfl
      · rw [Components.block, Components.modify, if_neg hid]
  · rfl

/-- An image of other web files is offered only with the source that has them, or to a
host that has them already. -/
theorem link_admin (hx : c.offer.exact target = true) (ha : c.offer.adminOffered = true)
    (hne : c.offer.offered ≠ c.offer.running)
    (he : planSourceComponent (linkWebApplication c target) .adminContainer = some e)
    (hs : e.state ≠ .blocked) :
    c.offer.offered = target ∧ (c.offer.sourceMoves = true → ∃ choices, choices ⊆ c.offer.hostChoices ∧
      choices ≠ [] ∧ choices ∈ componentRequirements e .adminContainer) := by
  unfold linkWebApplication at he
  rw [if_pos hx, if_pos (by simp [ha, hne])] at he
  split at he
  · rename_i hchoices
    simp only [Bool.and_eq_true, decide_eq_true_eq] at hchoices
    refine ⟨hchoices.2, fun _ => ⟨_, ?_, hchoices.1.1, mem_requirements_require he⟩⟩
    unfold linkChoices
    split
    · exact List.nil_subset _
    · exact fun _ hx => hx
  · split at he
    · rename_i hcatch
      simp only [Bool.and_eq_true, Bool.not_eq_true', decide_eq_true_eq] at hcatch
      exact ⟨hcatch.2, fun hm => by simp [hcatch.1] at hm⟩
    · rw [planSourceComponent_eq] at he
      obtain ⟨he, -⟩ := Option.filter_eq_some_iff.mp he
      have hblocked : ((linkHost c target).block .adminContainer "web-application-without-source")
          .adminContainer = some e := he
      rw [Components.block, Components.modify, if_pos rfl] at hblocked
      obtain ⟨e₀, -, rfl⟩ := Option.map_eq_some_iff.mp hblocked
      exact absurd rfl hs

/-! The rest of the plan -/

/-- What is still available in `c'` has the same entry in `c`; Authelia's image is left out. -/
def OnlyBlocks (c c' : Components) : Prop :=
  ∀ id e, id ≠ .autheliaContainer → planSourceComponent c' id = some e → e.state = .available →
    planSourceComponent c id = some e

theorem OnlyBlocks.trans (h : OnlyBlocks c c') (h' : OnlyBlocks c' c'') : OnlyBlocks c c'' :=
  fun id e hid he hs => h id e hid (h' id e hid he hs) hs

theorem onlyBlocks_block : OnlyBlocks c (c.block id reason) := by
  intro id' e _ he hs
  rw [planSourceComponent_eq] at he ⊢
  obtain ⟨he, hd⟩ := Option.filter_eq_some_iff.mp he
  unfold Components.block Components.modify at he
  split at he
  · obtain ⟨e₀, -, rfl⟩ := Option.map_eq_some_iff.mp he
    cases hs
  · exact Option.filter_eq_some_iff.mpr ⟨he, hd⟩

theorem onlyBlocks_resolveDaemons {github : Bool} : OnlyBlocks c (resolveDaemons github c) := by
  intro id e _ he hs
  unfold resolveDaemons at he
  dsimp only at he
  split at he
  · rename_i hopen
    rw [planSourceComponent_eq] at he ⊢
    obtain ⟨he, hd⟩ := Option.filter_eq_some_iff.mp he
    split at he
    · obtain ⟨state, hstate, rfl⟩ := Option.map_eq_some_iff.mp he
      obtain rfl : state = .available := hs
      simp [hstate] at hopen
    · exact Option.filter_eq_some_iff.mpr ⟨he, hd⟩
  · exact he

theorem onlyBlocks_holdAuthelia {retargeted : Bool} : OnlyBlocks c (holdAuthelia retargeted c) := by
  intro id e hid he hs
  unfold holdAuthelia at he
  split at he
  · rw [planSourceComponent_eq] at he ⊢
    obtain ⟨he, hd⟩ := Option.filter_eq_some_iff.mp he
    have hentry : entryId id ≠ .autheliaContainer := by
      cases id <;> simp_all [entryId]
    rw [Components.modify, if_neg hentry] at he
    exact Option.filter_eq_some_iff.mpr ⟨he, hd⟩
  · exact he

theorem onlyBlocks_requireCandidate {read : Bool} : OnlyBlocks c (requireCandidate read c) := by
  unfold requireCandidate
  split
  · exact onlyBlocks_block
  · exact fun _ _ _ he _ => he

theorem onlyBlocks_requireContainers : OnlyBlocks c (requireContainers c) := by
  unfold requireContainers
  split
  · exact onlyBlocks_block
  · exact fun _ _ _ he _ => he

theorem plan_onlyBlocks {p : Probe} : OnlyBlocks (linkWebApplication p.components p.targetTree) p.plan :=
  ((onlyBlocks_resolveDaemons.trans onlyBlocks_holdAuthelia).trans onlyBlocks_requireCandidate).trans
    onlyBlocks_requireContainers

theorem resolveDaemons_admin {github : Bool} : resolveDaemons github c .adminContainer = c .adminContainer := by
  unfold resolveDaemons
  split
  · exact if_neg ComponentId.noConfusion
  · rfl

theorem holdAuthelia_admin {retargeted : Bool} : holdAuthelia retargeted c .adminContainer = c .adminContainer := by
  unfold holdAuthelia
  split
  · exact if_neg ComponentId.noConfusion
  · rfl

theorem requireCandidate_admin {read : Bool} : requireCandidate read c .adminContainer = c .adminContainer := by
  unfold requireCandidate
  split
  · rw [Components.block, Components.modify, if_neg (by decide)]
  · rfl

theorem plan_all_verified {p : Probe} (he : p.plan .all = some e) (hs : e.state = .available)
    (ha : e.actionable = true) :
    unverified (linkWebApplication p.components p.targetTree) .adminContainer = false := by
  unfold Probe.plan requireContainers at he
  split at he
  · unfold Components.block Components.modify at he
    rw [if_pos rfl] at he
    obtain ⟨e₀, -, rfl⟩ := Option.map_eq_some_iff.mp he
    cases hs
  · rename_i hopen
    simp only [he, Option.any_some, ha, Bool.true_and, Bool.not_eq_true, Bool.or_eq_false_iff] at hopen
    have hverified := hopen.2
    unfold unverified at hverified ⊢
    rwa [requireCandidate_admin, holdAuthelia_admin, resolveDaemons_admin] at hverified

/-! ## One source -/

theorem validateSelection_entry {selected : List ComponentId} {permitted : Bool}
    (h : validateSelection c selected permitted = true) (hid : id ∈ selected) :
    ∃ e, planSourceComponent c id = some e ∧ e.state = .available ∧ e.actionable = true ∧
      ∀ clause ∈ componentRequirements e id, satisfied selected clause = true := by
  simp only [validateSelection, Bool.and_eq_true, List.all_eq_true] at h
  obtain ⟨e, he, hok⟩ := (Option.any_eq_true _ _).mp (h.2 id hid)
  simp only [Bool.and_eq_true, decide_eq_true_eq, List.all_eq_true] at hok
  exact ⟨e, he, hok.1.1, hok.1.2, hok.2⟩

theorem satisfied_iff {selected : List ComponentId} : satisfied selected clause = true ↔
    clause = [] ∨ ∃ id ∈ clause, id ∈ selected ∨ (id = .adminContainer ∧ .all ∈ selected) := by
  simp [satisfied]

theorem link_admin_isSome (hx : c.offer.exact target = true) :
    (linkWebApplication c target .adminContainer).isSome = (c .adminContainer).isSome := by
  unfold linkWebApplication
  rw [if_pos hx]
  split
  · split
    · simp [require_eq, Components.modify, entryId, linkHost_admin]
    · split
      · rw [linkHost_admin]
      · simp [Components.block, Components.modify, linkHost_admin]
  · rw [linkHost_admin]

end Link

section Selection

variable {p : Probe} {selected : List ComponentId} {permitted : Bool}

theorem source_with_image {id : ComponentId} (hx : p.components.offer.exact p.targetTree = true)
    (hvalid : validateSelection p.plan selected permitted = true) (hid : id ∈ selected)
    (hsource : id.fromSource = true) (hmoves : p.components.offer.sourceMoves = true)
    (hother : p.targetTree ≠ p.components.offer.running) :
    p.components.offer.published p.targetTree = true ∧
      (.adminContainer ∈ selected ∨ ComponentId.all ∈ selected) := by
  have hne : id ≠ .autheliaContainer ∧ entryId id ≠ .adminContainer := by
    cases id <;> simp_all [ComponentId.fromSource, entryId]
  obtain ⟨e, he, hs, -, hclauses⟩ := validateSelection_entry hvalid hid
  have hlinked := plan_onlyBlocks id e hne.1 he hs
  rw [link_of_ne_admin hx hne.2] at hlinked
  have hneeds : p.components.offer.hostNeedsWeb p.targetTree = true := by
    have hall : ComponentId.all ∈ p.components.offer.hostChoices :=
      List.mem_append_right _ (mem_hostIds.mpr ⟨by decide, hmoves⟩)
    simp [Offer.hostNeedsWeb, List.ne_nil_of_mem hall, hmoves, hother]
  cases hpublished : p.components.offer.published p.targetTree with
  | false => exact absurd hs (linkHost_unpublished hneeds hpublished hsource hlinked)
  | true =>
    refine ⟨rfl, ?_⟩
    by_cases hall : id = .all
    · exact Or.inr (hall ▸ hid)
    · have hclause := hclauses _ (linkHost_published hneeds hpublished hsource hall hlinked hs)
      rcases satisfied_iff.mp hclause with hempty | ⟨x, hx, hsel⟩
      · cases hempty
      · obtain rfl := List.mem_singleton.mp hx
        exact hsel.imp_right And.right

/-- An image of other web files comes with their source, or the host has them already. -/
theorem image_with_source (hx : p.components.offer.exact p.targetTree = true)
    (hvalid : validateSelection p.plan selected permitted = true) (hadmin : .adminContainer ∈ selected)
    (hoffered : p.components.offer.adminOffered = true)
    (hother : p.components.offer.offered ≠ p.components.offer.running) :
    p.components.offer.offered = p.targetTree ∧
      (p.components.offer.sourceMoves = true → selected.any (·.fromSource) = true) := by
  obtain ⟨e, he, hs, -, hclauses⟩ := validateSelection_entry hvalid hadmin
  have hlinked := plan_onlyBlocks .adminContainer e (by decide) he hs
  obtain ⟨htree, hchoices⟩ := link_admin hx hoffered hother hlinked (by rw [hs]; decide)
  refine ⟨htree, fun hmoves => ?_⟩
  obtain ⟨choices, hsub, hne, hmem⟩ := hchoices hmoves
  rcases satisfied_iff.mp (hclauses choices hmem) with hempty | ⟨x, hx', hsel⟩
  · exact absurd hempty hne
  · have hfrom := fromSource_of_mem_hostChoices (hsub hx')
    rcases hsel with hsel | ⟨rfl, -⟩
    · exact List.any_eq_true.mpr ⟨x, hsel, hfrom⟩
    · cases hfrom

theorem all_with_image (hx : p.components.offer.exact p.targetTree = true)
    (hvalid : validateSelection p.plan selected permitted = true) (hall : ComponentId.all ∈ selected) :
    p.components.offer.sourceMoves = true ∧
      (p.components.offer.adminOffered = true → p.components.offer.offered ≠ p.components.offer.running →
        p.components.offer.offered = p.targetTree) := by
  obtain ⟨e, he, hs, ha, -⟩ := validateSelection_entry hvalid hall
  have hlinked := plan_onlyBlocks .all e (by decide) he hs
  rw [link_of_ne_admin hx (by decide)] at hlinked
  constructor
  · have hmore : MoreRequired p.components (linkHost p.components p.targetTree) := by
      refine linkHost_more fun hneeds => ?_
      by_contra hunpublished
      exact linkHost_unpublished hneeds (by simpa using hunpublished) rfl hlinked hs
    obtain ⟨e₀, he₀, hstate, -⟩ := hmore .all e hlinked
    exact offers_of_state he₀ (hstate.trans hs)
  · intro hoffered hother
    have hverified := plan_all_verified he hs ha
    have hsome : (linkWebApplication p.components p.targetTree .adminContainer).isSome = true := by
      rw [link_admin_isSome hx]
      exact Option.isSome_of_any hoffered
    obtain ⟨e', he'⟩ := Option.isSome_iff_exists.mp hsome
    refine (link_admin hx hoffered hother he' fun hblocked => ?_).1
    simp [unverified, he', hblocked] at hverified

end Selection

/-- After every update that the broker accepts and that moves the host's source or the web
application's image, the running image was built from the host source's web files, or it
was replaced by one of the same files as before and the source left alone. -/
theorem host_and_web_from_one_source {p : Probe} {value selected : List ComponentId} {permitted : Bool}
    (htarget : known p.targetTree = true) (hrunning : known p.components.offer.running = true)
    (hoffered : p.components.offer.adminOffered = true → known p.components.offer.offered = true)
    (haccept : p.accept value permitted = some selected)
    (hmoves : p.movesHost selected = true ∨ p.movesImage selected = true) :
    p.imageAfter selected = p.hostAfter selected ∨
      (p.movesImage selected = true ∧ p.components.offer.offered = p.components.offer.running ∧
        p.hostAfter selected = p.installedTree) := by
  have hvalid : validateSelection p.plan selected permitted = true := (Option.filter_eq_some_iff.mp haccept).2
  have hx : p.components.offer.exact p.targetTree = true := by
    cases ha : p.components.offer.adminOffered with
    | false => simp [Offer.exact, htarget, hrunning, ha]
    | true => simp [Offer.exact, htarget, hrunning, hoffered ha]
  by_cases hhost : p.movesHost selected = true
  · left
    have hsource := hhost
    simp only [Probe.movesHost, Bool.and_eq_true, List.any_eq_true] at hsource
    obtain ⟨hsm, id, hid, hfrom⟩ := hsource
    have htree : p.targetTree = p.candidateTree := by
      cases hread : p.candidateRead with
      | false => simp [Probe.targetTree, hsm, hread, known] at htarget
      | true => simp [Probe.targetTree, hsm, hread]
    rw [Probe.hostAfter, if_pos hhost, ← htree]
    by_cases hother : p.targetTree = p.components.offer.running
    · -- the web files stay, and so must those of an image that is replaced
      unfold Probe.imageAfter
      split
      · rename_i himage
        simp only [Probe.movesImage, Bool.and_eq_true, Bool.or_eq_true, decide_eq_true_eq] at himage
        by_contra hdiffers
        have hnew : p.components.offer.offered ≠ p.components.offer.running := hother ▸ hdiffers
        rcases himage.2 with hadmin | hall
        · exact hdiffers (image_with_source hx hvalid hadmin himage.1 hnew).1
        · exact hdiffers ((all_with_image hx hvalid hall).2 himage.1 hnew)
      · exact hother.symm
    · obtain ⟨hpublished, hsel⟩ := source_with_image hx hvalid hid hfrom hsm hother
      simp only [Offer.published, Bool.and_eq_true, decide_eq_true_eq] at hpublished
      have himage : p.movesImage selected = true := by
        simp [Probe.movesImage, hpublished.1, hsel]
      rw [Probe.imageAfter, if_pos himage]
      exact hpublished.2
  · have himage := hmoves.resolve_left hhost
    have hafter : p.hostAfter selected = p.installedTree := by rw [Probe.hostAfter, if_neg hhost]
    have hparts := himage
    simp only [Probe.movesImage, Bool.and_eq_true, Bool.or_eq_true, decide_eq_true_eq] at hparts
    have hadmin : ComponentId.adminContainer ∈ selected := by
      refine hparts.2.resolve_right fun hall => hhost ?_
      have hsm := (all_with_image hx hvalid hall).1
      simp only [Probe.movesHost, hsm, Bool.true_and, List.any_eq_true]
      exact ⟨.all, hall, rfl⟩
    by_cases hsame : p.components.offer.offered = p.components.offer.running
    · exact Or.inr ⟨himage, hsame, hafter⟩
    · left
      obtain ⟨htree, hwith⟩ := image_with_source hx hvalid hadmin hparts.1 hsame
      have hstays : p.components.offer.sourceMoves = false := by
        by_contra hsm
        rw [Bool.not_eq_false] at hsm
        exact hhost (by simp only [Probe.movesHost, hsm, hwith hsm, Bool.and_self])
      rw [Probe.imageAfter, if_pos himage, hafter, htree, Probe.targetTree, hstays]
      simp [hparts.1]

/-- A new source with other web files, and the image that was built from them. -/
def newVersion : Probe where
  components
    | .all => some { state := .available, scope := some { ready := true } }
    | .services => some { state := .available }
    | .daemons => some { state := .current }
    | .adminContainer => some { state := .available, images := [⟨some "old", some "new"⟩] }
    | .autheliaContainer => some { state := .current }
    | .os => some { state := .current }
    | _ => none
  candidateTree := some "new"
  installedTree := some "old"

/-- The changes-only update with the image: both come from the new source. -/
theorem newVersion_one_source : newVersion.accept [.adminContainer, .changes] true = some [.changes, .adminContainer] ∧
    newVersion.imageAfter [.changes, .adminContainer] = newVersion.hostAfter [.changes, .adminContainer] := by
  have haccept : newVersion.accept [.adminContainer, .changes] true = some [.changes, .adminContainer] := by
    decide +kernel
  refine ⟨haccept, ?_⟩
  have hone := host_and_web_from_one_source (by decide +kernel) (by decide +kernel) (by decide +kernel) haccept
    (Or.inl (by decide +kernel))
  refine hone.resolve_right fun ⟨_, hsame, _⟩ => ?_
  exact absurd hsame (by decide +kernel)

/-- Without the image the changes-only update is refused. -/
example : newVersion.accept [.changes] true = none := by decide +kernel

end EasyHaProxy.Installer
