import EasyHaProxy.Installer.UpdatePlan

/-! What it takes from a plan, and when the rules for a selection refuse that. A web application image is
tied to the host's source by a clause; when the plan then holds the source back, the clause stays. -/
namespace EasyHaProxy.Installer

/-! ## The selection -/

/-- `AUTO_INSTALL_EXCLUDED`. -/
def autoInstallExcluded : List ComponentId := [.os, .haproxy]

/-- The ids as `sorted` puts them. -/
def sortedIds : List ComponentId :=
  [.adminContainer, .all, .autheliaContainer, .changes, .daemons, .haproxy, .os, .services]

namespace Components

def actionable (plan : Components) (id : ComponentId) : Bool :=
  (plan id).any fun e => e.state = .available && e.actionable

/-- What could be installed on its own account. -/
def actionableIds (plan : Components) : List ComponentId :=
  sortedIds.filter fun id => plan.actionable id && decide (id ∉ autoInstallExcluded)

end Components

/-- `auto_install_selection`. -/
def autoInstallSelection (plan : Components) : List ComponentId :=
  if .all ∈ plan.actionableIds then
    if (planSourceComponent plan .changes).isSome then
      .changes :: [.autheliaContainer, .adminContainer].filter fun id => id ∈ plan.actionableIds
    else [.all]
  else plan.actionableIds

/-! ## What the probes find -/

/-- Components as the probes make them, before any are linked. -/
structure Probe.Fresh (p : Probe) : Prop where
  actionable : ∀ id e, p.components id = some e → e.actionable = decide (e.state = .available)
  requires : ∀ id e, p.components id = some e → e.requires = []
  scope : ∀ id e s, p.components id = some e → e.scope = some s → s.requires = []
  /-- A changes-only update is no component of its own. -/
  changes : p.components .changes = none

namespace Probe

/-- The image is tied to the source: its web files are the source's, or nothing is known of them. -/
def tied (p : Probe) : Bool :=
  let o := p.components.offer
  o.adminOffered &&
    if o.exact p.targetTree then o.sourceMoves && o.offered = p.targetTree && p.targetTree ≠ o.running
    else o.hostChoices ≠ []

def sourceOpen (p : Probe) : Bool :=
  p.github && (p.components .all).any fun e => e.state = .blocked || e.state = .unknown

/-- The complete update is offered, could be read, and Authelia's images could be checked. -/
def sourceStands (p : Probe) : Bool :=
  p.components.offers .all && p.candidateRead && !unverified p.components .autheliaContainer

/-- The image is tied to a source that is held back, and neither the services nor the daemons can
bring it. -/
structure Stranded (p : Probe) : Prop where
  tied : p.tied = true
  source : p.sourceStands = false
  services : p.components.offers .services = false
  daemons : p.components.offers .daemons = false ∨ p.sourceOpen = true

end Probe

/-! ## What the link adds -/

section Link

variable {c c' : Components} {id id' : ComponentId} {clause clause' : List ComponentId} {ids : List ComponentId}
  {e : PlanEntry} {target : Option String} {reason : String}

def Components.standing (c : Components) (id : ComponentId) : Option (ComponentState × Bool) :=
  (c id).map fun e => (e.state, e.actionable)

theorem actionable_eq : c.actionable id = (c.standing id == some (.available, true)) := by
  unfold Components.actionable Components.standing
  cases h : c id with
  | none => rfl
  | some e => cases hs : e.state <;> cases ha : e.actionable <;> simp [hs, ha]

theorem actionable_addClause : (addClause id clause e).actionable = e.actionable := by
  unfold addClause
  split <;> rfl

theorem standing_require : (c.require id clause).standing id' = c.standing id' := by
  rw [require_eq]
  unfold Components.standing Components.modify
  split
  · cases c id' with
    | none => rfl
    | some e => simp [state_addClause, actionable_addClause]
  · rfl

theorem standing_requireEach : (ids.foldl (fun c id => c.require id clause) c).standing id' = c.standing id' := by
  induction ids generalizing c with
  | nil => rfl
  | cons id ids ih => rw [List.foldl_cons, ih, standing_require]

theorem mem_requirements_of_addClause (hid : entryId id' = entryId id)
    (h : clause' ∈ componentRequirements (addClause id clause e) id') :
    clause' ∈ componentRequirements e id' ∨ (clause' = clause ∧ id' = id) := by
  unfold componentRequirements addClause at *
  by_cases hc : id = .changes <;> by_cases hc' : id' = .changes
  · cases hs : e.scope with
    | none => simp [hc, hc', hs] at h
    | some s =>
      simp only [hc, hc', hs, if_true, Option.map_some, Option.getD_some, List.mem_append, List.mem_singleton] at h
      simpa [hc, hc'] using h
  · simp only [hc, hc', if_true, if_false] at h
    exact Or.inl (by simpa [hc'] using h)
  · simp only [hc, hc', if_true, if_false] at h
    exact Or.inl (by simpa [hc'] using h)
  · obtain rfl : id' = id := by simpa [entryId, hc, hc'] using hid
    simpa [hc] using h

theorem mem_requirements_of_require (he : planSourceComponent (c.require id clause) id' = some e)
    (h : clause' ∈ componentRequirements e id') :
    (∃ e₀, planSourceComponent c id' = some e₀ ∧ clause' ∈ componentRequirements e₀ id') ∨
      (clause' = clause ∧ id' = id) := by
  rw [require_eq, planSourceComponent_eq, Components.modify] at he
  split at he
  · rename_i hentry
    obtain ⟨hmap, hd⟩ := Option.filter_eq_some_iff.mp he
    obtain ⟨e₀, he₀, rfl⟩ := Option.map_eq_some_iff.mp hmap
    rw [described_addClause] at hd
    refine (mem_requirements_of_addClause hentry h).imp_left fun hold => ⟨e₀, ?_, hold⟩
    rw [planSourceComponent_eq]
    exact Option.filter_eq_some_iff.mpr ⟨he₀, hd⟩
  · refine Or.inl ⟨e, ?_, h⟩
    rw [planSourceComponent_eq]
    exact he

theorem mem_requirements_of_requireEach
    (he : planSourceComponent (ids.foldl (fun c id => c.require id clause) c) id' = some e)
    (h : clause' ∈ componentRequirements e id') :
    (∃ e₀, planSourceComponent c id' = some e₀ ∧ clause' ∈ componentRequirements e₀ id') ∨ clause' = clause := by
  induction ids generalizing c with
  | nil => exact Or.inl ⟨e, he, h⟩
  | cons id ids ih =>
    rcases ih he with ⟨e₀, he₀, hold⟩ | hnew
    · exact (mem_requirements_of_require he₀ hold).imp_right And.left
    · exact Or.inr hnew

/-- No component asks for another. -/
def Free (c : Components) : Prop :=
  ∀ id e, planSourceComponent c id = some e → componentRequirements e id = []

theorem Probe.Fresh.free {p : Probe} (h : p.Fresh) : Free p.components := by
  intro id e he
  rw [planSourceComponent_eq] at he
  obtain ⟨he, -⟩ := Option.filter_eq_some_iff.mp he
  unfold componentRequirements
  split
  · cases hs : e.scope with
    | none => rfl
    | some s => exact h.scope _ e s he hs
  · exact h.requires _ e he

theorem Free.block (h : Free c) : Free (c.block id reason) := by
  intro id' e he
  rw [planSourceComponent_eq, Components.block, Components.modify] at he
  split at he
  · obtain ⟨hmap, hd⟩ := Option.filter_eq_some_iff.mp he
    obtain ⟨e₀, he₀, rfl⟩ := Option.map_eq_some_iff.mp hmap
    refine h id' e₀ ?_
    rw [planSourceComponent_eq]
    exact Option.filter_eq_some_iff.mpr ⟨he₀, hd⟩
  · refine h id' e ?_
    rw [planSourceComponent_eq]
    exact he

theorem Free.blockEach (h : Free c) : Free (ids.foldl (fun c id => c.block id reason) c) := by
  induction ids generalizing c with
  | nil => exact h
  | cons id ids ih => exact ih h.block

theorem Free.closeScope (h : Free c) : Free (c.modify .all fun e =>
    { e with scope := e.scope.map fun s => { s with ready := false, reason } }) := by
  intro id e he
  rw [planSourceComponent_eq, Components.modify] at he
  split at he
  · obtain ⟨hmap, hd⟩ := Option.filter_eq_some_iff.mp he
    obtain ⟨e₀, he₀, rfl⟩ := Option.map_eq_some_iff.mp hmap
    have hid : id ≠ .changes := by
      rintro rfl
      cases hs : e₀.scope <;> simp [described, hs] at hd
    have hold := h id e₀ (by
      rw [planSourceComponent_eq]
      exact Option.filter_eq_some_iff.mpr ⟨he₀, by simp [described, hid]⟩)
    simpa [componentRequirements, hid] using hold
  · refine h id e ?_
    rw [planSourceComponent_eq]
    exact he

end Link

section Tied

variable {p : Probe}

theorem hostChoices_ne_nil (h : p.components.offer.sourceMoves = true) : p.components.offer.hostChoices ≠ [] :=
  List.ne_nil_of_mem (List.mem_append_right _ (mem_hostIds.mpr ⟨by decide, h⟩))

/-- The host's choices ask for the image, and the image for one of them. -/
theorem link_of_tied (h : p.tied = true) : linkWebApplication p.components p.targetTree =
    ((p.components.offer.hostChoices.filter (· ≠ .all)).foldl (fun c id => c.require id [.adminContainer])
      p.components).require .adminContainer p.components.offer.hostChoices := by
  simp only [Probe.tied, Bool.and_eq_true] at h
  obtain ⟨hadmin, h⟩ := h
  unfold linkWebApplication
  split at h
  · rename_i hx
    simp only [Bool.and_eq_true, decide_eq_true_eq] at h
    obtain ⟨⟨hmoves, htree⟩, hother⟩ := h
    have hchoices := hostChoices_ne_nil hmoves
    have hneeds : p.components.offer.hostNeedsWeb p.targetTree = true := by
      simp [Offer.hostNeedsWeb, hchoices, hmoves, hother]
    have hpublished : p.components.offer.published p.targetTree = true := by
      simp [Offer.published, hadmin, htree]
    have hlink : linkChoices p.components.offer p.targetTree = p.components.offer.hostChoices := by
      simp [linkChoices, hpublished]
    rw [if_pos hx, if_pos (by simp [hadmin, htree, hother]), hlink, if_pos (by simp [hchoices, hmoves, htree]),
      linkHost, if_pos hneeds, if_pos hpublished]
  · rename_i hx
    rw [if_neg hx, if_pos (by simpa [hadmin] using h)]

/-- Where the image is not tied, nothing asks for anything. -/
theorem free_link (hfree : Free p.components) (h : p.tied = false) :
    Free (linkWebApplication p.components p.targetTree) := by
  unfold linkWebApplication
  dsimp only
  split
  · rename_i hx
    have hfall : p.components.offer.adminOffered = true → p.components.offer.sourceMoves = true →
        p.components.offer.offered = p.targetTree → p.targetTree = p.components.offer.running := by
      intro hadmin hmoves htree
      simpa [Probe.tied, hx, hadmin, hmoves, htree] using h
    have hhost : Free (linkHost p.components p.targetTree) := by
      unfold linkHost
      dsimp only
      split
      · rename_i hneeds
        simp only [Offer.hostNeedsWeb, Bool.and_eq_true, decide_eq_true_eq] at hneeds
        split
        · rename_i hpublished
          simp only [Offer.published, Bool.and_eq_true, decide_eq_true_eq] at hpublished
          exact absurd (hfall hpublished.1 hneeds.1.2 hpublished.2) hneeds.2
        · split
          · exact hfree.blockEach.closeScope
          · exact hfree.blockEach
      · exact hfree
    split
    · rename_i hnew
      simp only [Bool.and_eq_true, decide_eq_true_eq] at hnew
      split
      · rename_i hchoices
        simp only [Bool.and_eq_true, decide_eq_true_eq] at hchoices
        exact absurd (hchoices.2.trans (hfall hnew.1 hchoices.1.2 hchoices.2)) hnew.2
      · split
        · exact hhost
        · exact hhost.block
    · exact hhost
  · rename_i hx
    split
    · rename_i hpair
      simp only [Bool.and_eq_true, decide_eq_true_eq] at hpair
      simp [Probe.tied, hx, hpair.1, hpair.2] at h
    · exact hfree

theorem standing_of_tied (h : p.tied = true) (id : ComponentId) :
    (linkWebApplication p.components p.targetTree).standing id = p.components.standing id := by
  rw [link_of_tied h, standing_require, standing_requireEach]

end Tied

/-! ## What the plan holds back -/

section Plan

variable {p : Probe} {c : Components} {id : ComponentId} {github retargeted read : Bool}

theorem Probe.Fresh.actionable_eq (h : p.Fresh) (id : ComponentId) :
    p.components.actionable id = p.components.offers id := by
  unfold Components.actionable Components.offers
  cases hc : p.components id with
  | none => rfl
  | some e => simp [h.actionable id e hc]

theorem unverified_eq : unverified c id =
    (c.standing id).any fun s => s.1 ≠ .current && s.1 ≠ .available := by
  unfold unverified Components.standing
  cases c id <;> rfl

theorem block_of_ne {reason : String} (hid : id ≠ .all) : c.block .all reason id = c id := by
  rw [Components.block, Components.modify, if_neg hid]

theorem actionable_block {reason : String} : (c.block id reason).actionable id = false := by
  unfold Components.actionable Components.block Components.modify
  cases c id <;> simp

theorem resolveDaemons_of_ne (hid : id ≠ .daemons) : resolveDaemons github c id = c id := by
  unfold resolveDaemons
  split
  · exact if_neg hid
  · rfl

theorem actionable_resolveDaemons : (resolveDaemons github c).actionable .daemons =
    (c.actionable .daemons && !(github && (c .all).any fun e => e.state = .blocked || e.state = .unknown)) := by
  unfold resolveDaemons
  dsimp only
  cases hall : c .all with
  | none => simp
  | some e =>
    cases github with
    | false => simp
    | true =>
      by_cases hopen : e.state = .blocked ∨ e.state = .unknown
      · rcases hopen with hs | hs <;> simp [Components.actionable, hs]
      · rw [not_or] at hopen
        simp [hopen.1, hopen.2]

theorem standing_holdAuthelia : ((holdAuthelia retargeted c).standing id).map Prod.fst = (c.standing id).map Prod.fst := by
  unfold holdAuthelia
  split
  · unfold Components.standing Components.modify
    split
    · cases c id <;> rfl
    · rfl
  · rfl

theorem holdAuthelia_of_ne (hid : id ≠ .autheliaContainer) : holdAuthelia retargeted c id = c id := by
  unfold holdAuthelia
  split
  · rw [Components.modify, if_neg hid]
  · rfl

theorem unverified_holdAuthelia : unverified (holdAuthelia retargeted c) id = unverified c id := by
  have hstate : ((holdAuthelia retargeted c).standing id).map Prod.fst = (c.standing id).map Prod.fst :=
    standing_holdAuthelia
  have h := congrArg (Option.any fun s : ComponentState => s ≠ .current && s ≠ .available) hstate
  rw [unverified_eq, unverified_eq]
  simpa only [Option.any_map, Function.comp_def] using h

theorem requireCandidate_of_ne (hid : id ≠ .all) : requireCandidate read c id = c id := by
  unfold requireCandidate
  split
  · exact block_of_ne hid
  · rfl

theorem offers_of_actionable (h : c.actionable id = true) : c.offers id = true := by
  obtain ⟨e, he, hok⟩ := (Option.any_eq_true _ _).mp h
  exact (Option.any_eq_true _ _).mpr ⟨e, he, (Bool.and_eq_true _ _ ▸ hok).1⟩

theorem actionable_requireCandidate : (requireCandidate read c).actionable .all = (c.actionable .all && read) := by
  unfold requireCandidate
  cases ha : c.actionable .all with
  | false =>
    split
    · exact actionable_block
    · exact ha
  | true =>
    cases read with
    | false => rw [if_pos (by simp [offers_of_actionable ha]), actionable_block]; rfl
    | true => simpa using ha

theorem actionable_requireContainers : (requireContainers c).actionable .all =
    (c.actionable .all && !(unverified c .autheliaContainer || unverified c .adminContainer)) := by
  unfold requireContainers
  cases hu : unverified c .autheliaContainer || unverified c .adminContainer with
  | false => simp
  | true =>
    split
    · rw [actionable_block]
      simp
    · rename_i hopen
      have hidle : (c .all).any (·.actionable) = false := by simpa using hopen
      unfold Components.actionable
      cases hall : c .all with
      | none => rfl
      | some e =>
        rw [hall, Option.any_some] at hidle
        simp [hidle]

theorem requireContainers_of_ne (hid : id ≠ .all) : requireContainers c id = c id := by
  unfold requireContainers
  split
  · exact block_of_ne hid
  · rfl

/-- After the linking only the source, the daemons and Authelia's images are looked at again. -/
theorem plan_of_ne (hall : id ≠ .all) (hdaemons : id ≠ .daemons) (hauthelia : id ≠ .autheliaContainer) :
    p.plan id = linkWebApplication p.components p.targetTree id := by
  rw [Probe.plan, requireContainers_of_ne hall, requireCandidate_of_ne hall, holdAuthelia_of_ne hauthelia,
    resolveDaemons_of_ne hdaemons]

end Plan

/-! ## What can be installed in the end -/

section Standing

variable {p : Probe} {c c' : Components} {id : ComponentId}

theorem actionable_congr (h : c id = c' id) : c.actionable id = c'.actionable id := by
  unfold Components.actionable
  rw [h]

theorem unverified_congr (h : c id = c' id) : unverified c id = unverified c' id := by
  unfold unverified
  rw [h]

theorem actionable_of_tied (h : p.Fresh) (ht : p.tied = true) (id : ComponentId) :
    (linkWebApplication p.components p.targetTree).actionable id = p.components.offers id := by
  rw [actionable_eq, standing_of_tied ht, ← actionable_eq, h.actionable_eq]

theorem adminOffered_of_tied (ht : p.tied = true) : p.components.offers .adminContainer = true := by
  simp only [Probe.tied, Bool.and_eq_true] at ht
  exact ht.1

theorem plan_actionable_all (h : p.Fresh) (ht : p.tied = true) : p.plan.actionable .all = p.sourceStands := by
  have hauthelia : unverified (requireCandidate p.candidateRead (holdAuthelia p.retargeted (resolveDaemons p.github
      (linkWebApplication p.components p.targetTree)))) .autheliaContainer =
      unverified p.components .autheliaContainer := by
    rw [unverified_congr (requireCandidate_of_ne (by decide)), unverified_holdAuthelia,
      unverified_congr (resolveDaemons_of_ne (by decide)), unverified_eq, standing_of_tied ht, ← unverified_eq]
  have hadmin : unverified (requireCandidate p.candidateRead (holdAuthelia p.retargeted (resolveDaemons p.github
      (linkWebApplication p.components p.targetTree)))) .adminContainer = false := by
    rw [unverified_congr (requireCandidate_of_ne (by decide)), unverified_holdAuthelia,
      unverified_congr (resolveDaemons_of_ne (by decide)), unverified_eq, standing_of_tied ht, ← unverified_eq]
    obtain ⟨e, he, hs⟩ := (Option.any_eq_true _ _).mp (adminOffered_of_tied ht)
    rw [decide_eq_true_eq] at hs
    simp [unverified, he, hs]
  rw [Probe.plan, actionable_requireContainers, actionable_requireCandidate, hauthelia, hadmin, Bool.or_false,
    actionable_congr (holdAuthelia_of_ne (by decide)), actionable_congr (resolveDaemons_of_ne (by decide)),
    actionable_of_tied h ht, Probe.sourceStands]

theorem plan_actionable_services (h : p.Fresh) (ht : p.tied = true) :
    p.plan.actionable .services = p.components.offers .services := by
  rw [actionable_congr (plan_of_ne (by decide) (by decide) (by decide)), actionable_of_tied h ht]

theorem plan_actionable_admin (h : p.Fresh) (ht : p.tied = true) : p.plan.actionable .adminContainer = true := by
  rw [actionable_congr (plan_of_ne (by decide) (by decide) (by decide)), actionable_of_tied h ht,
    adminOffered_of_tied ht]

theorem plan_actionable_daemons (h : p.Fresh) (ht : p.tied = true) :
    p.plan.actionable .daemons = (p.components.offers .daemons && !p.sourceOpen) := by
  have hstate : ∀ c : Components, (c .all).any (fun e => e.state = .blocked || e.state = .unknown) =
      (c.standing .all).any (fun s => s.1 = .blocked || s.1 = .unknown) := by
    intro c
    unfold Components.standing
    cases c .all <;> rfl
  rw [Probe.plan, actionable_congr (requireContainers_of_ne (by decide)),
    actionable_congr (requireCandidate_of_ne (by decide)), actionable_congr (holdAuthelia_of_ne (by decide)),
    actionable_resolveDaemons, actionable_of_tied h ht, hstate, standing_of_tied ht, ← hstate, Probe.sourceOpen]

/-! A component that is not there stays away. -/

theorem modify_eq_none {f : PlanEntry → PlanEntry} {j : ComponentId} (h : c id = none) : c.modify j f id = none := by
  unfold Components.modify
  split <;> simp [h]

theorem require_eq_none {clause : List ComponentId} {j : ComponentId} (h : c id = none) :
    c.require j clause id = none := by
  rw [require_eq]
  exact modify_eq_none h

theorem requireEach_eq_none {clause ids : List ComponentId} (h : c id = none) :
    ids.foldl (fun c id => c.require id clause) c id = none := by
  induction ids generalizing c with
  | nil => exact h
  | cons j ids ih => exact ih (require_eq_none h)

theorem blockEach_eq_none {ids : List ComponentId} {reason : String} (h : c id = none) :
    ids.foldl (fun c id => c.block id reason) c id = none := by
  induction ids generalizing c with
  | nil => exact h
  | cons j ids ih => exact ih (modify_eq_none h)

theorem linkHost_eq_none {target : Option String} (h : c id = none) : linkHost c target id = none := by
  unfold linkHost
  dsimp only
  split
  · split
    · exact requireEach_eq_none h
    · split
      · exact modify_eq_none (blockEach_eq_none h)
      · exact blockEach_eq_none h
  · exact h

theorem link_eq_none {target : Option String} (h : c id = none) : linkWebApplication c target id = none := by
  unfold linkWebApplication
  dsimp only
  split
  · split
    · split
      · exact require_eq_none (linkHost_eq_none h)
      · split
        · exact linkHost_eq_none h
        · exact modify_eq_none (linkHost_eq_none h)
    · exact linkHost_eq_none h
  · split
    · exact require_eq_none (requireEach_eq_none h)
    · exact h

/-- No plan lists a changes-only update by itself. -/
theorem plan_changes (h : p.Fresh) : p.plan .changes = none := by
  rw [plan_of_ne (by decide) (by decide) (by decide)]
  exact link_eq_none h.changes

end Standing

/-! ## What is asked for -/

section Clauses

variable {p : Probe} {c : Components} {id : ComponentId} {e : PlanEntry} {clause selected : List ComponentId}

/-- Clauses come from the tie: the host's choices ask for the image, the image for one of them. -/
theorem link_clause (h : p.Fresh) (he : planSourceComponent (linkWebApplication p.components p.targetTree) id = some e)
    (hclause : clause ∈ componentRequirements e id) : p.tied = true ∧
      (clause = [.adminContainer] ∨ (clause = p.components.offer.hostChoices ∧ id = .adminContainer)) := by
  cases ht : p.tied with
  | false =>
    rw [free_link h.free ht id e he] at hclause
    cases hclause
  | true =>
    refine ⟨rfl, ?_⟩
    rw [link_of_tied ht] at he
    rcases mem_requirements_of_require he hclause with ⟨e₀, he₀, hold⟩ | hnew
    · rcases mem_requirements_of_requireEach he₀ hold with ⟨e₁, he₁, hold⟩ | hnew
      · rw [h.free id e₁ he₁] at hold
        cases hold
      · exact Or.inl hnew
    · exact Or.inr hnew

/-- Holding Authelia's images back changes none of their clauses. -/
theorem plan_authelia (he : p.plan .autheliaContainer = some e) :
    ∃ e₀, linkWebApplication p.components p.targetTree .autheliaContainer = some e₀ ∧ e₀.requires = e.requires := by
  rw [Probe.plan, requireContainers_of_ne (by decide), requireCandidate_of_ne (by decide)] at he
  have hdaemons : resolveDaemons p.github (linkWebApplication p.components p.targetTree) .autheliaContainer =
      linkWebApplication p.components p.targetTree .autheliaContainer := resolveDaemons_of_ne (by decide)
  rw [← hdaemons]
  unfold holdAuthelia at he
  split at he
  · rw [Components.modify, if_pos rfl] at he
    obtain ⟨e₀, he₀, rfl⟩ := Option.map_eq_some_iff.mp he
    exact ⟨e₀, he₀, rfl⟩
  · exact ⟨e, he, rfl⟩

theorem plan_clause (h : p.Fresh) (he : planSourceComponent p.plan id = some e) (hs : e.state = .available)
    (hclause : clause ∈ componentRequirements e id) : p.tied = true ∧
      (clause = [.adminContainer] ∨ (clause = p.components.offer.hostChoices ∧ id = .adminContainer)) := by
  by_cases hid : id = .autheliaContainer
  · subst hid
    obtain ⟨e₀, he₀, hreq⟩ := plan_authelia (p := p) he
    refine link_clause h (e := e₀) he₀ ?_
    rw [componentRequirements, if_neg (by decide)] at hclause ⊢
    rwa [hreq]
  · exact link_clause h (plan_onlyBlocks id e hid he hs) hclause

theorem changes_mem_hostChoices (ht : p.tied = true) (he : planSourceComponent p.plan .changes = some e)
    (hs : e.state = .available) : .changes ∈ p.components.offer.hostChoices := by
  have hlink := plan_onlyBlocks .changes e (by decide) he hs
  rw [link_of_tied ht] at hlink
  obtain ⟨e₀, he₀, hstate, -⟩ := (moreRequired_requireEach.trans moreRequired_require) .changes e hlink
  exact mem_hostChoices rfl he₀ (hstate.trans hs)

theorem mem_actionableIds : id ∈ c.actionableIds ↔ c.actionable id = true ∧ id ∉ autoInstallExcluded := by
  have hall : id ∈ sortedIds := by cases id <;> decide
  simp [Components.actionableIds, hall]

theorem satisfied_of_mem {id' : ComponentId} (hid : id' ∈ clause) (hsel : id' ∈ selected) :
    satisfied selected clause = true := satisfied_iff.mpr (Or.inr ⟨id', hid, Or.inl hsel⟩)

theorem validateSelection_of (h : ∀ id ∈ selected, ∃ e, planSourceComponent c id = some e ∧ e.state = .available ∧
    e.actionable = true ∧ ∀ clause ∈ componentRequirements e id, satisfied selected clause = true) :
    validateSelection c selected true = true := by
  simp only [validateSelection, Bool.true_and, List.all_eq_true]
  intro id hid
  obtain ⟨e, he, hs, ha, hclauses⟩ := h id hid
  simp only [he, Option.any_some, hs, ha, decide_true, Bool.true_and, List.all_eq_true]
  exact hclauses

theorem entry_of_actionable (h : p.Fresh) (hid : id ∈ p.plan.actionableIds) :
    ∃ e, planSourceComponent p.plan id = some e ∧ e.state = .available ∧ e.actionable = true := by
  obtain ⟨e, he, hok⟩ := (Option.any_eq_true _ _).mp (mem_actionableIds.mp hid).1
  simp only [Bool.and_eq_true, decide_eq_true_eq] at hok
  have hne : id ≠ .changes := by
    rintro rfl
    rw [plan_changes h] at he
    cases he
  refine ⟨e, ?_, hok.1, hok.2⟩
  rw [planSourceComponent, if_neg hne]
  exact he

/-- A stranded image is picked without what it asks for. -/
theorem refused_of_stranded (h : p.Fresh) (hs : p.Stranded) :
    autoInstallSelection p.plan ≠ [] ∧ validateSelection p.plan (autoInstallSelection p.plan) true = false := by
  have hall : ComponentId.all ∉ p.plan.actionableIds := by
    rw [mem_actionableIds, plan_actionable_all h hs.tied, hs.source]
    simp
  have hadmin : ComponentId.adminContainer ∈ p.plan.actionableIds :=
    mem_actionableIds.mpr ⟨plan_actionable_admin h hs.tied, by decide⟩
  rw [autoInstallSelection, if_neg hall]
  refine ⟨List.ne_nil_of_mem hadmin, ?_⟩
  by_contra hvalid
  rw [Bool.not_eq_false] at hvalid
  obtain ⟨e, he, -, -, hclauses⟩ := validateSelection_entry hvalid hadmin
  have hlink : linkWebApplication p.components p.targetTree .adminContainer = some e := by
    rw [← plan_of_ne (by decide) (by decide) (by decide)]
    exact he
  rw [link_of_tied hs.tied] at hlink
  have hchoices := hclauses _ (mem_requirements_require hlink)
  rcases satisfied_iff.mp hchoices with hempty | ⟨id, hid, hsel⟩
  · have ht := hs.tied
    simp only [Probe.tied, Bool.and_eq_true] at ht
    have hadd := ht.2
    split at hadd
    · simp only [Bool.and_eq_true] at hadd
      exact hostChoices_ne_nil hadd.1.1 hempty
    · simp [hempty] at hadd
  · have hin : id ∈ p.plan.actionableIds := by
      rcases hsel with hsel | ⟨-, hsel⟩
      · exact hsel
      · exact absurd hsel hall
    -- no host source is left to pick
    have hoff := (mem_actionableIds.mp hin).1
    have hsource := fromSource_of_mem_hostChoices hid
    cases id with
    | all => exact hall hin
    | changes => simp [Components.actionable, plan_changes h] at hoff
    | services => simp [plan_actionable_services h hs.tied, hs.services] at hoff
    | daemons =>
      rw [plan_actionable_daemons h hs.tied] at hoff
      rcases hs.daemons with hd | hd <;> simp [hd] at hoff
    | _ => cases hsource

/-- Otherwise all that is picked is there, and so is what it asks for. -/
theorem accepted_of_not_stranded (h : p.Fresh) (hs : ¬ p.Stranded) :
    validateSelection p.plan (autoInstallSelection p.plan) true = true := by
  apply validateSelection_of
  unfold autoInstallSelection
  split
  · rename_i hall
    split
    · rename_i hchanges
      obtain ⟨e, he⟩ := Option.isSome_iff_exists.mp hchanges
      have hentry : p.plan .all = some e := (Option.filter_eq_some_iff.mp he).1
      obtain ⟨e', he', hstate, haction⟩ := entry_of_actionable h hall
      obtain rfl : e' = e := Option.some.inj (he'.symm.trans hentry)
      have hcovered : ∀ {clause id}, p.tied = true → (clause = [.adminContainer] ∨
          (clause = p.components.offer.hostChoices ∧ id = ComponentId.adminContainer)) →
          satisfied (.changes :: [.autheliaContainer, .adminContainer].filter fun id => id ∈ p.plan.actionableIds)
            clause = true := by
        intro clause id ht hclause
        rcases hclause with rfl | ⟨rfl, -⟩
        · refine satisfied_of_mem (List.mem_singleton_self _) (List.mem_cons_of_mem _ (List.mem_filter.mpr ⟨by decide, ?_⟩))
          simpa using mem_actionableIds.mpr ⟨plan_actionable_admin h ht, by decide⟩
        · exact satisfied_of_mem (changes_mem_hostChoices ht he hstate) List.mem_cons_self
      intro id hid
      rcases List.mem_cons.mp hid with rfl | hid
      · refine ⟨e', he, hstate, haction, fun clause hclause => ?_⟩
        obtain ⟨ht, hkind⟩ := plan_clause h he hstate hclause
        exact hcovered ht hkind
      · obtain ⟨e, he, hs, ha⟩ := entry_of_actionable h (by simpa using (List.mem_filter.mp hid).2)
        refine ⟨e, he, hs, ha, fun clause hclause => ?_⟩
        obtain ⟨ht, hkind⟩ := plan_clause h he hs hclause
        exact hcovered ht hkind
    · intro id hid
      obtain rfl := List.mem_singleton.mp hid
      obtain ⟨e, he, hs, ha⟩ := entry_of_actionable h hall
      refine ⟨e, he, hs, ha, fun clause hclause => ?_⟩
      obtain ⟨-, hkind⟩ := plan_clause h he hs hclause
      rcases hkind with rfl | ⟨-, hadmin⟩
      · exact satisfied_iff.mpr (Or.inr ⟨_, List.mem_singleton_self _, Or.inr ⟨rfl, List.mem_singleton_self _⟩⟩)
      · cases hadmin
  · rename_i hall
    intro id hid
    obtain ⟨e, he, hstate, ha⟩ := entry_of_actionable h hid
    refine ⟨e, he, hstate, ha, fun clause hclause => ?_⟩
    obtain ⟨ht, hkind⟩ := plan_clause h he hstate hclause
    rcases hkind with rfl | ⟨rfl, -⟩
    · exact satisfied_of_mem (List.mem_singleton_self _)
        (mem_actionableIds.mpr ⟨plan_actionable_admin h ht, by decide⟩)
    · -- the source is held back, so the services or the daemons bring it
      have hsource : p.sourceStands = false := by
        rw [← plan_actionable_all h ht]
        by_contra hstands
        exact hall (mem_actionableIds.mpr ⟨by simpa using hstands, by decide⟩)
      by_cases hservices : p.components.offers .services = true
      · exact satisfied_of_mem (List.mem_append_right _ (mem_hostIds.mpr ⟨by decide, hservices⟩))
          (mem_actionableIds.mpr ⟨by rw [plan_actionable_services h ht, hservices], by decide⟩)
      · by_cases hdaemons : p.components.offers .daemons = true ∧ p.sourceOpen = false
        · exact satisfied_of_mem (List.mem_append_right _ (mem_hostIds.mpr ⟨by decide, hdaemons.1⟩))
            (mem_actionableIds.mpr ⟨by rw [plan_actionable_daemons h ht, hdaemons.1, hdaemons.2]; rfl, by decide⟩)
        · refine absurd ⟨ht, hsource, by simpa using hservices, ?_⟩ hs
          by_cases hopen : p.sourceOpen = true
          · exact Or.inr hopen
          · exact Or.inl (by simpa [hopen] using hdaemons)

end Clauses

/-- What the automatic installation picks is nothing or passes the checks of a selection, exactly when
the web application's image is not stranded. -/
theorem auto_selection_valid_iff {p : Probe} (h : p.Fresh) :
    (autoInstallSelection p.plan = [] ∨ validateSelection p.plan (autoInstallSelection p.plan) true = true) ↔
      ¬ p.Stranded := by
  constructor
  · intro hok hs
    obtain ⟨hne, hrefused⟩ := refused_of_stranded h hs
    rcases hok with hempty | hvalid
    · exact hne hempty
    · rw [hrefused] at hvalid
      cases hvalid
  · exact fun hs => Or.inr (accepted_of_not_stranded h hs)

/-- The newest source changes only the web application, and its image is published. -/
def webOnly (authelia : ComponentState) : Probe where
  components
    | .all => some { state := .available, scope := some { ready := true } }
    | .services => some { state := .current, actionable := false }
    | .daemons => some { state := .current, actionable := false }
    | .os => some { state := .current, actionable := false }
    | .autheliaContainer => some { state := authelia, actionable := decide (authelia = .available) }
    | .adminContainer => some { state := .available, images := [⟨some "old", some "new"⟩] }
    | _ => none
  candidateTree := some "new"
  installedTree := some "old"

theorem webOnly_fresh (authelia : ComponentState) : (webOnly authelia).Fresh := by
  refine ⟨fun id e he => ?_, fun id e he => ?_, fun id e s he hs => ?_, rfl⟩
  · cases id <;> cases he <;> rfl
  · cases id <;> cases he <;> rfl
  · cases id <;> cases he <;> cases hs
    rfl

/-- With Authelia's images known the changes come with the image. -/
theorem auto_selection_valid_webOnly : autoInstallSelection (webOnly .current).plan = [.changes, .adminContainer] ∧
    validateSelection (webOnly .current).plan [.changes, .adminContainer] true = true := by
  have hpick : autoInstallSelection (webOnly .current).plan = [.changes, .adminContainer] := by decide +kernel
  have hok := (auto_selection_valid_iff (webOnly_fresh .current)).mpr fun hs =>
    absurd hs.source (by decide +kernel)
  rw [hpick] at hok
  exact ⟨hpick, hok.resolve_left (by decide)⟩

/-- When Authelia's registry does not answer the source waits, and the image is picked without it. -/
theorem auto_selection_refused : ¬ ∀ p : Probe, p.Fresh →
    autoInstallSelection p.plan = [] ∨ validateSelection p.plan (autoInstallSelection p.plan) true = true := by
  intro h
  have hpick : autoInstallSelection (webOnly .unknown).plan = [.adminContainer] := by decide +kernel
  have hrefused : validateSelection (webOnly .unknown).plan [.adminContainer] true = false := by decide +kernel
  have hok := h (webOnly .unknown) (webOnly_fresh .unknown)
  rw [hpick, hrefused] at hok
  rcases hok with hok | hok <;> cases hok

end EasyHaProxy.Installer
