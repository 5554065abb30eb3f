import EasyHaProxy.Lib.Mapping

/-! The panel compares what the sources say with what the last applied state says, by the names of the
entries and by their fields, and shows whether an edit waits. -/
namespace EasyHaProxy.Panel.Diff

open EasyHaProxy.Mapping EasyHaProxy.Keyed

/-- The sites, the TCP proxies and the variables of the documents, or of a state. -/
structure Spec (κ α : Type) where
  sites : List α
  tcp : List α
  configVars : PyDict κ α

/-- A changed entry: its changed keys, each with the values before and after. -/
structure EntryDiff (κ α : Type) where
  name : String
  changes : List (κ × α × α)

/-- The summary as `get_config_diff_summary` returns it. -/
structure Summary (κ α : Type) where
  serverDiffers : Bool
  hasAppliedState : Bool
  sitesAdded : List String
  sitesRemoved : List String
  sitesChanged : List (EntryDiff κ α)
  tcpAdded : List String
  tcpRemoved : List String
  tcpChanged : List (String × List κ)
  globalChangedKeys : List κ

def Summary.sourceHasChanges {κ α : Type} (s : Summary κ α) : Bool :=
  !s.sitesAdded.isEmpty || !s.sitesRemoved.isEmpty || !s.sitesChanged.isEmpty || !s.tcpAdded.isEmpty ||
    !s.tcpRemoved.isEmpty || !s.tcpChanged.isEmpty || !s.globalChangedKeys.isEmpty

variable {κ α : Type} [DecidableEq κ] (py : Values κ α)

def listIn (v : Option α) : List α :=
  match v with
  | some v => (py.list? v).getD []
  | none => []

/-- `_spec_from_documents`. -/
def specFromDocuments (sites tcp configVars : PyDict κ α) : Spec κ α where
  sites := listIn py (sites.lookup (py.key "sites"))
  tcp := match tcp.lookup (py.key "tcp_proxies") with
    | some v => if py.isNone v then listIn py (tcp.lookup (py.key "tcp")) else listIn py (some v)
    | none => listIn py (tcp.lookup (py.key "tcp"))
  configVars := configVars

/-- A mapping with a name. -/
def named (item : α) : Option (String × PyDict κ α) :=
  match py.map? item with
  | none => none
  | some fields =>
    let name := py.get fields (py.key "name")
    if py.truthy name then some (py.str name, fields) else none

/-- `_list_to_dict_by_name`. -/
def listToDictByName (items : List α) : Finmap fun _ : String => PyDict κ α := collect (items.filterMap (named py))

/-- The body of the loop over the names of both sides; the sort of the keys may raise. -/
def entryDiff (name : String) (before after : PyDict κ α) : Option (Option (EntryDiff κ α)) :=
  if py.dictEq before after then some none
  else (py.sorted (py.changedKeys before after)).map fun keys =>
    if keys.isEmpty then none else some ⟨name, keys.map fun k => (k, py.get before k, py.get after k)⟩

def changedEntry (curr old : Finmap fun _ : String => PyDict κ α) (name : String) : Option (Option (EntryDiff κ α)) :=
  match old.lookup name, curr.lookup name with
  | some before, some after => entryDiff py name before after
  | _, _ => some none

def changedEntries (curr old : Finmap fun _ : String => PyDict κ α) : Option (List (EntryDiff κ α)) :=
  (((curr.keys ∩ old.keys).sort (· ≤ ·)).mapM (changedEntry py curr old)).map List.reduceOption

def globalChangedKeys (curr old : PyDict κ α) : Option (List κ) :=
  (py.sorted (curr.keys ∪ old.keys)).map fun keys => keys.filter fun k => !py.eq (py.get curr k) (py.get old k)

/-- `get_config_diff_summary`, or nothing where a sort raises. -/
def getConfigDiffSummary (serverDiffers : Bool) (applied : Option (Spec κ α)) (current : Spec κ α) :
    Option (Summary κ α) :=
  match applied with
  | none => some ⟨serverDiffers, false, [], [], [], [], [], [], []⟩
  | some applied => do
    let currSites := listToDictByName py current.sites
    let oldSites := listToDictByName py applied.sites
    let currTcp := listToDictByName py current.tcp
    let oldTcp := listToDictByName py applied.tcp
    let sitesChanged ← changedEntries py currSites oldSites
    let tcpChanged ← changedEntries py currTcp oldTcp
    let globalChangedKeys ← globalChangedKeys py current.configVars applied.configVars
    return {
      serverDiffers
      hasAppliedState := true
      sitesAdded := (currSites.keys \ oldSites.keys).sort (· ≤ ·)
      sitesRemoved := (oldSites.keys \ currSites.keys).sort (· ≤ ·)
      sitesChanged
      tcpAdded := (currTcp.keys \ oldTcp.keys).sort (· ≤ ·)
      tcpRemoved := (oldTcp.keys \ currTcp.keys).sort (· ≤ ·)
      tcpChanged := tcpChanged.map fun d => (d.name, d.changes.map (·.1))
      globalChangedKeys }

/-- What controld says of the transaction. -/
inductive TransactionState
  | none | prepared | pending | pendingConfirmation | rollingBack
  | confirmed | rolledBack | expired | failed | cancelled
  | rollbackFailed
  | other

/-- The state the panel shows. -/
inductive PublicState
  | pendingConfirmation | rollbackFailed | unapplied | runtimeDrift | clean | unknown
  deriving DecidableEq

def TransactionState.settled : TransactionState → Bool
  | .none | .confirmed | .rolledBack | .expired | .failed | .cancelled => true
  | _ => false

def publicState (transaction : TransactionState) (s : Summary κ α) : PublicState :=
  match transaction with
  | .prepared | .pending | .pendingConfirmation | .rollingBack => .pendingConfirmation
  | .rollbackFailed => .rollbackFailed
  | .other => .unknown
  | _ =>
    if s.sourceHasChanges then .unapplied
    else if s.serverDiffers then .runtimeDrift
    else if s.hasAppliedState then .clean
    else .unknown

/-- `get_haproxy_configuration_state`: without an applied state a first one may be written, and the summary is
taken again with what is there then. -/
def getHaproxyConfigurationState (serverDiffers : Bool) (transaction : TransactionState)
    (applied seeded : Option (Spec κ α)) (current : Spec κ α) : Option PublicState := do
  let summary ← getConfigDiffSummary py serverDiffers applied current
  let summary ← if !summary.hasAppliedState && !summary.serverDiffers && transaction.settled then
      getConfigDiffSummary py serverDiffers seeded current
    else some summary
  return publicState transaction summary

/-! ## What the comparison sees -/

def group (items : List α) (name : Option String) : List α :=
  items.filter fun item => (named py item).map (·.1) = name

/-- Nothing the comparison looks at differs. -/
structure NothingSeen (current applied : Spec κ α) : Prop where
  sites : ListAlike py (current.sites.filterMap (named py)) (applied.sites.filterMap (named py))
  tcp : ListAlike py (current.tcp.filterMap (named py)) (applied.tcp.filterMap (named py))
  vars : py.Alike current.configVars applied.configVars

/-- The same entries up to their order, and the same variables. -/
structure Same (current applied : Spec κ α) : Prop where
  sites : current.sites.Perm applied.sites
  tcp : current.tcp.Perm applied.tcp
  vars : current.configVars = applied.configVars

/-- The keys of two entries that differ can be sorted, as far as the names of both lists go. -/
def KeysSort (curr old : List α) : Prop :=
  ∀ name before after, (listToDictByName py old).lookup name = some before →
    (listToDictByName py curr).lookup name = some after → py.dictEq before after = false →
    (py.sorted (py.changedKeys before after)).isSome = true

structure Sortable (current applied : Spec κ α) : Prop where
  sites : KeysSort py current.sites applied.sites
  tcp : KeysSort py current.tcp applied.tcp
  vars : (py.sorted (current.configVars.keys ∪ applied.configVars.keys)).isSome = true

/-- A difference between two lists that show none. -/
inductive HiddenIn (curr old : List α) : Prop
  /-- Items without a name, or that are no mapping. -/
  | unnamed (differ : ¬ (group py curr none).Perm (group py old none))
  /-- Several entries under one name, of which the last alone is looked at. -/
  | repeated (name : String)
      (several : 1 < (group py curr (some name)).length ∨ 1 < (group py old (some name)).length)
      (differ : ¬ (group py curr (some name)).Perm (group py old (some name)))
  /-- One entry on each side, with a key that is null on one and absent on the other. -/
  | null (name : String) (item item' : α) (after : group py curr (some name) = [item])
      (before : group py old (some name) = [item']) (differ : item ≠ item')

inductive ShownIn (curr old : List α) : Prop
  /-- Several entries under one name, of which another one is the last. -/
  | repeated (name : String) (several : 1 < (group py curr (some name)).length)
      (differ : ¬ EntryAlike py ((listToDictByName py old).lookup name) ((listToDictByName py curr).lookup name))
  /-- A value that is not equal to itself. -/
  | unequal (name : String) (item : α) (fields : PyDict κ α) (only : group py curr (some name) = [item])
      (mapping : py.map? item = some fields) (differ : ¬ py.Alike fields fields)

/-- The documents differ, and only where the comparison does not look. -/
structure OnlyHidden (current applied : Spec κ α) : Prop where
  unseen : NothingSeen py current applied
  differs : HiddenIn py current.sites applied.sites ∨ HiddenIn py current.tcp applied.tcp ∨
    current.configVars ≠ applied.configVars

/-- The documents are the same up to order, and show a difference. -/
structure OnlyReordered (current applied : Spec κ α) : Prop where
  same : Same current applied
  seen : ShownIn py current.sites applied.sites ∨ ShownIn py current.tcp applied.tcp ∨
    ¬ py.Alike current.configVars applied.configVars

section Seen

variable {py} {curr old : List α} {name : String} {before after : PyDict κ α} {current applied : Spec κ α}

theorem entryDiff_isSome : (entryDiff py name before after).isSome = true ↔
    (py.dictEq before after = false → (py.sorted (py.changedKeys before after)).isSome = true) := by
  unfold entryDiff
  cases h : py.dictEq before after <;> simp

/-- Nothing is noted for an entry just when it shows no difference. -/
theorem entryDiff_eq_some_none {d : Option (EntryDiff κ α)} (h : entryDiff py name before after = some d) :
    d = none ↔ py.Alike before after := by
  unfold entryDiff at h
  split at h
  · rename_i heq
    obtain rfl := Option.some.inj h
    simp [Values.Alike, Values.changedKeys_of_dictEq heq]
  · obtain ⟨keys, hkeys, hd⟩ := Option.map_eq_some_iff.mp h
    have hnil := Values.sorted_eq_nil hkeys
    unfold Values.Alike
    rw [← hnil, ← hd]
    cases keys <;> simp

section Changed

variable {currBy oldBy : Finmap fun _ : String => PyDict κ α} {out : List (EntryDiff κ α)}

omit [DecidableEq κ] in
theorem mem_common : name ∈ (currBy.keys ∩ oldBy.keys).sort (· ≤ ·) ↔
    ∃ before after, oldBy.lookup name = some before ∧ currBy.lookup name = some after := by
  rw [Finset.mem_sort, Finset.mem_inter, Finmap.mem_keys, Finmap.mem_keys, ← Finmap.lookup_isSome,
    ← Finmap.lookup_isSome, Option.isSome_iff_exists, Option.isSome_iff_exists]
  constructor
  · rintro ⟨⟨after, hafter⟩, before, hbefore⟩
    exact ⟨before, after, hbefore, hafter⟩
  · rintro ⟨before, after, hbefore, hafter⟩
    exact ⟨⟨after, hafter⟩, before, hbefore⟩

theorem changedEntry_both (hold : oldBy.lookup name = some before) (hcurr : currBy.lookup name = some after) :
    changedEntry py currBy oldBy name = entryDiff py name before after := by
  simp [changedEntry, hold, hcurr]

theorem changedEntries_isSome : (changedEntries py currBy oldBy).isSome = true ↔
    ∀ name before after, oldBy.lookup name = some before → currBy.lookup name = some after →
      py.dictEq before after = false → (py.sorted (py.changedKeys before after)).isSome = true := by
  rw [changedEntries, Option.isSome_map, mapM_isSome]
  constructor
  · intro h name before after hbefore hafter
    have hsome := h name (mem_common.mpr ⟨before, after, hbefore, hafter⟩)
    rwa [changedEntry_both hbefore hafter, entryDiff_isSome] at hsome
  · intro h name hname
    obtain ⟨before, after, hbefore, hafter⟩ := mem_common.mp hname
    rw [changedEntry_both hbefore hafter, entryDiff_isSome]
    exact h name before after hbefore hafter

theorem changedEntries_isSome_at (h : changedEntries py currBy oldBy = some out)
    (hold : oldBy.lookup name = some before) (hcurr : currBy.lookup name = some after) :
    (entryDiff py name before after).isSome = true := by
  have hsome : (changedEntries py currBy oldBy).isSome = true := by
    rw [h]
    rfl
  exact entryDiff_isSome.mpr (changedEntries_isSome.mp hsome name before after hold hcurr)

/-- No entry is noted just when none of the names on both sides shows a difference. -/
theorem changedEntries_eq_nil (h : changedEntries py currBy oldBy = some out) : out = [] ↔
    ∀ name before after, oldBy.lookup name = some before → currBy.lookup name = some after →
      py.Alike before after := by
  rw [reduceOption_mapM_eq_nil h]
  constructor
  · intro hall name before after hbefore hafter
    have hnone := hall name (mem_common.mpr ⟨before, after, hbefore, hafter⟩)
    rw [changedEntry_both hbefore hafter] at hnone
    exact (entryDiff_eq_some_none hnone).mp rfl
  · intro halike name hname
    obtain ⟨before, after, hbefore, hafter⟩ := mem_common.mp hname
    rw [changedEntry_both hbefore hafter]
    obtain ⟨d, hd⟩ := Option.isSome_iff_exists.mp (changedEntries_isSome_at h hbefore hafter)
    rw [hd, (entryDiff_eq_some_none hd).mpr (halike name before after hbefore hafter)]

end Changed

/-! ## The variables and the summary -/

theorem globalChangedKeys_isSome {curr old : PyDict κ α} : (globalChangedKeys py curr old).isSome = true ↔
    (py.sorted (curr.keys ∪ old.keys)).isSome = true := by
  simp [globalChangedKeys]

theorem globalChangedKeys_eq_nil {curr old : PyDict κ α} {keys : List κ}
    (h : globalChangedKeys py curr old = some keys) : keys = [] ↔ py.Alike curr old := by
  obtain ⟨all, hall, rfl⟩ := Option.map_eq_some_iff.mp h
  rw [List.filter_eq_nil_iff, Values.alike_iff]
  constructor
  · intro hno k hk
    have hmem : k ∈ all := (py.mem_sorted _ _ hall k).mpr (Finset.mem_union.mpr hk)
    simpa using hno k hmem
  · intro halike k hk
    have heq := halike k (Finset.mem_union.mp ((py.mem_sorted _ _ hall k).mp hk))
    simp [heq]

/-- The summary is there just when every sort it makes goes through. -/
theorem getConfigDiffSummary_isSome {serverDiffers : Bool} :
    (getConfigDiffSummary py serverDiffers (some applied) current).isSome = true ↔ Sortable py current applied := by
  have hsites : KeysSort py current.sites applied.sites ↔ _ := changedEntries_isSome.symm
  have htcp : KeysSort py current.tcp applied.tcp ↔ _ := changedEntries_isSome.symm
  constructor
  · intro h
    obtain ⟨s, hs⟩ := Option.isSome_iff_exists.mp h
    obtain ⟨_, hsitesAt, hs⟩ := Option.bind_eq_some_iff.mp hs
    obtain ⟨_, htcpAt, hs⟩ := Option.bind_eq_some_iff.mp hs
    obtain ⟨_, hvarsAt, -⟩ := Option.bind_eq_some_iff.mp hs
    exact ⟨hsites.mpr (by rw [hsitesAt]; rfl), htcp.mpr (by rw [htcpAt]; rfl),
      globalChangedKeys_isSome.mp (by rw [hvarsAt]; rfl)⟩
  · intro h
    obtain ⟨_, hsitesAt⟩ := Option.isSome_iff_exists.mp (hsites.mp h.sites)
    obtain ⟨_, htcpAt⟩ := Option.isSome_iff_exists.mp (htcp.mp h.tcp)
    obtain ⟨_, hvarsAt⟩ := Option.isSome_iff_exists.mp (globalChangedKeys_isSome.mpr h.vars)
    simp [getConfigDiffSummary, hsitesAt, htcpAt, hvarsAt]

/-- No change is reported just when nothing the comparison looks at differs. -/
theorem sourceHasChanges_eq_false {serverDiffers : Bool} {s : Summary κ α}
    (h : getConfigDiffSummary py serverDiffers (some applied) current = some s) :
    s.sourceHasChanges = false ↔ NothingSeen py current applied := by
  obtain ⟨sites, hsites, h⟩ := Option.bind_eq_some_iff.mp h
  obtain ⟨tcp, htcp, h⟩ := Option.bind_eq_some_iff.mp h
  obtain ⟨vars, hvars, h⟩ := Option.bind_eq_some_iff.mp h
  obtain rfl := Option.some.inj h
  have hsort (t : Finset String) : t.sort (· ≤ ·) = [] ↔ t = ∅ := by
    rw [← List.length_eq_zero_iff, Finset.length_sort, Finset.card_eq_zero]
  have hseen : NothingSeen py current applied ↔
      ListAlike py (current.sites.filterMap (named py)) (applied.sites.filterMap (named py)) ∧
      ListAlike py (current.tcp.filterMap (named py)) (applied.tcp.filterMap (named py)) ∧
      py.Alike current.configVars applied.configVars :=
    ⟨fun hs => ⟨hs.sites, hs.tcp, hs.vars⟩, fun hs => ⟨hs.1, hs.2.1, hs.2.2⟩⟩
  rw [hseen, listAlike_iff, listAlike_iff, ← globalChangedKeys_eq_nil hvars]
  have hsitesNil := changedEntries_eq_nil hsites
  have htcpNil := changedEntries_eq_nil htcp
  unfold listToDictByName at hsitesNil htcpNil
  rw [← hsitesNil, ← htcpNil]
  simp [Summary.sourceHasChanges, hsort, listToDictByName, and_assoc]

/-! ## The items by their names -/

variable (py) in
theorem group_perm_iff : curr.Perm old ↔ ∀ name, (group py curr name).Perm (group py old name) :=
  perm_iff_groups fun item => (named py item).map (·.1)

theorem under_named : under name (curr.filterMap (named py)) =
    (group py curr (some name)).filterMap fun item => (named py item).map (·.2) := under_filterMap (named py) curr

theorem named_of_mem_group {item : α} (h : item ∈ group py curr (some name)) :
    ∃ fields, named py item = some (name, fields) := by
  simpa [group, Option.map_eq_some_iff] using (List.mem_filter.mp h).2

/-- A name has an entry just when an item has the name. -/
theorem lookup_eq_none : (listToDictByName py curr).lookup name = none ↔ group py curr (some name) = [] := by
  rw [listToDictByName, lookup_collect, List.getLast?_eq_none_iff, under_named, List.filterMap_eq_nil_iff]
  constructor
  · intro h
    rw [List.eq_nil_iff_forall_not_mem]
    intro item hitem
    obtain ⟨fields, hfields⟩ := named_of_mem_group hitem
    simpa [hfields] using h item hitem
  · intro h
    simp [h]

theorem lookup_of_only {item : α} (h : group py curr (some name) = [item]) :
    ∃ fields, py.map? item = some fields ∧ (listToDictByName py curr).lookup name = some fields := by
  obtain ⟨fields, hfields⟩ := named_of_mem_group (h ▸ List.mem_singleton_self item)
  refine ⟨fields, ?_, ?_⟩
  · unfold named at hfields
    cases hmap : py.map? item with
    | none => simp [hmap] at hfields
    | some m =>
      simp only [hmap, Option.ite_none_right_eq_some, Option.some.injEq, Prod.mk.injEq] at hfields
      rw [hfields.2.2]
  · rw [listToDictByName, lookup_collect, under_named, h]
    simp [hfields]

/-- Two lists that show no difference differ just in the ways that stay hidden. -/
theorem not_perm_iff_hiddenIn (h : ListAlike py (curr.filterMap (named py)) (old.filterMap (named py))) :
    ¬ curr.Perm old ↔ HiddenIn py curr old := by
  rw [group_perm_iff py, not_forall]
  constructor
  · rintro ⟨name, hname⟩
    cases name with
    | none => exact .unnamed hname
    | some name =>
      by_cases hseveral : 1 < (group py curr (some name)).length ∨ 1 < (group py old (some name)).length
      · exact .repeated name hseveral hname
      · have hboth : group py old (some name) = [] ↔ group py curr (some name) = [] := by
          rw [← lookup_eq_none, ← lookup_eq_none]
          exact (h name).both
        rw [not_or] at hseveral
        cases hcurr : group py curr (some name) with
        | nil =>
          rw [hcurr, hboth.mpr hcurr] at hname
          exact absurd (List.Perm.refl _) hname
        | cons item rest =>
          cases hold : group py old (some name) with
          | nil => simp [hboth.mp hold] at hcurr
          | cons item' rest' =>
            obtain rfl : rest = [] := by simpa [hcurr] using hseveral.1
            obtain rfl : rest' = [] := by simpa [hold] using hseveral.2
            rw [hcurr, hold, List.singleton_perm_singleton] at hname
            exact .null name item item' hcurr hold hname
  · rintro (hname | ⟨name, -, hname⟩ | ⟨name, item, item', hafter, hbefore, hne⟩)
    · exact ⟨none, hname⟩
    · exact ⟨some name, hname⟩
    · refine ⟨some name, fun hperm => hne ?_⟩
      rw [hafter, hbefore, List.singleton_perm_singleton] at hperm
      exact hperm

/-- Two lists of the same items show a difference just in these ways. -/
theorem not_listAlike_iff_shownIn (h : curr.Perm old) :
    ¬ ListAlike py (curr.filterMap (named py)) (old.filterMap (named py)) ↔ ShownIn py curr old := by
  constructor
  · intro hnot
    obtain ⟨name, hname⟩ := not_forall.mp hnot
    have hperm := (group_perm_iff py).mp h (some name)
    by_cases hseveral : 1 < (group py curr (some name)).length
    · exact .repeated name hseveral hname
    · cases hcurr : group py curr (some name) with
      | nil =>
        rw [hcurr] at hperm
        have hbefore := lookup_eq_none.mpr hperm.nil_eq.symm
        have hafter := lookup_eq_none.mpr hcurr
        refine absurd ?_ hname
        change EntryAlike py ((listToDictByName py old).lookup name) ((listToDictByName py curr).lookup name)
        rw [hbefore, hafter]
        trivial
      | cons item rest =>
        obtain rfl : rest = [] := by simpa [hcurr] using hseveral
        rw [hcurr] at hperm
        obtain ⟨fields, hmap, hafter⟩ := lookup_of_only hcurr
        obtain ⟨fields', hmap', hbefore⟩ := lookup_of_only (List.singleton_perm.mp hperm).symm
        obtain rfl : fields = fields' := Option.some.inj (hmap.symm.trans hmap')
        refine .unequal name item fields hcurr hmap fun halike => hname ?_
        change EntryAlike py ((listToDictByName py old).lookup name) ((listToDictByName py curr).lookup name)
        rw [hbefore, hafter]
        exact halike
  · rintro (⟨name, -, hname⟩ | ⟨name, item, fields, honly, hmap, hne⟩) halike
    · exact hname (halike name)
    · obtain ⟨_, hmap', hafter⟩ := lookup_of_only honly
      have hperm := (group_perm_iff py).mp h (some name)
      rw [honly] at hperm
      obtain ⟨_, hmap'', hbefore⟩ := lookup_of_only (List.singleton_perm.mp hperm).symm
      obtain rfl := Option.some.inj (hmap.symm.trans hmap')
      obtain rfl := Option.some.inj (hmap.symm.trans hmap'')
      have hentry := halike name
      change EntryAlike py ((listToDictByName py old).lookup name) ((listToDictByName py curr).lookup name) at hentry
      rw [hbefore, hafter] at hentry
      exact hne hentry

/-- What the comparison sees is what is there, but for what stays hidden and what only a new order shows. -/
theorem nothingSeen_iff_same : (NothingSeen py current applied ↔ Same current applied) ↔
    ¬ OnlyHidden py current applied ∧ ¬ OnlyReordered py current applied := by
  constructor
  · intro h
    refine ⟨fun hidden => ?_, fun shown => ?_⟩
    · have same := h.mp hidden.unseen
      rcases hidden.differs with hsites | htcp | hvars
      · exact (not_perm_iff_hiddenIn hidden.unseen.sites).mpr hsites same.sites
      · exact (not_perm_iff_hiddenIn hidden.unseen.tcp).mpr htcp same.tcp
      · exact hvars same.vars
    · have seen := h.mpr shown.same
      rcases shown.seen with hsites | htcp | hvars
      · exact (not_listAlike_iff_shownIn shown.same.sites).mpr hsites seen.sites
      · exact (not_listAlike_iff_shownIn shown.same.tcp).mpr htcp seen.tcp
      · exact hvars seen.vars
  · rintro ⟨hhidden, hshown⟩
    constructor
    · intro seen
      refine ⟨?_, ?_, ?_⟩
      · by_contra hne
        exact hhidden ⟨seen, .inl ((not_perm_iff_hiddenIn seen.sites).mp hne)⟩
      · by_contra hne
        exact hhidden ⟨seen, .inr (.inl ((not_perm_iff_hiddenIn seen.tcp).mp hne))⟩
      · by_contra hne
        exact hhidden ⟨seen, .inr (.inr hne)⟩
    · intro same
      refine ⟨?_, ?_, ?_⟩
      · by_contra hne
        exact hshown ⟨same, .inl ((not_listAlike_iff_shownIn same.sites).mp hne)⟩
      · by_contra hne
        exact hshown ⟨same, .inr (.inl ((not_listAlike_iff_shownIn same.tcp).mp hne))⟩
      · by_contra hne
        exact hshown ⟨same, .inr (.inr hne)⟩

end Seen

/-- An edit is visible: a change is reported just when the documents are not those of the applied state, and
the panel is never clean over an edit. -/
structure Visible (current applied : Spec κ α) : Prop where
  reported : ∀ serverDiffers, ∃ s, getConfigDiffSummary py serverDiffers (some applied) current = some s ∧
    (s.sourceHasChanges = false ↔ Same current applied)
  clean : ∀ serverDiffers transaction seeded,
    getHaproxyConfigurationState py serverDiffers transaction (some applied) seeded current = some .clean →
    Same current applied

variable {py} in
theorem clean_of_state {serverDiffers : Bool} {transaction : TransactionState} {seeded : Option (Spec κ α)}
    {current applied : Spec κ α}
    (h : getHaproxyConfigurationState py serverDiffers transaction (some applied) seeded current = some .clean) :
    ∃ s, getConfigDiffSummary py serverDiffers (some applied) current = some s ∧ s.sourceHasChanges = false := by
  obtain ⟨s, hs, h⟩ := Option.bind_eq_some_iff.mp h
  have happlied : s.hasAppliedState = true := by
    obtain ⟨_, -, hs⟩ := Option.bind_eq_some_iff.mp hs
    obtain ⟨_, -, hs⟩ := Option.bind_eq_some_iff.mp hs
    obtain ⟨_, -, hs⟩ := Option.bind_eq_some_iff.mp hs
    obtain rfl := Option.some.inj hs
    rfl
  refine ⟨s, hs, ?_⟩
  simp only [happlied, Bool.not_true, Bool.false_and] at h
  have hstate : publicState transaction s = .clean := Option.some.inj h
  unfold publicState at hstate
  by_contra hchanges
  rw [Bool.not_eq_false] at hchanges
  rw [hchanges] at hstate
  cases transaction <;> simp at hstate

variable {py} in
theorem visible_iff {current applied : Spec κ α} : Visible py current applied ↔
    Sortable py current applied ∧ ¬ OnlyHidden py current applied ∧ ¬ OnlyReordered py current applied := by
  rw [← nothingSeen_iff_same]
  constructor
  · intro visible
    obtain ⟨s, hs, hiff⟩ := visible.reported false
    refine ⟨getConfigDiffSummary_isSome.mp (by rw [hs]; rfl), ?_⟩
    rw [← sourceHasChanges_eq_false hs, hiff]
  · rintro ⟨hsort, hiff⟩
    refine ⟨fun serverDiffers => ?_, fun serverDiffers transaction seeded hclean => ?_⟩
    · have hsome : (getConfigDiffSummary py serverDiffers (some applied) current).isSome = true :=
        getConfigDiffSummary_isSome.mpr hsort
      obtain ⟨s, hs⟩ := Option.isSome_iff_exists.mp hsome
      exact ⟨s, hs, (sourceHasChanges_eq_false hs).trans hiff⟩
    · obtain ⟨s, hs, hno⟩ := clean_of_state hclean
      exact hiff.mp ((sourceHasChanges_eq_false hs).mp hno)

/-- For any documents and any applied state an edit is visible, unless a sort of keys raises, the documents
differ only where the comparison does not look, or a new order alone shows a difference. -/
theorem edit_visible_iff (sites tcp configVars : PyDict κ α) (applied : Spec κ α) :
    Visible py (specFromDocuments py sites tcp configVars) applied ↔
      Sortable py (specFromDocuments py sites tcp configVars) applied ∧
      ¬ OnlyHidden py (specFromDocuments py sites tcp configVars) applied ∧
      ¬ OnlyReordered py (specFromDocuments py sites tcp configVars) applied :=
  visible_iff

/-! ## Plain documents -/

/-- Values that `==` tells apart, null among them. -/
structure Told (plain : α → Prop) : Prop where
  null : plain py.null
  eq : ∀ a b, plain a → plain b → (py.eq a b = true ↔ a = b)

/-- Every key has a plain value that is not null. -/
def PlainFields (plain : α → Prop) (fields : PyDict κ α) : Prop :=
  ∀ k v, fields.lookup k = some v → plain v ∧ v ≠ py.null

structure PlainList (plain : α → Prop) (items : List α) : Prop where
  entries : ∀ item ∈ items, ∃ name fields, named py item = some (name, fields) ∧ PlainFields py plain fields
  once : (items.map fun item => (named py item).map (·.1)).Nodup

structure PlainSpec (plain : α → Prop) (s : Spec κ α) : Prop where
  sites : PlainList py plain s.sites
  tcp : PlainList py plain s.tcp
  vars : PlainFields py plain s.configVars

section Plain

variable {py} {plain : α → Prop} {curr old : List α} {name : String} {fields fields' : PyDict κ α}

theorem plain_get (hpy : Told py plain) (h : PlainFields py plain fields) (k : κ) : plain (py.get fields k) := by
  unfold Values.get
  cases hlookup : fields.lookup k with
  | none => exact hpy.null
  | some v => exact (h k v hlookup).1

/-- Of plain fields the comparison sees everything. -/
theorem alike_iff_eq (hpy : Told py plain) (h : PlainFields py plain fields) (h' : PlainFields py plain fields') :
    py.Alike fields fields' ↔ fields = fields' := by
  rw [Values.alike_iff]
  constructor
  · intro halike
    refine Finmap.ext_lookup fun k => ?_
    have hget (hk : k ∈ fields.keys ∨ k ∈ fields'.keys) : py.get fields k = py.get fields' k :=
      (hpy.eq _ _ (plain_get hpy h k) (plain_get hpy h' k)).mp (halike k hk)
    cases hl : fields.lookup k with
    | none =>
      cases hl' : fields'.lookup k with
      | none => rfl
      | some v =>
        have hsame := hget (Or.inr (Finmap.mem_keys.mpr (Finmap.lookup_isSome.mp (by rw [hl']; rfl))))
        rw [Values.get, Values.get, hl, hl'] at hsame
        exact absurd hsame.symm (h' k v hl').2
    | some v =>
      have hsame := hget (Or.inl (Finmap.mem_keys.mpr (Finmap.lookup_isSome.mp (by rw [hl]; rfl))))
      cases hl' : fields'.lookup k with
      | none =>
        rw [Values.get, Values.get, hl, hl'] at hsame
        exact absurd hsame (h k v hl).2
      | some v' =>
        rw [Values.get, Values.get, hl, hl'] at hsame
        exact congrArg some hsame
  · rintro rfl k -
    exact (hpy.eq _ _ (plain_get hpy h k) (plain_get hpy h k)).mpr rfl

variable (name) in
theorem PlainList.length_group_le (h : PlainList py plain curr) : (group py curr (some name)).length ≤ 1 := by
  have hcount := List.nodup_iff_count_le_one.mp h.once (some name)
  rw [List.count, List.countP_map, List.countP_eq_length_filter] at hcount
  have hgroup : group py curr (some name) =
      curr.filter ((fun n => n == some name) ∘ fun item => (named py item).map (·.1)) :=
    List.filter_congr fun item _ => by
      rw [Bool.eq_iff_iff]
      simp
  rwa [hgroup]

theorem PlainList.group_none (h : PlainList py plain curr) : group py curr none = [] := by
  refine List.filter_eq_nil_iff.mpr fun item hitem => ?_
  obtain ⟨name, fields, hnamed, -⟩ := h.entries item hitem
  simp [hnamed]

theorem PlainList.plainFields (h : PlainList py plain curr) {item : α} (hitem : item ∈ curr)
    (hfields : py.map? item = some fields) : PlainFields py plain fields := by
  obtain ⟨name, fields', hnamed, hplain⟩ := h.entries item hitem
  unfold named at hnamed
  simp only [hfields, Option.ite_none_right_eq_some, Option.some.injEq, Prod.mk.injEq] at hnamed
  rwa [hnamed.2.2]

theorem mem_of_group {item : α} (h : group py curr (some name) = [item]) : item ∈ curr :=
  List.mem_of_mem_filter (h ▸ List.mem_singleton_self item)

theorem PlainList.not_hiddenIn (hpy : Told py plain) (hcurr : PlainList py plain curr) (hold : PlainList py plain old)
    (hform : ∀ item ∈ curr, ∀ item' ∈ old, py.map? item = py.map? item' → item = item')
    (h : ListAlike py (curr.filterMap (named py)) (old.filterMap (named py))) : ¬ HiddenIn py curr old := by
  rintro (hdiffer | ⟨name, hseveral, -⟩ | ⟨name, item, item', hafter, hbefore, hdiffer⟩)
  · rw [hcurr.group_none, hold.group_none] at hdiffer
    exact hdiffer (List.Perm.refl _)
  · have := hcurr.length_group_le name
    have := hold.length_group_le name
    omega
  · obtain ⟨fields, hmap, hfields⟩ := lookup_of_only hafter
    obtain ⟨fields', hmap', hfields'⟩ := lookup_of_only hbefore
    have hentry : EntryAlike py ((listToDictByName py old).lookup name) ((listToDictByName py curr).lookup name) :=
      h name
    rw [hfields, hfields'] at hentry
    have hsame : fields' = fields := (alike_iff_eq hpy (hold.plainFields (mem_of_group hbefore) hmap')
      (hcurr.plainFields (mem_of_group hafter) hmap)).mp hentry
    exact hdiffer (hform item (mem_of_group hafter) item' (mem_of_group hbefore) (by rw [hmap, hmap', hsame]))

theorem PlainList.not_shownIn (hpy : Told py plain) (hcurr : PlainList py plain curr) : ¬ ShownIn py curr old := by
  rintro (⟨name, hseveral, -⟩ | ⟨name, item, fields, honly, hmap, hdiffer⟩)
  · have := hcurr.length_group_le name
    omega
  · have hplain := hcurr.plainFields (mem_of_group honly) hmap
    exact hdiffer ((alike_iff_eq hpy hplain hplain).mpr rfl)

/-- Where every entry has a name of its own and nothing is null, every edit is visible. -/
theorem visible_of_plain {current applied : Spec κ α} (hpy : Told py plain) (hcurr : PlainSpec py plain current)
    (hold : PlainSpec py plain applied) (hsort : Sortable py current applied)
    (hform : ∀ item ∈ current.sites ++ current.tcp, ∀ item' ∈ applied.sites ++ applied.tcp,
      py.map? item = py.map? item' → item = item') : Visible py current applied := by
  refine visible_iff.mpr ⟨hsort, fun hidden => ?_, fun shown => ?_⟩
  · rcases hidden.differs with hsites | htcp | hvars
    · exact hcurr.sites.not_hiddenIn hpy hold.sites (fun item hitem item' hitem' =>
        hform item (List.mem_append_left _ hitem) item' (List.mem_append_left _ hitem')) hidden.unseen.sites hsites
    · exact hcurr.tcp.not_hiddenIn hpy hold.tcp (fun item hitem item' hitem' =>
        hform item (List.mem_append_right _ hitem) item' (List.mem_append_right _ hitem')) hidden.unseen.tcp htcp
    · exact hvars ((alike_iff_eq hpy hcurr.vars hold.vars).mp hidden.unseen.vars)
  · rcases shown.seen with hsites | htcp | hvars
    · exact hcurr.sites.not_shownIn hpy hsites
    · exact hcurr.tcp.not_shownIn hpy htcp
    · exact hvars ((alike_iff_eq hpy hcurr.vars hold.vars).mpr shown.same.vars)

theorem told_texts (str : Yaml.Value → String) :
    Told (Yaml.values str) fun v => v = .null ∨ ∃ s, v = .str s where
  null := Or.inl rfl
  eq := by
    rintro _ _ (rfl | ⟨s, rfl⟩) (rfl | ⟨t, rfl⟩) <;> simp [Yaml.values, Yaml.Value.equal]

end Plain

/-- A variable set to null, with nothing else in the documents and nothing applied. -/
theorem null_variable_hidden : ¬ Visible (Yaml.values fun _ => "")
    (specFromDocuments (Yaml.values fun _ => "") ∅ ∅ (collect [("admin_ips_enabled", Yaml.Value.null)])) ⟨[], [], ∅⟩ := by
  intro visible
  obtain ⟨s, hs, hiff⟩ := visible.reported false
  have hnone (n : String) : EntryAlike (Yaml.values fun _ => "")
      ((collect ([] : List (String × PyDict String Yaml.Value))).lookup n) ((collect []).lookup n) := by
    rw [show (collect ([] : List (String × PyDict String Yaml.Value))).lookup n = none from lookup_collect]
    trivial
  have hvars : (Yaml.values fun _ => "").Alike (collect [("admin_ips_enabled", Yaml.Value.null)]) ∅ := by
    rw [Values.alike_iff]
    rintro k (hk | hk)
    · obtain rfl : k = "admin_ips_enabled" := by
        simpa [collect, Finmap.mem_keys, Finmap.mem_insert, Finmap.notMem_empty] using hk
      rfl
    · simp at hk
  have same := hiff.mp ((sourceHasChanges_eq_false hs).mpr ⟨hnone, hnone, hvars⟩)
  have hlookup := congrArg (fun d => Finmap.lookup "admin_ips_enabled" d) same.vars
  simp [collect, specFromDocuments] at hlookup

end EasyHaProxy.Panel.Diff
