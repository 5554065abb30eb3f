import EasyHaProxy.Panel.ConfigDiff
import Mathlib.Data.List.Sort

/-! The history compares two sets of sources by what their files mean, entry by entry, and says whether they
are identical. -/
namespace EasyHaProxy.Panel.Compare

open EasyHaProxy.Mapping EasyHaProxy.Keyed
open EasyHaProxy.Panel.Diff (Spec Same)

/-- What is outside: Python's view of the values, and `yaml.safe_load` with nothing for a `YAMLError`. -/
structure Outside (κ α : Type) where
  py : Values κ α
  null_not_list : py.list? py.null = none
  parse : String → Option α

/-- A set of sources: the texts of its files. -/
abbrev Sources := PyDict String String

def Sources.text (s : Sources) (file : String) : String := (s.lookup file).getD ""

def configSourceOrder : List String := ["vars.yml", "websites.yml", "tcp.yml"]

inductive FieldChange (κ : Type)
  | added (key : κ) (after : String)
  | removed (key : κ)
  | changed (key : κ) (before after : String)

inductive Kind
  | site | tcp | variable

inductive Nature (κ : Type)
  | added
  | removed
  | modified (fields : List (FieldChange κ))

structure Change (κ : Type) where
  kind : Kind
  name : String
  change : Nature κ

structure Comparison (κ : Type) where
  changes : List (Change κ)
  identical : Bool
  filesChanged : List String

variable {κ α : Type} [DecidableEq κ] (out : Outside κ α)

/-- `_load`. -/
def load (text : String) : PyDict κ α :=
  match out.parse text with
  | some data => (out.py.map? data).getD ∅
  | none => ∅

/-- The list under the first of the keys that has one. -/
def itemsOf (data : PyDict κ α) : List String → List α
  | [] => []
  | key :: keys =>
    match out.py.list? (out.py.get data (out.py.key key)) with
    | some items => items
    | none => itemsOf data keys

def label (item : PyDict κ α) : Option String :=
  ((["name", "domain", "id"].map fun key => out.py.get item (out.py.key key)).find? out.py.truthy).map out.py.str

def entry (e : α × Nat) : Option (String × PyDict κ α) :=
  (out.py.map? e.1).map fun fields => ((label out fields).getD (toString e.2), fields)

def entries (items : List α) : List (String × PyDict κ α) := items.zipIdx.filterMap (entry out)

/-- `_short`. -/
def short (v : α) : String :=
  let text := (out.py.str v).toList
  if text.length ≤ 60 then out.py.str v else String.ofList (text.take 59 ++ ['…'])

def fieldChange (before after : PyDict κ α) (key : κ) : Option (FieldChange κ) :=
  let old := out.py.get before key
  let new := out.py.get after key
  if out.py.eq old new then none
  else if key ∉ before then some (.added key (short out new))
  else if key ∉ after then some (.removed key)
  else some (.changed key (short out old) (short out new))

/-- `_field_changes`; the sort of the keys may raise. -/
def fieldChanges (before after : PyDict κ α) : Option (List (FieldChange κ)) :=
  (out.py.sorted (before.keys ∪ after.keys)).map (List.filterMap (fieldChange out before after))

/-- The body of the loop over the names of both sides. -/
def compareEntry (kind : Kind) (before after : Finmap fun _ : String => PyDict κ α) (name : String) :
    Option (Option (Change κ)) :=
  match before.lookup name, after.lookup name with
  | none, _ => some (some ⟨kind, name, .added⟩)
  | _, none => some (some ⟨kind, name, .removed⟩)
  | some old, some new => (fieldChanges out old new).map fun fields =>
    if fields.isEmpty then none else some ⟨kind, name, .modified fields⟩

/-- `_compare_collection` of the items of both sides. -/
def compareCollection (kind : Kind) (before after : List α) : Option (List (Change κ)) :=
  let before := collect (entries out before)
  let after := collect (entries out after)
  (((before.keys ∪ after.keys).sort (· ≤ ·)).mapM (compareEntry out kind before after)).map List.reduceOption

/-- `_compare_mapping`. -/
def compareMapping (before after : PyDict κ α) : Option (List (Change κ)) :=
  (fieldChanges out before after).map fun changes =>
    if changes.isEmpty then [] else [⟨.variable, "", .modified changes⟩]

/-- What a set of sources means to the comparison. -/
def documents (s : Sources) : Spec κ α where
  sites := itemsOf out (load out (s.text "websites.yml")) ["sites"]
  tcp := itemsOf out (load out (s.text "tcp.yml")) ["tcp_proxies", "tcp"]
  configVars := load out (s.text "vars.yml")

/-- `compare`, or nothing where a sort of keys raises. -/
def compare (before after : Sources) : Option (Comparison κ) := do
  let sites ← compareCollection out .site (documents out before).sites (documents out after).sites
  let tcp ← compareCollection out .tcp (documents out before).tcp (documents out after).tcp
  let vars ← compareMapping out (documents out before).configVars (documents out after).configVars
  let changes := sites ++ tcp ++ vars
  return {
    changes
    identical := changes.isEmpty
    filesChanged := (configSourceOrder.filter fun name => before.text name ≠ after.text name).insertionSort (· ≤ ·) }

/-! ## What the comparison sees -/

/-- The items of a list by what they are known by: not at all, by their position, or by a text of their own. -/
inductive KnownBy
  | nothing
  | position
  | text (name : String)
  deriving DecidableEq

def knownBy (item : α) : KnownBy :=
  match out.py.map? item with
  | none => .nothing
  | some fields =>
    match label out fields with
    | none => .position
    | some name => .text name

def group (items : List α) (known : KnownBy) : List α := items.filter (knownBy out · = known)

/-- Nothing the comparison looks at differs. -/
structure NothingSeen (before after : Spec κ α) : Prop where
  sites : ListAlike out.py (entries out after.sites) (entries out before.sites)
  tcp : ListAlike out.py (entries out after.tcp) (entries out before.tcp)
  vars : out.py.Alike before.configVars after.configVars

/-- The keys of two entries can be sorted, as far as the names of both lists go. -/
def KeysSort (before after : List α) : Prop :=
  ∀ name old new, (collect (entries out before)).lookup name = some old →
    (collect (entries out after)).lookup name = some new → (out.py.sorted (old.keys ∪ new.keys)).isSome = true

structure Sortable (before after : Spec κ α) : Prop where
  sites : KeysSort out before.sites after.sites
  tcp : KeysSort out before.tcp after.tcp
  vars : (out.py.sorted (before.configVars.keys ∪ after.configVars.keys)).isSome = true

/-- An entry stands at the position the name says, and is known by nothing else. -/
def Placed (items : List α) (name : String) : Prop :=
  ∃ (i : Nat) (item : α), name = toString i ∧ items[i]? = some item ∧ knownBy out item = .position

def Several (items : List α) (name : String) : Prop := 1 < (under name (entries out items)).length

/-- A difference between two lists that show none. -/
inductive HiddenIn (before after : List α) : Prop
  /-- Items that are no mapping. -/
  | skipped (differ : ¬ (group out before .nothing).Perm (group out after .nothing))
  /-- Entries known by their position alone. -/
  | placed (differ : ¬ (group out before .position).Perm (group out after .position))
  /-- Several entries under one name. -/
  | repeated (name : String) (several : Several out before name ∨ Several out after name)
      (differ : ¬ (group out before (.text name)).Perm (group out after (.text name)))
  /-- One entry on each side, with a key that is null on one and absent on the other. -/
  | null (name : String) (item item' : α) (before : group out before (.text name) = [item])
      (after : group out after (.text name) = [item']) (differ : item ≠ item')
  /-- One entry on each side, known by its name here and by its position there. -/
  | crossed (name : String)
      (differ : group out before (.text name) ≠ [] ∧ group out after (.text name) = [] ∧ Placed out after name ∨
        group out before (.text name) = [] ∧ Placed out before name ∧ group out after (.text name) ≠ [])

def Differ (before after : List α) (name : String) : Prop :=
  ¬ EntryAlike out.py ((collect (entries out before)).lookup name) ((collect (entries out after)).lookup name)

/-- A difference that two lists of the same items show. -/
inductive ShownIn (before after : List α) : Prop
  /-- Several entries under one name, of which another one is the last. -/
  | repeated (name : String) (several : Several out before name ∨ Several out after name)
      (differ : Differ out before after name)
  /-- An entry known by its position, with another one or none at the position on the other side. -/
  | moved (i : Nat) (item : α) (here : before[i]? = some item ∨ after[i]? = some item)
      (nameless : knownBy out item = .position) (other : before[i]? ≠ after[i]?)
      (differ : Differ out before after (toString i))
  /-- A value that is not equal to itself. -/
  | unequal (name : String) (fields : PyDict κ α) (before : under name (entries out before) = [fields])
      (after : under name (entries out after) = [fields]) (differ : ¬ out.py.Alike fields fields)

/-- The documents differ, and only where the comparison does not look. -/
structure OnlyHidden (before after : Spec κ α) : Prop where
  unseen : NothingSeen out before after
  differs : HiddenIn out before.sites after.sites ∨ HiddenIn out before.tcp after.tcp ∨
    before.configVars ≠ after.configVars

/-- The documents are the same up to order, and show a difference. -/
structure OnlyReordered (before after : Spec κ α) : Prop where
  same : Same before after
  seen : ShownIn out before.sites after.sites ∨ ShownIn out before.tcp after.tcp ∨
    ¬ out.py.Alike before.configVars after.configVars

section Seen

variable {out} {before after : PyDict κ α} {items others : List α} {old new : Spec κ α}

theorem fieldChange_eq_none {key : κ} : fieldChange out before after key = none ↔
    out.py.eq (out.py.get before key) (out.py.get after key) = true := by
  unfold fieldChange
  by_cases heq : out.py.eq (out.py.get before key) (out.py.get after key) = true
  · simp [heq]
  · dsimp only
    rw [if_neg heq, iff_false_right heq]
    split_ifs <;> simp

theorem fieldChanges_isSome : (fieldChanges out before after).isSome = true ↔
    (out.py.sorted (before.keys ∪ after.keys)).isSome = true := by
  simp [fieldChanges]

theorem fieldChanges_eq_nil {fields : List (FieldChange κ)} (h : fieldChanges out before after = some fields) :
    fields = [] ↔ out.py.Alike before after := by
  obtain ⟨keys, hkeys, rfl⟩ := Option.map_eq_some_iff.mp h
  rw [List.filterMap_eq_nil_iff, Values.alike_iff]
  have hmem (k : κ) : k ∈ keys ↔ k ∈ before.keys ∨ k ∈ after.keys := by
    rw [out.py.mem_sorted _ _ hkeys, Finset.mem_union]
  simp only [fieldChange_eq_none, hmem]

section Names

variable {kind : Kind} {name : String} {beforeBy afterBy : Finmap fun _ : String => PyDict κ α}

theorem compareEntry_both {a b : PyDict κ α} (hbefore : beforeBy.lookup name = some a)
    (hafter : afterBy.lookup name = some b) : compareEntry out kind beforeBy afterBy name =
      (fieldChanges out a b).map fun fields =>
        if fields.isEmpty then none else some ⟨kind, name, .modified fields⟩ := by
  simp [compareEntry, hbefore, hafter]

theorem compareEntry_isSome : (compareEntry out kind beforeBy afterBy name).isSome = true ↔
    ∀ a b, beforeBy.lookup name = some a → afterBy.lookup name = some b →
      (out.py.sorted (a.keys ∪ b.keys)).isSome = true := by
  cases hbefore : beforeBy.lookup name with
  | none => simp [compareEntry, hbefore]
  | some a =>
    cases hafter : afterBy.lookup name with
    | none => simp [compareEntry, hbefore, hafter]
    | some b => simp [compareEntry_both hbefore hafter, fieldChanges_isSome]

/-- Nothing is noted for a name of either side just when its entries show no difference. -/
theorem compareEntry_eq_none (hname : name ∈ beforeBy.keys ∪ afterBy.keys)
    (hsome : (compareEntry out kind beforeBy afterBy name).isSome = true) :
    compareEntry out kind beforeBy afterBy name = some none ↔
      EntryAlike out.py (beforeBy.lookup name) (afterBy.lookup name) := by
  rw [Finset.mem_union, Finmap.mem_keys, Finmap.mem_keys, ← Finmap.lookup_isSome, ← Finmap.lookup_isSome] at hname
  cases hbefore : beforeBy.lookup name with
  | none =>
    cases hafter : afterBy.lookup name with
    | none => simp [hbefore, hafter] at hname
    | some b => simp [compareEntry, hbefore, EntryAlike]
  | some a =>
    cases hafter : afterBy.lookup name with
    | none => simp [compareEntry, hbefore, hafter, EntryAlike]
    | some b =>
      rw [compareEntry_both hbefore hafter] at hsome ⊢
      obtain ⟨fields, hfields⟩ := Option.isSome_iff_exists.mp (Option.isSome_map ▸ hsome)
      rw [hfields, EntryAlike, ← fieldChanges_eq_nil hfields]
      cases fields <;> simp

end Names

theorem compareCollection_isSome {kind : Kind} :
    (compareCollection out kind items others).isSome = true ↔ KeysSort out items others := by
  rw [compareCollection, Option.isSome_map, mapM_isSome]
  constructor
  · intro h name a b hbefore hafter
    have hname : name ∈ ((collect (entries out items)).keys ∪ (collect (entries out others)).keys).sort (· ≤ ·) := by
      rw [Finset.mem_sort, Finset.mem_union, Finmap.mem_keys, ← Finmap.lookup_isSome, hbefore]
      exact .inl rfl
    exact compareEntry_isSome.mp (h name hname) a b hbefore hafter
  · intro h name _
    exact compareEntry_isSome.mpr (h name)

/-- No entry is reported just when the last entries of each name show no difference. -/
theorem compareCollection_eq_nil {kind : Kind} {changes : List (Change κ)}
    (h : compareCollection out kind items others = some changes) :
    changes = [] ↔ ListAlike out.py (entries out others) (entries out items) := by
  have hsort : KeysSort out items others := compareCollection_isSome.mp (by rw [h]; rfl)
  rw [reduceOption_mapM_eq_nil h]
  simp only [Finset.mem_sort]
  constructor
  · intro hall name
    by_cases hname : name ∈ (collect (entries out items)).keys ∪ (collect (entries out others)).keys
    · exact (compareEntry_eq_none hname (compareEntry_isSome.mpr (hsort name))).mp (hall name hname)
    · rw [Finset.mem_union, Finmap.mem_keys, Finmap.mem_keys, ← Finmap.lookup_isSome, ← Finmap.lookup_isSome,
        not_or, Bool.not_eq_true, Bool.not_eq_true, Option.isSome_eq_false_iff, Option.isSome_eq_false_iff,
        Option.isNone_iff_eq_none, Option.isNone_iff_eq_none] at hname
      rw [hname.1, hname.2]
      trivial
  · intro halike name hname
    exact (compareEntry_eq_none hname (compareEntry_isSome.mpr (hsort name))).mpr (halike name)

theorem compareMapping_eq_nil {changes : List (Change κ)} (h : compareMapping out before after = some changes) :
    changes = [] ↔ out.py.Alike before after := by
  obtain ⟨fields, hfields, rfl⟩ := Option.map_eq_some_iff.mp h
  rw [← fieldChanges_eq_nil hfields]
  cases fields <;> simp

/-! ## The comparison -/

variable {left right : Sources}

/-- The comparison is there just when every sort it makes goes through. -/
theorem compare_isSome : (compare out left right).isSome = true ↔
    Sortable out (documents out left) (documents out right) := by
  constructor
  · intro h
    obtain ⟨c, hc⟩ := Option.isSome_iff_exists.mp h
    obtain ⟨_, hsites, hc⟩ := Option.bind_eq_some_iff.mp hc
    obtain ⟨_, htcp, hc⟩ := Option.bind_eq_some_iff.mp hc
    obtain ⟨_, hvars, -⟩ := Option.bind_eq_some_iff.mp hc
    obtain ⟨_, hfields, -⟩ := Option.map_eq_some_iff.mp hvars
    exact ⟨compareCollection_isSome.mp (by rw [hsites]; rfl), compareCollection_isSome.mp (by rw [htcp]; rfl),
      fieldChanges_isSome.mp (by rw [hfields]; rfl)⟩
  · intro h
    have hsome {items others : List α} (kind : Kind) (hsort : KeysSort out items others) :
        ∃ changes, compareCollection out kind items others = some changes :=
      Option.isSome_iff_exists.mp (compareCollection_isSome.mpr hsort)
    obtain ⟨_, hsites⟩ := hsome .site h.sites
    obtain ⟨_, htcp⟩ := hsome .tcp h.tcp
    obtain ⟨_, hvars⟩ := Option.isSome_iff_exists.mp (fieldChanges_isSome.mpr h.vars)
    simp [compare, compareMapping, hsites, htcp, hvars]

/-- The two sides are called identical just when nothing the comparison looks at differs. -/
theorem identical_iff {c : Comparison κ} (h : compare out left right = some c) :
    c.identical = true ↔ NothingSeen out (documents out left) (documents out right) := by
  obtain ⟨sites, hsites, h⟩ := Option.bind_eq_some_iff.mp h
  obtain ⟨tcp, htcp, h⟩ := Option.bind_eq_some_iff.mp h
  obtain ⟨vars, hvars, h⟩ := Option.bind_eq_some_iff.mp h
  obtain rfl := Option.some.inj h
  have hnil : (sites ++ tcp ++ vars).isEmpty = true ↔ sites = [] ∧ tcp = [] ∧ vars = [] := by
    simp
  rw [hnil, compareCollection_eq_nil hsites, compareCollection_eq_nil htcp, compareMapping_eq_nil hvars]
  exact ⟨fun hs => ⟨hs.1, hs.2.1, hs.2.2⟩, fun hs => ⟨hs.sites, hs.tcp, hs.vars⟩⟩

/-! ## The entries by what they are known by -/

/-- The name an item at a position is under. -/
def KnownBy.name : KnownBy → Nat → Option String
  | .nothing, _ => none
  | .position, i => some (toString i)
  | .text name, _ => some name

variable {name : String}

theorem entry_name (item : α) (i : Nat) : (entry out (item, i)).map (·.1) = (knownBy out item).name i := by
  unfold entry knownBy
  cases out.py.map? item with
  | none => rfl
  | some fields => cases hlabel : label out fields <;> simp [KnownBy.name, hlabel]

theorem entry_fields (item : α) (i : Nat) : (entry out (item, i)).map (·.2) = out.py.map? item := by
  simp [entry, Option.map_map, Function.comp_def]

theorem under_entries (items : List α) : under name (entries out items) =
    (items.zipIdx.filter fun e => (knownBy out e.1).name e.2 = some name).filterMap fun e => out.py.map? e.1 := by
  rw [entries, under_filterMap]
  have hfields : (fun e : α × Nat => (entry out e).map (·.2)) = fun e => out.py.map? e.1 :=
    funext fun e => entry_fields e.1 e.2
  have hname (e : α × Nat) : (entry out e).map (·.1) = (knownBy out e.1).name e.2 := entry_name e.1 e.2
  simp only [hfields, hname]

theorem group_eq_zipIdx (known : KnownBy) :
    group out items known = (items.zipIdx.filter fun e => knownBy out e.1 = known).map (·.1) := by
  rw [group, ← List.zipIdx_map_fst 0 items, List.filter_map, List.zipIdx_map_fst]
  rfl

theorem map_isSome_of_name {item : α} {i : Nat} (h : (knownBy out item).name i = some name) :
    (out.py.map? item).isSome = true := by
  cases hmap : out.py.map? item with
  | none => simp [knownBy, hmap, KnownBy.name] at h
  | some fields => rfl

variable (out items name) in
theorem length_group_le : (group out items (.text name)).length ≤ (under name (entries out items)).length := by
  rw [under_entries, List.filterMap_length_eq_length.mpr, group_eq_zipIdx, List.length_map]
  · refine List.Sublist.length_le (List.monotone_filter_right _ fun e he => ?_)
    rw [decide_eq_true_eq] at he ⊢
    rw [he]
    rfl
  · intro e he
    exact map_isSome_of_name (by simpa using (List.mem_filter.mp he).2)

theorem under_of_not_placed (h : ¬ Placed out items name) :
    under name (entries out items) = (group out items (.text name)).filterMap out.py.map? := by
  rw [under_entries, group_eq_zipIdx, List.filterMap_map]
  refine congrArg (List.filterMap _) (List.filter_congr fun e he => decide_eq_decide.mpr ?_)
  constructor
  · intro hname
    cases hknown : knownBy out e.1 with
    | nothing => simp [hknown, KnownBy.name] at hname
    | position =>
      rw [hknown] at hname
      exact absurd ⟨e.2, e.1, (Option.some.inj hname).symm, List.mem_zipIdx_iff_getElem?.mp he, hknown⟩ h
    | text other =>
      rw [hknown] at hname
      rw [Option.some.inj hname]
  · intro hknown
    rw [hknown]
    rfl

theorem placed_of_under (hgroup : group out items (.text name) = []) (hunder : under name (entries out items) ≠ []) :
    Placed out items name := by
  by_contra h
  rw [under_of_not_placed h, hgroup] at hunder
  exact hunder rfl

theorem mem_under_of_placed {i : Nat} {item : α} (hat : items[i]? = some item) (hknown : knownBy out item = .position) :
    ∃ fields, out.py.map? item = some fields ∧ fields ∈ under (toString i) (entries out items) := by
  have hname : (knownBy out item).name i = some (toString i) := by
    rw [hknown]
    rfl
  obtain ⟨fields, hfields⟩ := Option.isSome_iff_exists.mp (map_isSome_of_name hname)
  refine ⟨fields, hfields, ?_⟩
  rw [under_entries, List.mem_filterMap]
  exact ⟨(item, i), List.mem_filter.mpr ⟨List.mem_zipIdx_iff_getElem?.mpr hat, by simpa using hname⟩, hfields⟩

theorem under_eq_nil_iff (h : ListAlike out.py (entries out others) (entries out items)) :
    under name (entries out items) = [] ↔ under name (entries out others) = [] := by
  have hboth := (h name).both
  rwa [lookup_collect, lookup_collect, List.getLast?_eq_none_iff, List.getLast?_eq_none_iff] at hboth

/-- Two lists that show no difference differ just in the ways that stay hidden. -/
theorem not_perm_iff_hiddenIn (h : ListAlike out.py (entries out others) (entries out items)) :
    ¬ items.Perm others ↔ HiddenIn out items others := by
  rw [perm_iff_groups (knownBy out), not_forall]
  constructor
  · rintro ⟨known, hknown⟩
    cases known with
    | nothing => exact .skipped hknown
    | position => exact .placed hknown
    | text name =>
      by_cases hseveral : Several out items name ∨ Several out others name
      · exact .repeated name hseveral hknown
      · rw [not_or] at hseveral
        have hitems := length_group_le out items name
        have hothers := length_group_le out others name
        unfold Several at hseveral
        change ¬ (group out items (.text name)).Perm (group out others (.text name)) at hknown
        cases hbefore : group out items (.text name) with
        | nil =>
          cases hafter : group out others (.text name) with
          | nil => simp [hbefore, hafter] at hknown
          | cons item' rest' =>
            have hunder : under name (entries out others) ≠ [] := by
              rw [← List.length_pos_iff]
              rw [hafter, List.length_cons] at hothers
              omega
            have hplaced := placed_of_under hbefore (mt (under_eq_nil_iff h).mp hunder)
            exact .crossed name (.inr ⟨hbefore, hplaced, by rw [hafter]; exact List.cons_ne_nil _ _⟩)
        | cons item rest =>
          obtain rfl : rest = [] := List.eq_nil_of_length_eq_zero (by rw [hbefore, List.length_cons] at hitems; omega)
          cases hafter : group out others (.text name) with
          | nil =>
            have hunder : under name (entries out items) ≠ [] := by
              rw [← List.length_pos_iff]
              rw [hbefore, List.length_cons] at hitems
              omega
            have hplaced := placed_of_under hafter (mt (under_eq_nil_iff h).mpr hunder)
            exact .crossed name (.inl ⟨by rw [hbefore]; exact List.cons_ne_nil _ _, hafter, hplaced⟩)
          | cons item' rest' =>
            obtain rfl : rest' = [] := List.eq_nil_of_length_eq_zero (by rw [hafter, List.length_cons] at hothers; omega)
            rw [hbefore, hafter, List.singleton_perm_singleton] at hknown
            exact .null name item item' hbefore hafter hknown
  · rintro (hknown | hknown | ⟨name, -, hknown⟩ | ⟨name, item, item', hbefore, hafter, hne⟩ | ⟨name, hcross⟩)
    · exact ⟨_, hknown⟩
    · exact ⟨_, hknown⟩
    · exact ⟨_, hknown⟩
    · refine ⟨.text name, fun hperm => hne ?_⟩
      change (group out items (.text name)).Perm (group out others (.text name)) at hperm
      rwa [hbefore, hafter, List.singleton_perm_singleton] at hperm
    · refine ⟨.text name, fun hperm => ?_⟩
      change (group out items (.text name)).Perm (group out others (.text name)) at hperm
      rcases hcross with ⟨hbefore, hafter, -⟩ | ⟨hbefore, -, hafter⟩
      · rw [hafter, List.perm_nil] at hperm
        exact hbefore hperm
      · rw [hbefore, List.nil_perm] at hperm
        exact hafter hperm

/-- Two lists of the same items show a difference just in these ways. -/
theorem not_listAlike_iff_shownIn (h : items.Perm others) :
    ¬ ListAlike out.py (entries out others) (entries out items) ↔ ShownIn out items others := by
  constructor
  · intro hnot
    obtain ⟨name, hname⟩ := not_forall.mp hnot
    by_cases hseveral : Several out items name ∨ Several out others name
    · exact .repeated name hseveral hname
    rw [not_or] at hseveral
    by_cases hplaced : Placed out items name ∨ Placed out others name
    · obtain ⟨i, item, hi, hhere, hknown⟩ : ∃ i item, name = toString i ∧
          (items[i]? = some item ∨ others[i]? = some item) ∧ knownBy out item = .position := by
        rcases hplaced with ⟨i, item, hi, hat, hknown⟩ | ⟨i, item, hi, hat, hknown⟩
        · exact ⟨i, item, hi, .inl hat, hknown⟩
        · exact ⟨i, item, hi, .inr hat, hknown⟩
      subst hi
      by_cases hsame : items[i]? = others[i]?
      · -- The same entry is alone under the position on both sides.
        have hitems : items[i]? = some item := hhere.elim id fun hat => hsame.trans hat
        obtain ⟨fields, hfields, hmem⟩ := mem_under_of_placed hitems hknown
        obtain ⟨fields', hfields', hmem'⟩ := mem_under_of_placed (hsame ▸ hitems) hknown
        obtain rfl := Option.some.inj (hfields.symm.trans hfields')
        have honly := eq_singleton_of_mem hmem (not_lt.mp hseveral.1)
        have honly' := eq_singleton_of_mem hmem' (not_lt.mp hseveral.2)
        refine .unequal (toString i) fields honly honly' fun halike => hname ?_
        rw [lookup_collect, lookup_collect, honly, honly']
        exact halike
      · exact .moved i item hhere hknown hsame hname
    · rw [not_or] at hplaced
      have hperm : (under name (entries out items)).Perm (under name (entries out others)) := by
        rw [under_of_not_placed hplaced.1, under_of_not_placed hplaced.2]
        exact ((perm_iff_groups (knownBy out)).mp h (.text name)).filterMap _
      have hlength : (under name (entries out items)).length ≤ 1 := not_lt.mp hseveral.1
      cases hunder : under name (entries out items) with
      | nil =>
        rw [hunder, List.nil_perm] at hperm
        refine absurd ?_ hname
        rw [lookup_collect, lookup_collect, hunder, hperm]
        trivial
      | cons fields rest =>
        obtain rfl : rest = [] := by simpa [hunder] using hlength
        rw [hunder] at hperm
        have hother := (List.singleton_perm.mp hperm).symm
        refine .unequal name fields hunder hother fun halike => hname ?_
        rw [lookup_collect, lookup_collect, hunder, hother]
        exact halike
  · rintro (⟨name, -, hname⟩ | ⟨i, -, -, -, -, hname⟩ | ⟨name, fields, hbefore, hafter, hne⟩) halike
    · exact hname (halike name)
    · exact hname (halike (toString i))
    · have hentry := halike name
      rw [lookup_collect, lookup_collect, hbefore, hafter] at hentry
      exact hne hentry

/-- What the comparison sees is what is there, but for what stays hidden and what only a new order shows. -/
theorem nothingSeen_iff_same : (NothingSeen out old new ↔ Same old new) ↔
    ¬ OnlyHidden out old new ∧ ¬ OnlyReordered out old new := by
  constructor
  · intro h
    refine ⟨fun hidden => ?_, fun shown => ?_⟩
    · have same := h.mp hidden.unseen
      rcases hidden.differs with hsites | htcp | hvars
      · exact (not_perm_iff_hiddenIn hidden.unseen.sites).mpr hsites same.sites
      · exact (not_perm_iff_hiddenIn hidden.unseen.tcp).mpr htcp same.tcp
      · exact hvars same.vars
    · have seen := h.mpr shown.same
      rcases shown.seen with hsites | htcp | hvars
      · exact (not_listAlike_iff_shownIn shown.same.sites).mpr hsites seen.sites
      · exact (not_listAlike_iff_shownIn shown.same.tcp).mpr htcp seen.tcp
      · exact hvars seen.vars
  · rintro ⟨hhidden, hshown⟩
    constructor
    · intro seen
      refine ⟨?_, ?_, ?_⟩
      · by_contra hne
        exact hhidden ⟨seen, .inl ((not_perm_iff_hiddenIn seen.sites).mp hne)⟩
      · by_contra hne
        exact hhidden ⟨seen, .inr (.inl ((not_perm_iff_hiddenIn seen.tcp).mp hne))⟩
      · by_contra hne
        exact hhidden ⟨seen, .inr (.inr hne)⟩
    · intro same
      refine ⟨?_, ?_, ?_⟩
      · by_contra hne
        exact hshown ⟨same, .inl ((not_listAlike_iff_shownIn same.sites).mp hne)⟩
      · by_contra hne
        exact hshown ⟨same, .inr (.inl ((not_listAlike_iff_shownIn same.tcp).mp hne))⟩
      · by_contra hne
        exact hshown ⟨same, .inr (.inr hne)⟩

end Seen

/-! ## Identical means the same -/

/-- Every file of both sides is a mapping, or empty. -/
def Readable (left right : Sources) : Prop :=
  ∀ file ∈ configSourceOrder, ∀ s ∈ [left, right], ∃ data, out.parse (s.text file) = some data ∧
    ((out.py.map? data).isSome = true ∨ out.py.isNone data = true)

def Broken (left right : Sources) : Prop :=
  ∃ file ∈ configSourceOrder, (out.parse (left.text file) = none ∨ out.parse (right.text file) = none) ∧
    left.text file ≠ right.text file

/-- Two sets of mappings are called identical just when they are the same, and of two sets with a file that
does not parse its text is the same. -/
structure Honest (left right : Sources) : Prop where
  readable : Readable out left right → ∃ c, compare out left right = some c ∧
    (c.identical = true ↔ Same (documents out left) (documents out right))
  broken : ∀ c, compare out left right = some c → c.identical = true → ¬ Broken out left right

/-- Nothing the comparison looks at differs in a file. -/
def Quiet (left right : Sources) (file : String) : Prop :=
  if file = "websites.yml" then
    ListAlike out.py (entries out (documents out right).sites) (entries out (documents out left).sites)
  else if file = "tcp.yml" then
    ListAlike out.py (entries out (documents out right).tcp) (entries out (documents out left).tcp)
  else out.py.Alike (documents out left).configVars (documents out right).configVars

/-- A text with nothing to show: no entries, or no variables but those that are null. -/
def Blank (null : α → Bool) (file text : String) : Prop :=
  if file = "websites.yml" then entries out (itemsOf out (load out text) ["sites"]) = []
  else if file = "tcp.yml" then entries out (itemsOf out (load out text) ["tcp_proxies", "tcp"]) = []
  else ∀ key ∈ (load out text).keys, null (out.py.get (load out text) key) = true

inductive HiddenBy (left right : Sources) (file : String) : Prop
  | left (unparsed : out.parse (left.text file) = none)
      (blank : Blank out (fun v => out.py.eq out.py.null v) file (right.text file)) : HiddenBy left right file
  | right (unparsed : out.parse (right.text file) = none)
      (blank : Blank out (fun v => out.py.eq v out.py.null) file (left.text file)) : HiddenBy left right file

/-- A file that does not parse, with nothing to see in its other text and in the other files. -/
structure OnlyBroken (left right : Sources) : Prop where
  sortable : Sortable out (documents out left) (documents out right)
  hidden : ∃ file ∈ configSourceOrder, left.text file ≠ right.text file ∧ HiddenBy out left right file ∧
    ∀ other ∈ configSourceOrder, other ≠ file → Quiet out left right other

section Broken

variable {out} {left right : Sources} {file text : String}

omit [DecidableEq κ] in
theorem load_of_unparsed (h : out.parse text = none) : load out text = ∅ := by
  rw [load, h]

theorem itemsOf_empty (keys : List String) : itemsOf out ∅ keys = [] := by
  induction keys with
  | nil => rfl
  | cons key keys ih => simp [itemsOf, Values.get, out.null_not_list, ih]

theorem get_empty (key : κ) : out.py.get ∅ key = out.py.null := by
  simp [Values.get]

theorem quiet_iff_of_unparsed_left (h : out.parse (left.text file) = none) (hfile : file ∈ configSourceOrder) :
    Quiet out left right file ↔ Blank out (fun v => out.py.eq out.py.null v) file (right.text file) := by
  have hload := load_of_unparsed h
  simp only [configSourceOrder, List.mem_cons, List.not_mem_nil, or_false] at hfile
  rcases hfile with rfl | rfl | rfl
  · simp [Quiet, Blank, documents, hload, Values.alike_iff, get_empty]
  · simp [Quiet, Blank, documents, hload, itemsOf_empty, entries, listAlike_nil_right]
  · simp [Quiet, Blank, documents, hload, itemsOf_empty, entries, listAlike_nil_right]

theorem quiet_iff_of_unparsed_right (h : out.parse (right.text file) = none) (hfile : file ∈ configSourceOrder) :
    Quiet out left right file ↔ Blank out (fun v => out.py.eq v out.py.null) file (left.text file) := by
  have hload := load_of_unparsed h
  simp only [configSourceOrder, List.mem_cons, List.not_mem_nil, or_false] at hfile
  rcases hfile with rfl | rfl | rfl
  · simp [Quiet, Blank, documents, hload, Values.alike_iff, get_empty]
  · simp [Quiet, Blank, documents, hload, itemsOf_empty, entries, listAlike_nil_left]
  · simp [Quiet, Blank, documents, hload, itemsOf_empty, entries, listAlike_nil_left]

theorem nothingSeen_iff_quiet : NothingSeen out (documents out left) (documents out right) ↔
    ∀ file ∈ configSourceOrder, Quiet out left right file := by
  simp only [configSourceOrder, List.forall_mem_cons, List.not_mem_nil, false_imp_iff, forall_const, and_true]
  constructor
  · exact fun h => ⟨h.vars, h.sites, h.tcp⟩
  · exact fun ⟨vars, sites, tcp⟩ => ⟨sites, tcp, vars⟩

/-- A text that differs and does not parse stays unseen just in this way. -/
theorem onlyBroken_iff : OnlyBroken out left right ↔ Broken out left right ∧
    Sortable out (documents out left) (documents out right) ∧
    NothingSeen out (documents out left) (documents out right) := by
  rw [nothingSeen_iff_quiet]
  constructor
  · rintro ⟨sortable, file, hfile, hne, hidden, hothers⟩
    have hquiet : Quiet out left right file := by
      cases hidden with
      | left unparsed blank => exact (quiet_iff_of_unparsed_left unparsed hfile).mpr blank
      | right unparsed blank => exact (quiet_iff_of_unparsed_right unparsed hfile).mpr blank
    refine ⟨⟨file, hfile, ?_, hne⟩, sortable, fun other hother => ?_⟩
    · cases hidden with
      | left unparsed _ => exact .inl unparsed
      | right unparsed _ => exact .inr unparsed
    · by_cases hsame : other = file
      · exact hsame ▸ hquiet
      · exact hothers other hother hsame
  · rintro ⟨⟨file, hfile, hunparsed, hne⟩, sortable, hquiet⟩
    refine ⟨sortable, file, hfile, hne, ?_, fun other hother _ => hquiet other hother⟩
    rcases hunparsed with hunparsed | hunparsed
    · exact .left hunparsed ((quiet_iff_of_unparsed_left hunparsed hfile).mp (hquiet file hfile))
    · exact .right hunparsed ((quiet_iff_of_unparsed_right hunparsed hfile).mp (hquiet file hfile))

end Broken

/-- The comparison of any two sets of sources is honest, unless their documents differ only where it does not
look, a new order alone shows a difference, a sort of keys raises, or a file that does not parse hides one. -/
theorem honest_iff (left right : Sources) : Honest out left right ↔
    (Readable out left right → Sortable out (documents out left) (documents out right) ∧
      ¬ OnlyHidden out (documents out left) (documents out right) ∧
      ¬ OnlyReordered out (documents out left) (documents out right)) ∧
    ¬ OnlyBroken out left right := by
  rw [← nothingSeen_iff_same, onlyBroken_iff]
  constructor
  · intro honest
    refine ⟨fun hreadable => ?_, fun ⟨hbroken, hsort, hseen⟩ => ?_⟩
    · obtain ⟨c, hc, hiff⟩ := honest.readable hreadable
      refine ⟨compare_isSome.mp (by rw [hc]; rfl), ?_⟩
      rw [← identical_iff hc, hiff]
    · obtain ⟨c, hc⟩ := Option.isSome_iff_exists.mp (compare_isSome.mpr hsort)
      exact honest.broken c hc ((identical_iff hc).mpr hseen) hbroken
  · rintro ⟨hreadable, hbroken⟩
    refine ⟨fun hall => ?_, fun c hc hidentical hb => ?_⟩
    · obtain ⟨hsort, hiff⟩ := hreadable hall
      obtain ⟨c, hc⟩ := Option.isSome_iff_exists.mp (compare_isSome.mpr hsort)
      exact ⟨c, hc, (identical_iff hc).trans hiff⟩
    · exact hbroken ⟨hb, compare_isSome.mp (by rw [hc]; rfl), (identical_iff hc).mp hidentical⟩

/-- A parser for an empty file and one that breaks off. -/
def brokenOff : Outside String Yaml.Value where
  py := Yaml.values fun _ => ""
  null_not_list := rfl
  parse text := if text = "sites: [" then none else if text = "" then some .null else some (.str text)

/-- A `websites.yml` that breaks off, beside an empty set of sources. -/
theorem broken_file_hidden : ¬ Honest brokenOff (collect [("websites.yml", "sites: [")]) ∅ := by
  intro honest
  have hleft : documents brokenOff (collect [("websites.yml", "sites: [")]) = ⟨[], [], ∅⟩ := by
    rfl
  have hright : documents brokenOff ∅ = ⟨[], [], ∅⟩ := by
    rfl
  have hlookup (name : String) : (collect ([] : List (String × PyDict String Yaml.Value))).lookup name = none :=
    lookup_collect
  have hsort : KeysSort brokenOff [] [] := fun _ _ _ _ _ => rfl
  have halike : ListAlike brokenOff.py (entries brokenOff []) (entries brokenOff []) := by
    intro name
    rw [show entries brokenOff [] = [] from rfl, hlookup name]
    trivial
  have hvars : brokenOff.py.Alike ∅ ∅ := by
    rw [Values.alike_iff]
    simp
  have sortable : Sortable brokenOff (documents brokenOff (collect [("websites.yml", "sites: [")]))
      (documents brokenOff ∅) := by
    rw [hleft, hright]
    exact ⟨hsort, hsort, rfl⟩
  obtain ⟨c, hc⟩ := Option.isSome_iff_exists.mp (compare_isSome.mpr sortable)
  refine honest.broken c hc ((identical_iff hc).mpr ?_) ⟨"websites.yml", by decide, .inl (by decide), by decide⟩
  rw [hleft, hright]
  exact ⟨halike, halike, hvars⟩

end EasyHaProxy.Panel.Compare
