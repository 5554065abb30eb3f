import EasyHaProxy.Lib.Pieces
import EasyHaProxy.Lib.Replace

/-! `migrate-domain` replaces the old root domain in every text of the managed configuration and notes which
texts it changed. -/
namespace EasyHaProxy.Installer.Migration

open Replace

/-- `[a-z0-9]`. -/
def isLowerAlnum (c : Char) : Bool := 'a' ≤ c && c ≤ 'z' || '0' ≤ c && c ≤ '9'

/-- `[A-Za-z0-9-]`. -/
def isLabelChar (c : Char) : Bool := isLowerAlnum c || 'A' ≤ c && c ≤ 'Z' || c == '-'

/-- What host names are made of. -/
def isHostChar (c : Char) : Bool := isLabelChar c || c == '.'

/-- A label of `DOMAIN_RE`. -/
def isLabel (l : List Char) : Bool :=
  !l.isEmpty && decide (l.length ≤ 63) && l.all (fun c => isLowerAlnum c || c == '-') && l.head? != some '-' &&
    l.getLast? != some '-'

/-- `DOMAIN_RE`: labels, and a top-level domain of letters. -/
def isDomain (s : List Char) : Bool :=
  match (s.splitOn '.').reverse with
  | [] => false
  | tld :: labels => decide (s.length ≤ 253) && !labels.isEmpty && labels.all isLabel && decide (2 ≤ tld.length) &&
      decide (tld.length ≤ 63) && tld.all fun c => 'a' ≤ c && c ≤ 'z'

/-- A value of the configuration; a text is the list of its letters. -/
inductive Data (κ β : Type)
  | dict (fields : List (κ × Data κ β))
  | list (items : List (Data κ β))
  | str (text : List Char)
  | other (v : β)

/-- A noted change: the path, the text and what it became. -/
structure Change where
  path : String
  value : List Char
  replaced : List Char

section Model

variable {κ β : Type} (text : κ → String) (oldDomain newDomain : List Char)

/-- `replace_domain_text`. -/
def replaceDomainText (value : List Char) : List Char := sub isLabelChar oldDomain newDomain none 0 value

def fieldPath (path : String) (key : κ) : String := if path.isEmpty then text key else path ++ "." ++ text key

def itemPath (path : String) (index : Nat) : String := path ++ "[" ++ toString index ++ "]"

mutual

/-- `replace_domain_in_data`, with the changes it appends. -/
def replaceDomainInData (path : String) : Data κ β → Data κ β × List Change
  | .dict fields =>
    let replaced := replaceFields path fields
    (.dict replaced.1, replaced.2)
  | .list items =>
    let replaced := replaceItems path 0 items
    (.list replaced.1, replaced.2)
  | .str value =>
    if oldDomain <:+: value then
      let replaced := replaceDomainText oldDomain newDomain value
      (.str replaced, if replaced = value then [] else [⟨path, value, replaced⟩])
    else (.str value, [])
  | .other v => (.other v, [])

def replaceFields (path : String) : List (κ × Data κ β) → List (κ × Data κ β) × List Change
  | [] => ([], [])
  | (key, item) :: fields =>
    let replaced := replaceDomainInData (fieldPath text path key) item
    let rest := replaceFields path fields
    ((key, replaced.1) :: rest.1, replaced.2 ++ rest.2)

def replaceItems (path : String) (index : Nat) : List (Data κ β) → List (Data κ β) × List Change
  | [] => ([], [])
  | item :: items =>
    let replaced := replaceDomainInData (itemPath path index) item
    let rest := replaceItems path (index + 1) items
    (replaced.1 :: rest.1, replaced.2 ++ rest.2)

end

end Model

/-! ## What a migration is for -/

section Purpose

variable {κ β : Type} (text : κ → String) (f : List Char → List Char)

mutual

/-- Every text changed, and nothing else. -/
def Data.mapTexts : Data κ β → Data κ β
  | .dict fields => .dict (mapFields fields)
  | .list items => .list (mapItems items)
  | .str value => .str (f value)
  | .other v => .other v

def Data.mapFields : List (κ × Data κ β) → List (κ × Data κ β)
  | [] => []
  | (key, item) :: fields => (key, item.mapTexts) :: mapFields fields

def Data.mapItems : List (Data κ β) → List (Data κ β)
  | [] => []
  | item :: items => item.mapTexts :: mapItems items

end

mutual

def Data.texts (path : String) : Data κ β → List (String × List Char)
  | .dict fields => fieldTexts path fields
  | .list items => itemTexts path 0 items
  | .str value => [(path, value)]
  | .other _ => []

def Data.fieldTexts (path : String) : List (κ × Data κ β) → List (String × List Char)
  | [] => []
  | (key, item) :: fields => item.texts (fieldPath text path key) ++ fieldTexts path fields

def Data.itemTexts (path : String) (index : Nat) : List (Data κ β) → List (String × List Char)
  | [] => []
  | item :: items => item.texts (itemPath path index) ++ itemTexts path (index + 1) items

end

/-- The texts that are another one afterwards. -/
def changed (before after : List (String × List Char)) : List Change :=
  (before.zip after).filterMap fun e => if e.2.2 = e.1.2 then none else some ⟨e.1.1, e.1.2, e.2.2⟩

/-- The old domain and the names under it take the new one; any other name stays. -/
def renameHost (oldDomain newDomain t : List Char) : List Char :=
  if t = oldDomain then newDomain
  else if ('.' :: oldDomain) <:+ t then t.take (t.length - oldDomain.length) ++ newDomain
  else t

/-- Every host name in a text renamed. -/
def renameHosts (oldDomain newDomain : List Char) : List Char → List Char :=
  mapRuns isHostChar (renameHost oldDomain newDomain)

structure Renames (oldDomain newDomain : List Char) (path : String) (d : Data κ β) (r : Data κ β × List Change) :
    Prop where
  texts : r.1 = d.mapTexts (renameHosts oldDomain newDomain)
  changes : r.2 = changed (d.texts text path) (r.1.texts text path)

/-- The first place of the old domain in a host name, by whole labels, is its end; or the labels behind it move
past the old domain and the new one alike. -/
def LastOnly (oldDomain newDomain t : List Char) : Prop :=
  ∀ w x, First isLabelChar oldDomain none t w x → x = [] ∨ Shifted isLabelChar oldDomain newDomain x

end Purpose

/-! ## A valid domain -/

section Domain

variable {s : List Char} {c : Char}

theorem isDomain_labels (h : isDomain s = true) : ∃ labels tld, s = ['.'].intercalate (labels ++ [tld]) ∧
    tld ≠ [] ∧ (∀ c ∈ tld, isLowerAlnum c = true) ∧ ∀ l ∈ labels, l ≠ [] ∧ ∀ c ∈ l, isLabelChar c = true := by
  unfold isDomain at h
  split at h
  · cases h
  · rename_i tld labels hparts
    simp only [Bool.and_eq_true, decide_eq_true_eq, List.all_eq_true] at h
    refine ⟨labels.reverse, tld, ?_, ?_, ?_, ?_⟩
    · rw [← List.reverse_cons, ← hparts, List.reverse_reverse, List.intercalate_splitOn]
    · rintro rfl
      simp at h
    · intro c hc
      have := h.2 c hc
      simp only [isLowerAlnum, Bool.or_eq_true, Bool.and_eq_true, decide_eq_true_eq]
      exact .inl this
    · intro l hl
      have hlabel := h.1.1.1.2 l (List.mem_reverse.mp hl)
      simp only [isLabel, Bool.and_eq_true, List.all_eq_true, Bool.or_eq_true] at hlabel
      refine ⟨fun hnil => by simp [hnil] at hlabel, fun c hc => ?_⟩
      rcases hlabel.1.1.2 c hc with hc | hc <;> simp [isLabelChar, hc]

theorem isLabelChar_of_isLowerAlnum (h : isLowerAlnum c = true) : isLabelChar c = true := by
  simp [isLabelChar, h]

theorem isHostChar_of_isDomain (h : isDomain s = true) : ∀ c ∈ s, isHostChar c = true := by
  obtain ⟨labels, tld, rfl, -, htld, hlabels⟩ := isDomain_labels h
  intro c hc
  rcases Text.mem_intercalate hc with hdot | ⟨part, hpart, hpc⟩
  · obtain rfl := List.mem_singleton.mp hdot
    rfl
  · rcases List.mem_append.mp hpart with hpart | hpart
    · simp [isHostChar, (hlabels part hpart).2 c hpc]
    · obtain rfl := List.mem_singleton.mp hpart
      simp [isHostChar, isLabelChar_of_isLowerAlnum (htld c hpc)]

/-- A valid domain ends with a letter of a label. -/
theorem getLast?_of_isDomain (h : isDomain s = true) : outside isLabelChar s.getLast? = false := by
  obtain ⟨labels, tld, rfl, hne, htld, hlabels⟩ := isDomain_labels h
  have hall : ∀ part ∈ labels ++ [tld], part ≠ [] := by
    intro part hpart
    rcases List.mem_append.mp hpart with hpart | hpart
    · exact (hlabels part hpart).1
    · rwa [List.mem_singleton.mp hpart]
  rw [Text.getLast?_intercalate hall (by simp), List.getLast_append_singleton, List.getLast?_eq_some_getLast hne]
  simp [outside, isLabelChar_of_isLowerAlnum (htld _ (List.getLast_mem hne))]

theorem ne_nil_of_isDomain (h : isDomain s = true) : s ≠ [] := by
  rintro rfl
  exact absurd h (by decide)

end Domain

/-! ## One host name -/

section Host

variable {oldDomain newDomain t y : List Char}

theorem outside_iff {o : Option Char} (h : ∀ c, o = some c → isHostChar c = true) :
    outside isLabelChar o = true ↔ o = none ∨ o = some '.' := by
  cases o with
  | none => simp [outside]
  | some c =>
    have hc := h c rfl
    simp only [isHostChar, Bool.or_eq_true, beq_iff_eq] at hc
    constructor
    · intro hout
      rcases hc with hc | rfl
      · simp [outside, hc] at hout
      · exact .inr rfl
    · rintro (hnone | hdot)
      · cases hnone
      · obtain rfl := Option.some.inj hdot
        rfl

/-- The old domain ends a host name by whole labels just when it is the name or a dot stands before it. -/
theorem atEnd_iff (ht : ∀ c ∈ t, isHostChar c = true) : AtEnd isLabelChar oldDomain t y ↔
    (y = [] ∧ t = oldDomain) ∨ ∃ u, y = u ++ ['.'] ∧ t = u ++ '.' :: oldDomain := by
  constructor
  · rintro ⟨rfl, hy⟩
    have hhost (c : Char) (hc : y.getLast? = some c) : isHostChar c = true :=
      ht c (List.mem_append_left _ (List.mem_of_getLast? hc))
    rcases (outside_iff hhost).mp hy with hnone | hdot
    · obtain rfl := List.getLast?_eq_none_iff.mp hnone
      exact .inl ⟨rfl, rfl⟩
    · obtain ⟨u, rfl⟩ := List.getLast?_eq_some_iff.mp hdot
      exact .inr ⟨u, rfl, by simp⟩
  · rintro (⟨rfl, rfl⟩ | ⟨u, rfl, rfl⟩)
    · exact ⟨rfl, rfl⟩
    · exact ⟨by simp, by simp [outside, isLabelChar, isLowerAlnum]⟩

theorem renameHost_of_atEnd (ht : ∀ c ∈ t, isHostChar c = true) (h : AtEnd isLabelChar oldDomain t y) :
    renameHost oldDomain newDomain t = y ++ newDomain := by
  rcases (atEnd_iff ht).mp h with ⟨rfl, rfl⟩ | ⟨u, rfl, rfl⟩
  · simp [renameHost]
  · have hne : u ++ '.' :: oldDomain ≠ oldDomain := by
      intro heq
      have hlen := congrArg List.length heq
      simp only [List.length_append, List.length_cons] at hlen
      omega
    have hlen : (u ++ '.' :: oldDomain).length - oldDomain.length = (u ++ ['.']).length := by
      simp only [List.length_append, List.length_cons, List.length_nil]
      omega
    have hsplit : u ++ '.' :: oldDomain = (u ++ ['.']) ++ oldDomain := List.append_cons u '.' oldDomain
    rw [renameHost, if_neg hne, if_pos (List.suffix_append u _), hlen, hsplit, List.take_left]

theorem renameHost_of_not_atEnd (ht : ∀ c ∈ t, isHostChar c = true)
    (h : ∀ y, ¬ AtEnd isLabelChar oldDomain t y) : renameHost oldDomain newDomain t = t := by
  have hne : t ≠ oldDomain := fun heq => h [] ((atEnd_iff ht).mpr (.inl ⟨rfl, heq⟩))
  have hsuffix : ¬ ('.' :: oldDomain) <:+ t := by
    rintro ⟨u, rfl⟩
    exact h (u ++ ['.']) ((atEnd_iff ht).mpr (.inr ⟨u, rfl, rfl⟩))
  rw [renameHost, if_neg hne, if_neg hsuffix]

/-- In one host name the replacing renames just when it finds the old domain at the end alone. -/
theorem sub_eq_renameHost_iff (hold : isDomain oldDomain = true) (hne : oldDomain ≠ newDomain)
    (ht : ∀ c ∈ t, isHostChar c = true) :
    sub isLabelChar oldDomain newDomain none 0 t = renameHost oldDomain newDomain t ↔
      LastOnly oldDomain newDomain t := by
  have hnil := ne_nil_of_isDomain hold
  have hlast := getLast?_of_isDomain hold
  by_cases hend : ∃ y, AtEnd isLabelChar oldDomain t y
  · obtain ⟨y, hy⟩ := hend
    rw [renameHost_of_atEnd ht hy]
    constructor
    · exact fun h w x hfirst => (sub_eq_atEnd_iff hnil hne hlast hy hfirst).mp h
    · intro h
      rcases none_or_first isLabelChar oldDomain none t with hnone | ⟨w, x, hfirst⟩
      · exact absurd ⟨by simpa using hy.2, rfl⟩ (hnone y [] (by simpa using hy.1))
      · exact (sub_eq_atEnd_iff hnil hne hlast hy hfirst).mpr (h w x hfirst)
  · rw [not_exists] at hend
    rw [renameHost_of_not_atEnd ht hend, sub_eq_self_iff hnil hne]
    constructor
    · exact fun h w x hfirst => absurd hfirst (h w x)
    · intro h w x hfirst
      rcases h w x hfirst with rfl | ⟨-, z, hz, hzlast, hshift, -⟩
      · exact hend w hfirst.atEnd
      · refine hend (w ++ z) ⟨?_, by rwa [getLast?_append_ne_nil hz]⟩
        rw [hfirst.split, List.append_assoc, hshift, List.append_assoc]

theorem isHostChar_of_renameHost (hnew : isDomain newDomain = true) (ht : ∀ c ∈ t, isHostChar c = true) :
    ∀ c ∈ renameHost oldDomain newDomain t, isHostChar c = true := by
  intro c hc
  unfold renameHost at hc
  split_ifs at hc
  · exact isHostChar_of_isDomain hnew c hc
  · rcases List.mem_append.mp hc with hc | hc
    · exact ht c (List.mem_of_mem_take hc)
    · exact isHostChar_of_isDomain hnew c hc
  · exact ht c hc

theorem replaceDomainText_eq_iff (hold : isDomain oldDomain = true) (hnew : isDomain newDomain = true)
    (hne : oldDomain ≠ newDomain) {value : List Char} :
    replaceDomainText oldDomain newDomain value = renameHosts oldDomain newDomain value ↔
      ∀ t ∈ tokens isHostChar value, LastOnly oldDomain newDomain t := by
  have hclass (c : Char) (hc : isHostChar c = false) : isLabelChar c = false := by
    rw [isHostChar, Bool.or_eq_false_iff] at hc
    exact hc.1
  rw [replaceDomainText, sub_eq_mapRuns hclass (isHostChar_of_isDomain hold) (ne_nil_of_isDomain hold), renameHosts,
    mapRuns_eq_iff (fun t ht c hc => of_mem_sub (isHostChar_of_isDomain hnew) ht hc)
      fun t ht => isHostChar_of_renameHost hnew ht]
  exact forall₂_congr fun t ht => sub_eq_renameHost_iff hold hne (of_mem_tokens ht)

end Host

/-! ## The whole configuration -/

section Whole

variable {κ β : Type} {text : κ → String} {oldDomain newDomain : List Char} {f g : List Char → List Char}

theorem replaceDomainText_of_not_infix {value : List Char} (h : ¬ oldDomain <:+: value) :
    replaceDomainText oldDomain newDomain value = value :=
  sub_of_none fun w x hvalue _ => h ⟨w, x, hvalue.symm⟩

mutual

theorem replaceDomainInData_fst (path : String) (d : Data κ β) :
    (replaceDomainInData text oldDomain newDomain path d).1 = d.mapTexts (replaceDomainText oldDomain newDomain) := by
  cases d with
  | dict fields => simp only [replaceDomainInData, Data.mapTexts, replaceFields_fst path fields]
  | list items => simp only [replaceDomainInData, Data.mapTexts, replaceItems_fst path 0 items]
  | str value =>
    by_cases h : oldDomain <:+: value
    · simp only [replaceDomainInData, Data.mapTexts, if_pos h]
    · simp only [replaceDomainInData, Data.mapTexts, if_neg h, replaceDomainText_of_not_infix h]
  | other v => simp only [replaceDomainInData, Data.mapTexts]

theorem replaceFields_fst (path : String) (fields : List (κ × Data κ β)) :
    (replaceFields text oldDomain newDomain path fields).1 =
      Data.mapFields (replaceDomainText oldDomain newDomain) fields := by
  cases fields with
  | nil => simp only [replaceFields, Data.mapFields]
  | cons field fields =>
    obtain ⟨key, item⟩ := field
    simp only [replaceFields, Data.mapFields, replaceDomainInData_fst _ item, replaceFields_fst path fields]

theorem replaceItems_fst (path : String) (index : Nat) (items : List (Data κ β)) :
    (replaceItems text oldDomain newDomain path index items).1 =
      Data.mapItems (replaceDomainText oldDomain newDomain) items := by
  cases items with
  | nil => simp only [replaceItems, Data.mapItems]
  | cons item items =>
    simp only [replaceItems, Data.mapItems, replaceDomainInData_fst _ item, replaceItems_fst path (index + 1) items]

end

mutual

theorem texts_mapTexts (path : String) (d : Data κ β) :
    (d.mapTexts f).texts text path = (d.texts text path).map fun e => (e.1, f e.2) := by
  cases d with
  | dict fields => simp only [Data.mapTexts, Data.texts, fieldTexts_mapFields path fields]
  | list items => simp only [Data.mapTexts, Data.texts, itemTexts_mapItems path 0 items]
  | str value => simp only [Data.mapTexts, Data.texts, List.map_cons, List.map_nil]
  | other v => simp only [Data.mapTexts, Data.texts, List.map_nil]

theorem fieldTexts_mapFields (path : String) (fields : List (κ × Data κ β)) :
    Data.fieldTexts text path (Data.mapFields f fields) =
      (Data.fieldTexts text path fields).map fun e => (e.1, f e.2) := by
  cases fields with
  | nil => simp only [Data.mapFields, Data.fieldTexts, List.map_nil]
  | cons field fields =>
    obtain ⟨key, item⟩ := field
    simp only [Data.mapFields, Data.fieldTexts, List.map_append, texts_mapTexts _ item,
      fieldTexts_mapFields path fields]

theorem itemTexts_mapItems (path : String) (index : Nat) (items : List (Data κ β)) :
    Data.itemTexts text path index (Data.mapItems f items) =
      (Data.itemTexts text path index items).map fun e => (e.1, f e.2) := by
  cases items with
  | nil => simp only [Data.mapItems, Data.itemTexts, List.map_nil]
  | cons item items =>
    simp only [Data.mapItems, Data.itemTexts, List.map_append, texts_mapTexts _ item,
      itemTexts_mapItems path (index + 1) items]

end

theorem changed_append {before before' after after' : List (String × List Char)}
    (h : before.length = after.length) :
    changed (before ++ before') (after ++ after') = changed before after ++ changed before' after' := by
  rw [changed, List.zip_append h, List.filterMap_append]
  rfl

mutual

theorem replaceDomainInData_snd (path : String) (d : Data κ β) :
    (replaceDomainInData text oldDomain newDomain path d).2 = changed (d.texts text path)
      ((d.mapTexts (replaceDomainText oldDomain newDomain)).texts text path) := by
  cases d with
  | dict fields => simp only [replaceDomainInData, Data.mapTexts, Data.texts, replaceFields_snd path fields]
  | list items => simp only [replaceDomainInData, Data.mapTexts, Data.texts, replaceItems_snd path 0 items]
  | str value =>
    by_cases h : oldDomain <:+: value
    · by_cases hsame : replaceDomainText oldDomain newDomain value = value
      · simp [replaceDomainInData, Data.mapTexts, Data.texts, changed, h, hsame]
      · simp [replaceDomainInData, Data.mapTexts, Data.texts, changed, h, hsame]
    · simp [replaceDomainInData, Data.mapTexts, Data.texts, changed, h, replaceDomainText_of_not_infix h]
  | other v => simp only [replaceDomainInData, Data.mapTexts, Data.texts, changed, List.zip_nil_left,
      List.filterMap_nil]

theorem replaceFields_snd (path : String) (fields : List (κ × Data κ β)) :
    (replaceFields text oldDomain newDomain path fields).2 = changed (Data.fieldTexts text path fields)
      (Data.fieldTexts text path (Data.mapFields (replaceDomainText oldDomain newDomain) fields)) := by
  cases fields with
  | nil => simp only [replaceFields, Data.mapFields, Data.fieldTexts, changed, List.zip_nil_left, List.filterMap_nil]
  | cons field fields =>
    obtain ⟨key, item⟩ := field
    simp only [replaceFields, Data.mapFields, Data.fieldTexts]
    rw [changed_append (by rw [texts_mapTexts, List.length_map]), ← replaceDomainInData_snd _ item,
      ← replaceFields_snd path fields]

theorem replaceItems_snd (path : String) (index : Nat) (items : List (Data κ β)) :
    (replaceItems text oldDomain newDomain path index items).2 = changed (Data.itemTexts text path index items)
      (Data.itemTexts text path index (Data.mapItems (replaceDomainText oldDomain newDomain) items)) := by
  cases items with
  | nil => simp only [replaceItems, Data.mapItems, Data.itemTexts, changed, List.zip_nil_left, List.filterMap_nil]
  | cons item items =>
    simp only [replaceItems, Data.mapItems, Data.itemTexts]
    rw [changed_append (by rw [texts_mapTexts, List.length_map]), ← replaceDomainInData_snd _ item,
      ← replaceItems_snd path (index + 1) items]

end

mutual

/-- Two changes of the texts agree just when they agree on each of the texts. -/
theorem mapTexts_eq_iff (path : String) (d : Data κ β) :
    d.mapTexts f = d.mapTexts g ↔ ∀ e ∈ d.texts text path, f e.2 = g e.2 := by
  cases d with
  | dict fields => simp only [Data.mapTexts, Data.texts, Data.dict.injEq, mapFields_eq_iff path fields]
  | list items => simp only [Data.mapTexts, Data.texts, Data.list.injEq, mapItems_eq_iff path 0 items]
  | str value => simp [Data.mapTexts, Data.texts]
  | other v => simp [Data.mapTexts, Data.texts]

theorem mapFields_eq_iff (path : String) (fields : List (κ × Data κ β)) :
    Data.mapFields f fields = Data.mapFields g fields ↔ ∀ e ∈ Data.fieldTexts text path fields, f e.2 = g e.2 := by
  cases fields with
  | nil => simp [Data.mapFields, Data.fieldTexts]
  | cons field fields =>
    obtain ⟨key, item⟩ := field
    simp only [Data.mapFields, Data.fieldTexts, List.cons.injEq, Prod.mk.injEq, true_and,
      mapTexts_eq_iff (fieldPath text path key) item, mapFields_eq_iff path fields, List.mem_append, or_imp,
      forall_and]

theorem mapItems_eq_iff (path : String) (index : Nat) (items : List (Data κ β)) :
    Data.mapItems f items = Data.mapItems g items ↔ ∀ e ∈ Data.itemTexts text path index items, f e.2 = g e.2 := by
  cases items with
  | nil => simp [Data.mapItems, Data.itemTexts]
  | cons item items =>
    simp only [Data.mapItems, Data.itemTexts, List.cons.injEq, mapTexts_eq_iff (itemPath path index) item,
      mapItems_eq_iff path (index + 1) items, List.mem_append, or_imp, forall_and]

end

/-- For any two valid domains and any configuration the migration renames the host names and notes what it
changed, just when in every host name of every text the old domain stands at the end alone. -/
theorem replaceDomainInData_renames_iff (hold : isDomain oldDomain = true) (hnew : isDomain newDomain = true)
    (hne : oldDomain ≠ newDomain) (path : String) (d : Data κ β) :
    Renames text oldDomain newDomain path d (replaceDomainInData text oldDomain newDomain path d) ↔
      ∀ e ∈ d.texts text path, ∀ t ∈ tokens isHostChar e.2, LastOnly oldDomain newDomain t := by
  have htexts : (replaceDomainInData text oldDomain newDomain path d).1 =
      d.mapTexts (renameHosts oldDomain newDomain) ↔
        ∀ e ∈ d.texts text path, ∀ t ∈ tokens isHostChar e.2, LastOnly oldDomain newDomain t := by
    rw [replaceDomainInData_fst, mapTexts_eq_iff path d]
    exact forall₂_congr fun e _ => replaceDomainText_eq_iff hold hnew hne
  rw [← htexts]
  refine ⟨fun h => h.texts, fun h => ⟨h, ?_⟩⟩
  rw [replaceDomainInData_snd, replaceDomainInData_fst]

end Whole

theorem replaceDomainInData_renames_iff_field :
    Renames id ['a', '.', 'c', 'o'] ['b', '.', 'd', 'e'] "vars.yml"
        (.dict [("root_domain", .str ['a', '.', 'c', 'o'])] : Data String Unit)
        (replaceDomainInData id ['a', '.', 'c', 'o'] ['b', '.', 'd', 'e'] "vars.yml"
          (.dict [("root_domain", .str ['a', '.', 'c', 'o'])])) ↔
      ∀ e ∈ Data.texts id "vars.yml" (.dict [("root_domain", .str ['a', '.', 'c', 'o'])] : Data String Unit),
        ∀ t ∈ tokens isHostChar e.2, LastOnly ['a', '.', 'c', 'o'] ['b', '.', 'd', 'e'] t :=
  replaceDomainInData_renames_iff (by decide) (by decide) (by decide) "vars.yml" _

/-- A migration from `a.co` to `b.de` takes the name `a.co.uk` of somebody else along. -/
theorem longer_name_renamed :
    ¬ Renames id ['a', '.', 'c', 'o'] ['b', '.', 'd', 'e'] "vars.yml"
      (.str ['a', '.', 'c', 'o', '.', 'u', 'k'] : Data String Unit)
      (replaceDomainInData id ['a', '.', 'c', 'o'] ['b', '.', 'd', 'e'] "vars.yml"
        (.str ['a', '.', 'c', 'o', '.', 'u', 'k'])) := by
  intro h
  have htexts := h.texts
  rw [replaceDomainInData_fst] at htexts
  exact absurd (Data.str.inj htexts) (by decide)

end EasyHaProxy.Installer.Migration
