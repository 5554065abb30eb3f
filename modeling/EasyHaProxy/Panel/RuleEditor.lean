import EasyHaProxy.Lib.Pieces
import Mathlib

/-! The rules page flattens each Authelia rule to a row of text fields and builds the rules again from the
rows a form posts. -/
namespace EasyHaProxy.Panel

open Text (pieces Clean isLineEnd joinCrLf splitLines)

abbrev Str := List Char

/-- A key that is missing, holds one text or a list of texts. -/
inductive Names
  | absent
  | one (name : Str)
  | many (names : List Str)
  deriving DecidableEq, Repr

/-- An alternative of a subject: one, or several that hold together. -/
inductive SubjectItem
  | one (subject : Str)
  | all (subjects : List Str)
  deriving DecidableEq, Repr

inductive Subject
  | absent
  | one (subject : Str)
  | many (items : List SubjectItem)
  deriving DecidableEq, Repr

/-- A rule of `access_control.rules`. -/
structure Rule where
  domain : Names := .absent
  domainRegex : List Str := []
  policy : Str
  subject : Subject := .absent
  resources : Names := .absent
  methods : List Str := []
  networks : List Str := []
  query : List (List Str) := []
  deriving DecidableEq, Repr

/-! ## From a rule to a row -/

/-- `", ".join`. -/
def commaJoin (names : List Str) : Str := [',', ' '].intercalate names

def normalizeDomain : Names → Str
  | .absent => []
  | .one name => name
  | .many names => commaJoin (names.filter (· ≠ []))

/-- The texts of a subject; which of them had to hold together is forgotten here. -/
def subjectTexts : Subject → List Str
  | .absent => []
  | .one subject => [subject]
  | .many items => items.flatMap fun
    | .one subject => [subject]
    | .all subjects => subjects

def groupMark : Str := "group:".toList

def userMark : Str := "user:".toList

/-- `s.split(":", 1)[1].strip()` of a text that starts with the mark. -/
def afterMark (mark s : Str) : Str := Text.strip (s.drop mark.length)

def isFlag (s name : Str) : Bool := groupMark.isPrefixOf s && afterMark groupMark s = name

/-- The group a text names, the two flags apart; a text of no known kind is taken for a group. -/
def groupOf (s : Str) : Option Str :=
  if groupMark.isPrefixOf s then
    let group := afterMark groupMark s
    if group = "authenticated".toList ∨ group = "anonymous".toList then none else some group
  else if userMark.isPrefixOf s then none
  else some (Text.strip s)

def userOf (s : Str) : Option Str :=
  if groupMark.isPrefixOf s then none
  else if userMark.isPrefixOf s then some (afterMark userMark s)
  else none

/-- `sorted({n for n in names if n})`. -/
def sortedSet (names : List Str) : List Str := ((names.filter (· ≠ [])).dedup).insertionSort (· ≤ ·)

def parseResourcesForUi : Names → Str
  | .absent => []
  | .one resource => Text.strip resource
  | .many resources => ['\n'].intercalate ((resources.map Text.strip).filter (· ≠ []))

structure UiRule where
  domains : Str
  policy : Str
  groups : Str
  users : Str
  flagAuthenticated : Bool
  flagAnonymous : Bool
  resources : Str
  deriving DecidableEq, Repr

def oneFactor : Str := "one_factor".toList

def orOneFactor (policy : Str) : Str := if policy = [] then oneFactor else policy

def backendRuleToUi (rule : Rule) : UiRule where
  domains := normalizeDomain rule.domain
  policy := orOneFactor (Text.strip rule.policy)
  groups := commaJoin (sortedSet ((subjectTexts rule.subject).filterMap groupOf))
  users := commaJoin (sortedSet ((subjectTexts rule.subject).filterMap userOf))
  flagAuthenticated := (subjectTexts rule.subject).any (isFlag · "authenticated".toList)
  flagAnonymous := (subjectTexts rule.subject).any (isFlag · "anonymous".toList)
  resources := parseResourcesForUi rule.resources

/-! ## From a row to a rule -/

/-- The fields of one row as the form posts them; the page has no field for `flag_authenticated`. -/
structure Row where
  domains : Str
  policy : Str
  groups : Str
  users : Str
  flagAnonymous : Bool
  resources : Str
  deriving DecidableEq, Repr

/-- What the page posts of a row nobody touched. -/
def posted (ui : UiRule) : Row :=
  ⟨ui.domains, ui.policy, ui.groups, ui.users, ui.flagAnonymous, ui.resources⟩

def emptyUiRule : UiRule := ⟨[], oneFactor, [], [], false, false, []⟩

def collectUiRule (row : Row) : UiRule :=
  if row.domains = [] ∧ row.groups = [] ∧ row.users = [] ∧ row.resources = [] ∧ row.flagAnonymous = false then
    emptyUiRule
  else
    ⟨Text.strip row.domains, orOneFactor (Text.strip row.policy), Text.strip row.groups,
      Text.strip row.users, false, row.flagAnonymous, Text.strip row.resources⟩

inductive Converted
  | ignored
  | error (index : Nat)
  | rule (rule : Rule)
  deriving DecidableEq, Repr

def commaPieces (l : Str) : List Str := pieces (· = ',') l

/-- `domain` of the rule: a single one is written as a text. -/
def domainField : List Str → Names
  | [] => .absent
  | [name] => .one name
  | names => .many names

def subjectField (items : List Str) : Subject := if items = [] then .absent else .many (items.map .one)

def resourcesField (lines : List Str) : Names := if lines = [] then .absent else .many lines

def subjectItems (groups users : Str) (anonymous : Bool) : List Str :=
  (commaPieces groups).map (groupMark ++ ·) ++ (commaPieces users).map (userMark ++ ·) ++
    if anonymous then ["group:anonymous".toList] else []

def convertUiRule (index : Nat) (ui : UiRule) : Converted :=
  let domains := Text.strip ui.domains
  let groups := Text.strip ui.groups
  let users := Text.strip ui.users
  let resources := Text.strip ui.resources
  if domains = [] ∧ groups = [] ∧ users = [] ∧ resources = [] ∧ ui.flagAnonymous = false then .ignored
  else if domains = [] then .error index
  else
    .rule
      { domain := domainField (commaPieces domains)
        policy := orOneFactor (Text.strip ui.policy)
        subject := subjectField (subjectItems groups users ui.flagAnonymous)
        resources := resourcesField (((splitLines resources).map Text.strip).filter (· ≠ [])) }

def errorText (index : Nat) : String := s!"Rule #{index + 1}: the 'Domain(s)' field is empty."

/-- The rules of a form and the errors it is refused with. -/
def convertFormToBackendRules (form : List Row) : List Rule × List String :=
  let rows := form.mapIdx fun index row => convertUiRule index (collectUiRule row)
  (rows.filterMap fun
    | .rule rule => some rule
    | _ => none,
  rows.filterMap fun
    | .error index => some (errorText index)
    | _ => none)

/-! ## What the rules mean -/

/-- How Authelia takes single conditions on a request of a user. -/
structure Authelia (Q : Type) where
  domain : Str → Q → Bool
  domainRegex : Str → Q → Bool
  /-- A user who has not signed in yet passes the subjects and is asked to. -/
  anonymous : Q → Bool
  subject : Str → Q → Bool
  resource : Str → Q → Bool
  method : Str → Q → Bool
  network : Str → Q → Bool
  query : List Str → Q → Bool

def Names.list : Names → List Str
  | .absent => []
  | .one name => [name]
  | .many names => names

def Subject.alternatives : Subject → List (List Str)
  | .absent => []
  | .one subject => [[subject]]
  | .many items => items.map fun
    | .one subject => [subject]
    | .all subjects => subjects

variable {Q : Type}

/-- A condition that is not given holds; one that is given holds when one of its alternatives does. -/
def anyOrNone {α : Type} (l : List α) (p : α → Bool) : Bool := l.isEmpty || l.any p

def Rule.applies (A : Authelia Q) (rule : Rule) (q : Q) : Bool :=
  (rule.domain.list.any (A.domain · q) || rule.domainRegex.any (A.domainRegex · q)) &&
    anyOrNone rule.resources.list (A.resource · q) && anyOrNone rule.methods (A.method · q) &&
    anyOrNone rule.networks (A.network · q) && anyOrNone rule.query (A.query · q) &&
    (A.anonymous q || anyOrNone rule.subject.alternatives (fun all => all.all (A.subject · q)))

def decision (A : Authelia Q) (default : Str) (rules : List Rule) (q : Q) : Str :=
  ((rules.find? (·.applies A q)).map Rule.policy).getD default

/-! ## Rules the fields can hold -/

/-- A group other than `authenticated`, or a user, whose name a comma-separated field can hold. -/
def PlainSubject (s : Str) : Prop :=
  (∃ group, s = groupMark ++ group ∧ Clean (· = ',') group ∧ group ≠ "authenticated".toList) ∨
    ∃ user, s = userMark ++ user ∧ Clean (· = ',') user

/-- A rule that fits in a row: domains rather than patterns, alternatives of single subjects, and
none of the conditions the page has no field for. -/
structure Plain (rule : Rule) : Prop where
  domain_ne : rule.domain.list ≠ []
  domain : ∀ name ∈ rule.domain.list, Clean (· = ',') name
  domainRegex : rule.domainRegex = []
  policy_ne : rule.policy ≠ []
  policy : Text.strip rule.policy = rule.policy
  subject : ∀ all ∈ rule.subject.alternatives, ∃ s, all = [s] ∧ PlainSubject s
  resources : ∀ line ∈ rule.resources.list, Clean isLineEnd line
  methods : rule.methods = []
  networks : rule.networks = []
  query : rule.query = []

variable {rule : Rule} {names : List Str} {s : Str}

theorem commaPieces_commaJoin (h : ∀ n ∈ names, Clean (· = ',') n) : commaPieces (commaJoin names) = names :=
  Text.pieces_intercalate (by decide) (List.forall_mem_singleton.mpr (by decide)) h

theorem strip_commaJoin (h : ∀ n ∈ names, Clean (· = ',') n) :
    Text.strip (commaJoin names) = commaJoin names :=
  Text.strip_intercalate h

theorem normalizeDomain_eq {d : Names} (h : ∀ n ∈ d.list, Clean (· = ',') n) :
    normalizeDomain d = commaJoin d.list := by
  cases d with
  | absent => rfl
  | one name => simp [normalizeDomain, commaJoin, Names.list]
  | many names =>
    have hall : names.filter (· ≠ []) = names :=
      List.filter_eq_self.mpr fun n hn => by simpa using (h n hn).ne_nil
    rw [normalizeDomain, hall]
    rfl

theorem domainField_list (names : List Str) : (domainField names).list = names := by
  cases names with
  | nil => rfl
  | cons n names => cases names <;> rfl

theorem resourcesField_list (lines : List Str) : (resourcesField lines).list = lines := by
  unfold resourcesField
  split
  · rename_i h
    rw [h]
    rfl
  · rfl

theorem resources_back {d : Names} (h : ∀ line ∈ d.list, Clean isLineEnd line) :
    Text.strip (parseResourcesForUi d) = parseResourcesForUi d ∧
      ((splitLines (parseResourcesForUi d)).map Text.strip).filter (· ≠ []) = d.list := by
  have hjoin : parseResourcesForUi d = ['\n'].intercalate d.list := by
    cases d with
    | absent => rfl
    | one line =>
      have hl := h line (by simp [Names.list])
      simp [parseResourcesForUi, Names.list, hl.strip_eq]
    | many lines =>
      have hmap : lines.map Text.strip = lines := by
        conv_rhs => rw [← List.map_id lines]
        exact List.map_congr_left fun l hl => (h l hl).strip_eq
      have hall : lines.filter (· ≠ []) = lines :=
        List.filter_eq_self.mpr fun l hl => by simpa using (h l hl).ne_nil
      rw [parseResourcesForUi, hmap, hall]
      rfl
  have hcr : '\r' ∉ ['\n'].intercalate d.list := by
    intro hm
    rcases Text.mem_intercalate hm with hc | ⟨line, hl, hc⟩
    · exact absurd hc (by decide)
    · exact absurd ((h line hl).noSeparator _ hc) (by decide)
  rw [hjoin]
  refine ⟨Text.strip_intercalate h, ?_⟩
  rw [Text.filter_strip_splitLines, Text.joinCrLf_eq hcr]
  exact Text.pieces_intercalate (by decide) (by simp) h

/-! ## Subjects -/

theorem subjectTexts_eq (subject : Subject) : subjectTexts subject = subject.alternatives.flatten := by
  cases subject with
  | absent => rfl
  | one s => rfl
  | many items =>
    rw [subjectTexts, Subject.alternatives, List.flatMap_def]

theorem mem_sortedSet {n : Str} : n ∈ sortedSet names ↔ n ∈ names ∧ n ≠ [] := by
  simp [sortedSet]

theorem groupOf_group {group : Str} (h : Clean (· = ',') group) : groupOf (groupMark ++ group) =
    if group = "authenticated".toList ∨ group = "anonymous".toList then none else some group := by
  have hp : groupMark.isPrefixOf (groupMark ++ group) = true :=
    List.isPrefixOf_iff_prefix.mpr (List.prefix_append _ _)
  have ha : afterMark groupMark (groupMark ++ group) = group := by
    rw [afterMark, List.drop_left, h.strip_eq]
  rw [groupOf, if_pos hp, ha]

theorem groupOf_user (user : Str) : groupOf (userMark ++ user) = none := by
  have hg : groupMark.isPrefixOf (userMark ++ user) = false := rfl
  have hu : userMark.isPrefixOf (userMark ++ user) = true :=
    List.isPrefixOf_iff_prefix.mpr (List.prefix_append _ _)
  rw [groupOf, hg, if_neg Bool.false_ne_true, if_pos hu]

theorem userOf_group (group : Str) : userOf (groupMark ++ group) = none := by
  have hp : groupMark.isPrefixOf (groupMark ++ group) = true :=
    List.isPrefixOf_iff_prefix.mpr (List.prefix_append _ _)
  rw [userOf, if_pos hp]

theorem userOf_user {user : Str} (h : Clean (· = ',') user) : userOf (userMark ++ user) = some user := by
  have hg : groupMark.isPrefixOf (userMark ++ user) = false := rfl
  have hu : userMark.isPrefixOf (userMark ++ user) = true :=
    List.isPrefixOf_iff_prefix.mpr (List.prefix_append _ _)
  rw [userOf, hg, if_neg Bool.false_ne_true, if_pos hu, afterMark, List.drop_left, h.strip_eq]

theorem isFlag_group {group name : Str} (h : Clean (· = ',') group) :
    isFlag (groupMark ++ group) name = decide (group = name) := by
  have hp : groupMark.isPrefixOf (groupMark ++ group) = true :=
    List.isPrefixOf_iff_prefix.mpr (List.prefix_append _ _)
  rw [isFlag, hp, Bool.true_and, afterMark, List.drop_left, h.strip_eq]

theorem isFlag_user (user name : Str) : isFlag (userMark ++ user) name = false := by
  have hg : groupMark.isPrefixOf (userMark ++ user) = false := rfl
  rw [isFlag, hg, Bool.false_and]

section Subjects

variable {texts : List Str}

theorem clean_groups (h : ∀ s ∈ texts, PlainSubject s) :
    ∀ n ∈ sortedSet (texts.filterMap groupOf), Clean (· = ',') n := by
  intro n hn
  obtain ⟨s, hs, hg⟩ := List.mem_filterMap.mp (mem_sortedSet.mp hn).1
  rcases h s hs with ⟨group, rfl, hc, -⟩ | ⟨user, rfl, -⟩
  · rw [groupOf_group hc] at hg
    split at hg
    · cases hg
    · exact Option.some.inj hg ▸ hc
  · rw [groupOf_user] at hg
    cases hg

theorem clean_users (h : ∀ s ∈ texts, PlainSubject s) :
    ∀ n ∈ sortedSet (texts.filterMap userOf), Clean (· = ',') n := by
  intro n hn
  obtain ⟨s, hs, hu⟩ := List.mem_filterMap.mp (mem_sortedSet.mp hn).1
  rcases h s hs with ⟨group, rfl, -, -⟩ | ⟨user, rfl, hc⟩
  · rw [userOf_group] at hu
    cases hu
  · rw [userOf_user hc] at hu
    exact Option.some.inj hu ▸ hc

/-- The subjects that come back are those that went out, in another order. -/
theorem mem_subjectItems (h : ∀ s ∈ texts, PlainSubject s) :
    s ∈ subjectItems (commaJoin (sortedSet (texts.filterMap groupOf)))
        (commaJoin (sortedSet (texts.filterMap userOf)))
        (texts.any (isFlag · "anonymous".toList)) ↔ s ∈ texts := by
  rw [subjectItems, commaPieces_commaJoin (clean_groups h), commaPieces_commaJoin (clean_users h)]
  simp only [List.mem_append, List.mem_map, mem_sortedSet, List.mem_filterMap]
  constructor
  · rintro ((⟨n, ⟨⟨t, ht, hg⟩, -⟩, rfl⟩ | ⟨n, ⟨⟨t, ht, hu⟩, -⟩, rfl⟩) | hs)
    · rcases h t ht with ⟨group, rfl, hc, -⟩ | ⟨user, rfl, -⟩
      · rw [groupOf_group hc] at hg
        split at hg
        · cases hg
        · exact Option.some.inj hg ▸ ht
      · rw [groupOf_user] at hg
        cases hg
    · rcases h t ht with ⟨group, rfl, -, -⟩ | ⟨user, rfl, hc⟩
      · rw [userOf_group] at hu
        cases hu
      · rw [userOf_user hc] at hu
        exact Option.some.inj hu ▸ ht
    · split at hs
      · rename_i ha
        rw [List.mem_singleton] at hs
        obtain ⟨t, ht, hf⟩ := List.any_eq_true.mp ha
        rcases h t ht with ⟨group, rfl, hc, -⟩ | ⟨user, rfl, -⟩
        · rw [isFlag_group hc, decide_eq_true_iff] at hf
          have hmark : groupMark ++ group = "group:anonymous".toList := by
            rw [hf]
            rfl
          rw [hs, ← hmark]
          exact ht
        · rw [isFlag_user] at hf
          cases hf
      · cases hs
  · intro ht
    rcases h s ht with ⟨group, rfl, hc, hne⟩ | ⟨user, rfl, hc⟩
    · by_cases ha : group = "anonymous".toList
      · right
        have hany : texts.any (isFlag · "anonymous".toList) = true :=
          List.any_eq_true.mpr ⟨_, ht, by rw [isFlag_group hc, decide_eq_true_iff]; exact ha⟩
        rw [if_pos hany, ha, List.mem_singleton]
        rfl
      · left; left
        refine ⟨group, ⟨⟨_, ht, ?_⟩, hc.ne_nil⟩, rfl⟩
        rw [groupOf_group hc, if_neg (not_or.mpr ⟨hne, ha⟩)]
    · left; right
      exact ⟨user, ⟨⟨_, ht, userOf_user hc⟩, hc.ne_nil⟩, rfl⟩

end Subjects

/-! ## The round trip -/

/-- The rule that comes back for a plain one. -/
def returned (rule : Rule) : Rule where
  domain := domainField rule.domain.list
  policy := rule.policy
  subject := subjectField (subjectItems
    (commaJoin (sortedSet ((subjectTexts rule.subject).filterMap groupOf)))
    (commaJoin (sortedSet ((subjectTexts rule.subject).filterMap userOf)))
    ((subjectTexts rule.subject).any (isFlag · "anonymous".toList)))
  resources := resourcesField rule.resources.list

theorem Plain.texts (h : Plain rule) : ∀ s ∈ subjectTexts rule.subject, PlainSubject s := by
  intro s hs
  rw [subjectTexts_eq, List.mem_flatten] at hs
  obtain ⟨all, hall, hs⟩ := hs
  obtain ⟨t, rfl, ht⟩ := h.subject all hall
  rwa [List.mem_singleton.mp hs]

theorem convert_plain (h : Plain rule) (index : Nat) :
    convertUiRule index (collectUiRule (posted (backendRuleToUi rule))) = .rule (returned rule) := by
  have hdomain : normalizeDomain rule.domain = commaJoin rule.domain.list := normalizeDomain_eq h.domain
  have hne : commaJoin rule.domain.list ≠ [] := by
    intro he
    have hp := commaPieces_commaJoin h.domain
    rw [he] at hp
    exact h.domain_ne hp.symm
  have hpolicy : orOneFactor rule.policy = rule.policy := if_neg h.policy_ne
  obtain ⟨hrstrip, hrlines⟩ := resources_back h.resources
  have hgroups := strip_commaJoin (clean_groups h.texts)
  have husers := strip_commaJoin (clean_users h.texts)
  have hcollect : collectUiRule (posted (backendRuleToUi rule)) =
      ⟨commaJoin rule.domain.list, rule.policy,
        commaJoin (sortedSet ((subjectTexts rule.subject).filterMap groupOf)),
        commaJoin (sortedSet ((subjectTexts rule.subject).filterMap userOf)), false,
        (subjectTexts rule.subject).any (isFlag · "anonymous".toList),
        parseResourcesForUi rule.resources⟩ := by
    rw [collectUiRule, if_neg (by simp [posted, backendRuleToUi, hdomain, hne])]
    simp only [posted, backendRuleToUi, hdomain, strip_commaJoin h.domain, h.policy, hpolicy, hgroups,
      husers, hrstrip]
  rw [hcollect, convertUiRule]
  simp only [strip_commaJoin h.domain, h.policy, hpolicy, hgroups, husers, hrstrip, hrlines, hne,
    false_and, if_false, commaPieces_commaJoin h.domain]
  rfl

theorem anyOrNone_congr {α : Type} {l l' : List α} {p : α → Bool} (h : ∀ a, a ∈ l ↔ a ∈ l') :
    anyOrNone l p = anyOrNone l' p := by
  have hempty : l.isEmpty = l'.isEmpty := by
    rw [Bool.eq_iff_iff, List.isEmpty_iff, List.isEmpty_iff, List.eq_nil_iff_forall_not_mem,
      List.eq_nil_iff_forall_not_mem]
    exact forall_congr' fun a => not_congr (h a)
  have hany : l.any p = l'.any p := by
    rw [Bool.eq_iff_iff, List.any_eq_true, List.any_eq_true]
    exact exists_congr fun a => and_congr_left fun _ => h a
  rw [anyOrNone, anyOrNone, hempty, hany]

theorem mem_alternatives_subjectField {items all : List Str} :
    all ∈ (subjectField items).alternatives ↔ ∃ s ∈ items, all = [s] := by
  unfold subjectField
  split
  · rename_i he
    simp [he, Subject.alternatives]
  · simp [Subject.alternatives, eq_comm]

theorem alternatives_returned (h : Plain rule) {all : List Str} :
    all ∈ (returned rule).subject.alternatives ↔ all ∈ rule.subject.alternatives := by
  rw [returned, mem_alternatives_subjectField]
  simp only [mem_subjectItems h.texts]
  rw [subjectTexts_eq]
  constructor
  · rintro ⟨s, hs, rfl⟩
    obtain ⟨all, hall, hs⟩ := List.mem_flatten.mp hs
    obtain ⟨t, rfl, -⟩ := h.subject all hall
    rwa [List.mem_singleton.mp hs]
  · intro hall
    obtain ⟨s, rfl, -⟩ := h.subject all hall
    exact ⟨s, List.mem_flatten.mpr ⟨_, hall, List.mem_singleton_self s⟩, rfl⟩

theorem applies_returned (h : Plain rule) (A : Authelia Q) (q : Q) :
    (returned rule).applies A q = rule.applies A q := by
  have hs := anyOrNone_congr (p := fun all => all.all (A.subject · q)) fun _ =>
    alternatives_returned h
  have hd : (returned rule).domain.list = rule.domain.list := domainField_list _
  have hr : (returned rule).resources.list = rule.resources.list := resourcesField_list _
  rw [Rule.applies, Rule.applies, hd, hr, hs, h.domainRegex, h.methods, h.networks, h.query]
  rfl

theorem convert_rules {rules : List Rule} (h : ∀ rule ∈ rules, Plain rule) :
    convertFormToBackendRules (rules.map fun rule => posted (backendRuleToUi rule)) =
      (rules.map returned, []) := by
  have hrows : ((rules.map fun rule => posted (backendRuleToUi rule)).mapIdx fun index row =>
      convertUiRule index (collectUiRule row)) = rules.map fun rule => .rule (returned rule) := by
    apply List.ext_getElem (by simp)
    intro i h1 h2
    simp only [List.getElem_mapIdx, List.getElem_map]
    exact convert_plain (h _ (List.getElem_mem _)) i
  rw [convertFormToBackendRules, hrows]
  simp [List.filterMap_map]

/-- A list of plain rules is saved without an error and decides every request as before. -/
theorem unchanged_form_keeps_access (rules : List Rule) (h : ∀ rule ∈ rules, Plain rule) :
    (convertFormToBackendRules (rules.map fun rule => posted (backendRuleToUi rule))).2 = [] ∧
      ∀ (Q : Type) (A : Authelia Q) (default : Str) (q : Q),
        decision A default
            (convertFormToBackendRules (rules.map fun rule => posted (backendRuleToUi rule))).1 q =
          decision A default rules q := by
  rw [convert_rules h]
  refine ⟨rfl, fun Q A default q => ?_⟩
  induction rules with
  | nil => rfl
  | cons rule rules ih =>
    have hrule := applies_returned (h rule List.mem_cons_self) A q
    have hrest := ih fun r hr => h r (List.mem_cons_of_mem rule hr)
    have hpolicy : (returned rule).policy = rule.policy := rfl
    by_cases ha : rule.applies A q = true
    · simp [decision, hrule, ha, hpolicy]
    · simpa [decision, hrule, ha] using hrest

/-- Administrators and operators may pass, and the page lets everybody read. -/
def plainRules : List Rule :=
  [{ domain := .one "app.example.com".toList, policy := "one_factor".toList,
     subject := .many [.one "group:ops".toList, .one "group:admins".toList, .one "user:anna".toList],
     resources := .many ["^/ops".toList] },
   { domain := .many ["www.example.com".toList, "example.com".toList], policy := "bypass".toList }]

theorem clean_of {p : Char → Bool} {n : Str}
    (h : (n ≠ [] ∧ Text.strip n = n) ∧ n.all (fun c => !p c) = true) : Clean p n :=
  ⟨h.1.1, h.1.2, fun c hc => by simpa using List.all_eq_true.mp h.2 c hc⟩

theorem plainRules_plain : ∀ rule ∈ plainRules, Plain rule := by
  intro rule hr
  simp only [plainRules, List.mem_cons, List.not_mem_nil, or_false] at hr
  rcases hr with rfl | rfl
  · refine ⟨by decide, ?_, rfl, by decide, by decide, ?_, ?_, rfl, rfl, rfl⟩
    · rintro n (_ | ⟨_, ⟨⟩⟩)
      exact clean_of (by decide)
    · rintro all (_ | ⟨_, _ | ⟨_, _ | ⟨_, ⟨⟩⟩⟩⟩)
      · exact ⟨_, rfl, Or.inl ⟨"ops".toList, rfl, clean_of (by decide), by decide⟩⟩
      · exact ⟨_, rfl, Or.inl ⟨"admins".toList, rfl, clean_of (by decide), by decide⟩⟩
      · exact ⟨_, rfl, Or.inr ⟨"anna".toList, rfl, clean_of (by decide)⟩⟩
    · rintro n (_ | ⟨_, ⟨⟩⟩)
      exact clean_of (by decide)
  · refine ⟨by decide, ?_, rfl, by decide, by decide, ?_, ?_, rfl, rfl, rfl⟩
    · rintro n (_ | ⟨_, _ | ⟨_, ⟨⟩⟩⟩) <;> exact clean_of (by decide)
    · rintro all ⟨⟩
    · rintro n ⟨⟩

theorem unchanged_form_keeps_access_plain : (∀ rule ∈ plainRules, Plain rule) ∧
    (convertFormToBackendRules (plainRules.map fun rule => posted (backendRuleToUi rule))).2 = [] :=
  ⟨plainRules_plain, (unchanged_form_keeps_access plainRules plainRules_plain).1⟩

/-- Requests told apart by their method only. -/
def byMethod : Authelia Str where
  domain := fun _ _ => true
  domainRegex := fun _ _ => false
  anonymous := fun _ => true
  subject := fun _ _ => false
  resource := fun _ _ => false
  method := fun method q => method = q
  network := fun _ _ => false
  query := fun _ _ => false

/-- Reading is open to everybody, anything else is denied. -/
def readOnly : List Rule :=
  [{ domain := .one "app.example.com".toList, policy := "bypass".toList, methods := ["GET".toList] }]

/-- The page drops the methods: saving it unchanged opens the site to every method. -/
theorem unchanged_form_drops_methods :
    (convertFormToBackendRules (readOnly.map fun rule => posted (backendRuleToUi rule))).2 = [] ∧
      decision byMethod "deny".toList readOnly "POST".toList = "deny".toList ∧
      decision byMethod "deny".toList
          (convertFormToBackendRules (readOnly.map fun rule => posted (backendRuleToUi rule))).1
          "POST".toList = "bypass".toList := by
  decide +kernel

end EasyHaProxy.Panel
