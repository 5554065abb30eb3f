import Mathlib
import EasyHaProxy.Lib.Locked
import EasyHaProxy.Lib.Machine
import EasyHaProxy.Lib.Text
import EasyHaProxy.Lib.Document

/-! Sessions change `websites.yml` and `vars.yml` at the same time. -/
namespace EasyHaProxy.Panel.SaveSessions

open Document (Value get? setField fieldsOf getPath setPath shown canonical Apart)
open Locked (File)

abbrev Key := List Char

/-- What the panel computes with and this model takes as given: a file's content is a `β`, a digest a `δ`. -/
structure Tools (β δ : Type) where
  /-- `yaml.safe_load`, `none` for a text it refuses. -/
  load : β → Option Value
  /-- `yaml.safe_dump`. -/
  dump : Value → β
  /-- SHA-256 of a text and of a file. -/
  textSha256 : List Char → δ
  fileSha256 : β → δ
  /-- `site_identity_conflict`. -/
  conflict : Value → List Value → Bool
  /-- `validate_config_data` for the sites and for the variables. -/
  sitesValid : Value → Bool
  varsValid : Value → Bool
  /-- The two values are equal in Python. -/
  same : Option Value → Value → Bool
  /-- `validate_admin_access_for_client`. -/
  admits : Value → Bool

variable {β δ : Type}

/-! ## The sites -/

def isNull : Value → Bool
  | .word w => w.text == ['n', 'u', 'l', 'l']
  | _ => false

/-- Values that `or` passes over. -/
def falsy : Value → Bool
  | .word w => [['n', 'u', 'l', 'l'], ['f', 'a', 'l', 's', 'e'], ['0'], ['0', '.', '0'],
      ['-', '0', '.', '0']].contains w.text
  | .str s => s.isEmpty
  | .other _ => false
  | .arr items => items.isEmpty
  | .obj fields => fields.isEmpty

/-- `_load_yaml`. -/
def Tools.loadYaml (p : Tools β δ) (content : β) : Option Value :=
  (p.load content).map fun v =>
    match v with
    | .obj fields => .obj fields
    | v => if isNull v then .obj [] else .obj [(['_'], v)]

def sitesKey : Key := ['s', 'i', 't', 'e', 's']
def nameKey : Key := ['n', 'a', 'm', 'e']

/-- `data.get("sites") or []`, `none` when that is no list. -/
def sitesOf (doc : Value) : Option (List Value) :=
  match get? doc sitesKey with
  | none => some []
  | some (.arr sites) => some sites
  | some v => if falsy v then some [] else none

def setSites (doc : Value) (sites : List Value) : Value :=
  .obj (setField sitesKey (.arr sites) (fieldsOf doc))

/-- `(s.get("name") or "").strip()`, `none` where that raises. -/
def siteName : Value → Option (List Char)
  | .obj fields =>
    match fields.lookup nameKey with
    | none => some []
    | some (.str s) => some (Text.strip s)
    | some v => if falsy v then some [] else none
  | _ => none

def named (name : List Char) (site : Value) : Bool :=
  match get? site nameKey with
  | some (.str s) => s == name
  | _ => false

def isObj : Value → Bool
  | .obj _ => true
  | _ => false

/-- `entry_revision`. -/
def Tools.entryRevision (p : Tools β δ) (entry : Value) : δ := p.textSha256 (canonical entry)

/-- The first site of a name, with those before and after it; an entry on the way that has no name to
compare raises. -/
def findSite (name : List Char) : List Value → Option (List Value × Value × List Value)
  | [] => none
  | site :: sites =>
    match siteName site with
    | none => none
    | some n =>
      if n = name then some ([], site, sites)
      else (findSite name sites).map fun (pre, old, post) => (site :: pre, old, post)

/-- What a session does to the sites. -/
inductive SiteJob (β : Type)
  /-- `save_site_from_json` of a form that was loaded from a version of the site. `build` makes the new
  site of the form and the stored one, or refuses a field. -/
  | save (original : List Char) (loaded : Value) (build : Value → Option Value)
  /-- `add_site_minimal`, and `save_site_from_json` without an original name. -/
  | add (site : Value)
  /-- `set_site_pause`. -/
  | pause (name key : Key) (paused : Bool)
  /-- `delete_site_by_name`. -/
  | delete (name : List Char)
  /-- A revert or a restore puts a whole file in place. -/
  | put (content : β)

def trueWord : Value := .word ⟨['t', 'r', 'u', 'e'], by decide, by decide⟩

def pausedKey : Key := "paused".toList
def certRenewalPausedKey : Key := "cert_renewal_paused".toList

/-- `PAUSE_KEYS`. -/
def pauseKeys : List Key := [pausedKey, certRenewalPausedKey]

def withPause (key : Key) (paused : Bool) (site : Value) : Value :=
  if paused then .obj (setField key trueWord (fieldsOf site))
  else .obj ((fieldsOf site).filter fun field => field.1 ≠ key)

/-- `_replace_yaml_source`: the text is read back and validated before it is stored. -/
def Tools.replaceSites (p : Tools β δ) (doc : Value) (sites : List Value) : Option β :=
  let content := p.dump (setSites doc sites)
  if (p.load content).any p.sitesValid then some content else none

/-- The file a job makes of the one it read, `none` when it is refused. -/
def Tools.applySite [DecidableEq δ] (p : Tools β δ) (job : SiteJob β) (content : β) : Option β :=
  match job with
  | .put new => some new
  | .save original loaded build => do
    let doc ← p.loadYaml content
    let sites ← sitesOf doc
    guard (sites.all fun s => !isObj s || (siteName s).isSome)
    let (pre, old, post) ← findSite original sites
    guard (p.entryRevision old = p.entryRevision loaded)
    let new ← build old
    guard (!p.conflict new (sites.filter fun s => siteName s ≠ some original))
    p.replaceSites doc (pre ++ new :: post)
  | .add site => do
    let doc ← p.loadYaml content
    let sites ← sitesOf doc
    guard (!p.conflict site sites)
    p.replaceSites doc (sites ++ [site])
  | .pause name key paused => do
    guard (pauseKeys.contains key)
    let doc ← p.loadYaml content
    let sites ← sitesOf doc
    let site ← sites.find? (named name)
    let updated := withPause key paused site
    guard (key ≠ pausedKey ∨ paused = true ∨
      p.conflict updated (sites.filter fun s => !named name s) = false)
    guard (sites.all isObj)
    p.replaceSites doc (sites.map fun s => if named name s then updated else s)
  | .delete name => do
    let doc ← p.loadYaml content
    let sites ← sitesOf doc
    guard (sites.all isObj && sites.any (named name))
    p.replaceSites doc (sites.filter fun s => !named name s)

/-! ## The variables -/

inductive VarsEdit (β : Type)
  /-- `save_guided_vars`, with the submitted values as they were coerced. -/
  | guided (values : List (List Key × Value))
  /-- `save_acme_email`. -/
  | email (text : List Char)
  /-- `save_raw_vars`. -/
  | raw (content : β)

def VarsEdit.content? : VarsEdit β → Option β
  | .raw content => some content
  | _ => none

def emailKey : Key := "certbot_email".toList

/-- `_parse_vars`. -/
def Tools.parseVars (p : Tools β δ) (content : β) : Option Value := do
  let v ← p.load content
  let data := if falsy v then .obj [] else v
  guard (isObj data && p.varsValid data)
  some data

/-- The submitted values that differ are set, one after the other. -/
def Tools.setValues (p : Tools β δ) (values : List (List Key × Value)) (data : Value) : Value :=
  values.foldl (fun data field =>
    if p.same (getPath data field.1) field.2 then data else setPath field.2 field.1 data) data

/-- What an edit makes of the file its form was loaded from. -/
def Tools.editVars (p : Tools β δ) : VarsEdit β → β → Option β
  | .raw new, _ => some new
  | .guided values, content => do
    let data ← p.parseVars content
    guard (p.admits (p.setValues values data))
    some (p.dump (p.setValues values data))
  | .email text, content => do
    let data ← p.parseVars content
    -- an address that is there already is reported at once
    guard (p.same (get? data emailKey) (.str text) = false)
    some (p.dump (.obj (setField emailKey (.str text) (fieldsOf data))))

inductive VarsJob (β : Type)
  /-- The edit, what its form was loaded from, and the content it is to store once that is known. -/
  | save (edit : VarsEdit β) (loaded : β) (content : Option β)
  | put (content : β)

/-! ## The sessions -/

structure State (β : Type) where
  websites : File β
  vars : File β
  siteJobs : Nat → Option (SiteJob β)
  varsJobs : Nat → Option (VarsJob β)

inductive Op (β : Type)
  | startSite (id : Nat) (job : SiteJob β)
  | lockSite (id : Nat)
  | readSite (id : Nat)
  /-- The write of a job's file; the disk may refuse it. -/
  | writeSite (id : Nat) (ok : Bool)
  | unlockSite (id : Nat)
  | startVars (id : Nat) (edit : VarsEdit β) (loaded : β)
  | putVars (id : Nat) (content : β)
  /-- The read of the guided editor, before it has the lock. -/
  | peekVars (id : Nat)
  | lockVars (id : Nat)
  | readVars (id : Nat)
  | writeVars (id : Nat) (ok : Bool)
  | unlockVars (id : Nat)

variable [DecidableEq δ]

/-- The content the session stores with its write, `none` when it stores nothing. -/
def Tools.siteOutcome (p : Tools β δ) (s : State β) (id : Nat) (ok : Bool) : Option β :=
  if ok then
    match s.siteJobs id with
    | none => none
    | some (.put content) => if s.websites.holder = some id then some content else none
    | some job => (s.websites.copy id).bind (p.applySite job)
  else none

/-- `_save_with_revision` under its lock. -/
def Tools.varsOutcome (p : Tools β δ) (s : State β) (id : Nat) (ok : Bool) : Option β :=
  if ok then
    match s.varsJobs id with
    | some (.save _ loaded (some content)) =>
      (s.vars.copy id).bind fun current =>
        if p.fileSha256 current = p.fileSha256 loaded ∧ (p.parseVars content).isSome then some content
        else none
    | some (.put content) => if s.vars.holder = some id then some content else none
    | _ => none
  else none

def Tools.peek (p : Tools β δ) (s : State β) : VarsJob β → Option (VarsJob β)
  | .save edit loaded none =>
    if p.fileSha256 s.vars.content = p.fileSha256 loaded then
      (p.editVars edit s.vars.content).map fun content => .save edit loaded (some content)
    else none
  | job => some job

def Tools.step (p : Tools β δ) (s : State β) : Op β → State β
  | .startSite id job => { s with siteJobs := Function.update s.siteJobs id (some job) }
  | .lockSite id => { s with websites := s.websites.lock id }
  | .readSite id => { s with websites := s.websites.read id }
  | .writeSite id ok =>
    match p.siteOutcome s id ok with
    | some content =>
      { s with
        websites := s.websites.write id content
        siteJobs := Function.update s.siteJobs id none }
    | none => { s with siteJobs := Function.update s.siteJobs id none }
  | .unlockSite id => { s with websites := s.websites.unlock id }
  | .startVars id edit loaded =>
    { s with varsJobs := Function.update s.varsJobs id (some (.save edit loaded edit.content?)) }
  | .putVars id content => { s with varsJobs := Function.update s.varsJobs id (some (.put content)) }
  | .peekVars id => { s with varsJobs := Function.update s.varsJobs id ((s.varsJobs id).bind (p.peek s)) }
  | .lockVars id => { s with vars := s.vars.lock id }
  | .readVars id => { s with vars := s.vars.read id }
  | .writeVars id ok =>
    match p.varsOutcome s id ok with
    | some content =>
      { s with
        vars := s.vars.write id content
        varsJobs := Function.update s.varsJobs id none }
    | none => { s with varsJobs := Function.update s.varsJobs id none }
  | .unlockVars id => { s with vars := s.vars.unlock id }

def initial (websites vars : β) : State β := ⟨File.new websites, File.new vars, fun _ => none, fun _ => none⟩

/-! ## What a successful save did -/

/-- One site gave way to another, the rest of the list is as it was. -/
def Replaces (p : Tools β δ) (R : Value → Prop) (before after : β) : Prop :=
  ∃ doc doc' pre old new post, p.loadYaml before = some doc ∧ p.loadYaml after = some doc' ∧
    sitesOf doc = some (pre ++ old :: post) ∧ sitesOf doc' = some (pre ++ new :: post) ∧ R old

/-- The variables differ on no path that parts from the submitted ones. -/
def OnlyPaths (p : Tools β δ) (values : List (List Key × Value)) (before after : β) : Prop :=
  ∃ data data', p.parseVars before = some data ∧ p.parseVars after = some data' ∧
    ∀ path, (∀ field ∈ values, Apart field.1 path) → getPath data' path = getPath data path

/-- A site save replaced a version that is, in the sense of `R`, the one its form was loaded from; a
save of the variables replaced exactly what its form was loaded from, a guided one only on its paths;
and who reads finds a file that was written as a whole. -/
def Kept (p : Tools β δ) (R : Value → Value → Prop) (s : State β) : Op β → Prop
  | .writeSite id ok => ∀ original loaded build new,
      s.siteJobs id = some (.save original loaded build) → p.siteOutcome s id ok = some new →
        (p.step s (.writeSite id ok)).websites.content = new ∧
          Replaces p (R loaded) s.websites.content new
  | .writeVars id ok => ∀ edit loaded content new,
      s.varsJobs id = some (.save edit loaded content) → p.varsOutcome s id ok = some new →
        (p.step s (.writeVars id ok)).vars.content = new ∧ s.vars.content = loaded ∧
          ∀ values, edit = .guided values → OnlyPaths p values loaded new
  | .readSite _ => s.websites.content ∈ s.websites.written
  | .peekVars _ | .readVars _ => s.vars.content ∈ s.vars.written
  | _ => True

/-- The two entries show the same in their canonical texts. -/
def ShowSame (a b : Value) : Prop := shown b = shown a

variable {p : Tools β δ} {s : State β}

theorem findSite_eq {name : List Char} {sites pre post : List Value} {old : Value}
    (h : findSite name sites = some (pre, old, post)) : sites = pre ++ old :: post := by
  induction sites generalizing pre with
  | nil => cases h
  | cons site sites ih =>
    unfold findSite at h
    split at h
    · cases h
    · split at h
      · cases h
        rfl
      · obtain ⟨⟨pre', old', post'⟩, hrest, heq⟩ := Option.map_eq_some_iff.mp h
        obtain ⟨rfl, hold⟩ := Prod.mk.inj heq
        obtain ⟨rfl, rfl⟩ := Prod.mk.inj hold
        rw [ih hrest]
        rfl

theorem sitesOf_setSites (doc : Value) (sites : List Value) : sitesOf (setSites doc sites) = some sites := by
  unfold sitesOf setSites
  rw [Document.get?_eq_lookup, fieldsOf, Document.lookup_setField, if_pos rfl]

section

variable (hload : ∀ v, p.load (p.dump v) = some v)

include hload

omit [DecidableEq δ] in
theorem replaceSites_eq {doc : Value} {sites : List Value} {new : β}
    (h : p.replaceSites doc sites = some new) :
    ∃ doc', p.loadYaml new = some doc' ∧ sitesOf doc' = some sites := by
  unfold Tools.replaceSites at h
  dsimp only at h
  split at h
  · obtain rfl := Option.some.inj h
    refine ⟨setSites doc sites, ?_, sitesOf_setSites doc sites⟩
    rw [Tools.loadYaml, hload]
    rfl
  · cases h

omit [DecidableEq δ] in
/-- A guided save reads back what it stored. -/
theorem parseVars_dump {fields : List (List Char × Value)}
    (h : (p.parseVars (p.dump (.obj fields))).isSome) :
    p.parseVars (p.dump (.obj fields)) = some (.obj fields) := by
  unfold Tools.parseVars at h ⊢
  rw [hload] at h ⊢
  have hdata : (if falsy (.obj fields) then (.obj [] : Value) else .obj fields) = .obj fields := by
    cases fields with
    | nil => rfl
    | cons field fields => rfl
  simp only [Option.bind_eq_bind, Option.bind_some, hdata] at h ⊢
  by_cases hv : (isObj (.obj fields) && p.varsValid (.obj fields)) = true
  · rw [guard, if_pos hv]
    rfl
  · rw [guard, if_neg hv] at h
    cases h

end

theorem fieldsOf_isObj {v : Value} (h : isObj v = true) : v = .obj (fieldsOf v) := by
  cases v with
  | obj fields => rfl
  | _ => cases h

theorem applySite_save {original : List Char} {loaded : Value} {build : Value → Option Value}
    {content new : β} (h : p.applySite (.save original loaded build) content = some new) :
    ∃ doc pre old post next, p.loadYaml content = some doc ∧ sitesOf doc = some (pre ++ old :: post) ∧
      p.entryRevision old = p.entryRevision loaded ∧
      p.replaceSites doc (pre ++ next :: post) = some new := by
  unfold Tools.applySite at h
  dsimp only at h
  obtain ⟨doc, hdoc, h⟩ := Option.bind_eq_some_iff.mp h
  obtain ⟨sites, hsites, h⟩ := Option.bind_eq_some_iff.mp h
  obtain ⟨-, -, h⟩ := Option.bind_eq_some_iff.mp h
  obtain ⟨⟨pre, old, post⟩, hfind, h⟩ := Option.bind_eq_some_iff.mp h
  obtain ⟨u, hrevision, h⟩ := Option.bind_eq_some_iff.mp h
  obtain ⟨next, -, h⟩ := Option.bind_eq_some_iff.mp h
  obtain ⟨-, -, h⟩ := Option.bind_eq_some_iff.mp h
  have heq : p.entryRevision old = p.entryRevision loaded := by
    by_contra hne
    rw [guard, if_neg hne] at hrevision
    cases hrevision
  rw [findSite_eq hfind] at hsites
  exact ⟨doc, pre, old, post, next, hdoc, hsites, heq, h⟩

omit [DecidableEq δ] in
theorem editVars_guided {values : List (List Key × Value)} {content new : β}
    (h : p.editVars (.guided values) content = some new) :
    ∃ data, p.parseVars content = some data ∧ new = p.dump (p.setValues values data) := by
  unfold Tools.editVars at h
  dsimp only at h
  obtain ⟨data, hdata, h⟩ := Option.bind_eq_some_iff.mp h
  obtain ⟨-, -, h⟩ := Option.bind_eq_some_iff.mp h
  exact ⟨data, hdata, (Option.some.inj h).symm⟩

omit [DecidableEq δ] in
theorem parseVars_isObj {content : β} {data : Value} (h : p.parseVars content = some data) :
    isObj data = true := by
  unfold Tools.parseVars at h
  obtain ⟨v, -, h⟩ := Option.bind_eq_some_iff.mp h
  obtain ⟨u, hguard, h⟩ := Option.bind_eq_some_iff.mp h
  obtain rfl := Option.some.inj h
  by_contra hne
  rw [guard, if_neg (by simp [hne])] at hguard
  cases hguard

theorem isObj_setPath (value v : Value) {path : List Key} (h : path ≠ []) :
    isObj (setPath value path v) = true := by
  cases path with
  | nil => exact absurd rfl h
  | cons key path => rfl

omit [DecidableEq δ] in
theorem isObj_setValues (values : List (List Key × Value)) (data : Value) (hdata : isObj data = true)
    (h : ∀ field ∈ values, field.1 ≠ []) : isObj (p.setValues values data) = true := by
  induction values generalizing data with
  | nil => exact hdata
  | cons field values ih =>
    obtain ⟨hfield, hrest⟩ := List.forall_mem_cons.mp h
    refine ih _ ?_ hrest
    dsimp only
    split
    · exact hdata
    · exact isObj_setPath field.2 data hfield

omit [DecidableEq δ] in
/-- Setting the submitted values leaves the paths that part from them. -/
theorem getPath_setValues (values : List (List Key × Value)) (data : Value) {path : List Key}
    (h : ∀ field ∈ values, Apart field.1 path) :
    getPath (p.setValues values data) path = getPath data path := by
  induction values generalizing data with
  | nil => rfl
  | cons field values ih =>
    obtain ⟨hfield, hrest⟩ := List.forall_mem_cons.mp h
    have hstep : p.setValues (field :: values) data = p.setValues values
        (if p.same (getPath data field.1) field.2 then data else setPath field.2 field.1 data) := rfl
    rw [hstep, ih _ hrest]
    split
    · rfl
    · exact Document.getPath_setPath field.2 data hfield

omit [DecidableEq δ] in
theorem onlyPaths_of_guided (hload : ∀ v, p.load (p.dump v) = some v) {values : List (List Key × Value)}
    {loaded new : β} (h : p.editVars (.guided values) loaded = some new) (hparse : (p.parseVars new).isSome) :
    OnlyPaths p values loaded new := by
  obtain ⟨data, hdata, rfl⟩ := editVars_guided h
  obtain ⟨data', hdata'⟩ := Option.isSome_iff_exists.mp hparse
  refine ⟨data, data', hdata, hdata', fun path hpath => ?_⟩
  by_cases hne : ∀ field ∈ values, field.1 ≠ []
  · have hobj := fieldsOf_isObj (isObj_setValues (p := p) values data (parseVars_isObj hdata) hne)
    rw [hobj] at hparse hdata'
    rw [parseVars_dump hload hparse] at hdata'
    rw [← Option.some.inj hdata', ← hobj]
    exact getPath_setValues values data hpath
  · -- every path leads on from the empty one
    push Not at hne
    obtain ⟨field, hmem, hnil⟩ := hne
    have hapart := hpath field hmem
    rw [hnil] at hapart
    exact absurd List.nil_prefix hapart.1

/-! ## Every run -/

/-- What the sessions know is current, and what they are to store comes from what their form shows. -/
structure Inv (p : Tools β δ) (s : State β) : Prop where
  websites : s.websites.Inv
  vars : s.vars.Inv
  content : ∀ id edit loaded content, s.varsJobs id = some (.save edit loaded (some content)) →
    p.editVars edit loaded = some content

omit [DecidableEq δ] in
theorem inv_initial (websites vars : β) : Inv p (initial websites vars) :=
  ⟨File.inv_new websites, File.inv_new vars, fun _ _ _ _ h => (by cases h)⟩

omit [DecidableEq δ] in
/-- A job that comes in keeps what is known of the others. -/
theorem Inv.setJob (h : Inv p s) (id : Nat) (job : Option (VarsJob β))
    (hjob : ∀ edit loaded content, job = some (.save edit loaded (some content)) →
      p.editVars edit loaded = some content) :
    Inv p { s with varsJobs := Function.update s.varsJobs id job } where
  websites := h.websites
  vars := h.vars
  content other edit loaded content hc := by
    by_cases ho : other = id
    · subst ho
      exact hjob edit loaded content (by simpa using hc)
    · exact h.content other edit loaded content (by simpa [ho] using hc)

omit [DecidableEq δ] in
theorem Inv.setWebsites (h : Inv p s) {f : File β} (hf : f.Inv) : Inv p { s with websites := f } :=
  ⟨hf, h.vars, h.content⟩

omit [DecidableEq δ] in
theorem Inv.setVars (h : Inv p s) {f : File β} (hf : f.Inv) : Inv p { s with vars := f } :=
  ⟨h.websites, hf, h.content⟩

omit [DecidableEq δ] in
theorem Inv.setSiteJobs (h : Inv p s) (jobs : Nat → Option (SiteJob β)) : Inv p { s with siteJobs := jobs } :=
  ⟨h.websites, h.vars, h.content⟩

theorem inv_peek (hfile : Function.Injective p.fileSha256) (h : Inv p s) (id : Nat) :
    Inv p (p.step s (.peekVars id)) := by
  refine h.setJob id _ fun edit loaded content hjob => ?_
  obtain ⟨job, hold, hpeek⟩ := Option.bind_eq_some_iff.mp hjob
  unfold Tools.peek at hpeek
  split at hpeek
  · rename_i edit' loaded'
    split at hpeek
    · rename_i hsame
      obtain ⟨content', hedit, heq⟩ := Option.map_eq_some_iff.mp hpeek
      obtain ⟨rfl, rfl, hcontent⟩ := VarsJob.save.inj heq
      rw [← Option.some.inj hcontent, ← hfile hsame]
      exact hedit
    · cases hpeek
  · obtain rfl := Option.some.inj hpeek
    exact h.content id edit loaded content hold

theorem inv_step (hfile : Function.Injective p.fileSha256) (h : Inv p s) (op : Op β) :
    Inv p (p.step s op) := by
  cases op with
  | startSite id job => exact h.setSiteJobs _
  | lockSite id => exact h.setWebsites (File.inv_lock h.websites id)
  | readSite id => exact h.setWebsites (File.inv_read h.websites id)
  | writeSite id ok =>
    simp only [Tools.step]
    split
    · exact (h.setWebsites (File.inv_write h.websites id _)).setSiteJobs _
    · exact h.setSiteJobs _
  | unlockSite id => exact h.setWebsites (File.inv_unlock h.websites id)
  | startVars id edit loaded =>
    refine h.setJob id _ fun edit' loaded' content hjob => ?_
    obtain ⟨rfl, rfl, hcontent⟩ := VarsJob.save.inj (Option.some.inj hjob)
    cases edit with
    | raw new =>
      obtain rfl := Option.some.inj hcontent
      rfl
    | guided values => cases hcontent
    | email text => cases hcontent
  | putVars id content => exact h.setJob id _ fun _ _ _ hjob => by cases hjob
  | peekVars id => exact inv_peek hfile h id
  | lockVars id => exact h.setVars (File.inv_lock h.vars id)
  | readVars id => exact h.setVars (File.inv_read h.vars id)
  | writeVars id ok =>
    simp only [Tools.step]
    split
    · exact (h.setVars (File.inv_write h.vars id _)).setJob id none fun _ _ _ hjob => by cases hjob
    · exact h.setJob id none fun _ _ _ hjob => by cases hjob
  | unlockVars id => exact h.setVars (File.inv_unlock h.vars id)

omit [DecidableEq δ] in
theorem entryRevision_eq_iff (htext : Function.Injective p.textSha256) (a b : Value) :
    p.entryRevision a = p.entryRevision b ↔ shown a = shown b := by
  unfold Tools.entryRevision
  rw [htext.eq_iff]
  exact Document.canonical_eq_iff a b

theorem kept_writeSite (hload : ∀ v, p.load (p.dump v) = some v) (htext : Function.Injective p.textSha256)
    (h : Inv p s) (id : Nat) (ok : Bool) : Kept p ShowSame s (.writeSite id ok) := by
  intro original loaded build new hjob hout
  have hstep : (p.step s (.writeSite id ok)).websites = s.websites.write id new := by
    simp only [Tools.step, hout]
  cases ok with
  | false => cases hout
  | true =>
    simp only [Tools.siteOutcome, if_true, hjob] at hout
    obtain ⟨content, hcopy, happly⟩ := Option.bind_eq_some_iff.mp hout
    obtain ⟨hholder, rfl⟩ := h.websites.copy id content hcopy
    obtain ⟨doc, pre, old, post, next, hdoc, hsites, hrevision, hreplace⟩ := applySite_save happly
    obtain ⟨doc', hdoc', hsites'⟩ := replaceSites_eq hload hreplace
    refine ⟨?_, doc, doc', pre, old, next, post, hdoc, hdoc', hsites, hsites', ?_⟩
    · rw [hstep]
      exact File.write_content hholder new
    · exact (entryRevision_eq_iff htext old loaded).mp hrevision

theorem kept_writeVars (hload : ∀ v, p.load (p.dump v) = some v) (hfile : Function.Injective p.fileSha256)
    (R : Value → Value → Prop) (h : Inv p s) (id : Nat) (ok : Bool) : Kept p R s (.writeVars id ok) := by
  intro edit loaded content new hjob hout
  have hstep : (p.step s (.writeVars id ok)).vars = s.vars.write id new := by
    simp only [Tools.step, hout]
  cases ok with
  | false => cases hout
  | true =>
    cases content with
    | none =>
      simp only [Tools.varsOutcome, if_true, hjob] at hout
      cases hout
    | some content =>
      simp only [Tools.varsOutcome, if_true, hjob] at hout
      obtain ⟨current, hcopy, hout⟩ := Option.bind_eq_some_iff.mp hout
      obtain ⟨hholder, rfl⟩ := h.vars.copy id current hcopy
      split at hout
      · rename_i hsame
        obtain rfl := Option.some.inj hout
        refine ⟨?_, hfile hsame.1, fun values hvalues => ?_⟩
        · rw [hstep]
          exact File.write_content hholder content
        · subst hvalues
          exact onlyPaths_of_guided hload (h.content id _ loaded content hjob) hsame.2
      · cases hout

/-- Over any interleaving a successful save replaces what its form was loaded from, as far as the
revision tells versions apart, and nothing else. -/
theorem saves_replace_loaded (p : Tools β δ) (hload : ∀ v, p.load (p.dump v) = some v)
    (htext : Function.Injective p.textSha256) (hfile : Function.Injective p.fileSha256)
    (websites vars : β) (ops : List (Op β)) :
    Machine.Along p.step (Kept p ShowSame) (initial websites vars) ops := by
  refine Machine.Along.of_invariant (inv_initial websites vars) (fun _ op h => inv_step hfile h op)
    fun s op h => ?_
  cases op with
  | writeSite id ok => exact kept_writeSite hload htext h id ok
  | writeVars id ok => exact kept_writeVars hload hfile ShowSame h id ok
  | readSite id => exact h.websites.content
  | peekVars id => exact h.vars.content
  | readVars id => exact h.vars.content
  | _ => trivial

/-! ## Two versions with one revision -/

/-- A file that is the document it says, with digests that tell everything apart. -/
def plainTools : Tools Value (List Char ⊕ Value) where
  load := some
  dump := id
  textSha256 := .inl
  fileSha256 := .inr
  conflict _ _ := false
  sitesValid _ := true
  varsValid _ := true
  same _ _ := false
  admits _ := true

def noted (note : Value) : Value := .obj [(nameKey, .str ['a']), (['n'], note)]

def sitesDoc (site : Value) : Value := .obj [(sitesKey, .arr [site])]

/-- The note as a date, and as a text that reads the same. -/
def dated : Value := noted (.other ['1', '-', '1'])
def written : Value := noted (.str ['1', '-', '1'])

/-- A form shows the site with the date; a restore brings the text; the form is saved. -/
def restoredUnder : List (Op Value) :=
  [.startSite 1 (.put (sitesDoc written)), .lockSite 1, .writeSite 1 true, .unlockSite 1,
    .startSite 0 (.save ['a'] dated some), .lockSite 0, .readSite 0, .writeSite 0 true]

open Classical in
theorem applySite_restored :
    plainTools.applySite (.save ['a'] dated some) (sitesDoc written) = some (sitesDoc written) := by
  have hrevision : plainTools.entryRevision written = plainTools.entryRevision dated := by
    have htext : canonical written = canonical dated := by decide
    exact congrArg Sum.inl htext
  have hguard : (guard (plainTools.entryRevision written = plainTools.entryRevision dated) : Option Unit) =
      some () := by
    rw [guard, if_pos hrevision]
    rfl
  change ((guard (plainTools.entryRevision written = plainTools.entryRevision dated) : Option Unit).bind
    fun _ => some (sitesDoc written)) = _
  rw [hguard]
  rfl

open Classical in
/-- The form's save goes through although the version it shows is no longer there. -/
theorem other_version_replaced :
    ¬ Machine.Along plainTools.step (Kept plainTools Eq) (initial (sitesDoc dated) (.obj [])) restoredUnder := by
  intro h
  obtain ⟨-, -, -, -, -, -, -, hwrite, -⟩ := h
  obtain ⟨-, doc, -, pre, old, -, post, hdoc, -, hsites, -, rfl⟩ := hwrite ['a'] dated some (sitesDoc written) rfl
    (show (some (sitesDoc written)).bind (plainTools.applySite (.save ['a'] dated some)) = _ from
      applySite_restored)
  have hdoc' : doc = sitesDoc written := (Option.some.inj hdoc).symm
  subst hdoc'
  have hlist : [written] = pre ++ dated :: post := Option.some.inj hsites
  have hmem : dated ∈ [written] := hlist ▸ List.mem_append_right pre List.mem_cons_self
  have hsame : dated = written := List.mem_singleton.mp hmem
  cases hsame

open Classical in
theorem saves_replace_loaded_plain :
    Machine.Along plainTools.step (Kept plainTools ShowSame) (initial (sitesDoc dated) (.obj []))
      restoredUnder :=
  saves_replace_loaded plainTools (fun _ => rfl) (fun _ _ h => Sum.inl.inj h) (fun _ _ h => Sum.inr.inj h)
    _ _ _

end EasyHaProxy.Panel.SaveSessions
