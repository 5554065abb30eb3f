import EasyHaProxy.Lib.Pieces
import EasyHaProxy.Lib.Utf8
import EasyHaProxy.Lib.Yaml
import EasyHaProxy.Lib.Validate
import EasyHaProxy.Panel.Generation

/-! # The sources a rollback goes back to -/
namespace EasyHaProxy.Panel.Reconcile

open EasyHaProxy.Yaml (Value Fields stripped)
open EasyHaProxy.Validate

/-- What rendering, parsing and writing raise. `ConfigApplyPreparationError` is a `ValueError`. -/
inductive Raised
  | value (message : String)
  | preparation (message : String)
  | unicode
  | yaml
  | type
  | other

/-- `except (UnicodeDecodeError, yaml.YAMLError, ValueError, TypeError)`. -/
def Raised.caught : Raised → Bool
  | .other => false
  | _ => true

/-- `_spec_from_documents`: what a state keeps of its sources. -/
structure Spec where
  sites : Value
  tcp : Value
  configVars : Fields

/-- `text.encode("utf-8")`. -/
def encode (text : String) : List Byte := (Python.encodeUtf8 text.toList).map Base64.byte

/-- `_read_file_text`; nothing stands for a file that is missing or cannot be read. -/
def readFileText : Option (List Byte) → Except Raised String
  | none => .ok ""
  | some raw =>
    match Python.decodeStrict (raw.map Fin.val) with
    | some text => .ok (String.ofList (Text.newlines text))
    | none => .error .unicode

/-- What the panel asks of Python and of the template. -/
structure Service where
  sha256 : List Byte → List Char
  isGeneration_sha256 : ∀ raw, isGeneration (sha256 raw) = true
  /-- `yaml.safe_load(raw.decode("utf-8"))`. -/
  safeLoad : List Byte → Except Raised Value
  /-- The template with what the sources say and their generation. -/
  template : Spec → List Char → Except Raised String
  /-- `==` of two values. -/
  eq : Value → Value → Bool
  /-- `str` of a list or a mapping. -/
  str : Value → String
  /-- `json.dumps` of a state with these sources. -/
  dumps : Spec → Except Raised Unit

variable (svc : Service)

namespace Service

/-! ## Bundles -/

/-- `_load_yaml_bytes`. -/
def loadYamlBytes (raw : List Byte) (filename : String) : Except Raised Fields :=
  match svc.safeLoad raw with
  | .error .unicode | .error .yaml => .error (.value ("The saved " ++ filename ++ " snapshot is invalid"))
  | .error e => .error e
  | .ok .null => .ok []
  | .ok (.map fields) => .ok fields
  | .ok v => .ok [("_", v)]

def listOr (v : Option Value) : Value :=
  match v with
  | some (.list items) => .list items
  | _ => .list []

def specFromDocuments (sites tcp configVars : Fields) : Spec where
  sites := listOr (sites.lookup "sites")
  tcp := match tcp.lookup "tcp_proxies" with
    | none | some .null => listOr (tcp.lookup "tcp")
    | some v => listOr (some v)
  configVars := configVars

/-- `_spec_from_source_bundle`. -/
def spec (b : Bundle) : Except Raised Spec := do
  let sites ← svc.loadYamlBytes b.websites "websites.yml"
  let tcp ← svc.loadYamlBytes b.tcp "tcp.yml"
  let vars ← svc.loadYamlBytes b.vars "vars.yml"
  return specFromDocuments sites tcp vars

/-- `hashlib.sha256(text.encode("utf-8")).hexdigest()`. -/
def textSha256 (text : String) : List Char := svc.sha256 (encode text)

/-- `_render_haproxy_cfg_from_source_bundle`. -/
def render (b : Bundle) : Except Raised String := do
  let spec ← svc.spec b
  svc.template spec (svc.textSha256 (String.ofList b.framed))

/-- Whether a mapping has this hash under a name. -/
def hashAt (hashes : Fields) (name : String) (raw : List Byte) : Bool :=
  match hashes.lookup name with
  | some (.str s) => s == String.ofList (svc.sha256 raw)
  | _ => false

/-- The hashes of a bundle are those of a mapping, which has no other keys. -/
def hashesAre (hashes : Fields) (b : Bundle) : Bool :=
  hashes.length == 3 && svc.hashAt hashes "vars.yml" b.vars && svc.hashAt hashes "websites.yml" b.websites &&
    svc.hashAt hashes "tcp.yml" b.tcp

/-! ## What a state says of a bundle -/

/-- `str(state.get("haproxy_cfg_sha256") or "")`. -/
def recordedSha256 (state : Fields) : String :=
  match state.lookup "haproxy_cfg_sha256" with
  | some v => if v.truthy then v.text svc.str else ""
  | none => ""

/-- The state was confirmed for this configuration. -/
def RecordsLive (state : Fields) (active : String) : Prop :=
  svc.recordedSha256 state = String.ofList (svc.textSha256 active)

instance (state : Fields) (active : String) : Decidable (svc.RecordsLive state active) :=
  inferInstanceAs (Decidable (_ = _))

/-- `_state_source_hashes_match`. -/
def stateSourceHashesMatch (state : Fields) (b : Bundle) : Bool :=
  match state.lookup "source_sha256" with
  | some (.map expected) => svc.hashesAre expected b
  | _ => false

def specEquals (state : Fields) (spec : Spec) : Bool :=
  svc.eq ((state.lookup "sites").getD (.list [])) spec.sites &&
    svc.eq ((state.lookup "tcp").getD (.list [])) spec.tcp &&
    svc.eq (match state.lookup "config_vars" with
      | some v => if v.truthy then v else .map []
      | none => .map []) (.map spec.configVars)

/-- `_state_spec_matches_source_bundle`. -/
def stateSpecMatchesSourceBundle (state : Fields) (b : Bundle) : Except Raised Bool :=
  match svc.spec b with
  | .ok spec => .ok (svc.specEquals state spec)
  | .error e => if e.caught then .ok false else .error e

/-! ## The reconciliation -/

/-- `_persist_applied_state_bundle`; its writes are taken to succeed. -/
def persistAppliedStateBundle (cfgText : String) (b : Bundle) : Except Raised Unit := do
  let rendered ← svc.render b
  require (rendered = cfgText)
    (.value "The configuration sources changed while the safe snapshot was being saved")
  let spec ← svc.spec b
  svc.dumps spec

inductive Baseline
  | trustedSnapshot | legacySnapshotMetadata | savedRender | currentRender | externalDriftOverride
  deriving DecidableEq

def provenPrevious (active : String) (state : Fields) (b : Bundle) : Except Raised (Option (Bundle × Baseline)) := do
  let legacySourcesMatch ← svc.stateSpecMatchesSourceBundle state b
  if svc.RecordsLive state active ∧ (svc.stateSourceHashesMatch state b = true ∨ legacySourcesMatch = true) then
    if svc.stateSourceHashesMatch state b then return some (b, .trustedSnapshot)
    else do
      svc.persistAppliedStateBundle active b
      return some (b, .legacySnapshotMetadata)
  else
    match svc.render b with
    | .error e => if e.caught then return none else .error e
    | .ok savedRender =>
      if savedRender = active then do
        svc.persistAppliedStateBundle active b
        return some (b, .savedRender)
      else return none

/-- The explicit confirmation, where nothing is proven. -/
def confirmDrift (active : String) (current : Bundle) (allowExternalDrift : Bool) (expectedActiveSha256 : List Char) :
    Except Raised (Bundle × Baseline) :=
  let expectedHash := Text.lower (Text.strip expectedActiveSha256)
  if allowExternalDrift = false then
    .error (.preparation ("The active HAProxy configuration contains external changes. " ++
      "Explicit confirmation is required before overwriting it."))
  else if isGeneration expectedHash = false then
    .error (.preparation "Explicit confirmation of the active HAProxy configuration is invalid.")
  else if expectedHash ≠ svc.textSha256 active then
    .error (.preparation ("The active HAProxy configuration changed after it was reviewed. " ++
      "Review and confirm the new version before applying."))
  else .ok (current, .externalDriftOverride)

/-- What follows when the saved sources prove nothing. -/
def fromCurrent (active cfgText : String) (current : Bundle) (allowExternalDrift : Bool)
    (expectedActiveSha256 : List Char) : Except Raised (Bundle × Baseline) := do
  let currentRender ← svc.render current
  if currentRender = cfgText ∧ currentRender = active then do
    svc.persistAppliedStateBundle active current
    return (current, .currentRender)
  else svc.confirmDrift active current allowExternalDrift expectedActiveSha256

/-- `state and previous_bundle is not None`. -/
def savedPair (state : Option Fields) (previous : Option Bundle) : Option (Fields × Bundle) :=
  match state, previous with
  | some (field :: fields), some b => some (field :: fields, b)
  | _, _ => none

/-- What follows once the live configuration is read. -/
def reconcileText (active cfgText : String) (state : Option Fields) (current : Bundle) (previous : Option Bundle)
    (allowExternalDrift : Bool) (expectedActiveSha256 : List Char) : Except Raised (Bundle × Baseline) :=
  if active = "" then
    .error (.value "The active HAProxy configuration is unavailable; no transaction was started")
  else
    match savedPair state previous with
    | none => svc.fromCurrent active cfgText current allowExternalDrift expectedActiveSha256
    | some (state, b) => do
      let proven ← svc.provenPrevious active state b
      match proven with
      | some found => return found
      | none => svc.fromCurrent active cfgText current allowExternalDrift expectedActiveSha256

/-- `_reconcile_applied_state_for_candidate`. -/
def reconcile (live : Option (List Byte)) (cfgText : String) (state : Option Fields) (current : Bundle)
    (previous : Option Bundle) (allowExternalDrift : Bool) (expectedActiveSha256 : List Char) :
    Except Raised (Bundle × Baseline) := do
  let active ← readFileText live
  svc.reconcileText active cfgText state current previous allowExternalDrift expectedActiveSha256

/-! ## When it answers -/

/-- The saved sources carry the hashes of a state for this configuration. -/
def Trusted (active : String) (state : Fields) (b : Bundle) : Prop :=
  svc.RecordsLive state active ∧ svc.stateSourceHashesMatch state b = true

/-- The state is for this configuration, and what it keeps of its sources is what the saved ones say. -/
def LegacyMatch (active : String) (state : Fields) (b : Bundle) : Prop :=
  svc.RecordsLive state active ∧ svc.stateSpecMatchesSourceBundle state b = .ok true

/-- The bundle renders the configuration, and a state can be written for it. -/
def Savable (active : String) (b : Bundle) : Prop :=
  svc.render b = .ok active ∧ ∃ spec, svc.spec b = .ok spec ∧ svc.dumps spec = .ok ()

/-- The saved sources are saved once more: an older state vouches for them, or they render what runs. -/
def RepairsSaved (active : String) (state : Fields) (b : Bundle) : Prop :=
  ¬ svc.Trusted active state b ∧ (svc.LegacyMatch active state b ∨ svc.render b = .ok active)

/-- A bundle that is saved before the confirmation is looked at. -/
inductive Repairs (active cfgText : String) (state : Option Fields) (current : Bundle) (previous : Option Bundle) :
    Bundle → Prop
  | saved {fields : Fields} {b : Bundle} (pair : savedPair state previous = some (fields, b))
      (repairs : svc.RepairsSaved active fields b) : Repairs active cfgText state current previous b
  | current (same : cfgText = active)
      (unproven : ∀ fields b, savedPair state previous = some (fields, b) →
        ¬ svc.Trusted active fields b ∧ ¬ svc.RepairsSaved active fields b) :
      Repairs active cfgText state current previous current

/-- Looking at the saved sources raises nothing that is not caught. -/
structure Looks (active : String) (state : Option Fields) (previous : Option Bundle) : Prop where
  parses : ∀ fields b, savedPair state previous = some (fields, b) → ∀ e, svc.spec b = .error e → e.caught = true
  renders : ∀ fields b, savedPair state previous = some (fields, b) → ¬ svc.Trusted active fields b →
    ∀ e, svc.render b = .error e → e.caught = true

/-- The bundles that are given back without the confirmation. -/
inductive Accepts (active cfgText : String) (state : Option Fields) (current : Bundle) (previous : Option Bundle) :
    Bundle → Prop
  | trusted {fields : Fields} {b : Bundle} (pair : savedPair state previous = some (fields, b))
      (trusted : svc.Trusted active fields b) : Accepts active cfgText state current previous b
  | repaired {b : Bundle} (repairs : svc.Repairs active cfgText state current previous b)
      (savable : svc.Savable active b) : Accepts active cfgText state current previous b

/-- Nothing is known of the sources of the configuration. -/
def Unproven (active cfgText : String) (state : Option Fields) (previous : Option Bundle) : Prop :=
  cfgText ≠ active ∧ ∀ fields b, savedPair state previous = some (fields, b) →
    ¬ svc.Trusted active fields b ∧ ¬ svc.RepairsSaved active fields b

/-- The bundle renders the file, or a state for the file carries its hashes. -/
def ProvenFor (raw : List Byte) (state : Option Fields) (b : Bundle) : Prop :=
  (∃ text, svc.render b = .ok text ∧ encode text = raw) ∨
    ∃ fields, state = some fields ∧ svc.recordedSha256 fields = String.ofList (svc.sha256 raw) ∧
      svc.stateSourceHashesMatch fields b = true

/-- The file has no carriage return, which the reading would drop, or what is accepted for its text is proven
for the file all the same. -/
def ReadsWhole (raw : List Byte) (cfgText : String) (state : Option Fields) (current : Bundle)
    (previous : Option Bundle) : Prop :=
  13 ∉ raw ∨ ∀ active b, readFileText (some raw) = .ok active → svc.Looks active state previous →
    svc.Accepts active cfgText state current previous b → svc.ProvenFor raw state b

/-- Nothing that comes before the confirmation raises, and the confirmation is of the text that was read. -/
structure Confirmable (raw : List Byte) (active cfgText : String) (state : Option Fields) (current : Bundle)
    (previous : Option Bundle) : Prop where
  reads : readFileText (some raw) = .ok active
  live : active ≠ ""
  looks : svc.Looks active state previous
  repaired : ∀ b, svc.Repairs active cfgText state current previous b → svc.Savable active b
  confirmed : svc.Unproven active cfgText state previous → svc.sha256 raw = svc.textSha256 active

section Answers

variable {svc} {active cfgText : String} {fields : Fields} {state : Option Fields} {current b : Bundle}
  {previous : Option Bundle} {allowExternalDrift : Bool} {expectedActiveSha256 : List Char} {r : Bundle × Baseline}

theorem persist_eq_ok : svc.persistAppliedStateBundle cfgText b = .ok () ↔ svc.Savable cfgText b := by
  unfold persistAppliedStateBundle Savable
  constructor
  · intro h
    obtain ⟨rendered, hrendered, h⟩ := bind_eq_ok.mp h
    obtain ⟨_, hsame, h⟩ := bind_eq_ok.mp h
    obtain ⟨spec, hspec, hdumps⟩ := bind_eq_ok.mp h
    rw [require_eq_ok] at hsame
    exact ⟨hsame ▸ hrendered, spec, hspec, hdumps⟩
  · rintro ⟨hrender, spec, hspec, hdumps⟩
    exact bind_eq_ok.mpr ⟨cfgText, hrender, bind_eq_ok.mpr ⟨(), require_eq_ok.mpr rfl,
      bind_eq_ok.mpr ⟨spec, hspec, hdumps⟩⟩⟩

theorem specMatches_raises {e : Raised} :
    svc.stateSpecMatchesSourceBundle fields b = .error e ↔ svc.spec b = .error e ∧ e.caught = false := by
  unfold stateSpecMatchesSourceBundle
  cases hspec : svc.spec b with
  | ok spec => simp
  | error e' =>
    cases hc : e'.caught
    · simp only [hc]
      constructor
      · intro h
        obtain rfl : e' = e := by simpa using h
        exact ⟨rfl, hc⟩
      · rintro ⟨h, -⟩
        simpa using h
    · simp only [hc, if_true]
      constructor
      · intro h
        cases h
      · rintro ⟨h, he⟩
        obtain rfl : e' = e := by simpa using h
        rw [hc] at he
        cases he

/-- What looking at the saved sources can answer. -/
inductive Looked (svc : Service) (active : String) (fields : Fields) (b : Bundle) : Option (Bundle × Baseline) → Prop
  | trusted (h : svc.Trusted active fields b) : Looked svc active fields b (some (b, .trustedSnapshot))
  | legacy (hnot : ¬ svc.Trusted active fields b) (h : svc.LegacyMatch active fields b) (hsave : svc.Savable active b) :
      Looked svc active fields b (some (b, .legacySnapshotMetadata))
  | rendered (hnot : ¬ svc.Trusted active fields b) (hlegacy : ¬ svc.LegacyMatch active fields b)
      (hsave : svc.Savable active b) : Looked svc active fields b (some (b, .savedRender))
  | unproven (hnot : ¬ svc.Trusted active fields b) (hlegacy : ¬ svc.LegacyMatch active fields b)
      (hrender : svc.render b ≠ .ok active) (hcaught : ∀ e, svc.render b = .error e → e.caught = true) :
      Looked svc active fields b none

theorem looked_of_provenPrevious {found : Option (Bundle × Baseline)}
    (h : svc.provenPrevious active fields b = .ok found) : svc.Looked active fields b found := by
  unfold provenPrevious at h
  obtain ⟨matched, hmatched, h⟩ := bind_eq_ok.mp h
  have hlegacy : svc.LegacyMatch active fields b ↔ svc.RecordsLive fields active ∧ matched = true := by
    simp [LegacyMatch, hmatched]
  split at h
  · rename_i hlive
    split at h
    · rename_i hsources
      obtain rfl := Except.ok.inj h
      exact .trusted ⟨hlive.1, hsources⟩
    · rename_i hsources
      obtain ⟨_, hpersist, h⟩ := bind_eq_ok.mp h
      obtain rfl := Except.ok.inj h
      exact .legacy (fun ht => hsources ht.2) (hlegacy.mpr ⟨hlive.1, hlive.2.resolve_left hsources⟩)
        (persist_eq_ok.mp hpersist)
  · rename_i hlive
    have hnot : ¬ svc.Trusted active fields b := fun ht => hlive ⟨ht.1, Or.inl ht.2⟩
    have hnotLegacy : ¬ svc.LegacyMatch active fields b := fun hl =>
      hlive ⟨hl.1, Or.inr (hlegacy.mp hl).2⟩
    split at h
    · rename_i e hrender
      split at h
      · rename_i hcaught
        obtain rfl := Except.ok.inj h
        refine .unproven hnot hnotLegacy (by simp [hrender]) fun e' he' => ?_
        obtain rfl : e = e' := by simpa [hrender] using he'
        exact hcaught
      · cases h
    · rename_i savedRender hrender
      split at h
      · rename_i hsame
        obtain ⟨_, hpersist, h⟩ := bind_eq_ok.mp h
        obtain rfl := Except.ok.inj h
        exact .rendered hnot hnotLegacy (persist_eq_ok.mp hpersist)
      · rename_i hsame
        obtain rfl := Except.ok.inj h
        exact .unproven hnot hnotLegacy (by simpa [hrender] using hsame) (by simp [hrender])

/-- The saved sources answer unless something is raised that is not caught, or a repair fails. -/
theorem provenPrevious_answers_iff : (∃ found, svc.provenPrevious active fields b = .ok found) ↔
    (∀ e, svc.spec b = .error e → e.caught = true) ∧
    (¬ svc.Trusted active fields b → ∀ e, svc.render b = .error e → e.caught = true) ∧
    (svc.RepairsSaved active fields b → svc.Savable active b) := by
  constructor
  · rintro ⟨found, hfound⟩
    refine ⟨fun e he => ?_, fun hnot e he => ?_, fun ⟨hnot, hrepair⟩ => ?_⟩
    · by_contra hc
      have hraises : svc.stateSpecMatchesSourceBundle fields b = .error e :=
        specMatches_raises.mpr ⟨he, by simpa using hc⟩
      unfold provenPrevious at hfound
      rw [hraises] at hfound
      cases hfound
    · cases looked_of_provenPrevious hfound with
      | trusted h => exact absurd h hnot
      | legacy _ _ hsave => simp [hsave.1] at he
      | rendered _ _ hsave => simp [hsave.1] at he
      | unproven _ _ _ hcaught => exact hcaught e he
    · cases looked_of_provenPrevious hfound with
      | trusted h => exact absurd h hnot
      | legacy _ _ hsave => exact hsave
      | rendered _ _ hsave => exact hsave
      | unproven _ hlegacy hrender _ => exact absurd hrepair (not_or.mpr ⟨hlegacy, hrender⟩)
  · rintro ⟨hparse, hrender, hrepair⟩
    obtain ⟨matched, hmatched⟩ : ∃ matched, svc.stateSpecMatchesSourceBundle fields b = .ok matched := by
      cases hm : svc.stateSpecMatchesSourceBundle fields b with
      | ok matched => exact ⟨matched, rfl⟩
      | error e =>
        obtain ⟨hspec, hc⟩ := specMatches_raises.mp hm
        rw [hparse e hspec] at hc
        cases hc
    unfold provenPrevious
    rw [hmatched]
    change ∃ found, (if svc.RecordsLive fields active ∧ (svc.stateSourceHashesMatch fields b = true ∨ matched = true) then _
      else _) = Except.ok found
    split
    · rename_i hlive
      split
      · exact ⟨_, rfl⟩
      · rename_i hsources
        have hnot : ¬ svc.Trusted active fields b := fun ht => hsources ht.2
        have hlegacy : svc.LegacyMatch active fields b :=
          ⟨hlive.1, by rw [hmatched, hlive.2.resolve_left hsources]⟩
        rw [persist_eq_ok.mpr (hrepair ⟨hnot, Or.inl hlegacy⟩)]
        exact ⟨_, rfl⟩
    · rename_i hlive
      have hnot : ¬ svc.Trusted active fields b := fun ht => hlive ⟨ht.1, Or.inl ht.2⟩
      cases hr : svc.render b with
      | error e => exact ⟨none, if_pos (hrender hnot e hr)⟩
      | ok savedRender =>
        by_cases hsame : savedRender = active
        · rw [hsame] at hr
          simp only [hsame, if_true]
          rw [persist_eq_ok.mpr (hrepair ⟨hnot, Or.inr hr⟩)]
          exact ⟨_, rfl⟩
        · exact ⟨none, if_neg hsame⟩

theorem fromCurrent_ok (h : svc.fromCurrent active cfgText current allowExternalDrift expectedActiveSha256 = .ok r) :
    (r = (current, .currentRender) ∧ cfgText = active ∧ svc.Savable active current) ∨
      r = (current, .externalDriftOverride) := by
  unfold fromCurrent at h
  obtain ⟨currentRender, -, h⟩ := bind_eq_ok.mp h
  split at h
  · rename_i hsame
    obtain ⟨_, hpersist, h⟩ := bind_eq_ok.mp h
    exact Or.inl ⟨(Except.ok.inj h).symm, hsame.1.symm.trans hsame.2, persist_eq_ok.mp hpersist⟩
  · unfold confirmDrift at h
    dsimp only at h
    split at h
    · cases h
    · split at h
      · cases h
      · split at h
        · cases h
        · exact Or.inr (Except.ok.inj h).symm

theorem fromCurrent_same (hsave : svc.Savable active current) :
    svc.fromCurrent active active current allowExternalDrift expectedActiveSha256 = .ok (current, .currentRender) := by
  unfold fromCurrent
  rw [hsave.1]
  change (if active = active ∧ active = active then
    svc.persistAppliedStateBundle active current >>= fun _ => .ok (current, Baseline.currentRender) else _) = _
  rw [if_pos ⟨rfl, rfl⟩, persist_eq_ok.mpr hsave]
  rfl

theorem confirmDrift_answers_iff (hhex : isGeneration expectedActiveSha256 = true) :
    (∃ r, svc.confirmDrift active current true expectedActiveSha256 = .ok r) ↔
      expectedActiveSha256 = svc.textSha256 active := by
  unfold confirmDrift
  rw [strip_of_isGeneration hhex, lower_of_isGeneration hhex]
  by_cases hsame : expectedActiveSha256 = svc.textSha256 active
  · simp [← hsame, hhex]
  · simp [hsame, hhex]

/-- With the confirmation, a repair that fails is in the way, or a hash that is not that of the text. -/
theorem fromCurrent_answers_iff (hcurrent : svc.render current = .ok cfgText)
    (hhex : isGeneration expectedActiveSha256 = true) :
    (∃ r, svc.fromCurrent active cfgText current true expectedActiveSha256 = .ok r) ↔
      (cfgText = active → svc.Savable active current) ∧
        (cfgText ≠ active → expectedActiveSha256 = svc.textSha256 active) := by
  by_cases hsame : cfgText = active
  · subst hsame
    constructor
    · rintro ⟨r, h⟩
      refine ⟨fun _ => ?_, fun hne => absurd rfl hne⟩
      unfold fromCurrent at h
      rw [hcurrent] at h
      change (if cfgText = cfgText ∧ cfgText = cfgText then
        svc.persistAppliedStateBundle cfgText current >>= fun _ => .ok (current, Baseline.currentRender)
        else _) = _ at h
      rw [if_pos ⟨rfl, rfl⟩] at h
      obtain ⟨_, hpersist, -⟩ := bind_eq_ok.mp h
      exact persist_eq_ok.mp hpersist
    · exact fun h => ⟨_, fromCurrent_same (h.1 rfl)⟩
  · have hconfirm : svc.fromCurrent active cfgText current true expectedActiveSha256 =
        svc.confirmDrift active current true expectedActiveSha256 := by
      unfold fromCurrent
      rw [hcurrent]
      exact if_neg fun h => hsame h.2
    rw [hconfirm, confirmDrift_answers_iff hhex]
    exact ⟨fun h => ⟨fun he => absurd he hsame, fun _ => h⟩, fun h => h.2 hsame⟩

theorem of_savedPair (h : savedPair state previous = some (fields, b)) : state = some fields ∧ previous = some b := by
  unfold savedPair at h
  split at h
  · obtain ⟨rfl, rfl⟩ := by simpa using h
    exact ⟨rfl, rfl⟩
  · cases h

/-- Looking at the saved sources answers just where nothing is raised and what has to be repaired can be. -/
theorem looked_iff (hpair : savedPair state previous = some (fields, b)) :
    (∃ found, svc.provenPrevious active fields b = .ok found) ↔ svc.Looks active state previous ∧
      (svc.RepairsSaved active fields b → svc.Savable active b) := by
  rw [provenPrevious_answers_iff]
  constructor
  · rintro ⟨hparse, hrender, hrepair⟩
    refine ⟨⟨fun fields' b' hpair' => ?_, fun fields' b' hpair' => ?_⟩, hrepair⟩
    · obtain ⟨rfl, rfl⟩ : fields = fields' ∧ b = b' := by simpa [hpair] using hpair'
      exact hparse
    · obtain ⟨rfl, rfl⟩ : fields = fields' ∧ b = b' := by simpa [hpair] using hpair'
      exact hrender
  · exact fun ⟨hlooks, hrepair⟩ => ⟨hlooks.parses fields b hpair, hlooks.renders fields b hpair, hrepair⟩

/-- What is given back without the confirmation, whatever is confirmed. -/
theorem reconcileText_accepts_iff (hlive : active ≠ "") :
    (∃ how, how ≠ .externalDriftOverride ∧
      svc.reconcileText active cfgText state current previous allowExternalDrift expectedActiveSha256 = .ok (b, how)) ↔
      svc.Looks active state previous ∧ svc.Accepts active cfgText state current previous b := by
  unfold reconcileText
  rw [if_neg hlive]
  cases hpair : savedPair state previous with
  | none =>
    constructor
    · rintro ⟨how, hhow, h⟩
      refine ⟨⟨by simp [hpair], by simp [hpair]⟩, ?_⟩
      rcases fromCurrent_ok h with ⟨hr, hsame, hsave⟩ | hr
      · obtain ⟨rfl, rfl⟩ := Prod.mk.inj hr
        exact .repaired (.current hsame (by simp [hpair])) hsave
      · exact absurd (Prod.mk.inj hr).2 hhow
    · rintro ⟨-, haccepts⟩
      cases haccepts with
      | trusted pair _ => simp [hpair] at pair
      | repaired repairs hsave =>
        cases repairs with
        | saved pair _ => simp [hpair] at pair
        | current hsame _ =>
          subst hsame
          exact ⟨.currentRender, by decide, fromCurrent_same hsave⟩
  | some pair =>
    obtain ⟨fields, saved⟩ := pair
    constructor
    · rintro ⟨how, hhow, h⟩
      obtain ⟨found, hfound, h⟩ := bind_eq_ok.mp h
      refine ⟨((looked_iff hpair).mp ⟨found, hfound⟩).1, ?_⟩
      cases looked_of_provenPrevious hfound with
      | trusted ht =>
        obtain ⟨rfl, -⟩ := Prod.mk.inj (Except.ok.inj h)
        exact .trusted hpair ht
      | legacy hnot hlegacy hsave =>
        obtain ⟨rfl, -⟩ := Prod.mk.inj (Except.ok.inj h)
        exact .repaired (.saved hpair ⟨hnot, Or.inl hlegacy⟩) hsave
      | rendered hnot _ hsave =>
        obtain ⟨rfl, -⟩ := Prod.mk.inj (Except.ok.inj h)
        exact .repaired (.saved hpair ⟨hnot, Or.inr hsave.1⟩) hsave
      | unproven hnot hlegacy hrender _ =>
        rcases fromCurrent_ok h with ⟨hr, hsame, hsave⟩ | hr
        · obtain ⟨rfl, rfl⟩ := Prod.mk.inj hr
          refine .repaired (.current hsame fun fields' b' hpair' => ?_) hsave
          obtain ⟨rfl, rfl⟩ : fields = fields' ∧ saved = b' := by simpa [hpair] using hpair'
          exact ⟨hnot, fun hrepair => hrepair.2.elim hlegacy hrender⟩
        · exact absurd (Prod.mk.inj hr).2 hhow
    · rintro ⟨hlooks, haccepts⟩
      have hrepair : svc.RepairsSaved active fields saved → svc.Savable active saved := by
        intro hrepairs
        cases haccepts with
        | @trusted fields' _ hpair' ht =>
          obtain ⟨rfl, rfl⟩ : fields = fields' ∧ saved = b := by simpa [hpair] using hpair'
          exact absurd ht hrepairs.1
        | repaired repairs hsave =>
          cases repairs with
          | @saved fields' _ hpair' _ =>
            obtain ⟨rfl, rfl⟩ : fields = fields' ∧ saved = b := by simpa [hpair] using hpair'
            exact hsave
          | current _ hunproven => exact absurd hrepairs (hunproven fields saved hpair).2
      obtain ⟨found, hfound⟩ := (looked_iff hpair).mpr ⟨hlooks, hrepair⟩
      suffices h : ∃ how, how ≠ .externalDriftOverride ∧
          (match found with
            | some found => Except.ok found
            | none => svc.fromCurrent active cfgText current allowExternalDrift expectedActiveSha256) =
            Except.ok (b, how) by
        obtain ⟨how, hhow, h⟩ := h
        exact ⟨how, hhow, bind_eq_ok.mpr ⟨found, hfound, h⟩⟩
      have hlooked := looked_of_provenPrevious hfound
      cases haccepts with
      | @trusted fields' _ hpair' ht =>
        obtain ⟨rfl, rfl⟩ : fields = fields' ∧ saved = b := by simpa [hpair] using hpair'
        cases hlooked with
        | trusted => exact ⟨_, by decide, rfl⟩
        | legacy hnot => exact absurd ht hnot
        | rendered hnot => exact absurd ht hnot
        | unproven hnot => exact absurd ht hnot
      | repaired repairs hsave =>
        cases repairs with
        | @saved fields' _ hpair' hrepairs =>
          obtain ⟨rfl, rfl⟩ : fields = fields' ∧ saved = b := by simpa [hpair] using hpair'
          cases hlooked with
          | trusted => exact ⟨_, by decide, rfl⟩
          | legacy => exact ⟨_, by decide, rfl⟩
          | rendered => exact ⟨_, by decide, rfl⟩
          | unproven _ hlegacy hrender => exact absurd hrepairs.2 (not_or.mpr ⟨hlegacy, hrender⟩)
        | current hsame hunproven =>
          obtain ⟨hnot, hnorepair⟩ := hunproven fields saved hpair
          cases hlooked with
          | trusted ht => exact absurd ht hnot
          | legacy _ hlegacy => exact absurd ⟨hnot, Or.inl hlegacy⟩ hnorepair
          | rendered _ _ hsave' => exact absurd ⟨hnot, Or.inr hsave'.1⟩ hnorepair
          | unproven =>
            subst hsame
            exact ⟨.currentRender, by decide, fromCurrent_same hsave⟩

theorem reconcileText_answers_iff (hlive : active ≠ "") (hcurrent : svc.render current = .ok cfgText)
    (hhex : isGeneration expectedActiveSha256 = true) :
    (∃ r, svc.reconcileText active cfgText state current previous true expectedActiveSha256 = .ok r) ↔
      svc.Looks active state previous ∧
        (∀ b, svc.Repairs active cfgText state current previous b → svc.Savable active b) ∧
        (svc.Unproven active cfgText state previous → expectedActiveSha256 = svc.textSha256 active) := by
  unfold reconcileText
  rw [if_neg hlive]
  cases hpair : savedPair state previous with
  | none =>
    rw [fromCurrent_answers_iff hcurrent hhex]
    constructor
    · rintro ⟨hsave, hconfirm⟩
      refine ⟨⟨by simp [hpair], by simp [hpair]⟩, fun b hb => ?_, fun h => hconfirm h.1⟩
      cases hb with
      | saved pair _ => simp [hpair] at pair
      | current same _ => exact hsave same
    · rintro ⟨-, hrepaired, hconfirmed⟩
      exact ⟨fun hsame => hrepaired current (.current hsame (by simp [hpair])),
        fun hne => hconfirmed ⟨hne, by simp [hpair]⟩⟩
  | some pair =>
    obtain ⟨fields, b⟩ := pair
    constructor
    · rintro ⟨r, h⟩
      obtain ⟨found, hfound, h⟩ := bind_eq_ok.mp h
      obtain ⟨hlooks, hrepair⟩ := (looked_iff hpair).mp ⟨found, hfound⟩
      have hunproven {P : Prop} (hp : (cfgText = active → svc.Savable active current) ∧
            (cfgText ≠ active → expectedActiveSha256 = svc.textSha256 active) → P)
          (hnot : ¬ svc.Trusted active fields b) (hnorepair : ¬ svc.RepairsSaved active fields b) : P := by
        refine hp ((fromCurrent_answers_iff hcurrent hhex).mp ⟨r, ?_⟩)
        cases looked_of_provenPrevious hfound with
        | trusted ht => exact absurd ht hnot
        | legacy _ hlegacy => exact absurd ⟨hnot, Or.inl hlegacy⟩ hnorepair
        | rendered _ _ hsave => exact absurd ⟨hnot, Or.inr hsave.1⟩ hnorepair
        | unproven => exact h
      refine ⟨hlooks, fun b' hb => ?_, fun ⟨hne, hunknown⟩ => ?_⟩
      · cases hb with
        | @saved fields' _ hpair' hrepairs =>
          obtain ⟨rfl, rfl⟩ : fields = fields' ∧ b = b' := by simpa [hpair] using hpair'
          exact hrepair hrepairs
        | current hsame hunknown =>
          exact hunproven (fun h => h.1 hsame) (hunknown fields b hpair).1 (hunknown fields b hpair).2
      · exact hunproven (fun h => h.2 hne) (hunknown fields b hpair).1 (hunknown fields b hpair).2
    · rintro ⟨hlooks, hrepaired, hconfirmed⟩
      obtain ⟨found, hfound⟩ := (looked_iff hpair).mpr ⟨hlooks, fun h => hrepaired b (.saved hpair h)⟩
      cases looked_of_provenPrevious hfound with
      | unproven hnot hlegacy hrender _ =>
        have hunknown : ∀ fields' b', savedPair state previous = some (fields', b') →
            ¬ svc.Trusted active fields' b' ∧ ¬ svc.RepairsSaved active fields' b' := by
          intro fields' b' hpair'
          obtain ⟨rfl, rfl⟩ : fields = fields' ∧ b = b' := by simpa [hpair] using hpair'
          exact ⟨hnot, fun hrepair => hrepair.2.elim hlegacy hrender⟩
        obtain ⟨r, hr⟩ := (fromCurrent_answers_iff hcurrent hhex).mpr
          ⟨fun hsame => hrepaired current (.current hsame hunknown), fun hne => hconfirmed ⟨hne, hunknown⟩⟩
        exact ⟨r, bind_eq_ok.mpr ⟨none, hfound, hr⟩⟩
      | trusted => exact ⟨_, bind_eq_ok.mpr ⟨_, hfound, rfl⟩⟩
      | legacy => exact ⟨_, bind_eq_ok.mpr ⟨_, hfound, rfl⟩⟩
      | rendered => exact ⟨_, bind_eq_ok.mpr ⟨_, hfound, rfl⟩⟩

end Answers

/-! ## The live file -/

section Reading

variable {raw : List Byte} {active : String} {text : List Char}

theorem map_val_encode (active : String) : (encode active).map Fin.val = Python.encodeUtf8 active.toList := by
  unfold encode
  rw [List.map_map, List.map_congr_left, List.map_id]
  intro b hb
  obtain ⟨c, -, hc⟩ := List.mem_flatMap.mp hb
  exact Nat.mod_eq_of_lt (Python.octets_lt hc)

theorem encode_eq_iff : encode active = raw ↔ Python.encodeUtf8 active.toList = raw.map Fin.val := by
  rw [← map_val_encode]
  exact (List.map_injective_iff.mpr Fin.val_injective).eq_iff.symm

theorem readFileText_ok : readFileText (some raw) = .ok active ↔
    ∃ text, Python.encodeUtf8 text = raw.map Fin.val ∧ active = String.ofList (Text.newlines text) := by
  unfold readFileText
  dsimp only
  cases hdecode : Python.decodeStrict (raw.map Fin.val) with
  | none =>
    constructor
    · intro h
      cases h
    · rintro ⟨text, htext, -⟩
      rw [Python.decodeStrict_eq_some.mpr htext] at hdecode
      cases hdecode
  | some text =>
    constructor
    · intro h
      exact ⟨text, Python.decodeStrict_eq_some.mp hdecode, (Except.ok.inj h).symm⟩
    · rintro ⟨text', htext', rfl⟩
      rw [Python.decodeStrict_eq_some.mpr htext'] at hdecode
      rw [Option.some.inj hdecode]

theorem return_mem_iff (htext : Python.encodeUtf8 text = raw.map Fin.val) : 13 ∈ raw ↔ '\r' ∈ text := by
  rw [← List.mem_map_of_injective Fin.val_injective, ← htext]
  exact Python.mem_encodeUtf8_of_ascii (c := '\r') (by decide)

theorem encode_of_read (h : readFileText (some raw) = .ok active) : encode active = raw ↔ 13 ∉ raw := by
  obtain ⟨text, htext, rfl⟩ := readFileText_ok.mp h
  rw [encode_eq_iff, String.toList_ofList, ← htext, return_mem_iff htext, ← Text.newlines_eq_self]
  exact ⟨Python.encodeUtf8_injective, fun he => by rw [he]⟩

theorem ne_empty_of_return (h : readFileText (some raw) = .ok active) (hreturn : 13 ∈ raw) : active ≠ "" := by
  obtain ⟨text, htext, rfl⟩ := readFileText_ok.mp h
  have hmem := (return_mem_iff htext).mp hreturn
  intro he
  have hnil : Text.newlines text = [] := by simpa using congrArg String.toList he
  rw [Text.newlines_eq_nil.mp hnil] at hmem
  cases hmem

end Reading

section Answers

variable {svc} {raw : List Byte} {active cfgText : String} {state : Option Fields} {current b : Bundle}
  {previous : Option Bundle} {allowExternalDrift : Bool} {expectedActiveSha256 : List Char} {r : Bundle × Baseline}

theorem reconcile_ok : svc.reconcile (some raw) cfgText state current previous allowExternalDrift expectedActiveSha256 =
      .ok r ↔
    ∃ active, readFileText (some raw) = .ok active ∧ active ≠ "" ∧
      svc.reconcileText active cfgText state current previous allowExternalDrift expectedActiveSha256 = .ok r := by
  constructor
  · intro h
    obtain ⟨active, hread, h⟩ := bind_eq_ok.mp h
    refine ⟨active, hread, fun he => ?_, h⟩
    unfold reconcileText at h
    rw [if_pos he] at h
    cases h
  · rintro ⟨active, hread, -, h⟩
    exact bind_eq_ok.mpr ⟨active, hread, h⟩

theorem proven_of_accepts (h : svc.Accepts active cfgText state current previous b) :
    svc.render b = .ok active ∨ ∃ fields, state = some fields ∧ svc.RecordsLive fields active ∧
      svc.stateSourceHashesMatch fields b = true := by
  cases h with
  | @trusted fields _ pair trusted => exact Or.inr ⟨fields, (of_savedPair pair).1, trusted⟩
  | repaired _ savable => exact Or.inl savable.1

theorem provenFor_of_accepts (hsame : encode active = raw) (h : svc.Accepts active cfgText state current previous b) :
    svc.ProvenFor raw state b := by
  rcases proven_of_accepts h with hrender | ⟨fields, hstate, hlive, hsources⟩
  · exact Or.inl ⟨active, hrender, hsame⟩
  · exact Or.inr ⟨fields, hstate, hsame ▸ hlive, hsources⟩

/-- What is given back without the confirmation is proven just where the reading keeps the file, or what it
accepts is proven all the same. -/
theorem reconcile_proven_iff :
    (∀ allowExternalDrift expectedActiveSha256 r,
      svc.reconcile (some raw) cfgText state current previous allowExternalDrift expectedActiveSha256 = .ok r →
      r.2 ≠ .externalDriftOverride → svc.ProvenFor raw state r.1) ↔
      svc.ReadsWhole raw cfgText state current previous := by
  constructor
  · intro h
    by_cases hreturn : 13 ∈ raw
    · refine Or.inr fun active b hread hlooks haccepts => ?_
      have hlive := ne_empty_of_return hread hreturn
      obtain ⟨how, hhow, hr⟩ := (reconcileText_accepts_iff hlive).mpr ⟨hlooks, haccepts⟩
      exact h false [] (b, how) (reconcile_ok.mpr ⟨active, hread, hlive, hr⟩) hhow
    · exact Or.inl hreturn
  · rintro hwhole allowExternalDrift expectedActiveSha256 ⟨b, how⟩ h hhow
    obtain ⟨active, hread, hlive, hr⟩ := reconcile_ok.mp h
    obtain ⟨hlooks, haccepts⟩ := (reconcileText_accepts_iff hlive).mp ⟨how, hhow, hr⟩
    rcases hwhole with hreturn | hproven
    · exact provenFor_of_accepts ((encode_of_read hread).mpr hreturn) haccepts
    · exact hproven active b hread hlooks haccepts

theorem reconcile_answers_iff (hcurrent : svc.render current = .ok cfgText) :
    (∃ r, svc.reconcile (some raw) cfgText state current previous true (svc.sha256 raw) = .ok r) ↔
      ∃ active, svc.Confirmable raw active cfgText state current previous := by
  have hhex := svc.isGeneration_sha256 raw
  constructor
  · rintro ⟨r, h⟩
    obtain ⟨active, hread, hlive, hr⟩ := reconcile_ok.mp h
    obtain ⟨hlooks, hrepaired, hconfirmed⟩ := (reconcileText_answers_iff hlive hcurrent hhex).mp ⟨r, hr⟩
    exact ⟨active, hread, hlive, hlooks, hrepaired, hconfirmed⟩
  · rintro ⟨active, h⟩
    obtain ⟨r, hr⟩ := (reconcileText_answers_iff h.live hcurrent hhex).mpr ⟨h.looks, h.repaired, h.confirmed⟩
    exact ⟨r, reconcile_ok.mpr ⟨active, h.reads, h.live, hr⟩⟩

end Answers

/-- What is given back without the confirmation is proven for the file, and the hash of the file as a
confirmation gets an answer, each under its condition. -/
theorem reconcile_proven_and_confirmable (svc : Service) (raw : List Byte) (cfgText : String) (state : Option Fields)
    (current : Bundle) (previous : Option Bundle) :
    ((∀ allowExternalDrift expectedActiveSha256 r,
      svc.reconcile (some raw) cfgText state current previous allowExternalDrift expectedActiveSha256 = .ok r →
      r.2 ≠ .externalDriftOverride → svc.ProvenFor raw state r.1) ↔
      svc.ReadsWhole raw cfgText state current previous) ∧
    (svc.render current = .ok cfgText →
      ((∃ r, svc.reconcile (some raw) cfgText state current previous true (svc.sha256 raw) = .ok r) ↔
        ∃ active, svc.Confirmable raw active cfgText state current previous)) :=
  ⟨reconcile_proven_iff, reconcile_answers_iff⟩

/-! ## A confirmation that does not help -/

def emptySources : Bundle := ⟨asciiBytes "\x7b\x7d\n", asciiBytes "sites: []\n", asciiBytes "tcp_proxies: []\n"⟩

def oldText : String := "old template\n"

def newText : String := "new template\n"

/-- The hashes of the live text and of the framed sources. -/
def knownDigest (raw : List Byte) : List Char :=
  if raw = asciiBytes oldText then
    ['4', 'e', '2', '7', '9', 'a', '1', 'c', '2', '2', '5', 'b', 'd', '0', '7', '5', 'c', '4', '7',
     '4', '4', '0', 'e', '2', 'd', 'b', '3', 'e', '1', '6', '5', 'c', 'b', '3', '5', '4', '8', '0',
     '4', 'c', 'b', 'c', '7', 'c', '2', 'e', '3', '8', '6', '0', '5', '0', 'e', 'a', 'b', 'd', '9',
     '4', '9', 'e', '5', '9', '5', '1']
  else
    ['1', '6', '3', 'f', 'f', '0', 'e', '8', '5', '0', '7', 'd', '9', 'b', '0', '3', '2', '5', '4',
     '6', '6', 'e', '1', '5', '8', '9', '2', 'a', 'e', '3', '8', 'd', '0', '1', 'e', '5', '2', 'b',
     '0', '6', '4', '5', '7', '1', 'e', 'b', 'c', '0', 'a', '7', '9', '3', '0', 'f', '9', 'e', '5',
     'a', '2', 'e', '6', '8', 'c', 'a']

/-- The template was changed since the configuration was applied. -/
def upgraded : Service where
  sha256 := knownDigest
  isGeneration_sha256 raw := by
    unfold knownDigest
    split <;> decide
  safeLoad raw :=
    if raw = emptySources.websites then .ok (.map [("sites", .list [])])
    else if raw = emptySources.tcp then .ok (.map [("tcp_proxies", .list [])])
    else .ok (.map [])
  template _ _ := .ok newText
  eq
    | .list [], .list [] => true
    | .map [], .map [] => true
    | _, _ => false
  str _ := ""
  dumps _ := .ok ()

/-- A state of the older format, without the hashes of its sources. -/
def olderState : Fields :=
  [("haproxy_cfg_sha256", .str "4e279a1c225bd075c47440e2db3e165cb354804cbc7c2e386050eabd949e5951"),
    ("sites", .list []), ("tcp", .list []), ("config_vars", .map [])]

theorem reconcile_proven_and_confirmable_first : ∃ r,
    upgraded.reconcile (some (encode oldText)) newText none emptySources (some emptySources) true
      (upgraded.sha256 (encode oldText)) = .ok r := by
  refine ((reconcile_proven_and_confirmable upgraded (encode oldText) newText none emptySources
    (some emptySources)).2 rfl).mpr ⟨oldText, readFileText_ok.mpr ⟨oldText.toList, (map_val_encode _).symm, by decide⟩,
      by decide, ⟨fun _ _ h => (by cases h), fun _ _ h => (by cases h)⟩, fun b hb => ?_, fun _ => rfl⟩
  cases hb with
  | saved pair => cases pair
  | current same => exact absurd same (by decide)

/-- The running configuration is confirmed by its hash, and the apply is refused. -/
theorem confirmed_drift_refused : upgraded.render emptySources = .ok newText ∧
    upgraded.reconcile (some (encode oldText)) newText (some olderState) emptySources (some emptySources) true
      (upgraded.sha256 (encode oldText)) =
      .error (.value "The configuration sources changed while the safe snapshot was being saved") :=
  ⟨rfl, rfl⟩

end Service

end EasyHaProxy.Panel.Reconcile
