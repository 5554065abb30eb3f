import EasyHaProxy.Lib.Saved
import EasyHaProxy.Alertd.Settings

/-! A call changes what it does not name in two ways: a rule object replaces the whole rule, and a header
value that was cut after a space loses the space when it is read back. -/
namespace EasyHaProxy.Alertd

open Machine Validate Saved

/-! ## Texts read back -/

def EndsInSpace (text : String) : Prop := ∃ c, text.toList.getLast? = some c ∧ Text.isSpace c = true

theorem stripped_stripped (text : String) : stripped (stripped text) = stripped text := by
  simp [stripped, Text.strip_strip]

theorem toList_cleanText (text : String) (n : Nat) :
    (cleanText text n).toList = (Text.strip (text.toList.filter (fun c => !isControl c))).take n := by
  simp [cleanText]

theorem strip_sublist (l : List Char) : (Text.strip l).Sublist l :=
  (List.rdropWhile_prefix _ _).sublist.trans (List.dropWhile_suffix _).sublist

theorem dropWhile_take_strip (l : List Char) (n : Nat) :
    ((Text.strip l).take n).dropWhile Text.isSpace = (Text.strip l).take n := by
  have hstrip : (Text.strip l).dropWhile Text.isSpace = Text.strip l := by
    have hpre : Text.strip l <+: l.dropWhile Text.isSpace := List.rdropWhile_prefix _ _
    rw [List.dropWhile_eq_self_iff]
    intro hl
    rw [hpre.getElem hl]
    exact List.dropWhile_eq_self_iff.mp (List.dropWhile_idempotent _ _) (hl.trans_le hpre.length_le)
  rw [List.dropWhile_eq_self_iff] at hstrip ⊢
  intro hl
  rw [List.getElem_take]
  exact hstrip (hl.trans_le (List.length_take_le' n _))

/-- A text that was cleaned stays as it is when it is cleaned again, unless the cut left a space at
its end. -/
theorem cleanText_again (text : String) (n : Nat) :
    cleanText (cleanText text n) n = cleanText text n ↔ ¬ EndsInSpace (cleanText text n) := by
  obtain ⟨l, hl⟩ : ∃ l, l = (cleanText text n).toList := ⟨_, rfl⟩
  have hcontrol : l.filter (fun c => !isControl c) = l := by
    rw [List.filter_eq_self, hl, toList_cleanText]
    intro c hc
    exact (List.mem_filter.mp ((strip_sublist _).subset (List.mem_of_mem_take hc))).2
  have hhead : l.dropWhile Text.isSpace = l := by
    rw [hl, toList_cleanText]
    exact dropWhile_take_strip _ n
  have hlen : l.length ≤ n := by
    rw [hl, toList_cleanText]
    exact List.length_take_le _ _
  have hagain : (cleanText (cleanText text n) n).toList = l.rdropWhile Text.isSpace := by
    rw [toList_cleanText, ← hl, hcontrol, Text.strip, Text.trim, hhead]
    exact List.take_of_length_le ((List.rdropWhile_prefix _ l).length_le.trans hlen)
  rw [← String.toList_inj, hagain, ← hl, List.rdropWhile_eq_self_iff, EndsInSpace, ← hl]
  constructor
  · rintro hlast ⟨c, hc, hspace⟩
    have hne : l ≠ [] := by
      intro hnil
      rw [hnil] at hc
      cases hc
    rw [List.getLast?_eq_some_getLast hne] at hc
    obtain rfl := Option.some.inj hc
    exact hlast hne hspace
  · intro hlast hne hspace
    exact hlast ⟨l.getLast hne, List.getLast?_eq_some_getLast hne, hspace⟩

theorem readSeverity_text (severity : Severity) : readSeverity severity.text = some severity := by
  cases severity <;> decide +kernel

/-! ## Rules read back -/

/-- The catalogue's own values pass the checks. -/
theorem defaults_in_range {rule : Rule} (h : rule ∈ rules) :
    clampInt (some rule.triggerDelay) rule.triggerDelay 0 86400 = rule.triggerDelay ∧
      clampInt (some rule.repeatAfter) rule.repeatAfter 300 (7 * 86400) = rule.repeatAfter := by
  have hall : rules.all (fun rule =>
      clampInt (some rule.triggerDelay) rule.triggerDelay 0 86400 = rule.triggerDelay ∧
        clampInt (some rule.repeatAfter) rule.repeatAfter 300 (7 * 86400) = rule.repeatAfter) = true := by
    decide
  simpa using List.all_eq_true.mp hall rule h

theorem mem_of_rulesByName {name : String} {rule : Rule} (h : rulesByName name = some rule) : rule ∈ rules :=
  List.mem_of_find?_eq_some h

theorem clampInt_clampInt (value : Option Int) {default minV maxV : Int} (h : minV ≤ maxV)
    (hd : clampInt (some default) default minV maxV = default) :
    clampInt (some (clampInt value default minV maxV)) default minV maxV = clampInt value default minV maxV := by
  cases value with
  | none => exact hd
  | some n =>
    simp only [clampInt]
    omega

/-- The settings a rule has once they were read from a document. -/
theorem settings_asDict {rule : Rule} (h : rule ∈ rules) (o : RuleObject) :
    (o.settings rule).asDict.settings rule = o.settings rule := by
  obtain ⟨hdelay, hrepeat⟩ := defaults_in_range h
  simp only [RuleObject.settings, RuleSettings.asDict, Option.getD_some, Number.int?]
  rw [clampInt_clampInt _ (by decide) hdelay, clampInt_clampInt _ (by decide) hrepeat]

theorem lookup_eq_none {ν : Type} {entries : List (String × ν)} {name : String}
    (h : name ∉ entries.map Prod.fst) : entries.lookup name = none := by
  cases hl : entries.lookup name with
  | none => rfl
  | some v => exact absurd (List.mem_map_of_mem (Dict.mem_of_lookup hl)) h

theorem get?_foldl_rules (entries : List (String × Option RuleObject)) (loaded : Dict String RuleSettings)
    (hn : (entries.map Prod.fst).Nodup) (name : String) :
    (entries.foldl loadRule loaded).get? name =
      match rulesByName name, entries.lookup name with
      | some rule, some (some o) => some (o.settings rule)
      | _, _ => loaded.get? name := by
  induction entries generalizing loaded with
  | nil => cases rulesByName name <;> rfl
  | cons e entries ih =>
    obtain ⟨key, value⟩ := e
    rw [List.map_cons, List.nodup_cons] at hn
    rw [List.foldl_cons, ih _ hn.2]
    by_cases hk : name = key
    · subst hk
      rw [lookup_eq_none hn.1, List.lookup_cons_self]
      cases hr : rulesByName name with
      | none => simp [loadRule, hr]
      | some rule => cases value <;> simp [loadRule, hr, name_of_rulesByName hr]
    · rw [List.lookup_cons, beq_eq_false_iff_ne.mpr hk]
      cases hr : rulesByName key with
      | none => simp [loadRule, hr]
      | some rule =>
        cases value with
        | none => simp [loadRule, hr]
        | some o =>
          have hne : name ≠ rule.name := by
            rw [name_of_rulesByName hr]
            exact hk
          simp [loadRule, hr, hne]

theorem get?_loadRules (rules : Dict String (Option RuleObject)) (name : String) :
    (loadRules rules).get? name =
      match rulesByName name, rules.get? name with
      | some rule, some (some o) => some (o.settings rule)
      | _, _ => none := by
  rw [loadRules, get?_foldl_rules _ _ rules.nodup]
  rfl

theorem get?_foldl_overlay {ν : Type} (entries : List (String × ν)) (d : Dict String ν)
    (hn : (entries.map Prod.fst).Nodup) (name : String) :
    (entries.foldl (fun d e => d.set e.1 e.2) d).get? name = (entries.lookup name).or (d.get? name) := by
  induction entries generalizing d with
  | nil => rfl
  | cons e entries ih =>
    obtain ⟨key, value⟩ := e
    rw [List.map_cons, List.nodup_cons] at hn
    rw [List.foldl_cons, ih _ hn.2, Dict.get?_set]
    by_cases hk : name = key
    · subst hk
      simp [lookup_eq_none hn.1]
    · rw [List.lookup_cons, beq_eq_false_iff_ne.mpr hk]
      simp [hk]

theorem get?_overlay {ν : Type} (old new : Dict String ν) (name : String) :
    (overlay old new).get? name = (new.get? name).or (old.get? name) :=
  get?_foldl_overlay _ _ new.nodup name

/-! ## Settings one by one -/

/-- A rule of the catalogue. -/
abbrev KnownRule := { rule : Rule // rulesByName rule.name = some rule }

inductive Setting
  | enabled
  | emailEnabled
  | recipient
  | minSeverity
  | portalMinSeverity
  | webhookUrl
  | webhookHeaderName
  | webhookHeaderValue
  | webhookAllowPrivate
  | ruleEnabled (rule : KnownRule)
  | ruleTriggerDelay (rule : KnownRule)
  | ruleRepeatAfter (rule : KnownRule)

inductive SettingValue
  | flag (b : Bool)
  | text (text : String)
  | severity (severity : Severity)
  | seconds (n : Int)
  deriving DecidableEq

def AlertSettings.value (c : AlertSettings) : Setting → SettingValue
  | .enabled => .flag c.enabled
  | .emailEnabled => .flag c.emailEnabled
  | .recipient => .text c.recipient
  | .minSeverity => .severity c.minSeverity
  | .portalMinSeverity => .severity c.portalMinSeverity
  | .webhookUrl => .text c.webhookUrl
  | .webhookHeaderName => .text c.webhookHeaderName
  | .webhookHeaderValue => .text c.webhookHeaderValue
  | .webhookAllowPrivate => .flag c.webhookAllowPrivate
  | .ruleEnabled rule => .flag (c.settingsFor rule.1).enabled
  | .ruleTriggerDelay rule => .seconds (c.settingsFor rule.1).triggerDelay
  | .ruleRepeatAfter rule => .seconds (c.settingsFor rule.1).repeatAfter

def ConfigPayload.ruleObject (p : ConfigPayload) (name : String) : Option RuleObject :=
  (p.rulesD.get? name).join

def ConfigPayload.headerSent (p : ConfigPayload) : Option String :=
  if p.webhookHeaderValue = some mask then none else p.webhookHeaderValue

def ConfigPayload.wanted (p : ConfigPayload) : Setting → Option SettingValue
  | .enabled => p.enabled.map .flag
  | .emailEnabled => p.emailEnabled.map .flag
  | .recipient => p.recipient.map (fun text => .text (stripped text))
  | .minSeverity => p.minSeverity.map (fun text => .severity ((readSeverity text).getD .warning))
  | .portalMinSeverity => p.portalMinSeverity.map (fun text => .severity ((readSeverity text).getD .warning))
  | .webhookUrl => p.webhookUrl.map (fun text => .text (stripped text))
  | .webhookHeaderName => p.webhookHeaderName.map (fun text => .text (stripped text))
  | .webhookHeaderValue => p.headerSent.map (fun text => .text (cleanText text maxHeaderChars))
  | .webhookAllowPrivate => p.webhookAllowPrivate.map .flag
  | .ruleEnabled rule => ((p.ruleObject rule.1.name).bind (·.enabled)).map .flag
  | .ruleTriggerDelay rule =>
    ((p.ruleObject rule.1.name).bind (·.triggerDelay)).map
      (fun n => .seconds (clampInt n.int? rule.1.triggerDelay 0 86400))
  | .ruleRepeatAfter rule =>
    ((p.ruleObject rule.1.name).bind (·.repeatAfter)).map
      (fun n => .seconds (clampInt n.int? rule.1.repeatAfter 300 (7 * 86400)))

/-- What a setting becomes that the payload does not name: inside a rule that is sent, what the
catalogue says. -/
def AlertSettings.leftover (c : AlertSettings) (p : ConfigPayload) : Setting → SettingValue
  | .webhookHeaderValue => .text (cleanText c.webhookHeaderValue maxHeaderChars)
  | .ruleEnabled rule =>
    if (p.ruleObject rule.1.name).isSome then .flag rule.1.enabled else c.value (.ruleEnabled rule)
  | .ruleTriggerDelay rule =>
    if (p.ruleObject rule.1.name).isSome then .seconds rule.1.triggerDelay else c.value (.ruleTriggerDelay rule)
  | .ruleRepeatAfter rule =>
    if (p.ruleObject rule.1.name).isSome then .seconds rule.1.repeatAfter else c.value (.ruleRepeatAfter rule)
  | setting => c.value setting

/-- The settings were read from a document, as all that are ever installed are. -/
def Loaded (c : AlertSettings) : Prop := ∃ doc : Document, doc.load = .ok c

variable {c r : AlertSettings} {net : Net} {p : ConfigPayload} {doc : Document}

theorem eq_of_load (h : doc.load = .ok c) : c = doc.settings := by
  unfold Document.load at h
  split at h
  · cases h
  · exact (Except.ok.inj h).symm

/-- A text field that reads back as it is: it was stripped, and is empty or passes its check. -/
structure ReadBack (ok : String → Bool) (text : String) : Prop where
  stripped : stripped text = text
  ok : text = "" ∨ ok text = true

theorem readBack_readField (ok : String → Bool) (text : String) : ReadBack ok (readField ok text) := by
  unfold readField
  split
  · rename_i hok
    exact ⟨stripped_stripped text, Or.inr hok⟩
  · exact ⟨by decide +kernel, Or.inl rfl⟩

theorem ReadBack.readField {ok : String → Bool} {text : String} (h : ReadBack ok text) : readField ok text = text := by
  rw [Alertd.readField, h.stripped]
  rcases h.ok with rfl | hok
  · simp
  · simp [hok]

/-- What holds of all settings that were loaded. -/
structure Normal (c : AlertSettings) : Prop where
  recipient : ReadBack emailOk c.recipient
  webhookUrl : stripped c.webhookUrl = c.webhookUrl
  webhookHeaderName : ReadBack headerNameOk c.webhookHeaderName
  webhookHeaderValue : ∃ text, c.webhookHeaderValue = cleanText text maxHeaderChars
  rules : ∀ name settings, c.rules.get? name = some settings →
    ∃ rule, rulesByName name = some rule ∧ settings.asDict.settings rule = settings

theorem Loaded.normal (h : Loaded c) : Normal c := by
  obtain ⟨doc, hload⟩ := h
  obtain rfl := eq_of_load hload
  have hrecipient : ReadBack emailOk doc.settings.recipient := by
    simpa only [Document.settings] using readBack_readField emailOk _
  have hname : ReadBack headerNameOk doc.settings.webhookHeaderName := by
    simpa only [Document.settings] using readBack_readField headerNameOk _
  refine ⟨hrecipient, stripped_stripped (doc.webhookUrl.getD ""), hname, ⟨doc.webhookHeaderValue.getD "", rfl⟩, fun name settings hget => ?_⟩
  have hrules : (loadRules doc.rulesD).get? name = some settings := hget
  rw [get?_loadRules] at hrules
  split at hrules
  · rename_i rule o hrule ho
    obtain rfl := Option.some.inj hrules
    exact ⟨rule, hrule, settings_asDict (mem_of_rulesByName hrule) o⟩
  · cases hrules

/-! ## What one call changes -/

theorem stripped_empty : stripped "" = "" := by decide +kernel

theorem mergeField_ok {ok : String → Bool} {error old text : String} {new : Option String} (hold : ReadBack ok old)
    (h : mergeField ok error old new = .ok text) : readField ok text = (new.map stripped).getD old := by
  cases new with
  | none =>
    obtain rfl := Except.ok.inj h
    exact hold.readField
  | some sent =>
    simp only [mergeField] at h
    split at h
    · cases h
    · rename_i hok
      obtain rfl := Except.ok.inj h
      refine ReadBack.readField ⟨stripped_stripped sent, ?_⟩
      by_cases hempty : stripped sent = ""
      · exact Or.inl hempty
      · exact Or.inr (by simpa [hempty] using hok)

theorem mergeUrl_ok {allowPrivate : Bool} {old text : String} {new : Option String} (hold : stripped old = old)
    (h : mergeUrl net allowPrivate old new = .ok text) : stripped text = (new.map stripped).getD old := by
  cases new with
  | none =>
    obtain rfl := Except.ok.inj h
    exact hold
  | some sent =>
    simp only [mergeUrl] at h
    split at h
    · rename_i hempty
      obtain rfl := Except.ok.inj h
      rw [stripped_empty]
      exact hempty.symm
    · split at h
      · cases h
      · obtain rfl := Except.ok.inj h
        exact stripped_stripped sent

theorem mergeSeverity_ok {key : String} {old severity : Severity} {new : Option String}
    (h : mergeSeverity key old new = .ok severity) :
    severity = (new.map (fun text => (readSeverity text).getD .warning)).getD old := by
  cases new with
  | none => exact (Except.ok.inj h).symm
  | some sent =>
    simp only [mergeSeverity] at h
    split at h
    · cases h
    · rename_i read hread
      obtain rfl := Except.ok.inj h
      simp [hread]

theorem mergeRules_ok {old rules : Dict String (Option RuleObject)} (h : mergeRules old p = .ok rules) (name : String) :
    rules.get? name = (p.rulesD.get? name).or (old.get? name) := by
  simp only [mergeRules, bind_eq_ok, require_eq_ok, pure_eq_ok] at h
  obtain ⟨_, -, _, -, rfl⟩ := h
  exact get?_overlay _ _ _

/-- The rules an accepted payload sends are objects. -/
theorem isSome_of_mergeRules {old rules : Dict String (Option RuleObject)} (h : mergeRules old p = .ok rules)
    {name : String} {value : Option RuleObject} (hget : p.rulesD.get? name = some value) : value.isSome = true := by
  simp only [mergeRules, bind_eq_ok, require_eq_ok, pure_eq_ok] at h
  obtain ⟨_, -, _, hall, -⟩ := h
  obtain ⟨_, hcheck⟩ := ok_of_mapM_ok hall (Dict.mem_entries.mpr hget)
  simp only [checkRule, bind_eq_ok, require_eq_ok] at hcheck
  obtain ⟨_, -, hsome⟩ := hcheck
  exact hsome

/-- A rule keeps what it had where none is sent, and is read from the object where one is. -/
theorem settingsFor_merged (hc : Normal c) {rules : Dict String (Option RuleObject)}
    (h : mergeRules c.asDict.rulesD p = .ok rules) (hdoc : doc.rulesD = rules) (rule : KnownRule) :
    doc.settings.settingsFor rule.1 =
      ((p.ruleObject rule.1.name).map (·.settings rule.1)).getD (c.settingsFor rule.1) := by
  have hrules : doc.settings.rules = loadRules rules := by rw [Document.settings, hdoc]
  rw [AlertConfig.settingsFor, hrules, Dict.getD, get?_loadRules, rule.2, mergeRules_ok h, ConfigPayload.ruleObject]
  cases hsent : p.rulesD.get? rule.1.name with
  | some value =>
    obtain ⟨o, rfl⟩ := Option.isSome_iff_exists.mp (isSome_of_mergeRules h hsent)
    rfl
  | none =>
    have hold : c.asDict.rulesD.get? rule.1.name = (c.rules.get? rule.1.name).map (fun v => some v.asDict) := by
      simp [AlertSettings.asDict, Document.rulesD]
    rw [hold]
    cases hget : c.rules.get? rule.1.name with
    | none => simp [AlertConfig.settingsFor, Dict.getD, hget]
    | some v =>
      obtain ⟨known, hknown, hv⟩ := hc.rules _ _ hget
      rw [rule.2] at hknown
      obtain rfl := Option.some.inj hknown
      simp [AlertConfig.settingsFor, Dict.getD, hget, hv]

theorem clampInt_default {rule : Rule} (h : rule ∈ rules) :
    clampInt (Number.value rule.triggerDelay).int? rule.triggerDelay 0 86400 = rule.triggerDelay ∧
      clampInt (Number.value rule.repeatAfter).int? rule.repeatAfter 300 (7 * 86400) = rule.repeatAfter :=
  defaults_in_range h

/-- Every setting afterwards: as the payload names it, and else what is left over. -/
theorem value_updateConfig (hc : Loaded c) (h : updateConfig net c p = .ok r) (setting : Setting) :
    r.value setting = (p.wanted setting).getD (c.leftover p setting) := by
  have hn := hc.normal
  simp only [updateConfig, AlertSettings.merged, bind_eq_ok, pure_eq_ok] at h
  obtain ⟨doc, ⟨recipient, hrecipient, minSeverity, hmin, portalMin, hportal, url, hurl, name, hname, rules, hrules,
    hdoc⟩, hload⟩ := h
  obtain rfl := eq_of_load hload
  have hrule := settingsFor_merged hn hrules (show doc.rulesD = rules by rw [← hdoc]; rfl)
  subst hdoc
  cases setting with
  | enabled =>
    cases hp : p.enabled <;>
      simp [AlertSettings.value, ConfigPayload.wanted, AlertSettings.leftover, Document.settings, hp]
  | emailEnabled =>
    cases hp : p.emailEnabled <;>
      simp [AlertSettings.value, ConfigPayload.wanted, AlertSettings.leftover, Document.settings, hp]
  | recipient =>
    have hread := mergeField_ok hn.recipient hrecipient
    simp only [AlertSettings.value, Document.settings, Option.getD_some, hread]
    cases hp : p.recipient <;> simp [ConfigPayload.wanted, AlertSettings.leftover, AlertSettings.value, hp]
  | minSeverity =>
    have hread := mergeSeverity_ok hmin
    simp only [AlertSettings.value, Document.settings, Option.getD_some, Option.bind_some, readSeverity_text]
    rw [if_neg (by simp [configVersion]), hread]
    cases hp : p.minSeverity <;> simp [ConfigPayload.wanted, AlertSettings.leftover, AlertSettings.value, hp]
  | portalMinSeverity =>
    have hread := mergeSeverity_ok hportal
    simp only [AlertSettings.value, Document.settings, Option.getD_some, Option.bind_some, readSeverity_text, hread]
    cases hp : p.portalMinSeverity <;> simp [ConfigPayload.wanted, AlertSettings.leftover, AlertSettings.value, hp]
  | webhookUrl =>
    have hread := mergeUrl_ok hn.webhookUrl hurl
    simp only [AlertSettings.value, Document.settings, Option.getD_some, hread]
    cases hp : p.webhookUrl <;> simp [ConfigPayload.wanted, AlertSettings.leftover, AlertSettings.value, hp]
  | webhookHeaderName =>
    have hread := mergeField_ok hn.webhookHeaderName hname
    simp only [AlertSettings.value, Document.settings, Option.getD_some, hread]
    cases hp : p.webhookHeaderName <;> simp [ConfigPayload.wanted, AlertSettings.leftover, AlertSettings.value, hp]
  | webhookHeaderValue =>
    simp only [AlertSettings.value, Document.settings, Option.getD_some]
    cases hp : p.webhookHeaderValue with
    | none => simp [ConfigPayload.wanted, ConfigPayload.headerSent, AlertSettings.leftover, mergeHeaderValue, hp]
    | some sent =>
      by_cases hmask : sent = mask <;>
        simp [ConfigPayload.wanted, ConfigPayload.headerSent, AlertSettings.leftover, mergeHeaderValue, hp, hmask]
  | webhookAllowPrivate =>
    cases hp : p.webhookAllowPrivate <;>
      simp [AlertSettings.value, ConfigPayload.wanted, AlertSettings.leftover, Document.settings, hp]
  | ruleEnabled rule =>
    rw [AlertSettings.value, hrule rule]
    cases ho : p.ruleObject rule.1.name with
    | none => simp [ConfigPayload.wanted, AlertSettings.leftover, AlertSettings.value, ho]
    | some o =>
      cases hp : o.enabled <;> simp [ConfigPayload.wanted, AlertSettings.leftover, RuleObject.settings, ho, hp]
  | ruleTriggerDelay rule =>
    have hdefault := (clampInt_default (mem_of_rulesByName rule.2)).1
    rw [AlertSettings.value, hrule rule]
    cases ho : p.ruleObject rule.1.name with
    | none => simp [ConfigPayload.wanted, AlertSettings.leftover, AlertSettings.value, ho]
    | some o =>
      cases hp : o.triggerDelay <;>
        simp [ConfigPayload.wanted, AlertSettings.leftover, RuleObject.settings, ho, hp, hdefault]
  | ruleRepeatAfter rule =>
    have hdefault := (clampInt_default (mem_of_rulesByName rule.2)).2
    rw [AlertSettings.value, hrule rule]
    cases ho : p.ruleObject rule.1.name with
    | none => simp [ConfigPayload.wanted, AlertSettings.leftover, AlertSettings.value, ho]
    | some o =>
      cases hp : o.repeatAfter with
      | none =>
        simp only [ConfigPayload.wanted, AlertSettings.leftover, RuleObject.settings, ho, hp, Option.map_some,
          Option.bind_some, Option.map_none, Option.getD_none, Option.getD_some, Option.isSome_some, if_true, hdefault]
      | some n => simp [ConfigPayload.wanted, RuleObject.settings, ho, hp]

theorem loaded_updateConfig (h : updateConfig net c p = .ok r) : Loaded r := by
  obtain ⟨doc, -, hload⟩ := bind_eq_ok.mp h
  exact ⟨doc, hload⟩

/-- A payload that leaves nothing of these settings to change on its own: what a rule object does not
name is what the catalogue says, and a header value that stays has no space at its end. -/
structure Suits (c : AlertSettings) (p : ConfigPayload) : Prop where
  enabled : ∀ rule : KnownRule, ∀ o ∈ p.ruleObject rule.1.name, o.enabled = none →
    (c.settingsFor rule.1).enabled = rule.1.enabled
  triggerDelay : ∀ rule : KnownRule, ∀ o ∈ p.ruleObject rule.1.name, o.triggerDelay = none →
    (c.settingsFor rule.1).triggerDelay = rule.1.triggerDelay
  repeatAfter : ∀ rule : KnownRule, ∀ o ∈ p.ruleObject rule.1.name, o.repeatAfter = none →
    (c.settingsFor rule.1).repeatAfter = rule.1.repeatAfter
  header : p.headerSent = none → ¬ EndsInSpace c.webhookHeaderValue

theorem header_again (hc : Loaded c) :
    cleanText c.webhookHeaderValue maxHeaderChars = c.webhookHeaderValue ↔ ¬ EndsInSpace c.webhookHeaderValue := by
  obtain ⟨text, htext⟩ := hc.normal.webhookHeaderValue
  rw [htext]
  exact cleanText_again text maxHeaderChars

/-- Nothing changes on its own exactly when the payload suits the settings. -/
theorem leftover_iff (hc : Loaded c) :
    (∀ setting, p.wanted setting = none → c.leftover p setting = c.value setting) ↔ Suits c p := by
  constructor
  · intro h
    refine ⟨fun rule o ho hnone => ?_, fun rule o ho hnone => ?_, fun rule o ho hnone => ?_, fun hnone => ?_⟩
    · have hrule := h (.ruleEnabled rule) (by simp [ConfigPayload.wanted, Option.mem_def.mp ho, hnone])
      simpa [AlertSettings.leftover, AlertSettings.value, Option.mem_def.mp ho, eq_comm] using hrule
    · have hrule := h (.ruleTriggerDelay rule) (by simp [ConfigPayload.wanted, Option.mem_def.mp ho, hnone])
      simpa [AlertSettings.leftover, AlertSettings.value, Option.mem_def.mp ho, eq_comm] using hrule
    · have hrule := h (.ruleRepeatAfter rule) (by simp [ConfigPayload.wanted, Option.mem_def.mp ho, hnone])
      simpa [AlertSettings.leftover, AlertSettings.value, Option.mem_def.mp ho, eq_comm] using hrule
    · have hheader := h .webhookHeaderValue (by simp [ConfigPayload.wanted, hnone])
      exact (header_again hc).mp (by simpa [AlertSettings.leftover, AlertSettings.value] using hheader)
  · intro h setting hwanted
    cases setting with
    | webhookHeaderValue =>
      have hnone : p.headerSent = none := by simpa [ConfigPayload.wanted] using hwanted
      simp [AlertSettings.leftover, AlertSettings.value, (header_again hc).mpr (h.header hnone)]
    | ruleEnabled rule =>
      cases ho : p.ruleObject rule.1.name with
      | none => simp [AlertSettings.leftover, ho]
      | some o =>
        have hnone : o.enabled = none := by simpa [ConfigPayload.wanted, ho] using hwanted
        simp [AlertSettings.leftover, AlertSettings.value, ho, h.enabled rule o ho hnone]
    | ruleTriggerDelay rule =>
      cases ho : p.ruleObject rule.1.name with
      | none => simp [AlertSettings.leftover, ho]
      | some o =>
        have hnone : o.triggerDelay = none := by simpa [ConfigPayload.wanted, ho] using hwanted
        simp [AlertSettings.leftover, AlertSettings.value, ho, h.triggerDelay rule o ho hnone]
    | ruleRepeatAfter rule =>
      cases ho : p.ruleObject rule.1.name with
      | none => simp [AlertSettings.leftover, ho]
      | some o =>
        have hnone : o.repeatAfter = none := by simpa [ConfigPayload.wanted, ho] using hwanted
        simp [AlertSettings.leftover, AlertSettings.value, ho, h.repeatAfter rule o ho hnone]
    | _ => rfl

theorem frame_iff (hc : Loaded c) (h : updateConfig net c p = .ok r) :
    (∀ setting, p.wanted setting = none → r.value setting = c.value setting) ↔ Suits c p := by
  rw [← leftover_iff hc]
  refine forall_congr' fun setting => forall_congr' fun hnone => ?_
  rw [value_updateConfig hc h, hnone, Option.getD_none]

/-! ## Calls on several threads -/

/-- A call: what was sent, and what the network answers it. -/
structure SaveCall where
  payload : ConfigPayload
  net : Net

def saveUpdate (c : AlertSettings) (call : SaveCall) : Option AlertSettings :=
  (updateConfig call.net c call.payload).toOption

theorem ok_of_saveUpdate {call : SaveCall} (h : saveUpdate c call = some r) :
    updateConfig call.net c call.payload = .ok r := by
  unfold saveUpdate at h
  cases hu : updateConfig call.net c call.payload with
  | error e =>
    rw [hu] at h
    cases h
  | ok r' =>
    rw [hu] at h
    rw [Option.some.inj h]

/-- Saving changes what was sent and nothing else exactly when the payload suits the settings. In
every run of any number of calls that begin one at a time and suit what is installed then, the file
holds what is installed once none is under way, and every setting has the value of the last call that
named it. -/
theorem saving_changes_only_sent (c : AlertSettings) (hc : Loaded c) :
    (∀ net p r, updateConfig net c p = .ok r →
      ((∀ setting, p.wanted setting = none → r.value setting = c.value setting) ↔ Suits c p)) ∧
    ∀ (file : Option AlertSettings) (ops : List (Op SaveCall)),
      Along (step saveUpdate) (Orderly fun c call => Suits c call.payload) (Store.start c file) ops →
      (run (step saveUpdate) (Store.start c file) ops).active.entries = [] →
      ((run (step saveUpdate) (Store.start c file) ops).finished ≠ [] →
        (run (step saveUpdate) (Store.start c file) ops).file =
          some (run (step saveUpdate) (Store.start c file) ops).installed) ∧
      ∀ setting, (run (step saveUpdate) (Store.start c file) ops).installed.value setting =
        ((run (step saveUpdate) (Store.start c file) ops).finished.findSome?
          (fun call => call.payload.wanted setting)).getD (c.value setting) := by
  refine ⟨fun net p r h => frame_iff hc h, fun file ops h hidle => ?_⟩
  have hinv := serial_of_orderly file h
  refine ⟨fun hfinished => hinv.settled hidle hfinished, fun setting => ?_⟩
  refine hinv.serial.value_eq (P := Loaded) hc
    (fun b call b' _ hu => loaded_updateConfig (ok_of_saveUpdate hu)) (fun b call b' hb hsuits hu k => ?_) setting
  rw [value_updateConfig hb (ok_of_saveUpdate hu)]
  cases hwanted : call.payload.wanted k with
  | some v => rfl
  | none => exact (leftover_iff hb).mpr hsuits k hwanted

theorem Suits.of_whole (hrules : ∀ name, ∀ o ∈ p.ruleObject name, o.enabled ≠ none ∧ o.triggerDelay ≠ none ∧
    o.repeatAfter ≠ none) (hheader : ¬ EndsInSpace c.webhookHeaderValue) : Suits c p :=
  ⟨fun _ o ho hnone => absurd hnone (hrules _ o ho).1, fun _ o ho hnone => absurd hnone (hrules _ o ho).2.1,
    fun _ o ho hnone => absurd hnone (hrules _ o ho).2.2, fun _ => hheader⟩

def noNet : Net := ⟨fun _ => .error "", fun _ _ => .error ""⟩

def plainSettings : AlertSettings := ({} : Document).settings

theorem loaded_plain : Loaded plainSettings := ⟨{}, rfl⟩

def alertsOff : ConfigPayload := { enabled := some false }

def mailOff : ConfigPayload := { emailEnabled := some false }

theorem ruleObject_of_no_rules (h : p.rules = none) (name : String) : p.ruleObject name = none := by
  simp [ConfigPayload.ruleObject, Document.rulesD, h]

theorem suits_without_rules (h : p.rules = none) (hc : c.webhookHeaderValue = "") : Suits c p := by
  refine .of_whole (fun name o ho => ?_) ?_
  · rw [ruleObject_of_no_rules h] at ho
    cases ho
  · rintro ⟨ch, hch, -⟩
    rw [hc] at hch
    cases hch

/-- Two calls, one after the other. -/
def inTurn : List (Op SaveCall) :=
  [.read 0 ⟨alertsOff, noNet⟩, .write 0, .install 0, .read 1 ⟨mailOff, noNet⟩, .write 1, .install 1]

theorem orderly_inTurn : Along (step saveUpdate) (Orderly fun c call => Suits c call.payload)
    (Store.start plainSettings none) inTurn := by
  refine ⟨⟨rfl, suits_without_rules rfl (by decide +kernel)⟩, trivial, trivial, ⟨?_, ?_⟩, trivial, trivial, trivial⟩
  · decide +kernel
  · exact suits_without_rules rfl (by decide +kernel)

theorem saving_changes_only_sent_inTurn :
    (∃ r, updateConfig noNet plainSettings alertsOff = .ok r ∧
      ∀ setting, alertsOff.wanted setting = none → r.value setting = plainSettings.value setting) ∧
    (run (step saveUpdate) (Store.start plainSettings none) inTurn).file =
      some (run (step saveUpdate) (Store.start plainSettings none) inTurn).installed ∧
    (run (step saveUpdate) (Store.start plainSettings none) inTurn).installed.value .enabled = .flag false ∧
    (run (step saveUpdate) (Store.start plainSettings none) inTurn).installed.value .emailEnabled = .flag false := by
  obtain ⟨hone, hruns⟩ := saving_changes_only_sent plainSettings loaded_plain
  obtain ⟨hfile, hvalue⟩ := hruns none inTurn orderly_inTurn (by decide +kernel)
  refine ⟨?_, hfile (List.ne_nil_of_length_pos (by decide +kernel)), (hvalue .enabled).trans (by decide +kernel),
    (hvalue .emailEnabled).trans (by decide +kernel)⟩
  have hok : (updateConfig noNet plainSettings alertsOff).isOk = true := by decide +kernel
  cases hu : updateConfig noNet plainSettings alertsOff with
  | error e =>
    rw [hu] at hok
    cases hok
  | ok r => exact ⟨r, rfl, (hone _ _ r hu).mpr (suits_without_rules rfl (by decide +kernel))⟩

def siteDownRule : KnownRule := ⟨rules.head (by decide), by decide +kernel⟩

/-- The rule is switched off. -/
def siteDownOff : Document :=
  { rules := some (Dict.ofPairs [("site.down", some { enabled := some false })]) }

/-- Only its delay is sent. -/
def siteDownDelay : ConfigPayload :=
  { rules := some (Dict.ofPairs [("site.down", some { triggerDelay := some (.value 30) })]) }

def atOnce : List (Op SaveCall) :=
  [.read 0 ⟨alertsOff, noNet⟩, .read 1 ⟨mailOff, noNet⟩, .write 0, .write 1, .install 1, .install 0]

/-- A new delay switches the rule on again, and two calls at once leave the file with one's change and
the daemon with the other's. -/
theorem saving_changes_unsent :
    (¬ ∀ c net p r, Loaded c → updateConfig net c p = .ok r →
      ∀ setting, p.wanted setting = none → r.value setting = c.value setting) ∧
    ¬ ∀ (c : AlertSettings) (file : Option AlertSettings) (ops : List (Op SaveCall)), Loaded c →
      (run (step saveUpdate) (Store.start c file) ops).active.entries = [] →
      (run (step saveUpdate) (Store.start c file) ops).finished ≠ [] →
      (run (step saveUpdate) (Store.start c file) ops).file =
        some (run (step saveUpdate) (Store.start c file) ops).installed := by
  constructor
  · intro h
    have hloaded : Loaded siteDownOff.settings := ⟨siteDownOff, by rw [Document.load, if_neg (by decide +kernel)]⟩
    have hok : (updateConfig noNet siteDownOff.settings siteDownDelay).isOk = true := by decide +kernel
    cases hu : updateConfig noNet siteDownOff.settings siteDownDelay with
    | error e =>
      rw [hu] at hok
      cases hok
    | ok r =>
      have hkept := h _ _ _ r hloaded hu (.ruleEnabled siteDownRule) (by decide +kernel)
      rw [value_updateConfig hloaded hu] at hkept
      exact absurd hkept (by decide +kernel)
  · intro h
    have hsame := congrArg (Option.map (·.enabled)) (h plainSettings none atOnce loaded_plain (by decide +kernel)
      (List.ne_nil_of_length_pos (by decide +kernel)))
    exact absurd hsame (by decide +kernel)

end EasyHaProxy.Alertd
