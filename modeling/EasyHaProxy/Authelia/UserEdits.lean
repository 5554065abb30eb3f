import EasyHaProxy.Authelia.Users
import EasyHaProxy.Lib.Pieces
import EasyHaProxy.Lib.Validate

/-! # What a request makes of the users -/
namespace EasyHaProxy.Authelia.Users

open Validate Yaml

variable {str : Value → String} {hash : Hasher} {file : Stored} {req m root users : Mapping}
  {loaded : Loaded} {username name : String} {answer : Answer} {r : Request}

/-! ## Reading what was saved -/

theorem load_of_mapping {v : Value} (h : mapping? v = some root) :
    loadUsersData (.document v) = .ok (placed root) := by
  have hfalsy : v.truthy = false → root = .empty := by
    intro hfalsy
    cases v with
    | map fields =>
      have hnil : fields = [] := by simpa [Value.truthy] using hfalsy
      subst hnil
      exact (Option.some.inj h).symm
    | _ => cases h
  rw [loadUsersData]
  cases htruthy : v.truthy with
  | true => simp [h]
  | false => simp [hfalsy htruthy]

/-- The users a request would find. -/
def usersIn (file : Stored) : Option Mapping := (loadUsersData file).toOption.map Loaded.users

theorem usersIn_of_load (h : loadUsersData file = .ok loaded) : usersIn file = some loaded.users := by
  rw [usersIn, h]
  rfl

/-- Users a document can be replaced with and found in again: a document that is the users has no
mapping called `users` in it. -/
def Loaded.Holds (users : Mapping) : Loaded → Prop
  | nested _ _ => True
  | flat _ => (users.get? "users").bind mapping? = none

theorem holds_placed (root : Mapping) : (placed root).Holds (placed root).users := by
  unfold placed
  split
  next => trivial
  next h => exact h

theorem placed_of_load (h : loadUsersData file = .ok loaded) : ∃ root, loaded = placed root := by
  unfold loadUsersData at h
  split at h
  any_goals cases h
  all_goals
    split_ifs at h with htruthy
    · exact ⟨_, (Except.ok.inj h).symm⟩
    · split at h
      next root _ => exact ⟨root, (Except.ok.inj h).symm⟩
      next => cases h

theorem load_holds (h : loadUsersData file = .ok loaded) : loaded.Holds loaded.users := by
  obtain ⟨root, rfl⟩ := placed_of_load h
  exact holds_placed root

/-! ## Documents that come back as they were saved -/

/-- How deep the mappings of a document go. -/
def Loaded.depth : Loaded → Nat
  | nested _ _ => 3
  | flat _ => 2

/-- The document has plain fields only, and no mappings but those of the users. -/
def Loaded.Plain : Loaded → Prop
  | nested root users => root.value.Plain 3 ∧ users.value.Plain 2
  | flat users => users.value.Plain 2

/-- What is in the file comes back from PyYAML. -/
def Stored.Plain : Stored → Prop
  | .missing | .unreadable => True
  | .document v => ∀ loaded, loadUsersData (.document v) = .ok loaded → loaded.Plain
  | .aliased _ => False

/-- PyYAML gives back a plain document without aliases, in whatever order of its keys. -/
structure PyYaml.Lawful (yaml : PyYaml) : Prop where
  reload : ∀ n root, Value.Plain n root.value → ∃ v, yaml.reload root = .document v ∧ v.Same n root.value

structure Request.Plain (str : Value → String) (r : Request) : Prop where
  hashed : ∀ password hashed, r.hash password = .ok hashed → isPlainText hashed = true
  displayname : ∀ req fields name, r.req = some req → validatedFields str req = .ok fields →
    fields.displayname = some name → isPlainText name = true

variable {yaml : PyYaml}

theorem Loaded.Plain.users_plain (h : loaded.Plain) : loaded.users.value.Plain 2 := by
  cases loaded with
  | nested root users => exact h.2
  | flat users => exact h

theorem plain_root (h : loaded.Plain) (husers : users.value.Plain 2) :
    (loaded.root users).value.Plain loaded.depth := by
  cases loaded with
  | nested root _ => exact plain_set h.1 (by decide) husers
  | flat _ => exact husers

theorem plain_placed (h : root.value.Plain 3) (hflat : ∀ users, placed root = .flat users → root.value.Plain 2) :
    (placed root).Plain := by
  unfold placed at *
  cases husers : (root.get? "users").bind mapping? with
  | none =>
    rw [husers] at hflat
    exact hflat root rfl
  | some users =>
    obtain ⟨v, hv, hmap⟩ := Option.bind_eq_some_iff.mp husers
    have hplain := ((plain_value.mp h) "users" v hv).2
    exact ⟨h, plain_value.mpr ((plain_of_mapping hmap).mp hplain)⟩

/-- What is found after a save: the users that were saved. -/
theorem reload_found (hyaml : yaml.Lawful) (hplain : (loaded.root users).value.Plain loaded.depth)
    (hholds : loaded.Holds users) : ∃ found, loadUsersData (yaml.reload (loaded.root users)) = .ok found ∧
      SameUnder 1 found.users users := by
  obtain ⟨v, hv, hsame⟩ := hyaml.reload loaded.depth (loaded.root users) hplain
  rw [hv]
  cases loaded with
  | nested root _ =>
    obtain ⟨m, hm, hunder⟩ := same_of_mapping hsame mapping?_value
    refine ⟨placed m, load_of_mapping hm, ?_⟩
    rcases sameUnder_bind hunder "users" with ⟨-, hnone⟩ | ⟨u, u', hu, hu', hunder'⟩
    · simp [Loaded.root] at hnone
    · have hsaved : u' = users := by simpa [Loaded.root] using hu'.symm
      subst hsaved
      simpa [placed, hu, Loaded.users] using hunder'
  | flat _ =>
    obtain ⟨m, hm, hunder⟩ := same_of_mapping hsame mapping?_value
    refine ⟨placed m, load_of_mapping hm, ?_⟩
    rcases sameUnder_bind hunder "users" with ⟨hnone, -⟩ | ⟨u, u', -, hu', -⟩
    · have husers : SameUnder 1 m users := hunder
      simpa [placed, hnone, Loaded.users] using husers
    · have hnone : (users.get? "users").bind mapping? = none := hholds
      rw [Loaded.root, hnone] at hu'
      cases hu'

theorem plain_reload (hyaml : yaml.Lawful) (hplain : (loaded.root users).value.Plain loaded.depth) :
    (yaml.reload (loaded.root users)).Plain := by
  obtain ⟨v, hv, hsame⟩ := hyaml.reload loaded.depth (loaded.root users) hplain
  have hback := plain_of_same hsame hplain
  rw [hv]
  intro found hfound
  cases loaded with
  | nested root _ =>
    obtain ⟨m, hm, hunder⟩ := same_of_mapping hsame mapping?_value
    cases Except.ok.inj ((load_of_mapping hm).symm.trans hfound)
    refine plain_placed (plain_value.mpr ((plain_of_mapping hm).mp hback)) fun other hflat => ?_
    rcases sameUnder_bind hunder "users" with ⟨-, hnone⟩ | ⟨u, _, hu, -, -⟩
    · simp [Loaded.root] at hnone
    · simp [placed, hu] at hflat
  | flat _ =>
    obtain ⟨m, hm, -⟩ := same_of_mapping hsame mapping?_value
    cases Except.ok.inj ((load_of_mapping hm).symm.trans hfound)
    have hm2 : m.value.Plain 2 := plain_value.mpr ((plain_of_mapping hm).mp hback)
    exact plain_placed (plain_succ hm2) fun _ _ => hm2


/-! ## What a request saves -/

theorem get?_setField {key : String} {value : Option Value} {j : String} :
    (setField key value m).get? j = if j = key ∧ value.isSome then value else m.get? j := by
  cases value with
  | none => simp [setField]
  | some v => simp [setField]

theorem get?_withGroups_of_ne {key : String} (h : key ≠ "groups") :
    (withGroups m).get? key = m.get? key := by
  unfold withGroups
  split <;> simp [h]

theorem groupsOf_withGroups : groupsOf (withGroups m) = groupsOf m := by
  by_cases hthere : m.contains "groups" = true
  · rw [withGroups, if_pos hthere]
  · have hnone : m.get? "groups" = none :=
      Dict.contains_eq_false.mp (Bool.eq_false_of_not_eq_true hthere)
    rw [withGroups, if_neg hthere, groupsOf, groupsOf, hnone, Dict.get?_set, if_pos rfl]

theorem groupsOf_updated_withGroups (fields : CheckedFields) :
    groupsOf (updated fields (withGroups m)) = groupsOf (updated fields m) := by
  have hrest := groupsOf_withGroups (m := m)
  unfold groupsOf updated at *
  simp only [get?_setField]
  cases fields.groups with
  | some groups => rfl
  | none => simpa using hrest

theorem disabledIn_updated_withGroups (fields : CheckedFields) :
    disabledIn (updated fields (withGroups m)) = disabledIn (updated fields m) := by
  have hrest : (withGroups m).get? "disabled" = m.get? "disabled" :=
    get?_withGroups_of_ne (by decide)
  unfold disabledIn updated
  simp only [get?_setField]
  simp [hrest]

theorem isSuperadmin_updated_withGroups (fields : CheckedFields) :
    isSuperadmin str (updated fields (withGroups m)) = isSuperadmin str (updated fields m) := by
  rw [isSuperadmin, disabledIn_updated_withGroups, groupsOf_updated_withGroups, ← isSuperadmin]

theorem isSuperadmin_set_password (v : Value) :
    isSuperadmin str (m.set "password" v) = isSuperadmin str m := by
  unfold isSuperadmin disabledIn groupsOf
  simp

/-- The record of a user that an update leaves: its fields set, and a new password where it brings one. -/
inductive Changed (hash : Hasher) (fields : CheckedFields) (record : Mapping) : Mapping → Prop
  | fields : Changed hash fields record (updated fields (withGroups record))
  | password {password hashed : String} : hash password = .ok hashed →
      Changed hash fields record ((updated fields (withGroups record)).set "password" (.str hashed))

/-- What a request that is carried out makes of the users it found. -/
inductive Edit (str : Value → String) (hash : Hasher) (req users : Mapping) (username : String) :
    Answer → Mapping → Prop
  | change {fields : CheckedFields} {record user : Mapping} : validatedFields str req = .ok fields →
      (users.get? username).bind mapping? = some record → Changed hash fields record user →
      removesLastEnabledSuperadmin str users username (some user.value) = false →
      Edit str hash req users username (.user (safeUserView str username user)) (users.set username user.value)
  | create {fields : CheckedFields} {password hashed : String} : validatedFields str req = .ok fields →
      hash password = .ok hashed → users.get? username = none →
      Edit str hash req users username (.user (safeUserView str username (newUser hashed fields)))
        (users.set username (newUser hashed fields).value)
  | delete {answer : Answer} : (∀ view, answer ≠ .user view) → users.get? username ≠ none →
      removesLastEnabledSuperadmin str users username none = false →
      Edit str hash req users username answer (users.erase username)

theorem removes_congr {user user' : Mapping} (h : isSuperadmin str user = isSuperadmin str user') :
    removesLastEnabledSuperadmin str users username (some user.value) =
      removesLastEnabledSuperadmin str users username (some user'.value) := by
  simp [removesLastEnabledSuperadmin, isEnabledSuperadmin, h]

theorem hash_of_hashPassword {password hashed : String} (h : hashPassword hash password = .ok hashed) :
    hash password = .ok hashed := by
  unfold hashPassword at h
  split_ifs at h
  exact h

theorem changeUser_saves {fields : CheckedFields} {password : String} {record : Mapping}
    (hfields : validatedFields str req = .ok fields)
    (hrecord : (loaded.users.get? username).bind mapping? = some record)
    (hkeeps : removesLastEnabledSuperadmin str loaded.users username (some (updated fields record).value) = false)
    (h : changeUser str hash loaded username fields password record = (answer, some root)) :
    ∃ users, Edit str hash req loaded.users username answer users ∧ root = loaded.root users := by
  unfold changeUser at h
  simp only at h
  split_ifs at h with hpassword
  · obtain ⟨rfl, hroot⟩ := Prod.mk.inj h
    refine ⟨_, .change hfields hrecord .fields ?_, (Option.some.inj hroot).symm⟩
    rw [removes_congr (isSuperadmin_updated_withGroups fields), hkeeps]
  · split at h
    next => cases h
    next hashed hhash =>
      obtain ⟨rfl, hroot⟩ := Prod.mk.inj h
      refine ⟨_, .change hfields hrecord (.password (hash_of_hashPassword hhash)) ?_, (Option.some.inj hroot).symm⟩
      rw [removes_congr ((isSuperadmin_set_password _).trans (isSuperadmin_updated_withGroups fields)),
        hkeeps]

theorem handleUpdate_saves (h : handleUpdate str hash file req = .ok (answer, some root)) :
    ∃ loaded username users, loadUsersData file = .ok loaded ∧ validatedUsername str req = .ok username ∧
      Edit str hash req loaded.users username answer users ∧ root = loaded.root users := by
  simp only [handleUpdate, bind_eq_ok] at h
  obtain ⟨username, hname, fields, hfields, password, -, loaded, hload, h⟩ := h
  split at h
  next => cases h
  next record hrecord =>
    split_ifs at h with hremoves
    · cases h
    · obtain ⟨users, hedit, hroot⟩ :=
        changeUser_saves hfields hrecord (Bool.eq_false_of_not_eq_true hremoves) (Except.ok.inj h)
      exact ⟨loaded, username, users, hload, hname, hedit, hroot⟩

theorem handleCreate_saves (h : handleCreate str hash file req = .ok (answer, some root)) :
    ∃ loaded username users, loadUsersData file = .ok loaded ∧ validatedUsername str req = .ok username ∧
      Edit str hash req loaded.users username answer users ∧ root = loaded.root users := by
  simp only [handleCreate, bind_eq_ok] at h
  obtain ⟨username, hname, fields, hfields, password, -, h⟩ := h
  split_ifs at h with hpassword
  · cases h
  · obtain ⟨loaded, hload, h⟩ := bind_eq_ok.mp h
    split_ifs at h with hthere
    · cases h
    · have hnew : loaded.users.get? username = none :=
        Dict.contains_eq_false.mp (Bool.eq_false_of_not_eq_true hthere)
      split at h
      next => cases h
      next hashed hhash =>
        obtain ⟨rfl, hroot⟩ := Prod.mk.inj (Except.ok.inj h)
        exact ⟨loaded, username, _, hload, hname, .create hfields (hash_of_hashPassword hhash) hnew,
          (Option.some.inj hroot).symm⟩

theorem handleDelete_saves (h : handleDelete str file req = .ok (answer, some root)) :
    ∃ loaded username users, loadUsersData file = .ok loaded ∧ validatedUsername str req = .ok username ∧
      Edit str hash req loaded.users username answer users ∧ root = loaded.root users := by
  simp only [handleDelete, bind_eq_ok] at h
  obtain ⟨username, hname, loaded, hload, h⟩ := h
  split at h
  next => cases h
  next user huser =>
    by_cases hremoves : removesLastEnabledSuperadmin str loaded.users username none = true
    · rw [if_pos hremoves] at h
      cases h
    · have hthere : loaded.users.get? username ≠ none := by simp [huser]
      have hkeeps := Bool.eq_false_of_not_eq_true hremoves
      rw [if_neg hremoves] at h
      generalize (if user.truthy = true then mapping? user else some Dict.empty) = shown at h
      refine ⟨loaded, username, loaded.users.erase username, hload, hname, .delete ?_ hthere hkeeps, ?_⟩
      · cases shown <;> cases h <;> simp
      · cases shown <;> exact (Option.some.inj (Prod.mk.inj (Except.ok.inj h)).2).symm

theorem dispatch_saves (h : dispatchRequest str hash file req = .ok (answer, some root)) :
    ∃ loaded username users, loadUsersData file = .ok loaded ∧ validatedUsername str req = .ok username ∧
      Edit str hash req loaded.users username answer users ∧ root = loaded.root users := by
  simp only [dispatchRequest, bind_eq_ok] at h
  obtain ⟨action, -, h⟩ := h
  split_ifs at h
  · simp only [handleList, bind_eq_ok] at h
    obtain ⟨loaded, -, h⟩ := h
    cases h
  · simp only [handleGet, bind_eq_ok] at h
    obtain ⟨username, -, loaded, -, h⟩ := h
    split at h <;> cases h
  · exact handleUpdate_saves h
  · exact handleCreate_saves h
  · exact handleDelete_saves h
  · cases h


/-! ## What a request saves is plain -/

theorem isPlainText_ofList {l : List Char} : isPlainText (String.ofList l) = l.all isPlainChar := by
  rw [isPlainText, String.toList_ofList]

theorem isPlainChar_of_isAlphanum {c : Char} (h : c.isAlphanum = true) : isPlainChar c = true := by
  delta Char.isAlphanum Char.isAlpha Char.isUpper Char.isLower Char.isDigit at h
  simp only [Bool.or_eq_true, Bool.and_eq_true, decide_eq_true_eq, ge_iff_le, UInt32.le_iff_toNat_le] at h
  have hlow : 32 ≤ c.val.toNat ∧ c.val.toNat ≤ 126 := by
    change ((65 ≤ c.val.toNat ∧ c.val.toNat ≤ 90) ∨ (97 ≤ c.val.toNat ∧ c.val.toNat ≤ 122)) ∨
      (48 ≤ c.val.toNat ∧ c.val.toNat ≤ 57) at h
    omega
  have hspace : ' ' ≤ c := UInt32.le_iff_toNat_le.mpr hlow.1
  have htilde : c ≤ '~' := UInt32.le_iff_toNat_le.mpr hlow.2
  simp [isPlainChar, hspace, htilde]

theorem isPlainText_of_isUsername {s : String} (h : isUsername s.toList = true) : isPlainText s = true := by
  have hchar {c : Char} (hc : usernameChar c = true) : isPlainChar c = true := by
    simp only [usernameChar, Bool.or_eq_true, decide_eq_true_eq, List.mem_cons, List.not_mem_nil, or_false] at hc
    rcases hc with hc | rfl | rfl | rfl | rfl
    · exact isPlainChar_of_isAlphanum hc
    all_goals rfl
  unfold isPlainText
  cases hl : s.toList with
  | nil => rfl
  | cons c rest =>
    rw [hl] at h
    simp only [isUsername, Bool.and_eq_true, List.all_eq_true] at h
    rw [List.all_cons, Bool.and_eq_true, List.all_eq_true]
    exact ⟨isPlainChar_of_isAlphanum h.1.1, fun c hc => hchar (h.2 c hc)⟩

theorem isPlainChar_of_emailChar {c : Char} (h : emailChar c = true) : isPlainChar c = true := by
  simp only [emailChar, Bool.or_eq_true, decide_eq_true_eq] at h
  rcases h with hc | hc
  · exact isPlainChar_of_isAlphanum hc
  · have hall : ".!#$%&'*+/=?^_`\x7b|\x7d~-".toList.all isPlainChar = true := by decide
    exact List.all_eq_true.mp hall c hc

theorem isPlainChar_of_isLabel {label : List Char} {c : Char} (h : isLabel label = true) (hc : c ∈ label) :
    isPlainChar c = true := by
  simp only [isLabel, Bool.and_eq_true, List.all_eq_true] at h
  have hchar := h.2 c hc
  rw [Bool.or_eq_true, beq_iff_eq] at hchar
  rcases hchar with hchar | rfl
  · exact isPlainChar_of_isAlphanum hchar
  · rfl

theorem all_plain_of_isEmail {l : List Char} (h : isEmail l = true) : l.all isPlainChar = true := by
  simp only [isEmail, Bool.and_eq_true, List.all_eq_true, decide_eq_true_eq] at h
  obtain ⟨⟨⟨⟨-, hname⟩, -⟩, -⟩, hlabels⟩ := h
  rw [List.all_eq_true]
  intro c hc
  rw [← List.takeWhile_append_dropWhile (p := (· ≠ '@')) (l := l), List.mem_append] at hc
  rcases hc with hc | hc
  · exact isPlainChar_of_emailChar (hname c hc)
  · have hdrop : l.drop (l.takeWhile (· ≠ '@')).length = l.dropWhile (· ≠ '@') := by
      conv_lhs => rw [← List.takeWhile_append_dropWhile (p := (· ≠ '@')) (l := l)]
      rw [List.drop_left' (by rw [List.takeWhile_append_dropWhile])]
    cases hrest : l.dropWhile (· ≠ '@') with
    | nil =>
      rw [hrest] at hc
      cases hc
    | cons a rest =>
      have ha : a = '@' := by
        have hhead := List.head?_dropWhile_not (· ≠ '@') l
        rw [hrest] at hhead
        simpa using hhead
      rw [hrest, List.mem_cons] at hc
      rcases hc with rfl | hc
      · rw [ha]
        rfl
      · have hafter : l.drop ((l.takeWhile (· ≠ '@')).length + 1) = rest := by
          rw [← List.drop_drop, hdrop, hrest]
          rfl
        rw [hafter] at hlabels
        rcases Text.mem_splitOnP_or (p := (· == '.')) hc with hsep | ⟨label, hlabel, hmem⟩
        · rw [beq_iff_eq] at hsep
          rw [hsep]
          rfl
        · exact isPlainChar_of_isLabel (hlabels label hlabel) hmem

theorem isPlainText_of_validatedUsername (h : validatedUsername str req = .ok username) :
    isPlainText username = true := by
  unfold validatedUsername at h
  simp only at h
  split_ifs at h with hname
  cases h
  exact isPlainText_of_isUsername hname

theorem isPlainText_of_checkedEmail {fields : Mapping} {key email : String} {maxLength : Nat}
    (h : checkedText str key maxLength isEmail fields = .ok (some email)) : isPlainText email = true := by
  unfold checkedText at h
  split at h
  · cases h
  next v _ =>
    dsimp only at h
    generalize (if v.truthy = true then v.text str else "").toList = raw at h
    split_ifs at h with _ _ hsuits
    cases h
    rw [isPlainText_ofList]
    exact all_plain_of_isEmail hsuits

theorem plain_of_checkedGroups {fields : Mapping} {groups : List String}
    (h : checkedGroups str fields = .ok (some groups)) : (groupsValue groups).isPlainField = true := by
  unfold checkedGroups at h
  split at h
  · cases h
  · simp only at h
    split_ifs at h
    cases h
    simp only [groupsValue, Value.isPlainField, List.all_eq_true, List.mem_map]
    rintro _ ⟨name, hname, rfl⟩
    exact isPlainText_of_isUsername (List.mem_filter.mp hname).2
  · cases h

theorem plain_of_validatedFields {fields : CheckedFields} (h : validatedFields str req = .ok fields) :
    (∀ email, fields.email = some email → isPlainText email = true) ∧
      ∀ groups, fields.groups = some groups → (groupsValue groups).isPlainField = true := by
  simp only [validatedFields, bind_eq_ok, pure_eq_ok] at h
  obtain ⟨_, -, displayname, -, email, hemail, groups, hgroups, rfl⟩ := h
  constructor
  · rintro email rfl
    exact isPlainText_of_checkedEmail hemail
  · rintro groups rfl
    exact plain_of_checkedGroups hgroups

theorem plain_setField {key : String} {value : Option Value} {record : Mapping} (h : record.value.Plain 1)
    (hkey : isPlainText key = true) (hv : ∀ v, value = some v → v.isPlainField = true) :
    (setField key value record).value.Plain 1 := by
  cases value with
  | none => exact h
  | some v => exact plain_set h hkey (hv v rfl)

variable {fields : CheckedFields} {record user : Mapping}

/-- The fields that a request sets are plain. -/
structure CheckedFields.Plain (fields : CheckedFields) : Prop where
  displayname : ∀ name, fields.displayname = some name → isPlainText name = true
  email : ∀ email, fields.email = some email → isPlainText email = true
  groups : ∀ groups, fields.groups = some groups → (groupsValue groups).isPlainField = true

theorem plain_updated (hfields : fields.Plain) (h : record.value.Plain 1) : (updated fields record).value.Plain 1 := by
  refine plain_setField (plain_setField (plain_setField (plain_setField h (by decide) ?_) (by decide) ?_)
    (by decide) ?_) (by decide) ?_
  · intro v hv
    obtain ⟨name, hname, rfl⟩ := Option.map_eq_some_iff.mp hv
    exact hfields.displayname name hname
  · intro v hv
    obtain ⟨email, hemail, rfl⟩ := Option.map_eq_some_iff.mp hv
    exact hfields.email email hemail
  · intro v hv
    obtain ⟨disabled, -, rfl⟩ := Option.map_eq_some_iff.mp hv
    rfl
  · intro v hv
    obtain ⟨groups, hgroups, rfl⟩ := Option.map_eq_some_iff.mp hv
    exact hfields.groups groups hgroups

theorem plain_withGroups (h : record.value.Plain 1) : (withGroups record).value.Plain 1 := by
  unfold withGroups
  split
  · exact h
  · exact plain_set h (by decide) rfl

theorem plain_newUser {hashed : String} (hfields : fields.Plain) (hhashed : isPlainText hashed = true) :
    (newUser hashed fields).value.Plain 1 := by
  have hempty : Mapping.value Dict.empty |>.Plain 1 := plain_value.mpr fun _ _ h => by cases h
  refine plain_set (plain_set (plain_set (plain_set (plain_set hempty (by decide) hhashed) (by decide) ?_)
    (by decide) ?_) (by decide) ?_) (by decide) rfl
  · change isPlainText _ = true
    cases hname : fields.displayname with
    | none => rfl
    | some name => exact hfields.displayname name hname
  · change isPlainText _ = true
    cases hemail : fields.email with
    | none => rfl
    | some email => exact hfields.email email hemail
  · change (groupsValue _).isPlainField = true
    cases hgroups : fields.groups with
    | none => rfl
    | some groups => exact hfields.groups groups hgroups

theorem plain_of_changed (h : Changed hash fields record user) (hfields : fields.Plain)
    (hhash : ∀ password hashed, hash password = .ok hashed → isPlainText hashed = true)
    (hrecord : record.value.Plain 1) : user.value.Plain 1 := by
  have hset := plain_updated hfields (plain_withGroups hrecord)
  cases h with
  | fields => exact hset
  | password hhashed => exact plain_set hset (by decide) (hhash _ _ hhashed)

theorem Edit.plain {users' : Mapping} (h : Edit str hash req users username answer users')
    (hplain : users.value.Plain 2) (hname : isPlainText username = true)
    (hfields : ∀ fields, validatedFields str req = .ok fields → fields.Plain)
    (hhash : ∀ password hashed, hash password = .ok hashed → isPlainText hashed = true) :
    users'.value.Plain 2 := by
  cases h with
  | change hchecked hrecord hchanged _ =>
    obtain ⟨v, hv, hmap⟩ := Option.bind_eq_some_iff.mp hrecord
    have hplainRecord := (plain_value.mp hplain username v hv).2
    refine plain_set hplain hname (plain_of_changed hchanged (hfields _ hchecked) hhash ?_)
    exact plain_value.mpr ((plain_of_mapping hmap).mp hplainRecord)
  | create hchecked hhashed _ =>
    exact plain_set hplain hname (plain_newUser (hfields _ hchecked) (hhash _ _ hhashed))
  | delete _ _ _ => exact plain_erase hplain

/-! ## A request -/

variable (str yaml r) in
/-- A request leaves the file or replaces the users in it. A user answered where nothing is saved was
only looked up. -/
theorem step_cases (hfile : file.Plain) :
    (step str yaml file r = file ∧ ∀ req view, r.req = some req → (handleRequest str yaml file r).1 = .user view →
      dispatchRequest str r.hash file req = .ok (.user view, none)) ∨
    ∃ req answer root, r.req = some req ∧ r.writes = true ∧
      dispatchRequest str r.hash file req = .ok (answer, some root) ∧
      handleRequest str yaml file r = (answer, yaml.reload root) := by
  unfold step handleRequest
  split
  next => exact hfile.elim
  next hreq => exact Or.inl ⟨rfl, fun req view hreq' => by simp [hreq] at hreq'⟩
  next req _ hreq =>
    split
    next => exact Or.inl ⟨rfl, fun _ _ _ h => by cases h⟩
    next => exact Or.inl ⟨rfl, fun _ _ _ h => by cases h⟩
    next answer hkept =>
      refine Or.inl ⟨rfl, fun req' view hreq' h => ?_⟩
      cases Option.some.inj (hreq.symm.trans hreq')
      cases h
      exact hkept
    next answer root hsaved =>
      by_cases hwrites : r.writes = true
      · rw [if_pos hwrites]
        exact Or.inr ⟨req, answer, root, hreq, hwrites, hsaved, rfl⟩
      · rw [if_neg hwrites]
        exact Or.inl ⟨rfl, fun _ _ _ h => by cases h⟩

theorem plain_of_saved {users' : Mapping} (hfile : file.Plain) (hr : r.Plain str) (hreq : r.req = some req)
    (hload : loadUsersData file = .ok loaded) (hname : validatedUsername str req = .ok username)
    (hedit : Edit str r.hash req loaded.users username answer users') :
    (loaded.root users').value.Plain loaded.depth := by
  have hloaded : loaded.Plain := by
    cases file with
    | document v => exact hfile loaded hload
    | missing | unreadable => cases hload
    | aliased => exact hfile.elim
  refine plain_root hloaded (hedit.plain hloaded.users_plain (isPlainText_of_validatedUsername hname) ?_ hr.hashed)
  intro fields hfields
  obtain ⟨hemail, hgroups⟩ := plain_of_validatedFields hfields
  exact ⟨fun name => hr.displayname req fields name hreq hfields, hemail, hgroups⟩

theorem plain_step (hyaml : yaml.Lawful) (hr : r.Plain str) (hfile : file.Plain) : (step str yaml file r).Plain := by
  rcases step_cases str r yaml hfile with
    ⟨heq, -⟩ | ⟨req, answer, root, hreq, -, hsaved, hstep⟩
  · rwa [heq]
  · obtain ⟨loaded, username, users', hload, hname, hedit, rfl⟩ := dispatch_saves hsaved
    rw [step, hstep]
    exact plain_reload hyaml (plain_of_saved hfile hr hreq hload hname hedit)

end EasyHaProxy.Authelia.Users
