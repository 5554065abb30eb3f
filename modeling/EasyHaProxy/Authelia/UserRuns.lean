import EasyHaProxy.Authelia.UserEdits
import EasyHaProxy.Lib.Machine

/-! # Runs of the users daemon -/
namespace EasyHaProxy.Authelia.Users

open Validate Yaml

variable {str : Value → String} {yaml : PyYaml} {hash : Hasher} {file : Stored} {req users : Mapping}
  {loaded : Loaded} {username name : String} {answer : Answer} {r : Request}

/-! ## A superadmin stays -/

def HasSuperadmin (str : Value → String) (file : Stored) : Prop :=
  ∃ users, usersIn file = some users ∧ ∃ name, isEnabledSuperadmin str (users.get? name) = true

/-- A user called `users` is added to a document that is the users. -/
def HidesUsers (str : Value → String) (file : Stored) (r : Request) : Prop :=
  ∃ users req answer root, loadUsersData file = .ok (.flat users) ∧ users.get? "users" = none ∧
    r.req = some req ∧ validatedUsername str req = .ok "users" ∧
    dispatchRequest str r.hash file req = .ok (answer, some root) ∧ r.writes = true

/-- The order of its keys says nothing about a user. -/
theorem isSuperadmin_congr {record record' : Mapping} (h : SameUnder 0 record record') :
    isSuperadmin str record = isSuperadmin str record' := by
  unfold isSuperadmin disabledIn groupsOf
  rw [get?_eq_of_sameUnder h, get?_eq_of_sameUnder h]

theorem isEnabledSuperadmin_congr {found : Mapping} (h : SameUnder 1 found users) (name : String) :
    isEnabledSuperadmin str (found.get? name) = isEnabledSuperadmin str (users.get? name) := by
  unfold isEnabledSuperadmin
  rcases sameUnder_bind h name with ⟨hnone, hnone'⟩ | ⟨u, u', hu, hu', hunder⟩
  · rw [hnone, hnone']
  · rw [hu, hu']
    exact isSuperadmin_congr hunder

/-- The check before a change: with a superadmin before it there is one after it. -/
theorem superadmin_of_not_removes {replacement : Option Value} {users' : Mapping}
    (h : removesLastEnabledSuperadmin str users username replacement = false)
    (hrest : ∀ name, name ≠ username → users'.get? name = users.get? name)
    (hnew : isEnabledSuperadmin str replacement = true → isEnabledSuperadmin str (users'.get? username) = true)
    (hname : isEnabledSuperadmin str (users.get? name) = true) :
    ∃ name', isEnabledSuperadmin str (users'.get? name') = true := by
  by_cases hsame : name = username
  · subst hsame
    by_cases hreplacement : isEnabledSuperadmin str replacement = true
    · exact ⟨name, hnew hreplacement⟩
    · simp only [removesLastEnabledSuperadmin, hname, Bool.eq_false_of_not_eq_true hreplacement,
        Bool.not_false, Bool.true_and, Bool.not_eq_false', List.any_eq_true, Bool.and_eq_true,
        bne_iff_ne] at h
      obtain ⟨⟨other, user⟩, hmem, hne, hother⟩ := h
      refine ⟨other, ?_⟩
      rw [hrest other hne, Dict.mem_entries.mp hmem]
      exact hother
  · exact ⟨name, by rwa [hrest name hsame]⟩

theorem Edit.superadmin {users' : Mapping} (h : Edit str hash req users username answer users')
    (hname : isEnabledSuperadmin str (users.get? name) = true) :
    ∃ name', isEnabledSuperadmin str (users'.get? name') = true := by
  cases h with
  | change _ _ _ hkeeps =>
    exact superadmin_of_not_removes hkeeps (fun name hne => by simp [hne]) (fun h => by simpa using h) hname
  | create _ _ hnew =>
    refine ⟨name, ?_⟩
    have hne : name ≠ username := by
      rintro rfl
      rw [hnew] at hname
      cases hname
    simpa [hne] using hname
  | delete _ _ hkeeps =>
    exact superadmin_of_not_removes hkeeps (fun name hne => by simp [hne]) (fun h => by cases h) hname

/-- The edited users are found again, unless they are hidden by one of them. -/
theorem Edit.holds {users' : Mapping} (h : Edit str hash req loaded.users username answer users')
    (hholds : loaded.Holds loaded.users)
    (hhides : ∀ users, loaded = .flat users → users.get? "users" = none → username ≠ "users") :
    loaded.Holds users' := by
  cases loaded with
  | nested => trivial
  | flat users =>
    have hnone : (users.get? "users").bind mapping? = none := hholds
    change (users'.get? "users").bind mapping? = none
    have hkept : ∀ name, name ≠ username → users'.get? name = users.get? name := by
      intro name hne
      cases h <;> simp [hne, Loaded.users]
    by_cases hname : "users" = username
    · subst hname
      cases h with
      | change _ hrecord _ _ =>
        rw [Loaded.users, hnone] at hrecord
        cases hrecord
      | create _ _ hnew => exact absurd rfl (hhides users rfl hnew)
      | delete => simp
    · rw [hkept _ hname, hnone]

theorem holds_of_not_hides {users' root : Mapping} (h : ¬ HidesUsers str file r) (hreq : r.req = some req)
    (hwrites : r.writes = true) (hsaved : dispatchRequest str r.hash file req = .ok (answer, some root))
    (hload : loadUsersData file = .ok loaded) (hname : validatedUsername str req = .ok username)
    (hedit : Edit str r.hash req loaded.users username answer users') : loaded.Holds users' := by
  refine hedit.holds (load_holds hload) fun users hflat hnone hcalled => h ?_
  subst hflat
  subst hcalled
  exact ⟨users, req, answer, root, hload, hnone, hreq, hname, hsaved, hwrites⟩

/-- A record is not a list of users: none of its fields is a mapping. -/
theorem not_superadmin_newUser {hashed : String} {fields : CheckedFields} (name : String) :
    isEnabledSuperadmin str ((newUser hashed fields).get? name) = false := by
  unfold newUser isEnabledSuperadmin
  simp only [Dict.get?_set, Dict.get?_empty]
  split_ifs <;> rfl

theorem not_superadmin_of_hides (hyaml : yaml.Lawful) (hr : r.Plain str) (hfile : file.Plain)
    (h : HidesUsers str file r) : ¬ HasSuperadmin str (step str yaml file r) := by
  obtain ⟨users, req, answer, root, hload, hnone, hreq, hname, hsaved, hwrites⟩ := h
  have hstep : step str yaml file r = yaml.reload root := by
    cases file with
    | aliased => exact hfile.elim
    | _ => simp [step, handleRequest, hreq, hsaved, hwrites]
  obtain ⟨loaded, username, users', hload', hname', hedit, rfl⟩ := dispatch_saves hsaved
  cases Except.ok.inj (hload.symm.trans hload')
  cases Except.ok.inj (hname.symm.trans hname')
  have hplain := plain_of_saved hfile hr hreq hload hname hedit
  cases hedit with
  | change _ hrecord _ _ =>
    rw [Loaded.users, hnone] at hrecord
    cases hrecord
  | delete _ hthere _ => exact absurd hnone hthere
  | @create fields _ hashed _ _ hnew =>
    -- The document is read as one with a `users:` key now, of which the new record is the users.
    obtain ⟨v, hv, hsame⟩ := hyaml.reload 2 _ hplain
    obtain ⟨m, hm, hunder⟩ := same_of_mapping hsame mapping?_value
    rintro ⟨found, hfound, name, hsuper⟩
    rw [hstep, hv, usersIn_of_load (load_of_mapping hm)] at hfound
    rcases sameUnder_bind hunder "users" with ⟨-, hno⟩ | ⟨u, u', hu, hu', hfields⟩
    · simp [Loaded.root, Loaded.users] at hno
    · have huser : u' = newUser hashed fields := by simpa [Loaded.root, Loaded.users] using hu'.symm
      subst huser
      have hplaced : (placed m).users = u := by simp [placed, hu, Loaded.users]
      rw [← Option.some.inj hfound, hplaced, get?_eq_of_sameUnder hfields, not_superadmin_newUser] at hsuper
      cases hsuper

theorem superadmin_step (hyaml : yaml.Lawful) (hr : r.Plain str) (hfile : file.Plain) (h : HasSuperadmin str file) :
    HasSuperadmin str (step str yaml file r) ↔ ¬ HidesUsers str file r := by
  refine ⟨fun hafter hhides => not_superadmin_of_hides hyaml hr hfile hhides hafter, fun hno => ?_⟩
  rcases step_cases str r yaml hfile with
    ⟨heq, -⟩ | ⟨req, answer, root, hreq, hwrites, hsaved, hstep⟩
  · rwa [heq]
  · obtain ⟨loaded, username, users', hload, hname, hedit, rfl⟩ := dispatch_saves hsaved
    obtain ⟨users, hfound, name, hsuper⟩ := h
    rw [usersIn_of_load hload] at hfound
    cases Option.some.inj hfound
    have hholds := holds_of_not_hides hno hreq hwrites hsaved hload hname hedit
    obtain ⟨found, hreload, hunder⟩ := reload_found hyaml (plain_of_saved hfile hr hreq hload hname hedit) hholds
    obtain ⟨name', hsuper'⟩ := hedit.superadmin hsuper
    rw [step, hstep]
    exact ⟨found.users, usersIn_of_load hreload, name', (isEnabledSuperadmin_congr hunder name').trans hsuper'⟩

/-- However many requests come in, the file has an enabled superadmin after each of them exactly when
none of them adds a user called `users` to a file without the `users:` key. -/
theorem superadmin_kept_iff (str : Value → String) (yaml : PyYaml) (file : Stored) (ops : List Request)
    (hyaml : yaml.Lawful) (hfile : file.Plain) (hops : ∀ r ∈ ops, r.Plain str) (h : HasSuperadmin str file) :
    (∀ pre, pre <+: ops → HasSuperadmin str (Machine.run (step str yaml) file pre)) ↔
      Machine.Along (step str yaml) (fun file r => ¬ HidesUsers str file r) file ops :=
  Machine.forall_prefix_iff_along_of_mem hops h hfile (fun _ _ hr hplain => plain_step hyaml hr hplain)
    fun _ _ hr hplain hsuper => superadmin_step hyaml hr hplain hsuper

/-- A dumper that keeps the order of the keys, as it is already in the file below. -/
def keepingOrder : PyYaml where
  reload := fun root => .document root.value
  shared := fun v _ => (.internalError, .aliased v)

theorem keepingOrder_lawful : keepingOrder.Lawful := ⟨fun n root _ => ⟨root.value, rfl, same_refl n _⟩⟩

def installedUsers : Mapping :=
  (Dict.empty.set "admin" (Mapping.value (Dict.empty.set "groups" (.list [.str "superadmin"])))).set "bob"
    (Mapping.value ((Dict.empty.set "displayname" (Value.str "Bob")).set "groups" (.list [])))

def installedFile : Stored :=
  .document (Mapping.value (Loaded.root installedUsers (.nested .empty .empty)))

theorem plain_empty (n : Nat) : (Mapping.value Dict.empty).Plain (n + 1) := plain_value.mpr fun _ _ h => by cases h

theorem plain_installedFile : installedFile.Plain := by
  have hadmin : (Mapping.value (Dict.empty.set "groups" (.list [.str "superadmin"]))).Plain 1 :=
    plain_set (plain_empty 0) (by decide) rfl
  have hbob : (Mapping.value ((Dict.empty.set "displayname" (Value.str "Bob")).set "groups" (.list []))).Plain 1 :=
    plain_set (plain_set (plain_empty 0) (by decide) rfl) (by decide) rfl
  have husers : installedUsers.value.Plain 2 :=
    plain_set (plain_set (plain_empty 1) (by decide) hadmin) (by decide) hbob
  intro loaded hloaded
  cases Except.ok.inj ((load_of_mapping mapping?_value).symm.trans hloaded)
  have hempty : (Loaded.nested .empty .empty).Plain := ⟨plain_empty 2, plain_empty 1⟩
  refine plain_placed (plain_root hempty husers) ?_
  intro users hflat
  cases hflat

/-- A request whose password, if any, cannot be hashed. -/
def asked (action username : String) (fields : Mapping) : Request where
  req := some (((Dict.empty.set "action" (Value.str action)).set "username" (.str username)).set "fields" fields.value)
  hash := fun _ => .error ""
  writes := true

def renameBob : Request := asked "update" "bob" (Dict.empty.set "displayname" (.str "Robert"))

def deleteBob : Request := asked "delete" "bob" .empty

def deleteAdmin : Request := asked "delete" "admin" .empty

theorem plain_asked {action username : String} {fields : Mapping} (checked : CheckedFields)
    (h : validatedFields (fun _ => "") (((Dict.empty.set "action" (Value.str action)).set "username"
      (.str username)).set "fields" fields.value) = .ok checked)
    (hname : ∀ name, checked.displayname = some name → isPlainText name = true) :
    (asked action username fields).Plain fun _ => "" where
  hashed _ _ hashed := by cases hashed
  displayname req found name hreq hfound := by
    cases Option.some.inj hreq
    cases Except.ok.inj (h.symm.trans hfound)
    exact hname name

theorem plain_requests : ∀ r ∈ [renameBob, deleteBob, deleteAdmin], r.Plain fun _ => "" := by
  simp only [List.forall_mem_cons, List.not_mem_nil, false_imp_iff, implies_true, and_true]
  refine ⟨plain_asked ⟨some "Robert", none, none, none⟩ rfl ?_,
    plain_asked ⟨none, none, none, none⟩ rfl ?_, plain_asked ⟨none, none, none, none⟩ rfl ?_⟩
  · rintro name ⟨⟩
    decide
  · rintro name ⟨⟩
  · rintro name ⟨⟩

theorem superadmin_kept_iff_installed :
    (∀ pre, pre <+: [renameBob, deleteBob, deleteAdmin] →
      HasSuperadmin (fun _ => "") (Machine.run (step (fun _ => "") keepingOrder) installedFile pre)) ↔
      Machine.Along (step (fun _ => "") keepingOrder) (fun file r => ¬ HidesUsers (fun _ => "") file r)
        installedFile [renameBob, deleteBob, deleteAdmin] :=
  superadmin_kept_iff (fun _ => "") keepingOrder installedFile _ keepingOrder_lawful plain_installedFile plain_requests
    ⟨installedUsers, usersIn_of_load (load_of_mapping mapping?_value), "admin", by decide⟩
/-! ## A request is about one user -/

theorem Edit.get?_of_ne {users' : Mapping} (h : Edit str hash req users username answer users')
    (hne : name ≠ username) : users'.get? name = users.get? name := by
  cases h <;> simp [hne]

/-- Only a request to read a user is answered with a user and saves nothing. -/
theorem handleGet_of_dispatch {view : UserView}
    (h : dispatchRequest str hash file req = .ok (.user view, none)) :
    handleGet str file req = .ok (.user view, none) := by
  simp only [dispatchRequest, bind_eq_ok] at h
  obtain ⟨action, -, h⟩ := h
  split_ifs at h
  · simp only [handleList, bind_eq_ok] at h
    obtain ⟨loaded, -, h⟩ := h
    cases h
  · exact h
  · simp only [handleUpdate, bind_eq_ok] at h
    obtain ⟨username, -, fields, -, password, -, loaded, -, h⟩ := h
    split at h
    next => cases h
    next record _ =>
      split_ifs at h
      · cases h
      · have hchange := Except.ok.inj h
        unfold changeUser at hchange
        simp only at hchange
        split_ifs at hchange
        · cases hchange
        · split at hchange <;> cases hchange
  · simp only [handleCreate, bind_eq_ok] at h
    obtain ⟨username, -, fields, -, password, -, h⟩ := h
    split_ifs at h
    · cases h
    · obtain ⟨loaded, -, h⟩ := bind_eq_ok.mp h
      split_ifs at h
      · cases h
      · split at h <;> cases h
  · simp only [handleDelete, bind_eq_ok] at h
    obtain ⟨username, -, loaded, -, h⟩ := h
    split at h
    next => cases h
    next user _ =>
      by_cases hremoves : removesLastEnabledSuperadmin str loaded.users username none = true
      · rw [if_pos hremoves] at h
        cases h
      · rw [if_neg hremoves] at h
        generalize (if user.truthy = true then mapping? user else some Dict.empty) = shown at h
        cases shown <;> cases h
  · cases h

theorem handleGet_eq {record : Mapping} (hname : validatedUsername str req = .ok username)
    (hload : loadUsersData file = .ok loaded)
    (hrecord : (loaded.users.get? username).bind mapping? = some record) :
    handleGet str file req = .ok (.user (safeUserView str username record), none) := by
  simp [handleGet, hname, hload, hrecord, bind, Except.bind, pure, Except.pure]

theorem Edit.record_of_user {view : UserView} {users' : Mapping}
    (h : Edit str hash req users username (.user view) users') :
    ∃ record, (users'.get? username).bind mapping? = some record ∧ view = safeUserView str username record := by
  cases h with
  | change => exact ⟨_, by simp, rfl⟩
  | create => exact ⟨_, by simp, rfl⟩
  | delete hno => exact absurd rfl (hno view)

theorem safeUserView_congr {record record' : Mapping} (h : SameUnder 0 record record') :
    safeUserView str username record = safeUserView str username record' := by
  unfold safeUserView orEmpty groupsOf disabledIn
  simp only [get?_eq_of_sameUnder h]

/-- A request touches no user but the one it names, and a user answered to a request is what the next
reader is shown. -/
theorem request_about_one_user (str : Value → String) (yaml : PyYaml) (file : Stored) (r : Request)
    (hyaml : yaml.Lawful) (hfile : file.Plain) (hr : r.Plain str) (h : ¬ HidesUsers str file r) :
    (∀ name, (∀ req, r.req = some req → validatedUsername str req ≠ .ok name) →
      Option.Rel (Value.Same 1) ((usersIn (step str yaml file r)).bind (·.get? name))
        ((usersIn file).bind (·.get? name))) ∧
    ∀ req view, r.req = some req → (handleRequest str yaml file r).1 = .user view →
      handleGet str (step str yaml file r) req = .ok (.user view, none) := by
  rcases step_cases str r yaml hfile with
    ⟨heq, hread⟩ | ⟨req, answer, root, hreq, hwrites, hsaved, hstep⟩
  · rw [heq]
    exact ⟨fun _ _ => rel_refl 1 _, fun req view hreq hanswer => handleGet_of_dispatch (hread req view hreq hanswer)⟩
  · obtain ⟨loaded, username, users', hload, hname, hedit, rfl⟩ := dispatch_saves hsaved
    have hholds := holds_of_not_hides h hreq hwrites hsaved hload hname hedit
    obtain ⟨found, hreload, hunder⟩ := reload_found hyaml (plain_of_saved hfile hr hreq hload hname hedit) hholds
    rw [step, hstep]
    constructor
    · intro name hother
      have hne : name ≠ username := by
        rintro rfl
        exact hother req hreq hname
      rw [usersIn_of_load hreload, usersIn_of_load hload, Option.bind_some, Option.bind_some, ← hedit.get?_of_ne hne]
      exact hunder name
    · intro req' view hreq' hanswer
      cases Option.some.inj (hreq.symm.trans hreq')
      cases hanswer
      obtain ⟨record, hrecord, rfl⟩ := hedit.record_of_user
      rcases sameUnder_bind hunder username with ⟨-, hnone⟩ | ⟨u, u', hu, hu', hfields⟩
      · rw [hnone] at hrecord
        cases hrecord
      · cases Option.some.inj (hrecord.symm.trans hu')
        rw [← safeUserView_congr hfields]
        exact handleGet_eq hname hreload hu

theorem request_about_one_user_installed :
    (∀ name, (∀ req, renameBob.req = some req → validatedUsername (fun _ => "") req ≠ .ok name) →
      Option.Rel (Value.Same 1)
        ((usersIn (step (fun _ => "") keepingOrder installedFile renameBob)).bind (·.get? name))
        ((usersIn installedFile).bind (·.get? name))) ∧
    ∀ req view, renameBob.req = some req →
      (handleRequest (fun _ => "") keepingOrder installedFile renameBob).1 = .user view →
      handleGet (fun _ => "") (step (fun _ => "") keepingOrder installedFile renameBob) req =
        .ok (.user view, none) := by
  refine request_about_one_user (fun _ => "") keepingOrder installedFile renameBob keepingOrder_lawful
    plain_installedFile (plain_requests renameBob List.mem_cons_self) ?_
  rintro ⟨users, req, answer, root, hload, -⟩
  rw [installedFile, load_of_mapping mapping?_value] at hload
  cases hload

end EasyHaProxy.Authelia.Users
