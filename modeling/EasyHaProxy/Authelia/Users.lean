import EasyHaProxy.Lib.PlainYaml

/-! # The users daemon -/
namespace EasyHaProxy.Authelia.Users

open Yaml (Value Fields Mapping mapping?)

/-- The file on disk, as `yaml.safe_load` reads it. -/
inductive Stored
  | missing
  /-- It is not YAML. -/
  | unreadable
  | document (v : Value)
  /-- A mapping stands in several places, by an alias. -/
  | aliased (v : Value)

/-- How a request ends that has no answer of its own: a `ValueError` with its text, or another
exception. -/
inductive Failure
  | refused (error : String)
  | broke
  deriving DecidableEq

/-- What `_load_users_data` returns: the whole document and the users in it. -/
inductive Loaded
  /-- `{users: {…}}`, with the document. -/
  | nested (root users : Mapping)
  /-- The document is the users. -/
  | flat (users : Mapping)

def Loaded.users : Loaded → Mapping
  | nested _ users => users
  | flat users => users

/-- The document with other users. -/
def Loaded.root (users : Mapping) : Loaded → Mapping
  | nested root _ => root.set "users" users.value
  | flat _ => users

def placed (root : Mapping) : Loaded :=
  match (root.get? "users").bind mapping? with
  | some users => .nested root users
  | none => .flat root

/-- `_load_users_data` -/
def loadUsersData : Stored → Except Failure Loaded
  | .missing => .error .broke
  | .unreadable => .error .broke
  | .document v | .aliased v =>
    if !v.truthy then .ok (placed .empty)
    else match mapping? v with
      | some root => .ok (placed root)
      | none => .error (.refused "unexpected YAML structure (root is not a dict)")

/-! ## What a request may hold -/

def usernameChar (c : Char) : Bool := c.isAlphanum || c ∈ ['_', '.', '@', '-']

/-- `USERNAME_RE` -/
def isUsername : List Char → Bool
  | [] => false
  | c :: rest => c.isAlphanum && rest.length ≤ 63 && rest.all usernameChar

def emailChar (c : Char) : Bool := c.isAlphanum || c ∈ ".!#$%&'*+/=?^_`\x7b|\x7d~-".toList

/-- `[A-Za-z0-9](?:[A-Za-z0-9-]{0,61}[A-Za-z0-9])?` -/
def isLabel (l : List Char) : Bool :=
  l.length ≤ 63 && l.head?.any Char.isAlphanum && l.getLast?.any Char.isAlphanum &&
    l.all fun c => c.isAlphanum || c == '-'

/-- `EMAIL_RE` -/
def isEmail (l : List Char) : Bool :=
  let name := l.takeWhile (· ≠ '@')
  let labels := (l.drop (name.length + 1)).splitOnP (· == '.')
  name ≠ [] && name.all emailChar && name.length < l.length && 2 ≤ labels.length && labels.all isLabel

def isControl (c : Char) : Bool := c.toNat < 32 || c.toNat = 127

variable (str : Value → String)

/-- `_validated_username` -/
def validatedUsername (req : Mapping) : Except Failure String :=
  let username := Yaml.stripped str (req.get? "username")
  if isUsername username.toList then .ok username
  else .error (.refused
    "username must contain only letters, digits, '.', '_', '@' or '-' (max 64)")

structure CheckedFields where
  displayname : Option String
  email : Option String
  groups : Option (List String)
  disabled : Option Bool

/-- One of the two texts among the fields. -/
def checkedText (key : String) (maxLength : Nat) (suits : List Char → Bool) (fields : Mapping) :
    Except Failure (Option String) :=
  match fields.get? key with
  | none => .ok none
  | some v =>
    let raw := (if v.truthy then v.text str else "").toList
    let value := Text.strip raw
    if raw.any isControl then .error (.refused s!"{key} is invalid")
    else if value = [] ∨ maxLength < value.length then .error (.refused s!"{key} is invalid")
    else if suits value then .ok (some (String.ofList value))
    else .error (.refused s!"{key} is invalid")

/-- `str(group).strip()` -/
def groupName (group : Value) : String := String.ofList (Text.strip (group.text str).toList)

def checkedGroups (fields : Mapping) : Except Failure (Option (List String)) :=
  match fields.get? "groups" with
  | none => .ok none
  | some (.list groups) =>
    if 50 < groups.length then .error (.refused "groups must be a list with no more than 50 entries")
    else
      let names := (groups.map (groupName str)).filter fun name => isUsername name.toList
      if names.length ≠ groups.length then .error (.refused "group name is invalid") else .ok (some names)
  | some _ => .error (.refused "groups must be a list with no more than 50 entries")

/-- `req.get("fields") or {}`, which has to be an object. -/
def fieldsOf (req : Mapping) : Except Failure Mapping :=
  match req.get? "fields" with
  | none => .ok .empty
  | some v =>
    if !v.truthy then .ok .empty
    else match mapping? v with
      | some fields => .ok fields
      | none => .error (.refused "fields must be an object")

/-- `_validated_fields` -/
def validatedFields (req : Mapping) : Except Failure CheckedFields := do
  let fields ← fieldsOf req
  let displayname ← checkedText str "displayname" 320 (fun _ => true) fields
  let email ← checkedText str "email" 254 isEmail fields
  let groups ← checkedGroups str fields
  return ⟨displayname, email, groups, (fields.get? "disabled").map Value.truthy⟩

/-- `_password_from_request` -/
def passwordFromRequest (req : Mapping) : Except Failure String :=
  match req.get? "password_plain" with
  | none => .ok ""
  | some .null => .ok ""
  | some (.str s) => .ok s
  | some _ => .error (.refused "password_plain must be a string")

/-! ## Users -/

/-- `groups or []`, as a list of one where it is no list. -/
def groupsOf (record : Mapping) : List Value :=
  match record.get? "groups" with
  | none => []
  | some (.list groups) => groups
  | some v => if v.truthy then [v] else []

def disabledIn (record : Mapping) : Bool := ((record.get? "disabled").map Value.truthy).getD false

/-- `_is_enabled_superadmin` of a record. -/
def isSuperadmin (record : Mapping) : Bool :=
  !disabledIn record && (groupsOf record).any fun group => groupName str group == "superadmin"

/-- `_is_enabled_superadmin` -/
def isEnabledSuperadmin (user : Option Value) : Bool := (user.bind mapping?).any (isSuperadmin str)

/-- `_removes_last_enabled_superadmin` -/
def removesLastEnabledSuperadmin (users : Mapping) (username : String) (replacement : Option Value) :
    Bool :=
  isEnabledSuperadmin str (users.get? username) && !isEnabledSuperadmin str replacement &&
    !users.entries.any fun e => e.1 != username && isEnabledSuperadmin str (some e.2)

/-- `_safe_user_view` -/
structure UserView where
  username : String
  displayname : Value
  email : Value
  groups : List String
  disabled : Bool

/-- `raw.get(key, "") or ""` -/
def orEmpty (record : Mapping) (key : String) : Value :=
  match record.get? key with
  | some v => if v.truthy then v else .str ""
  | none => .str ""

def safeUserView (username : String) (record : Mapping) : UserView where
  username := username
  displayname := orEmpty record "displayname"
  email := orEmpty record "email"
  groups := (groupsOf record).map fun group => group.text str
  disabled := disabledIn record

/-- What a request is answered with. -/
inductive Answer
  | users (listed : List UserView)
  | user (view : UserView)
  | deleted (message : String) (view : UserView)
  | error (text : String)
  /-- `internal error`, with what was raised. -/
  | internalError

/-! ## Requests -/

/-- `dict.update` and the assignments of `_handle_update`: the fields that are there. -/
def setField (key : String) (value : Option Value) (record : Mapping) : Mapping :=
  match value with
  | none => record
  | some v => record.set key v

def groupsValue (groups : List String) : Value := .list (groups.map Value.str)

def updated (fields : CheckedFields) (record : Mapping) : Mapping :=
  setField "groups" (fields.groups.map groupsValue) <|
    setField "disabled" (fields.disabled.map Value.bool) <|
      setField "email" (fields.email.map Value.str) <|
        setField "displayname" (fields.displayname.map Value.str) record

/-- `user.setdefault("groups", [])` -/
def withGroups (record : Mapping) : Mapping :=
  if record.contains "groups" then record else record.set "groups" (.list [])

abbrev Hasher := String → Except String String

/-- `_hash_password` -/
def hashPassword (hash : Hasher) (plain : String) : Except String String :=
  if 8 ≤ plain.toList.length ∧ plain.toList.length ≤ 1024 then hash plain
  else .error "The password must be 8 to 1024 characters long"

def notFound (username : String) : Answer := .error s!"user '{username}' not found"

/-- What a request is answered with, and the document it saves. -/
abbrev Handled := Except Failure (Answer × Option Mapping)

def handleList (file : Stored) : Handled := do
  let loaded ← loadUsersData file
  let names := loaded.users.keys.insertionSort (· ≤ ·)
  let views := names.filterMap fun username =>
    match loaded.users.get? username with
    | none => none
    | some v =>
      if v.truthy then (mapping? v).map (safeUserView str username)
      else some (safeUserView str username .empty)
  return (.users views, none)

def handleGet (file : Stored) (req : Mapping) : Handled := do
  let username ← validatedUsername str req
  let loaded ← loadUsersData file
  match (loaded.users.get? username).bind mapping? with
  | none => return (notFound username, none)
  | some record => return (.user (safeUserView str username record), none)

def changeUser (hash : Hasher) (loaded : Loaded) (username : String) (fields : CheckedFields)
    (password : String) (record : Mapping) : Answer × Option Mapping :=
  let user := updated fields (withGroups record)
  let save := fun user : Mapping =>
    (Answer.user (safeUserView str username user),
      some (loaded.root (loaded.users.set username user.value)))
  if password = "" then save user
  else match hashPassword hash password with
    | .error error => (.error s!"Could not hash the password: {error}", none)
    | .ok hashed => save (user.set "password" (.str hashed))

def handleUpdate (hash : Hasher) (file : Stored) (req : Mapping) : Handled := do
  let username ← validatedUsername str req
  let fields ← validatedFields str req
  let password ← passwordFromRequest req
  let loaded ← loadUsersData file
  match (loaded.users.get? username).bind mapping? with
  | none => return (notFound username, none)
  | some record =>
    if removesLastEnabledSuperadmin str loaded.users username (some (updated fields record).value) then
      return (.error "the last enabled superadmin cannot be disabled or demoted", none)
    else return changeUser str hash loaded username fields password record

def newUser (hashed : String) (fields : CheckedFields) : Mapping :=
  ((((Dict.empty.set "password" (Value.str hashed)).set "displayname" (.str (fields.displayname.getD ""))).set
    "email" (.str (fields.email.getD ""))).set "groups" (groupsValue (fields.groups.getD []))).set
    "disabled" (.bool (fields.disabled.getD false))

def handleCreate (hash : Hasher) (file : Stored) (req : Mapping) : Handled := do
  let username ← validatedUsername str req
  let fields ← validatedFields str req
  let password ← passwordFromRequest req
  if password = "" then return (.error "password_plain is required for create", none)
  else
    let loaded ← loadUsersData file
    if loaded.users.contains username then
      return (.error s!"user '{username}' already exists", none)
    else match hashPassword hash password with
      | .error error => return (.error s!"Could not hash the password: {error}", none)
      | .ok hashed =>
        let user := newUser hashed fields
        return (.user (safeUserView str username user),
          some (loaded.root (loaded.users.set username user.value)))

def handleDelete (file : Stored) (req : Mapping) : Handled := do
  let username ← validatedUsername str req
  let loaded ← loadUsersData file
  match loaded.users.get? username with
  | none => return (notFound username, none)
  | some user =>
    if removesLastEnabledSuperadmin str loaded.users username none then
      return (.error "the last enabled superadmin cannot be deleted", none)
    else
      let shown := if user.truthy then mapping? user else some .empty
      match shown with
      -- `_safe_user_view` of a record that is no mapping fails, after the file is written
      | none => return (.internalError, some (loaded.root (loaded.users.erase username)))
      | some record => return (.deleted s!"user '{username}' deleted" (safeUserView str username record),
          some (loaded.root (loaded.users.erase username)))

/-- `(req.get("action") or "").strip()` -/
def actionOf (req : Mapping) : Except Failure String :=
  match req.get? "action" with
  | none => .ok ""
  | some (.str s) => .ok (String.ofList (Text.strip s.toList))
  | some v => if v.truthy then .error .broke else .ok ""

/-- `_dispatch_request` -/
def dispatchRequest (hash : Hasher) (file : Stored) (req : Mapping) : Handled := do
  let action ← actionOf req
  if action = "list" then handleList str file
  else if action = "get" then handleGet str file req
  else if action = "update" then handleUpdate str hash file req
  else if action = "create" then handleCreate str hash file req
  else if action = "delete" then handleDelete str file req
  else return (.error s!"unknown action: {action}", none)

/-- A request as it comes in: what it asks, what the hasher gives, and whether the file can be written. -/
structure Request where
  /-- `none` where it is no object. -/
  req : Option Mapping
  hash : Hasher
  writes : Bool

/-- PyYAML, and Python's objects. -/
structure PyYaml where
  /-- What `safe_load` reads of a document that `safe_dump` wrote. -/
  reload : Mapping → Stored
  /-- What a request makes of a file with aliases, where a change to one mapping is a change in every place it
  stands in. -/
  shared : Value → Request → Answer × Stored

variable (yaml : PyYaml)

/-- `handle_request`, and what the server makes of an exception that leaves it. -/
def handleRequest (file : Stored) (r : Request) : Answer × Stored :=
  match file, r.req with
  | .aliased v, _ => yaml.shared v r
  | _, none => (.error "request must be a JSON object", file)
  | _, some req =>
    match dispatchRequest str r.hash file req with
    | .error (.refused error) => (.error error, file)
    | .error .broke => (.internalError, file)
    | .ok (answer, none) => (answer, file)
    | .ok (answer, some root) => if r.writes then (answer, yaml.reload root) else (.internalError, file)

def step (file : Stored) (r : Request) : Stored := (handleRequest str yaml file r).2

end EasyHaProxy.Authelia.Users
