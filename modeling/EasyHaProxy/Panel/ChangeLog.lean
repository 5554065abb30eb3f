import EasyHaProxy.Lib.Fields
import EasyHaProxy.Lib.Nested
import EasyHaProxy.Lib.Text
import Mathlib.Data.Char
import Mathlib.Data.List.Infix
import Mathlib.Data.List.Lex

/-! `AuditLog.record` writes a summary of a change and the values before and after it, with the secrets in
them redacted. -/
namespace EasyHaProxy.Panel.ChangeLog

/-- A value that is no list and no dictionary. -/
inductive Leaf (σ : Type)
  | none
  | str (text : List Char)
  | other (x : σ)

variable {κ σ : Type}

abbrev Value (κ σ : Type) := Nested κ (Leaf σ)

/-- What Python does with keys and values. -/
structure Runtime (κ σ : Type) where
  /-- `str(key)`. -/
  str : κ → List Char
  /-- A text as a key. -/
  key : List Char → κ
  /-- `sorted(keys)`; nothing where two of them cannot be compared. -/
  sorted : List κ → Option (List κ)
  sorted_perm : ∀ keys out, sorted keys = some out → out.Perm keys
  eq : Value κ σ → Value κ σ → Bool
  repr : Value κ σ → List Char
  /-- `json.dumps(value, ensure_ascii=False, sort_keys=True)`; nothing for a `TypeError` or `ValueError`. -/
  dumps : Value κ σ → Option (List Char)
  /-- `str(type(value))` of what is neither a text, a list nor a dictionary. -/
  typeName : σ → List Char

/-! ## Sensitive keys -/

/-- One character as `re.IGNORECASE` compares it with the letters of a pattern. -/
def fold (c : Char) : Char :=
  if c = '\u212a' then 'k' else if c = '\u017f' then 's' else if c = '\u0130' ∨ c = '\u0131' then 'i'
  else c.toLower

/-- The alternatives of `_SENSITIVE_KEY` that may stand anywhere. -/
def sensitiveWords : List (List Char) :=
  [['p', 'a', 's', 's'], ['s', 'e', 'c', 'r', 'e', 't'], ['t', 'o', 'k', 'e', 'n'],
   ['c', 'r', 'e', 'd', 'e', 'n', 't', 'i', 'a', 'l'], ['p', 'r', 'i', 'v', 'a', 't', 'e'],
   ['p', 'a', 's', 's', 'p', 'h', 'r', 'a', 's', 'e'], ['c', 'o', 'o', 'k', 'i', 'e'],
   ['a', 'u', 't', 'h', 'o', 'r', 'i', 'z', 'a', 't', 'i', 'o', 'n'], ['s', 'e', 's', 's', 'i', 'o', 'n'],
   ['s', 'a', 'l', 't'], ['h', 'a', 's', 'h'], ['a', 'p', 'i', 'k', 'e', 'y'],
   ['a', 'p', 'i', '_', 'k', 'e', 'y']]

/-- `$` also matches in front of a newline at the end. -/
def atEnd (p : List Char → Bool) (name : List Char) : Bool :=
  p name || (name.getLast? = some '\n' && p name.dropLast)

/-- `_SENSITIVE_KEY.search(name)`. -/
def sensitiveKey (name : List Char) : Bool :=
  let folded := name.map fold
  sensitiveWords.any (fun word => decide (word <:+: folded)) ||
    atEnd (fun text => decide (['_', 'k', 'e', 'y'] <:+ text)) folded ||
    atEnd (fun text => decide (text = ['k', 'e', 'y'])) folded

/-! ## Redaction -/

def redacted : List Char := ['*', '*', '*']

def tooDeep : List Char := ['.', '.', '.']

/-- `item not in (None, "")`. -/
def isFilled : Value κ σ → Bool
  | .leaf .none => false
  | .leaf (.str text) => !text.isEmpty
  | _ => true

variable [DecidableEq κ] (py : Runtime κ σ)

mutual

/-- `redact`. -/
def redact (depth : Nat) : Value κ σ → Value κ σ
  | .leaf (.str text) =>
    if 6 < depth then .leaf (.str tooDeep)
    else if 1000 < text.length then .leaf (.str (text.take 1000 ++ ['…']))
    else .leaf (.str text)
  | .leaf a => if 6 < depth then .leaf (.str tooDeep) else .leaf a
  | .list items => if 6 < depth then .leaf (.str tooDeep) else .list ((redactItems (depth + 1) items).take 100)
  | .tuple items => if 6 < depth then .leaf (.str tooDeep) else .list ((redactItems (depth + 1) items).take 100)
  | .dict fields => if 6 < depth then .leaf (.str tooDeep) else .dict (redactFields (depth + 1) [] fields)

def redactItems (depth : Nat) : List (Value κ σ) → List (Value κ σ)
  | [] => []
  | item :: rest => redact depth item :: redactItems depth rest

/-- The loop over the fields of a dictionary, with `clean` so far. -/
def redactFields (depth : Nat) (clean : Nested.Fields κ (Leaf σ)) :
    List (κ × Value κ σ) → Nested.Fields κ (Leaf σ)
  | [] => clean
  | (key, item) :: rest =>
    redactFields depth
      (Fields.put (py.key (py.str key))
        (if sensitiveKey (py.str key) then
          (if isFilled item then .leaf (.str redacted) else .leaf .none)
        else redact depth item) clean) rest

end

/-! ## The summary -/

/-- `fields.get(key)`. -/
def get (fields : Nested.Fields κ (Leaf σ)) (key : κ) : Value κ σ := (fields.lookup key).getD (.leaf .none)

/-- What `summarize` says of one key, if anything. -/
def part (before after cleanBefore cleanAfter : Nested.Fields κ (Leaf σ)) (key : κ) : Option (List Char) :=
  if py.eq (get before key) (get after key) then none
  else if key ∉ before.map Prod.fst then some ('+' :: py.str key)
  else if key ∉ after.map Prod.fst then some ('-' :: py.str key)
  else if sensitiveKey (py.str key) || py.eq (get cleanBefore key) (get cleanAfter key) then
    some (py.str key ++ [':', ' ', 'c', 'h', 'a', 'n', 'g', 'e', 'd'])
  else
    some (py.str key ++ [':', ' '] ++ py.repr (get cleanBefore key) ++ [' ', '→', ' '] ++
      py.repr (get cleanAfter key))

/-- `set(before) | set(after)` -/
def allKeys (before after : Nested.Fields κ (Leaf σ)) : List κ :=
  before.map Prod.fst ++ (after.map Prod.fst).filter (· ∉ before.map Prod.fst)

/-- `summarize`; nothing where the keys cannot be sorted. -/
def summarize : Value κ σ → Value κ σ → Option (List Char)
  | .dict before, .dict after =>
    (py.sorted (allKeys before after)).map fun keys =>
      ([',', ' '].intercalate (keys.filterMap
        (part py before after (redactFields py 1 [] before) (redactFields py 1 [] after)))).take 500
  | _, _ => some []

/-! ## The record -/

/-- `str(type(value))` -/
def typeText : Value κ σ → List Char
  | .leaf .none => ['<', 'c', 'l', 'a', 's', 's', ' ', '\x27', 'N', 'o', 'n', 'e', 'T', 'y', 'p', 'e', '\x27', '>']
  | .leaf (.str _) => ['<', 'c', 'l', 'a', 's', 's', ' ', '\x27', 's', 't', 'r', '\x27', '>']
  | .leaf (.other x) => py.typeName x
  | .list _ => ['<', 'c', 'l', 'a', 's', 's', ' ', '\x27', 'l', 'i', 's', 't', '\x27', '>']
  | .tuple _ => ['<', 'c', 'l', 'a', 's', 's', ' ', '\x27', 't', 'u', 'p', 'l', 'e', '\x27', '>']
  | .dict _ => ['<', 'c', 'l', 'a', 's', 's', ' ', '\x27', 'd', 'i', 'c', 't', '\x27', '>']

def unserializable : List Char :=
  ['u', 'n', 's', 'e', 'r', 'i', 'a', 'l', 'i', 'z', 'a', 'b', 'l', 'e']

/-- `_dump`. -/
def dump : Value κ σ → Option (List Char)
  | .leaf .none => some []
  | value =>
    (py.dumps (redact py 0 value) <|>
      py.dumps (.dict [(py.key unserializable, .leaf (.str (typeText py value)))])).map (·.take 8192)

/-- The arguments of `record` but for the values. -/
structure Event where
  ts : Int
  actorType : List Char
  actor : List Char
  sourceIp : List Char
  action : List Char
  objectType : List Char
  objectId : List Char
  result : List Char
  summary : List Char
  detail : List Char

/-- A row of `audit_events`. -/
structure Row where
  ts : Int
  actorType : List Char
  actor : List Char
  sourceIp : List Char
  action : List Char
  objectType : List Char
  objectId : List Char
  result : List Char
  summary : List Char
  beforeJson : List Char
  afterJson : List Char
  detail : List Char
  deriving DecidableEq

def success : List Char := ['s', 'u', 'c', 'c', 'e', 's', 's']

def results : List (List Char) :=
  [success, ['f', 'a', 'i', 'l', 'u', 'r', 'e'], ['d', 'e', 'n', 'i', 'e', 'd']]

def system : List Char := ['s', 'y', 's', 't', 'e', 'm']

def actorTypes : List (List Char) := [['u', 's', 'e', 'r'], system]

/-- The row that `record` inserts. -/
def payload (event : Event) (before after : Value κ σ) : Option Row :=
  (if event.summary.isEmpty then summarize py before after else some event.summary).bind fun summary =>
    (dump py before).bind fun beforeJson => (dump py after).map fun afterJson =>
      { ts := event.ts
        actorType := if event.actorType ∈ actorTypes then event.actorType else system
        actor := event.actor.take 120
        sourceIp := event.sourceIp.take 64
        action := event.action.take 120
        objectType := event.objectType.take 60
        objectId := event.objectId.take 200
        result := if event.result ∈ results then event.result else success
        summary := summary.take 500
        beforeJson := beforeJson
        afterJson := afterJson
        detail := event.detail.take 500 }

/-- How one try to insert the row ends. -/
inductive Try
  | unconnected
  | stored
  | readonly
  | failed

/-- `AuditLog.record`: whether the row was stored, and the rows then; nothing where it raises. -/
def record (event : Event) (before after : Value κ σ) (first second : Try) (rows : List Row) :
    Option (Bool × List Row) :=
  (payload py event before after).map fun row =>
    match first, second with
    | .stored, _ => (true, rows ++ [row])
    | .readonly, .stored => (true, rows ++ [row])
    | _, _ => (false, rows)

/-! ## Two runs -/

/-- Only what is under a sensitive key differs, and is there in both. -/
abbrev SameUpToSecrets : Value κ σ → Value κ σ → Prop :=
  Nested.Same (fun key => sensitiveKey (py.str key)) isFilled

def topKeys : Value κ σ → List κ
  | .dict fields => fields.map Prod.fst
  | _ => []

def field : Value κ σ → κ → Value κ σ
  | .dict fields, key => get fields key
  | _, _ => .leaf .none

def SameChanges (before after before' after' : Value κ σ) : Prop :=
  ∀ key ∈ topKeys before ++ topKeys after,
    py.eq (field before key) (field after key) = py.eq (field before' key) (field after' key)

variable {py} {value value' before before' after after' : Value κ σ}

/-! ## What is redacted is the same -/

omit [DecidableEq κ] in
theorem isFilled_eq (h : SameUpToSecrets py value value') : isFilled value = isFilled value' := by
  cases h <;> rfl

mutual

theorem redact_eq {value value' : Value κ σ}
    (h : Nested.Same (fun key => sensitiveKey (py.str key)) isFilled value value') :
    ∀ depth, redact py depth value = redact py depth value' :=
  match h with
  | .leaf _ => fun _ => rfl
  | .list h => fun depth => by rw [redact, redact, redactItems_eq h]
  | .tuple h => fun depth => by rw [redact, redact, redactItems_eq h]
  | .dict h => fun depth => by rw [redact, redact, redactFields_eq h]

theorem redactItems_eq {items items' : List (Value κ σ)}
    (h : Nested.SameItems (fun key => sensitiveKey (py.str key)) isFilled items items') :
    ∀ depth, redactItems py depth items = redactItems py depth items' :=
  match h with
  | .nil => fun _ => rfl
  | .cons hitem hrest => fun depth => by rw [redactItems, redactItems, redact_eq hitem, redactItems_eq hrest]

theorem redactFields_eq {fields fields' : Nested.Fields κ (Leaf σ)}
    (h : Nested.SameFields (fun key => sensitiveKey (py.str key)) isFilled fields fields') :
    ∀ depth clean, redactFields py depth clean fields = redactFields py depth clean fields' :=
  match h with
  | .nil => fun _ _ => rfl
  | .same hitem hrest => fun depth clean => by
    rw [redactFields, redactFields, isFilled_eq hitem, redact_eq hitem, redactFields_eq hrest]
  | .secret hkey hx hy hrest => fun depth clean => by
    rw [redactFields, redactFields, if_pos hkey, if_pos hkey, if_pos hx, if_pos hy, redactFields_eq hrest]

end

/-! ## The row is the same -/

omit [DecidableEq κ] in
theorem typeText_eq (h : SameUpToSecrets py value value') : typeText py value = typeText py value' := by
  cases h <;> rfl

theorem dump_eq (h : SameUpToSecrets py value value') : dump py value = dump py value' := by
  have hredact := redact_eq h 0
  have htype := typeText_eq h
  cases h with
  | leaf a => rfl
  | list h => simp only [dump, hredact, htype]
  | tuple h => simp only [dump, hredact, htype]
  | dict h => simp only [dump, hredact, htype]

/-- One key is summed up in the same way. -/
theorem part_eq {b b' a a' cb ca : Nested.Fields κ (Leaf σ)} (hb : b.map Prod.fst = b'.map Prod.fst)
    (ha : a.map Prod.fst = a'.map Prod.fst) {key : κ}
    (heq : py.eq (get b key) (get a key) = py.eq (get b' key) (get a' key)) :
    part py b a cb ca key = part py b' a' cb ca key := by
  rw [part, part, heq, hb, ha]

theorem summarize_eq (hb : SameUpToSecrets py before before') (ha : SameUpToSecrets py after after')
    (hchanges : SameChanges py before after before' after') :
    summarize py before after = summarize py before' after' := by
  cases hb with
  | leaf => rfl
  | list => rfl
  | tuple => rfl
  | @dict b b' hb =>
    cases ha with
    | leaf => rfl
    | list => rfl
    | tuple => rfl
    | @dict a a' ha =>
      have hkeys : allKeys b' a' = allKeys b a := by
        unfold allKeys
        rw [hb.keys_eq, ha.keys_eq]
      rw [summarize, summarize, hkeys, ← redactFields_eq hb, ← redactFields_eq ha]
      cases hsorted : py.sorted (allKeys b a) with
      | none => rfl
      | some keys =>
        have hparts : keys.filterMap (part py b a (redactFields py 1 [] b) (redactFields py 1 [] a)) =
            keys.filterMap (part py b' a' (redactFields py 1 [] b) (redactFields py 1 [] a)) := by
          refine List.filterMap_congr fun key hkey => ?_
          have hmem : key ∈ allKeys b a := (py.sorted_perm _ _ hsorted).mem_iff.mp hkey
          refine part_eq hb.keys_eq ha.keys_eq (hchanges key ?_)
          rcases List.mem_append.mp hmem with hmem | hmem
          · exact List.mem_append_left _ hmem
          · exact List.mem_append_right _ (List.mem_filter.mp hmem).1
        rw [Option.map_some, Option.map_some, hparts]

theorem payload_eq (event : Event) (hb : SameUpToSecrets py before before')
    (ha : SameUpToSecrets py after after') (hchanges : SameChanges py before after before' after') :
    payload py event before after = payload py event before' after' := by
  rw [payload, payload, summarize_eq hb ha hchanges, dump_eq hb, dump_eq ha]

/-- The change log learns of secrets at most that they are there and that they have changed. -/
theorem record_eq (py : Runtime κ σ) (event : Event) (before after before' after' : Value κ σ)
    (first second : Try) (rows : List Row) (hb : SameUpToSecrets py before before')
    (ha : SameUpToSecrets py after after') (hchanges : SameChanges py before after before' after') :
    record py event before after first second rows = record py event before' after' first second rows := by
  rw [record, record, payload_eq event hb ha hchanges]

/-! ## A password that is changed -/

mutual

/-- Texts and integers as Python and JSON print them. -/
def printed (quote : Char) (null : List Char) : Value (List Char) Int → List Char
  | .leaf .none => null
  | .leaf (.str text) => quote :: (text ++ [quote])
  | .leaf (.other n) => (toString n).toList
  | .list items => '[' :: ([',', ' '].intercalate (printedItems quote null items) ++ [']'])
  | .tuple items => '(' :: ([',', ' '].intercalate (printedItems quote null items) ++ [')'])
  | .dict fields => '\x7b' :: ([',', ' '].intercalate (printedFields quote null fields) ++ ['\x7d'])

def printedItems (quote : Char) (null : List Char) : List (Value (List Char) Int) → List (List Char)
  | [] => []
  | item :: rest => printed quote null item :: printedItems quote null rest

def printedFields (quote : Char) (null : List Char) :
    List (List Char × Value (List Char) Int) → List (List Char)
  | [] => []
  | (key, item) :: rest =>
    (quote :: (key ++ [quote, ':', ' ']) ++ printed quote null item) :: printedFields quote null rest

end

/-- Keys are texts; what is neither a text nor nothing is an integer. -/
def plainRuntime : Runtime (List Char) Int where
  str := id
  key := id
  sorted keys := some (keys.mergeSort (fun a b => decide (a ≤ b)))
  sorted_perm keys out h := by
    rw [← Option.some.inj h]
    exact List.mergeSort_perm keys _
  eq a b := printed '\x27' ['N', 'o', 'n', 'e'] a == printed '\x27' ['N', 'o', 'n', 'e'] b
  repr := printed '\x27' ['N', 'o', 'n', 'e']
  dumps value := some (printed '"' ['n', 'u', 'l', 'l'] value)
  typeName _ := ['<', 'c', 'l', 'a', 's', 's', ' ', '\x27', 'i', 'n', 't', '\x27', '>']

def account (password : List Char) : Value (List Char) Int :=
  .dict [(['u', 's', 'e', 'r'], .leaf (.str ['a', 'n', 'n', 'a'])),
    (['p', 'a', 's', 's', 'w', 'o', 'r', 'd'], .leaf (.str password))]

def changed : Event where
  ts := 1767225600
  actorType := ['u', 's', 'e', 'r']
  actor := ['r', 'o', 'o', 't']
  sourceIp := ['1', '0', '.', '0', '.', '0', '.', '9']
  action := ['u', 's', 'e', 'r', '.', 'u', 'p', 'd', 'a', 't', 'e']
  objectType := ['u', 's', 'e', 'r']
  objectId := ['a', 'n', 'n', 'a']
  result := success
  summary := []
  detail := []

theorem sameUpToSecrets_account {p q : List Char} (hp : p ≠ []) (hq : q ≠ []) :
    SameUpToSecrets plainRuntime (account p) (account q) := by
  refine .dict (.same (.leaf _) (.secret (by decide) ?_ ?_ .nil))
  · simpa [isFilled] using hp
  · simpa [isFilled] using hq

theorem record_account :
    record plainRuntime changed (account ['a', 'l', 'p', 'h', 'a']) (account ['b', 'e', 't', 'a'])
        .stored .failed [] =
      record plainRuntime changed (account ['g', 'a', 'm', 'm', 'a']) (account ['d', 'e', 'l', 't', 'a'])
        .stored .failed [] := by
  refine record_eq plainRuntime changed _ _ _ _ .stored .failed [] (sameUpToSecrets_account (by simp) (by simp))
    (sameUpToSecrets_account (by simp) (by simp)) ?_
  intro key hkey
  simp only [topKeys, account, List.map_cons, List.map_nil, List.mem_append, List.mem_cons, List.not_mem_nil,
    or_false, or_self] at hkey
  rcases hkey with rfl | rfl
  · decide
  · decide

end EasyHaProxy.Panel.ChangeLog
