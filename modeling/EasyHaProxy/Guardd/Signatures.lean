import EasyHaProxy.Lib.Lowered
import EasyHaProxy.Guardd.LineParser
import EasyHaProxy.Guardd.Detection

/-! What may be typed into a signature, the tables `publish_signatures` makes of the shipped list and the
operator's rules, and the entry of these tables a path is classified by. -/
namespace EasyHaProxy.Guardd

open Text Python

/-! ## Typing one in -/

def maxCustomRules : Nat := 200
def maxTokenLength : Nat := 120
def customCategory : String := "custom"

/-- `^[…]{1,limit}$`: `$` also stands before a line end that ends the text. -/
def wholeLine (allowed : Char → Bool) (limit : Nat) (text : List Char) : Bool :=
  let line := if text.getLast? = some '\n' then text.dropLast else text
  1 ≤ line.length && line.length ≤ limit && line.all allowed

def tokenChar (c : Char) : Bool :=
  isAlpha c || asciiDigit c || ['.', '_', '~', '/', '@', ':', '+', '-'].contains c

def categoryChar (c : Char) : Bool := isAlnum c || c == '-'

/-- `validate_token`. -/
def validateToken (token : String) : Except String String :=
  let text := strip token.toList
  let starred := text.getLast? = some '*'
  let base := if starred then text.dropLast else text
  if text = [] then .error "empty signature"
  else if maxTokenLength < text.length then .error "longer than 120 characters"
  else if starred ∧ text.head? = some '/' then
    .error "a prefix (*) works on a path segment, not on a whole path"
  else if starred ∧ base.length < 3 then
    .error "a prefix needs at least three characters before *"
  else if !wholeLine tokenChar maxTokenLength base then
    .error ("a signature may hold letters, digits and . _ ~ / @ : + - only, " ++
      "with an optional * at the end of a segment")
  else if text.head? = some '/' ∧ text.all (· == '/') then
    .error "a signature of / would match everything"
  else .ok (String.ofList text)

/-- `str` of a JSON value that is no string, and which of the numbers with a fraction is zero. -/
structure ValueText where
  str : Json → String
  isZero : String → Bool

def ValueText.strOf (values : ValueText) : Json → String
  | .str s => s
  | v => values.str v

def ValueText.truthy (values : ValueText) : Json → Bool
  | .null => false
  | .bool b => b
  | .int n => n != 0
  | .float text => !values.isZero text
  | .str s => s != ""
  | .arr items => !items.isEmpty
  | .obj fields => !fields.isEmpty

/-- `value or default`. -/
def ValueText.orElse (values : ValueText) (value : Option Json) (default : Json) : Json :=
  match value with
  | some v => if values.truthy v then v else default
  | none => default

section Overrides

variable (values : ValueText)

/-- The category of an added rule. -/
def categoryName (category : Json) : String :=
  let name := strip (values.strOf (values.orElse (some category) (.str customCategory))).toList
  if name = [] then customCategory else String.ofList name

def addRule (added : Dict String String) (row : String × Json) : Except String (Dict String String) :=
  let name := categoryName values row.2
  if wholeLine categoryChar 32 name.toList then (validateToken row.1).map fun token => added.set token name
  else .error (name ++ " is not a usable category name")

/-- `validate_overrides`. -/
def validateOverrides (data : Json) : Except String Overrides :=
  match data with
  | .obj fields =>
    match values.orElse (Json.get? fields "added") (.obj []),
        values.orElse (Json.get? fields "disabled") (.arr []) with
    | .obj rows, .arr items =>
      if maxCustomRules < rows.length ∨ maxCustomRules < items.length then .error "at most 200 rules"
      else do
        let added ← rows.foldlM (addRule values) Dict.empty
        let disabled ← items.mapM fun token => validateToken (values.strOf token)
        .ok { added := added, disabled := Validate.sortedSet disabled }
    | _, _ => .error "expected added to be an object and disabled a list"
  | _ => .error "expected an object"

end Overrides

/-! ## The tables in force -/

def assetSuffixes : List (List Char) :=
  [".css", ".js", ".mjs", ".map", ".json", ".xml", ".txt", ".png", ".jpg", ".jpeg", ".gif", ".svg", ".ico",
    ".webp", ".avif", ".bmp", ".woff", ".woff2", ".ttf", ".eot", ".otf", ".mp4", ".webm", ".mp3", ".wav",
    ".pdf"].map String.toList

def authenticationPaths : List (List Char) :=
  ["/api/firstfactor", "/api/secondfactor/", "/api/user/info", "/api/state", "/api/verify", "/api/logout",
    "/api/reset-password/", "/api/checks/"].map String.toList

/-- A table as the reader of a line looks names up in it. -/
def byChars (table : Dict String String) : Dict (List Char) String :=
  ⟨table.entries.map fun e => (e.1.toList, e.2), by
    have := table.nodup.map (f := String.toList) fun _ _ => String.toList_inj.mp
    simpa [Function.comp_def] using this⟩

/-- A segment token that stands for what begins with it. -/
def isPrefixToken (token : String) : Bool := token.toList.getLast? == some '*' && 1 < token.toList.length

def prefixOf (py : Interpreter) (token : String) : List Char := py.lower token.toList.dropLast

section InForce

variable (py : Interpreter) (patterns : Patterns) (signatures : Signatures)

/-- The tables `classify_path` reads once the signatures are published. -/
def Signatures.inForce : Patterns :=
  { patterns with
    scannerPaths := byChars signatures.scannerPaths
    scannerSegments := byChars signatures.scannerSegments
    scannerPrefixes :=
      (signatures.scannerSegments.entries.filter (isPrefixToken ·.1)).map fun e => (prefixOf py e.1, e.2)
    assetSuffixes := assetSuffixes
    authenticationPaths := authenticationPaths }

/-! ## The entry that decides -/

/-- An entry of a table under a name; one without a category decides nothing. -/
def named (table : Dict String String) (name : List Char) : Option (String × String) :=
  (table.get? (String.ofList name)).bind fun category =>
    if category = "" then none else some (String.ofList name, category)

/-- The first prefix a segment begins with. -/
def prefixRule (segment : List Char) : Option (String × String) :=
  ((signatures.scannerSegments.entries.filter (isPrefixToken ·.1)).find?
    fun e => (prefixOf py e.1).isPrefixOf (py.lower segment)).bind
      fun e => if e.2 = "" then none else some e

/-- The entry a segment is taken for. -/
def segmentRule (segment : List Char) : Option (String × String) :=
  (named signatures.scannerSegments segment).or
    ((named signatures.scannerSegments (py.lower segment)).or (prefixRule py signatures segment))

/-- A path that is a page's own files or the sign-in: nothing probable is made of it. -/
def spared (path : List Char) : Bool :=
  isAsset py (signatures.inForce py patterns) path ||
    isAuthenticationEndpoint py (signatures.inForce py patterns) path

/-- The entry of the segments of a path that decides. -/
def segmentsRule (path : List Char) : Option (String × String) → List (List Char) → Option (String × String)
  | probable, [] => if spared py patterns signatures path then none else probable
  | probable, segment :: rest =>
    match if segment = [] then none else segmentRule py signatures segment with
    | none => segmentsRule path probable rest
    | some rule =>
      if patterns.decisiveCategories.contains rule.2 then some rule
      else segmentsRule path (probable.or (some rule)) rest

inductive Entry
  | path (token : String)
  | segment (token : String)
  deriving DecidableEq

/-- The entry `publish_signatures` stores an added token under. -/
def entryOf (token : String) : Entry := if token.toList.head? = some '/' then .path token else .segment token

/-- The entry that decides what a path is classified as, and its category. -/
def pathRule (path : List Char) : Option (Entry × String) :=
  if path = [] ∨ path = ['/'] then none
  else
    match named signatures.scannerPaths path with
    | some rule => some (.path rule.1, rule.2)
    | none =>
      (segmentsRule py patterns signatures path none (splitAtMost '/' (maxMatchedSegments + 1) path).tail).map
        fun rule => (.segment rule.1, rule.2)

end InForce

section Decides

variable {py : Interpreter} {patterns : Patterns} {signatures : Signatures} {table : Dict String String}
  {name segment path : List Char} {rule : String × String}

theorem get?_byChars : (byChars table).get? name = table.get? (String.ofList name) := by
  apply Option.ext
  intro category
  rw [← Dict.mem_entries, ← Dict.mem_entries]
  constructor
  · intro h
    obtain ⟨e, he, heq⟩ := List.mem_map.mp h
    obtain ⟨rfl, rfl⟩ := Prod.mk.inj heq
    rwa [String.ofList_toList]
  · intro h
    exact List.mem_map.mpr ⟨_, h, by rw [String.toList_ofList]⟩

theorem named_eq_some : named table name = some rule ↔
    table.get? (String.ofList name) = some rule.2 ∧ rule.2 ≠ "" ∧ rule.1 = String.ofList name := by
  obtain ⟨token, category⟩ := rule
  simp only [named, Option.bind_eq_some_iff, Option.ite_none_left_eq_some, Option.some.injEq, Prod.mk.injEq]
  constructor
  · rintro ⟨_, hget, hne, rfl, rfl⟩
    exact ⟨hget, hne, rfl⟩
  · rintro ⟨hget, hne, rfl⟩
    exact ⟨category, hget, hne, rfl, rfl⟩

/-- What a rule says, nothing where there is none. -/
def verdict (rule : Option (String × String)) : String := (rule.map Prod.snd).getD ""

@[simp] theorem verdict_none : verdict none = "" := rfl

@[simp] theorem verdict_some : verdict (some rule) = rule.2 := rfl

theorem verdict_named : verdict (named table name) = ((byChars table).get? name).getD "" := by
  rw [get?_byChars]
  unfold named verdict
  cases hget : table.get? (String.ofList name) with
  | none => rfl
  | some category => by_cases hc : category = "" <;> simp [hc]

theorem getD_scannerSegments :
    ((signatures.inForce py patterns).scannerSegments.get? name).getD "" =
      verdict (named signatures.scannerSegments name) :=
  verdict_named.symm

theorem getD_scannerPaths :
    ((signatures.inForce py patterns).scannerPaths.get? name).getD "" =
      verdict (named signatures.scannerPaths name) :=
  verdict_named.symm

theorem verdict_prefixRule (patterns : Patterns) :
    verdict (prefixRule py signatures segment) = prefixCategory py (signatures.inForce py patterns) segment := by
  unfold prefixRule prefixCategory Signatures.inForce verdict
  dsimp only
  have hcomp : (fun row : List Char × String => row.1.isPrefixOf (py.lower segment)) ∘
      (fun e : String × String => (prefixOf py e.1, e.2)) =
        fun e => (prefixOf py e.1).isPrefixOf (py.lower segment) := rfl
  rw [List.find?_map, hcomp]
  cases (signatures.scannerSegments.entries.filter (isPrefixToken ·.1)).find?
      (fun e => (prefixOf py e.1).isPrefixOf (py.lower segment)) with
  | none => rfl
  | some e => by_cases he : e.2 = "" <;> simp [he]

theorem mem_of_named (h : named table name = some rule) : rule ∈ table.entries := by
  obtain ⟨hget, -, hname⟩ := named_eq_some.mp h
  rw [← hname] at hget
  exact Dict.mem_entries.mpr hget

/-- The rule of a segment has a category, and a token that names the segment or begins it. -/
theorem segmentRule_eq_some (h : segmentRule py signatures segment = some rule) :
    rule.2 ≠ "" ∧ rule ∈ signatures.scannerSegments.entries ∧
      (rule.1.toList = segment ∨ rule.1.toList = py.lower segment ∨
        isPrefixToken rule.1 = true ∧ prefixOf py rule.1 <+: py.lower segment) := by
  unfold segmentRule at h
  rw [Option.or_eq_some_iff, Option.or_eq_some_iff] at h
  obtain hplain | ⟨-, hlower | ⟨-, hleading⟩⟩ := h
  · obtain ⟨-, hne, hname⟩ := named_eq_some.mp hplain
    exact ⟨hne, mem_of_named hplain, Or.inl (by rw [hname, String.toList_ofList])⟩
  · obtain ⟨-, hne, hname⟩ := named_eq_some.mp hlower
    exact ⟨hne, mem_of_named hlower, Or.inr (Or.inl (by rw [hname, String.toList_ofList]))⟩
  · unfold prefixRule at hleading
    obtain ⟨e, hfind, he⟩ := Option.bind_eq_some_iff.mp hleading
    obtain ⟨hne, rfl⟩ : ¬ e.2 = "" ∧ e = rule := by simpa using he
    obtain ⟨hmem, hstar⟩ := List.mem_filter.mp (List.mem_of_find?_eq_some hfind)
    have hpre : (prefixOf py e.1).isPrefixOf (py.lower segment) = true := by
      simpa using List.find?_some hfind
    exact ⟨hne, hmem, Or.inr (Or.inr ⟨hstar, List.isPrefixOf_iff_prefix.mp hpre⟩)⟩

theorem verdict_segmentRule (patterns : Patterns) :
    verdict (segmentRule py signatures segment) =
      segmentCategory py (signatures.inForce py patterns) segment := by
  unfold segmentCategory segmentRule
  simp only [← verdict_prefixRule patterns, getD_scannerSegments]
  cases hplain : named signatures.scannerSegments segment with
  | some rule => simp [(named_eq_some.mp hplain).2.1]
  | none =>
    cases hlower : named signatures.scannerSegments (py.lower segment) with
    | some rule => simp [(named_eq_some.mp hlower).2.1]
    | none => simp

theorem verdict_segmentsRule (patterns : Patterns) {probable : Option (String × String)}
    (hp : ∀ rule, probable = some rule → rule.2 ≠ "") (segments : List (List Char)) :
    verdict (segmentsRule py patterns signatures path probable segments) =
      classifySegments py (signatures.inForce py patterns) path (verdict probable) segments := by
  induction segments generalizing probable with
  | nil =>
    unfold segmentsRule classifySegments spared
    split <;> rfl
  | cons segment rest ih =>
    have hcategory : verdict (if segment = [] then none else segmentRule py signatures segment) =
        if segment = [] then "" else segmentCategory py (signatures.inForce py patterns) segment := by
      rw [← verdict_segmentRule patterns]
      split <;> rfl
    unfold segmentsRule classifySegments
    dsimp only
    rw [← hcategory]
    cases hrule : (if segment = [] then none else segmentRule py signatures segment) with
    | none => exact ih hp
    | some rule =>
      have hne : rule.2 ≠ "" := by
        split at hrule
        · cases hrule
        · exact (segmentRule_eq_some hrule).1
      rw [verdict_some, if_neg hne]
      change verdict (if patterns.decisiveCategories.contains rule.2 then some rule else _) =
        if patterns.decisiveCategories.contains rule.2 then rule.2 else _
      by_cases hdecisive : patterns.decisiveCategories.contains rule.2 = true
      · rw [if_pos hdecisive, if_pos hdecisive, verdict_some]
      · rw [if_neg hdecisive, if_neg hdecisive]
        cases probable with
        | none => exact ih fun r hr => by rwa [← Option.some.inj hr]
        | some earlier =>
          rw [Option.some_or, ih hp, verdict_some, if_neg (hp earlier rfl)]

/-- The category a path gets is the one of the entry that decides. -/
theorem classifyPath_eq :
    classifyPath py (signatures.inForce py patterns) path =
      ((pathRule py patterns signatures path).map Prod.snd).getD "" := by
  unfold classifyPath pathRule
  by_cases hroot : path = [] ∨ path = ['/']
  · rw [if_pos hroot, if_pos hroot]
    rfl
  · rw [if_neg hroot, if_neg hroot]
    simp only [getD_scannerPaths]
    cases hname : named signatures.scannerPaths path with
    | some rule => simp [(named_eq_some.mp hname).2.1]
    | none =>
      rw [verdict_none, if_neg (by simp), ← verdict_none,
        ← verdict_segmentsRule patterns (by simp)]
      simp [verdict, Function.comp_def]

end Decides

/-! ## What an operator can store -/

section Stored

variable {values : ValueText} {raw token category : String} {base : List Char}

theorem of_wholeLine {allowed : Char → Bool} {limit : Nat} {text : List Char}
    (h : wholeLine allowed limit text = true) : text ≠ [] ∧ ∀ c ∈ text, allowed c = true ∨ c = '\n' := by
  simp only [wholeLine, Bool.and_eq_true, decide_eq_true_eq, List.all_eq_true] at h
  obtain ⟨⟨hlen, -⟩, hall⟩ := h
  split at hlen
  · rename_i hlast
    obtain ⟨init, rfl⟩ := List.getLast?_eq_some_iff.mp hlast
    rw [if_pos hlast, List.dropLast_concat] at hall
    refine ⟨by simp, fun c hc => ?_⟩
    rcases List.mem_append.mp hc with hc | hc
    · exact Or.inl (hall c hc)
    · exact Or.inr (List.mem_singleton.mp hc)
  · rename_i hlast
    rw [if_neg hlast] at hall
    exact ⟨by rintro rfl; simp at hlen, fun c hc => Or.inl (hall c hc)⟩

/-- The characters of a token that was let through. -/
structure IsToken (token : List Char) : Prop where
  ne_nil : token ≠ []
  length_le : token.length ≤ maxTokenLength
  chars : ∀ c ∈ token, tokenChar c = true ∨ c = '*' ∨ c = '\n'
  /-- A token of a whole path has neither a star nor a line end, and is not the root. -/
  path : token.head? = some '/' → (∀ c ∈ token, tokenChar c = true) ∧ ∃ c ∈ token, c ≠ '/'

/-- A stripped text does not end with a line end. -/
theorem getLast?_strip (text : List Char) : (strip text).getLast? ≠ some '\n' := by
  intro hlast
  have hne : strip text ≠ [] := by
    intro hnil
    rw [hnil] at hlast
    cases hlast
  have hspace := List.rdropWhile_last_not isSpace (text.dropWhile isSpace) hne
  rw [List.getLast?_eq_some_getLast hne, Option.some.injEq] at hlast
  have hlast' : ((text.dropWhile isSpace).rdropWhile isSpace).getLast hne = '\n' := hlast
  rw [hlast'] at hspace
  exact hspace (by decide)

theorem isToken_of_validateToken (h : validateToken raw = .ok token) : IsToken token.toList := by
  have hend := getLast?_strip raw.toList
  unfold validateToken at h
  dsimp only at h
  generalize strip raw.toList = text at h hend
  generalize hbase : (if text.getLast? = some '*' then text.dropLast else text) = base at h
  split at h
  · cases h
  rename_i hne
  split at h
  · cases h
  rename_i hlen
  split at h
  · cases h
  rename_i hstarred
  split at h
  · cases h
  split at h
  · cases h
  rename_i hok
  split at h
  · cases h
  rename_i hroot
  obtain rfl := Except.ok.inj h
  rw [String.toList_ofList]
  rw [Bool.not_eq_true, Bool.not_eq_false'] at hok
  have hchars := (of_wholeLine hok).2
  refine ⟨hne, Nat.le_of_not_lt hlen, ?_, fun hhead => ⟨?_, ?_⟩⟩
  · intro c hc
    by_cases hstar : text.getLast? = some '*'
    · rw [if_pos hstar] at hbase
      subst hbase
      obtain ⟨init, rfl⟩ := List.getLast?_eq_some_iff.mp hstar
      rw [List.dropLast_concat] at hchars
      rcases List.mem_append.mp hc with hc | hc
      · exact (hchars c hc).imp_right Or.inr
      · exact Or.inr (Or.inl (List.mem_singleton.mp hc))
    · rw [if_neg hstar] at hbase
      subst hbase
      exact (hchars c hc).imp_right Or.inr
  · have hstar : ¬ text.getLast? = some '*' := fun hstar => hstarred ⟨hstar, hhead⟩
    rw [if_neg hstar] at hbase
    subst hbase
    simp only [wholeLine, if_neg hend, Bool.and_eq_true, List.all_eq_true] at hok
    exact hok.2
  · by_contra hall
    refine hroot ⟨hhead, List.all_eq_true.mpr fun c hc => ?_⟩
    by_contra hslash
    exact hall ⟨c, hc, by simpa using hslash⟩

/-- What is stored of an added rule. -/
structure IsStored (row : String × String) : Prop where
  token : IsToken row.1.toList
  category : row.2 ≠ ""

theorem isStored_of_addRule {added added' : Dict String String} {row : String × Json}
    (h : addRule values added row = .ok added') (ha : ∀ e ∈ added.entries, IsStored e) :
    ∀ e ∈ added'.entries, IsStored e := by
  unfold addRule at h
  dsimp only at h
  split at h
  · rename_i hname
    cases htoken : validateToken row.1 with
    | error e =>
      rw [htoken] at h
      cases h
    | ok token =>
      rw [htoken] at h
      obtain rfl := Except.ok.inj h
      rintro ⟨t, category⟩ he
      rcases Dict.mem_entries_set.mp he with ⟨rfl, rfl⟩ | ⟨-, he⟩
      · refine ⟨isToken_of_validateToken htoken, fun hempty => (of_wholeLine hname).1 ?_⟩
        change categoryName values row.2 = "" at hempty
        rw [hempty]
        rfl
      · exact ha _ he
  · cases h

theorem isStored_of_foldlM {added added' : Dict String String} {rows : List (String × Json)}
    (h : rows.foldlM (addRule values) added = .ok added') (ha : ∀ e ∈ added.entries, IsStored e) :
    ∀ e ∈ added'.entries, IsStored e := by
  induction rows generalizing added with
  | nil =>
    obtain rfl := Except.ok.inj h
    exact ha
  | cons row rows ih =>
    rw [List.foldlM_cons] at h
    obtain ⟨next, hnext, h⟩ := Validate.bind_eq_ok.mp h
    exact ih h (isStored_of_addRule hnext ha)

theorem isStored_of_validateOverrides {data : Json} {overrides : Overrides}
    (h : validateOverrides values data = .ok overrides) : ∀ e ∈ overrides.added.entries, IsStored e := by
  unfold validateOverrides at h
  split at h
  · split at h
    · split at h
      · cases h
      · obtain ⟨added, hadded, h⟩ := Validate.bind_eq_ok.mp h
        obtain ⟨disabled, -, h⟩ := Validate.bind_eq_ok.mp h
        obtain rfl := Except.ok.inj h
        exact isStored_of_foldlM hadded nofun
    · cases h
  · cases h

end Stored

/-! ## What is published -/

section Published

variable {shipped : Shipped} {overrides : Overrides} {tables : Dict String String × Dict String String}
  {rows : List (String × String)} {token category : String} {row : String × String}

/-- An added rule in the table its token belongs to: of segments, or of paths. -/
def storeRule (tables : Dict String String × Dict String String) (row : String × String) :
    Dict String String × Dict String String :=
  if row.1.toList.head? = some '/' then (tables.1, tables.2.set row.1 row.2)
  else (tables.1.set row.1 row.2, tables.2)

theorem publishSignatures_eq :
    ((publishSignatures shipped overrides).scannerSegments, (publishSignatures shipped overrides).scannerPaths) =
      overrides.added.entries.foldl storeRule
        (overrides.disabled.foldl Dict.erase shipped.segments, overrides.disabled.foldl Dict.erase shipped.paths) :=
  rfl

theorem mem_entries_foldl_erase {disabled : List String} {table : Dict String String}
    (h : row ∈ (disabled.foldl Dict.erase table).entries) : row ∈ table.entries := by
  induction disabled generalizing table with
  | nil => exact h
  | cons token disabled ih => exact (List.mem_filter.mp (ih h)).1

theorem mem_entries_set_of {table : Dict String String} {new : String × String}
    (h : row ∈ (table.set new.1 new.2).entries) : row = new ∨ row ∈ table.entries := by
  rcases Dict.mem_entries_set.mp h with ⟨hk, hv⟩ | ⟨-, hold⟩
  · exact Or.inl (Prod.ext hk hv)
  · exact Or.inr hold

theorem mem_entries_foldl_storeRule
    (h : row ∈ (rows.foldl storeRule tables).1.entries ∨ row ∈ (rows.foldl storeRule tables).2.entries) :
    row ∈ tables.1.entries ∨ row ∈ tables.2.entries ∨ row ∈ rows := by
  induction rows generalizing tables with
  | nil => exact h.imp_right Or.inl
  | cons new rows ih =>
    have hstep : ∀ t : Dict String String × Dict String String, storeRule tables new = t →
        row ∈ t.1.entries ∨ row ∈ t.2.entries → row ∈ tables.1.entries ∨ row ∈ tables.2.entries ∨ row = new := by
      rintro t rfl ht
      unfold storeRule at ht
      split at ht
      · rcases ht with ht | ht
        · exact Or.inl ht
        · exact (mem_entries_set_of ht).elim (fun he => Or.inr (Or.inr he)) fun he => Or.inr (Or.inl he)
      · rcases ht with ht | ht
        · exact (mem_entries_set_of ht).elim (fun he => Or.inr (Or.inr he)) Or.inl
        · exact Or.inr (Or.inl ht)
    have hnew : row = new → row ∈ new :: rows := by
      rintro rfl
      exact List.mem_cons_self
    obtain hfirst | hpaths | hrows := ih h
    · exact (hstep _ rfl (Or.inl hfirst)).imp_right fun h => h.imp_right hnew
    · exact (hstep _ rfl (Or.inr hpaths)).imp_right fun h => h.imp_right hnew
    · exact Or.inr (Or.inr (List.mem_cons_of_mem _ hrows))

def stored (tables : Dict String String × Dict String String) (token : String) : Option String :=
  if token.toList.head? = some '/' then tables.2.get? token else tables.1.get? token

theorem stored_storeRule : stored (storeRule tables row) token =
    if token = row.1 then some row.2 else stored tables token := by
  by_cases htoken : token = row.1
  · subst htoken
    unfold stored storeRule
    by_cases hhead : row.1.toList.head? = some '/' <;> simp [hhead]
  · unfold stored storeRule
    by_cases hhead : row.1.toList.head? = some '/' <;> simp [hhead, htoken]

theorem stored_foldl_storeRule (hn : (rows.map Prod.fst).Nodup) (h : (token, category) ∈ rows) :
    stored (rows.foldl storeRule tables) token = some category := by
  induction rows using List.reverseRecOn with
  | nil => cases h
  | append_singleton rows row ih =>
    rw [List.foldl_concat, stored_storeRule]
    rw [List.map_append, List.nodup_append] at hn
    rcases List.mem_append.mp h with h | h
    · rw [if_neg, ih hn.1 h]
      exact hn.2.2 _ (List.mem_map_of_mem h) _ (by simp)
    · obtain rfl := List.mem_singleton.mp h
      exact if_pos rfl

/-- An added rule is in force, whatever is disabled and whatever the shipped list says. -/
theorem stored_published (h : overrides.added.get? token = some category) :
    stored ((publishSignatures shipped overrides).scannerSegments,
      (publishSignatures shipped overrides).scannerPaths) token = some category := by
  rw [publishSignatures_eq]
  exact stored_foldl_storeRule overrides.added.nodup (Dict.mem_entries.mpr h)

theorem mem_published
    (h : row ∈ (publishSignatures shipped overrides).scannerSegments.entries ∨
      row ∈ (publishSignatures shipped overrides).scannerPaths.entries) :
    row ∈ shipped.segments.entries ∨ row ∈ shipped.paths.entries ∨ row ∈ overrides.added.entries := by
  have hrow : row ∈ (overrides.disabled.foldl Dict.erase shipped.segments).entries ∨
      row ∈ (overrides.disabled.foldl Dict.erase shipped.paths).entries ∨ row ∈ overrides.added.entries :=
    mem_entries_foldl_storeRule h
  exact hrow.imp mem_entries_foldl_erase fun h => h.imp_left mem_entries_foldl_erase

end Published

end EasyHaProxy.Guardd
