import Mathlib.Tactic.IntervalCases
import EasyHaProxy.Guardd.LineParser

/-! `classify_raw_path` and `observation_flags` guard the one call they make to `urlparse` themselves;
`normalize_path` and `extract_host` do not, and `observation_flags` calls the former twice more. -/
namespace EasyHaProxy.Guardd

open Text Python Regex

section Lines

variable (py : Interpreter) (patterns : Patterns)

/-- A target with an authority that `urlparse` refuses. -/
def HostileUrl (text : List Char) : Prop := absolute text = true ∧ py.netlocOk (netlocOf text) = false

/-- A target that one of its readers raises on: as it is, or for an escaped percent sign once more
as far as it is looked at, as sent and decoded. -/
def HostileTarget (uri : List Char) : Prop :=
  HostileUrl py uri ∨
    contains percent25 (py.lower (rawPath uri)) = true ∧
      (HostileUrl py (rawPath uri) ∨ HostileUrl py (strip (unquote (rawPath uri))))

/-- An access record with more octets than `int` reads, or with a hostile target. -/
def HostileLine (line : List Char) : Prop :=
  ∃ head, matchStart (accessHead py) (withoutPrefix py line) = some head ∧
    (maxStrDigits < (head.group "bytes").length ∨
      ∃ before tail, search accessTail head.rest = some (before, tail) ∧ HostileTarget py (tail.group "uri"))

end Lines

/-! ## The readers of a target -/

variable {py : Interpreter} {patterns : Patterns} {value uri : List Char}

theorem hostileUrl_iff : HostileUrl py value ↔ absolute value = true ∧ Raises (py.urlparse value) := by
  rw [raises_urlparse]
  rfl

theorem raises_normalizeTarget : Raises (normalizeTarget py value) ↔ HostileUrl py (strip value) := by
  rw [hostileUrl_iff]
  unfold normalizeTarget
  split
  · rename_i hnil
    simp [hnil, strip, trim, absolute, httpScheme, httpsScheme]
  · rw [raises_map, targetPath]
    split
    · rename_i habs
      simp [habs]
    · rename_i hrel
      simp [hrel]

theorem raises_extractHost : Raises (extractHost py value) ↔ HostileUrl py value := by
  rw [hostileUrl_iff]
  unfold extractHost
  split
  · rename_i habs
    simp [habs]
  · rename_i hrel
    simp [hrel]

theorem raises_observationFlags : Raises (observationFlags py patterns uri) ↔
    contains percent25 (py.lower (rawPath uri)) = true ∧
      (HostileUrl py (strip (rawPath uri)) ∨ HostileUrl py (strip (unquote (rawPath uri)))) := by
  unfold observationFlags
  dsimp only
  split
  · rename_i hescaped
    rw [raises_bind_const (y := normalizeTarget py (unquote (rawPath uri))), raises_normalizeTarget,
      raises_normalizeTarget]
    · simp [hescaped]
    · intro first
      rw [raises_bind]
      simp
  · rename_i hplain
    simp [hplain]

theorem raises_hostOfLine {remainder : List Char} (h : Raises (hostOfLine py remainder uri)) :
    HostileUrl py uri := by
  unfold hostOfLine at h
  rcases raises_bind.mp h with h | ⟨host, -, h⟩
  · unfold hostFieldOf at h
    split at h
    · exact absurd h (raises_ok _)
    · exact raises_extractHost.mp h
  · split at h
    · exact raises_extractHost.mp h
    · exact absurd h (raises_ok _)

theorem raises_requestRecord {head tail : Match} {h : HeadFields} {before : List Char}
    (hword : ∀ c ∈ tail.group "uri", isSpace c = false) :
    Raises (requestRecord py patterns head h before tail) ↔ HostileTarget py (tail.group "uri") := by
  have huri : strip (tail.group "uri") = tail.group "uri" := strip_of_all hword
  have hraw : strip (rawPath (tail.group "uri")) = rawPath (tail.group "uri") := by
    apply strip_of_all
    intro c hc
    apply hword
    exact List.mem_of_mem_take ((List.takeWhile_subset _) ((List.takeWhile_subset _) hc))
  have hflags : Raises (observationFlags py patterns (tail.group "uri")) ↔
      contains percent25 (py.lower (rawPath (tail.group "uri"))) = true ∧
        (HostileUrl py (rawPath (tail.group "uri")) ∨
          HostileUrl py (strip (unquote (rawPath (tail.group "uri"))))) := by
    rw [raises_observationFlags, hraw]
  have hpath : Raises (normalizeTarget py (tail.group "uri")) ↔ HostileUrl py (tail.group "uri") := by
    rw [raises_normalizeTarget, huri]
  unfold requestRecord
  dsimp only
  constructor
  · intro hr
    rcases raises_bind.mp hr with hr | ⟨path, -, hr⟩
    · exact Or.inl (hpath.mp hr)
    rcases raises_bind.mp hr with hr | ⟨host, -, hr⟩
    · exact Or.inl (raises_hostOfLine hr)
    rcases raises_bind.mp hr with hr | ⟨flags, -, hr⟩
    · exact Or.inr (hflags.mp hr)
    · exact absurd hr (raises_ok _)
  · rintro (hurl | hescaped)
    · exact raises_bind.mpr (Or.inl (hpath.mpr hurl))
    · -- The flags come last: whatever the calls before them return, or one of those raises first.
      rcases raises_or_ok (normalizeTarget py (tail.group "uri")) with hr | ⟨path, hpath⟩
      · exact raises_bind.mpr (Or.inl hr)
      refine raises_bind.mpr (Or.inr ⟨path, hpath, ?_⟩)
      rcases raises_or_ok (hostOfLine py head.rest (tail.group "uri")) with hr | ⟨host, hhost⟩
      · exact raises_bind.mpr (Or.inl hr)
      refine raises_bind.mpr (Or.inr ⟨host, hhost, ?_⟩)
      exact raises_bind.mpr (Or.inl (hflags.mpr hescaped))

/-! ## The parts of a line -/

section Parts

variable {line : List Char} {head tail : Match} {total : Nat} {m : Match}

/-- A number of the head, as HAProxy writes one. -/
def IsNumber (py : Interpreter) (text : List Char) : Prop :=
  text = ['-'] ∨ text ≠ [] ∧ ∀ c ∈ text, (py.digit c).isSome = true

theorem head_bytes (h : Matches total (accessHead py) m head) : IsNumber py (head.group "bytes") := by
  refine h.group_of_sets (sets_all 17 rfl ⟨rfl, ?_⟩ rfl)
  rintro text (hdash | hdigits)
  · exact Or.inl (reads_lit hdash)
  · exact Or.inr (reads_plus_chars.mp hdigits)

theorem head_status (h : Matches total (accessHead py) m head) :
    IsNumber py (head.group "status") ∧ (head.group "status").length ≤ 3 := by
  refine h.group_of_sets (P := fun text => IsNumber py text ∧ text.length ≤ 3)
    (sets_all 15 rfl ⟨rfl, ?_⟩ rfl)
  rintro text (hdash | hdigits)
  · obtain rfl := reads_lit hdash
    exact ⟨Or.inl rfl, by decide⟩
  · obtain ⟨hlen, hall⟩ := reads_exactly_chars.mp hdigits
    refine ⟨Or.inr ⟨?_, hall⟩, by omega⟩
    rintro rfl
    cases hlen

theorem tail_uri (h : Matches total accessTail m tail) : ∀ c ∈ tail.group "uri", isSpace c = false := by
  refine h.group_of_sets (P := fun text => ∀ c ∈ text, isSpace c = false) (sets_all 2 rfl ⟨rfl, ?_⟩ rfl)
  intro text hword c hc
  simpa using (reads_plus_chars.mp hword).2 c hc

theorem raises_headNumber {text : List Char} (h : IsNumber py text) :
    Raises (headNumber py text) ↔ maxStrDigits < text.length := by
  unfold headNumber
  rcases h with rfl | ⟨hne, hall⟩
  · simp [maxStrDigits]
  · rw [if_neg ?_, raises_int hall hne]
    rintro rfl
    exact (py.digit_plain '-' (hall _ List.mem_cons_self)).2.2.1 rfl

theorem withoutPrefix_suffix : withoutPrefix py line <:+ strip line := by
  unfold withoutPrefix
  dsimp only
  split
  · rename_i m hm
    obtain ⟨text, htext, -⟩ := (matchStart_sound hm).reads
    exact ⟨text, htext.symm⟩
  · exact List.suffix_refl _

theorem not_raises_termOf {rest : List Char} (h : rest <:+ strip line) : ¬ Raises (termOf rest) := by
  unfold termOf
  split
  · exact raises_ok _
  · rename_i hne
    unfold firstWord
    split
    · rename_i hblank
      obtain ⟨before, hbefore⟩ := h
      have hlast : strip line ≠ [] := by
        rw [← hbefore]
        simp [hne]
      have hword : ¬ isSpace ((strip line).getLast hlast) = true := List.rdropWhile_last_not _ _ hlast
      have hspace : ∀ c ∈ rest, isSpace c = true := by
        simpa [List.dropWhile_eq_nil_iff] using hblank
      refine absurd (hspace ((strip line).getLast hlast) ?_) hword
      simp only [← hbefore]
      rw [List.getLast_append_of_ne_nil _ hne]
      exact List.getLast_mem hne
    · exact raises_ok _

theorem raises_headFields (h : matchStart (accessHead py) (withoutPrefix py line) = some head) :
    Raises (headFields py head) ↔ maxStrDigits < (head.group "bytes").length := by
  have hm := matchStart_sound h
  obtain ⟨hstatus, hlen⟩ := head_status hm
  have hterm : ¬ Raises (termOf head.rest) := by
    obtain ⟨text, htext, -⟩ := hm.reads
    exact not_raises_termOf ((List.IsSuffix.trans ⟨text, htext.symm⟩) withoutPrefix_suffix)
  have hnumber : ¬ Raises (headNumber py (head.group "status")) := by
    rw [raises_headNumber hstatus]
    unfold maxStrDigits
    omega
  unfold headFields
  dsimp only
  constructor
  · intro hr
    rcases raises_bind.mp hr with hr | ⟨status, -, hr⟩
    · exact absurd hr hnumber
    rcases raises_bind.mp hr with hr | ⟨bytesOut, -, hr⟩
    · exact (raises_headNumber (head_bytes hm)).mp hr
    rcases raises_bind.mp hr with hr | ⟨term, -, hr⟩
    · exact absurd hr hterm
    · exact absurd hr (raises_ok _)
  · intro hlong
    obtain ⟨status, hok⟩ := not_raises_iff.mp hnumber
    refine raises_bind.mpr (Or.inr ⟨status, hok, ?_⟩)
    exact raises_bind.mpr (Or.inl ((raises_headNumber (head_bytes hm)).mpr hlong))

/-- Which lines `parse_access_line` raises on. -/
theorem raises_parseAccessLine : Raises (parseAccessLine py patterns line) ↔ HostileLine py line := by
  unfold parseAccessLine HostileLine
  split
  · -- The empty line has no head.
    rename_i hnil
    subst hnil
    refine iff_of_false (raises_ok _) ?_
    rintro ⟨head, hhead, -⟩
    have hsuffix : withoutPrefix py [] <:+ [] := withoutPrefix_suffix
    rw [List.suffix_nil.mp hsuffix] at hhead
    exact Option.some_ne_none head hhead.symm
  cases hhead : matchStart (accessHead py) (withoutPrefix py line) with
  | none => simp
  | some head =>
    simp only [Option.some.injEq, exists_eq_left']
    constructor
    · intro hr
      rcases raises_bind.mp hr with hr | ⟨h, -, hr⟩
      · exact Or.inl ((raises_headFields hhead).mp hr)
      · split at hr
        · exact absurd hr (raises_ok _)
        · rename_i before tail htail
          obtain ⟨here, hm, -⟩ := search_sound htail
          rw [raises_map, raises_requestRecord (tail_uri hm)] at hr
          exact Or.inr ⟨before, tail, htail, hr⟩
    · intro hhostile
      rcases raises_or_ok (headFields py head) with hr | ⟨h, hok⟩
      · exact raises_bind.mpr (Or.inl hr)
      rcases hhostile with hlong | ⟨before, tail, htail, htarget⟩
      · exact raises_bind.mpr (Or.inl ((raises_headFields hhead).mpr hlong))
      · obtain ⟨here, hm, -⟩ := search_sound htail
        refine raises_bind.mpr (Or.inr ⟨h, hok, ?_⟩)
        simp only [htail]
        rw [raises_map, raises_requestRecord (tail_uri hm)]
        exact htarget

end Parts

/-! ## A batch of lines -/

section Batch

variable {τ : Type}

/-- What a batch has left behind. -/
structure Handed (τ : Type) where
  digests : List (AccessRecord × τ) := []
  live : List (AccessRecord × τ) := []
  requests : List (AccessRecord × Option τ) := []
  observed : List (AccessRecord × Option τ) := []
  linesRead : Nat := 0
  linesParsed : Nat := 0
  flushed : Bool := false

/-- The loop of `ingest_log` with its own variables. -/
structure Loop (τ : Type) where
  parsed : Nat := 0
  live : List (AccessRecord × τ) := []
  handed : Handed τ := {}

/-- What the engine has: the live buffer, the request log, the reader of a line's own time and the
time of the cycle. -/
structure Ingest (τ : Type) where
  hasLive : Bool
  hasRequests : Bool
  lineEpoch : List Char → Option τ
  now : τ

variable (py : Interpreter) (patterns : Patterns) (engine : Ingest τ)

/-- One request to everyone who wants it. -/
def Ingest.handOn (request : AccessRecord) (ts : Option τ) (s : Loop τ) : Loop τ where
  parsed := s.parsed + 1
  live := if engine.hasLive then s.live ++ [(request, ts.getD engine.now)] else s.live
  handed :=
    { s.handed with
      digests := s.handed.digests ++ [(request, ts.getD engine.now)]
      requests := if engine.hasRequests then s.handed.requests ++ [(request, ts)] else s.handed.requests
      observed := s.handed.observed ++ [(request, ts)] }

def Ingest.lines (s : Loop τ) : List (List Char) → Option Raised × Loop τ
  | [] => (none, s)
  | line :: rest =>
    match parseAccessLine py patterns line with
    | .error e => (some e, s)
    | .ok none => Ingest.lines s rest
    | .ok (some request) => Ingest.lines (engine.handOn request (engine.lineEpoch line) s) rest

/-- `ingest_log` of the lines the cursor has read, with the exception that ends it. -/
def Ingest.log (lines : List (List Char)) : Option Raised × Handed τ :=
  if lines = [] then (none, {})
  else
    match engine.lines py patterns {} lines with
    | (some e, s) => (some e, { s.handed with linesRead := lines.length })
    | (none, s) =>
      (none,
        { s.handed with
          linesRead := lines.length
          linesParsed := s.parsed
          live := s.live
          flushed := engine.hasRequests })

/-- The requests of a batch with the time of their lines. -/
def Ingest.requestsOf (lines : List (List Char)) : List (AccessRecord × Option τ) :=
  lines.filterMap fun line =>
    match parseAccessLine py patterns line with
    | .ok (some request) => some (request, engine.lineEpoch line)
    | _ => none

/-- Every request of the batch has been handed to the engine, the live buffer and the log. -/
def Ingest.HandsAllOn (lines : List (List Char)) : Prop :=
  let out := (engine.log py patterns lines).2
  let requests := engine.requestsOf py patterns lines
  out.observed = requests ∧
    (engine.hasLive = true → out.live = requests.map fun r => (r.1, r.2.getD engine.now)) ∧
    (engine.hasRequests = true → out.requests = requests)

variable {py patterns}

/-- A batch without a hostile line is handed on to its end. -/
theorem lines_of_clean {lines : List (List Char)}
    (h : ∀ line ∈ lines, ¬ Raises (parseAccessLine py patterns line)) (s : Loop τ) :
    ∃ s', engine.lines py patterns s lines = (none, s') ∧
      s'.handed.observed = s.handed.observed ++ engine.requestsOf py patterns lines ∧
      (engine.hasLive = true → s'.live =
        s.live ++ (engine.requestsOf py patterns lines).map fun r => (r.1, r.2.getD engine.now)) ∧
      (engine.hasRequests = true →
        s'.handed.requests = s.handed.requests ++ engine.requestsOf py patterns lines) := by
  induction lines generalizing s with
  | nil => exact ⟨s, rfl, by simp [Ingest.requestsOf]⟩
  | cons line rest ih =>
    obtain ⟨result, hresult⟩ := not_raises_iff.mp (h line List.mem_cons_self)
    have hrest : ∀ line ∈ rest, ¬ Raises (parseAccessLine py patterns line) :=
      fun line hl => h line (List.mem_cons_of_mem _ hl)
    cases result with
    | none =>
      obtain ⟨s', hs', hout⟩ := ih hrest s
      have hnone : engine.requestsOf py patterns (line :: rest) = engine.requestsOf py patterns rest := by
        simp [Ingest.requestsOf, hresult]
      refine ⟨s', ?_, hnone ▸ hout⟩
      rw [Ingest.lines, hresult]
      exact hs'
    | some request =>
      obtain ⟨s', hs', hobserved, hlive, hrequests⟩ :=
        ih hrest (engine.handOn request (engine.lineEpoch line) s)
      have hsome : engine.requestsOf py patterns (line :: rest) =
          (request, engine.lineEpoch line) :: engine.requestsOf py patterns rest := by
        simp [Ingest.requestsOf, hresult]
      refine ⟨s', ?_, ?_, ?_, ?_⟩
      · rw [Ingest.lines, hresult]
        exact hs'
      · rw [hobserved, hsome]
        simp [Ingest.handOn]
      · intro hl
        rw [hlive hl, hsome]
        simp [Ingest.handOn, hl]
      · intro hr
        rw [hrequests hr, hsome]
        simp [Ingest.handOn, hr]

theorem handsAllOn_of_clean {lines : List (List Char)}
    (h : ∀ line ∈ lines, ¬ Raises (parseAccessLine py patterns line)) :
    engine.HandsAllOn py patterns lines := by
  unfold Ingest.HandsAllOn Ingest.log
  by_cases hnil : lines = []
  · simp [hnil, Ingest.requestsOf]
  · obtain ⟨s', hs', hobserved, hlive, hrequests⟩ := lines_of_clean engine h {}
    rw [if_neg hnil, hs']
    exact ⟨by simpa using hobserved, by simpa using hlive, by simpa using hrequests⟩

variable (py patterns)

/-- Every line of a batch is read and every request in it handed on exactly when none of its lines
is hostile. -/
theorem batch_survives_iff (lines : List (List Char)) :
    ((∀ line ∈ lines, ∃ result, parseAccessLine py patterns line = .ok result) ∧
      engine.HandsAllOn py patterns lines) ↔ ∀ line ∈ lines, ¬ HostileLine py line := by
  have hraises (line : List Char) : Raises (parseAccessLine py patterns line) ↔ HostileLine py line :=
    raises_parseAccessLine
  simp only [← not_raises_iff, hraises]
  constructor
  · exact fun h => h.1
  · exact fun h => ⟨h, handsAllOn_of_clean engine fun line hl => (hraises line).not.mpr (h line hl)⟩

theorem digit_plain_of_ascii {c : Char} (h : asciiDigit c = true) :
    isSpace c = false ∧ c ≠ '+' ∧ c ≠ '-' ∧ c ≠ '_' := by
  obtain ⟨hlow, hhigh⟩ : 48 ≤ c.toNat ∧ c.toNat ≤ 57 := by
    simpa [asciiDigit, Char.le_def, UInt32.le_iff_toNat_le] using h
  rw [← Char.ofNat_toNat c]
  interval_cases c.toNat <;> decide

def asciiPython : Interpreter where
  digit c := if asciiDigit c then some (c.toNat - 48) else none
  digit_plain c hc := digit_plain_of_ascii (by
    by_contra hno
    rw [if_neg hno] at hc
    cases hc)
  lower text := text.map Char.toLower
  nfkc := id
  bracketed _ := true

def noPatterns : Patterns where
  scannerPaths := Dict.empty
  scannerSegments := Dict.empty
  scannerPrefixes := []
  decisiveCategories := []
  assetSuffixes := []
  authenticationPaths := []
  queryRules := []
  observationQueries := []
  serviceApiProbe _ := false
  sensitiveTarget _ := false

def hostileLine : List Char :=
  "10.0.0.1:5 [18/Nov/2026:10:00:00] web web/<NOSRV> 0/-1/-1/-1/0 400 10 PR-- GET http://[/ HTTP/1.1".toList

def plainLine : List Char :=
  "10.0.0.2:5 [18/Nov/2026:10:00:00] web app/s1 0/0/1/2/3 200 10 ---- GET /a HTTP/1.1".toList

/-- One bracket in a target costs the batch: the line raises, and the request after it reaches
nobody. -/
theorem hostile_line_costs_batch :
    (¬ ∀ (py : Interpreter) (patterns : Patterns) (line : List Char),
      ∃ result, parseAccessLine py patterns line = .ok result) ∧
    ¬ ∀ (py : Interpreter) (patterns : Patterns) (engine : Ingest Int) (lines : List (List Char)),
      engine.HandsAllOn py patterns lines := by
  constructor
  · intro h
    obtain ⟨result, hresult⟩ := h asciiPython noPatterns hostileLine
    have hraised : (parseAccessLine asciiPython noPatterns hostileLine).isOk = false := by decide +kernel
    rw [hresult] at hraised
    cases hraised
  · intro h
    have hobserved := (h asciiPython noPatterns ⟨true, true, fun _ => none, 0⟩ [hostileLine, plainLine]).1
    have hlen := congrArg List.length hobserved
    revert hlen
    decide +kernel

end Batch

end EasyHaProxy.Guardd
