import EasyHaProxy.Lib.Backward
import EasyHaProxy.Lib.Python
import Mathlib.Data.PNat.Basic

/-! The log is read in blocks from its end, as far as enough lines are found. -/
namespace EasyHaProxy.Controld.LogTail

open Python

/-- `[0-9A-Fa-f]` -/
def isHexDigit (c : Char) : Bool := (hexValue c).isSome

/-- `[0-9A-Fa-f.:]` -/
def isAddressChar (c : Char) : Bool := isHexDigit c || c == '.' || c == ':'

/-- The address here, and no longer one that starts with it. -/
def startsWithIp (ip text : List Char) : Bool :=
  ip.isPrefixOf text && !((text.drop ip.length).head?.any isHexDigit)

/-- The search of `_line_has_ip`, after a character. -/
def searchIp (ip : List Char) (previous : Option Char) : List Char → Bool
  | [] => !previous.any isAddressChar && startsWithIp ip []
  | c :: rest => (!previous.any isAddressChar && startsWithIp ip (c :: rest)) || searchIp ip (some c) rest

/-- `_line_has_ip` -/
def lineHasIp (line ip : List Char) : Bool := searchIp ip none line

/-- `_is_selfcheck_line`: the request to /ip/<ip> itself. -/
def isSelfcheckLine (line ip : List Char) : Bool :=
  decide (['G', 'E', 'T', ' ', '/', 'i', 'p', '/'] <:+: line) || decide (['/', 'i', 'p', '/'] ++ ip <:+: line)

/-- Whether a line is one of the address's. -/
def wanted (ip line : List Char) : Bool := lineHasIp line ip && !isSelfcheckLine line ip

def wantedText (ip : List Char) (raw : List Nat) : Option (List Char) :=
  let line := Python.decodeUtf8 none raw
  if wanted ip line then some line else none

/-- `b"\n"` -/
def isNewline (b : Nat) : Bool := b == 10

abbrev TailState := Backward.State Nat (List Char)

/-- The loop of `_file_tail_scan`, with what stands before `pos` still to be read. -/
def readBlocks (file : List Nat) (ip : List Char) (limit : Nat) (chunkSize : ℕ+) (maxBytes : Nat)
    (pos scanned : Nat) (s : TailState) : Nat × TailState :=
  if 0 < pos ∧ s.found.length < limit ∧ ¬ (maxBytes ≠ 0 ∧ maxBytes ≤ scanned) then
    let toRead := min (chunkSize : Nat) pos
    let chunk := (file.drop (pos - toRead)).take toRead
    readBlocks file ip limit chunkSize maxBytes (pos - toRead) (scanned + toRead)
      (Backward.take isNewline (wantedText ip) limit chunk s)
  else (pos, s)
termination_by pos
decreasing_by
  have hchunk : 0 < (chunkSize : Nat) := chunkSize.pos
  omega

/-- `_file_tail_scan` -/
def fileTailScan (file : List Nat) (ip : List Char) (limit : Nat) (chunkSize : ℕ+) (maxBytes : Nat) :
    List (List Char) :=
  let (pos, s) := readBlocks file ip limit chunkSize maxBytes file.length 0 ⟨[], []⟩
  (if pos = 0 then Backward.finish (wantedText ip) limit s else s.found).reverse

/-- The lines of a log, read forward. -/
def logLines (file : List Nat) : List (List Char) := (file.splitOnP isNewline).map (Python.decodeUtf8 none)

variable {file : List Nat} {ip line text : List Char} {limit maxBytes pos scanned : Nat} {chunkSize : ℕ+}
  {s : TailState} {previous : Option Char}

/-! ## Which lines are wanted -/

theorem startsWithIp_iff :
    startsWithIp ip text = true ↔ ∃ after, text = ip ++ after ∧ after.head?.any isHexDigit = false := by
  rw [startsWithIp, Bool.and_eq_true, List.isPrefixOf_iff_prefix, Bool.not_eq_true']
  constructor
  · rintro ⟨⟨after, rfl⟩, hafter⟩
    rw [List.drop_left] at hafter
    exact ⟨after, rfl, hafter⟩
  · rintro ⟨after, rfl, hafter⟩
    rw [List.drop_left]
    exact ⟨List.prefix_append ip after, hafter⟩

theorem searchIp_iff : searchIp ip previous line = true ↔ ∃ before after, line = before ++ ip ++ after ∧
    (before.getLast?.or previous).any isAddressChar = false ∧ after.head?.any isHexDigit = false := by
  induction line generalizing previous with
  | nil =>
    rw [searchIp, Bool.and_eq_true, Bool.not_eq_true', startsWithIp_iff]
    constructor
    · rintro ⟨hprevious, after, htext, hafter⟩
      exact ⟨[], after, htext, hprevious, hafter⟩
    · rintro ⟨before, after, htext, hbefore, hafter⟩
      obtain ⟨rfl, rfl, rfl⟩ : before = [] ∧ ip = [] ∧ after = [] := by simpa using htext.symm
      exact ⟨hbefore, [], rfl, hafter⟩
  | cons c rest ih =>
    rw [searchIp, Bool.or_eq_true, Bool.and_eq_true, Bool.not_eq_true', startsWithIp_iff, ih]
    constructor
    · rintro (⟨hprevious, after, htext, hafter⟩ | ⟨before, after, rfl, hbefore, hafter⟩)
      · exact ⟨[], after, htext, hprevious, hafter⟩
      · refine ⟨c :: before, after, rfl, ?_, hafter⟩
        rw [List.getLast?_cons, Option.some_or]
        cases hlast : before.getLast? <;> simpa [hlast] using hbefore
    · rintro ⟨before, after, htext, hbefore, hafter⟩
      cases before with
      | nil => exact Or.inl ⟨hbefore, after, htext, hafter⟩
      | cons d before =>
        obtain ⟨rfl, rfl⟩ := List.cons.inj htext
        refine Or.inr ⟨before, after, rfl, ?_, hafter⟩
        rw [List.getLast?_cons, Option.some_or] at hbefore
        cases hlast : before.getLast? <;> simpa [hlast] using hbefore

/-- A line has an address where it stands in it with no longer one around it. -/
theorem lineHasIp_iff : lineHasIp line ip = true ↔ ∃ before after, line = before ++ ip ++ after ∧
    before.getLast?.any isAddressChar = false ∧ after.head?.any isHexDigit = false := by
  simp only [lineHasIp, searchIp_iff, Option.or_none]

/-- An empty line has no address, so the empty start of a log need not be looked at. -/
theorem wantedText_nil (hip : ip ≠ []) : wantedText ip [] = none := by
  have hnot : ¬ lineHasIp [] ip = true := by
    rw [lineHasIp_iff]
    rintro ⟨before, after, htext, -⟩
    obtain ⟨-, hempty, -⟩ : before = [] ∧ ip = [] ∧ after = [] := by simpa using htext.symm
    exact hip hempty
  simp [wantedText, wanted, Python.decodeUtf8, hnot]

theorem filterMap_wantedText (parts : List (List Nat)) :
    parts.filterMap (wantedText ip) = (parts.map (Python.decodeUtf8 none)).filter (wanted ip) := by
  induction parts with
  | nil => rfl
  | cons part parts ih =>
    rw [List.map_cons, List.filterMap_cons, List.filter_cons, ← ih, wantedText]
    split <;> split <;> simp_all

/-! ## The loop -/

/-- What is read is the end of the file. The loop stops with nothing more to read, or enough found. -/
theorem readBlocks_reads (hcap : maxBytes = 0 ∨ file.length ≤ maxBytes) (chunkSize : ℕ+)
    (hpos : scanned + pos = file.length) (h : Backward.Reads isNewline (wantedText ip) limit (file.drop pos) s) :
    Backward.Reads isNewline (wantedText ip) limit
        (file.drop (readBlocks file ip limit chunkSize maxBytes pos scanned s).1)
        (readBlocks file ip limit chunkSize maxBytes pos scanned s).2 ∧
      ((readBlocks file ip limit chunkSize maxBytes pos scanned s).1 = 0 ∨
        limit ≤ (readBlocks file ip limit chunkSize maxBytes pos scanned s).2.found.length) := by
  induction pos using Nat.strongRecOn generalizing scanned s with
  | ind pos ih =>
    rw [readBlocks]
    split
    next hmore =>
      obtain ⟨hleft, -, -⟩ := hmore
      have hchunk : 0 < (chunkSize : Nat) := chunkSize.pos
      have hblock : file.drop (pos - min (chunkSize : Nat) pos) =
          (file.drop (pos - min (chunkSize : Nat) pos)).take (min (chunkSize : Nat) pos) ++ file.drop pos := by
        conv_lhs => rw [← List.take_append_drop (min (chunkSize : Nat) pos) (file.drop _)]
        rw [List.drop_drop]
        congr 2
        omega
      have hnext := h.take ((file.drop (pos - min (chunkSize : Nat) pos)).take (min (chunkSize : Nat) pos))
      rw [← hblock] at hnext
      exact ih _ (by omega) (by omega) hnext
    next hstop =>
      refine ⟨h, ?_⟩
      by_cases hzero : pos = 0
      · exact Or.inl hzero
      · -- The cap is not reached before the start of the file.
        right
        by_contra hroom
        exact hstop ⟨Nat.pos_of_ne_zero hzero, not_le.mp hroom, by omega⟩

/-- Reading backwards finds the last lines of the address, in the order of the file. -/
theorem fileTailScan_eq (hip : ip ≠ []) (hcap : maxBytes = 0 ∨ file.length ≤ maxBytes) (limit : Nat)
    (chunkSize : ℕ+) :
    fileTailScan file ip limit chunkSize maxBytes =
      ((logLines file).filter fun line => lineHasIp line ip && !isSelfcheckLine line ip).rtake limit := by
  have hstart : Backward.Reads isNewline (wantedText ip) limit (file.drop file.length) ⟨[], []⟩ := by
    rw [List.drop_length]
    exact Backward.reads_nil
  obtain ⟨hreads, hend⟩ := readBlocks_reads hcap chunkSize (Nat.zero_add _) hstart
  have hlines : (logLines file).filter (wanted ip) = (file.splitOnP isNewline).filterMap (wantedText ip) :=
    (filterMap_wantedText _).symm
  change _ = ((logLines file).filter (wanted ip)).rtake limit
  rw [hlines, fileTailScan]
  dsimp only
  split
  next hzero =>
    rw [hzero, List.drop_zero] at hreads
    exact hreads.finish (wantedText_nil hip)
  next hmore =>
    have hfound := hreads.full (hend.resolve_left hmore)
      (file.take (readBlocks file ip limit chunkSize maxBytes file.length 0 ⟨[], []⟩).1)
    rwa [List.take_append_drop] at hfound

/-- The lines of `::1` and of `::12`, and one that is not ended. -/
def sampleLog : List Nat :=
  [58, 58, 49, 32, 97, 10, 58, 58, 49, 50, 32, 98, 10, 58, 58, 49, 32, 99]

theorem fileTailScan_sampleLog :
    fileTailScan sampleLog [':', ':', '1'] 2 4 0 = [[':', ':', '1', ' ', 'a'], [':', ':', '1', ' ', 'c']] := by
  rw [fileTailScan_eq (by decide) (Or.inl rfl)]
  decide

end EasyHaProxy.Controld.LogTail
