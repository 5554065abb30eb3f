import EasyHaProxy.Lib.Dict
import EasyHaProxy.Lib.Lines
import EasyHaProxy.Lib.Machine

/-! `LogCursor.read` follows a file that is written to meanwhile. What has been returned so far is kept as
history beside the cursor. -/
namespace EasyHaProxy.Guardd.LogTail

open Lines Python

/-! ## The cursor -/

def maxLogLineBytes : Nat := 8192

/-- A number of a file, as `st_ino` gives it; no file has 0. -/
abbrev Inode := { n : Nat // 0 < n }

structure LogFile where
  inode : Inode
  bytes : List Nat

structure LogCursor where
  inode : Nat
  offset : Nat
  rotations : Nat
  lagBytes : Nat := 0
  lastError : Option String := none

/-- How a read goes: what is asked for, whether `stat` or `open` raise, and what is written to the file
between the two. -/
structure Reading where
  maxBytes : { n : Nat // 0 < n }
  statError : Option String := none
  written : List Nat := []
  openError : Option String := none

/-- A line as it is handed on. -/
def textOf (raw : List Nat) : List Char :=
  decodeUtf8 none (if maxLogLineBytes < raw.length then raw.take maxLogLineBytes else raw)

namespace LogCursor

def state (c : LogCursor) : Dict String Nat := .ofPairs
  [("inode", c.inode), ("offset", c.offset), ("rotations", c.rotations)]

/-- `__init__`; `_safe_int` takes a missing number for 0. -/
def load (state : Dict String Nat) : LogCursor where
  inode := state.getD "inode" 0
  offset := state.getD "offset" 0
  rotations := state.getD "rotations" 0

/-- Where a file that is not the one read so far, or is shorter than before, is read from. -/
def follow (c : LogCursor) (file : LogFile) : LogCursor :=
  if file.inode.val ≠ c.inode then { c with inode := file.inode, offset := 0, rotations := c.rotations + 1 }
  else if file.bytes.length < c.offset then { c with offset := 0, rotations := c.rotations + 1 }
  else c

/-- The complete lines of what was read; a partial one is left for later. -/
def takeLines (c : LogCursor) (data : List Nat) : List (List Char) × LogCursor :=
  let consumed := upToLast data
  if consumed = 0 then ([], c)
  else ((splitlines [] (data.take consumed)).map textOf, { c with offset := c.offset + consumed })

/-- `LogCursor.read` -/
def read (c : LogCursor) (file : LogFile) (r : Reading) : List (List Char) × LogCursor :=
  match r.statError with
  | some error => ([], { c with lastError := some error })
  | none =>
    let c := { c with lastError := none }
    let size := file.bytes.length
    -- The first start ever: what is there already is not read.
    if c.inode = 0 then ([], { c with inode := file.inode, offset := size })
    else
      let c := c.follow file
      if size ≤ c.offset then ([], { c with lagBytes := 0 })
      else
        let c := { c with lagBytes := size - c.offset - r.maxBytes }
        match r.openError with
        | some error => ([], { c with lastError := some error })
        | none => c.takeLines (((file.bytes ++ r.written).drop c.offset).take r.maxBytes)

end LogCursor

/-! ## The file and the daemon -/

/-- The file, its reader, and what the reader has returned since it stood at `start`. -/
structure Tail where
  file : LogFile
  cursor : LogCursor
  start : Nat
  returned : List (List Char) := []

inductive Op
  | write (bytes : List Nat)
  | read (r : Reading)
  /-- The state is kept and read back by a new daemon. -/
  | restart

/-- What an operation adds to the file. -/
def Op.added : Op → List Nat
  | .write bytes => bytes
  | .read r => r.written
  | .restart => []

namespace Tail

def grow (t : Tail) (bytes : List Nat) : Tail := { t with file := { t.file with bytes := t.file.bytes ++ bytes } }

def step (t : Tail) : Op → Tail
  | .write bytes => t.grow bytes
  | .read r =>
    let (lines, cursor) := t.cursor.read t.file r
    { t.grow r.written with cursor, returned := t.returned ++ lines }
  | .restart => { t with cursor := .load t.cursor.state }

/-- A reader that stands in a file between `before` and `after`. -/
def init (inode : Inode) (before after : List Nat) : Tail where
  file := ⟨inode, before ++ after⟩
  cursor := ⟨inode, before.length, 0, 0, none⟩
  start := before.length

/-- What has been written from the start on, and how much of it has been read. -/
def beyond (t : Tail) : List Nat := t.file.bytes.drop t.start

def consumed (t : Tail) : List Nat := t.beyond.take (t.cursor.offset - t.start)

/-- What was returned is the complete lines of what was read, and a read that asks for enough returns
those that are left. -/
structure Exact (t : Tail) : Prop where
  lines : t.returned = (complete [] t.consumed).map textOf
  progress : ∃ maxBytes, (t.step (.read { maxBytes })).returned = (complete [] t.beyond).map textOf

end Tail

/-- No carriage return in a line, or only one at its end that is cut away. -/
def Harmless (line : List Nat) : Prop :=
  13 ∉ line ∨ ∃ text, line = text ++ [13] ∧ 13 ∉ text ∧ maxLogLineBytes ≤ text.length

/-! ## What a line becomes -/

variable {lines : List (List Nat)} {line tail rest data : List Nat} {c : LogCursor} {t : Tail}

theorem map_textOf_of_harmless (h : Harmless line) : (pieces [] line).map textOf = [textOf line] := by
  obtain h | ⟨text, rfl, htext, hlen⟩ := h
  · rw [pieces_of_not_mem h, List.nil_append, List.map_singleton]
  · rw [pieces_of_trailing htext, List.nil_append, List.map_singleton]
    have htake : ∀ l : List Nat, textOf l = decodeUtf8 none (l.take maxLogLineBytes) := by
      intro l
      unfold textOf
      split
      · rfl
      · rw [List.take_of_length_le (by omega)]
    rw [htake, htake, List.take_append_of_le_length hlen]

theorem harmless_of_textOf {piece : List Nat} (h : pieces [] line = [piece]) (htext : textOf piece = textOf line) :
    Harmless line := by
  obtain ⟨hline, -⟩ | ⟨text, rfl, hmem, hpiece⟩ := pieces_eq_singleton h
  · exact .inl hline
  · refine .inr ⟨text, rfl, hmem, ?_⟩
    by_contra hlen
    rw [hpiece, List.nil_append, textOf, textOf, if_neg (by omega), if_neg (by simp; omega),
      decodeUtf8_append_cr text (by exact nofun)] at htext
    exact absurd (congrArg List.length htext) (by simp)

theorem pieces_eq_lines_iff :
    (lines.flatMap (pieces [])).map textOf = lines.map textOf ↔ ∀ l ∈ lines, Harmless l := by
  constructor
  · intro h
    have hlen : (lines.flatMap (pieces [])).length = lines.length := by simpa using congrArg List.length h
    have hone := (length_le_flatMap (fun l => pieces_ne_nil [] l) lines).2 hlen
    clear hlen
    induction lines with
    | nil => exact nofun
    | cons l lines ih =>
      obtain ⟨⟨piece, hpiece⟩, hone⟩ := List.forall_mem_cons.mp hone
      rw [List.flatMap_cons, hpiece, List.singleton_append, List.map_cons, List.map_cons] at h
      obtain ⟨hhead, htail⟩ := List.cons_eq_cons.mp h
      exact List.forall_mem_cons.mpr ⟨harmless_of_textOf hpiece hhead, ih htail hone⟩
  · intro h
    induction lines with
    | nil => rfl
    | cons l lines ih =>
      obtain ⟨hl, hlines⟩ := List.forall_mem_cons.mp h
      rw [List.flatMap_cons, List.map_append, map_textOf_of_harmless hl, ih hlines]
      rfl

/-! ## Runs -/

/-- What has been read are lines, and their pieces have been returned. -/
structure Tail.Reads (t : Tail) (lines : List (List Nat)) (rest : List Nat) : Prop where
  inode : t.cursor.inode = t.file.inode
  whole : ∀ l ∈ lines, 10 ∉ l
  beyond : t.beyond = join lines ++ rest
  offset : t.cursor.offset = t.start + (join lines).length
  inside : t.start ≤ t.file.bytes.length
  returned : t.returned = (lines.flatMap (pieces [])).map textOf

theorem Tail.Reads.consumed (h : t.Reads lines rest) : t.consumed = join lines := by
  rw [Tail.consumed, h.beyond, h.offset, Nat.add_sub_cancel_left, List.take_left]

theorem Tail.Reads.size (h : t.Reads lines rest) : t.file.bytes.length = t.cursor.offset + rest.length := by
  have hlen := congrArg List.length h.beyond
  rw [Tail.beyond, List.length_drop, List.length_append] at hlen
  have := h.offset
  have := h.inside
  omega

theorem Tail.Reads.unread (h : t.Reads lines rest) : t.file.bytes.drop t.cursor.offset = rest := by
  have hbeyond := h.beyond
  unfold Tail.beyond at hbeyond
  rw [h.offset, ← List.drop_drop, hbeyond, List.drop_left]

theorem Tail.Reads.grow (h : t.Reads lines rest) (bytes : List Nat) : (t.grow bytes).Reads lines (rest ++ bytes) := by
  refine ⟨h.inode, h.whole, ?_, h.offset, ?_, h.returned⟩
  · have hbeyond := h.beyond
    unfold Tail.beyond at hbeyond
    change (t.file.bytes ++ bytes).drop t.start = _
    rw [List.drop_append_of_le_length h.inside, hbeyond, List.append_assoc]
  · exact h.inside.trans (by simp [Tail.grow])

/-- Nothing about the cursor's place changes. -/
theorem Tail.Reads.stay (h : t.Reads lines rest) (hinode : c.inode = t.cursor.inode) (hoffset : c.offset = t.cursor.offset) :
    Tail.Reads { t with cursor := c } lines rest :=
  ⟨hinode.trans h.inode, h.whole, h.beyond, hoffset.trans h.offset, h.inside, h.returned⟩

theorem Tail.Reads.takeLines (h : t.Reads lines rest) (hinode : c.inode = t.cursor.inode)
    (hoffset : c.offset = t.cursor.offset) (n : Nat) :
    ∃ more rest', (∀ l ∈ more, 10 ∉ l) ∧ rest = join more ++ rest' ∧
      (rest.length ≤ n → 10 ∉ rest') ∧
      Tail.Reads { t with cursor := (c.takeLines (rest.take n)).2
                          returned := t.returned ++ (c.takeLines (rest.take n)).1 } (lines ++ more) rest' := by
  obtain ⟨more, tail, hmore, htail, hdata⟩ := exists_lines (rest.take n)
  have hrest : rest = join more ++ (tail ++ rest.drop n) := by
    rw [← List.append_assoc, ← hdata, List.take_append_drop]
  refine ⟨more, tail ++ rest.drop n, hmore, hrest, fun hn => ?_, ?_⟩
  · rw [List.drop_eq_nil_of_le hn, List.append_nil]
    exact htail
  · have hlast : upToLast (rest.take n) = (join more).length := by rw [hdata, upToLast_join htail]
    have htake : (rest.take n).take (join more).length = join more := by rw [hdata, List.take_left]
    have hsplit : (splitlines [] (join more)).map textOf = (more.flatMap (pieces [])).map textOf := by
      rw [splitlines_join hmore]
    have htaken : c.takeLines (rest.take n) = ((more.flatMap (pieces [])).map textOf,
        { c with offset := c.offset + (join more).length }) := by
      unfold LogCursor.takeLines
      rw [hlast]
      dsimp only
      rw [htake]
      split
      · rename_i hnone
        have hnil : more = [] := by
          cases more with
          | nil => rfl
          | cons l more => simp [join] at hnone
        rw [hnil]
        rfl
      · rw [hsplit]
    rw [htaken]
    refine ⟨hinode.trans h.inode, fun l hl => (List.mem_append.mp hl).elim (h.whole l) (hmore l), ?_, ?_, h.inside, ?_⟩
    · rw [join_append, List.append_assoc, ← hrest]
      exact h.beyond
    · change c.offset + _ = t.start + _
      rw [hoffset, h.offset, join_append, List.length_append, Nat.add_assoc]
    · change t.returned ++ _ = _
      rw [h.returned, List.flatMap_append, List.map_append]

theorem follow_eq (h : t.Reads lines rest) (hinode : c.inode = t.cursor.inode) (hoffset : c.offset = t.cursor.offset) :
    c.follow t.file = c := by
  have hsize := h.size
  have hfile := h.inode
  unfold LogCursor.follow
  rw [if_neg (by omega), if_neg (by omega)]

/-- A reading that asks for all that is left, nothing in its way. -/
def Reading.Full (r : Reading) (rest : List Nat) : Prop :=
  r.statError = none ∧ r.openError = none ∧ r.written = [] ∧ rest.length ≤ r.maxBytes

theorem Tail.Reads.read (h : t.Reads lines rest) (r : Reading) :
    ∃ more rest', (∀ l ∈ more, 10 ∉ l) ∧ rest ++ r.written = join more ++ rest' ∧
      (r.Full rest → 10 ∉ rest') ∧ (t.step (.read r)).Reads (lines ++ more) rest' := by
  have hgrown := h.grow r.written
  have hsize := h.size
  have hinode : t.cursor.inode ≠ 0 := h.inode ▸ t.file.inode.2.ne'
  -- Whatever keeps the read from the lines leaves the cursor where it is.
  have stays : ∀ c : LogCursor, t.cursor.read t.file r = ([], c) → c.inode = t.cursor.inode →
      c.offset = t.cursor.offset → (r.Full rest → 10 ∉ rest ++ r.written) → ∃ more rest', (∀ l ∈ more, 10 ∉ l) ∧
        rest ++ r.written = join more ++ rest' ∧ (r.Full rest → 10 ∉ rest') ∧
        (t.step (.read r)).Reads (lines ++ more) rest' := by
    intro c hread hi ho hfull
    refine ⟨[], rest ++ r.written, nofun, rfl, hfull, ?_⟩
    have hstep : t.step (.read r) = { t.grow r.written with cursor := c } := by
      rw [Tail.step, hread]
      exact congrArg (fun returned => Tail.mk (t.grow r.written).file c t.start returned) (List.append_nil t.returned)
    rw [hstep, List.append_nil]
    exact hgrown.stay hi ho
  cases hstat : r.statError with
  | some error =>
    refine stays { t.cursor with lastError := some error } ?_ rfl rfl fun hfull => ?_
    · rw [LogCursor.read, hstat]
    · exact nomatch hstat.symm.trans hfull.1
  | none =>
    have hfollow : LogCursor.follow { t.cursor with lastError := none } t.file = { t.cursor with lastError := none } :=
      follow_eq h rfl rfl
    by_cases hend : t.file.bytes.length ≤ t.cursor.offset
    · refine stays { t.cursor with lastError := none, lagBytes := 0 } ?_ rfl rfl fun hfull => ?_
      · rw [LogCursor.read, hstat]
        dsimp only
        rw [if_neg hinode, hfollow, if_pos hend]
      · have hnil : rest = [] := List.length_eq_zero_iff.mp (by omega)
        rw [hnil, hfull.2.2.1]
        exact nofun
    · cases hopen : r.openError with
      | some error =>
        refine stays { t.cursor with
          lastError := some error, lagBytes := t.file.bytes.length - t.cursor.offset - r.maxBytes } ?_ rfl rfl
          fun hfull => ?_
        · rw [LogCursor.read, hstat]
          dsimp only
          rw [if_neg hinode, hfollow, if_neg hend, hopen]
        · exact nomatch hopen.symm.trans hfull.2.1
      | none =>
        have hread : t.cursor.read t.file r = LogCursor.takeLines { t.cursor with
            lastError := none, lagBytes := t.file.bytes.length - t.cursor.offset - r.maxBytes }
            ((rest ++ r.written).take r.maxBytes) := by
          rw [LogCursor.read, hstat]
          dsimp only
          rw [if_neg hinode, hfollow, if_neg hend, hopen]
          exact congrArg (fun l => LogCursor.takeLines _ (List.take r.maxBytes l)) hgrown.unread
        obtain ⟨more, rest', hmore, hrest, hall, hreads⟩ := hgrown.takeLines (c := { t.cursor with
          lastError := none, lagBytes := t.file.bytes.length - t.cursor.offset - r.maxBytes }) rfl rfl r.maxBytes
        refine ⟨more, rest', hmore, hrest, fun hfull => hall ?_, ?_⟩
        · rw [hfull.2.2.1, List.append_nil]
          exact hfull.2.2.2
        · rw [Tail.step, hread]
          exact hreads

theorem load_state (c : LogCursor) : LogCursor.load c.state = ⟨c.inode, c.offset, c.rotations, 0, none⟩ := by
  simp [LogCursor.load, LogCursor.state, Dict.ofPairs, Dict.getD]

theorem Tail.Reads.step (h : t.Reads lines rest) (op : Op) :
    ∃ more rest', (∀ l ∈ more, 10 ∉ l) ∧ rest ++ op.added = join more ++ rest' ∧
      (t.step op).Reads (lines ++ more) rest' := by
  cases op with
  | write bytes => exact ⟨[], rest ++ bytes, nofun, rfl, (List.append_nil lines).symm ▸ h.grow bytes⟩
  | read r =>
    obtain ⟨more, rest', hmore, hrest, -, hreads⟩ := h.read r
    exact ⟨more, rest', hmore, hrest, hreads⟩
  | restart =>
    refine ⟨[], rest, nofun, List.append_nil rest, ?_⟩
    rw [List.append_nil, Tail.step, load_state]
    exact h.stay rfl rfl

theorem Tail.Reads.run (h : t.Reads lines rest) (ops : List Op) :
    ∃ more rest', (∀ l ∈ more, 10 ∉ l) ∧ rest ++ ops.flatMap Op.added = join more ++ rest' ∧
      (Machine.run Tail.step t ops).Reads (lines ++ more) rest' := by
  induction ops generalizing t lines rest with
  | nil => exact ⟨[], rest, nofun, List.append_nil rest, (List.append_nil lines).symm ▸ h⟩
  | cons op ops ih =>
    obtain ⟨more, rest', hmore, hrest, hreads⟩ := h.step op
    obtain ⟨more', rest'', hmore', hrest', hreads'⟩ := ih hreads
    refine ⟨more ++ more', rest'', fun l hl => (List.mem_append.mp hl).elim (hmore l) (hmore' l), ?_, ?_⟩
    · rw [List.flatMap_cons, ← List.append_assoc, hrest, List.append_assoc, hrest', join_append, List.append_assoc]
    · rw [← List.append_assoc]
      exact hreads'

theorem Tail.Reads.full (h : t.Reads lines rest) :
    ∃ maxBytes, ∃ more rest', (∀ l ∈ more, 10 ∉ l) ∧ 10 ∉ rest' ∧ rest = join more ++ rest' ∧
      (t.step (.read { maxBytes })).Reads (lines ++ more) rest' := by
  obtain ⟨more, rest', hmore, hrest, hall, hreads⟩ := h.read { maxBytes := ⟨rest.length + 1, Nat.succ_pos _⟩ }
  exact ⟨_, more, rest', hmore, hall ⟨rfl, rfl, rfl, Nat.le_succ _⟩, (List.append_nil rest).symm.trans hrest, hreads⟩

theorem Tail.Reads.exact (h : t.Reads lines rest) (hclean : ∀ l ∈ complete [] t.beyond, Harmless l) : t.Exact := by
  obtain ⟨maxBytes, more, rest', hmore, hrest', hrest, hreads⟩ := h.full
  have hall : ∀ l ∈ lines ++ more, 10 ∉ l := fun l hl => (List.mem_append.mp hl).elim (h.whole l) (hmore l)
  have hbeyond : complete [] t.beyond = lines ++ more := by
    rw [h.beyond, hrest, ← List.append_assoc, ← join_append, complete_join hall hrest']
  rw [hbeyond] at hclean
  refine ⟨?_, maxBytes, ?_⟩
  · rw [h.returned, h.consumed, complete_lines h.whole]
    exact pieces_eq_lines_iff.mpr fun l hl => hclean l (List.mem_append_left more hl)
  · rw [hreads.returned, hbeyond]
    exact pieces_eq_lines_iff.mpr hclean

theorem reads_init (inode : Inode) (before after : List Nat) : (Tail.init inode before after).Reads [] after :=
  ⟨rfl, nofun, List.drop_left, rfl, by simp [Tail.init], rfl⟩

/-- Every run from a place in a file, as far as the file grows, returns exactly the complete lines
beyond it, exactly when each of those lines is harmless. -/
theorem cursor_exact_iff (inode : Inode) (before after written : List Nat) :
    (∀ ops : List Op, ops.flatMap Op.added <+: written →
      (Machine.run Tail.step (.init inode before after) ops).Exact) ↔
    ∀ l ∈ complete [] (after ++ written), Harmless l := by
  constructor
  · intro h
    -- The whole file at once, and one read.
    have hgrown := (reads_init inode before after).grow written
    obtain ⟨maxBytes, more, rest', hmore, hrest', hrest, hreads⟩ := hgrown.full
    have hadded : [Op.write written, .read { maxBytes }].flatMap Op.added = written := List.append_nil written
    have hexact := h [.write written, .read { maxBytes }] (by rw [hadded])
    have hlines : ((more.flatMap (pieces [])).map textOf) = more.map textOf := by
      have hreturned := hexact.lines
      rw [Machine.run_cons, Machine.run_cons, Machine.run_nil] at hreturned
      change (Tail.step (Tail.grow _ written) _).returned = (complete [] (Tail.consumed (Tail.step (Tail.grow _ written) _))).map _
        at hreturned
      rwa [hreads.returned, hreads.consumed, complete_lines hreads.whole, List.nil_append] at hreturned
    rw [hrest, complete_join hmore hrest']
    exact pieces_eq_lines_iff.mp hlines
  · intro hclean ops hadded
    obtain ⟨more, rest', hmore, hrest, hreads⟩ := (reads_init inode before after).run ops
    obtain ⟨later, rfl⟩ := hadded
    refine hreads.exact fun l hl => hclean l ?_
    rw [hreads.beyond, List.nil_append, ← hrest] at hl
    rw [← List.append_assoc]
    exact (complete_extend _ later).subset hl

/-- One line with a carriage return in it. -/
def twoInOne : List Nat := [97, 13, 98, 10]

/-- It is handed on as two. -/
theorem line_handed_on_in_pieces : ¬ ∀ (inode : Inode) (before after : List Nat) (ops : List Op),
    (Machine.run Tail.step (.init inode before after) ops).Exact := by
  intro h
  have hlines := (h ⟨1, Nat.one_pos⟩ [] twoInOne [.read { maxBytes := ⟨4, by decide⟩ }]).lines
  exact absurd hlines (by decide +kernel)

end EasyHaProxy.Guardd.LogTail
