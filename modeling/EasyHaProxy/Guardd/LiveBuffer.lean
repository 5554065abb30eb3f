import EasyHaProxy.Lib.Window

/-! The latest requests in memory: new ones on the right, what a restart reads back on the left, and
whatever count, memory or age no longer allow dropped on the left. -/
namespace EasyHaProxy.Guardd

def liveBudgetMaxRecords : Nat := 1000000
def liveBudgetMaxSeconds : Int := 24 * 3600
def requestCountCap : Nat := 10000

/-- `_clamp_int` of a number. -/
def clampInt (low high value : Int) : Int := max low (min high value)

/-- What the buffer reads of a record: the memory it takes, and whether it ended more than so many
seconds before the newest. -/
structure RecordShape (α : Type) where
  size : α → Nat
  expired : (newest : α) → (maxSeconds : Int) → α → Bool

/-- `LiveBuffer`, less the counters of the other pages. The items of the window are `_records`. -/
structure LiveBuffer (α : Type) extends Window α where
  bytes : Int
  maxRecords : Nat
  maxSeconds : Int
  maxBytes : Int
  defaultRecords : Nat
  defaultSeconds : Int
  evictedForSize : Nat

/-- The id of the first record ever held. -/
def firstBase : Int := 10 ^ 12

namespace LiveBuffer

variable {α : Type} (shape : RecordShape α)

/-- A new buffer, from the limits of guardd.json as `load_config` clamps them. -/
def init (liveBufferRecords liveBufferSeconds : Int) : LiveBuffer α where
  base := firstBase
  items := []
  bytes := 0
  maxRecords := (max 1 (clampInt 0 1000000 liveBufferRecords)).toNat
  maxSeconds := max 60 (clampInt 60 (6 * 3600) liveBufferSeconds)
  maxBytes := 0
  defaultRecords := (max 1 (clampInt 0 1000000 liveBufferRecords)).toNat
  defaultSeconds := max 60 (clampInt 60 (6 * 3600) liveBufferSeconds)
  evictedForSize := 0

/-- How many records go for the count or the budget, and the bytes left. -/
def sizeDrops (b : LiveBuffer α) : List α → Int → Nat × Int
  | [], bytes => (0, bytes)
  | record :: rest, bytes =>
    if b.maxRecords < rest.length + 1 ∨ b.maxBytes ≠ 0 ∧ b.maxBytes < bytes then
      let (dropped, left) := sizeDrops b rest (bytes - shape.size record)
      (dropped + 1, left)
    else (0, bytes)

/-- How many records are past their age, and the bytes left. -/
def ageDrops (newest : α) (maxSeconds : Int) : List α → Int → Nat × Int
  | [], bytes => (0, bytes)
  | record :: rest, bytes =>
    if shape.expired newest maxSeconds record then
      let (dropped, left) := ageDrops newest maxSeconds rest (bytes - shape.size record)
      (dropped + 1, left)
    else (0, bytes)

def expiredDrops (newest : Option α) (maxSeconds : Int) (records : List α) (bytes : Int) : Nat × Int :=
  match newest with
  | some newest => ageDrops shape newest maxSeconds records bytes
  | none => (0, bytes)

/-- `_trim`. -/
def trim (newest : Option α) (b : LiveBuffer α) : LiveBuffer α :=
  let (dropped, bytes) := sizeDrops shape b b.items b.bytes
  let kept := b.toWindow.dropFront dropped
  let (expired, bytes) := expiredDrops shape newest b.maxSeconds kept.items bytes
  let kept := kept.dropFront expired
  { b with
    toWindow := kept
    bytes := if kept.items.isEmpty then 0 else bytes
    evictedForSize := b.evictedForSize + dropped }

def sizeOf (records : List α) : Int := (records.map fun r => (shape.size r : Int)).sum

def extend (records : List α) (b : LiveBuffer α) : LiveBuffer α :=
  match records.getLast? with
  | none => b
  | some newest =>
    trim shape (some newest)
      { b with toWindow := b.toWindow.append records, bytes := b.bytes + sizeOf shape records }

def refill (records : List α) (b : LiveBuffer α) : LiveBuffer α :=
  if records.isEmpty then b
  else
    trim shape none
      { b with toWindow := b.toWindow.prepend records, bytes := b.bytes + sizeOf shape records }

/-- `set_budget`: bounded by memory, or by the profile from guardd.json again. -/
def setBudget (maxBytes : Int) (b : LiveBuffer α) : LiveBuffer α :=
  let b := if 0 < maxBytes then
      { b with maxBytes := maxBytes, maxRecords := liveBudgetMaxRecords, maxSeconds := liveBudgetMaxSeconds }
    else { b with maxBytes := 0, maxRecords := b.defaultRecords, maxSeconds := b.defaultSeconds }
  trim shape b.items.getLast? b

/-! ## A page -/

/-- A page of a search: its rows with their ids, and where to go on, 0 for nowhere. -/
structure Page (α : Type) where
  rows : List (Int × α)
  next : Int

/-- One more row, up to one past the page, which says that there is more. -/
def addRow (limit : Nat) (row : Int × α) (rows : List (Int × α)) : List (Int × α) :=
  if rows.length ≤ limit then rows ++ [row] else rows

/-- The loop of `search_requests` over the records below the page before, newest first. -/
def scan (matching : α → Bool) (limit : Nat) (count : Bool) :
    List (Int × α) → List (Int × α) → Nat → List (Int × α)
  | [], rows, _ => rows
  | (id, record) :: rest, rows, counted =>
    if matching record then
      let rows := addRow limit (id, record) rows
      if requestCountCap < counted + 1 ∨ count = false ∧ limit < rows.length then rows
      else scan matching limit count rest rows (counted + 1)
    else scan matching limit count rest rows counted

/-- `search_requests` from memory. -/
def searchRequests (matching : α → Bool) (before limit : Int) (count : Bool) (w : Window α) : Page α :=
  let limit := (clampInt 1 500 limit).toNat
  let before := clampInt (-(2 ^ 62)) (2 ^ 62) before
  let top : Nat := if before ≠ 0 then (min (w.items.length : Int) (before - w.base)).toNat else w.items.length
  let rows := scan matching limit count (w.entries.drop (w.items.length - top)) [] 0
  { rows := rows.take limit
    next := if limit < rows.length then ((rows.take limit).getLast?.map Prod.fst).getD 0 else 0 }

end LiveBuffer

/-- What happens to the buffer. -/
inductive BufferOp (α : Type)
  | extend (records : List α)
  | refill (records : List α)
  | setBudget (maxBytes : Int)

namespace BufferOp

variable {α : Type}

/-- The records an operation brings in on the right. -/
def arrivals : BufferOp α → List α
  | extend records => records
  | refill _ | setBudget _ => []

/-- The records it puts back on the left. -/
def readBack : BufferOp α → List α
  | refill records => records
  | extend _ | setBudget _ => []

def apply (shape : RecordShape α) : BufferOp α → LiveBuffer α → LiveBuffer α
  | extend records, b => b.extend shape records
  | refill records, b => b.refill shape records
  | setBudget maxBytes, b => b.setBudget shape maxBytes

end BufferOp

/-! ## What an operation does to the window -/

namespace LiveBuffer

section Ops

variable {α : Type} {shape : RecordShape α} {b : LiveBuffer α}

theorem sizeDrops_spec (records : List α) (bytes : Int) :
    (sizeDrops shape b records bytes).1 ≤ records.length ∧
      records.length - (sizeDrops shape b records bytes).1 ≤ b.maxRecords := by
  induction records generalizing bytes with
  | nil => simp [sizeDrops]
  | cons record rest ih =>
    unfold sizeDrops
    split
    · obtain ⟨hle, hkept⟩ := ih (bytes - shape.size record)
      simp only [List.length_cons]
      omega
    · rename_i hfits
      simp only [List.length_cons]
      omega

theorem sizeDrops_of_count (hb : b.maxBytes = 0) (records : List α) (bytes : Int) :
    (sizeDrops shape b records bytes).1 = records.length - b.maxRecords := by
  induction records generalizing bytes with
  | nil => simp [sizeDrops]
  | cons record rest ih =>
    unfold sizeDrops
    split
    · have := ih (bytes - shape.size record)
      simp only [List.length_cons]
      omega
    · simp only [List.length_cons]
      omega

theorem ageDrops_le (newest : α) (maxSeconds : Int) (records : List α) (bytes : Int) :
    (ageDrops shape newest maxSeconds records bytes).1 ≤ records.length := by
  induction records generalizing bytes with
  | nil => simp [ageDrops]
  | cons record rest ih =>
    unfold ageDrops
    split
    · have := ih (bytes - shape.size record)
      simp only [List.length_cons]
      omega
    · exact Nat.zero_le _

theorem expiredDrops_le (newest : Option α) (maxSeconds : Int) (records : List α) (bytes : Int) :
    (expiredDrops shape newest maxSeconds records bytes).1 ≤ records.length := by
  cases newest with
  | none => exact Nat.zero_le _
  | some newest => exact ageDrops_le _ _ _ _

variable (shape) in
/-- Trimming takes records off the front until the count allows, and nothing else of the window. -/
theorem trim_window (newest : Option α) (b : LiveBuffer α) :
    ∃ n ≤ b.items.length, (trim shape newest b).toWindow = b.toWindow.dropFront n ∧
      b.items.length - n ≤ b.maxRecords := by
  have hsize : (sizeDrops shape b b.items b.bytes).1 ≤ b.items.length ∧
      b.items.length - (sizeDrops shape b b.items b.bytes).1 ≤ b.maxRecords := sizeDrops_spec _ _
  let kept := b.toWindow.dropFront (sizeDrops shape b b.items b.bytes).1
  let expired := (expiredDrops shape newest b.maxSeconds kept.items (sizeDrops shape b b.items b.bytes).2).1
  have hage : expired ≤ kept.items.length := expiredDrops_le _ _ _ _
  have hlen : kept.items.length = b.items.length - (sizeDrops shape b b.items b.bytes).1 := List.length_drop
  refine ⟨(sizeDrops shape b b.items b.bytes).1 + expired, ?_, Window.dropFront_dropFront, ?_⟩
  · omega
  · omega

theorem trim_of_count (hshape : ∀ newest maxSeconds r, shape.expired newest maxSeconds r = false)
    (hb : b.maxBytes = 0) (newest : Option α) :
    (trim shape newest b).toWindow = b.toWindow.dropFront (b.items.length - b.maxRecords) := by
  have hage (records : List α) (bytes : Int) :
      (expiredDrops shape newest b.maxSeconds records bytes).1 = 0 := by
    cases newest with
    | none => rfl
    | some newest =>
      cases records with
      | nil => rfl
      | cons record rest => simp [expiredDrops, ageDrops, hshape]
  have hsize : (sizeDrops shape b b.items b.bytes).1 = b.items.length - b.maxRecords :=
    sizeDrops_of_count hb _ _
  have hwindow : (trim shape newest b).toWindow = (b.toWindow.dropFront (sizeDrops shape b b.items b.bytes).1).dropFront
      (expiredDrops shape newest b.maxSeconds
        (b.toWindow.dropFront (sizeDrops shape b b.items b.bytes).1).items
        (sizeDrops shape b b.items b.bytes).2).1 := rfl
  rw [hwindow, hage, hsize, Window.dropFront_zero]

end Ops

/-! ## What a page holds -/

section Paging

variable {α : Type} {matching : α → Bool} {limit : Nat} {count : Bool} {w : Window α}

/-- The loop stops once the rows are more than a page, whatever it counts. -/
theorem scan_eq (hlimit : limit ≤ requestCountCap) {candidates rows : List (Int × α)} {counted : Nat}
    (hrows : rows.length = min counted (limit + 1)) :
    scan matching limit count candidates rows counted =
      (rows ++ candidates.filter fun e => matching e.2).take (limit + 1) := by
  induction candidates generalizing rows counted with
  | nil =>
    rw [scan, List.filter_nil, List.append_nil, List.take_of_length_le (by omega)]
  | cons e rest ih =>
    obtain ⟨id, record⟩ := e
    rw [scan]
    split
    · rename_i hmatch
      have hcons : ((id, record) :: rest).filter (fun e => matching e.2) =
          (id, record) :: rest.filter fun e => matching e.2 := List.filter_cons_of_pos hmatch
      rw [hcons]
      -- Rows already full stay as they are; the others take this one.
      have hnext : (addRow limit (id, record) rows).length = min (counted + 1) (limit + 1) := by
        unfold addRow
        split
        · rw [List.length_append, List.length_singleton]
          omega
        · omega
      have htake : (addRow limit (id, record) rows ++ rest.filter fun e => matching e.2).take (limit + 1) =
          (rows ++ (id, record) :: rest.filter fun e => matching e.2).take (limit + 1) := by
        unfold addRow
        split
        · rw [List.append_assoc]
          rfl
        · have hfull : rows.length = limit + 1 := by omega
          rw [List.take_append_of_le_length (by omega), List.take_append_of_le_length (by omega)]
      dsimp only
      split
      · rename_i hstop
        have hfull : (addRow limit (id, record) rows).length = limit + 1 := by
          rcases hstop with hcap | ⟨-, hmore⟩ <;> omega
        rw [← htake, List.take_append_of_le_length (by omega), List.take_of_length_le (by omega)]
      · rw [ih hnext, htake]
    · rename_i hmatch
      rw [List.filter_cons_of_neg (by simpa using hmatch), ih hrows]

/-- The matching records below a page, newest first. -/
def below (matching : α → Bool) (before : Int) (w : Window α) : List (Int × α) :=
  w.entries.filter fun e => decide (before = 0 ∨ e.1 < before) && matching e.2

def pageSize (limit : Int) : Nat := (clampInt 1 500 limit).toNat

theorem pageSize_bounds (limit : Int) : 1 ≤ pageSize limit ∧ pageSize limit ≤ 500 := by
  unfold pageSize clampInt
  omega

/-- The part of the records a page looks at: those below the page before. -/
theorem candidates_eq {before : Int} {top : Nat}
    (htop : top = if before ≠ 0 then (min (w.items.length : Int) (before - w.base)).toNat
      else w.items.length) :
    w.entries.drop (w.items.length - top) =
      w.entries.filter fun e => decide (before = 0 ∨ e.1 < before) := by
  rw [Window.entries_drop]
  apply List.filter_congr
  intro e he
  obtain ⟨hbase, hlt⟩ := Window.at?_bounds (Window.mem_entries.mp he)
  apply decide_eq_decide.mpr
  unfold Window.top at hlt ⊢
  split at htop <;> omega

/-- A page is the next matching records below the one before it. -/
theorem searchRequests_eq {before : Int} (hbefore : before = 0 ∨ 1 ≤ before ∧ before ≤ 2 ^ 62)
    (limit : Int) :
    (searchRequests matching before limit count w).rows =
        (below matching before w).take (pageSize limit) ∧
      (searchRequests matching before limit count w).next =
        if pageSize limit < (below matching before w).length
        then (((below matching before w).take (pageSize limit)).getLast?.map Prod.fst).getD 0 else 0 := by
  have hclamp : clampInt (-(2 ^ 62)) (2 ^ 62) before = before := by
    unfold clampInt
    omega
  obtain ⟨hone, hmax⟩ := pageSize_bounds limit
  have hscan : scan matching (pageSize limit) count
      (w.entries.drop (w.items.length - if before ≠ 0 then
        (min (w.items.length : Int) (before - w.base)).toNat else w.items.length)) [] 0 =
      (below matching before w).take (pageSize limit + 1) := by
    rw [scan_eq (by unfold requestCountCap; omega) (by simp), candidates_eq rfl, List.filter_filter,
      List.nil_append, below]
    simp only [Bool.and_comm]
  have hrows : (searchRequests matching before limit count w).rows =
      (below matching before w).take (pageSize limit) := by
    unfold searchRequests
    rw [hclamp]
    dsimp only
    rw [← pageSize, hscan, List.take_take, min_eq_left (Nat.le_succ _)]
  refine ⟨hrows, ?_⟩
  have hmore : pageSize limit < ((below matching before w).take (pageSize limit + 1)).length ↔
      pageSize limit < (below matching before w).length := by
    rw [List.length_take]
    omega
  unfold searchRequests
  rw [hclamp]
  dsimp only
  rw [← pageSize, hscan, List.take_take, min_eq_left (Nat.le_succ _)]
  simp only [hmore]

end Paging

/-- The buffer never holds more than a budget allows, which keeps its ids away from 0. -/
structure Bounded (b : LiveBuffer α) : Prop where
  items : b.items.length ≤ b.maxRecords
  max : b.maxRecords ≤ liveBudgetMaxRecords
  default : b.defaultRecords ≤ liveBudgetMaxRecords

end LiveBuffer

namespace BufferOp

variable {α : Type} {shape : RecordShape α}

/-- The window with what an operation brings in. -/
def insert : BufferOp α → Window α → Window α
  | extend records, w => w.append records
  | refill records, w => w.prepend records
  | setBudget _, w => w

theorem bounded_trim {newest : Option α} {b : LiveBuffer α} (hmax : b.maxRecords ≤ liveBudgetMaxRecords)
    (hdefault : b.defaultRecords ≤ liveBudgetMaxRecords) : (b.trim shape newest).Bounded := by
  obtain ⟨n, -, hwindow, hlen⟩ := LiveBuffer.trim_window shape newest b
  refine ⟨?_, hmax, hdefault⟩
  rw [hwindow, Window.dropFront, List.length_drop]
  exact hlen

variable (shape) in
/-- An operation brings its records in and drops some at the front. -/
theorem apply_window (op : BufferOp α) {b : LiveBuffer α} (hb : b.Bounded) :
    (∃ n ≤ (op.insert b.toWindow).items.length,
      (op.apply shape b).toWindow = (op.insert b.toWindow).dropFront n) ∧ (op.apply shape b).Bounded := by
  cases op with
  | extend records =>
    simp only [apply, insert, LiveBuffer.extend]
    split
    · rename_i hnone
      obtain rfl := List.getLast?_eq_none_iff.mp hnone
      refine ⟨⟨0, Nat.zero_le _, ?_⟩, hb⟩
      rw [Window.dropFront_zero, Window.append_nil]
    · obtain ⟨n, hn, hwindow, -⟩ := LiveBuffer.trim_window shape (some _)
        { b with toWindow := b.toWindow.append records, bytes := b.bytes + LiveBuffer.sizeOf shape records }
      exact ⟨⟨n, hn, hwindow⟩, bounded_trim hb.max hb.default⟩
  | refill records =>
    simp only [apply, insert, LiveBuffer.refill]
    split
    · rename_i hnil
      obtain rfl := List.isEmpty_iff.mp hnil
      refine ⟨⟨0, Nat.zero_le _, ?_⟩, hb⟩
      rw [Window.dropFront_zero, Window.prepend_nil]
    · obtain ⟨n, hn, hwindow, -⟩ := LiveBuffer.trim_window shape none
        { b with toWindow := b.toWindow.prepend records, bytes := b.bytes + LiveBuffer.sizeOf shape records }
      exact ⟨⟨n, hn, hwindow⟩, bounded_trim hb.max hb.default⟩
  | setBudget maxBytes =>
    simp only [apply, insert, LiveBuffer.setBudget]
    split
    · obtain ⟨n, hn, hwindow, -⟩ := LiveBuffer.trim_window shape b.items.getLast?
        { b with maxBytes := maxBytes, maxRecords := liveBudgetMaxRecords, maxSeconds := liveBudgetMaxSeconds }
      exact ⟨⟨n, hn, hwindow⟩, bounded_trim le_rfl hb.default⟩
    · obtain ⟨n, hn, hwindow, -⟩ := LiveBuffer.trim_window shape b.items.getLast?
        { b with maxBytes := 0, maxRecords := b.defaultRecords, maxSeconds := b.defaultSeconds }
      exact ⟨⟨n, hn, hwindow⟩, bounded_trim hb.default hb.default⟩

end BufferOp

end EasyHaProxy.Guardd
