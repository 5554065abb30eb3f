import EasyHaProxy.Guardd.AccessLog
import EasyHaProxy.Guardd.LiveBuffer
import EasyHaProxy.Lib.Machine

/-! `_bytes` is kept as records come in at both ends and go for count, budget and age, and the limits
themselves change between two calls. -/
namespace EasyHaProxy.Guardd

def liveRecordBaseBytes : Nat := 230
def liveStringBytes : Nat := 49

/-- A live record. One from before the log had them lacks the last fields. -/
structure LiveRecord where
  ts : ℚ
  ip : Ip
  status : Int
  host : String
  path : String
  method : String
  backend : String
  bytesOut : Int
  durationMs : Int
  term : String
  reason : String
  refusal : Option Refusal
  responseMs : Option Int := none
  times : Option String := none
  requestId : Option String := none
  agent : Option String := none

/-- `text[:count]` -/
def textPrefix (count : Nat) (text : String) : String := String.ofList (text.toList.take count)

/-- `live_record` -/
def liveRecord (request : ParsedRequest) (ts : ℚ) : LiveRecord where
  ts := ts
  ip := request.clientIp
  status := request.status
  host := request.host
  path := if request.badRequest then "<BADREQ>" else textPrefix 200 request.path
  method := request.method
  backend := request.backend
  bytesOut := request.bytesOut
  durationMs := request.durationMs
  term := request.term
  reason := request.banReason
  refusal := request.refusal
  responseMs := some request.responseMs
  times := some request.times
  requestId := some request.requestId
  agent := some (textPrefix 200 request.userAgent)

namespace LiveRecord

/-- `_LIVE_OWN_FIELDS`, those the record has. -/
def ownFields (r : LiveRecord) : List String :=
  [r.ip, r.path, r.reason] ++ r.times.toList ++ r.requestId.toList

def ownBytes (value : String) : Nat := if value = "" then 0 else liveStringBytes + value.length

/-- `live_record_bytes` -/
def bytes (r : LiveRecord) : Nat :=
  r.ownFields.foldl (fun size value => size + ownBytes value) liveRecordBaseBytes

/-- `records[0][L_TS] < newest - self.max_seconds` -/
def expired (newest : LiveRecord) (maxSeconds : Int) (r : LiveRecord) : Bool :=
  r.ts < newest.ts - maxSeconds

def shape : RecordShape LiveRecord where
  size := bytes
  expired := expired

end LiveRecord

namespace LiveBuffer

variable {α : Type} {shape : RecordShape α} {b : LiveBuffer α}

/-- `LiveBuffer(max_records, max_seconds)` -/
def create (maxRecords maxSeconds : Int) : LiveBuffer α where
  base := firstBase
  items := []
  bytes := 0
  maxRecords := (max 1 maxRecords).toNat
  maxSeconds := max 60 maxSeconds
  maxBytes := 0
  defaultRecords := (max 1 maxRecords).toNat
  defaultSeconds := max 60 maxSeconds
  evictedForSize := 0

/-- The daemon makes its buffer from what `load_config` has clamped. -/
theorem init_eq_create (liveBufferRecords liveBufferSeconds : Int) :
    (init liveBufferRecords liveBufferSeconds : LiveBuffer α) =
      create (clampInt 0 1000000 liveBufferRecords) (clampInt 60 (6 * 3600) liveBufferSeconds) := rfl

/-! ## What is left after records go -/

theorem sizeOf_cons (record : α) (rest : List α) :
    sizeOf shape (record :: rest) = shape.size record + sizeOf shape rest := by
  simp [sizeOf]

theorem sizeOf_append (older newer : List α) :
    sizeOf shape (older ++ newer) = sizeOf shape older + sizeOf shape newer := by
  simp [sizeOf]

theorem sizeOf_nonneg (records : List α) : 0 ≤ sizeOf shape records := by
  induction records with
  | nil => exact le_refl 0
  | cons record rest ih =>
    rw [sizeOf_cons]
    omega

theorem sizeDrops_bytes (records : List α) :
    (sizeDrops shape b records (sizeOf shape records)).2 =
      sizeOf shape (records.drop (sizeDrops shape b records (sizeOf shape records)).1) := by
  induction records with
  | nil => rfl
  | cons record rest ih =>
    unfold sizeDrops
    split
    · have hleft : sizeOf shape (record :: rest) - shape.size record = sizeOf shape rest := by
        rw [sizeOf_cons]
        omega
      rw [hleft]
      exact ih
    · rfl

theorem ageDrops_bytes (newest : α) (maxSeconds : Int) (records : List α) :
    (ageDrops shape newest maxSeconds records (sizeOf shape records)).2 =
      sizeOf shape (records.drop (ageDrops shape newest maxSeconds records (sizeOf shape records)).1) := by
  induction records with
  | nil => rfl
  | cons record rest ih =>
    unfold ageDrops
    split
    · have hleft : sizeOf shape (record :: rest) - shape.size record = sizeOf shape rest := by
        rw [sizeOf_cons]
        omega
      rw [hleft]
      exact ih
    · rfl

theorem expiredDrops_bytes (newest : Option α) (maxSeconds : Int) (records : List α) :
    (expiredDrops shape newest maxSeconds records (sizeOf shape records)).2 =
      sizeOf shape (records.drop (expiredDrops shape newest maxSeconds records (sizeOf shape records)).1) := by
  cases newest with
  | none => rfl
  | some newest => exact ageDrops_bytes newest maxSeconds records

/-- Nothing is left, or what is left is within the budget. -/
theorem sizeDrops_fits (hb : b.maxBytes ≠ 0) (records : List α) (bytes : Int) :
    (sizeDrops shape b records bytes).1 = records.length ∨ (sizeDrops shape b records bytes).2 ≤ b.maxBytes := by
  induction records generalizing bytes with
  | nil => exact Or.inl rfl
  | cons record rest ih =>
    unfold sizeDrops
    split
    · rcases ih (bytes - shape.size record) with hall | hfits
      · left
        simp only [List.length_cons]
        omega
      · exact Or.inr hfits
    · right
      dsimp only
      omega

theorem sizeOf_drop_le (n : Nat) (records : List α) : sizeOf shape (records.drop n) ≤ sizeOf shape records := by
  have hsplit : sizeOf shape records = sizeOf shape (records.take n) + sizeOf shape (records.drop n) := by
    rw [← sizeOf_append, List.take_append_drop]
  have hnonneg : 0 ≤ sizeOf shape (records.take n) := sizeOf_nonneg _
  omega

variable (shape) in
structure Accounted (b : LiveBuffer α) : Prop where
  bytes : b.bytes = sizeOf shape b.items
  count : b.items.length ≤ b.maxRecords
  budget : 0 < b.maxBytes → b.bytes ≤ b.maxBytes
  nonneg : 0 ≤ b.maxBytes

/-- Trimming settles the account, whatever the limits were before. -/
theorem accounted_trim (hbytes : b.bytes = sizeOf shape b.items) (hb : 0 ≤ b.maxBytes) (newest : Option α) :
    Accounted shape (trim shape newest b) := by
  obtain ⟨dropped, hdropped⟩ : ∃ n, n = (sizeDrops shape b b.items b.bytes).1 := ⟨_, rfl⟩
  obtain ⟨expired, hexpired⟩ : ∃ n, n = (expiredDrops shape newest b.maxSeconds (b.items.drop dropped)
    (sizeDrops shape b b.items b.bytes).2).1 := ⟨_, rfl⟩
  have hleft : (sizeDrops shape b b.items b.bytes).2 = sizeOf shape (b.items.drop dropped) := by
    rw [hdropped, hbytes]
    exact sizeDrops_bytes b.items
  have hkept : (trim shape newest b).items = (b.items.drop dropped).drop expired := by
    rw [hexpired, hdropped]
    rfl
  have hsum : (trim shape newest b).bytes = sizeOf shape (trim shape newest b).items := by
    have heq : (trim shape newest b).bytes = if (trim shape newest b).items.isEmpty then 0 else
        (expiredDrops shape newest b.maxSeconds (b.items.drop dropped)
          (sizeDrops shape b b.items b.bytes).2).2 := by
      rw [hdropped]
      rfl
    rw [heq]
    split
    next hempty =>
      rw [List.isEmpty_iff.mp hempty]
      rfl
    next =>
      rw [hkept, hexpired, hleft]
      exact expiredDrops_bytes newest b.maxSeconds (b.items.drop dropped)
  obtain ⟨n, hn, hwindow, hlen⟩ := trim_window shape newest b
  refine ⟨hsum, ?_, ?_, hb⟩
  · rw [hwindow, Window.dropFront, List.length_drop]
    exact hlen
  · intro hpos
    rw [hsum, hkept]
    refine le_trans (sizeOf_drop_le expired _) ?_
    have hset : 0 < b.maxBytes := hpos
    rcases @sizeDrops_fits _ shape b hset.ne' b.items b.bytes with hall | hfits
    · rw [hdropped, hall, List.drop_length]
      exact hb
    · rw [← hleft]
      exact hfits

theorem accounted_create (maxRecords maxSeconds : Int) :
    Accounted shape (create maxRecords maxSeconds : LiveBuffer α) :=
  ⟨rfl, Nat.zero_le _, fun h => h.le, le_refl 0⟩

end LiveBuffer

namespace BufferOp

variable {α : Type} {shape : RecordShape α} {b : LiveBuffer α}

open LiveBuffer

/-- Each operation brings its records to account and trims. -/
theorem accounted_apply (h : Accounted shape b) (op : BufferOp α) : Accounted shape (op.apply shape b) := by
  cases op with
  | extend records =>
    simp only [apply, LiveBuffer.extend]
    split
    · exact h
    · refine accounted_trim ?_ ?_ _
      · dsimp only [Window.append]
        rw [sizeOf_append, h.bytes]
      · exact h.nonneg
  | refill records =>
    simp only [apply, LiveBuffer.refill]
    split
    · exact h
    · refine accounted_trim ?_ ?_ _
      · dsimp only [Window.prepend]
        rw [sizeOf_append, h.bytes, add_comm]
      · exact h.nonneg
  | setBudget maxBytes =>
    simp only [apply, LiveBuffer.setBudget]
    split
    next hpos =>
      refine accounted_trim ?_ ?_ _
      · exact h.bytes
      · exact hpos.le
    next =>
      refine accounted_trim ?_ ?_ _
      · exact h.bytes
      · exact le_refl (0 : Int)

theorem accounted_run (h : Accounted shape b) (ops : List (BufferOp α)) :
    Accounted shape (Machine.run (fun b op => op.apply shape b) b ops) := by
  induction ops generalizing b with
  | nil => exact h
  | cons op ops ih => exact ih (accounted_apply h op)

end BufferOp

namespace LiveBuffer

/-- After any operations with any records, `_bytes` is what the records held take, they are no more than
the count allows, and they are within the budget where there is one. -/
theorem memory_accounted (maxRecords maxSeconds : Int) (ops : List (BufferOp LiveRecord)) :
    let b := Machine.run (fun b op => op.apply LiveRecord.shape b) (create maxRecords maxSeconds) ops
    b.bytes = (b.items.map fun r => (r.bytes : Int)).sum ∧ b.items.length ≤ b.maxRecords ∧
      (0 < b.maxBytes → b.bytes ≤ b.maxBytes) := by
  have h : Accounted LiveRecord.shape (create maxRecords maxSeconds : LiveBuffer LiveRecord) :=
    accounted_create maxRecords maxSeconds
  have hrun := BufferOp.accounted_run h ops
  exact ⟨hrun.bytes, hrun.count, hrun.budget⟩

end LiveBuffer

end EasyHaProxy.Guardd
