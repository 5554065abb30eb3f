import EasyHaProxy.Lib.Descending
import EasyHaProxy.Lib.Machine
import EasyHaProxy.Guardd.LiveBuffer

/-! A reader follows `next` from page to page while records arrive, are read back and are dropped. -/
namespace EasyHaProxy.Guardd.LivePages

open LiveBuffer

/-- A record and the number it came in with. -/
structure Object (ρ : Type) where
  record : ρ
  serial : Nat

variable {ρ : Type}

def RecordShape.ofObjects (shape : RecordShape ρ) : RecordShape (Object ρ) where
  size o := shape.size o.record
  expired newest maxSeconds o := shape.expired newest.record maxSeconds o.record

/-- Records numbered from `serial` on. -/
def number (serial : Nat) (records : List ρ) : List (Object ρ) :=
  records.mapIdx fun i record => ⟨record, serial + i⟩

def numberOp (serial : Nat) : BufferOp ρ → BufferOp (Object ρ)
  | .extend records => .extend (number serial records)
  | .refill records => .refill (number serial records)
  | .setBudget maxBytes => .setBudget maxBytes

/-- A page as it was read, and what the buffer held then. -/
structure Visit (ρ : Type) where
  window : Window (Object ρ)
  before : Int
  page : Page (Object ρ)

/-- The page is the one on which a record of this id belongs. -/
def Visit.Reaches (v : Visit ρ) (id : Int) : Prop :=
  (v.before = 0 ∨ id < v.before) ∧ (v.page.next = 0 ∨ v.page.next ≤ id)

structure World (ρ : Type) where
  buffer : LiveBuffer (Object ρ)
  serial : Nat := 0
  /-- Where the reader goes on; `none` once a page has said that there is nothing further. -/
  before : Option Int := some 0
  visits : List (Visit ρ) := []

inductive Event (ρ : Type)
  | op (op : BufferOp ρ)
  | page (limit : Int) (count : Bool)

/-- The reader has this page and goes on where it says. -/
def World.turn (before : Int) (page : Page (Object ρ)) (w : World ρ) : World ρ :=
  { w with
    before := if page.next = 0 then none else some page.next
    visits := w.visits ++ [⟨w.buffer.toWindow, before, page⟩] }

section Run

variable (shape : RecordShape ρ) (matching : ρ → Bool)

def step (w : World ρ) : Event ρ → World ρ
  | .op op =>
    { w with
      buffer := (numberOp w.serial op).apply (RecordShape.ofObjects shape) w.buffer
      serial := w.serial + op.arrivals.length + op.readBack.length }
  | .page limit count =>
    match w.before with
    | none => w
    | some before =>
      w.turn before (searchRequests (fun o => matching o.record) before limit count w.buffer.toWindow)

def init (liveBufferRecords liveBufferSeconds : Int) : World ρ where
  buffer := LiveBuffer.init liveBufferRecords liveBufferSeconds

/-- What has arrived on the right. -/
def arrived : List (Event ρ) → Nat
  | [] => 0
  | .op op :: rest => op.arrivals.length + arrived rest
  | .page _ _ :: rest => arrived rest

def World.rows (w : World ρ) : List (Int × Object ρ) := w.visits.flatMap (·.page.rows)

/-- The reader is past an id: nothing further can come, or only what is below it. -/
def World.Past (w : World ρ) (id : Int) : Prop :=
  w.before = none ∨ ∃ before, w.before = some before ∧ before ≠ 0 ∧ before ≤ id

end Run

/-! ## Ids -/

/-- Every object of a window stands where its label says, and has come in already. -/
def Labelled (ids : Nat → Int) (serial : Nat) (w : Window (Object ρ)) : Prop :=
  ∀ x o, w.at? x = some o → ids o.serial = x ∧ o.serial < serial

variable {shape : RecordShape ρ} {matching : ρ → Bool} {ids : Nat → Int} {serial : Nat}
  {w : World ρ} {op : BufferOp ρ}

theorem getElem?_number {records : List ρ} {i : Nat} {o : Object ρ}
    (h : (number serial records)[i]? = some o) : o.serial = serial + i ∧ i < records.length := by
  rw [number, List.getElem?_mapIdx] at h
  obtain ⟨record, hrecord, rfl⟩ := Option.map_eq_some_iff.mp h
  exact ⟨rfl, (List.getElem?_eq_some_iff.mp hrecord).1⟩

/-- New objects get the ids they stand at; the others keep theirs. -/
theorem labelled_insert {win : Window (Object ρ)} (h : Labelled ids serial win) (op : BufferOp ρ) :
    ∃ ids', (∀ n < serial, ids' n = ids n) ∧
      Labelled ids' (serial + op.arrivals.length + op.readBack.length) ((numberOp serial op).insert win) := by
  cases op with
  | extend records =>
    refine ⟨fun n => if n < serial then ids n else win.top + (n - serial : Nat), by simp +contextual, ?_⟩
    intro x o ho
    rcases Window.at?_append ho with hold | ⟨i, hi, rfl⟩
    · obtain ⟨hid, hlt⟩ := h x o hold
      exact ⟨by simpa [hlt] using hid, by omega⟩
    · obtain ⟨hserial, hlt⟩ := getElem?_number hi
      refine ⟨?_, by simp only [BufferOp.arrivals]; omega⟩
      dsimp only
      rw [if_neg (by omega), hserial, Nat.add_sub_cancel_left]
  | refill records =>
    refine ⟨fun n => if n < serial then ids n else
      win.base - (number serial records).length + (n - serial : Nat), by simp +contextual, ?_⟩
    intro x o ho
    rcases Window.at?_prepend ho with hold | ⟨i, hi, rfl⟩
    · obtain ⟨hid, hlt⟩ := h x o hold
      exact ⟨by simpa [hlt] using hid, by omega⟩
    · obtain ⟨hserial, hlt⟩ := getElem?_number hi
      refine ⟨?_, by simp only [BufferOp.readBack]; omega⟩
      dsimp only
      rw [if_neg (by omega), hserial, Nat.add_sub_cancel_left]
  | setBudget maxBytes => exact ⟨ids, fun _ _ => rfl, h⟩

theorem Labelled.mono {win : Window (Object ρ)} {ids' : Nat → Int} {serial' : Nat}
    (h : Labelled ids serial win) (hsame : ∀ n < serial, ids' n = ids n) (hle : serial ≤ serial') :
    Labelled ids' serial' win := by
  intro x o ho
  obtain ⟨hid, hlt⟩ := h x o ho
  exact ⟨by rw [hsame _ hlt, hid], by omega⟩

theorem Labelled.unique {win win' : Window (Object ρ)} {x y : Int} {o o' : Object ρ}
    (h : Labelled ids serial win) (h' : Labelled ids serial win') (ho : win.at? x = some o)
    (ho' : win'.at? y = some o') (hs : o.serial = o'.serial) : x = y := by
  rw [← (h x o ho).1, ← (h' y o' ho').1, hs]

/-! ## One page -/

section Page

variable {win : Window (Object ρ)} {before : Int} {limit : Int} {count : Bool} {m : Object ρ → Bool}

theorem mem_below {e : Int × Object ρ} : e ∈ below m before win ↔
    win.at? e.1 = some e.2 ∧ (before = 0 ∨ e.1 < before) ∧ m e.2 = true := by
  simp [below, Window.mem_entries]

theorem below_decreasing : (below m before win).Pairwise (fun e e' => e'.1 < e.1) :=
  Window.entries_decreasing.filter _

/-- What a page holds and where it leaves off, in a buffer whose ids are positive. -/
structure PageOrder (win : Window (Object ρ)) (before : Int) (page : Page (Object ρ)) : Prop where
  sound : ∀ e ∈ page.rows, win.at? e.1 = some e.2 ∧ (before = 0 ∨ e.1 < before)
  decreasing : page.rows.Pairwise (fun e e' => e'.1 < e.1)
  next : page.next ≠ 0 → 1 ≤ page.next ∧ page.next < win.top ∧ (before = 0 ∨ page.next < before) ∧
    ∀ e ∈ page.rows, page.next ≤ e.1

/-- And it leaves nothing out. -/
structure PageFacts (m : Object ρ → Bool) (win : Window (Object ρ)) (before : Int) (page : Page (Object ρ)) : Prop
    extends PageOrder win before page where
  complete : ∀ x o, win.at? x = some o → m o = true → (before = 0 ∨ x < before) →
    (page.next = 0 ∨ page.next ≤ x) → (x, o) ∈ page.rows

/-- The page that leaves rows behind ends in the smallest id it shows. -/
theorem take_last {k : Nat} (hk : 1 ≤ k) (hmore : k < (below m before win).length) :
    ∃ last, ((below m before win).take k).getLast? = some last ∧ last ∈ (below m before win).take k ∧
      (∀ e ∈ (below m before win).take k, last.1 ≤ e.1) ∧
      ∀ e ∈ (below m before win).drop k, e.1 < last.1 := by
  have hdec : Descending.Sorted Prod.fst (below m before win) := below_decreasing
  obtain ⟨last, hlast, hin, htake⟩ := hdec.take_last hk hmore
  have hmem : last ∈ (below m before win).take k := by
    rw [htake, List.mem_filter]
    exact ⟨hin, by simp⟩
  refine ⟨last, hlast, hmem, ?_, ?_⟩
  · intro e he
    rw [htake, List.mem_filter] at he
    simpa using he.2
  · intro e he
    rw [Descending.Sorted, ← List.take_append_drop k (below m before win), List.pairwise_append] at hdec
    exact hdec.2.2 last hmem e he

theorem pageFacts (hbase : 1 ≤ win.base) (hbefore : before = 0 ∨ 1 ≤ before ∧ before ≤ 2 ^ 62) :
    PageFacts m win before (searchRequests m before limit count win) := by
  obtain ⟨hrows, hnext⟩ : (searchRequests m before limit count win).rows =
        (below m before win).take (pageSize limit) ∧ _ := searchRequests_eq hbefore limit
  obtain ⟨hone, -⟩ := pageSize_bounds limit
  have hsound : ∀ e ∈ (below m before win).take (pageSize limit),
      win.at? e.1 = some e.2 ∧ (before = 0 ∨ e.1 < before) := fun e he =>
    let h := mem_below.mp (List.mem_of_mem_take he)
    ⟨h.1, h.2.1⟩
  by_cases hmore : pageSize limit < (below m before win).length
  · obtain ⟨last, hlast, hmem, hsmallest, hrest⟩ := take_last hone hmore
    rw [if_pos hmore, hlast] at hnext
    have hlow : 1 ≤ last.1 ∧ last.1 < win.top := by
      obtain ⟨hle, hlt⟩ := Window.at?_bounds (hsound last hmem).1
      omega
    refine ⟨⟨hrows ▸ hsound, hrows ▸ below_decreasing.sublist (List.take_sublist _ _), ?_⟩, ?_⟩
    · intro _
      rw [hnext, hrows]
      exact ⟨hlow.1, hlow.2, (hsound last hmem).2, hsmallest⟩
    · intro x o hx ho hbelow hreach
      rw [hnext] at hreach
      have hin : (x, o) ∈ below m before win := mem_below.mpr ⟨hx, hbelow, ho⟩
      rw [← List.take_append_drop (pageSize limit) (below m before win), List.mem_append] at hin
      rcases hin with hin | hin
      · rwa [hrows]
      · have := hrest _ hin
        dsimp only [Option.map_some, Option.getD_some] at hreach this
        omega
  · rw [if_neg hmore] at hnext
    refine ⟨⟨hrows ▸ hsound, hrows ▸ below_decreasing.sublist (List.take_sublist _ _),
      fun hne => absurd hnext hne⟩, ?_⟩
    intro x o hx ho hbelow _
    rw [hrows, List.take_of_length_le (not_lt.mp hmore)]
    exact mem_below.mpr ⟨hx, hbelow, ho⟩

/-- A number past the clamp asks for the page below the clamp. -/
theorem searchRequests_clamped (h : 2 ^ 62 < before) :
    searchRequests m before limit count win = searchRequests m (2 ^ 62) limit count win := by
  have hclamp : clampInt (-(2 ^ 62)) (2 ^ 62) before = clampInt (-(2 ^ 62)) (2 ^ 62) (2 ^ 62) := by
    unfold clampInt
    omega
  simp only [searchRequests, hclamp]

theorem pageOrder (hbase : 1 ≤ win.base) (hbefore : before = 0 ∨ 1 ≤ before) :
    PageOrder win before (searchRequests m before limit count win) := by
  by_cases hle : before ≤ 2 ^ 62
  · exact (pageFacts hbase (hbefore.imp_right fun h => ⟨h, hle⟩)).toPageOrder
  · have hlt : (2 : Int) ^ 62 < before := not_le.mp hle
    rw [searchRequests_clamped hlt]
    obtain ⟨hsound, hdec, hnext⟩ : PageOrder win (2 ^ 62) (searchRequests m (2 ^ 62) limit count win) :=
      (pageFacts hbase (Or.inr ⟨by decide, le_rfl⟩)).toPageOrder
    refine ⟨fun e he => ⟨(hsound e he).1, Or.inr ?_⟩, hdec, fun hne => ?_⟩
    · exact ((hsound e he).2.resolve_left (by decide)).trans hlt
    · obtain ⟨hone, htop, hless, hrows⟩ := hnext hne
      exact ⟨hone, htop, Or.inr ((hless.resolve_left (by decide)).trans hlt), hrows⟩

end Page

/-! ## The run -/

/-- What holds of the reader and the buffer after any events. -/
structure Paged (w : World ρ) : Prop where
  bounded : w.buffer.Bounded
  labelled : ∃ ids, Labelled ids w.serial w.buffer.toWindow ∧ ∀ v ∈ w.visits, Labelled ids w.serial v.window
  start : w.before = some 0 → w.visits = []
  going : ∀ before, w.before = some before → before ≠ 0 →
    1 ≤ before ∧ w.visits ≠ [] ∧ ∀ e ∈ w.rows, before ≤ e.1
  sound : ∀ v ∈ w.visits, ∀ e ∈ v.page.rows, v.window.at? e.1 = some e.2
  decreasing : w.rows.Pairwise (fun e e' => e'.1 < e.1)

/-- And while no id is past the clamp. -/
structure Inv (matching : ρ → Bool) (w : World ρ) : Prop extends Paged w where
  clamped : ∀ before, w.before = some before → before ≤ 2 ^ 62
  complete : ∀ v ∈ w.visits, ∀ x o, v.window.at? x = some o → matching o.record = true → v.Reaches x →
    (x, o) ∈ v.page.rows
  reached : w.visits ≠ [] → ∀ x, w.Past x → ∃ v ∈ w.visits, v.Reaches x

variable {win : Window (Object ρ)}

variable (shape matching) in
/-- An operation on the buffer leaves every object at its id. -/
theorem labelled_apply (hb : w.buffer.Bounded) (h : Labelled ids w.serial w.buffer.toWindow)
    (op : BufferOp ρ) :
    ∃ ids', (∀ n < w.serial, ids' n = ids n) ∧
      Labelled ids' (step shape matching w (.op op)).serial (step shape matching w (.op op)).buffer.toWindow := by
  obtain ⟨ids', hsame, hlabel⟩ := labelled_insert h op
  obtain ⟨⟨n, -, hwindow⟩, -⟩ :=
    (numberOp w.serial op).apply_window (RecordShape.ofObjects shape) hb
  refine ⟨ids', hsame, ?_⟩
  intro x o ho
  apply hlabel
  simp only [step, hwindow] at ho
  exact Window.at?_dropFront ho

theorem top_apply (hb : w.buffer.Bounded) (op : BufferOp ρ) :
    (step shape matching w (.op op)).buffer.top = w.buffer.top + op.arrivals.length := by
  obtain ⟨⟨n, hn, hwindow⟩, -⟩ :=
    (numberOp w.serial op).apply_window (RecordShape.ofObjects shape) hb
  simp only [step]
  rw [hwindow, Window.top_dropFront hn]
  cases op with
  | extend records => simp [numberOp, BufferOp.insert, BufferOp.arrivals, number]
  | refill records => simp [numberOp, BufferOp.insert, BufferOp.arrivals]
  | setBudget maxBytes => simp [numberOp, BufferOp.insert, BufferOp.arrivals]

theorem paged_op (h : Paged w) (op : BufferOp ρ) : Paged (step shape matching w (.op op)) := by
  obtain ⟨ids, hbuffer, hvisits⟩ := h.labelled
  obtain ⟨ids', hsame, hlabel⟩ := labelled_apply shape matching h.bounded hbuffer op
  refine ⟨?_, ⟨ids', hlabel, ?_⟩, h.start, h.going, h.sound, h.decreasing⟩
  · exact ((numberOp w.serial op).apply_window _ h.bounded).2
  · intro v hv
    exact (hvisits v hv).mono hsame (by simp only [step]; omega)

/-- Ids stay away from 0. -/
theorem base_pos (hb : w.buffer.Bounded) (htop : firstBase ≤ w.buffer.top) : 1 ≤ w.buffer.base := by
  have hlen := hb.items.trans hb.max
  unfold liveBudgetMaxRecords at hlen
  unfold firstBase Window.top at htop
  omega

theorem rows_turn {before : Int} {page : Page (Object ρ)} :
    (w.turn before page).rows = w.rows ++ page.rows := by
  simp [World.turn, World.rows]

theorem before_turn {before b : Int} {page : Page (Object ρ)} (h : (w.turn before page).before = some b) :
    page.next ≠ 0 ∧ b = page.next := by
  simp only [World.turn] at h
  split at h
  · cases h
  · rename_i hne
    exact ⟨hne, (Option.some.inj h).symm⟩

theorem past_turn {before x : Int} {page : Page (Object ρ)} (h : (w.turn before page).Past x) :
    page.next = 0 ∨ page.next ≤ x := by
  rcases h with hnone | ⟨b, hb, -, hle⟩
  · simp only [World.turn] at hnone
    split at hnone
    · rename_i h0
      exact Or.inl h0
    · cases hnone
  · obtain ⟨-, rfl⟩ := before_turn hb
    exact Or.inr hle

theorem visit_turn {before : Int} {page : Page (Object ρ)} {P : Visit ρ → Prop} (hold : ∀ v ∈ w.visits, P v)
    (hnew : P ⟨w.buffer.toWindow, before, page⟩) : ∀ v ∈ (w.turn before page).visits, P v := by
  intro v hv
  rcases List.mem_append.mp hv with hv | hv
  · exact hold v hv
  · rwa [List.mem_singleton.mp hv]

theorem paged_turn (h : Paged w) {before : Int} (hbefore : w.before = some before) {page : Page (Object ρ)}
    (hpage : PageOrder w.buffer.toWindow before page) : Paged (w.turn before page) := by
  -- The rows so far are above where this page began.
  have habove : ∀ e ∈ w.rows, before ≠ 0 ∧ before ≤ e.1 := by
    intro e he
    by_cases h0 : before = 0
    · rw [World.rows, h.start (h0 ▸ hbefore)] at he
      cases he
    · exact ⟨h0, (h.going before hbefore h0).2.2 e he⟩
  refine ⟨h.bounded, ?_, ?_, ?_, visit_turn h.sound fun e he => (hpage.sound e he).1, ?_⟩
  · obtain ⟨ids, hbuffer, hvisits⟩ := h.labelled
    exact ⟨ids, hbuffer, visit_turn hvisits hbuffer⟩
  · intro h0
    obtain ⟨hne, heq⟩ := before_turn h0
    exact absurd heq.symm hne
  · intro b hb _
    obtain ⟨hne, rfl⟩ := before_turn hb
    obtain ⟨hone, -, hless, hle⟩ := hpage.next hne
    refine ⟨hone, by simp [World.turn], ?_⟩
    intro e he
    rw [rows_turn] at he
    rcases List.mem_append.mp he with he | he
    · obtain ⟨h0, hge⟩ := habove e he
      have := hless.resolve_left h0
      omega
    · exact hle e he
  · rw [rows_turn, List.pairwise_append]
    refine ⟨h.decreasing, hpage.decreasing, ?_⟩
    intro e he e' he'
    obtain ⟨h0, hge⟩ := habove e he
    have := (hpage.sound e' he').2.resolve_left h0
    omega

theorem inv_turn (h : Inv matching w) (hmax : w.buffer.top ≤ 2 ^ 62 + 1) {before : Int}
    (hbefore : w.before = some before) {page : Page (Object ρ)}
    (hpage : PageFacts (fun o => matching o.record) w.buffer.toWindow before page) :
    Inv matching (w.turn before page) := by
  refine ⟨paged_turn h.toPaged hbefore hpage.toPageOrder, ?_, visit_turn h.complete ?_, ?_⟩
  · intro b hb
    obtain ⟨hne, rfl⟩ := before_turn hb
    have := (hpage.next hne).2.1
    omega
  · intro x o hx ho hreach
    exact hpage.complete x o hx ho hreach.1 hreach.2
  · -- This page reaches the ids below where it began; an earlier one has reached the others.
    intro _ x hpast
    by_cases hhere : before = 0 ∨ x < before
    · exact ⟨⟨w.buffer.toWindow, before, page⟩, by simp [World.turn], hhere, past_turn hpast⟩
    · obtain ⟨h0, hle⟩ := not_or.mp hhere
      obtain ⟨v, hv, hreach⟩ := h.reached (h.going before hbefore h0).2.1 x
        (Or.inr ⟨before, hbefore, h0, not_lt.mp hle⟩)
      exact ⟨v, List.mem_append_left _ hv, hreach⟩

theorem Paged.positive (h : Paged w) {before : Int} (hbefore : w.before = some before) :
    before = 0 ∨ 1 ≤ before := by
  by_cases h0 : before = 0
  · exact Or.inl h0
  · exact Or.inr (h.going before hbefore h0).1

theorem paged_step (h : Paged w) (htop : firstBase ≤ w.buffer.top) (e : Event ρ) :
    Paged (step shape matching w e) := by
  cases e with
  | op op => exact paged_op h op
  | page limit count =>
    simp only [step]
    split
    · exact h
    · rename_i before hbefore
      exact paged_turn h hbefore (pageOrder (base_pos h.bounded htop) (h.positive hbefore))

theorem inv_step (h : Inv matching w) (htop : firstBase ≤ w.buffer.top) (hmax : w.buffer.top ≤ 2 ^ 62 + 1)
    (e : Event ρ) : Inv matching (step shape matching w e) := by
  cases e with
  | op op => exact ⟨paged_op h.toPaged op, h.clamped, h.complete, h.reached⟩
  | page limit count =>
    simp only [step]
    split
    · exact h
    · rename_i before hbefore
      refine inv_turn h hmax hbefore (pageFacts (base_pos h.bounded htop) ?_)
      exact (h.positive hbefore).imp_right fun hone => ⟨hone, h.clamped before hbefore⟩

theorem inv_init (liveBufferRecords liveBufferSeconds : Int) :
    Inv matching (init liveBufferRecords liveBufferSeconds) := by
  have hlimit : (max 1 (clampInt 0 1000000 liveBufferRecords)).toNat ≤ liveBudgetMaxRecords := by
    unfold clampInt liveBudgetMaxRecords
    omega
  refine ⟨⟨⟨Nat.zero_le _, hlimit, hlimit⟩, ⟨fun _ => 0, ?_, ?_⟩, fun _ => rfl, ?_, ?_, ?_⟩, ?_, ?_, ?_⟩
  · intro x o ho
    obtain ⟨i, hi, -⟩ := Window.at?_eq_some.mp ho
    simp [init, LiveBuffer.init] at hi
  · intro v hv
    cases hv
  · intro before hbefore h0
    exact absurd (Option.some.inj hbefore).symm h0
  · intro v hv
    cases hv
  · exact List.Pairwise.nil
  · intro before hbefore
    cases hbefore
    decide
  · intro v hv
    cases hv
  · intro hne
    exact absurd rfl hne

theorem arrived_append (old new : List (Event ρ)) : arrived (old ++ new) = arrived old + arrived new := by
  induction old with
  | nil => simp [arrived]
  | cons e old ih =>
    cases e with
    | op op =>
      simp only [List.cons_append, arrived, ih]
      omega
    | page limit count => simpa only [List.cons_append, arrived] using ih

theorem top_step (hb : w.buffer.Bounded) (e : Event ρ) :
    (step shape matching w e).buffer.top = w.buffer.top + arrived [e] := by
  cases e with
  | op op =>
    rw [top_apply hb op]
    simp [arrived]
  | page limit count =>
    simp only [step]
    split <;> simp [arrived, World.turn]

variable (shape matching) in
/-- The newest id after any events, and what holds then. -/
theorem paged_run (liveBufferRecords liveBufferSeconds : Int) (events : List (Event ρ)) :
    Paged (Machine.run (step shape matching) (init liveBufferRecords liveBufferSeconds) events) ∧
      (Machine.run (step shape matching) (init liveBufferRecords liveBufferSeconds) events).buffer.top =
        firstBase + arrived events := by
  induction events using List.reverseRecOn with
  | nil => exact ⟨(inv_init _ _ : Inv matching _).toPaged, rfl⟩
  | append_singleton events e ih =>
    obtain ⟨hpaged, htop⟩ := ih
    rw [arrived_append, Machine.run_append, Machine.run_cons, Machine.run_nil]
    refine ⟨paged_step hpaged (by omega) e, ?_⟩
    rw [top_step hpaged.bounded, htop]
    push_cast
    omega

theorem inv_run (liveBufferRecords liveBufferSeconds : Int) {events : List (Event ρ)}
    (h : firstBase + arrived events ≤ 2 ^ 62 + 1) :
    Inv matching (Machine.run (step shape matching) (init liveBufferRecords liveBufferSeconds) events) := by
  induction events using List.reverseRecOn with
  | nil => exact inv_init _ _
  | append_singleton events e ih =>
    rw [arrived_append] at h
    obtain ⟨-, htop⟩ : Paged _ ∧ _ :=
      paged_run shape matching liveBufferRecords liveBufferSeconds events
    rw [Machine.run_append, Machine.run_cons, Machine.run_nil]
    exact inv_step (ih (by omega)) (by omega) (by omega) e

variable (shape matching) in
/-- A window of an earlier moment and the buffer of any later one label their objects alike. -/
theorem labelled_run (hb : w.buffer.Bounded) (hbuffer : Labelled ids w.serial w.buffer.toWindow)
    (hwin : Labelled ids w.serial win) (events : List (Event ρ)) :
    ∃ ids', Labelled ids' (Machine.run (step shape matching) w events).serial
        (Machine.run (step shape matching) w events).buffer.toWindow ∧
      Labelled ids' (Machine.run (step shape matching) w events).serial win := by
  induction events generalizing w ids with
  | nil => exact ⟨ids, hbuffer, hwin⟩
  | cons e events ih =>
    rw [Machine.run_cons]
    cases e with
    | op op =>
      obtain ⟨ids', hsame, hlabel⟩ := labelled_apply shape matching hb hbuffer op
      exact ih ((numberOp w.serial op).apply_window _ hb).2 hlabel
        (hwin.mono hsame (by simp only [step]; omega))
    | page limit count =>
      have hturn : (step shape matching w (.page limit count)).buffer = w.buffer ∧
          (step shape matching w (.page limit count)).serial = w.serial := by
        simp only [step]
        split
        · exact ⟨rfl, rfl⟩
        · exact ⟨rfl, rfl⟩
      exact ih (hturn.1 ▸ hb) (by rw [hturn.1, hturn.2]; exact hbuffer) (by rw [hturn.2]; exact hwin)

theorem countP_eq_one {rows : List (Int × Object ρ)} (hdec : rows.Pairwise (fun e e' => e'.1 < e.1))
    {x : Int} {o : Object ρ} (hmem : (x, o) ∈ rows) (hid : ∀ e ∈ rows, e.2.serial = o.serial → e.1 = x) :
    rows.countP (fun e => e.2.serial = o.serial) = 1 := by
  rw [List.countP_eq_length_filter]
  have hfdec := hdec.filter (fun e => decide (e.2.serial = o.serial))
  have hfid : ∀ e ∈ rows.filter (fun e => decide (e.2.serial = o.serial)), e.1 = x := by
    intro e he
    obtain ⟨he, hs⟩ := List.mem_filter.mp he
    exact hid e he (by simpa using hs)
  have hfmem : (x, o) ∈ rows.filter (fun e => decide (e.2.serial = o.serial)) :=
    List.mem_filter.mpr ⟨hmem, by simp⟩
  generalize rows.filter (fun e => decide (e.2.serial = o.serial)) = l at hfdec hfid hfmem
  match l with
  | [] => cases hfmem
  | [_] => rfl
  | a :: b :: rest =>
    have hlt := (List.pairwise_cons.mp hfdec).1 b (by simp)
    rw [hfid a (by simp), hfid b (by simp)] at hlt
    exact absurd hlt (lt_irrefl x)

/-- Every matching record of the first page's buffer is on the page it belongs to, once, as long as
the buffer holds it; and there is such a page once the reader is past it. -/
def World.ShowsOnce (matching : ρ → Bool) (w : World ρ) : Prop :=
  ∀ first ∈ w.visits.head?, ∀ x o, first.window.at? x = some o → matching o.record = true →
    (w.Past x → ∃ v ∈ w.visits, v.Reaches x) ∧
      ∀ v ∈ w.visits, v.Reaches x → o ∈ v.window.items →
        w.rows.countP (fun e => e.2.serial = o.serial) = 1

theorem showsOnce_of_inv (hinv : Inv matching w) : w.ShowsOnce matching := by
  intro first hfirst x o hx ho
  have hvisits : first ∈ w.visits := List.mem_of_mem_head? hfirst
  refine ⟨hinv.reached (List.ne_nil_of_mem hvisits) x, ?_⟩
  intro v hv hreach hheld
  obtain ⟨ids, -, hlabels⟩ := hinv.labelled
  -- The object stands at the same id in every window there has been.
  have hid {v' : Visit ρ} (hv' : v' ∈ w.visits) {y : Int} {o' : Object ρ}
      (hy : v'.window.at? y = some o') (hs : o'.serial = o.serial) : y = x :=
    (hlabels v' hv').unique (hlabels first hvisits) hy hx hs
  obtain ⟨y, hy⟩ := Window.mem_items_iff.mp hheld
  obtain rfl := hid hv hy rfl
  have hrow := hinv.complete v hv y o hy ho hreach
  apply countP_eq_one hinv.decreasing (List.mem_flatMap.mpr ⟨v, hv, hrow⟩)
  intro e he hs
  obtain ⟨v', hv', he⟩ := List.mem_flatMap.mp he
  exact hid hv' (hinv.sound v' hv' e he) hs

variable (shape matching) in
/-- Over any run a record keeps its id and the ids of the rows go down; and while no id is past the
clamp every matching record is shown once. -/
theorem pages_show_each_record_once (liveBufferRecords liveBufferSeconds : Int) (events : List (Event ρ)) :
    let start := init liveBufferRecords liveBufferSeconds
    let w := Machine.run (step shape matching) start events
    (∀ old new, events = old ++ new → ∀ x y o,
        (Machine.run (step shape matching) start old).buffer.at? x = some o →
          w.buffer.at? y = some o → x = y) ∧
      (w.rows.map Prod.fst).Pairwise (· > ·) ∧
      (firstBase + arrived events ≤ 2 ^ 62 + 1 → w.ShowsOnce matching) := by
  intro start w
  have hpaged (events : List (Event ρ)) : Paged (Machine.run (step shape matching) start events) :=
    (paged_run shape matching liveBufferRecords liveBufferSeconds events).1
  refine ⟨?_, ?_, fun h => showsOnce_of_inv (inv_run liveBufferRecords liveBufferSeconds h)⟩
  · rintro old new rfl x y o hx hy
    obtain ⟨ids, hbuffer, -⟩ := (hpaged old).labelled
    obtain ⟨ids', hlater, hearlier⟩ := labelled_run shape matching (hpaged old).bounded hbuffer hbuffer new
    rw [← Machine.run_append] at hlater hearlier
    exact hearlier.unique hlater hx hy rfl
  · rw [List.pairwise_map]
    exact (hpaged events).decreasing

def hundredBytes : RecordShape Nat where
  size _ := 100
  expired _ _ _ := false

/-- Four arrive and a page is read; a budget drops the oldest, one that comes back from the log goes
again, the reader goes on, and another arrives. -/
def trimmedRun : List (Event Nat) :=
  [.op (.extend [1, 2, 3, 4]), .page 2 true, .op (.setBudget 300), .op (.refill [0]), .page 2 true,
    .op (.extend [5])]

theorem pages_show_each_record_once_trimmed :
    let w := Machine.run (step hundredBytes fun _ => true) (init 10 60) trimmedRun
    (w.rows.map (·.2.record), w.buffer.items.map (·.record)) = ([4, 3, 2], [3, 4, 5]) ∧
      (w.rows.map Prod.fst).Pairwise (· > ·) ∧ w.ShowsOnce fun _ => true :=
  have h := (pages_show_each_record_once hundredBytes (fun _ => true) 10 60 trimmedRun).2
  ⟨by decide +kernel, h.1, h.2 (by decide)⟩

/-- Records that never expire and take no memory. -/
def plainShape (ρ : Type) : RecordShape ρ where
  size _ := 0
  expired _ _ _ := false

/-! ## Ids past the clamp -/

/-- So many arrivals at once, and two pages of one row. -/
def flood (n : Nat) : List (Event Unit) :=
  [.op (.extend (List.replicate n ())), .page 1 false, .page 1 false]

/-- A buffer of two keeps the last two of a flood. -/
theorem flood_window {n : Nat} (hn : 2 ≤ n) : ∃ a b : Object Unit, a.serial ≠ b.serial ∧
    ((BufferOp.extend (number 0 (List.replicate n ()))).apply (RecordShape.ofObjects (plainShape Unit))
      (LiveBuffer.init 2 60)).toWindow = ⟨firstBase + (n - 2 : Nat), [a, b]⟩ := by
  have hlen : (number 0 (List.replicate n ())).length = n := by simp [number]
  have hne : number 0 (List.replicate n ()) ≠ [] := List.ne_nil_of_length_pos (by omega)
  refine ⟨⟨(), n - 2⟩, ⟨(), n - 1⟩, by dsimp only; omega, ?_⟩
  rw [BufferOp.apply, LiveBuffer.extend, List.getLast?_eq_some_getLast hne]
  dsimp only
  rw [LiveBuffer.trim_of_count (fun _ _ _ => rfl) rfl]
  have hmax : (max 1 (clampInt 0 1000000 2)).toNat = 2 := by decide
  simp only [Window.dropFront, Window.append, LiveBuffer.init, List.nil_append, hlen]
  have hlast : (number 0 (List.replicate n ())).drop (n - 2) = [⟨(), n - 2⟩, ⟨(), n - 1⟩] := by
    apply List.ext_getElem?
    intro i
    rw [List.getElem?_drop, number, List.getElem?_mapIdx, List.getElem?_replicate]
    rcases i with - | - | i
    · simp; omega
    · simp; omega
    · simp; omega
  rw [hmax, hlast]

theorem below_two {base : Int} {a b : Object ρ} :
    below (fun _ => true) 0 ⟨base, [a, b]⟩ = [(base + 1, b), (base, a)] := by
  simp [below, Window.entries]

/-- The second page asks for ids below a clamped number and finds none. -/
theorem flood_pages {base : Int} (hbase : 2 ^ 62 ≤ base) (a b : Object ρ) (count : Bool) :
    (searchRequests (fun _ => true) 0 1 count ⟨base, [a, b]⟩).rows = [(base + 1, b)] ∧
    (searchRequests (fun _ => true) 0 1 count ⟨base, [a, b]⟩).next = base + 1 ∧
    searchRequests (fun _ => true) (base + 1) 1 count ⟨base, [a, b]⟩ = ⟨[], 0⟩ := by
  obtain ⟨hrows, hnext⟩ : (searchRequests (fun _ => true) 0 1 count ⟨base, [a, b]⟩).rows =
      (below (fun _ => true) 0 ⟨base, [a, b]⟩).take (pageSize 1) ∧ _ := searchRequests_eq (Or.inl rfl) 1
  have hsize : pageSize 1 = 1 := by decide
  rw [below_two, hsize] at hrows hnext
  refine ⟨hrows, hnext, ?_⟩
  have hclamp : clampInt (-(2 ^ 62)) (2 ^ 62) (base + 1) = 2 ^ 62 := by
    unfold clampInt
    omega
  have htop : (min (2 : Int) (2 ^ 62 - base)).toNat = 0 := by omega
  have hclamped : (2 : Int) ^ 62 ≠ 0 := by decide
  unfold searchRequests
  rw [hclamp]
  simp only [hclamped, ne_eq, not_false_eq_true, if_true, List.length_cons, List.length_nil, Nat.zero_add,
    Nat.cast_ofNat, Nat.reduceAdd, htop, Nat.sub_zero]
  rw [List.drop_eq_nil_of_le (by simp)]
  rfl

/-- Two pages of a flooded buffer, and the record neither shows. -/
theorem flood_hides {n : Nat} (hn : 2 ≤ n) (hbig : 2 ^ 62 ≤ firstBase + (n - 2 : Nat)) :
    ¬ (Machine.run (step (plainShape Unit) fun _ => true) (init 2 60) (flood n)).ShowsOnce fun _ => true := by
  obtain ⟨a, b, hserial, hwindow⟩ := flood_window hn
  obtain ⟨hrows, hnext, hsecond⟩ := flood_pages hbig a b false
  have hpos : firstBase + ((n - 2 : Nat) : Int) + 1 ≠ 0 := by omega
  generalize firstBase + ((n - 2 : Nat) : Int) = base at hwindow hrows hnext hsecond hpos
  let flooded := step (plainShape Unit) (fun _ => true) (init 2 60) (.op (.extend (List.replicate n ())))
  have hheld : flooded.buffer.toWindow = ⟨base, [a, b]⟩ := hwindow
  let first := searchRequests (fun _ : Object Unit => true) 0 1 false ⟨base, [a, b]⟩
  have hrun : Machine.run (step (plainShape Unit) fun _ => true) (init 2 60) (flood n) =
      (flooded.turn 0 first).turn (base + 1) ⟨[], 0⟩ := by
    have hone : step (plainShape Unit) (fun _ => true) flooded (.page 1 false) = flooded.turn 0 first := by
      change flooded.turn 0 (searchRequests _ 0 1 false flooded.buffer.toWindow) = _
      rw [hheld]
    have htwo : step (plainShape Unit) (fun _ => true) (flooded.turn 0 first) (.page 1 false) =
        (flooded.turn 0 first).turn (base + 1) ⟨[], 0⟩ := by
      have hbefore : (flooded.turn 0 first).before = some (base + 1) := by
        simp only [World.turn, first, hnext]
        rw [if_neg hpos]
      simp only [step, hbefore]
      change (flooded.turn 0 first).turn (base + 1)
        (searchRequests _ (base + 1) 1 false flooded.buffer.toWindow) = _
      rw [hheld, hsecond]
    rw [flood, Machine.run_cons, Machine.run_cons, Machine.run_cons, Machine.run_nil, ← htwo, ← hone]
  intro hshows
  rw [hrun] at hshows
  have hat : (⟨base, [a, b]⟩ : Window (Object Unit)).at? base = some a :=
    Window.at?_eq_some.mpr ⟨0, rfl, by simp⟩
  have hcount := (hshows ⟨flooded.buffer.toWindow, 0, first⟩ rfl base a (by rw [hheld]; exact hat) rfl).2
    ⟨flooded.buffer.toWindow, base + 1, ⟨[], 0⟩⟩ (by simp [World.turn]) ⟨Or.inr (by dsimp only; omega), Or.inl rfl⟩
    (by rw [hheld]; simp)
  have hall : ((flooded.turn 0 first).turn (base + 1) ⟨[], 0⟩).rows = [(base + 1, b)] := by
    rw [rows_turn, rows_turn, hrows]
    rfl
  rw [hall] at hcount
  simp [Ne.symm hserial] at hcount

/-- After 2^62 arrivals a page's `next` is cut down to 2^62: the record below it is never shown. -/
theorem page_lost_past_clamp :
    ¬ ∀ (shape : RecordShape Unit) (matching : Unit → Bool) (liveBufferRecords liveBufferSeconds : Int)
      (events : List (Event Unit)),
      (Machine.run (step shape matching) (init liveBufferRecords liveBufferSeconds) events).ShowsOnce matching := by
  intro h
  exact flood_hides (n := 2 ^ 62) (by decide) (by decide) (h (plainShape Unit) (fun _ => true) 2 60 (flood (2 ^ 62)))

end EasyHaProxy.Guardd.LivePages
