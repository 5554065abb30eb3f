import EasyHaProxy.Lib.Machine
import EasyHaProxy.Guardd.Queue

/-! Marks, batches and acknowledgements in any order. The generation of a mark is newer than everything any
earlier batch returned, so what an acknowledgement takes out has been in a batch since its mark. -/
namespace EasyHaProxy.Guardd

namespace EnforcementQueue

variable {q : EnforcementQueue} {ip other : Ip} {g : Nat} {urgent : Bool} {d : Dict Ip Nat}

/-- The address waits, marked with this generation. -/
def Waits (q : EnforcementQueue) (ip : Ip) (g : Nat) : Prop := q.urgent.get? ip = some g ∨ q.ordinary.get? ip = some g

def size (q : EnforcementQueue) : Nat := q.urgent.entries.length + q.ordinary.entries.length

/-- `EnforcementQueue(limit)`. -/
def ofLimit (limit : Nat) : EnforcementQueue := { limit := max 1 limit }

/-! ## Sizes -/

theorem length_set_of_mem (h : ip ∈ d.keys) : (d.set ip g).entries.length = d.entries.length := by
  unfold Dict.set
  rw [dif_pos h, List.length_map]

theorem length_set_of_not_mem (h : ip ∉ d.keys) : (d.set ip g).entries.length = d.entries.length + 1 := by
  rw [Dict.entries_set_of_not_mem h, List.length_append, List.length_singleton]

theorem length_erase_lt (h : ip ∈ d.keys) : (d.erase ip).entries.length < d.entries.length := by
  obtain ⟨e, he, rfl⟩ := List.mem_map.mp h
  exact List.length_filter_lt_length_iff_exists.mpr ⟨e, he, by simp⟩

theorem length_popFirst_lt (h : d.entries.isEmpty = false) : (popFirst d).entries.length < d.entries.length := by
  unfold popFirst
  split
  case h_1 hnil => simp [hnil] at h
  case h_2 e rest hcons =>
    apply length_erase_lt
    simp [Dict.keys, hcons]

/-! ## What a mark does -/

/-- How a mark goes. -/
inductive Marked (q : EnforcementQueue) (ip : Ip) : EnforcementQueue → Prop
  /-- The address waits, or finds room. -/
  | kept (q' : EnforcementQueue) (size_le : q'.size ≤ max q.size q.limit)
    (waits : q'.Waits ip (q.generation + 1))
    (others : ∀ other g, other ≠ ip → (q'.Waits other g ↔ q.Waits other g))
    (generation : q'.generation = q.generation + 1) (limit : q'.limit = q.limit) : Marked q ip q'
  /-- The queue is full, and an ordinary finding goes. -/
  | displaced (q' : EnforcementQueue) (size_le : q'.size ≤ q.size) (waits : q'.Waits ip (q.generation + 1))
    (others : ∀ other g, other ≠ ip → q'.Waits other g → q.Waits other g)
    (generation : q'.generation = q.generation + 1) (limit : q'.limit = q.limit)
    (overflow : q'.overflows = q.overflows + 1) : Marked q ip q'
  /-- The queue is full, and the mark is not taken. -/
  | refused (absent : ∀ g, ¬ q.Waits ip g) :
    Marked q ip { q with overflows := q.overflows + 1, generation := q.generation + 1 }

theorem waits_iff_mem : (∃ g, q.Waits ip g) ↔ ip ∈ q.urgent.keys ∨ ip ∈ q.ordinary.keys := by
  simp [Waits, Dict.mem_keys, Option.isSome_iff_exists, exists_or]

/-- An address waits once. -/
theorem Waits.unique {n : Nat} (h : q.Waits ip g) (hn : q.Waits ip n) : g = n := by
  have hne : ∀ a b, q.urgent.get? ip = some a → q.ordinary.get? ip = some b → False := fun a b ha hb =>
    q.disjoint ip (Dict.mem_keys.mpr (by simp [ha])) (Dict.mem_keys.mpr (by simp [hb]))
  obtain h | h := h <;> obtain hn | hn := hn
  · exact Option.some.inj (h.symm.trans hn)
  · exact (hne _ _ h hn).elim
  · exact (hne _ _ hn h).elim
  · exact Option.some.inj (h.symm.trans hn)

theorem get?_popFirst_of_some (h : (popFirst d).get? ip = some g) : d.get? ip = some g := by
  unfold popFirst at h
  split at h
  · exact h
  · rw [Dict.get?_erase] at h
    split at h
    · cases h
    · exact h

theorem mark_marked : Marked q ip (q.mark ip urgent) := by
  unfold mark
  dsimp only
  split
  case isTrue hu =>
    refine .kept _ ?_ (.inl (by simp [markUrgent])) ?_ rfl rfl
    · simp [size, markUrgent, length_set_of_mem hu]
    · intro other g hne
      simp [Waits, markUrgent, hne]
  case isFalse hu =>
  split
  case isTrue ho =>
    split
    · have hlt := length_erase_lt ho
      have hset := length_set_of_not_mem (g := q.generation + 1) hu
      refine .kept _ ?_ (.inl (by simp [markUrgent])) ?_ rfl rfl
      · simp only [size, markUrgent, dropOrdinary, hset]
        omega
      · intro other g hne
        simp [Waits, markUrgent, dropOrdinary, hne]
    · refine .kept _ ?_ (.inr (by simp [markOrdinary])) ?_ rfl rfl
      · simp [size, markOrdinary, length_set_of_mem ho]
      · intro other g hne
        simp [Waits, markOrdinary, hne]
  case isFalse ho =>
  have habsent : ∀ g, ¬ q.Waits ip g := fun g hg => by
    obtain h | h := waits_iff_mem.mp ⟨g, hg⟩
    · exact hu h
    · exact ho h
  have hset := length_set_of_not_mem (g := q.generation + 1) hu
  have hset' := length_set_of_not_mem (g := q.generation + 1) ho
  split
  · split
    · exact .refused habsent
    · next hroom =>
      simp only [Bool.or_eq_true, Bool.not_eq_true', not_or, Bool.not_eq_false, Bool.not_eq_true] at hroom
      have hlt := length_popFirst_lt hroom.2
      refine .displaced _ ?_ (.inl (by simp [markUrgent])) ?_ rfl rfl rfl
      · simp only [size, markUrgent, makeRoom, hset]
        omega
      · intro other g hne hwaits
        simp only [Waits, markUrgent, makeRoom, Dict.get?_set, if_neg hne] at hwaits
        exact hwaits.imp id get?_popFirst_of_some
  · next hroom =>
    split
    · refine .kept _ ?_ (.inl (by simp [markUrgent])) ?_ rfl rfl
      · simp only [size, markUrgent, hset]
        omega
      · intro other g hne
        simp [Waits, markUrgent, hne]
    · refine .kept _ ?_ (.inr (by simp [markOrdinary])) ?_ rfl rfl
      · simp only [size, markOrdinary, hset']
        omega
      · intro other g hne
        simp [Waits, markOrdinary, hne]

/-! ## Batches and acknowledgements -/

theorem length_batch_le (q : EnforcementQueue) (limit : Nat) : (q.batch limit).length ≤ limit := by
  unfold batch
  dsimp only
  split
  · simp only [List.length_append, List.length_take]
    omega
  · simp only [List.length_append, List.length_take]
    omega

theorem waits_of_mem_batch {limit : Nat} (h : (ip, g) ∈ q.batch limit) : q.Waits ip g := by
  unfold batch at h
  dsimp only at h
  obtain h | h := List.mem_append.mp h
  · refine .inl (Dict.mem_entries.mp ?_)
    split at h <;> exact List.mem_of_mem_take h
  · exact .inr (Dict.mem_entries.mp (List.mem_of_mem_take h))

theorem ordinary_share (q : EnforcementQueue) (limit : Nat) :
    min (limit / 4) q.ordinary.entries.length ≤
      ((q.batch limit).filter fun e => e.1 ∈ q.ordinary.keys).length := by
  have hall : ∀ n, ((q.ordinary.entries.take n).filter fun e => decide (e.1 ∈ q.ordinary.keys)) =
      q.ordinary.entries.take n := by
    intro n
    refine List.filter_eq_self.mpr fun e he => ?_
    exact decide_eq_true (List.mem_map_of_mem (List.mem_of_mem_take he))
  have hbatch : ∃ urgent, q.batch limit =
      urgent ++ q.ordinary.entries.take (limit - (q.urgent.entries.take (limit - limit / 4)).length) := by
    unfold batch
    exact ⟨_, rfl⟩
  obtain ⟨urgent, hbatch⟩ := hbatch
  rw [hbatch, List.filter_append, List.length_append, hall]
  simp only [List.length_take]
  omega

theorem get?_dropAt {n : Nat} :
    (dropAt d ip g).get? other = some n ↔ d.get? other = some n ∧ ¬ (other = ip ∧ n = g) := by
  unfold dropAt
  by_cases hget : d.get? ip = some g
  · rw [if_pos hget, Dict.get?_erase]
    by_cases hother : other = ip
    · subst hother
      simp [hget, eq_comm]
    · simp [hother]
  · rw [if_neg hget]
    constructor
    · intro hn
      refine ⟨hn, ?_⟩
      rintro ⟨rfl, rfl⟩
      exact hget hn
    · exact fun h => h.1

theorem length_dropAt_le : (dropAt d ip g).entries.length ≤ d.entries.length := by
  unfold dropAt
  split
  · exact List.length_filter_le _ _
  · exact le_refl _

/-- An acknowledgement takes out the address of that generation and nothing else. -/
theorem waits_acknowledge {n : Nat} :
    (q.acknowledge ip g).Waits other n ↔ q.Waits other n ∧ ¬ (other = ip ∧ n = g) := by
  simp only [Waits, acknowledge, get?_dropAt]
  tauto

theorem size_acknowledge_le : (q.acknowledge ip g).size ≤ q.size :=
  Nat.add_le_add length_dropAt_le length_dropAt_le

/-! ## Any order of marks, batches and acknowledgements -/

inductive Op
  | mark (ip : Ip) (urgent : Bool)
  | batch (limit : Nat)
  | acknowledge (ip : Ip) (generation : Nat)

inductive Event
  | marked (ip : Ip) (generation : Nat)
  | batched (rows : List (Ip × Nat))

/-- The queue and what has happened to it, the latest first. -/
structure Traffic where
  queue : EnforcementQueue
  log : List Event := []

def Traffic.step (s : Traffic) : Op → Traffic
  | .mark ip urgent =>
    { queue := s.queue.mark ip urgent, log := .marked ip (s.queue.generation + 1) :: s.log }
  | .batch limit => { s with log := .batched (s.queue.batch limit) :: s.log }
  | .acknowledge ip generation => { s with queue := s.queue.acknowledge ip generation }

def Returned (s : Traffic) : Op → Prop
  | .acknowledge ip generation => ∃ rows, .batched rows ∈ s.log ∧ (ip, generation) ∈ rows
  | _ => True

/-- A batch has returned the address since it was marked with this generation. -/
def CheckedSince (log : List Event) (ip : Ip) (g : Nat) : Prop :=
  ∃ newer older rows, log = newer ++ Event.marked ip g :: older ∧ .batched rows ∈ newer ∧ (ip, g) ∈ rows

/-- Nothing is lost by an operation. -/
structure Lossless (s : Traffic) (op : Op) : Prop where
  disjoint : ∀ ip ∈ s.queue.urgent.keys, ip ∉ s.queue.ordinary.keys
  bounded : s.queue.size ≤ s.queue.limit
  batch : ∀ limit, op = .batch limit → (s.queue.batch limit).length ≤ limit ∧
    ((s.queue.batch limit).map Prod.fst).Nodup ∧
    min (limit / 4) s.queue.ordinary.entries.length ≤
      ((s.queue.batch limit).filter fun e => e.1 ∈ s.queue.ordinary.keys).length
  /-- A mark that is not taken is an overflow. -/
  marked : ∀ ip urgent, op = .mark ip urgent → (s.step op).queue.Waits ip (s.queue.generation + 1) ∨
    (s.step op).queue.overflows = s.queue.overflows + 1
  /-- What leaves has been in a batch since its mark, or goes by an overflow. -/
  leaves : ∀ ip g, s.queue.Waits ip g → (∀ n, ¬ (s.step op).queue.Waits ip n) →
    op = .acknowledge ip g ∧ CheckedSince s.log ip g ∨
    (∃ other urgent, op = .mark other urgent) ∧ (s.step op).queue.overflows = s.queue.overflows + 1

/-- No batch has returned a generation that is not given out yet; and since the mark of what waits
only later batches can have returned it. -/
structure Traffic.Inv (s : Traffic) : Prop where
  bounded : s.queue.size ≤ s.queue.limit
  dated : ∀ rows, .batched rows ∈ s.log → ∀ e ∈ rows, e.2 ≤ s.queue.generation
  waiting : ∀ ip g, s.queue.Waits ip g → g ≤ s.queue.generation ∧ ∃ newer older,
    s.log = newer ++ Event.marked ip g :: older ∧ ∀ rows, .batched rows ∈ older → (ip, g) ∉ rows

variable {s : Traffic} {op : Op}

theorem waits_of_marked {q' : EnforcementQueue} (h : Marked q ip q') :
    q'.generation = q.generation + 1 ∧ ∀ other g, q'.Waits other g → q.Waits other g ∨ other = ip ∧ g = q.generation + 1 := by
  cases h with
  | kept _ _ waits others generation _ =>
    refine ⟨generation, fun other g hg => ?_⟩
    by_cases hother : other = ip
    · subst hother
      exact .inr ⟨rfl, hg.unique waits⟩
    · exact .inl ((others other g hother).mp hg)
  | displaced _ _ waits others generation _ _ =>
    refine ⟨generation, fun other g hg => ?_⟩
    by_cases hother : other = ip
    · subst hother
      exact .inr ⟨rfl, hg.unique waits⟩
    · exact .inl (others other g hother hg)
  | refused => exact ⟨rfl, fun other g hg => .inl hg⟩

theorem size_of_marked {q' : EnforcementQueue} (h : Marked q ip q') (hq : q.size ≤ q.limit) : q'.size ≤ q'.limit := by
  cases h with
  | kept _ size_le _ _ _ limit => rw [limit]; exact size_le.trans (max_le hq le_rfl)
  | displaced _ size_le _ _ _ limit _ => rw [limit]; exact size_le.trans hq
  | refused => exact hq

theorem Traffic.Inv.mark (h : s.Inv) : (s.step (.mark ip urgent)).Inv := by
  have hmarked : Marked s.queue ip (s.step (.mark ip urgent)).queue := mark_marked
  obtain ⟨hgeneration, hwaits⟩ := waits_of_marked hmarked
  have hlog : ∀ rows, .batched rows ∈ (s.step (.mark ip urgent)).log → .batched rows ∈ s.log := by
    intro rows hrows
    obtain hrows | hrows := List.mem_cons.mp hrows
    · cases hrows
    · exact hrows
  -- The mark itself, and what has waited before it.
  have hself : ∃ newer older, (s.step (.mark ip urgent)).log =
      newer ++ Event.marked ip (s.queue.generation + 1) :: older ∧
      ∀ rows, .batched rows ∈ older → (ip, s.queue.generation + 1) ∉ rows := by
    refine ⟨[], s.log, rfl, fun rows hrows hmem => ?_⟩
    have := h.dated rows hrows _ hmem
    omega
  have hold : ∀ other g, s.queue.Waits other g → g ≤ s.queue.generation + 1 ∧ ∃ newer older,
      (s.step (.mark ip urgent)).log = newer ++ Event.marked other g :: older ∧
      ∀ rows, .batched rows ∈ older → (other, g) ∉ rows := by
    intro other g hwaits
    obtain ⟨hle, newer, older, hsplit, hrows⟩ := h.waiting other g hwaits
    refine ⟨by omega, .marked ip (s.queue.generation + 1) :: newer, older, ?_, hrows⟩
    change _ :: s.log = _
    rw [hsplit, List.cons_append]
  refine ⟨size_of_marked hmarked h.bounded, ?_, ?_⟩
  · intro rows hrows e he
    rw [hgeneration]
    exact (h.dated rows (hlog rows hrows) e he).trans (Nat.le_succ _)
  · intro other g hg
    rw [hgeneration]
    obtain hg | ⟨rfl, rfl⟩ := hwaits other g hg
    · exact hold other g hg
    · exact ⟨le_rfl, hself⟩

theorem Traffic.Inv.batch {limit : Nat} (h : s.Inv) : (s.step (.batch limit)).Inv where
  bounded := h.bounded
  dated := by
    intro rows hrows e he
    obtain hrows | hrows := List.mem_cons.mp hrows
    · cases hrows
      exact (h.waiting e.1 e.2 (waits_of_mem_batch he)).1
    · exact h.dated rows hrows e he
  waiting := by
    intro ip g hwaits
    obtain ⟨hle, newer, older, hsplit, hrows⟩ := h.waiting ip g hwaits
    refine ⟨hle, .batched (s.queue.batch limit) :: newer, older, ?_, hrows⟩
    change _ :: s.log = _
    rw [hsplit, List.cons_append]

theorem Traffic.Inv.acknowledge (h : s.Inv) : (s.step (.acknowledge ip g)).Inv where
  bounded := size_acknowledge_le.trans h.bounded
  dated := h.dated
  waiting := fun other n hn => h.waiting other n (waits_acknowledge.mp hn).1

theorem Traffic.Inv.step (h : s.Inv) (op : Op) : (s.step op).Inv := by
  cases op with
  | mark ip urgent => exact h.mark
  | batch limit => exact h.batch
  | acknowledge ip g => exact h.acknowledge

theorem Traffic.inv_start (limit : Nat) : ({ queue := ofLimit limit } : Traffic).Inv where
  bounded := Nat.zero_le _
  dated := nofun
  waiting := by
    rintro ip g (h | h) <;> cases h

/-- What is acknowledged as an earlier batch returned it has been in a batch since its mark. -/
theorem checkedSince_of_returned (h : s.Inv) (hwaits : s.queue.Waits ip g)
    (hreturned : Returned s (.acknowledge ip g)) : CheckedSince s.log ip g := by
  obtain ⟨rows, hlog, hrows⟩ := hreturned
  obtain ⟨-, newer, older, hsplit, hearlier⟩ := h.waiting ip g hwaits
  refine ⟨newer, older, rows, hsplit, ?_, hrows⟩
  rw [hsplit] at hlog
  obtain hlog | hlog := List.mem_append.mp hlog
  · exact hlog
  · obtain hlog | hlog := List.mem_cons.mp hlog
    · cases hlog
    · exact absurd hrows (hearlier rows hlog)

theorem lossless_mark (h : s.Inv) : Lossless s (.mark ip urgent) := by
  have hmarked : Marked s.queue ip (s.step (.mark ip urgent)).queue := mark_marked
  refine ⟨s.queue.disjoint, h.bounded, nofun, ?_, ?_⟩
  · rintro other u heq
    cases heq
    generalize (s.step (.mark ip urgent)).queue = q' at hmarked
    cases hmarked with
    | kept _ _ waits => exact .inl waits
    | displaced _ _ waits => exact .inl waits
    | refused => exact .inr rfl
  · intro other g hwaits hgone
    refine .inr ⟨⟨ip, urgent, rfl⟩, ?_⟩
    generalize (s.step (.mark ip urgent)).queue = q' at hmarked hgone
    cases hmarked with
    | kept _ _ waits others =>
      by_cases hother : other = ip
      · subst hother
        exact absurd waits (hgone _)
      · exact absurd ((others other g hother).mpr hwaits) (hgone g)
    | displaced _ _ _ _ _ _ overflow => exact overflow
    | refused => rfl

theorem lossless_of_inv (h : s.Inv) (hreturned : Returned s op) : Lossless s op := by
  cases op with
  | mark ip urgent => exact lossless_mark h
  | batch limit =>
    refine ⟨s.queue.disjoint, h.bounded, ?_, nofun, ?_⟩
    · rintro limit heq
      cases heq
      exact ⟨length_batch_le _ _, nodup_batch _ _, ordinary_share _ _⟩
    · exact fun ip g hwaits hgone => absurd hwaits (hgone g)
  | acknowledge ip g =>
    refine ⟨s.queue.disjoint, h.bounded, nofun, nofun, ?_⟩
    intro other n hwaits hgone
    have hsame : other = ip ∧ n = g := by
      by_contra hne
      exact hgone n (waits_acknowledge.mpr ⟨hwaits, hne⟩)
    obtain ⟨rfl, rfl⟩ := hsame
    exact .inl ⟨rfl, checkedSince_of_returned h hwaits hreturned⟩

/-- Whatever the order of marks, batches and acknowledgements of what batches returned, no operation
loses a finding. -/
theorem runs_lossless {limit : Nat} {ops : List Op}
    (h : Machine.Along Traffic.step Returned { queue := ofLimit limit } ops) :
    Machine.Along Traffic.step Lossless { queue := ofLimit limit } ops :=
  h.imp_of_invariant (Traffic.inv_start limit) (fun _ op hs _ => hs.step op) fun _ _ hs hop => lossless_of_inv hs hop

/-- Marked again while its batch is checked, an address stays. -/
theorem runs_lossless_again : Machine.Along Traffic.step Lossless { queue := ofLimit 8 }
    [.mark "10.0.0.1" false, .batch 4, .mark "10.0.0.1" true, .acknowledge "10.0.0.1" 1] := by
  refine runs_lossless ⟨trivial, trivial, trivial, ⟨[("10.0.0.1", 1)], ?_, List.mem_singleton.mpr rfl⟩, trivial⟩
  refine List.mem_cons_of_mem _ (List.mem_cons.mpr (.inl (congrArg Event.batched ?_)))
  decide +kernel

end EnforcementQueue

end EasyHaProxy.Guardd
