import EasyHaProxy.Lib.Machine
import Mathlib.Logic.Function.Basic

/-! An operation reads the file, works out from what it read what the file is to be, and replaces it.
Operations interleave. Each sets some parts of the file and copies the others from what it read. -/
namespace EasyHaProxy.ReadWrite

variable {σ ι κ : Type}

/-- What an operation has read, and what it is going to write, with the time it was worked out. -/
structure Access (σ ι : Type) where
  job : ι
  read : σ
  prepared : Option (σ × Nat)

/-- A replacement of the file. -/
structure Write (σ ι : Type) where
  job : ι
  content : σ
  time : Nat

structure State (σ ι : Type) where
  file : σ
  now : Nat
  access : Nat → Option (Access σ ι)
  /-- The latest first. -/
  log : List (Write σ ι)

inductive Event (ι : Type)
  | read (session : Nat) (job : ι)
  | prepare (session : Nat)
  | write (session : Nat)

/-- What an operation makes of the file it has read; nothing where it does not write. -/
abbrev Make (σ ι : Type) := ι → σ → Option σ

variable (make : Make σ ι)

def step (s : State σ ι) : Event ι → State σ ι
  | .read session job =>
    { s with now := s.now + 1, access := Function.update s.access session (some ⟨job, s.file, none⟩) }
  | .prepare session =>
    { s with
      now := s.now + 1
      access := Function.update s.access session ((s.access session).bind fun a =>
        (make a.job a.read).map fun content => { a with prepared := some (content, s.now) }) }
  | .write session =>
    match s.access session with
    | some ⟨job, _, some (content, time)⟩ =>
      { file := content, now := s.now + 1, access := Function.update s.access session none,
        log := ⟨job, content, time⟩ :: s.log }
    | _ => { s with now := s.now + 1 }

/-- Before anything is read. -/
def start (file : σ) : State σ ι := ⟨file, 0, fun _ => none, []⟩

/-- All operations have come to their end. -/
def Finished (s : State σ ι) : Prop := ∀ session, s.access session = none

/-- What is about to be written. -/
def Writes (s : State σ ι) (event : Event ι) (job : ι) (read content : σ) (time : Nat) : Prop :=
  ∃ session, event = .write session ∧ s.access session = some ⟨job, read, some (content, time)⟩

/-- What is worked out comes from what was read. -/
def Made (s : State σ ι) : Prop :=
  ∀ session job read content time, s.access session = some ⟨job, read, some (content, time)⟩ →
    make job read = some content

variable {make} {s : State σ ι} {event : Event ι}

theorem step_cases (s : State σ ι) (event : Event ι) :
    ((step make s event).file = s.file ∧ (step make s event).log = s.log ∧
      ∀ job read content time, ¬ Writes s event job read content time) ∨
    ∃ job read content time, Writes s event job read content time ∧ (step make s event).file = content ∧
      (step make s event).log = ⟨job, content, time⟩ :: s.log := by
  cases event with
  | read session job => exact Or.inl ⟨rfl, rfl, by rintro _ _ _ _ ⟨_, h, -⟩; cases h⟩
  | prepare session => exact Or.inl ⟨rfl, rfl, by rintro _ _ _ _ ⟨_, h, -⟩; cases h⟩
  | write session =>
    cases ha : s.access session with
    | none =>
      refine Or.inl ⟨by simp [step, ha], by simp [step, ha], ?_⟩
      rintro job read content time ⟨session', h, ha'⟩
      obtain rfl := Event.write.inj h
      rw [ha] at ha'
      cases ha'
    | some a =>
      obtain ⟨job, read, prepared⟩ := a
      cases prepared with
      | none =>
        refine Or.inl ⟨by simp [step, ha], by simp [step, ha], ?_⟩
        rintro job' read' content time ⟨session', h, ha'⟩
        obtain rfl := Event.write.inj h
        rw [ha] at ha'
        cases ha'
      | some p =>
        obtain ⟨content, time⟩ := p
        exact Or.inr ⟨job, read, content, time, ⟨session, rfl, ha⟩, by simp [step, ha], by simp [step, ha]⟩

theorem made_start (file : σ) : Made make (start file : State σ ι) := by
  intro session job read content time h
  cases h

theorem made_step (h : Made make s) (event : Event ι) : Made make (step make s event) := by
  have hupdate {session : Nat} {a : Option (Access σ ι)}
      (ha : ∀ job read content time,
        a = some ⟨job, read, some (content, time)⟩ → make job read = some content) :
      ∀ n job read content time,
        Function.update s.access session a n = some ⟨job, read, some (content, time)⟩ →
          make job read = some content := by
    intro n job read content time hn
    by_cases hne : n = session
    · subst hne
      rw [Function.update_self] at hn
      exact ha job read content time hn
    · rw [Function.update_of_ne hne] at hn
      exact h n job read content time hn
  cases event with
  | read session job => exact hupdate fun _ _ _ _ ha => by cases ha
  | prepare session =>
    refine hupdate fun job read content time ha => ?_
    obtain ⟨a, -, hmap⟩ := Option.bind_eq_some_iff.mp ha
    obtain ⟨c, hmake, heq⟩ := Option.map_eq_some_iff.mp hmap
    obtain ⟨rfl, rfl, hp⟩ := Access.mk.inj heq
    rw [hmake, ← (Prod.mk.inj (Option.some.inj hp)).1]
  | write session =>
    unfold step
    dsimp only
    split
    · exact hupdate fun _ _ _ _ ha => by cases ha
    · exact h

/-! ## Parts of the file -/

/-- The parts of a file, and which of them an operation sets. -/
structure Parts (σ ι κ : Type) where
  τ : Type
  part : κ → σ → τ
  sets : ι → κ → Bool

variable {P : Parts σ ι κ} {initial : σ}

def Copies (make : Make σ ι) (P : Parts σ ι κ) : Prop :=
  ∀ job read content, make job read = some content →
    ∀ k, P.sets job k = false → P.part k content = P.part k read

/-- What the last operation to set a part has written, or what was there before them all. -/
def latest (P : Parts σ ι κ) (initial : σ) (k : κ) : List (Write σ ι) → σ
  | [] => initial
  | w :: older => if P.sets w.job k then w.content else latest P initial k older

/-- Each part is as the last operation to set it has written it. -/
def Kept (P : Parts σ ι κ) (initial : σ) (s : State σ ι) : Prop :=
  ∀ k, P.part k s.file = P.part k (latest P initial k s.log)

def Current (P : Parts σ ι κ) (s : State σ ι) (event : Event ι) : Prop :=
  ∀ job read content time, Writes s event job read content time →
    ∀ k, P.sets job k = false → P.part k read = P.part k s.file

theorem kept_start : Kept P initial (start initial : State σ ι) := fun _ => rfl

theorem writes_unique {job job' : ι} {read read' content content' : σ} {time time' : Nat}
    (h : Writes s event job read content time) (h' : Writes s event job' read' content' time') :
    job' = job ∧ read' = read ∧ content' = content ∧ time' = time := by
  obtain ⟨session, rfl, ha⟩ := h
  obtain ⟨session', hs, ha'⟩ := h'
  obtain rfl := Event.write.inj hs
  rw [ha] at ha'
  obtain ⟨rfl, rfl, hp⟩ := Access.mk.inj (Option.some.inj ha')
  obtain ⟨rfl, rfl⟩ := Prod.mk.inj (Option.some.inj hp)
  exact ⟨rfl, rfl, rfl, rfl⟩

/-- A write keeps the parts just where it copies current ones. -/
theorem kept_step_iff (hcopies : Copies make P) (hmade : Made make s) (hkept : Kept P initial s)
    (event : Event ι) : Kept P initial (step make s event) ↔ Current P s event := by
  rcases step_cases s event with ⟨hfile, hlog, hnone⟩ | ⟨job, read, content, time, hwrites, hfile, hlog⟩
  · refine iff_of_true ?_ fun job read content time hw => absurd hw (hnone job read content time)
    unfold Kept
    rw [hfile, hlog]
    exact hkept
  · have hmake : make job read = some content := by
      obtain ⟨session, -, ha⟩ := hwrites
      exact hmade session job read content time ha
    have hpart (k : κ) : P.part k (step make s event).file =
          P.part k (latest P initial k (step make s event).log) ↔
        (P.sets job k = false → P.part k read = P.part k s.file) := by
      rw [hfile, hlog, latest]
      cases hsets : P.sets job k with
      | true => simp
      | false => simp [hcopies job read content hmake k hsets, hkept k]
    unfold Kept
    simp only [hpart]
    constructor
    · intro h job' read' content' time' hw k hk
      obtain ⟨rfl, rfl, rfl, rfl⟩ := writes_unique hwrites hw
      exact h k hk
    · intro h k hk
      exact h job read content time hwrites k hk

theorem kept_along_iff (hcopies : Copies make P) (initial : σ) (events : List (Event ι)) :
    (∀ pre, pre <+: events → Kept P initial (Machine.run (step make) (start initial) pre)) ↔
      Machine.Along (step make) (Current P) (start initial) events :=
  Machine.forall_prefix_iff_along kept_start (made_start initial) (fun _ event h => made_step h event)
    fun _ event hmade hkept => kept_step_iff hcopies hmade hkept event

/-! ## Results in their order -/

variable {ordered : ι → Bool}

/-- Of the results that have an order, each was worked out no earlier than those written before it. -/
def InOrder (ordered : ι → Bool) (s : State σ ι) : Prop :=
  (s.log.filter fun w => ordered w.job).Pairwise fun newer older => older.time ≤ newer.time

/-- No result is written over one that was worked out later. -/
def OnTime (ordered : ι → Bool) (s : State σ ι) (event : Event ι) : Prop :=
  ∀ job read content time, Writes s event job read content time → ordered job = true →
    ∀ w ∈ s.log, ordered w.job = true → w.time ≤ time

theorem inOrder_start (file : σ) : InOrder ordered (start file : State σ ι) := List.Pairwise.nil

theorem inOrder_step_iff (h : InOrder ordered s) (event : Event ι) :
    InOrder ordered (step make s event) ↔ OnTime ordered s event := by
  rcases @step_cases _ _ make s event with ⟨-, hlog, hnone⟩ | ⟨job, read, content, time, hwrites, -, hlog⟩
  · refine iff_of_true ?_ fun job read content time hw => absurd hw (hnone job read content time)
    unfold InOrder
    rwa [hlog]
  · have honly : OnTime ordered s event ↔
        (ordered job = true → ∀ w ∈ s.log, ordered w.job = true → w.time ≤ time) := by
      constructor
      · exact fun hon => hon job read content time hwrites
      · intro hon job' read' content' time' hw
        obtain ⟨rfl, rfl, rfl, rfl⟩ := writes_unique hwrites hw
        exact hon
    rw [honly]
    unfold InOrder at h ⊢
    rw [hlog, List.filter_cons]
    cases hjob : ordered job with
    | false => simpa using h
    | true => simp [h]

/-- The parts are kept and the results in their order, just where every write copies current parts and
no result is late. -/
theorem kept_inOrder_along_iff (hcopies : Copies make P) (ordered : ι → Bool) (initial : σ)
    (events : List (Event ι)) :
    (∀ pre, pre <+: events →
      Kept P initial (Machine.run (step make) (start initial) pre) ∧
        InOrder ordered (Machine.run (step make) (start initial) pre)) ↔
      Machine.Along (step make) (fun s event => Current P s event ∧ OnTime ordered s event)
        (start initial) events := by
  refine Machine.forall_prefix_iff_along (I := fun s => Kept P initial s ∧ InOrder ordered s)
    ⟨kept_start, inOrder_start initial⟩ (made_start initial) (fun _ event h => made_step h event) ?_
  intro s event hmade hs
  exact and_congr (kept_step_iff hcopies hmade hs.1 event) (inOrder_step_iff hs.2 event)

end EasyHaProxy.ReadWrite
