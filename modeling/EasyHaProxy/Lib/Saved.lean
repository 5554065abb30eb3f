import EasyHaProxy.Lib.Dict
import EasyHaProxy.Lib.Machine

/-! A call reads the installed value, makes a new one of it, writes the file and installs what it wrote.
These are three steps, and other calls may take theirs in between. -/
namespace EasyHaProxy.Saved

open Machine

variable {β π : Type}

/-- A call between its read and its end. -/
structure Call (β π : Type) where
  payload : π
  result : β
  written : Bool

structure Store (β π : Type) where
  installed : β
  file : Option β
  active : Dict Nat (Call β π)
  /-- The calls that ended, the newest first. -/
  finished : List π

def Store.start (installed : β) (file : Option β) : Store β π := ⟨installed, file, Dict.empty, []⟩

inductive Op (π : Type)
  | read (id : Nat) (payload : π)
  | write (id : Nat)
  | install (id : Nat)

/-- A call that is refused ends with its read. -/
def step (update : β → π → Option β) (s : Store β π) : Op π → Store β π
  | .read id p =>
    match s.active.get? id, update s.installed p with
    | none, some result => { s with active := s.active.set id ⟨p, result, false⟩ }
    | _, _ => s
  | .write id =>
    match s.active.get? id with
    | some call =>
      if call.written then s
      else { s with file := some call.result, active := s.active.set id { call with written := true } }
    | none => s
  | .install id =>
    match s.active.get? id with
    | some call =>
      if call.written then
        { s with installed := call.result, active := s.active.erase id, finished := call.payload :: s.finished }
      else s
    | none => s

/-- A call begins when no other is under way, with a payload that suits what is installed. -/
def Orderly (C : β → π → Prop) (s : Store β π) : Op π → Prop
  | .read _ p => s.active.entries = [] ∧ C s.installed p
  | _ => True

/-- One value becomes another by calls one after another, the newest first. -/
inductive Serial (update : β → π → Option β) (C : β → π → Prop) (c : β) : List π → β → Prop
  | nil : Serial update C c [] c
  | cons {ps : List π} {p : π} {b b' : β} (h : Serial update C c ps b) (hC : C b p)
      (hu : update b p = some b') : Serial update C c (p :: ps) b'

/-- At most one call is under way, and it read what is installed. -/
structure Inv (update : β → π → Option β) (C : β → π → Prop) (c : β) (s : Store β π) : Prop where
  serial : Serial update C c s.finished s.installed
  active : s.active.entries = [] ∨ ∃ id call, s.active.entries = [(id, call)] ∧ C s.installed call.payload ∧
    update s.installed call.payload = some call.result ∧ (call.written = true → s.file = some call.result)
  settled : s.active.entries = [] → s.finished ≠ [] → s.file = some s.installed

variable {update : β → π → Option β} {C : β → π → Prop} {b b' c : β} {p : π} {ps : List π} {id : Nat}
  {s : Store β π} {op : Op π} {ops : List (Op π)} {call : Call β π}

theorem inv_start (file : Option β) : Inv update C c (Store.start c file) :=
  ⟨.nil, Or.inl rfl, fun _ h => absurd rfl h⟩

theorem Inv.of_get? (h : Inv update C c s) (hget : s.active.get? id = some call) :
    s.active.entries = [(id, call)] ∧ C s.installed call.payload ∧
      update s.installed call.payload = some call.result ∧ (call.written = true → s.file = some call.result) := by
  have hmem := Dict.mem_entries.mpr hget
  rcases h.active with hnone | ⟨id', call', hone, hrest⟩
  · rw [hnone] at hmem
    cases hmem
  · rw [hone, List.mem_singleton] at hmem
    obtain ⟨rfl, rfl⟩ := Prod.mk.inj hmem
    exact ⟨hone, hrest⟩

theorem entries_set_of_singleton (call' : Call β π) (h : s.active.entries = [(id, call)]) :
    (s.active.set id call').entries = [(id, call')] := by
  have hk : id ∈ s.active.keys := by simp [Dict.keys, h]
  simp [Dict.set, hk, h, Dict.replaceEntry]

theorem entries_erase_of_singleton (h : s.active.entries = [(id, call)]) : (s.active.erase id).entries = [] := by
  simp [Dict.erase, h]

theorem Inv.step (h : Inv update C c s) (hop : Orderly C s op) : Inv update C c (step update s op) := by
  cases op with
  | read id p =>
    simp only [Saved.step]
    obtain ⟨hnone, hC⟩ := hop
    split
    · rename_i result hfree hu
      have hentries : (s.active.set id ⟨p, result, false⟩).entries = [(id, ⟨p, result, false⟩)] := by
        rw [Dict.entries_set_of_not_mem (Dict.not_mem_keys.mpr hfree), hnone]
        rfl
      refine ⟨h.serial, Or.inr ⟨id, _, hentries, hC, hu, fun hw => by cases hw⟩, fun hempty => ?_⟩
      rw [hentries] at hempty
      cases hempty
    · exact h
  | write id =>
    simp only [Saved.step]
    split
    · rename_i call hget
      obtain ⟨hone, hC, hu, -⟩ := h.of_get? hget
      split
      · exact h
      · have hentries := entries_set_of_singleton { call with written := true } hone
        refine ⟨h.serial, Or.inr ⟨id, _, hentries, hC, hu, fun _ => rfl⟩, fun hempty => ?_⟩
        rw [hentries] at hempty
        cases hempty
    · exact h
  | install id =>
    simp only [Saved.step]
    split
    · rename_i call hget
      obtain ⟨hone, hC, hu, hfile⟩ := h.of_get? hget
      split
      · rename_i hw
        exact ⟨.cons h.serial hC hu, Or.inl (entries_erase_of_singleton hone), fun _ _ => hfile hw⟩
      · exact h
    · exact h

/-- Calls that do not overlap are serial, and when none is under way the file holds what is
installed. -/
theorem serial_of_orderly (file : Option β) (h : Along (step update) (Orderly C) (Store.start c file) ops) :
    Inv update C c (run (step update) (Store.start c file) ops) :=
  h.keeps (inv_start file) (fun _ _ hs hop => hs.step hop)

/-- What holds of the first value and is kept by every call holds of the last. -/
theorem Serial.keeps {P : β → Prop} (h : Serial update C c ps b) (hc : P c)
    (hkeep : ∀ b p b', P b → update b p = some b' → P b') : P b := by
  induction h with
  | nil => exact hc
  | cons _ _ hu ih => exact hkeep _ _ _ ih hu

/-- Where every call gives its settings their values and leaves the others alone, a setting has the
value of the newest call that names it. -/
theorem Serial.value_eq {σ ν : Type} {value : β → σ → ν} {wanted : π → σ → Option ν} (h : Serial update C c ps b)
    {P : β → Prop} (hc : P c) (hkeep : ∀ b p b', P b → update b p = some b' → P b')
    (hframe : ∀ b p b', P b → C b p → update b p = some b' → ∀ k, value b' k = (wanted p k).getD (value b k))
    (k : σ) : value b k = (ps.findSome? (fun p => wanted p k)).getD (value c k) := by
  induction h with
  | nil => rfl
  | cons hrest hC hu ih =>
    rw [hframe _ _ _ (hrest.keeps hc hkeep) hC hu, ih, List.findSome?_cons]
    cases wanted _ k <;> rfl

end EasyHaProxy.Saved
