import Mathlib.Logic.Function.Basic

/-! Sessions take the lock, read the file, replace it as a whole and give the lock back, one step at a time.
What a session has read is what it replaces. -/
namespace EasyHaProxy.Locked

variable {β : Type} {id other : Nat}

structure File (β : Type) where
  content : β
  holder : Option Nat
  /-- What a session read since it took the lock. -/
  copy : Nat → Option β
  /-- Every content the file had, the newest first. -/
  written : List β

namespace File

variable {f : File β}

def new (content : β) : File β := ⟨content, none, fun _ => none, [content]⟩

def lock (f : File β) (id : Nat) : File β :=
  if f.holder = none then { f with holder := some id } else f

def read (f : File β) (id : Nat) : File β :=
  if f.holder = some id then { f with copy := Function.update f.copy id (some f.content) } else f

def write (f : File β) (id : Nat) (content : β) : File β :=
  if f.holder = some id then
    { f with
      content := content
      copy := Function.update f.copy id none
      written := content :: f.written }
  else f

def unlock (f : File β) (id : Nat) : File β :=
  if f.holder = some id then { f with holder := none, copy := Function.update f.copy id none } else f

structure Inv (f : File β) : Prop where
  copy : ∀ id b, f.copy id = some b → f.holder = some id ∧ b = f.content
  content : f.content ∈ f.written

theorem inv_new (content : β) : Inv (new content) :=
  ⟨fun _ _ h => (by cases h), List.mem_cons_self⟩

theorem inv_lock (h : Inv f) (id : Nat) : Inv (f.lock id) := by
  unfold lock
  split
  · rename_i hnone
    refine ⟨fun other b hb => ?_, h.content⟩
    -- nobody holds a copy of a file that is not locked
    have hholder := (h.copy other b hb).1
    rw [hnone] at hholder
    cases hholder
  · exact h

theorem inv_read (h : Inv f) (id : Nat) : Inv (f.read id) := by
  unfold read
  split
  · rename_i hid
    refine ⟨fun other b hb => ?_, h.content⟩
    by_cases ho : other = id
    · subst ho
      have heq : some f.content = some b := by simpa using hb
      exact ⟨hid, (Option.some.inj heq).symm⟩
    · exact h.copy other b (by simpa [ho] using hb)
  · exact h

theorem Inv.copy_of_ne (h : Inv f) (hid : f.holder = some id) (ho : other ≠ id) : f.copy other = none := by
  cases hb : f.copy other with
  | none => rfl
  | some b =>
    have hholder := (h.copy other b hb).1
    rw [hid] at hholder
    exact absurd (Option.some.inj hholder).symm ho

theorem inv_write (h : Inv f) (id : Nat) (content : β) : Inv (f.write id content) := by
  unfold write
  split
  · rename_i hid
    refine ⟨fun other b hb => ?_, List.mem_cons_self⟩
    by_cases ho : other = id
    · subst ho
      simp at hb
    · have hnone := h.copy_of_ne hid ho
      simp [ho, hnone] at hb
  · exact h

theorem inv_unlock (h : Inv f) (id : Nat) : Inv (f.unlock id) := by
  unfold unlock
  split
  · rename_i hid
    refine ⟨fun other b hb => ?_, h.content⟩
    by_cases ho : other = id
    · subst ho
      simp at hb
    · have hnone := h.copy_of_ne hid ho
      simp [ho, hnone] at hb
  · exact h

theorem write_content (hid : f.holder = some id) (content : β) : (f.write id content).content = content := by
  simp [write, hid]

end File

end EasyHaProxy.Locked
