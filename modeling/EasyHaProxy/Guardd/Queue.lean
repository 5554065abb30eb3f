import EasyHaProxy.Lib.Dict
import EasyHaProxy.Guardd.Basic

/-! Addresses whose findings are waiting to be checked, first come first served within each urgency. No
address waits in both classes. -/
namespace EasyHaProxy.Guardd

theorem empty_disjoint : ∀ ip ∈ (Dict.empty : Dict Ip Nat).keys, ip ∉ (Dict.empty : Dict Ip Nat).keys := by
  simp [Dict.keys, Dict.empty]

structure EnforcementQueue where
  limit : Nat := 4096
  urgent : Dict Ip Nat := .empty
  ordinary : Dict Ip Nat := .empty
  generation : Nat := 0
  overflows : Nat := 0
  disjoint : ∀ ip ∈ urgent.keys, ip ∉ ordinary.keys := by exact empty_disjoint

namespace EnforcementQueue

/-- `OrderedDict.popitem(last=False)`. -/
def popFirst (d : Dict Ip Nat) : Dict Ip Nat :=
  match d.entries with
  | [] => d
  | e :: _ => d.erase e.1

theorem mem_keys_popFirst {d : Dict Ip Nat} {ip : Ip} (h : ip ∈ (popFirst d).keys) : ip ∈ d.keys := by
  unfold popFirst at h
  split at h
  · exact h
  · rw [Dict.mem_keys, Dict.get?_erase] at h
    split at h
    · simp at h
    · exact Dict.mem_keys.mpr h

theorem mem_keys_set {d : Dict Ip Nat} {ip j : Ip} {n : Nat} :
    j ∈ (d.set ip n).keys ↔ j = ip ∨ j ∈ d.keys := by
  rw [Dict.mem_keys, Dict.get?_set, Dict.mem_keys]
  split <;> simp_all

theorem mem_keys_erase {d : Dict Ip Nat} {ip j : Ip} : j ∈ (d.erase ip).keys ↔ j ≠ ip ∧ j ∈ d.keys := by
  rw [Dict.mem_keys, Dict.get?_erase, Dict.mem_keys]
  split <;> simp_all

section Disjoint

variable {u o : Dict Ip Nat} {ip : Ip} {n : Nat}

theorem disjoint_set_left (h : ∀ j ∈ u.keys, j ∉ o.keys) (ho : ip ∉ o.keys) :
    ∀ j ∈ (u.set ip n).keys, j ∉ o.keys := by
  intro j hj
  rcases mem_keys_set.mp hj with rfl | hj
  · exact ho
  · exact h j hj

theorem disjoint_set_right (h : ∀ j ∈ u.keys, j ∉ o.keys) (hu : ip ∉ u.keys) :
    ∀ j ∈ u.keys, j ∉ (o.set ip n).keys := by
  intro j hj hm
  rcases mem_keys_set.mp hm with rfl | hm
  · exact hu hj
  · exact h j hj hm

theorem disjoint_subset {u' o' : Dict Ip Nat} (h : ∀ j ∈ u.keys, j ∉ o.keys)
    (hu : ∀ j ∈ u'.keys, j ∈ u.keys) (ho : ∀ j ∈ o'.keys, j ∈ o.keys) :
    ∀ j ∈ u'.keys, j ∉ o'.keys :=
  fun j hj hm => h j (hu j hj) (ho j hm)

end Disjoint

/-- `target[ip] = generation` in the urgent class. -/
def markUrgent (q : EnforcementQueue) (ip : Ip) (generation : Nat) (h : ip ∉ q.ordinary.keys) :
    EnforcementQueue :=
  { q with urgent := q.urgent.set ip generation, generation, disjoint := disjoint_set_left q.disjoint h }

/-- `target[ip] = generation` in the ordinary class. -/
def markOrdinary (q : EnforcementQueue) (ip : Ip) (generation : Nat) (h : ip ∉ q.urgent.keys) :
    EnforcementQueue :=
  { q with ordinary := q.ordinary.set ip generation, generation, disjoint := disjoint_set_right q.disjoint h }

def dropOrdinary (q : EnforcementQueue) (ip : Ip) : EnforcementQueue :=
  { q with ordinary := q.ordinary.erase ip, disjoint := disjoint_subset q.disjoint (fun _ h => h) (fun _ h => (mem_keys_erase.mp h).2) }

/-- Room for a decisive finding: the sweep comes to the address that lost its place. -/
def makeRoom (q : EnforcementQueue) : EnforcementQueue :=
  { q with ordinary := popFirst q.ordinary, overflows := q.overflows + 1, disjoint := disjoint_subset q.disjoint (fun _ h => h) (fun _ h => mem_keys_popFirst h) }

def mark (q : EnforcementQueue) (ip : Ip) (urgent : Bool) : EnforcementQueue :=
  let generation := q.generation + 1
  if hu : ip ∈ q.urgent.keys then q.markUrgent ip generation (q.disjoint ip hu)
  else if ho : ip ∈ q.ordinary.keys then
    if urgent then
      (q.dropOrdinary ip).markUrgent ip generation (fun h => (mem_keys_erase.mp h).1 rfl)
    else q.markOrdinary ip generation hu
  else if q.limit ≤ q.urgent.entries.length + q.ordinary.entries.length then
    if !urgent || q.ordinary.entries.isEmpty then { q with overflows := q.overflows + 1, generation }
    else q.makeRoom.markUrgent ip generation (fun h => ho (mem_keys_popFirst h))
  else if urgent then q.markUrgent ip generation ho
  else q.markOrdinary ip generation hu

def batch (q : EnforcementQueue) (limit : Nat) : List (Ip × Nat) :=
  let urgent := q.urgent.entries.take (limit - limit / 4)
  let ordinary := q.ordinary.entries.take (limit - urgent.length)
  let urgent := if urgent.length + ordinary.length < limit
    then q.urgent.entries.take (limit - ordinary.length) else urgent
  urgent ++ ordinary

/-- Drop an address unless a newer finding has come in for it. -/
def dropAt (d : Dict Ip Nat) (ip : Ip) (generation : Nat) : Dict Ip Nat :=
  if d.get? ip = some generation then d.erase ip else d

theorem mem_keys_dropAt {d : Dict Ip Nat} {ip j : Ip} {n : Nat} (h : j ∈ (dropAt d ip n).keys) :
    j ∈ d.keys := by
  unfold dropAt at h
  split at h
  · exact (mem_keys_erase.mp h).2
  · exact h

def acknowledge (q : EnforcementQueue) (ip : Ip) (generation : Nat) : EnforcementQueue :=
  { q with
    urgent := dropAt q.urgent ip generation
    ordinary := dropAt q.ordinary ip generation
    disjoint := disjoint_subset q.disjoint (fun _ h => mem_keys_dropAt h) (fun _ h => mem_keys_dropAt h) }

/-- No address is in a batch twice. -/
theorem nodup_batch (q : EnforcementQueue) (limit : Nat) : ((q.batch limit).map Prod.fst).Nodup := by
  unfold batch
  rw [List.map_append, List.nodup_append]
  refine ⟨?_, q.ordinary.nodup.sublist ((List.take_sublist _ _).map _), ?_⟩
  · split
    · exact q.urgent.nodup.sublist ((List.take_sublist _ _).map _)
    · exact q.urgent.nodup.sublist ((List.take_sublist _ _).map _)
  · intro a ha b hb hab
    subst hab
    have hu : a ∈ q.urgent.keys := by
      split at ha <;> exact ((List.take_sublist _ _).map _).subset ha
    exact q.disjoint a hu (((List.take_sublist _ _).map _).subset hb)

end EnforcementQueue

end EasyHaProxy.Guardd
