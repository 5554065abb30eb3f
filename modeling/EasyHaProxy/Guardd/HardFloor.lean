import Mathlib.Data.List.Perm.Subperm
import Mathlib.Data.Prod.Lex
import Mathlib.Data.String.Basic
import EasyHaProxy.Lib.Dict
import EasyHaProxy.Lib.Machine
import EasyHaProxy.Guardd.Basic

/-! `HardFloorWatch.update` counts, for each key over its ceiling, the reads in a row that had it. The table
of these counts is built anew on every read, and is bounded. -/
namespace EasyHaProxy.Guardd

/-- `HARD_FLOOR_SUSTAIN_READS`. -/
def hardFloorSustainReads : Nat := 2

/-- `HARD_FLOOR_MAX_TRACKED`. -/
def hardFloorMaxTracked : Nat := 4096

/-- Address, table and counter. -/
abbrev FloorKey := Ip ×ₗ String ×ₗ String

/-- What one read has over a ceiling: the value and the ceiling. -/
abbrev FloorRead := Dict FloorKey (Int × Int)

structure HardFloorWatch where
  streak : Dict FloorKey Nat := .empty
  episodes : Nat := 0

namespace HardFloorWatch

/-- `sorted(over)`, each key with what it has. -/
def sortedRead (high : FloorRead) : List (FloorKey × Int × Int) :=
  high.entries.insertionSort fun a b => a.1 ≤ b.1

/-- One round of the loop of `update`; `earlier` is the table of the read before. -/
def take (earlier : Dict FloorKey Nat) (acc : Dict FloorKey Nat × List (FloorKey × Int × Int))
    (e : FloorKey × Int × Int) : Dict FloorKey Nat × List (FloorKey × Int × Int) :=
  let count := earlier.getD e.1 0 + 1
  (if acc.1.entries.length < hardFloorMaxTracked then acc.1.set e.1 count else acc.1,
    if hardFloorSustainReads ≤ count then acc.2 ++ [e] else acc.2)

/-- `update`. -/
def update (w : HardFloorWatch) (high : FloorRead) : HardFloorWatch × List (FloorKey × Int × Int) :=
  let out := (sortedRead high).foldl (take w.streak) (.empty, [])
  ({ streak := out.1, episodes := w.episodes + out.2.length }, out.2)

/-! ## What one read does -/

variable {w : HardFloorWatch} {high earlier : FloorRead} {key : FloorKey}
  {streak : Dict FloorKey Nat} {sorted : List (FloorKey × Int × Int)}
  {acc : Dict FloorKey Nat × List (FloorKey × Int × Int)}

theorem mem_sortedRead : key ∈ (sortedRead high).map Prod.fst ↔ key ∈ high.keys := by
  simp [sortedRead, Dict.keys, List.mem_insertionSort]

theorem nodup_sortedRead : ((sortedRead high).map Prod.fst).Nodup :=
  ((List.perm_insertionSort _ high.entries).map Prod.fst).nodup_iff.mpr high.nodup

/-- The table takes keys in their order until it is full. -/
theorem keys_foldl_take (hn : (acc.1.keys ++ sorted.map Prod.fst).Nodup) :
    (sorted.foldl (take streak) acc).1.keys =
      acc.1.keys ++ (sorted.map Prod.fst).take (hardFloorMaxTracked - acc.1.entries.length) := by
  induction sorted generalizing acc with
  | nil => simp
  | cons e sorted ih =>
    rw [List.foldl_cons, List.map_cons]
    have hnew : e.1 ∉ acc.1.keys := fun h =>
      List.disjoint_of_nodup_append hn h List.mem_cons_self
    by_cases hroom : acc.1.entries.length < hardFloorMaxTracked
    · have hentries : (take streak acc e).1.entries = acc.1.entries ++ [(e.1, streak.getD e.1 0 + 1)] := by
        rw [take, if_pos hroom]
        exact Dict.entries_set_of_not_mem hnew
      have hkeys : (take streak acc e).1.keys = acc.1.keys ++ [e.1] := by
        simp [Dict.keys, hentries]
      obtain ⟨room, hsize⟩ : ∃ room, hardFloorMaxTracked - acc.1.entries.length = room + 1 :=
        ⟨hardFloorMaxTracked - acc.1.entries.length - 1, by omega⟩
      rw [ih (by simpa [hkeys] using hn), hkeys, hentries, hsize, List.take_succ_cons]
      have hroom' : hardFloorMaxTracked - (acc.1.entries ++ [(e.1, streak.getD e.1 0 + 1)]).length = room := by
        rw [List.length_append, List.length_singleton]
        omega
      rw [hroom', List.append_assoc, List.singleton_append]
    · have hsame : (take streak acc e).1 = acc.1 := by
        rw [take, if_neg hroom]
      have hrest : (acc.1.keys ++ sorted.map Prod.fst).Nodup :=
        hn.sublist (List.Sublist.append_left (List.sublist_cons_self _ _) _)
      have hfull : hardFloorMaxTracked - acc.1.entries.length = 0 := by omega
      rw [ih (by rwa [hsame]), hsame, hfull]
      simp

theorem sustained_foldl_take : (sorted.foldl (take streak) acc).2 =
    acc.2 ++ sorted.filter fun e => hardFloorSustainReads ≤ streak.getD e.1 0 + 1 := by
  induction sorted generalizing acc with
  | nil => simp
  | cons e sorted ih =>
    rw [List.foldl_cons, ih]
    by_cases hcount : hardFloorSustainReads ≤ streak.getD e.1 0 + 1
    · simp [take, hcount]
    · simp [take, hcount]

/-- The keys whose count goes on with the next read. -/
theorem keys_update :
    (w.update high).1.streak.keys = ((sortedRead high).map Prod.fst).take hardFloorMaxTracked := by
  change ((sortedRead high).foldl (take w.streak) (.empty, [])).1.keys = _
  rw [keys_foldl_take]
  · rfl
  · have hn : ((sortedRead high).map Prod.fst).Nodup := nodup_sortedRead
    simpa [Dict.keys, Dict.empty] using hn

/-- Every count in the table is of at least one read. -/
def Counted (streak : Dict FloorKey Nat) : Prop := ∀ key count, streak.get? key = some count → 0 < count

theorem counted_foldl_take (h : Counted acc.1) : Counted (sorted.foldl (take streak) acc).1 := by
  induction sorted generalizing acc with
  | nil => exact h
  | cons e sorted ih =>
    refine ih ?_
    unfold take
    dsimp only
    split
    · intro key count hget
      rw [Dict.get?_set] at hget
      split at hget
      · cases hget
        exact Nat.succ_pos _
      · exact h key count hget
    · exact h

theorem counted_update : Counted (w.update high).1.streak := counted_foldl_take nofun

/-- A key is sustained when it is over its ceiling now and the table has it. -/
theorem sustained_update_iff (h : Counted w.streak) :
    key ∈ (w.update high).2.map Prod.fst ↔ key ∈ high.keys ∧ key ∈ w.streak.keys := by
  change key ∈ ((sortedRead high).foldl (take w.streak) (.empty, [])).2.map Prod.fst ↔ _
  have hcount : hardFloorSustainReads ≤ w.streak.getD key 0 + 1 ↔ key ∈ w.streak.keys := by
    rw [Dict.mem_keys, Dict.getD]
    cases hget : w.streak.get? key with
    | none => simp [hardFloorSustainReads]
    | some count =>
      have := h key count hget
      simp [hardFloorSustainReads]
      omega
  rw [sustained_foldl_take, List.nil_append, ← mem_sortedRead, ← hcount]
  simp only [List.mem_map, List.mem_filter, decide_eq_true_eq]
  constructor
  · rintro ⟨e, ⟨hmem, hle⟩, rfl⟩
    exact ⟨⟨e, hmem, rfl⟩, hle⟩
  · rintro ⟨⟨e, hmem, rfl⟩, hle⟩
    exact ⟨e, ⟨hmem, hle⟩, rfl⟩

/-! ## Read after read -/

structure Reads where
  watch : HardFloorWatch := {}
  earlier : FloorRead := .empty

def Reads.next (s : Reads) (high : FloorRead) : Reads := ⟨(s.watch.update high).1, high⟩

def Exact (s : Reads) (high : FloorRead) : Prop :=
  ∀ key, key ∈ (s.watch.update high).2.map Prod.fst ↔ key ∈ high.keys ∧ key ∈ s.earlier.keys

/-- What a read has in common with the one before is among the first keys of that one. -/
def Tracked (s : Reads) (high : FloorRead) : Prop :=
  ∀ key ∈ high.keys, key ∈ s.earlier.keys →
    key ∈ ((sortedRead s.earlier).map Prod.fst).take hardFloorMaxTracked

/-- The table is that of the read before. -/
structure Reads.Sound (s : Reads) : Prop where
  keys : s.watch.streak.keys = ((sortedRead s.earlier).map Prod.fst).take hardFloorMaxTracked
  counted : Counted s.watch.streak

theorem Reads.sound_start : ({} : Reads).Sound := ⟨rfl, nofun⟩

theorem Reads.sound_next (s : Reads) (high : FloorRead) : (s.next high).Sound := ⟨keys_update, counted_update⟩

theorem exact_iff_tracked {s : Reads} (h : s.Sound) : Exact s high ↔ Tracked s high := by
  unfold Exact Tracked
  simp only [sustained_update_iff h.counted, h.keys]
  have hsub : ∀ key ∈ ((sortedRead s.earlier).map Prod.fst).take hardFloorMaxTracked, key ∈ s.earlier.keys :=
    fun key hkey => mem_sortedRead.mp (List.mem_of_mem_take hkey)
  constructor
  · intro hall key hover hearlier
    exact ((hall key).mpr ⟨hover, hearlier⟩).2
  · intro htracked key
    constructor
    · rintro ⟨hover, hkey⟩
      exact ⟨hover, hsub key hkey⟩
    · rintro ⟨hover, hearlier⟩
      exact ⟨hover, htracked key hover hearlier⟩

/-- Of every sequence of reads: each returns the keys of two reads in a row exactly when no key that
stays lies beyond the bound of the table. -/
theorem episodes_exact_iff (reads : List FloorRead) :
    Machine.Along Reads.next Exact {} reads ↔ Machine.Along Reads.next Tracked {} reads := by
  constructor
  · intro h
    exact h.imp_of_invariant Reads.sound_start (fun s high _ _ => s.sound_next high)
      fun s high hs hexact => (exact_iff_tracked hs).mp hexact
  · intro h
    exact h.imp_of_invariant Reads.sound_start (fun s high _ _ => s.sound_next high)
      fun s high hs htracked => (exact_iff_tracked hs).mpr htracked

/-- One address more than the table takes, each over the ceiling of the request rate. -/
def flood : FloorRead where
  entries := (List.range (hardFloorMaxTracked + 1)).map fun n =>
    (toLex (String.ofList (List.replicate n 'a'), toLex ("tbl_req_rate", "http_req_rate")), 900, 800)
  nodup := by
    rw [List.map_map]
    refine List.nodup_range.map ?_
    intro m n h
    have hlist := String.ofList_injective (congrArg (fun key : FloorKey => (ofLex key).1) h)
    simpa using congrArg List.length hlist

/-- The same flood in two reads: one address of it is left out. -/
theorem distributed_flood_missed : ¬ Machine.Along Reads.next Exact {} [flood, flood] := by
  rintro ⟨-, hexact, -⟩
  have htracked := (exact_iff_tracked (({} : Reads).sound_next flood)).mp hexact
  have hall : ∀ key ∈ (sortedRead flood).map Prod.fst,
      key ∈ ((sortedRead flood).map Prod.fst).take hardFloorMaxTracked := fun key hkey =>
    htracked key (mem_sortedRead.mp hkey) (mem_sortedRead.mp hkey)
  have hn : ((sortedRead flood).map Prod.fst).Nodup := nodup_sortedRead
  have hle := List.subperm_of_subset hn hall
  have hlength : ((sortedRead flood).map Prod.fst).length = hardFloorMaxTracked + 1 := by
    simp [sortedRead, flood]
  have := hle.length_le
  rw [List.length_take, hlength] at this
  omega

end HardFloorWatch

end EasyHaProxy.Guardd
