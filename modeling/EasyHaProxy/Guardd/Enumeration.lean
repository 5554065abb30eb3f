import EasyHaProxy.Lib.LastUsed
import EasyHaProxy.Lib.Machine
import EasyHaProxy.Guardd.Engine
import EasyHaProxy.Guardd.Observations

/-! The paths one address was refused, how many new ones the burst that is on has brought, and the findings
that follow: the branch of `observe_request` for a path that no signature knows, that is no asset and whose
answer was one of `ENUMERATION_STATUSES`. -/
namespace EasyHaProxy.Guardd

def notFoundMinDistinct : Nat := 6
def notFoundWindow : Int := 3600
def wideEnumMin : Nat := 30
def massEnumMin : Nat := 100
def wideEnumWindow : Int := 600

/-- What `IpActivity` keeps of refused paths. -/
structure Enumeration where
  missingPaths : Dict Int Int := .empty
  refusedPaths : Dict Int Int := .empty
  burstStart : Int := 0
  burstMisses : Nat := 0

/-- A refused request: its path, the answer, when, and whether the refusal is a shield. -/
structure RefusedPath where
  path : String
  status : Int
  now : Int
  handled : Bool

/-- What becomes of an address: it is refused a path, or it leaves the bounded memory and is new
when it comes back. -/
inductive Enumeration.Event
  | refused (r : RefusedPath)
  | forgotten

/-- The room for refused paths: twice the first threshold at least. -/
def refusedLimit (maxPathsPerIp : Nat) : Nat := max maxPathsPerIp (2 * wideEnumMin)

namespace Enumeration

section Steps

-- `hash(path) & 0xFFFFFFFF`, which differs from process to process.
variable (digest : String → Int) (maxPaths : Nat) (ip : Ip)

/-- `note_missing`: the memory after the path, and whether the path was new. -/
def noteMissing (path : String) (ts : Int) (a : Enumeration) : Enumeration × Bool :=
  ({ a with missingPaths := putLast maxPaths a.missingPaths (digest path) ts },
    !a.missingPaths.contains (digest path))

/-- `distinct_missing`. -/
def distinctMissing (since : Int) (a : Enumeration) : Nat :=
  (a.missingPaths.entries.filter fun e => since ≤ e.2).length

/-- `_check_not_found_enumeration`: what it hands to `_emit`. -/
def notFound (now : Int) (a : Enumeration) : List Finding :=
  let distinct := a.distinctMissing (now - notFoundWindow)
  if distinct < notFoundMinDistinct then []
  else [{ ip, eventType := .notFoundEnum, source := "haproxy-log", detail := "distinct=" ++ toString distinct }]

/-- `note_refused`: the memory after the path, and whether the path was new. -/
def noteRefused (path : String) (ts : Int) (a : Enumeration) : Enumeration × Bool :=
  let fresh := !a.refusedPaths.contains (digest path)
  let a := { a with refusedPaths := putLast (refusedLimit maxPaths) a.refusedPaths (digest path) ts }
  if !fresh then (a, false)
  else
    let a := if wideEnumWindow < ts - a.burstStart then { a with burstStart := ts, burstMisses := 0 } else a
    ({ a with burstMisses := a.burstMisses + 1 }, true)

/-- `_check_enumeration_breadth`: what it hands to `_emit`. -/
def breadth (handled : Bool) (a : Enumeration) : List Finding :=
  if a.burstMisses < wideEnumMin then []
  else
    let detail := "distinct=" ++ toString a.burstMisses ++ " within " ++ toString wideEnumWindow ++ "s"
    { ip, eventType := .wideEnum, source := "haproxy-log", detail, handled } ::
      if massEnumMin ≤ a.burstMisses then
        [{ ip, eventType := .massEnum, source := "haproxy-log", detail, handled }]
      else []

/-- A path not found is noted as missing first. -/
def missed (r : RefusedPath) (a : Enumeration) : Enumeration × Bool :=
  if r.status = 404 then a.noteMissing digest maxPaths r.path r.now else (a, false)

def step : Enumeration → Event → Enumeration
  | a, .refused r => ((a.missed digest maxPaths r).1.noteRefused digest maxPaths r.path r.now).1
  | _, .forgotten => {}

def found (a : Enumeration) (r : RefusedPath) : List Finding :=
  let missed := a.missed digest maxPaths r
  let refused := missed.1.noteRefused digest maxPaths r.path r.now
  (if missed.2 then missed.1.notFound ip r.now else []) ++
    if refused.2 then refused.1.breadth ip r.handled else []

end Steps

variable {digest : String → Int} {limit maxPaths : Nat} {ip : Ip} {a : Enumeration} {r : RefusedPath}
  {f : Finding} {k : Int} {rs : List RefusedPath}

theorem keys_putLast {d : Dict Int Int} {v : Int} :
    (putLast limit d k v).keys = LastUsed.touch limit d.keys k := by
  have hkeys : (d.erase k).entries.map Prod.fst = d.keys.filter (· ≠ k) := by
    simp only [Dict.erase, Dict.keys, List.filter_map]
    rfl
  have hlen : (d.erase k).entries.length = (d.keys.filter (· ≠ k)).length := by
    rw [← hkeys, List.length_map]
  change ((((d.erase k).entries ++ [(k, v)]).drop ((d.erase k).entries.length + 1 - limit)).map Prod.fst) = _
  rw [List.map_drop, List.map_append, hkeys, hlen]
  rfl

theorem contains_digest : a.refusedPaths.contains k = true ↔ k ∈ a.refusedPaths.keys := by
  rw [← not_iff_not, Bool.not_eq_true, Dict.contains_eq_false, Dict.not_mem_keys]

@[simp] theorem missed_refusedPaths : (a.missed digest maxPaths r).1.refusedPaths = a.refusedPaths := by
  unfold missed
  split <;> rfl

@[simp] theorem missed_burstStart : (a.missed digest maxPaths r).1.burstStart = a.burstStart := by
  unfold missed
  split <;> rfl

@[simp] theorem missed_burstMisses : (a.missed digest maxPaths r).1.burstMisses = a.burstMisses := by
  unfold missed
  split <;> rfl

/-- A path that is in the memory is put at its end, and nothing else changes. -/
theorem noteRefused_old (h : digest r.path ∈ a.refusedPaths.keys) :
    (a.missed digest maxPaths r).1.noteRefused digest maxPaths r.path r.now =
      ({ (a.missed digest maxPaths r).1 with
         refusedPaths := putLast (refusedLimit maxPaths) a.refusedPaths (digest r.path) r.now }, false) := by
  simp [noteRefused, contains_digest.mpr h]

/-- A new path counts in the burst, or begins one. -/
theorem noteRefused_new (h : digest r.path ∉ a.refusedPaths.keys) :
    (a.missed digest maxPaths r).1.noteRefused digest maxPaths r.path r.now =
      ({ (a.missed digest maxPaths r).1 with
         refusedPaths := putLast (refusedLimit maxPaths) a.refusedPaths (digest r.path) r.now
         burstStart := if wideEnumWindow < r.now - a.burstStart then r.now else a.burstStart
         burstMisses := if wideEnumWindow < r.now - a.burstStart then 1 else a.burstMisses + 1 }, true) := by
  have hno : a.refusedPaths.contains (digest r.path) = false := by
    rw [← Bool.not_eq_true, contains_digest]
    exact h
  by_cases hlate : wideEnumWindow < r.now - a.burstStart <;> simp [noteRefused, hno, hlate]

theorem keys_step :
    (a.step digest maxPaths (.refused r)).refusedPaths.keys =
      LastUsed.touch (refusedLimit maxPaths) a.refusedPaths.keys (digest r.path) := by
  by_cases h : digest r.path ∈ a.refusedPaths.keys
  · rw [step, noteRefused_old h, keys_putLast]
  · rw [step, noteRefused_new h, keys_putLast]

/-! ## What a sweep is found by -/

theorem unseen_step (h : k ∉ a.refusedPaths.keys) (hne : k ≠ digest r.path) :
    k ∉ (a.step digest maxPaths (.refused r)).refusedPaths.keys := by
  rw [keys_step]
  intro hmem
  rcases LastUsed.mem_touch hmem with hk | hold
  · exact hne hk
  · exact h hold

theorem unseen_run (h : k ∉ a.refusedPaths.keys) (hne : k ∉ rs.map (digest ·.path)) :
    k ∉ (Machine.run (step digest maxPaths) a (rs.map .refused)).refusedPaths.keys := by
  induction rs generalizing a with
  | nil => exact h
  | cons r rs ih =>
    rw [List.map_cons, List.mem_cons, not_or] at hne
    exact ih (unseen_step h hne.1) hne.2

theorem run_new (digest : String → Int) (maxPaths : Nat) (hnew : (rs.map (digest ·.path)).Nodup)
    (hunseen : ∀ r ∈ rs, digest r.path ∉ a.refusedPaths.keys)
    (htime : ∀ r ∈ rs, r.now - a.burstStart ≤ wideEnumWindow) :
    (Machine.run (step digest maxPaths) a (rs.map .refused)).burstStart = a.burstStart ∧
      (Machine.run (step digest maxPaths) a (rs.map .refused)).burstMisses = a.burstMisses + rs.length := by
  induction rs generalizing a with
  | nil => exact ⟨rfl, rfl⟩
  | cons r rs ih =>
    rw [List.map_cons, List.nodup_cons] at hnew
    have hr := hunseen r List.mem_cons_self
    have hnot : ¬ wideEnumWindow < r.now - a.burstStart := Int.not_lt.mpr (htime r List.mem_cons_self)
    have hstart : (a.step digest maxPaths (.refused r)).burstStart = a.burstStart := by
      simp only [step, noteRefused_new hr, if_neg hnot]
    have hmisses : (a.step digest maxPaths (.refused r)).burstMisses = a.burstMisses + 1 := by
      simp only [step, noteRefused_new hr, if_neg hnot]
    have hrest := ih (a := a.step digest maxPaths (.refused r)) hnew.2
      (fun q hq => unseen_step (hunseen q (List.mem_cons_of_mem r hq)) fun he =>
        hnew.1 (he ▸ List.mem_map_of_mem hq))
      (fun q hq => hstart ▸ htime q (List.mem_cons_of_mem r hq))
    rw [List.map_cons, Machine.run_cons, List.length_cons, hrest.1, hrest.2, hstart, hmisses]
    exact ⟨rfl, by omega⟩

/-- A new path that comes late begins a burst, in which the new paths after it count. -/
theorem run_late (digest : String → Int) (maxPaths : Nat) (hnew : ((r :: rs).map (digest ·.path)).Nodup)
    (hunseen : ∀ q ∈ r :: rs, digest q.path ∉ a.refusedPaths.keys) (hlate : wideEnumWindow < r.now - a.burstStart)
    (htime : ∀ q ∈ rs, q.now - r.now ≤ wideEnumWindow) :
    (Machine.run (step digest maxPaths) a ((r :: rs).map .refused)).burstMisses = rs.length + 1 := by
  rw [List.map_cons, List.nodup_cons] at hnew
  have hr := hunseen r List.mem_cons_self
  have hstart : (a.step digest maxPaths (.refused r)).burstStart = r.now := by
    simp only [step, noteRefused_new hr, if_pos hlate]
  have hmisses : (a.step digest maxPaths (.refused r)).burstMisses = 1 := by
    simp only [step, noteRefused_new hr, if_pos hlate]
  have hrest := run_new digest maxPaths (a := a.step digest maxPaths (.refused r)) hnew.2
    (fun q hq => unseen_step (hunseen q (List.mem_cons_of_mem r hq)) fun he =>
      hnew.1 (he ▸ List.mem_map_of_mem hq))
    fun q hq => hstart ▸ htime q hq
  rw [List.map_cons, Machine.run_cons, hrest.2, hmisses, Nat.add_comm]

/-- The path that takes a burst to the threshold, or further, leads to a finding. -/
theorem found_of_misses (hnew : digest r.path ∉ a.refusedPaths.keys)
    (h : wideEnumMin ≤ (a.step digest maxPaths (.refused r)).burstMisses) :
    ∃ f ∈ a.found digest maxPaths ip r, f.eventType = .wideEnum := by
  simp only [step, noteRefused_new hnew] at h
  simp only [found, noteRefused_new hnew, if_true, breadth, if_neg (Nat.not_lt.mpr h)]
  exact ⟨_, List.mem_append_right _ List.mem_cons_self, rfl⟩

theorem found_last (maxPaths : Nat) (ip : Ip) (hsome : rs ≠ []) (hnew : (rs.map (digest ·.path)).Nodup)
    (hunseen : ∀ r ∈ rs, digest r.path ∉ a.refusedPaths.keys)
    (h : wideEnumMin ≤ (Machine.run (step digest maxPaths) a (rs.map .refused)).burstMisses) :
    ∃ pre r, rs = pre ++ [r] ∧
      ∃ f ∈ (Machine.run (step digest maxPaths) a (pre.map .refused)).found digest maxPaths ip r,
        f.eventType = .wideEnum := by
  obtain ⟨pre, r, rfl⟩ := (List.eq_nil_or_concat' rs).resolve_left hsome
  rw [List.map_append, Machine.run_append] at h
  rw [List.map_append, List.nodup_append] at hnew
  refine ⟨pre, r, rfl, found_of_misses (unseen_run (hunseen r (by simp)) fun hmem => ?_) h⟩
  exact hnew.2.2 _ hmem _ (by simp) rfl

/-- The first path that comes after the time of the burst, if one does. -/
theorem split_late (start : Int) (rs : List RefusedPath) :
    (∀ r ∈ rs, r.now - start ≤ wideEnumWindow) ∨
      ∃ before r after, rs = before ++ r :: after ∧ (∀ q ∈ before, q.now - start ≤ wideEnumWindow) ∧
        wideEnumWindow < r.now - start := by
  induction rs with
  | nil => simp
  | cons r rs ih =>
    by_cases hlate : wideEnumWindow < r.now - start
    · exact Or.inr ⟨[], r, rs, rfl, by simp, hlate⟩
    · rcases ih with hall | ⟨before, q, after, rfl, hbefore, hq⟩
      · exact Or.inl (List.forall_mem_cons.mpr ⟨Int.not_lt.mp hlate, hall⟩)
      · exact Or.inr ⟨r :: before, q, after, rfl, List.forall_mem_cons.mpr ⟨Int.not_lt.mp hlate, hbefore⟩, hq⟩

/-- Fifty-nine new paths within ten minutes are a sweep, whatever was seen of the address before and
wherever in them a burst ends: one of them leads to a finding. -/
theorem sweep_found (digest : String → Int) (maxPaths : Nat) (ip : Ip) (a : Enumeration) (rs : List RefusedPath)
    (start : Int) (htime : ∀ r ∈ rs, start ≤ r.now ∧ r.now ≤ start + wideEnumWindow)
    (hnew : (rs.map (digest ·.path)).Nodup) (hunseen : ∀ r ∈ rs, digest r.path ∉ a.refusedPaths.keys)
    (hmany : 2 * wideEnumMin - 1 ≤ rs.length) :
    ∃ pre r, pre ++ [r] <+: rs ∧
      ∃ f ∈ (Machine.run (step digest maxPaths) a (pre.map .refused)).found digest maxPaths ip r,
        f.eventType = .wideEnum := by
  have hsome : rs ≠ [] := by
    rintro rfl
    exact absurd hmany (by decide)
  rcases split_late a.burstStart rs with hall | ⟨before, r, after, hrs, hbefore, hlate⟩
  · have hmisses := (run_new digest maxPaths hnew hunseen hall).2
    have hwide : wideEnumMin ≤ (Machine.run (step digest maxPaths) a (rs.map .refused)).burstMisses := by
      simp only [wideEnumMin] at hmany ⊢
      omega
    obtain ⟨pre, r, hlast, hfound⟩ := found_last maxPaths ip hsome hnew hunseen hwide
    exact ⟨pre, r, hlast ▸ List.prefix_rfl, hfound⟩
  · have hinit : before <+: rs := ⟨r :: after, hrs.symm⟩
    have hold := run_new digest maxPaths (hnew.sublist (hinit.sublist.map _))
      (fun q hq => hunseen q (hinit.subset hq)) hbefore
    by_cases hmost : wideEnumMin ≤ before.length
    · -- Enough of them come before the burst ends.
      obtain ⟨pre, q, hlast, hfound⟩ := found_last maxPaths ip (by rintro rfl; exact absurd hmost (by decide))
        (hnew.sublist (hinit.sublist.map _)) (fun q hq => hunseen q (hinit.subset hq))
        (by rw [hold.2]; omega)
      exact ⟨pre, q, hlast ▸ hinit, hfound⟩
    · -- The others all come in the next burst, which `r` begins.
      have hnew' := hnew
      rw [hrs, List.map_append, List.nodup_append] at hnew'
      have hmem : ∀ q ∈ r :: after, q ∈ rs := fun q hq => hrs ▸ List.mem_append_right _ hq
      have hrest := run_late digest maxPaths (a := Machine.run (step digest maxPaths) a (before.map .refused)) hnew'.2.1
        (fun q hq => unseen_run (hunseen q (hmem q hq)) fun hq' => hnew'.2.2 _ hq' _ (List.mem_map_of_mem hq) rfl)
        (by rw [hold.1]; exact hlate) fun q hq => by
          have hq' := htime q (hmem q (List.mem_cons_of_mem r hq))
          have hr := htime r (hmem r List.mem_cons_self)
          omega
      have hmisses : wideEnumMin ≤ (Machine.run (step digest maxPaths) a (rs.map .refused)).burstMisses := by
        rw [hrs, List.map_append, Machine.run_append, hrest]
        have hlen := congrArg List.length hrs
        rw [List.length_append, List.length_cons] at hlen
        simp only [wideEnumMin] at hmany hmost ⊢
        omega
      obtain ⟨pre, q, hlast, hfound⟩ := found_last maxPaths ip hsome hnew hunseen hmisses
      exact ⟨pre, q, hlast ▸ List.prefix_rfl, hfound⟩

/-- As many paths as asked for, each longer than the one before. -/
def growingPaths (n : Nat) : List RefusedPath :=
  (List.range n).map fun k => ⟨String.ofList (List.replicate k 'a'), 404, 1000, false⟩

def lengthOf (path : String) : Int := path.toList.length

theorem growing_now (n : Nat) : ∀ r ∈ growingPaths n, r.now = 1000 := by
  simp [growingPaths]

theorem growing_nodup (n : Nat) : ((growingPaths n).map (lengthOf ·.path)).Nodup := by
  have hlengths : (growingPaths n).map (lengthOf ·.path) = (List.range n).map Nat.cast := by
    simp [growingPaths, lengthOf, Function.comp_def]
  rw [hlengths]
  exact List.nodup_range.map Nat.cast_injective

theorem sweep_found_growing : ∃ pre r, pre ++ [r] <+: growingPaths 59 ∧
    ∃ f ∈ (Machine.run (step lengthOf 32) {} (pre.map .refused)).found lengthOf 32 "192.0.2.7" r,
      f.eventType = .wideEnum :=
  sweep_found lengthOf 32 "192.0.2.7" {} (growingPaths 59) 1000
    (fun r hr => by rw [growing_now 59 r hr]; decide) (growing_nodup 59) (by simp [Dict.keys, Dict.empty])
    (by simp [growingPaths, wideEnumMin])

/-! ## What a finding rests on -/

/-- Where nothing counted yet there is no burst; else the memory accounts for the paths refused since
the first of the burst. -/
def Backed (digest : String → Int) (maxPaths : Nat) (ops : List Event) (a : Enumeration) : Prop :=
  a.burstMisses = 0 ∧ a.burstStart = 0 ∨
    ∃ pre first rest, ops = pre ++ (first :: rest).map .refused ∧ a.burstStart = first.now ∧
      LastUsed.Accounted (refusedLimit maxPaths) a.refusedPaths.keys ((first :: rest).map (digest ·.path)) a.burstMisses

theorem Backed.step {ops : List Event} (h : Backed digest maxPaths ops a) (hclock : wideEnumWindow < r.now) :
    Backed digest maxPaths (ops ++ [.refused r]) (a.step digest maxPaths (.refused r)) := by
  have hnodup : a.refusedPaths.keys.Nodup := a.refusedPaths.nodup
  have hlimit : 0 < refusedLimit maxPaths := Nat.lt_of_lt_of_le (by decide) (le_max_right _ _)
  have hkeys : (a.step digest maxPaths (.refused r)).refusedPaths.keys =
      LastUsed.touch (refusedLimit maxPaths) a.refusedPaths.keys (digest r.path) := keys_step
  by_cases hold : digest r.path ∈ a.refusedPaths.keys
  · rcases h with h | ⟨pre, first, rest, hops, hstart, hacc⟩
    · left
      simpa [Enumeration.step, noteRefused_old hold] using h
    · right
      refine ⟨pre, first, rest ++ [r], by simp [hops], ?_, ?_⟩
      · simpa [Enumeration.step, noteRefused_old hold] using hstart
      · have htouch := hacc.touch hnodup (digest r.path)
        rw [if_pos hold, ← hkeys] at htouch
        simpa [Enumeration.step, noteRefused_old hold] using htouch
  · right
    by_cases hlate : wideEnumWindow < r.now - a.burstStart
    · -- A new burst begins with this path.
      refine ⟨ops, r, [], rfl, ?_, ?_⟩
      · simp [Enumeration.step, noteRefused_new hold, hlate]
      · have hacc := LastUsed.accounted_start hlimit a.refusedPaths.keys (digest r.path)
        rw [← hkeys] at hacc
        simpa [Enumeration.step, noteRefused_new hold, hlate] using hacc
    · rcases h with ⟨-, hzero⟩ | ⟨pre, first, rest, hops, hstart, hacc⟩
      · rw [hzero] at hlate
        omega
      · refine ⟨pre, first, rest ++ [r], by simp [hops], ?_, ?_⟩
        · simpa [Enumeration.step, noteRefused_new hold, hlate] using hstart
        · have htouch := hacc.touch hnodup (digest r.path)
          rw [if_neg hold, ← hkeys] at htouch
          simpa [Enumeration.step, noteRefused_new hold, hlate] using htouch

theorem backed_run {ops : List Event} (hclock : ∀ q, .refused q ∈ ops → wideEnumWindow < q.now) :
    Backed digest maxPaths ops (Machine.run (step digest maxPaths) {} ops) := by
  induction ops using List.reverseRecOn with
  | nil => exact Or.inl ⟨rfl, rfl⟩
  | append_singleton ops op ih =>
    rw [Machine.run_append]
    cases op with
    | forgotten => exact Or.inl ⟨rfl, rfl⟩
    | refused r =>
      exact (ih fun q hq => hclock q (List.mem_append_left _ hq)).step
        (hclock r (List.mem_append_right _ (List.mem_singleton.mpr rfl)))

/-- A finding says that enough paths were not found lately, or that the path was new and the burst it
counts in has reached a threshold. -/
theorem found_cases (h : f ∈ a.found digest maxPaths ip r) :
    (f.eventType = .notFoundEnum ∧ r.status = 404 ∧
      notFoundMinDistinct ≤ (a.missed digest maxPaths r).1.distinctMissing (r.now - notFoundWindow)) ∨
    r.now - (a.step digest maxPaths (.refused r)).burstStart ≤ wideEnumWindow ∧
      (f.eventType = .wideEnum ∧ wideEnumMin ≤ (a.step digest maxPaths (.refused r)).burstMisses ∨
        f.eventType = .massEnum ∧ massEnumMin ≤ (a.step digest maxPaths (.refused r)).burstMisses) := by
  rcases List.mem_append.mp h with h | h
  · left
    split at h
    · next hmissed =>
      simp only [notFound] at h
      split at h
      · cases h
      · next hmany =>
        rw [List.mem_singleton] at h
        refine ⟨h ▸ rfl, ?_, Nat.le_of_not_lt hmany⟩
        by_contra hstatus
        rw [missed, if_neg hstatus] at hmissed
        cases hmissed
    · cases h
  · right
    have hnew : digest r.path ∉ a.refusedPaths.keys := by
      intro hold
      simp [noteRefused_old hold] at h
    have htime : r.now - (a.step digest maxPaths (.refused r)).burstStart ≤ wideEnumWindow := by
      simp only [step, noteRefused_new hnew, wideEnumWindow]
      omega
    refine ⟨htime, ?_⟩
    have hbreadth : f ∈ (a.step digest maxPaths (.refused r)).breadth ip r.handled := by
      simpa [step, noteRefused_new hnew] using h
    unfold breadth at hbreadth
    split at hbreadth
    · cases hbreadth
    · next hwide =>
      rcases List.mem_cons.mp hbreadth with rfl | hmass
      · exact Or.inl ⟨rfl, Nat.le_of_not_lt hwide⟩
      · split at hmass
        · next hmany =>
          rw [List.mem_singleton] at hmass
          exact Or.inr ⟨hmass ▸ rfl, hmany⟩
        · cases hmass

/-- How many different paths a finding about a burst rests on. -/
def restsOn (maxPaths : Nat) : EventType → Nat
  | .massEnum => min massEnumMin (refusedLimit maxPaths + 1)
  | _ => wideEnumMin

/-- In every run, a finding about a burst rests on refused requests of the address from at most ten
minutes before on, for as many different paths as it says, though no more than one above what the
memory holds. -/
theorem sweep_backed (digest : String → Int) (maxPaths : Nat) (ip : Ip) (ops : List Event)
    (r : RefusedPath) (f : Finding) (hclock : ∀ q, .refused q ∈ ops ++ [.refused r] → wideEnumWindow < q.now)
    (hf : f ∈ (Machine.run (step digest maxPaths) {} ops).found digest maxPaths ip r)
    (hburst : f.eventType ≠ .notFoundEnum) :
    ∃ pre first rest, ops ++ [.refused r] = pre ++ (first :: rest).map .refused ∧
      r.now - first.now ≤ wideEnumWindow ∧
      restsOn maxPaths f.eventType ≤ ((first :: rest).map (·.path)).toFinset.card := by
  have hlimit : 2 * wideEnumMin ≤ refusedLimit maxPaths := le_max_right _ _
  have hbacked : Backed digest maxPaths (ops ++ [.refused r]) _ := backed_run hclock
  rw [Machine.run_append, Machine.run_cons, Machine.run_nil] at hbacked
  obtain ⟨htime, hmisses⟩ := (found_cases hf).resolve_left fun hmissing => hburst hmissing.1
  rcases hbacked with ⟨hnone, -⟩ | ⟨pre, first, rest, hops, hstart, hacc⟩
  · rcases hmisses with ⟨-, h⟩ | ⟨-, h⟩ <;> rw [hnone] at h <;> cases h
  · refine ⟨pre, first, rest, hops, hstart ▸ htime, ?_⟩
    have hcard := hacc.le_card (Dict.nodup _)
    have hpaths : (((first :: rest).map (digest ·.path)).toFinset).card ≤
        ((first :: rest).map (·.path)).toFinset.card := by
      have himage : ((first :: rest).map (digest ·.path)).toFinset =
          ((first :: rest).map (·.path)).toFinset.image digest := by
        ext k
        simp
      rw [himage]
      exact Finset.card_image_le
    refine le_trans ?_ (hcard.trans hpaths)
    simp only [wideEnumMin, massEnumMin] at hlimit hmisses
    rcases hmisses with ⟨htype, h⟩ | ⟨htype, h⟩ <;> rw [htype] <;>
      simp only [restsOn, wideEnumMin, massEnumMin] <;> omega

theorem sweep_backed_growing : ∃ before r, growingPaths 30 = before ++ [r] ∧
    ∃ f ∈ (Machine.run (step lengthOf 32) {} (before.map .refused)).found lengthOf 32 "192.0.2.7" r,
      ∃ pre first rest, before.map Event.refused ++ [.refused r] = pre ++ (first :: rest).map .refused ∧
        r.now - first.now ≤ wideEnumWindow ∧
        restsOn 32 f.eventType ≤ ((first :: rest).map (·.path)).toFinset.card := by
  have hmisses : wideEnumMin ≤ (Machine.run (step lengthOf 32) {} ((growingPaths 30).map .refused)).burstMisses := by
    decide +kernel
  obtain ⟨before, r, hlast, f, hf, htype⟩ := found_last 32 "192.0.2.7" (by simp [growingPaths])
    (growing_nodup 30) (by simp [Dict.keys, Dict.empty]) hmisses
  refine ⟨before, r, hlast, f, hf, sweep_backed lengthOf 32 "192.0.2.7" (before.map .refused) r f
    (fun q hq => ?_) hf (by simp [htype])⟩
  have hmem : q ∈ growingPaths 30 := by
    rw [hlast]
    simpa using hq
  rw [growing_now 30 q hmem]
  decide

/-- The paths the address was not found since then. -/
def missedSince (since : Int) (ops : List Event) : List String :=
  ops.filterMap fun
    | .refused q => if q.status = 404 ∧ since ≤ q.now then some q.path else none
    | .forgotten => none

/-- Every missing path in the memory was asked for at the time that stands with it. -/
def Missed (digest : String → Int) (ops : List Event) (a : Enumeration) : Prop :=
  ∀ e ∈ a.missingPaths.entries, ∃ q, Event.refused q ∈ ops ∧ q.status = 404 ∧ digest q.path = e.1 ∧ q.now = e.2

theorem missingPaths_step :
    (a.step digest maxPaths (.refused r)).missingPaths = (a.missed digest maxPaths r).1.missingPaths := by
  by_cases h : digest r.path ∈ a.refusedPaths.keys
  · rw [step, noteRefused_old h]
  · rw [step, noteRefused_new h]

theorem Missed.step {ops : List Event} (h : Missed digest ops a) (op : Event) :
    Missed digest (ops ++ [op]) (a.step digest maxPaths op) := by
  cases op with
  | forgotten => simp [Missed, Enumeration.step, Dict.empty]
  | refused r =>
    have hkept : ∀ e ∈ a.missingPaths.entries, ∃ q, Event.refused q ∈ ops ++ [.refused r] ∧
        q.status = 404 ∧ digest q.path = e.1 ∧ q.now = e.2 := by
      intro e he
      obtain ⟨q, hq, hrest⟩ := h e he
      exact ⟨q, List.mem_append_left _ hq, hrest⟩
    intro e he
    rw [missingPaths_step, missed] at he
    split at he
    · next hstatus =>
      rcases mem_putLast he with rfl | hold
      · exact ⟨r, by simp, hstatus, rfl, rfl⟩
      · exact hkept e hold
    · exact hkept e he

theorem missed_run (digest : String → Int) (maxPaths : Nat) (ops : List Event) :
    Missed digest ops (Machine.run (step digest maxPaths) {} ops) := by
  induction ops using List.reverseRecOn with
  | nil => simp [Missed, Machine.run_nil, Dict.empty]
  | append_singleton ops op ih =>
    rw [Machine.run_append]
    exact ih.step op

/-- The memory holds no more late paths than were asked for. -/
theorem Missed.distinct_le {ops : List Event} (h : Missed digest ops a) (since : Int) :
    a.distinctMissing since ≤ (missedSince since ops).toFinset.card := by
  have hnodup : ((a.missingPaths.entries.filter fun e => since ≤ e.2).map Prod.fst).Nodup :=
    a.missingPaths.nodup.sublist (List.filter_sublist.map _)
  rw [distinctMissing, ← List.length_map Prod.fst, ← List.toFinset_card_of_nodup hnodup]
  refine le_trans (Finset.card_le_card fun k hk => ?_) (Finset.card_image_le (f := digest))
  obtain ⟨e, he, rfl⟩ := List.mem_map.mp (List.mem_toFinset.mp hk)
  obtain ⟨hmem, hlate⟩ := List.mem_filter.mp he
  obtain ⟨q, hq, hstatus, hdigest, hnow⟩ := h e hmem
  refine Finset.mem_image.mpr ⟨q.path, List.mem_toFinset.mpr (List.mem_filterMap.mpr ⟨_, hq, ?_⟩), hdigest⟩
  exact if_pos ⟨hstatus, hnow ▸ of_decide_eq_true hlate⟩

/-- In every run, a finding about paths that are not found rests on as many different ones, asked
for in the last hour. -/
theorem not_found_backed (digest : String → Int) (maxPaths : Nat) (ip : Ip) (ops : List Event)
    (r : RefusedPath) (f : Finding)
    (hf : f ∈ (Machine.run (step digest maxPaths) {} ops).found digest maxPaths ip r)
    (hmissing : f.eventType = .notFoundEnum) :
    notFoundMinDistinct ≤ (missedSince (r.now - notFoundWindow) (ops ++ [.refused r])).toFinset.card := by
  have hrun := missed_run digest maxPaths (ops ++ [.refused r])
  rw [Machine.run_append, Machine.run_cons, Machine.run_nil] at hrun
  rcases found_cases hf with ⟨-, -, hmany⟩ | ⟨-, ⟨htype, -⟩ | ⟨htype, -⟩⟩
  · rw [distinctMissing, ← missingPaths_step] at hmany
    exact hmany.trans (hrun.distinct_le _)
  · rw [hmissing] at htype
    cases htype
  · rw [hmissing] at htype
    cases htype

theorem not_found_backed_growing :
    notFoundMinDistinct ≤ (missedSince (1000 - notFoundWindow) ((growingPaths 5).map Event.refused ++
      [.refused ⟨"/aaaaa", 404, 1000, false⟩])).toFinset.card := by
  have hfound : ∃ f ∈ (Machine.run (step lengthOf 32) {} ((growingPaths 5).map Event.refused)).found lengthOf 32
      "192.0.2.7" ⟨"/aaaaa", 404, 1000, false⟩, f.eventType = .notFoundEnum := by
    decide +kernel
  obtain ⟨f, hf, hmissing⟩ := hfound
  exact not_found_backed lengthOf 32 "192.0.2.7" ((growingPaths 5).map Event.refused) ⟨"/aaaaa", 404, 1000, false⟩ f
    hf hmissing

end Enumeration

end EasyHaProxy.Guardd
