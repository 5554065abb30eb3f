import EasyHaProxy.Guardd.Spec
import EasyHaProxy.Guardd.Followed

/-! What `ingest_tables` and `forget_ban` do to the `Track` of every address, when the statements of the
database commit; HAProxy may answer its commands as it likes. -/
namespace EasyHaProxy.Guardd.OwnBans

open Enforcer

def isNote (d : Decision) : Bool := d.action = .observed ∨ d.action = .ended ∨ d.action = .lifted

/-- What the decision history says of HAProxy's bans on an address. -/
def notes (w : World) (ip : Ip) : List Note :=
  (w.db.decisions.filter fun d => d.ip = ip ∧ isNote d).map fun d => (d.action, d.code)

def track (w : World) (ip : Ip) : Track where
  code := w.active.get? ip
  known := w.mem.knownBans.contains ip
  followed := w.mem.legacyObserved.get? ip
  notes := notes w ip

/-- As many bans as `_save_legacy_observed` keeps. -/
def Small (w : World) : Prop := w.mem.legacyObserved.entries.length ≤ knownBansMax

variable {w w' w'' : World} {ip j : Ip} {bans : Dict Ip Row} {now : Int}

def flaggedIn (table : Dict Ip BanEntry) : Dict Ip BanEntry := table.filter fun _ e => e.flagged

theorem get?_active_eq : w.active.get? ip = ((w.table.get? ip).filter BanEntry.flagged).map (·.gpt0) := by
  rw [World.active, Dict.get?_mapValues, Dict.get?_filter, World.get?_rows]
  cases w.table.get? ip with
  | none => rfl
  | some e => by_cases hf : 0 < e.gpc0 <;> simp [Option.filter, Row.flagged, BanEntry.flagged, hf]

theorem active_of_table (h : w'.table = w.table) : w'.active.get? ip = w.active.get? ip := by
  rw [get?_active_eq, get?_active_eq, h]

/-! ## Changes that no address notices -/

structure Still (w w' : World) : Prop where
  table : w'.table = w.table
  known : w'.mem.knownBans = w.mem.knownBans
  followed : w'.mem.legacyObserved = w.mem.legacyObserved
  notes : ∀ ip, notes w' ip = notes w ip

namespace Still

theorem refl (w : World) : Still w w := ⟨rfl, rfl, rfl, fun _ => rfl⟩

theorem trans (h : Still w w') (h' : Still w' w'') : Still w w'' :=
  ⟨h'.table.trans h.table, h'.known.trans h.known, h'.followed.trans h.followed,
    fun ip => (h'.notes ip).trans (h.notes ip)⟩

theorem track (h : Still w w') : track w' ip = track w ip := by
  unfold OwnBans.track
  rw [active_of_table h.table, h.known, h.followed, h.notes]

theorem small (h : Still w w') (hs : Small w) : Small w' := by
  unfold Small
  rw [h.followed]
  exact hs

theorem of_decisions {db : Database} (h : db.decisions = w.db.decisions) : Still w { w with db } :=
  ⟨rfl, rfl, rfl, fun ip => by simp only [OwnBans.notes, h]⟩

theorem memory {mem : Memory} (hk : mem.knownBans = w.mem.knownBans)
    (hf : mem.legacyObserved = w.mem.legacyObserved) : Still w { w with mem } :=
  ⟨rfl, hk, hf, fun _ => rfl⟩

theorem observeIp (ip : Ip) (ts : Int) (v : Verdict) : Still w { w with db := w.db.observeIp ip ts v } :=
  of_decisions (Database.decisions_observeIp ..)

end Still

theorem notes_recordDecision (d : Decision) : notes ((Write.sql (.recordDecision d)).apply w) j =
    notes w j ++ if d.ip = j ∧ isNote d then [(d.action, d.code)] else [] := by
  unfold notes
  change ((w.db.decisions ++ [{ d with id := w.db.nextDecisionId }]).filter _).map _ = _
  rw [List.filter_append, List.map_append]
  congr 1
  by_cases h : d.ip = j ∧ isNote d
  · rw [if_pos h, List.filter_singleton]
    have hd : (decide (d.ip = j ∧ isNote { d with id := w.db.nextDecisionId } = true)) = true := by simpa [isNote] using h
    rw [hd]
    rfl
  · rw [if_neg h, List.filter_singleton]
    have hd : (decide (d.ip = j ∧ isNote { d with id := w.db.nextDecisionId } = true)) = false := by simpa [isNote] using h
    simp [hd]

theorem Still.recordDecision {d : Decision} (h : isNote d = false) :
    Still w ((Write.sql (.recordDecision d)).apply w) :=
  ⟨rfl, rfl, rfl, fun j => by rw [notes_recordDecision]; simp [h]⟩

/-- Every write is allowed. -/
def Any (_ : World) (_ : Write) : Prop := True

section Programs

variable {I : Script → Prop} {E : Exc → World → Prop} (hI : Closed I) (hsql : SqlDone I)

include hI hsql

theorem wp_emit_still {f : Finding} {Q : Bool → World → Prop} (hQ : ∀ b w', Still w w' → Q b w') :
    WP I (By Any) (emit f now) Q E w := by
  refine WP.bind (WP.get (WP.ite (fun _ => WP.pure (hQ _ w (Still.refl w))) (fun _ => ?_)))
  refine WP.bind (wp_sql hI trivial ?_ (absurd hsql))
  generalize hw₁ : Write.apply w (.sql (.noteCooldown _ now)) = w₁
  have h₁ : Still w w₁ := hw₁ ▸ Still.of_decisions rfl
  refine WP.bind (wp_sql hI trivial ?_ (absurd hsql))
  generalize hw₂ : Write.apply w₁ (.sql (.observeIp f.ip now _)) = w₂
  have h₂ : Still w₁ w₂ := hw₂ ▸ Still.observeIp _ _ _
  refine WP.bind (wp_sql hI trivial ?_ (absurd hsql))
  generalize hw₃ : Write.apply w₂ (.sql (.recordEvents _)) = w₃
  have h₃ : Still w w₃ := (h₁.trans h₂).trans (hw₃ ▸ Still.of_decisions rfl)
  refine WP.bind (WP.ite (fun _ => WP.pure (WP.pure (hQ _ _ h₃))) (fun _ => ?_))
  exact wp_remember trivial (WP.pure (hQ _ _ (h₃.trans (Still.memory rfl rfl))))

omit hI hsql in
/-- A loop of rounds that no address notices. -/
theorem wp_forM_still {β : Type} {f : β → M Unit} {xs : List β} {Q : Unit → World → Prop}
    (h : ∀ x ∈ xs, ∀ s, WP I (By Any) (f x) (fun _ s' => Still s s') (fun _ _ => False) s)
    (hQ : ∀ w', Still w w' → Q () w') : WP I (By Any) (xs.forM f) Q E w := by
  refine (WP.forM_inv (J := Still w) (E := fun _ _ => False) (Still.refl w) ?_).mono (fun _ => hQ)
    (fun _ _ h => h.elim)
  exact fun x hx s hs => (h x hx s).mono (fun _ t ht => hs.trans ht) (fun _ _ h => h)

/-! ## What is followed -/

/-- What is followed is saved whole. -/
theorem wp_saveLegacyObserved_small {observed : Dict Ip Int} {Q : Unit → World → Prop}
    (hlen : observed.entries.length ≤ knownBansMax)
    (hQ : ∀ w', w'.table = w.table → w'.mem.knownBans = w.mem.knownBans → (∀ j, notes w' j = notes w j) →
      (∀ j, w'.mem.legacyObserved.get? j = observed.get? j) → Small w' → Q () w') :
    WP I (By Any) (saveLegacyObserved observed) Q E w := by
  refine WP.bind (wp_remember trivial (wp_setState hI trivial ?_ (absurd hsql)))
  have hkept : observed.entries.length - knownBansMax = 0 := Nat.sub_eq_zero_of_le hlen
  refine hQ _ rfl rfl (fun _ => rfl) (fun j => ?_) ?_
  · rw [Dict.get?_filter, hkept, List.drop_zero]
    cases hj : observed.get? j with
    | none => rfl
    | some c => simp [Option.filter, Dict.mem_entries.mpr hj]
  · exact (List.length_filter_le _ _).trans hlen

theorem wp_settle {Q : Int → World → Prop} (hs : Small w)
    (hQ : ∀ w', w'.table = w.table → w'.mem.knownBans = w.mem.knownBans → (∀ j, notes w' j = notes w j) →
      (∀ j, w'.mem.legacyObserved.get? j = if j = ip then none else w.mem.legacyObserved.get? j) → Small w' →
      Q (w.mem.legacyObserved.getD ip 0) w') :
    WP I (By Any) (settleLegacyObserved ip) Q E w := by
  have hlen : (w.mem.legacyObserved.erase ip).entries.length ≤ knownBansMax := (List.length_filter_le _ _).trans hs
  refine WP.bind (WP.get (WP.bind (wp_remember trivial (WP.bind ?_))))
  refine WP.when (fun _ => wp_saveLegacyObserved_small hI hsql hlen ?_) (fun _ => WP.pure ?_)
  · exact fun w' ht hk hn hf hs' => WP.pure (hQ w' ht hk hn (fun j => by rw [hf, Dict.get?_erase]) hs')
  · exact hQ _ rfl rfl (fun _ => rfl) (fun j => Dict.get?_erase) hlen

/-- The code of the flagged entry a read shows. -/
def codeIn (bans : Dict Ip Row) (ip : Ip) : Option Int := ((bans.get? ip).filter Row.flagged).map (·.gpt0)

omit hI hsql in
theorem codeIn_rows : codeIn w.rows ip = w.active.get? ip := by
  rw [codeIn, World.active, Dict.get?_mapValues, Dict.get?_filter]

/-- A table read says what the table has. -/
def Shows (bans : Dict Ip Row) (w : World) : Prop := ∀ ip, codeIn bans ip = w.active.get? ip

omit hI hsql in
theorem Shows.of_table (h : Shows bans w) (ht : w'.table = w.table) : Shows bans w' :=
  fun ip => (h ip).trans (active_of_table ht).symm

theorem wp_observeNew_track {Q : Unit → World → Prop} (hshows : Shows bans w) (hflagged : (codeIn bans ip).isSome)
    (hQ : ∀ w', w'.table = w.table → (∀ j, track w' j = if j = ip then (track w j).appear else track w j) → Q () w') :
    WP I (By Any) (observeNew bans now ip) Q E w := by
  obtain ⟨row, hrow, hf⟩ : ∃ row, bans.get? ip = some row ∧ row.flagged = true := by
    unfold codeIn at hflagged
    cases hb : bans.get? ip with
    | none => simp [hb] at hflagged
    | some row => exact ⟨row, rfl, by simpa [hb, Option.filter] using hflagged⟩
  have hcode : (track w ip).code = some row.gpt0 := by
    change w.active.get? ip = _
    rw [← hshows ip, codeIn, hrow]
    simp [Option.filter, hf]
  unfold observeNew
  rw [hrow]
  refine WP.when (fun hc => WP.bind (WP.get ?_)) (fun hc => hQ w rfl fun j => ?_)
  · refine WP.bind (wp_recordDecision hI trivial (wp_remember trivial (hQ _ rfl fun j => ?_)) (absurd hsql))
    by_cases hj : j = ip
    · subst hj
      rw [if_pos rfl, Track.appear, hcode]
      dsimp only
      rw [if_pos hc]
      unfold track
      congr 1
      · change (w.mem.legacyObserved.set j row.gpt0).get? j = _
        simp
      · exact (notes_recordDecision _).trans (by rw [if_pos ⟨rfl, by simp [isNote]⟩])
    · rw [if_neg hj]
      unfold track
      congr 1
      · change (w.mem.legacyObserved.set ip row.gpt0).get? j = _
        rw [Dict.get?_set, if_neg hj]
      · refine (notes_recordDecision _).trans ?_
        rw [if_neg fun h => hj h.1.symm, List.append_nil]
  · by_cases hj : j = ip
    · subst hj
      rw [if_pos rfl, Track.appear, hcode]
      dsimp only
      rw [if_neg hc]
    · rw [if_neg hj]

theorem wp_observeEnded_track {c : Int} {Q : Unit → World → Prop} (hshows : Shows bans w)
    (hfollowed : w.mem.legacyObserved.get? ip = some c)
    (hQ : ∀ w', w'.table = w.table → (∀ j, track w' j = if j = ip then (track w j).close else track w j) → Q () w') :
    WP I (By Any) (observeEnded bans now (ip, c)) Q E w := by
  have hcond : (bans.get? ip).any (fun row => row.flagged ∧ row.gpt0 = c) = true ↔ (track w ip).code = some c := by
    change _ ↔ w.active.get? ip = some c
    rw [← hshows ip, codeIn]
    cases bans.get? ip with
    | none => simp
    | some row => by_cases hf : row.flagged = true <;> simp [Option.filter, hf]
  refine WP.when (fun hc => ?_) (fun hc => hQ w rfl fun j => ?_)
  · have hclose : (track w ip).close = { track w ip with followed := none, notes := (track w ip).notes ++ [(.ended, c)] } := by
      have hf : (track w ip).followed = some c := hfollowed
      simp only [Track.close, hf]
      rw [if_neg (fun h => hc (hcond.mpr h))]
    refine WP.bind (wp_remember trivial (WP.bind (WP.get (WP.bind ?_))))
    refine wp_recordDecision hI trivial (WP.pure (hQ _ rfl fun j => ?_)) (absurd hsql)
    by_cases hj : j = ip
    · subst hj
      rw [if_pos rfl, hclose]
      unfold track
      congr 1
      · change (w.mem.legacyObserved.erase j).get? j = none
        simp
      · exact (notes_recordDecision _).trans (by rw [if_pos ⟨rfl, by simp [isNote]⟩]; rfl)
    · rw [if_neg hj]
      unfold track
      congr 1
      · change (w.mem.legacyObserved.erase ip).get? j = _
        rw [Dict.get?_erase, if_neg hj]
      · refine (notes_recordDecision _).trans ?_
        rw [if_neg fun h => hj h.1.symm, List.append_nil]
        rfl
  · by_cases hj : j = ip
    · subst hj
      have hf : (track w j).followed = some c := hfollowed
      rw [if_pos rfl, Track.close, hf]
      dsimp only
      rw [if_pos (hcond.mp (not_not.mp hc))]
    · rw [if_neg hj]

omit hI hsql in
theorem length_le_of_followed (h : ∀ j c, w.mem.legacyObserved.get? j = some c → w.active.get? j = some c) :
    w.mem.legacyObserved.entries.length ≤ (flaggedIn w.table).entries.length := by
  have hsub : w.mem.legacyObserved.entries.map Prod.fst ⊆ (flaggedIn w.table).entries.map Prod.fst := by
    intro j hj
    obtain ⟨c, hc⟩ := Option.isSome_iff_exists.mp (Dict.mem_keys.mp hj)
    have hcode := h j c hc
    rw [get?_active_eq] at hcode
    obtain ⟨e, he, -⟩ := Option.map_eq_some_iff.mp hcode
    refine Dict.mem_keys.mpr ?_
    rw [flaggedIn, Dict.get?_filter, he]
    rfl
  simpa using (List.subperm_of_subset w.mem.legacyObserved.nodup hsub).length_le

theorem wp_observeLegacyBans_track {newly : List Ip} {Q : Unit → World → Prop} (hshows : Shows bans w)
    (hmax : (flaggedIn w.table).entries.length ≤ knownBansMax) (hnodup : newly.Nodup)
    (hnewly : ∀ ip ∈ newly, (codeIn bans ip).isSome)
    (hQ : ∀ w', w'.table = w.table → Small w' →
      (∀ j, track w' j = (if j ∈ newly then (track w j).appear else track w j).close) → Q () w') :
    WP I (By Any) (observeLegacyBans bans newly now) Q E w := by
  refine WP.bind (WP.get (WP.bind ?_))
  have hperm := List.perm_insertionSort (· ≤ ·) newly
  -- What is new, address by address.
  refine (WP.forM (E := fun _ _ => False) (J := fun rest s => s.table = w.table ∧
      ∀ j, track s j = if j ∈ newly ∧ j ∉ rest then (track w j).appear else track w j) ?_ ?_).mono ?_ (fun _ _ h => h.elim)
  · refine ⟨rfl, fun j => ?_⟩
    rw [if_neg fun h => h.2 (hperm.mem_iff.mpr h.1)]
  · rintro ip rest s hsuf ⟨ht, htrack⟩
    have hin : ip ∈ newly := hperm.mem_iff.mp (hsuf.subset List.mem_cons_self)
    have hrest : ip ∉ rest := (List.nodup_cons.mp (hsuf.sublist.nodup (hperm.nodup_iff.mpr hnodup))).1
    refine wp_observeNew_track hI hsql (hshows.of_table ht) (hnewly ip hin) fun s' ht' htrack' => ⟨ht'.trans ht, fun j => ?_⟩
    rw [htrack' j, htrack j]
    by_cases hj : j = ip
    · subst hj
      rw [if_pos rfl, if_neg fun h => h.2 List.mem_cons_self, if_pos ⟨hin, hrest⟩]
    · rw [if_neg hj]
      simp [hj]
  rintro - w₁ ⟨ht₁, htrack₁⟩
  replace htrack₁ : ∀ j, track w₁ j = if j ∈ newly then (track w j).appear else track w j := by
    simpa using htrack₁
  refine WP.bind (WP.get (WP.bind ?_))
  -- What is gone, entry by entry.
  refine (WP.forM (E := fun _ _ => False) (J := fun rest s => s.table = w.table ∧
      ∀ j, track s j = if j ∈ rest.map Prod.fst then track w₁ j else (track w₁ j).close) ?_ ?_).mono ?_ (fun _ _ h => h.elim)
  · refine ⟨ht₁, fun j => ?_⟩
    split
    · rfl
    · rename_i hj
      have hnone : (track w₁ j).followed = none := Dict.not_mem_keys.mp hj
      simp [Track.close, hnone]
  · rintro ⟨ip, c⟩ rest s hsuf ⟨ht, htrack⟩
    have hrest : ip ∉ rest.map Prod.fst := by
      have hn := (hsuf.sublist.map Prod.fst).nodup w₁.mem.legacyObserved.nodup
      exact (List.nodup_cons.mp hn).1
    have hfollowed : s.mem.legacyObserved.get? ip = some c := by
      have h := congrArg Track.followed (htrack ip)
      rw [if_pos (by simp)] at h
      exact h.trans (Dict.mem_entries.mp (hsuf.subset List.mem_cons_self))
    refine wp_observeEnded_track hI hsql (hshows.of_table ht) hfollowed fun s' ht' htrack' => ⟨ht'.trans ht, fun j => ?_⟩
    rw [htrack' j, htrack j]
    by_cases hj : j = ip
    · subst hj
      rw [if_pos rfl, if_pos (by simp), if_neg hrest]
    · have hmem : j ∈ ((ip, c) :: rest).map Prod.fst ↔ j ∈ rest.map Prod.fst := by
        rw [List.map_cons, List.mem_cons]
        exact or_iff_right hj
      rw [if_neg hj]
      by_cases hm : j ∈ rest.map Prod.fst
      · rw [if_pos hm, if_pos (hmem.mpr hm)]
      · rw [if_neg hm, if_neg (hmem.not.mpr hm)]
  rintro - w₂ ⟨ht₂, htrack₂⟩
  replace htrack₂ : ∀ j, track w₂ j = (if j ∈ newly then (track w j).appear else track w j).close := by
    intro j
    rw [htrack₂ j, if_neg (by simp), htrack₁]
  have hcode₂ : ∀ j c, w₂.mem.legacyObserved.get? j = some c → w₂.active.get? j = some c := by
    intro j c hc
    have hf : (track w₂ j).followed = some c := hc
    have hsame : (track w₂ j).code = some c := by
      rw [htrack₂ j] at hf ⊢
      exact Track.code_of_followed_close hf
    exact hsame
  have hlen : w₂.mem.legacyObserved.entries.length ≤ knownBansMax := by
    have hle := length_le_of_followed hcode₂
    rw [ht₂] at hle
    exact hle.trans hmax
  refine WP.bind (WP.get (WP.when (fun _ => ?_) (fun _ => hQ w₂ ht₂ hlen htrack₂)))
  refine wp_saveLegacyObserved_small hI hsql hlen fun w₃ ht₃ hk₃ hn₃ hf₃ hs₃ => hQ w₃ (ht₃.trans ht₂) hs₃ fun j => ?_
  rw [← htrack₂ j]
  unfold track
  rw [active_of_table ht₃, hk₃, hn₃, hf₃]

/-! ## A read of the table -/

omit hI hsql in
theorem mem_activeIn : ip ∈ activeIn bans ↔ (codeIn bans ip).isSome := by
  rw [activeIn, Dict.mem_keys, Dict.get?_filter, codeIn, Option.isSome_map]

theorem wp_observeBan_still {Q : Unit → World → Prop} (hQ : ∀ w', Still w w' → Q () w') :
    WP I (By Any) (observeBan now ip) Q E w :=
  WP.bind (WP.get (wp_sql hI trivial (hQ _ (Still.observeIp ip now _)) (absurd hsql)))

theorem wp_observeBans_track {Q : Unit → World → Prop} (hshows : Shows bans w)
    (hmax : (flaggedIn w.table).entries.length ≤ knownBansMax)
    (hQ : ∀ w', w'.table = w.table → Small w' → (∀ j, track w' j = (track w j).observe) → Q () w') :
    WP I (By Any) (observeBans bans now) Q E w := by
  refine WP.bind (WP.get (WP.bind (wp_attempt ?_)))
  have hnodup : ((activeIn bans).filter fun ip => ip ∉ w.mem.knownBans).Nodup := (Dict.nodup _).filter _
  refine wp_observeLegacyBans_track hI hsql hshows hmax hnodup
    (fun ip hip => mem_activeIn.mp (List.mem_filter.mp hip).1) fun w₁ ht₁ hs₁ htrack₁ => ?_
  have hnew : ∀ j, track w₁ j = (if (track w j).known then track w j else (track w j).appear).close := by
    intro j
    rw [htrack₁ j]
    congr 1
    have hmem : j ∈ (activeIn bans).filter (fun ip => ip ∉ w.mem.knownBans) ↔
        (track w j).code.isSome ∧ (track w j).known = false := by
      rw [List.mem_filter, mem_activeIn, hshows j]
      simp [track]
    by_cases hknown : (track w j).known = true
    · rw [if_neg (by rw [hmem]; simp [hknown]), if_pos hknown]
    · rw [if_neg hknown]
      by_cases hcode : (track w j).code.isSome = true
      · rw [if_pos (hmem.mpr ⟨hcode, by simpa using hknown⟩)]
      · rw [if_neg fun h => hcode (hmem.mp h).1]
        have hnone : (track w j).code = none := by simpa using hcode
        rw [Track.appear, hnone]
  refine WP.bind (wp_forM_still (fun _ _ _ => wp_observeBan_still hI hsql fun _ h => h) fun w₂ h₂ => WP.bind ?_)
  have finish : ∀ w₃, Still w₁ w₃ → WP I (By Any)
      (do
        remember fun mem => { mem with knownBans := activeIn bans }
        Prog.when ((((activeIn bans).filter fun ip => ip ∉ w.mem.knownBans).insertionSort (· ≤ ·)).filter
            (fun ip => (bans.get? ip).any (fun row => row.gpt0 ∉ ownBanCodes)) ≠ [])
          (sql (.recordEvents (((((activeIn bans).filter fun ip => ip ∉ w.mem.knownBans).insertionSort (· ≤ ·)).filter
            (fun ip => (bans.get? ip).any (fun row => row.gpt0 ∉ ownBanCodes))).map fun ip =>
              { ts := now, ip, eventType := .legacyBan, source := "stick-table", category := "ban"
                detail := "code=" ++ toString (((bans.get? ip).map (·.gpt0)).getD 0) })))) Q E w₃ := by
    intro w₃ h₃
    refine WP.bind (wp_remember trivial ?_)
    have htrack : ∀ j, track { w₃ with mem := { w₃.mem with knownBans := activeIn bans } } j = (track w j).observe := by
      intro j
      have hthree : track w₃ j = _ := h₃.track.trans (hnew j)
      have hknown : (activeIn bans).contains j = (track w j).code.isSome := by
        rw [Bool.eq_iff_iff, List.contains_iff_mem, mem_activeIn, hshows j]
        rfl
      unfold Track.observe
      rw [← hthree, ← hknown]
      rfl
    have hsmall : Small { w₃ with mem := { w₃.mem with knownBans := activeIn bans } } := h₃.small hs₁
    refine WP.when (fun _ => wp_sql hI trivial (hQ _ (h₃.table.trans ht₁) hsmall fun j => ?_) (absurd hsql))
      (fun _ => hQ _ (h₃.table.trans ht₁) hsmall htrack)
    rw [← htrack j]
    exact (Still.of_decisions rfl).track
  refine WP.when (fun _ => wp_setState hI trivial (finish _ (h₂.trans (Still.of_decisions rfl))) (absurd hsql))
    (fun _ => finish w₂ h₂)

theorem wp_observeTables_track {signedIn : Option (Dict Ip Int)} {Q : Unit → World → Prop} (hshows : Shows bans w)
    (hmax : (flaggedIn w.table).entries.length ≤ knownBansMax)
    (hQ : ∀ w', w'.table = w.table → Small w' → (∀ j, track w' j = (track w j).observe) → Q () w') :
    WP I (By Any) (observeTables { ban := some bans, signedIn } now) Q E w := by
  have read : ∀ w₁, Still w w₁ → WP I (By Any) (observeBans bans now) Q E w₁ := by
    intro w₁ h₁
    refine wp_observeBans_track hI hsql (hshows.of_table h₁.table) (by rw [h₁.table]; exact hmax) ?_
    intro w₂ ht₂ hs₂ htrack₂
    exact hQ w₂ (ht₂.trans h₁.table) hs₂ fun j => by rw [htrack₂ j, h₁.track]
  refine WP.bind ?_
  cases signedIn with
  | none => exact WP.pure (read w (Still.refl w))
  | some rows =>
    refine WP.bind (wp_remember trivial (WP.when (fun _ => wp_sql hI trivial (read _ ?_) (absurd hsql)) (fun _ => read _ ?_)))
    · exact ⟨rfl, rfl, rfl, fun _ => rfl⟩
    · exact Still.memory rfl rfl

/-! ## The rest of the cycle -/

/-- What the rest of a cycle does to every address. -/
structure Rests (w w' : World) : Prop where
  small : Small w → Small w'
  track : ∀ j, Track.Rest (track w j) (track w' j)

omit hI hsql in
theorem Rests.of_still (h : Still w w') : Rests w w' :=
  ⟨h.small, fun j => by rw [h.track]; exact Track.Rest.refl _⟩

omit hI hsql in
theorem Rests.trans (h : Rests w w') (h' : Rests w' w'') : Rests w w'' :=
  ⟨fun hs => h'.small (h.small hs), fun j => (h.track j).trans (h'.track j)⟩

omit hI hsql in
/-- An entry is replaced by none, or by one that is not HAProxy's. -/
theorem Rests.of_table {table : Dict Ip BanEntry} (n : Nat) (placed : Dict Nat Nat)
    (h : ∀ j, (table.get? j) = w.table.get? j ∨ ∀ c ∈ legacyBanCodes, ((table.get? j).filter BanEntry.flagged).map (·.gpt0) ≠ some c) :
    Rests w { w with table, nextStanding := n, placed } := by
  refine ⟨fun h => h, fun j => ⟨rfl, fun c hc ht => ?_, Or.inl ⟨rfl, rfl⟩⟩⟩
  have ht : ((table.get? j).filter BanEntry.flagged).map (·.gpt0) = some c := get?_active_eq.symm.trans ht
  change w.active.get? j = _
  rw [get?_active_eq]
  rcases h j with hj | hj
  · rwa [← hj]
  · exact absurd ht (hj c hc)

omit hI hsql in
theorem Rests.erase (ip : Ip) : Rests w { w with table := w.table.erase ip } := by
  refine Rests.of_table w.nextStanding w.placed fun j => ?_
  rw [Dict.get?_erase]
  split
  · exact Or.inr fun c _ => by simp
  · exact Or.inl rfl

omit hI hsql in
theorem Rests.restore (ip : Ip) : Rests w (w.setTable ip .restore) := by
  refine Rests.of_table _ _ fun j => ?_
  rw [Dict.get?_set]
  split
  · refine Or.inr fun c hc => ?_
    simp only [Placing.code]
    rintro h
    obtain rfl : manualBanCode = c := by simpa [Option.filter, BanEntry.flagged] using h
    exact absurd hc (by decide)
  · exact Or.inl rfl

/-- Lifts under the new policy: the decision ends what was followed. -/
theorem wp_reconcileEach_rests {ips : List Ip} {Q : Unit → World → Prop} (hs : Small w)
    (hQ : ∀ w', Rests w w' → Q () w') : WP I (By Any) (reconcileEach now ips) Q E w := by
  induction ips generalizing w with
  | nil => exact WP.pure (hQ w (Rests.of_still (Still.refl w)))
  | cons ip ips ih =>
    have next : ∀ w₁, Rests w w₁ → WP I (By Any) (reconcileEach now ips) Q E w₁ := fun w₁ h₁ =>
      ih (h₁.small hs) fun w' h' => hQ w' (h₁.trans h')
    refine WP.bind (wp_attempt (wp_liftLegacy hI ?_ (fun _ => trivial) ?_ ?_ ?_))
    · exact WP.bind (WP.when (fun h => absurd rfl h) (fun _ => next w (Rests.of_still (Still.refl w))))
    · intro code hcode hholds
      have hne : code ≠ 0 := by
        rintro rfl
        exact absurd hcode (by decide)
      refine WP.bind (WP.when (fun _ => ?_) (fun h => absurd hne h))
      refine WP.bind (wp_emit_still hI hsql fun _ w₂ h₂ => ?_)
      refine WP.bind (wp_recordDecision hI trivial ?_ (absurd hsql))
      have hs₂ : Small w₂ := h₂.small hs
      generalize hw₃ : Write.apply w₂ (.sql (.recordDecision _)) = w₃
      have hs₃ : Small w₃ := by
        rw [← hw₃]
        exact hs₂
      have hn₃ : ∀ j, notes w₃ j = notes w₂ j ++ if ip = j then [(.lifted, code)] else [] := by
        intro j
        rw [← hw₃, notes_recordDecision]
        simp [isNote]
      have ht₃ : w₃.table = w.table.erase ip := by
        rw [← hw₃]
        exact h₂.table
      have hk₃ : w₃.mem.knownBans = w.mem.knownBans := by
        rw [← hw₃]
        exact h₂.known
      have hf₃ : w₃.mem.legacyObserved = w.mem.legacyObserved := by
        rw [← hw₃]
        exact h₂.followed
      refine WP.bind (wp_settle hI hsql hs₃ fun w₄ ht₄ hk₄ hn₄ hf₄ hs₄ => WP.pure (next w₄ ⟨fun _ => hs₄, fun j => ?_⟩))
      have hcode₄ : (track w₄ j).code = if j = ip then none else (track w j).code := by
        change w₄.active.get? j = _
        rw [get?_active_eq, ht₄, ht₃, Dict.get?_erase]
        split
        · rfl
        · exact get?_active_eq.symm
      have hnotes₄ : (track w₄ j).notes = (track w j).notes ++ if ip = j then [(.lifted, code)] else [] := by
        change notes w₄ j = notes w j ++ _
        rw [hn₄, hn₃, h₂.notes]
        rfl
      have hfollowed₄ : (track w₄ j).followed = if j = ip then none else (track w j).followed := by
        change w₄.mem.legacyObserved.get? j = _
        rw [hf₄, hf₃]
        rfl
      have hknown₄ : (track w₄ j).known = (track w j).known := by
        change w₄.mem.knownBans.contains j = _
        rw [hk₄, hk₃]
        rfl
      by_cases hj : j = ip
      · subst hj
        rw [if_pos rfl] at hcode₄ hnotes₄ hfollowed₄
        have hsome : (track w j).code = some code := World.get?_active.mpr hholds
        refine ⟨hknown₄, fun c _ hc => ?_, Or.inr ⟨code, hcode, hsome, ?_, hfollowed₄, hnotes₄⟩⟩
        · rw [hcode₄] at hc
          cases hc
        · rw [hcode₄, hsome]
          simp
      · rw [if_neg hj] at hcode₄ hfollowed₄
        rw [if_neg (Ne.symm hj), List.append_nil] at hnotes₄
        exact ⟨hknown₄, fun c _ hc => hcode₄ ▸ hc, Or.inl ⟨hfollowed₄, hnotes₄⟩⟩
    · intro _ e he
      rw [if_pos he]
      exact WP.pure (hQ w (Rests.of_still (Still.refl w)))
    · intro _ _ e he
      rw [if_pos he, if_pos he]
      exact ⟨WP.pure (hQ w (Rests.of_still (Still.refl w))), WP.pure (hQ _ (Rests.erase ip))⟩

variable {v : World}

theorem wp_noteManual_rests {known : Dict Ip ManualBan} {seen : Ip × Row} (hv : Rests v w) :
    WP I (By Any) (noteManual known now seen) (fun _ => Rests v) (fun _ => Rests v) w := by
  have h₁ : Rests v ((Write.sql (.noteManualBan seen.1 now (now + max 0 (seen.2.exp / 1000)))).apply w) :=
    hv.trans (Rests.of_still (Still.of_decisions rfl))
  refine WP.when (fun _ => WP.bind (wp_sql hI trivial ?_ (absurd hsql))) (fun _ => hv)
  refine WP.when (fun _ => WP.bind (WP.get (WP.bind (wp_recordDecision hI trivial (WP.pure ?_) (absurd hsql))))) (fun _ => h₁)
  exact h₁.trans (Rests.of_still (Still.recordDecision rfl))

theorem wp_keepManual_rests {started : Option Int} {record : Ip × ManualBan} (hv : Rests v w) :
    WP I (By Any) (keepManual bans now started record) (fun _ => Rests v) (fun _ => Rests v) w := by
  have forget : ∀ {w₁ : World}, Rests v w₁ → Rests v ((Write.sql (.forgetManualBan record.1)).apply w₁) :=
    fun h => h.trans (Rests.of_still (Still.of_decisions rfl))
  refine WP.ite (fun _ => ?_) (fun _ => WP.ite (fun _ => WP.pure hv) (fun _ => WP.ite (fun _ => WP.pure hv) (fun _ => ?_)))
  · refine WP.bind (WP.when (fun _ => WP.bind (wp_liftCode hI ?_ (fun _ => trivial) ?_ ?_ ?_)) (fun _ => ?_))
    · exact fun _ => WP.pure (WP.bind (wp_sql hI trivial (WP.pure (forget hv)) (absurd hsql)))
    · exact fun _ => WP.pure (WP.bind (wp_sql hI trivial (WP.pure (forget (hv.trans (Rests.erase _)))) (absurd hsql)))
    · exact fun _ _ _ => hv
    · exact fun _ _ _ _ => ⟨hv, hv.trans (Rests.erase _)⟩
    · exact WP.bind (wp_sql hI trivial (WP.pure (forget hv)) (absurd hsql))
  · have decided : ∀ at_ : Int, WP I (By Any)
        (if at_ = 0 then pure (some at_)
        else if record.2.seenAt < at_ then do
          if ← restore record.1 .restore then do
            sql (.markManualReasserted record.1)
            let w ← Prog.get
            let _ ← recordDecision
              { ts := now, ip := record.1, action := .restored, source := .restart, outcome := .applied
                code := manualBanCode, until_ := record.2.expiresAt, policy := w.mem.banPolicy }
            pure (some at_)
          else pure (some at_)
        else do
          sql (.forgetManualBan record.1)
          pure (some at_)) (fun _ => Rests v) (fun _ => Rests v) w := by
      intro at_
      refine WP.ite (fun _ => WP.pure hv) (fun _ => WP.ite (fun _ => ?_) (fun _ => ?_))
      · have hrestored := hv.trans (Rests.restore record.1)
        refine WP.bind (wp_restore hI (fun _ => WP.pure hv) (fun _ => trivial) (fun _ => ?_) (fun _ => WP.pure hv)
          (fun _ _ _ _ => ⟨hv, hrestored⟩))
        have hmarked : Rests v ((Write.sql (.markManualReasserted record.1)).apply (w.setTable record.1 .restore)) :=
          hrestored.trans (Rests.of_still (Still.of_decisions rfl))
        refine WP.bind (wp_sql hI trivial (WP.bind (WP.get (WP.bind ?_))) (absurd hsql))
        exact wp_recordDecision hI trivial (WP.pure (hmarked.trans (Rests.of_still (Still.recordDecision rfl)))) (absurd hsql)
      · exact WP.bind (wp_sql hI trivial (WP.pure (forget hv)) (absurd hsql))
    cases started with
    | some at_ => exact WP.bind (WP.pure (decided at_))
    | none => exact WP.bind (wp_startedAt hI (decided _) (fun _ => decided 0))

theorem wp_keepManualBans_rests (hv : Rests v w) :
    WP I (By Any) (keepManualBans bans now) (fun _ => Rests v) (fun _ => Rests v) w := by
  refine WP.bind (WP.get (WP.bind ?_))
  refine (WP.forM_inv (J := Rests v) hv fun _ _ s hs => wp_noteManual_rests hI hsql hs).mono (fun _ w₁ h₁ => ?_) (fun _ _ h => h)
  refine WP.bind (WP.get (WP.bind ?_))
  refine (WP.foldlM (J := fun _ _ => Rests v) h₁ fun _ _ _ s _ hs => wp_keepManual_rests hI hsql hs).mono
    (fun _ w₂ h₂ => WP.pure h₂) (fun _ _ h => h)

theorem wp_ingestBans_rests {Q : Unit → World → Prop} (hs : Small w) (hQ : ∀ w', Rests w w' → Q () w')
    (hE : ∀ e w', Rests w w' → E e w') : WP I (By Any) (ingestBans bans now) Q E w := by
  have keep : ∀ w₁, Rests w w₁ → WP I (By Any)
      (do let _ ← attempt Exc.isOSError (keepManualBans bans now); pure ()) Q E w₁ := by
    intro w₁ h₁
    refine WP.bind (wp_attempt ((wp_keepManualBans_rests hI hsql h₁).mono (fun _ w₂ h₂ => WP.pure (hQ w₂ h₂)) ?_))
    intro e w₂ h₂
    split
    · exact WP.pure (hQ w₂ h₂)
    · exact hE e w₂ h₂
  refine WP.bind (WP.get (WP.bind (WP.when (fun _ => ?_) (fun _ => keep w (Rests.of_still (Still.refl w))))))
  exact wp_reconcileEach_rests hI hsql hs keep

/-! ## The operator -/

/-- Only the entry of one address may have changed. -/
structure Loose (ip : Ip) (w w' : World) : Prop where
  known : w'.mem.knownBans = w.mem.knownBans
  followed : w'.mem.legacyObserved = w.mem.legacyObserved
  notes : ∀ j, notes w' j = notes w j
  code : ∀ j, j ≠ ip → w'.active.get? j = w.active.get? j

omit hI hsql in
theorem Loose.of_still (h : Still w w') : Loose ip w w' :=
  ⟨h.known, h.followed, h.notes, fun _ _ => active_of_table h.table⟩

omit hI hsql in
theorem Loose.trans (h : Loose ip w w') (h' : Loose ip w' w'') : Loose ip w w'' :=
  ⟨h'.known.trans h.known, h'.followed.trans h.followed, fun j => (h'.notes j).trans (h.notes j),
    fun j hj => (h'.code j hj).trans (h.code j hj)⟩

omit hI hsql in
theorem Loose.of_table {table : Dict Ip BanEntry} (h : ∀ j, j ≠ ip → table.get? j = w.table.get? j) :
    Loose ip w { w with table } :=
  ⟨rfl, rfl, fun _ => rfl, fun j hj => by rw [get?_active_eq, get?_active_eq, h j hj]⟩

omit hI hsql in
theorem Loose.erase : Loose ip w { w with table := w.table.erase ip } :=
  Loose.of_table fun j hj => by rw [Dict.get?_erase, if_neg hj]

omit hI hsql in
theorem Loose.unflag : Loose ip w (w.unflag ip) :=
  Loose.of_table fun j hj => by rw [Dict.get?_modify, if_neg hj]

omit hI hsql in
theorem Loose.small (h : Loose ip w w') (hs : Small w) : Small w' := by
  unfold Small
  rw [h.followed]
  exact hs

omit hI hsql in
theorem Loose.track (h : Loose ip w w') (hj : j ≠ ip) : track w' j = track w j := by
  unfold OwnBans.track
  rw [h.code j hj, h.known, h.followed, h.notes]

theorem wp_forgetBan_track {Q : Forgotten → World → Prop} (hs : Small w)
    (hlegacy : ∀ c, w.mem.legacyObserved.get? ip = some c → c ∈ legacyBanCodes)
    (hQ : ∀ r w', Small w' → (∀ j, j ≠ ip → track w' j = track w j) → Track.Unbanned (track w ip) (track w' ip) → Q r w')
    (hE : ∀ e w', Loose ip w w' → E e w') : WP I (By Any) (forgetBan ip now) Q E w := by
  refine WP.ite (fun _ => WP.throw (hE _ w (Loose.of_still (Still.refl w)))) (fun _ => ?_)
  refine WP.bind (WP.get (WP.bind (wp_sql hI trivial ?_ (absurd hsql))))
  refine WP.bind (wp_sql hI trivial ?_ (absurd hsql))
  generalize hw₁ : Write.apply (Write.apply w (.sql (.clearBan ip))) (.sql (.forgetManualBan ip)) = w₁
  have h₁ : Loose ip w w₁ := Loose.of_still (hw₁ ▸ (Still.of_decisions rfl).trans (Still.of_decisions rfl))
  -- What is written down, wherever the commands have left the table.
  have report : ∀ (lifted released : Option Bool) w₂, Loose ip w w₂ → WP I (By Any)
      (do
        let refused := released.isNone
        let gone := lifted.getD false
        Prog.when (w.db.scheduledBans.getD ip 0 ≠ 0 ∨ gone) do
          let _ ← emit { ip, eventType := .banLifted, source := "operator", detail := "cleared by hand"
                         fingerprint := some (ip ++ "|BAN_LIFTED|" ++ toString now) } now
          pure ()
        let legacy ← settleLegacyObserved ip
        Prog.when (w.db.scheduledBans.getD ip 0 ≠ 0 ∨ gone ∨ w.db.manualBans.contains ip ∨ legacy ≠ 0) do
          let w' ← Prog.get
          let _ ← recordDecision
            { ts := now, ip, action := .lifted, source := .operator
              outcome := if refused then .failed else .applied
              code := if w.db.scheduledBans.getD ip 0 ≠ 0 ∨ gone then adaptiveBanCode
                else if w.db.manualBans.contains ip then manualBanCode else legacy
              until_ := w.db.scheduledBans.getD ip 0, policy := w'.mem.banPolicy }
          pure ()
        pure { refused, wasScheduled := w.db.scheduledBans.getD ip 0 ≠ 0, lifted := gone || released.getD false
               cleared := !refused }) Q E w₂ := by
    intro lifted released w₂ h₂
    have settled : ∀ w₃, Loose ip w w₃ → WP I (By Any)
        (do
          let legacy ← settleLegacyObserved ip
          Prog.when (w.db.scheduledBans.getD ip 0 ≠ 0 ∨ lifted.getD false ∨ w.db.manualBans.contains ip ∨ legacy ≠ 0) do
            let w' ← Prog.get
            let _ ← recordDecision
              { ts := now, ip, action := .lifted, source := .operator
                outcome := if released.isNone then .failed else .applied
                code := if w.db.scheduledBans.getD ip 0 ≠ 0 ∨ lifted.getD false then adaptiveBanCode
                  else if w.db.manualBans.contains ip then manualBanCode else legacy
                until_ := w.db.scheduledBans.getD ip 0, policy := w'.mem.banPolicy }
            pure ()
          pure { refused := released.isNone, wasScheduled := w.db.scheduledBans.getD ip 0 ≠ 0
                 lifted := lifted.getD false || released.getD false, cleared := !released.isNone }) Q E w₃ := by
      intro w₃ h₃
      refine WP.bind (wp_settle hI hsql (h₃.small hs) fun w₄ ht₄ hk₄ hn₄ hf₄ hs₄ => ?_)
      have hother : ∀ j, j ≠ ip → track w₄ j = track w j := by
        intro j hj
        unfold track
        rw [active_of_table ht₄, h₃.code j hj, hk₄, h₃.known, hf₄, if_neg hj, h₃.followed, hn₄, h₃.notes]
      have hknown : (track w₄ ip).known = (track w ip).known := by
        change w₄.mem.knownBans.contains ip = _
        rw [hk₄, h₃.known]
        rfl
      have hfollowed : (track w₄ ip).followed = none := by
        change w₄.mem.legacyObserved.get? ip = none
        rw [hf₄, if_pos rfl]
      have hnotes : ∀ j, notes w₄ j = notes w j := fun j => (hn₄ j).trans (h₃.notes j)
      rw [h₃.followed]
      refine WP.bind (WP.when (fun _ => WP.bind (WP.get (WP.bind (wp_recordDecision hI trivial ?_ (absurd hsql))))) (fun hnone => ?_))
      · rename_i hc
        refine WP.pure (WP.pure (hQ _ _ hs₄ (fun j hj => ?_) ⟨hknown, hfollowed, Or.inr
          ⟨if w.db.scheduledBans.getD ip 0 ≠ 0 ∨ lifted.getD false then adaptiveBanCode
            else if w.db.manualBans.contains ip then manualBanCode else w.mem.legacyObserved.getD ip 0, ?_, ?_⟩⟩))
        · rw [← hother j hj]
          unfold track
          congr 1
          refine (notes_recordDecision _).trans ?_
          rw [if_neg fun h => hj h.1.symm, List.append_nil]
        · split
          · exact Or.inl (by decide)
          · split
            · exact Or.inl (by decide)
            · rename_i hthere hmanual
              refine Or.inr ?_
              change w.mem.legacyObserved.get? ip = _
              cases hget : w.mem.legacyObserved.get? ip with
              | some c => rw [Dict.getD_eq_of_get? hget]
              | none =>
                exfalso
                have hzero : w.mem.legacyObserved.getD ip 0 = 0 := by simp [Dict.getD, hget]
                rcases hc with h | h | h | h
                · exact hthere (Or.inl h)
                · exact hthere (Or.inr h)
                · exact hmanual h
                · exact h hzero
        · refine (notes_recordDecision _).trans ?_
          rw [if_pos ⟨rfl, by simp [isNote]⟩, hnotes]
          rfl
      · refine WP.pure (hQ _ _ hs₄ hother ⟨hknown, hfollowed, Or.inl ⟨hnotes ip, ?_⟩⟩)
        change w.mem.legacyObserved.get? ip = none
        cases hget : w.mem.legacyObserved.get? ip with
        | none => rfl
        | some c =>
          exfalso
          refine hnone (Or.inr (Or.inr (Or.inr ?_)))
          rw [Dict.getD_eq_of_get? hget]
          rintro rfl
          exact absurd (hlegacy 0 hget) (by decide)
    refine WP.bind (WP.when (fun _ => WP.bind (wp_emit_still hI hsql fun _ w₃ h₃ => WP.pure (settled w₃ ?_)))
      (fun _ => settled w₂ h₂))
    exact h₂.trans (Loose.of_still h₃)
  -- Caught or not, an exception leaves the same behind.
  have hboth : ∀ {w₃ : World}, Loose ip w w₃ → ∀ e : Exc,
      if e.unsure = true then Loose ip w w₃ else Loose ip w w₃ := fun h e => by split <;> exact h
  have second : ∀ w₂, Loose ip w w₂ → WP I (By Any)
      (attempt Exc.unsure (release ip)) (fun released w₃ => Loose ip w w₃) (fun _ w₃ => Loose ip w w₃) w₂ := by
    intro w₂ h₂
    refine wp_attempt (wp_release hI (fun _ => h₂) (fun _ => trivial) (fun _ => h₂.trans Loose.unflag) ?_ ?_)
    · exact fun _ e _ => hboth h₂ e
    · exact fun _ _ e _ => ⟨hboth h₂ e, hboth (h₂.trans Loose.unflag) e⟩
  have first : WP I (By Any) (attempt Exc.unsure (lift ip .operator)) (fun _ => Loose ip w) (fun _ => Loose ip w) w₁ := by
    refine wp_attempt (wp_liftCode hI (fun _ => h₁) (fun _ => trivial) (fun _ => h₁.trans Loose.erase) ?_ ?_)
    · exact fun _ e _ => hboth h₁ e
    · exact fun _ _ e _ => ⟨hboth h₁ e, hboth (h₁.trans Loose.erase) e⟩
  refine WP.bind (first.mono (fun lifted w₂ h₂ => ?_) hE)
  by_cases hl : lifted.isSome = true
  · rw [if_pos hl]
    exact WP.bind ((second w₂ h₂).mono (fun released w₃ h₃ => report lifted released w₃ h₃) hE)
  · rw [if_neg hl]
    exact WP.bind (WP.pure (report lifted none w₂ h₂))

end Programs

end EasyHaProxy.Guardd.OwnBans
