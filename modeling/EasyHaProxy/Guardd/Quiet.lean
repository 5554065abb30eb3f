import EasyHaProxy.Guardd.Spec

/-! Findings, sightings, the notes about HAProxy's own bans: `Quiet` says which writes these are, `Calm`
what they leave alone. The unlocked part of a cycle makes no other. -/
namespace EasyHaProxy.Guardd

open Enforcer

/-! ## Writes that say nothing about a ban -/

/-- An event is stored for an address with a row, or for a text that is no address. -/
def rowKept (db : Database) (ip : Ip) : Prop := db.hasRow ip ∨ ipVersion ip = none

/-- Nothing about a ban differs between two states. -/
structure Calm (w w' : World) : Prop where
  table : w'.table = w.table
  startedAt : w'.startedAt = w.startedAt
  clock : w'.clock = w.clock
  tableExpire : w'.tableExpire = w.tableExpire
  placed : ∀ d ∈ w.db.decisions, w'.placed.get? d.id = w.placed.get? d.id
  decisions : ∀ d ∈ w.db.decisions, d ∈ w'.db.decisions
  mode : w'.mem.mode = w.mem.mode
  banPolicy : w'.mem.banPolicy = w.mem.banPolicy
  recorded : w'.db.state.banPolicy = w.db.state.banPolicy
  manualBans : w'.db.manualBans = w.db.manualBans
  bannedUntil : ∀ ip, w'.db.bannedUntil ip = w.db.bannedUntil ip
  pending : ∀ d : Decision, d.outcome = .pending → (d ∈ w'.db.decisions ↔ d ∈ w.db.decisions)
  rows : ∀ ip, w.db.hasRow ip → w'.db.hasRow ip

namespace Calm

variable {w w' w'' : World} {ip : Ip} {code : Int}

theorem refl (w : World) : Calm w w :=
  ⟨rfl, rfl, rfl, rfl, fun _ _ => rfl, fun _ h => h, rfl, rfl, rfl, rfl, fun _ => rfl,
    fun _ _ => Iff.rfl, fun _ h => h⟩

theorem trans (h : Calm w w') (h' : Calm w' w'') : Calm w w'' where
  table := h'.table.trans h.table
  startedAt := h'.startedAt.trans h.startedAt
  clock := h'.clock.trans h.clock
  tableExpire := h'.tableExpire.trans h.tableExpire
  placed := fun d hd => (h'.placed d (h.decisions d hd)).trans (h.placed d hd)
  decisions := fun d hd => h'.decisions d (h.decisions d hd)
  mode := h'.mode.trans h.mode
  banPolicy := h'.banPolicy.trans h.banPolicy
  recorded := h'.recorded.trans h.recorded
  manualBans := h'.manualBans.trans h.manualBans
  bannedUntil := fun ip => (h'.bannedUntil ip).trans (h.bannedUntil ip)
  pending := fun d hd => (h'.pending d hd).trans (h.pending d hd)
  rows := fun ip hr => h'.rows ip (h.rows ip hr)

theorem flagged (h : Calm w w') : w'.flagged ip = w.flagged ip := by rw [World.flagged, h.table]; rfl

theorem holds (h : Calm w w') : w'.holds ip code = w.holds ip code := by rw [World.holds, h.table]; rfl

theorem carries (h : Calm w w') : w'.carries ip code ↔ w.carries ip code := by
  rw [World.carries, h.table]; rfl

theorem memory {mem : Memory} (hm : mem.mode = w.mem.mode) (hp : mem.banPolicy = w.mem.banPolicy) :
    Calm w { w with mem } :=
  { refl w with mode := hm, banPolicy := hp }

theorem observeIp (ip : Ip) (ts : Int) (v : Verdict) : Calm w { w with db := w.db.observeIp ip ts v } where
  table := rfl
  startedAt := rfl
  clock := rfl
  tableExpire := rfl
  placed := fun _ _ => rfl
  decisions := fun d hd => by simpa [Database.decisions_observeIp] using hd
  mode := rfl
  banPolicy := rfl
  recorded := by simp [Database.state_observeIp]
  manualBans := Database.manualBans_observeIp ts v
  bannedUntil := fun _ => Database.bannedUntil_observeIp ts v
  pending := fun d _ => by simp [Database.decisions_observeIp]
  rows := fun _ h => by simp [Database.hasRow_observeIp, h]

theorem recordEvents (es : List SecurityEvent) : Calm w { w with db := w.db.recordEvents es } :=
  { refl w with }

theorem noteCooldown (fingerprint : String) (ts : Int) :
    Calm w { w with db := w.db.noteCooldown fingerprint ts } :=
  { refl w with }

theorem recordAuthenticated (ips : List Ip) (ts : Int) :
    Calm w { w with db := w.db.recordAuthenticated ips ts } :=
  { refl w with
    bannedUntil := fun _ => Database.bannedUntil_recordAuthenticated ips ts
    rows := fun _ h => by simpa using h }

theorem setState {state : GuardState} (h : state.banPolicy = w.db.state.banPolicy) :
    Calm w { w with db := { w.db with state } } :=
  { refl w with recorded := h }

theorem recordDecision {d : Decision} (hd : d.outcome ≠ .pending) :
    Calm w ((Write.sql (.recordDecision d)).apply w) :=
  { refl w with
    placed := by
      intro c hc
      have hne : c.id ≠ w.db.nextDecisionId := Nat.ne_of_lt (lt_nextId (List.mem_map_of_mem hc))
      simp [Write.apply, hne]
    decisions := fun c hc => List.mem_append_left _ hc
    pending := by
      intro c hc
      simp only [Write.apply, Database.recordDecision, List.mem_append, List.mem_singleton,
        or_iff_left_iff_imp]
      rintro rfl
      exact absurd hc hd }

end Calm

/-- The writes of a cycle at `now` that say nothing about a ban. -/
inductive Quiet (now : Int) (w : World) : Write → Prop
  | observeIp (ip : Ip) (v : Verdict) : Quiet now w (.sql (.observeIp ip now v))
  | noteCooldown (fingerprint : String) : Quiet now w (.sql (.noteCooldown fingerprint now))
  | recordEvents {es : List SecurityEvent}
      (hes : ∀ e ∈ es, e.ts = now ∧ e.eventType ≠ .banApplied ∧ rowKept w.db e.ip) :
      Quiet now w (.sql (.recordEvents es))
  | recordDecision {d : Decision} (hp : d.outcome ≠ .pending) (hs : d.source ≠ .adaptive) :
      Quiet now w (.sql (.recordDecision d))
  | memory {mem : Memory} (hm : mem.mode = w.mem.mode) (hp : mem.banPolicy = w.mem.banPolicy)
      (hd : mem.banDurations = w.mem.banDurations) : Quiet now w (.memory mem)
  | setState {state : GuardState} (hp : state.banPolicy = w.db.state.banPolicy)
      (hd : state.banDurations = w.db.state.banDurations) : Quiet now w (.sql (.setState state))

theorem Quiet.calm {now : Int} {w : World} {l : Write} (h : Quiet now w l) : Calm w (l.apply w) := by
  cases h with
  | observeIp ip v => exact Calm.observeIp ip now v
  | noteCooldown fingerprint => exact Calm.noteCooldown fingerprint now
  | recordEvents _ => exact Calm.recordEvents _
  | recordDecision hp _ => exact Calm.recordDecision hp
  | memory hm hp _ => exact Calm.memory hm hp
  | setState hp _ => exact Calm.setState hp

def Admits (guard : World → Write → Prop) (now : Int) : Prop := ∀ w l, Quiet now w l → guard w l

section Quiet

variable {I : Script → Prop} {guard : World → Write → Prop} {now : Int} {w : World} {α : Type}
  {Q : α → World → Prop} {E : Exc → World → Prop} (hI : Closed I) (hq : Admits guard now)

include hq in
theorem wp_remember_calm {f : Memory → Memory} {Q : Unit → World → Prop}
    (hm : (f w.mem).mode = w.mem.mode) (hp : (f w.mem).banPolicy = w.mem.banPolicy)
    (hd : (f w.mem).banDurations = w.mem.banDurations)
    (hQ : ∀ w', Calm w w' → Q () w') : WP I (By guard) (remember f) Q E w :=
  wp_remember (hq w _ (.memory hm hp hd)) (hQ _ (Calm.memory hm hp))

/-- A loop of quiet rounds. -/
theorem wp_forM_calm {β : Type} {f : β → M Unit} {xs : List β} {Q : Unit → World → Prop}
    (h : ∀ x ∈ xs, ∀ s, WP I (By guard) (f x) (fun _ s' => Calm s s')
      (fun e s' => e = .sqlite ∧ ¬ SqlDone I ∧ Calm s s') s)
    (hQ : ∀ w', Calm w w' → Q () w') (hE : ∀ w', ¬ SqlDone I → Calm w w' → E .sqlite w') :
    WP I (By guard) (xs.forM f) Q E w := by
  refine (WP.forM_inv (J := Calm w) (E := fun e w' => e = .sqlite ∧ ¬ SqlDone I ∧ Calm w w')
    (Calm.refl w) ?_).mono (fun _ => hQ) ?_
  · intro x hx s hs
    exact (h x hx s).mono (fun _ t ht => hs.trans ht) (fun e t ht => ⟨ht.1, ht.2.1, hs.trans ht.2.2⟩)
  · rintro e t ⟨rfl, h, ht⟩
    exact hE t h ht

include hI hq

theorem wp_setState_calm {f : GuardState → GuardState} {Q : Unit → World → Prop}
    (hf : (f w.db.state).banPolicy = w.db.state.banPolicy)
    (hd : (f w.db.state).banDurations = w.db.state.banDurations)
    (hQ : ∀ w', Calm w w' → Q () w') (hE : ¬ SqlDone I → E .sqlite w) :
    WP I (By guard) (setState f) Q E w :=
  wp_setState hI (hq w _ (.setState hf hd)) (hQ _ (Calm.setState hf)) hE

theorem wp_recordDecision_calm {d : Decision} {Q : Nat → World → Prop} (hd : d.outcome ≠ .pending)
    (hs : d.source ≠ .adaptive) (hQ : ∀ id w', Calm w w' → Q id w') (hE : ¬ SqlDone I → E .sqlite w) :
    WP I (By guard) (recordDecision d) Q E w :=
  wp_recordDecision hI (hq w _ (.recordDecision hd hs)) (hQ _ _ (Calm.recordDecision hd)) hE

omit hI in
theorem wp_queueEnforcementCheck {ip : Ip} {t : EventType} {handled : Bool} {Q : Unit → World → Prop}
    (hQ : ∀ w', Calm w w' → Q () w') :
    WP I (By guard) (queueEnforcementCheck ip t handled) Q E w :=
  WP.ite (fun _ => WP.pure (hQ w (Calm.refl w))) (fun _ => wp_remember_calm hq rfl rfl rfl hQ)

theorem wp_emit {f : Finding} {Q : Bool → World → Prop}
    (hQ : ∀ b w', Calm w w' → Q b w') (hE : ∀ w', ¬ SqlDone I → Calm w w' → E .sqlite w') :
    WP I (By guard) (emit f now) Q E w := by
  refine WP.bind (WP.get (WP.ite (fun _ => WP.pure (hQ _ w (Calm.refl w))) (fun _ => ?_)))
  have h1 := Calm.noteCooldown (w := w) (f.fingerprint.getD (f.ip ++ "|" ++ f.eventType.text)) now
  refine WP.bind (wp_sql hI (hq w _ (.noteCooldown _)) ?_ (fun h => hE w h (Calm.refl w)))
  have h2 := h1.trans (Calm.observeIp f.ip now (w.verdict f.ip))
  refine WP.bind (wp_sql hI (hq _ _ (.observeIp _ _)) ?_ (fun h => hE _ h h1))
  refine WP.bind (wp_sql hI (hq _ _ (.recordEvents ?_)) ?_ (fun h => hE _ h h2))
  · simp only [List.mem_singleton, forall_eq]
    refine ⟨trivial, f.emitted, ?_⟩
    -- The row was written just before the event.
    unfold rowKept
    change (Database.observeIp _ _ _ _).hasRow f.ip ∨ _
    rw [Database.hasRow_observeIp]
    cases ipVersion f.ip <;> simp
  · refine WP.bind (wp_queueEnforcementCheck hq (fun w' h' => WP.pure (hQ _ w' ?_)))
    exact (h2.trans (Calm.recordEvents _)).trans h'

theorem wp_ingestFindings {findings : List Finding} {Q : Unit → World → Prop}
    (hQ : ∀ w', Calm w w' → Q () w') (hE : ∀ w', ¬ SqlDone I → Calm w w' → E .sqlite w') :
    WP I (By guard) (ingestFindings findings now) Q E w :=
  wp_forM_calm (fun _ _ _ => WP.bind (wp_emit hI hq
    (fun _ _ h => WP.pure h) (fun _ h h' => ⟨rfl, h, h'⟩))) hQ hE

/-! ## The bans seen in the table -/

theorem wp_saveLegacyObserved {observed : Dict Ip Int} {Q : Unit → World → Prop}
    (hQ : ∀ w', Calm w w' → Q () w') (hE : ∀ w', ¬ SqlDone I → Calm w w' → E .sqlite w') :
    WP I (By guard) (saveLegacyObserved observed) Q E w :=
  WP.bind (wp_remember_calm hq rfl rfl rfl (fun w₁ h₁ =>
    wp_setState_calm hI hq rfl rfl (fun w₂ h₂ => hQ w₂ (h₁.trans h₂)) (fun h => hE w₁ h h₁)))

theorem wp_settleLegacyObserved {ip : Ip} {Q : Int → World → Prop}
    (hQ : ∀ code w', Calm w w' → Q code w') (hE : ∀ w', ¬ SqlDone I → Calm w w' → E .sqlite w') :
    WP I (By guard) (settleLegacyObserved ip) Q E w := by
  refine WP.bind (WP.get (WP.bind (wp_remember_calm hq rfl rfl rfl (fun w₁ h₁ => WP.bind ?_))))
  refine WP.when (fun _ => wp_saveLegacyObserved hI hq ?_ ?_) (fun _ => WP.pure (hQ _ w₁ h₁))
  · exact fun w₂ h₂ => WP.pure (hQ _ w₂ (h₁.trans h₂))
  · exact fun w₂ h h₂ => hE w₂ h (h₁.trans h₂)

theorem wp_observeNew {bans : Dict Ip Row} {ip : Ip} {Q : Unit → World → Prop}
    (hQ : ∀ w', Calm w w' → Q () w') (hE : ∀ w', ¬ SqlDone I → Calm w w' → E .sqlite w') :
    WP I (By guard) (observeNew bans now ip) Q E w := by
  unfold observeNew
  cases bans.get? ip with
  | none => exact WP.pure (hQ w (Calm.refl w))
  | some row =>
    refine WP.when (fun _ => WP.bind (WP.get ?_)) (fun _ => hQ w (Calm.refl w))
    refine WP.bind (wp_recordDecision_calm hI hq DecisionOutcome.noConfusion
      DecisionSource.noConfusion ?_ (fun h => hE w h (Calm.refl w)))
    exact fun _ w₁ h₁ => wp_remember_calm hq rfl rfl rfl (fun w₂ h₂ => hQ w₂ (h₁.trans h₂))

theorem wp_observeEnded {bans : Dict Ip Row} {followed : Ip × Int} {Q : Unit → World → Prop}
    (hQ : ∀ w', Calm w w' → Q () w') (hE : ∀ w', ¬ SqlDone I → Calm w w' → E .sqlite w') :
    WP I (By guard) (observeEnded bans now followed) Q E w := by
  refine WP.when (fun _ => WP.bind ?_) (fun _ => hQ w (Calm.refl w))
  refine wp_remember_calm hq rfl rfl rfl (fun w₁ h₁ => WP.bind (WP.get (WP.bind ?_)))
  exact wp_recordDecision_calm hI hq DecisionOutcome.noConfusion DecisionSource.noConfusion
    (fun _ w₂ h₂ => WP.pure (hQ w₂ (h₁.trans h₂))) (fun h => hE w₁ h h₁)

theorem wp_observeLegacyBans {bans : Dict Ip Row} {newly : List Ip} {Q : Unit → World → Prop}
    (hQ : ∀ w', Calm w w' → Q () w') (hE : ∀ w', ¬ SqlDone I → Calm w w' → E .sqlite w') :
    WP I (By guard) (observeLegacyBans bans newly now) Q E w := by
  refine WP.bind (WP.get (WP.bind ?_))
  refine wp_forM_calm (fun _ _ _ => wp_observeNew hI hq (fun _ h => h)
    (fun _ h h' => ⟨rfl, h, h'⟩)) (fun w₁ h₁ => WP.bind (WP.get (WP.bind ?_))) hE
  refine wp_forM_calm (fun _ _ _ => wp_observeEnded hI hq (fun _ h => h)
    (fun _ h h' => ⟨rfl, h, h'⟩)) (fun w₂ h₂ => WP.bind (WP.get ?_))
    (fun w₂ h h₂ => hE w₂ h (h₁.trans h₂))
  refine WP.when (fun _ => wp_saveLegacyObserved hI hq ?_ ?_) (fun _ => hQ w₂ (h₁.trans h₂))
  · exact fun w₃ h₃ => hQ w₃ ((h₁.trans h₂).trans h₃)
  · exact fun w₃ h h₃ => hE w₃ h ((h₁.trans h₂).trans h₃)

theorem wp_observeBan {ip : Ip} {Q : Unit → World → Prop}
    (hQ : ∀ w', Calm w w' → rowKept w'.db ip → Q () w') (hE : ¬ SqlDone I → E .sqlite w) :
    WP I (By guard) (observeBan now ip) Q E w := by
  refine WP.bind (WP.get (wp_sql hI (hq w _ (.observeIp ip _)) (hQ _ (Calm.observeIp ip now _) ?_) hE))
  unfold rowKept
  change (Database.observeIp _ _ _ _).hasRow ip ∨ _
  rw [Database.hasRow_observeIp]
  cases ipVersion ip <;> simp

/-- Every address of the loop has its row when the loop is over. -/
theorem wp_forM_observeBan {ips : List Ip} {Q : Unit → World → Prop}
    (hQ : ∀ w', Calm w w' → (∀ ip ∈ ips, rowKept w'.db ip) → Q () w')
    (hE : ∀ w', ¬ SqlDone I → Calm w w' → E .sqlite w') :
    WP I (By guard) (ips.forM (observeBan now)) Q E w := by
  refine (WP.forM (J := fun rest s => Calm w s ∧ ∀ ip ∈ ips, ip ∈ rest ∨ rowKept s.db ip)
    (E := fun e s => e = .sqlite ∧ ¬ SqlDone I ∧ Calm w s)
    ⟨Calm.refl w, fun ip h => Or.inl h⟩ ?_).mono ?_ ?_
  · rintro ip rest s - ⟨hs, hrest⟩
    refine wp_observeBan hI hq (fun s' hc hrow => ⟨hs.trans hc, fun j hj => ?_⟩) (fun h => ⟨rfl, h, hs⟩)
    rcases hrest j hj with hmem | hkept
    · rcases List.mem_cons.mp hmem with rfl | hmem
      · exact Or.inr hrow
      · exact Or.inl hmem
    · exact Or.inr (hkept.imp_left (hc.rows j))
  · rintro - s ⟨hs, hrest⟩
    exact hQ s hs (fun ip h => (hrest ip h).resolve_left (List.not_mem_nil))
  · rintro e s ⟨rfl, h, hs⟩
    exact hE s h hs

theorem wp_observeBans {bans : Dict Ip Row} {Q : Unit → World → Prop}
    (hQ : ∀ w', Calm w w' → Q () w') (hE : ∀ w', ¬ SqlDone I → Calm w w' → E .sqlite w') :
    WP I (By guard) (observeBans bans now) Q E w := by
  refine WP.bind (WP.get (WP.bind (wp_attempt ?_)))
  -- The rest, from wherever the notes about HAProxy's bans end.
  have rest : ∀ w₁, Calm w w₁ → ∀ (active : List Ip) (foreign : List Ip) (detail : Ip → String)
      (c : Prop) [Decidable c], WP I (By guard)
        (do
          foreign.forM (observeBan now)
          Prog.when c (setState fun state =>
            { state with knownBans := (active.insertionSort (· ≤ ·)).take knownBansMax })
          remember fun mem => { mem with knownBans := active }
          Prog.when (foreign ≠ []) (sql (.recordEvents (foreign.map fun ip =>
            { ts := now, ip, eventType := .legacyBan, source := "stick-table", category := "ban"
              detail := detail ip })))) Q E w₁ := by
    intro w₁ h₁ active foreign detail c _
    refine WP.bind (wp_forM_observeBan hI hq (fun w₂ h₂ hrows => WP.bind ?_)
      (fun w₂ h h₂ => hE w₂ h (h₁.trans h₂)))
    have finish : ∀ w₃, Calm w₂ w₃ → WP I (By guard)
        (do
          remember fun mem => { mem with knownBans := active }
          Prog.when (foreign ≠ []) (sql (.recordEvents (foreign.map fun ip =>
            { ts := now, ip, eventType := .legacyBan, source := "stick-table", category := "ban"
              detail := detail ip })))) Q E w₃ := by
      intro w₃ h₃
      refine WP.bind (wp_remember_calm hq rfl rfl rfl (fun w₄ h₄ => ?_))
      have h14 := ((h₁.trans h₂).trans h₃).trans h₄
      refine WP.when (fun _ => ?_) (fun _ => hQ w₄ h14)
      refine wp_sql hI (hq _ _ (.recordEvents ?_)) (hQ _ (h14.trans (Calm.recordEvents _)))
        (fun h => hE w₄ h h14)
      intro e he
      obtain ⟨ip, hip, rfl⟩ := List.mem_map.mp he
      refine ⟨rfl, EventType.noConfusion, ?_⟩
      exact (hrows ip hip).imp_left (fun h => h₄.rows ip (h₃.rows ip h))
    refine WP.when (fun _ => wp_setState_calm hI hq rfl rfl finish ?_) (fun _ => finish w₂ (Calm.refl w₂))
    exact fun h => hE w₂ h (h₁.trans h₂)
  refine wp_observeLegacyBans hI hq (fun w₁ h₁ => ?_) (fun w₁ _ h₁ => ?_)
  · exact rest w₁ h₁ _ _ _ _
  · rw [if_pos (by decide)]
    exact rest w₁ h₁ _ _ _ _

end Quiet

/-! ## Who is signed in -/

/-- The writes made while the tables are observed; `signedIn` is the table of sign-ins. -/
inductive ObserveWrite (signedIn : Option (Dict Ip Int)) (now : Int) (w : World) : Write → Prop
  | quiet {l : Write} (h : Quiet now w l) : ObserveWrite signedIn now w l
  | mark {rows : Dict Ip Int} (hrows : signedIn = some rows) : ObserveWrite signedIn now w
      (.sql (.recordAuthenticated (rows.filter (fun _ gpc0 => 0 < gpc0)).keys now))

section SignedIn

variable {I : Script → Prop} {now : Int} {w : World} {signedIn : Option (Dict Ip Int)} {l : Write} {ip : Ip}

theorem ObserveWrite.calm (h : ObserveWrite signedIn now w l) : Calm w (l.apply w) := by
  cases h with
  | quiet h => exact h.calm
  | mark _ => exact Calm.recordAuthenticated _ now

theorem Quiet.authenticatedAt (h : Quiet now w l) :
    (l.apply w).db.authenticatedAt ip = w.db.authenticatedAt ip := by
  cases h with
  | observeIp j v => exact Database.authenticatedAt_observeIp now v
  | _ => rfl

/-- Whether a table of sign-ins shows an address. -/
def signedInNow (signedIn : Option (Dict Ip Int)) (ip : Ip) : Bool :=
  (signedIn.bind (·.get? ip)).any (fun gpc0 => 0 < gpc0)

theorem mem_signedIn {rows : Dict Ip Int} :
    ip ∈ (rows.filter (fun _ gpc0 => 0 < gpc0)).keys ↔ signedInNow (some rows) ip := by
  rw [Dict.mem_keys, Dict.get?_filter]
  unfold signedInNow
  cases hr : rows.get? ip with
  | none => simp [hr]
  | some gpc0 => by_cases hpos : 0 < gpc0 <;> simp [Option.filter, hr, hpos]

/-- Only a sign-in that is shown is marked. -/
theorem ObserveWrite.authenticatedAt (h : ObserveWrite signedIn now w l) (hnot : signedInNow signedIn ip = false) :
    (l.apply w).db.authenticatedAt ip = w.db.authenticatedAt ip := by
  cases h with
  | quiet h => exact h.authenticatedAt
  | @mark rows hrows =>
    change (Database.recordAuthenticated _ _ _).authenticatedAt ip = _
    rw [Database.authenticatedAt_recordAuthenticated, if_neg]
    rintro ⟨hmem, -⟩
    rw [mem_signedIn, ← hrows, hnot] at hmem
    exact Bool.noConfusion hmem

variable {Q : Unit → World → Prop} {E : Exc → World → Prop} (hI : Closed I)

include hI

theorem wp_ingestSignedIn
    (hQ : ∀ w', Calm w w' → (∀ ip, signedInNow signedIn ip → w.db.hasRow ip →
      w'.db.authenticatedAt ip = now) → Q () w')
    (hE : ∀ w', ¬ SqlDone I → Calm w w' → E .sqlite w') :
    WP I (By (ObserveWrite signedIn now)) (ingestSignedIn signedIn now) Q E w := by
  unfold ingestSignedIn
  cases signedIn with
  | none => exact WP.pure (hQ w (Calm.refl w) (by simp [signedInNow]))
  | some rows =>
    refine WP.bind (wp_remember (.quiet (.memory rfl rfl rfl)) ?_)
    have h₁ : Calm w { w with mem := { w.mem with authenticated := (rows.filter (fun _ gpc0 => 0 < gpc0)).keys } } :=
      Calm.memory rfl rfl
    refine WP.when (fun _ => ?_) (fun hnone => hQ _ h₁ ?_)
    · refine wp_sql hI (.mark rfl) (hQ _ (h₁.trans (Calm.recordAuthenticated _ _)) ?_) (fun h => hE _ h h₁)
      intro ip hip hrow
      change (Database.recordAuthenticated _ _ _).authenticatedAt ip = now
      rw [Database.authenticatedAt_recordAuthenticated, if_pos ⟨mem_signedIn.mpr hip, hrow⟩]
    · intro ip hip _
      have := mem_signedIn.mpr hip
      rw [not_not.mp hnone] at this
      exact absurd this List.not_mem_nil

theorem wp_observeTables {tables : Tables}
    (hQ : ∀ w', Calm w w' → (∀ ip, signedInNow tables.signedIn ip → w.db.hasRow ip →
      w'.db.authenticatedAt ip = now) → Q () w')
    (hE : ∀ e w', ¬ SqlDone I → E e w') :
    WP I (By (ObserveWrite tables.signedIn now)) (observeTables tables now) Q E w := by
  refine WP.bind (wp_ingestSignedIn hI (fun w₁ h₁ hmark => ?_) (fun w₁ h _ => hE _ w₁ h))
  cases hb : tables.ban with
  | none => exact WP.pure (hQ w₁ h₁ hmark)
  | some bans =>
    have hrest : WP I (By (Quiet now)) (observeBans bans now) (fun _ => Calm w₁)
        (fun _ _ => ¬ SqlDone I) w₁ :=
      wp_observeBans hI (fun _ _ h => h) (fun _ h => h) (fun _ h _ => h)
    have hkeep := hrest.keep (K := fun s => ∀ ip, s.db.authenticatedAt ip = w₁.db.authenticatedAt ip)
      (fun _ => rfl) (by
        rintro s l t hs ⟨rfl, hl⟩ ip
        exact hl.authenticatedAt.trans (hs ip))
    refine (hkeep.guarantee (fun _ _ _ h => ⟨h.1, .quiet h.2⟩)).mono (fun _ w₂ h₂ => hQ w₂ (h₁.trans h₂.1) ?_)
      (fun e w₂ h => hE e w₂ h.1)
    exact fun ip hip hrow => (h₂.2 ip).trans (hmark ip hip hrow)

end SignedIn

end EasyHaProxy.Guardd
