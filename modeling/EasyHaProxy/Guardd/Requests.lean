import EasyHaProxy.Guardd.Poll

/-! `forget_ban`, `place_manual_ban`, `set_mode`, `set_ban_durations` and the sweep of old records: the
writes of each and what each leaves when it returns. -/
namespace EasyHaProxy.Guardd

open Enforcer

/-- The writes of `forget_ban`. -/
inductive ForgetWrite (ip : Ip) (now : Int) (w : World) : Write → Prop
  | quiet {l : Write} (h : Quiet now w l) : ForgetWrite ip now w l
  | clear : ForgetWrite ip now w (.sql (.clearBan ip))
  | forget : ForgetWrite ip now w (.sql (.forgetManualBan ip))
  | lift (hcarries : w.carries ip adaptiveBanCode) : ForgetWrite ip now w (.clearTable ip .operator)
  | release (hflagged : w.flagged ip) : ForgetWrite ip now w (.unflag ip)

/-- Nothing of guardd's holds an address any more. -/
structure Forgot (w : World) (ip : Ip) : Prop where
  schedule : w.db.bannedUntil ip = 0
  record : w.db.manualBans.get? ip = none

theorem Forgot.calm {w w' : World} {ip : Ip} (h : Forgot w ip) (hc : Calm w w') : Forgot w' ip :=
  ⟨(hc.bannedUntil ip).trans h.schedule, by rw [hc.manualBans]; exact h.record⟩

section Forget

variable {I : Script → Prop} {w : World} {ip : Ip} {now : Int} (hI : Closed I)

include hI

/-- Whatever stands on the address is taken off, or the removal is refused; then `k`. -/
theorem wp_takeOff {β : Type} {k : Option Bool → Option Bool → M β} {Q : β → World → Prop}
    {E : Exc → World → Prop}
    (hfree : ∀ lifted released w', w'.db = w.db → w'.flagged ip = false →
      WP I (By (ForgetWrite ip now)) (k (some lifted) (some released)) Q E w')
    (hrefused : ∀ lifted w', ¬ Answered I → w'.db = w.db →
      WP I (By (ForgetWrite ip now)) (k lifted none) Q E w')
    (hE : ∀ e w', ¬ Answered I → E e w') :
    WP I (By (ForgetWrite ip now))
      (do
        let lifted ← attempt Exc.unsure (lift ip .operator)
        let released ← if lifted.isSome then attempt Exc.unsure (release ip) else pure none
        k lifted released) Q E w := by
  -- The second command, once the first has returned.
  have second : ∀ (lifted : Bool) w₁, w₁.db = w.db → WP I (By (ForgetWrite ip now))
      (do
        let released ← attempt Exc.unsure (release ip)
        k (some lifted) released) Q E w₁ := by
    intro lifted w₁ hdb
    refine WP.bind (wp_attempt (wp_release hI ?_ ?_ ?_ ?_ ?_))
    · exact fun hf => hfree lifted false w₁ hdb hf
    · exact fun hf => .release hf
    · intro hf
      refine hfree lifted true _ hdb ?_
      obtain ⟨e, he, -⟩ := World.flagged_iff.mp hf
      simp [World.flagged, World.unflag, he, BanEntry.flagged]
    · intro h e _
      have hfail : ¬ Answered I := fun a => h a.shows
      split
      · exact hrefused _ w₁ hfail hdb
      · exact hE e w₁ hfail
    · intro _ h e _
      have hfail : ¬ Answered I := fun a => h a.sets
      constructor
      · split
        · exact hrefused _ w₁ hfail hdb
        · exact hE e w₁ hfail
      · split
        · exact hrefused _ (w₁.unflag ip) hfail hdb
        · exact hE e _ hfail
  refine WP.bind (wp_attempt (wp_liftCode hI ?_ ?_ ?_ ?_ ?_))
  · exact fun _ => second false w rfl
  · exact fun hc => .lift hc
  · exact fun _ => second true _ rfl
  · intro h e _
    have hfail : ¬ Answered I := fun a => h a.shows
    split
    · exact WP.bind (WP.pure (hrefused none w hfail rfl))
    · exact hE e w hfail
  · intro _ h e _
    have hfail : ¬ Answered I := fun a => h a.clears
    constructor
    · split
      · exact WP.bind (WP.pure (hrefused none w hfail rfl))
      · exact hE e w hfail
    · split
      · exact WP.bind (WP.pure (hrefused none { w with table := w.table.erase ip } hfail rfl))
      · exact hE e _ hfail

/-- `forget_ban`: an answer `cleared` means that nothing holds the address. -/
theorem wp_forgetBan {Q : Forgotten → World → Prop} {E : Exc → World → Prop}
    (hQ : ∀ r w', (r.cleared → Forgot w' ip ∧ w'.flagged ip = false) → (Answered I → r.cleared) → Q r w')
    (hE : ∀ e w', (ip ≠ "" → ¬ Answered I) → E e w') :
    WP I (By (ForgetWrite ip now)) (forgetBan ip now) Q E w := by
  have hq : Admits (ForgetWrite ip now) now := fun _ _ h => .quiet h
  refine WP.ite (fun hnone => WP.throw (hE _ w (fun h => absurd hnone h))) (fun _ => ?_)
  have hE' : ∀ e w', ¬ Answered I → E e w' := fun e w' h => hE e w' (fun _ => h)
  refine WP.bind (WP.get (WP.bind (wp_sql hI .clear ?_ (fun h => hE' _ w (fun a => h a.sql)))))
  refine WP.bind (wp_sql hI .forget ?_ (fun h => hE' _ _ (fun a => h a.sql)))
  have hforgot : Forgot (Write.apply (Write.apply w (.sql (.clearBan ip))) (.sql (.forgetManualBan ip))) ip := by
    constructor
    · change Database.bannedUntil (w.db.clearBan ip) ip = 0
      simp [Database.bannedUntil_clearBan]
    · simp [Write.apply, DbWrite.apply, Database.forgetManualBan]
  -- What is written down afterwards is quiet.
  have report : ∀ (c₁ : Prop) [Decidable c₁] (f : Finding) (c₂ : Int → Prop) [∀ n, Decidable (c₂ n)]
      (d : World → Int → Decision) (r : Forgotten) w₁,
      (∀ v n, (d v n).outcome ≠ .pending ∧ (d v n).source ≠ .adaptive) →
      (r.cleared → Forgot w₁ ip ∧ w₁.flagged ip = false) → (Answered I → r.cleared) →
      WP I (By (ForgetWrite ip now))
        (do
          Prog.when c₁ do
            let _ ← emit f now
            pure ()
          let legacy ← settleLegacyObserved ip
          Prog.when (c₂ legacy) do
            let w ← Prog.get
            let _ ← recordDecision (d w legacy)
            pure ()
          pure r) Q E w₁ := by
    intro c₁ _ f c₂ _ d r w₁ hd hr ha
    have done : ∀ w', Calm w₁ w' → Q r w' := by
      intro w' h'
      refine hQ r w' (fun hc => ⟨(hr hc).1.calm h', ?_⟩) ha
      rw [h'.flagged]
      exact (hr hc).2
    have decided : ∀ w₂, Calm w₁ w₂ → WP I (By (ForgetWrite ip now))
        (do
          let legacy ← settleLegacyObserved ip
          Prog.when (c₂ legacy) do
            let w ← Prog.get
            let _ ← recordDecision (d w legacy)
            pure ()
          pure r) Q E w₂ := by
      intro w₂ h₂
      refine WP.bind (wp_settleLegacyObserved hI hq (fun code w₃ h₃ => ?_)
        (fun w₃ h _ => hE' _ w₃ (fun a => h a.sql)))
      refine WP.bind (WP.when (fun _ => WP.bind (WP.get (WP.bind ?_)))
        (fun _ => WP.pure (done w₃ (h₂.trans h₃))))
      exact wp_recordDecision_calm hI hq (hd _ _).1 (hd _ _).2
        (fun _ w₄ h₄ => WP.pure (WP.pure (done w₄ ((h₂.trans h₃).trans h₄))))
        (fun h => hE' _ w₃ (fun a => h a.sql))
    refine WP.bind (WP.when (fun _ => WP.bind (wp_emit hI hq (fun _ w₂ h₂ => WP.pure (decided w₂ h₂))
      (fun w₂ h _ => hE' _ w₂ (fun a => h a.sql)))) (fun _ => decided w₁ (Calm.refl w₁)))
  refine wp_takeOff hI (fun lifted released w₁ hdb hf => ?_) (fun lifted w₁ hfail hdb => ?_) hE'
  · refine report _ _ _ _ _ w₁ (fun _ _ => ⟨?_, DecisionSource.noConfusion⟩) (fun _ => ⟨?_, hf⟩) (fun _ => rfl)
    · exact DecisionOutcome.noConfusion
    · exact ⟨by rw [hdb]; exact hforgot.schedule, by rw [hdb]; exact hforgot.record⟩
  · refine report _ _ _ _ _ w₁ (fun _ _ => ⟨?_, DecisionSource.noConfusion⟩)
      (fun h => absurd h Bool.noConfusion) (fun a => absurd a hfail)
    exact DecisionOutcome.noConfusion

end Forget

/-! ## A ban by hand -/

/-- The writes of `place_manual_ban`. -/
inductive PlaceWrite (ip : Ip) (now : Int) (w : World) : Write → Prop
  | quiet {l : Write} (h : Quiet now w l) : PlaceWrite ip now w l
  | remember (r : ManualBan) : PlaceWrite ip now w (.sql (.writeManualBan ip r))
  | forget : PlaceWrite ip now w (.sql (.forgetManualBan ip))
  | set (henforceable : enforceable ip) : PlaceWrite ip now w (.setTable ip .byHand)

/-- The entry a ban by hand writes. -/
def ByHand (w : World) (ip : Ip) : Prop :=
  ∃ n, w.table.get? ip = some ⟨1, manualBanCode, w.clock + w.tableExpire, n⟩

theorem ByHand.apart {p : Ip → Prop} {w w' : World} {ip : Ip} (h : ByHand w ip) (ha : Apart p w w')
    (ht : w'.table = w.table) : ByHand w' ip := by
  obtain ⟨n, hn⟩ := h
  exact ⟨n, by rw [ht, ha.clock, ha.tableExpire]; exact hn⟩

section Place

variable {I : Script → Prop} {w : World} {ip : Ip} {now : Int} (hI : Closed I)

theorem Apart.writeManualBan (w : World) (ip : Ip) (r : ManualBan) :
    Apart (· = ip) w ((Write.sql (.writeManualBan ip r)).apply w) :=
  { Apart.refl w with
    manualBans := fun j hj => by simp [Write.apply, DbWrite.apply, Database.writeManualBan, hj] }

theorem Apart.forgetManualBan (w : World) (ip : Ip) :
    Apart (· = ip) w ((Write.sql (.forgetManualBan ip)).apply w) :=
  { Apart.refl w with
    manualBans := fun j hj => by simp [Write.apply, DbWrite.apply, Database.forgetManualBan, hj] }

include hI

theorem wp_putBack {remembered : Bool} {previous : Option ManualBan} {Q : Unit → World → Prop}
    {E : Exc → World → Prop} (hrem : SqlDone I → remembered)
    (hQ : ∀ w', Apart (· = ip) w w' → w'.table = w.table →
      (SqlDone I → w'.db.manualBans.get? ip = previous) → Q () w') :
    WP I (By (PlaceWrite ip now)) (putBack ip remembered previous) Q E w := by
  refine WP.when (fun _ => WP.bind (wp_attempt ?_)) (fun h => hQ w (Apart.refl w) rfl (fun hs => absurd (hrem hs) h))
  have failed : ¬ SqlDone I → WP I (By (PlaceWrite ip now)) (pure ()) Q E w :=
    fun h => WP.pure (hQ w (Apart.refl w) rfl (fun hs => absurd hs h))
  cases previous with
  | some r =>
    refine wp_sql hI (.remember r) (WP.pure (hQ _ (Apart.writeManualBan w ip r) rfl (fun _ => ?_))) (fun h => ?_)
    · simp [Write.apply, DbWrite.apply, Database.writeManualBan]
    · rw [if_pos (by decide)]
      exact failed h
  | none =>
    refine wp_sql hI .forget (WP.pure (hQ _ (Apart.forgetManualBan w ip) rfl (fun _ => ?_))) (fun h => ?_)
    · simp [Write.apply, DbWrite.apply, Database.forgetManualBan]
    · rw [if_pos (by decide)]
      exact failed h

/-- The ban is in the table: how long it has is read back and remembered. -/
theorem wp_rememberPlaced {remembered : Bool} {Q : Int × Bool → World → Prop} {E : Exc → World → Prop}
    (hset : ByHand w ip) {left : Int}
    (hleft : left = w.tableExpire ∨ left = 0 ∧ ¬ ShowsDone I)
    (hQ : ∀ till b w', Apart (· = ip) w w' → ByHand w' ip →
      (till = now + w.tableExpire / 1000 ∨ till = now + manualBanDefaultSeconds ∧
        (w.tableExpire ≤ 0 ∨ ¬ ShowsDone I)) →
      (SqlDone I → w'.db.manualBans.get? ip =
        some { placedAt := now, expiresAt := till, seenAt := now }) → Q (till, b) w') :
    WP I (By (PlaceWrite ip now))
      (do
        let till := if 0 < left then now + left / 1000 else now + manualBanDefaultSeconds
        let second ← attempt (· = .sqlite) (do
          sql (.writeManualBan ip { placedAt := now, expiresAt := till, seenAt := now })
          let w ← Prog.get
          recordDecision
            { ts := now, ip, action := .applied, source := .operator, outcome := .applied
              code := manualBanCode, until_ := till, policy := w.mem.banPolicy })
        pure (till, remembered && second.isSome)) Q E w := by
  have hq : Admits (PlaceWrite ip now) now := fun _ _ h => .quiet h
  have htill : (if 0 < left then now + left / 1000 else now + manualBanDefaultSeconds) =
      now + w.tableExpire / 1000 ∨
      (if 0 < left then now + left / 1000 else now + manualBanDefaultSeconds) =
        now + manualBanDefaultSeconds ∧ (w.tableExpire ≤ 0 ∨ ¬ ShowsDone I) := by
    rcases hleft with rfl | ⟨rfl, hfail⟩
    · split
      · exact Or.inl rfl
      · exact Or.inr ⟨rfl, Or.inl (by omega)⟩
    · exact Or.inr ⟨by simp, Or.inr hfail⟩
  generalize (if 0 < left then now + left / 1000 else now + manualBanDefaultSeconds) = till at htill
  have h₁ := Apart.writeManualBan w ip { placedAt := now, expiresAt := till, seenAt := now }
  have hrec : ((Write.sql (.writeManualBan ip { placedAt := now, expiresAt := till, seenAt := now })).apply
      w).db.manualBans.get? ip = some { placedAt := now, expiresAt := till, seenAt := now } := by
    simp [Write.apply, DbWrite.apply, Database.writeManualBan]
  refine WP.bind (wp_attempt (WP.bind (wp_sql hI (.remember _) (WP.bind (WP.get ?_)) (fun h => ?_))))
  · refine wp_recordDecision_calm hI hq DecisionOutcome.noConfusion DecisionSource.noConfusion
      (fun _ w₂ h₂ => WP.pure ?_) (fun h => ?_)
    · refine hQ till _ w₂ (h₁.trans h₂.apart) (hset.apart (h₁.trans h₂.apart) h₂.table) htill (fun _ => ?_)
      rw [h₂.manualBans]
      exact hrec
    · rw [if_pos (by decide)]
      exact WP.pure (hQ till _ _ h₁ (hset.apart h₁ rfl) htill (fun _ => hrec))
  · rw [if_pos (by decide)]
    exact WP.pure (hQ till _ w (Apart.refl w) hset htill (fun hs => absurd hs h))

/-- `place_manual_ban`: placed and remembered with the term the table gives it, or what was
remembered before is put back. -/
theorem wp_placeManualBan {Q : Int × Bool → World → Prop} {E : Exc → World → Prop}
    (hQ : ∀ till b w', Apart (· = ip) w w' → ByHand w' ip →
      (till = now + w.tableExpire / 1000 ∨ till = now + manualBanDefaultSeconds ∧
        (w.tableExpire ≤ 0 ∨ ¬ ShowsDone I)) →
      (SqlDone I → w'.db.manualBans.get? ip =
        some { placedAt := now, expiresAt := till, seenAt := now }) → Q (till, b) w')
    (hE : ∀ e w', Apart (· = ip) w w' → (w'.table.get? ip = w.table.get? ip ∨ ByHand w' ip) →
      (SqlDone I → w'.db.manualBans.get? ip = w.db.manualBans.get? ip) → E e w') :
    WP I (By (PlaceWrite ip now)) (placeManualBan ip now) Q E w := by
  refine WP.ite (fun _ => WP.throw (hE _ w (Apart.refl w) (Or.inl rfl) (fun _ => rfl))) (fun henf => ?_)
  have henf : enforceable ip := by simpa using henf
  -- Everything after the first write, which may have failed.
  have rest : ∀ (remembered : Bool) w₁, (SqlDone I → remembered) → Apart (· = ip) w w₁ →
      w₁.table = w.table → WP I (By (PlaceWrite ip now))
      (do
        let placed ← Prog.tryCatch (restore ip .byHand) (fun e => do
          Prog.when (Exc.isOSError e) (putBack ip remembered (w.db.manualBans.get? ip))
          Prog.throw e)
        if !placed then do
          putBack ip remembered (w.db.manualBans.get? ip)
          Prog.throw .manualBanRefused
        else do
          let rows ← attempt Exc.isOSError readTable
          let left := ((rows.bind (fun rows => rows.get? ip)).map (·.exp)).getD 0
          let till := if 0 < left then now + left / 1000 else now + manualBanDefaultSeconds
          let second ← attempt (· = .sqlite) (do
            sql (.writeManualBan ip { placedAt := now, expiresAt := till, seenAt := now })
            let w ← Prog.get
            recordDecision
              { ts := now, ip, action := .applied, source := .operator, outcome := .applied
                code := manualBanCode, until_ := till, policy := w.mem.banPolicy })
          pure (till, remembered && second.isSome)) Q E w₁ := by
    intro remembered w₁ hrem h₁ ht₁
    have h₂ : Apart (· = ip) w (w₁.setTable ip .byHand) := h₁.trans (Apart.setTable w₁ ip .byHand)
    have hset : ByHand (w₁.setTable ip .byHand) ip :=
      ⟨w₁.standingFor ip, by simp [World.setTable, Placing.code]⟩
    have refused : ∀ {e : Exc}, WP I (By (PlaceWrite ip now))
        (do
          putBack ip remembered (w.db.manualBans.get? ip)
          (Prog.throw e : M (Int × Bool))) Q E w₁ := by
      intro e
      refine WP.bind (wp_putBack hI hrem (fun w₃ h₃ ht₃ hback => WP.throw (hE _ w₃ (h₁.trans h₃) ?_ hback)))
      exact Or.inl (by rw [ht₃, ht₁])
    refine WP.bind (WP.tryCatch (wp_restore hI ?_ (fun _ => .set henf) ?_ ?_ ?_))
    · intro hne
      rw [hne] at henf
      exact absurd henf Bool.noConfusion
    · intro _
      refine WP.bind (wp_attempt (wp_readTable hI ?_ ?_))
      · refine wp_rememberPlaced hI hset ?_ ?_
        · refine Or.inl ?_
          simp [World.get?_rows, World.setTable]
        · exact fun till b w' h' hb ht hr => hQ till b w' (h₂.trans h') hb (h₂.tableExpire ▸ ht) hr
      · intro hfail e he
        rw [if_pos he]
        refine wp_rememberPlaced hI hset (Or.inr ⟨rfl, hfail⟩) ?_
        exact fun till b w' h' hb ht hr => hQ till b w' (h₂.trans h') hb (h₂.tableExpire ▸ ht) hr
    · exact fun _ => refused
    · intro _ _ e he
      constructor
      · refine WP.bind (WP.when (fun _ => ?_) (fun h => absurd he h))
        refine wp_putBack hI hrem (fun w₃ h₃ ht₃ hback => WP.throw (hE _ w₃ (h₁.trans h₃) ?_ hback))
        exact Or.inl (by rw [ht₃, ht₁])
      · refine WP.bind (WP.when (fun _ => ?_) (fun h => absurd he h))
        exact wp_putBack hI hrem (fun w₃ h₃ ht₃ hback =>
          WP.throw (hE _ w₃ (h₂.trans h₃) (Or.inr (hset.apart h₃ ht₃)) hback))
  refine WP.bind (WP.get (WP.bind (wp_attempt (wp_sql hI (.remember _) ?_ (fun h => ?_)))))
  · exact rest true _ (fun _ => rfl) (Apart.writeManualBan w ip _) rfl
  · rw [if_pos (by decide)]
    exact rest false w (fun hs => absurd hs h) (Apart.refl w) rfl

end Place

/-! ## The mode, the ladder and the sweep -/

/-- The writes of `set_ban_durations`. -/
inductive LadderWrite (w : World) : Write → Prop
  | quiet {state : GuardState} (hp : state.banPolicy = w.db.state.banPolicy)
      (hd : state.banDurations = w.db.state.banDurations) : LadderWrite w (.sql (.setState state))
  | save {ladder : List Int} (hpos : ∀ n ∈ ladder, 0 < n) :
      LadderWrite w (.sql (.setState { w.db.state with banDurations := some ladder }))
  | follow {ladder : List Int} {changedAt : Int} (hpos : ∀ n ∈ ladder, 0 < n) :
      LadderWrite w (.memory { w.mem with banDurations := ladder, banDurationsChangedAt := changedAt })

/-- The writes of `set_mode` before its pass. -/
inductive ModeWrite (w : World) : Write → Prop
  | save {mode : Mode} : ModeWrite w (.sql (.setState { w.db.state with modeOverride := some mode }))
  | follow {mode : Mode} : ModeWrite w (.memory { w.mem with mode })

/-- The writes of `run_maintenance`. -/
inductive MaintainWrite (days : Int) (start w : World) : Write → Prop
  | retain {bansBefore : Int} (hfirst : w = start) (hle : bansBefore ≤ start.now - days * 86400) :
      MaintainWrite days start w (.sql (.applyRetention (start.now - days * 86400) bansBefore))
  | prune (before : Int) (keep : Nat) (now : Int) :
      MaintainWrite days start w (.sql (.pruneDecisions before keep now))

section Settings

variable {I : Script → Prop} {w : World} {now : Int} (hI : Closed I)

include hI

theorem wp_setBanDurations {data : Json} :
    WP I (By LadderWrite) (setBanDurations data now) (fun _ _ => True) (fun _ _ => True) w := by
  unfold setBanDurations
  cases h : validateBanDurations data with
  | error text => exact WP.throw trivial
  | ok ladder =>
    have hpos := (validateBanDurations_ok h).1
    refine WP.bind (wp_setState hI (.save hpos) ?_ (fun _ => trivial))
    exact WP.bind (wp_setState hI (.quiet rfl rfl) (wp_remember (.follow hpos) trivial) (fun _ => trivial))

theorem wp_maintain {days : Int} :
    WP I (By (MaintainWrite days w)) (maintain days w.now) (fun _ _ => True) (fun _ _ => True) w :=
  WP.bind (WP.get (WP.bind (wp_sql hI (.retain rfl (min_le_left _ _))
    (wp_sql hI (.prune _ _ _) trivial (fun _ => trivial)) (fun _ => trivial))))

end Settings

end EasyHaProxy.Guardd
