import EasyHaProxy.Guardd.Enforcement
import EasyHaProxy.Guardd.ManualBans

/-! The policy is refreshed, the tables are read, and the stages follow one another with nothing in between.
-/
namespace EasyHaProxy.Guardd

open Enforcer

/-- The two writes of `refresh_ban_policy`. -/
inductive PolicyWrite (w : World) : Write → Prop
  | follow : PolicyWrite w (.memory { w.mem with banPolicy := w.policy })
  | mark : PolicyWrite w (.sql (.setState { w.db.state with banPolicy := w.policy }))

/-- Nothing but the policy differs. -/
structure Refreshed (w w' : World) : Prop where
  table : w'.table = w.table
  startedAt : w'.startedAt = w.startedAt
  clock : w'.clock = w.clock
  tableExpire : w'.tableExpire = w.tableExpire
  signedIn : w'.signedIn = w.signedIn
  mode : w'.mem.mode = w.mem.mode
  manualBans : w'.db.manualBans = w.db.manualBans
  banPolicy : w'.mem.banPolicy = w.policy
  recorded : w'.db.state.banPolicy = w.db.state.banPolicy ∨ w'.db.state.banPolicy = w.policy

theorem Refreshed.rows {w w' : World} (h : Refreshed w w') : w'.rows = w.rows := by
  rw [World.rows, h.table, h.clock]
  rfl

/-! ## What a poll leaves alone -/

theorem EnforceWrite.manualBans {start w : World} {now : Int} {clears : Ip → Prop} {l : Write}
    (h : EnforceWrite start now clears w l) : (l.apply w).db.manualBans = w.db.manualBans := by
  cases h with
  | quiet h => exact h.calm.manualBans
  | _ => rfl

/-- A pass leaves every ban of somebody else as it is. -/
theorem EnforceWrite.entry {start w : World} {now : Int} {clears : Ip → Prop} {l : Write} {ip : Ip}
    {e : BanEntry} (h : EnforceWrite start now clears w l) (he : w.table.get? ip = some e)
    (hf : e.flagged) (hc : e.gpt0 ≠ adaptiveBanCode) : (l.apply w).table.get? ip = some e := by
  have hflagged : w.flagged ip := World.flagged_iff.mpr ⟨e, he, hf⟩
  have hcarries : ¬ w.carries ip adaptiveBanCode := by
    rintro ⟨e', he', hc'⟩
    exact hc (Option.some.inj (he.symm.trans he') ▸ hc')
  cases h with
  | quiet h => rw [h.calm.table]; exact he
  | @lift j _ hcarries' =>
    have hne : ip ≠ j := fun h => hcarries (h ▸ hcarries')
    simpa [Write.apply, hne] using he
  | @reassert j _ _ hfree _ _ =>
    have hne : ip ≠ j := by
      rintro rfl
      rw [hfree] at hflagged
      exact absurd hflagged Bool.noConfusion
    simpa [Write.apply, World.setTable, hne] using he
  | @ban d _ _ _ _ hcode _ _ _ =>
    have hne : ip ≠ d.ip := by
      rintro rfl
      exact hcarries (World.carries_of_holds (hcode hflagged))
    simpa [Write.apply, World.setTable, hne] using he
  | _ => exact he

theorem IngestWrite.mode {start w : World} {bans : Dict Ip Row} {now : Int} {l : Write}
    (h : IngestWrite start bans now w l) : (l.apply w).mem.mode = w.mem.mode := by
  cases h with
  | quiet h => exact h.calm.mode
  | _ => rfl

theorem PutBack.keep {w w' : World} {ip : Ip} {r : ManualBan} (h : PutBack w ip r)
    (hclock : w'.clock = w.clock) (hexpire : w'.tableExpire = w.tableExpire)
    (htable : ∀ e, w.table.get? ip = some e → e.flagged → e.gpt0 = manualBanCode →
      w'.table.get? ip = some e)
    (hbans : w'.db.manualBans = w.db.manualBans) : PutBack w' ip r := by
  obtain ⟨⟨n, hn⟩, hr⟩ := h
  refine ⟨⟨n, ?_⟩, by rw [hbans]; exact hr⟩
  rw [hclock, hexpire]
  exact htable _ hn rfl rfl

theorem Calm.putBack {w w' : World} {ip : Ip} {r : ManualBan} (h : Calm w w') (hp : PutBack w ip r) :
    PutBack w' ip r :=
  hp.keep h.clock h.tableExpire (fun _ he _ _ => h.table ▸ he) h.manualBans

section Poll

variable {I : Script → Prop} {w : World} {Q : Unit → World → Prop} {E : Exc → World → Prop}
  (hI : Closed I)

include hI

theorem wp_refreshBanPolicy (hQ : ∀ w', Refreshed w w' → Q () w') (hE : ∀ e w', ¬ Answered I → E e w') :
    WP I (By PolicyWrite) refreshBanPolicy Q E w := by
  refine WP.bind (WP.get (WP.bind (wp_remember .follow ?_)))
  have h₁ : Refreshed w { w with mem := { w.mem with banPolicy := w.policy } } :=
    ⟨rfl, rfl, rfl, rfl, rfl, rfl, rfl, rfl, Or.inl rfl⟩
  have mark : WP I (By PolicyWrite) (setState fun state => { state with banPolicy := w.policy }) Q E
      { w with mem := { w.mem with banPolicy := w.policy } } :=
    wp_setState hI .mark (hQ _ ⟨rfl, rfl, rfl, rfl, rfl, rfl, rfl, rfl, Or.inr rfl⟩) (fun h => hE _ _ (fun a => h a.sql))
  refine WP.when (fun _ => ?_) (fun _ => hQ _ h₁)
  by_cases hp : w.policy = .u02
  · rw [if_pos hp]
    refine WP.bind (wp_attempt (wp_readTable hI ?_ ?_))
    · exact WP.when (fun _ => mark) (fun h => absurd rfl h)
    · intro _ e he
      rw [if_pos he]
      exact WP.when (fun h => absurd h Bool.noConfusion) (fun _ => hQ _ h₁)
  · rw [if_neg hp]
    exact WP.bind (WP.pure (WP.when (fun _ => mark) (fun h => absurd rfl h)))

/-- What one read of the tables can come to. -/
inductive Read (I : Script → Prop) (w : World) : Tables → Prop
  | listed {ban : Option (Dict Ip Row)} {signedIn : Option (Dict Ip Int)}
      (hban : ban = some w.rows ∨ ban = none ∧ ¬ ShowsDone I)
      (hsigned : signedIn = some w.signedIn ∨ signedIn = none ∧ ¬ ShowsDone I) :
      Read I w { ban, signedIn }
  | unlisted (h : ¬ ListsDone I) : Read I w { ban := some .empty, signedIn := some .empty }

omit hI in
theorem wp_readOrLeaveOut {α : Type} {guard : World → Write → Prop} {m : M α} {a : α}
    {Q : Option α → World → Prop}
    (hm : ∀ {Q : α → World → Prop} {E : Exc → World → Prop}, Q a w →
      (¬ ShowsDone I → ∀ e, Exc.isOSError e → E e w) → WP I (By guard) m Q E w)
    (hQ : ∀ r, (r = some a ∨ r = none ∧ ¬ ShowsDone I) → Q r w) (hE : ∀ e, ¬ ShowsDone I → E e w) :
    WP I (By guard) (readOrLeaveOut m) Q E w := by
  refine wp_attempt (hm (hQ _ (Or.inl rfl)) (fun h e _ => ?_))
  split
  · exact hQ _ (Or.inr ⟨rfl, h⟩)
  · exact hE e h

theorem wp_readTables {guard : World → Write → Prop} {Q : Tables → World → Prop}
    (hQ : ∀ tables, Read I w tables → Q tables w) (hE : ∀ e, ¬ AllDone I → E e w) :
    WP I (By guard) readTables Q E w := by
  refine WP.bind (wp_listTables hI ?_ ?_ ?_)
  · refine WP.bind (wp_readOrLeaveOut (fun hq he => wp_readTable hI hq he) (fun ban hban => ?_)
      (fun e h => hE e (fun a => h a.shows)))
    refine WP.bind (wp_readOrLeaveOut (fun hq he => wp_readSignedIn hI hq he) (fun signedIn hs => ?_)
      (fun e h => hE e (fun a => h a.shows)))
    exact WP.pure (hQ _ (.listed hban hs))
  · exact fun h => WP.pure (hQ _ (.unlisted h))
  · exact fun h e _ => hE e (fun a => h a.lists)

/-- The writes of a poll begun in `w₀` once it has read `tables`; `reads` when reads and
removals are answered. -/
inductive RestWrite (tables : Tables) (w₀ : World) (reads : Prop) (now : Int) (w : World) : Write → Prop
  | observe {l : Write} (h : ObserveWrite tables.signedIn now w l) : RestWrite tables w₀ reads now w l
  | ingest {start : World} {bans : Dict Ip Row} {l : Write} (hbans : tables.ban = some bans)
      (hshown : bans = w₀.rows → Shown start bans) (h : IngestWrite start bans now w l) :
      RestWrite tables w₀ reads now w l
  | enforce {start : World} {l : Write} (h : EnforceWrite start now (Clears reads start now) w l) :
      RestWrite tables w₀ reads now w l

/-- The writes of a poll begun in `w₀` that read the tables. -/
inductive PollWrite (w₀ : World) (reads : Prop) (now : Int) (w : World) : Write → Prop
  | policy {l : Write} (h : PolicyWrite w l) : PollWrite w₀ reads now w l
  | rest {tables : Tables} {l : Write}
      (hbans : tables.ban = some w₀.rows ∨ tables.ban = none)
      (h : RestWrite tables w₀ reads now w l) : PollWrite w₀ reads now w l

def pollRest (tables : Tables) (findings : List Finding) (now : Int) : M Unit := do
  observeTables tables now
  ingestTables tables now
  ingestFindings findings now
  applyEnforcement now

variable {w₀ : World} {now : Int} {findings : List Finding}

theorem wp_pollRest {tables : Tables} (htable : w.table = w₀.table)
    (hQ : ∀ w', (Answered I → (∀ bans ip r, tables.ban = some bans → w.db.manualBans.get? ip = some r →
        enforceable ip → Lost bans now w.startedAt ip r → PutBack w' ip r) ∧
      ∃ v, v.mem.mode = w.mem.mode ∧ PassDone v now w') → Q () w')
    (hE : ∀ e w', ¬ Answered I → E e w') :
    WP I (By (RestWrite tables w₀ (ReadsDone I) now)) (pollRest tables findings now) Q E w := by
  -- Findings and enforcement, from a state in which the lost bans are back.
  have finish : ∀ w₂, w₂.mem.mode = w.mem.mode → (Answered I → ∀ bans ip r, tables.ban = some bans →
        w.db.manualBans.get? ip = some r → enforceable ip → Lost bans now w.startedAt ip r →
        PutBack w₂ ip r) →
      WP I (By (RestWrite tables w₀ (ReadsDone I) now))
        (do ingestFindings findings now; applyEnforcement now) Q E w₂ := by
    intro w₂ hmode hput
    refine WP.bind (wp_ingestFindings hI (fun _ _ h => .observe (.quiet h)) (fun w₃ h₃ => ?_)
      (fun w₃ h _ => hE _ w₃ (fun a => h a.sql)))
    have hpass : WP I (By (EnforceWrite w₃ now (Clears (ReadsDone I) w₃ now))) (applyEnforcement now)
        (fun _ w' => Answered I → PassDone w₃ now w') (fun _ _ => ¬ Answered I) w₃ :=
      wp_applyEnforcement hI (fun _ h => h) (fun _ _ h => h)
    have hkeep := hpass.keep (K := fun s => ∀ ip r, PutBack w₃ ip r → PutBack s ip r)
      (fun _ _ h => h) (by
        rintro s l t hs ⟨rfl, hl⟩ ip r hp
        refine (hs ip r hp).keep (clock_apply s l) (tableExpire_apply s l) ?_ hl.manualBans
        exact fun e he hf hc => hl.entry he hf (by rw [hc]; decide))
    refine (hkeep.guarantee (fun s l t h => ⟨h.1, .enforce h.2⟩)).mono ?_ (fun e w' h => hE e w' h.1)
    intro _ w' h
    refine hQ w' (fun ha => ⟨?_, w₃, h₃.mode.trans hmode, h.1 ha⟩)
    intro bans ip r hb hr henf hlost
    exact h.2 ip r (h₃.putBack (hput ha bans ip r hb hr henf hlost))
  have hobserve : WP I (By (ObserveWrite tables.signedIn now)) (observeTables tables now) (fun _ => Calm w)
      (fun _ _ => ¬ SqlDone I) w :=
    wp_observeTables hI (fun _ h _ => h) (fun _ _ h => h)
  refine WP.bind ((hobserve.guarantee (fun s l t h => ⟨h.1, .observe h.2⟩)).mono ?_
    (fun e w' h => hE e w' (fun a => h a.sql)))
  intro _ w₁ h₁
  refine WP.bind ?_
  unfold ingestTables
  cases hb : tables.ban with
  | none => exact WP.pure (finish w₁ h₁.mode (by simp [hb]))
  | some bans =>
    have hingest : WP I (By (IngestWrite w₁ bans now)) (ingestBans bans now)
        (fun _ w' => Answered I → ∀ ip r, w₁.db.manualBans.get? ip = some r → enforceable ip →
          Lost bans now w₁.startedAt ip r → PutBack w' ip r) (fun _ _ => ¬ Answered I) w₁ :=
      wp_ingestBans hI (fun _ h => h) (fun _ _ h => h)
    have hkeep := hingest.keep (K := fun s => s.mem.mode = w.mem.mode) h₁.mode (by
      rintro s l t hs ⟨rfl, hl⟩
      exact hl.mode.trans hs)
    have hshown : bans = w₀.rows → Shown w₁ bans := by
      rintro rfl ip hf
      refine shown_rows w₀ ip ?_
      rw [World.flagged, ← htable, ← h₁.table]
      exact hf
    refine (hkeep.guarantee (fun s l t h => ⟨h.1, .ingest hb hshown h.2⟩)).mono ?_
      (fun e w' h => hE e w' h.1)
    intro _ w₂ h₂
    refine finish w₂ h₂.2 (fun ha bans' ip r hb' hr henf hlost => ?_)
    obtain rfl : bans = bans' := Option.some.inj (hb.symm.trans hb')
    rw [h₁.manualBans, h₁.startedAt] at h₂
    exact h₂.1 ha ip r hr henf hlost

/-- `poll`, the tables listed: the writes it may make; when all is answered every lost ban
by hand is back and the pass has done what it is for. -/
theorem wp_poll (hlists : ListsDone I)
    (hQ : ∀ w', (Answered I → (∀ ip r, w.db.manualBans.get? ip = some r → enforceable ip →
        Lost w.rows now w.startedAt ip r → PutBack w' ip r) ∧
      ∃ v, v.mem.mode = w.mem.mode ∧ PassDone v now w') → Q () w')
    (hE : ∀ e w', ¬ Answered I → E e w') :
    WP I (By (PollWrite w (ReadsDone I) now)) (poll findings now) Q E w := by
  have hrefresh : WP I (By PolicyWrite) refreshBanPolicy (fun _ => Refreshed w) (fun _ _ => ¬ Answered I) w :=
    wp_refreshBanPolicy hI (fun _ h => h) (fun _ _ h => h)
  refine WP.bind ((hrefresh.guarantee (fun s l t h => ⟨h.1, .policy h.2⟩)).mono ?_ hE)
  intro _ w₁ h₁
  refine WP.bind (wp_readTables hI (fun tables hread => ?_)
    (fun e h => hE e w₁ (fun a => h ⟨a, hlists⟩)))
  have hban : tables.ban = some w.rows ∨ tables.ban = none ∧ ¬ ShowsDone I := by
    cases hread with
    | listed hban _ =>
      rw [← h₁.rows]
      exact hban
    | unlisted h => exact absurd hlists h
  refine (wp_pollRest hI h₁.table (fun w' h => hQ w' (fun ha => ?_)) hE).guarantee
    (fun s l t h => ⟨h.1, .rest (hban.imp_right And.left) h.2⟩)
  obtain ⟨hput, v, hmode, hdone⟩ := h ha
  refine ⟨fun ip r hr henf hlost => ?_, v, hmode.trans h₁.mode, hdone⟩
  rw [h₁.manualBans, h₁.startedAt] at hput
  exact hput w.rows ip r (hban.resolve_right (fun h => h.2 ha.shows)) hr henf hlost

end Poll

end EasyHaProxy.Guardd
