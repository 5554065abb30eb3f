import EasyHaProxy.Guardd.Quiet

/-! The legacy bans a switch of policy lifts and the operator's bans guardd remembers. -/
namespace EasyHaProxy.Guardd

open Enforcer

/-- Everything flagged in a state is flagged in a table read. -/
def Shown (w : World) (bans : Dict Ip Row) : Prop :=
  ∀ ip, w.flagged ip → (bans.get? ip).any Row.flagged

theorem shown_rows (w : World) : Shown w w.rows := by
  intro ip h
  obtain ⟨e, he, hf⟩ := World.flagged_iff.mp h
  simpa [World.get?_rows, he, Row.flagged, BanEntry.flagged] using hf

/-- A remembered ban that is not in the table read, and whose HAProxy started after it was
last seen. -/
structure Lost (bans : Dict Ip Row) (now started : Int) (ip : Ip) (r : ManualBan) : Prop where
  gone : (bans.get? ip).any Row.flagged = false
  due : now < r.expiresAt
  seen : r.seenAt < now
  known : started ≠ 0
  restarted : r.seenAt < started

/-- The writes of the locked part, begun in `start` with the table read as `bans`. -/
inductive IngestWrite (start : World) (bans : Dict Ip Row) (now : Int) (w : World) : Write → Prop
  | quiet {l : Write} (h : Quiet now w l) : IngestWrite start bans now w l
  | legacy {ip : Ip} {code : Int} (hpolicy : w.mem.banPolicy = .u02)
      (hswitch : w.db.state.banPolicy = .u02) (hcode : code ∈ legacyBanCodes)
      (hholds : w.holds ip code) : IngestWrite start bans now w (.clearTable ip .legacy)
  | note {ip : Ip} {row : Row} (hrow : bans.get? ip = some row) (hflagged : row.flagged)
      (hcode : row.gpt0 = manualBanCode) :
      IngestWrite start bans now w (.sql (.noteManualBan ip now (now + max 0 (row.exp / 1000))))
  | copy {ip : Ip} {r : ManualBan} (hcarries : w.carries ip manualBanCode)
      (hr : w.db.manualBans.get? ip = some r) (hreasserted : r.reasserted)
      (hended : r.expiresAt ≤ now) : IngestWrite start bans now w (.clearTable ip .copy)
  | forgetEnded {ip : Ip} {r : ManualBan} (hr : w.db.manualBans.get? ip = some r)
      (hended : r.expiresAt ≤ now) : IngestWrite start bans now w (.sql (.forgetManualBan ip))
  | forgetLifted {ip : Ip} {r : ManualBan} (hr : w.db.manualBans.get? ip = some r)
      (hgone : (bans.get? ip).any Row.flagged = false) (hseen : r.seenAt < now)
      (hstarted : w.startedAt ≤ r.seenAt) :
      IngestWrite start bans now w (.sql (.forgetManualBan ip))
  | restore {ip : Ip} {r : ManualBan} (henforceable : enforceable ip)
      (hr : w.db.manualBans.get? ip = some r) (hlost : Lost bans now w.startedAt ip r)
      (hfree : Shown start bans → w.flagged ip = false) :
      IngestWrite start bans now w (.setTable ip .restore)
  | mark {ip : Ip} {r : ManualBan} (henforceable : enforceable ip)
      (hr : w.db.manualBans.get? ip = some r) (hlost : Lost bans now w.startedAt ip r)
      (hholds : w.holds ip manualBanCode) :
      IngestWrite start bans now w (.sql (.markManualReasserted ip))

theorem admits_ingestWrite (start : World) (bans : Dict Ip Row) (now : Int) :
    Admits (IngestWrite start bans now) now := fun _ _ h => .quiet h

/-- Nothing differs about the addresses left alone, nor about HAProxy's clock and start. -/
structure Apart (touched : Ip → Prop) (w w' : World) : Prop where
  startedAt : w'.startedAt = w.startedAt
  clock : w'.clock = w.clock
  tableExpire : w'.tableExpire = w.tableExpire
  table : ∀ ip, ¬ touched ip → w'.table.get? ip = w.table.get? ip
  manualBans : ∀ ip, ¬ touched ip → w'.db.manualBans.get? ip = w.db.manualBans.get? ip

namespace Apart

variable {p q : Ip → Prop} {w w' w'' : World} {ip : Ip}

theorem refl (w : World) : Apart p w w := ⟨rfl, rfl, rfl, fun _ _ => rfl, fun _ _ => rfl⟩

theorem trans (h : Apart p w w') (h' : Apart p w' w'') : Apart p w w'' where
  startedAt := h'.startedAt.trans h.startedAt
  clock := h'.clock.trans h.clock
  tableExpire := h'.tableExpire.trans h.tableExpire
  table := fun ip hip => (h'.table ip hip).trans (h.table ip hip)
  manualBans := fun ip hip => (h'.manualBans ip hip).trans (h.manualBans ip hip)

theorem mono (h : Apart p w w') (hpq : ∀ ip, p ip → q ip) : Apart q w w' :=
  { h with
    table := fun ip hip => h.table ip (fun hp => hip (hpq ip hp))
    manualBans := fun ip hip => h.manualBans ip (fun hp => hip (hpq ip hp)) }

theorem erase : Apart (· = ip) w { w with table := w.table.erase ip } :=
  { refl w with table := fun j hj => by simp [hj] }

theorem setTable (w : World) (ip : Ip) (placing : Placing) : Apart (· = ip) w (w.setTable ip placing) :=
  { refl w with
    table := fun j hj => by simp [World.setTable, hj] }

theorem flagged (h : Apart p w w') (hip : ¬ p ip) : w'.flagged ip = w.flagged ip := by
  simp [World.flagged, h.table ip hip]

end Apart

theorem Calm.apart {p : Ip → Prop} {w w' : World} (h : Calm w w') : Apart p w w' where
  startedAt := h.startedAt
  clock := h.clock
  tableExpire := h.tableExpire
  table := fun _ _ => by rw [h.table]
  manualBans := fun _ _ => by rw [h.manualBans]

/-- Bans were taken off and none was put on. -/
structure Eased (w w' : World) : Prop where
  shrinks : ∀ ip, w'.flagged ip → w.flagged ip
  startedAt : w'.startedAt = w.startedAt
  manualBans : w'.db.manualBans = w.db.manualBans
  banPolicy : w'.mem.banPolicy = w.mem.banPolicy
  recorded : w'.db.state.banPolicy = w.db.state.banPolicy

namespace Eased

variable {w w' w'' : World} {ip : Ip}

theorem trans (h : Eased w w') (h' : Eased w' w'') : Eased w w'' where
  shrinks := fun ip hip => h.shrinks ip (h'.shrinks ip hip)
  startedAt := h'.startedAt.trans h.startedAt
  manualBans := h'.manualBans.trans h.manualBans
  banPolicy := h'.banPolicy.trans h.banPolicy
  recorded := h'.recorded.trans h.recorded

theorem of_calm (h : Calm w w') : Eased w w' where
  shrinks := fun _ hip => h.flagged ▸ hip
  startedAt := h.startedAt
  manualBans := h.manualBans
  banPolicy := h.banPolicy
  recorded := h.recorded

theorem erase (ip : Ip) : Eased w { w with table := w.table.erase ip } where
  shrinks := by
    intro j hj
    by_cases h : j = ip <;> simp_all [World.flagged]
  startedAt := rfl
  manualBans := rfl
  banPolicy := rfl
  recorded := rfl

end Eased

section Ingest

variable {I : Script → Prop} {start w : World} {bans : Dict Ip Row} {now : Int}
  {Q : Unit → World → Prop} {E : Exc → World → Prop} (hI : Closed I)

include hI

theorem wp_reconcileEach {ips : List Ip} (hpolicy : w.mem.banPolicy = .u02)
    (hswitch : w.db.state.banPolicy = .u02) (hQ : ∀ w', Eased w w' → Q () w')
    (hE : ∀ e w', ¬ Answered I → E e w') :
    WP I (By (IngestWrite start bans now)) (reconcileEach now ips) Q E w := by
  have hq := admits_ingestWrite start bans now
  induction ips generalizing w with
  | nil => exact WP.pure (hQ w (Eased.of_calm (Calm.refl w)))
  | cons ip ips ih =>
    have next : ∀ w₁, Eased w w₁ →
        WP I (By (IngestWrite start bans now)) (reconcileEach now ips) Q E w₁ := fun w₁ h₁ =>
      ih (h₁.banPolicy.trans hpolicy) (h₁.recorded.trans hswitch) (fun w' h' => hQ w' (h₁.trans h'))
    refine WP.bind (wp_attempt (wp_liftLegacy hI ?_ ?_ ?_ ?_ ?_))
    · exact WP.bind (WP.when (fun h => absurd rfl h) (fun _ => next w (Eased.of_calm (Calm.refl w))))
    · rintro ⟨code, hcode, hholds⟩
      exact .legacy hpolicy hswitch hcode hholds
    · -- A legacy ban was lifted: the event, the decision, the note about it.
      intro code _ _
      have h₁ : Eased w { w with table := w.table.erase ip } := Eased.erase ip
      refine WP.bind (WP.when (fun _ => ?_) (fun _ => next _ h₁))
      refine WP.bind (wp_emit hI hq (fun _ w₂ h₂ => ?_)
        (fun w₂ h _ => hE _ w₂ (fun a => h a.sql)))
      refine WP.bind (wp_recordDecision_calm hI hq DecisionOutcome.noConfusion
        DecisionSource.noConfusion (fun _ w₃ h₃ => ?_) (fun h => hE _ w₂ (fun a => h a.sql)))
      refine WP.bind (wp_settleLegacyObserved hI hq (fun _ w₄ h₄ => WP.pure ?_)
        (fun w₄ h _ => hE _ w₄ (fun a => h a.sql)))
      exact next w₄ (h₁.trans (Eased.of_calm ((h₂.trans h₃).trans h₄)))
    · intro _ e he
      rw [if_pos he]
      exact WP.pure (hQ w (Eased.of_calm (Calm.refl w)))
    · intro _ _ e he
      rw [if_pos he, if_pos he]
      exact ⟨WP.pure (hQ w (Eased.of_calm (Calm.refl w))), WP.pure (hQ _ (Eased.erase ip))⟩

/-! ## The operator's bans -/

/-- A ban by hand standing in a table read. -/
def shownByHand (bans : Dict Ip Row) (ip : Ip) : Prop :=
  (bans.get? ip).any (fun row => row.flagged && row.gpt0 == manualBanCode)

theorem wp_noteManual {known : Dict Ip ManualBan} {seen : Ip × Row}
    (hseen : bans.get? seen.1 = some seen.2)
    (hQ : ∀ w', Apart (shownByHand bans) w w' → w'.table = w.table → Q () w')
    (hE : ∀ e w', ¬ Answered I → E e w') :
    WP I (By (IngestWrite start bans now)) (noteManual known now seen) Q E w := by
  have hq := admits_ingestWrite start bans now
  refine WP.when (fun h => ?_) (fun _ => hQ w (Apart.refl w) rfl)
  refine WP.bind (wp_sql hI (.note hseen h.1 h.2) ?_ (fun h => hE _ w (fun a => h a.sql)))
  have h₁ : Apart (shownByHand bans) w
      { w with db := w.db.noteManualBan seen.1 now (now + max 0 (seen.2.exp / 1000)) } :=
    { Apart.refl w with
      manualBans := by
        intro ip hip
        have hne : ip ≠ seen.1 := by
          rintro rfl
          exact hip (by simp [shownByHand, hseen, h.1, h.2])
        simp [Database.noteManualBan, hne] }
  refine WP.when (fun _ => WP.bind (WP.get (WP.bind ?_))) (fun _ => hQ _ h₁ rfl)
  refine wp_recordDecision_calm hI hq DecisionOutcome.noConfusion DecisionSource.noConfusion
    (fun _ w₂ h₂ => WP.pure (hQ w₂ (h₁.trans h₂.apart) h₂.table)) (fun h => hE _ _ (fun a => h a.sql))

theorem wp_noteManuals {known : Dict Ip ManualBan}
    (hQ : ∀ w', Apart (shownByHand bans) w w' → w'.table = w.table → Q () w')
    (hE : ∀ e w', ¬ Answered I → E e w') :
    WP I (By (IngestWrite start bans now)) (bans.entries.forM (noteManual known now)) Q E w := by
  refine (WP.forM_inv (J := fun s => Apart (shownByHand bans) w s ∧ s.table = w.table)
    ⟨Apart.refl w, rfl⟩ ?_).mono (fun _ s hs => hQ s hs.1 hs.2) (fun _ _ he => he)
  rintro seen hseen s ⟨hs, ht⟩
  exact wp_noteManual hI (Dict.mem_entries.mp hseen)
    (fun s' h' ht' => ⟨hs.trans h', ht'.trans ht⟩) hE

/-- What `started_at` has answered so far in this cycle. -/
def Told (I : Script → Prop) (started : Int) (answer : Option Int) : Prop :=
  answer = none ∨ answer = some started ∨ answer = some 0 ∧ ¬ InfosDone I

/-- A lost ban is back: flagged under the manual code for the table's full term, and
remembered as a copy. -/
def PutBack (w : World) (ip : Ip) (r : ManualBan) : Prop :=
  (∃ n, w.table.get? ip = some ⟨1, manualBanCode, w.clock + w.tableExpire, n⟩) ∧
    w.db.manualBans.get? ip = some { r with reasserted := true }

omit hI in
theorem PutBack.apart {w w' : World} {ip : Ip} {r : ManualBan} {p : Ip → Prop}
    (h : PutBack w ip r) (ha : Apart p w w') (hip : ¬ p ip) : PutBack w' ip r := by
  obtain ⟨⟨n, hn⟩, hr⟩ := h
  refine ⟨⟨n, ?_⟩, (ha.manualBans ip hip).trans hr⟩
  rw [ha.table ip hip, ha.clock, ha.tableExpire]
  exact hn

omit hI in
theorem manualBans_forget (ip : Ip) :
    Apart (· = ip) w { w with db := w.db.forgetManualBan ip } :=
  { Apart.refl w with manualBans := fun j hj => by simp [Database.forgetManualBan, hj] }

omit hI in
theorem manualBans_mark (ip : Ip) :
    Apart (· = ip) w { w with db := w.db.markManualReasserted ip } :=
  { Apart.refl w with manualBans := fun j hj => by simp [Database.markManualReasserted, hj] }

section Record

variable {ip : Ip} {r : ManualBan} {Q : Option Int → World → Prop}
  (hr : w.db.manualBans.get? ip = some r)

include hr

/-- The end of a remembered ban: a copy of it is lifted, and it is forgotten. -/
theorem wp_endManual {started : Option Int} (hended : r.expiresAt ≤ now)
    (hQ : ∀ w', Apart (· = ip) w w' → Q started w') (hE : ∀ e w', ¬ Answered I → E e w')
    {c : Prop} [Decidable c] (hc : c → r.reasserted) :
    WP I (By (IngestWrite start bans now))
      (do
        Prog.when c do
          let _ ← liftCode ip manualBanCode .copy
          pure ()
        sql (.forgetManualBan ip)
        pure started) Q E w := by
  have forget : ∀ w₁, Apart (· = ip) w w₁ → w₁.db.manualBans.get? ip = some r →
      WP I (By (IngestWrite start bans now)) (do sql (.forgetManualBan ip); pure started) Q E w₁ :=
    fun w₁ h₁ hr₁ => WP.bind (wp_sql hI (.forgetEnded hr₁ hended)
      (WP.pure (hQ _ (h₁.trans (manualBans_forget ip)))) (fun h => hE _ w₁ (fun a => h a.sql)))
  refine WP.bind (WP.when (fun h => WP.bind (wp_liftCode hI ?_ ?_ ?_ ?_ ?_))
    (fun _ => forget w (Apart.refl w) hr))
  · exact fun _ => WP.pure (forget w (Apart.refl w) hr)
  · exact fun hcarries => .copy hcarries hr (hc h) hended
  · exact fun _ => WP.pure (forget _ Apart.erase hr)
  · exact fun h e _ => hE e w (fun a => h a.shows)
  · exact fun _ h e _ => ⟨hE e w (fun a => h a.clears), hE e _ (fun a => h a.clears)⟩

/-- A remembered ban the table read does not show, once the start of HAProxy is known. -/
theorem wp_missingManual {at_ : Int} (hat : at_ = w.startedAt ∨ at_ = 0 ∧ ¬ InfosDone I)
    (hgone : (bans.get? ip).any Row.flagged = false) (hdue : now < r.expiresAt) (hseen : r.seenAt < now)
    (hfree : Shown start bans → w.flagged ip = false)
    (hQ : ∀ started w', Apart (· = ip) w w' → Told I w.startedAt started →
      (Answered I → enforceable ip → Lost bans now w.startedAt ip r → PutBack w' ip r) → Q started w')
    (hE : ∀ e w', ¬ Answered I → E e w') :
    WP I (By (IngestWrite start bans now))
      (if at_ = 0 then pure (some at_)
      else if r.seenAt < at_ then do
        if ← restore ip .restore then do
          sql (.markManualReasserted ip)
          let w ← Prog.get
          let _ ← recordDecision
            { ts := now, ip, action := .restored, source := .restart, outcome := .applied
              code := manualBanCode, until_ := r.expiresAt, policy := w.mem.banPolicy }
          pure (some at_)
        else pure (some at_)
      else do
        sql (.forgetManualBan ip)
        pure (some at_)) Q E w := by
  have hq := admits_ingestWrite start bans now
  have told : Told I w.startedAt (some at_) := by
    rcases hat with rfl | ⟨rfl, hi⟩
    · exact Or.inr (Or.inl rfl)
    · exact Or.inr (Or.inr ⟨rfl, hi⟩)
  refine WP.ite (fun h0 => WP.pure (hQ _ w (Apart.refl w) told ?_)) (fun h0 => ?_)
  · intro a _ hlost
    rcases hat with rfl | ⟨-, hi⟩
    · exact absurd h0 hlost.known
    · exact absurd a.infos hi
  obtain rfl : at_ = w.startedAt := hat.resolve_right (fun h => h0 h.1)
  refine WP.ite (fun hlt => ?_) (fun hle => ?_)
  · have hlost : Lost bans now w.startedAt ip r := ⟨hgone, hdue, hseen, h0, hlt⟩
    refine WP.bind (wp_restore hI ?_ ?_ ?_ ?_ ?_)
    · intro hne
      refine WP.pure (hQ _ w (Apart.refl w) told (fun _ he => ?_))
      rw [hne] at he
      exact absurd he Bool.noConfusion
    · exact fun henf => .restore henf hr hlost hfree
    · intro henf
      have hholds : (w.setTable ip .restore).holds ip manualBanCode := by
        simp [World.holds, World.setTable, BanEntry.flagged, Placing.code]
      refine WP.bind (wp_sql hI (.mark henf hr hlost hholds) ?_ (fun h => hE _ _ (fun a => h a.sql)))
      have h₁ := (Apart.setTable w ip .restore).trans (manualBans_mark ip)
      refine WP.bind (WP.get (WP.bind (wp_recordDecision_calm hI hq DecisionOutcome.noConfusion
        DecisionSource.noConfusion (fun _ w₂ h₂ => WP.pure ?_) (fun h => hE _ _ (fun a => h a.sql)))))
      refine hQ _ w₂ (h₁.trans h₂.apart) told (fun _ _ _ => ?_)
      -- The entry and the record as the two writes left them.
      have hput : PutBack { w.setTable ip .restore with db := w.db.markManualReasserted ip } ip r := by
        refine ⟨⟨w.standingFor ip, ?_⟩, ?_⟩
        · simp [World.setTable, Placing.code]
        · simp [Database.markManualReasserted, hr]
      exact hput.apart (h₂.apart (p := fun _ => False)) id
    · exact fun h => WP.pure (hQ _ w (Apart.refl w) told (fun a => absurd a.sets h))
    · exact fun h _ e _ => ⟨hE e w (fun a => h a.sets), hE e _ (fun a => h a.sets)⟩
  · refine WP.bind (wp_sql hI (.forgetLifted hr hgone hseen (not_lt.mp hle))
      (WP.pure (hQ _ _ (manualBans_forget ip) told ?_)) (fun h => hE _ w (fun a => h a.sql)))
    exact fun _ _ hlost => absurd hlost.restarted hle

theorem wp_keepManual {started : Option Int} (hstarted : Told I w.startedAt started)
    (hfree : Shown start bans → (bans.get? ip).any Row.flagged = false → w.flagged ip = false)
    (hQ : ∀ started w', Apart (· = ip) w w' → Told I w.startedAt started →
      (Answered I → enforceable ip → Lost bans now w.startedAt ip r → PutBack w' ip r) → Q started w')
    (hE : ∀ e w', ¬ Answered I → E e w') :
    WP I (By (IngestWrite start bans now)) (keepManual bans now started (ip, r)) Q E w := by
  refine WP.ite (fun hended => ?_) (fun hdue => ?_)
  · refine wp_endManual hI hr hended (fun w' h' => hQ _ w' h' hstarted ?_) hE (fun h => h.1)
    exact fun _ _ hlost => absurd hlost.due (not_lt.mpr hended)
  refine WP.ite (fun hheld => WP.pure (hQ _ w (Apart.refl w) hstarted ?_)) (fun hheld => ?_)
  · intro _ _ hlost
    rw [hlost.gone] at hheld
    exact absurd hheld Bool.noConfusion
  have hgone : (bans.get? ip).any Row.flagged = false := by simpa using hheld
  refine WP.ite (fun hlate => WP.pure (hQ _ w (Apart.refl w) hstarted ?_)) (fun hseen => ?_)
  · exact fun _ _ hlost => absurd hlost.seen (not_lt.mpr hlate)
  have hdue : now < r.expiresAt := not_le.mp hdue
  have hseen : r.seenAt < now := not_le.mp hseen
  have missing {at_ : Int} (hat : at_ = w.startedAt ∨ at_ = 0 ∧ ¬ InfosDone I) :=
    wp_missingManual hI hr hat hgone hdue hseen (fun h => hfree h hgone) hQ hE
  rcases hstarted with rfl | rfl | ⟨rfl, hi⟩
  · exact WP.bind (wp_startedAt hI (missing (Or.inl rfl)) (fun h => missing (Or.inr ⟨rfl, h⟩)))
  · exact WP.bind (WP.pure (missing (Or.inl rfl)))
  · exact WP.bind (WP.pure (missing (Or.inr ⟨rfl, hi⟩)))

end Record

omit hI in
theorem mem_sortedRecords {records : Dict Ip ManualBan} {e : Ip × ManualBan} :
    e ∈ sortedRecords records ↔ records.get? e.1 = some e.2 :=
  (List.mem_insertionSort _).trans Dict.mem_entries

omit hI in
theorem nodup_sortedRecords (records : Dict Ip ManualBan) :
    ((sortedRecords records).map Prod.fst).Nodup :=
  ((List.perm_insertionSort _ records.entries).map Prod.fst).nodup_iff.mpr records.nodup

/-- Between the rounds over the remembered bans: those to come are as they were, those
done are back if they were lost. -/
structure KeepInv (I : Script → Prop) (w : World) (bans : Dict Ip Row) (now : Int)
    (rest : List (Ip × ManualBan)) (started : Option Int) (s : World) : Prop where
  told : Told I w.startedAt started
  startedAt : s.startedAt = w.startedAt
  ahead : ∀ e ∈ rest, s.table.get? e.1 = w.table.get? e.1 ∧ s.db.manualBans.get? e.1 = some e.2
  done : Answered I → ∀ e ∈ sortedRecords w.db.manualBans, e ∈ rest ∨
    (enforceable e.1 → Lost bans now w.startedAt e.1 e.2 → PutBack s e.1 e.2)

theorem wp_keepRecords (hfree : Shown start bans → Shown w bans)
    {Q : Option Int → World → Prop}
    (hQ : ∀ started w', (Answered I → ∀ ip r, w.db.manualBans.get? ip = some r → enforceable ip →
      Lost bans now w.startedAt ip r → PutBack w' ip r) → Q started w')
    (hE : ∀ e w', ¬ Answered I → E e w') :
    WP I (By (IngestWrite start bans now))
      ((sortedRecords w.db.manualBans).foldlM (keepManual bans now) none) Q E w := by
  refine (WP.foldlM (J := KeepInv I w bans now) ⟨Or.inl rfl, rfl, ?_, ?_⟩ ?_).mono ?_ (fun _ _ he => he)
  · exact fun e he => ⟨rfl, mem_sortedRecords.mp he⟩
  · exact fun _ e he => Or.inl he
  · rintro ⟨ip, r⟩ rest started s hsuf hs
    obtain ⟨htable, hrecord⟩ := hs.ahead (ip, r) List.mem_cons_self
    have hnodup := (nodup_sortedRecords w.db.manualBans).sublist (hsuf.sublist.map Prod.fst)
    rw [List.map_cons, List.nodup_cons] at hnodup
    have hne : ∀ e ∈ rest, e.1 ≠ ip := by
      rintro e he rfl
      exact hnodup.1 (List.mem_map.mpr ⟨e, he, rfl⟩)
    refine wp_keepManual hI hrecord (hs.startedAt.symm ▸ hs.told) ?_ ?_ hE
    · intro hshown hgone
      by_contra hf
      have hw : w.flagged ip = true := by
        rw [World.flagged, ← htable]
        simpa [World.flagged] using hf
      exact absurd (hfree hshown ip hw) (by simp [hgone])
    · intro started' s' ha htold hput
      rw [hs.startedAt] at htold hput
      refine ⟨htold, ha.startedAt.trans hs.startedAt, ?_, ?_⟩
      · intro e he
        obtain ⟨h₁, h₂⟩ := hs.ahead e (List.mem_cons_of_mem _ he)
        exact ⟨(ha.table e.1 (hne e he)).trans h₁, (ha.manualBans e.1 (hne e he)).trans h₂⟩
      · intro answered e he
        rcases hs.done answered e he with hmem | hdone
        · rcases List.mem_cons.mp hmem with rfl | hmem
          · exact Or.inr (hput answered)
          · exact Or.inl hmem
        · by_cases hip : e.1 = ip
          · -- The record of this round itself.
            have he₁ := mem_sortedRecords.mp he
            have he₂ := mem_sortedRecords.mp (hsuf.subset List.mem_cons_self)
            simp only [hip] at he₁ he₂
            obtain rfl : e = (ip, r) := Prod.ext hip (Option.some.inj (he₁.symm.trans he₂))
            exact Or.inr (hput answered)
          · exact Or.inr (fun henf hlost => (hdone henf hlost).apart ha hip)
  · intro started s hs
    refine hQ started s (fun answered ip r hr henf hlost => ?_)
    exact ((hs.done answered (ip, r) (mem_sortedRecords.mpr hr)).resolve_left List.not_mem_nil) henf hlost

theorem wp_keepManualBans (hfree : Shown start bans → Shown w bans)
    (hQ : ∀ w', (Answered I → ∀ ip r, w.db.manualBans.get? ip = some r → enforceable ip →
      Lost bans now w.startedAt ip r → PutBack w' ip r) → Q () w')
    (hE : ∀ e w', ¬ Answered I → E e w') :
    WP I (By (IngestWrite start bans now)) (keepManualBans bans now) Q E w := by
  refine WP.bind (WP.get (WP.bind (wp_noteManuals hI (fun w₁ h₁ ht => ?_) hE)))
  refine WP.bind (WP.get (WP.bind (wp_keepRecords hI ?_ (fun _ w₂ h₂ => WP.pure (hQ w₂ ?_)) hE)))
  · intro hshown ip hf
    exact hfree hshown ip (by rw [World.flagged, ← ht]; exact hf)
  · intro answered ip r hr henf hlost
    have hnot : ¬ shownByHand bans ip := by
      intro h
      have hgone := hlost.gone
      unfold shownByHand at h
      cases hb : bans.get? ip with
      | none => simp [hb] at h
      | some row => simp_all
    exact h₂ answered ip r ((h₁.manualBans ip hnot).trans hr) henf (h₁.startedAt.symm ▸ hlost)

/-- The locked part of `ingest_tables`: the writes it may make, and that every lost ban is
back when the commands are answered. -/
theorem wp_ingestBans
    (hQ : ∀ w', (Answered I → ∀ ip r, w.db.manualBans.get? ip = some r → enforceable ip →
      Lost bans now w.startedAt ip r → PutBack w' ip r) → Q () w')
    (hE : ∀ e w', ¬ Answered I → E e w') :
    WP I (By (IngestWrite w bans now)) (ingestBans bans now) Q E w := by
  have keep : ∀ w₁, Eased w w₁ → WP I (By (IngestWrite w bans now))
      (do let _ ← attempt Exc.isOSError (keepManualBans bans now); pure ()) Q E w₁ := by
    intro w₁ h₁
    refine WP.bind (wp_attempt (wp_keepManualBans hI ?_ (fun w₂ h₂ => WP.pure (hQ w₂ ?_)) ?_))
    · exact fun hshown ip hf => hshown ip (h₁.shrinks ip hf)
    · rwa [h₁.manualBans, h₁.startedAt] at h₂
    · intro e w₂ hfail
      split
      · exact WP.pure (hQ w₂ (fun answered => absurd answered hfail))
      · exact hE e w₂ hfail
  refine WP.bind (WP.get (WP.bind (WP.when (fun h => ?_) (fun _ => keep w (Eased.of_calm (Calm.refl w))))))
  exact wp_reconcileEach hI h.2.1 h.2.2 keep hE

end Ingest

end EasyHaProxy.Guardd
