import EasyHaProxy.Guardd.Poll

/-! A poll leaves the bans of an operator and of HAProxy's own rules as they are, as long as the listing of
the tables is answered. -/
namespace EasyHaProxy.Guardd

/-- What a poll from `w` at `now` may have done to the entries of others when it ends in `w'`. -/
structure Owned (w : World) (now : Int) (w' : World) : Prop where
  manual : ∀ ip e, w.table.get? ip = some e → e.flagged → e.gpt0 = manualBanCode →
    w'.table.get? ip = some e ∨
      ∃ r, w.db.manualBans.get? ip = some r ∧ r.reasserted ∧ r.expiresAt ≤ now
  legacy : ∀ ip e, w.table.get? ip = some e → e.flagged → e.gpt0 ∈ legacyBanCodes →
    w'.table.get? ip = some e ∨ w.policy = .u02 ∧ w'.db.state.banPolicy = .u02

/-- The whole promise of a poll about `tbl_ban`. -/
structure TouchesOwn (w : World) (i : Script) (findings : List Finding) (now : Int) : Prop where
  owned : Owned w now ((poll findings now).final i w)
  paused : i.Succeeds → w.mem.mode ≠ .enforce →
    ∀ ip, ¬ ((poll findings now).final i w).holds ip adaptiveBanCode

/-- A foreign ban that a remembered one is written over when the tables look empty: guardd
takes the remembered ban for lost in a restart, and its write changes the entry. -/
structure Overwritten (w : World) (now : Int) (ip : Ip) (e : BanEntry) (r : ManualBan) : Prop where
  entry : w.table.get? ip = some e
  flagged : e.flagged
  code : e.gpt0 = manualBanCode ∨
    e.gpt0 ∈ legacyBanCodes ∧ ¬ (w.policy = .u02 ∧ w.db.state.banPolicy = .u02)
  differs : e ≠ ⟨1, manualBanCode, w.clock + w.tableExpire, e.standing⟩
  record : w.db.manualBans.get? ip = some r
  enforceable : enforceable ip
  lost : Lost .empty now w.startedAt ip r

/-- Some foreign ban would be written over if the tables were not listed. -/
def Exposed (w : World) (now : Int) : Prop := ∃ ip e r, Overwritten w now ip e r

section Rest

variable {tables : Tables} {w w₁ s : World} {now : Int} {reads : Prop} {ip : Ip} {e : BanEntry} {l : Write}

/-- A foreign ban as the stages of a poll find it, one after another. -/
structure Kept (tables : Tables) (w w₁ : World) (now : Int) (ip : Ip) (e : BanEntry) (s : World) : Prop where
  startedAt : s.startedAt = w.startedAt
  clock : s.clock = w.clock
  tableExpire : s.tableExpire = w.tableExpire
  policy : s.mem.banPolicy = w₁.mem.banPolicy
  recorded : s.db.state.banPolicy = w₁.db.state.banPolicy
  entry : s.table.get? ip = some e
  running : e.gpt0 = manualBanCode → ∀ r, s.db.manualBans.get? ip = some r → r.reasserted → now < r.expiresAt
  record : tables.ban = some .empty → ∀ r, s.db.manualBans.get? ip = some r →
    ∃ r₀, w.db.manualBans.get? ip = some r₀ ∧ r₀.expiresAt = r.expiresAt ∧ r₀.seenAt = r.seenAt

/-- A write that leaves the entry and the record of the address alone. -/
theorem Kept.frame (h : Kept tables w w₁ now ip e s)
    (hpolicy : (l.apply s).mem.banPolicy = s.mem.banPolicy)
    (hrecorded : (l.apply s).db.state.banPolicy = s.db.state.banPolicy)
    (hentry : (l.apply s).table.get? ip = s.table.get? ip)
    (hrecord : ∀ r, (l.apply s).db.manualBans.get? ip = some r → s.db.manualBans.get? ip = some r) :
    Kept tables w w₁ now ip e (l.apply s) where
  startedAt := (startedAt_apply s l).trans h.startedAt
  clock := (clock_apply s l).trans h.clock
  tableExpire := (tableExpire_apply s l).trans h.tableExpire
  policy := hpolicy.trans h.policy
  recorded := hrecorded.trans h.recorded
  entry := hentry.trans h.entry
  running := fun hc r hr => h.running hc r (hrecord r hr)
  record := fun hb r hr => h.record hb r (hrecord r hr)

theorem Kept.calm (h : Kept tables w w₁ now ip e s) (hc : Calm s (l.apply s)) :
    Kept tables w w₁ now ip e (l.apply s) :=
  h.frame hc.banPolicy hc.recorded (by rw [hc.table]) (fun r hr => by rwa [hc.manualBans] at hr)

theorem Kept.enforce {start : World} (h : Kept tables w w₁ now ip e s) (hf : e.flagged)
    (hc : e.gpt0 ≠ adaptiveBanCode) {clears : Ip → Prop} (hl : EnforceWrite start now clears s l) :
    Kept tables w w₁ now ip e (l.apply s) := by
  refine h.frame ?_ ?_ ((hl.entry h.entry hf hc).trans h.entry.symm) (fun r hr => by rwa [hl.manualBans] at hr)
  · cases hl with
    | quiet hq => exact hq.calm.banPolicy
    | _ => rfl
  · cases hl with
    | quiet hq => exact hq.calm.recorded
    | _ => rfl

theorem manual_ne_legacy {code : Int} (h : code ∈ legacyBanCodes) : code ≠ manualBanCode := by
  rintro rfl
  revert h
  decide

/-- What the notes of a poll do to a record: a copy keeps its end. -/
theorem Kept.note {bans : Dict Ip Row} {j : Ip} {row : Row} {till : Int}
    (h : Kept tables w w₁ now ip e s) (hb : tables.ban = some bans) (hrow : bans.get? j = some row) :
    Kept tables w w₁ now ip e ((Write.sql (.noteManualBan j now till)).apply s) := by
  by_cases hj : ip = j
  · subst hj
    refine { h with running := ?_, record := ?_ }
    · intro hc r hr hre
      simp only [Write.apply, DbWrite.apply, Database.noteManualBan, Dict.get?_set, if_true,
        Option.some.injEq] at hr
      cases hold : s.db.manualBans.get? ip with
      | none =>
        rw [hold] at hr
        subst hr
        exact absurd hre Bool.noConfusion
      | some old =>
        rw [hold] at hr
        subst hr
        have hre : old.reasserted = true := hre
        simpa [hre] using h.running hc old hold hre
    · intro hempty
      rw [hb, Option.some.injEq] at hempty
      rw [hempty] at hrow
      exact absurd hrow (by simp)
  · refine h.frame rfl rfl rfl (fun r hr => ?_)
    simpa [Write.apply, DbWrite.apply, Database.noteManualBan, hj] using hr

theorem Kept.ingest {start : World} {bans : Dict Ip Row} (h : Kept tables w w₁ now ip e s)
    (hf : e.flagged)
    (hcode : e.gpt0 = manualBanCode ∨
      e.gpt0 ∈ legacyBanCodes ∧ ¬ (w₁.mem.banPolicy = .u02 ∧ w₁.db.state.banPolicy = .u02))
    (hb : tables.ban = some bans)
    (hsafe : Shown start bans ∨ bans = .empty ∧ ∀ r, w.db.manualBans.get? ip = some r →
      enforceable ip → Lost .empty now w.startedAt ip r →
      e = ⟨1, manualBanCode, w.clock + w.tableExpire, e.standing⟩)
    (hl : IngestWrite start bans now s l) : Kept tables w w₁ now ip e (l.apply s) := by
  have hflagged : s.flagged ip := World.flagged_iff.mpr ⟨e, h.entry, hf⟩
  have hforget : ∀ j, Kept tables w w₁ now ip e ((Write.sql (.forgetManualBan j)).apply s) := by
    intro j
    refine h.frame rfl rfl rfl (fun r hr => ?_)
    by_cases hj : ip = j
    · simp [Write.apply, DbWrite.apply, Database.forgetManualBan, hj] at hr
    · simpa [Write.apply, DbWrite.apply, Database.forgetManualBan, hj] using hr
  cases hl with
  | quiet hq => exact h.calm hq.calm
  | @legacy j code hpolicy hswitch hmem hholds =>
    by_cases hj : ip = j
    · subst hj
      obtain ⟨e', he', -, hc'⟩ := World.holds_iff.mp hholds
      obtain rfl : e = e' := Option.some.inj (h.entry.symm.trans he')
      rcases hcode with hc | ⟨-, hnot⟩
      · exact absurd hc (manual_ne_legacy (hc' ▸ hmem))
      · exact absurd ⟨h.policy ▸ hpolicy, h.recorded ▸ hswitch⟩ hnot
    · exact h.frame rfl rfl (by simp [Write.apply, hj]) (fun _ hr => hr)
  | note hrow _ _ => exact h.note hb hrow
  | @copy j r hcarries hr hre hended =>
    by_cases hj : ip = j
    · subst hj
      obtain ⟨e', he', hc'⟩ := hcarries
      obtain rfl : e = e' := Option.some.inj (h.entry.symm.trans he')
      exact absurd (h.running hc' r hr hre) (not_lt.mpr hended)
    · exact h.frame rfl rfl (by simp [Write.apply, hj]) (fun _ hr => hr)
  | forgetEnded _ _ => exact hforget _
  | forgetLifted _ _ _ _ => exact hforget _
  | @restore j r henf hr hlost hfree =>
    by_cases hj : ip = j
    · subst hj
      rcases hsafe with hshown | ⟨rfl, hsame⟩
      · rw [hfree hshown] at hflagged
        exact absurd hflagged Bool.noConfusion
      · obtain ⟨r₀, hr₀, hend, hseen⟩ := h.record hb r hr
        have he := hsame r₀ hr₀ henf
          ⟨hlost.gone, hend ▸ hlost.due, hseen ▸ hlost.seen, h.startedAt ▸ hlost.known,
            hseen ▸ h.startedAt ▸ hlost.restarted⟩
        refine h.frame rfl rfl ?_ (fun _ hr => hr)
        rw [h.entry]
        simp only [Write.apply, World.setTable, Dict.get?_set, if_true, Option.some.injEq, Placing.code]
        rw [he, World.standingFor, h.entry, h.clock, h.tableExpire]
        simp [hf]
    · exact h.frame rfl rfl (by simp [Write.apply, World.setTable, hj]) (fun _ hr => hr)
  | @mark j r henf hr hlost _ =>
    by_cases hj : ip = j
    · subst hj
      have hnew : ∀ r', ((Write.sql (.markManualReasserted ip)).apply s).db.manualBans.get? ip = some r' →
          r' = { r with reasserted := true } := by
        intro r' hr'
        simpa [Write.apply, DbWrite.apply, Database.markManualReasserted, hr] using hr'.symm
      refine { h with running := ?_, record := ?_ }
      · intro _ r' hr' _
        rw [hnew r' hr']
        exact hlost.due
      · intro hempty r' hr'
        rw [hnew r' hr']
        exact h.record hempty r hr
    · refine h.frame rfl rfl rfl (fun r' hr' => ?_)
      simpa [Write.apply, DbWrite.apply, Database.markManualReasserted, hj] using hr'

theorem RestWrite.recorded (hl : RestWrite tables w reads now s l) :
    (l.apply s).db.state.banPolicy = s.db.state.banPolicy := by
  cases hl with
  | observe hq => exact hq.calm.recorded
  | ingest _ _ hl =>
    cases hl with
    | quiet hq => exact hq.calm.recorded
    | _ => rfl
  | enforce hl =>
    cases hl with
    | quiet hq => exact hq.calm.recorded
    | _ => rfl

def SafeRead (w : World) (now : Int) (tables : Tables) : Prop :=
  tables.ban = some w.rows ∨ tables.ban = none ∨ tables.ban = some .empty ∧ ¬ Exposed w now

theorem kept_of_steps {log : List (Write × World)} (h₁ : Refreshed w w₁) (hread : SafeRead w now tables)
    (hsteps : Steps (By (RestWrite tables w reads now)) w₁ log) (he : w.table.get? ip = some e)
    (hf : e.flagged)
    (hcode : e.gpt0 = manualBanCode ∨
      e.gpt0 ∈ legacyBanCodes ∧ ¬ (w₁.mem.banPolicy = .u02 ∧ w₁.db.state.banPolicy = .u02))
    (hrunning : e.gpt0 = manualBanCode → ∀ r, w.db.manualBans.get? ip = some r → r.reasserted →
      now < r.expiresAt) :
    (lastState w₁ log).table.get? ip = some e := by
  have hc : e.gpt0 ≠ adaptiveBanCode := by
    rcases hcode with hc | ⟨hc, -⟩
    · rw [hc]
      decide
    · intro h
      rw [h] at hc
      revert hc
      decide
  have hinit : Kept tables w w₁ now ip e w₁ :=
    { startedAt := h₁.startedAt, clock := h₁.clock, tableExpire := h₁.tableExpire, policy := rfl
      recorded := rfl, entry := by rw [h₁.table]; exact he
      running := by rw [h₁.manualBans]; exact hrunning
      record := fun _ r hr => ⟨r, h₁.manualBans ▸ hr, rfl, rfl⟩ }
  refine (hsteps.keeps (I := Kept tables w w₁ now ip e) hinit ?_).entry
  rintro s l t hs ⟨rfl, hl⟩
  cases hl with
  | observe hq => exact hs.calm hq.calm
  | enforce hl => exact hs.enforce hf hc hl
  | ingest hb hshown hl =>
    refine hs.ingest hf hcode hb ?_ hl
    rcases hread with hr | hr | ⟨hr, hnot⟩
    · exact Or.inl (hshown (Option.some.inj (hb.symm.trans hr)))
    · rw [hr] at hb
      cases hb
    · refine Or.inr ⟨Option.some.inj (hb.symm.trans hr), fun r hrec henf hlost => ?_⟩
      by_contra hdiff
      refine hnot ⟨ip, e, r, he, hf, hcode.imp_right (fun h => ⟨h.1, fun hp => h.2 ?_⟩), hdiff, hrec,
        henf, hlost⟩
      refine ⟨h₁.banPolicy.trans hp.1, ?_⟩
      rcases h₁.recorded with h | h
      · exact h.trans hp.2
      · exact h.trans hp.1

theorem owned_of_steps {log : List (Write × World)} (h₁ : Refreshed w w₁) (hread : SafeRead w now tables)
    (hsteps : Steps (By (RestWrite tables w reads now)) w₁ log) : Owned w now (lastState w₁ log) := by
  refine ⟨fun ip e he hf hc => ?_, fun ip e he hf hc => ?_⟩
  · by_cases hex : ∃ r, w.db.manualBans.get? ip = some r ∧ r.reasserted ∧ r.expiresAt ≤ now
    · exact Or.inr hex
    · refine Or.inl (kept_of_steps h₁ hread hsteps he hf (Or.inl hc) (fun _ r hr hre => ?_))
      by_contra hle
      exact hex ⟨r, hr, hre, not_lt.mp hle⟩
  · have hrec : (lastState w₁ log).db.state.banPolicy = w₁.db.state.banPolicy :=
      hsteps.keeps (I := fun s => s.db.state.banPolicy = w₁.db.state.banPolicy) rfl
        (fun s l t hs h => h.1 ▸ h.2.recorded.trans hs)
    by_cases hp : w₁.mem.banPolicy = .u02 ∧ w₁.db.state.banPolicy = .u02
    · exact Or.inr ⟨h₁.banPolicy ▸ hp.1, hrec.trans hp.2⟩
    · exact Or.inl (kept_of_steps h₁ hread hsteps he hf (Or.inr ⟨hc, hp⟩)
        (fun h => absurd h (manual_ne_legacy hc)))

theorem owned_of_table (h : s.table = w.table) : Owned w now s :=
  ⟨fun _ _ he _ _ => Or.inl (h ▸ he), fun _ _ he _ _ => Or.inl (h ▸ he)⟩

end Rest

section Poll

variable {I : Script → Prop} {w : World} {now : Int} {findings : List Finding}

variable (findings) in
theorem wp_owned (hI : Closed I) (hsafe : ListsDone I ∨ ¬ Exposed w now) :
    WP I (fun _ _ _ => True) (poll findings now) (fun _ => Owned w now) (fun _ => Owned w now) w := by
  have hrefresh := (wp_refreshBanPolicy (w := w) (Q := fun _ => Refreshed w) (E := fun _ _ => True) hI
    (fun _ h => h) (fun _ _ _ => trivial)).keep (K := fun s => s.table = w.table) rfl (by
      rintro s l t hs ⟨rfl, hl⟩
      cases hl <;> exact hs)
  refine WP.bind ((hrefresh.guarantee (fun _ _ _ _ => trivial)).mono ?_ (fun _ _ h => owned_of_table h.2))
  rintro - w₁ ⟨h₁, -⟩
  have hreads : ∀ {Q : Tables → World → Prop}, (∀ tables, Read I w₁ tables → Q tables w₁) →
      WP I (By fun _ _ => True) readTables Q (fun _ => Owned w now) w₁ :=
    fun hQ => wp_readTables hI hQ (fun _ _ => owned_of_table h₁.table)
  refine WP.bind ((hreads (fun tables hread => ?_)).guarantee (fun _ _ _ _ => trivial))
  have hread : SafeRead w now tables := by
    cases hread with
    | listed hban _ =>
      rw [h₁.rows] at hban
      exact hban.imp_right (fun h => Or.inl h.1)
    | unlisted hnot => exact Or.inr (Or.inr ⟨rfl, hsafe.resolve_left hnot⟩)
  intro i hi
  have hrest : WP I (By (RestWrite tables w (ReadsDone I) now)) (pollRest tables findings now)
      (fun _ _ => True) (fun _ _ => True) w₁ :=
    wp_pollRest hI h₁.table (fun _ _ => trivial) (fun _ _ _ => trivial)
  obtain ⟨ho, hsteps, -⟩ := hrest i hi
  refine ⟨ho, hsteps.mono (fun _ _ _ _ => trivial), ?_⟩
  have howned := owned_of_steps h₁ hread hsteps
  unfold Ends
  split
  · exact howned
  · exact howned

/-- Answers in which the tables are not listed, and neither is the switch of policy marked. -/
def unlisted (w : World) : Script :=
  { lists := [.refused]
    shows := if w.db.state.banPolicy ≠ w.policy ∧ w.policy = .u02 then [.refused] else [] }

theorem refresh_unlisted (w : World) :
    (refreshBanPolicy (unlisted w) w).result = .ok () ∧
    (refreshBanPolicy (unlisted w) w).oracle = { lists := [.refused] } ∧
    (w.policy = .u02 →
      (refreshBanPolicy.final (unlisted w) w).db.state.banPolicy = w.db.state.banPolicy) := by
  by_cases hs : w.db.state.banPolicy = w.policy
  · simp only [refreshBanPolicy, unlisted, Prog.final, bind, Prog.bind, Prog.get, Prog.when, hs,
      ne_eq, not_true_eq_false, false_and, if_false]
    exact ⟨rfl, rfl, fun _ => hs⟩
  · by_cases hp : w.policy = .u02
    · simp only [refreshBanPolicy, unlisted, Prog.final, bind, Prog.bind, Prog.get, Prog.when, hp,
        ne_eq, if_true]
      rw [hp] at hs
      simp only [hs, not_false_eq_true, if_true]
      exact ⟨rfl, rfl, fun _ => rfl⟩
    · simp only [refreshBanPolicy, unlisted, Prog.final, bind, Prog.bind, Prog.get, Prog.when, hs, hp,
        ne_eq, not_false_eq_true, and_false, if_true, if_false]
      exact ⟨rfl, rfl, fun h => h.elim⟩

theorem poll_unlisted (w : World) (findings : List Finding) (now : Int) :
    (poll findings now).final (unlisted w) w =
      (pollRest ⟨some .empty, some .empty⟩ findings now).final {} (refreshBanPolicy.final (unlisted w) w) := by
  obtain ⟨hok, horacle, -⟩ := refresh_unlisted w
  change (refreshBanPolicy >>= fun _ => readTables >>= fun tables => pollRest tables findings now).final
    (unlisted w) w = _
  rw [Prog.final_bind hok, horacle]
  exact Prog.final_bind rfl

theorem refreshed_unlisted (w : World) : Refreshed w (refreshBanPolicy.final (unlisted w) w) := by
  have h : WP (fun _ => True) (By PolicyWrite) refreshBanPolicy (fun _ => Refreshed w) (fun _ _ => True) w :=
    wp_refreshBanPolicy closed_any (fun _ h => h) (fun _ _ _ => trivial)
  have hends := (h (unlisted w) trivial).2.2
  rwa [(refresh_unlisted w).1] at hends

/-- Where something is exposed, a listing that is not answered overwrites it. -/
theorem overwritten_unlisted {ip : Ip} {e : BanEntry} {r : ManualBan} (h : Overwritten w now ip e r) :
    ¬ Owned w now ((poll findings now).final (unlisted w) w) := by
  intro howned
  have h₁ := refreshed_unlisted w
  have hstate := (refresh_unlisted w).2.2
  rw [poll_unlisted] at howned
  generalize refreshBanPolicy.final (unlisted w) w = w₁ at h₁ hstate howned
  have hI : Closed (fun i => i = ({} : Script)) := by
    constructor <;> rintro i rfl <;> rfl
  have hans : Answered (fun i => i = ({} : Script)) := by
    constructor <;> rintro i rfl <;> rfl
  have hrest : WP (fun i => i = ({} : Script))
      (By (RestWrite ⟨some .empty, some .empty⟩ w (ReadsDone (fun i => i = ({} : Script))) now))
      (pollRest ⟨some .empty, some .empty⟩ findings now) (fun _ w' => PutBack w' ip r) (fun _ _ => False) w₁ := by
    refine wp_pollRest hI h₁.table (fun w' hw' => ?_) (fun _ _ hfail => hfail hans)
    exact (hw' hans).1 .empty ip r rfl (h₁.manualBans ▸ h.record) h.enforceable (h₁.startedAt ▸ h.lost)
  obtain ⟨-, hsteps, hends⟩ := hrest {} rfl
  have hput : PutBack ((pollRest ⟨some .empty, some .empty⟩ findings now).final {} w₁) ip r := by
    unfold Ends at hends
    split at hends
    · exact hends
    · exact hends.elim
  obtain ⟨⟨n, hn⟩, -⟩ := hput
  obtain ⟨hclock, hexpire, hrecorded⟩ := hsteps.keeps (I := fun s => s.clock = w.clock ∧
    s.tableExpire = w.tableExpire ∧ s.db.state.banPolicy = w₁.db.state.banPolicy)
    ⟨h₁.clock, h₁.tableExpire, rfl⟩ (by
      rintro s l t ⟨hc, ht, hp⟩ ⟨rfl, hl⟩
      exact ⟨(clock_apply s l).trans hc, (tableExpire_apply s l).trans ht, hl.recorded.trans hp⟩)
  change World.clock ((pollRest _ findings now).final {} w₁) = w.clock at hclock
  change World.tableExpire ((pollRest _ findings now).final {} w₁) = w.tableExpire at hexpire
  change ((pollRest _ findings now).final {} w₁).db.state.banPolicy = w₁.db.state.banPolicy at hrecorded
  rw [hclock, hexpire] at hn
  rcases h.code with hc | ⟨hc, hpolicy⟩
  · rcases howned.manual ip e h.entry h.flagged hc with hkept | ⟨r', hr', -, hended⟩
    · have he := Option.some.inj (hkept.symm.trans hn)
      exact h.differs (by rw [he])
    · obtain rfl : r = r' := Option.some.inj (h.record.symm.trans hr')
      exact absurd h.lost.due (not_lt.mpr hended)
  · rcases howned.legacy ip e h.entry h.flagged hc with hkept | ⟨hp, hs⟩
    · have he := Option.some.inj (hkept.symm.trans hn)
      exact manual_ne_legacy hc (by rw [he])
    · exact hpolicy ⟨hp, (hstate hp).symm.trans (hrecorded.symm.trans hs)⟩

/-- A poll touches only its own entries whenever the tables are listed; with no promise about
the listing, exactly where no foreign ban is exposed to it. -/
theorem poll_touches_own_iff (w : World) (findings : List Finding) (now : Int) :
    (∀ i : Script, i.Listed → TouchesOwn w i findings now) ∧
      ((∀ i, TouchesOwn w i findings now) ↔ ¬ Exposed w now) := by
  have paused : ∀ i : Script, i.Succeeds → w.mem.mode ≠ .enforce →
      ∀ ip, ¬ ((poll findings now).final i w).holds ip adaptiveBanCode := by
    intro i hi hmode
    have h : WP Script.Succeeds (By (PollWrite w (ReadsDone Script.Succeeds) now)) (poll findings now)
        (fun _ w' => ∀ ip, ¬ w'.holds ip adaptiveBanCode) (fun _ _ => False) w := by
      refine wp_poll closed_succeeds allDone_succeeds.lists (fun w' hw' => ?_)
        (fun _ _ hfail => hfail allDone_succeeds.toAnswered)
      obtain ⟨-, v, hv, hdone⟩ := hw' allDone_succeeds.toAnswered
      exact hdone.paused (hv ▸ hmode)
    have hends := (h i hi).2.2
    unfold Ends at hends
    split at hends
    · exact hends
    · exact hends.elim
  have owned : ∀ {I : Script → Prop}, Closed I → (ListsDone I ∨ ¬ Exposed w now) → ∀ i, I i →
      Owned w now ((poll findings now).final i w) := by
    intro I hI hsafe i hi
    have hends := (wp_owned findings hI hsafe i hi).2.2
    unfold Ends at hends
    split at hends <;> exact hends
  refine ⟨fun i hi => ⟨owned closed_listed (Or.inl listsDone_listed) i hi, paused i⟩, ?_, ?_⟩
  · rintro h ⟨ip, e, r, hover⟩
    exact overwritten_unlisted hover (h (unlisted w)).owned
  · exact fun hsafe i => ⟨owned closed_any (Or.inr hsafe) i trivial, paused i⟩

end Poll

/-- HAProxy restarted at 2000, after an operator's ban was last seen at 1000, and banned the
address on its own rules before guardd looked again. -/
def bannedAgain : World where
  table := Dict.empty.set "10.0.0.1" { gpc0 := 1, gpt0 := 10, expires := 900000000 }
  startedAt := 2000
  clock := 3000000
  db := { manualBans := Dict.empty.set "10.0.0.1" { placedAt := 1000, expiresAt := 605800, seenAt := 1000 } }
  mem := { mode := .enforce, banDurations := defaultBanDurations }

/-- One `show table` without an answer, and HAProxy's own ban carries the operator's code. -/
theorem poll_overwrites_foreign_ban :
    ¬ ∀ (w : World) (i : Script) (findings : List Finding), TouchesOwn w i findings w.now := by
  intro h
  have hover : Overwritten bannedAgain bannedAgain.now "10.0.0.1"
      { gpc0 := 1, gpt0 := 10, expires := 900000000 }
      { placedAt := 1000, expiresAt := 605800, seenAt := 1000 } :=
    { entry := rfl, flagged := rfl, code := Or.inr ⟨by decide, by decide⟩, differs := by decide
      record := rfl, enforceable := by decide
      lost := ⟨rfl, by decide, by decide, by decide, by decide⟩ }
  exact overwritten_unlisted hover (h bannedAgain (unlisted bannedAgain) []).owned

end EasyHaProxy.Guardd
