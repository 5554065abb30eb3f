import EasyHaProxy.Guardd.Quiet

/-! `EnforceWrite` says of every single write of `_apply_enforcement` what it finds when it is made. -/
namespace EasyHaProxy.Guardd

open Enforcer

/-- Why an address may be banned: its score, nothing against it, and something new. -/
structure Evidence (w : World) (now : Int) (ip : Ip) : Prop where
  score : wouldBanScore ≤ reputationScore w now ip
  blockers : banBlockers w now ip = []
  fresh : staleEvidence w ip = false

/-- A decision written down and neither carried out nor settled. -/
def Pending (w : World) (d : Decision) : Prop := d ∈ w.db.decisions ∧ d.outcome = .pending

/-- A decision a settlement pass at `now` takes up and may commit. -/
def Recoverable (w : World) (now : Int) (d : Decision) : Prop :=
  Pending w d ∧ d.ts < now - decisionPendingGrace ∧ now < d.until_

/-- No two decisions of an address are settled by one pass. -/
def NoTwins (w : World) (now : Int) (ip : Ip) : Prop :=
  ∀ d c, Recoverable w now d → Recoverable w now c → d.ip = ip → c.ip = ip → d = c

/-- No address has two decisions pending. -/
def OnePending (w : World) : Prop := ∀ d c, Pending w d → Pending w c → d.ip = c.ip → d = c

/-- A term that is over by the pass begun in `w` is also cleared by it: what it reads and takes
off is answered, or there is no such term. -/
def Clears (reads : Prop) (w : World) (now : Int) (ip : Ip) : Prop :=
  reads ∨ ¬ (0 < w.db.bannedUntil ip ∧ w.db.bannedUntil ip ≤ now)

/-- The writes of a pass begun in `start`; `clears` for the addresses whose term, when it is
over, is cleared before the ban loop comes to them. -/
inductive EnforceWrite (start : World) (now : Int) (clears : Ip → Prop) (w : World) : Write → Prop
  | quiet {l : Write} (h : Quiet now w l) : EnforceWrite start now clears w l
  | lift {ip : Ip} {lifting : Lifting} (hcarries : w.carries ip adaptiveBanCode) :
      EnforceWrite start now clears w (.clearTable ip lifting)
  | clear {ip : Ip} (hpos : 0 < w.db.bannedUntil ip) (hserved : w.db.bannedUntil ip ≤ now)
      (hfree : ¬ w.carries ip adaptiveBanCode) :
      EnforceWrite start now clears w (.sql (.clearBan ip))
  | abandon {d : Decision} (hd : Pending w d)
      (hsettled : OnePending start → ¬ w.holds d.ip adaptiveBanCode ∨ 0 < w.db.bannedUntil d.ip) :
      EnforceWrite start now clears w (.sql (.settleDecision d.id .abandoned))
  | settled {d : Decision} {detail : String} (hd : Recoverable w now d)
      (hstands : start.holds d.ip adaptiveBanCode) (hopen : start.db.bannedUntil d.ip ≤ 0)
      (halone : NoTwins start now d.ip → w.db.bannedUntil d.ip ≤ 0)
      (hstill : OnePending start → w.holds d.ip adaptiveBanCode ∧ w.db.bannedUntil d.ip ≤ 0) :
      EnforceWrite start now clears w (.sql (.commitBan d.id d.ip d.until_ d.ts detail))
  | reassert {ip : Ip} (hmode : w.mem.mode = .enforce) (henforceable : enforceable ip)
      (hfree : w.flagged ip = false) (hpos : 0 < w.db.bannedUntil ip)
      (hdue : now < w.db.bannedUntil ip) : EnforceWrite start now clears w (.setTable ip .reassert)
  | decide {d : Decision} (hts : d.ts = now) (hsource : d.source = .adaptive)
      (henforceable : enforceable d.ip) (hevidence : Evidence w now d.ip)
      (hlong : (∀ n ∈ w.mem.banDurations, 0 < n) → now ≤ d.until_) :
      EnforceWrite start now clears w (.sql (.recordDecision d))
  | ban {d : Decision} (hmode : w.mem.mode = .enforce) (henforceable : enforceable d.ip)
      (hd : Pending w d) (hts : d.ts = now)
      (hcode : w.flagged d.ip → w.holds d.ip adaptiveBanCode)
      (hover : w.db.bannedUntil d.ip ≤ now) (hclear : clears d.ip → w.db.bannedUntil d.ip ≤ 0)
      (hevidence : Evidence w now d.ip) :
      EnforceWrite start now clears w (.setTable d.ip (.decision d.id))
  | commit {d : Decision} {e : BanEntry} {detail : String} (hd : Pending w d) (hts : d.ts = now)
      (henforceable : enforceable d.ip)
      (he : w.table.get? d.ip = some e) (hflagged : e.flagged) (hcode : e.gpt0 = adaptiveBanCode)
      (hplaced : w.placed.get? d.id = some e.standing)
      (hover : w.db.bannedUntil d.ip ≤ now) (hclear : clears d.ip → w.db.bannedUntil d.ip ≤ 0)
      (hevidence : Evidence w now d.ip) :
      EnforceWrite start now clears w (.sql (.commitBan d.id d.ip d.until_ now detail))
  | fail {d : Decision} (hd : Pending w d) (hts : d.ts = now) (hplaced : w.placed.get? d.id = none) :
      EnforceWrite start now clears w (.sql (.settleDecision d.id .failed))

theorem admits_enforceWrite (start : World) (now : Int) (clears : Ip → Prop) :
    Admits (EnforceWrite start now clears) now := fun _ _ h => .quiet h

/-! ## Settling what a crash left -/

section Settle

variable {I : Script → Prop} {w : World} {now : Int} {clears : Ip → Prop}
  {Q : Unit → World → Prop} {E : Exc → World → Prop}

/-- Between the rounds of a settlement pass begun in `w` on the decisions `all`. -/
structure SettleInv (I : Script → Prop) (w : World) (now : Int) (all rest : List Decision) (s : World) :
    Prop where
  mem : s.mem = w.mem
  ahead : ∀ d ∈ rest, Pending s d
  /-- A schedule only changes for a decision that was committed. -/
  schedule : ∀ ip, (∀ d ∈ all, d.ip = ip → now < d.until_ → d ∈ rest) →
    s.db.bannedUntil ip = w.db.bannedUntil ip
  moved : ∀ ip, s.db.bannedUntil ip = w.db.bannedUntil ip ∨ now < s.db.bannedUntil ip
  /-- An entry only changes for a decision that was taken up. -/
  entry : ∀ ip, (∀ d ∈ all, d.ip = ip → d ∈ rest) → s.table.get? ip = w.table.get? ip
  left : Answered I → ∀ d, Pending s d → d.ts < now - decisionPendingGrace → d ∈ rest

theorem pending_settleDecision {s : World} {id : Nat} {o : DecisionOutcome} {d : Decision}
    (ho : o ≠ .pending) :
    Pending { s with db := s.db.settleDecision id o } d ↔ Pending s d ∧ d.id ≠ id := by
  unfold Pending
  constructor
  · rintro ⟨hd, hp⟩
    have := (Database.mem_settleDecision ho hp).mp hd
    exact ⟨⟨this.1, hp⟩, this.2⟩
  · rintro ⟨⟨hd, hp⟩, hne⟩
    exact ⟨(Database.mem_settleDecision ho hp).mpr ⟨hd, hne⟩, hp⟩

theorem pending_commitBan {s : World} {id : Nat} {ip : Ip} {till ts : Int} {detail : String}
    {d : Decision} :
    Pending { s with db := s.db.commitBan id ip till adaptiveBanCode ts detail } d ↔
      Pending s d ∧ d.id ≠ id :=
  pending_settleDecision (s := s) (o := .applied) DecisionOutcome.noConfusion

/-- One round on `d`: its address alone is touched, its schedule only if it is still due. -/
structure SettleRound (I : Script → Prop) (now : Int) (d : Decision) (s s' : World) : Prop where
  mem : s'.mem = s.mem
  others : ∀ c, Pending s c → c.id ≠ d.id → Pending s' c
  before : ∀ c, Pending s' c → Pending s c
  gone : Answered I → ∀ c, Pending s' c → c.id ≠ d.id
  entry : ∀ ip, ip ≠ d.ip → s'.table.get? ip = s.table.get? ip
  schedule : ∀ ip, (ip = d.ip → d.until_ ≤ now) → s'.db.bannedUntil ip = s.db.bannedUntil ip
  moved : ∀ ip, s'.db.bannedUntil ip = s.db.bannedUntil ip ∨ now < s'.db.bannedUntil ip

theorem SettleInv.next {all rest : List Decision} {d : Decision} {s s' : World}
    (hall : (all.map Decision.id).Nodup) (hsuf : (d :: rest) <:+ all)
    (hs : SettleInv I w now all (d :: rest) s) (hr : SettleRound I now d s s') :
    SettleInv I w now all rest s' := by
  have hnodup := hall.sublist (hsuf.sublist.map Decision.id)
  rw [List.map_cons, List.nodup_cons] at hnodup
  have hid : ∀ c ∈ rest, c.id ≠ d.id := fun c hc h => hnodup.1 (h ▸ List.mem_map_of_mem hc)
  have hd : d ∈ all := hsuf.subset List.mem_cons_self
  have hd' : d ∉ rest := fun h => hid d h rfl
  refine ⟨hr.mem.trans hs.mem, ?_, ?_, ?_, ?_, ?_⟩
  · exact fun c hc => hr.others c (hs.ahead c (List.mem_cons_of_mem d hc)) (hid c hc)
  · intro ip hip
    have hround : ip = d.ip → d.until_ ≤ now := by
      rintro rfl
      by_contra hdue
      exact hd' (hip d hd rfl (not_le.mp hdue))
    rw [hr.schedule ip hround]
    exact hs.schedule ip (fun c hc h hdue => List.mem_cons_of_mem d (hip c hc h hdue))
  · intro ip
    rcases hr.moved ip with h | h
    · rw [h]
      exact hs.moved ip
    · exact Or.inr h
  · intro ip hip
    have hne : ip ≠ d.ip := by
      rintro rfl
      exact hd' (hip d hd rfl)
    rw [hr.entry ip hne]
    exact hs.entry ip (fun c hc h => List.mem_cons_of_mem d (hip c hc h))
  · intro ha c hc hold
    rcases List.mem_cons.mp (hs.left ha c (hr.before c hc) hold) with rfl | h
    · exact absurd rfl (hr.gone ha c hc)
    · exact h

theorem settleRound_abandon {d : Decision} {s : World} :
    SettleRound I now d s { s with db := s.db.settleDecision d.id .abandoned } where
  mem := rfl
  others := fun _ hc hne => (pending_settleDecision DecisionOutcome.noConfusion).mpr ⟨hc, hne⟩
  before := fun _ hc => ((pending_settleDecision DecisionOutcome.noConfusion).mp hc).1
  gone := fun _ _ hc => ((pending_settleDecision DecisionOutcome.noConfusion).mp hc).2
  entry := fun _ _ => rfl
  schedule := fun _ _ => rfl
  moved := fun _ => Or.inl rfl

theorem settleRound_commit {d : Decision} {s : World} {detail : String} (hdue : now < d.until_) :
    SettleRound I now d s { s with db := s.db.commitBan d.id d.ip d.until_ adaptiveBanCode d.ts detail } where
  mem := rfl
  others := fun c hc hne => pending_commitBan.mpr ⟨hc, hne⟩
  before := fun c hc => (pending_commitBan.mp hc).1
  gone := fun _ c hc => (pending_commitBan.mp hc).2
  entry := fun _ _ => rfl
  schedule := by
    intro ip hip
    have hne : ip ≠ d.ip := fun h => absurd (hip h) (not_le.mpr hdue)
    simp [Database.bannedUntil_commitBan, hne]
  moved := by
    intro ip
    rw [Database.bannedUntil_commitBan]
    split
    · exact Or.inr hdue
    · exact Or.inl rfl

/-- A refused removal leaves the decision for the next cycle. -/
theorem settleRound_erase {d : Decision} {s : World} (hfail : ¬ Answered I) :
    SettleRound I now d s { s with table := s.table.erase d.ip } where
  mem := rfl
  others := fun _ hc _ => hc
  before := fun _ hc => hc
  gone := fun ha => absurd ha hfail
  entry := fun ip hip => by simp [hip]
  schedule := fun _ _ => rfl
  moved := fun _ => Or.inl rfl

theorem settleRound_refl {d : Decision} {s : World} (hfail : ¬ Answered I) : SettleRound I now d s s where
  mem := rfl
  others := fun _ hc _ => hc
  before := fun _ hc => hc
  gone := fun ha => absurd ha hfail
  entry := fun _ _ => rfl
  schedule := fun _ _ => rfl
  moved := fun _ => Or.inl rfl

theorem settleRound_lifted {d : Decision} {s : World} :
    SettleRound I now d s
      { s with table := s.table.erase d.ip, db := s.db.settleDecision d.id .abandoned } :=
  { settleRound_abandon (s := { s with table := s.table.erase d.ip }) with
    entry := fun ip hip => by simp [hip] }

theorem wp_settleOne (hI : Closed I) {d : Decision} {s : World} (hd : Pending s d)
    (hold : d.ts < now - decisionPendingGrace)
    (halone : NoTwins w now d.ip → now < d.until_ → s.db.bannedUntil d.ip = w.db.bannedUntil d.ip)
    (hstill : OnePending w → s.table.get? d.ip = w.table.get? d.ip ∧
      s.db.bannedUntil d.ip = w.db.bannedUntil d.ip)
    (hQ : ∀ s', SettleRound I now d s s' → Q () s') (hE : ∀ e s', ¬ Answered I → E e s') :
    WP I (By (EnforceWrite w now clears)) (settleOne w.active w.db.scheduledBans now d) Q E s := by
  have hholds : OnePending w → (s.holds d.ip adaptiveBanCode ↔ w.holds d.ip adaptiveBanCode) := by
    intro h
    rw [World.holds_iff, World.holds_iff, (hstill h).1]
  refine WP.ite (fun hstands => WP.ite (fun hdue => ?_) (fun _ => ?_)) (fun hother => ?_)
  · -- Still due: the strike is recorded now.
    have hw := World.get?_active.mp hstands.1
    have hunscheduled : w.db.bannedUntil d.ip ≤ 0 := by
      by_contra hpos
      simp [Database.get?_scheduledBans, not_le.mp hpos] at hstands
    refine wp_sql hI (.settled ⟨hd, hold, hdue⟩ hw hunscheduled ?_ ?_) (hQ _ (settleRound_commit hdue))
      (fun h => hE _ s (fun a => h a.sql))
    · exact fun h => (halone h hdue).trans_le hunscheduled
    · exact fun h => ⟨(hholds h).mpr hw, (hstill h).2.trans_le hunscheduled⟩
  · refine WP.bind (wp_attempt (wp_liftCode hI ?_ ?_ ?_ ?_ ?_))
    · intro hfree
      refine wp_sql hI (.abandon hd (fun _ => Or.inl (fun h => hfree (World.carries_of_holds h))))
        (hQ _ settleRound_abandon) (fun h => hE _ s (fun a => h a.sql))
    · exact fun h => .lift h
    · intro _
      refine wp_sql hI (.abandon hd (fun _ => Or.inl ?_)) (hQ _ settleRound_lifted)
        (fun h => hE _ _ (fun a => h a.sql))
      simp [World.holds]
    · intro h e _
      have hfail : ¬ Answered I := fun a => h a.shows
      split
      · exact WP.pure (hQ s (settleRound_refl hfail))
      · exact hE e s hfail
    · intro _ h e _
      have hfail : ¬ Answered I := fun a => h a.clears
      constructor
      · split
        · exact WP.pure (hQ s (settleRound_refl hfail))
        · exact hE e s hfail
      · split
        · exact WP.pure (hQ _ (settleRound_erase hfail))
        · exact hE e _ hfail
  · refine wp_sql hI (.abandon hd (fun h => ?_)) (hQ _ settleRound_abandon)
      (fun h => hE _ s (fun a => h a.sql))
    by_cases hs : s.holds d.ip adaptiveBanCode = true
    · right
      rw [(hstill h).2]
      by_contra hpos
      refine hother ⟨World.get?_active.mpr ((hholds h).mp hs), ?_⟩
      simp [Database.get?_scheduledBans, not_lt.mp hpos]
    · exact Or.inl hs

theorem wp_settlePendingDecisions (hI : Closed I)
    (hQ : ∀ w', w'.mem = w.mem →
      (∀ ip, w'.db.bannedUntil ip = w.db.bannedUntil ip ∨ now < w'.db.bannedUntil ip) →
      (Answered I → ∀ d, Pending w' d → ¬ d.ts < now - decisionPendingGrace) → Q () w')
    (hE : ∀ e w', ¬ Answered I → E e w') :
    WP I (By (EnforceWrite w now clears)) (settlePendingDecisions now) Q E w := by
  refine WP.bind (WP.get (WP.ite (fun hnone => WP.pure (hQ w rfl (fun _ => Or.inl rfl) ?_)) (fun _ => ?_)))
  · intro _ d hd hold
    have := Database.mem_pendingDecisions.mpr ⟨hd.1, hd.2, hold⟩
    rw [hnone] at this
    exact absurd this List.not_mem_nil
  · refine WP.bind (wp_attempt (wp_activeBans hI ?_ ?_))
    · refine (WP.forM (J := SettleInv I w now (w.db.pendingDecisions (now - decisionPendingGrace)))
        ⟨rfl, ?_, fun _ _ => rfl, fun _ => Or.inl rfl, fun _ _ => rfl, ?_⟩ ?_).mono ?_ (fun _ _ he => he)
      · intro d hd
        exact ⟨(Database.mem_pendingDecisions.mp hd).1, (Database.mem_pendingDecisions.mp hd).2.1⟩
      · exact fun _ d hd hold => Database.mem_pendingDecisions.mpr ⟨hd.1, hd.2, hold⟩
      · intro d rest s hsuf hs
        have hd := Database.mem_pendingDecisions.mp (hsuf.subset List.mem_cons_self)
        refine wp_settleOne hI (hs.ahead d List.mem_cons_self) hd.2.2 ?_ ?_
          (fun s' hr => hs.next (Database.nodup_pendingDecisions _) hsuf hr) hE
        · intro htwins hdue
          refine hs.schedule d.ip (fun c hc hip hcdue => ?_)
          obtain ⟨hc₁, hc₂, hc₃⟩ := Database.mem_pendingDecisions.mp hc
          have := htwins c d ⟨⟨hc₁, hc₂⟩, hc₃, hcdue⟩ ⟨⟨hd.1, hd.2.1⟩, hd.2.2, hdue⟩ hip rfl
          exact this ▸ List.mem_cons_self
        · intro hone
          have hmem : ∀ c ∈ w.db.pendingDecisions (now - decisionPendingGrace), c.ip = d.ip →
              c ∈ d :: rest := by
            intro c hc hip
            obtain ⟨hc₁, hc₂, -⟩ := Database.mem_pendingDecisions.mp hc
            have := hone c d ⟨hc₁, hc₂⟩ ⟨hd.1, hd.2.1⟩ hip
            exact this ▸ List.mem_cons_self
          exact ⟨hs.entry d.ip hmem, hs.schedule d.ip (fun c hc hip _ => hmem c hc hip)⟩
      · intro _ s hs
        exact hQ s hs.mem hs.moved (fun ha d hd hold => List.not_mem_nil (hs.left ha d hd hold))
    · intro h e he
      rw [if_pos he]
      exact WP.pure (hQ w rfl (fun _ => Or.inl rfl) (fun a => absurd a.shows h))

end Settle

/-! ## What has served its time -/

/-- Table reads and removals are answered. -/
def ReadsDone (I : Script → Prop) : Prop := ShowsDone I ∧ ClearsDone I

theorem Answered.reads {I : Script → Prop} (h : Answered I) : ReadsDone I := ⟨h.shows, h.clears⟩

section Expire

variable {I : Script → Prop} {start w : World} {now : Int} {clears : Ip → Prop} {Q : Unit → World → Prop}
  {E : Exc → World → Prop}

/-- One round on an address scheduled until `till`: nothing else is touched, and the
schedule is dropped only once it is served. -/
structure ExpireRound (I : Script → Prop) (enforcing : Bool) (now : Int) (ip : Ip) (till : Int)
    (s s' : World) : Prop where
  mode : s'.mem.mode = s.mem.mode
  entry : ∀ j, j ≠ ip → s'.table.get? j = s.table.get? j
  schedule : ∀ j, j ≠ ip → s'.db.bannedUntil j = s.db.bannedUntil j
  due : now < till → s'.db.bannedUntil ip = s.db.bannedUntil ip
  served : s'.db.bannedUntil ip = s.db.bannedUntil ip ∨ s'.db.bannedUntil ip = 0
  cleared : ReadsDone I → till ≤ now → s'.db.bannedUntil ip = 0
  lifted : ReadsDone I → enforcing = false → ¬ s'.carries ip adaptiveBanCode

theorem wp_expireOne (hI : Closed I) {enforcing : Bool} {ip : Ip} {till : Int} {s : World}
    (hpos : 0 < till) (htill : s.db.bannedUntil ip = till)
    (hQ : ∀ s', ExpireRound I enforcing now ip till s s' → Q () s')
    (hE : ∀ e s', ¬ Answered I → E e s') :
    WP I (By (EnforceWrite start now clears)) (expireOne enforcing now (ip, till)) Q E s := by
  have hq := admits_enforceWrite start now clears
  -- The end of the round, from a state in which the entry is off.
  have finish : ∀ s₁, s₁.mem.mode = s.mem.mode → (∀ j, j ≠ ip → s₁.table.get? j = s.table.get? j) →
      (∀ j, s₁.db.bannedUntil j = s.db.bannedUntil j) → ¬ s₁.carries ip adaptiveBanCode →
      WP I (By (EnforceWrite start now clears))
        (Prog.when (decide (till ≤ now) = true) (sql (.clearBan ip))) Q E s₁ := by
    intro s₁ hmode hentry hsched hfree
    refine WP.when (fun hserved => ?_) (fun hserved => hQ s₁ ?_)
    · have hserved : till ≤ now := by simpa using hserved
      have hu : s₁.db.bannedUntil ip = till := (hsched ip).trans htill
      refine wp_sql hI (.clear (hu ▸ hpos) (hu ▸ hserved) hfree) (hQ _ ?_)
        (fun h => hE _ s₁ (fun a => h a.sql))
      refine ⟨hmode, hentry, ?_, ?_, ?_, ?_, fun _ _ => hfree⟩
      · intro j hj
        simp [Write.apply, DbWrite.apply, Database.bannedUntil_clearBan, hj, hsched]
      · exact fun hdue => absurd hserved (not_le.mpr hdue)
      · exact Or.inr (by simp [Write.apply, DbWrite.apply, Database.bannedUntil_clearBan])
      · exact fun _ _ => by simp [Write.apply, DbWrite.apply, Database.bannedUntil_clearBan]
    · have hserved : now < till := by simpa using hserved
      exact ⟨hmode, hentry, fun j _ => hsched j, fun _ => hsched ip, Or.inl (hsched ip),
        fun _ h => absurd h (not_le.mpr hserved), fun _ _ => hfree⟩
  -- A removal that was not answered: the schedule stays.
  have stay : ∀ s₁, s₁.mem = s.mem → s₁.db = s.db →
      (∀ j, j ≠ ip → s₁.table.get? j = s.table.get? j) → ¬ ReadsDone I →
      ExpireRound I enforcing now ip till s s₁ := by
    intro s₁ hmem hdb hentry hfail
    exact ⟨by rw [hmem], hentry, fun _ _ => by rw [hdb], fun _ => by rw [hdb],
      Or.inl (by rw [hdb]), fun h => absurd h hfail, fun h => absurd h hfail⟩
  refine WP.when (fun _ => ?_) (fun hskip => hQ s ?_)
  · refine WP.bind (wp_attempt (wp_liftCode hI ?_ ?_ ?_ ?_ ?_))
    · intro hfree
      exact WP.bind (WP.when (fun h => absurd h Bool.noConfusion)
        (fun _ => finish s rfl (fun _ _ => rfl) (fun _ => rfl) hfree))
    · exact fun h => .lift h
    · intro _
      have hfree : ¬ World.carries { s with table := s.table.erase ip } ip adaptiveBanCode := by
        simp [World.carries]
      refine WP.bind (WP.when (fun _ => ?_) (fun h => absurd rfl h))
      refine WP.bind (wp_emit hI hq (fun _ s₁ h₁ => ?_)
        (fun s₁ h _ => hE _ s₁ (fun a => h a.sql)))
      refine WP.bind (WP.get (WP.bind (wp_recordDecision_calm hI hq DecisionOutcome.noConfusion ?_
        (fun _ s₂ h₂ => WP.pure ?_) (fun h => hE _ s₁ (fun a => h a.sql)))))
      · dsimp only
        split <;> exact DecisionSource.noConfusion
      · have h := h₁.trans h₂
        refine finish s₂ h.mode ?_ h.bannedUntil (fun hc => hfree (h.carries.mp hc))
        intro j hj
        rw [h.table]
        simp [hj]
    · intro h e _
      split
      · exact WP.pure (hQ s (stay s rfl rfl (fun _ _ => rfl) (fun r => h r.1)))
      · exact hE e s (fun a => h a.shows)
    · intro _ h e _
      constructor
      · split
        · exact WP.pure (hQ s (stay s rfl rfl (fun _ _ => rfl) (fun r => h r.2)))
        · exact hE e s (fun a => h a.clears)
      · split
        · exact WP.pure (hQ _ (stay { s with table := s.table.erase ip } rfl rfl
            (fun j hj => by simp [hj]) (fun r => h r.2)))
        · exact hE e _ (fun a => h a.clears)
  · obtain ⟨hen, hdue⟩ : enforcing ≠ false ∧ ¬ till ≤ now := by simpa using hskip
    exact ⟨rfl, fun _ _ => rfl, fun _ _ => rfl, fun _ => rfl, Or.inl rfl, fun _ h => absurd h hdue,
      fun _ h => absurd h hen⟩

/-- Between the rounds over the schedule of `w`. -/
structure ExpireInv (I : Script → Prop) (w : World) (enforcing : Bool) (now : Int)
    (rest : List (Ip × Int)) (s : World) : Prop where
  mode : s.mem.mode = w.mem.mode
  ahead : ∀ e ∈ rest, s.db.bannedUntil e.1 = e.2
  due : ∀ ip, now < w.db.bannedUntil ip → s.db.bannedUntil ip = w.db.bannedUntil ip
  served : ∀ ip, w.db.bannedUntil ip ≤ now → s.db.bannedUntil ip ≤ now
  unscheduled : ∀ ip, w.db.bannedUntil ip ≤ 0 → s.db.bannedUntil ip ≤ 0
  cleared : ReadsDone I → ∀ ip, w.db.bannedUntil ip ≤ now →
    (ip, w.db.bannedUntil ip) ∈ rest ∨ s.db.bannedUntil ip ≤ 0
  lifted : ReadsDone I → enforcing = false → ∀ ip, 0 < w.db.bannedUntil ip →
    (ip, w.db.bannedUntil ip) ∈ rest ∨ ¬ s.carries ip adaptiveBanCode

theorem mem_scheduledBans {db : Database} {ip : Ip} {till : Int} :
    (ip, till) ∈ db.scheduledBans.entries ↔ 0 < till ∧ db.bannedUntil ip = till := by
  rw [Dict.mem_entries, Database.get?_scheduledBans]
  constructor
  · intro h
    split at h
    · rename_i hpos
      cases h
      exact ⟨hpos, rfl⟩
    · cases h
  · rintro ⟨hpos, rfl⟩
    rw [if_pos hpos]

theorem ExpireInv.next {enforcing : Bool} {ip : Ip} {till : Int} {rest : List (Ip × Int)} {s s' : World}
    (hsuf : ((ip, till) :: rest) <:+ w.db.scheduledBans.entries)
    (hs : ExpireInv I w enforcing now ((ip, till) :: rest) s)
    (hr : ExpireRound I enforcing now ip till s s') : ExpireInv I w enforcing now rest s' := by
  obtain ⟨hpos, htill⟩ := mem_scheduledBans.mp (hsuf.subset List.mem_cons_self)
  have hnodup := w.db.scheduledBans.nodup.sublist (hsuf.sublist.map Prod.fst)
  rw [List.map_cons, List.nodup_cons] at hnodup
  have hne : ∀ e ∈ rest, e.1 ≠ ip := by
    rintro e he rfl
    exact hnodup.1 (List.mem_map.mpr ⟨e, he, rfl⟩)
  refine ⟨hr.mode.trans hs.mode, ?_, ?_, ?_, ?_, ?_, ?_⟩
  · intro e he
    rw [hr.schedule e.1 (hne e he)]
    exact hs.ahead e (List.mem_cons_of_mem _ he)
  · intro j hj
    by_cases h : j = ip
    · subst h
      rw [hr.due (htill ▸ hj)]
      exact hs.due j hj
    · rw [hr.schedule j h]
      exact hs.due j hj
  · intro j hj
    by_cases h : j = ip
    · subst h
      rcases hr.served with h | h
      · rw [h]
        exact hs.served j hj
      · omega
    · rw [hr.schedule j h]
      exact hs.served j hj
  · intro j hj
    have h : j ≠ ip := by
      rintro rfl
      omega
    rw [hr.schedule j h]
    exact hs.unscheduled j hj
  · intro hreads j hj
    by_cases h : j = ip
    · subst h
      exact Or.inr (le_of_eq (hr.cleared hreads (htill ▸ hj)))
    · rw [hr.schedule j h]
      refine (hs.cleared hreads j hj).imp_left (fun hmem => ?_)
      exact (List.mem_cons.mp hmem).resolve_left (fun heq => h (congrArg Prod.fst heq))
  · intro hreads hoff j hj
    by_cases h : j = ip
    · subst h
      exact Or.inr (hr.lifted hreads hoff)
    · have hcarries : s'.carries j adaptiveBanCode ↔ s.carries j adaptiveBanCode := by
        rw [World.carries, hr.entry j h]
        rfl
      rw [hcarries]
      refine (hs.lifted hreads hoff j hj).imp_left (fun hmem => ?_)
      exact (List.mem_cons.mp hmem).resolve_left (fun heq => h (congrArg Prod.fst heq))

theorem wp_expire (hI : Closed I) {enforcing : Bool}
    (hQ : ∀ w', ExpireInv I w enforcing now [] w' → Q () w') (hE : ∀ e w', ¬ Answered I → E e w') :
    WP I (By (EnforceWrite start now clears))
      (w.db.scheduledBans.entries.forM (expireOne enforcing now)) Q E w := by
  refine (WP.forM (J := ExpireInv I w enforcing now) ⟨rfl, ?_, fun _ _ => rfl, fun _ h => h,
    fun _ h => h, ?_, ?_⟩ ?_).mono (fun _ => hQ) (fun _ _ he => he)
  · exact fun e he => (mem_scheduledBans.mp he).2
  · intro _ ip _
    by_cases hpos : 0 < w.db.bannedUntil ip
    · exact Or.inl (mem_scheduledBans.mpr ⟨hpos, rfl⟩)
    · exact Or.inr (not_lt.mp hpos)
  · exact fun _ _ ip hpos => Or.inl (mem_scheduledBans.mpr ⟨hpos, rfl⟩)
  · rintro ⟨ip, till⟩ rest s hsuf hs
    obtain ⟨hpos, -⟩ := mem_scheduledBans.mp (hsuf.subset List.mem_cons_self)
    exact wp_expireOne hI hpos (hs.ahead _ List.mem_cons_self) (fun s' hr => hs.next hsuf hr) hE

/-! ## Enforcement off: what is left of this daemon's bans -/

theorem wp_sweep (hI : Closed I) {scheduled : Dict Ip Int} {ips : List Ip} {s : World}
    (hips : Answered I → ∀ ip, s.holds ip adaptiveBanCode → ip ∈ ips ∧ scheduled.get? ip = none)
    (hQ : ∀ s', (Answered I → ∀ ip, ¬ s'.holds ip adaptiveBanCode) → Q () s')
    (hE : ∀ e s', ¬ Answered I → E e s') :
    WP I (By (EnforceWrite start now clears)) (ips.forM (sweepOne scheduled)) Q E s := by
  refine (WP.forM (J := fun rest s => Answered I → ∀ ip, s.holds ip adaptiveBanCode →
    ip ∈ rest ∧ scheduled.get? ip = none) hips ?_).mono ?_ (fun _ _ he => he)
  · intro ip rest s _ hs
    refine WP.when (fun _ => ?_) (fun hsched ha j hj => ?_)
    · refine WP.bind (wp_attempt (wp_liftCode hI ?_ ?_ ?_ ?_ ?_))
      · intro hfree
        refine WP.pure (fun ha j hj => ?_)
        obtain ⟨hmem, hnone⟩ := hs ha j hj
        refine ⟨(List.mem_cons.mp hmem).resolve_left ?_, hnone⟩
        rintro rfl
        exact hfree (World.carries_of_holds hj)
      · exact fun h => .lift h
      · intro _
        refine WP.pure (fun ha j hj => ?_)
        have hne : j ≠ ip := by
          rintro rfl
          simp [World.holds] at hj
        have hj' : s.holds j adaptiveBanCode := by simpa [World.holds, hne] using hj
        obtain ⟨hmem, hnone⟩ := hs ha j hj'
        exact ⟨(List.mem_cons.mp hmem).resolve_left hne, hnone⟩
      · intro h e _
        have hfail : ¬ Answered I := fun a => h a.shows
        split
        · exact WP.pure (fun ha => absurd ha hfail)
        · exact hE e s hfail
      · intro _ h e _
        have hfail : ¬ Answered I := fun a => h a.clears
        constructor
        · split
          · exact WP.pure (fun ha => absurd ha hfail)
          · exact hE e s hfail
        · split
          · exact WP.pure (fun ha => absurd ha hfail)
          · exact hE e _ hfail
    · obtain ⟨hmem, hnone⟩ := hs ha j hj
      refine ⟨(List.mem_cons.mp hmem).resolve_left ?_, hnone⟩
      rintro rfl
      exact hsched hnone
  · intro _ s hs
    exact hQ s (fun ha ip hip => List.not_mem_nil (hs ha ip hip).1)

/-! ## Enforcement on: what the schedule still wants -/

/-- Between the rounds that re-assert the schedule of `w`, begun in `v`: the database is
left alone, and so is every address not due. -/
structure ReassertInv (I : Script → Prop) (w v : World) (now : Int) (rest : List (Ip × Int))
    (s : World) : Prop where
  db : s.db = v.db
  mem : s.mem = v.mem
  ahead : ∀ e ∈ rest, s.table.get? e.1 = v.table.get? e.1
  notDue : ∀ ip, w.db.bannedUntil ip ≤ now → s.table.get? ip = v.table.get? ip
  flagged : Answered I → v.mem.mode = .enforce → ∀ ip, enforceable ip → 0 < w.db.bannedUntil ip →
    now < w.db.bannedUntil ip → (ip, w.db.bannedUntil ip) ∈ rest ∨ s.flagged ip

theorem wp_reassert (hI : Closed I) {v : World}
    (hsched : ∀ ip, now < w.db.bannedUntil ip → v.db.bannedUntil ip = w.db.bannedUntil ip)
    (hQ : ∀ s, ReassertInv I w v now [] s → Q () s) (hE : ∀ e s, ¬ Answered I → E e s) :
    WP I (By (EnforceWrite start now clears))
      (w.db.scheduledBans.entries.forM (reassertOne v.active now)) Q E v := by
  refine (WP.forM (J := ReassertInv I w v now) ⟨rfl, rfl, fun _ _ => rfl, fun _ _ => rfl, ?_⟩ ?_).mono
    (fun _ => hQ) (fun _ _ he => he)
  · exact fun _ _ ip _ hpos _ => Or.inl (mem_scheduledBans.mpr ⟨hpos, rfl⟩)
  · rintro ⟨ip, till⟩ rest s hsuf hs
    obtain ⟨hpos, rfl⟩ := mem_scheduledBans.mp (hsuf.subset List.mem_cons_self)
    have hnodup := w.db.scheduledBans.nodup.sublist (hsuf.sublist.map Prod.fst)
    rw [List.map_cons, List.nodup_cons] at hnodup
    have hne : ∀ e ∈ rest, e.1 ≠ ip := by
      rintro e he rfl
      exact hnodup.1 (List.mem_map.mpr ⟨e, he, rfl⟩)
    have hentry := hs.ahead _ List.mem_cons_self
    -- The round is over for this address: either its entry is there, or it has just been set.
    have skip : (v.mem.mode = .enforce → enforceable ip → now < w.db.bannedUntil ip → Answered I →
        s.flagged ip) → ReassertInv I w v now rest s := by
      intro hflag
      refine ⟨hs.db, hs.mem, fun e he => hs.ahead e (List.mem_cons_of_mem _ he), hs.notDue, ?_⟩
      intro ha hmode j henf hjpos hdue
      rcases hs.flagged ha hmode j henf hjpos hdue with hmem | hf
      · rcases List.mem_cons.mp hmem with heq | hmem
        · obtain rfl : j = ip := congrArg Prod.fst heq
          exact Or.inr (hflag hmode henf hdue ha)
        · exact Or.inl hmem
      · exact Or.inr hf
    refine WP.when (fun h => ?_) (fun h => skip (fun _ _ hdue _ => ?_))
    · obtain ⟨hdue, hfree⟩ := h
      have hfree : s.flagged ip = false := by
        rw [World.flagged, hentry]
        exact World.get?_active_eq_none.mp hfree
      have hu : s.db.bannedUntil ip = w.db.bannedUntil ip := by rw [hs.db, hsched ip hdue]
      have set : ReassertInv I w v now rest (s.setTable ip .reassert) := by
        refine ⟨hs.db, hs.mem, ?_, ?_, ?_⟩
        · intro e he
          have := hs.ahead e (List.mem_cons_of_mem _ he)
          simp [World.setTable, hne e he, this]
        · intro j hj
          have hji : j ≠ ip := by
            rintro rfl
            exact absurd hdue (not_lt.mpr hj)
          simp [World.setTable, hji, hs.notDue j hj]
        · intro ha hmode j henf hjpos hjdue
          by_cases hji : j = ip
          · subst hji
            exact Or.inr (by simp [World.flagged, World.setTable, BanEntry.flagged])
          · refine (hs.flagged ha hmode j henf hjpos hjdue).imp ?_ ?_
            · exact fun hmem => (List.mem_cons.mp hmem).resolve_left (fun heq => hji (congrArg Prod.fst heq))
            · exact fun hf => by simpa [World.flagged, World.setTable, hji] using hf
      refine WP.bind (wp_ban hI ?_ ?_ ?_ ?_ ?_)
      · intro hoff
        refine WP.pure (skip (fun hmode henf _ _ => ?_))
        rcases hoff with hoff | hoff
        · exact absurd (hs.mem ▸ hmode) hoff
        · rw [hoff] at henf
          exact absurd henf Bool.noConfusion
      · exact fun hmode henf => .reassert hmode henf hfree (hu ▸ hpos) (hu ▸ hdue)
      · exact fun _ _ => WP.pure set
      · exact fun h => WP.pure (skip (fun _ _ _ ha => absurd ha.sets h))
      · exact fun h _ _ e _ => ⟨hE e s (fun a => h a.sets), hE e _ (fun a => h a.sets)⟩
    · -- Not due, or standing under some code.
      have hstanding : v.active.get? ip ≠ none := fun hnone => h ⟨hdue, hnone⟩
      have hflag : v.flagged ip = true := by
        by_contra hf
        exact hstanding (World.get?_active_eq_none.mpr (by simpa using hf))
      rw [World.flagged, hentry]
      exact hflag

end Expire

/-! ## The ban loop -/

theorem banDuration_nonneg {ladder : List Int} (hpos : ∀ n ∈ ladder, 0 < n) (changedAt : Int) (ip : Ip)
    (now : Int) (db : Database) : 0 ≤ banDuration ladder changedAt ip now db := by
  unfold banDuration
  rw [List.getD_eq_getElem?_getD]
  cases h : ladder[min (strikeLevel ladder changedAt ip now db) (ladder.length - 1)]? with
  | none => simp
  | some n => exact le_of_lt (hpos n (List.mem_of_getElem? h))

section Rows

variable {I : Script → Prop} {start : World} {now : Int} {clears : Ip → Prop} {Q : Unit → World → Prop}
  {E : Exc → World → Prop} (hI : Closed I)

/-- One row: its address alone is touched; what it puts there is this daemon's, and a new
term comes with a flagged entry. -/
structure RowRound (now : Int) (ip : Ip) (s s' : World) : Prop where
  mode : s'.mem.mode = s.mem.mode
  entry : ∀ j, j ≠ ip → s'.table.get? j = s.table.get? j
  schedule : ∀ j, j ≠ ip → s'.db.bannedUntil j = s.db.bannedUntil j
  code : s'.table.get? ip = s.table.get? ip ∨ s'.holds ip adaptiveBanCode
  term : s'.db.bannedUntil ip = s.db.bannedUntil ip ∨ s'.flagged ip

theorem RowRound.of_calm {ip : Ip} {s s' : World} (h : Calm s s') : RowRound now ip s s' where
  mode := h.mode
  entry := fun _ _ => by rw [h.table]
  schedule := fun j _ => h.bannedUntil j
  code := Or.inl (by rw [h.table])
  term := Or.inl (h.bannedUntil ip)

theorem RowRound.calm {ip : Ip} {s s' s'' : World} (h : RowRound now ip s s') (hc : Calm s' s'') :
    RowRound now ip s s'' where
  mode := hc.mode.trans h.mode
  entry := fun j hj => by rw [hc.table, h.entry j hj]
  schedule := fun j hj => (hc.bannedUntil j).trans (h.schedule j hj)
  code := by rw [hc.table, hc.holds]; exact h.code
  term := by rw [hc.bannedUntil, hc.flagged]; exact h.term

theorem evidence_of_qualifies {s : World} {ip : Ip} {scheduled standing : Dict Ip Int}
    (h : qualifies s now ip scheduled standing) : Evidence s now ip := by
  simp only [qualifies, decide_eq_true_eq] at h
  exact ⟨h.1, h.2.2.2.1, by simpa using h.2.2.2.2⟩

theorem enforceable_of_evidence {s : World} {ip : Ip} (h : Evidence s now ip) : enforceable ip := by
  have hb := h.blockers
  simp only [banBlockers, List.append_eq_nil_iff] at hb
  by_contra hne
  simp [hne] at hb

include hI

/-- A decision written down is carried out and committed, or settled as failed. -/
theorem wp_carryOut {d : Decision} {detail : String} {s : World} (hd : Pending s d) (hts : d.ts = now)
    (hplaced : s.placed.get? d.id = none)
    (hcode : s.flagged d.ip → s.holds d.ip adaptiveBanCode) (hover : s.db.bannedUntil d.ip ≤ now)
    (hclear : clears d.ip → s.db.bannedUntil d.ip ≤ 0) (hev : Evidence s now d.ip)
    (hQ : ∀ s', RowRound now d.ip s s' → Q () s') (hE : ∀ e s', ¬ Answered I → E e s') :
    WP I (By (EnforceWrite start now clears))
      (do
        if ← Enforcer.ban d.ip (.decision d.id) then sql (.commitBan d.id d.ip d.until_ now detail)
        else do
          sql (.settleDecision d.id .failed)
          remember fun mem => { mem with queue := mem.queue.mark d.ip true }) Q E s := by
  have hq := admits_enforceWrite start now clears
  have failed : WP I (By (EnforceWrite start now clears))
      (do
        sql (.settleDecision d.id .failed)
        remember fun mem => { mem with queue := mem.queue.mark d.ip true }) Q E s := by
    refine WP.bind (wp_sql hI (.fail hd hts hplaced) ?_ (fun h => hE _ s (fun a => h a.sql)))
    have h₁ : RowRound now d.ip s { s with db := s.db.settleDecision d.id .failed } :=
      ⟨rfl, fun _ _ => rfl, fun _ _ => rfl, Or.inl rfl, Or.inl rfl⟩
    exact wp_remember_calm hq rfl rfl rfl (fun s₂ h₂ => hQ s₂ (h₁.calm h₂))
  have henf := enforceable_of_evidence hev
  refine WP.bind (wp_ban hI (fun _ => failed) ?_ ?_ (fun _ => failed) ?_)
  · exact fun hmode _ => .ban hmode henf hd hts hcode hover hclear hev
  · intro _ _
    have hholds : (s.setTable d.ip (.decision d.id)).holds d.ip adaptiveBanCode := by
      simp [World.holds, World.setTable, BanEntry.flagged, Placing.code]
    have hentry : (s.setTable d.ip (.decision d.id)).table.get? d.ip =
        some ⟨1, adaptiveBanCode, s.clock + s.tableExpire, s.standingFor d.ip⟩ := by
      simp [World.setTable, Placing.code]
    have hput : (s.setTable d.ip (.decision d.id)).placed.get? d.id = some (s.standingFor d.ip) := by
      simp [World.setTable]
    refine wp_sql hI (.commit hd hts henf hentry rfl rfl hput hover hclear ⟨hev.1, hev.2, hev.3⟩)
      (hQ _ ?_) (fun h => hE _ _ (fun a => h a.sql))
    refine ⟨rfl, ?_, ?_, Or.inr hholds, Or.inr (World.flagged_of_holds hholds)⟩
    · intro j hj
      simp [Write.apply, World.setTable, hj]
    · intro j hj
      simp [Write.apply, DbWrite.apply, World.setTable, Database.bannedUntil_commitBan, hj]
  · exact fun h _ _ e _ => ⟨hE e s (fun a => h a.sets), hE e _ (fun a => h a.sets)⟩

theorem wp_decideOn {d : Decision} {detail : String} {s : World} (hts : d.ts = now)
    (hsource : d.source = .adaptive) (hpending : d.outcome = .pending)
    (hlong : (∀ n ∈ s.mem.banDurations, 0 < n) → now ≤ d.until_)
    (hcode : s.flagged d.ip → s.holds d.ip adaptiveBanCode) (hover : s.db.bannedUntil d.ip ≤ now)
    (hclear : clears d.ip → s.db.bannedUntil d.ip ≤ 0) (hev : Evidence s now d.ip)
    (hQ : ∀ s', RowRound now d.ip s s' → Q () s') (hE : ∀ e s', ¬ Answered I → E e s') :
    WP I (By (EnforceWrite start now clears))
      (do
        let id ← recordDecision d
        if ← Enforcer.ban d.ip (.decision id) then sql (.commitBan id d.ip d.until_ now detail)
        else do
          sql (.settleDecision id .failed)
          remember fun mem => { mem with queue := mem.queue.mark d.ip true }) Q E s := by
  refine WP.bind (wp_recordDecision hI (.decide hts hsource (enforceable_of_evidence hev) hev hlong) ?_
    (fun h => hE _ s (fun a => h a.sql)))
  have hstored : Pending ((Write.sql (.recordDecision d)).apply s) { d with id := s.db.nextDecisionId } :=
    ⟨Database.mem_recordDecision.mpr (Or.inr rfl), hpending⟩
  have hev' : Evidence ((Write.sql (.recordDecision d)).apply s) now d.ip := ⟨hev.1, hev.2, hev.3⟩
  exact wp_carryOut (d := { d with id := s.db.nextDecisionId }) hI hstored hts (by simp [Write.apply])
    hcode hover hclear hev' (fun s' h => hQ s' ⟨h.1, h.2, h.3, h.4, h.5⟩) hE

theorem wp_considerRow {scheduled standing : Dict Ip Int} {ip : Ip} {s : World}
    (hrow : qualifies s now ip scheduled standing → (s.flagged ip → s.holds ip adaptiveBanCode) ∧
      s.db.bannedUntil ip ≤ now ∧ (clears ip → s.db.bannedUntil ip ≤ 0))
    (hQ : ∀ s', RowRound now ip s s' → Q () s') (hE : ∀ e s', ¬ Answered I → E e s') :
    WP I (By (EnforceWrite start now clears)) (considerRow scheduled standing now ip) Q E s := by
  refine WP.bind (WP.get (WP.when (fun h => ?_) (fun _ => hQ s (RowRound.of_calm (Calm.refl s)))))
  obtain ⟨hcode, hover, hclear⟩ := hrow h
  refine wp_decideOn hI rfl rfl rfl ?_ hcode hover hclear (evidence_of_qualifies h) hQ hE
  intro hpos
  have := banDuration_nonneg hpos s.mem.banDurationsChangedAt ip now s.db
  dsimp only
  omega

omit hI

/-- Between the rows of a pass that read the schedule of `w` and the bans `standing`: what
is true of the addresses still ahead, and that a term runs on a flagged entry. -/
structure RowInv (I : Script → Prop) (clears : Ip → Prop) (w : World) (standing : Dict Ip Int) (now : Int)
    (ahead : Ip → Prop) (s : World) : Prop where
  lapsed : ∀ ip, ahead ip → w.db.bannedUntil ip ≤ now →
    s.db.bannedUntil ip ≤ now ∧ (clears ip → s.db.bannedUntil ip ≤ 0)
  code : ∀ ip, w.db.bannedUntil ip ≤ now → standing.getD ip adaptiveBanCode = adaptiveBanCode →
    s.flagged ip → s.holds ip adaptiveBanCode
  flagged : Answered I → ∀ ip, enforceable ip → 0 < s.db.bannedUntil ip → now < s.db.bannedUntil ip →
    s.flagged ip

namespace RowInv

variable {w : World} {standing : Dict Ip Int} {ahead ahead' : Ip → Prop} {s s' : World} {ip : Ip}

theorem mono (h : RowInv I clears w standing now ahead s) (ha : ∀ ip, ahead' ip → ahead ip) :
    RowInv I clears w standing now ahead' s :=
  { h with lapsed := fun ip hip => h.lapsed ip (ha ip hip) }

theorem calm (h : RowInv I clears w standing now ahead s) (hc : Calm s s') : RowInv I clears w standing now ahead s' where
  lapsed := fun ip => by rw [hc.bannedUntil]; exact h.lapsed ip
  code := fun ip => by rw [hc.flagged, hc.holds]; exact h.code ip
  flagged := fun hans ip => by rw [hc.bannedUntil, hc.flagged]; exact h.flagged hans ip

theorem next (h : RowInv I clears w standing now ahead s) (hr : RowRound now ip s s')
    (ha : ∀ j, ahead' j → ahead j ∧ j ≠ ip) : RowInv I clears w standing now ahead' s' := by
  have hflag : ∀ j, j ≠ ip → s'.flagged j = s.flagged j := by
    intro j hj
    rw [World.flagged, hr.entry j hj]
    rfl
  have hheld : ∀ j, j ≠ ip → s'.holds j adaptiveBanCode = s.holds j adaptiveBanCode := by
    intro j hj
    rw [World.holds, hr.entry j hj]
    rfl
  refine ⟨?_, ?_, ?_⟩
  · intro j hj
    rw [hr.schedule j (ha j hj).2]
    exact h.lapsed j (ha j hj).1
  · intro j hover hstanding hf
    by_cases hj : j = ip
    · subst hj
      rcases hr.code with hsame | hnew
      · have hfs : s.flagged j = true := by
          rw [World.flagged, ← hsame]
          exact hf
        rw [World.holds, hsame]
        exact h.code j hover hstanding hfs
      · exact hnew
    · rw [hheld j hj]
      exact h.code j hover hstanding (hflag j hj ▸ hf)
  · intro hans j henf hpos hdue
    by_cases hj : j = ip
    · subst hj
      rcases hr.term with hsame | hnew
      · have hfs := h.flagged hans j henf (hsame ▸ hpos) (hsame ▸ hdue)
        rcases hr.code with hentry | hholds
        · rw [World.flagged, hentry]
          exact hfs
        · exact World.flagged_of_holds hholds
      · exact hnew
    · rw [hflag j hj]
      rw [hr.schedule j hj] at hpos hdue
      exact h.flagged hans j henf hpos hdue

theorem row (h : RowInv I clears w standing now ahead s) (hip : ahead ip)
    (hrow : qualifies s now ip w.db.scheduledBans standing) :
    (s.flagged ip → s.holds ip adaptiveBanCode) ∧ s.db.bannedUntil ip ≤ now ∧
      (clears ip → s.db.bannedUntil ip ≤ 0) := by
  simp only [qualifies, decide_eq_true_eq] at hrow
  obtain ⟨-, hsched, hstanding, -, -⟩ := hrow
  have hover : w.db.bannedUntil ip ≤ now := by
    rw [Dict.getD, Database.get?_scheduledBans] at hsched
    split at hsched
    · exact hsched
    · rename_i hpos
      exact (not_lt.mp hpos).trans hsched
  exact ⟨h.code ip hover hstanding, h.lapsed ip hip hover⟩

end RowInv

theorem nodup_enforcementAddresses (after : Int × Ip) (before : Int) (limit : Nat) (db : Database) :
    ((db.enforcementAddresses after before limit).map Prod.snd).Nodup := by
  have hkeys : (db.ipState.entries.map (fun e => (e.2.firstSeen, e.1))).map Prod.snd =
      db.ipState.entries.map Prod.fst := by
    simp [Function.comp_def]
  refine List.Nodup.sublist ((List.take_sublist _ _).map Prod.snd) ?_
  refine ((List.perm_insertionSort _ _).map Prod.snd).nodup_iff.mpr ?_
  refine List.Nodup.sublist (List.filter_sublist.map Prod.snd) ?_
  rw [hkeys]
  exact db.ipState.nodup

theorem wp_sweepPage {allowance : Nat} {s : World} {Q : List (Int × Ip) → World → Prop}
    (hQ : ∀ page s', Calm s s' → (page.map Prod.snd).Nodup → Q page s') :
    WP I (By (EnforceWrite start now clears)) (sweepPage now allowance) Q E s := by
  have hq := admits_enforceWrite start now clears
  have rest : ∀ s₁, Calm s s₁ → WP I (By (EnforceWrite start now clears))
      (do
        let w ← Prog.get
        let page := w.db.enforcementAddresses w.mem.scanAfter w.mem.scanBefore allowance
        if page = [] ∧ w.mem.scanAfter ≠ (0, "") then do
          remember fun mem => { mem with scanAfter := (0, ""), scanBefore := now }
          pure (w.db.enforcementAddresses (0, "") now allowance)
        else pure page) Q E s₁ := by
    intro s₁ h₁
    refine WP.bind (WP.get (WP.ite (fun _ => WP.bind ?_) (fun _ => WP.pure ?_)))
    · exact wp_remember_calm hq rfl rfl rfl (fun s₂ h₂ =>
        WP.pure (hQ _ s₂ (h₁.trans h₂) (nodup_enforcementAddresses _ _ _ _)))
    · exact hQ _ s₁ h₁ (nodup_enforcementAddresses _ _ _ _)
  refine WP.bind (WP.get (WP.bind (WP.when (fun _ => ?_) (fun _ => rest s (Calm.refl s)))))
  exact wp_remember_calm hq rfl rfl rfl rest

include hI

theorem wp_enforcementRows {w : World} {standing : Dict Ip Int} {s : World}
    (hs : RowInv I clears w standing now (fun _ => True) s)
    (hQ : ∀ s', RowInv I clears w standing now (fun _ => False) s' → Q () s')
    (hE : ∀ e s', ¬ Answered I → E e s') :
    WP I (By (EnforceWrite start now clears))
      (enforcementRows w.db.scheduledBans standing now) Q E s := by
  have hq := admits_enforceWrite start now clears
  refine WP.bind (WP.get (WP.bind ?_))
  have hfirst := s.mem.queue.nodup_batch (enforcementBatch - enforcementSweepReserve)
  generalize s.mem.queue.batch (enforcementBatch - enforcementSweepReserve) = pending at hfirst
  -- The queue: an address is still ahead while it waits, or if it is not in this batch.
  refine (WP.forM (J := fun rest => RowInv I clears w standing now
    (fun ip => ip ∈ rest.map Prod.fst ∨ ip ∉ pending.map Prod.fst))
    (hs.mono (fun _ _ => trivial)) ?_).mono ?_ (fun _ _ he => he)
  · rintro ⟨ip, generation⟩ rest t hsuf ht
    have hnodup := hfirst.sublist (hsuf.sublist.map Prod.fst)
    rw [List.map_cons, List.nodup_cons] at hnodup
    have hmem : ip ∈ pending.map Prod.fst :=
      List.mem_map_of_mem (f := Prod.fst) (hsuf.subset List.mem_cons_self)
    refine WP.bind (wp_considerRow hI (ht.row (Or.inl List.mem_cons_self)) (fun t₁ hr => ?_) hE)
    refine wp_remember_calm hq rfl rfl rfl (fun t₂ hc => (ht.next hr ?_).calm hc)
    rintro j (hj | hj)
    · exact ⟨Or.inl (List.mem_cons_of_mem _ hj), fun h => hnodup.1 (h ▸ hj)⟩
    · exact ⟨Or.inr hj, fun h => hj (h ▸ hmem)⟩
  · intro _ t ht
    refine WP.bind (wp_sweepPage (fun page t₁ hc hpage => WP.bind ?_))
    have ht₁ : RowInv I clears w standing now (fun ip => ip ∉ pending.map Prod.fst) t₁ :=
      (ht.mono (fun _ h => Or.inr h)).calm hc
    refine (WP.forM (J := fun rest => RowInv I clears w standing now (fun ip => ip ∉ pending.map Prod.fst ∧
      (ip ∈ rest.map Prod.snd ∨ ip ∉ page.map Prod.snd)))
      (ht₁.mono (fun _ h => h.1)) ?_).mono ?_ (fun _ _ he => he)
    · rintro ⟨firstSeen, ip⟩ rest u hsuf hu
      have hnodup := hpage.sublist (hsuf.sublist.map Prod.snd)
      rw [List.map_cons, List.nodup_cons] at hnodup
      have hmem : ip ∈ page.map Prod.snd :=
        List.mem_map_of_mem (f := Prod.snd) (hsuf.subset List.mem_cons_self)
      have hahead : ∀ j, j ∉ pending.map Prod.fst ∧ (j ∈ rest.map Prod.snd ∨ j ∉ page.map Prod.snd) →
          (j ∉ pending.map Prod.fst ∧ (j ∈ ((firstSeen, ip) :: rest).map Prod.snd ∨
            j ∉ page.map Prod.snd)) ∧ j ≠ ip := by
        rintro j ⟨hp, hj | hj⟩
        · exact ⟨⟨hp, Or.inl (List.mem_cons_of_mem _ hj)⟩, fun h => hnodup.1 (h ▸ hj)⟩
        · exact ⟨⟨hp, Or.inr hj⟩, fun h => hj (h ▸ hmem)⟩
      refine WP.bind (WP.when (fun hnew => ?_) (fun _ => ?_))
      · refine wp_considerRow hI (hu.row ⟨hnew, Or.inl List.mem_cons_self⟩) (fun u₁ hr => ?_) hE
        exact wp_remember_calm hq rfl rfl rfl (fun u₂ hc => (hu.next hr hahead).calm hc)
      · exact wp_remember_calm hq rfl rfl rfl (fun u₂ hc => (hu.mono (fun j hj => (hahead j hj).1)).calm hc)
    · intro _ u hu
      have finish : ∀ u₁, Calm u u₁ → WP I (By (EnforceWrite start now clears))
          (do
            let w ← Prog.get
            setState fun state => { state with scanAfter := w.mem.scanAfter, scanBefore := w.mem.scanBefore })
          Q E u₁ := fun u₁ h₁ => WP.bind (WP.get (wp_setState_calm hI hq rfl rfl
            (fun u₂ h₂ => hQ u₂ ((hu.mono (fun _ h => h.elim)).calm (h₁.trans h₂)))
            (fun h => hE _ u₁ (fun a => h a.sql))))
      exact WP.bind (WP.when (fun _ => wp_remember_calm hq rfl rfl rfl finish) (fun _ => finish u (Calm.refl u)))

end Rows

/-! ## The whole pass -/

/-- What an answered pass begun in `w` leaves behind. -/
structure PassDone (w : World) (now : Int) (w' : World) : Prop where
  settled : ∀ d, Pending w' d → ¬ d.ts < now - decisionPendingGrace
  paused : w.mem.mode ≠ .enforce → ∀ ip, ¬ w'.holds ip adaptiveBanCode
  enforced : w.mem.mode = .enforce → ∀ ip, enforceable ip → 0 < w'.db.bannedUntil ip →
    now < w'.db.bannedUntil ip → w'.flagged ip

theorem EnforceWrite.pending {start w : World} {now : Int} {clears : Ip → Prop} {l : Write}
    (h : EnforceWrite start now clears w l) {d : Decision} (hd : Pending (l.apply w) d) :
    Pending w d ∨ d.ts = now := by
  cases h with
  | quiet h => exact Or.inl ⟨(h.calm.pending d hd.2).mp hd.1, hd.2⟩
  | lift _ => exact Or.inl hd
  | clear _ _ _ => exact Or.inl hd
  | abandon _ _ => exact Or.inl ((pending_settleDecision DecisionOutcome.noConfusion).mp hd).1
  | settled _ _ _ _ _ =>
    exact Or.inl (pending_commitBan.mp hd).1
  | reassert _ _ _ _ _ => exact Or.inl hd
  | decide hts _ _ _ _ =>
    rcases Database.mem_recordDecision.mp hd.1 with hmem | rfl
    · exact Or.inl ⟨hmem, hd.2⟩
    · exact Or.inr hts
  | ban _ _ _ _ _ _ _ _ => exact Or.inl hd
  | commit _ _ _ _ _ _ _ _ _ _ =>
    exact Or.inl (pending_commitBan.mp hd).1
  | fail _ _ _ => exact Or.inl ((pending_settleDecision DecisionOutcome.noConfusion).mp hd).1

section Pass

variable {I : Script → Prop} {start w : World} {now : Int} {Q : Unit → World → Prop}
  {E : Exc → World → Prop} (hI : Closed I)

include hI

variable (start w now) in
/-- The pass once what a crash left is settled. -/
theorem wp_afterSettling {clears : Ip → Prop}
    (hclears : ∀ ip, clears ip → w.db.bannedUntil ip ≤ now → ReadsDone I ∨ w.db.bannedUntil ip ≤ 0) :
    WP I (By (EnforceWrite start now clears))
      (do
        let scheduled := w.db.scheduledBans
        let enforcing := decide (w.mem.mode = .enforce)
        scheduled.entries.forM (expireOne enforcing now)
        if !enforcing then do
          let left ← adaptiveBans
          left.forM (sweepOne scheduled)
        else do
          let standing ← activeBans
          scheduled.entries.forM (reassertOne standing now)
          enforcementRows scheduled standing now)
      (fun _ w' => Answered I → (w.mem.mode ≠ .enforce → ∀ ip, ¬ w'.holds ip adaptiveBanCode) ∧
        (w.mem.mode = .enforce → ∀ ip, enforceable ip → 0 < w'.db.bannedUntil ip →
          now < w'.db.bannedUntil ip → w'.flagged ip))
      (fun _ _ => ¬ Answered I) w := by
  refine WP.bind (wp_expire hI (fun v hv => ?_) (fun _ _ h => h))
  refine WP.ite (fun hoff => ?_) (fun hon => ?_)
  · have hmode : w.mem.mode ≠ .enforce := by simpa using hoff
    have henf : decide (w.mem.mode = .enforce) = false := by simpa using hoff
    refine WP.bind (wp_adaptiveBans hI (fun ips hips => ?_) (fun h _ _ a => h a.shows))
    refine wp_sweep hI (fun ha ip hip => ⟨(hips ip).mpr hip, ?_⟩) (fun s hs ha => ?_) (fun _ _ h => h)
    · -- What is on the schedule is off already.
      rw [Database.get?_scheduledBans]
      by_cases hpos : 0 < w.db.bannedUntil ip
      · exact absurd (World.carries_of_holds hip)
          ((hv.lifted ha.reads henf ip hpos).resolve_left List.not_mem_nil)
      · rw [if_neg hpos]
    · exact ⟨fun _ => hs ha, fun h => absurd h hmode⟩
  · have hmode : w.mem.mode = .enforce := by simpa using hon
    refine WP.bind (wp_activeBans hI ?_ (fun h _ _ a => h a.shows))
    refine WP.bind (wp_reassert hI hv.due (fun s hs => ?_) (fun _ _ h => h))
    refine wp_enforcementRows hI ⟨?_, ?_, ?_⟩ (fun s' hs' ha => ⟨fun h => absurd hmode h, fun _ =>
      hs'.flagged ha⟩) (fun _ _ h => h)
    · intro ip _ hip
      rw [hs.db]
      refine ⟨hv.served ip hip, fun hc => ?_⟩
      rcases hclears ip hc hip with hreads | hnone
      · exact (hv.cleared hreads ip hip).resolve_left List.not_mem_nil
      · exact hv.unscheduled ip hnone
    · intro ip hip hstanding hf
      rw [World.flagged, hs.notDue ip hip] at hf
      rw [World.holds, hs.notDue ip hip]
      cases hget : v.active.get? ip with
      | none =>
        rw [World.get?_active_eq_none, World.flagged, hf] at hget
        exact absurd hget Bool.noConfusion
      | some code =>
        rw [Dict.getD_eq_of_get? hget] at hstanding
        exact World.get?_active.mp (hstanding ▸ hget)
    · intro ha ip henf hpos hdue
      rw [hs.db] at hpos hdue
      have hwdue : now < w.db.bannedUntil ip := by
        by_contra hle
        exact absurd (hv.served ip (not_lt.mp hle)) (not_le.mpr hdue)
      rw [hv.due ip hwdue] at hpos
      exact (hs.flagged ha (hv.mode.trans hmode) ip henf hpos hwdue).resolve_left List.not_mem_nil

/-- `_apply_enforcement`: the writes it may make, and what it leaves when all is answered. -/
theorem wp_applyEnforcement (hQ : ∀ w', (Answered I → PassDone w now w') → Q () w')
    (hE : ∀ e w', ¬ Answered I → E e w') :
    WP I (By (EnforceWrite w now (Clears (ReadsDone I) w now))) (applyEnforcement now) Q E w := by
  refine WP.bind (wp_settlePendingDecisions hI (fun w₁ hmem hmoved hleft => WP.bind (WP.get ?_)) hE)
  have hclears : ∀ ip, Clears (ReadsDone I) w now ip → w₁.db.bannedUntil ip ≤ now →
      ReadsDone I ∨ w₁.db.bannedUntil ip ≤ 0 := by
    rintro ip (hreads | hnone) hover
    · exact Or.inl hreads
    · have := (hmoved ip).resolve_right (not_lt.mpr hover)
      exact Or.inr (by omega)
  have hrest := (wp_afterSettling w w₁ now hI hclears).keep
    (K := fun s => Answered I → ∀ d, Pending s d → ¬ d.ts < now - decisionPendingGrace) hleft (by
      rintro s l t hs ⟨rfl, hl⟩ ha d hd
      rcases hl.pending hd with hd | hts
      · exact hs ha d hd
      · unfold decisionPendingGrace
        omega)
  refine hrest.mono (fun _ w' h => hQ w' (fun ha => ?_)) (fun e w' h => hE e w' h.1)
  rw [hmem] at h
  exact ⟨h.2 ha, (h.1 ha).1, (h.1 ha).2⟩

end Pass

end EasyHaProxy.Guardd
