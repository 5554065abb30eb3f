import EasyHaProxy.Guardd.Freshness
import EasyHaProxy.Guardd.Schedule

/-! Once `forget_ban` has returned with `cleared`, guardd has nothing left that would ban the address: no
term, no remembered ban by hand, no entry. -/
namespace EasyHaProxy.Guardd

/-! ## Evidence that is used up -/

def findingsWorth (policy : BanPolicy) (events : List SecurityEvent) (ip : Ip) : Int :=
  ((events.filter (·.ip = ip)).map (countedWeight policy)).sum

/-- The findings of an address are all as old as one of its bans, or too few for a ban under
either policy. -/
def Spent (events : List SecurityEvent) (ip : Ip) : Prop :=
  (∀ e ∈ events, Database.isFinding ip e →
    ∃ b ∈ events, Database.isBan ip b ∧ 0 < b.ts ∧ e.ts ≤ b.ts) ∨
  ∀ policy, findingsWorth policy events ip < wouldBanScore

theorem mem_scoredEvents {w : World} {now : Int} {ip : Ip} {e : SecurityEvent} (h : e ∈ scoredEvents w now ip) :
    e ∈ w.db.events ∧ e.ip = ip := by
  have h := List.mem_of_mem_take h
  rw [List.mem_insertionSort, List.mem_filter] at h
  simp only [decide_eq_true_eq] at h
  exact ⟨h.1, h.2.1⟩

theorem sum_countedWeight_le {policy : BanPolicy} {l l' : List SecurityEvent} (h : l.Sublist l') :
    (l.map (countedWeight policy)).sum ≤ (l'.map (countedWeight policy)).sum := by
  induction h with
  | slnil => exact le_refl _
  | cons e _ ih =>
    rw [List.map_cons, List.sum_cons]
    exact ih.trans (le_add_of_nonneg_left (countedWeight_nonneg e))
  | cons_cons e _ ih =>
    rw [List.map_cons, List.map_cons, List.sum_cons, List.sum_cons]
    exact add_le_add le_rfl ih

theorem score_le_findingsWorth (w : World) (now : Int) (ip : Ip) :
    scoreEvents w.mem.banPolicy now (scoredEvents w now ip) ≤ findingsWorth w.mem.banPolicy w.db.events ip := by
  refine scoreEvents_le.trans ?_
  refine (sum_countedWeight_le (List.take_sublist _ _)).trans ?_
  rw [((List.perm_insertionSort _ _).map _).sum_eq]
  refine sum_countedWeight_le ?_
  have heq : w.db.events.filter (fun e => e.ip = ip ∧ now - scoreWindowSeconds ≤ e.ts) =
      (w.db.events.filter (fun e => e.ip = ip)).filter (fun e => now - scoreWindowSeconds ≤ e.ts) := by
    rw [List.filter_filter]
    congr 1
    funext e
    simp [Bool.and_comm]
  rw [heq]
  exact List.filter_sublist

/-- Nothing that is used up bans an address. -/
theorem Spent.no_evidence {w : World} {now : Int} {ip : Ip} (h : Spent w.db.events ip) : ¬ Evidence w now ip := by
  intro hev
  have hscore : wouldBanScore ≤ scoreEvents w.mem.banPolicy now (scoredEvents w now ip) := by
    have := hev.score
    unfold reputationScore at this
    split at this
    · exact absurd this (by decide)
    · exact this
  rcases h with hold | hfew
  · -- Something counts, so there is a ban, and no finding is newer than the last one.
    obtain ⟨e, he, hcounts⟩ : ∃ e ∈ scoredEvents w now ip, counts w.mem.banPolicy e = true := by
      by_contra hnone
      have hzero : scoreEvents w.mem.banPolicy now (scoredEvents w now ip) = 0 :=
        scoreEvents_eq_zero (fun e he => by
          by_contra hc
          exact hnone ⟨e, he, by simpa using hc⟩)
      rw [hzero] at hscore
      exact absurd hscore (by decide)
    obtain ⟨hmem, hip⟩ := mem_scoredEvents he
    have hfinding := (counts_iff.mp ⟨hip, hcounts⟩).1
    obtain ⟨b, hb, hban, hpos, -⟩ := hold e hmem hfinding
    have hlast := Database.le_maxTs hb hban
    obtain ⟨f, hf, hff, hnewest⟩ := Database.maxTs_mem hmem hfinding
    obtain ⟨c, hc, hcban, -, hle⟩ := hold f hf hff
    have hlast' := Database.le_maxTs hc hcban
    have hfresh := hev.fresh
    unfold staleEvidence Database.lastBanTs Database.newestFindingTs at hfresh
    simp only [decide_eq_false_iff_not, not_and_or, not_not, not_le] at hfresh
    omega
  · have := score_le_findingsWorth w now ip
    have := hfew w.mem.banPolicy
    omega

theorem Spent.append {events new : List SecurityEvent} {ip : Ip} (h : Spent events ip)
    (hnew : ∀ e ∈ new, Database.isFinding ip e = false) : Spent (events ++ new) ip := by
  rcases h with hold | hfew
  · refine Or.inl (fun e he hfinding => ?_)
    rcases List.mem_append.mp he with he | he
    · obtain ⟨b, hb, h⟩ := hold e he hfinding
      exact ⟨b, List.mem_append_left _ hb, h⟩
    · rw [hnew e he] at hfinding
      cases hfinding
  · refine Or.inr (fun policy => ?_)
    have hzero : ((new.filter (·.ip = ip)).map (countedWeight policy)).sum = 0 := by
      refine List.sum_eq_zero (fun n hn => ?_)
      obtain ⟨e, he, rfl⟩ := List.mem_map.mp hn
      obtain ⟨he, hip⟩ := List.mem_filter.mp he
      refine if_neg (fun hc => ?_)
      have := (counts_iff.mp ⟨of_decide_eq_true hip, hc⟩).1
      rw [hnew e he] at this
      cases this
    unfold findingsWorth
    rw [List.filter_append, List.map_append, List.sum_append, hzero, Int.add_zero]
    exact hfew policy

theorem Spent.applyRetention {db : Database} {ip : Ip} {eventsBefore bansBefore : Int}
    (h : Spent db.events ip) (hle : bansBefore ≤ eventsBefore) :
    Spent (db.applyRetention eventsBefore bansBefore).events ip := by
  unfold Database.applyRetention
  rcases h with hold | hfew
  · refine Or.inl (fun e he hfinding => ?_)
    obtain ⟨he, hkept⟩ := List.mem_filter.mp he
    obtain ⟨b, hb, hban, hpos, hts⟩ := hold e he hfinding
    refine ⟨b, List.mem_filter.mpr ⟨hb, ?_⟩, hban, hpos, hts⟩
    -- A finding that is kept is newer than what is swept of the bans, and so is its ban.
    have hrecord : Database.isBanRecord b = true := by
      simp only [Database.isBan, decide_eq_true_eq] at hban
      simp [Database.isBanRecord, hban.2]
    have hother : Database.isBanRecord e = false := by
      simp only [Database.isFinding, decide_eq_true_eq] at hfinding
      simp [Database.isBanRecord, hfinding.2.1, hfinding.2.2.1]
    simp only [hother, Bool.false_eq_true, if_false, decide_eq_true_eq] at hkept
    simp only [hrecord, if_true, decide_eq_true_eq]
    omega
  · refine Or.inr (fun policy => lt_of_le_of_lt ?_ (hfew policy))
    exact sum_countedWeight_le (List.filter_sublist.filter _)

theorem isFinding_stored {ip : Ip} {f : SecurityEvent} {n : Nat} (h : Database.isFinding ip f = false) :
    Database.isFinding ip { f with id := n, detail := truncate maxPathLength f.detail } = false := by
  have hown : ownBanDetail f.detail = true → ownBanDetail (truncate maxPathLength f.detail) = true := by
    intro hd
    simp only [ownBanDetail, ownBanCodes, List.any_cons, List.any_nil, Bool.or_false, Bool.or_eq_true,
      beq_iff_eq] at hd
    rcases hd with hd | hd <;> rw [hd] <;> decide +kernel
  simp only [Database.isFinding, decide_eq_false_iff_not] at h ⊢
  rintro ⟨hip, hban, hlift, hobserved⟩
  exact h ⟨hip, hban, hlift, fun ho => hobserved ⟨ho.1, hown ho.2⟩⟩

/-! ## What brings a ban back -/

def Cycle.bans : Cycle → Option (Dict Ip Row)
  | .tablesRead _ tables => tables.ban
  | .observed _ tables => tables.ban
  | _ => none

/-- Nothing of guardd's would ban an address again. -/
structure Free (w : World) (ip : Ip) : Prop where
  term : w.db.bannedUntil ip ≤ 0
  record : w.db.manualBans.get? ip = none
  own : w.holds ip adaptiveBanCode = false
  byHand : w.holds ip manualBanCode = false
  read : ∀ bans, w.cycle.bans = some bans → ¬ shownByHand bans ip
  spent : Spent w.db.events ip

/-- An operator bans an address. -/
def Action.places (ip : Ip) : Action → Bool
  | .place j => j = ip
  | .socketBan j => j = ip
  | _ => false

/-- A finding of an address is written down. -/
def Write.finds (ip : Ip) : Write → Bool
  | .sql (.recordEvents es) => es.any (Database.isFinding ip)
  | _ => false

/-- What may bring a ban back: a new finding of the address, or an operator's request. -/
def Event.renews (ip : Ip) : Event → Bool
  | .write m l => m.action.places ip || l.finds ip
  | .turn m => m.action.places ip

/-- guardd puts an address into the table. -/
def Event.flags (ip : Ip) : Event → Bool
  | .write _ (.setTable j _) => j = ip
  | _ => false

/-- In a log, newest first, guardd only flags an address once something has brought it back. -/
def unforced (ip : Ip) : List (Event × World) → Bool
  | [] => true
  | (e, _) :: older =>
    (!e.flags ip || e.renews ip || older.any (fun o => o.1.renews ip)) && unforced ip older

theorem unforced_append {ip : Ip} {newer older : List (Event × World)} (holder : unforced ip older)
    (hnewer : older.any (fun o => o.1.renews ip) ∨ unforced ip newer) : unforced ip (newer ++ older) := by
  induction newer with
  | nil => exact holder
  | cons e newer ih =>
    simp only [List.cons_append, unforced, List.any_append, Bool.and_eq_true, Bool.or_eq_true] at hnewer ⊢
    rcases hnewer with hany | ⟨he, hrest⟩
    · exact ⟨Or.inr (Or.inr hany), ih (Or.inl hany)⟩
    · exact ⟨he.imp_right Or.inl, ih (Or.inr hrest)⟩

/-- A write leaves an address free, and flags another one if any. -/
def Spares (ip : Ip) (w : World) (l : Write) : Prop :=
  Free (l.apply w) ip ∧ ∀ j placing, l = .setTable j placing → j ≠ ip

section Step

variable {ip : Ip} {m : Move} {start w : World} {l : Write}

/-- A write that touches neither the address nor its findings. -/
theorem Free.keep {w' : World} (h : Free w ip) (hterm : w'.db.bannedUntil ip ≤ 0)
    (hrecord : w'.db.manualBans.get? ip = none) (hholds : ∀ code, w'.holds ip code → w.holds ip code)
    (hcycle : w'.cycle = w.cycle) (hspent : Spent w'.db.events ip) : Free w' ip where
  term := hterm
  record := hrecord
  own := by
    by_contra hh
    have := hholds _ (by simpa using hh)
    rw [h.own] at this
    cases this
  byHand := by
    by_contra hh
    have := hholds _ (by simpa using hh)
    rw [h.byHand] at this
    cases this
  read := by rw [hcycle]; exact h.read
  spent := hspent

theorem Free.quiet {now : Int} (h : Free w ip) (hl : Quiet now w l) (hfinds : l.finds ip = false) :
    Free (l.apply w) ip := by
  have hcalm := hl.calm
  refine h.keep ((hcalm.bannedUntil ip).trans_le h.term) (by rw [hcalm.manualBans]; exact h.record)
    (fun code hc => hcalm.holds ▸ hc) (cycle_apply w l) ?_
  cases hl with
  | @recordEvents es _ =>
    refine h.spent.append (fun e he => ?_)
    obtain ⟨i, hi, rfl⟩ := List.mem_mapIdx.mp he
    refine isFinding_stored ?_
    simp only [Write.finds, List.any_eq_false] at hfinds
    simpa using hfinds _ (List.getElem_mem hi)
  | observeIp j v =>
    change Spent (w.db.observeIp j now v).events ip
    rw [Database.events_observeIp]
    exact h.spent
  | _ => exact h.spent

theorem holds_erase {j : Ip} {code : Int} (h : World.holds { w with table := w.table.erase j } ip code) :
    w.holds ip code := by
  by_cases hj : ip = j
  · subst hj
    simp [World.holds] at h
  · simpa [World.holds, hj] using h

theorem Free.erase (j : Ip) (h : Free w ip) : Free { w with table := w.table.erase j } ip :=
  h.keep h.term h.record (fun _ => holds_erase) rfl h.spent

theorem Free.setTable {j : Ip} (placing : Placing) (h : Free w ip) (hj : j ≠ ip) : Free (w.setTable j placing) ip := by
  refine h.keep h.term h.record (fun code hc => ?_) rfl h.spent
  simpa [World.setTable, World.holds, Ne.symm hj] using hc

/-- A change of the remembered bans that is not about the address. -/
theorem Free.manualBans {bans : Dict Ip ManualBan} (h : Free w ip) (hb : bans.get? ip = none) :
    Free { w with db := { w.db with manualBans := bans } } ip :=
  h.keep h.term hb (fun _ hc => hc) rfl h.spent

theorem Free.commitBan {j : Ip} {id : Nat} {till code ts : Int} {detail : String} (h : Free w ip) (hj : ip ≠ j) :
    Free { w with db := w.db.commitBan id j till code ts detail } ip := by
  refine h.keep ?_ h.record (fun _ hc => hc) rfl ?_
  · change (w.db.commitBan id j till code ts detail).bannedUntil ip ≤ 0
    rw [Database.bannedUntil_commitBan, if_neg (fun hc => hj hc.1)]
    exact h.term
  · change Spent (w.db.recordEvents _).events ip
    rw [Database.events_recordEvents_singleton]
    refine h.spent.append (fun e he => ?_)
    obtain rfl := List.mem_singleton.mp he
    simp [Database.isFinding]

theorem Free.ingest {bans : Dict Ip Row} {now : Int} (h : Free w ip) (hread : ¬ shownByHand bans ip)
    (hl : IngestWrite start bans now w l) (hfinds : l.finds ip = false) :
    Spares ip w l := by
  cases hl with
  | quiet hq =>
    refine ⟨h.quiet hq hfinds, ?_⟩
    rintro j placing rfl
    cases hq
  | @legacy j code hpolicy hswitch hcode hholds => exact ⟨h.erase j, fun _ _ hl => Write.noConfusion hl⟩
  | @note j row hrow hflagged hcode =>
    refine ⟨h.manualBans ?_, fun _ _ hl => Write.noConfusion hl⟩
    have hj : ip ≠ j := by
      rintro rfl
      exact hread (by simp [shownByHand, hrow, hflagged, hcode])
    simpa [hj] using h.record
  | @copy j r _ _ _ _ => exact ⟨h.erase j, fun _ _ hl => Write.noConfusion hl⟩
  | @forgetEnded j r _ _ =>
    refine ⟨h.manualBans ?_, fun _ _ hl => Write.noConfusion hl⟩
    by_cases hj : ip = j <;> simp [hj, h.record]
  | @forgetLifted j r _ _ _ _ =>
    refine ⟨h.manualBans ?_, fun _ _ hl => Write.noConfusion hl⟩
    by_cases hj : ip = j <;> simp [hj, h.record]
  | @restore j r _ hr _ _ =>
    have hj : j ≠ ip := by
      rintro rfl
      rw [h.record] at hr
      cases hr
    refine ⟨h.setTable _ hj, ?_⟩
    rintro _ _ ⟨⟩
    exact hj
  | @mark j r _ hr _ _ =>
    refine ⟨h.manualBans ?_, fun _ _ hl => Write.noConfusion hl⟩
    have hj : ip ≠ j := by
      rintro rfl
      rw [h.record] at hr
      cases hr
    simpa [hj] using h.record

/-- A pass begun where nothing would ban the address does not ban it. -/
theorem Free.pass {now : Int} {clears : Ip → Prop} (hstart : Free start ip) (h : Free w ip)
    (hl : EnforceWrite start now clears w l) (hfinds : l.finds ip = false) :
    Spares ip w l := by
  cases hl with
  | quiet hq =>
    refine ⟨h.quiet hq hfinds, ?_⟩
    rintro j placing rfl
    cases hq
  | @lift j lifting _ => exact ⟨h.erase j, fun _ _ hl => Write.noConfusion hl⟩
  | @clear j _ _ _ =>
    refine ⟨h.keep ?_ h.record (fun _ hc => hc) rfl h.spent, fun _ _ hl => Write.noConfusion hl⟩
    change (w.db.clearBan j).bannedUntil ip ≤ 0
    rw [Database.bannedUntil_clearBan]
    split
    · exact le_refl 0
    · exact h.term
  | abandon _ _ =>
    exact ⟨h.keep h.term h.record (fun _ hc => hc) rfl h.spent, fun _ _ hl => Write.noConfusion hl⟩
  | @settled d detail _ hstands _ _ _ =>
    refine ⟨h.commitBan ?_, fun _ _ hl => Write.noConfusion hl⟩
    rintro rfl
    rw [hstart.own] at hstands
    cases hstands
  | @reassert j _ _ _ hpos _ =>
    have hj : j ≠ ip := by
      rintro rfl
      exact absurd h.term (not_le.mpr hpos)
    refine ⟨h.setTable _ hj, ?_⟩
    rintro _ _ ⟨⟩
    exact hj
  | decide _ _ _ _ _ =>
    exact ⟨h.keep h.term h.record (fun _ hc => hc) rfl h.spent, fun _ _ hl => Write.noConfusion hl⟩
  | @ban d _ _ _ _ _ _ _ hevidence =>
    have hj : d.ip ≠ ip := by
      rintro rfl
      exact h.spent.no_evidence hevidence
    refine ⟨h.setTable _ hj, ?_⟩
    rintro _ _ ⟨⟩
    exact hj
  | @commit d e detail _ _ _ _ _ _ _ _ _ hevidence =>
    refine ⟨h.commitBan ?_, fun _ _ hl => Write.noConfusion hl⟩
    rintro rfl
    exact h.spent.no_evidence hevidence
  | fail _ _ _ =>
    exact ⟨h.keep h.term h.record (fun _ hc => hc) rfl h.spent, fun _ _ hl => Write.noConfusion hl⟩

theorem Free.forget {j : Ip} {now : Int} (h : Free w ip) (hl : ForgetWrite j now w l)
    (hfinds : l.finds ip = false) : Spares ip w l := by
  cases hl with
  | quiet hq =>
    refine ⟨h.quiet hq hfinds, ?_⟩
    rintro j placing rfl
    cases hq
  | clear =>
    refine ⟨h.keep ?_ h.record (fun _ hc => hc) rfl h.spent, fun _ _ hl => Write.noConfusion hl⟩
    change (w.db.clearBan j).bannedUntil ip ≤ 0
    rw [Database.bannedUntil_clearBan]
    split
    · exact le_refl 0
    · exact h.term
  | forget =>
    refine ⟨h.manualBans ?_, fun _ _ hl => Write.noConfusion hl⟩
    by_cases hj : ip = j <;> simp [hj, h.record]
  | lift _ => exact ⟨h.erase j, fun _ _ hl => Write.noConfusion hl⟩
  | release _ =>
    refine ⟨h.keep h.term h.record (fun code hc => ?_) rfl h.spent, fun _ _ hl => Write.noConfusion hl⟩
    by_cases hj : ip = j
    · subst hj
      cases he : w.table.get? ip <;> simp [Write.apply, World.unflag, World.holds, BanEntry.flagged, he] at hc
    · simpa [Write.apply, World.unflag, World.holds, hj] using hc

theorem Free.place {j : Ip} {now : Int} (h : Free w ip) (hl : PlaceWrite j now w l) (hj : j ≠ ip)
    (hfinds : l.finds ip = false) : Spares ip w l := by
  cases hl with
  | quiet hq =>
    refine ⟨h.quiet hq hfinds, ?_⟩
    rintro j placing rfl
    cases hq
  | remember r =>
    refine ⟨h.manualBans ?_, fun _ _ hl => Write.noConfusion hl⟩
    simpa [Ne.symm hj] using h.record
  | forget =>
    refine ⟨h.manualBans ?_, fun _ _ hl => Write.noConfusion hl⟩
    simpa [Ne.symm hj] using h.record
  | set _ =>
    refine ⟨h.setTable _ hj, ?_⟩
    rintro _ _ ⟨⟩
    exact hj

/-- A step that brings nothing back leaves the address free, and does not flag it. -/
theorem Free.write (hstart : Free start ip) (h : Free w ip) (hl : Permit m start w l)
    (hnew : (Event.write m l).renews ip = false) : Free (l.apply w) ip ∧ (Event.write m l).flags ip = false := by
  simp only [Event.renews, Bool.or_eq_false_iff] at hnew
  obtain ⟨hplaces, hfinds⟩ := hnew
  suffices hgoal : Spares ip w l by
    refine ⟨hgoal.1, ?_⟩
    cases l with
    | setTable j placing => simpa [Event.flags] using hgoal.2 j placing rfl
    | _ => rfl
  have quiet : ∀ {now : Int}, Quiet now w l → Spares ip w l := by
    intro now hq
    refine ⟨h.quiet hq hfinds, ?_⟩
    rintro j placing rfl
    cases hq
  cases hl with
  | read _ hr =>
    cases hr <;> exact ⟨h.keep h.term h.record (fun _ hc => hc) rfl h.spent, fun _ _ hl => Write.noConfusion hl⟩
  | observe _ _ ho =>
    cases ho with
    | quiet hq => exact quiet hq
    | mark _ =>
      refine ⟨h.keep ?_ h.record (fun _ hc => hc) rfl h.spent, fun _ _ hl => Write.noConfusion hl⟩
      exact (Database.bannedUntil_recordAuthenticated _ _).trans_le h.term
  | ingest _ hc hb hi =>
    refine h.ingest (hstart.read _ ?_) hi hfinds
    rw [hc]
    exact hb
  | record _ _ hq => exact quiet hq
  | pass _ hp => exact hstart.pass h hp hfinds
  | forget _ hf => exact h.forget hf hfinds
  | @place j ha hp =>
    refine h.place hp ?_ hfinds
    rintro rfl
    simp [ha, Action.places] at hplaces
  | mode _ hm =>
    cases hm <;> exact ⟨h.keep h.term h.record (fun _ hc => hc) rfl h.spent, fun _ _ hl => Write.noConfusion hl⟩
  | ladder _ hm =>
    cases hm <;> exact ⟨h.keep h.term h.record (fun _ hc => hc) rfl h.spent, fun _ _ hl => Write.noConfusion hl⟩
  | maintain _ hm =>
    cases hm with
    | retain _ hle =>
      refine ⟨h.keep ?_ h.record (fun _ hc => hc) rfl (h.spent.applyRetention hle), fun _ _ hl => Write.noConfusion hl⟩
      exact (Database.bannedUntil_applyRetention _ _).trans_le h.term
    | prune _ _ _ =>
      exact ⟨h.keep h.term h.record (fun _ hc => hc) rfl h.spent, fun _ _ hl => Write.noConfusion hl⟩

theorem not_shownByHand_rows (h : w.holds ip manualBanCode = false) : ¬ shownByHand w.rows ip := by
  unfold shownByHand
  unfold World.holds at h
  rw [World.get?_rows]
  cases he : w.table.get? ip with
  | none => simp
  | some e =>
    rw [he] at h
    simpa [Row.flagged, BanEntry.flagged] using h

theorem NextCycle.bans {c : Cycle} (h : NextCycle m start w c) (hstart : Free start ip) (hw : Free w ip)
    {bans : Dict Ip Row} (hb : c.bans = some bans) : ¬ shownByHand bans ip := by
  cases h with
  | idle => cases hb
  | same => exact hstart.read bans hb
  | @read tables _ hban _ =>
    rcases hban with hban | hban | hban
    · rw [Cycle.bans, hban] at hb
      cases hb
    · rw [Cycle.bans, hban] at hb
      cases hb
      exact not_shownByHand_rows hw.byHand
    · rw [Cycle.bans, hban] at hb
      cases hb
      simp [shownByHand]
  | observed _ hc => exact hstart.read bans (by rw [hc]; exact hb)
  | ingested _ _ => cases hb
  | recorded _ _ => cases hb

theorem Free.outside (h : Free w ip) {a : Action} (hnew : a.places ip = false) : Free (a.outside w) ip := by
  cases a with
  | restart => exact h.keep h.term h.record (fun code hc => by simp [Action.outside, World.holds] at hc) rfl h.spent
  | tick ms =>
    refine h.keep h.term h.record (fun code hc => ?_) rfl h.spent
    unfold Action.outside World.holds at hc
    rw [Dict.get?_filter] at hc
    unfold World.holds
    cases he : w.table.get? ip with
    | none => simp [he] at hc
    | some e =>
      by_cases hexp : w.clock + ms < e.expires <;> simp_all [Option.filter]
  | legacyBan j code =>
    unfold Action.outside
    dsimp only
    split
    · rename_i hcond
      obtain ⟨hcode, -⟩ := hcond
      have hother : code ≠ adaptiveBanCode ∧ code ≠ manualBanCode := by
        simp only [legacyBanCodes, List.mem_cons, List.not_mem_nil, or_false] at hcode
        unfold adaptiveBanCode manualBanCode
        omega
      refine ⟨h.term, h.record, ?_, ?_, h.read, h.spent⟩
      · by_cases hj : ip = j
        · simp [World.holds, hj, hother.1]
        · simpa [World.holds, hj] using h.own
      · by_cases hj : ip = j
        · simp [World.holds, hj, hother.2]
        · simpa [World.holds, hj] using h.byHand
    · exact h
  | socketClear j => exact h.erase j
  | socketBan j => exact h.setTable _ (by simpa [Action.places] using hnew)
  | _ => exact h.keep h.term h.record (fun _ hc => hc) rfl h.spent

theorem Free.turn {w' : World} (hstart : Free start ip) (h : Free w ip) (ht : Turn m start w w')
    (hnew : m.action.places ip = false) : Free w' ip := by
  cases ht with
  | reload => exact { h with read := fun _ hb => by cases hb }
  | cycle hc => exact { h with read := fun _ hb => hc.bans hstart h hb }
  | outside _ => exact h.outside hnew

end Step

/-- One move from a state in which nothing would ban the address. -/
theorem trace_unforced {ip : Ip} {m : Move} {w : World} (h : Free w ip) :
    unforced ip (m.trace w) ∧
      ((m.trace w).any (fun o => o.1.renews ip) ∨ Free (m.after w) ip) := by
  have hgranted : Steps (Granted (fun n v => n = m ∧ v = w)) w (m.trace w) := trace_granted ⟨rfl, rfl⟩
  unfold Move.after
  generalize m.trace w = log at hgranted ⊢
  induction log with
  | nil => exact ⟨rfl, Or.inr h⟩
  | cons o log ih =>
    obtain ⟨e, t⟩ := o
    obtain ⟨hlog, hstate⟩ := ih hgranted.2
    rcases hstate with hany | hfree
    · refine ⟨?_, Or.inl ?_⟩
      · simp [unforced, hlog, hany]
      · simp [hany]
    · cases hnew : e.renews ip with
      | true => exact ⟨by simp [unforced, hlog, hnew], Or.inl (by simp [hnew])⟩
      | false =>
        have hstep : Free t ip ∧ e.flags ip = false := by
          have he := hgranted.1
          cases e with
          | write n l =>
            obtain ⟨rfl, v, ⟨rfl, rfl⟩, -, hl⟩ := he
            exact h.write hfree hl hnew
          | turn n =>
            obtain ⟨v, ⟨rfl, rfl⟩, -, hturn⟩ := he
            exact ⟨h.turn hfree hturn hnew, rfl⟩
        exact ⟨by simp [unforced, hlog, hstep.2], Or.inr hstep.1⟩

theorem run_unforced {ip : Ip} {w : World} (h : Free w ip) (ms : List Move) : unforced ip (run w ms) := by
  induction ms generalizing w with
  | nil => rfl
  | cons m ms ih =>
    obtain ⟨htrace, hstate⟩ := trace_unforced (m := m) h
    exact unforced_append htrace (hstate.imp_right (fun hfree => ih hfree))

/-- `forget_ban` of an address that returns with `cleared`. -/
structure Unbans (ip : Ip) (f : Move) (w : World) : Prop where
  action : f.action = .forget ip
  survives : f.crash = none
  cleared : (forgetBan ip w.now f.script w).result.toOption.any Forgotten.cleared

theorem after_unban {ip : Ip} {f : Move} {w : World} (h : Unbans ip f w) :
    Forgot (f.after w) ip ∧ (f.after w).flagged ip = false ∧ (f.after w).cycle = w.cycle := by
  have hwp : WP (fun _ => True) (By (ForgetWrite ip w.now)) (forgetBan ip w.now)
      (fun r w' => r.cleared → Forgot w' ip ∧ w'.flagged ip = false) (fun _ _ => True) w :=
    wp_forgetBan closed_any (fun _ _ h _ => h) (fun _ _ _ => trivial)
  have hends := (hwp f.script trivial).2.2
  have hcleared := h.cleared
  cases hr : (forgetBan ip w.now f.script w).result with
  | error e => simp [hr, Except.toOption] at hcleared
  | ok r =>
    rw [hr] at hends hcleared
    have hafter : f.after w = { (forgetBan ip w.now).final f.script w with cycle := w.cycle } :=
      after_of_result (by rw [h.action]; rfl) h.survives hr
    obtain ⟨hforgot, hfree⟩ := hends hcleared
    rw [hafter]
    exact ⟨⟨hforgot.schedule, hforgot.record⟩, hfree, rfl⟩

theorem holds_of_not_flagged {w : World} {ip : Ip} {code : Int} (h : w.flagged ip = false) :
    w.holds ip code = false := by
  by_contra hh
  have := World.flagged_of_holds (by simpa using hh)
  rw [h] at this
  cases this

/-- An unban is not undone, whatever comes after it: unless the cycle in progress has read the
address as banned by hand, or its findings are not used up, guardd flags it only after a new
finding or at an operator's request. -/
theorem unban_stands {ip : Ip} {f : Move} {w : World} (hf : Unbans ip f w)
    (hread : ∀ bans, w.cycle.bans = some bans → ¬ shownByHand bans ip)
    (hspent : Spent (f.after w).db.events ip) (ms : List Move) : unforced ip (run (f.after w) ms) := by
  obtain ⟨hforgot, hfree, hcycle⟩ := after_unban hf
  refine run_unforced ⟨le_of_eq hforgot.schedule, hforgot.record, holds_of_not_flagged hfree,
    holds_of_not_flagged hfree, ?_, hspent⟩ ms
  rw [hcycle]
  exact hread

/-- The ban of `scanned`, lifted by hand: the next pass does not place it again. -/
theorem unban_stands_scanned :
    unforced "10.0.0.1" (run (Move.after { action := .forget "10.0.0.1" } (reached scanned (cycleOf {})))
      (cycleOf {})) := by
  refine unban_stands ⟨rfl, rfl, by decide +kernel⟩ ?_ (Or.inl (by decide +kernel)) (cycleOf {})
  intro bans hb
  have hidle : (reached scanned (cycleOf {})).cycle.bans.isNone := by decide +kernel
  rw [hb] at hidle
  cases hidle

def readByHand : World where
  table := Dict.empty.set "10.0.0.1" { gpc0 := 1, gpt0 := 50, expires := 600000000 }
  clock := 1000000
  db := { manualBans := Dict.empty.set "10.0.0.1" { placedAt := 900, expiresAt := 600000, seenAt := 990 } }
  mem := { mode := .monitor, banDurations := defaultBanDurations }
  cycle := .tablesRead 1000
    ⟨some (Dict.empty.set "10.0.0.1" { gpc0 := 1, gpt0 := 50, exp := 599000000 }), some .empty⟩

/-- `scanned`, before any pass of guardd saw it, banned by hand. -/
def bannedByHand : World :=
  { scanned with
    table := Dict.empty.set "10.0.0.1" { gpc0 := 1, gpt0 := 50, expires := 600000000 } }

/-- The poll goes on with what it read, and HAProxy restarts before the next. -/
def thenRestart : List Move :=
  [{ action := .observe }, { action := .ingest }, { action := .enforce }, { action := .tick 5000 }] ++
    { action := .restart } :: { action := .tick 5000 } :: beforePass

/-- Either is enough to undo an unban: a table read before it, or findings not yet banned for. -/
theorem unban_undone :
    (¬ ∀ (ip : Ip) (f : Move) (w : World) (ms : List Move), Unbans ip f w →
      Spent (f.after w).db.events ip → unforced ip (run (f.after w) ms)) ∧
    ¬ ∀ (ip : Ip) (f : Move) (w : World) (ms : List Move), Unbans ip f w → w.cycle.bans = none →
      unforced ip (run (f.after w) ms) := by
  constructor
  · intro h
    refine absurd (h "10.0.0.1" { action := .forget "10.0.0.1" } readByHand thenRestart
      ⟨rfl, rfl, by decide +kernel⟩ (Or.inl (by decide +kernel))) ?_
    decide +kernel
  · intro h
    refine absurd (h "10.0.0.1" { action := .forget "10.0.0.1" } bannedByHand (cycleOf {})
      ⟨rfl, rfl, by decide +kernel⟩ rfl) ?_
    decide +kernel

end EasyHaProxy.Guardd
