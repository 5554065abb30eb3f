import EasyHaProxy.Guardd.Schedule

/-! A poll that sees an address in `tbl_ip_auth` stamps its row, and the stamp keeps the address from being
banned: for good under the old policy, for seven days under U02. -/
namespace EasyHaProxy.Guardd

/-- The second of a poll, if it sees an address signed in. -/
def sighting (ip : Ip) (m : Move) (w : World) : Option Int :=
  match m.action, w.cycle with
  | .observe, .tablesRead now tables => if signedInNow tables.signedIn ip then some now else none
  | _, _ => none

/-- The last poll of a run that saw an address signed in; `t` when none did. -/
def lastSighting (ip : Ip) (w : World) (t : Int) : List Move → Int
  | [] => t
  | m :: ms => lastSighting ip (m.after w) ((sighting ip m w).getD t) ms

/-- A sign-in that is seen is stamped: the address has a row, and the daemon gets to write. -/
structure Stamps (ip : Ip) (m : Move) (w : World) (t : Int) : Prop where
  time : t ≠ 0
  row : w.db.hasRow ip
  commits : m.script.Commits
  survives : m.crash = none

structure KeepsStamp (ip : Ip) (m : Move) (w : World) : Prop where
  seen : ∀ t, sighting ip m w = some t → Stamps ip m w t
  swept : ∀ days, m.action = .maintain days → ∀ row, w.db.ipState.get? ip = some row →
    w.now - days * 86400 ≤ row.lastSeen ∨ row.bannedUntil ≠ 0

theorem authenticatedAt_applyRetention {db : Database} {ip : Ip} {eventsBefore bansBefore : Int}
    (h : ∀ row, db.ipState.get? ip = some row → eventsBefore ≤ row.lastSeen ∨ row.bannedUntil ≠ 0) :
    (db.applyRetention eventsBefore bansBefore).authenticatedAt ip = db.authenticatedAt ip := by
  unfold Database.applyRetention Database.authenticatedAt
  simp only [Dict.get?_filter]
  cases hrow : db.ipState.get? ip with
  | none => rfl
  | some row =>
    have hkept : ¬ (row.lastSeen < eventsBefore ∧ row.bannedUntil = 0) := by
      rcases h row hrow with h | h
      · omega
      · exact fun hboth => h hboth.2
    simp [Option.filter, hkept]

section Step

variable {ip : Ip} {m : Move} {start w : World} {l : Write} {t : Int}

/-- Nothing but a sighting changes a stamp that is kept. -/
theorem Permit.authenticatedAt (h : Permit m start w l) (hkept : KeepsStamp ip m start)
    (hnone : sighting ip m start = none) : (l.apply w).db.authenticatedAt ip = w.db.authenticatedAt ip := by
  cases h with
  | read _ h => cases h <;> rfl
  | observe ha hc h =>
    refine h.authenticatedAt ?_
    simpa [sighting, ha, hc] using hnone
  | record _ _ h => exact h.authenticatedAt
  | ingest _ _ _ h =>
    cases h with
    | quiet h => exact h.authenticatedAt
    | _ => rfl
  | pass _ h =>
    cases h with
    | quiet h => exact h.authenticatedAt
    | clear _ _ _ => exact Database.authenticatedAt_clearBan
    | settled _ _ _ _ _ => exact Database.authenticatedAt_commitBan _ _ _ _ _
    | commit _ _ _ _ _ _ _ _ _ _ => exact Database.authenticatedAt_commitBan _ _ _ _ _
    | _ => rfl
  | forget _ h =>
    cases h with
    | quiet h => exact h.authenticatedAt
    | clear => exact Database.authenticatedAt_clearBan
    | _ => rfl
  | place _ h =>
    cases h with
    | quiet h => exact h.authenticatedAt
    | _ => rfl
  | mode _ h => cases h <;> rfl
  | ladder _ h => cases h <;> rfl
  | maintain ha h =>
    cases h with
    | retain hfirst _ =>
      subst hfirst
      exact authenticatedAt_applyRetention (hkept.swept _ ha)
    | prune _ _ _ => rfl

theorem passAt_of_sighting (h : sighting ip m w = some t) : m.passAt w = none := by
  unfold sighting at h
  split at h
  · rename_i now tables ha hc
    simp [Move.passAt, ha]
  · cases h

theorem trace_keeps_stamp (hkept : KeepsStamp ip m w) (hnone : sighting ip m w = none)
    (ht : w.db.authenticatedAt ip = t) :
    Steps (fun s e s' => s.db.authenticatedAt ip = t ∧ Granted (fun n v => n = m ∧ v = w) s e s') w (m.trace w) ∧
      (m.after w).db.authenticatedAt ip = t := by
  have hstep : ∀ s e s', s.db.authenticatedAt ip = t → Granted (fun n v => n = m ∧ v = w) s e s' →
      s'.db.authenticatedAt ip = t := by
    intro s e s' hs he
    cases e with
    | write n l =>
      obtain ⟨rfl, v, ⟨rfl, rfl⟩, -, hl⟩ := he
      exact (hl.authenticatedAt hkept hnone).trans hs
    | turn n =>
      obtain ⟨v, -, -, hturn⟩ := he
      rw [hturn.db]
      exact hs
  have hgranted : Steps (Granted (fun n v => n = m ∧ v = w)) w (m.trace w) := trace_granted ⟨rfl, rfl⟩
  exact ⟨hgranted.strengthen ht hstep, hgranted.keeps ht hstep⟩

/-- A poll that sees the address leaves its second on the row. -/
theorem sighting_stamps (hseen : sighting ip m w = some t) (hs : Stamps ip m w t) :
    (m.after w).db.authenticatedAt ip = t := by
  unfold sighting at hseen
  split at hseen
  · rename_i now tables ha hc
    split at hseen
    · rename_i hshown
      obtain rfl : now = t := Option.some.inj hseen
      have hp : m.action.program w = some (do observeTables tables now; pure (.observed now tables)) := by
        rw [ha]
        simp only [Action.program, hc]
      have hobserve : WP Script.Commits (By (ObserveWrite tables.signedIn now))
          (do observeTables tables now; pure (Cycle.observed now tables))
          (fun _ w' => w'.db.authenticatedAt ip = now) (fun _ _ => False) w :=
        WP.bind (wp_observeTables closed_commits (fun w' _ h => WP.pure (h ip hshown hs.row))
          (fun _ _ h => h sqlDone_commits))
      obtain ⟨c, w', hafter, hw'⟩ := after_of_wp hp hs.survives hobserve hs.commits
      rw [hafter]
      exact hw'
    · cases hseen
  · cases hseen

end Step

/-- A run whose moves keep the stamp carries the second of the last poll that saw the address. -/
theorem reached_stamp {ip : Ip} {w : World} {t : Int} {ms : List Move} (hkept : Meets (KeepsStamp ip) w ms)
    (ht : w.db.authenticatedAt ip = t) (hne : t ≠ 0) :
    (reached w ms).db.authenticatedAt ip = lastSighting ip w t ms ∧ lastSighting ip w t ms ≠ 0 := by
  induction ms generalizing w t with
  | nil => exact ⟨ht, hne⟩
  | cons m ms ih =>
    rw [reached_cons]
    cases hseen : sighting ip m w with
    | none =>
      simp only [lastSighting, hseen, Option.getD_none]
      exact ih hkept.2 (trace_keeps_stamp hkept.1 hseen ht).2 hne
    | some t' =>
      have hs := hkept.1.seen t' hseen
      simp only [lastSighting, hseen, Option.getD_some]
      exact ih hkept.2 (sighting_stamps hseen hs) hs.time

/-- What a stamp other than 0 demands of a ban. -/
theorem lapsed_of_evidence {w : World} {now : Int} {ip : Ip} (h : Evidence w now ip)
    (hne : w.db.authenticatedAt ip ≠ 0) :
    w.mem.banPolicy = .u02 ∧ w.db.authenticatedAt ip < now - trustAfterSignInSeconds := by
  have hb := h.blockers
  simp only [banBlockers, List.append_eq_nil_iff, hne, if_false] at hb
  obtain ⟨⟨-, hsigned⟩, -⟩ := hb
  split at hsigned
  · cases hsigned
  · rename_i hpolicy
    split at hsigned
    · cases hsigned
    · rename_i hold
      exact ⟨not_not.mp hpolicy, not_le.mp hold⟩

/-- A step bans an address last seen signed in at `last` only under U02 and seven days later;
what it asserts again has a term on the schedule. -/
def respectsSignIn (ip : Ip) (last : Int) (w : World) : Event → Bool
  | .write m (.setTable j (.decision _)) => j ≠ ip ∨ w.mem.banPolicy = .u02 ∧
    (m.passAt w).any (fun now => last < now - trustAfterSignInSeconds)
  | .write _ (.setTable j .reassert) => j ≠ ip ∨ 0 < w.db.bannedUntil ip
  | _ => true

theorem respectsSignIn_of_not_adaptive {ip : Ip} {last : Int} {w : World} {m : Move} {l : Write}
    (h : l.adaptive ip = false) : respectsSignIn ip last w (.write m l) := by
  cases l with
  | setTable j placing =>
    cases placing <;> simp_all [respectsSignIn, Write.adaptive, Placing.code]
  | _ => rfl

/-- Once a poll has seen an address signed in and stamped it, and while the stamp is kept, every
later move respects the last sign-in that was seen. -/
theorem signed_in_not_banned {ip : Ip} {w : World} {o : Move} {t : Int} {ms : List Move} {m : Move}
    (hseen : sighting ip o w = some t) (hkept : Meets (KeepsStamp ip) w (o :: ms))
    (hm : KeepsStamp ip m (reached w (o :: ms))) :
    Steps (fun s e _ => respectsSignIn ip (lastSighting ip w t (o :: ms)) s e)
      (reached w (o :: ms)) (m.trace (reached w (o :: ms))) := by
  have hs := hkept.1.seen t hseen
  have hlast : lastSighting ip w t (o :: ms) = lastSighting ip (o.after w) t ms := by
    simp [lastSighting, hseen]
  obtain ⟨hstamp, hne⟩ := reached_stamp hkept.2 (sighting_stamps hseen hs) hs.time
  rw [reached_cons] at hm ⊢
  rw [hlast]
  generalize reached (o.after w) ms = v at hm hstamp ⊢
  generalize lastSighting ip (o.after w) t ms = last at hstamp hne ⊢
  cases hsight : sighting ip m v with
  | some _ =>
    -- A move that observes the tables bans nobody.
    have hgranted : Steps (Granted (fun n u => n = m ∧ u = v)) v (m.trace v) := trace_granted ⟨rfl, rfl⟩
    refine hgranted.mono ?_
    intro s e s' he
    cases e with
    | turn n => rfl
    | write n l =>
      obtain ⟨-, u, ⟨rfl, rfl⟩, -, hl⟩ := he
      refine respectsSignIn_of_not_adaptive ?_
      by_contra hadaptive
      obtain ⟨now, hp, -⟩ := hl.adaptive (by simpa using hadaptive)
      cases (passAt_of_sighting hsight).symm.trans hp
  | none =>
    refine (trace_keeps_stamp hm hsight hstamp).1.mono ?_
    rintro s e s' ⟨hst, he⟩
    cases e with
    | turn n => rfl
    | write n l =>
      obtain ⟨-, u, ⟨rfl, rfl⟩, hwithin, hl⟩ := he
      by_cases hadaptive : l.adaptive ip
      · obtain ⟨now, hp, hpass⟩ := hl.adaptive hadaptive
        cases hpass with
        | quiet h => exact respectsSignIn_of_not_adaptive (by cases h <;> rfl)
        | @reassert j _ _ _ hpos _ =>
          by_cases hj : j = ip
          · subst hj
            simp [respectsSignIn, hpos]
          · simp [respectsSignIn, hj]
        | @ban d _ _ _ _ _ _ _ hev =>
          by_cases hj : d.ip = ip
          · subst hj
            obtain ⟨hpolicy, hold⟩ := lapsed_of_evidence hev (by rw [hst]; exact hne)
            rw [hst] at hold
            simp [respectsSignIn, hpolicy, hwithin.passAt.trans hp, hold]
          · simp [respectsSignIn, hj]
        | _ => rfl
      · exact respectsSignIn_of_not_adaptive (by simpa using hadaptive)

/-- A poll has read the tables: 10.0.0.1 is signed in. The daemon may know it already. -/
def signedInAt (rows : Dict Ip IpState) : World where
  clock := 200010000
  db := { ipState := rows }
  mem := { mode := .enforce, banDurations := defaultBanDurations }
  cycle := .tablesRead 200010 ⟨some .empty, some (Dict.empty.set "10.0.0.1" 1)⟩

def knownAddress : Dict Ip IpState :=
  Dict.empty.set "10.0.0.1" { family := 4, enforceable := true, firstSeen := 200000, lastSeen := 200000 }

/-- The rest of the poll, the end of the session, `between`, and a poll with two findings, up
to its pass. -/
def lapsed (between : List Move) : List Move :=
  { action := .ingest } :: { action := .enforce } :: { action := .signIns .empty } :: between ++ beforePass ++
    [{ action := .record
        [{ ip := "10.0.0.1", eventType := .scannerDecisive, source := "log", category := "secrets"
           fingerprint := some "secrets" },
         { ip := "10.0.0.1", eventType := .scannerDecisive, source := "log", category := "backup"
           fingerprint := some "backup" }] }]

theorem keepsStamp_of_unseen {ip : Ip} {m : Move} {w : World} (hseen : sighting ip m w = none)
    (hm : ∀ days, m.action ≠ .maintain days) : KeepsStamp ip m w where
  seen := by
    intro t ht
    rw [hseen] at ht
    cases ht
  swept := fun days h => absurd h (hm days)

/-- An address the daemon knew is let alone after its session. -/
theorem signed_in_not_banned_known :
    Steps (fun s e _ => respectsSignIn "10.0.0.1"
        (lastSighting "10.0.0.1" (signedInAt knownAddress) 200010 ({ action := .observe } :: lapsed [])) s e)
      (reached (signedInAt knownAddress) ({ action := .observe } :: lapsed []))
      (Move.trace { action := .enforce } (reached (signedInAt knownAddress) ({ action := .observe } :: lapsed []))) := by
  have hseen : sighting "10.0.0.1" { action := .observe } (signedInAt knownAddress) = some 200010 := by
    decide +kernel
  have hfirst : KeepsStamp "10.0.0.1" { action := .observe } (signedInAt knownAddress) := by
    refine ⟨fun t ht => ?_, fun _ h => Action.noConfusion h⟩
    obtain rfl : (200010 : Int) = t := Option.some.inj (hseen.symm.trans ht)
    exact ⟨by decide, by decide +kernel, List.forall_mem_nil _, rfl⟩
  have hrest : Meets (KeepsStamp "10.0.0.1") (Move.after { action := .observe } (signedInAt knownAddress))
      (lapsed []) := by
    refine ⟨?_, ?_, ?_, ?_, ?_, ?_, ?_, trivial⟩
    all_goals exact keepsStamp_of_unseen (by decide +kernel) (fun _ h => Action.noConfusion h)
  exact @signed_in_not_banned "10.0.0.1" (signedInAt knownAddress) { action := .observe } 200010 (lapsed [])
    { action := .enforce } hseen ⟨hfirst, hrest⟩ (keepsStamp_of_unseen (by decide +kernel) (fun _ h => Action.noConfusion h))

/-- A sign-in the daemon had no row for, or whose row was swept a day later, does not count:
the two findings after it are enough for a ban under the old policy. -/
theorem signed_in_banned :
    (¬ ∀ (ip : Ip) (w : World) (o : Move) (t : Int) (ms : List Move) (m : Move), enforceable ip →
      sighting ip o w = some t → (∀ n ∈ ms, ∀ days, n.action ≠ .maintain days) →
      Steps (fun s e _ => respectsSignIn ip (lastSighting ip w t (o :: ms)) s e)
        (reached w (o :: ms)) (m.trace (reached w (o :: ms)))) ∧
    ¬ ∀ (ip : Ip) (w : World) (o : Move) (t : Int) (ms : List Move) (m : Move), enforceable ip →
      sighting ip o w = some t → w.db.hasRow ip →
      Steps (fun s e _ => respectsSignIn ip (lastSighting ip w t (o :: ms)) s e)
        (reached w (o :: ms)) (m.trace (reached w (o :: ms))) := by
  constructor
  · intro h
    refine absurd (h "10.0.0.1" (signedInAt .empty) { action := .observe } 200010 (lapsed [])
      { action := .enforce } (by decide +kernel) (by decide +kernel) (by simp [lapsed, beforePass])) ?_
    decide +kernel
  · intro h
    refine absurd (h "10.0.0.1" (signedInAt knownAddress) { action := .observe } 200010
      (lapsed [{ action := .tick 172800000 }, { action := .maintain 1 }]) { action := .enforce }
      (by decide +kernel) (by decide +kernel) (by decide +kernel)) ?_
    decide +kernel

end EasyHaProxy.Guardd
