import EasyHaProxy.Guardd.Enforcement

/-! The ban loop asks `newest_finding_ts` for something newer than the last ban; the score asks the weights.
-/
namespace EasyHaProxy.Guardd

/-- What `newest_finding_ts` takes for a finding and `score_events` gives nothing for. -/
def weightless (policy : BanPolicy) (e : SecurityEvent) : Bool :=
  excused e || e.eventType = .hardFloorTrusted || e.eventType = .legacyBanLifted ||
    match policy with
    | .legacy => e.eventType = .hardFloor
    | .u02 => e.eventType.telemetry

theorem counts_iff {policy : BanPolicy} {ip : Ip} {e : SecurityEvent} :
    e.ip = ip ∧ counts policy e ↔ Database.isFinding ip e ∧ weightless policy e = false := by
  unfold counts weightless Database.isFinding ownBanObservation
  cases ht : e.eventType <;> cases policy <;>
    simp [EventType.weight, EventType.defaultWeight, EventType.telemetry, excused,
      EventType.notExcused, ht, and_assoc]

/-- After each ban of an address came something that counts. -/
def Renewed (policy : BanPolicy) (db : Database) (ip : Ip) : Prop :=
  ∀ b ∈ db.events, Database.isBan ip b → ∃ e ∈ db.events, e.ip = ip ∧ b.ts < e.ts ∧ counts policy e

/-- Since one of its bans, nothing but weightless findings of an address. -/
def OnlyWeightless (policy : BanPolicy) (db : Database) (ip : Ip) : Prop :=
  ∃ b ∈ db.events, Database.isBan ip b ∧
    ∀ e ∈ db.events, Database.isFinding ip e → b.ts < e.ts → weightless policy e

theorem renewed_iff {policy : BanPolicy} {db : Database} {ip : Ip} :
    Renewed policy db ip ↔ ¬ OnlyWeightless policy db ip := by
  constructor
  · rintro h ⟨b, hb, hban, honly⟩
    obtain ⟨e, he, hip, hlater, hcounts⟩ := h b hb hban
    obtain ⟨hfinding, hw⟩ := counts_iff.mp ⟨hip, hcounts⟩
    exact absurd (honly e he hfinding hlater) (by simp [hw])
  · intro h b hb hban
    by_contra hnone
    refine h ⟨b, hb, hban, fun e he hfinding hlater => ?_⟩
    by_contra hw
    obtain ⟨hip, hcounts⟩ := counts_iff.mpr ⟨hfinding, by simpa using hw⟩
    exact hnone ⟨e, he, hip, hlater, hcounts⟩

/-- A decision to ban an address is carried out. -/
def Write.bans (ip : Ip) : Write → Bool
  | .setTable j (.decision _) => j = ip
  | _ => false

/-- A program bans an address. -/
def Bans {α : Type} (p : M α) (i : Script) (w : World) (ip : Ip) : Prop :=
  ∃ e ∈ (p i w).log, e.1.bans ip

theorem Bans.bind_left {α β : Type} {p : M α} {f : α → M β} {i : Script} {w : World} {ip : Ip}
    (h : Bans p i w ip) : Bans (p >>= f) i w ip :=
  h.imp fun _ h => ⟨Prog.mem_log_bind_left h.1, h.2⟩

theorem Bans.bind {α β : Type} {p : M α} {f : α → M β} {i : Script} {w : World} {ip : Ip} {a : α}
    (ha : (p i w).result = .ok a) (h : Bans (f a) (p i w).oracle (p.final i w) ip) :
    Bans (p >>= f) i w ip :=
  h.imp fun _ h => ⟨Prog.mem_log_bind ha h.1, h.2⟩

section Row

variable {w : World} {now : Int} {ip : Ip} {scheduled standing : Dict Ip Int}

/-- Writes that ban an address only where `P` holds. -/
def BansOnly (ip : Ip) (P : Prop) (_ : World) (l : Write) : Prop := l.bans ip → P

theorem qualifies_of_bans {i : Script} (h : Bans (considerRow scheduled standing now ip) i w ip) :
    w.mem.mode = .enforce ∧ qualifies w now ip scheduled standing := by
  have hwp : WP (fun _ => True)
      (By (BansOnly ip (w.mem.mode = .enforce ∧ qualifies w now ip scheduled standing)))
      (considerRow scheduled standing now ip) (fun _ _ => True) (fun _ _ => True) w := by
    refine WP.bind (WP.get (WP.when (fun hq => ?_) (fun _ => trivial)))
    refine WP.bind (wp_recordDecision closed_any Bool.noConfusion ?_ (fun _ => trivial))
    refine WP.bind (wp_ban closed_any (fun _ => ?_) (fun hmode _ _ => ⟨hmode, hq⟩) (fun _ _ => ?_)
      (fun _ => ?_) (fun _ _ _ _ _ => ⟨trivial, trivial⟩))
    · exact WP.bind (wp_sql closed_any Bool.noConfusion
        (wp_remember Bool.noConfusion trivial) (fun _ => trivial))
    · exact wp_sql closed_any Bool.noConfusion trivial (fun _ => trivial)
    · exact WP.bind (wp_sql closed_any Bool.noConfusion
        (wp_remember Bool.noConfusion trivial) (fun _ => trivial))
  obtain ⟨e, he, hbans⟩ := h
  obtain ⟨s, -, hs⟩ := (hwp i trivial).2.1.mem he
  exact hs hbans

/-- An address that qualifies is banned when everything is answered. -/
theorem bans_of_qualifies (hmode : w.mem.mode = .enforce) (h : qualifies w now ip scheduled standing) :
    Bans (considerRow scheduled standing now ip) {} w ip := by
  have henf := enforceable_of_evidence (evidence_of_qualifies h)
  have hban : ∀ id s, s.mem.mode = .enforce → Bans (Enforcer.ban ip (.decision id)) {} s ip := by
    intro id s hs
    refine Bans.bind rfl ?_
    rw [if_neg (not_not.mpr hs), if_neg (by simpa using henf)]
    exact ⟨_, List.mem_singleton_self _, by simp [Write.bans]⟩
  refine Bans.bind rfl ?_
  rw [Prog.when, if_pos h]
  exact Bans.bind rfl (Bans.bind_left (hban _ _ hmode))

end Row

theorem EnforceWrite.evidence {start w : World} {now : Int} {clears : Ip → Prop} {l : Write} {ip : Ip}
    (h : EnforceWrite start now clears w l) (hbans : l.bans ip) : Evidence w now ip := by
  cases h with
  | ban _ _ _ _ _ _ _ hevidence =>
    obtain rfl : _ = ip := by simpa [Write.bans] using hbans
    exact hevidence
  | quiet h => cases h <;> cases hbans
  | _ => cases hbans

/-- An address with a ban behind it is banned again only on something new that counts,
exactly unless it qualifies and all that is newer than one of its bans is weightless; and so
for every ban of a whole pass. -/
theorem bans_on_new_evidence_iff (w : World) (now : Int) :
    (∀ ip scheduled standing,
      (∀ i, Bans (considerRow scheduled standing now ip) i w ip → Renewed w.mem.banPolicy w.db ip) ↔
        ¬ (w.mem.mode = .enforce ∧ qualifies w now ip scheduled standing ∧
          OnlyWeightless w.mem.banPolicy w.db ip)) ∧
    ∀ i, Steps (fun s l _ => ∀ ip, l.bans ip →
      (Renewed s.mem.banPolicy s.db ip ↔
        ¬ (Evidence s now ip ∧ OnlyWeightless s.mem.banPolicy s.db ip))) w (applyEnforcement now i w).log := by
  refine ⟨fun ip scheduled standing => ⟨?_, ?_⟩, fun i => ?_⟩
  · rintro h ⟨hmode, hq, honly⟩
    exact renewed_iff.mp (h {} (bans_of_qualifies hmode hq)) honly
  · intro h i hbans
    obtain ⟨hmode, hq⟩ := qualifies_of_bans hbans
    exact renewed_iff.mpr (fun honly => h ⟨hmode, hq, honly⟩)
  · have hpass : WP (fun _ => True) (By (EnforceWrite w now (Clears (ReadsDone (fun _ => True)) w now)))
        (applyEnforcement now) (fun _ _ => True) (fun _ _ => True) w :=
      wp_applyEnforcement closed_any (fun _ _ => trivial) (fun _ _ _ => trivial)
    refine (hpass i trivial).2.1.mono ?_
    rintro s l t ⟨-, hl⟩ ip hbans
    have hevidence := hl.evidence hbans
    rw [renewed_iff]
    exact ⟨fun h hr => h hr.2, fun h honly => h ⟨hevidence, honly⟩⟩

/-- Two scans an hour before, the ban for them served, and since then one request that HAProxy
refused. -/
def servedItsTime : World where
  clock := 5000000
  db :=
    { ipState := Dict.empty.set "10.0.0.1"
        { family := 4, enforceable := true, firstSeen := 1000, lastSeen := 4990 }
      events :=
        [{ id := 1, ts := 1000, ip := "10.0.0.1", eventType := .scannerDecisive, category := "secrets" },
         { id := 2, ts := 1001, ip := "10.0.0.1", eventType := .scannerDecisive, category := "backup" },
         { id := 3, ts := 1010, ip := "10.0.0.1", eventType := .banApplied },
         { id := 4, ts := 4990, ip := "10.0.0.1", eventType := .scannerPath, handled := true }] }
  mem := { mode := .enforce, banDurations := defaultBanDurations }

/-- A whole pass bans it again on the two scans. -/
theorem banned_again_on_old_evidence :
    ¬ ∀ (w : World) (i : Script) (ip : Ip), Bans (applyEnforcement w.now) i w ip →
      Renewed w.mem.banPolicy w.db ip := by
  intro h
  have hbans : ∃ e ∈ (applyEnforcement servedItsTime.now {} servedItsTime).log, e.1.bans "10.0.0.1" := by
    decide +kernel
  refine renewed_iff.mp (h servedItsTime {} "10.0.0.1" hbans) ?_
  exact ⟨_, List.mem_cons_of_mem _ (List.mem_cons_of_mem _ List.mem_cons_self), by decide +kernel, by decide +kernel⟩

end EasyHaProxy.Guardd
